import DinnerRush.Ingestion.Service

/-!
# The statements of the ingestion service

What every statement of a request or a relay round does to the database, under a discipline for the
service. The locks that a transaction takes guard the absence of the unique values it inserts
(`guarding`), so what it found absent stays absent until it commits (`Inserted`). Each statement has
one rule, `wp_insertOrder`, `wp_commit` and so on, and a transaction is verified by its body
(`wp_transaction`).
-/

set_option autoImplicit false
set_option relaxedAutoImplicit false

namespace DinnerRush.Ingestion

open Concurrency Discipline

/-! ### What the locks guard -/

/-- A lock on a unique value guards whether a row has the value. -/
def guarding : Guarding Db Key Write where
  apply := Db.apply
  Touches write key :=
    match write with
    | .insertOrder row => key = .idempotencyKey row.idempotencyKey ∨ key = .orderId row.orderId
    | .enqueue row => key = .outbox row.id
    | .stamp _ => False
  Same key d d' :=
    match key with
    | .idempotencyKey value => (∃ row ∈ d.orders, row.idempotencyKey = value) ↔
        ∃ row ∈ d'.orders, row.idempotencyKey = value
    | .orderId value => (∃ row ∈ d.orders, row.orderId = value) ↔
        ∃ row ∈ d'.orders, row.orderId = value
    | .outbox id => id ∈ d.outbox.map OutboxRow.id ↔ id ∈ d'.outbox.map OutboxRow.id
  same_refl key _ := by cases key <;> exact Iff.rfl
  same_trans key _ _ _ h h' := by cases key <;> exact Iff.trans h h'
  same_apply key d write h := by
    cases write with
    | insertOrder row =>
      rw [not_or] at h
      cases key with
      | idempotencyKey value =>
        have hne : row.idempotencyKey ≠ value := by
          rintro rfl
          exact h.1 rfl
        simp [Db.apply, or_and_right, exists_or, hne]
      | orderId value =>
        have hne : row.orderId ≠ value := by
          rintro rfl
          exact h.2 rfl
        simp [Db.apply, or_and_right, exists_or, hne]
      | outbox id => exact Iff.rfl
    | enqueue row =>
      cases key with
      | outbox id =>
        have hne : id ≠ row.id := by
          rintro rfl
          exact h rfl
        simp [Db.apply, hne]
      | _ => exact Iff.rfl
    | stamp ids =>
      cases key with
      | outbox id => 
        show _ ↔ id ∈ (Outbox.stamp ids d.outbox).map OutboxRow.id
        rw [Outbox.map_stamp OutboxRow.id fun _ ↦ rfl]
      | _ => exact Iff.rfl

/-! ### The discipline -/

/-- The `order.placed` event of an order, apart from its id and time. -/
def placedData (row : OrderRow) : Data :=
  { idempotencyKey := some row.idempotencyKey, customerId := some row.customerId,
    restaurantId := some row.restaurantId, items := some row.items,
    totalCents := some row.totalCents }

/-- The outbox row carries the event of the order. -/
structure Announces (event : OutboxRow) (row : OrderRow) : Prop where
  exchange : event.exchange = .events
  routingKey : event.routingKey = rkPlaced
  type : event.payload.type = .placed
  orderId : event.payload.orderId = row.orderId
  data : event.payload.data = placedData row

/-- The unique columns are unique, the orders and the events of the outbox correspond in order, the
ids of the outbox are drawn from the sequence, what is stamped was sent, and what was sent is in the
outbox. -/
structure Sound (s : Shared) : Prop where
  keys : Table.Unique OrderRow.idempotencyKey s.db.committed.orders
  orderIds : Table.Unique OrderRow.orderId s.db.committed.orders
  totals : ∀ row ∈ s.db.committed.orders, row.totalCents = totalOfItems row.items
  events : List.Forall₂ Announces s.db.committed.outbox s.db.committed.orders
  outboxIds : Table.Unique OutboxRow.id s.db.committed.outbox
  drawn : ∀ row ∈ s.db.committed.outbox, row.id < s.outboxSeq
  locks : ∀ id thread, s.db.owner (.outbox id) = some thread → id < s.outboxSeq
  stamped : ∀ row ∈ s.db.committed.outbox, row.published = true → Outbox.unstamped row ∈ s.sent
  sent : ∀ row ∈ s.sent, ∃ row' ∈ s.db.committed.outbox, Outbox.unstamped row' = row

/-- Orders are never changed, rows of the outbox are only stamped, and nothing sent is taken
back. -/
structure Grows (s s' : Shared) : Prop where
  orders : ∀ row ∈ s.db.committed.orders, row ∈ s'.db.committed.orders
  outbox : ∀ row ∈ s.db.committed.outbox,
    ∃ row' ∈ s'.db.committed.outbox, Outbox.unstamped row' = Outbox.unstamped row
  sent : s.sent <+: s'.sent
  outboxSeq : s.outboxSeq ≤ s'.outboxSeq

theorem Grows.refl (s : Shared) : Grows s s :=
  ⟨fun _ h ↦ h, fun row h ↦ ⟨row, h, rfl⟩, List.prefix_rfl, Nat.le_refl _⟩

theorem Grows.trans {s₁ s₂ s₃ : Shared} (h : Grows s₁ s₂) (h' : Grows s₂ s₃) : Grows s₁ s₃ where
  orders row hrow := h'.orders row (h.orders row hrow)
  outbox row hrow := by
    obtain ⟨row₂, hrow₂, hsame₂⟩ := h.outbox row hrow
    obtain ⟨row₃, hrow₃, hsame₃⟩ := h'.outbox row₂ hrow₂
    exact ⟨row₃, hrow₃, hsame₃.trans hsame₂⟩
  sent := h.sent.trans h'.sent
  outboxSeq := Nat.le_trans h.outboxSeq h'.outboxSeq

/-- What a thread relies on: its transaction is kept, and the service only grows. -/
structure Relies (thread : ℕ) (s s' : Shared) : Prop extends Grows s s' where
  kept : s.db.Kept guarding thread s'.db

/-- An answer names the order recorded for its key; the accepting answer recorded it. -/
def Answers (thread : ℕ) (response : Response) (s : Shared) : Prop :=
  ∃ row ∈ s.db.committed.orders, row.idempotencyKey = response.idempotencyKey ∧
    row.orderId = response.orderId ∧ (response.status = "accepted" → row.xmin = thread)

def discipline : Discipline service where
  Permit := World.anyEffect
  Inv := Sound
  Rely := Relies
  Fresh _ _ := True
  Post thread answer s := ∀ response, answer = some response → Answers thread response s
  rely_refl := fun thread s ↦ ⟨Grows.refl s, Transactions.Kept.refl thread s.db⟩
  rely_trans := fun _ _ _ _ h h' ↦ ⟨h.toGrows.trans h'.toGrows, h.kept.trans h'.kept⟩
  fresh_rely := fun _ _ _ _ _ ↦ trivial

/-- The precondition of a part of a program. Nothing is asked of a raised error: a request answers
500, and the relay starts over. -/
abbrev Verifies {β : Type} (thread : ℕ) (Q : β → Shared → Prop) (program : Proc β) (s : Shared) :
    Prop :=
  discipline.wp thread Q (fun _ _ ↦ True) program s

variable {thread : ℕ} {s s' : Shared} {β : Type}

theorem permanent_order (P : OrderRow → Prop) :
    discipline.Permanent fun s ↦ ∃ row ∈ s.db.committed.orders, P row := by
  rintro _ s s' hrely ⟨row, hrow, hP⟩
  exact ⟨row, hrely.orders row hrow, hP⟩

/-- A step that leaves the committed database, the log of the relay and the sequence alone. -/
theorem sound_of_committed (hinv : Sound s) {db : Store}
    (hcommitted : db.committed = s.db.committed)
    (howner : ∀ id other, db.owner (.outbox id) = some other → id < s.outboxSeq) :
    Sound { s with db := db } ∧ Grows s { s with db := db } := by
  constructor
  · constructor
    all_goals simp only [hcommitted]
    · exact hinv.keys
    · exact hinv.orderIds
    · exact hinv.totals
    · exact hinv.events
    · exact hinv.outboxIds
    · exact hinv.drawn
    · exact howner
    · exact hinv.stamped
    · exact hinv.sent
  · constructor
    all_goals simp only [hcommitted]
    · exact fun _ h ↦ h
    · exact fun row h ↦ ⟨row, h, rfl⟩
    · exact List.prefix_rfl
    · exact Nat.le_refl _

theorem respects_of_kept (hinv : Sound s) {db : Store} (hcommitted : db.committed = s.db.committed)
    (howner : ∀ id other, db.owner (.outbox id) = some other → id < s.outboxSeq)
    (hkept : ∀ other, other ≠ thread → s.db.Kept guarding other db) :
    discipline.Respects thread s { s with db := db } := by
  obtain ⟨hsound, hgrows⟩ := sound_of_committed hinv hcommitted howner
  exact ⟨hsound, fun other hne ↦ ⟨hgrows, hkept other hne⟩⟩

theorem owner_released (hinv : Sound s) {id other : ℕ}
    (h : s.db.released thread (.outbox id) = some other) : id < s.outboxSeq := by
  unfold Transactions.released at h
  split at h
  · cases h
  · exact hinv.locks id other h

/-! ### The statements -/

/-- What a thread knows inside its transaction: what it has written, which locks it holds, and an
assertion on the database that these locks guard. -/
def Tx (thread : ℕ) (writes : List Write) (keys : Key → Prop) (P : Db → Prop) (s : Shared) : Prop :=
  s.db.InTransaction thread writes keys P

/-- The transaction has only just begun, or only read. -/
abbrev Begun (thread : ℕ) : Shared → Prop :=
  Tx thread [] (fun _ ↦ False) (fun _ ↦ True)

theorem Tx.rely {writes : List Write} {keys : Key → Prop} {P : Db → Prop}
    (h : Tx thread writes keys P s) (hrely : Relies thread s s')
    (hP : ∀ d d', (∀ key, keys key → guarding.Same key d d') → P d → P d') :
    Tx thread writes keys P s' :=
  Transactions.InTransaction.kept h hrely.kept hP

theorem Begun.rely (h : Begun thread s) (hrely : Relies thread s s') : Begun thread s' :=
  Tx.rely h hrely fun _ _ _ _ ↦ trivial

theorem view_of_pending {writes : List Write} (h : s.db.pending thread = some writes) :
    s.view thread = writes.foldl Db.apply s.db.committed := by
  rw [Shared.view, Transactions.view, h]
  rfl

/-- A failed effect that changed nothing. -/
theorem wp_raise_of_inv (hinv : Sound s) {Q : β → Shared → Prop} {error : Failure} :
    discipline.Respects thread s s ∧ Verifies thread Q (.raise error) s :=
  ⟨⟨hinv, fun other _ ↦ discipline.rely_refl other s⟩, fun _ _ _ ↦ trivial⟩

theorem wp_newUuid {Q : String → Shared → Prop}
    (h : ∀ s₁ text, discipline.Rely thread s s₁ → discipline.Always thread (Q text) s₁) :
    Verifies thread Q (perform .newUuid) s := by
  apply wp_call
  intro s₁ hrely hinv choice reply s₂ _ hexec
  cases choice with
  | uuid text =>
    obtain ⟨rfl, rfl⟩ := Prod.mk.inj (Option.some.inj hexec)
    exact ⟨⟨hinv, fun other _ ↦ discipline.rely_refl other _⟩, h _ text hrely⟩
  | _ => cases hexec

theorem wp_newStamp {Q : Stamp → Shared → Prop}
    (h : ∀ s₁ stamp, discipline.Rely thread s s₁ → discipline.Always thread (Q stamp) s₁) :
    Verifies thread Q (perform .newStamp) s := by
  apply wp_call
  intro s₁ hrely hinv choice reply s₂ _ hexec
  cases choice with
  | stamp stamp =>
    obtain ⟨rfl, rfl⟩ := Prod.mk.inj (Option.some.inj hexec)
    exact ⟨⟨hinv, fun other _ ↦ discipline.rely_refl other _⟩, h _ stamp hrely⟩
  | _ => cases hexec

theorem wp_begin {Q : Unit → Shared → Prop}
    (h : ∀ s₁, Begun thread s₁ → Q () s₁) : Verifies thread Q (perform .begin) s := by
  apply wp_call
  intro s₁ _ hinv choice reply s₂ _ hexec
  cases choice with
  | done =>
    obtain ⟨rfl, rfl⟩ := Prod.mk.inj (Option.some.inj hexec)
    constructor
    · exact respects_of_kept hinv rfl (fun id other ↦ Sound.locks hinv id other)
        fun other hne ↦ Transactions.kept_begin hne
    · have hbegun : Begun thread { s₁ with db := Transactions.begin thread s₁.db } :=
        fun _ ↦ ⟨Function.update_self _ _ _, fun _ h ↦ h.elim, trivial⟩
      exact fun s₂ hrely _ ↦ h s₂ (hbegun.rely hrely)
  | lost text =>
    obtain ⟨rfl, rfl⟩ := Prod.mk.inj (Option.some.inj hexec)
    exact wp_raise_of_inv hinv
  | _ => cases hexec

theorem wp_rollback {Q : Unit → Shared → Prop} (h : ∀ s₁, Q () s₁) :
    Verifies thread Q (perform .rollback) s := by
  apply wp_call
  intro s₁ _ hinv choice reply s₂ _ hexec
  cases choice with
  | done =>
    obtain ⟨rfl, rfl⟩ := Prod.mk.inj (Option.some.inj hexec)
    constructor
    · exact respects_of_kept hinv rfl (fun _ _ ↦ owner_released hinv) fun other hne ↦
        Transactions.kept_abort hne
    · exact fun s₂ _ _ ↦ h s₂
  | lost text =>
    obtain ⟨rfl, rfl⟩ := Prod.mk.inj (Option.some.inj hexec)
    exact wp_raise_of_inv hinv
  | _ => cases hexec

/-- The transaction of a thread in the state after `INSERT INTO orders`. -/
def inserted (thread : ℕ) (row : OrderRow) (db : Store) : Store :=
  ((db.lock thread (.idempotencyKey row.idempotencyKey)).lock thread (.orderId row.orderId)).write
    thread (.insertOrder row)

theorem insertOrder_cases {values : OrderValues} {claimed : Bool}
    (h : s.insertOrder thread values = some (claimed, s')) :
    s.inTransaction thread ∧
      ((claimed = false ∧ s' = s ∧
          ∃ row ∈ (s.view thread).orders, row.idempotencyKey = values.idempotencyKey) ∨
        (claimed = true ∧ s' = { s with db := inserted thread (values.row thread) s.db } ∧
          s.db.free thread (.idempotencyKey values.idempotencyKey) ∧
          s.db.free thread (.orderId values.orderId) ∧
          (∀ row ∈ (s.view thread).orders, row.idempotencyKey ≠ values.idempotencyKey) ∧
          ∀ row ∈ (s.view thread).orders, row.orderId ≠ values.orderId)) := by
  unfold Shared.insertOrder at h
  split at h
  · cases h
  · rename_i hopen
    have hin : s.inTransaction thread := by
      rw [Bool.not_eq_true', Bool.not_eq_false, Bool.and_eq_true] at hopen
      exact hopen.1
    refine ⟨hin, ?_⟩
    split at h
    · rename_i row hrow
      obtain ⟨rfl, rfl⟩ := Prod.mk.inj (Option.some.inj h)
      exact Or.inl ⟨rfl, rfl, row, Table.find_some hrow⟩
    · rename_i hkey
      split at h
      · rename_i hfree
        rw [Bool.and_eq_true, Bool.and_eq_true, Option.isNone_iff_eq_none] at hfree
        obtain ⟨rfl, rfl⟩ := Prod.mk.inj (Option.some.inj h)
        exact Or.inr ⟨rfl, rfl, hfree.1.1, hfree.1.2, Table.find_none.mp hkey,
          Table.find_none.mp hfree.2⟩
      · cases h

/-- No order has the key or the id of the row. -/
def Absent (row : OrderRow) (d : Db) : Prop :=
  (∀ other ∈ d.orders, other.idempotencyKey ≠ row.idempotencyKey) ∧
    ∀ other ∈ d.orders, other.orderId ≠ row.orderId

/-- The locks that guard the absence. -/
def AbsentKeys (row : OrderRow) (key : Key) : Prop :=
  key = .idempotencyKey row.idempotencyKey ∨ key = .orderId row.orderId

theorem absent_of_same {row : OrderRow} {d d' : Db}
    (h : ∀ key, AbsentKeys row key → guarding.Same key d d') (hd : Absent row d) :
    Absent row d' := by
  constructor
  · intro other hother hkey
    obtain ⟨before, hbefore, hsame⟩ := (h _ (Or.inl rfl)).mpr ⟨other, hother, hkey⟩
    exact hd.1 before hbefore hsame
  · intro other hother hkey
    obtain ⟨before, hbefore, hsame⟩ := (h _ (Or.inr rfl)).mpr ⟨other, hother, hkey⟩
    exact hd.2 before hbefore hsame

/-- The order is inserted but not committed. -/
abbrev Inserted (thread : ℕ) (row : OrderRow) : Shared → Prop :=
  Tx thread [.insertOrder row] (AbsentKeys row) (Absent row)

theorem Inserted.rely {row : OrderRow} (h : Inserted thread row s) (hrely : Relies thread s s') :
    Inserted thread row s' :=
  Tx.rely h hrely fun _ _ ↦ absent_of_same

theorem pending_of_inTransaction (h : s.inTransaction thread) : s.db.pending thread ≠ none :=
  Option.isSome_iff_ne_none.mp h

/-- The `INSERT` of an order: another order has the key, or the order is inserted and nobody else
can take its key or its id. -/
theorem wp_insertOrder {values : OrderValues} {Q : Bool → Shared → Prop} (hbegun : Begun thread s)
    (hlost : ∀ s₁, Begun thread s₁ →
      (∃ row ∈ s₁.db.committed.orders, row.idempotencyKey = values.idempotencyKey) → Q false s₁)
    (hwon : ∀ s₁, Inserted thread (values.row thread) s₁ → Q true s₁) :
    Verifies thread Q (perform (.insertOrder values)) s := by
  apply wp_call
  intro s₁ hrely hinv choice reply s₂ _ hexec
  cases choice with
  | done =>
    obtain ⟨⟨claimed, s₃⟩, hinsert, hreply⟩ := Option.map_eq_some_iff.mp hexec
    obtain ⟨rfl, rfl⟩ := Prod.mk.inj hreply
    have hbegun₁ : Begun thread s₁ := hbegun.rely hrely
    obtain ⟨hin, hcases⟩ := insertOrder_cases hinsert
    obtain ⟨hpending, -, -⟩ := hbegun₁ (pending_of_inTransaction hin)
    rw [view_of_pending hpending] at hcases
    rcases hcases with ⟨rfl, rfl, hrow⟩ | ⟨rfl, rfl, hfreeKey, hfreeId, hkey, horderId⟩
    · refine ⟨⟨hinv, fun other _ ↦ discipline.rely_refl other _⟩, fun s₄ hrely₄ _ ↦ ?_⟩
      exact hlost s₄ (hbegun₁.rely hrely₄) (permanent_order _ thread _ s₄ hrely₄ hrow)
    · constructor
      · refine respects_of_kept hinv rfl (fun id other howner ↦ ?_) fun other hne ↦ ?_
        · exact hinv.locks id other (by simpa [inserted, Transactions.lock, Transactions.write]
            using howner)
        · exact (Transactions.kept_lock hfreeKey hne).trans
            ((Transactions.kept_lock (Transactions.free_lock hfreeId) hne).trans
              (Transactions.kept_write hne))
      · have hinserted : Inserted thread (values.row thread)
            { s₁ with db := inserted thread (values.row thread) s₁.db } := by
          intro _
          refine ⟨?_, ?_, hkey, horderId⟩
          · simp [inserted, Transactions.lock, Transactions.write, hpending]
          · rintro key (rfl | rfl) <;>
              simp [inserted, Transactions.lock, Transactions.write]
        exact fun s₄ hrely₄ _ ↦ hwon s₄ (hinserted.rely hrely₄)
  | lost text =>
    obtain ⟨rfl, rfl⟩ := Prod.mk.inj (Option.some.inj hexec)
    exact wp_raise_of_inv hinv
  | _ => cases hexec

theorem wp_selectOrderId {key : String} {Q : Option String → Shared → Prop}
    (hbegun : Begun thread s)
    (hrow : ∃ row ∈ s.db.committed.orders, row.idempotencyKey = key)
    (h : ∀ s₁ row, row ∈ s₁.db.committed.orders → row.idempotencyKey = key →
      Begun thread s₁ → Q (some row.orderId) s₁) :
    Verifies thread Q (perform (.selectOrderId key)) s := by
  apply wp_call
  intro s₁ hrely hinv choice reply s₂ _ hexec
  cases choice with
  | done =>
    have hbegun₁ : Begun thread s₁ := hbegun.rely hrely
    simp only [service, exec] at hexec
    split at hexec
    · rename_i hin
      obtain ⟨rfl, rfl⟩ := Prod.mk.inj (Option.some.inj hexec)
      obtain ⟨hpending, -, -⟩ := hbegun₁ (pending_of_inTransaction hin)
      obtain ⟨row, hmem, rfl⟩ := permanent_order _ thread s s₁ hrely hrow
      rw [view_of_pending hpending, List.foldl_nil,
        (Sound.keys hinv).find_of_mem hmem]
      refine ⟨⟨hinv, fun other _ ↦ discipline.rely_refl other _⟩, fun s₃ hrely₃ _ ↦ ?_⟩
      exact h s₃ row (hrely₃.orders row hmem) rfl (hbegun₁.rely hrely₃)
    · cases hexec
  | lost text =>
    obtain ⟨rfl, rfl⟩ := Prod.mk.inj (Option.some.inj hexec)
    exact wp_raise_of_inv hinv
  | _ => cases hexec

/-- Committing: what the writes of the transaction do to the committed database has to keep it
sound, given what the locks have guarded. -/
theorem wp_commit {writes : List Write} {keys : Key → Prop} {P : Db → Prop}
    {Q : Unit → Shared → Prop}
    (htx : Tx thread writes keys P s)
    (hP : ∀ d d', (∀ key, keys key → guarding.Same key d d') → P d → P d')
    (hkeys : ∀ w ∈ writes, ∀ key, guarding.Touches w key → keys key)
    (hstep : ∀ s₁, Relies thread s s₁ → Sound s₁ → P s₁.db.committed → ∀ db : Store,
      db.committed = writes.foldl Db.apply s₁.db.committed →
      (∀ id other, db.owner (.outbox id) = some other → id < s₁.outboxSeq) →
        Sound { s₁ with db := db } ∧ Grows s₁ { s₁ with db := db } ∧
          discipline.Always thread (Q ()) { s₁ with db := db }) :
    Verifies thread Q (perform .commit) s := by
  apply wp_call
  intro s₁ hrely hinv choice reply s₂ _ hexec
  have htx₁ : Tx thread writes keys P s₁ := htx.rely hrely hP
  have hcommit : s₁.inTransaction thread → discipline.Respects thread s₁
      { s₁ with db := s₁.db.commit Db.apply thread } ∧
        discipline.Always thread (Q ()) { s₁ with db := s₁.db.commit Db.apply thread } := by
    intro hin
    obtain ⟨hpending, howned, hdb⟩ := htx₁ (pending_of_inTransaction hin)
    obtain ⟨hsound, hgrows, hQ⟩ := hstep s₁ hrely hinv hdb (s₁.db.commit Db.apply thread)
      (view_of_pending hpending) fun _ _ ↦ owner_released hinv
    refine ⟨⟨hsound, fun other hne ↦ ⟨hgrows, ?_⟩⟩, hQ⟩
    exact Transactions.kept_commit hne hpending fun w hw key htouches ↦
      howned key (hkeys w hw key htouches)
  cases choice with
  | done =>
    simp only [service, exec] at hexec
    split at hexec
    · rename_i hin
      obtain ⟨rfl, rfl⟩ := Prod.mk.inj (Option.some.inj hexec)
      exact hcommit hin
    · cases hexec
  | unconfirmed text =>
    simp only [service, exec] at hexec
    split at hexec
    · rename_i hin
      obtain ⟨rfl, rfl⟩ := Prod.mk.inj (Option.some.inj hexec)
      exact ⟨(hcommit hin).1, fun _ _ _ ↦ trivial⟩
    · cases hexec
  | lost text =>
    obtain ⟨rfl, rfl⟩ := Prod.mk.inj (Option.some.inj hexec)
    exact wp_raise_of_inv hinv
  | _ => cases hexec

/-- A transaction that only read commits nothing. -/
theorem wp_commit_of_begun {Q : Unit → Shared → Prop} (hbegun : Begun thread s)
    (h : ∀ s₁, Grows s s₁ → discipline.Always thread (Q ()) s₁) :
    Verifies thread Q (perform .commit) s := by
  refine wp_commit hbegun (fun _ _ _ _ ↦ trivial) (by simp) ?_
  intro s₁ hrely hinv _ db hcommitted howner
  obtain ⟨hsound, hgrows⟩ := sound_of_committed hinv hcommitted howner
  exact ⟨hsound, hgrows, h _ (hrely.toGrows.trans hgrows)⟩

/-- A transaction is verified by its body: a body that returns has to be fit to commit. -/
theorem wp_transaction {α : Type} {body : Proc α} {Q : α → Shared → Prop}
    (h : ∀ s₁, Begun thread s₁ → Verifies thread
      (fun value s₂ ↦ Verifies thread (fun _ ↦ discipline.Always thread (Q value))
        (perform .commit) s₂) body s₁) :
    Verifies thread Q
      (.transaction (perform .begin) (perform .commit) (perform .rollback) body) s := by
  apply wp_bind
  apply wp_begin
  intro s₁ hbegun
  apply wp_bind
  apply wp_attempt
  refine wp_mono ?_ ?_ (h s₁ hbegun)
  · intro value s₂ hcommit
    exact wp_bind hcommit
  · intro error s₂ _
    apply wp_bind
    exact wp_rollback fun _ ↦ fun _ _ _ ↦ trivial

end DinnerRush.Ingestion
