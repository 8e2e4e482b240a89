import DinnerRush.Orchestrator.Statements

/-!
# The transactions of the orchestrator

Inside a transaction a handler knows its writes and locks: `Begun` before it holds the lock of an
order, `Writing` from then on, where an assertion on the slice of the order is guarded by the lock.
A commit changes the tables, and `wp_commit_of_writing` is what that takes: the writes keep the
slice of their order consistent, and the transitions among them are backed by the downstreams.
-/

set_option autoImplicit false
set_option relaxedAutoImplicit false

namespace DinnerRush.Orchestrator

open Concurrency Discipline

variable {D : Downstreams} {X : Setting D} {thread : ℕ} {s s' : Shared D} {orderId : String}
  {writes : List Write} {P : Slice → Prop}

/-! ### What a transaction knows -/

/-- The transaction of the thread has these writes. -/
def Begun (thread : ℕ) (writes : List Write) (s : Shared D) : Prop :=
  s.db.InTransaction thread writes (fun _ ↦ False) fun _ ↦ True

/-- The lock of the order, and those of the rows added to the outbox. -/
def WritingKeys (orderId : String) (writes : List Write) (key : Key) : Prop :=
  key = .order orderId ∨ ∃ row ∈ enqueued writes, key = .outbox row.id

/-- What the locks guard: an assertion on the slice, and the absence of the rows to be added. -/
def Guarded (orderId : String) (writes : List Write) (P : Slice → Prop) (d : Db) : Prop :=
  P (d.slice orderId) ∧ ∀ row ∈ enqueued writes, row.id ∉ d.outbox.map OutboxRow.id

/-- The transaction of the thread has these writes about an order that it has locked, with ids drawn
from the sequences, and an assertion holds of the slice of the order. -/
structure Writing (thread : ℕ) (orderId : String) (writes : List Write) (P : Slice → Prop)
    (s : Shared D) : Prop where
  tx : s.db.InTransaction thread writes (WritingKeys orderId writes) (Guarded orderId writes P)
  about : ∀ write ∈ writes, write.orderId = some orderId
  ids : (enqueued writes).Pairwise fun first second ↦ first.id < second.id
  unpublished : ∀ row ∈ enqueued writes, row.published = false
  outboxDrawn : ∀ row ∈ enqueued writes, row.id < s.outboxSeq
  transitionDrawn : ∀ row, .insertTransition row ∈ writes → row.id < s.transitionSeq

theorem Begun.rely (h : Begun thread writes s) (hrely : Relies X thread s s') :
    Begun thread writes s' :=
  h.kept hrely.kept fun _ _ _ _ ↦ trivial

theorem Guarded.same {d d' : Db} (h : Guarded orderId writes P d)
    (hsame : ∀ key, WritingKeys orderId writes key → guarding.Same key d d') :
    Guarded orderId writes P d' := by
  have hslice : d.slice orderId = d'.slice orderId := hsame _ (Or.inl rfl)
  refine ⟨hslice ▸ h.1, fun row hrow hmem ↦ h.2 row hrow ?_⟩
  exact (hsame _ (Or.inr ⟨row, hrow, rfl⟩) : _ ↔ _).mpr hmem

theorem Writing.rely (h : Writing thread orderId writes P s) (hrely : Relies X thread s s') :
    Writing thread orderId writes P s' :=
  ⟨h.tx.kept hrely.kept fun _ _ hsame hguarded ↦ hguarded.same hsame, h.about, h.ids, h.unpublished,
    fun row hrow ↦ Nat.lt_of_lt_of_le (h.outboxDrawn row hrow) hrely.outboxSeq,
    fun row hrow ↦ Nat.lt_of_lt_of_le (h.transitionDrawn row hrow) hrely.transitionSeq⟩

theorem pending_of_inTransaction (h : s.inTransaction thread) : s.db.pending thread ≠ none :=
  Option.isSome_iff_ne_none.mp h

theorem view_of_pending (h : s.db.pending thread = some writes) :
    s.view thread = writes.foldl Db.apply s.db.committed := by
  rw [Shared.view, Transactions.view, h]
  rfl

theorem owner_released (hinv : Sound X s) {id other : ℕ}
    (h : s.db.released thread (.outbox id) = some other) : id < s.outboxSeq := by
  unfold Transactions.released at h
  split at h
  · cases h
  · exact hinv.tables.locks id other h

/-! ### Opening and ending a transaction -/

theorem wp_begin {Q : Unit → Shared D → Prop} (h : ∀ s₁, Begun thread [] s₁ → Q () s₁) :
    Verifies X thread Q (perform .begin) s := by
  apply wp_perform
  intro s₁ _ hinv choice reply s₂ _ hexec
  cases choice with
  | done =>
    obtain ⟨rfl, rfl⟩ := Prod.mk.inj (Option.some.inj hexec)
    have hbegun : Begun thread [] { s₁ with
        db := s₁.db.begin thread, began := Function.update s₁.began thread s₁.clock } :=
      fun _ ↦ ⟨Function.update_self _ _ _, fun _ h ↦ h.elim, trivial⟩
    refine ⟨?_, fun s₂ hrely _ ↦ h s₂ (hbegun.rely hrely)⟩
    exact respects_store hinv rfl (Nat.le_refl _) (Nat.le_refl _) hinv.tables.locks
      fun other hne ↦ Transactions.kept_begin hne
  | lost text =>
    obtain ⟨rfl, rfl⟩ := Prod.mk.inj (Option.some.inj hexec)
    exact wp_raise (fun _ _ ↦ trivial) hinv
  | _ => cases hexec

theorem wp_rollback {Q : Unit → Shared D → Prop} (h : ∀ s₁, Q () s₁) :
    Verifies X thread Q (perform .rollback) s := by
  apply wp_perform
  intro s₁ _ hinv choice reply s₂ _ hexec
  cases choice with
  | done =>
    obtain ⟨rfl, rfl⟩ := Prod.mk.inj (Option.some.inj hexec)
    refine ⟨?_, fun s₂ _ _ ↦ h s₂⟩
    exact respects_store hinv rfl (Nat.le_refl _) (Nat.le_refl _) (fun _ _ ↦ owner_released hinv)
      fun other hne ↦ Transactions.kept_abort hne
  | lost text =>
    obtain ⟨rfl, rfl⟩ := Prod.mk.inj (Option.some.inj hexec)
    exact wp_raise (fun _ _ ↦ trivial) hinv
  | _ => cases hexec

/-- Committing: the committed database with the writes on top has to be sound, given what the locks
have guarded. -/
theorem wp_commit {keys : Key → Prop} {G : Db → Prop} {Q : Unit → Shared D → Prop}
    (htx : s.db.InTransaction thread writes keys G)
    (hG : ∀ d d', (∀ key, keys key → guarding.Same key d d') → G d → G d')
    (hkeys : ∀ write ∈ writes, ∀ key, guarding.Touches write key → keys key)
    (hsound : ∀ s₁, Relies X thread s s₁ → Sound X s₁ → G s₁.db.committed → ∀ db : Store,
      db.committed = writes.foldl Db.apply s₁.db.committed →
      (∀ id other, db.owner (.outbox id) = some other → id < s₁.outboxSeq) →
        Sound X { s₁ with db := db })
    (h : ∀ s₁, (∃ d, (writes.foldl Db.apply d).Grows s₁.db.committed) → Q () s₁) :
    Verifies X thread Q (perform .commit) s := by
  apply wp_perform
  intro s₁ hrely hinv choice reply s₂ _ hexec
  have hcommit : s₁.inTransaction thread → (discipline X).Respects thread s₁
      { s₁ with db := s₁.db.commit Db.apply thread } ∧
        (discipline X).Always thread (Q ()) { s₁ with db := s₁.db.commit Db.apply thread } := by
    intro hin
    obtain ⟨hpending, howned, hguarded⟩ :=
      (htx.kept hrely.kept hG) (pending_of_inTransaction hin)
    have hcommitted : (s₁.db.commit Db.apply thread).committed =
        writes.foldl Db.apply s₁.db.committed := view_of_pending hpending
    refine ⟨⟨?_, fun other hne ↦ ⟨⟨?_, Nat.le_refl _, Nat.le_refl _, List.prefix_rfl,
      X.contract.le_refl _⟩, ?_⟩⟩, fun s₃ hrely₃ _ ↦ h s₃ ⟨s₁.db.committed, ?_⟩⟩
    · exact hsound s₁ hrely hinv hguarded _ hcommitted fun _ _ ↦ owner_released hinv
    · show s₁.db.committed.Grows (s₁.db.commit Db.apply thread).committed
      rw [hcommitted]
      exact Db.grows_foldl _ writes
    · exact Transactions.kept_commit hne hpending fun write hwrite key htouches ↦
        howned key (hkeys write hwrite key htouches)
    · rw [← hcommitted]
      exact hrely₃.db
  cases choice with
  | done =>
    simp only [exec] at hexec
    split at hexec
    · rename_i hin
      obtain ⟨rfl, rfl⟩ := Prod.mk.inj (Option.some.inj hexec)
      exact hcommit hin
    · cases hexec
  | unconfirmed text =>
    simp only [exec] at hexec
    split at hexec
    · rename_i hin
      obtain ⟨rfl, rfl⟩ := Prod.mk.inj (Option.some.inj hexec)
      exact ⟨(hcommit hin).1, fun _ _ _ ↦ trivial⟩
    · cases hexec
  | lost text =>
    obtain ⟨rfl, rfl⟩ := Prod.mk.inj (Option.some.inj hexec)
    exact wp_raise (fun _ _ ↦ trivial) hinv
  | _ => cases hexec

/-- A transaction that wrote nothing. -/
theorem wp_commit_of_begun {Q : Unit → Shared D → Prop} (hbegun : Begun thread [] s)
    (h : ∀ s₁, Q () s₁) : Verifies X thread Q (perform .commit) s := by
  refine wp_commit hbegun (fun _ _ _ _ ↦ trivial) (by simp) ?_ fun s₁ _ ↦ h s₁
  intro s₁ _ hinv _ db hcommitted hlocks
  exact sound_store hinv hcommitted (Nat.le_refl _) (Nat.le_refl _) hlocks

/-- A transaction is verified by its body: a body that returns has to be fit to commit. -/
theorem wp_transaction {α : Type} {body : Proc α} {Q : α → Shared D → Prop}
    (h : ∀ s₁, Grows X s s₁ → Begun thread [] s₁ → Verifies X thread
      (fun value s₂ ↦ Verifies X thread (fun _ ↦ (discipline X).Always thread (Q value))
        (perform .commit) s₂) body s₁) :
    Verifies X thread Q (tx body) s := by
  apply wp_bind
  apply wp_grows
  apply wp_begin
  intro s₁ hbegun hgrows
  apply wp_bind
  apply wp_attempt
  refine wp_mono ?_ ?_ (h s₁ hgrows hbegun)
  · intro value s₂ hcommit
    exact wp_bind hcommit
  · intro error s₂ _
    apply wp_bind
    exact wp_rollback fun _ ↦ fun _ _ _ ↦ trivial

/-! ### Writing to the tables -/

/-- No transaction holds the id that the sequence gives next. -/
theorem free_outboxSeq (hinv : Sound X s) : s.db.free thread (.outbox s.outboxSeq) := by
  rw [Transactions.free, decide_eq_true_eq]
  cases howner : s.db.owner (.outbox s.outboxSeq) with
  | none => exact Or.inl rfl
  | some other => exact absurd (hinv.tables.locks _ other howner) (Nat.lt_irrefl _)

theorem pending_wrote {db : Store} (h : db.pending thread = some writes) (key : Key)
    (write : Write) : (wrote thread key write db).pending thread = some (writes ++ [write]) := by
  have hsame : (wrote thread key write db).pending thread =
      (db.pending thread).map fun writes ↦ writes ++ [write] := Function.update_self _ _ _
  rw [hsame, h]
  rfl

theorem owner_wrote_self (db : Store) (key : Key) (write : Write) :
    (wrote thread key write db).owner key = some thread :=
  Function.update_self _ _ _

theorem owner_wrote_of_owner {db : Store} {key key' : Key} {write : Write}
    (h : db.owner key' = some thread) : (wrote thread key write db).owner key' = some thread := by
  by_cases hkey : key' = key
  · rw [hkey]
    exact owner_wrote_self db key write
  · show Function.update db.owner key (some thread) key' = some thread
    rw [Function.update_of_ne hkey, h]

/-- A statement that locks a free key and adds a write. -/
theorem respects_wrote (hinv : Sound X s) {key : Key} {write : Write} {outboxSeq : ℕ}
    (hfree : s.db.free thread key) (hseq : s.outboxSeq ≤ outboxSeq)
    (hkey : ∀ id, key = .outbox id → id < outboxSeq) :
    (discipline X).Respects thread s
      { s with db := wrote thread key write s.db, outboxSeq := outboxSeq } := by
  refine respects_store hinv rfl (Nat.le_refl _) hseq (fun id other howner ↦ ?_)
    fun other hne ↦ (Transactions.kept_lock hfree hne).trans (Transactions.kept_write hne)
  by_cases hid : key = .outbox id
  · exact hkey id hid
  · have hbefore : Function.update s.db.owner key (some thread) (.outbox id) = some other := howner
    rw [Function.update_of_ne (Ne.symm hid)] at hbefore
    exact Nat.lt_of_lt_of_le (hinv.tables.locks id other hbefore) hseq

/-- An order without a row has an empty slice. -/
theorem Ledger.slice_eq_empty {d : Db} (hledger : Ledger d)
    (h : ∀ row ∈ d.orders, row.orderId ≠ orderId) : d.slice orderId = .empty := by
  rcases hledger orderId with hempty | ⟨row, hrow⟩
  · exact hempty
  · have hmem : row ∈ (d.slice orderId).orders := by simp [hrow.orders]
    obtain ⟨hrow', horder⟩ := mem_slice_orders.mp hmem
    exact absurd horder (h row hrow')

/-- From the first lock on its order, a transaction that has drawn no id is writing. -/
theorem writing_of_locked {write : Write} (hpending : s.db.pending thread = some writes)
    (hnone : enqueued (writes ++ [write]) = [])
    (habout : ∀ later ∈ writes ++ [write], later.orderId = some orderId)
    (htransition : ∀ row, .insertTransition row ∉ writes ++ [write])
    (hP : P (s.db.committed.slice orderId)) :
    Writing thread orderId (writes ++ [write]) P
      { s with db := wrote thread (.order orderId) write s.db } where
  tx _ := by
    refine ⟨pending_wrote hpending _ _, ?_, hP, ?_⟩
    · rintro key (rfl | ⟨row, hrow, -⟩)
      · exact owner_wrote_self s.db _ write
      · rw [hnone] at hrow
        cases hrow
    · rw [hnone]
      exact fun row hrow ↦ by cases hrow
  about := habout
  ids := by
    rw [hnone]
    exact List.Pairwise.nil
  unpublished := by
    rw [hnone]
    exact fun row hrow ↦ by cases hrow
  outboxDrawn := by
    rw [hnone]
    exact fun row hrow ↦ by cases hrow
  transitionDrawn row hrow := absurd hrow (htransition row)

/-- The `INSERT` of an order: the order is there already, or its lock is taken and its slice is
empty. -/
theorem wp_insertOrder {values : OrderValues} {Q : Bool → Shared D → Prop}
    (hbegun : Begun thread [] s)
    (hlost : ∀ s₁, Begun thread [] s₁ →
      (∃ row ∈ s₁.db.committed.orders, row.orderId = values.orderId) → Q false s₁)
    (hwon : ∀ s₁ now, isUuid values.orderId →
      Writing thread values.orderId [.insertOrder (values.row now)] (fun x ↦ x = .empty) s₁ →
        Q true s₁) :
    Verifies X thread Q (perform (.insertOrder values)) s := by
  apply wp_perform
  intro s₁ hrely hinv choice reply s₂ _ hexec
  cases choice with
  | done =>
    obtain ⟨⟨inserted, s₃⟩, hinsert, hreply⟩ := Option.map_eq_some_iff.mp hexec
    obtain ⟨rfl, rfl⟩ := Prod.mk.inj hreply
    have hbegun₁ : Begun thread [] s₁ := hbegun.rely hrely
    obtain ⟨hin, huuid, hcases⟩ := insertOrder_cases hinsert
    obtain ⟨hpending, -, -⟩ := hbegun₁ (pending_of_inTransaction hin)
    rw [view_of_pending hpending] at hcases
    rcases hcases with ⟨rfl, rfl, hrow⟩ | ⟨rfl, hfree, hnone, rfl⟩
    · refine ⟨respects_self hinv, fun s₄ hrely₄ _ ↦ hlost s₄ (hbegun₁.rely hrely₄) ?_⟩
      exact exists_order_grows hrow hrely₄.db
    · refine ⟨respects_wrote hinv hfree (Nat.le_refl _) (fun id hkey ↦ by cases hkey), ?_⟩
      have hwriting : Writing thread values.orderId [.insertOrder (values.row (s₁.began thread))]
          (fun x ↦ x = .empty) { s₁ with
            db := wrote thread (.order values.orderId)
              (.insertOrder (values.row (s₁.began thread))) s₁.db } :=
        writing_of_locked hpending rfl (by simp [Write.orderId, OrderValues.row]) (by simp)
          (hinv.tables.ledger.slice_eq_empty hnone)
      exact fun s₄ hrely₄ _ ↦ hwon s₄ _ huuid (hwriting.rely hrely₄)
  | lost text =>
    obtain ⟨rfl, rfl⟩ := Prod.mk.inj (Option.some.inj hexec)
    exact wp_raise (fun _ _ ↦ trivial) hinv
  | _ => cases hexec

/-- `claim_operation`: the operation is in the table, or is claimed by this transaction. -/
theorem wp_claimOperation {row : OperationRow} {Q : Bool → Shared D → Prop}
    (hbegun : Begun thread [] s)
    (hlost : ∀ s₁, Begun thread [] s₁ →
      (∃ other ∈ s₁.db.committed.operations, other.opId = row.opId) → Q false s₁)
    (hwon : ∀ s₁, Begun thread [.claim row] s₁ → Q true s₁) :
    Verifies X thread Q (perform (.claimOperation row)) s := by
  apply wp_perform
  intro s₁ hrely hinv choice reply s₂ _ hexec
  cases choice with
  | done =>
    obtain ⟨⟨claimed, s₃⟩, hclaim, hreply⟩ := Option.map_eq_some_iff.mp hexec
    obtain ⟨rfl, rfl⟩ := Prod.mk.inj hreply
    have hbegun₁ : Begun thread [] s₁ := hbegun.rely hrely
    obtain ⟨hin, hcases⟩ := claimOperation_cases hclaim
    obtain ⟨hpending, -, -⟩ := hbegun₁ (pending_of_inTransaction hin)
    rw [view_of_pending hpending] at hcases
    rcases hcases with ⟨rfl, rfl, other, hmem, hopId⟩ | ⟨rfl, hfree, rfl⟩
    · refine ⟨respects_self hinv, fun s₄ hrely₄ _ ↦ hlost s₄ (hbegun₁.rely hrely₄) ?_⟩
      exact ⟨other, hrely₄.db.operations other hmem, hopId⟩
    · refine ⟨respects_wrote hinv hfree (Nat.le_refl _) (fun id hkey ↦ by cases hkey), ?_⟩
      have hclaimed : Begun thread [.claim row] { s₁ with
          db := wrote thread (.operation row.opId) (.claim row) s₁.db } :=
        fun _ ↦ ⟨pending_wrote hpending _ _, fun _ h ↦ h.elim, trivial⟩
      exact fun s₄ hrely₄ _ ↦ hwon s₄ (hclaimed.rely hrely₄)
  | lost text =>
    obtain ⟨rfl, rfl⟩ := Prod.mk.inj (Option.some.inj hexec)
    exact wp_raise (fun _ _ ↦ trivial) hinv
  | _ => cases hexec

/-- The compare-and-set `UPDATE`: no row qualifies, or the order is locked in the expected state. -/
theorem wp_updateState {row : OperationRow} {target source : State} {Q : ℕ → Shared D → Prop}
    (hbegun : Begun thread [.claim row] s) (hlost : ∀ s₁, Q 0 s₁)
    (hwon : ∀ s₁ now, Writing thread row.orderId [.claim row, .setState row.orderId target now]
      (fun x ↦ ∃ order ∈ x.orders, order.state = source) s₁ → Q 1 s₁) :
    Verifies X thread Q (perform (.updateState row.orderId target source)) s := by
  apply wp_perform
  intro s₁ hrely hinv choice reply s₂ _ hexec
  cases choice with
  | done =>
    obtain ⟨⟨updated, s₃⟩, hupdate, hreply⟩ := Option.map_eq_some_iff.mp hexec
    obtain ⟨rfl, rfl⟩ := Prod.mk.inj hreply
    obtain ⟨hin, hcases⟩ := updateState_cases hupdate
    obtain ⟨hpending, -, -⟩ := (hbegun.rely hrely) (pending_of_inTransaction hin)
    rw [view_of_pending hpending] at hcases
    rcases hcases with ⟨rfl, rfl⟩ | ⟨rfl, hfree, ⟨order, hmem, horder, hstate⟩, rfl⟩
    · exact ⟨respects_self hinv, fun s₄ _ _ ↦ hlost s₄⟩
    · refine ⟨respects_wrote hinv hfree (Nat.le_refl _) (fun id hkey ↦ by cases hkey), ?_⟩
      have hwriting : Writing thread row.orderId
          [.claim row, .setState row.orderId target (s₁.began thread)]
          (fun x ↦ ∃ order ∈ x.orders, order.state = source) { s₁ with
            db := wrote thread (.order row.orderId)
              (.setState row.orderId target (s₁.began thread)) s₁.db } :=
        writing_of_locked hpending rfl (by simp [Write.orderId]) (by simp)
          ⟨order, mem_slice_orders.mpr ⟨hmem, horder⟩, hstate⟩
      exact fun s₄ hrely₄ _ ↦ hwon s₄ _ (hwriting.rely hrely₄)
  | lost text =>
    obtain ⟨rfl, rfl⟩ := Prod.mk.inj (Option.some.inj hexec)
    exact wp_raise (fun _ _ ↦ trivial) hinv
  | _ => cases hexec

theorem enqueued_enqueue (writes : List Write) (row : OutboxRow) :
    enqueued (writes ++ [.enqueue row]) = enqueued writes ++ [row] := by
  simp [enqueued]

theorem enqueued_insertTransition (writes : List Write) (row : TransitionRow) :
    enqueued (writes ++ [.insertTransition row]) = enqueued writes := by
  simp [enqueued]

/-- The transition drawn now has a higher id than those of the order. -/
theorem wp_insertTransition {values : TransitionValues} {Q : Unit → Shared D → Prop}
    (hwriting : Writing thread orderId writes P s) (horder : values.orderId = orderId)
    (h : ∀ s₁ id now, Writing thread orderId
        (writes ++ [.insertTransition (values.row id now)])
      (fun x ↦ P x ∧ ∀ earlier ∈ x.transitions, earlier.id < id) s₁ → Q () s₁) :
    Verifies X thread Q (perform (.insertTransition values)) s := by
  apply wp_perform
  intro s₁ hrely hinv choice reply s₂ _ hexec
  cases choice with
  | done =>
    obtain ⟨s₃, hinsert, hreply⟩ := Option.map_eq_some_iff.mp hexec
    obtain ⟨rfl, rfl⟩ := Prod.mk.inj hreply
    obtain ⟨hin, rfl⟩ := insertTransition_cases hinsert
    have hwriting₁ : Writing thread orderId writes P s₁ := hwriting.rely hrely
    obtain ⟨hpending, howned, hP, habsent⟩ := hwriting₁.tx (pending_of_inTransaction hin)
    let row : TransitionRow := values.row s₁.transitionSeq (s₁.began thread)
    refine ⟨respects_store hinv rfl (Nat.le_succ _) (Nat.le_refl _) hinv.tables.locks
      fun other hne ↦ Transactions.kept_write hne, ?_⟩
    have hwriting₂ : Writing thread orderId (writes ++ [.insertTransition row])
        (fun x ↦ P x ∧ ∀ earlier ∈ x.transitions, earlier.id < row.id)
        { s₁ with
          db := s₁.db.write thread (.insertTransition row)
          transitionSeq := s₁.transitionSeq + 1 } := by
      have hsame := enqueued_insertTransition writes row
      constructor
      · intro _
        refine ⟨?_, ?_, ⟨hP, ?_⟩, ?_⟩
        · show Function.update s₁.db.pending thread _ thread = _
          rw [Function.update_self, hpending]
          rfl
        · intro key hkey
          unfold WritingKeys at hkey
          rw [hsame] at hkey
          exact howned key hkey
        · intro earlier hearlier
          exact hinv.tables.transitionIds earlier (mem_slice_transitions.mp hearlier).1
        · rw [hsame]
          exact habsent
      · intro write hwrite
        rcases List.mem_append.mp hwrite with hold | hnew
        · exact hwriting₁.about write hold
        · rw [List.mem_singleton.mp hnew, ← horder]
          rfl
      · rw [hsame]
        exact hwriting₁.ids
      · rw [hsame]
        exact hwriting₁.unpublished
      · rw [hsame]
        exact hwriting₁.outboxDrawn
      · intro other hother
        rcases List.mem_append.mp hother with hold | hnew
        · exact Nat.lt_succ_of_lt (hwriting₁.transitionDrawn other hold)
        · obtain rfl := Write.insertTransition.inj (List.mem_singleton.mp hnew)
          exact Nat.lt_succ_self _
    exact fun s₄ hrely₄ _ ↦ h s₄ _ _ (hwriting₂.rely hrely₄)
  | lost text =>
    obtain ⟨rfl, rfl⟩ := Prod.mk.inj (Option.some.inj hexec)
    exact wp_raise (fun _ _ ↦ trivial) hinv
  | _ => cases hexec

/-- The row enqueued takes an id that no row of the outbox has. -/
theorem wp_enqueue {exchange : Exchange} {routingKey : String} {env : Envelope}
    {Q : Unit → Shared D → Prop} (hwriting : Writing thread orderId writes P s)
    (horder : env.orderId = orderId)
    (h : ∀ s₁ id, Writing thread orderId
      (writes ++ [.enqueue ⟨id, exchange, routingKey, env, false⟩]) P s₁ → Q () s₁) :
    Verifies X thread Q (perform (.enqueue exchange routingKey env)) s := by
  apply wp_perform
  intro s₁ hrely hinv choice reply s₂ _ hexec
  cases choice with
  | done =>
    obtain ⟨s₃, henqueue, hreply⟩ := Option.map_eq_some_iff.mp hexec
    obtain ⟨rfl, rfl⟩ := Prod.mk.inj hreply
    obtain ⟨hin, rfl⟩ := enqueue_cases henqueue
    have hwriting₁ : Writing thread orderId writes P s₁ := hwriting.rely hrely
    obtain ⟨hpending, howned, hP, habsent⟩ := hwriting₁.tx (pending_of_inTransaction hin)
    let row : OutboxRow := ⟨s₁.outboxSeq, exchange, routingKey, env, false⟩
    refine ⟨respects_wrote hinv (free_outboxSeq hinv) (Nat.le_succ _) fun id hkey ↦ ?_, ?_⟩
    · rw [← Key.outbox.inj hkey]
      exact Nat.lt_succ_self _
    · have hwriting₂ : Writing thread orderId (writes ++ [.enqueue row]) P
          { s₁ with
            db := wrote thread (.outbox row.id) (.enqueue row) s₁.db
            outboxSeq := s₁.outboxSeq + 1 } := by
        have hmem : ∀ other ∈ enqueued (writes ++ [.enqueue row]),
            other ∈ enqueued writes ∨ other = row := by
          intro other hother
          rw [enqueued_enqueue] at hother
          simpa using hother
        constructor
        · intro _
          refine ⟨pending_wrote hpending _ _, ?_, hP, ?_⟩
          · rintro key (rfl | ⟨other, hother, rfl⟩)
            · exact owner_wrote_of_owner (howned _ (Or.inl rfl))
            · rcases hmem other hother with hold | rfl
              · exact owner_wrote_of_owner (howned _ (Or.inr ⟨other, hold, rfl⟩))
              · exact owner_wrote_self s₁.db _ _
          · intro other hother hid
            rcases hmem other hother with hold | rfl
            · exact habsent other hold hid
            · obtain ⟨before, hbefore, hsame⟩ := List.mem_map.mp hid
              have hdrawn := hinv.tables.outboxDrawn before hbefore
              rw [hsame] at hdrawn
              exact Nat.lt_irrefl _ hdrawn
        · intro write hwrite
          rcases List.mem_append.mp hwrite with hold | hnew
          · exact hwriting₁.about write hold
          · rw [List.mem_singleton.mp hnew, ← horder]
            rfl
        · rw [enqueued_enqueue, List.pairwise_append]
          refine ⟨hwriting₁.ids, List.pairwise_singleton _ _, fun first hfirst second hsecond ↦ ?_⟩
          rw [List.mem_singleton.mp hsecond]
          exact hwriting₁.outboxDrawn first hfirst
        · intro other hother
          rcases hmem other hother with hold | rfl
          · exact hwriting₁.unpublished other hold
          · rfl
        · intro other hother
          rcases hmem other hother with hold | rfl
          · exact Nat.lt_succ_of_lt (hwriting₁.outboxDrawn other hold)
          · exact Nat.lt_succ_self _
        · intro other hother
          rcases List.mem_append.mp hother with hold | hnew
          · exact hwriting₁.transitionDrawn other hold
          · cases List.mem_singleton.mp hnew
      exact fun s₄ hrely₄ _ ↦ h s₄ _ (hwriting₂.rely hrely₄)
  | lost text =>
    obtain ⟨rfl, rfl⟩ := Prod.mk.inj (Option.some.inj hexec)
    exact wp_raise (fun _ _ ↦ trivial) hinv
  | _ => cases hexec

/-! ### Committing the writes about an order -/

/-- The writes of a transaction about an order keep the orchestrator sound, if they keep the slice
of the order consistent and the downstreams back the transitions among them. -/
theorem Sound.write (hinv : Sound X s) (hwriting : Writing thread orderId writes P s)
    (hguarded : Guarded orderId writes P s.db.committed)
    (hconsistent : ∀ x, Consistent orderId x → P x →
      Consistent orderId (writes.foldl Slice.apply x))
    (hinserted : ∀ row, .insertOrder row ∈ writes → isUuid row.orderId)
    (hbacked : ∀ row, .insertTransition row ∈ writes → Backed X.cfg X.contract s.downstream row)
    {db : Store} (hcommitted : db.committed = writes.foldl Db.apply s.db.committed)
    (hlocks : ∀ id other, db.owner (.outbox id) = some other → id < s.outboxSeq) :
    Sound X { s with db := db } := by
  have hstamps : ∀ ids, .stamp ids ∉ writes := fun ids hmem ↦ by
    cases hwriting.about _ hmem
  have houtbox : db.committed.outbox = s.db.committed.outbox ++ enqueued writes := by
    rw [hcommitted, outbox_foldl hstamps]
  have hgrows : s.db.committed.Grows db.committed := by
    rw [hcommitted]
    exact Db.grows_foldl _ writes
  have hmem : ∀ row ∈ db.committed.outbox, row ∈ s.db.committed.outbox ∨ row ∈ enqueued writes := by
    intro row hrow
    rwa [houtbox, List.mem_append] at hrow
  have htransitions : ∀ row ∈ db.committed.transitions,
      row ∈ s.db.committed.transitions ∨ .insertTransition row ∈ writes := by
    intro row hrow
    rw [hcommitted] at hrow
    exact Db.mem_transitions_foldl hrow
  refine ⟨⟨?_, ?_, ?_, ?_, ?_, hlocks⟩, hinv.filed, ⟨hinv.effects.inv, ?_, ?_⟩, ?_⟩
  · intro other
    rw [hcommitted]
    by_cases hother : other = orderId
    · rw [hother, slice_foldl hwriting.about]
      exact hconsistent _ (hinv.tables.ledger orderId) hguarded.1
    · rw [slice_foldl_of_ne fun write hwrite hsame ↦ hother ?_]
      · exact hinv.tables.ledger other
      · rw [hwriting.about write hwrite] at hsame
        exact (Option.some.inj hsame).symm
  · intro row hrow
    rw [hcommitted] at hrow
    rcases Db.mem_orders_foldl hrow with ⟨before, hbefore, hcore⟩ | ⟨inserted, hmem, hcore⟩
    · rw [orderId_of_core hcore]
      exact hinv.tables.orderIds before hbefore
    · rw [orderId_of_core hcore]
      exact hinserted inserted hmem
  · intro row hrow
    rcases htransitions row hrow with hold | hnew
    · exact hinv.tables.transitionIds row hold
    · exact hwriting.transitionDrawn row hnew
  · rw [houtbox, Table.Unique, List.map_append, List.nodup_append]
    refine ⟨hinv.tables.outboxIds, ?_, ?_⟩
    · refine List.Pairwise.map _ (fun _ _ h ↦ h) ?_
      exact hwriting.ids.imp Nat.ne_of_lt
    · rintro first hfirst second hsecond rfl
      obtain ⟨row, hrow, rfl⟩ := List.mem_map.mp hsecond
      exact hguarded.2 row hrow hfirst
  · intro row hrow
    rcases hmem row hrow with hold | hnew
    · exact hinv.tables.outboxDrawn row hold
    · exact hwriting.outboxDrawn row hnew
  · exact fun service command hreceived ↦
      (hinv.effects.ordered service command hreceived).grows hgrows
  · intro row hrow
    rcases htransitions row hrow with hold | hnew
    · exact hinv.effects.backed row hold
    · exact hbacked row hnew
  · intro hstrict
    refine (hinv.custody hstrict).mono hgrows fun row hrow hpublished htype ↦ ?_
    rcases hmem row hrow with hold | hnew
    · exact (hinv.custody hstrict).stamped row hold hpublished htype
    · rw [hwriting.unpublished row hnew] at hpublished
      cases hpublished

theorem wp_commit_of_writing {Q : Unit → Shared D → Prop}
    (hwriting : Writing thread orderId writes P s)
    (hconsistent : ∀ x, Consistent orderId x → P x →
      Consistent orderId (writes.foldl Slice.apply x))
    (hinserted : ∀ row, .insertOrder row ∈ writes → isUuid row.orderId)
    (hbacked : ∀ s₁, Relies X thread s s₁ → ∀ row, .insertTransition row ∈ writes →
      Backed X.cfg X.contract s₁.downstream row)
    (h : ∀ s₁, (∃ d, (writes.foldl Db.apply d).Grows s₁.db.committed) → Q () s₁) :
    Verifies X thread Q (perform .commit) s := by
  refine wp_commit hwriting.tx (fun _ _ hsame hguarded ↦ hguarded.same hsame) ?_ ?_ h
  · rintro write hwrite key (⟨other, hother, rfl⟩ | ⟨row, rfl, rfl⟩)
    · rw [hwriting.about write hwrite] at hother
      exact Or.inl (congrArg Key.order (Option.some.inj hother).symm)
    · exact Or.inr ⟨row, mem_enqueued.mpr hwrite, rfl⟩
  · intro s₁ hrely hinv hguarded db hcommitted hlocks
    exact hinv.write (hwriting.rely hrely) hguarded hconsistent hinserted (hbacked s₁ hrely)
      hcommitted hlocks

end DinnerRush.Orchestrator
