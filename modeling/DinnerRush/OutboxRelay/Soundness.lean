import DinnerRush.OutboxRelay.System

/-!
# The relay is sound

What is handed to the broker was committed, and what is stamped was confirmed (`Sound`), in every
world. As long as nothing has gone wrong, a row that was handed over and is not yet stamped is
locked by the transaction of the relay that handed it over, so no other relay gets it, and it is
handed over once (`relaySound`).
-/

set_option autoImplicit false
set_option relaxedAutoImplicit false

namespace DinnerRush.OutboxRelay

open Concurrency Discipline

/-! ### What the locks guard -/

/-- The lock of a row guards the row. -/
def guarding : Guarding (List OutboxRow) ℕ Write where
  apply := apply
  Touches write id :=
    match write with
    | .insert row => row.id = id
    | .stamp ids => id ∈ ids
  Same id rows rows' :=
    (rows.filter fun row ↦ row.id = id) = rows'.filter fun row ↦ row.id = id
  same_refl _ _ := rfl
  same_trans _ _ _ _ h h' := h.trans h'
  same_apply id rows write h := by
    cases write with
    | insert row =>
      show _ = (rows ++ [row]).filter _
      rw [List.filter_append, List.filter_singleton]
      simp [show row.id ≠ id from h]
    | stamp ids =>
      show _ = (Outbox.stamp ids rows).filter _
      rw [Outbox.stamp, List.filter_map]
      have hsame : (fun row : OutboxRow ↦ decide (row.id = id)) ∘
          (fun row ↦ if row.id ∈ ids then { row with published := true } else row) =
          fun row ↦ decide (row.id = id) := by
        funext row
        by_cases hmem : row.id ∈ ids <;> simp [hmem]
      rw [hsame]
      conv_lhs => rw [← List.map_id (rows.filter _)]
      refine List.map_congr_left fun row hrow ↦ ?_
      have hid : row.id = id := by simpa using (List.mem_filter.mp hrow).2
      have hnot : row.id ∉ ids := by
        rw [hid]
        exact h
      simp [hnot]

/-- A row behind a lock is the same row. -/
theorem mem_of_same {rows rows' : List OutboxRow} {row : OutboxRow}
    (h : guarding.Same row.id rows rows') (hrow : row ∈ rows) : row ∈ rows' := by
  have hmem : row ∈ rows.filter fun other ↦ other.id = row.id :=
    List.mem_filter.mpr ⟨hrow, by simp⟩
  rw [show (rows.filter fun other ↦ other.id = row.id) = _ from h] at hmem
  exact (List.mem_filter.mp hmem).1

/-! ### The invariant -/

/-- The row was stamped. -/
def Stamped (rows : List OutboxRow) (id : ℕ) : Prop :=
  ∃ row ∈ rows, row.id = id ∧ row.published = true

/-- The broker has confirmed the row. -/
def Confirmed (handed : List Handed) (row : OutboxRow) : Prop :=
  ∃ entry ∈ handed, entry.confirmed = true ∧ entry.row = Outbox.unstamped row

structure Sound (s : Shared) : Prop where
  unique : Table.Unique OutboxRow.id s.db.committed
  drawn : ∀ row ∈ s.db.committed, row.id < s.sequence
  locks : ∀ id thread, s.db.owner id = some thread → id < s.sequence
  /-- What was handed to the broker was committed. -/
  handed : ∀ entry ∈ s.handed, ∃ row ∈ s.db.committed, Outbox.unstamped row = entry.row
  /-- What is stamped was confirmed. -/
  stamped : ∀ row ∈ s.db.committed, row.published = true → Confirmed s.handed row
  /-- What was handed over is stamped, or locked by the one who did. -/
  held : s.disturbed = false → ∀ entry ∈ s.handed,
    Stamped s.db.committed entry.row.id ∨ s.db.owner entry.row.id = some entry.publisher
  once : s.disturbed = false → Table.Unique (fun entry : Handed ↦ entry.row.id) s.handed

/-- What a thread relies on: nothing is taken back, only the thread itself hands over rows as its
own, and its transaction is kept, unless something has gone wrong. -/
structure Relies (thread : ℕ) (s s' : Shared) : Prop where
  rows : ∀ row ∈ s.db.committed, ∃ row' ∈ s'.db.committed,
    Outbox.unstamped row' = Outbox.unstamped row
  sequence : s.sequence ≤ s'.sequence
  handed : s.handed <+: s'.handed
  mine : ∀ entry ∈ s'.handed, entry.publisher = thread → entry ∈ s.handed
  disturbed : s.disturbed = true → s'.disturbed = true
  kept : s.db.Kept guarding thread s'.db
  alive : s.idle thread = false → s.db.pending thread ≠ none → s'.db.pending thread = none →
    s'.disturbed = true

variable {thread : ℕ} {s s' s₁ s₂ s₃ : Shared}

theorem Relies.refl (thread : ℕ) (s : Shared) : Relies thread s s where
  rows row hrow := ⟨row, hrow, rfl⟩
  sequence := Nat.le_refl _
  handed := List.prefix_rfl
  mine _ hentry _ := hentry
  disturbed := id
  kept := Transactions.Kept.refl thread _
  alive _ hopen hclosed := absurd hclosed hopen

theorem idle_eq_false : s.idle thread = false ↔
    ∃ row ∈ s.db.committed, s.db.owner row.id = some thread := by
  simp [Shared.idle]

theorem id_eq_of_unstamped {row row' : OutboxRow}
    (h : Outbox.unstamped row' = Outbox.unstamped row) : row'.id = row.id := by
  have hid : (Outbox.unstamped row').id = (Outbox.unstamped row).id := by rw [h]
  exact hid

theorem Relies.trans (h : Relies thread s₁ s₂) (h' : Relies thread s₂ s₃) :
    Relies thread s₁ s₃ where
  rows row hrow := by
    obtain ⟨row₂, hrow₂, hsame₂⟩ := h.rows row hrow
    obtain ⟨row₃, hrow₃, hsame₃⟩ := h'.rows row₂ hrow₂
    exact ⟨row₃, hrow₃, hsame₃.trans hsame₂⟩
  sequence := h.sequence.trans h'.sequence
  handed := h.handed.trans h'.handed
  mine entry hentry hmine := h.mine entry (h'.mine entry hentry hmine) hmine
  disturbed hdisturbed := h'.disturbed (h.disturbed hdisturbed)
  kept := h.kept.trans h'.kept
  alive hbusy hopen hclosed := by
    by_cases hmiddle : s₂.db.pending thread = none
    · exact h'.disturbed (h.alive hbusy hopen hmiddle)
    · -- The transaction is still open in between, with its locks.
      refine h'.alive ?_ hmiddle hclosed
      rw [idle_eq_false] at hbusy ⊢
      obtain ⟨row, hrow, howner⟩ := hbusy
      obtain ⟨row₂, hrow₂, hsame⟩ := h.rows row hrow
      rcases h.kept with hnone | ⟨-, hlocks⟩
      · exact absurd hnone hmiddle
      · refine ⟨row₂, hrow₂, ?_⟩
        rw [id_eq_of_unstamped hsame]
        exact (hlocks row.id howner).1

def discipline : Discipline outbox where
  Permit _ _ _ _ := True
  Inv := Sound
  Rely := Relies
  Fresh thread s := ∀ entry ∈ s.handed, entry.publisher ≠ thread
  Post _ _ _ := True
  rely_refl := Relies.refl
  rely_trans _ _ _ _ := Relies.trans
  fresh_rely _ _ _ hrely h entry hentry hmine := h entry (hrely.mine entry hentry hmine) hmine

abbrev Verifies {α : Type} (thread : ℕ) (Q : α → Shared → Prop) (E : Failure → Shared → Prop)
    (program : Proc α) (s : Shared) : Prop :=
  discipline.wp thread Q E program s

/-- The thread may roll back: it has handed over nothing, or something has gone wrong anyway. -/
def Undone (thread : ℕ) (s : Shared) : Prop :=
  s.disturbed = true ∨ ∀ entry ∈ s.handed, entry.publisher ≠ thread

theorem Undone.rely (h : Undone thread s) (hrely : Relies thread s s') : Undone thread s' := by
  rcases h with hdisturbed | hfresh
  · exact Or.inl (hrely.disturbed hdisturbed)
  · exact Or.inr (discipline.fresh_rely thread s s' hrely hfresh)

/-! ### What a step has to respect -/

/-- A step that changes only the transactions, and nothing that is committed. -/
theorem respects_store (hinv : Sound s) {db : Store} {sequence : ℕ}
    (hcommitted : db.committed = s.db.committed) (hsequence : s.sequence ≤ sequence)
    (hlocks : ∀ id other, db.owner id = some other → id < sequence)
    (hheld : s.disturbed = false → ∀ entry ∈ s.handed,
      s.db.owner entry.row.id = some entry.publisher →
        db.owner entry.row.id = some entry.publisher)
    (hpending : ∀ other, other ≠ thread → db.pending other = s.db.pending other)
    (hkept : ∀ other, other ≠ thread → s.db.Kept guarding other db) :
    discipline.Respects thread s { s with db := db, sequence := sequence } := by
  constructor
  · refine ⟨?_, ?_, hlocks, ?_, ?_, ?_, hinv.once⟩
    · rw [hcommitted]
      exact hinv.unique
    · intro row hrow
      rw [hcommitted] at hrow
      exact Nat.lt_of_lt_of_le (hinv.drawn row hrow) hsequence
    · rw [hcommitted]
      exact hinv.handed
    · rw [hcommitted]
      exact hinv.stamped
    · intro hdisturbed entry hentry
      rw [hcommitted]
      exact (hinv.held hdisturbed entry hentry).imp_right (hheld hdisturbed entry hentry)
  · intro other hne
    refine ⟨fun row hrow ↦ ⟨row, ?_, rfl⟩, hsequence, List.prefix_rfl, fun _ h _ ↦ h, id,
      hkept other hne, fun _ hopen hclosed ↦ ?_⟩
    · rw [hcommitted]
      exact hrow
    · have hsame := hpending other hne
      rw [hclosed] at hsame
      exact absurd hsame.symm hopen

theorem Sound.disturb (h : Sound s) : Sound s.disturb where
  unique := h.unique
  drawn := h.drawn
  locks := h.locks
  handed := h.handed
  stamped := h.stamped
  held hquiet := by cases hquiet
  once hquiet := by cases hquiet

theorem relies_disturb : Relies thread s s.disturb where
  rows row hrow := ⟨row, hrow, rfl⟩
  sequence := Nat.le_refl _
  handed := List.prefix_rfl
  mine _ hentry _ := hentry
  disturbed _ := rfl
  kept := Transactions.Kept.refl thread _
  alive _ hopen hclosed := absurd hclosed hopen

theorem respects_disturb (h : discipline.Respects thread s s') :
    discipline.Respects thread s s'.disturb :=
  ⟨Sound.disturb h.1, fun other hne ↦ Relies.trans (h.2 other hne) relies_disturb⟩

/-- An effect that is resolved by `done` or `unconfirmed`; that it fails before it takes effect is
the same for all. -/
theorem wp_perform {effect : Effect} {Q : effect.Result → Shared → Prop}
    {E : Failure → Shared → Prop} (hE : ∀ error s', s'.disturbed = true → E error s')
    (hdone : ∀ s₁, Relies thread s s₁ → Sound s₁ → ∀ reply s₂,
      exec thread effect .done s₁ = some (reply, s₂) → discipline.Respects thread s₁ s₂ ∧
        Verifies thread Q E (.ofExcept reply) s₂)
    (hunconfirmed : ∀ s₁, Relies thread s s₁ → Sound s₁ → ∀ text reply s₂,
      exec thread effect (.unconfirmed text) s₁ = some (reply, s₂) →
        discipline.Respects thread s₁ s₂ ∧ Verifies thread Q E (.ofExcept reply) s₂) :
    Verifies thread Q E (perform effect) s := by
  apply wp_call
  intro s₁ hrely hinv choice reply s₂ _ hexec
  cases choice with
  | done => exact hdone s₁ hrely hinv reply s₂ hexec
  | unconfirmed text => exact hunconfirmed s₁ hrely hinv text reply s₂ hexec
  | lost text =>
    have hlost : exec thread effect (.lost text) s₁ =
        some (.error (.error text), s₁.disturb) := by cases effect <;> rfl
    obtain ⟨rfl, rfl⟩ := Prod.mk.inj (Option.some.inj (hlost.symm.trans hexec))
    refine ⟨⟨Sound.disturb hinv, fun other _ ↦ relies_disturb⟩, fun s₃ hrely₃ _ ↦ ?_⟩
    exact hE _ s₃ (hrely₃.disturbed rfl)

/-! ### What a relay knows of the rows it has read -/

variable {rows got done rest : List OutboxRow} {row : OutboxRow} {writes : List Write}
  {E : Failure → Shared → Prop}

/-- The transaction of the thread has these writes and has locked these rows. They are as they were
read, as long as the transaction is open, and it is, unless something has gone wrong. -/
structure Holding (thread : ℕ) (writes : List Write) (rows : List OutboxRow) (s : Shared) :
    Prop where
  tx : s.db.InTransaction thread writes (fun id ↦ ∃ row ∈ rows, row.id = id)
    fun d ↦ ∀ row ∈ rows, row ∈ d
  read : ∀ row ∈ rows, ∃ row' ∈ s.db.committed, Outbox.unstamped row' = row
  alive : rows ≠ [] → s.db.pending thread = none → s.disturbed = true

theorem Holding.rely (h : Holding thread writes rows s) (hrely : Relies thread s s') :
    Holding thread writes rows s' where
  tx := h.tx.kept hrely.kept fun d d' hsame hmem row hrow ↦
    mem_of_same (hsame row.id ⟨row, hrow, rfl⟩) (hmem row hrow)
  read row hrow := by
    obtain ⟨row', hrow', rfl⟩ := h.read row hrow
    exact hrely.rows row' hrow'
  alive hrows hclosed := by
    by_cases hopen : s.db.pending thread = none
    · exact hrely.disturbed (h.alive hrows hopen)
    · obtain ⟨-, howned, hcommitted⟩ := h.tx hopen
      obtain ⟨row, hrow⟩ := List.exists_mem_of_ne_nil rows hrows
      refine hrely.alive ?_ hopen hclosed
      rw [idle_eq_false]
      exact ⟨row, hcommitted row hrow, howned row.id ⟨row, hrow, rfl⟩⟩

/-- The thread has handed over exactly these rows, each of them with a confirm. -/
structure Handing (thread : ℕ) (rows : List OutboxRow) (s : Shared) : Prop where
  mine : ∀ entry ∈ s.handed, entry.publisher = thread → entry.row ∈ rows
  confirmed : ∀ row ∈ rows, ⟨thread, row, true⟩ ∈ s.handed

theorem Handing.rely (h : Handing thread rows s) (hrely : Relies thread s s') :
    Handing thread rows s' where
  mine entry hentry hmine := h.mine entry (hrely.mine entry hentry hmine) hmine
  confirmed row hrow := hrely.handed.subset (h.confirmed row hrow)

theorem handing_nil (h : discipline.Fresh thread s) : Handing thread [] s where
  mine entry hentry hmine := absurd hmine (h entry hentry)
  confirmed row hrow := by cases hrow

theorem pending_of_inTransaction (h : s.inTransaction thread) : s.db.pending thread ≠ none :=
  Option.isSome_iff_ne_none.mp h

theorem view_of_pending (h : s.db.pending thread = some writes) :
    s.view thread = writes.foldl apply s.db.committed := by
  rw [Shared.view, Transactions.view, h]
  rfl

theorem owner_of_released {id other : ℕ} (h : s.db.released thread id = some other) :
    s.db.owner id = some other := by
  unfold Transactions.released at h
  split at h
  · cases h
  · exact h

/-- An effect that is never resolved by `unconfirmed`. -/
theorem wp_statement {effect : Effect} {Q : effect.Result → Shared → Prop}
    (hE : ∀ error s', s'.disturbed = true → E error s')
    (hnone : ∀ s₁ text, exec thread effect (.unconfirmed text) s₁ = none)
    (hdone : ∀ s₁, Relies thread s s₁ → Sound s₁ → ∀ reply s₂,
      exec thread effect .done s₁ = some (reply, s₂) → discipline.Respects thread s₁ s₂ ∧
        Verifies thread Q E (.ofExcept reply) s₂) :
    Verifies thread Q E (perform effect) s := by
  refine wp_perform hE hdone fun s₁ _ _ text reply s₂ hexec ↦ ?_
  rw [hnone] at hexec
  cases hexec

theorem wp_begin {Q : Unit → Shared → Prop} (hfresh : discipline.Fresh thread s)
    (h : ∀ s₁, discipline.Fresh thread s₁ → Holding thread [] [] s₁ → Q () s₁) :
    Verifies thread Q (fun _ _ ↦ True) (perform .begin) s := by
  refine wp_statement (fun _ _ _ ↦ trivial) (fun _ _ ↦ rfl) fun s₁ hrely hinv reply s₂ hexec ↦ ?_
  obtain ⟨rfl, rfl⟩ := Prod.mk.inj (Option.some.inj hexec)
  constructor
  · exact respects_store hinv rfl (Nat.le_refl _) hinv.locks (fun _ _ _ h ↦ h)
      (fun other hne ↦ Function.update_of_ne hne _ _) fun other hne ↦ Transactions.kept_begin hne
  · have hholding : Holding thread [] [] { s₁ with db := s₁.db.begin thread } := by
      refine ⟨fun _ ↦ ⟨Function.update_self _ _ _, ?_, ?_⟩, ?_, fun h ↦ absurd rfl h⟩
      · rintro id ⟨row, hrow, -⟩
        cases hrow
      · exact fun row hrow ↦ by cases hrow
      · exact fun row hrow ↦ by cases hrow
    have hfresh₁ : discipline.Fresh thread { s₁ with db := s₁.db.begin thread } :=
      discipline.fresh_rely thread s s₁ hrely hfresh
    exact fun s₃ hrely₃ _ ↦
      h s₃ (discipline.fresh_rely thread _ s₃ hrely₃ hfresh₁) (hholding.rely hrely₃)

/-- Rolling back gives up the locks, so nothing may have been handed over. -/
theorem wp_rollback {Q : Unit → Shared → Prop} (hundone : Undone thread s) (h : ∀ s₁, Q () s₁) :
    Verifies thread Q (fun _ _ ↦ True) (perform .rollback) s := by
  refine wp_statement (fun _ _ _ ↦ trivial) (fun _ _ ↦ rfl) fun s₁ hrely hinv reply s₂ hexec ↦ ?_
  obtain ⟨rfl, rfl⟩ := Prod.mk.inj (Option.some.inj hexec)
  refine ⟨?_, fun s₃ _ _ ↦ h s₃⟩
  refine respects_store hinv rfl (Nat.le_refl _) (fun id other howner ↦ ?_)
    (fun hquiet entry hentry howner ↦ ?_) (fun other hne ↦ Function.update_of_ne hne _ _)
    fun other hne ↦ Transactions.kept_abort hne
  · exact hinv.locks id other (owner_of_released howner)
  · rcases hundone.rely hrely with hdisturbed | hnothing
    · rw [hdisturbed] at hquiet
      cases hquiet
    · exact Transactions.released_of_ne (hnothing entry hentry) howner

/-- A transaction is verified by its body: a body that returns has to be fit to commit, and one that
raises to be rolled back. -/
theorem wp_transaction {α : Type} {body : Proc α} (hfresh : discipline.Fresh thread s)
    (h : ∀ s₁, discipline.Fresh thread s₁ → Holding thread [] [] s₁ → Verifies thread
      (fun _ s₂ ↦ Verifies thread (fun _ _ ↦ True) (fun _ _ ↦ True) (perform .commit) s₂)
      (fun _ ↦ Undone thread) body s₁) :
    Verifies thread (fun _ _ ↦ True) (fun _ _ ↦ True)
      (.transaction (perform .begin) (perform .commit) (perform .rollback) body) s := by
  apply wp_bind
  apply wp_begin hfresh
  intro s₁ hfresh₁ hholding
  apply wp_bind
  apply wp_attempt
  refine wp_mono ?_ ?_ (h s₁ hfresh₁ hholding)
  · intro value s₂ hcommit
    apply wp_bind
    refine wp_mono ?_ (fun _ _ _ ↦ trivial) hcommit
    exact fun _ _ _ ↦ fun _ _ _ ↦ trivial
  · intro error s₂ hundone
    apply wp_bind
    exact wp_rollback hundone fun _ ↦ fun _ _ _ ↦ trivial

/-! ### A round of a relay -/

theorem Undone.of_disturbed (h : s.disturbed = true) : Undone thread s := Or.inl h

/-- A transaction that has written nothing sees what is committed. -/
theorem Holding.view (h : Holding thread [] rows s) (hin : s.inTransaction thread) :
    s.view thread = s.db.committed :=
  view_of_pending (h.tx (pending_of_inTransaction hin)).1

theorem nodup_found (hinv : Sound s) (hview : s.view thread = s.db.committed) :
    (s.found thread).Nodup := by
  unfold Shared.found
  rw [hview]
  have hsorted := List.perm_insertionSort (fun a b : OutboxRow ↦ a.id ≤ b.id)
    (s.db.committed.filter fun row ↦ !row.published)
  exact (hsorted.map OutboxRow.id).nodup_iff.mpr (hinv.unique.filter _)

theorem lt_of_mem_found (hinv : Sound s) (hview : s.view thread = s.db.committed) {id : ℕ}
    (h : id ∈ s.found thread) : id < s.sequence := by
  unfold Shared.found at h
  rw [hview] at h
  obtain ⟨row, hrow, rfl⟩ := List.mem_map.mp h
  rw [List.mem_insertionSort, List.mem_filter] at hrow
  exact hinv.drawn row hrow.1

/-- What a row that has been locked still looks like. -/
theorem recheck_some {id : ℕ} (hview : s.view thread = s.db.committed)
    (h : s.recheck thread id = some row) :
    row ∈ s.db.committed ∧ row.id = id ∧ row.published = false := by
  unfold Shared.recheck at h
  rw [hview, Option.filter_eq_some_iff, Bool.not_eq_true'] at h
  obtain ⟨hmem, hid⟩ := Table.find_some h.1
  exact ⟨hmem, hid, h.2⟩

theorem wp_scan {Q : List ℕ → Shared → Prop} (hholding : Holding thread [] [] s)
    (hfresh : discipline.Fresh thread s)
    (h : ∀ s₁ ids, Holding thread [] [] s₁ → discipline.Fresh thread s₁ → ids.Nodup →
      (∀ id ∈ ids, id < s₁.sequence) → Q ids s₁) :
    Verifies thread Q (fun _ ↦ Undone thread) (perform .scan) s := by
  refine wp_statement (fun _ _ ↦ .of_disturbed) (fun _ _ ↦ rfl)
    fun s₁ hrely hinv reply s₂ hexec ↦ ?_
  simp only [exec] at hexec
  split at hexec
  · rename_i hin
    obtain ⟨rfl, rfl⟩ := Prod.mk.inj (Option.some.inj hexec)
    refine ⟨⟨hinv, fun other _ ↦ Relies.refl other s₁⟩, fun s₃ hrely₃ _ ↦ ?_⟩
    have hholding₁ := hholding.rely hrely
    have hview := hholding₁.view hin
    refine h s₃ _ (hholding₁.rely hrely₃) ?_ (nodup_found hinv hview) fun id hid ↦ ?_
    · exact discipline.fresh_rely thread s₁ s₃ hrely₃
        (discipline.fresh_rely thread s s₁ hrely hfresh)
    · exact Nat.lt_of_lt_of_le (lt_of_mem_found hinv hview hid) hrely₃.sequence
  · cases hexec

/-- A step that takes a free lock. -/
theorem respects_lock (hinv : Sound s) {id : ℕ} (hfree : s.db.free thread id)
    (hid : id < s.sequence) :
    discipline.Respects thread s { s with db := s.db.lock thread id } := by
  refine respects_store hinv rfl (Nat.le_refl _) (fun other holder howner ↦ ?_)
    (fun _ entry _ howner ↦ ?_) (fun _ _ ↦ rfl) fun other hne ↦ Transactions.kept_lock hfree hne
  · by_cases hother : other = id
    · rw [hother]
      exact hid
    · have hbefore : Function.update s.db.owner id (some thread) other = some holder := howner
      rw [Function.update_of_ne hother] at hbefore
      exact hinv.locks other holder hbefore
  · show Function.update s.db.owner id (some thread) entry.row.id = _
    by_cases hentry : entry.row.id = id
    · -- A lock that was free and is held is held by the thread itself.
      rw [hentry] at howner
      rcases of_decide_eq_true hfree with hnone | hsome
      · rw [hnone] at howner
        cases howner
      · rw [hentry, Function.update_self, ← hsome, howner]
    · rw [Function.update_of_ne hentry, howner]

/-- A row is locked and as it was found, or it is skipped. -/
theorem wp_lockRow {id : ℕ} {Q : Option OutboxRow → Shared → Prop}
    (hholding : Holding thread [] got s) (hfresh : discipline.Fresh thread s)
    (hid : id < s.sequence)
    (htaken : ∀ s₁ row, row.id = id → row.published = false → Holding thread [] (got ++ [row]) s₁ →
      discipline.Fresh thread s₁ → s.sequence ≤ s₁.sequence → Q (some row) s₁)
    (hskipped : ∀ s₁, Holding thread [] got s₁ → discipline.Fresh thread s₁ →
      s.sequence ≤ s₁.sequence → Q none s₁) :
    Verifies thread Q (fun _ ↦ Undone thread) (perform (.lockRow id)) s := by
  refine wp_statement (fun _ _ ↦ .of_disturbed) (fun _ _ ↦ rfl)
    fun s₁ hrely hinv reply s₂ hexec ↦ ?_
  have hholding₁ := hholding.rely hrely
  have hfresh₁ := discipline.fresh_rely thread s s₁ hrely hfresh
  simp only [exec] at hexec
  split_ifs at hexec with hin hfree
  · obtain ⟨rfl, rfl⟩ := Prod.mk.inj (Option.some.inj hexec)
    have hrespects : discipline.Respects thread s₁ { s₁ with db := s₁.db.lock thread id } :=
      respects_lock hinv hfree (Nat.lt_of_lt_of_le hid hrely.sequence)
    refine ⟨hrespects, fun s₃ hrely₃ _ ↦ ?_⟩
    obtain ⟨hpending, howned, hcommitted⟩ := hholding₁.tx (pending_of_inTransaction hin)
    have hsequence := hrely.sequence.trans hrely₃.sequence
    have hfresh₃ := discipline.fresh_rely thread _ s₃ hrely₃ hfresh₁
    have howned₂ : ∀ row ∈ got, (s₁.db.lock thread id).owner row.id = some thread := by
      intro row hrow
      show Function.update s₁.db.owner id (some thread) row.id = _
      by_cases hsame : row.id = id
      · rw [hsame, Function.update_self]
      · rw [Function.update_of_ne hsame, howned row.id ⟨row, hrow, rfl⟩]
    cases hrecheck : s₁.recheck thread id with
    | none =>
      have hholding₂ : Holding thread [] got { s₁ with db := s₁.db.lock thread id } := by
        refine ⟨fun _ ↦ ⟨hpending, ?_, hcommitted⟩, hholding₁.read, hholding₁.alive⟩
        rintro _ ⟨row, hrow, rfl⟩
        exact howned₂ row hrow
      exact hskipped s₃ (hholding₂.rely hrely₃) hfresh₃ hsequence
    | some row =>
      obtain ⟨hmem, rfl, hunpublished⟩ := recheck_some (hholding₁.view hin) hrecheck
      have hholding₂ : Holding thread [] (got ++ [row])
          { s₁ with db := s₁.db.lock thread row.id } := by
        refine ⟨fun _ ↦ ⟨hpending, ?_, ?_⟩, ?_, fun _ hclosed ↦ ?_⟩
        · rintro _ ⟨other, hother, rfl⟩
          rcases List.mem_append.mp hother with hgot | hnew
          · exact howned₂ other hgot
          · rw [List.mem_singleton.mp hnew]
            exact Function.update_self _ _ _
        · intro other hother
          rcases List.mem_append.mp hother with hgot | hnew
          · exact hcommitted other hgot
          · rw [List.mem_singleton.mp hnew]
            exact hmem
        · intro other hother
          rcases List.mem_append.mp hother with hgot | hnew
          · exact hholding₁.read other hgot
          · rw [List.mem_singleton.mp hnew]
            exact ⟨row, hmem, Outbox.unstamped_of_unpublished hunpublished⟩
        · have hopen : s₁.db.pending thread = none := hclosed
          rw [hpending] at hopen
          cases hopen
      exact htaken s₃ row rfl hunpublished (hholding₂.rely hrely₃) hfresh₃ hsequence
  · obtain ⟨rfl, rfl⟩ := Prod.mk.inj (Option.some.inj hexec)
    refine ⟨⟨hinv, fun other _ ↦ Relies.refl other s₁⟩, fun s₃ hrely₃ _ ↦ ?_⟩
    exact hskipped s₃ (hholding₁.rely hrely₃)
      (discipline.fresh_rely thread s₁ s₃ hrely₃ hfresh₁)
      (hrely.sequence.trans hrely₃.sequence)

/-- The rows taken are among those found, in their order, and each is locked. -/
theorem wp_takeRows {batch : ℕ} {ids : List ℕ} (hholding : Holding thread [] got s)
    (hfresh : discipline.Fresh thread s) (hids : ∀ id ∈ ids, id < s.sequence) :
    Verifies thread (fun rows s₁ ↦ Holding thread [] (got ++ rows) s₁ ∧
        discipline.Fresh thread s₁ ∧ (rows.map OutboxRow.id).Sublist ids ∧
          ∀ row ∈ rows, row.published = false)
      (fun _ ↦ Undone thread) (takeRows batch ids) s := by
  induction ids generalizing batch got s with
  | nil =>
    have hret : takeRows batch [] = .ret [] := by cases batch <;> rfl
    rw [hret]
    intro s₁ hrely _
    rw [List.append_nil]
    exact ⟨hholding.rely hrely, discipline.fresh_rely thread s s₁ hrely hfresh,
      List.nil_sublist _, by simp⟩
  | cons id rest ih =>
    cases batch with
    | zero =>
      intro s₁ hrely _
      rw [List.append_nil]
      exact ⟨hholding.rely hrely, discipline.fresh_rely thread s s₁ hrely hfresh,
        List.nil_sublist _, by simp⟩
    | succ batch =>
      have hid : id < s.sequence := hids id (by simp)
      have hrest : ∀ other ∈ rest, other < s.sequence :=
        fun other hother ↦ hids other (List.mem_cons_of_mem id hother)
      apply wp_bind
      apply wp_lockRow hholding hfresh hid
      · rintro s₁ row rfl hunpublished hholding₁ hfresh₁ hsequence
        apply wp_bind
        have hdrawn : ∀ other ∈ rest, other < s₁.sequence :=
          fun other hother ↦ Nat.lt_of_lt_of_le (hrest other hother) hsequence
        refine wp_mono ?_ (fun _ _ h ↦ h) (ih hholding₁ hfresh₁ hdrawn)
        rintro rows s₂ ⟨hholding₂, hfresh₂, hsublist, hrows⟩ s₃ hrely₃ _
        rw [List.append_assoc, List.singleton_append] at hholding₂
        refine ⟨hholding₂.rely hrely₃, discipline.fresh_rely thread s₂ s₃ hrely₃ hfresh₂,
          hsublist.cons_cons row.id, fun other hother ↦ ?_⟩
        rcases List.mem_cons.mp hother with rfl | hmem
        · exact hunpublished
        · exact hrows other hmem
      · intro s₁ hholding₁ hfresh₁ hsequence
        have hdrawn : ∀ other ∈ rest, other < s₁.sequence :=
          fun other hother ↦ Nat.lt_of_lt_of_le (hrest other hother) hsequence
        refine wp_mono ?_ (fun _ _ h ↦ h) (ih hholding₁ hfresh₁ hdrawn)
        rintro rows s₂ ⟨hholding₂, hfresh₂, hsublist, hrows⟩
        exact ⟨hholding₂, hfresh₂, hsublist.cons id, hrows⟩

/-- What a relay has read and may publish. -/
theorem wp_select {batch : ℕ} (hholding : Holding thread [] [] s)
    (hfresh : discipline.Fresh thread s) :
    Verifies thread (fun rows s₁ ↦ Holding thread [] rows s₁ ∧ discipline.Fresh thread s₁ ∧
        Table.Unique OutboxRow.id rows ∧ ∀ row ∈ rows, row.published = false)
      (fun _ ↦ Undone thread) (select batch) s := by
  apply wp_bind
  apply wp_scan hholding hfresh
  intro s₁ ids hholding₁ hfresh₁ hnodup hids
  refine wp_mono ?_ (fun _ _ h ↦ h) (wp_takeRows hholding₁ hfresh₁ hids)
  rintro rows s₂ ⟨hholding₂, hfresh₂, hsublist, hrows⟩
  rw [List.nil_append] at hholding₂
  exact ⟨hholding₂, hfresh₂, hnodup.sublist hsublist, hrows⟩

theorem Confirmed.append {handed : List Handed} (h : Confirmed handed row) (entry : Handed) :
    Confirmed (handed ++ [entry]) row := by
  obtain ⟨known, hknown, hconfirmed⟩ := h
  exact ⟨known, List.mem_append_left _ hknown, hconfirmed⟩

/-- Handing over a row keeps the invariant, unless it was handed over before. -/
theorem Sound.hand (hinv : Sound s) {confirmed : Bool}
    (hread : ∃ row' ∈ s.db.committed, Outbox.unstamped row' = row)
    (howner : s.disturbed = false → s.db.owner row.id = some thread)
    (hnew : s.disturbed = false → ∀ entry ∈ s.handed, entry.row.id ≠ row.id) :
    Sound (s.hand thread row confirmed) where
  unique := hinv.unique
  drawn := hinv.drawn
  locks := hinv.locks
  handed entry hentry := by
    rcases List.mem_append.mp hentry with hold | hlast
    · exact hinv.handed entry hold
    · rw [List.mem_singleton.mp hlast]
      exact hread
  stamped other hother hpublished := (hinv.stamped other hother hpublished).append _
  held hquiet entry hentry := by
    rcases List.mem_append.mp hentry with hold | hlast
    · exact hinv.held hquiet entry hold
    · rw [List.mem_singleton.mp hlast]
      exact Or.inr (howner hquiet)
  once hquiet := (hinv.once hquiet).append (hnew hquiet)

theorem relies_hand {other : ℕ} (hne : other ≠ thread) {confirmed : Bool} :
    Relies other s (s.hand thread row confirmed) where
  rows row hrow := ⟨row, hrow, rfl⟩
  sequence := Nat.le_refl _
  handed := List.prefix_append _ _
  mine entry hentry hmine := by
    rcases List.mem_append.mp hentry with hold | hlast
    · exact hold
    · rw [List.mem_singleton.mp hlast] at hmine
      exact absurd hmine.symm hne
  disturbed := id
  kept := Transactions.Kept.refl other _
  alive _ hopen hclosed := absurd hclosed hopen

/-- As long as nothing has gone wrong, a row that a relay holds and has not handed over itself was
handed over by none. -/
theorem Holding.new (hholding : Holding thread writes rows s) (hinv : Sound s)
    (hhanding : Handing thread done s) (hrow : row ∈ rows) (hunpublished : row.published = false)
    (hdone : ∀ other ∈ done, other.id ≠ row.id) (hquiet : s.disturbed = false) :
    s.db.owner row.id = some thread ∧ ∀ entry ∈ s.handed, entry.row.id ≠ row.id := by
  have hopen : s.db.pending thread ≠ none := by
    intro hclosed
    have hdisturbed := hholding.alive (List.ne_nil_of_mem hrow) hclosed
    rw [hquiet] at hdisturbed
    cases hdisturbed
  obtain ⟨-, howned, hcommitted⟩ := hholding.tx hopen
  have howner : s.db.owner row.id = some thread := howned row.id ⟨row, hrow, rfl⟩
  refine ⟨howner, fun entry hentry hsame ↦ ?_⟩
  rcases hinv.held hquiet entry hentry with ⟨stored, hstored, hid, hpublished⟩ | hheld
  · have hstamped : stored = row :=
      hinv.unique.eq hstored (hcommitted row hrow) (hid.trans hsame)
    rw [hstamped, hunpublished] at hpublished
    cases hpublished
  · rw [hsame, howner] at hheld
    have hmine : entry.publisher = thread := (Option.some.inj hheld).symm
    exact hdone entry.row (hhanding.mine entry hentry hmine) hsame

/-- Publishing the next of the rows that are held. -/
theorem wp_publish (hholding : Holding thread [] rows s) (hhanding : Handing thread done s)
    (hrow : row ∈ rows) (hunpublished : row.published = false)
    (hdone : ∀ other ∈ done, other.id ≠ row.id) :
    Verifies thread
      (fun _ s₁ ↦ Holding thread [] rows s₁ ∧ Handing thread (done ++ [row]) s₁)
      (fun _ ↦ Undone thread) (perform (.publish row)) s := by
  have hrespects : ∀ s₁ confirmed, Relies thread s s₁ → Sound s₁ →
      discipline.Respects thread s₁ (s₁.hand thread row confirmed) := by
    intro s₁ confirmed hrely hinv
    have hnew := (hholding.rely hrely).new hinv (hhanding.rely hrely) hrow hunpublished hdone
    refine ⟨hinv.hand ((hholding.rely hrely).read row hrow) (fun h ↦ (hnew h).1)
      fun h ↦ (hnew h).2, fun other hne ↦ relies_hand hne⟩
  apply wp_perform fun _ _ ↦ .of_disturbed
  · intro s₁ hrely hinv reply s₂ hexec
    obtain ⟨rfl, rfl⟩ := Prod.mk.inj (Option.some.inj hexec)
    refine ⟨hrespects s₁ true hrely hinv, fun s₃ hrely₃ _ ↦ ?_⟩
    have hholding₁ := hholding.rely hrely
    have hhanding₁ := hhanding.rely hrely
    have hholding₂ : Holding thread [] rows (s₁.hand thread row true) :=
      ⟨hholding₁.tx, hholding₁.read, hholding₁.alive⟩
    have hhanding₂ : Handing thread (done ++ [row]) (s₁.hand thread row true) := by
      constructor
      · intro entry hentry hmine
        rcases List.mem_append.mp hentry with hold | hlast
        · exact List.mem_append_left _ (hhanding₁.mine entry hold hmine)
        · rw [List.mem_singleton.mp hlast]
          simp
      · intro other hother
        rcases List.mem_append.mp hother with hold | hlast
        · exact List.mem_append_left _ (hhanding₁.confirmed other hold)
        · rw [List.mem_singleton.mp hlast]
          exact List.mem_append_right _ (by simp)
    exact ⟨hholding₂.rely hrely₃, hhanding₂.rely hrely₃⟩
  · intro s₁ hrely hinv text reply s₂ hexec
    obtain ⟨rfl, rfl⟩ := Prod.mk.inj (Option.some.inj hexec)
    refine ⟨respects_disturb (hrespects s₁ false hrely hinv), fun s₃ hrely₃ _ ↦ ?_⟩
    exact Or.inl (hrely₃.disturbed rfl)

/-- All rows are published, in order; what is returned are their ids. -/
theorem wp_publishAll (hholding : Holding thread [] (done ++ rest) s)
    (hhanding : Handing thread done s) (hunique : Table.Unique OutboxRow.id (done ++ rest))
    (hunpublished : ∀ row ∈ done ++ rest, row.published = false) :
    Verifies thread (fun ids s₁ ↦ ids = rest.map OutboxRow.id ∧
        Holding thread [] (done ++ rest) s₁ ∧ Handing thread (done ++ rest) s₁)
      (fun _ ↦ Undone thread) (relay.publishAll rest) s := by
  induction rest generalizing done s with
  | nil =>
    intro s₁ hrely _
    refine ⟨rfl, hholding.rely hrely, ?_⟩
    rw [List.append_nil]
    exact hhanding.rely hrely
  | cons row rest ih =>
    have hdone : ∀ other ∈ done, other.id ≠ row.id := by
      rw [Table.Unique, List.map_append, List.nodup_append] at hunique
      intro other hother
      exact hunique.2.2 other.id (List.mem_map_of_mem hother) row.id (by simp)
    have hsplit : done ++ row :: rest = (done ++ [row]) ++ rest := by simp
    apply wp_bind
    refine wp_mono ?_ (fun _ _ h ↦ h)
      (wp_publish hholding hhanding (by simp) (hunpublished row (by simp)) hdone)
    rintro _ s₁ ⟨hholding₁, hhanding₁⟩
    rw [hsplit] at hholding₁ hunique hunpublished ⊢
    apply wp_bind
    refine wp_mono ?_ (fun _ _ h ↦ h) (ih hholding₁ hhanding₁ hunique hunpublished)
    rintro ids s₂ ⟨rfl, hholding₂, hhanding₂⟩ s₃ hrely₃ _
    exact ⟨rfl, hholding₂.rely hrely₃, hhanding₂.rely hrely₃⟩

/-- The locks of the rows are still held when the rows are stamped. -/
theorem wp_stamp {ids : List ℕ} (hholding : Holding thread [] rows s)
    (hhanding : Handing thread rows s) :
    Verifies thread
      (fun _ s₁ ↦ Holding thread [.stamp ids] rows s₁ ∧ Handing thread rows s₁)
      (fun _ ↦ Undone thread) (perform (.stamp ids)) s := by
  refine wp_statement (fun _ _ ↦ .of_disturbed) (fun _ _ ↦ rfl)
    fun s₁ hrely hinv reply s₂ hexec ↦ ?_
  simp only [exec] at hexec
  split at hexec
  · rename_i hin
    obtain ⟨rfl, rfl⟩ := Prod.mk.inj (Option.some.inj hexec)
    have hholding₁ := hholding.rely hrely
    obtain ⟨hpending, howned, hcommitted⟩ := hholding₁.tx (pending_of_inTransaction hin)
    have hwritten : (s₁.db.write thread (.stamp ids)).pending thread = some [.stamp ids] := by
      show Function.update s₁.db.pending thread _ thread = _
      rw [Function.update_self, hpending]
      rfl
    constructor
    · exact respects_store hinv rfl (Nat.le_refl _) hinv.locks (fun _ _ _ h ↦ h)
        (fun other hne ↦ Function.update_of_ne hne _ _) fun other hne ↦ Transactions.kept_write hne
    · have hholding₂ : Holding thread [.stamp ids] rows
          { s₁ with db := s₁.db.write thread (.stamp ids) } := by
        refine ⟨fun _ ↦ ⟨hwritten, howned, hcommitted⟩, hholding₁.read, fun _ hclosed ↦ ?_⟩
        have hopen : (s₁.db.write thread (.stamp ids)).pending thread = none := hclosed
        rw [hwritten] at hopen
        cases hopen
      have hhanding₂ : Handing thread rows { s₁ with db := s₁.db.write thread (.stamp ids) } :=
        ⟨(hhanding.rely hrely).mine, (hhanding.rely hrely).confirmed⟩
      exact fun s₃ hrely₃ _ ↦ ⟨hholding₂.rely hrely₃, hhanding₂.rely hrely₃⟩
  · cases hexec

/-! ### Committing -/

/-- No write takes a row back. -/
theorem exists_mem_foldl (writes : List Write) {d : List OutboxRow} (hrow : row ∈ d) :
    ∃ row' ∈ writes.foldl apply d, Outbox.unstamped row' = Outbox.unstamped row := by
  induction writes generalizing d row with
  | nil => exact ⟨row, hrow, rfl⟩
  | cons write rest ih =>
    have hfirst : ∃ row' ∈ apply d write, Outbox.unstamped row' = Outbox.unstamped row := by
      cases write with
      | insert added => exact ⟨row, List.mem_append_left _ hrow, rfl⟩
      | stamp ids => exact Outbox.exists_mem_stamp hrow
    obtain ⟨row₁, hrow₁, hsame₁⟩ := hfirst
    obtain ⟨row₂, hrow₂, hsame₂⟩ := ih hrow₁
    exact ⟨row₂, hrow₂, hsame₂.trans hsame₁⟩

theorem wp_commit {keys : ℕ → Prop} {P : List OutboxRow → Prop}
    (htx : s.db.InTransaction thread writes keys P)
    (hP : ∀ d d', (∀ id, keys id → guarding.Same id d d') → P d → P d')
    (hkeys : ∀ write ∈ writes, ∀ id, guarding.Touches write id → keys id)
    (hsound : ∀ s₁, Relies thread s s₁ → Sound s₁ → P s₁.db.committed →
      s₁.view thread = writes.foldl apply s₁.db.committed → Sound (s₁.commit thread)) :
    Verifies thread (fun _ _ ↦ True) (fun _ _ ↦ True) (perform .commit) s := by
  have hcommit : ∀ s₁, Relies thread s s₁ → Sound s₁ → s₁.inTransaction thread →
      discipline.Respects thread s₁ (s₁.commit thread) := by
    intro s₁ hrely hinv hin
    obtain ⟨hpending, howned, hguarded⟩ :=
      (htx.kept hrely.kept hP) (pending_of_inTransaction hin)
    have hview := view_of_pending hpending
    refine ⟨hsound s₁ hrely hinv hguarded hview, fun other hne ↦ ⟨fun row hrow ↦ ?_,
      Nat.le_refl _, List.prefix_rfl, fun _ h _ ↦ h, id, ?_, fun _ hopen hclosed ↦ ?_⟩⟩
    · show ∃ row' ∈ s₁.view thread, _
      rw [hview]
      exact exists_mem_foldl writes hrow
    · exact Transactions.kept_commit hne hpending fun write hwrite id htouches ↦
        howned id (hkeys write hwrite id htouches)
    · have hsame : (s₁.commit thread).db.pending other = s₁.db.pending other :=
        Function.update_of_ne hne _ _
      rw [hsame] at hclosed
      exact absurd hclosed hopen
  apply wp_perform fun _ _ _ ↦ trivial
  · intro s₁ hrely hinv reply s₂ hexec
    simp only [exec] at hexec
    split at hexec
    · rename_i hin
      obtain ⟨rfl, rfl⟩ := Prod.mk.inj (Option.some.inj hexec)
      exact ⟨hcommit s₁ hrely hinv hin, fun _ _ _ ↦ trivial⟩
    · cases hexec
  · intro s₁ hrely hinv text reply s₂ hexec
    simp only [exec] at hexec
    split at hexec
    · rename_i hin
      obtain ⟨rfl, rfl⟩ := Prod.mk.inj (Option.some.inj hexec)
      exact ⟨respects_disturb (hcommit s₁ hrely hinv hin), fun _ _ _ ↦ trivial⟩
    · cases hexec

theorem stamp_nil (d : List OutboxRow) : Outbox.stamp [] d = d := by
  simp [Outbox.stamp]

/-- Stamping keeps a stamp. -/
theorem Stamped.stamp {d : List OutboxRow} {id : ℕ} (h : Stamped d id) (ids : List ℕ) :
    Stamped (Outbox.stamp ids d) id := by
  obtain ⟨row, hrow, hid, hpublished⟩ := h
  refine ⟨_, List.mem_map_of_mem hrow, ?_⟩
  split
  · exact ⟨hid, rfl⟩
  · exact ⟨hid, hpublished⟩

/-- A relay that has handed over the rows it holds may stamp them and give up its locks. -/
theorem Sound.commit_stamp (hinv : Sound s) (hhanding : Handing thread rows s)
    (hread : ∀ row ∈ rows, ∃ row' ∈ s.db.committed, Outbox.unstamped row' = row)
    (hview : s.view thread = Outbox.stamp (rows.map OutboxRow.id) s.db.committed) :
    Sound (s.commit thread) := by
  have hcommitted : (s.commit thread).db.committed =
      Outbox.stamp (rows.map OutboxRow.id) s.db.committed := hview
  refine ⟨?_, ?_, fun id other howner ↦ ?_, ?_, ?_, ?_, hinv.once⟩
  · rw [hcommitted, Table.Unique, Outbox.map_stamp OutboxRow.id fun _ ↦ rfl]
    exact hinv.unique
  · intro row hrow
    rw [hcommitted] at hrow
    obtain ⟨before, hbefore, hsame, -⟩ := Outbox.mem_stamp hrow
    rw [id_eq_of_unstamped hsame]
    exact hinv.drawn before hbefore
  · exact hinv.locks id other (owner_of_released howner)
  · intro entry hentry
    obtain ⟨row, hrow, hsame⟩ := hinv.handed entry hentry
    have hkept : ∃ row' ∈ Outbox.stamp (rows.map OutboxRow.id) s.db.committed,
        Outbox.unstamped row' = Outbox.unstamped row := Outbox.exists_mem_stamp hrow
    obtain ⟨row', hrow', hsame'⟩ := hkept
    rw [hcommitted]
    exact ⟨row', hrow', hsame'.trans hsame⟩
  · intro row hrow hpublished
    rw [hcommitted] at hrow
    obtain ⟨before, hbefore, hsame, hcases⟩ := Outbox.mem_stamp hrow
    show Confirmed s.handed row
    rw [Confirmed, hsame]
    rcases hcases hpublished with hbefore' | hstamped
    · exact hinv.stamped before hbefore hbefore'
    · obtain ⟨read, hmem, hid⟩ := List.mem_map.mp hstamped
      obtain ⟨current, hcurrent, rfl⟩ := hread read hmem
      have hbefore₁ : current = before := hinv.unique.eq hcurrent hbefore hid
      rw [hbefore₁] at hmem
      exact ⟨_, hhanding.confirmed _ hmem, rfl, rfl⟩
  · intro hquiet entry hentry
    rw [hcommitted]
    rcases hinv.held hquiet entry hentry with hstamped | howner
    · exact Or.inl (hstamped.stamp _)
    · by_cases hmine : entry.publisher = thread
      · -- What the relay has handed over itself it stamps now.
        have hmem := hhanding.mine entry hentry hmine
        obtain ⟨row, hrow, hsame⟩ := hread entry.row hmem
        have hid : row.id = entry.row.id := by
          rw [← hsame]
          rfl
        have hstamp : row.id ∈ rows.map OutboxRow.id := by
          rw [hid]
          exact List.mem_map_of_mem hmem
        refine Or.inl ⟨{ row with published := true }, ?_, hid, rfl⟩
        have hmapped := List.mem_map_of_mem
          (f := fun row : OutboxRow ↦ if row.id ∈ rows.map OutboxRow.id then
            { row with published := true } else row) hrow
        rwa [if_pos hstamp] at hmapped
      · exact Or.inr (Transactions.released_of_ne hmine howner)

/-- A round of a relay. -/
theorem wp_drainOnce (hfresh : discipline.Fresh thread s) :
    Verifies thread (fun _ _ ↦ True) (fun _ _ ↦ True) relay.drainOnce s := by
  apply wp_transaction hfresh
  intro s₁ hfresh₁ hholding₁
  apply wp_bind
  refine wp_mono ?_ (fun _ _ h ↦ h) (wp_select hholding₁ hfresh₁)
  rintro rows s₂ ⟨hholding₂, hfresh₂, hunique, hunpublished⟩
  split
  · rename_i hempty
    obtain rfl := List.isEmpty_iff.mp hempty
    intro s₃ hrely₃ _
    refine wp_commit (hholding₂.rely hrely₃).tx (fun _ _ _ _ row hrow ↦ by cases hrow)
      (fun write hwrite ↦ by cases hwrite) fun s₄ hrely₄ hinv _ hview ↦ ?_
    have hhanding := handing_nil (discipline.fresh_rely thread s₂ s₃ hrely₃ hfresh₂)
    refine hinv.commit_stamp (hhanding.rely hrely₄) (fun row hrow ↦ by cases hrow) ?_
    rw [hview, List.map_nil, stamp_nil]
    rfl
  · have hpublished : Verifies thread (fun ids s₃ ↦ ids = rows.map OutboxRow.id ∧
        Holding thread [] rows s₃ ∧ Handing thread rows s₃)
        (fun _ ↦ Undone thread) (relay.publishAll rows) s₂ :=
      wp_publishAll hholding₂ (handing_nil hfresh₂) hunique hunpublished
    apply wp_bind
    refine wp_mono ?_ (fun _ _ h ↦ h) hpublished
    rintro ids s₃ ⟨rfl, hholding₃, hhanding₃⟩
    apply wp_bind
    refine wp_mono ?_ (fun _ _ h ↦ h) (wp_stamp hholding₃ hhanding₃)
    rintro _ s₄ ⟨hholding₄, hhanding₄⟩ s₅ hrely₅ _
    refine wp_commit (hholding₄.rely hrely₅).tx (fun d d' hsame hmem row hrow ↦
      mem_of_same (hsame row.id ⟨row, hrow, rfl⟩) (hmem row hrow)) ?_
        fun s₆ hrely₆ hinv _ hview ↦ ?_
    · intro write hwrite id htouches
      obtain rfl := List.mem_singleton.mp hwrite
      exact List.mem_map.mp htouches
    · have hhanding₆ := (hhanding₄.rely hrely₅).rely hrely₆
      exact hinv.commit_stamp hhanding₆ ((hholding₄.rely hrely₅).rely hrely₆).read hview

/-! ### A transaction of a service -/

variable {added : List OutboxRow}

/-- The transaction of the thread is to insert these rows, with ids drawn from the sequence that no
row has. It has handed over nothing. -/
structure Writing (thread : ℕ) (added : List OutboxRow) (s : Shared) : Prop where
  tx : s.db.InTransaction thread (added.map .insert) (fun id ↦ ∃ row ∈ added, row.id = id)
    fun d ↦ ∀ row ∈ added, ∀ other ∈ d, other.id ≠ row.id
  unique : Table.Unique OutboxRow.id added
  unpublished : ∀ row ∈ added, row.published = false
  drawn : ∀ row ∈ added, row.id < s.sequence
  fresh : discipline.Fresh thread s

theorem Writing.rely (h : Writing thread added s) (hrely : Relies thread s s') :
    Writing thread added s' where
  tx := h.tx.kept hrely.kept fun d d' hsame habsent row hrow other hother hid ↦ by
    have hguard : guarding.Same other.id d' d := by
      rw [hid]
      exact (hsame row.id ⟨row, hrow, rfl⟩).symm
    exact habsent row hrow other (mem_of_same hguard hother) hid
  unique := h.unique
  unpublished := h.unpublished
  drawn row hrow := Nat.lt_of_lt_of_le (h.drawn row hrow) hrely.sequence
  fresh := discipline.fresh_rely thread s s' hrely h.fresh

theorem writing_nil (hholding : Holding thread [] [] s) (hfresh : discipline.Fresh thread s) :
    Writing thread [] s where
  tx hopen := by
    obtain ⟨hpending, -, -⟩ := hholding.tx hopen
    refine ⟨hpending, ?_, fun row hrow ↦ by cases hrow⟩
    rintro id ⟨row, hrow, -⟩
    cases hrow
  unique := List.nodup_nil
  unpublished row hrow := by cases hrow
  drawn row hrow := by cases hrow
  fresh := hfresh

/-- No transaction holds the id that the sequence gives next. -/
theorem free_sequence (hinv : Sound s) : s.db.free thread s.sequence := by
  rw [Transactions.free, decide_eq_true_eq]
  cases howner : s.db.owner s.sequence with
  | none => exact Or.inl rfl
  | some other => exact absurd (hinv.locks _ other howner) (Nat.lt_irrefl _)

/-- The row that an `INSERT` adds. -/
def Message.toRow (message : Message) (id : ℕ) : OutboxRow :=
  ⟨id, message.exchange, message.routingKey, message.payload, false⟩

theorem wp_enqueue {message : Message} (hwriting : Writing thread added s) :
    Verifies thread (fun _ s₁ ↦ ∃ row, Writing thread (added ++ [row]) s₁)
      (fun _ ↦ Undone thread) (perform (.enqueue message)) s := by
  refine wp_statement (fun _ _ ↦ .of_disturbed) (fun _ _ ↦ rfl)
    fun s₁ hrely hinv reply s₂ hexec ↦ ?_
  simp only [exec] at hexec
  split at hexec
  · rename_i hin
    obtain ⟨rfl, rfl⟩ := Prod.mk.inj (Option.some.inj hexec)
    have hwriting₁ := hwriting.rely hrely
    obtain ⟨hpending, howned, habsent⟩ := hwriting₁.tx (pending_of_inTransaction hin)
    have hfree : s₁.db.free thread s₁.sequence := free_sequence hinv
    let row := message.toRow s₁.sequence
    let db := (s₁.db.lock thread s₁.sequence).write thread (.insert row)
    have hnew : ∀ other ∈ added, other.id ≠ row.id :=
      fun other hother ↦ Nat.ne_of_lt (hwriting₁.drawn other hother)
    have howner : ∀ id, id ≠ s₁.sequence → db.owner id = s₁.db.owner id :=
      fun id hid ↦ Function.update_of_ne hid _ _
    constructor
    · show discipline.Respects thread s₁ { s₁ with db := db, sequence := s₁.sequence + 1 }
      refine respects_store hinv rfl (Nat.le_succ _) ?_ ?_ ?_ ?_
      · intro id other hlocked
        by_cases hid : id = s₁.sequence
        · omega
        · rw [howner id hid] at hlocked
          exact Nat.lt_succ_of_lt (hinv.locks id other hlocked)
      · intro _ entry hentry hheld
        obtain ⟨stored, hstored, hsame⟩ := hinv.handed entry hentry
        have hid : entry.row.id < s₁.sequence := by
          rw [← hsame]
          exact hinv.drawn stored hstored
        rw [howner _ (Nat.ne_of_lt hid), hheld]
      · exact fun other hne ↦ Function.update_of_ne hne _ _
      · exact fun other hne ↦
          (Transactions.kept_lock hfree hne).trans (Transactions.kept_write hne)
    · have hwritten : db.pending thread = some ((added ++ [row]).map .insert) := by
        have hsame : db.pending thread =
            (s₁.db.pending thread).map fun writes ↦ writes ++ [.insert row] :=
          Function.update_self _ _ _
        rw [hsame, hpending, List.map_append]
        rfl
      have hwriting₂ : Writing thread (added ++ [row])
          { s₁ with db := db, sequence := s₁.sequence + 1 } := by
        refine ⟨fun _ ↦ ⟨hwritten, ?_, ?_⟩, hwriting₁.unique.append hnew, ?_, ?_,
          hwriting₁.fresh⟩
        · rintro _ ⟨other, hother, rfl⟩
          rcases List.mem_append.mp hother with hold | hlast
          · rw [howner _ (hnew other hold)]
            exact howned other.id ⟨other, hold, rfl⟩
          · rw [List.mem_singleton.mp hlast]
            exact Function.update_self _ _ _
        · intro other hother stored hstored
          rcases List.mem_append.mp hother with hold | hlast
          · exact habsent other hold stored hstored
          · rw [List.mem_singleton.mp hlast]
            exact Nat.ne_of_lt (hinv.drawn stored hstored)
        · intro other hother
          rcases List.mem_append.mp hother with hold | hlast
          · exact hwriting₁.unpublished other hold
          · rw [List.mem_singleton.mp hlast]
            rfl
        · intro other hother
          rcases List.mem_append.mp hother with hold | hlast
          · exact Nat.lt_succ_of_lt (hwriting₁.drawn other hold)
          · rw [List.mem_singleton.mp hlast]
            exact Nat.lt_succ_self _
      exact fun s₃ hrely₃ _ ↦ ⟨row, hwriting₂.rely hrely₃⟩
  · cases hexec

theorem wp_enqueueAll {messages : List Message} (hwriting : Writing thread added s) :
    Verifies thread (fun _ s₁ ↦ ∃ added, Writing thread added s₁) (fun _ ↦ Undone thread)
      (enqueueAll messages) s := by
  induction messages generalizing added s with
  | nil => exact fun s₁ hrely _ ↦ ⟨added, hwriting.rely hrely⟩
  | cons message rest ih =>
    apply wp_bind
    refine wp_mono ?_ (fun _ _ h ↦ h) (wp_enqueue hwriting)
    rintro _ s₁ ⟨row, hwriting₁⟩
    exact ih hwriting₁

theorem foldl_insert (added d : List OutboxRow) :
    (added.map Write.insert).foldl apply d = d ++ added := by
  induction added generalizing d with
  | nil => rw [List.append_nil]; rfl
  | cons row rest ih =>
    show (rest.map Write.insert).foldl apply (d ++ [row]) = _
    rw [ih, List.append_assoc, List.singleton_append]

/-- Adding rows with new ids keeps the invariant. -/
theorem Sound.commit_insert (hinv : Sound s) (hwriting : Writing thread added s)
    (habsent : ∀ row ∈ added, ∀ other ∈ s.db.committed, other.id ≠ row.id)
    (hview : s.view thread = s.db.committed ++ added) : Sound (s.commit thread) := by
  have hcommitted : (s.commit thread).db.committed = s.db.committed ++ added := hview
  refine ⟨?_, ?_, fun id other howner ↦ ?_, ?_, ?_, ?_, hinv.once⟩
  · rw [hcommitted, Table.Unique, List.map_append, List.nodup_append]
    refine ⟨hinv.unique, hwriting.unique, ?_⟩
    rintro id hid id' hid' rfl
    obtain ⟨other, hother, rfl⟩ := List.mem_map.mp hid
    obtain ⟨row, hrow, hsame⟩ := List.mem_map.mp hid'
    exact habsent row hrow other hother hsame.symm
  · intro row hrow
    rw [hcommitted] at hrow
    rcases List.mem_append.mp hrow with hold | hnew
    · exact hinv.drawn row hold
    · exact hwriting.drawn row hnew
  · exact hinv.locks id other (owner_of_released howner)
  · intro entry hentry
    obtain ⟨row, hrow, hsame⟩ := hinv.handed entry hentry
    rw [hcommitted]
    exact ⟨row, List.mem_append_left _ hrow, hsame⟩
  · intro row hrow hpublished
    rw [hcommitted] at hrow
    rcases List.mem_append.mp hrow with hold | hnew
    · exact hinv.stamped row hold hpublished
    · rw [hwriting.unpublished row hnew] at hpublished
      cases hpublished
  · intro hquiet entry hentry
    rw [hcommitted]
    rcases hinv.held hquiet entry hentry with ⟨row, hrow, hstamped⟩ | howner
    · exact Or.inl ⟨row, List.mem_append_left _ hrow, hstamped⟩
    · exact Or.inr (Transactions.released_of_ne (hwriting.fresh entry hentry) howner)

theorem wp_write {messages : List Message} {fails : Bool} (hfresh : discipline.Fresh thread s) :
    Verifies thread (fun _ _ ↦ True) (fun _ _ ↦ True) (OutboxRelay.write messages fails) s := by
  apply wp_transaction hfresh
  intro s₁ hfresh₁ hholding₁
  apply wp_bind
  refine wp_mono ?_ (fun _ _ h ↦ h) (wp_enqueueAll (writing_nil hholding₁ hfresh₁))
  rintro _ s₂ ⟨added, hwriting⟩
  cases fails with
  | true => exact fun s₃ hrely₃ _ ↦ Or.inr (hwriting.rely hrely₃).fresh
  | false =>
    intro s₃ hrely₃ _
    have hwriting₃ := hwriting.rely hrely₃
    refine wp_commit hwriting₃.tx ?_ ?_ fun s₄ hrely₄ hinv habsent hview ↦ ?_
    · intro d d' hsame habsent row hrow other hother hid
      have hguard : guarding.Same other.id d' d := by
        rw [hid]
        exact (hsame row.id ⟨row, hrow, rfl⟩).symm
      exact habsent row hrow other (mem_of_same hguard hother) hid
    · intro write hwrite id htouches
      obtain ⟨row, hrow, rfl⟩ := List.mem_map.mp hwrite
      exact ⟨row, hrow, htouches⟩
    · rw [foldl_insert] at hview
      exact hinv.commit_insert (hwriting₃.rely hrely₄) habsent hview

/-! ### Every run -/

theorem Sound.abort (hinv : Sound s) : Sound (abort thread s) where
  unique := hinv.unique
  drawn := hinv.drawn
  locks id other howner := hinv.locks id other (owner_of_released howner)
  handed := hinv.handed
  stamped := hinv.stamped
  held hquiet entry hentry := by
    obtain ⟨hbefore, hidle⟩ := Bool.or_eq_false_iff.mp hquiet
    rw [Bool.not_eq_false'] at hidle
    rcases hinv.held hbefore entry hentry with hstamped | howner
    · exact Or.inl hstamped
    · refine Or.inr (Transactions.released_of_ne ?_ howner)
      -- A transaction that has locked no row of the table has handed over none that is not stamped.
      rintro rfl
      obtain ⟨row, hrow, hsame⟩ := hinv.handed entry hentry
      have hid : row.id = entry.row.id := by
        rw [← hsame]
        rfl
      have hnot : s.db.owner row.id ≠ some entry.publisher := by
        simpa using List.all_eq_true.mp hidle row hrow
      rw [hid] at hnot
      exact hnot howner
  once hquiet := hinv.once (Bool.or_eq_false_iff.mp hquiet).1

theorem relies_abort {other : ℕ} : Relies other s (abort thread s) where
  rows row hrow := ⟨row, hrow, rfl⟩
  sequence := Nat.le_refl _
  handed := List.prefix_rfl
  mine _ hentry _ := hentry
  disturbed h := by
    show (s.disturbed || !s.idle thread) = true
    rw [h]
    rfl
  kept := by
    by_cases hother : other = thread
    · rw [hother]
      exact Transactions.kept_abort_self
    · exact Transactions.kept_abort hother
  alive hbusy hopen hclosed := by
    by_cases hother : other = thread
    · rw [hother] at hbusy
      show (s.disturbed || !s.idle thread) = true
      rw [hbusy, Bool.not_false, Bool.or_true]
    · have hsame : (abort thread s).db.pending other = s.db.pending other :=
        Function.update_of_ne hother _ _
      rw [hsame] at hclosed
      exact absurd hclosed hopen

theorem verified : discipline.Verified where
  start := by
    refine ⟨⟨List.nodup_nil, ?_, ?_, ?_, ?_, ?_, fun _ ↦ List.nodup_nil⟩, ?_⟩
    · exact fun row hrow ↦ by cases hrow
    · exact fun id thread howner ↦ by cases howner
    · exact fun entry hentry ↦ by cases hentry
    · exact fun row hrow ↦ by cases hrow
    · exact fun _ entry hentry ↦ by cases hentry
    · exact fun thread entry hentry ↦ by cases hentry
  launch := by
    intro thread launched s program s' hinv hfresh hlaunch
    obtain ⟨rfl, rfl⟩ := Prod.mk.inj (Option.some.inj hlaunch)
    refine ⟨⟨hinv, fun other _ ↦ Relies.refl other s⟩, ?_⟩
    cases launched with
    | drainOnce =>
      apply wp_bind
      refine wp_mono ?_ (fun _ _ _ ↦ trivial) (wp_drainOnce hfresh)
      exact fun _ _ _ ↦ fun _ _ _ ↦ trivial
    | write messages fails => exact wp_write hfresh
  ambient := by
    intro thread s s' hinv hambient
    obtain rfl := Option.some.inj hambient
    exact ⟨Sound.abort hinv, fun other ↦ relies_abort⟩

/-- The action goes wrong: a call raises, or a transaction is aborted that has locked rows of the
table. A crash of a writer, or of a relay that holds no row, is none of these. -/
def disturbs (s : Shared) : Action outbox → Bool
  | .step _ (.lost _) => true
  | .step _ (.unconfirmed _) => true
  | .ambient thread => !s.idle thread
  | _ => false

theorem exec_disturbed {effect : Effect} {choice : Choice}
    {reply : Except Failure effect.Result} (h : exec thread effect choice s = some (reply, s')) :
    s'.disturbed = (s.disturbed || disturbs s (.step thread choice)) := by
  cases choice with
  | lost text =>
    have hlost : exec thread effect (.lost text) s =
        some (.error (.error text), s.disturb) := by cases effect <;> rfl
    obtain ⟨-, rfl⟩ := Prod.mk.inj (Option.some.inj (hlost.symm.trans h))
    exact (Bool.or_true _).symm
  | unconfirmed text =>
    cases effect with
    | commit =>
      simp only [exec] at h
      split at h
      · obtain ⟨-, rfl⟩ := Prod.mk.inj (Option.some.inj h)
        exact (Bool.or_true _).symm
      · cases h
    | publish row =>
      obtain ⟨-, rfl⟩ := Prod.mk.inj (Option.some.inj h)
      exact (Bool.or_true _).symm
    | _ => cases h
  | done =>
    show _ = (s.disturbed || false)
    rw [Bool.or_false]
    cases effect <;> simp only [exec] at h <;> (try split_ifs at h) <;>
      (obtain ⟨-, rfl⟩ := Prod.mk.inj (Option.some.inj h); rfl)

/-- What the flag records. -/
theorem disturbed_act {w w' : World outbox} {action : Action outbox}
    (h : w.act action = some w') :
    w'.shared.disturbed = (w.shared.disturbed || disturbs w.shared action) := by
  cases action with
  | launch launched =>
    obtain ⟨program, s', hlaunch, rfl⟩ := World.act_launch h
    obtain ⟨-, rfl⟩ := Prod.mk.inj (Option.some.inj hlaunch)
    exact (Bool.or_false _).symm
  | step thread choice =>
    obtain ⟨effect, resume, reply, s', -, hexec, rfl⟩ := World.act_step h
    exact exec_disturbed hexec
  | kill thread =>
    obtain rfl := World.act_kill h
    exact (Bool.or_false _).symm
  | ambient thread =>
    obtain ⟨s', hambient, rfl⟩ := World.act_ambient h
    obtain rfl := Option.some.inj hambient
    rfl

/-- What is claimed of the relays. -/
structure RelaySound (s : Shared) : Prop where
  /-- A row is published only if the transaction that wrote it has committed. -/
  onlyCommitted : ∀ entry ∈ s.handed, ∃ row ∈ s.db.committed, Outbox.unstamped row = entry.row
  /-- A row that is stamped was handed to the broker and confirmed. -/
  confirmed : ∀ row ∈ s.db.committed, row.published = true → Confirmed s.handed row
  /-- A committed row is not skipped: it was confirmed, or every relay still finds it. -/
  notSkipped : ∀ row ∈ s.db.committed, Confirmed s.handed row ∨
    ∀ thread, s.db.pending thread = some [] → row.id ∈ s.found thread
  /-- As long as nothing has gone wrong, a row is published at most once by all relays together. -/
  once : s.disturbed = false → ∀ id,
    (s.handed.filter fun entry ↦ entry.row.id = id).length ≤ 1

theorem mem_found (hpending : s.db.pending thread = some []) (hrow : row ∈ s.db.committed)
    (hunpublished : row.published = false) : row.id ∈ s.found thread := by
  unfold Shared.found
  rw [view_of_pending hpending]
  refine List.mem_map_of_mem ?_
  rw [List.mem_insertionSort, List.mem_filter, Bool.not_eq_true']
  exact ⟨hrow, hunpublished⟩

/-- **Outbox relay soundness**: in every world of any number of relays and writers. -/
theorem relaySound {w : World outbox} (hw : World.Reachable World.anyEffect w) :
    RelaySound w.shared := by
  have hinv : Sound w.shared := (holds_of_reachable verified hw).inv
  refine ⟨hinv.handed, hinv.stamped, fun row hrow ↦ ?_, fun hquiet id ↦ ?_⟩
  · by_cases hpublished : row.published = true
    · exact Or.inl (hinv.stamped row hrow hpublished)
    · rw [Bool.not_eq_true] at hpublished
      exact Or.inr fun thread hpending ↦ mem_found hpending hrow hpublished
  · exact (hinv.once hquiet).length_filter_le_one id

def placed : Message where
  exchange := .events
  routingKey := rkPlaced
  payload := { eventId := "e", type := .placed, orderId := "o", ts := "t" }

/-- Two relays on one committed row: the second finds it while the first is at work, and its lock
comes after the commit of the first. -/
def overlap : List (Action outbox) :=
  [.launch (.write [placed] false), .step 0 .done, .step 0 .done, .step 0 .done,
   .launch .drainOnce, .step 1 .done, .step 1 .done, .step 1 .done,
   .launch .drainOnce, .step 2 .done, .step 2 .done,
   .step 1 .done, .step 1 .done, .step 1 .done, .step 2 .done, .step 2 .done]

def overlapWorld : World outbox := ((World.initial outbox).run overlap).get (by decide)

theorem relaySound_overlapWorld :
    RelaySound overlapWorld.shared ∧ overlapWorld.shared.disturbed = false ∧
      overlapWorld.shared.handed.length = 1 :=
  ⟨relaySound (World.reachable_of_run (Option.some_get _).symm), by decide,
    by decide⟩

end DinnerRush.OutboxRelay
