import DinnerRush.Orchestrator.Recording

/-!
# The ids of the outbox

The ids of the outbox come from one sequence, shared by transactions that commit in any order, so
the ids of different orders say nothing about which was committed first. For one order they do: its
row lock is held from the step on, so the rows of an order are committed in the order of their ids,
and the command of a step after its event (`Sequencing`). The statements of a transaction keep this
(`Sequencing.lock`, `Sequencing.write`, `Sequencing.enqueue`, …), whatever the other transactions
have enqueued by then, and so does its end (`Sequencing.commit`, `Sequencing.abort`).

The relay stamps rows that it has published. Which rows these are, and which threads are rounds of
the relay, is a parameter here.
-/

set_option autoImplicit false
set_option relaxedAutoImplicit false

namespace DinnerRush.Orchestrator

open Concurrency

/-- The rows of the outbox in the order of commits, without their stamps. -/
def Db.entries (d : Db) : List OutboxRow := d.outbox.map Outbox.unstamped

/-- The rows are about the same order. -/
def Alike (row other : OutboxRow) : Prop := row.payload.orderId = other.payload.orderId

/-- The event reports the step into the state that the command starts from. -/
structure Precedes (event command : OutboxRow) : Prop where
  alike : Alike event command
  type : event.payload.type = .transition
  state : event.payload.data.toState = command.payload.data.fromState

/-- The rows of an order are in the order of their ids. -/
def Ascending (rows : List OutboxRow) : Prop :=
  rows.Pairwise fun first later ↦ Alike first later → first.id < later.id

/-- Every command but the first of an order comes after the event of the step that led to it. -/
def Preceded (rows : List OutboxRow) : Prop :=
  ∀ command ∈ rows, command.payload.type = .advance →
    command.payload.data.fromState = some State.placed.value ∨
      ∃ event ∈ rows, Precedes event command ∧ event.id < command.id

theorem mem_entries {d : Db} {row : OutboxRow} (h : row ∈ d.outbox) :
    Outbox.unstamped row ∈ d.entries :=
  List.mem_map_of_mem h

/-- An entry is known by its id. -/
theorem entry_eq {d : Db} (h : Table.Unique OutboxRow.id d.outbox) {entry other : OutboxRow}
    (hentry : entry ∈ d.entries) (hother : other ∈ d.entries) (hid : entry.id = other.id) :
    entry = other := by
  obtain ⟨row, hrow, rfl⟩ := List.mem_map.mp hentry
  obtain ⟨row', hrow', rfl⟩ := List.mem_map.mp hother
  rw [h.eq hrow hrow' hid]

/-- Committing appends what was enqueued. -/
theorem entries_foldl {writes : List Write} (h : ∀ row ∈ enqueued writes, row.published = false)
    (d : Db) : (writes.foldl Db.apply d).entries = d.entries ++ enqueued writes := by
  induction writes generalizing d with
  | nil => simp [enqueued]
  | cons write rest ih =>
    have hrest : ∀ row ∈ enqueued rest, row.published = false := fun row hrow ↦
      h row (mem_enqueued.mpr (List.mem_cons_of_mem write (mem_enqueued.mp hrow)))
    rw [List.foldl_cons, ih hrest]
    cases write with
    | enqueue row =>
      have hrow : Outbox.unstamped row = row := Outbox.unstamped_of_unpublished
        (h row (mem_enqueued.mpr List.mem_cons_self))
      simp [Db.entries, Db.apply, enqueued, hrow]
    | stamp ids =>
      have hstamp : (d.apply (.stamp ids)).entries = d.entries :=
        Outbox.map_stamp Outbox.unstamped (fun _ ↦ rfl) ids d.outbox
      rw [hstamp]
      rfl
    | _ => rfl

/-- A stamped row was stamped before, or is stamped by one of the writes. -/
theorem stamped_foldl {writes : List Write} (h : ∀ row ∈ enqueued writes, row.published = false)
    {d : Db} {row : OutboxRow} (hrow : row ∈ (writes.foldl Db.apply d).outbox)
    (hpublished : row.published = true) :
    (∃ before ∈ d.outbox, before.published = true ∧
      Outbox.unstamped before = Outbox.unstamped row) ∨
        ∃ ids, .stamp ids ∈ writes ∧ row.id ∈ ids := by
  let has (d : Db) : Prop := ∃ before ∈ d.outbox, before.published = true ∧
    Outbox.unstamped before = Outbox.unstamped row
  let adds (write : Write) : Prop := (∃ added, write = .enqueue added ∧ added.published = true) ∨
    ∃ ids, write = .stamp ids ∧ row.id ∈ ids
  have happly : ∀ d write, has (Db.apply d write) → has d ∨ adds write := by
    rintro d write ⟨before, hbefore, hstamped, hsame⟩
    cases write with
    | enqueue added =>
      rcases List.mem_append.mp hbefore with hold | hnew
      · exact Or.inl ⟨before, hold, hstamped, hsame⟩
      · rw [List.mem_singleton.mp hnew] at hstamped
        exact Or.inr (Or.inl ⟨added, rfl, hstamped⟩)
    | stamp ids =>
      obtain ⟨original, horiginal, hunstamped, hcases⟩ := Outbox.mem_stamp hbefore
      rcases hcases hstamped with hearlier | hid
      · exact Or.inl ⟨original, horiginal, hearlier, hunstamped.symm.trans hsame⟩
      · refine Or.inr (Or.inr ⟨ids, rfl, ?_⟩)
        have hunstamp : (Outbox.unstamped original).id = (Outbox.unstamped row).id :=
          congrArg OutboxRow.id (hunstamped.symm.trans hsame)
        have hids : original.id = row.id := hunstamp
        rwa [← hids]
    | _ => exact Or.inl ⟨before, hbefore, hstamped, hsame⟩
  rcases Transactions.has_foldl happly ⟨row, hrow, hpublished, rfl⟩ with
    hbefore | ⟨write, hwrite, ⟨added, rfl, hadded⟩ | ⟨ids, rfl, hid⟩⟩
  · exact Or.inl hbefore
  · rw [h added (mem_enqueued.mpr hwrite)] at hadded
    cases hadded
  · exact Or.inr ⟨ids, hwrite, hid⟩

/-! ### What the open transactions have enqueued -/

variable {IsRelay : ℕ → Prop} {Sent Sent' : OutboxRow → Prop} {db db' : Store} {outboxSeq : ℕ}
  {thread : ℕ} {writes : List Write}

/-- The transaction holds the locks of what it has enqueued, with ids above all that is committed
about the same orders, and it stamps only rows that were sent. -/
structure Enqueuing (Sent : OutboxRow → Prop) (db : Store) (outboxSeq thread : ℕ)
    (writes : List Write) : Prop where
  unpublished : ∀ row ∈ enqueued writes, row.published = false
  order : ∀ row ∈ enqueued writes, db.owner (.order row.payload.orderId) = some thread
  outbox : ∀ row ∈ enqueued writes, db.owner (.outbox row.id) = some thread
  later : ∀ row ∈ enqueued writes, ∀ entry ∈ db.committed.entries, Alike entry row →
    entry.id < row.id
  fresh : ∀ row ∈ enqueued writes, ∀ entry ∈ db.committed.entries, entry.id ≠ row.id
  drawn : ∀ row ∈ enqueued writes, row.id < outboxSeq
  ascending : (enqueued writes).Pairwise fun first later ↦ first.id < later.id
  preceded : Preceded (enqueued writes)
  stamps : ∀ ids, .stamp ids ∈ writes → ∀ id ∈ ids, ∃ entry ∈ db.committed.entries,
    entry.id = id ∧ Sent entry

/-- The rows of every order are committed in the order of their ids, commands after the events that
led to them; what is stamped was sent; and what is locked is held by an open transaction, a
committed row only by a round of the relay. -/
structure Sequencing (IsRelay : ℕ → Prop) (Sent : OutboxRow → Prop) (db : Store)
    (outboxSeq : ℕ) : Prop where
  ascending : Ascending db.committed.entries
  preceded : Preceded db.committed.entries
  stamped : ∀ row ∈ db.committed.outbox, row.published = true → Sent (Outbox.unstamped row)
  enqueuing : ∀ thread writes, db.pending thread = some writes →
    Enqueuing Sent db outboxSeq thread writes
  held : ∀ key thread, db.owner key = some thread → db.pending thread ≠ none
  locks : ∀ id thread, db.owner (.outbox id) = some thread →
    IsRelay thread ∨ ∀ entry ∈ db.committed.entries, entry.id ≠ id

namespace Sequencing

theorem start : Sequencing IsRelay Sent (.start .empty) 0 where
  ascending := List.Pairwise.nil
  preceded _ hcommand := by cases hcommand
  stamped _ hrow := by cases hrow
  enqueuing _ _ hpending := by cases hpending
  held _ _ howner := by cases howner
  locks _ _ howner := by cases howner

/-- A transaction that has written nothing. -/
theorem enqueuing_nil : Enqueuing Sent db outboxSeq thread [] where
  unpublished _ hrow := by cases hrow
  order _ hrow := by cases hrow
  outbox _ hrow := by cases hrow
  later _ hrow := by cases hrow
  fresh _ hrow := by cases hrow
  drawn _ hrow := by cases hrow
  ascending := List.Pairwise.nil
  preceded _ hrow := by cases hrow
  stamps _ hids := by cases hids

/-- More was sent, more rounds of the relay were launched, and the sequence has moved on. -/
theorem mono {IsRelay' : ℕ → Prop} {outboxSeq' : ℕ} (h : Sequencing IsRelay Sent db outboxSeq)
    (hrelay : ∀ thread, IsRelay thread → IsRelay' thread) (hsent : ∀ row, Sent row → Sent' row)
    (hseq : outboxSeq ≤ outboxSeq') : Sequencing IsRelay' Sent' db outboxSeq' where
  ascending := h.ascending
  preceded := h.preceded
  stamped row hrow hpublished := hsent _ (h.stamped row hrow hpublished)
  enqueuing thread writes hpending :=
    let henqueuing := h.enqueuing thread writes hpending
    { henqueuing with
      drawn := fun row hrow ↦ Nat.lt_of_lt_of_le (henqueuing.drawn row hrow) hseq
      stamps := fun ids hids id hid ↦ by
        obtain ⟨entry, hentry, hsame, hwas⟩ := henqueuing.stamps ids hids id hid
        exact ⟨entry, hentry, hsame, hsent entry hwas⟩ }
  held := h.held
  locks id thread howner := (h.locks id thread howner).imp_left (hrelay thread)

theorem begin (h : Sequencing IsRelay Sent db outboxSeq) :
    Sequencing IsRelay Sent (db.begin thread) outboxSeq where
  ascending := h.ascending
  preceded := h.preceded
  stamped := h.stamped
  enqueuing other writes hpending := by
    by_cases hother : other = thread
    · subst hother
      obtain rfl : [] = writes := by simpa [Transactions.begin] using hpending
      exact enqueuing_nil
    · have hbefore : db.pending other = some writes := by
        simpa [Transactions.begin, hother] using hpending
      exact { h.enqueuing other writes hbefore with }
  held key other howner := by
    by_cases hother : other = thread
    · simp [Transactions.begin, hother]
    · simpa [Transactions.begin, hother] using h.held key other howner
  locks := h.locks

/-- Locking a free key takes no lock from anybody. -/
theorem owner_lock {key held : Key} {other : ℕ} (hfree : db.free thread key)
    (h : db.owner held = some other) : (db.lock thread key).owner held = some other := by
  by_cases hheld : held = key
  · subst hheld
    have hthread : some thread = some other := by
      rcases of_decide_eq_true hfree with hnone | hsome
      · rw [hnone] at h
        cases h
      · rw [← hsome, h]
    simpa [Transactions.lock] using hthread
  · simpa [Transactions.lock, hheld] using h

theorem lock (h : Sequencing IsRelay Sent db outboxSeq) {key : Key} (hfree : db.free thread key)
    (hopen : db.pending thread ≠ none)
    (hkey : ∀ id, key = .outbox id →
      IsRelay thread ∨ ∀ entry ∈ db.committed.entries, entry.id ≠ id) :
    Sequencing IsRelay Sent (db.lock thread key) outboxSeq where
  ascending := h.ascending
  preceded := h.preceded
  stamped := h.stamped
  enqueuing other writes hpending :=
    let henqueuing := h.enqueuing other writes hpending
    { henqueuing with
      order := fun row hrow ↦ owner_lock hfree (henqueuing.order row hrow)
      outbox := fun row hrow ↦ owner_lock hfree (henqueuing.outbox row hrow) }
  held held other howner := by
    by_cases hheld : held = key
    · obtain rfl : thread = other := by simpa [Transactions.lock, hheld] using howner
      exact hopen
    · exact h.held held other (by simpa [Transactions.lock, hheld] using howner)
  locks id other howner := by
    by_cases hheld : Key.outbox id = key
    · obtain rfl : thread = other := by simpa [Transactions.lock, hheld] using howner
      exact hkey id hheld.symm
    · exact h.locks id other (by simpa [Transactions.lock, hheld] using howner)

/-- The relay locks what it has found. -/
theorem lockAll {keys : List Key} (h : Sequencing IsRelay Sent db outboxSeq)
    (hfree : ∀ key ∈ keys, db.free thread key) (hopen : db.pending thread ≠ none)
    (hrelay : IsRelay thread) : Sequencing IsRelay Sent (db.lockAll thread keys) outboxSeq := by
  induction keys generalizing db with
  | nil => exact h
  | cons key rest ih =>
    have hfirst := h.lock (hfree key List.mem_cons_self) hopen fun _ _ ↦ Or.inl hrelay
    refine ih hfirst (fun held hheld ↦ ?_) hopen
    exact Transactions.free_lock (hfree held (List.mem_cons_of_mem key hheld))

/-- A transaction has one more write. -/
theorem write (h : Sequencing IsRelay Sent db outboxSeq)
    (hpending : db.pending thread = some writes) {write : Write}
    (hwrite : Enqueuing Sent db outboxSeq thread (writes ++ [write])) :
    Sequencing IsRelay Sent (db.write thread write) outboxSeq where
  ascending := h.ascending
  preceded := h.preceded
  stamped := h.stamped
  enqueuing other others hothers := by
    by_cases hother : other = thread
    · subst hother
      obtain rfl : writes ++ [write] = others := by
        simpa [Transactions.write, hpending] using hothers
      exact { hwrite with }
    · have hbefore : db.pending other = some others := by
        simpa [Transactions.write, hother] using hothers
      exact { h.enqueuing other others hbefore with }
  held key other howner := by
    by_cases hother : other = thread
    · simp [Transactions.write, hother, hpending]
    · simpa [Transactions.write, hother] using h.held key other howner
  locks := h.locks

end Sequencing

namespace Enqueuing

/-- A write that enqueues nothing, and stamps only what was sent. -/
theorem other (h : Enqueuing Sent db outboxSeq thread writes) {write : Write}
    (henqueue : ∀ row, write ≠ .enqueue row)
    (hstamp : ∀ ids, write = .stamp ids → ∀ id ∈ ids, ∃ entry ∈ db.committed.entries,
      entry.id = id ∧ Sent entry) : Enqueuing Sent db outboxSeq thread (writes ++ [write]) := by
  have hsame : enqueued (writes ++ [write]) = enqueued writes := by
    cases write with
    | enqueue row => exact absurd rfl (henqueue row)
    | _ => simp [enqueued]
  constructor
  case stamps =>
    intro ids hids
    rcases List.mem_append.mp hids with hold | hnew
    · exact h.stamps ids hold
    · exact hstamp ids (List.mem_singleton.mp hnew).symm
  all_goals rw [hsame]
  · exact h.unpublished
  · exact h.order
  · exact h.outbox
  · exact h.later
  · exact h.fresh
  · exact h.drawn
  · exact h.ascending
  · exact h.preceded

/-- A row with the next id of the sequence, about an order that is locked; a command comes after its
event. -/
theorem enqueue (h : Enqueuing Sent db outboxSeq thread writes) {row : OutboxRow}
    (hid : row.id = outboxSeq) (hunpublished : row.published = false)
    (horder : db.owner (.order row.payload.orderId) = some thread)
    (houtbox : db.owner (.outbox row.id) = some thread)
    (hdrawn : ∀ entry ∈ db.committed.entries, entry.id < outboxSeq)
    (hcommand : row.payload.type = .advance →
      row.payload.data.fromState = some State.placed.value ∨
        ∃ event ∈ enqueued writes, Precedes event row) :
    Enqueuing Sent db (outboxSeq + 1) thread (writes ++ [.enqueue row]) := by
  have hrows : ∀ other ∈ enqueued (writes ++ [.enqueue row]),
      other ∈ enqueued writes ∨ other = row := by
    intro other hother
    rw [enqueued_enqueue] at hother
    exact (List.mem_append.mp hother).imp_right List.mem_singleton.mp
  constructor
  case unpublished =>
    intro other hother
    rcases hrows other hother with hold | rfl
    · exact h.unpublished other hold
    · exact hunpublished
  case order =>
    intro other hother
    rcases hrows other hother with hold | rfl
    · exact h.order other hold
    · exact horder
  case outbox =>
    intro other hother
    rcases hrows other hother with hold | rfl
    · exact h.outbox other hold
    · exact houtbox
  case later =>
    intro other hother entry hentry halike
    rcases hrows other hother with hold | rfl
    · exact h.later other hold entry hentry halike
    · rw [hid]
      exact hdrawn entry hentry
  case fresh =>
    intro other hother entry hentry
    rcases hrows other hother with hold | rfl
    · exact h.fresh other hold entry hentry
    · rw [hid]
      exact Nat.ne_of_lt (hdrawn entry hentry)
  case drawn =>
    intro other hother
    rcases hrows other hother with hold | rfl
    · exact Nat.lt_succ_of_lt (h.drawn other hold)
    · omega
  case ascending =>
    rw [enqueued_enqueue, List.pairwise_append]
    refine ⟨h.ascending, List.pairwise_singleton _ _, fun other hother last hlast ↦ ?_⟩
    rw [List.mem_singleton.mp hlast, hid]
    exact h.drawn other hother
  case preceded =>
    intro command hmem htype
    rw [enqueued_enqueue]
    rcases hrows command hmem with hold | rfl
    · refine (h.preceded command hold htype).imp_right ?_
      rintro ⟨event, hevent, hprecedes⟩
      exact ⟨event, List.mem_append_left _ hevent, hprecedes⟩
    · refine (hcommand htype).imp_right ?_
      rintro ⟨event, hevent, hprecedes⟩
      refine ⟨event, List.mem_append_left _ hevent, hprecedes, ?_⟩
      rw [hid]
      exact h.drawn event hevent
  case stamps =>
    intro ids hids
    rcases List.mem_append.mp hids with hold | hnew
    · exact h.stamps ids hold
    · cases List.mem_singleton.mp hnew

end Enqueuing

namespace Sequencing

/-- What another transaction has enqueued is above what is committed after it. -/
theorem enqueuing_ended (h : Sequencing IsRelay Sent db outboxSeq) {other : ℕ} {others : List Write}
    (hne : other ≠ thread) (hothers : db.pending other = some others)
    (howner : ∀ key, db.owner key = some other → db'.owner key = some other)
    (hentries : ∀ entry ∈ db'.committed.entries, entry ∈ db.committed.entries ∨
      db.owner (.order entry.payload.orderId) = some thread ∧
        db.owner (.outbox entry.id) = some thread)
    (hgrows : ∀ entry ∈ db.committed.entries, entry ∈ db'.committed.entries) :
    Enqueuing Sent db' outboxSeq other others := by
  have henqueuing := h.enqueuing other others hothers
  exact { henqueuing with
    order := fun row hrow ↦ howner _ (henqueuing.order row hrow)
    outbox := fun row hrow ↦ howner _ (henqueuing.outbox row hrow)
    later := fun row hrow entry hentry halike ↦ by
      rcases hentries entry hentry with hold | hlocked
      · exact henqueuing.later row hrow entry hold halike
      · -- The lock of the order is held by the other transaction.
        have hheld := henqueuing.order row hrow
        rw [← halike, hlocked.1] at hheld
        exact absurd (Option.some.inj hheld).symm hne
    fresh := fun row hrow entry hentry hsame ↦ by
      rcases hentries entry hentry with hold | hlocked
      · exact henqueuing.fresh row hrow entry hold hsame
      · have hheld := henqueuing.outbox row hrow
        rw [← hsame, hlocked.2] at hheld
        exact absurd (Option.some.inj hheld).symm hne
    stamps := fun ids hids id hid ↦ by
      obtain ⟨entry, hentry, hstamped⟩ := henqueuing.stamps ids hids id hid
      exact ⟨entry, hgrows entry hentry, hstamped⟩ }

theorem ne_of_released {key : Key} {other : ℕ} (h : db.released thread key = some other) :
    other ≠ thread ∧ db.owner key = some other := by
  unfold Transactions.released at h
  split at h
  · cases h
  · rename_i howner
    refine ⟨?_, h⟩
    rintro rfl
    exact howner h

theorem abort (h : Sequencing IsRelay Sent db outboxSeq) :
    Sequencing IsRelay Sent (db.abort thread) outboxSeq where
  ascending := h.ascending
  preceded := h.preceded
  stamped := h.stamped
  enqueuing other others hothers := by
    by_cases hother : other = thread
    · simp [Transactions.abort, hother] at hothers
    · have hbefore : db.pending other = some others := by
        simpa [Transactions.abort, hother] using hothers
      exact h.enqueuing_ended hother hbefore
        (fun _ howner ↦ Transactions.released_of_ne hother howner) (fun _ ↦ Or.inl) fun _ ↦ id
  held key other howner := by
    obtain ⟨hne, hbefore⟩ := ne_of_released howner
    simpa [Transactions.abort, hne] using h.held key other hbefore
  locks id other howner := h.locks id other (ne_of_released howner).2

/-- Committing appends the rows enqueued and stamps rows that were sent. -/
theorem commit (h : Sequencing IsRelay Sent db outboxSeq)
    (hpending : db.pending thread = some writes)
    (hunique : Table.Unique OutboxRow.id db.committed.outbox) :
    Sequencing IsRelay Sent (db.commit Db.apply thread) outboxSeq := by
  have henqueuing := h.enqueuing thread writes hpending
  have hcommitted : (db.commit Db.apply thread).committed = writes.foldl Db.apply db.committed := by
    show db.view Db.apply thread = _
    rw [Transactions.view, hpending]
    rfl
  have hentries : (db.commit Db.apply thread).committed.entries =
      db.committed.entries ++ enqueued writes := by
    rw [hcommitted, entries_foldl henqueuing.unpublished]
  constructor
  case ascending =>
    rw [hentries]
    have hnew : Ascending (enqueued writes) := by
      refine List.Pairwise.imp ?_ henqueuing.ascending
      exact fun hlt _ ↦ hlt
    exact List.pairwise_append.mpr ⟨h.ascending, hnew,
      fun entry hentry row hrow ↦ henqueuing.later row hrow entry hentry⟩
  case preceded =>
    rw [hentries]
    intro command hcommand htype
    rcases List.mem_append.mp hcommand with hold | hnew
    · refine (h.preceded command hold htype).imp_right ?_
      rintro ⟨event, hevent, hprecedes⟩
      exact ⟨event, List.mem_append_left _ hevent, hprecedes⟩
    · refine (henqueuing.preceded command hnew htype).imp_right ?_
      rintro ⟨event, hevent, hprecedes⟩
      exact ⟨event, List.mem_append_right _ hevent, hprecedes⟩
  case stamped =>
    intro row hrow hpublished
    rw [hcommitted] at hrow
    rcases stamped_foldl henqueuing.unpublished hrow hpublished with
      ⟨before, hbefore, hstamped, hsame⟩ | ⟨ids, hids, hid⟩
    · rw [← hsame]
      exact h.stamped before hbefore hstamped
    · obtain ⟨entry, hentry, hsame, hwas⟩ := henqueuing.stamps ids hids row.id hid
      have hmem : Outbox.unstamped row ∈ db.committed.entries ++ enqueued writes := by
        rw [← entries_foldl henqueuing.unpublished]
        exact mem_entries hrow
      rcases List.mem_append.mp hmem with hold | hnew
      · rw [entry_eq hunique hold hentry hsame.symm]
        exact hwas
      · exact absurd hsame (henqueuing.fresh _ hnew entry hentry)
  case enqueuing =>
    intro other others hothers
    by_cases hother : other = thread
    · simp [Transactions.commit, hother] at hothers
    · have hbefore : db.pending other = some others := by
        simpa [Transactions.commit, hother] using hothers
      refine h.enqueuing_ended hother hbefore
        (fun _ howner ↦ Transactions.released_of_ne hother howner) (fun entry hentry ↦ ?_)
        fun entry hentry ↦ ?_
      · rw [hentries] at hentry
        exact (List.mem_append.mp hentry).imp_right fun hnew ↦
          ⟨henqueuing.order entry hnew, henqueuing.outbox entry hnew⟩
      · rw [hentries]
        exact List.mem_append_left _ hentry
  case held =>
    intro key other howner
    obtain ⟨hne, hbefore⟩ := ne_of_released howner
    simpa [Transactions.commit, hne] using h.held key other hbefore
  case locks =>
    intro id other howner
    obtain ⟨hne, hbefore⟩ := ne_of_released howner
    refine (h.locks id other hbefore).imp_right fun hnone entry hentry ↦ ?_
    rw [hentries] at hentry
    rcases List.mem_append.mp hentry with hold | hnew
    · exact hnone entry hold
    · rintro rfl
      have hheld := henqueuing.outbox entry hnew
      rw [hbefore] at hheld
      exact hne (Option.some.inj hheld)

end Sequencing

end DinnerRush.Orchestrator
