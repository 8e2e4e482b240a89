import DinnerRush.Concurrency.RelyGuarantee

/-!
# Transactions at READ COMMITTED

A database with transactions that lock what they write. A statement of a transaction reads the
committed database with the writes of its own transaction on top (`Transactions.view`), takes the
lock of the key it writes, and leaves its write pending; a lock held by another transaction blocks
it. Committing applies the pending writes to whatever is committed by then.

What a lock guards is given by a `Guarding`: a write that does not touch a key leaves the part of
the database behind that key alone. `Transactions.Kept` is what a transaction may rely on while
others run: it is aborted, or its writes and locks are as it left them and so is everything behind
its locks. Every operation of another transaction keeps it (`kept_lock`, `kept_write`,
`kept_commit`, …).
-/

set_option autoImplicit false
set_option relaxedAutoImplicit false

namespace DinnerRush.Concurrency

/-- A database, the locks on its keys, and the writes of the open transactions. There is at most one
transaction a thread. -/
structure Transactions (δ κ ω : Type) where
  committed : δ
  owner : κ → Option ℕ
  pending : ℕ → Option (List ω)

/-- How writes change a database, which keys each of them touches, and when two databases are the
same behind a key. -/
structure Guarding (δ κ ω : Type) where
  apply : δ → ω → δ
  Touches : ω → κ → Prop
  Same : κ → δ → δ → Prop
  same_refl : ∀ key d, Same key d d
  same_trans : ∀ key d₁ d₂ d₃, Same key d₁ d₂ → Same key d₂ d₃ → Same key d₁ d₃
  same_apply : ∀ key d write, ¬ Touches write key → Same key d (apply d write)

namespace Transactions

variable {δ κ ω : Type}

/-- The database before any transaction. -/
def start (d : δ) : Transactions δ κ ω := ⟨d, fun _ ↦ none, fun _ ↦ none⟩

/-- What a statement of a thread sees. -/
def view (apply : δ → ω → δ) (thread : ℕ) (s : Transactions δ κ ω) : δ :=
  ((s.pending thread).getD []).foldl apply s.committed

/-- No other transaction holds the lock. -/
def free (thread : ℕ) (key : κ) (s : Transactions δ κ ω) : Bool :=
  decide (s.owner key = none ∨ s.owner key = some thread)

/-- The locks after a transaction has ended. -/
def released (thread : ℕ) (s : Transactions δ κ ω) : κ → Option ℕ :=
  fun key ↦ if s.owner key = some thread then none else s.owner key

/-- Open a transaction. -/
def begin (thread : ℕ) (s : Transactions δ κ ω) : Transactions δ κ ω :=
  { s with pending := Function.update s.pending thread (some []) }

def lock [DecidableEq κ] (thread : ℕ) (key : κ) (s : Transactions δ κ ω) : Transactions δ κ ω :=
  { s with owner := Function.update s.owner key (some thread) }

/-- `FOR UPDATE` on several keys. -/
def lockAll [DecidableEq κ] (thread : ℕ) (keys : List κ) (s : Transactions δ κ ω) :
    Transactions δ κ ω :=
  keys.foldl (fun s key ↦ s.lock thread key) s

/-- Add a write to the transaction. -/
def write (thread : ℕ) (w : ω) (s : Transactions δ κ ω) : Transactions δ κ ω :=
  let writes := (s.pending thread).map fun writes ↦ writes ++ [w]
  { s with pending := Function.update s.pending thread writes }

def commit (apply : δ → ω → δ) (thread : ℕ) (s : Transactions δ κ ω) : Transactions δ κ ω :=
  ⟨s.view apply thread, s.released thread, Function.update s.pending thread none⟩

def abort (thread : ℕ) (s : Transactions δ κ ω) : Transactions δ κ ω :=
  ⟨s.committed, s.released thread, Function.update s.pending thread none⟩

@[simp] theorem committed_begin (thread : ℕ) (s : Transactions δ κ ω) :
    (s.begin thread).committed = s.committed := rfl

@[simp] theorem committed_lock [DecidableEq κ] (thread : ℕ) (key : κ) (s : Transactions δ κ ω) :
    (s.lock thread key).committed = s.committed := rfl

@[simp] theorem committed_lockAll [DecidableEq κ] (thread : ℕ) (keys : List κ)
    (s : Transactions δ κ ω) : (s.lockAll thread keys).committed = s.committed := by
  induction keys generalizing s with
  | nil => rfl
  | cons key rest ih => exact ih (s.lock thread key)

@[simp] theorem pending_lockAll [DecidableEq κ] (thread : ℕ) (keys : List κ)
    (s : Transactions δ κ ω) : (s.lockAll thread keys).pending = s.pending := by
  induction keys generalizing s with
  | nil => rfl
  | cons key rest ih => exact ih (s.lock thread key)

theorem owner_lockAll [DecidableEq κ] {thread other : ℕ} {keys : List κ} {key : κ}
    {s : Transactions δ κ ω} (h : (s.lockAll thread keys).owner key = some other) :
    key ∈ keys ∨ s.owner key = some other := by
  induction keys generalizing s with
  | nil => exact Or.inr h
  | cons first rest ih =>
    by_cases hkey : key = first
    · exact Or.inl (by simp [hkey])
    · rcases ih h with hmem | howner
      · exact Or.inl (List.mem_cons_of_mem first hmem)
      · exact Or.inr (by simpa [lock, hkey] using howner)

@[simp] theorem committed_write (thread : ℕ) (w : ω) (s : Transactions δ κ ω) :
    (s.write thread w).committed = s.committed := rfl

@[simp] theorem committed_abort (thread : ℕ) (s : Transactions δ κ ω) :
    (s.abort thread).committed = s.committed := rfl

theorem released_of_ne {thread other : ℕ} {s : Transactions δ κ ω} {key : κ}
    (hne : other ≠ thread) (h : s.owner key = some other) :
    s.released thread key = some other := by
  rw [released, if_neg, h]
  rw [h]
  exact fun hsame ↦ hne (Option.some.inj hsame)

variable (G : Guarding δ κ ω)

/-- The open transaction of a thread, if it has one, has these writes and holds these locks, and the
committed database satisfies an assertion. -/
def InTransaction (thread : ℕ) (writes : List ω) (keys : κ → Prop) (P : δ → Prop)
    (s : Transactions δ κ ω) : Prop :=
  s.pending thread ≠ none → s.pending thread = some writes ∧
    (∀ key, keys key → s.owner key = some thread) ∧ P s.committed

/-- What a thread relies on: its transaction is gone, or it has the same writes and locks and the
database is the same behind its locks. -/
def Kept (thread : ℕ) (s s' : Transactions δ κ ω) : Prop :=
  s'.pending thread = none ∨ (s'.pending thread = s.pending thread ∧
    ∀ key, s.owner key = some thread →
      s'.owner key = some thread ∧ G.Same key s.committed s'.committed)

variable {G} {thread other : ℕ} {s s₁ s₂ s' : Transactions δ κ ω}

theorem Kept.refl (thread : ℕ) (s : Transactions δ κ ω) : Kept G thread s s :=
  Or.inr ⟨rfl, fun key h ↦ ⟨h, G.same_refl key _⟩⟩

theorem Kept.trans (h : Kept G thread s s₁) (h' : Kept G thread s₁ s₂) : Kept G thread s s₂ := by
  rcases h' with hnone | ⟨hpending', howner'⟩
  · exact Or.inl hnone
  · rcases h with hnone | ⟨hpending, howner⟩
    · exact Or.inl (by rw [hpending', hnone])
    · refine Or.inr ⟨by rw [hpending', hpending], fun key hkey ↦ ?_⟩
      obtain ⟨hheld, hsame⟩ := howner key hkey
      obtain ⟨hheld', hsame'⟩ := howner' key hheld
      exact ⟨hheld', G.same_trans key _ _ _ hsame hsame'⟩

/-- What a transaction knows survives the others, if what it knows of the database is behind its
locks. -/
theorem InTransaction.kept {writes : List ω} {keys : κ → Prop} {P : δ → Prop}
    (h : InTransaction thread writes keys P s) (hkept : Kept G thread s s')
    (hP : ∀ d d', (∀ key, keys key → G.Same key d d') → P d → P d') :
    InTransaction thread writes keys P s' := by
  intro hopen
  rcases hkept with hnone | ⟨hpending, howner⟩
  · exact absurd hnone hopen
  · rw [hpending] at hopen
    obtain ⟨hwrites, hkeys, hdb⟩ := h hopen
    refine ⟨hpending.trans hwrites, fun key hkey ↦ (howner key (hkeys key hkey)).1, ?_⟩
    exact hP _ _ (fun key hkey ↦ (howner key (hkeys key hkey)).2) hdb

/-! ### Every operation of a thread keeps the transactions of the others -/

theorem kept_begin (hne : other ≠ thread) : Kept G other s (s.begin thread) :=
  Or.inr ⟨Function.update_of_ne hne _ _, fun key h ↦ ⟨h, G.same_refl key _⟩⟩

theorem kept_write {w : ω} (hne : other ≠ thread) : Kept G other s (s.write thread w) :=
  Or.inr ⟨Function.update_of_ne hne _ _, fun key h ↦ ⟨h, G.same_refl key _⟩⟩

theorem kept_lock [DecidableEq κ] {key : κ} (hfree : s.free thread key) (hne : other ≠ thread) :
    Kept G other s (s.lock thread key) := by
  refine Or.inr ⟨rfl, fun held h ↦ ⟨?_, G.same_refl held _⟩⟩
  have hheld : held ≠ key := by
    rintro rfl
    rcases of_decide_eq_true hfree with hnone | hsome
    · rw [hnone] at h
      cases h
    · rw [hsome] at h
      exact hne (Option.some.inj h).symm
  show Function.update s.owner key (some thread) held = some other
  rw [Function.update_of_ne hheld, h]

theorem free_lock [DecidableEq κ] {key held : κ} (hfree : s.free thread held) :
    (s.lock thread key).free thread held := by
  by_cases hheld : held = key
  · subst hheld
    simp [free, lock]
  · simpa [free, lock, hheld] using hfree

theorem kept_lockAll [DecidableEq κ] {keys : List κ} (hfree : ∀ key ∈ keys, s.free thread key)
    (hne : other ≠ thread) : Kept G other s (s.lockAll thread keys) := by
  induction keys generalizing s with
  | nil => exact Kept.refl other s
  | cons key rest ih =>
    have hfirst : Kept G other s (s.lock thread key) := kept_lock (hfree key (by simp)) hne
    refine hfirst.trans (ih ?_)
    intro held hheld
    exact free_lock (hfree held (by simp [hheld]))

theorem kept_abort (hne : other ≠ thread) : Kept G other s (s.abort thread) :=
  Or.inr ⟨Function.update_of_ne hne _ _,
    fun key h ↦ ⟨released_of_ne hne h, G.same_refl key _⟩⟩

/-- A thread relies on no more than this when its own transaction is aborted. -/
theorem kept_abort_self : Kept G thread s (s.abort thread) :=
  Or.inl (Function.update_self _ _ _)

theorem same_foldl {key : κ} {writes : List ω} (h : ∀ w ∈ writes, ¬ G.Touches w key) (d : δ) :
    G.Same key d (writes.foldl G.apply d) := by
  induction writes generalizing d with
  | nil => exact G.same_refl key d
  | cons w rest ih =>
    have hfirst : G.Same key d (G.apply d w) := G.same_apply key d w (h w (by simp))
    have hrest := ih (fun other hother ↦ h other (by simp [hother])) (G.apply d w)
    exact G.same_trans key _ _ _ hfirst hrest

/-- A commit changes nothing behind the locks of others, as long as the transaction holds the locks
of everything it writes. -/
theorem kept_commit {writes : List ω} (hne : other ≠ thread)
    (hpending : s.pending thread = some writes)
    (hkeys : ∀ w ∈ writes, ∀ key, G.Touches w key → s.owner key = some thread) :
    Kept G other s (s.commit G.apply thread) := by
  refine Or.inr ⟨Function.update_of_ne hne _ _, fun key h ↦ ⟨released_of_ne hne h, ?_⟩⟩
  have huntouched : ∀ w ∈ writes, ¬ G.Touches w key := by
    intro w hw htouches
    have howner := hkeys w hw key htouches
    rw [h] at howner
    exact hne (Option.some.inj howner)
  show G.Same key s.committed (s.view G.apply thread)
  rw [view, hpending]
  exact same_foldl huntouched s.committed

/-! ### What has been written -/

/-- Something is committed, or an open transaction has written it. -/
def Written (has : δ → Prop) (adds : ω → Prop) (s : Transactions δ κ ω) : Prop :=
  has s.committed ∨ ∃ thread writes, s.pending thread = some writes ∧ ∃ w ∈ writes, adds w

section Written

variable {has : δ → Prop} {adds : ω → Prop} {apply : δ → ω → δ} {w : ω}

/-- What an open transaction has written, after the writes of one thread are replaced. -/
theorem written_update {writes' : Option (List ω)}
    (h : ∃ other writes, Function.update s.pending thread writes' other = some writes ∧
      ∃ w ∈ writes, adds w)
    (hwrites' : ∀ writes, writes' = some writes → ∀ w ∈ writes, adds w → s.Written has adds) :
    s.Written has adds := by
  obtain ⟨other, writes, hpending, w, hw, hadds⟩ := h
  by_cases hother : other = thread
  · rw [hother, Function.update_self] at hpending
    exact hwrites' writes hpending w hw hadds
  · rw [Function.update_of_ne hother] at hpending
    exact Or.inr ⟨other, writes, hpending, w, hw, hadds⟩

theorem written_begin (h : (s.begin thread).Written has adds) : s.Written has adds := by
  rcases h with hcommitted | hpending
  · exact Or.inl hcommitted
  · refine written_update hpending fun writes hwrites w hw _ ↦ ?_
    obtain rfl := Option.some.inj hwrites
    cases hw

theorem written_lockAll [DecidableEq κ] {keys : List κ}
    (h : (s.lockAll thread keys).Written has adds) : s.Written has adds := by
  unfold Written at h
  rw [committed_lockAll, pending_lockAll] at h
  exact h

theorem written_write (h : (s.write thread w).Written has adds) :
    s.Written has adds ∨ adds w := by
  by_cases hw : adds w
  · exact Or.inr hw
  · left
    rcases h with hcommitted | hpending
    · exact Or.inl hcommitted
    · refine written_update hpending fun writes hwrites other hother hadds ↦ ?_
      obtain ⟨before, hbefore, rfl⟩ := Option.map_eq_some_iff.mp hwrites
      rcases List.mem_append.mp hother with hold | hnew
      · exact Or.inr ⟨thread, before, hbefore, other, hold, hadds⟩
      · rw [List.mem_singleton.mp hnew] at hadds
        exact absurd hadds hw

theorem written_abort (h : (s.abort thread).Written has adds) : s.Written has adds := by
  rcases h with hcommitted | hpending
  · exact Or.inl hcommitted
  · exact written_update hpending nofun

/-- What a list of writes leaves was there or is added by one of them. -/
theorem has_foldl (happly : ∀ d w, has (apply d w) → has d ∨ adds w) {writes : List ω} {d : δ}
    (h : has (writes.foldl apply d)) : has d ∨ ∃ w ∈ writes, adds w := by
  induction writes generalizing d with
  | nil => exact Or.inl h
  | cons w rest ih =>
    rcases ih h with hfirst | ⟨later, hlater, hadds⟩
    · exact (happly d w hfirst).imp_right fun hadds ↦ ⟨w, List.mem_cons_self, hadds⟩
    · exact Or.inr ⟨later, List.mem_cons_of_mem w hlater, hadds⟩

theorem written_commit (happly : ∀ d w, has (apply d w) → has d ∨ adds w)
    (h : (s.commit apply thread).Written has adds) : s.Written has adds := by
  rcases h with hcommitted | hpending
  · rcases has_foldl happly hcommitted with hbefore | ⟨w, hw, hadds⟩
    · exact Or.inl hbefore
    · cases hwrites : s.pending thread with
      | none =>
        rw [hwrites] at hw
        cases hw
      | some writes =>
        rw [hwrites] at hw
        exact Or.inr ⟨thread, writes, hwrites, w, hw, hadds⟩
  · exact written_update hpending nofun

end Written

end Transactions

/-! ### The transaction block of a program -/

namespace Program

variable {S : Signature} {ε α : Type}

/-- `async with conn.transaction()`: commit when the body returns, roll back when it raises. -/
def transaction (begin commit rollback : Program S ε Unit) (body : Program S ε α) :
    Program S ε α :=
  begin.bind fun _ ↦ body.attempt.bind fun outcome ↦
    match outcome with
    | .ok value => commit.bind fun _ ↦ .ret value
    | .error error => rollback.bind fun _ ↦ .raise error

end Program

end DinnerRush.Concurrency
