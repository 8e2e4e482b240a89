import Mathlib.Algebra.BigOperators.Group.List.Basic
import Mathlib.Algebra.GroupWithZero.Nat
import Mathlib.Algebra.Order.BigOperators.Group.List
import Mathlib.Data.List.Dedup
import Mathlib.Data.List.Nodup

/-!
# Keyed tables

The rows of a database table as a list, with a key. `Table.find` is the lookup by key and
`Table.Unique` says that the key is a primary key. `Table.insert` is
`INSERT … ON CONFLICT DO NOTHING RETURNING`: it keeps the key unique and only adds to the table.
-/

set_option autoImplicit false
set_option relaxedAutoImplicit false

namespace DinnerRush.Concurrency.Table

variable {ρ κ : Type} [DecidableEq κ] (key : ρ → κ)

/-- The row with a key, if there is one. -/
def find (k : κ) (rows : List ρ) : Option ρ :=
  rows.find? fun row ↦ key row = k

/-- Add a row unless its key is there, and say whether it was added. -/
def insert (row : ρ) (rows : List ρ) : Bool × List ρ :=
  match find key (key row) rows with
  | some _ => (false, rows)
  | none => (true, rows ++ [row])

/-- No two rows have the same key. -/
def Unique (rows : List ρ) : Prop :=
  (rows.map key).Nodup

variable {key} {k : κ} {rows : List ρ} {row : ρ}

theorem find_some (h : find key k rows = some row) : row ∈ rows ∧ key row = k :=
  ⟨List.mem_of_find?_eq_some h, by simpa using List.find?_some h⟩

theorem find_none : find key k rows = none ↔ ∀ row ∈ rows, key row ≠ k := by
  simp [find, List.find?_eq_none]

omit [DecidableEq κ] in
theorem Unique.eq (h : Unique key rows) {other : ρ} (hrow : row ∈ rows) (hother : other ∈ rows)
    (hkey : key row = key other) : row = other :=
  List.inj_on_of_nodup_map h hrow hother hkey

theorem Unique.find_of_mem (h : Unique key rows) (hrow : row ∈ rows) :
    find key (key row) rows = some row := by
  cases hfind : find key (key row) rows with
  | none => exact absurd rfl (find_none.mp hfind row hrow)
  | some other =>
    obtain ⟨hother, hkey⟩ := find_some hfind
    rw [h.eq hother hrow hkey]

omit [DecidableEq κ] in
theorem Unique.append (h : Unique key rows) (hrow : ∀ other ∈ rows, key other ≠ key row) :
    Unique key (rows ++ [row]) := by
  rw [Unique, List.map_append, List.nodup_append]
  refine ⟨h, by simp, ?_⟩
  rintro first hfirst second hsecond rfl
  obtain ⟨other, hother, hkey⟩ := List.mem_map.mp hfirst
  have hsame : first = key row := by simpa using hsecond
  exact hrow other hother (hkey.trans hsame)

omit [DecidableEq κ] in
theorem Unique.filter (h : Unique key rows) (kept : ρ → Bool) : Unique key (rows.filter kept) :=
  List.Nodup.sublist (List.filter_sublist.map key) h

omit [DecidableEq κ] in
/-- A column that determines the primary key is unique. -/
theorem Unique.of_determines {κ' : Type} {column : ρ → κ'} {f : κ' → κ} (h : Unique key rows)
    (hkey : ∀ row ∈ rows, key row = f (column row)) : Unique column rows := by
  have hmap : rows.map key = (rows.map column).map f := by
    rw [List.map_map]
    exact List.map_congr_left hkey
  rw [Unique, hmap] at h
  exact h.of_map

/-- An insert either finds its key in the table and changes nothing, or adds its row. -/
theorem insert_cases (key : ρ → κ) (row : ρ) (rows : List ρ) :
    ((insert key row rows).1 = false ∧ (insert key row rows).2 = rows ∧
        ∃ other ∈ rows, key other = key row) ∨
      ((insert key row rows).1 = true ∧ (insert key row rows).2 = rows ++ [row] ∧
        ∀ other ∈ rows, key other ≠ key row) := by
  unfold insert
  split
  · rename_i other hother
    exact Or.inl ⟨rfl, rfl, other, find_some hother⟩
  · rename_i hnone
    exact Or.inr ⟨rfl, rfl, find_none.mp hnone⟩

/-- At most one row has a given primary key. -/
theorem Unique.length_filter_le_one (h : Unique key rows) (k : κ) :
    (rows.filter fun row ↦ key row = k).length ≤ 1 := by
  induction rows with
  | nil => simp
  | cons row rest ih =>
    obtain ⟨hrow, hrest⟩ := List.nodup_cons.mp h
    by_cases hkey : key row = k
    · have hnone : rest.filter (fun other ↦ key other = k) = [] := by
        rw [List.filter_eq_nil_iff]
        intro other hother hsame
        exact hrow (List.mem_map.mpr ⟨other, hother, by rw [hkey]; simpa using hsame⟩)
      simp [hkey, hnone]
    · simpa [hkey] using ih hrest

theorem unique_of_length_filter_le_one
    (h : ∀ k, (rows.filter fun row ↦ key row = k).length ≤ 1) : Unique key rows := by
  rw [Unique, List.nodup_iff_count_le_one]
  intro k
  rw [List.count, List.countP_map, List.countP_eq_length_filter]
  have hfilter : rows.filter ((fun other ↦ other == k) ∘ key) =
      rows.filter fun row ↦ key row = k := by
    refine List.filter_congr fun row _ ↦ ?_
    rw [Bool.eq_iff_iff]
    simp
  rw [hfilter]
  exact h k

/-- A row is all that a filter on its primary key leaves. -/
theorem Unique.filter_eq_singleton (h : Unique key rows) (hrow : row ∈ rows) :
    (rows.filter fun other ↦ key other = key row) = [row] := by
  have hlength := h.length_filter_le_one (key row)
  have hmem : row ∈ rows.filter fun other ↦ key other = key row := by
    rw [List.mem_filter]
    exact ⟨hrow, by simp⟩
  obtain ⟨first, hfirst⟩ := List.length_eq_one_iff.mp
    (Nat.le_antisymm hlength (List.length_pos_of_mem hmem))
  rw [hfirst, List.mem_singleton] at hmem
  rw [hfirst, hmem]

omit [DecidableEq κ] in
/-- A condition that one row fails is met by fewer rows than a weaker one that it meets. -/
theorem countP_lt {p q : ρ → Bool} (h : ∀ other ∈ rows, p other → q other) (hrow : row ∈ rows)
    (hp : p row = false) (hq : q row = true) : rows.countP p < rows.countP q := by
  obtain ⟨before, after, rfl⟩ := List.append_of_mem hrow
  have hbefore : before.countP p ≤ before.countP q := List.countP_mono_left fun other hother ↦
    h other (List.mem_append_left _ hother)
  have hafter : after.countP p ≤ after.countP q := List.countP_mono_left fun other hother ↦
    h other (List.mem_append_right _ (List.mem_cons_of_mem row hother))
  rw [List.countP_append, List.countP_append, List.countP_cons_of_neg (by rw [hp]; simp),
    List.countP_cons_of_pos hq]
  omega

variable (key) in
/-- Rows are counted key by key. -/
theorem countP_eq_sum (p : ρ → Bool) {keys : List κ} (hkeys : keys.Nodup)
    (hall : ∀ row ∈ rows, key row ∈ keys) :
    rows.countP p = (keys.map fun k ↦ (rows.filter fun row ↦ key row = k).countP p).sum := by
  induction rows with
  | nil => simp
  | cons row rest ih =>
    have hone : (keys.map fun k ↦ if key row = k ∧ p row then 1 else 0).sum =
        if p row then 1 else 0 := by
      obtain ⟨before, after, rfl⟩ := List.append_of_mem (hall row List.mem_cons_self)
      obtain ⟨-, hafter, hapart⟩ := List.nodup_append.mp hkeys
      have hnone : ∀ other : List κ, key row ∉ other →
          (other.map fun k ↦ if key row = k ∧ p row then 1 else 0).sum = 0 := by
        intro other hother
        refine List.sum_eq_zero fun count hcount ↦ ?_
        obtain ⟨k, hk, rfl⟩ := List.mem_map.mp hcount
        rw [if_neg]
        rintro ⟨rfl, -⟩
        exact hother hk
      have hbefore : key row ∉ before := fun hmem ↦ hapart _ hmem _ List.mem_cons_self rfl
      simp [hnone before hbefore, hnone after (List.nodup_cons.mp hafter).1]
    have hsplit : (keys.map fun k ↦ ((row :: rest).filter fun other ↦ key other = k).countP p) =
        keys.map fun k ↦ (rest.filter fun other ↦ key other = k).countP p +
          if key row = k ∧ p row then 1 else 0 := by
      refine List.map_congr_left fun k _ ↦ ?_
      by_cases hkey : key row = k <;> simp [hkey, List.countP_cons]
    rw [hsplit, List.sum_map_add, hone, List.countP_cons,
      ih fun other hother ↦ hall other (List.mem_cons_of_mem row hother)]

/-- The rows with one of some keys that are all there are as many as the keys. -/
theorem Unique.length_filter_mem (h : Unique key rows) {keys : List κ}
    (hkeys : ∀ k ∈ keys, ∃ row ∈ rows, key row = k) :
    (rows.filter fun row ↦ key row ∈ keys).length = keys.dedup.length := by
  have hperm : ((rows.filter fun row ↦ key row ∈ keys).map key).Perm keys.dedup := by
    rw [List.perm_ext_iff_of_nodup (h.filter _) keys.nodup_dedup]
    intro k
    rw [List.mem_dedup, List.mem_map]
    constructor
    · rintro ⟨row, hrow, rfl⟩
      exact of_decide_eq_true (List.mem_filter.mp hrow).2
    · intro hk
      obtain ⟨row, hrow, rfl⟩ := hkeys k hk
      exact ⟨row, List.mem_filter.mpr ⟨hrow, decide_eq_true hk⟩, rfl⟩
  rw [← hperm.length_eq, List.length_map]

omit [DecidableEq κ] in
/-- Rows that are found again in another table, each under its key with its amount, amount to no
more than that table. -/
theorem Unique.sum_le {σ A : Type} [AddCommMonoid A] [Preorder A] [AddLeftMono A]
    {others : List σ} {otherKey : σ → κ} {amount : ρ → A} {otherAmount : σ → A}
    (h : Unique key rows)
    (hfound : ∀ row ∈ rows, ∃ other ∈ others, otherKey other = key row ∧
      otherAmount other = amount row)
    (hnonneg : ∀ other ∈ others, 0 ≤ otherAmount other) :
    (rows.map amount).sum ≤ (others.map otherAmount).sum := by
  have hnodup : (rows.map fun row ↦ (key row, amount row)).Nodup :=
    List.Nodup.of_map Prod.fst (by rwa [List.map_map])
  have hsubset : (rows.map fun row ↦ (key row, amount row)) ⊆
      others.map fun other ↦ (otherKey other, otherAmount other) := by
    intro pair hpair
    obtain ⟨row, hrow, rfl⟩ := List.mem_map.mp hpair
    obtain ⟨other, hother, hkey, hamount⟩ := hfound row hrow
    exact List.mem_map.mpr ⟨other, hother, by rw [hkey, hamount]⟩
  obtain ⟨kept, hperm, hsublist⟩ := List.subperm_of_subset hnodup hsubset
  have hrows : (kept.map Prod.snd).sum = (rows.map amount).sum := by
    rw [(hperm.map Prod.snd).sum_eq, List.map_map]
    rfl
  have hothers : (others.map fun other ↦ (otherKey other, otherAmount other)).map Prod.snd =
      others.map otherAmount := by
    rw [List.map_map]
    rfl
  rw [← hrows, ← hothers]
  refine (hsublist.map Prod.snd).sum_le_sum fun amount hamount ↦ ?_
  rw [hothers] at hamount
  obtain ⟨other, hother, rfl⟩ := List.mem_map.mp hamount
  exact hnonneg other hother

/-! ### Replacing a row -/

omit [DecidableEq κ] in
/-- A row is replaced by one with the same column. -/
theorem map_set_of_eq {column : ρ → κ} {other : ρ} {index : ℕ} (hrow : rows[index]? = some row)
    (hsame : column other = column row) : (rows.set index other).map column = rows.map column := by
  have hcolumn : (rows.map column)[index]? = some (column row) := by
    rw [List.getElem?_map, hrow, Option.map_some]
  obtain ⟨hlt, hsame'⟩ := List.getElem?_eq_some_iff.mp hcolumn
  rw [List.map_set, hsame, ← hsame', List.set_getElem_self]

omit [DecidableEq κ] in
/-- One row less and one row more is counted. -/
theorem countP_set {index : ℕ} (other : ρ) (p : ρ → Bool) (hrow : rows[index]? = some row) :
    (rows.set index other).countP p + (if p row then 1 else 0) =
      rows.countP p + if p other then 1 else 0 := by
  obtain ⟨hlt, rfl⟩ := List.getElem?_eq_some_iff.mp hrow
  have hcounted : (if p rows[index] then 1 else 0) ≤ rows.countP p := by
    split
    · exact List.countP_pos_iff.mpr ⟨_, List.getElem_mem hlt, ‹_›⟩
    · exact Nat.zero_le _
  rw [List.countP_set hlt]
  omega

/-- Each key has exactly one row, and each row has one of the keys. -/
def OnePer (key : ρ → κ) (rows : List ρ) (keys : List κ) : Prop :=
  (∀ k ∈ keys, (rows.filter fun row ↦ key row = k).length = 1) ∧ ∀ row ∈ rows, key row ∈ keys

theorem onePer_of_map_eq {keys : List κ} (hkeys : rows.map key = keys) (hnodup : keys.Nodup) :
    OnePer key rows keys := by
  subst hkeys
  have hunique : Unique key rows := hnodup
  constructor
  · intro k hk
    obtain ⟨row, hrow, rfl⟩ := List.mem_map.mp hk
    rw [hunique.filter_eq_singleton hrow]
    rfl
  · exact fun row hrow ↦ List.mem_map_of_mem hrow

/-- Two tables that are related row by row have rows related to each other. -/
theorem exists_mem_of_forall₂ {α β : Type} {R : α → β → Prop} {xs : List α} {ys : List β}
    (h : List.Forall₂ R xs ys) :
    (∀ x ∈ xs, ∃ y ∈ ys, R x y) ∧ ∀ y ∈ ys, ∃ x ∈ xs, R x y := by
  induction h with
  | nil => simp
  | cons hhead _ ih =>
    simp only [List.mem_cons, forall_eq_or_imp, exists_eq_or_imp]
    exact ⟨⟨Or.inl hhead, fun x hx ↦ Or.inr (ih.1 x hx)⟩,
      Or.inl hhead, fun y hy ↦ Or.inr (ih.2 y hy)⟩

end DinnerRush.Concurrency.Table
