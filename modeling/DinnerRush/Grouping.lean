import Mathlib.Algebra.BigOperators.Group.List.Basic
import Mathlib.Data.List.Induction
import Mathlib.Data.List.Nodup

/-!
# Grouping in the order of insertion

A map that keeps the order of its insertions is filled in one pass: an item goes to the end of the
group of its key, or starts a new group after the others. `Grouping` says what the group of one item
is and how a group takes one more, and `Grouping.of` are the groups of a list.

The groups partition the list (`Grouping.partition_of`), what adds up over the items of a group adds
up over the groups (`Grouping.sum_of`), and two ways to group that agree on one item and one more
make the same groups (`Grouping.map_of`).
-/

set_option autoImplicit false
set_option relaxedAutoImplicit false

namespace DinnerRush

/-- The key of an item and of a group, the group of one item, and a group with one item more. -/
structure Grouping (κ α γ : Type) where
  keyOf : α → κ
  key : γ → κ
  single : α → γ
  extend : γ → α → γ
  key_single : ∀ item, key (single item) = keyOf item
  key_extend : ∀ group item, key (extend group item) = key group

namespace Grouping

variable {κ α γ : Type} [DecidableEq κ] (G : Grouping κ α γ)

/-- An item goes to the group of its key, or to a new one at the end. -/
def insert : List γ → α → List γ
  | [], item => [G.single item]
  | group :: rest, item =>
    if G.key group = G.keyOf item then G.extend group item :: rest else group :: insert rest item

/-- The groups of some items, in the order of their first items. -/
def of (items : List α) : List γ := items.foldl G.insert []

/-- The group that a first item and the rest of its items make. -/
def build (first : α) (rest : List α) : γ := rest.foldl G.extend (G.single first)

theorem of_append (items : List α) (item : α) :
    G.of (items ++ [item]) = G.insert (G.of items) item := by
  rw [of, List.foldl_append]
  rfl

omit [DecidableEq κ] in
theorem build_append (first : α) (rest : List α) (item : α) :
    G.build first (rest ++ [item]) = G.extend (G.build first rest) item := by
  rw [build, List.foldl_append]
  rfl

/-! ### A partition -/

theorem map_key_insert (groups : List γ) (item : α) :
    (G.insert groups item).map G.key =
      if G.keyOf item ∈ groups.map G.key then groups.map G.key
      else groups.map G.key ++ [G.keyOf item] := by
  induction groups with
  | nil => simp [insert, G.key_single]
  | cons group rest ih =>
    unfold insert
    by_cases hsame : G.key group = G.keyOf item
    · simp [hsame, G.key_extend]
    · have hother : G.keyOf item ≠ G.key group := fun h ↦ hsame h.symm
      rw [if_neg hsame, List.map_cons, ih]
      by_cases hmem : G.keyOf item ∈ rest.map G.key
      · simp only [List.map_cons, List.mem_cons, hmem, or_true, if_true]
      · simp only [List.map_cons, List.mem_cons, hother, hmem, or_self, if_false, List.cons_append]

theorem nodup_insert {groups : List γ} (h : (groups.map G.key).Nodup) (item : α) :
    ((G.insert groups item).map G.key).Nodup := by
  rw [map_key_insert]
  split
  · exact h
  · rename_i hnew
    exact List.concat_eq_append ▸ List.Nodup.concat hnew h

/-- What an item does to the groups: that of its key takes it, or it makes a new one. -/
theorem mem_insert {groups : List γ} {item : α} {group : γ} (hnodup : (groups.map G.key).Nodup)
    (h : group ∈ G.insert groups item) :
    (group ∈ groups ∧ G.key group ≠ G.keyOf item) ∨
      (∃ before ∈ groups, G.key before = G.keyOf item ∧ group = G.extend before item) ∨
      (G.keyOf item ∉ groups.map G.key ∧ group = G.single item) := by
  induction groups with
  | nil => exact .inr (.inr ⟨List.not_mem_nil, List.mem_singleton.mp h⟩)
  | cons first rest ih =>
    obtain ⟨hfirst, hrest⟩ := List.nodup_cons.mp hnodup
    unfold insert at h
    by_cases hsame : G.key first = G.keyOf item
    · rw [if_pos hsame] at h
      rcases List.mem_cons.mp h with rfl | hlater
      · exact .inr (.inl ⟨first, List.mem_cons_self, hsame, rfl⟩)
      · refine .inl ⟨List.mem_cons_of_mem first hlater, fun hother ↦ hfirst ?_⟩
        exact List.mem_map.mpr ⟨group, hlater, hother.trans hsame.symm⟩
    · rw [if_neg hsame] at h
      rcases List.mem_cons.mp h with rfl | hlater
      · exact .inl ⟨List.mem_cons_self, hsame⟩
      · rcases ih hrest hlater with ⟨hmem, hne⟩ | ⟨before, hbefore, hkey, hgroup⟩ | ⟨hnew, hgroup⟩
        · exact .inl ⟨List.mem_cons_of_mem first hmem, hne⟩
        · exact .inr (.inl ⟨before, List.mem_cons_of_mem first hbefore, hkey, hgroup⟩)
        · refine .inr (.inr ⟨fun hmem ↦ ?_, hgroup⟩)
          rcases List.mem_cons.mp hmem with hfirst' | hrest'
          · exact hsame hfirst'.symm
          · exact hnew hrest'

/-- The items of a key. -/
def itemsOf (key : κ) (items : List α) : List α := items.filter fun item ↦ G.keyOf item = key

theorem itemsOf_append (key : κ) (items : List α) (item : α) :
    G.itemsOf key (items ++ [item]) =
      if G.keyOf item = key then G.itemsOf key items ++ [item] else G.itemsOf key items := by
  unfold itemsOf
  rw [List.filter_append]
  by_cases hsame : G.keyOf item = key <;> simp [hsame]

/-- One group for each key, made of the items of the key in their order. -/
structure Partition (items : List α) (groups : List γ) : Prop where
  nodup : (groups.map G.key).Nodup
  covers : ∀ item ∈ items, G.keyOf item ∈ groups.map G.key
  built : ∀ group ∈ groups, ∃ first rest,
    G.itemsOf (G.key group) items = first :: rest ∧ group = G.build first rest

variable {G}

theorem Partition.insert {items : List α} {groups : List γ} (h : G.Partition items groups)
    (item : α) : G.Partition (items ++ [item]) (G.insert groups item) := by
  have hkeys := G.map_key_insert groups item
  refine ⟨G.nodup_insert h.nodup item, fun other hother ↦ ?_, fun group hgroup ↦ ?_⟩
  · have hother : G.keyOf other ∈ groups.map G.key ∨ G.keyOf other = G.keyOf item := by
      rcases List.mem_append.mp hother with hold | hnew
      · exact .inl (h.covers other hold)
      · exact .inr (congrArg G.keyOf (List.mem_singleton.mp hnew))
    rw [hkeys]
    split
    · rename_i hmem
      exact hother.elim id fun hsame ↦ hsame ▸ hmem
    · exact List.mem_append.mpr (hother.imp_right List.mem_singleton.mpr)
  · rw [itemsOf_append]
    rcases G.mem_insert h.nodup hgroup with ⟨hmem, hne⟩ | ⟨before, hbefore, hkey, rfl⟩ |
      ⟨hnew, rfl⟩
    · rw [if_neg fun hsame ↦ hne hsame.symm]
      exact h.built group hmem
    · obtain ⟨first, rest, hitems, hbuilt⟩ := h.built before hbefore
      refine ⟨first, rest ++ [item], ?_, ?_⟩
      · rw [G.key_extend, if_pos hkey.symm, hitems, List.cons_append]
      · rw [build_append, ← hbuilt]
    · refine ⟨item, [], ?_, rfl⟩
      have hnone : G.itemsOf (G.keyOf item) items = [] := by
        rw [itemsOf, List.filter_eq_nil_iff]
        intro other hother hsame
        exact hnew (of_decide_eq_true hsame ▸ h.covers other hother)
      rw [G.key_single, if_pos rfl, hnone, List.nil_append]

/-- The groups of a list partition it. -/
theorem partition_of (items : List α) : G.Partition items (G.of items) := by
  induction items using List.reverseRecOn with
  | nil => exact ⟨List.nodup_nil, nofun, nofun⟩
  | append_singleton items item ih =>
    rw [of_append]
    exact ih.insert item

/-- What holds of the group of one item, and is kept by one item more, holds of every group. -/
theorem forall_of {P : γ → Prop} {items : List α} (hsingle : ∀ item ∈ items, P (G.single item))
    (hextend : ∀ group item, P group → P (G.extend group item)) :
    ∀ group ∈ G.of items, P group := by
  intro group hgroup
  obtain ⟨first, rest, hitems, rfl⟩ := (G.partition_of items).built group hgroup
  have hfirst : first ∈ G.itemsOf (G.key (G.build first rest)) items :=
    hitems ▸ List.mem_cons_self
  clear hitems hgroup
  induction rest using List.reverseRecOn with
  | nil => exact hsingle first (List.mem_of_mem_filter hfirst)
  | append_singleton rest item ih =>
    rw [build_append] at hfirst ⊢
    rw [G.key_extend] at hfirst
    exact hextend _ item (ih hfirst)

/-- A list that every item of a group adds one element to has that of each of its items. -/
theorem lines_of {β : Type} (lines : γ → List β) (line : α → β)
    (hsingle : ∀ item, lines (G.single item) = [line item])
    (hextend : ∀ group item, lines (G.extend group item) = lines group ++ [line item])
    {items : List α} {group : γ} (h : group ∈ G.of items) :
    lines group = (G.itemsOf (G.key group) items).map line := by
  obtain ⟨first, rest, hitems, hbuilt⟩ := (G.partition_of items).built group h
  rw [hitems, hbuilt]
  clear hitems hbuilt
  induction rest using List.reverseRecOn with
  | nil => exact hsingle first
  | append_singleton rest item ih =>
    rw [build_append, hextend, ih, ← List.cons_append, List.map_append, List.map_singleton]

/-! ### Sums over groups -/

/-- What every item of a group adds to adds up over the groups as over the items. -/
theorem sum_of {M : Type} [AddCommMonoid M] (total : γ → M) (amount : α → M)
    (hsingle : ∀ item, total (G.single item) = amount item)
    (hextend : ∀ group item, total (G.extend group item) = total group + amount item)
    (items : List α) : ((G.of items).map total).sum = (items.map amount).sum := by
  have hinsert : ∀ (groups : List γ) (item : α),
      ((G.insert groups item).map total).sum = (groups.map total).sum + amount item := by
    intro groups item
    induction groups with
    | nil => simp [Grouping.insert, hsingle]
    | cons group rest ih =>
      unfold Grouping.insert
      split
      · rw [List.map_cons, List.map_cons, List.sum_cons, List.sum_cons, hextend, add_right_comm]
      · rw [List.map_cons, List.map_cons, List.sum_cons, List.sum_cons, ih, add_assoc]
  induction items using List.reverseRecOn with
  | nil => rfl
  | append_singleton items item ih =>
    rw [of_append, hinsert, ih, List.map_append, List.sum_append, List.map_singleton,
      List.sum_singleton]

/-! ### Two ways to group -/

/-- Groups that correspond on one item, and on one item more, are the same groups. -/
theorem map_of {κ' β δ : Type} [DecidableEq κ'] {H : Grouping κ' β δ} (f : α → β) (g : γ → δ)
    (hkey : ∀ group item, H.key (g group) = H.keyOf (f item) ↔ G.key group = G.keyOf item)
    (hsingle : ∀ item, g (G.single item) = H.single (f item))
    (hextend : ∀ group item, g (G.extend group item) = H.extend (g group) (f item))
    (items : List α) : (G.of items).map g = H.of (items.map f) := by
  have hinsert : ∀ (groups : List γ) (item : α),
      (G.insert groups item).map g = H.insert (groups.map g) (f item) := by
    intro groups item
    induction groups with
    | nil => simp [Grouping.insert, hsingle]
    | cons group rest ih =>
      simp only [Grouping.insert, List.map_cons, hkey]
      split
      · rw [List.map_cons, hextend]
      · rw [List.map_cons, ih]
  induction items using List.reverseRecOn with
  | nil => rfl
  | append_singleton items item ih =>
    rw [of_append, hinsert, ih, List.map_append, List.map_singleton, of_append]

/-- The groups of some pairs: the first components are the keys, the second ones the items. -/
def pairs (κ β : Type) : Grouping κ (κ × β) (κ × List β) where
  keyOf := Prod.fst
  key := Prod.fst
  single pair := (pair.1, [pair.2])
  extend group pair := (group.1, group.2 ++ [pair.2])
  key_single _ := rfl
  key_extend _ _ := rfl

end Grouping

end DinnerRush
