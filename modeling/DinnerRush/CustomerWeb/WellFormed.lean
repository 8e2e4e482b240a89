import DinnerRush.CustomerWeb.Catalog
import DinnerRush.Grouping

/-!
# The carts that operations lead to

No dish has two lines, every line has a whole number of its dish and at least one of it, and is of
nothing that `dishMap` only inherits. The operations of the cart keep this, each called with the
items of the moment, as long as `add` adds at least one, quantities are whole numbers, and no name
is an inherited one.
-/

set_option autoImplicit false
set_option relaxedAutoImplicit false

namespace DinnerRush.CustomerWeb.Cart

/-- `SEED.items`. -/
def seed : List CartItem :=
  [⟨"fuego-1", 1⟩, ⟨"sakura-1", 1⟩, ⟨"verde-2", 1⟩]

/-- `Number.isInteger`. -/
def isInteger (number : ℚ) : Bool := number.den == 1

theorem isInteger_iff {number : ℚ} :
    isInteger number = true ↔ ∃ whole : ℤ, (whole : ℚ) = number := by
  rw [isInteger, beq_iff_eq, Rat.den_eq_one_iff]
  constructor
  · exact fun h ↦ ⟨_, h⟩
  · rintro ⟨whole, rfl⟩
    rfl

theorem isInteger_intCast (whole : ℤ) : isInteger whole = true := isInteger_iff.mpr ⟨whole, rfl⟩

theorem isInteger_add {number number' : ℚ} (h : isInteger number = true)
    (h' : isInteger number' = true) : isInteger (number + number') = true := by
  obtain ⟨whole, rfl⟩ := isInteger_iff.mp h
  obtain ⟨whole', rfl⟩ := isInteger_iff.mp h'
  exact isInteger_iff.mpr ⟨whole + whole', Int.cast_add ..⟩

/-- One line for a dish, with a whole quantity of at least one. -/
structure WellFormed (catalog : Catalog) (items : List CartItem) : Prop where
  nodup : (items.map CartItem.dishId).Nodup
  one_le : ∀ item ∈ items, 1 ≤ item.qty
  whole : ∀ item ∈ items, isInteger item.qty = true
  named : ∀ item ∈ items, inherits catalog.dishMap item.dishId = false

/-! ### The operations -/

/-- An operation that adds no less than one. -/
def Operation.AddsOne : Operation → Prop
  | .add _ qty => 1 ≤ qty
  | _ => True

/-- An operation with a whole quantity, if it has one. -/
def Operation.IsWhole : Operation → Prop
  | .add _ qty => isInteger qty = true
  | .setQty _ qty => isInteger qty = true
  | _ => True

/-- An operation that looks up no name that is only inherited. -/
def Operation.IsNamed (catalog : Catalog) : Operation → Prop
  | .add dishId _ => inherits catalog.dishMap dishId = false
  | .addBundle bundleId => inherits catalog.bundleMap bundleId = false
  | .increment dishId => inherits catalog.dishMap dishId = false
  | _ => True

instance : DecidablePred Operation.AddsOne := fun operation ↦ by
  cases operation <;> unfold Operation.AddsOne <;> infer_instance

instance : DecidablePred Operation.IsWhole := fun operation ↦ by
  cases operation <;> unfold Operation.IsWhole <;> infer_instance

instance (catalog : Catalog) : DecidablePred (Operation.IsNamed catalog) := fun operation ↦ by
  cases operation <;> unfold Operation.IsNamed <;> infer_instance

/-- The updater of the operation throws: what `bundleMap` inherits has no `dishIds`. -/
def Operation.throws (catalog : Catalog) : Operation → Bool
  | .addBundle bundleId => inherits catalog.bundleMap bundleId
  | _ => false

/-- The items after the operations, each called with the items of the moment, unless one throws. -/
def operate (catalog : Catalog) (items : List CartItem) (operations : List Operation) :
    Option (List CartItem) :=
  operations.foldlM (fun current operation ↦
    if operation.throws catalog then none
    else some (operation.updater catalog.menu current current)) items

/-! ### What they keep -/

theorem wellFormed_nil (catalog : Catalog) : WellFormed catalog [] :=
  ⟨List.nodup_nil, nofun, nofun, nofun⟩

theorem wellFormed_seed (catalog : Catalog) : WellFormed catalog seed where
  nodup := by decide
  one_le := by decide +kernel
  whole := by decide +kernel
  named item hitem := by
    have hown : ∀ item ∈ seed, item.dishId ∉ objectPrototype := by decide +kernel
    simp [inherits, hown item hitem]

variable {catalog : Catalog} {items : List CartItem} {dishId : String} {qty : ℚ}

/-- A change of the quantities of one dish leaves the dishes as they are. -/
theorem map_dishId_map (newQty : CartItem → ℚ) :
    (items.map fun item ↦
      if item.dishId = dishId then { item with qty := newQty item } else item).map CartItem.dishId =
        items.map CartItem.dishId := by
  rw [List.map_map]
  refine List.map_congr_left fun item _ ↦ ?_
  by_cases hdish : item.dishId = dishId <;> simp [hdish]

theorem WellFormed.map (h : WellFormed catalog items) {newQty : CartItem → ℚ}
    (hqty : ∀ item ∈ items, 1 ≤ newQty item)
    (hwhole : ∀ item ∈ items, isInteger (newQty item) = true) :
    WellFormed catalog (items.map fun item ↦
      if item.dishId = dishId then { item with qty := newQty item } else item) := by
  refine ⟨by rw [map_dishId_map]; exact h.nodup, ?_, ?_, ?_⟩
  · refine List.forall_mem_map.mpr fun item hitem ↦ ?_
    by_cases hdish : item.dishId = dishId
    · rw [if_pos hdish]
      exact hqty item hitem
    · rw [if_neg hdish]
      exact h.one_le item hitem
  · refine List.forall_mem_map.mpr fun item hitem ↦ ?_
    by_cases hdish : item.dishId = dishId
    · rw [if_pos hdish]
      exact hwhole item hitem
    · rw [if_neg hdish]
      exact h.whole item hitem
  · refine List.forall_mem_map.mpr fun item hitem ↦ ?_
    have hsame : (if item.dishId = dishId then { item with qty := newQty item } else item).dishId =
        item.dishId := by split <;> rfl
    rw [hsame]
    exact h.named item hitem

theorem WellFormed.addLine (h : WellFormed catalog items) (hqty : 1 ≤ qty)
    (hwhole : isInteger qty = true) (hnamed : inherits catalog.dishMap dishId = false) :
    WellFormed catalog (addLine dishId qty items) := by
  unfold Cart.addLine
  split
  · refine h.map (fun item hitem ↦ ?_) fun item hitem ↦ isInteger_add (h.whole item hitem) hwhole
    have hone := h.one_le item hitem
    linarith
  · rename_i hnone
    rw [hasLine_iff] at hnone
    refine ⟨?_, List.forall_mem_append.mpr ⟨h.one_le, List.forall_mem_singleton.mpr hqty⟩,
      List.forall_mem_append.mpr ⟨h.whole, List.forall_mem_singleton.mpr hwhole⟩,
      List.forall_mem_append.mpr ⟨h.named, List.forall_mem_singleton.mpr hnamed⟩⟩
    rw [List.map_append, List.map_singleton, ← List.concat_eq_append]
    exact List.Nodup.concat (fun hmem ↦ hnone (List.mem_map.mp hmem)) h.nodup

/-- The lines of a bundle's dishes as a grouping: one more of its dish on the first of its lines. -/
def bumpGrouping : Grouping String String CartItem where
  keyOf dishId := dishId
  key := CartItem.dishId
  single dishId := ⟨dishId, 1⟩
  extend item _ := { item with qty := item.qty + 1 }
  key_single _ := rfl
  key_extend _ _ := rfl

theorem bump_eq (dishId : String) (items : List CartItem) :
    bump dishId items = bumpGrouping.insert items dishId := by
  induction items with
  | nil => rfl
  | cons item rest ih =>
    rw [bump, Grouping.insert, ih]
    rfl

/-- A line after a dish of a bundle is an old one, one that has grown, or the new one. -/
theorem mem_bump (h : (items.map CartItem.dishId).Nodup) {item : CartItem}
    (hitem : item ∈ bump dishId items) : item ∈ items ∨
      (∃ before ∈ items, item = { before with qty := before.qty + 1 }) ∨ item = ⟨dishId, 1⟩ := by
  rw [bump_eq] at hitem
  obtain ⟨hmem, -⟩ | ⟨before, hbefore, -, rfl⟩ | ⟨-, rfl⟩ := bumpGrouping.mem_insert h hitem
  · exact Or.inl hmem
  · exact Or.inr (Or.inl ⟨before, hbefore, rfl⟩)
  · exact Or.inr (Or.inr rfl)

theorem WellFormed.bump (h : WellFormed catalog items)
    (hnamed : inherits catalog.dishMap dishId = false) :
    WellFormed catalog (bump dishId items) := by
  refine ⟨?_, fun item hitem ↦ ?_, fun item hitem ↦ ?_, fun item hitem ↦ ?_⟩
  · rw [bump_eq]
    exact bumpGrouping.nodup_insert h.nodup dishId
  · obtain hmem | ⟨before, hbefore, rfl⟩ | rfl := mem_bump h.nodup hitem
    · exact h.one_le item hmem
    · have hone := h.one_le before hbefore
      show 1 ≤ before.qty + 1
      linarith
    · exact le_refl 1
  · obtain hmem | ⟨before, hbefore, rfl⟩ | rfl := mem_bump h.nodup hitem
    · exact h.whole item hmem
    · exact isInteger_add (h.whole before hbefore) (isInteger_intCast 1)
    · exact isInteger_intCast 1
  · obtain hmem | ⟨before, hbefore, rfl⟩ | rfl := mem_bump h.nodup hitem
    · exact h.named item hmem
    · exact h.named before hbefore
    · exact hnamed

theorem WellFormed.addDishes (h : WellFormed catalog items) {dishIds : List String}
    (hnamed : ∀ dishId ∈ dishIds, inherits catalog.dishMap dishId = false) :
    WellFormed catalog (addDishes dishIds items) := by
  induction dishIds generalizing items with
  | nil => exact h
  | cons dishId rest ih =>
    obtain ⟨hfirst, hrest⟩ := List.forall_mem_cons.mp hnamed
    exact ih (h.bump hfirst) hrest

theorem WellFormed.removeLine (h : WellFormed catalog items) :
    WellFormed catalog (removeLine dishId items) where
  nodup := h.nodup.sublist (List.filter_sublist.map _)
  one_le item hitem := h.one_le item (List.mem_of_mem_filter hitem)
  whole item hitem := h.whole item (List.mem_of_mem_filter hitem)
  named item hitem := h.named item (List.mem_of_mem_filter hitem)

/-- A whole quantity that is positive is at least one. -/
theorem one_le_of_isInteger (hwhole : isInteger qty = true) (hpos : 0 < qty) : 1 ≤ qty := by
  obtain ⟨whole, rfl⟩ := isInteger_iff.mp hwhole
  have hpositive : 0 < whole := by exact_mod_cast hpos
  exact_mod_cast hpositive

theorem WellFormed.setLine (h : WellFormed catalog items) (hwhole : isInteger qty = true) :
    WellFormed catalog (setLine dishId qty items) := by
  unfold Cart.setLine
  split
  · exact h.removeLine
  · rename_i hpos
    exact h.map (fun _ _ ↦ one_le_of_isInteger hwhole (not_le.mp hpos)) fun _ _ ↦ hwhole

theorem WellFormed.isInteger_qtyOf (h : WellFormed catalog items) (dishId : String) :
    isInteger (qtyOf items dishId) = true := by
  unfold qtyOf
  cases hfind : items.find? fun item ↦ item.dishId == dishId with
  | none => exact isInteger_intCast 0
  | some item => exact h.whole item (List.mem_of_find?_eq_some hfind)

/-- Each operation keeps a cart well formed. -/
theorem WellFormed.updater (h : WellFormed catalog items) {operation : Operation}
    (hadds : operation.AddsOne) (hwhole : operation.IsWhole) (hnamed : operation.IsNamed catalog) :
    WellFormed catalog (operation.updater catalog.menu items items) := by
  cases operation with
  | add dishId qty =>
    rw [Operation.updater]
    split
    · exact h.addLine hadds hwhole hnamed
    · exact h
  | addBundle bundleId =>
    rw [Operation.updater]
    cases hfound : catalog.menu.dishIds bundleId with
    | none => exact h
    | some dishIds =>
      refine h.addDishes fun dishId hdish ↦ ?_
      obtain ⟨dish, hsome⟩ := Catalog.exists_dish_of_bundle hfound dishId hdish
      exact Catalog.inherits_eq_false hsome
  | remove dishId => exact h.removeLine
  | setQty dishId qty => exact h.setLine hwhole
  | increment dishId =>
    rw [Operation.updater]
    split
    · exact h.addLine le_rfl (isInteger_intCast 1) hnamed
    · exact h
  | decrement dishId =>
    have hless := isInteger_add (h.isInteger_qtyOf dishId) (isInteger_intCast (-1))
    rw [Int.cast_neg, Int.cast_one, ← sub_eq_add_neg] at hless
    exact h.setLine hless
  | clear => exact wellFormed_nil catalog

/-- A run of operations goes through, and keeps a cart well formed. -/
theorem WellFormed.operate (h : WellFormed catalog items) {operations : List Operation}
    (hadds : ∀ operation ∈ operations, operation.AddsOne)
    (hwhole : ∀ operation ∈ operations, operation.IsWhole)
    (hnamed : ∀ operation ∈ operations, operation.IsNamed catalog) :
    ∃ left, operate catalog items operations = some left ∧
      left = sequential catalog.menu items operations ∧ WellFormed catalog left := by
  induction operations generalizing items with
  | nil => exact ⟨items, rfl, rfl, h⟩
  | cons operation rest ih =>
    obtain ⟨hadd, hadds⟩ := List.forall_mem_cons.mp hadds
    obtain ⟨hqty, hwhole⟩ := List.forall_mem_cons.mp hwhole
    obtain ⟨hname, hnamed⟩ := List.forall_mem_cons.mp hnamed
    obtain ⟨left, hleft, hsame, hwell⟩ := ih (h.updater hadd hqty hname) hadds hwhole hnamed
    have hquiet : operation.throws catalog = false := by
      cases operation with
      | addBundle bundleId => exact hname
      | _ => rfl
    refine ⟨left, ?_, hsame, hwell⟩
    rw [Cart.operate, List.foldlM_cons, hquiet]
    exact hleft

end DinnerRush.CustomerWeb.Cart
