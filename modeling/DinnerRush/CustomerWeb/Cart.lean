import Mathlib.Algebra.Order.Ring.Rat
import Mathlib.Data.List.Basic
import Mathlib.Tactic.Linarith

/-!
# The cart in the browser

`customer-web/src/lib/cart-context.tsx`: the operations of the cart value. Each hands React an
updater of the items. What is called through one rendered value is queued, and evaluated in that
order before the next render; only `decrement` makes its updater from the items that were rendered.
A quantity is any number: nothing rounds it.

So a batch of operations does what the operations do one after another exactly if each `decrement`
of it finds the quantity that was rendered, or no line, or removes the line either way
(`losesNothing_iff`).
-/

set_option autoImplicit false
set_option relaxedAutoImplicit false

namespace DinnerRush.CustomerWeb.Cart

/-! ### The items and their updaters -/

structure CartItem where
  dishId : String
  qty : ℚ
  deriving DecidableEq, Repr

/-- `dishMap` and `bundleMap`: whether something is found for a dish, and the dishes of each
bundle. -/
structure Menu where
  hasDish : String → Bool
  dishIds : String → Option (List String)

def hasLine (items : List CartItem) (dishId : String) : Bool :=
  items.any fun item ↦ item.dishId == dishId

def qtyOf (items : List CartItem) (dishId : String) : ℚ :=
  ((items.find? fun item ↦ item.dishId == dishId).map CartItem.qty).getD 0

/-- The updater of `add`. -/
def addLine (dishId : String) (qty : ℚ) (prev : List CartItem) : List CartItem :=
  if hasLine prev dishId then
    prev.map fun item ↦ if item.dishId = dishId then { item with qty := item.qty + qty } else item
  else prev ++ [⟨dishId, qty⟩]

/-- A dish of a bundle: the first of its lines grows, or there is a new one. -/
def bump (dishId : String) : List CartItem → List CartItem
  | [] => [⟨dishId, 1⟩]
  | item :: rest =>
    if item.dishId = dishId then { item with qty := item.qty + 1 } :: rest
    else item :: bump dishId rest

/-- The updater of `addBundle`, for a list whose lines nobody else has. -/
def addDishes (dishIds : List String) (prev : List CartItem) : List CartItem :=
  dishIds.foldl (fun next dishId ↦ bump dishId next) prev

/-- The updater of `remove`. -/
def removeLine (dishId : String) (prev : List CartItem) : List CartItem :=
  prev.filter fun item ↦ item.dishId ≠ dishId

/-- The updater of `setQty`. -/
def setLine (dishId : String) (qty : ℚ) (prev : List CartItem) : List CartItem :=
  if qty ≤ 0 then removeLine dishId prev
  else prev.map fun item ↦ if item.dishId = dishId then { item with qty := qty } else item

inductive Operation
  | add (dishId : String) (qty : ℚ)
  | addBundle (bundleId : String)
  | remove (dishId : String)
  | setQty (dishId : String) (qty : ℚ)
  | increment (dishId : String)
  | decrement (dishId : String)
  | clear
  deriving DecidableEq, Repr

/-- The updater that an operation queues, when it is called through the value that was rendered for
some items. -/
def Operation.updater (menu : Menu) (rendered : List CartItem) :
    Operation → List CartItem → List CartItem
  | .add dishId qty, prev => if menu.hasDish dishId then addLine dishId qty prev else prev
  | .addBundle bundleId, prev =>
    (menu.dishIds bundleId).elim prev fun dishIds ↦ addDishes dishIds prev
  | .remove dishId, prev => removeLine dishId prev
  | .setQty dishId qty, prev => setLine dishId qty prev
  | .increment dishId, prev => if menu.hasDish dishId then addLine dishId 1 prev else prev
  | .decrement dishId, prev => setLine dishId (qtyOf rendered dishId - 1) prev
  | .clear, _ => []

/-- The items after a batch of operations through one rendered value. -/
def batched (menu : Menu) (items : List CartItem) (operations : List Operation) : List CartItem :=
  operations.foldl (fun current operation ↦ operation.updater menu items current) items

/-- The items after the operations, each of them called through the value rendered for the items
that the previous one left. -/
def sequential (menu : Menu) (items : List CartItem) (operations : List Operation) :
    List CartItem :=
  operations.foldl (fun current operation ↦ operation.updater menu current current) items

/-! ### Setting a quantity -/

variable {menu : Menu} {items current : List CartItem} {dishId : String} {operation : Operation}

theorem hasLine_iff : hasLine items dishId = true ↔ ∃ item ∈ items, item.dishId = dishId := by
  simp [hasLine]

theorem removeLine_of_not_hasLine (h : ¬ hasLine items dishId = true) :
    removeLine dishId items = items := by
  rw [hasLine_iff] at h
  refine List.filter_eq_self.mpr fun item hitem ↦ ?_
  simpa using fun hdish ↦ h ⟨item, hitem, hdish⟩

theorem map_of_not_hasLine {f : CartItem → CartItem} (h : ¬ hasLine items dishId = true) :
    (items.map fun item ↦ if item.dishId = dishId then f item else item) = items := by
  rw [hasLine_iff] at h
  conv_rhs => rw [← List.map_id items]
  refine List.map_congr_left fun item hitem ↦ ?_
  rw [if_neg fun hdish ↦ h ⟨item, hitem, hdish⟩, id]

theorem setLine_of_not_hasLine {qty : ℚ} (h : ¬ hasLine items dishId = true) :
    setLine dishId qty items = items := by
  unfold setLine
  by_cases hqty : qty ≤ 0
  · rw [if_pos hqty, removeLine_of_not_hasLine h]
  · rw [if_neg hqty, map_of_not_hasLine h]

/-- The line is there with the new quantity, or not at all. -/
theorem mem_setLine {qty : ℚ} (h : hasLine items dishId = true) {line : CartItem}
    (hdish : line.dishId = dishId) :
    line ∈ setLine dishId qty items ↔ 0 < qty ∧ line.qty = qty := by
  obtain ⟨item, hitem, hsame⟩ := hasLine_iff.mp h
  unfold setLine removeLine
  by_cases hqty : qty ≤ 0
  · rw [if_pos hqty, List.mem_filter]
    constructor
    · rintro ⟨-, hother⟩
      exact absurd hdish (of_decide_eq_true hother)
    · rintro ⟨hpositive, -⟩
      exact absurd hqty (not_le.mpr hpositive)
  · rw [if_neg hqty, List.mem_map]
    constructor
    · rintro ⟨other, hother, rfl⟩
      by_cases hotherDish : other.dishId = dishId
      · rw [if_pos hotherDish]
        exact ⟨not_le.mp hqty, rfl⟩
      · rw [if_neg hotherDish] at hdish
        exact absurd hdish hotherDish
    · rintro ⟨-, hline⟩
      refine ⟨item, hitem, ?_⟩
      rw [if_pos hsame]
      cases line
      simp_all

/-- Two quantities set the same exactly if they are the same, or there is nothing to set, or both
remove the line. -/
theorem setLine_eq_iff {qty qty' : ℚ} : setLine dishId qty items = setLine dishId qty' items ↔
    (hasLine items dishId = true → qty = qty' ∨ (qty ≤ 0 ∧ qty' ≤ 0)) := by
  by_cases h : hasLine items dishId = true
  · constructor
    · intro hsame _
      by_contra hnot
      obtain ⟨hne, hpos⟩ := not_or.mp hnot
      -- The line with the greater quantity is there once, and not the other time.
      have hline := @mem_setLine items dishId qty h ⟨dishId, max qty qty'⟩ rfl
      have hline' := @mem_setLine items dishId qty' h ⟨dishId, max qty qty'⟩ rfl
      rw [hsame, hline'] at hline
      rcases lt_or_gt_of_ne hne with hlt | hgt
      · have hqty' : 0 < qty' := not_le.mp fun hle ↦ hpos ⟨hlt.le.trans hle, hle⟩
        exact hne ((hline.mp ⟨hqty', max_eq_right hlt.le⟩).2.symm.trans (max_eq_right hlt.le))
      · have hqty : 0 < qty := not_le.mp fun hle ↦ hpos ⟨hle, hgt.le.trans hle⟩
        exact hne ((max_eq_left hgt.le).symm.trans (hline.mpr ⟨hqty, max_eq_left hgt.le⟩).2)
    · intro hor
      rcases hor h with rfl | ⟨hqty, hqty'⟩
      · rfl
      · simp [setLine, hqty, hqty']
  · simp [h, setLine_of_not_hasLine h]

/-! ### A batch -/

/-- A `decrement` finds the quantity that was rendered, or no line, or removes the line either
way. -/
def Operation.Timely (items current : List CartItem) : Operation → Prop
  | .decrement dishId => hasLine current dishId = true →
      qtyOf items dishId = qtyOf current dishId ∨
        (qtyOf items dishId ≤ 1 ∧ qtyOf current dishId ≤ 1)
  | _ => True

/-- An operation does with the rendered items what it does with the current ones. -/
theorem updater_eq_iff : operation.updater menu items current =
    operation.updater menu current current ↔ operation.Timely items current := by
  cases operation with
  | decrement dishId =>
    simp only [Operation.updater, Operation.Timely, setLine_eq_iff, sub_left_inj,
      sub_nonpos]
  | _ => simp [Operation.updater, Operation.Timely]

/-- Every operation of a batch is timely when its turn comes. -/
def AllTimely (menu : Menu) (items : List CartItem) : List CartItem → List Operation → Prop
  | _, [] => True
  | current, operation :: rest => operation.Timely items current ∧
      AllTimely menu items (operation.updater menu current current) rest

/-- The batch, and each that it starts with, leaves the items that its operations leave one after
another. -/
def LosesNothing (menu : Menu) (items : List CartItem) (operations : List Operation) : Prop :=
  ∀ count, batched menu items (operations.take count) =
    sequential menu items (operations.take count)

theorem allTimely_iff {operations : List Operation} :
    (∀ count, (operations.take count).foldl
        (fun current operation ↦ operation.updater menu items current) current =
      (operations.take count).foldl
        (fun current operation ↦ operation.updater menu current current) current) ↔
      AllTimely menu items current operations := by
  induction operations generalizing current with
  | nil => simp [AllTimely]
  | cons operation rest ih =>
    rw [AllTimely, ← @updater_eq_iff menu]
    constructor
    · intro h
      have hfirst : operation.updater menu items current =
          operation.updater menu current current := by simpa using h 1
      refine ⟨hfirst, ih.mp fun count ↦ ?_⟩
      have hlater := h (count + 1)
      rw [List.take_succ_cons, List.foldl_cons, List.foldl_cons, hfirst] at hlater
      exact hlater
    · rintro ⟨hfirst, hrest⟩ count
      cases count with
      | zero => rfl
      | succ count =>
        rw [List.take_succ_cons, List.foldl_cons, List.foldl_cons, hfirst]
        exact ih.mpr hrest count

/-- **A batch loses no update**, exactly if each `decrement` of it finds what was rendered. -/
theorem losesNothing_iff (menu : Menu) (items : List CartItem) (operations : List Operation) :
    LosesNothing menu items operations ↔ AllTimely menu items items operations :=
  allTimely_iff

/-- The whole batch, if every operation is timely. -/
theorem batched_eq_sequential {operations : List Operation}
    (h : AllTimely menu items items operations) :
    batched menu items operations = sequential menu items operations := by
  have hall := (losesNothing_iff menu items operations).mpr h operations.length
  rw [List.take_length] at hall
  exact hall

/-! ### Decrements -/

/-- A change of the quantities of a dish that has a line changes the one that is shown. -/
theorem qtyOf_map (newQty : ℚ → ℚ) (h : hasLine items dishId = true) :
    let changed := items.map fun item ↦
      if item.dishId = dishId then { item with qty := newQty item.qty } else item
    qtyOf changed dishId = newQty (qtyOf items dishId) ∧ hasLine changed dishId = true := by
  induction items with
  | nil => simp [hasLine] at h
  | cons item rest ih =>
    by_cases hdish : item.dishId = dishId
    · simp [qtyOf, hasLine, hdish]
    · have hrest : hasLine rest dishId = true := by simpa [hasLine, hdish] using h
      simpa [qtyOf, hasLine, hdish] using ih hrest

theorem qtyOf_setLine {qty : ℚ} (hqty : 0 < qty) (h : hasLine items dishId = true) :
    qtyOf (setLine dishId qty items) dishId = qty ∧
      hasLine (setLine dishId qty items) dishId = true := by
  unfold setLine
  rw [if_neg (not_le.mpr hqty)]
  exact qtyOf_map (fun _ ↦ qty) h

theorem qtyOf_addLine (qty : ℚ) (h : hasLine items dishId = true) :
    qtyOf (addLine dishId qty items) dishId = qtyOf items dishId + qty ∧
      hasLine (addLine dishId qty items) dishId = true := by
  unfold addLine
  rw [if_pos h]
  exact qtyOf_map (· + qty) h

theorem hasLine_removeLine : hasLine (removeLine dishId items) dishId = false := by
  simp [hasLine, removeLine]

theorem sequential_decrements_of_not_hasLine (h : ¬ hasLine items dishId = true) (count : ℕ) :
    sequential menu items (List.replicate count (.decrement dishId)) = items := by
  induction count with
  | zero => rfl
  | succ count ih =>
    have hsame := @setLine_of_not_hasLine items dishId (qtyOf items dishId - 1) h
    simp only [sequential, List.replicate_succ, List.foldl_cons, Operation.updater, hsame] at ih ⊢
    exact ih

/-- One after another, decrements lower the quantity one by one, down to no line. -/
theorem sequential_decrements (h : hasLine items dishId = true) (count : ℕ) :
    let left := sequential menu items (List.replicate count (.decrement dishId))
    (count < qtyOf items dishId → qtyOf left dishId = qtyOf items dishId - count ∧
      hasLine left dishId = true) ∧
    (0 < count → qtyOf items dishId ≤ count → hasLine left dishId = false) := by
  induction count generalizing items with
  | zero => simp [sequential, h]
  | succ count ih =>
    let next := setLine dishId (qtyOf items dishId - 1) items
    have hstep : sequential menu items (List.replicate (count + 1) (.decrement dishId)) =
        sequential menu next (List.replicate count (.decrement dishId)) := rfl
    rw [hstep]
    by_cases hone : 1 < qtyOf items dishId
    · obtain ⟨hqty, hline⟩ := qtyOf_setLine (by linarith : 0 < qtyOf items dishId - 1) h
      obtain ⟨hkept, hgone⟩ := ih hline
      rw [hqty] at hkept hgone
      push_cast
      refine ⟨fun hlt ↦ ?_, fun _ hle ↦ hgone ?_ (by linarith)⟩
      · obtain ⟨hleft, hstill⟩ := hkept (by linarith)
        exact ⟨by rw [hleft]; linarith, hstill⟩
      · have hmore : (0 : ℚ) < count := by linarith
        exact_mod_cast hmore
    · have hone' : qtyOf items dishId ≤ 1 := not_lt.mp hone
      have hnext : next = removeLine dishId items := if_pos (by linarith)
      have hnone : hasLine next dishId = false := by rw [hnext, hasLine_removeLine]
      rw [sequential_decrements_of_not_hasLine (by simp [hnone])]
      push_cast
      refine ⟨fun hlt ↦ ?_, fun _ _ ↦ hnone⟩
      have hcount : (0 : ℚ) ≤ count := Nat.cast_nonneg count
      linarith

/-- An increment and then a decrement leave the quantity as it was. -/
theorem sequential_increment_decrement (hmenu : menu.hasDish dishId = true)
    (h : hasLine items dishId = true) (hqty : 0 < qtyOf items dishId) :
    qtyOf (sequential menu items [.increment dishId, .decrement dishId]) dishId =
      qtyOf items dishId := by
  obtain ⟨hadded, hline⟩ := qtyOf_addLine 1 h
  have hpos : 0 < qtyOf (addLine dishId 1 items) dishId - 1 := by linarith
  have hleft := (qtyOf_setLine hpos hline).1
  have hstep : sequential menu items [.increment dishId, .decrement dishId] =
      setLine dishId (qtyOf (addLine dishId 1 items) dishId - 1) (addLine dishId 1 items) := by
    simp [sequential, Operation.updater, hmenu]
  rw [hstep, hleft, hadded, add_sub_cancel_right]

theorem setLine_setLine (dishId : String) (qty : ℚ) (items : List CartItem) :
    setLine dishId qty (setLine dishId qty items) = setLine dishId qty items := by
  unfold setLine removeLine
  by_cases hqty : qty ≤ 0
  · simp [hqty]
  · simp only [if_neg hqty, List.map_map]
    refine List.map_congr_left fun item _ ↦ ?_
    by_cases hdish : item.dishId = dishId <;> simp [hdish]

/-- In a batch, decrements of one dish count once. -/
theorem batched_decrements (count : ℕ) :
    batched menu items (List.replicate (count + 1) (.decrement dishId)) =
      batched menu items [.decrement dishId] := by
  induction count with
  | zero => rfl
  | succ count ih =>
    rw [List.replicate_succ', batched, List.foldl_append]
    change (Operation.decrement dishId).updater menu items
      (batched menu items (List.replicate (count + 1) (.decrement dishId))) = _
    rw [ih]
    exact setLine_setLine dishId _ items

/-! ### A lost update -/

def lunchMenu : Menu := ⟨fun dishId ↦ dishId == "fuego-1", fun _ ↦ none⟩

/-- The button is clicked twice before the next render. -/
def twice : List Operation := [.decrement "fuego-1", .decrement "fuego-1"]

/-- Three platters become two, and not one. -/
theorem not_losesNothing_twice :
    ¬ LosesNothing lunchMenu [⟨"fuego-1", 3⟩] twice := by
  intro h
  have htwo := h 2
  revert htwo
  decide +kernel

end DinnerRush.CustomerWeb.Cart
