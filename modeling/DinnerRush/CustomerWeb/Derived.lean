import DinnerRush.CustomerWeb.Catalog
import DinnerRush.CustomerWeb.PlaceCart
import DinnerRush.CustomerWeb.WellFormed
import Mathlib.Algebra.Order.Floor.Ring
import Mathlib.Data.Rat.Floor

/-!
# The derived view of a cart

The `derived` value of `cart-context.tsx`, and the items that `submitOrder` of `checkout-flow.tsx`
sends. The view groups the lines whose dish is found in one loop, with all of its sums; `placeCart`
groups what `ItemSchema` makes of the items that were sent. Both are groupings of the same lines by
their restaurant, so they agree (`viewAgrees_of_wellFormed`), unless a line is of something that
`dishMap` only inherits: then both loops throw (`derived_eq_none`).

Numbers are exact, but for the products of `Math.round(subtotal * 0.07)` and `* 0.0875`, which are
rounded to doubles first: these are a parameter.
-/

set_option autoImplicit false
set_option relaxedAutoImplicit false

namespace DinnerRush.CustomerWeb.Cart

/-! ### The view -/

/-- `servesAvg` of `utils.ts`. -/
def servesAvg (range : ℤ × ℤ) : ℚ := (range.1 + range.2) / 2

structure DishLine where
  dish : Dish
  qty : ℚ
  deriving DecidableEq, Repr

structure GroupedRestaurant where
  restaurant : Restaurant
  lines : List DishLine := []
  subtotal : ℚ := 0
  servings : ℚ := 0
  deriving DecidableEq, Repr

def GroupedRestaurant.push (group : GroupedRestaurant) (line : DishLine)
    (lineTotal lineServings : ℚ) : GroupedRestaurant :=
  { group with
    lines := group.lines ++ [line]
    subtotal := group.subtotal + lineTotal
    servings := group.servings + lineServings }

/-- The line goes to the entry of `groupMap` for its restaurant, which is set if there is none. -/
def pushLine (restaurant : Restaurant) (line : DishLine) (lineTotal lineServings : ℚ) :
    List GroupedRestaurant → List GroupedRestaurant
  | [] => [({ restaurant } : GroupedRestaurant).push line lineTotal lineServings]
  | group :: rest =>
    if group.restaurant.id = restaurant.id then group.push line lineTotal lineServings :: rest
    else group :: pushLine restaurant line lineTotal lineServings rest

/-- The variables of the loop. -/
structure Totals where
  groupMap : List GroupedRestaurant := []
  subtotal : ℚ := 0
  totalServings : ℚ := 0
  itemCount : ℚ := 0
  deriving DecidableEq, Repr

/-- One turn of the loop, which throws for a dish without a restaurant, and for what is only
inherited: that has no `serves`. -/
def visit (catalog : Catalog) (totals : Totals) (item : CartItem) : Option Totals := do
  let dish ← catalog.dishMap item.dishId
  let restaurant ← catalog.restaurantMap dish.restaurantId
  let lineTotal := dish.price * item.qty
  let lineServings := servesAvg dish.serves * item.qty
  return {
    groupMap := pushLine restaurant ⟨dish, item.qty⟩ lineTotal lineServings totals.groupMap
    subtotal := totals.subtotal + lineTotal
    totalServings := totals.totalServings + lineServings
    itemCount := totals.itemCount + item.qty }

/-- `Math.round(subtotal * 0.07)` and `Math.round(subtotal * 0.0875)`. -/
structure Rounding where
  serviceFee : ℚ → ℤ
  tax : ℚ → ℤ

structure Derived where
  grouped : List GroupedRestaurant
  restaurantIds : List String
  restaurantCount : ℕ
  subtotal : ℚ
  deliveryFee : ℚ
  serviceFee : ℤ
  tax : ℤ
  total : ℚ
  perPerson : ℚ
  totalServings : ℚ
  coverageRatio : ℚ
  covered : Bool
  itemCount : ℚ
  distinctDishes : ℕ
  deriving DecidableEq, Repr

/-- The derived view, unless the loop throws. -/
def derived (rounding : Rounding) (catalog : Catalog) (items : List CartItem) (headcount : ℤ) :
    Option Derived := do
  let valid := items.filter fun item ↦ catalog.hasDish item.dishId
  let totals ← valid.foldlM (visit catalog) {}
  let grouped := totals.groupMap
  let subtotal := totals.subtotal
  let deliveryFee := if subtotal = 0 then 0 else if subtotal ≥ 250 then 0 else 35
  let serviceFee := rounding.serviceFee subtotal
  let tax := rounding.tax subtotal
  let total := subtotal + deliveryFee + serviceFee + tax
  let coverageRatio := if headcount > 0 then totals.totalServings / headcount else 0
  return {
    grouped
    restaurantIds := grouped.map fun group ↦ group.restaurant.id
    restaurantCount := grouped.length
    subtotal
    deliveryFee
    serviceFee
    tax
    total
    perPerson := if headcount > 0 then total / headcount else 0
    totalServings := totals.totalServings
    coverageRatio
    covered := coverageRatio ≥ 1
    itemCount := totals.itemCount
    distinctDishes := valid.length }

/-! ### The items of a checkout -/

/-- An item of the body of `POST /api/orders`. -/
structure SubmittedItem where
  dishId : String
  restaurantId : String
  restaurantName : Option String
  name : Option String
  qty : ℚ
  unitPriceCents : ℤ
  servesMin : ℤ
  servesMax : ℤ
  cuisine : CuisineKey
  deriving DecidableEq, Repr

/-- `Math.round`. -/
def round (number : ℚ) : ℤ := ⌊number + 1 / 2⌋

def submittedItem (catalog : Catalog) (dish : Dish) (qty : ℚ) : SubmittedItem where
  dishId := dish.id
  restaurantId := dish.restaurantId
  restaurantName := (catalog.restaurantMap dish.restaurantId).map Restaurant.name
  name := some dish.name
  qty := qty
  unitPriceCents := round (dish.price * 100)
  servesMin := dish.serves.1
  servesMax := dish.serves.2
  cuisine := dish.cuisine

/-- The items of `submitOrder`, which throws for what is only inherited: that has no `serves`. -/
def submitItems (catalog : Catalog) (items : List CartItem) : Option (List SubmittedItem) :=
  (items.filter fun item ↦ catalog.hasDish item.dishId).mapM fun item ↦
    (catalog.dishMap item.dishId).map (submittedItem catalog · item.qty)

/-- `ItemSchema`. -/
def SubmittedItem.parse (item : SubmittedItem) : Option CartLine :=
  if h : item.dishId ≠ "" ∧ item.restaurantId ≠ "" ∧
      (isInteger item.qty = true ∧ 0 < item.qty) ∧ 0 ≤ item.unitPriceCents then
    some {
      dishId := item.dishId
      restaurantId := item.restaurantId
      name := item.name
      qty := item.qty.num
      unitPriceCents := item.unitPriceCents
      dishId_ne := h.1
      restaurantId_ne := h.2.1
      qty_pos := Rat.num_pos.mpr h.2.2.1.2
      unitPriceCents_nonneg := h.2.2.2 }
  else none

/-! ### The loop -/

/-- A line whose dish is in the catalog, with the restaurant of the dish. -/
structure Portion where
  restaurant : Restaurant
  line : DishLine

def portion (catalog : Catalog) (item : CartItem) : Option Portion := do
  let dish ← catalog.dishMap item.dishId
  let restaurant ← catalog.restaurantMap dish.restaurantId
  return ⟨restaurant, ⟨dish, item.qty⟩⟩

def portions (catalog : Catalog) (items : List CartItem) : List Portion :=
  items.filterMap (portion catalog)

/-- The lines whose dish is in the catalog. -/
def catalogLines (catalog : Catalog) (items : List CartItem) : List DishLine :=
  items.filterMap fun item ↦ (catalog.dishMap item.dishId).map (⟨·, item.qty⟩)

def DishLine.total (line : DishLine) : ℚ := line.dish.price * line.qty

def DishLine.servings (line : DishLine) : ℚ := servesAvg line.dish.serves * line.qty

/-- The view groups the lines of the catalog by their restaurant. -/
def viewGrouping : Grouping String Portion GroupedRestaurant where
  keyOf portion := portion.restaurant.id
  key group := group.restaurant.id
  single portion := ({ restaurant := portion.restaurant } : GroupedRestaurant).push portion.line
    portion.line.total portion.line.servings
  extend group portion := group.push portion.line portion.line.total portion.line.servings
  key_single _ := rfl
  key_extend _ _ := rfl

theorem pushLine_eq (portion : Portion) (groups : List GroupedRestaurant) :
    pushLine portion.restaurant portion.line portion.line.total portion.line.servings groups =
      viewGrouping.insert groups portion := by
  induction groups with
  | nil => rfl
  | cons group rest ih =>
    rw [pushLine, Grouping.insert, ih]
    rfl

variable {catalog : Catalog} {items : List CartItem}

theorem portion_of_dish {item : CartItem} {dish : Dish}
    (h : catalog.dishMap item.dishId = some dish) :
    ∃ restaurant, catalog.restaurantMap dish.restaurantId = some restaurant ∧
      restaurant.id = dish.restaurantId ∧
      portion catalog item = some ⟨restaurant, ⟨dish, item.qty⟩⟩ := by
  obtain ⟨restaurant, hrestaurant, hid⟩ := Catalog.exists_restaurant h
  exact ⟨restaurant, hrestaurant, hid, by simp [portion, h, hrestaurant]⟩

theorem portion_of_not_dish {item : CartItem} (h : catalog.dishMap item.dishId = none) :
    portion catalog item = none := by
  simp [portion, h]

/-- A portion is of the restaurant of its dish, as the catalog has it. -/
theorem of_mem_portions {portion : Portion} (h : portion ∈ portions catalog items) :
    portion.restaurant.id = portion.line.dish.restaurantId ∧
      catalog.restaurantMap portion.restaurant.id = some portion.restaurant := by
  obtain ⟨item, -, hitem⟩ := List.mem_filterMap.mp h
  cases hdish : catalog.dishMap item.dishId with
  | none =>
    rw [portion_of_not_dish hdish] at hitem
    cases hitem
  | some dish =>
    obtain ⟨restaurant, hrestaurant, hid, heq⟩ := portion_of_dish hdish
    obtain rfl := Option.some.inj (heq.symm.trans hitem)
    exact ⟨hid, hid ▸ hrestaurant⟩

theorem map_line_portions (catalog : Catalog) (items : List CartItem) :
    (portions catalog items).map Portion.line = catalogLines catalog items := by
  rw [portions, catalogLines, List.map_filterMap]
  refine List.filterMap_congr fun item _ ↦ ?_
  cases hdish : catalog.dishMap item.dishId with
  | none => rw [portion_of_not_dish hdish]; rfl
  | some dish =>
    obtain ⟨restaurant, -, -, heq⟩ := portion_of_dish hdish
    rw [heq]
    rfl

/-- The loop groups the portions, and sums them up. -/
theorem foldlM_visit (hnamed : ∀ item ∈ items, inherits catalog.dishMap item.dishId = false)
    (totals : Totals) :
    (items.filter fun item ↦ catalog.hasDish item.dishId).foldlM (visit catalog) totals =
      some {
        groupMap := (portions catalog items).foldl viewGrouping.insert totals.groupMap
        subtotal := totals.subtotal + ((portions catalog items).map (·.line.total)).sum
        totalServings :=
          totals.totalServings + ((portions catalog items).map (·.line.servings)).sum
        itemCount := totals.itemCount + ((portions catalog items).map (·.line.qty)).sum } := by
  induction items generalizing totals with
  | nil => simp [portions]
  | cons item rest ih =>
    obtain ⟨hfirst, hrest⟩ := List.forall_mem_cons.mp hnamed
    have hhas := Catalog.hasDish_of_not_inherits hfirst
    cases hdish : catalog.dishMap item.dishId with
    | none =>
      have hnone : portions catalog (item :: rest) = portions catalog rest :=
        List.filterMap_cons_none (portion_of_not_dish hdish)
      rw [hnone, List.filter_cons_of_neg (by simp [hhas, hdish])]
      exact ih hrest totals
    | some dish =>
      obtain ⟨restaurant, hrestaurant, -, heq⟩ := portion_of_dish hdish
      have hsome : portions catalog (item :: rest) =
          ⟨restaurant, ⟨dish, item.qty⟩⟩ :: portions catalog rest := List.filterMap_cons_some heq
      have hvisit : visit catalog totals item = some {
          groupMap := viewGrouping.insert totals.groupMap ⟨restaurant, ⟨dish, item.qty⟩⟩
          subtotal := totals.subtotal + dish.price * item.qty
          totalServings := totals.totalServings + servesAvg dish.serves * item.qty
          itemCount := totals.itemCount + item.qty } := by
        rw [← pushLine_eq]
        simp [visit, hdish, hrestaurant, DishLine.total, DishLine.servings]
      rw [hsome, List.filter_cons_of_pos (by simp [hhas, hdish]), List.foldlM_cons, hvisit]
      refine (ih hrest _).trans ?_
      simp only [List.foldl_cons, List.map_cons, List.sum_cons, DishLine.total, DishLine.servings,
        add_assoc]

/-! ### What the view shows -/

/-- The groups of a view are the lines of the catalog by restaurant, each restaurant with its lines
in the order of the cart, and their sums add up to those of the view. -/
structure Partitions (catalog : Catalog) (items : List CartItem) (view : Derived) : Prop where
  restaurantIds : view.restaurantIds = view.grouped.map (·.restaurant.id)
  nodup : view.restaurantIds.Nodup
  covers : ∀ line ∈ catalogLines catalog items, line.dish.restaurantId ∈ view.restaurantIds
  restaurant : ∀ group ∈ view.grouped,
    catalog.restaurantMap group.restaurant.id = some group.restaurant
  lines : ∀ group ∈ view.grouped, group.lines =
    (catalogLines catalog items).filter fun line ↦ line.dish.restaurantId = group.restaurant.id
  lines_ne : ∀ group ∈ view.grouped, group.lines ≠ []
  group_subtotal : ∀ group ∈ view.grouped, group.subtotal = (group.lines.map DishLine.total).sum
  group_servings : ∀ group ∈ view.grouped, group.servings = (group.lines.map DishLine.servings).sum
  subtotal : (view.grouped.map GroupedRestaurant.subtotal).sum = view.subtotal
  servings : (view.grouped.map GroupedRestaurant.servings).sum = view.totalServings
  quantities : (view.grouped.map fun group ↦ (group.lines.map DishLine.qty).sum).sum =
    view.itemCount

/-- A total of the lines that is kept with each group is the total of the group's lines. -/
theorem sum_lines_of {M : Type} [AddCommMonoid M] (total : GroupedRestaurant → M)
    (amount : DishLine → M)
    (hsingle : ∀ portion, total (viewGrouping.single portion) = amount portion.line)
    (hextend : ∀ group portion,
      total (viewGrouping.extend group portion) = total group + amount portion.line)
    (portions : List Portion) :
    ∀ group ∈ viewGrouping.of portions, total group = (group.lines.map amount).sum := by
  refine Grouping.forall_of (fun portion _ ↦ ?_) fun group portion hgroup ↦ ?_
  · exact (hsingle portion).trans (add_zero _).symm
  · rw [hextend, hgroup]
    change _ = ((group.lines ++ [portion.line]).map amount).sum
    rw [List.map_append, List.sum_append, List.map_singleton, List.sum_singleton]

/-- The view is there, and partitions the lines. -/
theorem exists_derived (rounding : Rounding)
    (hnamed : ∀ item ∈ items, inherits catalog.dishMap item.dishId = false) (headcount : ℤ) :
    ∃ view, derived rounding catalog items headcount = some view ∧
      view.grouped = viewGrouping.of (portions catalog items) ∧ Partitions catalog items view := by
  have hpartition := viewGrouping.partition_of (portions catalog items)
  have hlines := map_line_portions catalog items
  rw [derived, foldlM_visit hnamed]
  refine ⟨_, rfl, rfl, ?_⟩
  exact {
    restaurantIds := rfl
    nodup := hpartition.nodup
    covers := by
      intro line hline
      rw [← hlines] at hline
      obtain ⟨portion, hportion, rfl⟩ := List.mem_map.mp hline
      rw [← (of_mem_portions hportion).1]
      exact hpartition.covers portion hportion
    restaurant := Grouping.forall_of (fun portion hportion ↦ (of_mem_portions hportion).2)
      fun _ _ hgroup ↦ hgroup
    lines := by
      intro group hgroup
      rw [Grouping.lines_of GroupedRestaurant.lines Portion.line (fun _ ↦ rfl) (fun _ _ ↦ rfl)
        hgroup, ← hlines, List.filter_map]
      refine congrArg _ (List.filter_congr fun portion hportion ↦ ?_)
      exact decide_eq_decide.mpr (by rw [← (of_mem_portions hportion).1]; rfl)
    lines_ne := Grouping.forall_of (fun _ _ ↦ List.cons_ne_nil _ _)
      fun _ _ _ ↦ List.append_ne_nil_of_right_ne_nil _ (List.cons_ne_nil _ _)
    group_subtotal := sum_lines_of GroupedRestaurant.subtotal DishLine.total
      (fun _ ↦ zero_add _) (fun _ _ ↦ rfl) _
    group_servings := sum_lines_of GroupedRestaurant.servings DishLine.servings
      (fun _ ↦ zero_add _) (fun _ _ ↦ rfl) _
    subtotal := (Grouping.sum_of GroupedRestaurant.subtotal (·.line.total) (fun _ ↦ zero_add _)
      (fun _ _ ↦ rfl) _).trans (zero_add _).symm
    servings := (Grouping.sum_of GroupedRestaurant.servings (·.line.servings) (fun _ ↦ zero_add _)
      (fun _ _ ↦ rfl) _).trans (zero_add _).symm
    quantities := by
      refine (Grouping.sum_of _ (·.line.qty) (fun _ ↦ add_zero _) (fun group portion ↦ ?_) _).trans
        (zero_add _).symm
      change ((group.lines ++ [portion.line]).map DishLine.qty).sum = _
      rw [List.map_append, List.sum_append, List.map_singleton, List.sum_singleton] }

/-- A line of what is only inherited throws. -/
theorem derived_eq_none (rounding : Rounding) {item : CartItem} (hitem : item ∈ items)
    (hinherits : inherits catalog.dishMap item.dishId = true) (headcount : ℤ) :
    derived rounding catalog items headcount = none := by
  have hnone : catalog.dishMap item.dishId = none := by
    simpa using (Bool.and_eq_true_iff.mp hinherits).1
  have hloop : ∀ totals,
      (items.filter fun item ↦ catalog.hasDish item.dishId).foldlM (visit catalog) totals =
        none := by
    induction items with
    | nil => cases hitem
    | cons first rest ih =>
      intro totals
      rcases List.mem_cons.mp hitem with rfl | hrest
      · rw [List.filter_cons_of_pos (by simp [Catalog.hasDish, hinherits]), List.foldlM_cons]
        simp [visit, hnone]
      · by_cases hhas : catalog.hasDish first.dishId = true
        · rw [List.filter_cons_of_pos (by simpa using hhas), List.foldlM_cons]
          cases visit catalog totals first with
          | none => rfl
          | some totals' => exact ih hrest totals'
        · rw [List.filter_cons_of_neg (by simpa using hhas)]
          exact ih hrest totals
  rw [derived, hloop]
  rfl

/-! ### The view and the orders -/

/-- A line of a whole quantity as ingestion gets it. -/
def DishLine.item (line : DishLine) : Item :=
  ⟨line.dish.name, line.qty.num, round (line.dish.price * 100)⟩

/-- `ItemSchema` accepts the item of a line with a positive whole quantity, and keeps what ingestion
gets. -/
theorem parse_submittedItem {dishId : String} {dish : Dish}
    (h : catalog.dishMap dishId = some dish) {qty : ℚ} (hwhole : isInteger qty = true)
    (hqty : 1 ≤ qty) :
    ∃ line, (submittedItem catalog dish qty).parse = some line ∧
      (line.restaurantId, line.ingestItem.modelDump) =
        (dish.restaurantId, DishLine.item ⟨dish, qty⟩) := by
  have hdish := (fromEntries_eq_some h).1
  obtain ⟨restaurant, hrestaurant, hid⟩ := Catalog.exists_restaurant h
  have hlisted := (fromEntries_eq_some hrestaurant).1
  have hprice : 0 ≤ round (dish.price * 100) := by
    refine Int.floor_nonneg.mpr (add_nonneg (mul_nonneg ?_ ?_) ?_)
    · exact catalog.price_nonneg dish hdish
    · norm_num
    · norm_num
  have hpos : 0 < qty := zero_lt_one.trans_le hqty
  refine ⟨_, dif_pos ⟨catalog.dishId_ne dish hdish, ?_, ⟨hwhole, hpos⟩, hprice⟩, rfl⟩
  exact fun hempty ↦ catalog.restaurantId_ne restaurant hlisted (hid.trans hempty)

/-- So it accepts all items that the checkout of a well-formed cart sends. -/
theorem mapM_parse_submitItems (hqty : ∀ item ∈ items, 1 ≤ item.qty)
    (hwhole : ∀ item ∈ items, isInteger item.qty = true)
    (hnamed : ∀ item ∈ items, inherits catalog.dishMap item.dishId = false) :
    ∃ submitted lines, submitItems catalog items = some submitted ∧
      submitted.mapM SubmittedItem.parse = some lines ∧
      lines.map (fun line ↦ (line.restaurantId, line.ingestItem.modelDump)) =
        (catalogLines catalog items).map fun line ↦ (line.dish.restaurantId, line.item) := by
  induction items with
  | nil => exact ⟨[], [], rfl, rfl, rfl⟩
  | cons item rest ih =>
    obtain ⟨hone, hqty⟩ := List.forall_mem_cons.mp hqty
    obtain ⟨hinteger, hwhole⟩ := List.forall_mem_cons.mp hwhole
    obtain ⟨hfirst, hnamed⟩ := List.forall_mem_cons.mp hnamed
    obtain ⟨submitted, lines, hsubmitted, hlines, hmap⟩ := ih hqty hwhole hnamed
    have hhas := Catalog.hasDish_of_not_inherits hfirst
    cases hdish : catalog.dishMap item.dishId with
    | none =>
      have hskip : catalogLines catalog (item :: rest) = catalogLines catalog rest :=
        List.filterMap_cons_none (by rw [hdish]; rfl)
      rw [submitItems, List.filter_cons_of_neg (by simp [hhas, hdish]), hskip]
      exact ⟨submitted, lines, hsubmitted, hlines, hmap⟩
    | some dish =>
      have htake : catalogLines catalog (item :: rest) =
          ⟨dish, item.qty⟩ :: catalogLines catalog rest :=
        List.filterMap_cons_some (by rw [hdish]; rfl)
      obtain ⟨line, hline, hsame⟩ := parse_submittedItem hdish hinteger hone
      refine ⟨submittedItem catalog dish item.qty :: submitted, line :: lines, ?_, ?_, ?_⟩
      · rw [submitItems] at hsubmitted
        rw [submitItems, List.filter_cons_of_pos (by simp [hhas, hdish]), List.mapM_cons, hdish,
          hsubmitted]
        rfl
      · rw [List.mapM_cons, hline, hlines]
        rfl
      · rw [htake, List.map_cons, List.map_cons, hsame, hmap]

/-- The restaurants, and for each of them the lines as ingestion gets them. -/
def Derived.orders (view : Derived) : List (String × List Item) :=
  view.grouped.map fun group ↦ (group.restaurant.id, group.lines.map DishLine.item)

/-- The groups of the view are those that `placeCart` makes of the items that the checkout sends. -/
theorem orders_eq {lines : List CartLine} {view : Derived}
    (hlines : lines.map (fun line ↦ (line.restaurantId, line.ingestItem.modelDump)) =
      (catalogLines catalog items).map fun line ↦ (line.dish.restaurantId, line.item))
    (hview : view.grouped = viewGrouping.of (portions catalog items)) :
    view.orders = (byRestaurant lines).map fun group ↦
      (group.restaurantId, group.items.map OrderItem.modelDump) := by
  have hpairs : (portions catalog items).map (fun portion ↦
      (portion.restaurant.id, portion.line.item)) =
      lines.map fun line ↦ (line.restaurantId, line.ingestItem.modelDump) := by
    rw [hlines, ← map_line_portions, List.map_map]
    refine List.map_congr_left fun portion hportion ↦ ?_
    exact congrArg (·, portion.line.item) (of_mem_portions hportion).1
  calc view.orders
      = (Grouping.pairs String Item).of ((portions catalog items).map fun portion ↦
          (portion.restaurant.id, portion.line.item)) := by
        rw [Derived.orders, hview]
        refine Grouping.map_of (G := viewGrouping) (H := .pairs String Item)
          (fun portion ↦ (portion.restaurant.id, portion.line.item))
          (fun group ↦ (group.restaurant.id, group.lines.map DishLine.item))
          (fun _ _ ↦ Iff.rfl) (fun _ ↦ rfl) (fun group portion ↦ ?_) _
        exact congrArg (group.restaurant.id, ·) List.map_append
    _ = (Grouping.pairs String Item).of (lines.map fun line ↦
          (line.restaurantId, line.ingestItem.modelDump)) := by rw [hpairs]
    _ = (byRestaurant lines).map fun group ↦
          (group.restaurantId, group.items.map OrderItem.modelDump) := by
        rw [byRestaurant_eq]
        refine (Grouping.map_of (G := cartGrouping) (H := .pairs String Item)
          (fun line ↦ (line.restaurantId, line.ingestItem.modelDump))
          (fun group ↦ (group.restaurantId, group.items.map OrderItem.modelDump))
          (fun _ _ ↦ Iff.rfl) (fun _ ↦ rfl) (fun group line ↦ ?_) _).symm
        exact congrArg (group.restaurantId, ·) List.map_append

/-- The derived view of some items is there and partitions their lines, and its restaurants and
their lines are those of the orders that `placeCart` makes of the items that the checkout sends. -/
def ViewAgrees (rounding : Rounding) (catalog : Catalog) (headcount : ℤ) (items : List CartItem) :
    Prop :=
  ∃ view submitted lines, derived rounding catalog items headcount = some view ∧
    Partitions catalog items view ∧
    submitItems catalog items = some submitted ∧
    submitted.mapM SubmittedItem.parse = some lines ∧
    view.orders = (byRestaurant lines).map fun group ↦
      (group.restaurantId, group.items.map OrderItem.modelDump)

theorem viewAgrees_of_wellFormed (rounding : Rounding) (headcount : ℤ)
    (h : WellFormed catalog items) : ViewAgrees rounding catalog headcount items := by
  obtain ⟨view, hview, hgrouped, hpartition⟩ := exists_derived rounding h.named headcount
  obtain ⟨submitted, lines, hsubmitted, hlines, hmap⟩ :=
    mapM_parse_submitItems h.one_le h.whole h.named
  exact ⟨view, submitted, lines, hview, hpartition, hsubmitted, hlines, orders_eq hmap hgrouped⟩

/-- The products rounded to whole dollars without a double in between. -/
def exact : Rounding where
  serviceFee subtotal := round (subtotal * 7 / 100)
  tax subtotal := round (subtotal * 875 / 10000)

/-- A cart that is changed a few times. -/
def changes : List Operation :=
  [.add "nonna-1" 2, .addBundle "b-fiesta", .decrement "sakura-1", .setQty "verde-2" 3,
    .increment "fuego-1", .add "nobody-1" 4, .remove "fuego-4"]

end DinnerRush.CustomerWeb.Cart
