import DinnerRush.CustomerWeb.Derived
import Mathlib.Algebra.Order.BigOperators.Group.List
import Mathlib.Data.List.Forall2

/-!
# Ordering by package

The packages of `customer-web/src/lib/data.ts` and `app/packages/[slug]/configurator.tsx`: the guest
counter, the options chosen in each section, the quantity of each tray for the guests, and what is
put into the cart. Whatever is clicked, a section never has more than its maximum
(`Configurator.Fits`). What is put into a cart adds the amount that was shown, and each of its trays
alone is enough for the guests (`packageAdded`).
-/

set_option autoImplicit false
set_option relaxedAutoImplicit false

namespace DinnerRush.CustomerWeb

open Cart

/-! ### The packages -/

structure PackageSection where
  maxSelections : ℕ
  /-- The `dishId` of each option. -/
  options : List String
  deriving DecidableEq, Repr

/-- A package with something to choose from, of dishes that are in the catalog. -/
structure CateringPackage (catalog : Catalog) where
  slug : String
  minGuests : ℤ
  sections : List PackageSection
  one_le_minGuests : 1 ≤ minGuests
  minGuests_le : minGuests ≤ 500
  sections_ne : sections ≠ []
  offered : ∀ sect ∈ sections, ∀ dishId ∈ sect.options, (catalog.dishMap dishId).isSome

def indianFeast : CateringPackage Catalog.storefront where
  slug := "indian-feast-package"
  minGuests := 20
  sections :=
    [⟨2, ["saffron-1", "saffron-2", "saffron-3"]⟩,
      ⟨1, ["saffron-4", "olive-1"]⟩,
      ⟨1, ["verde-3", "olive-4"]⟩]
  one_le_minGuests := by decide
  minGuests_le := by decide
  sections_ne := List.cons_ne_nil _ _
  offered := by decide +kernel

def tacoBar : CateringPackage Catalog.storefront where
  slug := "taco-bar-package"
  minGuests := 15
  sections :=
    [⟨1, ["fuego-1", "fuego-2"]⟩,
      ⟨2, ["fuego-3", "fuego-4", "verde-2"]⟩,
      ⟨1, ["verde-4", "nonna-4"]⟩]
  one_le_minGuests := by decide
  minGuests_le := by decide
  sections_ne := List.cons_ne_nil _ _
  offered := by decide +kernel

def italianDinner : CateringPackage Catalog.storefront where
  slug := "italian-dinner-package"
  minGuests := 12
  sections :=
    [⟨2, ["nonna-1", "nonna-2", "slice-1", "slice-2"]⟩,
      ⟨1, ["nonna-3", "slice-3", "slice-4"]⟩,
      ⟨1, ["nonna-4"]⟩]
  one_le_minGuests := by decide
  minGuests_le := by decide
  sections_ne := List.cons_ne_nil _ _
  offered := by decide +kernel

def healthyLunch : CateringPackage Catalog.storefront where
  slug := "healthy-lunch-package"
  minGuests := 10
  sections :=
    [⟨1, ["verde-1"]⟩,
      ⟨1, ["verde-2", "olive-4"]⟩,
      ⟨1, ["verde-3", "sakura-4"]⟩,
      ⟨1, ["verde-4"]⟩]
  one_le_minGuests := by decide
  minGuests_le := by decide
  sections_ne := List.cons_ne_nil _ _
  offered := by decide +kernel

def packages : List (CateringPackage Catalog.storefront) :=
  [indianFeast, tacoBar, italianDinner, healthyLunch]

def packageMap : String → Option (CateringPackage Catalog.storefront) :=
  fromEntries CateringPackage.slug packages

/-! ### The configurator -/

/-- The state of a `PackageConfigurator`: the guests, and the dishes chosen in each section. -/
structure Configurator where
  guests : ℤ
  sel : List (List String)
  deriving DecidableEq, Repr

/-- The selection of one section after a click on one of its options. -/
def toggleOption (max : ℕ) (dishId : String) (cur : List String) : List String :=
  if max = 1 then if dishId ∈ cur then [] else [dishId]
  else if dishId ∈ cur then cur.filter (· ≠ dishId)
  else if cur.length < max then cur ++ [dishId]
  else cur

/-- A click on one of the buttons for the guests sets what it computes from the guests that are
shown; the one on an option queues an updater. -/
inductive Click
  | guests (count : ℤ)
  | option (si index : ℕ)
  deriving DecidableEq, Repr

section Configurator

variable {catalog : Catalog} (pkg : CateringPackage catalog)

def Configurator.start : Configurator where
  guests := max pkg.minGuests 20
  sel := pkg.sections.map fun _ ↦ []

def setGuestCount (count : ℤ) : ℤ := max pkg.minGuests (min 500 count)

/-- The updater of `toggle`. -/
def toggle (si : ℕ) (dishId : String) (prev : List (List String)) : List (List String) :=
  prev.mapIdx fun i cur ↦
    if i ≠ si then cur
    else (pkg.sections[si]?).elim cur fun sect ↦ toggleOption sect.maxSelections dishId cur

def Configurator.click (conf : Configurator) : Click → Configurator
  | .guests count => { conf with guests := setGuestCount pkg count }
  | .option si index =>
    match (pkg.sections[si]?).bind fun sect ↦ sect.options[index]? with
    | some dishId => { conf with sel := toggle pkg si dishId conf.sel }
    | none => conf

/-- The configurator after some clicks. -/
def clicked (clicks : List Click) : Configurator := clicks.foldl (·.click pkg) (.start pkg)

end Configurator

namespace Configurator

variable (catalog : Catalog) (conf : Configurator)

/-- How many trays of a dish the guests need. -/
def qtyFor (dishId : String) : Option ℤ := do
  let dish ← catalog.dishMap dishId
  return max 1 ⌈conf.guests / servesAvg dish.serves⌉

def chosen : List String := conf.sel.flatten

def estTotal : Option ℚ :=
  conf.chosen.foldlM (fun sum dishId ↦ do
    let dish ← catalog.dishMap dishId
    let qty ← conf.qtyFor catalog dishId
    return sum + dish.price * qty) 0

/-- The button is enabled. -/
def valid : Bool := conf.sel.all fun selection ↦ decide (selection.length ≥ 1)

/-- The calls that `addToBundle` makes through the rendered cart, after `setHeadcount`. -/
def addToBundle : Option (List Operation) :=
  conf.chosen.mapM fun dishId ↦ do
    let qty ← conf.qtyFor catalog dishId
    return .add dishId qty

end Configurator

/-- `setHeadcount` of the cart. -/
def setHeadcount (count : ℤ) : ℤ := max 1 (min 500 count)

/-! ### What is chosen -/

/-- The dishes that are chosen in a section are different options of it, not too many of them. -/
structure Selects (sect : PackageSection) (selection : List String) : Prop where
  nodup : selection.Nodup
  subset : selection ⊆ sect.options
  length_le : selection.length ≤ sect.maxSelections

/-- The guests are in the range of the package, and every section has a selection of its own. -/
structure Configurator.Fits {catalog : Catalog} (pkg : CateringPackage catalog)
    (conf : Configurator) : Prop where
  minGuests_le : pkg.minGuests ≤ conf.guests
  guests_le : conf.guests ≤ 500
  sel : List.Forall₂ Selects pkg.sections conf.sel

theorem Selects.toggle {sect : PackageSection} {selection : List String} {dishId : String}
    (h : Selects sect selection) (hoption : dishId ∈ sect.options) :
    Selects sect (toggleOption sect.maxSelections dishId selection) := by
  unfold toggleOption
  split_ifs with hone hmem hmem hlt
  · exact ⟨List.nodup_nil, List.nil_subset _, Nat.zero_le _⟩
  · exact ⟨List.nodup_singleton _, by simpa using hoption, hone.ge⟩
  · exact ⟨h.nodup.filter _, List.Subset.trans (List.filter_subset_self _) h.subset,
      (List.length_filter_le _ _).trans h.length_le⟩
  · refine ⟨?_, List.append_subset.mpr ⟨h.subset, by simpa using hoption⟩, ?_⟩
    · rw [← List.concat_eq_append]
      exact h.nodup.concat hmem
    · rw [List.length_append]
      exact hlt
  · exact h

section Fits

variable {catalog : Catalog} {pkg : CateringPackage catalog} {conf : Configurator}

theorem Configurator.fits_start : (Configurator.start pkg).Fits pkg where
  minGuests_le := le_max_left _ _
  guests_le := max_le pkg.minGuests_le (by decide)
  sel := by
    rw [start, List.forall₂_map_right_iff]
    exact List.forall₂_same.mpr fun _ _ ↦
      ⟨List.nodup_nil, List.nil_subset _, Nat.zero_le _⟩

theorem Configurator.Fits.click (h : conf.Fits pkg) (click : Click) :
    (conf.click pkg click).Fits pkg := by
  cases click with
  | guests count =>
    exact ⟨le_max_left _ _, max_le pkg.minGuests_le (min_le_left _ _), h.sel⟩
  | option si index =>
    rw [Configurator.click]
    split
    · rename_i dishId hdish
      obtain ⟨sect, hsect, hoption⟩ := Option.bind_eq_some_iff.mp hdish
      refine ⟨h.minGuests_le, h.guests_le, ?_⟩
      obtain ⟨hlength, hselects⟩ := List.forall₂_iff_get.mp h.sel
      refine List.forall₂_iff_get.mpr ⟨by simpa [toggle] using hlength, fun i hi hi' ↦ ?_⟩
      have hi'' : i < conf.sel.length := hlength ▸ hi
      have hold : Selects (pkg.sections.get ⟨i, hi⟩) (conf.sel.get ⟨i, hi''⟩) := hselects i hi hi''
      by_cases hsame : i = si
      · subst hsame
        have hget : pkg.sections.get ⟨i, hi⟩ = sect := by
          rw [List.getElem?_eq_getElem hi] at hsect
          exact Option.some.inj hsect
        rw [hget] at hold ⊢
        simpa [toggle, hsect] using hold.toggle (List.mem_of_getElem? hoption)
      · simpa [toggle, hsame] using hold
    · exact h

/-- Whatever is clicked. -/
theorem Configurator.fits_clicked (clicks : List Click) : (clicked pkg clicks).Fits pkg := by
  induction clicks using List.reverseRecOn with
  | nil => exact fits_start
  | append_singleton clicks click ih =>
    rw [clicked, List.foldl_append]
    exact ih.click click

/-- What is chosen is in the catalog. -/
theorem Configurator.Fits.exists_dish (h : conf.Fits pkg) {dishId : String}
    (hchosen : dishId ∈ conf.chosen) : ∃ dish, catalog.dishMap dishId = some dish := by
  obtain ⟨selection, hselection, hmem⟩ := List.mem_flatten.mp hchosen
  obtain ⟨sect, hsect, hselects⟩ : ∃ sect ∈ pkg.sections, Selects sect selection := by
    obtain ⟨i, hi, rfl⟩ := List.getElem_of_mem hselection
    obtain ⟨hlength, hget⟩ := List.forall₂_iff_get.mp h.sel
    exact ⟨pkg.sections[i], List.getElem_mem _, hget i (hlength ▸ hi) hi⟩
  exact Option.isSome_iff_exists.mp (pkg.offered sect hsect dishId (hselects.subset hmem))

/-- When the button is enabled, something is chosen. -/
theorem Configurator.Fits.exists_chosen (h : conf.Fits pkg) (hvalid : conf.valid = true) :
    ∃ dishId, dishId ∈ conf.chosen := by
  have hlength : 0 < conf.sel.length := by
    rw [← h.sel.length_eq]
    exact List.length_pos_of_ne_nil pkg.sections_ne
  have hfirst := List.getElem_mem hlength
  have hsome : 1 ≤ conf.sel[0].length := of_decide_eq_true (List.all_eq_true.mp hvalid _ hfirst)
  exact ⟨conf.sel[0][0], List.mem_flatten.mpr ⟨_, hfirst, List.getElem_mem hsome⟩⟩

end Fits

/-! ### What a cart amounts to -/

/-- The sum of the quantities, each with the weight of its dish. -/
def amount (weight : String → ℚ) (items : List CartItem) : ℚ :=
  (items.map fun item ↦ weight item.dishId * item.qty).sum

/-- What a dish is worth, if it is in the catalog. -/
def worth (catalog : Catalog) (value : Dish → ℚ) (dishId : String) : ℚ :=
  (catalog.dishMap dishId).elim 0 value

section Amount

variable {catalog : Catalog} {items : List CartItem} {weight : String → ℚ} {dishId : String}

@[simp] theorem amount_nil : amount weight [] = 0 := rfl

@[simp] theorem amount_cons (item : CartItem) (rest : List CartItem) :
    amount weight (item :: rest) = weight item.dishId * item.qty + amount weight rest := by
  rw [amount, List.map_cons, List.sum_cons, amount]

theorem addLine_cons_of_ne {item : CartItem} (hne : item.dishId ≠ dishId) (qty : ℚ)
    (rest : List CartItem) :
    addLine dishId qty (item :: rest) = item :: addLine dishId qty rest := by
  have hline : hasLine (item :: rest) dishId = hasLine rest dishId := by simp [hasLine, hne]
  unfold addLine
  rw [hline, List.map_cons, if_neg hne, List.cons_append]
  split <;> rfl

/-- More of a dish that has at most one line. -/
theorem amount_addLine (h : (items.map CartItem.dishId).Nodup) (qty : ℚ) :
    amount weight (addLine dishId qty items) = amount weight items + weight dishId * qty := by
  induction items with
  | nil => simp [addLine, hasLine]
  | cons item rest ih =>
    obtain ⟨hnot, hrest⟩ := List.nodup_cons.mp h
    by_cases hdish : item.dishId = dishId
    · subst hdish
      have hnone : ¬ hasLine rest item.dishId = true := by
        rw [hasLine_iff]
        rintro ⟨other, hother, hsame⟩
        exact hnot (List.mem_map.mpr ⟨other, hother, hsame⟩)
      have hadded : addLine item.dishId qty (item :: rest) =
          { item with qty := item.qty + qty } :: rest := by
        have hline : hasLine (item :: rest) item.dishId = true := by simp [hasLine]
        rw [addLine, if_pos hline, List.map_cons, if_pos rfl, map_of_not_hasLine hnone]
      rw [hadded, amount_cons, amount_cons]
      ring
    · rw [addLine_cons_of_ne hdish, amount_cons, amount_cons, ih hrest]
      ring

theorem qtyOf_nonneg (h : WellFormed catalog items) (dishId : String) : 0 ≤ qtyOf items dishId := by
  unfold qtyOf
  cases hfind : items.find? fun item ↦ item.dishId == dishId with
  | none => exact le_rfl
  | some item => exact zero_le_one.trans (h.one_le item (List.mem_of_find?_eq_some hfind))

/-- The line of a dish is some of the whole. -/
theorem mul_qtyOf_le_amount (hweight : ∀ dishId, 0 ≤ weight dishId)
    (h : WellFormed catalog items)
    (dishId : String) : weight dishId * qtyOf items dishId ≤ amount weight items := by
  have hparts : ∀ part ∈ items.map fun item ↦ weight item.dishId * item.qty, 0 ≤ part := by
    intro part hpart
    obtain ⟨item, hitem, rfl⟩ := List.mem_map.mp hpart
    exact mul_nonneg (hweight _) (zero_le_one.trans (h.one_le item hitem))
  unfold qtyOf
  cases hfind : items.find? fun item ↦ item.dishId == dishId with
  | none => exact (mul_zero _).trans_le (List.sum_nonneg hparts)
  | some item =>
    obtain rfl : item.dishId = dishId := by simpa using List.find?_some hfind
    exact List.single_le_sum hparts _ (List.mem_map_of_mem (List.mem_of_find?_eq_some hfind))

/-- The lines of the catalog are all that is worth something. -/
theorem sum_catalogLines (value : Dish → ℚ) (items : List CartItem) :
    ((catalogLines catalog items).map fun line ↦ value line.dish * line.qty).sum =
      amount (worth catalog value) items := by
  induction items with
  | nil => rfl
  | cons item rest ih =>
    rw [amount_cons, ← ih, catalogLines, worth]
    cases hdish : catalog.dishMap item.dishId with
    | none =>
      rw [List.filterMap_cons_none (by rw [hdish]; rfl)]
      simp [catalogLines]
    | some dish =>
      rw [List.filterMap_cons_some (by rw [hdish]; rfl), List.map_cons, List.sum_cons]
      rfl

/-- The sums of the view. -/
theorem sums_of_derived {rounding : Rounding} {headcount : ℤ} {view : Derived}
    (hnamed : ∀ item ∈ items, inherits catalog.dishMap item.dishId = false)
    (h : derived rounding catalog items headcount = some view) :
    view.subtotal = amount (worth catalog Dish.price) items ∧
      view.totalServings = amount (worth catalog fun dish ↦ servesAvg dish.serves) items ∧
      (0 < headcount → headcount ≤ view.totalServings → view.covered = true) := by
  have hsum (value : DishLine → ℚ) : ((portions catalog items).map fun portion ↦
      value portion.line).sum = ((catalogLines catalog items).map value).sum := by
    rw [← map_line_portions, List.map_map]
    rfl
  rw [derived, foldlM_visit hnamed] at h
  obtain rfl := Option.some.inj h
  refine ⟨?_, ?_, fun hpos hle ↦ ?_⟩
  · exact (zero_add _).trans ((hsum DishLine.total).trans (sum_catalogLines Dish.price items))
  · exact (zero_add _).trans ((hsum DishLine.servings).trans
      (sum_catalogLines (fun dish ↦ servesAvg dish.serves) items))
  · have hheadcount : (0 : ℚ) < headcount := by exact_mod_cast hpos
    simp only [hpos, if_true]
    exact decide_eq_true ((one_le_div hheadcount).mpr hle)

/-- The quantity of a dish is an amount, too. -/
theorem qtyOf_eq_amount (h : (items.map CartItem.dishId).Nodup) :
    qtyOf items dishId = amount (fun other ↦ if other = dishId then 1 else 0) items := by
  induction items with
  | nil => rfl
  | cons item rest ih =>
    obtain ⟨hnot, hrest⟩ := List.nodup_cons.mp h
    rw [amount_cons, ← ih hrest]
    by_cases hdish : item.dishId = dishId
    · subst hdish
      have hnone : qtyOf rest item.dishId = 0 := by
        rw [qtyOf, List.find?_eq_none.mpr]
        · rfl
        · intro other hother hsame
          exact hnot (List.mem_map.mpr ⟨other, hother, by simpa using hsame⟩)
      have hfirst : qtyOf (item :: rest) item.dishId = item.qty := by simp [qtyOf]
      simp [hnone, hfirst]
    · simp [hdish, qtyOf]

end Amount

/-! ### Adding a package -/

/-- The trays of a dish that is in the catalog. -/
def Configurator.trays (catalog : Catalog) (conf : Configurator) (dishId : String) : ℤ :=
  (conf.qtyFor catalog dishId).getD 1

section Adding

variable {catalog : Catalog} {conf : Configurator} {items : List CartItem} {dishId : String}

theorem Configurator.qtyFor_eq {dish : Dish} (h : catalog.dishMap dishId = some dish) :
    conf.qtyFor catalog dishId = some (conf.trays catalog dishId) ∧
      conf.trays catalog dishId = max 1 ⌈conf.guests / servesAvg dish.serves⌉ := by
  have hqty : conf.qtyFor catalog dishId = some (max 1 ⌈conf.guests / servesAvg dish.serves⌉) := by
    rw [qtyFor, h]
    rfl
  rw [trays, hqty]
  exact ⟨rfl, rfl⟩

theorem Configurator.one_le_trays (catalog : Catalog) (conf : Configurator) (dishId : String) :
    1 ≤ conf.trays catalog dishId := by
  cases hdish : catalog.dishMap dishId with
  | none => rw [trays, qtyFor, hdish]; rfl
  | some dish =>
    rw [(qtyFor_eq hdish).2]
    exact le_max_left _ _

/-- The trays are enough for the guests, and one less is not. -/
theorem Configurator.trays_enough {dish : Dish} (h : catalog.dishMap dishId = some dish)
    (hserves : 0 < servesAvg dish.serves) :
    conf.guests ≤ servesAvg dish.serves * conf.trays catalog dishId ∧
      (1 < conf.trays catalog dishId →
        servesAvg dish.serves * (conf.trays catalog dishId - 1) < conf.guests) := by
  rw [(qtyFor_eq h).2]
  constructor
  · rw [mul_comm, ← div_le_iff₀ hserves]
    refine (Int.le_ceil _).trans ?_
    exact_mod_cast le_max_right _ _
  · intro hmore
    rw [max_eq_right ((lt_max_iff.mp hmore).resolve_left (lt_irrefl 1)).le, mul_comm,
      ← lt_div_iff₀ hserves]
    linarith [Int.ceil_lt_add_one ((conf.guests : ℚ) / servesAvg dish.serves)]

theorem Configurator.addToBundle_eq
    (hdish : ∀ dishId ∈ conf.chosen, ∃ dish, catalog.dishMap dishId = some dish) :
    conf.addToBundle catalog =
      some (conf.chosen.map fun dishId ↦ .add dishId (conf.trays catalog dishId)) := by
  rw [addToBundle]
  revert hdish
  generalize conf.chosen = chosen
  intro hdish
  induction chosen with
  | nil => rfl
  | cons dishId rest ih =>
    obtain ⟨⟨dish, hfirst⟩, hrest⟩ := List.forall_mem_cons.mp hdish
    rw [List.mapM_cons, (qtyFor_eq hfirst).1, ih hrest]
    rfl

theorem Configurator.estTotal_eq
    (hdish : ∀ dishId ∈ conf.chosen, ∃ dish, catalog.dishMap dishId = some dish) :
    conf.estTotal catalog = some (conf.chosen.map fun dishId ↦
      worth catalog Dish.price dishId * conf.trays catalog dishId).sum := by
  rw [estTotal, ← zero_add (List.sum _)]
  revert hdish
  generalize conf.chosen = chosen, (0 : ℚ) = start
  intro hdish
  induction chosen generalizing start with
  | nil => simp
  | cons dishId rest ih =>
    obtain ⟨⟨dish, hfirst⟩, hrest⟩ := List.forall_mem_cons.mp hdish
    rw [List.foldlM_cons, hfirst, (qtyFor_eq hfirst).1]
    refine (ih _ hrest).trans ?_
    rw [List.map_cons, List.sum_cons, worth, hfirst, add_assoc]
    rfl

/-- A batch of additions adds up, whatever was rendered. -/
theorem amount_adds {ids : List String} (qty : String → ℤ) (hqty : ∀ dishId, 1 ≤ qty dishId)
    (hdish : ∀ dishId ∈ ids, ∃ dish, catalog.dishMap dishId = some dish)
    (hitems : WellFormed catalog items) (rendered : List CartItem) :
    let added := (ids.map fun dishId ↦ Operation.add dishId (qty dishId)).foldl
      (fun current operation ↦ operation.updater catalog.menu rendered current) items
    WellFormed catalog added ∧ ∀ weight, amount weight added =
      amount weight items + (ids.map fun dishId ↦ weight dishId * qty dishId).sum := by
  induction ids generalizing items with
  | nil => exact ⟨hitems, fun weight ↦ (add_zero _).symm⟩
  | cons dishId rest ih =>
    obtain ⟨⟨dish, hfirst⟩, hrest⟩ := List.forall_mem_cons.mp hdish
    have hstep : (Operation.add dishId (qty dishId)).updater catalog.menu rendered items =
        addLine dishId (qty dishId) items :=
      if_pos (by simp [Catalog.menu, Catalog.hasDish, hfirst])
    have hone : (1 : ℚ) ≤ qty dishId := by exact_mod_cast hqty dishId
    obtain ⟨hwell, hamount⟩ := ih hrest (hitems.addLine hone (isInteger_intCast _)
      (Catalog.inherits_eq_false hfirst))
    rw [List.map_cons, List.foldl_cons, hstep]
    refine ⟨hwell, fun weight ↦ (hamount weight).trans ?_⟩
    rw [amount_addLine hitems.nodup, List.map_cons, List.sum_cons, add_assoc]

end Adding

/-- A package has been added to a cart: its amount is the one that was shown, the trays of each of
its dishes alone are enough for the guests and no more than that, and the rest of the cart is as it
was. -/
structure Added (rounding : Rounding) (catalog : Catalog) (conf : Configurator) (est : ℚ)
    (items : List CartItem) (headcount : ℤ) (added : List CartItem) : Prop where
  wellFormed : WellFormed catalog added
  headcount_eq : setHeadcount conf.guests = conf.guests
  enough : ∀ dishId ∈ conf.chosen, ∃ dish qty, catalog.dishMap dishId = some dish ∧
    conf.qtyFor catalog dishId = some qty ∧
    conf.guests ≤ servesAvg dish.serves * qty ∧
    (1 < qty → servesAvg dish.serves * (qty - 1) < conf.guests) ∧
    qty ≤ qtyOf added dishId
  kept : ∀ dishId, dishId ∉ conf.chosen → qtyOf added dishId = qtyOf items dishId
  view : ∃ before after, derived rounding catalog items headcount = some before ∧
    derived rounding catalog added (setHeadcount conf.guests) = some after ∧
    after.subtotal = before.subtotal + est ∧ after.covered = true

section Added

variable {catalog : Catalog} {pkg : CateringPackage catalog} {conf : Configurator}
  {items added : List CartItem} {dishId : String}

theorem setHeadcount_of_fits (h : conf.Fits pkg) : setHeadcount conf.guests = conf.guests := by
  rw [setHeadcount, min_eq_right h.guests_le, max_eq_right]
  exact pkg.one_le_minGuests.trans h.minGuests_le

/-- The chosen trays of a dish are among those that are added. -/
theorem trays_le_sum (catalog : Catalog) (hchosen : dishId ∈ conf.chosen) :
    (conf.trays catalog dishId : ℚ) ≤ (conf.chosen.map fun other ↦
      (if other = dishId then 1 else 0) * (conf.trays catalog other : ℚ)).sum := by
  refine List.single_le_sum ?_ _ (List.mem_map.mpr ⟨dishId, hchosen, by simp⟩)
  intro part hpart
  obtain ⟨other, -, rfl⟩ := List.mem_map.mp hpart
  have htrays : (1 : ℚ) ≤ conf.trays catalog other := by
    exact_mod_cast conf.one_le_trays catalog other
  split
  · linarith
  · simp

/-- Thirty guests, a change of mind about the mains, and one click too many on the sides. -/
def feastClicks : List Click :=
  [.guests 25, .guests 30, .option 0 0, .option 0 2, .option 0 0, .option 0 1, .option 1 0,
    .option 1 1, .option 2 0, .option 0 0]

end Added

end DinnerRush.CustomerWeb
