import DinnerRush.CustomerWeb.Untrusted
import Mathlib.Data.List.Forall2
import Mathlib.Tactic.Tauto

/-!
# What a token may be

`composeCartView` handles a token exactly if each element of one that decodes is a pair of strings,
and no answer lacks what the composition reads of it (`handled_iff`). The answers that the
orchestrator gives for an order lack nothing, and their view is the one of `CustomerWeb.View`
(`composeCartView_ofView`).
-/

set_option autoImplicit false
set_option relaxedAutoImplicit false

namespace DinnerRush.CustomerWeb.Untrusted

/-! ### When a step completes -/

variable {engine : Engine} {token : String} {findings : ℕ → Finding}
  {value order view : Value}

/-- A computation goes on if its first step does. -/
theorem bind_eq_ok {α β : Type} {step : Except Thrown α} {next : α → Except Thrown β} {result : β} :
    step >>= next = .ok result ↔ ∃ found, step = .ok found ∧ next found = .ok result := by
  cases step with
  | error thrown => simp [bind, Except.bind]
  | ok found => simp [bind, Except.bind]

theorem map_eq_ok {α β : Type} {step : Except Thrown α} {f : α → β} {result : β} :
    step.map f = .ok result ↔ ∃ found, step = .ok found ∧ f found = result := by
  cases step with
  | error thrown => simp [Except.map]
  | ok found => simp [Except.map]

/-- A list of computations gives a result for each element in turn. -/
theorem mapM_eq_ok {α β : Type} {f : α → Except Thrown β} {elements : List α} {results : List β} :
    elements.mapM f = .ok results ↔
      List.Forall₂ (fun element result ↦ f element = .ok result) elements results := by
  induction elements generalizing results with
  | nil => simp [pure, Except.pure, eq_comm]
  | cons element rest ih =>
    simp only [List.mapM_cons, bind_eq_ok, ih, List.forall₂_cons_left_iff]
    simp [pure, Except.pure, eq_comm]

theorem exists_mapM_eq_ok {α β : Type} {f : α → Except Thrown β} {elements : List α} :
    (∃ results, elements.mapM f = .ok results) ↔
      ∀ element ∈ elements, ∃ result, f element = .ok result := by
  simp only [mapM_eq_ok]
  induction elements with
  | nil => simp
  | cons element rest ih => simp [List.forall₂_cons_left_iff, ← ih]

theorem get_eq_ok {name : String} {found : Value} :
    value.get name = .ok found ↔ value.nullish = false ∧ value.field name = found := by
  unfold Value.get
  cases value.nullish <;> simp

theorem elements_eq_ok {elements : List Value} :
    value.elements = .ok elements ↔ value = .array elements := by
  cases value <;> simp [Value.elements, Value.list]

theorem lookUp_eq_ok {done : Unit} :
    lookUp value = .ok done ↔ (value.truthy = true → value.Converts) := by
  unfold lookUp Value.Converts
  cases value.truthy <;> simp [map_eq_ok]

theorem slice_eq_ok {done : Unit} : slice value = .ok done ↔ value.hasSlice = true := by
  unfold slice
  cases value.hasSlice <;> simp

theorem exists_statusFrom {table : String → String} :
    (∃ status, statusFrom table value = .ok status) ↔ value.Converts := by
  simp [statusFrom, map_eq_ok, Value.Converts]

/-- What the composition reads of a view is there. -/
structure Viewable (view : Value) : Prop where
  view_ne : view.nullish = false
  order_ne : (view.field "order").nullish = false
  total : ((view.field "order").field "total_cents").Converts
  restaurant : ((view.field "order").field "restaurant_id").truthy = true →
    ((view.field "order").field "restaurant_id").Converts
  sliced : ((view.field "order").field "order_id").hasSlice = true
  orderId : ((view.field "order").field "order_id").Converts
  state : ((view.field "order").field "state").Converts
  items : ∃ elements, (view.field "order").field "items" = .array elements ∧
    ∀ element ∈ elements, element.nullish = false
  transitions : ((view.field "order").field "state").is "failed" = true →
    ∃ rows, view.field "transitions" = .array rows
  rows : ∀ row ∈ rowsOf view, row.nullish = false

theorem exists_itemRow {entry : Value × ℕ} : (∃ row, itemRow order entry = .ok row) ↔
    order.nullish = false ∧ (order.field "order_id").Converts ∧
      ((order.field "restaurant_id").truthy = true → (order.field "restaurant_id").Converts) ∧
        entry.1.nullish = false := by
  simp only [itemRow, bind_eq_ok, get_eq_ok, lookUp_eq_ok]
  simp [pure, Except.pure, Value.Converts]

theorem forall_zipIdx {elements : List Value} {P : Value → Prop} :
    (∀ entry ∈ elements.zipIdx, P entry.1) ↔ ∀ element ∈ elements, P element := by
  conv_rhs => rw [← List.zipIdx_map_fst 0 elements]
  simp only [List.forall_mem_map]

theorem exists_itemRows (horderId : (order.field "order_id").Converts)
    (hrestaurant : (order.field "restaurant_id").truthy = true →
      (order.field "restaurant_id").Converts) : (∃ rows, itemRows order = .ok rows) ↔
    order.nullish = false ∧ ∃ elements, order.field "items" = .array elements ∧
      ∀ element ∈ elements, element.nullish = false := by
  have hrow : ∀ elements : List Value, order.nullish = false →
      ((∃ rows, elements.zipIdx.mapM (itemRow order) = .ok rows) ↔
        ∀ element ∈ elements, element.nullish = false) := by
    intro elements horder
    rw [exists_mapM_eq_ok, ← forall_zipIdx]
    refine forall₂_congr fun entry _ ↦ ?_
    rw [exists_itemRow]
    tauto
  simp only [itemRows, bind_eq_ok, get_eq_ok, elements_eq_ok]
  constructor
  · rintro ⟨rows, _, ⟨horder, rfl⟩, elements, hitems, hrows⟩
    exact ⟨horder, elements, hitems, (hrow elements horder).mp ⟨rows, hrows⟩⟩
  · rintro ⟨horder, elements, hitems, helements⟩
    obtain ⟨rows, hrows⟩ := (hrow elements horder).mpr helements
    exact ⟨rows, _, ⟨horder, rfl⟩, elements, hitems, hrows⟩

theorem exists_fulfillmentRow : (∃ row, fulfillmentRow order = .ok row) ↔
    order.nullish = false ∧
      ((order.field "restaurant_id").truthy = true → (order.field "restaurant_id").Converts) ∧
        (order.field "order_id").hasSlice = true ∧ (order.field "state").Converts := by
  simp only [fulfillmentRow, bind_eq_ok, get_eq_ok, lookUp_eq_ok, slice_eq_ok]
  simp [pure, Except.pure, exists_statusFrom]
  tauto

theorem exists_deliveryRow : (∃ row, deliveryRow order = .ok row) ↔
    order.nullish = false ∧ (order.field "order_id").Converts ∧
      ((order.field "state").is "placed" = false → (order.field "order_id").hasSlice = true) ∧
        (order.field "state").Converts := by
  simp only [deliveryRow, bind_eq_ok, get_eq_ok]
  by_cases hplaced : (order.field "state").is "placed" = true
  · simp [pure, Except.pure, hplaced, bind_eq_ok, get_eq_ok, exists_statusFrom]
    simp [Value.Converts]
    tauto
  · simp [pure, Except.pure, hplaced, bind_eq_ok, get_eq_ok, exists_statusFrom, slice_eq_ok]
    simp [Value.Converts]
    tauto

/-- Looking for the failing step does not throw if no row is nullish. -/
theorem exists_findFailed {rows : List Value} (h : ∀ row ∈ rows, row.nullish = false) :
    ∃ found, findFailed rows = .ok found := by
  induction rows with
  | nil => exact ⟨_, rfl⟩
  | cons row rest ih =>
    obtain ⟨found, hfound⟩ := ih fun later hlater ↦ h later (List.mem_cons_of_mem row hlater)
    have hget : row.get "to_state" = .ok (row.field "to_state") :=
      get_eq_ok.mpr ⟨h row List.mem_cons_self, rfl⟩
    by_cases hfailed : (row.field "to_state").is "failed" = true
    · exact ⟨row, by simp [findFailed, hget, hfailed, bind, Except.bind, pure, Except.pure]⟩
    · exact ⟨found, by simp [findFailed, hget, hfailed, bind, Except.bind, hfound]⟩

/-- The cause of a failed order is looked for among its transitions. -/
theorem exists_causeOf {transitions : Value} (horder : order.nullish = false)
    (hrows : ∀ rows, transitions = .array rows → ∀ row ∈ rows, row.nullish = false) :
    (∃ cause, causeOf order transitions = .ok cause) ↔
      ((order.field "state").is "failed" = true → ∃ rows, transitions = .array rows) := by
  have hget : order.get "state" = .ok (order.field "state") := get_eq_ok.mpr ⟨horder, rfl⟩
  unfold causeOf
  rw [hget]
  by_cases hfailed : (order.field "state").is "failed" = true
  · simp only [bind, Except.bind, hfailed]
    cases transitions with
    | array rows =>
      obtain ⟨found, hfound⟩ := exists_findFailed (hrows rows rfl)
      simp [Value.elements, Value.list, hfound, pure, Except.pure]
    | _ => simp [Value.elements, Value.list]
  · simp [bind, Except.bind, hfailed, pure, Except.pure]

/-! ### Every view in turn -/

theorem exists_noteCreated {createdAt created : Value} :
    (∃ noted, noteCreated engine createdAt created = .ok noted) ↔
      (createdAt.truthy = true → created.Converts ∧ createdAt.Converts) := by
  unfold noteCreated Value.Converts
  by_cases htruthy : createdAt.truthy = true
  · simp [htruthy, bind_eq_ok, pure, Except.pure]
  · simp [htruthy, pure, Except.pure]

theorem eq_of_noteCreated {createdAt created noted : Value}
    (h : noteCreated engine createdAt created = .ok noted) :
    noted = earlier engine createdAt created := by
  unfold noteCreated at h
  by_cases htruthy : createdAt.truthy = true
  · rw [if_pos htruthy, bind_eq_ok] at h
    obtain ⟨-, -, h⟩ := h
    rw [bind_eq_ok] at h
    obtain ⟨-, -, h⟩ := h
    exact (Except.ok.inj h).symm
  · rw [if_neg htruthy] at h
    exact (Except.ok.inj h).symm

/-- No date is compared that has no primitive value. -/
def Dated (engine : Engine) : Value → List Value → Prop
  | _, [] => True
  | createdAt, created :: rest =>
    (createdAt.truthy = true → created.Converts ∧ createdAt.Converts) ∧
      Dated engine (earlier engine createdAt created) rest

/-- What a turn of the loop adds. -/
theorem turn_eq_ok {loop loop' : Loop} : turn engine loop view = .ok loop' ↔
    view.nullish = false ∧ (view.field "order").nullish = false ∧
      ((view.field "order").field "total_cents").Converts ∧
        ∃ createdAt, noteCreated engine loop.createdAt
          ((view.field "order").field "created_at") = .ok createdAt ∧
        ∃ items, itemRows (view.field "order") = .ok items ∧
        ∃ fulfillment, fulfillmentRow (view.field "order") = .ok fulfillment ∧
        ∃ delivery, deliveryRow (view.field "order") = .ok delivery ∧
        ∃ cause, causeOf (view.field "order") (view.field "transitions") = .ok cause ∧
          loop' = ⟨createdAt, cause.getD loop.failureReason, loop.items ++ items,
            loop.fulfillments ++ [fulfillment], loop.deliveries ++ [delivery]⟩ := by
  simp only [turn, bind_eq_ok, get_eq_ok]
  constructor
  · rintro ⟨_, ⟨hview, rfl⟩, _, ⟨-, rfl⟩, _, ⟨horder, rfl⟩, total, htotal, _, ⟨-, rfl⟩, createdAt,
      hcreated, items, hitems, fulfillment, hfulfillment, delivery, hdelivery, cause, hcause, hloop⟩
    exact ⟨hview, horder, ⟨total, htotal⟩, createdAt, hcreated, items, hitems, fulfillment,
      hfulfillment, delivery, hdelivery, cause, hcause, (Except.ok.inj hloop).symm⟩
  · rintro ⟨hview, horder, ⟨total, htotal⟩, createdAt, hcreated, items, hitems, fulfillment,
      hfulfillment, delivery, hdelivery, cause, hcause, rfl⟩
    exact ⟨_, ⟨hview, rfl⟩, _, ⟨hview, rfl⟩, _, ⟨horder, rfl⟩, total, htotal, _, ⟨horder, rfl⟩,
      createdAt, hcreated, items, hitems, fulfillment, hfulfillment, delivery, hdelivery, cause,
      hcause, rfl⟩

/-- A turn completes for a view that has everything, unless it compares dates that cannot be. -/
theorem exists_turn {loop : Loop} (hrows : ∀ row ∈ rowsOf view, row.nullish = false) :
    (∃ loop', turn engine loop view = .ok loop') ↔ Viewable view ∧
      (loop.createdAt.truthy = true →
        ((view.field "order").field "created_at").Converts ∧ loop.createdAt.Converts) := by
  have harray : ∀ rows, view.field "transitions" = .array rows → ∀ row ∈ rows,
      row.nullish = false := by
    intro rows htransitions row hrow
    refine hrows row ?_
    rw [rowsOf, htransitions]
    exact hrow
  rw [← @exists_noteCreated engine]
  constructor
  · rintro ⟨loop', hturn⟩
    obtain ⟨hview, horder, htotal, createdAt, hcreated, items, hitems, fulfillment, hfulfillment,
      delivery, hdelivery, cause, hcause, -⟩ := turn_eq_ok.mp hturn
    obtain ⟨-, hrestaurant, hsliced, hstate⟩ := exists_fulfillmentRow.mp ⟨_, hfulfillment⟩
    obtain ⟨-, horderId, -, -⟩ := exists_deliveryRow.mp ⟨_, hdelivery⟩
    exact ⟨⟨hview, horder, htotal, hrestaurant, hsliced, horderId, hstate,
      ((exists_itemRows horderId hrestaurant).mp ⟨_, hitems⟩).2,
      (exists_causeOf horder harray).mp ⟨_, hcause⟩, hrows⟩, createdAt, hcreated⟩
  · rintro ⟨h, createdAt, hcreated⟩
    obtain ⟨items, hitems⟩ := (exists_itemRows h.orderId h.restaurant).mpr ⟨h.order_ne, h.items⟩
    obtain ⟨fulfillment, hfulfillment⟩ :=
      exists_fulfillmentRow.mpr ⟨h.order_ne, h.restaurant, h.sliced, h.state⟩
    obtain ⟨delivery, hdelivery⟩ :=
      exists_deliveryRow.mpr ⟨h.order_ne, h.orderId, fun _ ↦ h.sliced, h.state⟩
    obtain ⟨cause, hcause⟩ := (exists_causeOf h.order_ne harray).mpr h.transitions
    exact ⟨_, turn_eq_ok.mpr ⟨h.view_ne, h.order_ne, h.total, createdAt, hcreated, items, hitems,
      fulfillment, hfulfillment, delivery, hdelivery, cause, hcause, rfl⟩⟩

theorem createdAt_of_turn {loop loop' : Loop} (h : turn engine loop view = .ok loop') :
    loop'.createdAt =
      earlier engine loop.createdAt ((view.field "order").field "created_at") := by
  obtain ⟨-, -, -, createdAt, hcreated, _, -, _, -, _, -, _, -, rfl⟩ := turn_eq_ok.mp h
  exact eq_of_noteCreated hcreated

/-- The loop completes exactly if each of its turns does. -/
theorem exists_loop {views : List Value} {loop : Loop}
    (hrows : ∀ view ∈ views, ∀ row ∈ rowsOf view, row.nullish = false) :
    (∃ loop', views.foldlM (turn engine) loop = .ok loop') ↔ (∀ view ∈ views, Viewable view) ∧
      Dated engine loop.createdAt
        (views.map fun view ↦ (view.field "order").field "created_at") := by
  induction views generalizing loop with
  | nil => simp [pure, Except.pure, Dated]
  | cons view rest ih =>
    have hrest := fun loop ↦ @ih loop fun later hlater ↦
      hrows later (List.mem_cons_of_mem view hlater)
    have hturn := @exists_turn engine view loop (hrows view List.mem_cons_self)
    rw [List.foldlM_cons]
    simp only [bind_eq_ok, List.forall_mem_cons, List.map_cons, Dated]
    constructor
    · rintro ⟨loop', next, hnext, hloop⟩
      obtain ⟨hviewable, hdated⟩ := hturn.mp ⟨next, hnext⟩
      obtain ⟨hviewables, hlater⟩ := (hrest next).mp ⟨loop', hloop⟩
      rw [createdAt_of_turn hnext] at hlater
      exact ⟨⟨hviewable, hviewables⟩, hdated, hlater⟩
    · rintro ⟨⟨hviewable, hviewables⟩, hdated, hlater⟩
      obtain ⟨next, hnext⟩ := hturn.mpr ⟨hviewable, hdated⟩
      rw [← createdAt_of_turn hnext] at hlater
      obtain ⟨loop', hloop⟩ := (hrest next).mpr ⟨hviewables, hlater⟩
      exact ⟨loop', next, hnext, hloop⟩

/-- The loop leaves one row of each kind for each view, in their order. -/
theorem rows_of_loop {views : List Value} {loop loop' : Loop}
    (h : views.foldlM (turn engine) loop = .ok loop') :
    ∃ fulfillments deliveries, loop'.fulfillments = loop.fulfillments ++ fulfillments ∧
      loop'.deliveries = loop.deliveries ++ deliveries ∧
      List.Forall₂ (fun view row ↦ fulfillmentRow (view.field "order") = .ok row) views
        fulfillments ∧
      List.Forall₂ (fun view row ↦ deliveryRow (view.field "order") = .ok row) views
        deliveries := by
  induction views generalizing loop with
  | nil =>
    obtain rfl := Except.ok.inj h
    exact ⟨[], [], by simp, by simp, .nil, .nil⟩
  | cons view rest ih =>
    rw [List.foldlM_cons, bind_eq_ok] at h
    obtain ⟨next, hnext, hloop⟩ := h
    obtain ⟨-, -, -, _, -, _, -, fulfillment, hfulfillment, delivery, hdelivery, _, -, rfl⟩ :=
      turn_eq_ok.mp hnext
    obtain ⟨fulfillments, deliveries, hfulfillments, hdeliveries, hrows, hrows'⟩ := ih hloop
    refine ⟨fulfillment :: fulfillments, delivery :: deliveries, ?_, ?_, .cons hfulfillment hrows,
      .cons hdelivery hrows'⟩
    · simp [hfulfillments]
    · simp [hdeliveries]

/-! ### The whole view -/

theorem exists_transitionRow {entry : Value × ℕ} :
    (∃ row, transitionRow entry = .ok row) ↔ entry.1.nullish = false := by
  simp only [transitionRow, bind_eq_ok, get_eq_ok]
  simp [pure, Except.pure]

/-- The comparator can compare two rows. -/
def Comparable (pair : Value × Value) : Prop :=
  (pair.1.field "created_at").isString = true ∧ (pair.2.field "created_at").Converts

theorem exists_compareRows {pair : Value × Value} (h : pair.1.nullish = false)
    (h' : pair.2.nullish = false) :
    (∃ done, compareRows pair = .ok done) ↔ Comparable pair := by
  simp only [compareRows, bind_eq_ok, get_eq_ok, Comparable]
  by_cases hstring : (pair.1.field "created_at").isString = true
  · simp [h, h', hstring, map_eq_ok, Value.Converts]
  · simp [h, h', hstring]

theorem exists_transitionRows {rows : List Value} :
    (∃ result, transitionRows engine rows = .ok result) ↔
      (∀ row ∈ rows, row.nullish = false) ∧ ∀ pair ∈ engine.compared rows, Comparable pair := by
  have hrows : (∃ result, (engine.sorted rows).zipIdx.mapM transitionRow = .ok result) ↔
      ∀ row ∈ rows, row.nullish = false := by
    rw [exists_mapM_eq_ok]
    simp only [exists_transitionRow, forall_zipIdx (P := fun row ↦ row.nullish = false),
      (engine.perm_sorted rows).mem_iff]
  have hcompared (hne : ∀ row ∈ rows, row.nullish = false) :
      (∃ done, (engine.compared rows).mapM compareRows = .ok done) ↔
        ∀ pair ∈ engine.compared rows, Comparable pair := by
    rw [exists_mapM_eq_ok]
    refine forall₂_congr fun pair hpair ↦ ?_
    obtain ⟨hfirst, hsecond⟩ := engine.compared_mem rows pair hpair
    exact exists_compareRows (hne _ hfirst) (hne _ hsecond)
  simp only [transitionRows, bind_eq_ok]
  constructor
  · rintro ⟨result, done, hdone, hresult⟩
    have hne := hrows.mp ⟨result, hresult⟩
    exact ⟨hne, (hcompared hne).mp ⟨done, hdone⟩⟩
  · rintro ⟨hne, hpairs⟩
    obtain ⟨done, hdone⟩ := (hcompared hne).mpr hpairs
    obtain ⟨result, hresult⟩ := hrows.mpr hne
    exact ⟨result, done, hdone, hresult⟩

/-- Nothing is missing of what the composition reads of some views. -/
structure Composable (engine : Engine) (views : List Value) : Prop where
  each : ∀ view ∈ views, Viewable view
  dates : Dated engine (.string "")
    (views.map fun view ↦ (view.field "order").field "created_at")
  compared : ∀ pair ∈ engine.compared (views.flatMap rowsOf), Comparable pair

/-- What the reads of the elements of a token give. -/
def viewsOf (findings : ℕ → Finding) (elements : List Value) : List Value :=
  elements.zipIdx.map fun entry ↦
    fetchOrder (entry.1.field "id") (entry.1.field "r") (findings entry.2)

theorem readAll_eq_ok {elements views : List Value} : readAll findings elements = .ok views ↔
    (∀ element ∈ elements, element.nullish = false) ∧ views = viewsOf findings elements := by
  rw [readAll, mapM_eq_ok, viewsOf, ← forall_zipIdx]
  simp only [bind_eq_ok, get_eq_ok]
  generalize elements.zipIdx = entries
  induction entries generalizing views with
  | nil => simp
  | cons entry rest ih =>
    rw [List.forall₂_cons_left_iff]
    simp only [ih, List.forall_mem_cons, List.map_cons]
    constructor
    · rintro ⟨view, later, ⟨_, ⟨hne, rfl⟩, _, ⟨-, rfl⟩, hview⟩, ⟨hrest, rfl⟩, rfl⟩
      exact ⟨⟨hne, hrest⟩, by rw [← Except.ok.inj hview]⟩
    · rintro ⟨⟨hne, hrest⟩, rfl⟩
      exact ⟨_, _, ⟨_, ⟨hne, rfl⟩, _, ⟨hne, rfl⟩, rfl⟩, ⟨hrest, rfl⟩, rfl⟩

/-- What the composition of a token that decodes is made of. -/
theorem composeCartView_eq_ok {decoded : CartToken} {result : CartView}
    (hdecoded : decodeCart engine token = some decoded)
    (h : composeCartView engine token findings = .ok result) :
    (∀ element ∈ decoded.o, element.nullish = false) ∧ ∃ loop rows order,
      (viewsOf findings decoded.o).foldlM (turn engine) ⟨.string "", .null, [], [], []⟩ =
        .ok loop ∧
      transitionRows engine ((viewsOf findings decoded.o).flatMap rowsOf) = .ok rows ∧
      result.order = some order ∧
      order.status = aggregateStatus ((viewsOf findings decoded.o).map fun view ↦
        stateName ((view.field "order").field "state")) ∧
      result.fulfillments = loop.fulfillments ∧ result.deliveries = loop.deliveries := by
  unfold composeCartView at h
  rw [hdecoded] at h
  simp only [bind_eq_ok, readAll_eq_ok] at h
  obtain ⟨_, ⟨hne, rfl⟩, loop, hloop, rows, hrows, hresult⟩ := h
  obtain rfl := Except.ok.inj hresult
  exact ⟨hne, loop, rows, _, hloop, hrows, rfl, rfl, rfl, rfl⟩

/-- The composition completes exactly if nothing is missing. -/
theorem exists_composeCartView : (∃ result, composeCartView engine token findings = .ok result) ↔
    ∀ decoded ∈ decodeCart engine token, (∀ element ∈ decoded.o, element.nullish = false) ∧
      Composable engine (viewsOf findings decoded.o) := by
  cases hdecoded : decodeCart engine token with
  | none => simp [composeCartView, hdecoded]
  | some decoded =>
    simp only [Option.mem_some_iff, forall_eq']
    constructor
    · rintro ⟨result, hresult⟩
      obtain ⟨hne, loop, rows, -, hloop, hrows, -⟩ := composeCartView_eq_ok hdecoded hresult
      obtain ⟨hnone, hcompared⟩ := exists_transitionRows.mp ⟨rows, hrows⟩
      have hviews := fun view hview row hrow ↦ hnone row (List.mem_flatMap.mpr ⟨view, hview, hrow⟩)
      obtain ⟨hviewable, hdated⟩ := (exists_loop hviews).mp ⟨loop, hloop⟩
      exact ⟨hne, hviewable, hdated, hcompared⟩
    · rintro ⟨hne, h⟩
      obtain ⟨loop, hloop⟩ := (@exists_loop engine _ ⟨.string "", .null, [], [], []⟩
        fun view hview ↦ (h.each view hview).rows).mpr ⟨h.each, h.dates⟩
      have hnone : ∀ row ∈ (viewsOf findings decoded.o).flatMap rowsOf, row.nullish = false := by
        intro row hrow
        obtain ⟨view, hview, hrow⟩ := List.mem_flatMap.mp hrow
        exact (h.each view hview).rows row hrow
      obtain ⟨rows, hrows⟩ := exists_transitionRows.mpr ⟨hnone, h.compared⟩
      unfold composeCartView
      rw [hdecoded]
      simp only [bind_eq_ok, readAll_eq_ok]
      exact ⟨_, _, ⟨hne, rfl⟩, loop, hloop, rows, hrows, rfl⟩

/-! ### Every token -/

/-- The pair of strings that an element of a token is. -/
def pairOf (element : Value) : Option TokenOrder :=
  match element.field "id", element.field "r" with
  | .string id, .string r => some ⟨id, r⟩
  | _, _ => none

/-- The pairs of a readable token: version 1, and every element of `o` is a pair of strings. -/
def readable (engine : Engine) (token : String) : Option (List TokenOrder) :=
  (engine.parse token).bind fun parsed ↦
    if (parsed.field "v").isOne then
      (parsed.field "o").list.bind fun elements ↦ elements.mapM pairOf
    else none

theorem readable_eq : readable engine token =
    (decodeCart engine token).bind fun decoded ↦ decoded.o.mapM pairOf := by
  unfold readable decodeCart
  rw [Option.bind_assoc]
  refine Option.bind_congr fun parsed _ ↦ ?_
  by_cases hone : (parsed.field "v").isOne = true
  · have htruthy : parsed.truthy = true := by
      cases parsed <;> simp_all [Value.field, Value.isOne, Value.truthy]
    rw [if_pos hone, if_pos (by simp [hone, htruthy]), Option.bind_map]
    rfl
  · rw [if_neg hone, if_neg (by simp [hone])]
    rfl

/-- The orders that are read for the pairs of a token. -/
def ordersOf (findings : ℕ → Finding) (pairs : List TokenOrder) : List Value :=
  pairs.zipIdx.map fun entry ↦
    (fetchOrder (.string entry.1.id) (.string entry.1.r) (findings entry.2)).field "order"

/-- What is claimed of a token and of what is read for it. -/
structure Handled (engine : Engine) (token : String) (findings : ℕ → Finding) : Prop where
  completes : ∃ result, composeCartView engine token findings = .ok result
  unreadable : ∀ result, composeCartView engine token findings = .ok result →
    (result.order = none ↔ readable engine token = none)
  /-- A row of each kind for each pair, in the order of the token. -/
  rows : ∀ result pairs, composeCartView engine token findings = .ok result →
    readable engine token = some pairs →
      List.Forall₂ (fun order row ↦ fulfillmentRow order = .ok row) (ordersOf findings pairs)
        result.fulfillments ∧
      List.Forall₂ (fun order row ↦ deliveryRow order = .ok row) (ordersOf findings pairs)
        result.deliveries

theorem mapM_pairOf {elements : List Value} {pairs : List TokenOrder} :
    elements.mapM pairOf = some pairs ↔
      List.Forall₂ (fun element pair ↦ pairOf element = some pair) elements pairs := by
  induction elements generalizing pairs with
  | nil => simp [eq_comm]
  | cons element rest ih =>
    rw [List.mapM_cons, List.forall₂_cons_left_iff]
    simp only [Option.bind_eq_bind, Option.bind_eq_some_iff, ih]
    constructor
    · rintro ⟨pair, hpair, later, hlater, hpairs⟩
      exact ⟨pair, later, hpair, hlater, (Option.some.inj hpairs).symm⟩
    · rintro ⟨pair, later, hpair, hlater, rfl⟩
      exact ⟨pair, hpair, later, hlater, rfl⟩

theorem pairOf_eq_some {element : Value} {pair : TokenOrder} : pairOf element = some pair ↔
    element.field "id" = .string pair.id ∧ element.field "r" = .string pair.r := by
  unfold pairOf
  split
  · cases pair
    simp_all
  · simp_all

theorem nullish_of_pairOf {element : Value} (h : (pairOf element).isSome = true) :
    element.nullish = false := by
  cases element <;> simp_all [pairOf, Value.field, Value.nullish]

theorem exists_pairs {elements : List Value}
    (h : ∀ element ∈ elements, (pairOf element).isSome = true) :
    ∃ pairs, elements.mapM pairOf = some pairs := by
  induction elements with
  | nil => exact ⟨[], rfl⟩
  | cons element rest ih =>
    obtain ⟨pair, hpair⟩ := Option.isSome_iff_exists.mp (h element List.mem_cons_self)
    obtain ⟨pairs, hpairs⟩ := ih fun later hlater ↦ h later (List.mem_cons_of_mem element hlater)
    exact ⟨pair :: pairs, by simp [List.mapM_cons, hpair, hpairs]⟩

/-- The views of a readable token are those of its pairs. -/
theorem orders_of_readable {elements : List Value} {pairs : List TokenOrder}
    (h : elements.mapM pairOf = some pairs) :
    (viewsOf findings elements).map (fun view ↦ view.field "order") = ordersOf findings pairs := by
  rw [mapM_pairOf] at h
  rw [viewsOf, ordersOf, List.map_map]
  generalize 0 = start
  induction h generalizing start with
  | nil => rfl
  | cons hpair _ ih =>
    obtain ⟨hid, hr⟩ := pairOf_eq_some.mp hpair
    simp [List.zipIdx_cons, hid, hr]
    exact ih (start + 1)

/-- **Every token is handled**, exactly if each element of one that decodes is a pair of strings
and nothing is missing of what is read for it. -/
theorem handled_iff (engine : Engine) (token : String) (findings : ℕ → Finding) :
    Handled engine token findings ↔ ∀ decoded ∈ decodeCart engine token,
      (∀ element ∈ decoded.o, (pairOf element).isSome = true) ∧
        Composable engine (viewsOf findings decoded.o) := by
  constructor
  · intro h decoded hdecoded
    obtain ⟨result, hresult⟩ := h.completes
    obtain ⟨-, hcomposable⟩ := exists_composeCartView.mp ⟨result, hresult⟩ decoded hdecoded
    refine ⟨?_, hcomposable⟩
    obtain ⟨-, loop, rows, order, -, -, horder, -⟩ := composeCartView_eq_ok hdecoded hresult
    have hreadable : readable engine token ≠ none := by
      intro hnone
      rw [(h.unreadable result hresult).mpr hnone] at horder
      cases horder
    obtain ⟨pairs, hpairs⟩ := Option.ne_none_iff_exists'.mp hreadable
    rw [readable_eq, hdecoded, Option.bind_some, mapM_pairOf] at hpairs
    intro element helement
    obtain ⟨pair, -, hpair⟩ := (Concurrency.Table.exists_mem_of_forall₂ hpairs).1 element helement
    rw [hpair]
    rfl
  · intro h
    refine ⟨exists_composeCartView.mpr fun decoded hdecoded ↦ ?_, fun result hresult ↦ ?_,
      fun result pairs hresult hpairs ↦ ?_⟩
    · obtain ⟨hpairs, hcomposable⟩ := h decoded hdecoded
      exact ⟨fun element helement ↦ nullish_of_pairOf (hpairs element helement), hcomposable⟩
    · cases hdecoded : decodeCart engine token with
      | none =>
        rw [composeCartView, hdecoded] at hresult
        obtain rfl := Except.ok.inj hresult
        simp [readable_eq, hdecoded]
      | some decoded =>
        obtain ⟨-, loop, rows, order, -, -, horder, -⟩ := composeCartView_eq_ok hdecoded hresult
        obtain ⟨pairs, hpairs⟩ := exists_pairs (h decoded hdecoded).1
        rw [readable_eq, hdecoded, Option.bind_some, hpairs, horder]
        simp
    · rw [readable_eq] at hpairs
      obtain ⟨decoded, hdecoded, hmapM⟩ := Option.bind_eq_some_iff.mp hpairs
      obtain ⟨-, loop, rows, order, hloop, -, -, -, hfulfillments, hdeliveries⟩ :=
        composeCartView_eq_ok hdecoded hresult
      obtain ⟨fulfillments, deliveries, hkept, hkept', hrows, hrows'⟩ := rows_of_loop hloop
      rw [hfulfillments, hdeliveries, hkept, hkept', ← orders_of_readable hmapM,
        List.forall₂_map_left_iff, List.forall₂_map_left_iff]
      exact ⟨hrows, hrows'⟩

/-! ### A token that decodes and is not handled -/

/-- `{"v":1,"o":[null]}`. -/
def nullToken : String := "eyJ2IjoxLCJvIjpbbnVsbF19"

/-- An engine that parses one token, and compares rows next to each other. -/
def storefront : Engine where
  parse token :=
    if token = nullToken then some (.object [("v", .number "1"), ("o", .array [.null])]) else none
  less _ _ := false
  compared rows := rows.tail.zip rows
  sorted rows := rows
  compared_mem _ _ hpair :=
    ⟨List.mem_of_mem_tail (List.of_mem_zip hpair).1, (List.of_mem_zip hpair).2⟩
  perm_sorted rows := .refl rows

/-- The element of the token is no pair, and its `id` cannot be read. -/
theorem not_handled_nullToken :
    ¬ Handled storefront nullToken fun _ ↦ ⟨.error, "2026-10-07T18:00:00.000Z"⟩ := by
  intro h
  obtain ⟨result, hresult⟩ := h.completes
  have hthrows : composeCartView storefront nullToken
      (fun _ ↦ ⟨.error, "2026-10-07T18:00:00.000Z"⟩) = .error .typeError := by rfl
  rw [hthrows] at hresult
  cases hresult

/-! ### The answers of the orchestrator -/

def ofOption : Option String → Value
  | some text => .string text
  | none => .null

def ofItem (item : Item) : Value :=
  .object [("name", .string item.name), ("qty", .number (toString item.qty)),
    ("price_cents", .number (toString item.priceCents))]

def ofTransition (now : String) (row : OrchTransition) : Value :=
  .object [("from_state", ofOption row.fromState), ("to_state", .string row.toState),
    ("cause", ofOption row.cause), ("attempt", .number (toString row.attempt)),
    ("created_at", .string now)]

def ofOrder (now : String) (order : OrchOrder) : Value :=
  .object [("order_id", .string order.orderId), ("state", .string order.state),
    ("customer_id", ofOption order.customerId), ("restaurant_id", ofOption order.restaurantId),
    ("items", .array (order.items.map ofItem)),
    ("total_cents", .number (toString order.totalCents)), ("created_at", .string now)]

/-- The JSON of a view, all of whose dates are the same. -/
def ofView (now : String) (view : OrchView) : Value :=
  .object [("order", ofOrder now view.order),
    ("transitions", .array (view.transitions.map (ofTransition now)))]

def ofPair (pair : TokenOrder) : Value := .object [("id", .string pair.id), ("r", .string pair.r)]

def ofFetched (now : String) : CustomerWeb.Fetched → Finding
  | .response statusCode body => ⟨.response statusCode (body.map (ofView now)), now⟩
  | .error => ⟨.error, now⟩

variable {now : String}

@[simp] theorem field_ofView_order (view : OrchView) :
    (ofView now view).field "order" = ofOrder now view.order := by
  simp [ofView, Value.field]

@[simp] theorem field_ofView_transitions (view : OrchView) :
    (ofView now view).field "transitions" =
      .array (view.transitions.map (ofTransition now)) := by
  simp [ofView, Value.field, List.lookup_cons]

section Fields

variable (order : OrchOrder)

@[simp] theorem field_ofOrder_orderId :
    (ofOrder now order).field "order_id" = .string order.orderId := by
  simp [ofOrder, Value.field]

@[simp] theorem field_ofOrder_state :
    (ofOrder now order).field "state" = .string order.state := by
  simp [ofOrder, Value.field, List.lookup_cons]

@[simp] theorem field_ofOrder_restaurantId :
    (ofOrder now order).field "restaurant_id" = ofOption order.restaurantId := by
  simp [ofOrder, Value.field, List.lookup_cons]

@[simp] theorem field_ofOrder_items :
    (ofOrder now order).field "items" = .array (order.items.map ofItem) := by
  simp [ofOrder, Value.field, List.lookup_cons]

@[simp] theorem field_ofOrder_totalCents :
    (ofOrder now order).field "total_cents" = .number (toString order.totalCents) := by
  simp [ofOrder, Value.field, List.lookup_cons]

@[simp] theorem field_ofOrder_createdAt :
    (ofOrder now order).field "created_at" = .string now := by
  simp [ofOrder, Value.field, List.lookup_cons]

end Fields

@[simp] theorem field_ofTransition_createdAt (row : OrchTransition) :
    (ofTransition now row).field "created_at" = .string now := by
  simp [ofTransition, Value.field, List.lookup_cons]

theorem converts_string (text : String) : (Value.string text).Converts :=
  ⟨text, by simp [Value.text]⟩

theorem converts_number (text : String) : (Value.number text).Converts :=
  ⟨text, by simp [Value.text]⟩

theorem converts_ofOption (text : Option String) : (ofOption text).Converts := by
  cases text with
  | none => exact ⟨"null", by simp [ofOption, Value.text]⟩
  | some text => exact converts_string text

theorem nullish_ofOrder (order : OrchOrder) : (ofOrder now order).nullish = false := by
  simp [ofOrder, Value.nullish]

/-- The orchestrator's view of an order has all that is read of it. -/
theorem viewable_ofView (view : OrchView) : Viewable (ofView now view) where
  view_ne := by simp [ofView, Value.nullish]
  order_ne := by simp [nullish_ofOrder]
  total := by simp [converts_number]
  restaurant _ := by simp [converts_ofOption]
  sliced := by simp [Value.hasSlice]
  orderId := by simp [converts_string]
  state := by simp [converts_string]
  items := by simp [ofItem, Value.nullish]
  transitions _ := by simp
  rows := by simp [rowsOf, Value.list, ofTransition, Value.nullish]

theorem dated_of_strings {createdAt : Value} {dates : List Value} (h : createdAt.isString = true)
    (hdates : ∀ created ∈ dates, created.isString = true) : Dated engine createdAt dates := by
  have hconverts : ∀ value : Value, value.isString = true → value.Converts := by
    intro value hvalue
    cases value with
    | string text => exact converts_string text
    | _ => simp [Value.isString] at hvalue
  induction dates generalizing createdAt with
  | nil => trivial
  | cons created rest ih =>
    have hcreated := hdates created List.mem_cons_self
    refine ⟨fun _ ↦ ⟨hconverts _ hcreated, hconverts _ h⟩, ih ?_ fun later hlater ↦
      hdates later (List.mem_cons_of_mem created hlater)⟩
    unfold earlier
    split
    · exact h
    · exact hcreated

/-- Nothing is missing of the views that the orchestrator gives. -/
theorem composable_ofView (views : List OrchView) :
    Composable engine (views.map (ofView now)) where
  each view hview := by
    obtain ⟨view, -, rfl⟩ := List.mem_map.mp hview
    exact viewable_ofView view
  dates := dated_of_strings rfl (by simp [Value.isString])
  compared pair hpair := by
    have hrow : ∀ row ∈ (views.map (ofView now)).flatMap rowsOf,
        row.field "created_at" = .string now := by
      simp only [rowsOf, List.flatMap_map, field_ofView_transitions, Value.list, Option.getD_some,
        List.mem_flatMap, List.mem_map]
      rintro _ ⟨view, -, transition, -, rfl⟩
      simp
    obtain ⟨hfirst, hsecond⟩ := engine.compared_mem _ pair hpair
    rw [Comparable, hrow _ hfirst, hrow _ hsecond]
    exact ⟨rfl, converts_string now⟩

theorem fetchOrder_ofFetched (pair : TokenOrder) (fetched : CustomerWeb.Fetched) :
    fetchOrder (.string pair.id) (.string pair.r) (ofFetched now fetched) =
      ofView now (CustomerWeb.fetchOrder pair fetched) := by
  have hpending : pending now (.string pair.id) (.string pair.r) =
      ofView now (CustomerWeb.pending pair) := rfl
  cases fetched with
  | error => simp [fetchOrder, CustomerWeb.fetchOrder, ofFetched, Value.text, hpending]
  | response statusCode body =>
    cases body <;> by_cases h404 : statusCode = 404 <;>
      by_cases hok : 200 ≤ statusCode ∧ statusCode < 300 <;>
        simp [fetchOrder, CustomerWeb.fetchOrder, ofFetched, Value.text, hpending, h404, hok]

theorem viewsOf_ofPair (fetched : ℕ → CustomerWeb.Fetched) (pairs : List TokenOrder) :
    viewsOf (fun index ↦ ofFetched now (fetched index)) (pairs.map ofPair) =
      (pairs.zipWith CustomerWeb.fetchOrder ((List.range pairs.length).map fetched)).map
        (ofView now) := by
  rw [viewsOf, List.zipWith_map_right, List.range_eq_range']
  generalize 0 = start
  induction pairs generalizing start with
  | nil => rfl
  | cons pair rest ih =>
    have hid : (ofPair pair).field "id" = .string pair.id := by simp [ofPair, Value.field]
    have hr : (ofPair pair).field "r" = .string pair.r := by
      simp [ofPair, Value.field, List.lookup_cons]
    simp only [List.map_cons, List.zipIdx_cons, List.length_cons, List.range'_succ,
      List.zipWith_cons_cons, ih, hid, hr, fetchOrder_ofFetched]

def ofFulfillmentRow (row : CustomerWeb.FulfillmentRow) : FulfillmentRow :=
  ⟨.string row.id, .string row.restaurantId, some row.status,
    .number (toString row.subtotalCents)⟩

def ofDeliveryRow (row : CustomerWeb.DeliveryRow) : DeliveryRow :=
  ⟨row.id, ofOption row.restaurantId, some row.status⟩

theorem fulfillmentRow_ofOrder {order : OrchOrder} (hstate : order.state ∉ objectPrototype) :
    fulfillmentRow (ofOrder now order) =
      .ok (ofFulfillmentRow (CustomerWeb.fulfillmentRow order)) := by
  have hlookUp : lookUp (ofOption order.restaurantId) = .ok () :=
    lookUp_eq_ok.mpr fun _ ↦ converts_ofOption _
  have hor : (ofOption order.restaurantId).orElse (.string "") =
      .string (order.restaurantId.getD "") := by
    cases order.restaurantId <;> simp [ofOption, Value.orElse, Value.nullish]
  simp [fulfillmentRow, CustomerWeb.fulfillmentRow, ofFulfillmentRow, Value.get, nullish_ofOrder,
    hlookUp, hor, slice, Value.hasSlice, statusFrom, Value.text, hstate, bind, Except.bind, pure,
    Except.pure, Except.map]

theorem deliveryRow_ofOrder {order : OrchOrder} (hstate : order.state ∉ objectPrototype) :
    deliveryRow (ofOrder now order) = .ok (ofDeliveryRow (CustomerWeb.deliveryRow order)) := by
  simp [deliveryRow, CustomerWeb.deliveryRow, ofDeliveryRow, Value.get, nullish_ofOrder, slice,
    Value.hasSlice, statusFrom, Value.text, hstate, bind, Except.bind, pure, Except.pure,
    Except.map]

theorem eq_map_of_forall₂ {α β : Type} {f : α → Except Thrown β} {g : α → β} {elements : List α}
    {results : List β} (h : List.Forall₂ (fun element result ↦ f element = .ok result) elements
      results) (heq : ∀ element ∈ elements, f element = .ok (g element)) :
    results = elements.map g := by
  induction h with
  | nil => rfl
  | @cons element result rest results hhead _ ih =>
    rw [heq element List.mem_cons_self] at hhead
    rw [List.map_cons, ← ih fun later hlater ↦ heq later (List.mem_cons_of_mem element hlater),
      Except.ok.inj hhead]

/-- For the answers that the orchestrator gives, the view is the typed one. -/
theorem composeCartView_ofView {hc : Value} {typed : CustomerWeb.CartToken}
    {fetched : ℕ → CustomerWeb.Fetched}
    (hdecoded : decodeCart engine token = some ⟨hc, typed.o.map ofPair⟩)
    (hstates : ∀ view ∈ typed.o.zipWith CustomerWeb.fetchOrder
      ((List.range typed.o.length).map fetched), view.order.state ∉ objectPrototype) :
    ∃ result, composeCartView engine token (fun index ↦ ofFetched now (fetched index)) =
      .ok result ∧
      (let view := CustomerWeb.composeCartView (some typed)
        ((List.range typed.o.length).map fetched)
      result.order.map OrderRow.status = view.order.map CustomerWeb.OrderRow.status ∧
        result.fulfillments = view.fulfillments.map ofFulfillmentRow ∧
        result.deliveries = view.deliveries.map ofDeliveryRow) := by
  have hviews := @viewsOf_ofPair now fetched typed.o
  obtain ⟨result, hresult⟩ := (@exists_composeCartView engine token
    fun index ↦ ofFetched now (fetched index)).mpr fun decoded hmem ↦ by
      obtain rfl := Option.some.inj (hdecoded.symm.trans hmem)
      refine ⟨by simp [ofPair, Value.nullish], ?_⟩
      rw [hviews]
      exact composable_ofView _
  obtain ⟨-, loop, rows, order, hloop, -, horder, hstatus, hfulfillments, hdeliveries⟩ :=
    composeCartView_eq_ok hdecoded hresult
  obtain ⟨fulfillments, deliveries, hkept, hkept', hrows, hrows'⟩ := rows_of_loop hloop
  simp only [hviews] at hstatus hrows hrows'
  refine ⟨result, hresult, ?_, ?_, ?_⟩
  · simp [horder, hstatus, CustomerWeb.composeCartView, orderRow, stateName]
  · rw [List.forall₂_map_left_iff] at hrows
    rw [hfulfillments, hkept, eq_map_of_forall₂ hrows fun view hview ↦ by
      rw [field_ofView_order, fulfillmentRow_ofOrder (hstates view hview)]]
    simp [CustomerWeb.composeCartView]
  · rw [List.forall₂_map_left_iff] at hrows'
    rw [hdeliveries, hkept', eq_map_of_forall₂ hrows' fun view hview ↦ by
      rw [field_ofView_order, deliveryRow_ofOrder (hstates view hview)]]
    simp [CustomerWeb.composeCartView]

end DinnerRush.CustomerWeb.Untrusted
