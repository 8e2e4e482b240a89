import DinnerRush.Orchestrator.Lifecycle

/-!
# Reading an order while it moves

`GET /orders/{order_id}` reads the row of the order and then its transitions, by two statements that
are no transaction. Between the two the order may be moved on, so an answer may show a state that is
behind its transitions. It never shows anything else: the transitions begin with the path to the
state shown and go on from there (`OrderView.Coherent`), and whoever asks again is shown the same
order, the same transitions with their times first, and a state at or after the one before
(`getOrder_polls`). Of the columns of the order only `state` and `updated_at` may differ then.
-/

set_option autoImplicit false
set_option relaxedAutoImplicit false

namespace DinnerRush.Orchestrator

open Concurrency

/-! ### The endpoint -/

/-- A transition as it is shown. -/
structure TransitionView where
  fromState : State
  toState : State
  cause : String
  attempt : ℤ
  createdAt : ℕ
  deriving DecidableEq, Repr

/-- An answer, with every column of the order. -/
structure OrderView where
  order : OrderRow
  transitions : List TransitionView
  deriving DecidableEq, Repr

def TransitionRow.view (row : TransitionRow) : TransitionView :=
  ⟨row.fromState, row.toState, row.cause, row.attempt, row.createdAt⟩

/-- `SELECT from_state, to_state, cause, attempt, created_at FROM transitions WHERE order_id = $1
ORDER BY id`: the rows. -/
def selectTransitions (d : Db) (orderId : String) : List TransitionRow :=
  (d.transitions.filter fun row ↦ row.orderId = orderId).insertionSort
    fun first second ↦ first.id ≤ second.id

/-- `get_order`, whose first statement reads one state of the database and whose second a later one.
Without a row the answer is 404. -/
def getOrder (d d' : Db) (orderId : String) : Option OrderView :=
  match Table.find OrderRow.orderId orderId d.orders with
  | none => none
  | some order => some ⟨order, (selectTransitions d' orderId).map TransitionRow.view⟩

/-! ### What an answer shows -/

def TransitionView.step (view : TransitionView) : State × State := (view.fromState, view.toState)

def OrderView.steps (view : OrderView) : List (State × State) :=
  view.transitions.map TransitionView.step

/-- The transitions shown lead to the state shown, and on from it. -/
def OrderView.Coherent (view : OrderView) : Prop :=
  ∃ seen later last, view.steps = seen ++ later ∧ IsPath Legal .placed seen view.order.state ∧
    IsPath Legal view.order.state later last

/-- A later answer shows the same order further on: each column is the same, that of the creation
included, but for `state` and `updated_at`, which a transition sets. -/
structure OrderView.Continues (view view' : OrderView) : Prop where
  core : view'.order.core = view.order.core
  transitions : view.transitions <+: view'.transitions
  state : ∃ steps, IsPath Legal view.order.state steps view'.order.state

section Reads

variable {d d' : Db} {orderId : String} {view : OrderView} {row row' : OrderRow}

theorem selectTransitions_eq (h : Ledger d) (hrow : row ∈ d.orders) :
    selectTransitions d row.orderId = (d.slice row.orderId).transitions :=
  ((h.order hrow).ordered.imp Nat.le_of_lt).insertionSort_eq

theorem path_selectTransitions (h : Ledger d) (hrow : row ∈ d.orders) :
    IsPath Legal .placed ((selectTransitions d row.orderId).map TransitionRow.step) row.state := by
  rw [selectTransitions_eq h hrow]
  exact (h.order hrow).path

theorem mem_selectTransitions {transition : TransitionRow} :
    transition ∈ selectTransitions d orderId ↔
      transition ∈ d.transitions ∧ transition.orderId = orderId := by
  rw [selectTransitions, List.mem_insertionSort, List.mem_filter, decide_eq_true_eq]

/-- The transitions of an order are only ever added to, and lead on from its state. -/
theorem exists_later_transitions (h : Ledger d) (h' : Ledger d') (hgrows : d.Grows d')
    (hrow : row ∈ d.orders) (hrow' : row' ∈ d'.orders) (hsame : row'.orderId = row.orderId) :
    ∃ later, selectTransitions d' row.orderId = selectTransitions d row.orderId ++ later ∧
      IsPath Legal row.state (later.map TransitionRow.step) row'.state := by
  have hpath' := path_selectTransitions h' hrow'
  rw [hsame] at hpath'
  refine IsPath.exists_append_of_subset depth_lt_of_legal (path_selectTransitions h hrow) hpath' ?_
  intro transition htransition
  obtain ⟨hmem, horder⟩ := mem_selectTransitions.mp htransition
  exact mem_selectTransitions.mpr ⟨hgrows.transitions transition hmem, horder⟩

theorem getOrder_some (h : getOrder d d' orderId = some view) :
    view.order ∈ d.orders ∧ view.order.orderId = orderId ∧
      view.transitions = (selectTransitions d' orderId).map TransitionRow.view := by
  unfold getOrder at h
  split at h
  · cases h
  · rename_i order hfind
    obtain rfl := Option.some.inj h
    obtain ⟨hmem, horder⟩ := Table.find_some hfind
    exact ⟨hmem, horder, rfl⟩

theorem getOrder_of_mem (d' : Db) (h : Ledger d) (hrow : row ∈ d.orders) :
    getOrder d d' row.orderId =
      some ⟨row, (selectTransitions d' row.orderId).map TransitionRow.view⟩ := by
  have hunique : Table.Unique OrderRow.orderId d.orders := (lawfulTables_of_ledger h).orders
  unfold getOrder
  rw [hunique.find_of_mem hrow]

theorem steps_view (rows : List TransitionRow) :
    (rows.map TransitionRow.view).map TransitionView.step = rows.map TransitionRow.step := by
  rw [List.map_map]
  rfl

/-- An answer is coherent if the ledger only grew between its two statements. -/
theorem coherent_of_grows (h : Ledger d) (h' : Ledger d') (hgrows : d.Grows d')
    (hview : getOrder d d' orderId = some view) : view.Coherent := by
  obtain ⟨hmem, rfl, htransitions⟩ := getOrder_some hview
  obtain ⟨row', hrow', hcore⟩ := hgrows.orders view.order hmem
  obtain ⟨later, hlater, hpath⟩ :=
    exists_later_transitions h h' hgrows hmem hrow' (orderId_of_core hcore)
  refine ⟨(selectTransitions d view.order.orderId).map TransitionRow.step,
    later.map TransitionRow.step, row'.state, ?_, path_selectTransitions h hmem, hpath⟩
  rw [OrderView.steps, htransitions, steps_view, hlater, List.map_append]

/-- An answer whose statements come after those of another continues it. -/
theorem continues_of_grows {d₁ d₂ d₃ d₄ : Db} (h₁ : Ledger d₁) (h₂ : Ledger d₂) (h₃ : Ledger d₃)
    (h₄ : Ledger d₄) (h₁₂ : d₁.Grows d₂) (h₂₃ : d₂.Grows d₃) (h₃₄ : d₃.Grows d₄)
    (hview : getOrder d₁ d₂ orderId = some view) :
    ∃ view', getOrder d₃ d₄ orderId = some view' ∧ view.Continues view' := by
  obtain ⟨hmem, rfl, htransitions⟩ := getOrder_some hview
  obtain ⟨row₂, hrow₂, hcore₂⟩ := h₁₂.orders view.order hmem
  obtain ⟨row₃, hrow₃, hcore₃⟩ := h₂₃.orders row₂ hrow₂
  obtain ⟨row₄, hrow₄, hcore₄⟩ := h₃₄.orders row₃ hrow₃
  have hid₂ := orderId_of_core hcore₂
  have hid₃ : row₃.orderId = view.order.orderId := (orderId_of_core hcore₃).trans hid₂
  have hid₄ : row₄.orderId = row₂.orderId :=
    (orderId_of_core hcore₄).trans (orderId_of_core hcore₃)
  have hfound := getOrder_of_mem d₄ h₃ hrow₃
  rw [hid₃] at hfound
  refine ⟨_, hfound, hcore₃.trans hcore₂, ?_, ?_⟩
  · obtain ⟨later, hlater, -⟩ :=
      exists_later_transitions h₂ h₄ (h₂₃.trans h₃₄) hrow₂ hrow₄ hid₄
    rw [hid₂] at hlater
    rw [htransitions]
    show _ <+: (selectTransitions d₄ view.order.orderId).map TransitionRow.view
    rw [hlater, List.map_append]
    exact List.prefix_append _ _
  · obtain ⟨later, -, hpath⟩ :=
      exists_later_transitions h₁ h₃ (h₁₂.trans h₂₃) hmem hrow₃ hid₃
    exact ⟨_, hpath⟩

end Reads

/-! ### Polling -/

section Polls

variable {cfg : Config} {D : Downstreams} {foreign : Publication → Bool}
  {w w' : World (orchestrator cfg D foreign)}

theorem steps_bare (hrun : Relation.ReflTransGen (World.Step World.anyEffect) w w') :
    Relation.ReflTransGen (World.Step (discipline (Setting.bare cfg D foreign)).Permit) w w' :=
  Relation.ReflTransGen.mono (fun w _ ⟨action, _, hact⟩ ↦ ⟨action, permitted_bare w action, hact⟩)
    _ _ hrun

theorem holds_bare (hw : World.Reachable World.anyEffect w) :
    (discipline (Setting.bare cfg D foreign)).Holds w :=
  Discipline.holds_of_reachable (verified (Setting.bare cfg D foreign)) (steps_bare hw)

theorem ledger_of_reachable (hw : World.Reachable World.anyEffect w) :
    Ledger w.shared.db.committed := (holds_bare hw).inv.tables.ledger

/-- Along a run the database only grows. -/
theorem grows_of_run (hw : World.Reachable World.anyEffect w)
    (hrun : Relation.ReflTransGen (World.Step World.anyEffect) w w') :
    w.shared.db.committed.Grows w'.shared.db.committed :=
  (((holds_bare hw).run (verified (Setting.bare cfg D foreign)) (steps_bare hrun)).2.2 w'.next
    (Nat.le_refl _)).db

/-- **Polling an order**: an answer is coherent, whatever happened between its two statements, and
an answer asked for later shows the same order further on. -/
theorem getOrder_polls (cfg : Config) (D : Downstreams) (foreign : Publication → Bool)
    {w₁ w₂ w₃ w₄ : World (orchestrator cfg D foreign)}
    (hw : World.Reachable World.anyEffect w₁)
    (h₁₂ : Relation.ReflTransGen (World.Step World.anyEffect) w₁ w₂)
    (h₂₃ : Relation.ReflTransGen (World.Step World.anyEffect) w₂ w₃)
    (h₃₄ : Relation.ReflTransGen (World.Step World.anyEffect) w₃ w₄)
    {orderId : String} {view : OrderView}
    (h : getOrder w₁.shared.db.committed w₂.shared.db.committed orderId = some view) :
    view.Coherent ∧ ∃ view',
      getOrder w₃.shared.db.committed w₄.shared.db.committed orderId = some view' ∧
        view'.Coherent ∧ view.Continues view' := by
  have hw₂ : World.Reachable World.anyEffect w₂ := hw.trans h₁₂
  have hw₃ : World.Reachable World.anyEffect w₃ := hw₂.trans h₂₃
  have hw₄ : World.Reachable World.anyEffect w₄ := hw₃.trans h₃₄
  have hgrows := grows_of_run hw h₁₂
  have hgrows' := grows_of_run hw₃ h₃₄
  obtain ⟨view', hview', hcontinues⟩ := continues_of_grows (ledger_of_reachable hw)
    (ledger_of_reachable hw₂) (ledger_of_reachable hw₃) (ledger_of_reachable hw₄) hgrows
    (grows_of_run hw₂ h₂₃) hgrows' h
  exact ⟨coherent_of_grows (ledger_of_reachable hw) (ledger_of_reachable hw₂) hgrows h, view',
    hview', coherent_of_grows (ledger_of_reachable hw₃) (ledger_of_reachable hw₄) hgrows' hview',
    hcontinues⟩

end Polls

/-- An order is placed when the clock of the database shows 7. -/
def placedWorld : World (orchestrator {} .any fun _ ↦ true) :=
  ((World.initial _).run (.ambient (Ambient.tick 7) :: placing)).get (by decide +kernel)

/-- It is confirmed when the clock shows 12. -/
def polledWorld : World (orchestrator {} .any fun _ ↦ true) :=
  (placedWorld.run (.ambient (.tick 5) :: advancing)).get (by decide +kernel)

/-- The first statement reads the order when it is placed and the second when it is confirmed, and
later the order is asked for again. -/
theorem getOrder_polls_polledWorld :
    ((getOrder placedWorld.shared.db.committed polledWorld.shared.db.committed dinnerId).map
        fun view ↦ (view.order.state, view.order.createdAt, view.order.updatedAt,
          view.transitions)) =
      some (.placed, 7, 7, [⟨.placed, .confirmed, "advance", 1, 12⟩]) ∧
    ((getOrder polledWorld.shared.db.committed polledWorld.shared.db.committed dinnerId).map
        fun view ↦ (view.order.state, view.order.createdAt, view.order.updatedAt)) =
      some (.confirmed, 7, 12) ∧
    ∀ view, getOrder placedWorld.shared.db.committed polledWorld.shared.db.committed dinnerId =
      some view → view.Coherent ∧ ∃ view', getOrder polledWorld.shared.db.committed
        polledWorld.shared.db.committed dinnerId = some view' ∧ view'.Coherent ∧
          view.Continues view' := by
  have hrun : Relation.ReflTransGen (World.Step World.anyEffect) placedWorld polledWorld :=
    World.reflTransGen_of_run (Option.some_get _).symm
  exact ⟨by decide +kernel, by decide +kernel, fun view hview ↦ getOrder_polls {} .any _
    (World.reachable_of_run (Option.some_get _).symm) hrun .refl .refl hview⟩

end DinnerRush.Orchestrator
