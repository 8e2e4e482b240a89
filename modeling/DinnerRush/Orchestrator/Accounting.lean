import DinnerRush.Orchestrator.Reading
import Mathlib.Algebra.Order.BigOperators.Group.List
import Mathlib.Algebra.Order.Ring.Nat

/-!
# The tables balance

`GET /stats` counts the orders in each state, and nothing else in the service keeps count. What the
numbers mean is a conservation law of the tables (`Balanced`): the orders in a state are those that
entered it less those that left it, every step was claimed once and announced once, and there is one
command for each state that an order could leave. Each law is that of one order, whose transitions
are a path, added up over the orders (`Ledger.sum_congr`).
-/

set_option autoImplicit false
set_option relaxedAutoImplicit false

namespace DinnerRush.Orchestrator

open Concurrency

/-- `SELECT state, count(*) FROM orders GROUP BY state`: a state without orders has no group. -/
def stats (d : Db) (state : State) : Option ℕ :=
  match d.orders.countP fun row ↦ row.state = state with
  | 0 => none
  | count => some count

theorem stats_getD (d : Db) (state : State) :
    (stats d state).getD 0 = d.orders.countP fun row ↦ row.state = state := by
  unfold stats
  split
  · rename_i hzero
    exact hzero.symm
  · rfl

/-- What `stats` counts and what the tables record add up. -/
structure Balanced (d : Db) : Prop where
  /-- What entered a state is counted there by `stats`, or has left it. -/
  flow : ∀ state,
    (if state = .placed then d.orders.length else 0) +
        d.transitions.countP (fun row ↦ row.toState = state) =
      (stats d state).getD 0 + d.transitions.countP fun row ↦ row.fromState = state
  /-- The counts of `stats` are those of all orders. -/
  total : (State.all.map fun state ↦ (stats d state).getD 0).sum = d.orders.length
  operations : d.operations.length = d.transitions.length
  events : d.outbox.countP (fun out ↦ out.payload.type = .transition) = d.transitions.length
  commands : d.outbox.countP (fun out ↦ out.payload.type = .advance) +
      ((State.all.filter isTerminal).map fun state ↦ (stats d state).getD 0).sum =
    d.orders.length + d.transitions.length
  /-- Every step is that of an order, and no order takes more than five. -/
  owned : ∀ transition ∈ d.transitions, ∃ row ∈ d.orders, row.orderId = transition.orderId
  steps : ∀ row ∈ d.orders,
    (d.transitions.countP fun transition ↦ transition.orderId = row.orderId) ≤ 5

/-- The orders that meet a condition on their state are counted by `stats` state by state. -/
theorem sum_stats (d : Db) (p : State → Bool) :
    ((State.all.filter p).map fun state ↦ (stats d state).getD 0).sum =
      d.orders.countP fun row ↦ p row.state := by
  have hall : ∀ state : State, state ∈ State.all := fun state ↦ by cases state <;> decide
  have hkept : ∀ row ∈ d.orders.filter fun row ↦ p row.state, row.state ∈ State.all.filter p :=
    fun row hrow ↦ List.mem_filter.mpr ⟨hall row.state, (List.mem_filter.mp hrow).2⟩
  have hcount := Table.countP_eq_sum OrderRow.state (fun _ ↦ true)
    ((show State.all.Nodup by decide).filter p) hkept
  rw [List.countP_true, ← List.countP_eq_length_filter] at hcount
  rw [hcount]
  refine congrArg List.sum (List.map_congr_left fun state hstate ↦ ?_)
  rw [stats_getD, List.filter_filter, List.countP_eq_length_filter]
  refine congrArg List.length (List.filter_congr fun row _ ↦ ?_)
  by_cases hsame : row.state = state
  · simp [hsame, (List.mem_filter.mp hstate).2]
  · simp [hsame]

/-! ### One order -/

section Order

variable {orderId : String} {x : Slice} {row : OrderRow}

theorem ConsistentOrder.flow (h : ConsistentOrder orderId x row) (state : State) :
    x.orders.countP (fun _ ↦ state = .placed) +
        x.transitions.countP (fun row ↦ row.toState = state) =
      x.orders.countP (fun row ↦ row.state = state) +
        x.transitions.countP fun row ↦ row.fromState = state := by
  have hcount := congrArg (List.countP fun other ↦ other = state) h.path.entered_eq
  rw [List.countP_cons, List.countP_append, List.countP_singleton, Slice.steps, List.map_map,
    List.map_map, List.countP_map, List.countP_map] at hcount
  rw [h.orders, List.countP_singleton, List.countP_singleton]
  simp only [Function.comp_def, TransitionRow.step, decide_eq_true_eq,
    eq_comm (a := State.placed)] at hcount ⊢
  omega

theorem ConsistentOrder.length_operations (h : ConsistentOrder orderId x row) :
    x.operations.length = x.transitions.length := by
  have hlength := congrArg List.length h.operations
  rwa [List.length_map, List.length_map, Slice.steps, List.length_map] at hlength

theorem ConsistentOrder.count_events (h : ConsistentOrder orderId x row) :
    x.outbox.countP (fun out ↦ out.payload.type = .transition) = x.transitions.length := by
  have hlength := congrArg List.length h.events
  rwa [Slice.events, List.length_map, List.length_map, Slice.steps, List.length_map,
    ← List.countP_eq_length_filter] at hlength

/-- Every state that the order left was open, and so is its state unless it is finished. -/
theorem ConsistentOrder.length_openStates (h : ConsistentOrder orderId x row) :
    x.openStates.length + (if isTerminal row.state then 1 else 0) = 1 + x.transitions.length := by
  have hleft : (x.steps.map Prod.fst).filter (fun state ↦ !isTerminal state) =
      x.steps.map Prod.fst := by
    rw [List.filter_eq_self]
    intro state hstate
    obtain ⟨step, hstep, rfl⟩ := List.mem_map.mp hstate
    rw [not_isTerminal_of_canTransition (h.path.rel hstep)]
    rfl
  rw [Slice.openStates, h.path.entered_eq, List.filter_append, hleft, List.length_append,
    List.length_map, Slice.steps, List.length_map]
  cases hterminal : isTerminal row.state <;> simp [hterminal] <;> omega

theorem ConsistentOrder.count_commands (h : ConsistentOrder orderId x row) :
    x.outbox.countP (fun out ↦ out.payload.type = .advance) +
        x.orders.countP (fun row ↦ isTerminal row.state) =
      x.orders.length + x.transitions.length := by
  have hlength := congrArg List.length h.commands
  rw [Slice.commands, List.length_map, List.length_map,
    ← List.countP_eq_length_filter] at hlength
  have hopen := h.length_openStates
  rw [hlength, h.orders, List.countP_singleton, hopen, List.length_singleton]

/-- An order takes at most five steps. -/
theorem ConsistentOrder.length_transitions (h : ConsistentOrder orderId x row) :
    x.transitions.length ≤ 5 := by
  have hnodup : (x.steps.map Prod.fst).Nodup := h.path.nodup_source depth_lt_of_legal
  have hsubset : x.steps.map Prod.fst ⊆
      [.placed, .confirmed, .preparing, .ready, .outForDelivery] := by
    intro state hstate
    obtain ⟨step, hstep, rfl⟩ := List.mem_map.mp hstate
    have hopen := not_isTerminal_of_canTransition (h.path.rel hstep)
    revert hopen
    cases step.1 <;> decide
  have hlength := (List.subperm_of_subset hnodup hsubset).length_le
  rwa [List.length_map, Slice.steps, List.length_map] at hlength

end Order

/-! ### All orders -/

section Sums

variable {d : Db} (h : Ledger d)

include h

theorem Ledger.countP_orders (p : OrderRow → Bool) : d.orders.countP p =
    ((d.orders.map OrderRow.orderId).map fun k ↦ (d.slice k).orders.countP p).sum :=
  Table.countP_eq_sum OrderRow.orderId p (lawfulTables_of_ledger h).orders fun _ ↦
    List.mem_map_of_mem

theorem Ledger.countP_transitions (p : TransitionRow → Bool) : d.transitions.countP p =
    ((d.orders.map OrderRow.orderId).map fun k ↦ (d.slice k).transitions.countP p).sum :=
  Table.countP_eq_sum TransitionRow.orderId p (lawfulTables_of_ledger h).orders
    fun transition hmem ↦ List.mem_map.mpr
      ((lawfulTables_of_ledger h).transitions transition hmem)

theorem Ledger.countP_operations (p : OperationRow → Bool) : d.operations.countP p =
    ((d.orders.map OrderRow.orderId).map fun k ↦ (d.slice k).operations.countP p).sum :=
  Table.countP_eq_sum OperationRow.orderId p (lawfulTables_of_ledger h).orders
    fun operation hmem ↦ List.mem_map.mpr ((lawfulTables_of_ledger h).operations operation hmem)

/-- Messages are counted by what they say, not by their stamps. -/
theorem Ledger.countP_outbox (p : Envelope → Bool) :
    d.outbox.countP (fun out ↦ p out.payload) = ((d.orders.map OrderRow.orderId).map fun k ↦
      (d.slice k).outbox.countP fun out ↦ p out.payload).sum := by
  rw [Table.countP_eq_sum (fun out ↦ out.payload.orderId) _ (lawfulTables_of_ledger h).orders
    fun out hmem ↦ List.mem_map.mpr ((lawfulTables_of_ledger h).outbox out hmem)]
  refine congrArg List.sum (List.map_congr_left fun k _ ↦ ?_)
  show _ = ((d.outbox.filter fun row ↦ row.payload.orderId = k).map Outbox.unstamped).countP _
  rw [List.countP_map]
  rfl

theorem Ledger.length_orders : d.orders.length =
    ((d.orders.map OrderRow.orderId).map fun k ↦ (d.slice k).orders.length).sum := by
  have hcount := h.countP_orders fun _ ↦ true
  simpa only [List.countP_true] using hcount

theorem Ledger.length_transitions : d.transitions.length =
    ((d.orders.map OrderRow.orderId).map fun k ↦ (d.slice k).transitions.length).sum := by
  have hcount := h.countP_transitions fun _ ↦ true
  simpa only [List.countP_true] using hcount

/-- What holds of the slice of every order holds of the sums over them. -/
theorem Ledger.sum_congr {f g : Slice → ℕ}
    (heq : ∀ orderId x row, ConsistentOrder orderId x row → f x = g x) :
    ((d.orders.map OrderRow.orderId).map fun k ↦ f (d.slice k)).sum =
      ((d.orders.map OrderRow.orderId).map fun k ↦ g (d.slice k)).sum := by
  refine congrArg List.sum (List.map_congr_left fun k hk ↦ ?_)
  obtain ⟨row, hrow, rfl⟩ := List.mem_map.mp hk
  exact heq _ _ row (h.order hrow)

theorem balanced_of_ledger : Balanced d where
  flow state := by
    have hplaced : (if state = .placed then d.orders.length else 0) =
        d.orders.countP fun _ ↦ state = .placed := by
      by_cases hstate : state = .placed <;> simp [hstate]
    rw [stats_getD, hplaced, h.countP_orders, h.countP_orders, h.countP_transitions,
      h.countP_transitions, ← List.sum_map_add, ← List.sum_map_add]
    exact h.sum_congr fun _ _ _ horder ↦ horder.flow state
  total := by
    have hall := sum_stats d fun _ ↦ true
    rwa [List.filter_true, List.countP_true] at hall
  operations := by
    have hcount := h.countP_operations fun _ ↦ true
    simp only [List.countP_true] at hcount
    rw [hcount, h.length_transitions]
    exact h.sum_congr fun _ _ _ horder ↦ horder.length_operations
  events := by
    rw [h.countP_outbox fun env ↦ env.type = .transition, h.length_transitions]
    exact h.sum_congr fun _ _ _ horder ↦ horder.count_events
  commands := by
    rw [sum_stats d isTerminal, h.countP_outbox fun env ↦ env.type = .advance, h.countP_orders,
      h.length_orders, h.length_transitions, ← List.sum_map_add, ← List.sum_map_add]
    exact h.sum_congr fun _ _ _ horder ↦ horder.count_commands
  owned := (lawfulTables_of_ledger h).transitions
  steps row hrow := by
    rw [List.countP_eq_length_filter]
    exact (h.order hrow).length_transitions

end Sums

/-- **The tables balance**, in every world of the orchestrator: whatever messages are published and
delivered, whatever the downstreams answer, and whatever fails. -/
theorem balanced (cfg : Config) (D : Downstreams) (foreign : Publication → Bool)
    {w : World (orchestrator cfg D foreign)} (hw : World.Reachable World.anyEffect w) :
    Balanced w.shared.db.committed :=
  balanced_of_ledger (ledger_of_reachable hw)

theorem balanced_confirmedWorld : Balanced confirmedWorld.shared.db.committed ∧
    State.all.map (stats confirmedWorld.shared.db.committed) =
      [none, some 1, none, none, none, none, none, none] ∧
    confirmedWorld.shared.db.committed.outbox.length = 3 :=
  ⟨balanced {} .any _ (World.reachable_of_run (Option.some_get _).symm), by decide +kernel,
    by decide +kernel⟩

/-! ### As orders move on -/

section Grows

variable {d d' : Db}

/-- Nothing leaves a finished state. -/
theorem eq_of_path_terminal {state last : State} {steps : List (State × State)}
    (h : IsPath Legal state steps last) (hterminal : isTerminal state) : last = state := by
  cases steps with
  | nil => exact Eq.symm h
  | cons first rest =>
    have hopen := not_isTerminal_of_canTransition h.2.1
    rw [h.1, hterminal] at hopen
    cases hopen

/-- Orders of a kind that is kept are never fewer later. -/
theorem countP_orders_le (h : Ledger d) (hgrows : d.Grows d') {p : OrderRow → Bool}
    (hkept : ∀ row ∈ d.orders, ∀ row' ∈ d'.orders, row'.core = row.core → p row → p row') :
    d.orders.countP p ≤ d'.orders.countP p := by
  have hnodup : ((d.orders.filter p).map OrderRow.orderId).Nodup :=
    (lawfulTables_of_ledger h).orders.filter p
  have hsubset : (d.orders.filter p).map OrderRow.orderId ⊆
      (d'.orders.filter p).map OrderRow.orderId := by
    intro orderId hmem
    obtain ⟨row, hrow, rfl⟩ := List.mem_map.mp hmem
    obtain ⟨hrow, hp⟩ := List.mem_filter.mp hrow
    obtain ⟨row', hrow', hcore⟩ := hgrows.orders row hrow
    exact List.mem_map.mpr ⟨row', List.mem_filter.mpr ⟨hrow', hkept row hrow row' hrow' hcore hp⟩,
      orderId_of_core hcore⟩
  have hlength := (List.subperm_of_subset hnodup hsubset).length_le
  rwa [List.length_map, List.length_map, ← List.countP_eq_length_filter,
    ← List.countP_eq_length_filter] at hlength

theorem length_orders_le (h : Ledger d) (hgrows : d.Grows d') :
    d.orders.length ≤ d'.orders.length := by
  have hcount := countP_orders_le (p := fun _ ↦ true) h hgrows fun _ _ _ _ _ htrue ↦ htrue
  simpa only [List.countP_true] using hcount

/-- Finished orders stay as they finished. -/
theorem countP_terminal_le (h : Ledger d) (h' : Ledger d') (hgrows : d.Grows d') {state : State}
    (hterminal : isTerminal state) :
    (d.orders.countP fun row ↦ row.state = state) ≤
      d'.orders.countP fun row ↦ row.state = state := by
  refine countP_orders_le h hgrows fun row hrow row' hrow' hcore hstate ↦ ?_
  rw [decide_eq_true_eq] at hstate ⊢
  obtain ⟨later, -, hpath⟩ :=
    exists_later_transitions h h' hgrows hrow hrow' (orderId_of_core hcore)
  rw [hstate] at hpath
  exact eq_of_path_terminal hpath hterminal

end Grows

end DinnerRush.Orchestrator
