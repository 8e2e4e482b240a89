import DinnerRush.Orchestrator.Schema
import DinnerRush.StepPath

/-!
# The ledger of an order

What the tables hold about one order is its `Slice`: its row, its transitions, its operations and
its messages in the outbox, each in the order of commits. `Consistent` says that a slice is that of
no order, or that of an order whose transitions form a path from placed to its state, with one
operation and one event for each step and one command for each open state entered. Every transaction
of the orchestrator writes to one slice only, and the two kinds that change one, seeding an order
and recording a step, keep it consistent (`consistent_seed`, `Consistent.step`).

`guarding` is what the row lock of an order guards: its slice.
-/

set_option autoImplicit false
set_option relaxedAutoImplicit false

namespace DinnerRush.Orchestrator

open Concurrency

/-- The steps of the lifecycle. -/
def Legal (source target : State) : Prop := canTransition source target = true

theorem depth_lt_of_legal (source target : State) (h : Legal source target) :
    source.depth < target.depth :=
  depth_lt_of_canTransition h

def TransitionRow.step (row : TransitionRow) : State × State := (row.fromState, row.toState)

/-- What the tables hold about one order; the outbox without the stamps. -/
structure Slice where
  orders : List OrderRow
  transitions : List TransitionRow
  operations : List OperationRow
  outbox : List OutboxRow

def Db.slice (d : Db) (orderId : String) : Slice where
  orders := d.orders.filter fun row ↦ row.orderId = orderId
  transitions := d.transitions.filter fun row ↦ row.orderId = orderId
  operations := d.operations.filter fun row ↦ row.orderId = orderId
  outbox := (d.outbox.filter fun row ↦ row.payload.orderId = orderId).map Outbox.unstamped

/-- What a write does to the slice of the order it is about. -/
def Slice.apply (x : Slice) : Write → Slice
  | .insertOrder row => { x with orders := x.orders ++ [row] }
  | .claim row => { x with operations := x.operations ++ [row] }
  | .setState _ state now =>
    { x with orders := x.orders.map fun row ↦ { row with state := state, updatedAt := now } }
  | .insertTransition row => { x with transitions := x.transitions ++ [row] }
  | .enqueue row => { x with outbox := x.outbox ++ [Outbox.unstamped row] }
  | .stamp _ => x

/-- The order a write is about. -/
def Write.orderId : Write → Option String
  | insertOrder row => some row.orderId
  | claim row => some row.orderId
  | setState orderId _ _ => some orderId
  | insertTransition row => some row.orderId
  | enqueue row => some row.payload.orderId
  | stamp _ => none

theorem slice_stamp (d : Db) (ids : List ℕ) (orderId : String) :
    (d.apply (.stamp ids)).slice orderId = d.slice orderId := by
  have houtbox : ((Outbox.stamp ids d.outbox).filter fun row ↦
      row.payload.orderId = orderId).map Outbox.unstamped =
      (d.outbox.filter fun row ↦ row.payload.orderId = orderId).map Outbox.unstamped := by
    rw [Outbox.stamp]
    induction d.outbox with
    | nil => rfl
    | cons row rest ih =>
      rw [List.map_cons, List.filter_cons, List.filter_cons]
      by_cases hrow : row.payload.orderId = orderId
      · by_cases hid : row.id ∈ ids <;> simp [hrow, hid, ih, Outbox.unstamped]
      · by_cases hid : row.id ∈ ids <;> simp [hrow, hid, ih]
  simp [Db.apply, Db.slice, houtbox]

theorem slice_apply_of_ne {d : Db} {write : Write} {orderId : String}
    (h : write.orderId ≠ some orderId) : (d.apply write).slice orderId = d.slice orderId := by
  cases write with
  | insertOrder row =>
    have hne : row.orderId ≠ orderId := fun hsame ↦ h (congrArg some hsame)
    simp [Db.apply, Db.slice, hne]
  | claim row =>
    have hne : row.orderId ≠ orderId := fun hsame ↦ h (congrArg some hsame)
    simp [Db.apply, Db.slice, hne]
  | setState other state now =>
    have hne : other ≠ orderId := fun hsame ↦ h (congrArg some hsame)
    have horders : (d.orders.map fun row ↦
        if row.orderId = other then { row with state := state, updatedAt := now } else row).filter
          (fun row ↦ row.orderId = orderId) = d.orders.filter fun row ↦ row.orderId = orderId := by
      induction d.orders with
      | nil => rfl
      | cons row rest ih =>
        rw [List.map_cons, List.filter_cons, List.filter_cons, ih]
        by_cases hrow : row.orderId = other
        · simp [hrow, hne]
        · simp [hrow]
    simp [Db.apply, Db.slice, horders]
  | insertTransition row =>
    have hne : row.orderId ≠ orderId := fun hsame ↦ h (congrArg some hsame)
    simp [Db.apply, Db.slice, hne]
  | enqueue row =>
    have hne : row.payload.orderId ≠ orderId := fun hsame ↦ h (congrArg some hsame)
    simp [Db.apply, Db.slice, hne]
  | stamp ids => exact slice_stamp d ids orderId

theorem slice_apply {d : Db} {write : Write} {orderId : String}
    (h : write.orderId = some orderId) :
    (d.apply write).slice orderId = (d.slice orderId).apply write := by
  cases write with
  | insertOrder row =>
    obtain rfl : row.orderId = orderId := Option.some.inj h
    simp [Db.apply, Db.slice, Slice.apply]
  | claim row =>
    obtain rfl : row.orderId = orderId := Option.some.inj h
    simp [Db.apply, Db.slice, Slice.apply]
  | setState other state now =>
    obtain rfl : other = orderId := Option.some.inj h
    have horders : (d.orders.map fun row ↦
        if row.orderId = other then { row with state := state, updatedAt := now } else row).filter
          (fun row ↦ row.orderId = other) =
        (d.orders.filter fun row ↦ row.orderId = other).map fun row ↦
          { row with state := state, updatedAt := now } := by
      induction d.orders with
      | nil => rfl
      | cons row rest ih =>
        rw [List.map_cons, List.filter_cons, List.filter_cons, ih]
        by_cases hrow : row.orderId = other
        · simp [hrow]
        · simp [hrow]
    simp [Db.apply, Db.slice, Slice.apply, horders]
  | insertTransition row =>
    obtain rfl : row.orderId = orderId := Option.some.inj h
    simp [Db.apply, Db.slice, Slice.apply]
  | enqueue row =>
    obtain rfl : row.payload.orderId = orderId := Option.some.inj h
    simp [Db.apply, Db.slice, Slice.apply]
  | stamp ids => simp [Write.orderId] at h

/-- Writes about one order change its slice only. -/
theorem slice_foldl {writes : List Write} {orderId : String}
    (h : ∀ write ∈ writes, write.orderId = some orderId) (d : Db) :
    (writes.foldl Db.apply d).slice orderId = writes.foldl Slice.apply (d.slice orderId) := by
  induction writes generalizing d with
  | nil => rfl
  | cons write rest ih =>
    rw [List.foldl_cons, List.foldl_cons,
      ih (fun later hlater ↦ h later (List.mem_cons_of_mem write hlater)),
      slice_apply (h write List.mem_cons_self)]

theorem slice_foldl_of_ne {writes : List Write} {orderId : String}
    (h : ∀ write ∈ writes, write.orderId ≠ some orderId) (d : Db) :
    (writes.foldl Db.apply d).slice orderId = d.slice orderId := by
  induction writes generalizing d with
  | nil => rfl
  | cons write rest ih =>
    rw [List.foldl_cons, ih (fun later hlater ↦ h later (List.mem_cons_of_mem write hlater)),
      slice_apply_of_ne (h write List.mem_cons_self)]

/-! ### Consistency -/

namespace Slice

/-- The slice of no order. -/
def empty : Slice := ⟨[], [], [], []⟩

/-- The steps of an order, in the order of the table. -/
def steps (x : Slice) : List (State × State) := x.transitions.map TransitionRow.step

/-- The states an order has entered and can leave. -/
def openStates (x : Slice) : List State :=
  (State.placed :: x.steps.map Prod.snd).filter fun state ↦ !isTerminal state

/-- The `from` and `to` of the `order.transition` messages. -/
def events (x : Slice) : List (Option String × Option String) :=
  (x.outbox.filter fun row ↦ row.payload.type = .transition).map fun row ↦
    (row.payload.data.fromState, row.payload.data.toState)

/-- The `from` of the `order.advance` messages. -/
def commands (x : Slice) : List (Option String) :=
  (x.outbox.filter fun row ↦ row.payload.type = .advance).map fun row ↦ row.payload.data.fromState

end Slice

/-- A command goes to the work queue and an event to its exchange. -/
def Addressed (row : OutboxRow) : Prop :=
  (row.payload.type = .advance ∧ row.exchange = .work ∧ row.routingKey = rkAdvance) ∨
    (row.payload.type = .transition ∧ row.exchange = .events ∧ row.routingKey = rkTransition)

/-- The slice is that of an order with this row. -/
structure ConsistentOrder (orderId : String) (x : Slice) (row : OrderRow) : Prop where
  orders : x.orders = [row]
  path : IsPath Legal .placed x.steps row.state
  ordered : x.transitions.Pairwise fun first second ↦ first.id < second.id
  operations : x.operations.map OperationRow.opId =
    x.steps.map fun step ↦ opIdFor orderId step.1 step.2
  events : x.events = x.steps.map fun step ↦ (some step.1.value, some step.2.value)
  commands : x.commands = x.openStates.map fun state ↦ some state.value
  addressed : ∀ out ∈ x.outbox, Addressed out

def Consistent (orderId : String) (x : Slice) : Prop :=
  x = .empty ∨ ∃ row, ConsistentOrder orderId x row

/-- The message tells the consumer to advance the order from a state. -/
structure Commands (orderId : String) (source : State) (out : OutboxRow) : Prop where
  orderId : out.payload.orderId = orderId
  type : out.payload.type = .advance
  fromState : out.payload.data.fromState = some source.value
  exchange : out.exchange = .work
  routingKey : out.routingKey = rkAdvance

/-- The message reports a step. -/
structure Reports (orderId : String) (source target : State) (out : OutboxRow) : Prop where
  orderId : out.payload.orderId = orderId
  type : out.payload.type = .transition
  fromState : out.payload.data.fromState = some source.value
  toState : out.payload.data.toState = some target.value
  exchange : out.exchange = .events
  routingKey : out.routingKey = rkTransition

/-- Seeding makes the slice of a new order. -/
theorem consistent_seed {orderId : String} {row : OrderRow} {seed : OutboxRow}
    (hstate : row.state = .placed) (hseed : Commands orderId .placed seed) :
    Consistent orderId (((Slice.empty).apply (.insertOrder row)).apply (.enqueue seed)) := by
  refine Or.inr ⟨row, ?_⟩
  constructor
  · rfl
  · exact hstate.symm
  · exact List.Pairwise.nil
  · rfl
  · simp [Slice.events, Slice.steps, Slice.apply, Slice.empty, Outbox.unstamped, hseed.type]
  · simp [Slice.commands, Slice.openStates, Slice.steps, Slice.apply, Slice.empty,
      Outbox.unstamped, hseed.type, hseed.fromState, isTerminal, terminalStates]
  · intro out hout
    obtain rfl : out = Outbox.unstamped seed := by simpa [Slice.apply, Slice.empty] using hout
    exact Or.inl ⟨hseed.type, hseed.exchange, hseed.routingKey⟩

/-- The writes of a step, with the next command unless the order is finished. -/
def stepWrites (orderId : String) (target : State) (now : ℕ) (operation : OperationRow)
    (transition : TransitionRow) (event : OutboxRow) (command : Option OutboxRow) : List Write :=
  [.claim operation, .setState orderId target now, .insertTransition transition, .enqueue event] ++
    command.toList.map .enqueue

/-- The rows written record a step of an order. -/
structure Records (orderId : String) (source target : State) (operation : OperationRow)
    (transition : TransitionRow) (event : OutboxRow) (command : Option OutboxRow) : Prop where
  opId : operation.opId = opIdFor orderId source target
  step : transition.step = (source, target)
  event : Reports orderId source target event
  command : (command = none ∧ isTerminal target = true) ∨
    ∃ out, command = some out ∧ isTerminal target = false ∧ Commands orderId target out

/-- Recording a legal step from the state of the order keeps its slice consistent. -/
theorem ConsistentOrder.step {orderId : String} {x : Slice} {row : OrderRow} {target : State}
    {operation : OperationRow} {transition : TransitionRow} {event : OutboxRow}
    {command : Option OutboxRow} (h : ConsistentOrder orderId x row)
    (hlegal : Legal row.state target)
    (hrecords : Records orderId row.state target operation transition event command)
    (hid : ∀ earlier ∈ x.transitions, earlier.id < transition.id) (now : ℕ) :
    ConsistentOrder orderId
      ((stepWrites orderId target now operation transition event command).foldl Slice.apply x)
      { row with state := target, updatedAt := now } := by
  have hresult : (stepWrites orderId target now operation transition event command).foldl
      Slice.apply x = ⟨x.orders.map fun row ↦ { row with state := target, updatedAt := now },
        x.transitions ++ [transition], x.operations ++ [operation],
        x.outbox ++ [Outbox.unstamped event] ++ command.toList.map Outbox.unstamped⟩ := by
    cases command <;> simp [stepWrites, Slice.apply]
  have hsteps : ∀ y : Slice, y.transitions = x.transitions ++ [transition] →
      y.steps = x.steps ++ [(row.state, target)] := by
    intro y hy
    rw [Slice.steps, hy, List.map_append, List.map_singleton, hrecords.step]
    rfl
  rw [hresult]
  constructor
  · simp [h.orders]
  · rw [hsteps _ rfl]
    exact h.path.snoc hlegal
  · rw [List.pairwise_append]
    exact ⟨h.ordered, List.pairwise_singleton _ _, by simpa using hid⟩
  · rw [hsteps _ rfl, List.map_append, List.map_append, h.operations]
    simp [hrecords.opId]
  · rw [hsteps _ rfl, List.map_append, ← h.events]
    rcases hrecords.command with ⟨rfl, -⟩ | ⟨out, rfl, -, hout⟩
    · simp [Slice.events, Outbox.unstamped, hrecords.event.type, hrecords.event.fromState,
        hrecords.event.toState]
    · simp [Slice.events, Outbox.unstamped, hrecords.event.type, hrecords.event.fromState,
        hrecords.event.toState, hout.type]
  · have hopen : ∀ y : Slice, y.transitions = x.transitions ++ [transition] →
        y.openStates = x.openStates ++ if isTerminal target then [] else [target] := by
      intro y hy
      rw [Slice.openStates, hsteps y hy, List.map_append, ← List.cons_append, List.filter_append]
      by_cases hterminal : isTerminal target <;> simp [Slice.openStates, hterminal]
    rw [hopen _ rfl, List.map_append, ← h.commands]
    rcases hrecords.command with ⟨rfl, hterminal⟩ | ⟨out, rfl, hterminal, hout⟩
    · simp [Slice.commands, Outbox.unstamped, hrecords.event.type, hterminal]
    · simp [Slice.commands, Outbox.unstamped, hrecords.event.type, hterminal, hout.type,
        hout.fromState]
  · intro out hmem
    rw [List.mem_append, List.mem_append] at hmem
    rcases hmem with (hold | hevent) | hcommand
    · exact h.addressed out hold
    · rw [List.mem_singleton.mp hevent]
      exact Or.inr ⟨hrecords.event.type, hrecords.event.exchange, hrecords.event.routingKey⟩
    · rcases hrecords.command with ⟨rfl, -⟩ | ⟨next, rfl, -, hnext⟩
      · simp at hcommand
      · obtain rfl : out = Outbox.unstamped next := by simpa using hcommand
        exact Or.inl ⟨hnext.type, hnext.exchange, hnext.routingKey⟩

/-! ### What a consistent ledger says -/

/-- The database holds the order and the order has been in the state. -/
def Entered (d : Db) (orderId : String) (state : State) : Prop :=
  (∃ row ∈ d.orders, row.orderId = orderId) ∧
    (state = .placed ∨ ∃ row ∈ d.transitions, row.orderId = orderId ∧ row.toState = state)

/-- The order has left the state. -/
def Left (d : Db) (orderId : String) (state : State) : Prop :=
  ∃ row ∈ d.transitions, row.orderId = orderId ∧ row.fromState = state

def Ledger (d : Db) : Prop := ∀ orderId, Consistent orderId (d.slice orderId)

variable {d : Db} {orderId : String} {state : State}

theorem mem_slice_transitions {row : TransitionRow} :
    row ∈ (d.slice orderId).transitions ↔ row ∈ d.transitions ∧ row.orderId = orderId := by
  simp [Db.slice]

theorem mem_slice_operations {row : OperationRow} :
    row ∈ (d.slice orderId).operations ↔ row ∈ d.operations ∧ row.orderId = orderId := by
  simp [Db.slice]

theorem mem_slice_orders {row : OrderRow} :
    row ∈ (d.slice orderId).orders ↔ row ∈ d.orders ∧ row.orderId = orderId := by
  simp [Db.slice]

theorem mem_slice_steps {source target : State} :
    (source, target) ∈ (d.slice orderId).steps ↔
      ∃ row ∈ d.transitions, row.orderId = orderId ∧ row.fromState = source ∧
        row.toState = target := by
  simp [Slice.steps, Db.slice, TransitionRow.step, and_assoc]

theorem left_iff : Left d orderId state ↔ ∃ step ∈ (d.slice orderId).steps, step.1 = state := by
  constructor
  · rintro ⟨row, hrow, horder, rfl⟩
    exact ⟨_, mem_slice_steps.mpr ⟨row, hrow, horder, rfl, rfl⟩, rfl⟩
  · rintro ⟨⟨source, target⟩, hstep, rfl⟩
    obtain ⟨row, hrow, horder, hsource, -⟩ := mem_slice_steps.mp hstep
    exact ⟨row, hrow, horder, hsource⟩

/-- The slice of an order that has a row. -/
theorem Ledger.order (h : Ledger d) {row : OrderRow} (hrow : row ∈ d.orders) :
    ConsistentOrder row.orderId (d.slice row.orderId) row := by
  have hmem : row ∈ (d.slice row.orderId).orders := mem_slice_orders.mpr ⟨hrow, rfl⟩
  rcases h row.orderId with hempty | ⟨other, hother⟩
  · rw [hempty] at hmem
    simp [Slice.empty] at hmem
  · have hsame : row = other := by simpa [hother.orders] using hmem
    rw [hsame] at hother ⊢
    exact hother

/-- What is not empty belongs to an order. -/
theorem Ledger.exists_order (h : Ledger d) (hslice : d.slice orderId ≠ .empty) :
    ∃ row ∈ d.orders, row.orderId = orderId ∧
      ConsistentOrder orderId (d.slice orderId) row := by
  rcases h orderId with hempty | ⟨row, hrow⟩
  · exact absurd hempty hslice
  · have hmem : row ∈ (d.slice orderId).orders := by simp [hrow.orders]
    obtain ⟨hrow', horder⟩ := mem_slice_orders.mp hmem
    exact ⟨row, hrow', horder, hrow⟩

theorem Ledger.eq_of_orderId (h : Ledger d) {row other : OrderRow} (hrow : row ∈ d.orders)
    (hother : other ∈ d.orders) (hsame : row.orderId = other.orderId) : row = other := by
  have hmem : other ∈ (d.slice row.orderId).orders := mem_slice_orders.mpr ⟨hother, hsame.symm⟩
  rw [(h.order hrow).orders, List.mem_singleton] at hmem
  exact hmem.symm

/-- An order has not left its state. -/
theorem Ledger.not_left (h : Ledger d) {row : OrderRow} (hrow : row ∈ d.orders) :
    ¬ Left d row.orderId row.state := by
  intro hleft
  obtain ⟨step, hstep, hsource⟩ := left_iff.mp hleft
  exact (h.order hrow).path.source_ne depth_lt_of_legal hstep hsource

/-- An order is in a state it has entered, or has left it. -/
theorem Ledger.eq_or_left (h : Ledger d) {row : OrderRow} (hrow : row ∈ d.orders)
    (hentered : Entered d row.orderId state) : row.state = state ∨ Left d row.orderId state := by
  have hstep : state = .placed ∨ ∃ step ∈ (d.slice row.orderId).steps, step.2 = state := by
    rcases hentered.2 with hplaced | ⟨transition, hmem, horder, hstate⟩
    · exact Or.inl hplaced
    · exact Or.inr ⟨_, mem_slice_steps.mpr ⟨transition, hmem, horder, rfl, rfl⟩, hstate⟩
  rcases (h.order hrow).path.left_of_entered hstep with hlast | hleft
  · exact Or.inl hlast.symm
  · exact Or.inr (left_iff.mpr hleft)

/-- An order has entered its state. -/
theorem Ledger.entered (h : Ledger d) {row : OrderRow} (hrow : row ∈ d.orders) :
    Entered d row.orderId row.state := by
  refine ⟨⟨row, hrow, rfl⟩, ?_⟩
  rcases (h.order hrow).path.entered_target with hplaced | ⟨⟨source, target⟩, hstep, hstate⟩
  · exact Or.inl hplaced
  · obtain ⟨transition, hmem, horder, -, htarget⟩ := mem_slice_steps.mp hstep
    exact Or.inr ⟨transition, hmem, horder, htarget.trans hstate⟩

/-- A claimed step has been taken. -/
theorem Ledger.left_of_operation (h : Ledger d) {operation : OperationRow}
    (hmem : operation ∈ d.operations) {source target : State}
    (hop : operation.opId = opIdFor orderId source target) : Left d orderId source := by
  have hslice : operation ∈ (d.slice operation.orderId).operations :=
    mem_slice_operations.mpr ⟨hmem, rfl⟩
  have hne : d.slice operation.orderId ≠ .empty := by
    intro hempty
    rw [hempty] at hslice
    simp [Slice.empty] at hslice
  obtain ⟨row, -, -, hrow⟩ := h.exists_order hne
  have hid : operation.opId ∈ (d.slice operation.orderId).operations.map OperationRow.opId :=
    List.mem_map_of_mem hslice
  rw [hrow.operations] at hid
  obtain ⟨step, hstep, hsame⟩ := List.mem_map.mp hid
  rw [hop] at hsame
  obtain ⟨horder, hsource, -⟩ := opIdFor_injective hsame
  rw [← horder]
  exact left_iff.mpr ⟨step, hstep, hsource⟩

theorem mem_openStates (hexists : ∃ row ∈ d.orders, row.orderId = orderId) :
    state ∈ (d.slice orderId).openStates ↔
      Entered d orderId state ∧ isTerminal state = false := by
  have hsteps : state ∈ (d.slice orderId).steps.map Prod.snd ↔
      ∃ row ∈ d.transitions, row.orderId = orderId ∧ row.toState = state := by
    constructor
    · intro hmem
      obtain ⟨⟨source, target⟩, hstep, rfl⟩ := List.mem_map.mp hmem
      obtain ⟨row, hrow, horder, -, htarget⟩ := mem_slice_steps.mp hstep
      exact ⟨row, hrow, horder, htarget⟩
    · rintro ⟨row, hrow, horder, rfl⟩
      exact List.mem_map.mpr ⟨_, mem_slice_steps.mpr ⟨row, hrow, horder, rfl, rfl⟩, rfl⟩
  rw [Slice.openStates, List.mem_filter, List.mem_cons, hsteps, Bool.not_eq_true']
  exact ⟨fun h ↦ ⟨⟨hexists, h.1⟩, h.2⟩, fun h ↦ ⟨h.1.2, h.2⟩⟩

/-- The messages of a slice are those of the outbox about the order, but for the stamps. -/
theorem exists_mem_outbox {out : OutboxRow} (h : out ∈ (d.slice orderId).outbox) :
    ∃ row ∈ d.outbox, row.payload.orderId = orderId ∧ Outbox.unstamped row = out := by
  obtain ⟨row, hrow, hsame⟩ := List.mem_map.mp h
  rw [List.mem_filter] at hrow
  exact ⟨row, hrow.1, by simpa using hrow.2, hsame⟩

theorem mem_slice_outbox {out : OutboxRow} (h : out ∈ d.outbox) :
    Outbox.unstamped out ∈ (d.slice out.payload.orderId).outbox :=
  List.mem_map_of_mem (List.mem_filter.mpr ⟨h, by simp⟩)

/-- The command of an order's open state is in the outbox. -/
theorem Ledger.command (h : Ledger d) {row : OrderRow} (hrow : row ∈ d.orders)
    (hopen : isTerminal row.state = false) :
    ∃ out ∈ d.outbox, Commands row.orderId row.state out := by
  have hstate : row.state ∈ (d.slice row.orderId).openStates :=
    (mem_openStates ⟨row, hrow, rfl⟩).mpr ⟨h.entered hrow, hopen⟩
  have hcommand : some row.state.value ∈ (d.slice row.orderId).commands := by
    rw [(h.order hrow).commands]
    exact List.mem_map_of_mem hstate
  obtain ⟨out, hout, hfrom⟩ := List.mem_map.mp hcommand
  rw [List.mem_filter, decide_eq_true_eq] at hout
  obtain ⟨stored, hstored, horder, rfl⟩ := exists_mem_outbox hout.1
  rcases (h.order hrow).addressed _ hout.1 with ⟨-, hexchange, hkey⟩ | ⟨htype, -⟩
  · exact ⟨stored, hstored, horder, hout.2, hfrom, hexchange, hkey⟩
  · rw [hout.2] at htype
    cases htype

/-- A command in the outbox names an open state that its order has entered. -/
theorem Ledger.entered_of_command (h : Ledger d) {out : OutboxRow} (hout : out ∈ d.outbox)
    (htype : out.payload.type = .advance) :
    ∃ source, isTerminal source = false ∧ Commands out.payload.orderId source out ∧
      Entered d out.payload.orderId source := by
  have hmem := mem_slice_outbox hout
  have hne : d.slice out.payload.orderId ≠ .empty := by
    intro hempty
    rw [hempty] at hmem
    simp [Slice.empty] at hmem
  obtain ⟨row, hrow, horder, hconsistent⟩ := h.exists_order hne
  have hcommand : out.payload.data.fromState ∈ (d.slice out.payload.orderId).commands :=
    List.mem_map.mpr ⟨_, List.mem_filter.mpr ⟨hmem, decide_eq_true htype⟩, rfl⟩
  rw [hconsistent.commands] at hcommand
  obtain ⟨source, hsource, hfrom⟩ := List.mem_map.mp hcommand
  obtain ⟨hentered, hopen⟩ := (mem_openStates ⟨row, hrow, horder⟩).mp hsource
  rcases hconsistent.addressed _ hmem with ⟨-, hexchange, hkey⟩ | ⟨htransition, -⟩
  · exact ⟨source, hopen, ⟨rfl, htype, hfrom.symm, hexchange, hkey⟩, hentered⟩
  · have hsame : out.payload.type = .transition := htransition
    rw [htype] at hsame
    cases hsame

/-! ### What stays -/

variable {d' : Db}

theorem Left.grows (h : Left d orderId state) (hgrows : d.Grows d') : Left d' orderId state := by
  obtain ⟨row, hrow, hleft⟩ := h
  exact ⟨row, hgrows.transitions row hrow, hleft⟩

theorem exists_order_grows (h : ∃ row ∈ d.orders, row.orderId = orderId) (hgrows : d.Grows d') :
    ∃ row ∈ d'.orders, row.orderId = orderId := by
  obtain ⟨row, hrow, horder⟩ := h
  obtain ⟨row', hrow', hcore⟩ := hgrows.orders row hrow
  exact ⟨row', hrow', (orderId_of_core hcore).trans horder⟩

theorem Entered.grows (h : Entered d orderId state) (hgrows : d.Grows d') :
    Entered d' orderId state := by
  refine ⟨exists_order_grows h.1 hgrows, h.2.imp_right ?_⟩
  rintro ⟨row, hrow, hstate⟩
  exact ⟨row, hgrows.transitions row hrow, hstate⟩

/-! ### What the locks guard -/

/-- The lock of an order guards its slice, the lock of a row of the outbox whether there is a row
with its id. -/
def guarding : Guarding Db Key Write where
  apply := Db.apply
  Touches write key :=
    (∃ orderId, write.orderId = some orderId ∧ key = .order orderId) ∨
      ∃ row, write = .enqueue row ∧ key = .outbox row.id
  Same key d d' :=
    match key with
    | .order orderId => d.slice orderId = d'.slice orderId
    | .operation _ => True
    | .outbox id => id ∈ d.outbox.map OutboxRow.id ↔ id ∈ d'.outbox.map OutboxRow.id
  same_refl key _ := by
    cases key with
    | order orderId => rfl
    | operation opId => trivial
    | outbox id => exact Iff.rfl
  same_trans key _ _ _ h h' := by
    cases key with
    | order orderId => exact Eq.trans h h'
    | operation opId => trivial
    | outbox id => exact Iff.trans h h'
  same_apply key d write h := by
    rw [not_or] at h
    cases key with
    | order orderId => exact (slice_apply_of_ne fun hsame ↦ h.1 ⟨orderId, hsame, rfl⟩).symm
    | operation opId => trivial
    | outbox id =>
      cases write with
      | enqueue row =>
        have hne : id ≠ row.id := by
          rintro rfl
          exact h.2 ⟨row, rfl, rfl⟩
        simp [Db.apply, hne]
      | stamp ids =>
        show _ ↔ id ∈ (Outbox.stamp ids d.outbox).map OutboxRow.id
        rw [Outbox.map_stamp OutboxRow.id fun _ ↦ rfl]
      | _ => exact Iff.rfl

end DinnerRush.Orchestrator
