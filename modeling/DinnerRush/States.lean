import Mathlib.Data.List.Basic

/-!
# The order lifecycle

`drcommon.states`. The table `allowed` is the specification of the lifecycle: no handler consults
it, so that an order only ever takes steps of the table is a result about the handlers. What the
table gives by itself is that every step strictly increases `State.depth`
(`depth_lt_of_canTransition`), so a path through it repeats no state.
-/

set_option autoImplicit false
set_option relaxedAutoImplicit false

namespace DinnerRush

inductive State
  | placed
  | confirmed
  | preparing
  | ready
  | outForDelivery
  | delivered
  | cancelled
  | failed
  deriving DecidableEq, Repr

namespace State

def value : State → String
  | placed => "placed"
  | confirmed => "confirmed"
  | preparing => "preparing"
  | ready => "ready"
  | outForDelivery => "out_for_delivery"
  | delivered => "delivered"
  | cancelled => "cancelled"
  | failed => "failed"

def all : List State :=
  [placed, confirmed, preparing, ready, outForDelivery, delivered, cancelled, failed]

/-- `State(value)`: the state with a given value, if there is one. -/
def ofValue (value : String) : Option State :=
  all.find? fun state ↦ state.value = value

theorem ofValue_value (state : State) : ofValue state.value = some state := by
  cases state <;> decide

theorem value_injective {first second : State} (h : first.value = second.value) :
    first = second := by
  have hfirst := ofValue_value first
  rw [h, ofValue_value second] at hfirst
  exact (Option.some.inj hfirst).symm

/-- How far along the lifecycle a state is; the states nothing leaves before delivery come last. -/
def depth : State → ℕ
  | placed => 0
  | confirmed => 1
  | preparing => 2
  | ready => 3
  | outForDelivery => 4
  | delivered => 5
  | cancelled => 6
  | failed => 6

end State

open State

/-- The happy-path ordering that drives the pipeline forward one step at a time. -/
def happyPath : List State :=
  [placed, confirmed, preparing, ready, outForDelivery, delivered]

def terminalStates : List State := [delivered, cancelled, failed]

/-- `_ALLOWED`: the legal steps. -/
def allowed : State → List State
  | placed => [confirmed, cancelled, failed]
  | confirmed => [preparing, cancelled, failed]
  | preparing => [ready, cancelled, failed]
  | ready => [outForDelivery, failed]
  | outForDelivery => [delivered, failed]
  | delivered => []
  | cancelled => []
  | failed => []

/-- The downstream services of the orchestrator. -/
inductive Service
  | payment
  | restaurant
  | courier
  deriving DecidableEq, Repr

def Service.name : Service → String
  | payment => "payment"
  | restaurant => "restaurant"
  | courier => "courier"

/-- `STAGE_DOWNSTREAM`: the service that the step into a state depends on. -/
def stageDownstream : State → Option Service
  | confirmed => some .payment
  | preparing => some .restaurant
  | outForDelivery => some .courier
  | _ => none

def canTransition (frm target : State) : Bool := decide (target ∈ allowed frm)

def isTerminal (state : State) : Bool := decide (state ∈ terminalStates)

/-- The next state on the happy path, if there is a forward step. -/
def nextHappyState (state : State) : Option State :=
  match happyPath.idxOf? state with
  | none => none
  | some idx => happyPath[idx + 1]?

theorem depth_lt_of_canTransition {frm target : State} (h : canTransition frm target) :
    frm.depth < target.depth := by
  revert h
  cases frm <;> cases target <;> decide

theorem canTransition_nextHappyState {frm target : State} (h : nextHappyState frm = some target) :
    canTransition frm target := by
  revert h
  cases frm <;> cases target <;> decide

theorem not_isTerminal_of_canTransition {frm target : State} (h : canTransition frm target) :
    isTerminal frm = false := by
  revert h
  cases frm <;> cases target <;> decide

theorem canTransition_failed {frm : State} (h : isTerminal frm = false) :
    canTransition frm failed := by
  revert h
  cases frm <;> decide

theorem nextHappyState_isSome {frm : State} (h : isTerminal frm = false) :
    (nextHappyState frm).isSome := by
  revert h
  cases frm <;> decide

/-- A step of the table goes to the next happy state, or cancels or fails the order. -/
theorem canTransition_cases {frm target : State} (h : canTransition frm target) :
    nextHappyState frm = some target ∨ target = cancelled ∨ target = failed := by
  revert h
  cases frm <;> cases target <;> decide

theorem nextHappyState_ne {frm target : State} (h : nextHappyState frm = some target) :
    target ≠ cancelled ∧ target ≠ failed := by
  revert h
  cases frm <;> cases target <;> decide

end DinnerRush
