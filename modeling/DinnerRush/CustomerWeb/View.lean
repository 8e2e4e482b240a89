import DinnerRush.Concurrency.Table
import DinnerRush.Models
import Mathlib.Data.List.Basic
import Mathlib.Logic.Relation
import Mathlib.Order.Basic
import Mathlib.Order.Nat

/-!
# The live view of a cart

`customer-web/src/lib/dr.ts`: the orders of a cart token are read from the orchestrator and composed
into one view. A state is a string here, as in the JSON that is read.

What the customer sees only moves on when the orders do (`onward_aggregateStatus`): the aggregate
status of any number of orders never steps back in the flow and never leaves a terminal status, as
long as each order has only taken steps of its lifecycle in between.
-/

set_option autoImplicit false
set_option relaxedAutoImplicit false

namespace DinnerRush.CustomerWeb

open Concurrency.Table

/-! ### The token and what is read -/

structure TokenOrder where
  id : String
  r : String
  deriving DecidableEq, Repr

/-- A cart token of version 1. -/
structure CartToken where
  hc : ℤ
  o : List TokenOrder
  deriving DecidableEq, Repr

structure OrchOrder where
  orderId : String
  state : String
  customerId : Option String
  restaurantId : Option String
  items : List Item
  totalCents : ℤ
  deriving DecidableEq, Repr

structure OrchTransition where
  fromState : Option String
  toState : String
  cause : Option String
  attempt : ℤ
  deriving DecidableEq, Repr

structure OrchView where
  order : OrchOrder
  transitions : List OrchTransition
  deriving DecidableEq, Repr

/-- What stands for an order that is not seeded yet. -/
def pending (order : TokenOrder) : OrchView where
  order :=
    { orderId := order.id, state := "placed", customerId := none, restaurantId := some order.r,
      items := [], totalCents := 0 }
  transitions := []

/-- The outcome of a `fetch`: a response, with its body if that is JSON, or a network error. -/
inductive Fetched
  | response (statusCode : ℕ) (body : Option OrchView)
  | error
  deriving DecidableEq, Repr

def fetchOrder (order : TokenOrder) : Fetched → OrchView
  | .response statusCode body =>
    if statusCode = 404 then pending order
    else if ¬ (200 ≤ statusCode ∧ statusCode < 300) then pending order
    else body.getD (pending order)
  | .error => pending order

/-! ### The aggregate status -/

/-- `FLOW`: lifecycle order, least to most advanced. -/
def flow : List String :=
  ["placed", "confirmed", "preparing", "ready", "out_for_delivery", "delivered"]

def flowIdx (state : String) : ℕ := (flow.idxOf? state).getD 0

def aggregateStatus (states : List String) : String :=
  if states.any fun state ↦ state == "failed" then "failed"
  else
    let active := states.filter fun state ↦ state != "cancelled"
    if active.isEmpty then "cancelled"
    else flow.getD (active.foldl (fun least state ↦ min least (flowIdx state)) (flow.length - 1)) ""

/-! ### The view -/

structure OrderRow where
  status : String
  headcount : ℤ
  customerName : Option String
  subtotalCents : ℤ
  totalCents : ℤ
  failureReason : Option String
  deriving DecidableEq, Repr

structure ItemRow where
  id : String
  restaurantId : String
  name : String
  qty : ℤ
  unitPriceCents : ℤ
  deriving DecidableEq, Repr

structure FulfillmentRow where
  id : String
  restaurantId : String
  status : String
  subtotalCents : ℤ
  deriving DecidableEq, Repr

structure DeliveryRow where
  id : String
  restaurantId : Option String
  status : String
  deriving DecidableEq, Repr

structure CartView where
  order : Option OrderRow
  items : List ItemRow
  fulfillments : List FulfillmentRow
  deliveries : List DeliveryRow
  deriving DecidableEq, Repr

/-- `KITCHEN_FROM_STATE`. -/
def kitchenFromState : String → String
  | "placed" => "pending"
  | "confirmed" => "placed"
  | "preparing" => "preparing"
  | "ready" => "ready"
  | "out_for_delivery" => "ready"
  | "delivered" => "ready"
  | "failed" => "failed"
  | "cancelled" => "cancelled"
  | _ => "pending"

/-- `DELIVERY_FROM_STATE`. -/
def deliveryFromState : String → String
  | "placed" => "pending"
  | "confirmed" => "pending"
  | "preparing" => "pending"
  | "ready" => "created"
  | "out_for_delivery" => "picked_up"
  | "delivered" => "delivered"
  | "failed" => "failed"
  | "cancelled" => "cancelled"
  | _ => "pending"

def itemRows (order : OrchOrder) : List ItemRow :=
  order.items.mapIdx fun index item ↦
    ⟨s!"{order.orderId}-{index}", order.restaurantId.getD "", item.name, item.qty,
      item.priceCents⟩

def fulfillmentRow (order : OrchOrder) : FulfillmentRow :=
  ⟨order.orderId, order.restaurantId.getD "", kitchenFromState order.state, order.totalCents⟩

def deliveryRow (order : OrchOrder) : DeliveryRow :=
  ⟨order.orderId ++ "-d", order.restaurantId, deliveryFromState order.state⟩

/-- The cause that a failed order gives. -/
def causeOf (view : OrchView) : Option String :=
  if view.order.state = "failed" then
    truthy ((view.transitions.find? fun row ↦ row.toState = "failed").bind OrchTransition.cause)
  else none

/-- The last cause that a failed order gives. -/
def failureReason (views : List OrchView) : Option String :=
  views.foldl (fun reason view ↦ (causeOf view).or reason) none

def firstCustomer (views : List OrchView) : Option String :=
  views.findSome? fun view ↦ truthy view.order.customerId

def orderRow (hc : ℤ) (views : List OrchView) : OrderRow where
  status := aggregateStatus (views.map fun view ↦ view.order.state)
  headcount := hc
  customerName := (firstCustomer views).filter fun name ↦ name ≠ "guest"
  subtotalCents := (views.map fun view ↦ view.order.totalCents).sum
  totalCents := (views.map fun view ↦ view.order.totalCents).sum
  failureReason := failureReason views

/-- `composeCartView`, from what `decodeCart` gave and what the fetches of the orders gave. -/
def composeCartView (decoded : Option CartToken) (fetched : List Fetched) : CartView :=
  match decoded with
  | none => ⟨none, [], [], []⟩
  | some token =>
    let views := token.o.zipWith fetchOrder fetched
    { order := some (orderRow token.hc views)
      items := views.flatMap fun view ↦ itemRows view.order
      fulfillments := views.map fun view ↦ fulfillmentRow view.order
      deliveries := views.map fun view ↦ deliveryRow view.order }

/-! ### The aggregate only moves on -/

/-- `TERMINAL`. -/
def terminal : List String := ["delivered", "cancelled", "failed"]

/-- A status may be shown after another: it does not step back in the flow, and does not leave a
terminal status. -/
def Onward (earlier later : String) : Prop :=
  if earlier ∈ terminal then later = earlier
  else later ∈ terminal ∨ flowIdx earlier ≤ flowIdx later

instance (earlier later : String) : Decidable (Onward earlier later) := by
  unfold Onward
  infer_instance

theorem onward_refl (status : String) : Onward status status := by
  unfold Onward
  split
  · rfl
  · exact Or.inr (Nat.le_refl _)

theorem Onward.trans {first second third : String} (h : Onward first second)
    (h' : Onward second third) : Onward first third := by
  unfold Onward at h h' ⊢
  by_cases hfirst : first ∈ terminal
  · rw [if_pos hfirst] at h ⊢
    rw [h, if_pos hfirst] at h'
    exact h'
  · rw [if_neg hfirst] at h ⊢
    by_cases hsecond : second ∈ terminal
    · rw [if_pos hsecond] at h'
      rw [h']
      exact Or.inl hsecond
    · rw [if_neg hsecond] at h'
      have hle := h.resolve_left hsecond
      exact h'.imp_right hle.trans

/-- An order has taken any number of legal steps. -/
def Reaches : State → State → Prop :=
  Relation.ReflTransGen fun frm target ↦ canTransition frm target = true

theorem Reaches.eq_of_terminal {frm target : State} (h : Reaches frm target)
    (hterminal : isTerminal frm = true) : target = frm := by
  induction h with
  | refl => rfl
  | tail _ hstep ih =>
    have hrest := not_isTerminal_of_canTransition hstep
    rw [ih, hterminal] at hrest
    cases hrest

theorem Reaches.depth_le {frm target : State} (h : Reaches frm target) :
    frm.depth ≤ target.depth := by
  induction h with
  | refl => exact Nat.le_refl _
  | tail _ hstep ih => exact ih.trans (Nat.le_of_lt (depth_lt_of_canTransition hstep))

theorem foldl_min (active : List String) (bound : ℕ) :
    active.foldl (fun least state ↦ min least (flowIdx state)) bound ≤ bound ∧
      (∀ state ∈ active,
        active.foldl (fun least state ↦ min least (flowIdx state)) bound ≤ flowIdx state) ∧
      (active.foldl (fun least state ↦ min least (flowIdx state)) bound = bound ∨
        ∃ state ∈ active,
          active.foldl (fun least state ↦ min least (flowIdx state)) bound = flowIdx state) := by
  induction active generalizing bound with
  | nil => exact ⟨Nat.le_refl _, nofun, Or.inl rfl⟩
  | cons first rest ih =>
    obtain ⟨hbound, hrest, hattained⟩ := ih (min bound (flowIdx first))
    rw [List.foldl_cons]
    refine ⟨hbound.trans (Nat.min_le_left _ _), fun state hstate ↦ ?_, ?_⟩
    · rcases List.mem_cons.mp hstate with rfl | hlater
      · exact hbound.trans (Nat.min_le_right _ _)
      · exact hrest state hlater
    · rcases hattained with hsame | ⟨state, hstate, hsame⟩
      · rcases Nat.le_total bound (flowIdx first) with hle | hle
        · rw [Nat.min_eq_left hle] at hsame ⊢
          exact Or.inl hsame
        · rw [Nat.min_eq_right hle] at hsame ⊢
          exact Or.inr ⟨first, List.mem_cons_self, hsame⟩
      · exact Or.inr ⟨state, List.mem_cons_of_mem first hstate, hsame⟩

theorem flowIdx_value {state : State} (hcancelled : state ≠ .cancelled)
    (hfailed : state ≠ .failed) : flowIdx state.value = state.depth := by
  revert hcancelled hfailed
  cases state <;> decide

theorem value_eq_failed {state : State} : state.value = "failed" ↔ state = .failed := by
  cases state <;> decide

theorem value_eq_cancelled {state : State} : state.value = "cancelled" ↔ state = .cancelled := by
  cases state <;> decide

/-- What the aggregate of some orders is. -/
theorem aggregateStatus_cases (states : List State) :
    (State.failed ∈ states ∧ aggregateStatus (states.map State.value) = "failed") ∨
      ((∀ state ∈ states, state = .cancelled) ∧
        aggregateStatus (states.map State.value) = "cancelled") ∨
      (State.failed ∉ states ∧ ∃ index < 6,
        aggregateStatus (states.map State.value) = flow.getD index "" ∧
          (∀ state ∈ states, state ≠ .cancelled → index ≤ state.depth) ∧
          (index = 5 ∨ ∃ state ∈ states, state ≠ .cancelled ∧ index = state.depth)) := by
  by_cases hfailed : State.failed ∈ states
  · refine Or.inl ⟨hfailed, ?_⟩
    unfold aggregateStatus
    rw [if_pos]
    rw [List.any_eq_true]
    exact ⟨"failed", List.mem_map.mpr ⟨.failed, hfailed, rfl⟩, rfl⟩
  · have hnone : ¬ ((states.map State.value).any fun state ↦ state == "failed") = true := by
      rw [List.any_eq_true]
      rintro ⟨value, hvalue, hsame⟩
      obtain ⟨state, hstate, rfl⟩ := List.mem_map.mp hvalue
      have hvalue' : state.value = "failed" := by simpa using hsame
      rw [value_eq_failed.mp hvalue'] at hstate
      exact hfailed hstate
    have hactive : (states.map State.value).filter (fun state ↦ state != "cancelled") =
        (states.filter fun state ↦ state ≠ .cancelled).map State.value := by
      rw [List.filter_map]
      congr 1
      refine List.filter_congr fun state _ ↦ ?_
      by_cases hcancelled : state = .cancelled
      · simp [hcancelled, State.value]
      · have hvalue : state.value ≠ "cancelled" := fun h ↦ hcancelled (value_eq_cancelled.mp h)
        simp [hcancelled, hvalue]
    unfold aggregateStatus
    rw [if_neg hnone]
    simp only [hactive]
    by_cases hempty : (states.filter fun state ↦ state ≠ .cancelled) = []
    · refine Or.inr (Or.inl ⟨fun state hstate ↦ ?_, by rw [hempty]; rfl⟩)
      rw [List.filter_eq_nil_iff] at hempty
      simpa using hempty state hstate
    · obtain ⟨hbound, hleast, hattained⟩ := foldl_min
        ((states.filter fun state ↦ state ≠ .cancelled).map State.value) (flow.length - 1)
      have hidx : ∀ state ∈ states, state ≠ .cancelled → flowIdx state.value = state.depth := by
        intro state hstate hcancelled
        refine flowIdx_value hcancelled ?_
        rintro rfl
        exact hfailed hstate
      have hnonempty : ((states.filter fun state ↦ state ≠ .cancelled).map
          State.value).isEmpty = false := by
        rw [List.isEmpty_eq_false_iff, Ne, List.map_eq_nil_iff]
        exact hempty
      rw [hnonempty, if_neg Bool.false_ne_true]
      refine Or.inr (Or.inr ⟨hfailed, _, ?_, rfl, fun state hstate hcancelled ↦ ?_, ?_⟩)
      · exact Nat.lt_of_le_of_lt hbound (by decide)
      · rw [← hidx state hstate hcancelled]
        apply hleast
        refine List.mem_map.mpr ⟨state, List.mem_filter.mpr ⟨hstate, ?_⟩, rfl⟩
        simpa using hcancelled
      · refine hattained.imp id ?_
        rintro ⟨value, hvalue, hsame⟩
        obtain ⟨state, hstate, rfl⟩ := List.mem_map.mp hvalue
        obtain ⟨hmem, hcancelled⟩ := List.mem_filter.mp hstate
        have hactive' : state ≠ .cancelled := by simpa using hcancelled
        exact ⟨state, hmem, hactive', hsame.trans (hidx state hmem hactive')⟩

theorem flowIdx_flow {index : ℕ} (h : index < 6) : flowIdx (flow.getD index "") = index := by
  revert index
  decide

theorem terminal_flow {index : ℕ} (h : index < 6) (hterminal : flow.getD index "" ∈ terminal) :
    index = 5 := by
  revert index
  decide

/-- A vector of orders that are all terminal stays as it is. -/
theorem eq_of_terminal {states states' : List State} (h : List.Forall₂ Reaches states states')
    (hterminal : ∀ state ∈ states, isTerminal state = true) : states' = states := by
  induction h with
  | nil => rfl
  | cons hhead _ ih =>
    rw [hhead.eq_of_terminal (hterminal _ List.mem_cons_self),
      ih fun state hstate ↦ hterminal state (List.mem_cons_of_mem _ hstate)]

/-- The aggregate of orders that have only taken legal steps only moves on. -/
theorem onward_aggregateStatus {states states' : List State}
    (h : List.Forall₂ Reaches states states') :
    Onward (aggregateStatus (states.map State.value))
      (aggregateStatus (states'.map State.value)) := by
  -- A vector whose aggregate is terminal moves no more, but for the orders beside a failed one.
  rcases aggregateStatus_cases states with ⟨hfailed, hstatus⟩ | ⟨hcancelled, hstatus⟩ |
    ⟨hnone, index, hindex, hstatus, hleast, -⟩
  · have hfailed' : State.failed ∈ states' := by
      obtain ⟨target, htarget, hreaches⟩ := (exists_mem_of_forall₂ h).1 .failed hfailed
      have hsame : target = .failed := hreaches.eq_of_terminal rfl
      rw [← hsame]
      exact htarget
    have hstatus' : aggregateStatus (states'.map State.value) = "failed" := by
      rcases aggregateStatus_cases states' with ⟨-, hstatus'⟩ | ⟨hcancelled, -⟩ | ⟨hnot, -⟩
      · exact hstatus'
      · have hother := hcancelled .failed hfailed'
        cases hother
      · exact absurd hfailed' hnot
    rw [hstatus, hstatus']
    exact onward_refl _
  · have hsame : states' = states :=
      eq_of_terminal h fun state hstate ↦ by rw [hcancelled state hstate]; rfl
    rw [hsame]
    exact onward_refl _
  · by_cases hlast : index = 5
    · -- Every order is delivered or cancelled.
      have hsame : states' = states := by
        refine eq_of_terminal h fun state hstate ↦ ?_
        by_cases hstateCancelled : state = .cancelled
        · rw [hstateCancelled]
          rfl
        · have hdepth := hleast state hstate hstateCancelled
          have hnotFailed : state ≠ .failed := fun hfailed ↦ hnone (hfailed ▸ hstate)
          rw [hlast] at hdepth
          revert hdepth hnotFailed
          cases state <;> decide
      rw [hsame]
      exact onward_refl _
    · have hgoing : aggregateStatus (states.map State.value) ∉ terminal := by
        rw [hstatus]
        exact fun hterminal ↦ hlast (terminal_flow hindex hterminal)
      unfold Onward
      rw [if_neg hgoing, hstatus, flowIdx_flow hindex]
      rcases aggregateStatus_cases states' with ⟨-, hstatus'⟩ | ⟨-, hstatus'⟩ |
        ⟨hnone', index', hindex', hstatus', -, hattained⟩
      · exact Or.inl (by rw [hstatus']; decide)
      · exact Or.inl (by rw [hstatus']; decide)
      · right
        rw [hstatus', flowIdx_flow hindex']
        rcases hattained with hfive | ⟨target, htarget, hactive, hdepth⟩
        · omega
        · obtain ⟨state, hstate, hreaches⟩ := (exists_mem_of_forall₂ h).2 target htarget
          have hstateActive : state ≠ .cancelled := by
            rintro rfl
            exact hactive (hreaches.eq_of_terminal rfl)
          rw [hdepth]
          exact (hleast state hstate hstateActive).trans hreaches.depth_le

end DinnerRush.CustomerWeb
