import DinnerRush.Orchestrator.ExactlyOnce

/-!
# The services are asked in the order of the lifecycle

What the three services hold, read against each other and against the orders. A ticket is fired
only for an order that was charged its total, and a courier is dispatched only for one with a ticket
(`inLifecycleOrder`). The services know nothing of each other: a service is asked for a step of an
order that has entered its source (`order_of_dispatch`), the only way into a state of the happy path
is the step before it (`took_of_entered`), and a step that was taken is backed by the record of its
service (`served_of_history`).

A declined charge ends the way of an order: no record of the kitchen or the couriers is ever about
it.
-/

set_option autoImplicit false
set_option relaxedAutoImplicit false

namespace DinnerRush.Orchestrator

open Concurrency

/-! ### The happy path has one way in -/

/-- A step into a state of the happy path is the happy one. -/
theorem nextHappyState_of_mem_happyPath {source target : State} (hlegal : Legal source target)
    (htarget : target ∈ happyPath) : nextHappyState source = some target := by
  rcases canTransition_cases hlegal with hnext | rfl | rfl
  · exact hnext
  · exact absurd htarget (by decide)
  · exact absurd htarget (by decide)

theorem mem_happyPath_of_nextHappyState {source target : State}
    (hnext : nextHappyState source = some target) : source ∈ happyPath := by
  revert hnext
  cases source <;> cases target <;> decide

theorem depth_succ_of_nextHappyState {source target : State}
    (hnext : nextHappyState source = some target) : target.depth = source.depth + 1 := by
  revert hnext
  cases source <;> cases target <;> decide

theorem mem_happyPath_nextHappyState {source target : State}
    (hnext : nextHappyState source = some target) : target ∈ happyPath := by
  revert hnext
  cases source <;> cases target <;> decide

/-- The states of the happy path are told apart by how far along they are. -/
theorem eq_of_depth {first second : State} (hfirst : first ∈ happyPath)
    (hsecond : second ∈ happyPath) (hdepth : first.depth = second.depth) : first = second := by
  revert hfirst hsecond hdepth
  cases first <;> cases second <;> decide

theorem nextHappyState_injective {first second target : State}
    (hfirst : nextHappyState first = some target) (hsecond : nextHappyState second = some target) :
    first = second := by
  revert hfirst hsecond
  cases first <;> cases second <;> cases target <;> decide

section Path

variable {steps : List (State × State)} {last source target state : State}

/-- An order that has been in a state of the happy path has taken every happy step up to it. -/
theorem took_of_path (h : IsPath Legal .placed steps last)
    (hnext : nextHappyState source = some target) (hstate : state ∈ happyPath)
    (hentered : state = .placed ∨ ∃ step ∈ steps, step.2 = state)
    (hdepth : target.depth ≤ state.depth) : (source, target) ∈ steps := by
  -- By induction on how far the state is: the step into it left the state before.
  induction hfar : state.depth generalizing state with
  | zero =>
    have hpositive := depth_succ_of_nextHappyState hnext
    omega
  | succ depth ih =>
    rcases hentered with rfl | ⟨⟨before, after⟩, hstep, rfl⟩
    · cases hfar
    · have hinto : nextHappyState before = some after :=
        nextHappyState_of_mem_happyPath (h.rel hstep) hstate
      have hbefore := depth_succ_of_nextHappyState hinto
      by_cases hsame : target.depth ≤ before.depth
      · refine ih (mem_happyPath_of_nextHappyState hinto) (h.entered_source hstep) hsame ?_
        simp only at hfar
        omega
      · have hsource := depth_succ_of_nextHappyState hnext
        simp only at hdepth
        obtain rfl : target = after :=
          eq_of_depth (mem_happyPath_nextHappyState hnext) hstate (by omega)
        rw [nextHappyState_injective hnext hinto]
        exact hstep

end Path

/-! ### What a service holds about an order -/

/-- The order has its record with a service: a charge of its total that succeeded, a ticket of the
kitchen or the dispatch of a courier. -/
def Served (s : Shared services) (row : OrderRow) : Service → Prop
  | .payment => ∃ charge ∈ charges s, charge.orderId = row.orderId ∧
      charge.idempotencyKey = opIdFor row.orderId .placed .confirmed ∧
      charge.status = .succeeded ∧ charge.amountCents = row.totalCents
  | .restaurant => ∃ ticket ∈ tickets s, ticket.orderId = row.orderId ∧
      ticket.opId = opIdFor row.orderId .confirmed .preparing
  | .courier => ∃ courier ∈ couriers s, courier.orderId = row.orderId ∧
      courier.opId = opIdFor row.orderId .ready .outForDelivery

section Recorded

variable {cfg : Config} {s : Shared services} {row : OrderRow} {source target state : State}

theorem served_of_done (h : Sound (composed cfg) s) (hrow : row ∈ s.db.committed.orders)
    {service : Service} (hdone : Services.Done s.downstream service
      (opIdFor row.orderId (stepOf service).1 (stepOf service).2)) : Served s row service := by
  have hservices : Services.Sound s.downstream := h.effects.inv
  cases service with
  | payment =>
    rcases hdone with ⟨-, charge, hcharge, hkey, hstatus⟩ | ⟨shared, hshared, -⟩
    · obtain ⟨other, hother, horder, hamount, hotherKey, -⟩ := order_of_charge h hcharge
      rw [hkey] at hotherKey
      have hsame : other = row := h.tables.ledger.eq_of_orderId hother hrow
        (opIdFor_injective hotherKey).1.symm
      rw [hsame] at horder hamount
      exact ⟨charge, hcharge, horder, hkey, hstatus, hamount⟩
    · cases hshared
  | restaurant =>
    exact exists_dispatch_of_done h .restaurant hservices.restaurant.inv rfl hdone
  | courier => exact exists_dispatch_of_done h .courier hservices.courier.inv rfl hdone

theorem done_of_served {service : Service} (h : Served s row service) :
    Services.Done s.downstream service
      (opIdFor row.orderId (stepOf service).1 (stepOf service).2) := by
  cases service with
  | payment =>
    obtain ⟨charge, hcharge, -, hkey, hstatus, -⟩ := h
    exact Or.inl ⟨rfl, charge, hcharge, hkey, hstatus⟩
  | restaurant =>
    obtain ⟨ticket, hticket, -, hopId⟩ := h
    exact Or.inr ⟨_, rfl, ticket, hticket, hopId⟩
  | courier =>
    obtain ⟨courier, hcourier, -, hopId⟩ := h
    exact Or.inr ⟨_, rfl, courier, hcourier, hopId⟩

/-- An order has taken every happy step up to a state that it has been in. -/
theorem took_of_entered (h : Sound (composed cfg) s) (hrow : row ∈ s.db.committed.orders)
    (hnext : nextHappyState source = some target) (hstate : state ∈ happyPath)
    (hentered : Entered s.db.committed row.orderId state)
    (hdepth : target.depth ≤ state.depth) :
    (source, target) ∈ history s.db.committed row.orderId := by
  have horder := h.tables.ledger.order hrow
  rw [history_eq horder]
  refine took_of_path horder.path hnext hstate (hentered.2.imp_right ?_) hdepth
  rintro ⟨transition, htransition, hid, rfl⟩
  exact ⟨_, mem_slice_steps.mpr ⟨transition, htransition, hid, rfl, rfl⟩, rfl⟩

theorem served_of_history (h : Sound (composed cfg) s) (hrow : row ∈ s.db.committed.orders)
    {service : Service} (hstep : stepOf service ∈ history s.db.committed row.orderId) :
    Served s row service := by
  refine served_of_done h hrow (done_of_history h service hrow hstep ?_)
  cases service <;> rfl

/-- An order that has come as far as the step of a service has its record there. -/
theorem served_of_entered (h : Sound (composed cfg) s) (hrow : row ∈ s.db.committed.orders)
    (service : Service) (hstate : state ∈ happyPath)
    (hentered : Entered s.db.committed row.orderId state)
    (hdepth : (stepOf service).2.depth ≤ state.depth) : Served s row service := by
  refine served_of_history h hrow (took_of_entered h hrow ?_ hstate hentered hdepth)
  cases service <;> rfl

/-- A record of the kitchen or the couriers is about an order that has come as far as their
step. -/
theorem served_of_dispatch (h : Sound (composed cfg) s) (service : Service)
    {shared : Fulfillment.Shared} (hsound : Fulfillment.Sound shared)
    (hshared : Services.fulfillment s.downstream service = some shared)
    {dispatch : Fulfillment.DispatchRow} (hdispatch : dispatch ∈ shared.dispatches) :
    ∃ row ∈ s.db.committed.orders, row.orderId = dispatch.orderId ∧
      ∀ earlier, (stepOf earlier).2.depth ≤ (stepOf service).1.depth → Served s row earlier := by
  obtain ⟨row, hrow, horder, -, hentered⟩ := order_of_dispatch h hsound hshared hdispatch
  refine ⟨row, hrow, horder.symm, fun earlier hdepth ↦ ?_⟩
  refine served_of_entered h hrow earlier ?_ hentered hdepth
  cases service <;> decide

/-- An order whose charge was declined is not served. -/
theorem not_served_of_declined (h : Sound (composed cfg) s) {charge : Payment.ChargeRow}
    (hcharge : charge ∈ charges s) (hstatus : charge.status = .declined)
    (hkey : charge.idempotencyKey = opIdFor row.orderId .placed .confirmed) :
    ¬ Served s row .payment := fun hserved ↦
  not_refused_of_done h.effects.inv (done_of_served hserved) ⟨rfl, charge, hcharge, hkey, hstatus⟩

end Recorded

/-! ### In the order of the lifecycle -/

/-- The services were asked in the order of the lifecycle. -/
structure InLifecycleOrder (s : Shared services) : Prop where
  tickets : ∀ ticket ∈ tickets s, ∃ row ∈ s.db.committed.orders,
    row.orderId = ticket.orderId ∧ Served s row .payment
  couriers : ∀ courier ∈ couriers s, ∃ row ∈ s.db.committed.orders,
    row.orderId = courier.orderId ∧ Served s row .payment ∧ Served s row .restaurant
  reached : ∀ row ∈ s.db.committed.orders, ∀ service, ∀ state ∈ happyPath,
    Entered s.db.committed row.orderId state → (stepOf service).2.depth ≤ state.depth →
      Served s row service
  declined : ∀ charge ∈ charges s, charge.status = .declined → ∃ row ∈ s.db.committed.orders,
    row.orderId = charge.orderId ∧ row.state ∈ [State.placed, .cancelled, .failed] ∧
      (∀ ticket ∈ Orchestrator.tickets s, ticket.orderId ≠ charge.orderId) ∧
      ∀ courier ∈ Orchestrator.couriers s, courier.orderId ≠ charge.orderId

/-- **In the order of the lifecycle**: no ticket without the charge, no courier without the ticket,
and nothing after a decline, in every world of the orchestrator and its services. -/
theorem inLifecycleOrder (cfg : Config) {w : World (orchestrator cfg services fun _ ↦ true)}
    (hw : World.Reachable World.anyEffect w) : InLifecycleOrder w.shared := by
  have hsound := sound_composed hw
  have hservices : Services.Sound w.shared.downstream := hsound.effects.inv
  have htickets : ∀ ticket ∈ tickets w.shared, ∃ row ∈ w.shared.db.committed.orders,
      row.orderId = ticket.orderId ∧ Served w.shared row .payment := by
    intro ticket hticket
    obtain ⟨row, hrow, horder, hserved⟩ := served_of_dispatch hsound .restaurant
      hservices.restaurant.inv rfl hticket
    exact ⟨row, hrow, horder, hserved .payment (by decide)⟩
  have hcouriers : ∀ courier ∈ couriers w.shared, ∃ row ∈ w.shared.db.committed.orders,
      row.orderId = courier.orderId ∧ Served w.shared row .payment ∧
        Served w.shared row .restaurant := by
    intro courier hcourier
    obtain ⟨row, hrow, horder, hserved⟩ := served_of_dispatch hsound .courier
      hservices.courier.inv rfl hcourier
    exact ⟨row, hrow, horder, hserved .payment (by decide), hserved .restaurant (by decide)⟩
  refine ⟨htickets, hcouriers, ?_, ?_⟩
  · exact fun row hrow service state hstate hentered hdepth ↦
      served_of_entered hsound hrow service hstate hentered hdepth
  · intro charge hcharge hstatus
    obtain ⟨row, hrow, horder, -, hkey, -⟩ := order_of_charge hsound hcharge
    have hunserved := not_served_of_declined hsound hcharge hstatus hkey
    have hother : ∀ other ∈ w.shared.db.committed.orders, other.orderId = charge.orderId →
        other = row := fun other hmem hid ↦
      hsound.tables.ledger.eq_of_orderId hmem hrow (hid.trans horder)
    refine ⟨row, hrow, horder.symm, ?_, ?_, ?_⟩
    · have hfar : row.state ∈ happyPath → ¬ State.confirmed.depth ≤ row.state.depth :=
        fun hstate hdepth ↦ hunserved (served_of_entered hsound hrow .payment hstate
          (hsound.tables.ledger.entered hrow) hdepth)
      revert hfar
      cases row.state <;> decide
    · intro ticket hticket hid
      obtain ⟨other, hmem, hsame, hserved⟩ := htickets ticket hticket
      rw [hother other hmem (hsame.trans hid)] at hserved
      exact hunserved hserved
    · intro courier hcourier hid
      obtain ⟨other, hmem, hsame, hserved, -⟩ := hcouriers courier hcourier
      rw [hother other hmem (hsame.trans hid)] at hserved
      exact hunserved hserved

/-- The charged order goes on to the kitchen: the relay publishes the next command (thread 4), and
its handler (thread 5) has the ticket fired (request 0 of the restaurant). -/
def cooking : List (Action (orchestrator {} services fun _ ↦ true)) :=
  charging ++ [.launch .drainOnce, .step 4 .done, .step 4 .done, .step 4 .done, .step 4 .done,
    .step 4 .done, .step 4 .done,
    .launch (.onAdvance 2), .step 5 .done, .step 5 (.flag false), .step 5 (.flag true),
    .step 5 .done] ++
  [.step 0 (.core {}), .step 0 .done, .step 0 (.core {}), .step 0 (.core { delay := 2000 }),
    .step 0 (.core {}), .step 0 .done].map fun activity ↦
      .ambient (.downstream (.restaurant activity))

def cookingWorld : World (orchestrator {} services fun _ ↦ true) :=
  ((World.initial _).run cooking).get (by decide +kernel)

theorem inLifecycleOrder_cookingWorld : InLifecycleOrder cookingWorld.shared ∧
    (tickets cookingWorld.shared).map Fulfillment.DispatchRow.orderId = [dinnerId] ∧
    cookingWorld.shared.db.committed.orders.map OrderRow.state = [.confirmed] :=
  ⟨inLifecycleOrder {} (World.reachable_of_run (Option.some_get _).symm), by decide +kernel,
    by decide +kernel⟩

end DinnerRush.Orchestrator
