import DinnerRush.Orchestrator.Lifecycle
import DinnerRush.Orchestrator.Services

/-!
# The effects of orders on the services

The orchestrator over its three services. An effect is recorded by a service before the step that
asked for it is committed, and either may be tried again or lost. Each service keeps at most one
record for an order, and an order that has taken a step has its record (`exactlyOnceEffects`): the
operation id depends on the step only, so every attempt asks for the same record.

The other way around a record may stay without its step. An attempt whose answer is lost is tried
again, and every new attempt decides anew whether the customer cancels. So an order that was charged
may be cancelled from placed, and an order whose ticket was fired from confirmed
(`not_noOrphanedEffect_cancelledWorld`). That is the only way, and it takes a rate of cancellations
(`noOrphanedEffect`).
-/

set_option autoImplicit false
set_option relaxedAutoImplicit false

namespace DinnerRush.Orchestrator

open Concurrency

/-! ### What the services have recorded -/

/-- The step that a service is asked for. -/
def stepOf : Service → State × State
  | .payment => (.placed, .confirmed)
  | .restaurant => (.confirmed, .preparing)
  | .courier => (.ready, .outForDelivery)

theorem eq_stepOf {service : Service} {source target : State}
    (hnext : nextHappyState source = some target) (hstage : stageDownstream target = some service) :
    (source, target) = stepOf service := by
  revert hnext hstage
  cases source <;> cases target <;> cases service <;> decide

/-- The charges, the tickets of the kitchen and the dispatches of the couriers. -/
def charges (s : Shared services) : List Payment.ChargeRow :=
  (Services.payment s.downstream).shared.charges

def tickets (s : Shared services) : List Fulfillment.DispatchRow :=
  (Services.restaurant s.downstream).shared.dispatches

def couriers (s : Shared services) : List Fulfillment.DispatchRow :=
  (Services.courier s.downstream).shared.dispatches

/-- The orchestrator over the services. -/
def composed (cfg : Config) : Setting services where
  cfg := cfg
  contract := servicesContract
  foreign := fun _ ↦ true
  strict := False
  quiet := fun hstrict ↦ hstrict.elim

section Recorded

variable {cfg : Config} {s : Shared services}

/-- A charge is that of an order, for its total. -/
theorem order_of_charge (h : Sound (composed cfg) s) {charge : Payment.ChargeRow}
    (hcharge : charge ∈ charges s) : ∃ row ∈ s.db.committed.orders,
      charge.orderId = row.orderId ∧ charge.amountCents = row.totalCents ∧
        charge.idempotencyKey = opIdFor row.orderId .placed .confirmed ∧
          Entered s.db.committed row.orderId .placed := by
  have hservices : Services.Sound s.downstream := h.effects.inv
  obtain ⟨⟨request, body⟩, hreceived, hcharges⟩ := hservices.payment.inv.received charge hcharge
  obtain ⟨row, hrow, source, target, hentered, hnext, hstage, hcommand⟩ :=
    h.effects.ordered .payment (.charge body) ⟨request, rfl, hreceived⟩
  obtain ⟨rfl, rfl⟩ := Prod.mk.inj (eq_stepOf hnext hstage)
  obtain rfl := Command.charge.inj hcommand
  have horderId : row.orderId ≠ "" := by
    intro hempty
    have huuid := h.tables.orderIds row hrow
    rw [hempty] at huuid
    exact absurd huuid (by decide)
  have hkey := hcharges.key
  have horder := hcharges.order
  refine ⟨row, hrow, ?_, hcharges.amount, ?_, hentered⟩
  · rw [horder]
    show ((truthy (some row.orderId) <|> _).getD _) = _
    rw [truthy_some horderId]
    rfl
  · have htruthy := truthy_some (opIdFor_ne_empty row.orderId .placed .confirmed)
    have hsame : truthy (some (opIdFor row.orderId .placed .confirmed)) =
        some charge.idempotencyKey := by
      rw [← hkey]
      show _ = (truthy (some (opIdFor row.orderId .placed .confirmed)) <|> _ <|> _)
      rw [htruthy]
      rfl
    rw [htruthy] at hsame
    exact (Option.some.inj hsame).symm

/-- A dispatch is that of an order, for the step of the service. -/
theorem order_of_dispatch (h : Sound (composed cfg) s) {service : Service}
    {shared : Fulfillment.Shared} (hsound : Fulfillment.Sound shared)
    (hshared : Services.fulfillment s.downstream service = some shared)
    {dispatch : Fulfillment.DispatchRow} (hdispatch : dispatch ∈ shared.dispatches) :
    ∃ row ∈ s.db.committed.orders, dispatch.orderId = row.orderId ∧
      dispatch.opId = opIdFor row.orderId (stepOf service).1 (stepOf service).2 ∧
        Entered s.db.committed row.orderId (stepOf service).1 := by
  obtain ⟨⟨request, body⟩, hreceived, hopId, horder, -⟩ := hsound.received dispatch hdispatch
  obtain ⟨row, hrow, source, target, hentered, hnext, hstage, hcommand⟩ :=
    h.effects.ordered service (.fulfill body) ⟨request, shared, hshared, hreceived⟩
  rw [← eq_stepOf hnext hstage]
  have hbody : body.orderId = row.orderId ∧ body.opId = opIdFor row.orderId source target := by
    cases service with
    | payment => cases hshared
    | restaurant =>
      obtain rfl := Command.fulfill.inj hcommand
      exact ⟨rfl, rfl⟩
    | courier =>
      obtain rfl := Command.fulfill.inj hcommand
      exact ⟨rfl, rfl⟩
  exact ⟨row, hrow, horder.symm.trans hbody.1, hopId.symm.trans hbody.2, hentered⟩

/-- A service holds at most one record for an order. -/
theorem unique_dispatches (h : Sound (composed cfg) s) (service : Service)
    {shared : Fulfillment.Shared} (hsound : Fulfillment.Sound shared)
    (hshared : Services.fulfillment s.downstream service = some shared) :
    Table.Unique Fulfillment.DispatchRow.orderId shared.dispatches := by
  refine hsound.unique.of_determines
    (f := fun orderId ↦ opIdFor orderId (stepOf service).1 (stepOf service).2) ?_
  intro dispatch hdispatch
  obtain ⟨row, -, horder, hopId, -⟩ := order_of_dispatch h hsound hshared hdispatch
  rw [horder]
  exact hopId

theorem unique_charges (h : Sound (composed cfg) s) :
    Table.Unique Payment.ChargeRow.orderId (charges s) := by
  have hservices : Services.Sound s.downstream := h.effects.inv
  refine hservices.payment.inv.unique.of_determines
    (f := fun orderId ↦ opIdFor orderId .placed .confirmed) ?_
  intro charge hcharge
  obtain ⟨row, -, horder, -, hkey, -⟩ := order_of_charge h hcharge
  rw [horder]
  exact hkey

theorem mem_history {d : Db} {orderId : String} {step : State × State} :
    step ∈ history d orderId ↔ ∃ transition ∈ d.transitions, transition.orderId = orderId ∧
      transition.step = step := by
  unfold history
  rw [List.mem_map]
  simp only [List.mem_insertionSort, List.mem_filter, decide_eq_true_eq, and_assoc]

/-- A step into a state that a service is asked for comes from the state before on the happy
path. -/
theorem nextHappyState_of_legal {source target : State} {service : Service}
    (hlegal : Legal source target) (hstage : stageDownstream target = some service) :
    nextHappyState source = some target := by
  rcases canTransition_cases hlegal with hnext | rfl | rfl
  · exact hnext
  · cases hstage
  · cases hstage

/-- An order that took a step into a state of a service has been served. -/
theorem done_of_history (h : Sound (composed cfg) s) (service : Service) {row : OrderRow}
    (hrow : row ∈ s.db.committed.orders) {step : State × State}
    (hstep : step ∈ history s.db.committed row.orderId)
    (hstage : stageDownstream step.2 = some service) :
    Services.Done s.downstream service
      (opIdFor row.orderId (stepOf service).1 (stepOf service).2) := by
  obtain ⟨transition, htransition, horder, rfl⟩ := mem_history.mp hstep
  have hlawful : Lawful s.db.committed row := lawful_of_consistent (h.tables.ledger.order hrow)
  have hnext : nextHappyState transition.fromState = some transition.toState :=
    nextHappyState_of_legal (hlawful.path.rel hstep) hstage
  rw [← eq_stepOf hnext hstage, ← horder]
  exact (h.effects.backed transition htransition).done service hnext hstage

end Recorded

/-! ### Exactly once -/

/-- What the services hold about the orders. -/
structure ExactlyOnce (s : Shared services) : Prop where
  charges : ∀ orderId, ((charges s).filter fun charge ↦ charge.orderId = orderId).length ≤ 1
  tickets : ∀ orderId, ((tickets s).filter fun ticket ↦ ticket.orderId = orderId).length ≤ 1
  couriers : ∀ orderId, ((couriers s).filter fun courier ↦ courier.orderId = orderId).length ≤ 1
  charged : ∀ row ∈ s.db.committed.orders, ∀ step ∈ history s.db.committed row.orderId,
    step.2 = .confirmed → ∃ charge ∈ Orchestrator.charges s, charge.orderId = row.orderId ∧
      charge.idempotencyKey = opIdFor row.orderId .placed .confirmed ∧
      charge.status = .succeeded ∧ charge.amountCents = row.totalCents
  fired : ∀ row ∈ s.db.committed.orders, ∀ step ∈ history s.db.committed row.orderId,
    step.2 = .preparing → ∃ ticket ∈ Orchestrator.tickets s, ticket.orderId = row.orderId ∧
      ticket.opId = opIdFor row.orderId .confirmed .preparing
  dispatched : ∀ row ∈ s.db.committed.orders, ∀ step ∈ history s.db.committed row.orderId,
    step.2 = .outForDelivery → ∃ courier ∈ Orchestrator.couriers s,
      courier.orderId = row.orderId ∧ courier.opId = opIdFor row.orderId .ready .outForDelivery

/-- The orchestrator over the services is sound in every world that it reaches. -/
theorem sound_composed {cfg : Config} {w : World (orchestrator cfg services fun _ ↦ true)}
    (hw : World.Reachable World.anyEffect w) : Sound (composed cfg) w.shared :=
  sound_of_reachable (X := composed cfg) (hw.mono fun _ _ _ _ _ hstrict ↦ hstrict.elim)

/-- A record of the restaurant or the courier under the id of a step of the order is about the
order. -/
theorem exists_dispatch_of_done {cfg : Config} {s : Shared services} (h : Sound (composed cfg) s)
    (service : Service) {shared : Fulfillment.Shared} (hsound : Fulfillment.Sound shared)
    (hshared : Services.fulfillment s.downstream service = some shared) {orderId : String}
    (hdone : Services.Done s.downstream service
      (opIdFor orderId (stepOf service).1 (stepOf service).2)) :
    ∃ dispatch ∈ shared.dispatches, dispatch.orderId = orderId ∧
      dispatch.opId = opIdFor orderId (stepOf service).1 (stepOf service).2 := by
  rcases hdone with ⟨rfl, -⟩ | ⟨found, hfound, dispatch, hdispatch, hopId⟩
  · cases hshared
  · obtain rfl : shared = found := Option.some.inj (hshared.symm.trans hfound)
    obtain ⟨row, -, horder, hrowId, -⟩ := order_of_dispatch h hsound hshared hdispatch
    rw [hopId] at hrowId
    exact ⟨dispatch, hdispatch, horder.trans (opIdFor_injective hrowId).1.symm, hopId⟩

/-- **Exactly once**: in every world of the orchestrator and its services, whatever is delivered
again, tried again, lost or replayed. -/
theorem exactlyOnceEffects (cfg : Config) {w : World (orchestrator cfg services fun _ ↦ true)}
    (hw : World.Reachable World.anyEffect w) : ExactlyOnce w.shared := by
  have hsound := sound_composed hw
  have hservices : Services.Sound w.shared.downstream := hsound.effects.inv
  have hrestaurant : Fulfillment.Sound _ := hservices.restaurant.inv
  have hcourier : Fulfillment.Sound _ := hservices.courier.inv
  constructor
  · exact fun orderId ↦ (unique_charges hsound).length_filter_le_one orderId
  · exact fun orderId ↦
      (unique_dispatches hsound .restaurant hrestaurant rfl).length_filter_le_one orderId
  · exact fun orderId ↦
      (unique_dispatches hsound .courier hcourier rfl).length_filter_le_one orderId
  · intro row hrow step hstep hstate
    rcases done_of_history hsound .payment hrow hstep (by rw [hstate]; rfl) with
      ⟨-, charge, hcharge, hkey, hstatus⟩ | ⟨shared, hshared, -⟩
    · obtain ⟨other, hother, horder, hamount, hother', -⟩ := order_of_charge hsound hcharge
      rw [hkey] at hother'
      have hsame : other = row :=
        hsound.tables.ledger.eq_of_orderId hother hrow (opIdFor_injective hother').1.symm
      rw [hsame] at horder hamount
      exact ⟨charge, hcharge, horder, hkey, hstatus, hamount⟩
    · cases hshared
  · intro row hrow step hstep hstate
    exact exists_dispatch_of_done hsound .restaurant hrestaurant rfl
      (done_of_history hsound .restaurant hrow hstep (by rw [hstate]; rfl))
  · intro row hrow step hstep hstate
    exact exists_dispatch_of_done hsound .courier hcourier rfl
      (done_of_history hsound .courier hrow hstep (by rw [hstate]; rfl))

/-! ### No orphaned effect -/

/-- A service has recorded the effect of the operation. -/
def Effected (s : Shared services) (opId : String) : Prop :=
  (∃ charge ∈ charges s, charge.idempotencyKey = opId ∧ charge.status = .succeeded) ∨
    (∃ ticket ∈ tickets s, ticket.opId = opId) ∨ ∃ courier ∈ couriers s, courier.opId = opId

/-- The order has taken the step, can still take it, or was cancelled where it stood. -/
def Justified (cfg : Config) (d : Db) (orderId : String) (source target : State) : Prop :=
  ∃ row ∈ d.orders, row.orderId = orderId ∧
    ((source, target) ∈ history d orderId ∨ row.state = source ∨
      ((source, State.cancelled) ∈ history d orderId ∧ source ∈ [State.placed, .confirmed] ∧
        0 < cfg.cancelRate))

/-- What is claimed of the effects: the order has taken the step or can still take it. -/
def NoOrphanedEffect (s : Shared services) : Prop :=
  ∀ orderId source target, Effected s (opIdFor orderId source target) →
    ∃ row ∈ s.db.committed.orders, row.orderId = orderId ∧
      ((source, target) ∈ history s.db.committed orderId ∨ row.state = source)

/-- An effect is one of a service. -/
theorem done_of_effected {s : Shared services} {opId : String} (h : Effected s opId) :
    ∃ service, Services.Done s.downstream service opId := by
  rcases h with hcharge | ⟨ticket, hticket, hopId⟩ | ⟨courier, hcourier, hopId⟩
  · exact ⟨.payment, Or.inl ⟨rfl, hcharge⟩⟩
  · exact ⟨.restaurant, Or.inr ⟨_, rfl, ticket, hticket, hopId⟩⟩
  · exact ⟨.courier, Or.inr ⟨_, rfl, courier, hcourier, hopId⟩⟩

/-- What a service has done is the step it was asked for, of an order that has entered its source.
-/
theorem order_of_done {cfg : Config} {s : Shared services} (h : Sound (composed cfg) s)
    {service : Service} {orderId : String} {source target : State}
    (hdone : Services.Done s.downstream service (opIdFor orderId source target)) :
    (source, target) = stepOf service ∧ ∃ row ∈ s.db.committed.orders, row.orderId = orderId ∧
      Entered s.db.committed row.orderId source := by
  have hservices : Services.Sound s.downstream := h.effects.inv
  have hfulfillment : ∀ shared, Services.fulfillment s.downstream service = some shared →
      Fulfillment.Sound shared := by
    intro shared hshared
    cases service with
    | payment => cases hshared
    | restaurant =>
      obtain rfl := Option.some.inj hshared
      exact hservices.restaurant.inv
    | courier =>
      obtain rfl := Option.some.inj hshared
      exact hservices.courier.inv
  rcases hdone with ⟨rfl, charge, hcharge, hkey, -⟩ | ⟨shared, hshared, dispatch, hdispatch, hopId⟩
  · obtain ⟨row, hrow, -, -, hrowKey, hentered⟩ := order_of_charge h hcharge
    rw [hkey] at hrowKey
    obtain ⟨rfl, rfl, rfl⟩ := opIdFor_injective hrowKey
    exact ⟨rfl, row, hrow, rfl, hentered⟩
  · obtain ⟨row, hrow, -, hrowId, hentered⟩ :=
      order_of_dispatch h (hfulfillment shared hshared) hshared hdispatch
    rw [hopId] at hrowId
    obtain ⟨rfl, rfl, rfl⟩ := opIdFor_injective hrowId
    exact ⟨rfl, row, hrow, rfl, hentered⟩

/-- What was done is not refused. -/
theorem not_refused_of_done {st : Services} (h : st.Sound) {service : Service} {opId : String}
    (hdone : st.Done service opId) : ¬ st.Refused service opId := by
  rintro ⟨rfl, declined, hdeclined, hkey, hstatus⟩
  rcases hdone with ⟨-, charge, hcharge, hchargeKey, hcharged⟩ | ⟨shared, hshared, -⟩
  · have hsame : charge = declined :=
      h.payment.inv.unique.eq hcharge hdeclined (hchargeKey.trans hkey.symm)
    rw [hsame, hstatus] at hcharged
    cases hcharged
  · cases hshared

/-- **No orphaned effect** but of orders that were cancelled where they stood: in every world of the
orchestrator and its services. -/
theorem noOrphanedEffect (cfg : Config) {w : World (orchestrator cfg services fun _ ↦ true)}
    (hw : World.Reachable World.anyEffect w) (orderId : String) (source target : State)
    (heffect : Effected w.shared (opIdFor orderId source target)) :
    Justified cfg w.shared.db.committed orderId source target := by
  have hsound := sound_composed hw
  have hledger : Ledger w.shared.db.committed := hsound.tables.ledger
  obtain ⟨service, hdone⟩ := done_of_effected heffect
  obtain ⟨hstep, row, hrow, rfl, hentered⟩ := order_of_done hsound hdone
  refine ⟨row, hrow, rfl, ?_⟩
  rcases hledger.eq_or_left hrow hentered with hstate | ⟨transition, htransition, horder, rfl⟩
  · exact Or.inr (Or.inl hstate)
  · -- The order has left the source: along the path, to its cancellation or to its failure.
    have hmem : transition.step ∈ history w.shared.db.committed row.orderId :=
      mem_history.mpr ⟨transition, htransition, horder, rfl⟩
    have hlawful := lawful_of_consistent (hledger.order hrow)
    have hlegal : Legal transition.fromState transition.toState := hlawful.path.rel hmem
    have hbacked := hsound.effects.backed transition htransition
    have hnext : nextHappyState transition.fromState = some target := by
      obtain ⟨hfrom, hto⟩ := Prod.mk.inj hstep
      rw [hfrom, hto]
      cases service <;> rfl
    have hstage : stageDownstream target = some service := by
      rw [(Prod.mk.inj hstep).2]
      cases service <;> rfl
    rcases canTransition_cases hlegal with htaken | hcancelled | hfailed
    · rw [hnext] at htaken
      obtain rfl := Option.some.inj htaken
      exact Or.inl hmem
    · refine Or.inr (Or.inr ⟨?_, ?_, hbacked.cancelled hcancelled⟩)
      · rw [← hcancelled]
        exact hmem
      · rw [hcancelled, (Prod.mk.inj hstep).1] at hlegal
        rw [(Prod.mk.inj hstep).1]
        revert hlegal
        unfold Legal
        cases service <;> decide
    · have hrefused := hbacked.failed target service hfailed hnext hstage
      rw [horder] at hrefused
      exact absurd hrefused (not_refused_of_done hsound.effects.inv hdone)

/-! ### Two runs -/

section Runs

variable {cfg : Config}

/-- The payment service takes a charge (its request 0) and records it. -/
def paying : List (Action (orchestrator cfg services fun _ ↦ true)) :=
  [.step 0 (.core {}), .step 0 .done, .step 0 (.core {}), .step 0 (.core { delay := 300 }),
    .step 0 (.core {}), .step 0 (.uuid "a"), .step 0 .done].map fun activity ↦
      .ambient (.downstream (.payment activity))

end Runs

/-- A first order is charged and confirmed. -/
def charging : List (Action (orchestrator {} services fun _ ↦ true)) :=
  placing ++ [.launch (.onAdvance 1), .step 3 .done, .step 3 (.flag false), .step 3 (.flag true),
    .step 3 .done] ++ paying ++
  [.step 3 (.response ⟨200, some { id := some "pi_a", amount := some 2900 }, none⟩), .step 3 .done,
    .step 3 .done, .step 3 .done, .step 3 .done, .step 3 .done, .step 3 .done,
    .step 3 (.stamp ⟨"e2", "t"⟩), .step 3 .done, .step 3 (.stamp ⟨"e3", "t"⟩), .step 3 .done,
    .step 3 .done, .step 3 .done, .step 3 .done]

def chargedWorld : World (orchestrator {} services fun _ ↦ true) :=
  ((World.initial _).run charging).get (by decide +kernel)

theorem exactlyOnceEffects_chargedWorld : ExactlyOnce chargedWorld.shared ∧
    history chargedWorld.shared.db.committed dinnerId = [(.placed, .confirmed)] ∧
    (charges chargedWorld.shared).map Payment.ChargeRow.amountCents = [2900] :=
  ⟨exactlyOnceEffects {} (World.reachable_of_run (Option.some_get _).symm), by decide +kernel,
    by decide +kernel⟩

/-- Every second time a customer may cancel, it does. -/
def fickle : Config := { cancelRate := ⟨1, 2, by decide, by decide⟩ }

/-- The customer does not cancel and is charged, the handler dies before it has the answer (thread
3), and when the command is delivered again the customer cancels (thread 4). -/
def cancelling : List (Action (orchestrator fickle services fun _ ↦ true)) :=
  placing ++ [.launch (.onAdvance 1), .step 3 .done,
    .step 3 (.draw ⟨3, 4, by decide, by decide⟩), .step 3 (.flag false),
    .step 3 (.flag true), .step 3 .done] ++ paying ++
  [.kill 3, .ambient (.requeue 1 3), .launch (.onAdvance 1), .step 4 .done, .step 4 (.draw 0),
    .step 4 .done, .step 4 .done, .step 4 .done, .step 4 .done, .step 4 .done,
    .step 4 (.stamp ⟨"e2", "t"⟩), .step 4 .done, .step 4 .done, .step 4 .done]

def cancelledWorld : World (orchestrator fickle services fun _ ↦ true) :=
  ((World.initial _).run cancelling).get (by decide +kernel)

theorem reachable_cancelledWorld : World.Reachable World.anyEffect cancelledWorld :=
  World.reachable_of_run (Option.some_get _).symm

theorem effected_cancelledWorld :
    Effected cancelledWorld.shared (opIdFor dinnerId .placed .confirmed) := by
  have hcharged : ∃ charge ∈ charges cancelledWorld.shared,
      charge.idempotencyKey = opIdFor dinnerId .placed .confirmed ∧ charge.status = .succeeded := by
    decide +kernel
  exact Or.inl hcharged

theorem noOrphanedEffect_cancelledWorld :
    Justified fickle cancelledWorld.shared.db.committed dinnerId .placed .confirmed ∧
      cancelledWorld.shared.db.committed.orders.map OrderRow.state = [.cancelled] :=
  ⟨noOrphanedEffect fickle reachable_cancelledWorld dinnerId .placed .confirmed
    effected_cancelledWorld, by decide +kernel⟩

/-- The order was charged and is cancelled straight from placed. -/
theorem not_noOrphanedEffect_cancelledWorld :
    ¬ ∀ w : World (orchestrator fickle services fun _ ↦ true),
      World.Reachable World.anyEffect w → NoOrphanedEffect w.shared := by
  intro h
  have hneither : ¬ ∃ row ∈ cancelledWorld.shared.db.committed.orders, row.orderId = dinnerId ∧
      ((State.placed, State.confirmed) ∈ history cancelledWorld.shared.db.committed dinnerId ∨
        row.state = .placed) := by
    decide +kernel
  exact hneither (h cancelledWorld reachable_cancelledWorld dinnerId .placed .confirmed
    effected_cancelledWorld)

end DinnerRush.Orchestrator
