import DinnerRush.Fulfillment.Agreement
import DinnerRush.Orchestrator.Discipline
import DinnerRush.Payment.Agreement

/-!
# The three services behind the orchestrator

The payment, restaurant and courier services as the downstreams of the orchestrator. A request that
is sent is launched in the pool of its service, and its answer is that of its program; an error it
raised is answered 500, and a request that died is never answered. Between the requests of the
orchestrator the services go on by themselves.

What the orchestrator may rely on (`servicesContract`) follows from the disciplines of the services:
an answer below 300 is given for a row that is recorded under the operation id, and a definitive
rejection only for a recorded decline.
-/

set_option autoImplicit false
set_option relaxedAutoImplicit false

namespace DinnerRush

open Concurrency

/-! ### What is answered over HTTP -/

/-- `_retry_after`, of the delays that the services send: whole seconds. -/
def retryAfterOf (header : Option String) : Option ℚ :=
  header.bind fun raw ↦ raw.toNat?.map Nat.cast

/-- The JSON of a payment answer, as far as the orchestrator reads it. -/
def Payment.Response.http (response : Payment.Response) : HttpResponse :=
  { statusCode := response.statusCode
    json := some
      { id := response.intent.map Payment.Intent.id
        amount := response.intent.map Payment.Intent.amount }
    retryAfter := retryAfterOf response.retryAfter }

/-- The JSON of a fulfillment answer, as far as the orchestrator reads it. -/
def Fulfillment.Response.http (response : Fulfillment.Response) : HttpResponse :=
  { statusCode := response.statusCode
    json := some { detail := response.result.map FulfillResult.detail }
    retryAfter := retryAfterOf response.retryAfter }

namespace Orchestrator

/-- The answer of a request: that of its program, or the 500 of an error it raised. -/
def answerOf {S : Signature} {ε α : Type} (http : α → HttpResponse) :
    Option (Program S ε α) → Option HttpResponse
  | some (.ret value) => some (http value)
  | some (.raise _) => some { statusCode := 500 }
  | _ => none

/-- What a service does by itself: a request in progress takes a step, or dies. -/
inductive Activity (γ : Type)
  | step (thread : ℕ) (choice : γ)
  | kill (thread : ℕ)

def Activity.action {S : Signature} {ε α : Type} {M : Machine S ε α} :
    Activity M.Choice → Action M
  | step thread choice => .step thread choice
  | kill thread => .kill thread

/-- A request arrives: its number, and the service after it. -/
def arrive {S : Signature} {ε α : Type} {M : Machine S ε α} (request : M.Launch) (w : World M) :
    ℕ × World M :=
  (w.next, (w.act (.launch request)).getD w)

abbrev restaurantService : Machine Fulfillment.signature Failure Fulfillment.Exchange :=
  Fulfillment.service "restaurant-svc"

abbrev courierService : Machine Fulfillment.signature Failure Fulfillment.Exchange :=
  Fulfillment.service "courier-svc"

structure Services where
  payment : World Payment.service
  restaurant : World restaurantService
  courier : World courierService

inductive ServiceAct
  | payment (activity : Activity Payment.Choice)
  | restaurant (activity : Activity Fulfillment.Choice)
  | courier (activity : Activity Fulfillment.Choice)

namespace Services

def start : Services := ⟨.initial _, .initial _, .initial _⟩

def act : ServiceAct → Services → Option Services
  | .payment activity, st => (st.payment.act activity.action).map fun w ↦ { st with payment := w }
  | .restaurant activity, st =>
    (st.restaurant.act activity.action).map fun w ↦ { st with restaurant := w }
  | .courier activity, st => (st.courier.act activity.action).map fun w ↦ { st with courier := w }

/-- Only charges are sent to the payment service, and only fulfillments to the others. -/
def send : Service → Command → Services → ℕ × Services
  | .payment, .charge request, st =>
    let arrived := arrive request st.payment
    (arrived.1, { st with payment := arrived.2 })
  | .restaurant, .fulfill request, st =>
    let arrived := arrive request st.restaurant
    (arrived.1, { st with restaurant := arrived.2 })
  | .courier, .fulfill request, st =>
    let arrived := arrive request st.courier
    (arrived.1, { st with courier := arrived.2 })
  | _, _, st => (0, st)

def answer (st : Services) (service : Service) (request : ℕ) : Option HttpResponse :=
  match service with
  | .payment => answerOf (fun exchange ↦ exchange.response.http) (st.payment.threads request)
  | .restaurant => answerOf (fun exchange ↦ exchange.response.http) (st.restaurant.threads request)
  | .courier => answerOf (fun exchange ↦ exchange.response.http) (st.courier.threads request)

end Services

/-- The services as the downstreams of the orchestrator. -/
def services : Downstreams where
  State := Services
  Act := ServiceAct
  start := Services.start
  act := Services.act
  send := Services.send
  answered := fun st service request response ↦ decide (st.answer service request = some response)

/-! ### The pools of the services -/

section Pools

variable {S : Signature} {ε α β : Type} {M : Machine S ε α} {w w' : World M}
  {activity : Activity M.Choice} {request : M.Launch}

/-- What no effect changes, no activity changes. -/
theorem shared_of_activity {f : M.Shared → β}
    (hf : ∀ thread effect choice s reply s', M.exec thread effect choice s = some (reply, s') →
      f s' = f s) (h : w.act activity.action = some w') : f w'.shared = f w.shared := by
  cases activity with
  | step thread choice =>
    obtain ⟨effect, resume, reply, s', -, hexec, rfl⟩ := World.act_step h
    exact hf thread effect choice w.shared reply s' hexec
  | kill thread => rw [World.act_kill h]

variable {D : Discipline M}

/-- A service that keeps a discipline without conditions keeps it in any action, which a request
that arrives later may rely on. -/
theorem holds_act (hD : D.Verified)
    (hpermit : ∀ thread effect choice s, D.Permit thread effect choice s) (hw : D.Holds w)
    {action : Action M} (h : w.act action = some w') :
    D.Holds w' ∧ D.Rely w'.next w.shared w'.shared := by
  have hpermitted : w.Permitted D.Permit action := by
    cases action with
    | step thread choice => exact fun effect _ _ ↦ hpermit thread effect choice w.shared
    | _ => trivial
  exact ⟨hw.act hD hpermitted h, hw.act_rely hD hpermitted h (Nat.le_refl _)⟩

/-- A service that takes every request gives it the next number. -/
theorem arrive_eq (w : World M) (request : M.Launch) {program : Program S ε α} {s' : M.Shared}
    (h : M.launch w.next request w.shared = some (program, s')) :
    w.act (.launch request) = some (arrive request w).2 ∧ (arrive request w).2.shared = s' := by
  rw [arrive, World.act_of_launch h]
  exact ⟨rfl, rfl⟩

end Pools

/-! ### What the orchestrator may rely on -/

/-- The service keeps its discipline. -/
structure Services.Sound (st : Services) : Prop where
  payment : Payment.discipline.Holds st.payment
  restaurant : (Fulfillment.discipline "restaurant-svc" False).Holds st.restaurant
  courier : (Fulfillment.discipline "courier-svc" False).Holds st.courier

/-- No row and no request is taken back. -/
structure Services.Grows (st st' : Services) : Prop where
  payment : Payment.Grows st.payment.shared st'.payment.shared
  restaurant : Fulfillment.Grows st.restaurant.shared st'.restaurant.shared
  courier : Fulfillment.Grows st.courier.shared st'.courier.shared

namespace Services

/-- The dispatches of a service, and the requests it received. -/
def fulfillment (st : Services) : Service → Option Fulfillment.Shared
  | .payment => none
  | .restaurant => some st.restaurant.shared
  | .courier => some st.courier.shared

/-- The service received the command as the request with this number. -/
def Sent (st : Services) (service : Service) (request : ℕ) : Command → Prop
  | .charge body => service = .payment ∧ (request, body) ∈ st.payment.shared.received
  | .fulfill body => ∃ shared, st.fulfillment service = some shared ∧
      (request, body) ∈ shared.received

def Received (st : Services) (service : Service) (command : Command) : Prop :=
  ∃ request, st.Sent service request command

/-- The effect is recorded under the operation id: a charge that succeeded, or a dispatch. -/
def Done (st : Services) (service : Service) (opId : String) : Prop :=
  (service = .payment ∧ ∃ charge ∈ st.payment.shared.charges,
      charge.idempotencyKey = opId ∧ charge.status = .succeeded) ∨
    ∃ shared, st.fulfillment service = some shared ∧
      ∃ dispatch ∈ shared.dispatches, dispatch.opId = opId

/-- The charge was declined. Nothing else is rejected for good. -/
def Refused (st : Services) (service : Service) (opId : String) : Prop :=
  service = .payment ∧ ∃ charge ∈ st.payment.shared.charges,
    charge.idempotencyKey = opId ∧ charge.status = .declined

variable {st st' st'' : Services} {service : Service} {request : ℕ} {command : Command}
  {opId : String}

theorem Grows.refl (st : Services) : Grows st st :=
  ⟨Payment.Grows.refl _, Fulfillment.Grows.refl _, Fulfillment.Grows.refl _⟩

theorem Grows.trans (h : Grows st st') (h' : Grows st' st'') : Grows st st'' :=
  ⟨h.payment.trans h'.payment, h.restaurant.trans h'.restaurant, h.courier.trans h'.courier⟩

theorem Grows.fulfillment (h : Grows st st') {shared : Fulfillment.Shared}
    (hshared : st.fulfillment service = some shared) :
    ∃ shared', st'.fulfillment service = some shared' ∧ Fulfillment.Grows shared shared' := by
  cases service with
  | payment => cases hshared
  | restaurant =>
    obtain rfl := Option.some.inj hshared
    exact ⟨_, rfl, h.restaurant⟩
  | courier =>
    obtain rfl := Option.some.inj hshared
    exact ⟨_, rfl, h.courier⟩

theorem Sent.le (hsent : st.Sent service request command) (h : Grows st st') :
    st'.Sent service request command := by
  cases command with
  | charge body => exact ⟨hsent.1, h.payment.received _ hsent.2⟩
  | fulfill body =>
    obtain ⟨shared, hshared, hreceived⟩ := hsent
    obtain ⟨shared', hshared', hgrows⟩ := h.fulfillment hshared
    exact ⟨shared', hshared', hgrows.received _ hreceived⟩

theorem Done.le (hdone : st.Done service opId) (h : Grows st st') : st'.Done service opId := by
  rcases hdone with ⟨hservice, charge, hcharge, hrest⟩ |
    ⟨shared, hshared, dispatch, hdispatch, hrest⟩
  · exact Or.inl ⟨hservice, charge, h.payment.charges charge hcharge, hrest⟩
  · obtain ⟨shared', hshared', hgrows⟩ := h.fulfillment hshared
    exact Or.inr ⟨shared', hshared', dispatch, hgrows.dispatches dispatch hdispatch, hrest⟩

theorem Refused.le (hrefused : st.Refused service opId) (h : Grows st st') :
    st'.Refused service opId := by
  obtain ⟨hservice, charge, hcharge, hrest⟩ := hrefused
  exact ⟨hservice, charge, h.payment.charges charge hcharge, hrest⟩

theorem sound_start : Sound start where
  payment := Discipline.holds_initial Payment.verified
  restaurant := Discipline.holds_initial Fulfillment.verified
  courier := Discipline.holds_initial Fulfillment.verified

theorem not_received_start : ¬ start.Received service command := by
  rintro ⟨request, hsent⟩
  cases command with
  | charge body => cases hsent.2
  | fulfill body =>
    obtain ⟨shared, hshared, hreceived⟩ := hsent
    cases service with
    | payment => cases hshared
    | restaurant =>
      obtain rfl := Option.some.inj hshared
      cases hreceived
    | courier =>
      obtain rfl := Option.some.inj hshared
      cases hreceived

/-- The same requests were received. -/
structure SameRequests (st st' : Services) : Prop where
  payment : st'.payment.shared.received = st.payment.shared.received
  restaurant : st'.restaurant.shared.received = st.restaurant.shared.received
  courier : st'.courier.shared.received = st.courier.shared.received

theorem SameRequests.received (h : SameRequests st st') (hreceived : st'.Received service command) :
    st.Received service command := by
  obtain ⟨request, hsent⟩ := hreceived
  refine ⟨request, ?_⟩
  cases command with
  | charge body =>
    refine ⟨hsent.1, ?_⟩
    rw [← h.payment]
    exact hsent.2
  | fulfill body =>
    obtain ⟨shared, hshared, hreceived⟩ := hsent
    cases service with
    | payment => cases hshared
    | restaurant =>
      obtain rfl := Option.some.inj hshared
      refine ⟨_, rfl, ?_⟩
      rw [← h.restaurant]
      exact hreceived
    | courier =>
      obtain rfl := Option.some.inj hshared
      refine ⟨_, rfl, ?_⟩
      rw [← h.courier]
      exact hreceived

/-- The services go on by themselves: they keep their disciplines and receive nothing. -/
theorem Sound.act (h : Sound st) {activity : ServiceAct} (hact : act activity st = some st') :
    Sound st' ∧ Grows st st' ∧ SameRequests st st' := by
  have hgrows := Grows.refl st
  cases activity with
  | payment activity =>
    obtain ⟨w, hw, rfl⟩ := Option.map_eq_some_iff.mp hact
    obtain ⟨hholds, hrely⟩ := holds_act Payment.verified (fun _ _ _ _ ↦ trivial) h.payment hw
    have hsame := shared_of_activity (f := Payment.Shared.received)
      (fun _ _ _ _ _ _ ↦ Payment.received_of_exec) hw
    exact ⟨{ h with payment := hholds },
      { hgrows with payment := Payment.Relies.toGrows hrely }, hsame, rfl, rfl⟩
  | restaurant activity =>
    obtain ⟨w, hw, rfl⟩ := Option.map_eq_some_iff.mp hact
    obtain ⟨hholds, hrely⟩ :=
      holds_act Fulfillment.verified (fun _ _ _ _ hfalse ↦ hfalse.elim) h.restaurant hw
    have hsame := shared_of_activity (f := Fulfillment.Shared.received)
      (fun _ _ _ _ _ _ ↦ Fulfillment.received_of_exec) hw
    exact ⟨{ h with restaurant := hholds },
      { hgrows with restaurant := Fulfillment.Relies.toGrows hrely }, rfl, hsame, rfl⟩
  | courier activity =>
    obtain ⟨w, hw, rfl⟩ := Option.map_eq_some_iff.mp hact
    obtain ⟨hholds, hrely⟩ :=
      holds_act Fulfillment.verified (fun _ _ _ _ hfalse ↦ hfalse.elim) h.courier hw
    have hsame := shared_of_activity (f := Fulfillment.Shared.received)
      (fun _ _ _ _ _ _ ↦ Fulfillment.received_of_exec) hw
    exact ⟨{ h with courier := hholds },
      { hgrows with courier := Fulfillment.Relies.toGrows hrely }, rfl, rfl, hsame⟩

theorem holds_arrive_payment {w : World Payment.service} (h : Payment.discipline.Holds w)
    (body : Payment.Request) :
    Payment.discipline.Holds (arrive body w).2 ∧
      Payment.Grows w.shared (arrive body w).2.shared ∧
        (arrive body w).2.shared.received = w.shared.received ++ [(w.next, body)] := by
  obtain ⟨hact, hshared⟩ := arrive_eq w body rfl
  obtain ⟨hholds, hrely⟩ := holds_act Payment.verified (fun _ _ _ _ ↦ trivial) h hact
  refine ⟨hholds, Payment.Relies.toGrows hrely, ?_⟩
  rw [hshared]
  rfl

theorem holds_arrive_fulfillment {name : String} {w : World (Fulfillment.service name)}
    (h : (Fulfillment.discipline name False).Holds w) (body : FulfillRequest) :
    (Fulfillment.discipline name False).Holds (arrive body w).2 ∧
      Fulfillment.Grows w.shared (arrive body w).2.shared ∧
        (arrive body w).2.shared.received = w.shared.received ++ [(w.next, body)] := by
  obtain ⟨hact, hshared⟩ := arrive_eq w body rfl
  obtain ⟨hholds, hrely⟩ :=
    holds_act Fulfillment.verified (fun _ _ _ _ hfalse ↦ hfalse.elim) h hact
  refine ⟨hholds, Fulfillment.Relies.toGrows hrely, ?_⟩
  rw [hshared]
  rfl

/-- What a request does to the services: it is received, and nothing else is. -/
structure Receives (st st' : Services) (service : Service) (request : ℕ) (command : Command) :
    Prop where
  sound : Sound st'
  grows : Grows st st'
  sent : st'.Sent service request command
  received : ∀ other command', st'.Received other command' →
    st.Received other command' ∨ (other = service ∧ command' = command)

theorem Sound.sendCharge (h : Sound st) (body : Payment.Request) :
    Receives st (Services.send .payment (.charge body) st).2 .payment
      (Services.send .payment (.charge body) st).1 (.charge body) := by
  obtain ⟨hholds, hpayment, hreceived⟩ := holds_arrive_payment h.payment body
  have hgrows := Grows.refl st
  refine ⟨{ h with payment := hholds }, { hgrows with payment := hpayment }, ⟨rfl, ?_⟩, ?_⟩
  · show _ ∈ Payment.Shared.received (arrive body st.payment).2.shared
    rw [hreceived]
    exact List.mem_append_right _ List.mem_cons_self
  · rintro other command ⟨request, hsent⟩
    cases command with
    | fulfill body' => exact Or.inl ⟨request, hsent⟩
    | charge body' =>
      have hmem : (request, body') ∈ (arrive body st.payment).2.shared.received := hsent.2
      rw [hreceived] at hmem
      rcases List.mem_append.mp hmem with hold | hnew
      · exact Or.inl ⟨request, hsent.1, hold⟩
      · obtain ⟨-, rfl⟩ := Prod.mk.inj (List.mem_singleton.mp hnew)
        exact Or.inr ⟨hsent.1, rfl⟩

theorem Sound.sendFulfill (h : Sound st) (hservice : service ≠ .payment) (body : FulfillRequest) :
    Receives st (Services.send service (.fulfill body) st).2 service
      (Services.send service (.fulfill body) st).1 (.fulfill body) := by
  have hgrows := Grows.refl st
  cases service with
  | payment => exact absurd rfl hservice
  | restaurant =>
    obtain ⟨hholds, hrestaurant, hreceived⟩ := holds_arrive_fulfillment h.restaurant body
    refine ⟨{ h with restaurant := hholds }, { hgrows with restaurant := hrestaurant },
      ⟨_, rfl, ?_⟩, ?_⟩
    · show _ ∈ Fulfillment.Shared.received (arrive body st.restaurant).2.shared
      rw [hreceived]
      exact List.mem_append_right _ List.mem_cons_self
    · rintro other command ⟨request, hsent⟩
      cases command with
      | charge body' => exact Or.inl ⟨request, hsent⟩
      | fulfill body' =>
        obtain ⟨shared, hshared, hmem⟩ := hsent
        cases other with
        | restaurant =>
          obtain rfl := Option.some.inj hshared
          have hlater : (request, body') ∈ (arrive body st.restaurant).2.shared.received := hmem
          rw [hreceived] at hlater
          rcases List.mem_append.mp hlater with hold | hnew
          · exact Or.inl ⟨request, _, rfl, hold⟩
          · obtain ⟨-, rfl⟩ := Prod.mk.inj (List.mem_singleton.mp hnew)
            exact Or.inr ⟨rfl, rfl⟩
        | _ => exact Or.inl ⟨request, shared, hshared, hmem⟩
  | courier =>
    obtain ⟨hholds, hcourier, hreceived⟩ := holds_arrive_fulfillment h.courier body
    refine ⟨{ h with courier := hholds }, { hgrows with courier := hcourier },
      ⟨_, rfl, ?_⟩, ?_⟩
    · show _ ∈ Fulfillment.Shared.received (arrive body st.courier).2.shared
      rw [hreceived]
      exact List.mem_append_right _ List.mem_cons_self
    · rintro other command ⟨request, hsent⟩
      cases command with
      | charge body' => exact Or.inl ⟨request, hsent⟩
      | fulfill body' =>
        obtain ⟨shared, hshared, hmem⟩ := hsent
        cases other with
        | courier =>
          obtain rfl := Option.some.inj hshared
          have hlater : (request, body') ∈ (arrive body st.courier).2.shared.received := hmem
          rw [hreceived] at hlater
          rcases List.mem_append.mp hlater with hold | hnew
          · exact Or.inl ⟨request, _, rfl, hold⟩
          · obtain ⟨-, rfl⟩ := Prod.mk.inj (List.mem_singleton.mp hnew)
            exact Or.inr ⟨rfl, rfl⟩
        | _ => exact Or.inl ⟨request, shared, hshared, hmem⟩

/-- The command of a step is received by its service. -/
theorem Sound.send (h : Sound st) (service : Service) (row : OrderRow) (source target : State) :
    let command := stepCommand service row source target
    Receives st (Services.send service command st).2 service (Services.send service command st).1
      command := by
  cases service with
  | payment => exact h.sendCharge _
  | restaurant => exact h.sendFulfill (by decide) _
  | courier => exact h.sendFulfill (by decide) _

/-! ### The answers -/

/-- What an answer to the request for a step says about the records of the service. -/
structure Vouches (st : Services) (service : Service) (opId : String) (response : HttpResponse) :
    Prop where
  done : response.statusCode < 300 → st.Done service opId
  refused : 300 ≤ response.statusCode → response.statusCode ≠ 429 → response.statusCode < 500 →
    st.Refused service opId

theorem answerOf_cases {S : Signature} {ε α : Type} {http : α → HttpResponse}
    {program : Option (Program S ε α)} {response : HttpResponse}
    (h : answerOf http program = some response) :
    (∃ value, program = some (.ret value) ∧ response = http value) ∨ response.statusCode = 500 := by
  unfold answerOf at h
  split at h
  · rename_i value
    exact Or.inl ⟨value, rfl, (Option.some.inj h).symm⟩
  · rw [← Option.some.inj h]
    exact Or.inr rfl
  · cases h

theorem vouches_of_500 {response : HttpResponse} (h : response.statusCode = 500) :
    Vouches st service opId response := by
  constructor
  · intro hcode
    omega
  · intro _ _ hcode
    omega

theorem Sound.answerCharge (h : Sound st) {body : Payment.Request} {response : HttpResponse}
    (hsent : st.Sent .payment request (.charge body)) (hkey : body.key = some opId)
    (hanswer : st.answer .payment request = some response) :
    Vouches st .payment opId response := by
  rcases answerOf_cases hanswer with ⟨exchange, hthread, rfl⟩ | hraised
  · obtain ⟨hreceived, hagrees⟩ := h.payment.post hthread
    have hbody : (request, exchange.request) = (request, body) :=
      h.payment.inv.numbered.eq hreceived hsent.2 rfl
    have hsame : exchange.request.key = some opId := by
      rw [(Prod.mk.inj hbody).2]
      exact hkey
    rcases hagrees with ⟨hnone, -⟩ | hretry | ⟨row, hrow, hrowKey, duplicate, hresponse, -⟩
    · rw [hsame] at hnone
      cases hnone
    · have hcode : exchange.response.http.statusCode ∈ Payment.retryCodes := hretry
      simp only [Payment.retryCodes, List.mem_cons, List.not_mem_nil, or_false] at hcode
      constructor <;> intros <;> omega
    · rw [hsame] at hrowKey
      have hop : row.idempotencyKey = opId := (Option.some.inj hrowKey).symm
      have hcode : exchange.response.http.statusCode =
          (Payment.intentResponse row.record duplicate).statusCode := by
        rw [← hresponse]
        rfl
      unfold Payment.intentResponse at hcode
      cases hstatus : row.record.status with
      | succeeded =>
        rw [hstatus] at hcode
        constructor
        · exact fun _ ↦ Or.inl ⟨rfl, row, hrow, hop, hstatus⟩
        · intros
          simp only at hcode
          omega
      | declined =>
        rw [hstatus] at hcode
        constructor
        · intros
          simp only at hcode
          omega
        · exact fun _ _ _ ↦ ⟨rfl, row, hrow, hop, hstatus⟩
  · exact vouches_of_500 hraised

/-- An answer of the restaurant or the courier. -/
theorem vouches_of_fulfill {name : String} {w : World (Fulfillment.service name)}
    (h : (Fulfillment.discipline name False).Holds w) {body : FulfillRequest}
    {response : HttpResponse} (hshared : st.fulfillment service = some w.shared)
    (hreceived : (request, body) ∈ w.shared.received)
    (hanswer : answerOf (fun exchange ↦ exchange.response.http) (w.threads request) =
      some response) : Vouches st service body.opId response := by
  rcases answerOf_cases hanswer with ⟨exchange, hthread, rfl⟩ | hraised
  · obtain ⟨hmem, hagrees⟩ := h.post hthread
    have hbody : (request, exchange.request) = (request, body) :=
      h.inv.numbered.eq hmem hreceived rfl
    rw [(Prod.mk.inj hbody).2] at hagrees
    rcases hagrees with hretry | ⟨hcode, row, hrow, hopId, -⟩
    · have hcode : exchange.response.http.statusCode ∈ Fulfillment.retryCodes := hretry
      simp only [Fulfillment.retryCodes, List.mem_cons, List.not_mem_nil, or_false] at hcode
      constructor <;> intros <;> omega
    · have hok : exchange.response.http.statusCode = 200 := hcode
      constructor
      · exact fun _ ↦ Or.inr ⟨_, hshared, row, hrow, hopId⟩
      · intros
        omega
  · exact vouches_of_500 hraised

/-- Every answer to the request for a step is backed by a record under the id of the step. -/
theorem Sound.answered (h : Sound st) {row : OrderRow} {source target : State}
    {response : HttpResponse}
    (hsent : st.Sent service request (stepCommand service row source target))
    (hanswer : st.answer service request = some response) :
    Vouches st service (opIdFor row.orderId source target) response := by
  cases service with
  | payment =>
    refine h.answerCharge hsent ?_ hanswer
    have hkey := truthy_some (opIdFor_ne_empty row.orderId source target)
    show (truthy (some (opIdFor row.orderId source target)) <|> _ <|> _) = _
    rw [hkey]
    rfl
  | restaurant =>
    obtain ⟨shared, hshared, hreceived⟩ := hsent
    obtain rfl := Option.some.inj hshared
    exact vouches_of_fulfill h.restaurant rfl hreceived hanswer
  | courier =>
    obtain ⟨shared, hshared, hreceived⟩ := hsent
    obtain rfl := Option.some.inj hshared
    exact vouches_of_fulfill h.courier rfl hreceived hanswer

end Services

/-- What the orchestrator may rely on when it talks to the three services. -/
def servicesContract : Contract services where
  Inv := Services.Sound
  Le := Services.Grows
  Received := Services.Received
  Sent := Services.Sent
  Done := Services.Done
  Refused := Services.Refused
  start := ⟨Services.sound_start, fun _ _ ↦ Services.not_received_start⟩
  le_refl := Services.Grows.refl
  le_trans _ _ _ := Services.Grows.trans
  sent_le _ _ _ _ _ hle hsent := Services.Sent.le hsent hle
  done_le _ _ _ _ hle hdone := Services.Done.le hdone hle
  refused_le _ _ _ _ hle hrefused := Services.Refused.le hrefused hle
  act activity st st' hsound hact := by
    obtain ⟨hsound', hgrows, hsame⟩ := Services.Sound.act hsound hact
    exact ⟨hsound', hgrows, fun _ _ ↦ hsame.received⟩
  send service row source target st hsound := by
    have hreceives := Services.Sound.send hsound service row source target
    exact ⟨hreceives.sound, hreceives.grows, hreceives.sent, hreceives.received⟩
  answered st service row source target request response hsound hsent hanswer := by
    have hvouches := Services.Sound.answered hsound hsent (of_decide_eq_true hanswer)
    exact ⟨hvouches.done, hvouches.refused⟩

end Orchestrator

end DinnerRush
