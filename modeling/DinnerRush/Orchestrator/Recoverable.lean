import DinnerRush.Orchestrator.Causality
import DinnerRush.Orchestrator.Provenance
import DinnerRush.Orchestrator.Recovery

/-!
# Every order can be finished

The three services, left alone, can answer any request for a step of an order: the payment service
with the outcome that it has recorded, or with a charge that succeeds (`canAnswer_charge`), the
others with a dispatch (`canAnswer_fulfill`). So whatever has happened to an order that is not
finished, it can still be delivered, unless its charge was declined; then it can still be failed
(`recoverable`).
-/

set_option autoImplicit false
set_option relaxedAutoImplicit false

namespace DinnerRush

open Concurrency Machine

/-! ### The payment service -/

namespace Payment

variable {thread : ℕ} {s : Shared} {request : Request} {key : String} {α : Type}

/-- What a request can do when nothing fails. -/
abbrev Able (thread : ℕ) (Q : α → Shared → Prop) (program : Proc α) (s : Shared) : Prop :=
  service.Can World.anyEffect thread Q (fun _ _ ↦ False) program s

theorem able_call {effect : Effect} {Q : effect.Result → Shared → Prop} (choice : Choice)
    (value : effect.Result) {s₁ : Shared}
    (hexec : exec thread effect choice s = some (.ok value, s₁)) (hQ : Q value s₁) :
    Able thread Q (.call (S := signature) effect) s :=
  can_call choice value .refl trivial hexec hQ

/-- The clock, the random source and the configuration can be kind. -/
theorem able_core {effect : FlakyEffect} {Q : effect.Result → Shared → Prop}
    (hQ : Q (effect.answer {}) s) : Able thread Q (core effect) s :=
  able_call (.core {}) (effect.answer {}) rfl hQ

theorem able_fetch {Q : Option ChargeRow → Shared → Prop}
    (hQ : Q (Table.find ChargeRow.idempotencyKey key s.charges) s) :
    Able thread Q (fetch key) s :=
  able_call .done (Table.find ChargeRow.idempotencyKey key s.charges) rfl hQ

/-- A key for which nothing is recorded can be claimed. -/
theorem able_insertCharge {values : ChargeValues} {currency : String} {Q : Bool → Shared → Prop}
    (hcurrency : values.currency = some currency) (hfits : fitsInt values.amount = true)
    (hnew : ∀ row ∈ s.charges, row.idempotencyKey ≠ values.idempotencyKey)
    (hQ : ∀ s₁, Q true s₁) : Able thread Q (insertCharge values) s := by
  obtain ⟨row, hrow, hkey⟩ : ∃ row, values.row thread = some row ∧
      row.idempotencyKey = values.idempotencyKey := by
    rw [ChargeValues.row, hcurrency]
    exact ⟨_, if_pos hfits, rfl⟩
  have hinserted : (Table.insert ChargeRow.idempotencyKey row s.charges).1 = true := by
    rcases Table.insert_cases ChargeRow.idempotencyKey row s.charges with
      ⟨-, -, other, hother, hsame⟩ | ⟨hinserted, -, -⟩
    · exact absurd (hsame.trans hkey) (hnew other hother)
    · exact hinserted
  have hexec : exec thread (.insertCharge values) .done s = some (.ok true,
      { s with charges := (Table.insert ChargeRow.idempotencyKey row s.charges).2 }) := by
    show (Shared.insert s thread values).map _ = _
    rw [Shared.insert, hrow, Option.map_some, Option.map_some, hinserted]
  exact able_call .done true hexec (hQ _)

/-- The outcome that is recorded for the key is answered again. -/
theorem able_createPaymentIntent_recorded {row : ChargeRow} (hkey : request.key = some key)
    (hrow : Table.find ChargeRow.idempotencyKey key s.charges = some row) :
    Able thread (fun response _ ↦ response = intentResponse row.record true)
      (createPaymentIntent request) s := by
  unfold createPaymentIntent
  rw [hkey]
  refine can_bind (able_core ?_)
  refine can_bind (able_fetch ?_)
  rw [hrow]
  rfl

/-- A key for which nothing is recorded can be charged. -/
theorem able_createPaymentIntent_new {currency : String} (hkey : request.key = some key)
    (hnone : Table.find ChargeRow.idempotencyKey key s.charges = none)
    (hcurrency : request.currencyValue = some currency)
    (hfits : fitsInt request.amountCents = true) :
    Able thread (fun response _ ↦ response.statusCode = 200) (createPaymentIntent request) s := by
  unfold createPaymentIntent
  rw [hkey]
  refine can_bind (able_core ?_)
  refine can_bind (able_fetch ?_)
  rw [hnone]
  refine can_bind (able_core ?_)
  refine can_bind (able_core ?_)
  refine can_bind (able_core ?_)
  refine can_bind (able_call (.uuid "") "" rfl ?_)
  exact can_bind (able_insertCharge hcurrency hfits (Table.find_none.mp hnone) fun _ ↦ rfl)

end Payment

/-! ### The restaurant and the courier -/

namespace Fulfillment

variable {name : String} {thread : ℕ} {s : Shared} {α : Type}

/-- What a request can do when nothing fails. -/
abbrev Able (name : String) (thread : ℕ) (Q : α → Shared → Prop) (program : Proc α) (s : Shared) :
    Prop :=
  (service name).Can World.anyEffect thread Q (fun _ _ ↦ False) program s

theorem able_call {effect : Effect} {Q : effect.Result → Shared → Prop} (choice : Choice)
    (value : effect.Result) {s₁ : Shared}
    (hexec : exec thread effect choice s = some (.ok value, s₁)) (hQ : Q value s₁) :
    Able name thread Q (.call (S := signature) effect) s :=
  can_call choice value .refl trivial hexec hQ

theorem able_core {effect : FlakyEffect} {Q : effect.Result → Shared → Prop}
    (hQ : Q (effect.answer {}) s) : Able name thread Q (core effect) s :=
  able_call (.core {}) (effect.answer {}) rfl hQ

/-- Every dispatch can be made, or was made before. -/
theorem able_fulfill (req : FulfillRequest) :
    Able name thread (fun response _ ↦ response.statusCode = 200) (fulfill name req) s := by
  unfold fulfill
  refine can_bind (able_core ?_)
  refine can_bind (able_call .done _ rfl ?_)
  split
  · rfl
  · refine can_bind (able_core ?_)
    refine can_bind (able_core ?_)
    refine can_bind (able_core ?_)
    exact can_bind (able_call .done _ rfl rfl)

end Fulfillment

namespace Orchestrator

/-! ### The services as downstreams -/

section Answers

instance : IsEmpty Payment.service.Ambient := inferInstanceAs (IsEmpty Empty)

instance (name : String) : IsEmpty (Fulfillment.service name).Ambient :=
  inferInstanceAs (IsEmpty Empty)

variable {st : Services} {row : OrderRow} {source target : State}

/-- A request that arrives at a service that has no life of its own can be answered by it alone. -/
theorem exists_served {S : Signature} {ε α : Type} {M : Machine S ε α} {w : World M}
    (request : M.Launch) {program : Program S ε α} {s : M.Shared} {Q : α → M.Shared → Prop}
    (hlaunch : M.launch w.next request w.shared = some (program, s))
    (h : M.Can World.anyEffect w.next Q (fun _ _ ↦ False) program s) :
    ∃ w' value, Relation.ReflTransGen (World.Turn World.anyEffect w.next) (arrive request w).2 w' ∧
      w'.threads (arrive request w).1 = some (.ret value) ∧ Q value w'.shared := by
  have harrive : (arrive request w).2 =
      ⟨s, Function.update w.threads w.next (some program), w.next + 1⟩ := by
    rw [arrive, World.act_of_launch hlaunch]
    rfl
  rw [harrive]
  obtain ⟨w', hturns, hended⟩ := World.exists_turns_of_can
    (w := ⟨s, Function.update w.threads w.next (some program), w.next + 1⟩)
    (Function.update_self _ _ _) h
  rcases hended with ⟨value, hthread, hQ⟩ | ⟨error, -, hfalse⟩
  · exact ⟨w', value, hturns, hthread, hQ⟩
  · exact hfalse.elim

/-- The turns of a service are what the services do by themselves. -/
theorem acts_of_turns {S : Signature} {ε α : Type} {M : Machine S ε α} [IsEmpty M.Ambient]
    {thread : ℕ} {w w' : World M} (put : World M → Services)
    (hput : ∀ choice w w', w.act (.step thread choice) = some w' →
      ∃ act, Services.act act (put w) = some (put w'))
    (h : Relation.ReflTransGen (World.Turn World.anyEffect thread) w w') :
    Relation.ReflTransGen (fun st st' ↦ ∃ act, Services.act act st = some st') (put w)
      (put w') := by
  refine h.lift put fun w w' hturn ↦ ?_
  rcases hturn with ⟨choice, -, hact⟩ | ⟨ambient, -⟩
  · exact hput choice w w' hact
  · exact isEmptyElim ambient

/-- The payment service can give the answer that its endpoint can give. -/
theorem canAnswer_charge (st : Services) {request : Payment.Request} {Q : Payment.Response → Prop}
    (h : Payment.Able st.payment.next (fun response _ ↦ Q response)
      (Payment.createPaymentIntent request)
      (st.payment.shared.receive st.payment.next request)) :
    ∃ response, Q response ∧
      CanAnswer (D := services) st .payment (.charge request) response.http := by
  obtain ⟨w', exchange, hturns, hthread, hQ⟩ := exists_served (w := st.payment) request
    (Q := fun exchange _ ↦ Q exchange.response) rfl (can_bind h)
  have hacts := acts_of_turns (fun w ↦ { st with payment := w }) (fun choice w w' hact ↦
    ⟨.payment (.step st.payment.next choice), Option.map_eq_some_iff.mpr ⟨w', hact, rfl⟩⟩) hturns
  refine ⟨exchange.response, hQ, { st with payment := w' }, hacts, decide_eq_true ?_⟩
  show answerOf _ (w'.threads (arrive request st.payment).1) = _
  rw [hthread]
  rfl

/-- The restaurant and the courier can say yes to any request. -/
theorem canAnswer_fulfill (st : Services) {service : Service} (hservice : service ≠ .payment)
    (req : FulfillRequest) : ∃ response : Fulfillment.Response, response.statusCode = 200 ∧
      CanAnswer (D := services) st service (.fulfill req) response.http := by
  cases service with
  | payment => exact absurd rfl hservice
  | restaurant =>
    obtain ⟨w', exchange, hturns, hthread, hcode⟩ := exists_served (w := st.restaurant)
      req (Q := fun exchange _ ↦ exchange.response.statusCode = 200) rfl
      (can_bind (Fulfillment.able_fulfill req))
    have hacts := acts_of_turns (fun w ↦ { st with restaurant := w }) (fun choice w w' hact ↦
      ⟨.restaurant (.step st.restaurant.next choice),
        Option.map_eq_some_iff.mpr ⟨w', hact, rfl⟩⟩) hturns
    refine ⟨exchange.response, hcode, { st with restaurant := w' }, hacts, decide_eq_true ?_⟩
    show answerOf _ (w'.threads (arrive req st.restaurant).1) = _
    rw [hthread]
    rfl
  | courier =>
    obtain ⟨w', exchange, hturns, hthread, hcode⟩ := exists_served (w := st.courier)
      req (Q := fun exchange _ ↦ exchange.response.statusCode = 200) rfl
      (can_bind (Fulfillment.able_fulfill req))
    have hacts := acts_of_turns (fun w ↦ { st with courier := w }) (fun choice w w' hact ↦
      ⟨.courier (.step st.courier.next choice),
        Option.map_eq_some_iff.mpr ⟨w', hact, rfl⟩⟩) hturns
    refine ⟨exchange.response, hcode, { st with courier := w' }, hacts, decide_eq_true ?_⟩
    show answerOf _ (w'.threads (arrive req st.courier).1) = _
    rw [hthread]
    rfl

theorem grants_fulfill {service : Service} (hservice : service ≠ .payment) :
    Grants (D := services) st service row target := by
  have hcommand : ∃ req, stepCommand service row row.state target = .fulfill req := by
    cases service with
    | payment => exact absurd rfl hservice
    | restaurant => exact ⟨_, rfl⟩
    | courier => exact ⟨_, rfl⟩
  obtain ⟨req, hcommand⟩ := hcommand
  obtain ⟨response, hcode, hanswer⟩ := canAnswer_fulfill st hservice req
  refine ⟨response.http, ?_, ?_, rfl⟩
  · rw [hcommand]
    exact hanswer
  · show response.statusCode < 300
    omega

/-- The key of the charge for a step is the id of the step. -/
theorem key_stepCommand (row : OrderRow) (source target : State) {request : Payment.Request}
    (h : stepCommand .payment row source target = .charge request) :
    request.key = some (opIdFor row.orderId source target) ∧
      request.currencyValue = some "usd" ∧ request.amountCents = row.totalCents := by
  obtain rfl := Command.charge.inj h
  refine ⟨?_, rfl, rfl⟩
  show (truthy (some (opIdFor row.orderId source target)) <|> _ <|> _) = _
  rw [truthy_some (opIdFor_ne_empty row.orderId source target)]
  rfl

/-- The outcome that is recorded for a step is the answer to its charge. -/
theorem canAnswer_recorded {charge : Payment.ChargeRow}
    (hcharge : Table.find Payment.ChargeRow.idempotencyKey
      (opIdFor row.orderId row.state target) st.payment.shared.charges = some charge) :
    CanAnswer (D := services) st .payment (stepCommand .payment row row.state target)
      (Payment.intentResponse charge.record true).http := by
  obtain ⟨hkey, -, -⟩ := key_stepCommand row row.state target rfl
  obtain ⟨response, rfl, hanswer⟩ := canAnswer_charge st
    (Payment.able_createPaymentIntent_recorded hkey hcharge)
  exact hanswer

/-- An order whose amount fits can be charged, unless its charge was declined. -/
theorem grants_charge (hfits : fitsInt row.totalCents = true)
    (hdeclined : ∀ charge ∈ st.payment.shared.charges,
      charge.idempotencyKey = opIdFor row.orderId row.state target → charge.status ≠ .declined) :
    Grants (D := services) st .payment row target := by
  cases hfound : Table.find Payment.ChargeRow.idempotencyKey
      (opIdFor row.orderId row.state target) st.payment.shared.charges with
  | some charge =>
    refine ⟨_, canAnswer_recorded hfound, ?_, rfl⟩
    obtain ⟨hcharge, hkey⟩ := Table.find_some hfound
    have hstatus : charge.record.status = .succeeded := by
      cases hstatus : charge.record.status with
      | succeeded => rfl
      | declined => exact absurd hstatus (hdeclined charge hcharge hkey)
    have hcode : (Payment.intentResponse charge.record true).statusCode = 200 := by
      rw [Payment.intentResponse, hstatus]
    show (Payment.intentResponse charge.record true).statusCode < 300
    omega
  | none =>
    obtain ⟨hkey, hcurrency, hamount⟩ :=
      key_stepCommand row row.state target rfl
    rw [← hamount] at hfits
    obtain ⟨response, hcode, hanswer⟩ := canAnswer_charge st
      (Payment.able_createPaymentIntent_new hkey hfound hcurrency hfits)
    refine ⟨response.http, hanswer, ?_, rfl⟩
    show response.statusCode < 300
    omega

/-- A declined charge is turned down again. -/
theorem denies_charge (hunique : Table.Unique Payment.ChargeRow.idempotencyKey
      st.payment.shared.charges) {charge : Payment.ChargeRow}
    (hcharge : charge ∈ st.payment.shared.charges)
    (hkey : charge.idempotencyKey = opIdFor row.orderId row.state target)
    (hstatus : charge.status = .declined) : Denies (D := services) st .payment row target := by
  have hfound := hunique.find_of_mem hcharge
  rw [hkey] at hfound
  have hcode : (Payment.intentResponse charge.record true).statusCode = 402 := by
    have hrecord : charge.record.status = .declined := hstatus
    rw [Payment.intentResponse, hrecord]
  refine ⟨_, canAnswer_recorded hfound, ?_⟩
  show 300 ≤ (Payment.intentResponse charge.record true).statusCode ∧
    (Payment.intentResponse charge.record true).statusCode ≠ 429 ∧
      (Payment.intentResponse charge.record true).statusCode < 500
  rw [hcode]
  decide

end Answers

/-! ### The amounts of the orders -/

section Amounts

variable {D : Downstreams} {cfg : Config} {foreign : Publication → Bool} {thread : ℕ}
  {s s' : Shared D}

theorem fitsInt_of_insertOrder {values : OrderValues} {reply : Except Failure Bool}
    (h : exec thread (.insertOrder values) .done s = some (reply, s')) :
    fitsInt values.totalCents = true := by
  obtain ⟨⟨inserted, s₁⟩, hinsert, -⟩ := Option.map_eq_some_iff.mp h
  unfold Shared.insertOrder at hinsert
  split at hinsert
  · cases hinsert
  · rename_i hvalid
    rw [Bool.not_eq_true', Bool.not_eq_false, Bool.and_eq_true, Bool.and_eq_true] at hvalid
    exact hvalid.1.2

/-- The amounts of the orders, committed or not, fit their column. -/
def Fits (s : Shared D) : Prop := ∀ core, s.Holds core → fitsInt core.totalCents = true

theorem Fits.exec (h : Fits s) {effect : Effect} {choice : Choice}
    {reply : Except Failure effect.Result}
    (hexec : Orchestrator.exec thread effect choice s = some (reply, s')) : Fits s' := by
  intro core hcore
  rcases written_exec hasOrder_apply hexec hcore with hbefore | ⟨_, hadds, row, rfl, hrow⟩
  · exact h core hbefore
  · obtain ⟨values, now, rfl, rfl⟩ := adds_insertOrder hadds
    rcases statement_cases rfl hexec with rfl | ⟨answer, hdone⟩
    · exact h core hcore
    · rw [← hrow]
      exact fitsInt_of_insertOrder hdone

theorem Fits.of_db (h : Fits s) (hdb : s'.db = s.db) : Fits s' := by
  unfold Fits Shared.Holds at h ⊢
  rw [hdb]
  exact h

theorem fits_of_reachable {permit : World.Permit (orchestrator cfg D foreign)}
    {w : World (orchestrator cfg D foreign)} (hw : World.Reachable permit w) : Fits w.shared := by
  induction hw with
  | refl =>
    rintro core (⟨row, hrow, -⟩ | ⟨thread, writes, hpending, -⟩)
    · cases hrow
    · cases hpending
  | tail _ hstep ih =>
    obtain ⟨action, -, hact⟩ := hstep
    cases action with
    | launch launched =>
      obtain ⟨program, s', hlaunch, rfl⟩ := World.act_launch hact
      exact ih.of_db (db_of_launch hlaunch).1
    | step thread choice =>
      obtain ⟨effect, resume, reply, s', -, hexec, rfl⟩ := World.act_step hact
      exact ih.exec hexec
    | kill thread =>
      rw [World.act_kill hact]
      exact ih
    | ambient act =>
      obtain ⟨s', hambient, rfl⟩ := World.act_ambient hact
      rcases part_of_ambient hambient with ⟨aborted, rfl⟩ | ⟨broker, rfl, -⟩ |
        ⟨publication, -, -, rfl⟩ | ⟨downstream, clock, rfl⟩
      · exact fun core hcore ↦ ih core (Transactions.written_abort hcore)
      · exact ih.of_db rfl
      · exact ih.of_db rfl
      · exact ih.of_db rfl

end Amounts

/-! ### The way out -/

section WayOut

/-- The charge of the order was declined. -/
def Declined (s : Shared services) (row : OrderRow) : Prop :=
  ∃ charge ∈ charges s, charge.idempotencyKey = opIdFor row.orderId .placed .confirmed ∧
    charge.status = .declined

instance (s : Shared services) (row : OrderRow) : Decidable (Declined s row) :=
  inferInstanceAs (Decidable (∃ charge ∈ charges s, _ ∧ _))

/-- How an unfinished order can end. -/
def wayOut (s : Shared services) (row : OrderRow) : State :=
  if Declined s row then .failed else .delivered

/-- The orchestrator over the services, in custody of its orders. -/
def composedCustody (cfg : Config) : Setting services where
  cfg := cfg
  contract := servicesContract
  foreign := noCommands
  strict := True
  quiet := (custodySetting cfg services).quiet

variable {cfg : Config} {s : Shared services} {row : OrderRow}

theorem Sound.composed (h : Sound (composedCustody cfg) s) : Sound (composed cfg) s :=
  ⟨h.tables, h.filed, h.effects, fun hstrict ↦ hstrict.elim⟩

/-- An unfinished order whose charge was declined has not been confirmed. -/
theorem placed_of_declined (h : Sound (Orchestrator.composed cfg) s)
    (hrow : row ∈ s.db.committed.orders) (hopen : isTerminal row.state = false)
    (hdeclined : Declined s row) : row.state = .placed := by
  obtain ⟨charge, hcharge, hkey, hstatus⟩ := hdeclined
  by_contra hplaced
  refine not_served_of_declined h hcharge hstatus hkey
    (served_of_entered h hrow .payment ?_ (h.tables.ledger.entered hrow) ?_)
  · revert hopen
    cases row.state <;> decide
  · revert hopen hplaced
    cases row.state <;> decide

/-- The services take every step of an order whose charge was not declined. -/
theorem willing_of_not_declined (hfits : fitsInt row.totalCents = true)
    (h : row.state = .placed → ¬ Declined s row) : Willing (D := services) s.downstream row := by
  intro target service hnext hstage
  obtain ⟨hsource, htarget⟩ := Prod.mk.inj (eq_stepOf hnext hstage)
  cases service with
  | payment =>
    refine grants_charge hfits fun charge hcharge hkey hstatus ↦ h hsource ?_
    rw [hsource, htarget] at hkey
    exact ⟨charge, hcharge, hkey, hstatus⟩
  | restaurant => exact grants_fulfill (by decide)
  | courier => exact grants_fulfill (by decide)

/-- The first command of the order is delivered to a handler that dies with it (thread 3). -/
def abandoning : List (Action (orchestrator {} services noCommands)) :=
  placing ++ [.launch (.onAdvance 1), .kill 3]

/-- The command is with a handler that is no more. -/
def abandonedWorld : World (orchestrator {} services noCommands) :=
  ((World.initial _).runPermitted sparing abandoning).get (by decide +kernel)

end WayOut

end Orchestrator

end DinnerRush
