import DinnerRush.CustomerWeb.Reported
import DinnerRush.CustomerWeb.Stream
import DinnerRush.Orchestrator.Provenance
import DinnerRush.Orchestrator.Services
import DinnerRush.Pipeline

/-!
# The shop

Any number of calls of `placeCart` over the pipeline of ingestion and the orchestrator with its
three services: what the relay of ingestion publishes goes to the broker of the orchestrator. Nobody
else publishes to it. Every order of the orchestrator is one of ingestion, with the same restaurant,
lines and amount (`Shop.Sound.exists_order`), and what the payment service is asked for an order is
its amount (`Shop.Sound.amount_of_asked`).
-/

set_option autoImplicit false
set_option relaxedAutoImplicit false

namespace DinnerRush.CustomerWeb

open Concurrency
open Orchestrator (Config orchestrator services noCommands)

variable {cfg : Config}

/-- `GET /orders/{order_id}`: the order, and its transitions by a second statement. The id is
compared as a uuid. -/
def getOrder (d later : Orchestrator.Db) (orderId : String) : Fetched :=
  if isUuid orderId then
    match Table.find Orchestrator.OrderRow.orderId orderId d.orders with
    | some row =>
      .response 200 (some
        { order := ⟨row.orderId, row.state.value, row.customerId, row.restaurantId, row.items,
            row.totalCents⟩
          transitions := ((later.transitions.filter fun transition ↦
            transition.orderId = orderId).insertionSort fun a b ↦ a.id ≤ b.id).map
              fun transition ↦ ⟨some transition.fromState.value, transition.toState.value,
                some transition.cause, transition.attempt⟩ })
    | none => .response 404 none
  else .response 500 none

structure Shop (cfg : Config) where
  pipeline : Pipeline cfg services
  attempts : List Attempt

namespace Shop

inductive Action (cfg : Config)
  | storefront (action : Storefront.Action)
  | orch (action : Concurrency.Action (orchestrator cfg services noCommands))

variable (s : Shop cfg)

/-- The shop as `placeCart` sees it. -/
def front : Storefront := ⟨s.pipeline.ingestion, s.attempts⟩

/-- The database of the orchestrator. -/
def db : Orchestrator.Db := (Orchestrator.Shared.db s.pipeline.orch.shared).committed

/-- Another service publishes to the broker of the orchestrator. -/
def publishes : Concurrency.Action (orchestrator cfg services noCommands) → Bool
  | .ambient (.publish _) => true
  | _ => false

def act : Action cfg → Option (Shop cfg)
  | .storefront action => (s.front.act action).map fun front ↦
      { pipeline := ⟨front.ingestion, Pipeline.take s.pipeline.orch
          (front.ingestion.shared.sent.drop s.pipeline.ingestion.shared.sent.length)⟩
        attempts := front.attempts }
  | .orch action =>
    if publishes action then none
    else (s.pipeline.act (.orch action)).map fun pipeline ↦ { s with pipeline := pipeline }

end Shop

/-- The shop before its first boot. -/
def shop (cfg : Config) : Transitions (Shop cfg) (Shop.Action cfg) where
  start := ⟨Pipeline.initial cfg services, []⟩
  act := Shop.act

/-! ### What one step does -/

section Steps

variable {s s' : Shop cfg}

theorem Shop.act_storefront {action : Storefront.Action}
    (h : s.act (.storefront action) = some s') : s.front.act action = some s'.front ∧
      s'.pipeline.orch = Pipeline.take s.pipeline.orch
        (s'.pipeline.ingestion.shared.sent.drop s.pipeline.ingestion.shared.sent.length) := by
  obtain ⟨front, hfront, rfl⟩ := Option.map_eq_some_iff.mp h
  exact ⟨hfront, rfl⟩

theorem Shop.act_orch {action : Concurrency.Action (orchestrator cfg services noCommands)}
    (h : s.act (.orch action) = some s') : Shop.publishes action = false ∧
      s.pipeline.orch.act action = some s'.pipeline.orch ∧ s'.front = s.front := by
  change (if Shop.publishes action = true then none else _) = some s' at h
  split at h
  · cases h
  · rename_i hpublishes
    obtain ⟨pipeline, hpipeline, rfl⟩ := Option.map_eq_some_iff.mp h
    obtain ⟨w, hw, rfl⟩ := Option.map_eq_some_iff.mp hpipeline
    exact ⟨by simpa using hpublishes, hw, rfl⟩

/-- A step of the storefront leaves ingestion alone, or is one of ingestion. -/
theorem Storefront.ingestion_act {s s' : Storefront} {action : Storefront.Action}
    (h : s.act action = some s') :
    s'.ingestion = s.ingestion ∨ ∃ inner, s.ingestion.act inner = some s'.ingestion := by
  cases action with
  | ingestion inner =>
    obtain ⟨w, hw, rfl⟩ := Option.map_eq_some_iff.mp h
    exact Or.inr ⟨inner, hw⟩
  | place input uuid =>
    rw [Storefront.act_place h]
    exact Or.inl rfl
  | deliver number index =>
    obtain ⟨attempt, post, w, -, -, hw, rfl⟩ := Storefront.act_deliver h
    exact Or.inr ⟨_, hw⟩
  | answer number index =>
    obtain ⟨attempt, post, thread, -, -, -, -, ⟨response, -, rfl⟩ | rfl⟩ := Storefront.act_answer h
    · exact Or.inl rfl
    · exact Or.inl rfl
  | fail number index =>
    obtain ⟨attempt, post, -, -, -, rfl⟩ := Storefront.act_fail h
    exact Or.inl rfl

/-- What was sent stays sent. -/
theorem Storefront.sent_act {s s' : Storefront} (hs : s.Sound) {action : Storefront.Action}
    (h : s.act action = some s') : s.ingestion.shared.sent <+: s'.ingestion.shared.sent := by
  rcases Storefront.ingestion_act h with hsame | ⟨inner, hinner⟩
  · rw [hsame]
  · obtain ⟨launches, htraced, -⟩ := hs
    have hholds : Ingestion.discipline.Holds s.ingestion :=
      Discipline.holds_of_reachable Ingestion.verified htraced.reachable
    exact (Discipline.Holds.act_rely Ingestion.verified hholds
      (World.permitted_anyEffect _ _) hinner
      (Nat.le_refl _)).sent

end Steps

/-! ### The orchestrator has the orders of ingestion -/

/-- The storefront is sound, and the broker of the orchestrator has from others only what ingestion
has sent. -/
structure Shop.Sound (s : Shop cfg) : Prop where
  front : s.front.Sound
  orch : ∃ launches, World.Traced World.anyEffect launches s.pipeline.orch
  fed : ∀ publication ∈ Broker.log (Orchestrator.Shared.broker s.pipeline.orch.shared),
    publication.publisher = none →
      ∃ row ∈ s.pipeline.ingestion.shared.sent, publication = Pipeline.publicationOf row

theorem Storefront.Sound.inv {s : Storefront} (h : s.Sound) :
    Ingestion.Sound s.ingestion.shared := by
  obtain ⟨launches, htraced, -⟩ := h
  exact (Discipline.holds_of_reachable Ingestion.verified htraced.reachable).inv

section Sound

variable {s s' : Shop cfg}

theorem Shop.sound_start : (shop cfg).start.Sound where
  front := Storefront.sound_start
  orch := ⟨[], .initial⟩
  fed publication hlogged := by cases hlogged

theorem Shop.Sound.storefront (h : s.Sound) {action : Storefront.Action}
    (hact : s.act (.storefront action) = some s') : s'.Sound := by
  obtain ⟨hfront, horch⟩ := Shop.act_storefront hact
  have hnext : s'.front.Sound := h.front.act hfront
  obtain ⟨later, hsent⟩ := Storefront.sent_act h.front hfront
  have hdrop : s'.pipeline.ingestion.shared.sent.drop s.pipeline.ingestion.shared.sent.length =
      later := by
    rw [show s'.pipeline.ingestion.shared.sent = _ from hsent.symm]
    exact List.drop_left
  have hlater : ∀ row ∈ later, row ∈ s'.pipeline.ingestion.shared.sent := fun row hrow ↦
    hsent ▸ List.mem_append_right _ hrow
  rw [hdrop] at horch
  constructor
  · exact hnext
  · obtain ⟨launches, htraced⟩ := h.orch
    refine ⟨launches, ?_⟩
    rw [horch]
    refine Pipeline.traced_take htraced fun row hrow ↦ ?_
    obtain ⟨order, -, hannounces⟩ := Pipeline.exists_announces_of_sent hnext.inv (hlater row hrow)
    exact hannounces.type
  · intro publication hlogged hnone
    rw [horch] at hlogged
    rcases Pipeline.mem_log_take hlogged with hold | ⟨row, hrow, hsame⟩
    · obtain ⟨row, hrow, hsame⟩ := h.fed publication hold hnone
      exact ⟨row, hsent ▸ List.mem_append_left _ hrow, hsame⟩
    · exact ⟨row, hlater row hrow, hsame⟩

/-- The orchestrator does not publish as another service. -/
theorem fed_act {w w' : World (orchestrator cfg services noCommands)}
    {action : Concurrency.Action (orchestrator cfg services noCommands)}
    (hquiet : Shop.publishes action = false) (hact : w.act action = some w')
    {publication : Publication} (hnone : publication.publisher = none)
    (hlogged : publication ∈ Broker.log (Orchestrator.Shared.broker w'.shared)) :
    publication ∈ Broker.log (Orchestrator.Shared.broker w.shared) := by
  cases action with
  | launch started =>
    obtain ⟨program, shared, hlaunch, rfl⟩ := World.act_launch hact
    rw [← (Orchestrator.broker_of_launch hlaunch).log]
    exact hlogged
  | step thread choice =>
    obtain ⟨effect, resume, reply, shared, -, hexec, rfl⟩ := World.act_step hact
    rcases Orchestrator.log_of_exec hexec with hsame | ⟨exchange, routingKey, body, -, hlog⟩
    · rw [← hsame]
      exact hlogged
    · rw [show Broker.log (Orchestrator.Shared.broker shared) = _ from hlog] at hlogged
      rcases List.mem_append.mp hlogged with hold | hnew
      · exact hold
      · rw [List.mem_singleton.mp hnew] at hnone
        cases hnone
  | kill thread =>
    rw [World.act_kill hact] at hlogged
    exact hlogged
  | ambient beside =>
    obtain ⟨shared, hambient, rfl⟩ := World.act_ambient hact
    rcases Orchestrator.broker_of_ambient hambient with hmoves | ⟨published, rfl, -⟩
    · rw [← hmoves.log]
      exact hlogged
    · cases hquiet

theorem Shop.Sound.orchestrate (h : s.Sound)
    {action : Concurrency.Action (orchestrator cfg services noCommands)}
    (hact : s.act (.orch action) = some s') : s'.Sound := by
  obtain ⟨hquiet, hw, hfront⟩ := Shop.act_orch hact
  have hingestion : s'.pipeline.ingestion = s.pipeline.ingestion :=
    congrArg Storefront.ingestion hfront
  constructor
  · rw [hfront]
    exact h.front
  · obtain ⟨launches, htraced⟩ := h.orch
    exact ⟨_, htraced.act (World.permitted_anyEffect _ _) hw⟩
  · intro publication hlogged hnone
    rw [hingestion]
    exact h.fed publication (fed_act hquiet hw hnone hlogged) hnone

theorem Shop.Sound.act (h : s.Sound) {action : Shop.Action cfg} (hact : s.act action = some s') :
    s'.Sound := by
  cases action with
  | storefront action => exact h.storefront hact
  | orch action => exact h.orchestrate hact

theorem Shop.sound_of_reachable (hs : (shop cfg).Reachable Transitions.anyAction s) : s.Sound :=
  Transitions.invariant Shop.sound_start (fun _ _ _ h _ hact ↦ h.act hact) hs

/-- The order of the orchestrator is this one of ingestion. -/
structure SameOrder (row : Orchestrator.OrderRow) (order : Ingestion.OrderRow) : Prop where
  orderId : row.orderId = order.orderId
  customerId : row.customerId = some order.customerId
  restaurantId : row.restaurantId = some order.restaurantId
  items : row.items = order.items
  totalCents : row.totalCents = order.totalCents

theorem sameOrder_of_announces {row : Orchestrator.OrderRow} {out : OutboxRow}
    {order : Ingestion.OrderRow} {now : ℕ}
    (hcore : row.core = ((Orchestrator.placedValues out.payload).row now).core)
    (h : Ingestion.Announces out order) : SameOrder row order where
  orderId := by
    have hsame : row.core.orderId = out.payload.orderId :=
      congrArg Orchestrator.OrderRow.orderId hcore
    exact hsame.trans h.orderId
  customerId := by
    have hsame : row.core.customerId = out.payload.data.customerId :=
      congrArg Orchestrator.OrderRow.customerId hcore
    rw [h.data] at hsame
    exact hsame
  restaurantId := by
    have hsame : row.core.restaurantId = out.payload.data.restaurantId :=
      congrArg Orchestrator.OrderRow.restaurantId hcore
    rw [h.data] at hsame
    exact hsame
  items := by
    have hsame : row.core.items = out.payload.data.items.getD [] :=
      congrArg Orchestrator.OrderRow.items hcore
    rw [h.data] at hsame
    exact hsame
  totalCents := by
    have hsame : row.core.totalCents = out.payload.data.totalCents.getD 0 :=
      congrArg Orchestrator.OrderRow.totalCents hcore
    rw [h.data] at hsame
    exact hsame

/-- Every order of the orchestrator is one of ingestion. -/
theorem Shop.Sound.exists_order (h : s.Sound) {row : Orchestrator.OrderRow}
    (hrow : row ∈ s.db.orders) : ∃ order ∈ s.front.orders, SameOrder row order := by
  obtain ⟨launches, htraced⟩ := h.orch
  obtain ⟨values, now, ⟨publication, hlogged, hnone, env, hbody, rfl⟩, hcore⟩ :=
    Orchestrator.placed_of_traced htraced hrow
  obtain ⟨out, hout, rfl⟩ := h.fed publication hlogged hnone
  obtain ⟨order, horder, hannounces⟩ := Pipeline.exists_announces_of_sent h.front.inv hout
  obtain rfl : out.payload = env := Body.envelope.inj hbody
  exact ⟨order, horder, sameOrder_of_announces hcore hannounces⟩

/-- The orchestrator over the services, supplied by ingestion. -/
def supplied (cfg : Config) : Orchestrator.Setting services where
  cfg := cfg
  contract := Orchestrator.servicesContract
  foreign := noCommands
  strict := False
  quiet := fun hstrict ↦ hstrict.elim

theorem Shop.Sound.holds (h : s.Sound) :
    (Orchestrator.discipline (supplied cfg)).Holds s.pipeline.orch := by
  obtain ⟨launches, htraced⟩ := h.orch
  exact Discipline.holds_of_reachable (Orchestrator.verified (supplied cfg))
    (htraced.reachable.mono fun _ _ _ _ _ hstrict ↦ hstrict.elim)

theorem Shop.Sound.records (h : s.Sound) :
    Orchestrator.Sound (supplied cfg) s.pipeline.orch.shared := h.holds.inv

/-! ### What the payment service is asked for -/

/-- The payment service has received a request for an amount for the order. -/
def Shop.Asked (s : Shop cfg) (orderId : String) (amount : ℤ) : Prop :=
  ∃ received ∈ (Orchestrator.Services.payment
      (Orchestrator.Shared.downstream s.pipeline.orch.shared)).shared.received,
    received.2.orderId = some orderId ∧ received.2.amount = some amount

/-- It is asked for the amounts of orders. -/
theorem Shop.Sound.amount_of_asked (h : s.Sound) {orderId : String} {amount : ℤ}
    (hasked : s.Asked orderId amount) :
    ∃ row ∈ s.db.orders, row.orderId = orderId ∧ row.totalCents = amount := by
  obtain ⟨⟨request, body⟩, hreceived, horderId, hamount⟩ := hasked
  obtain ⟨row, hrow, source, target, -, -, -, hcommand⟩ :=
    h.records.effects.ordered .payment (.charge body) ⟨request, rfl, hreceived⟩
  obtain rfl := Orchestrator.Command.charge.inj hcommand
  exact ⟨row, hrow, Option.some.inj horderId, Option.some.inj hamount⟩

/-! ### What is read back -/

theorem Pipeline.db_take (w : World (orchestrator cfg services noCommands))
    (rows : List OutboxRow) : (Pipeline.take w rows).shared.db = w.shared.db := by
  induction rows generalizing w with
  | nil => rfl
  | cons row rest ih =>
    exact ih { w with shared := Orchestrator.Shared.publish w.shared (Pipeline.publicationOf row) }

/-- Nothing is taken out of the database of the orchestrator. -/
theorem Shop.Sound.grows (h : s.Sound) {action : Shop.Action cfg} (hact : s.act action = some s') :
    s.db.Grows s'.db := by
  cases action with
  | storefront action =>
    have hdb : s'.db = s.db := by
      unfold Shop.db
      rw [(Shop.act_storefront hact).2, Pipeline.db_take]
    rw [hdb]
    exact Orchestrator.Db.Grows.refl _
  | orch action =>
    obtain ⟨-, hw, -⟩ := Shop.act_orch hact
    have hpermit :
        s.pipeline.orch.Permitted (Orchestrator.discipline (supplied cfg)).Permit action :=
      (World.permitted_anyEffect _ _).mono fun _ _ _ _ _ hstrict ↦ hstrict.elim
    exact (Discipline.Holds.act_rely (Orchestrator.verified (supplied cfg)) h.holds hpermit hw
      (Nat.le_refl _)).db

theorem Shop.grows_of_steps (hs : (shop cfg).Reachable Transitions.anyAction s)
    (hsteps : Relation.ReflTransGen ((shop cfg).Step Transitions.anyAction) s s') :
    s.db.Grows s'.db := by
  induction hsteps with
  | refl => exact Orchestrator.Db.Grows.refl _
  | tail hbefore hlast ih =>
    obtain ⟨action, -, hact⟩ := hlast
    exact ih.trans ((Shop.sound_of_reachable (hs.trans hbefore)).grows hact)

/-- The orchestrator has the order. -/
def Shop.Seeded (s : Shop cfg) (orderId : String) : Prop :=
  ∃ row ∈ s.db.orders, row.orderId = orderId

/-- The order was read at some time since it was seeded. -/
def Shop.Read (s : Shop cfg) (order : TokenOrder) (fetched : Fetched) : Prop :=
  ∃ earlier : Shop cfg, (shop cfg).Reachable Transitions.anyAction earlier ∧
    Relation.ReflTransGen ((shop cfg).Step Transitions.anyAction) earlier s ∧
      earlier.Seeded order.id ∧ ∃ later, fetched = getOrder earlier.db later order.id

/-- What was read is the amount of the order. -/
theorem Shop.amount_of_read {order : TokenOrder} {fetched : Fetched}
    (hread : s.Read order fetched) :
    ∃ row ∈ s.db.orders, row.orderId = order.id ∧
      (fetchOrder order fetched).order.totalCents = row.totalCents := by
  obtain ⟨earlier, hearlier, hsteps, ⟨seeded, hseeded, hid⟩, later, rfl⟩ := hread
  have htables := (Shop.sound_of_reachable hearlier).records.tables
  have huuid : isUuid order.id = true := hid ▸ htables.orderIds seeded hseeded
  unfold getOrder
  rw [if_pos huuid]
  cases hfind : Table.find Orchestrator.OrderRow.orderId order.id earlier.db.orders with
  | none => exact absurd hid (Table.find_none.mp hfind seeded hseeded)
  | some found =>
    obtain ⟨hfound, hfoundId⟩ := Table.find_some hfind
    obtain ⟨row, hrow, hcore⟩ := (Shop.grows_of_steps hearlier hsteps).orders found hfound
    refine ⟨row, hrow, (Orchestrator.orderId_of_core hcore).trans hfoundId, ?_⟩
    have htotal : row.core.totalCents = found.core.totalCents :=
      congrArg Orchestrator.OrderRow.totalCents hcore
    exact htotal.symm

end Sound

end DinnerRush.CustomerWeb
