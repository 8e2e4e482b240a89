import DinnerRush.Orchestrator.Composition
import DinnerRush.Orchestrator.Replay

/-!
# Where the orders come from

The queue of placed events holds what other services have published to it, and `on_placed` inserts
what such an event says. So an order of the database is that of a placed event which another service
has published (`placed_of_traced`), whatever was delivered again, parked or replayed.
-/

set_option autoImplicit false
set_option relaxedAutoImplicit false

namespace DinnerRush

open Concurrency

/-- What is routed to the queue of placed events. -/
def ToPlaced (exchange : Exchange) (routingKey : String) : Prop :=
  exchange = .events ∧ routingKey = rkPlaced

namespace Broker

variable {b b' : Broker}

/-- What the queue of placed events holds was published by another service. -/
def Sourced (b : Broker) : Prop :=
  ∀ copy ∈ b.copies, copy.place.queue = .orchPlaced →
    ∃ publication ∈ b.log, publication.publisher = none ∧ publication.body = copy.body

theorem Sourced.moves (h : b.Sourced) (hmoves : Moves b b') : b'.Sourced := by
  intro copy' hcopy' hqueue
  obtain ⟨copy, hcopy, -, hbody, hsame⟩ := hmoves.origin copy' hcopy'
  rw [hmoves.log, hbody]
  exact h copy hcopy (hsame hqueue)

theorem Sourced.discard (h : b.Sourced) (number consumer : ℕ) :
    (b.discard number consumer).Sourced :=
  fun copy hcopy ↦ h copy (List.mem_of_mem_filter hcopy)

/-- Others may publish anything, the orchestrator anything that is no placed event. -/
theorem Sourced.publish (h : b.Sourced) {publication : Publication}
    (hsource : publication.publisher = none ∨
      ¬ ToPlaced publication.exchange publication.routingKey) :
        (b.publish publication).Sourced := by
  rcases b.publish_cases publication with ⟨-, hsame⟩ | ⟨queue, hroute, hpublished⟩
  · rw [hsame]
    exact h
  · rw [hpublished]
    intro copy hcopy hqueue
    rcases List.mem_append.mp hcopy with hold | hnew
    · obtain ⟨logged, hlogged, hlast⟩ := h copy hold hqueue
      exact ⟨logged, List.mem_append_left _ hlogged, hlast⟩
    · obtain rfl := List.mem_singleton.mp hnew
      obtain rfl : queue = .orchPlaced := hqueue
      refine ⟨publication, List.mem_append_right _ List.mem_cons_self, ?_, rfl⟩
      refine hsource.resolve_right fun hother ↦ hother ?_
      unfold route at hroute
      split at hroute
      · rename_i hevents
        split at hroute
        · rename_i hbound
          rw [Bool.and_eq_true, beq_iff_eq] at hbound
          exact ⟨hevents, hbound.2⟩
        · cases hroute
      · split at hroute <;> simp at hroute
      · split at hroute <;> simp at hroute
      · simp at hroute

end Broker

namespace Orchestrator

open World Program

variable {cfg : Config} {D : Downstreams} {foreign : Publication → Bool} {β γ : Type}
  {log log' : List Publication} {thread : ℕ} {s s' : Shared D}

/-- The values that `on_placed` inserts. -/
def placedValues (env : Envelope) : OrderValues :=
  { orderId := env.orderId, idempotencyKey := env.data.idempotencyKey,
    customerId := env.data.customerId, restaurantId := env.data.restaurantId,
    items := env.data.items.getD [], totalCents := env.data.totalCents.getD 0 }

/-- Another service has published an event with these values. -/
def Supplied (log : List Publication) (values : OrderValues) : Prop :=
  ∃ publication ∈ log, publication.publisher = none ∧ ∃ env, publication.body = .envelope env ∧
    values = placedValues env

theorem Supplied.grows {values : OrderValues} (h : Supplied log values) (hlog : log <+: log') :
    Supplied log' values := by
  obtain ⟨publication, hlogged, hsource⟩ := h
  exact ⟨publication, hlog.subset hlogged, hsource⟩

/-! ### The conduct of the handlers -/

/-- The handlers insert only what was supplied, and announce no order. -/
def Handles (log : List Publication) : Effect → Prop
  | .insertOrder values => Supplied log values
  | .enqueue exchange routingKey _ => ¬ ToPlaced exchange routingKey
  | .publish exchange routingKey _ => ¬ ToPlaced exchange routingKey
  | _ => True

/-- The outbox has no placed events. -/
def NoneToPlaced : (effect : Effect) → Except Failure effect.Result → Prop
  | .selectUnpublished _, .ok rows => ∀ row ∈ rows, ¬ ToPlaced row.exchange row.routingKey
  | _, _ => True

theorem Handles.grows {effect : Effect} (h : Handles log effect) (hlog : log <+: log') :
    Handles log' effect := by
  cases effect with
  | insertOrder values => exact Supplied.grows h hlog
  | _ => exact h

abbrev Proper (log : List Publication) (program : Proc β) : Prop :=
  program.Conduct NoneToPlaced (Handles log) fun _ ↦ True

theorem proper_perform {effect : Effect} (h : Handles log effect) : Proper log (perform effect) :=
  conduct_call h fun _ _ ↦ trivial

theorem Proper.then {program : Proc β} {next : β → Proc γ} (h : Proper log program)
    (hnext : ∀ value, Proper log (next value)) : Proper log (program.bind next) :=
  Conduct.bind h fun value _ ↦ hnext value

theorem upholds_proper : Upholds fun (β : Type) (program : Proc β) ↦ Proper log program where
  closed := closed_conduct _ _
  quiet effect hquiet := proper_perform <| by
    cases effect <;> trivial

theorem transacts_proper : Transacts fun (β : Type) (program : Proc β) ↦ Proper log program :=
  ⟨proper_perform (by trivial), proper_perform (by trivial), proper_perform (by trivial)⟩

/-- What is not published as an event is no placed event. -/
theorem proper_publish {exchange : Exchange} (hexchange : exchange ≠ .events) (routingKey : String)
    (body : Body) : Proper log (perform (.publish exchange routingKey body)) :=
  proper_perform fun hplaced ↦ hexchange hplaced.1

theorem proper_enqueue {exchange : Exchange} {routingKey : String}
    (hplaced : ¬ ToPlaced exchange routingKey) (env : Envelope) :
    Proper log (perform (.enqueue exchange routingKey env)) :=
  proper_perform hplaced

theorem proper_scheduleRetry (env : Envelope) : Proper log (scheduleRetry env) :=
  Proper.then (proper_perform (by trivial)) fun _ ↦
    Proper.then (upholds_proper.current env) fun _ ↦ proper_publish (by decide) _ _

theorem not_toPlaced_work : ¬ ToPlaced .work rkAdvance := fun hplaced ↦ by cases hplaced.1

theorem proper_onPlaced {message : Delivery}
    (h : ∀ env, message.body = .envelope env → Supplied log (placedValues env)) :
    Proper log (onPlaced message) :=
  upholds_proper.onPlaced (proper_publish (by decide) _ _)
    (fun _ _ _ ↦ proper_publish (by decide) _ _) fun env henv ↦
      upholds_proper.insertPlaced transacts_proper (proper_perform (h env henv)) fun seed ↦
        proper_enqueue not_toPlaced_work seed

theorem proper_recordStep (orderId : String) (source target : State) (opId kind : String)
    (result : Detail) (cause race : String) (attempt : ℤ) :
    Proper log (recordStep orderId source target opId kind result cause race attempt) := by
  have htransition : ¬ ToPlaced .events rkTransition := fun hplaced ↦
    absurd hplaced.2 (by decide)
  exact upholds_proper.recordStep transacts_proper (fun _ ↦ proper_perform (by trivial))
    (fun _ _ _ ↦ proper_perform (by trivial)) (fun _ ↦ proper_perform (by trivial))
    (proper_enqueue htransition) (proper_enqueue not_toPlaced_work) _ _ _ _ _ _ _ _ _

theorem proper_onAdvance (cfg : Config) (message : Delivery) :
    Proper log (onAdvance cfg message) :=
  upholds_proper.onAdvance cfg proper_recordStep (fun _ ↦ proper_perform (by trivial))
    (fun _ ↦ proper_perform (by trivial)) (proper_publish (by decide) _ _) fun env _ ↦
      upholds_proper.retryOrDlq (fun _ ↦ proper_publish (by decide) _ _) cfg message
        (proper_scheduleRetry env)

theorem proper_replayDlq (limit : ℕ) : Proper log (replayDlq limit) :=
  upholds_proper.replayDlq (fun _ ↦ proper_publish (by decide) _ _) limit

/-- The relay publishes what the outbox holds. -/
theorem proper_drainOnce : Proper log relay.drainOnce := by
  have hpublish : ∀ rows : List OutboxRow, (∀ row ∈ rows, ¬ ToPlaced row.exchange row.routingKey) →
      Proper log (relay.publishAll rows) := by
    intro rows hrows
    induction rows with
    | nil => trivial
    | cons row rest ih =>
      have hrest := ih fun other hother ↦ hrows other (List.mem_cons_of_mem row hother)
      exact Proper.then (proper_perform (hrows row List.mem_cons_self)) fun _ ↦
        hrest.then fun _ ↦ trivial
  have hselect : (perform (.selectUnpublished Outbox.batchSize)).Conduct NoneToPlaced (Handles log)
      fun rows ↦ ∀ row ∈ rows, ¬ ToPlaced row.exchange row.routingKey := by
    refine ⟨trivial, fun reply hreply ↦ ?_⟩
    cases reply with
    | ok rows => exact hreply
    | error error => trivial
  refine Conduct.transaction (proper_perform (by trivial)) (proper_perform (by trivial))
    (proper_perform (by trivial)) (hselect.bind fun rows hrows ↦ ?_)
  split
  · trivial
  · exact (hpublish rows hrows).then fun _ ↦
      Proper.then (proper_perform (by trivial)) fun _ ↦ trivial

/-! ### What the database holds -/

/-- The write that an effect adds to its transaction. -/
def Effect.Adds : Effect → Write → Prop
  | .insertOrder values, write => ∃ now, write = .insertOrder (values.row now)
  | .claimOperation row, write => write = .claim row
  | .updateState orderId target _, write => ∃ now, write = .setState orderId target now
  | .insertTransition values, write => ∃ id now, write = .insertTransition (values.row id now)
  | .enqueue exchange routingKey env, write => ∃ id, write = .enqueue
      ⟨id, exchange, routingKey, env, false⟩
  | .stamp ids, write => write = .stamp ids
  | _, _ => False

/-- Only an insert of an order adds one. -/
theorem adds_insertOrder {effect : Effect} {row : OrderRow}
    (h : effect.Adds (.insertOrder row)) :
    ∃ values now, effect = .insertOrder values ∧ row = values.row now := by
  cases effect with
  | insertOrder values =>
    obtain ⟨now, hwrite⟩ := h
    exact ⟨values, now, rfl, Write.insertOrder.inj hwrite⟩
  | _ => simp [Effect.Adds] at h

/-- Only an insert into the outbox adds to it. -/
theorem adds_enqueue {effect : Effect} {row : OutboxRow} (h : effect.Adds (.enqueue row)) :
    ∃ exchange routingKey env id,
      effect = .enqueue exchange routingKey env ∧ row = ⟨id, exchange, routingKey, env, false⟩ := by
  cases effect with
  | enqueue exchange routingKey env =>
    obtain ⟨id, hwrite⟩ := h
    exact ⟨exchange, routingKey, env, id, rfl, Write.enqueue.inj hwrite⟩
  | _ => simp [Effect.Adds] at h

section Written

variable {has : Db → Prop} {adds : Write → Prop} {effect : Effect}

theorem written_of_wrote {db : Store} {write : Write} (heffect : effect.Adds write)
    (h : (db.write thread write).Written has adds) :
    db.Written has adds ∨ ∃ write, effect.Adds write ∧ adds write :=
  (Transactions.written_write h).imp_right fun hadds ↦ ⟨write, heffect, hadds⟩

/-- A statement that takes effect. -/
theorem written_done (happly : ∀ d w, has (Db.apply d w) → has d ∨ adds w)
    {reply : Except Failure effect.Result} (hexec : exec thread effect .done s = some (reply, s'))
    (h : s'.db.Written has adds) :
    s.db.Written has adds ∨ ∃ write, effect.Adds write ∧ adds write := by
  cases effect with
  | begin =>
    obtain ⟨-, rfl⟩ := Prod.mk.inj (Option.some.inj hexec)
    exact Or.inl (Transactions.written_begin h)
  | commit =>
    simp only [exec] at hexec
    split at hexec
    · obtain ⟨-, rfl⟩ := Prod.mk.inj (Option.some.inj hexec)
      exact Or.inl (Transactions.written_commit happly h)
    · cases hexec
  | rollback =>
    obtain ⟨-, rfl⟩ := Prod.mk.inj (Option.some.inj hexec)
    exact Or.inl (Transactions.written_abort h)
  | insertOrder values =>
    obtain ⟨⟨inserted, s₁⟩, hinsert, hreply⟩ := Option.map_eq_some_iff.mp hexec
    obtain ⟨-, rfl⟩ := Prod.mk.inj hreply
    rcases (insertOrder_cases hinsert).2.2 with ⟨-, rfl, -⟩ | ⟨-, -, -, rfl⟩
    · exact Or.inl h
    · exact written_of_wrote ⟨_, rfl⟩ h
  | claimOperation row =>
    obtain ⟨⟨claimed, s₁⟩, hclaim, hreply⟩ := Option.map_eq_some_iff.mp hexec
    obtain ⟨-, rfl⟩ := Prod.mk.inj hreply
    rcases (claimOperation_cases hclaim).2 with ⟨-, rfl, -⟩ | ⟨-, -, rfl⟩
    · exact Or.inl h
    · exact written_of_wrote rfl h
  | updateState orderId target source =>
    obtain ⟨⟨updated, s₁⟩, hupdate, hreply⟩ := Option.map_eq_some_iff.mp hexec
    obtain ⟨-, rfl⟩ := Prod.mk.inj hreply
    rcases (updateState_cases hupdate).2 with ⟨-, rfl⟩ | ⟨-, -, -, rfl⟩
    · exact Or.inl h
    · exact written_of_wrote ⟨_, rfl⟩ h
  | insertTransition values =>
    obtain ⟨s₁, hinsert, hreply⟩ := Option.map_eq_some_iff.mp hexec
    obtain ⟨-, rfl⟩ := Prod.mk.inj hreply
    obtain ⟨-, rfl⟩ := insertTransition_cases hinsert
    exact written_of_wrote ⟨_, _, rfl⟩ h
  | enqueue exchange routingKey env =>
    obtain ⟨s₁, henqueue, hreply⟩ := Option.map_eq_some_iff.mp hexec
    obtain ⟨-, rfl⟩ := Prod.mk.inj hreply
    obtain ⟨-, rfl⟩ := enqueue_cases henqueue
    exact written_of_wrote ⟨_, rfl⟩ h
  | selectUnpublished batch =>
    simp only [exec] at hexec
    split at hexec
    · obtain ⟨-, rfl⟩ := Prod.mk.inj (Option.some.inj hexec)
      exact Or.inl (Transactions.written_lockAll h)
    · cases hexec
  | stamp ids =>
    simp only [exec] at hexec
    split at hexec
    · obtain ⟨-, rfl⟩ := Prod.mk.inj (Option.some.inj hexec)
      exact written_of_wrote rfl h
    · cases hexec
  | _ =>
    rw [(db_of_exec hexec rfl).1] at h
    exact Or.inl h

/-- What is written after an effect was written before, or the effect has added it. -/
theorem written_exec (happly : ∀ d w, has (Db.apply d w) → has d ∨ adds w) {choice : Choice}
    {reply : Except Failure effect.Result} (hexec : exec thread effect choice s = some (reply, s'))
    (h : s'.db.Written has adds) :
    s.db.Written has adds ∨ ∃ write, effect.Adds write ∧ adds write := by
  cases hstatement : effect.isStatement with
  | false =>
    rw [(db_of_exec hexec hstatement).1] at h
    exact Or.inl h
  | true =>
    rcases statement_cases hstatement hexec with rfl | ⟨answer, hdone⟩
    · exact Or.inl h
    · exact written_done happly hdone h

end Written

/-- The database has an order with these columns. -/
def Db.HasOrder (core : OrderRow) (d : Db) : Prop := ∃ row ∈ d.orders, row.core = core

def Write.AddsOrder (core : OrderRow) (write : Write) : Prop :=
  ∃ row, write = .insertOrder row ∧ row.core = core

/-- The outbox has a placed event. -/
def Db.HasPlaced (d : Db) : Prop := ∃ row ∈ d.outbox, ToPlaced row.exchange row.routingKey

def Write.AddsPlaced (write : Write) : Prop :=
  ∃ row, write = .enqueue row ∧ ToPlaced row.exchange row.routingKey

theorem hasOrder_apply {core : OrderRow} (d : Db) (write : Write)
    (h : (d.apply write).HasOrder core) : d.HasOrder core ∨ write.AddsOrder core := by
  obtain ⟨row, hrow, hcore⟩ := h
  cases write with
  | insertOrder inserted =>
    rcases List.mem_append.mp hrow with hold | hnew
    · exact Or.inl ⟨row, hold, hcore⟩
    · rw [List.mem_singleton.mp hnew] at hcore
      exact Or.inr ⟨inserted, rfl, hcore⟩
  | setState orderId state now =>
    obtain ⟨before, hbefore, rfl⟩ := List.mem_map.mp hrow
    refine Or.inl ⟨before, hbefore, ?_⟩
    rw [← hcore]
    split <;> rfl
  | _ => exact Or.inl ⟨row, hrow, hcore⟩

theorem hasPlaced_apply (d : Db) (write : Write) (h : (d.apply write).HasPlaced) :
    d.HasPlaced ∨ write.AddsPlaced := by
  obtain ⟨row, hrow, hplaced⟩ := h
  cases write with
  | enqueue enqueued =>
    rcases List.mem_append.mp hrow with hold | hnew
    · exact Or.inl ⟨row, hold, hplaced⟩
    · rw [List.mem_singleton.mp hnew] at hplaced
      exact Or.inr ⟨enqueued, rfl, hplaced⟩
  | stamp ids =>
    obtain ⟨before, hbefore, rfl⟩ := List.mem_map.mp hrow
    refine Or.inl ⟨before, hbefore, ?_⟩
    by_cases hmem : before.id ∈ ids
    · rw [if_pos hmem] at hplaced
      exact hplaced
    · rw [if_neg hmem] at hplaced
      exact hplaced
  | _ => exact Or.inl ⟨row, hrow, hplaced⟩

/-- An order with these columns is committed, or inserted by an open transaction. -/
def Shared.Holds (s : Shared D) (core : OrderRow) : Prop :=
  s.db.Written (Db.HasOrder core) (Write.AddsOrder core)

/-- A placed event is in the outbox, or enqueued by an open transaction. -/
def Shared.Announces (s : Shared D) : Prop := s.db.Written Db.HasPlaced Write.AddsPlaced

/-! ### The rule -/

/-- The queue of placed events has what others have published, the orchestrator announces no orders,
and its orders were supplied. -/
structure Supply (s : Shared D) : Prop where
  sourced : s.broker.Sourced
  silent : ¬ s.Announces
  orders : ∀ core, s.Holds core →
    ∃ values now, Supplied s.broker.log values ∧ core = (values.row now).core

theorem log_grows_of_exec {effect : Effect} {choice : Choice} {reply : Except Failure effect.Result}
    (h : exec thread effect choice s = some (reply, s')) : s.broker.log <+: s'.broker.log := by
  rcases log_of_exec h with hsame | ⟨_, _, _, -, hlog⟩
  · rw [hsame]
  · rw [hlog]
    exact List.prefix_append _ _

/-- A broker that has moved on with the same database. -/
theorem Supply.publishes (h : Supply s) (hdb : s'.db = s.db) (hsourced : s'.broker.Sourced)
    (hlog : s.broker.log <+: s'.broker.log) : Supply s' where
  sourced := hsourced
  silent := by
    unfold Shared.Announces
    rw [hdb]
    exact h.silent
  orders core hcore := by
    unfold Shared.Holds at hcore
    rw [hdb] at hcore
    obtain ⟨values, now, hsupplied, hvalues⟩ := h.orders core hcore
    exact ⟨values, now, hsupplied.grows hlog, hvalues⟩

/-- What is launched is proper. -/
theorem proper_launch {started : Launch} {program : Proc Unit} (hsourced : s.broker.Sourced)
    (h : launch cfg thread started s = some (program, s')) : Proper s'.broker.log program := by
  have hlog := (broker_of_launch h).log
  cases started with
  | start =>
    obtain ⟨rfl, -⟩ := Prod.mk.inj (Option.some.inj h)
    exact proper_perform (by trivial)
  | onPlaced number =>
    obtain ⟨⟨message, broker⟩, hdeliver, hreply⟩ := Option.map_eq_some_iff.mp h
    obtain ⟨rfl, -⟩ := Prod.mk.inj hreply
    rw [hlog]
    refine proper_onPlaced fun env henv ↦ ?_
    -- What is delivered from the queue of placed events was published by another service.
    obtain ⟨-, copy, hcopy, hready, -, hbody⟩ := Broker.deliver_cases hdeliver
    obtain ⟨publication, hlogged, hnone, hsame⟩ := hsourced copy hcopy (by rw [hready]; rfl)
    exact ⟨publication, hlogged, hnone, env, hsame.trans (hbody.symm.trans henv), rfl⟩
  | onAdvance number =>
    obtain ⟨delivered, -, hreply⟩ := Option.map_eq_some_iff.mp h
    obtain ⟨rfl, -⟩ := Prod.mk.inj hreply
    exact proper_onAdvance cfg _
  | drainOnce =>
    obtain ⟨rfl, -⟩ := Prod.mk.inj (Option.some.inj h)
    exact proper_drainOnce.then fun _ ↦ trivial
  | replayDlq limit =>
    obtain ⟨rfl, -⟩ := Prod.mk.inj (Option.some.inj h)
    exact (proper_replayDlq limit).then fun _ ↦ trivial

/-- The outbox gives no placed event to the relay. -/
theorem noneToPlaced_exec (h : Supply s) {effect : Effect} {choice : Choice}
    {reply : Except Failure effect.Result}
    (hexec : exec thread effect choice s = some (reply, s')) :
    NoneToPlaced effect reply := by
  cases effect with
  | selectUnpublished batch =>
    cases reply with
    | error error => trivial
    | ok rows =>
      intro row hrow hplaced
      have hrows : rows = s.unpublished thread batch := by
        simp only [exec] at hexec
        cases choice <;> grind
      rw [hrows] at hrow
      have hview : row ∈ (s.view thread).outbox := (Outbox.mem_of_mem_unpublished hrow).1
      refine h.silent ((Transactions.has_foldl hasPlaced_apply ⟨row, hview, hplaced⟩).imp_right ?_)
      rintro ⟨write, hwrite, hadds⟩
      cases hpending : s.db.pending thread with
      | none =>
        rw [hpending] at hwrite
        cases hwrite
      | some writes =>
        rw [hpending] at hwrite
        exact ⟨thread, writes, hpending, write, hwrite, hadds⟩
  | _ => trivial

theorem Supply.exec (h : Supply s) {effect : Effect} {choice : Choice}
    {reply : Except Failure effect.Result} (hhandles : Handles s.broker.log effect)
    (hexec : Orchestrator.exec thread effect choice s = some (reply, s')) : Supply s' where
  sourced := by
    rcases broker_of_exec hexec with hmoves | hbound | ⟨number, hdiscarded⟩ |
      ⟨exchange, routingKey, body, rfl, hpublished⟩
    · exact h.sourced.moves hmoves
    · rw [hbound]
      exact h.sourced
    · rw [hdiscarded]
      exact h.sourced.discard number thread
    · rw [hpublished]
      exact h.sourced.publish (Or.inr hhandles)
  silent hannounces := by
    rcases written_exec hasPlaced_apply hexec hannounces with hbefore |
      ⟨_, hadds, row, rfl, hplaced⟩
    · exact h.silent hbefore
    · obtain ⟨exchange, routingKey, env, id, rfl, rfl⟩ := adds_enqueue hadds
      exact hhandles hplaced
  orders core hcore := by
    have hlog := log_grows_of_exec hexec
    rcases written_exec hasOrder_apply hexec hcore with hbefore | ⟨_, hadds, row, rfl, hrow⟩
    · obtain ⟨values, now, hsupplied, hvalues⟩ := h.orders core hbefore
      exact ⟨values, now, hsupplied.grows hlog, hvalues⟩
    · obtain ⟨values, now, rfl, rfl⟩ := adds_insertOrder hadds
      exact ⟨values, now, Supplied.grows hhandles hlog, hrow.symm⟩

theorem Supply.ambient (h : Supply s) {act : Ambient D}
    (hambient : Orchestrator.ambient foreign act s = some s') :
    Supply s' ∧ s.broker.log <+: s'.broker.log := by
  rcases part_of_ambient hambient with ⟨aborted, rfl⟩ | ⟨broker, rfl, hmoves⟩ |
    ⟨publication, -, hnone, rfl⟩ | ⟨downstream, clock, rfl⟩
  · refine ⟨?_, List.prefix_rfl⟩
    exact
      { sourced := h.sourced
        silent := fun hannounces ↦ h.silent (Transactions.written_abort hannounces)
        orders := fun core hcore ↦ h.orders core (Transactions.written_abort hcore) }
  · exact ⟨h.publishes rfl (h.sourced.moves hmoves) hmoves.log_grows, hmoves.log_grows⟩
  · have hlog := s.broker.log_publish publication
    exact ⟨h.publishes rfl (h.sourced.publish (Or.inl hnone)) hlog, hlog⟩
  · exact ⟨h.publishes rfl h.sourced List.prefix_rfl, List.prefix_rfl⟩

theorem supply_start :
    Supply (D := D) ⟨.start .empty, 0, 0, .empty, fun _ ↦ 0, D.start, 0, fun _ ↦ 0⟩ where
  sourced copy hcopy := by cases hcopy
  silent := by
    rintro (⟨row, hrow, -⟩ | ⟨thread, writes, hpending, -⟩)
    · cases hrow
    · cases hpending
  orders core := by
    rintro (⟨row, hrow, -⟩ | ⟨thread, writes, hpending, -⟩)
    · cases hrow
    · cases hpending

def provenance : Rule (orchestrator cfg D foreign) where
  Allowed s _ := Handles (Broker.log (Shared.broker s))
  Expected := NoneToPlaced
  Returns _ _ := True
  Inv _ s := Supply (D := D) s

theorem provenance_enforced :
    Rule.Enforced (M := orchestrator cfg D foreign) provenance anyEffect where
  start := supply_start
  launch launches launched s program s' h hlaunch := by
    have hmoves := broker_of_launch hlaunch
    refine ⟨Supply.publishes h (db_of_launch hlaunch).1 (h.sourced.moves hmoves) hmoves.log_grows,
      fun _ _ hhandles ↦ hhandles.grows hmoves.log_grows, proper_launch h.sourced hlaunch⟩
  exec launches thread launched effect choice s reply s' hlaunched hhandles _ h hexec := by
    have hlog := log_grows_of_exec hexec
    exact ⟨h.exec hhandles hexec, fun _ _ hhandles ↦ hhandles.grows hlog, noneToPlaced_exec h hexec⟩
  ambient launches act s s' h hambient := by
    obtain ⟨hsupply, hlog⟩ := h.ambient hambient
    exact ⟨hsupply, fun _ _ hhandles ↦ hhandles.grows hlog⟩

/-- An order of the orchestrator is that of a placed event that another service has published. -/
theorem placed_of_traced {launches : List Launch} {w : World (orchestrator cfg D foreign)}
    (hw : Traced anyEffect launches w) {row : OrderRow}
    (hrow : row ∈ w.shared.db.committed.orders) :
    ∃ values now, Supplied w.shared.broker.log values ∧ row.core = (values.row now).core :=
  (provenance_enforced.kept hw).inv.orders row.core (Or.inl ⟨row, hrow, rfl⟩)

end Orchestrator

end DinnerRush
