import DinnerRush.Orchestrator.Handlers

/-!
# The orchestrator as a system

The effects of the handlers on the database, the broker and the downstreams, and the machine that
runs any number of handlers, relay rounds and replays over them.

The downstreams are a parameter. They are given requests and answer some of them; an answer may be
lost, and a handler may stop waiting for it at any time. The breaker of a client may reject or admit
any call, and Redis may answer anything.

Beside the handlers, Postgres may abort a transaction, the broker may take back a delivery or let a
retry expire, and others may publish the messages that `foreign` allows.
-/

set_option autoImplicit false
set_option relaxedAutoImplicit false

namespace DinnerRush.Orchestrator

open Concurrency

/-- The downstream services as the orchestrator sees them. -/
structure Downstreams where
  State : Type
  Act : Type
  start : State
  act : Act → State → Option State
  /-- A request is received; its number and the state after. -/
  send : Service → Command → State → ℕ × State
  /-- The request with this number has been given this answer. -/
  answered : State → Service → ℕ → HttpResponse → Bool

/-- Downstreams that may answer anything. -/
def Downstreams.any : Downstreams where
  State := Unit
  Act := Empty
  start := ()
  act := fun act _ ↦ act.elim
  send := fun _ _ s ↦ (0, s)
  answered := fun _ _ _ _ ↦ true

structure Shared (D : Downstreams) where
  db : Store
  transitionSeq : ℕ
  outboxSeq : ℕ
  broker : Broker
  /-- `env.attempt` of the envelope each handler holds. -/
  attempts : ℕ → ℤ
  downstream : D.State
  /-- The clock of the database. -/
  clock : ℕ
  /-- When the transaction of each thread began, which is its `now()`. -/
  began : ℕ → ℕ

/-- How one effect is resolved: it succeeds, with a given result where several are possible, fails
before it took effect, or fails after. An ack may also be lost without an error. -/
inductive Choice
  | done
  | flag (value : Bool)
  | draw (value : Rat)
  | stamp (stamp : Stamp)
  | message (number : ℕ)
  | response (response : HttpResponse)
  | transport (text : String)
  | ignored
  | lost (text : String)
  | unconfirmed (text : String)

variable {D : Downstreams}

namespace Shared

def view (s : Shared D) (thread : ℕ) : Db := s.db.view Db.apply thread

def inTransaction (s : Shared D) (thread : ℕ) : Bool := (s.db.pending thread).isSome

/-- `INSERT INTO orders … ON CONFLICT (order_id) DO NOTHING RETURNING order_id`. It waits for
another transaction that inserts the order, and has no result when a column constraint is
violated. -/
def insertOrder (s : Shared D) (thread : ℕ) (values : OrderValues) : Option (Bool × Shared D) :=
  if !(s.inTransaction thread && fitsInt values.totalCents && isUuid values.orderId) then none
  else
    match Table.find OrderRow.orderId values.orderId (s.view thread).orders with
    | some _ => some (false, s)
    | none =>
      if s.db.free thread (.order values.orderId) then
        some (true, { s with
          db := (s.db.lock thread (.order values.orderId)).write thread
            (.insertOrder (values.row (s.began thread))) })
      else none

/-- `claim_operation`: `INSERT INTO operations … ON CONFLICT (op_id) DO NOTHING RETURNING op_id`. It
waits for another transaction that claims the operation. -/
def claimOperation (s : Shared D) (thread : ℕ) (row : OperationRow) : Option (Bool × Shared D) :=
  if !s.inTransaction thread then none
  else
    match Table.find OperationRow.opId row.opId (s.view thread).operations with
    | some _ => some (false, s)
    | none =>
      if s.db.free thread (.operation row.opId) then
        some (true, { s with
          db := (s.db.lock thread (.operation row.opId)).write thread (.claim row) })
      else none

/-- `UPDATE orders SET state = $2, updated_at = now() WHERE order_id = $1 AND state = $3`: the
number of rows updated. It waits for a lock on a row that qualifies. -/
def updateState (s : Shared D) (thread : ℕ) (orderId : String) (target source : State) :
    Option (ℕ × Shared D) :=
  if !s.inTransaction thread then none
  else
    let qualifies := fun row : OrderRow ↦ decide (row.orderId = orderId ∧ row.state = source)
    if (s.view thread).orders.any qualifies then
      if s.db.free thread (.order orderId) then
        some (1, { s with
          db := (s.db.lock thread (.order orderId)).write thread
            (.setState orderId target (s.began thread)) })
      else none
    else some (0, s)

/-- `INSERT INTO transitions`: the row takes the next id of the sequence. -/
def insertTransition (s : Shared D) (thread : ℕ) (values : TransitionValues) :
    Option (Shared D) :=
  if s.inTransaction thread then
    some { s with
      db := s.db.write thread (.insertTransition (values.row s.transitionSeq (s.began thread)))
      transitionSeq := s.transitionSeq + 1 }
  else none

/-- `enqueue`: the row takes the next id of the sequence. -/
def enqueue (s : Shared D) (thread : ℕ) (exchange : Exchange) (routingKey : String)
    (env : Envelope) : Option (Shared D) :=
  if s.inTransaction thread then
    some { s with
      db := (s.db.lock thread (.outbox s.outboxSeq)).write thread
        (.enqueue ⟨s.outboxSeq, exchange, routingKey, env, false⟩)
      outboxSeq := s.outboxSeq + 1 }
  else none

def unpublished (s : Shared D) (thread batch : ℕ) : List OutboxRow :=
  Outbox.unpublished batch (fun id ↦ s.db.free thread (.outbox id)) (s.view thread).outbox

/-- `FOR UPDATE`. -/
def lockUnpublished (s : Shared D) (thread batch : ℕ) : Store :=
  s.db.lockAll thread ((s.unpublished thread batch).map fun row ↦ .outbox row.id)

def publish (s : Shared D) (publication : Publication) : Shared D :=
  { s with broker := s.broker.publish publication }

def settle (s : Shared D) (broker : Broker) : Shared D := { s with broker := broker }

end Shared

/-- The outcomes of an `ack` or `nack`: it takes effect or not, and raises or not. -/
def acked (s s' : Shared D) : Choice → Option (Except Failure Unit × Shared D)
  | .done => some (.ok (), s')
  | .ignored => some (.ok (), s)
  | .lost text => some (.error (.error text), s)
  | .unconfirmed text => some (.error (.error text), s')
  | _ => none

/-- The outcomes of an operation of the broker that confirms. -/
def confirmed (s s' : Shared D) : Choice → Option (Except Failure Unit × Shared D)
  | .done => some (.ok (), s')
  | .lost text => some (.error (.error text), s)
  | .unconfirmed text => some (.error (.error text), s')
  | _ => none

def exec (thread : ℕ) : (effect : Effect) → Choice → Shared D →
    Option (Except Failure effect.Result × Shared D)
  -- The database.
  | .begin, .done, s => some (.ok (), { s with
      db := s.db.begin thread
      began := Function.update s.began thread s.clock })
  | .begin, .lost text, s => some (.error (.error text), s)
  | .commit, .done, s =>
    if s.inTransaction thread then some (.ok (), { s with db := s.db.commit Db.apply thread })
    else none
  | .commit, .lost text, s => some (.error (.error text), s)
  | .commit, .unconfirmed text, s =>
    if s.inTransaction thread then
      some (.error (.error text), { s with db := s.db.commit Db.apply thread })
    else none
  | .rollback, .done, s => some (.ok (), { s with db := s.db.abort thread })
  | .rollback, .lost text, s => some (.error (.error text), s)
  | .insertOrder values, .done, s =>
    (s.insertOrder thread values).map fun inserted ↦ (.ok inserted.1, inserted.2)
  | .insertOrder _, .lost text, s => some (.error (.error text), s)
  | .claimOperation row, .done, s =>
    (s.claimOperation thread row).map fun claimed ↦ (.ok claimed.1, claimed.2)
  | .claimOperation _, .lost text, s => some (.error (.error text), s)
  | .updateState orderId target source, .done, s =>
    (s.updateState thread orderId target source).map fun updated ↦ (.ok updated.1, updated.2)
  | .updateState _ _ _, .lost text, s => some (.error (.error text), s)
  | .insertTransition values, .done, s =>
    (s.insertTransition thread values).map fun s' ↦ (.ok (), s')
  | .insertTransition _, .lost text, s => some (.error (.error text), s)
  | .enqueue exchange routingKey env, .done, s =>
    (s.enqueue thread exchange routingKey env).map fun s' ↦ (.ok (), s')
  | .enqueue _ _ _, .lost text, s => some (.error (.error text), s)
  | .selectOrder orderId, .done, s =>
    some (.ok (Table.find OrderRow.orderId orderId s.db.committed.orders), s)
  | .selectOrder _, .lost text, s => some (.error (.error text), s)
  | .operationExists opId, .done, s =>
    some (.ok (Table.find OperationRow.opId opId s.db.committed.operations).isSome, s)
  | .operationExists _, .lost text, s => some (.error (.error text), s)
  | .selectUnpublished batch, .done, s =>
    if s.inTransaction thread then
      some (.ok (s.unpublished thread batch), { s with db := s.lockUnpublished thread batch })
    else none
  | .selectUnpublished _, .lost text, s => some (.error (.error text), s)
  | .stamp ids, .done, s =>
    if s.inTransaction thread then
      some (.ok (), { s with db := s.db.write thread (.stamp ids) })
    else none
  | .stamp _, .lost text, s => some (.error (.error text), s)
  -- The broker.
  | .declareEventQueue, choice, s => confirmed s (s.settle s.broker.declarePlaced) choice
  | .publish exchange routingKey body, choice, s =>
    confirmed s (s.publish ⟨some thread, exchange, routingKey, body⟩) choice
  | .ack number, choice, s => acked s (s.settle (s.broker.discard number thread)) choice
  | .nack number requeue, choice, s =>
    acked s (s.settle (if requeue then s.broker.requeue number thread
      else s.broker.discard number thread)) choice
  | .getDlq, .message number, s =>
    (s.broker.deliver number .dlq thread).map fun delivered ↦
      (.ok (some delivered.1), s.settle delivered.2)
  | .getDlq, .done, s =>
    if s.broker.copies.all fun copy ↦ copy.place != .ready .dlq then some (.ok none, s) else none
  | .getDlq, .lost text, s => some (.error (.error text), s)
  -- The counter of the envelope in hand.
  | .bumpAttempt, .done, s =>
    some (.ok (),
      { s with attempts := Function.update s.attempts thread (s.attempts thread + 1) })
  | .attempt, .done, s => some (.ok (s.attempts thread), s)
  -- Redis.
  | .redisGet _, .flag value, s => some (.ok value, s)
  | .redisGet _, .lost text, s => some (.error (.error text), s)
  | .redisSet _, .done, s => some (.ok (), s)
  | .redisSet _, .lost text, s => some (.error (.error text), s)
  -- The downstreams.
  | .allow _, .flag value, s => some (.ok value, s)
  | .recordOutcome _ _, .done, s => some (.ok (), s)
  | .send service command, .done, s =>
    let sent := D.send service command s.downstream
    some (.ok (.ok sent.1), { s with downstream := sent.2 })
  | .send _ _, .transport text, s => some (.ok (.error text), s)
  | .send _ _, .lost text, s => some (.error (.error text), s)
  | .await service request, .response response, s =>
    if D.answered s.downstream service request response then some (.ok (.ok response), s)
    else none
  | .await _ _, .transport text, s => some (.ok (.error text), s)
  | .await _ _, .lost text, s => some (.error (.error text), s)
  -- The clock and the random source.
  | .newStamp, .stamp stamp, s => some (.ok stamp, s)
  | .random, .draw value, s => if 0 ≤ value ∧ value < 1 then some (.ok value, s) else none
  | .sleep, .done, s => some (.ok (), s)
  | _, _, _ => none

/-- What is launched: the start of the service, a handler of a delivery, a round of the relay, or a
replay of the DLQ. -/
inductive Launch
  | start
  | onPlaced (number : ℕ)
  | onAdvance (number : ℕ)
  | drainOnce
  | replayDlq (limit : ℕ)
  deriving DecidableEq

def launch (cfg : Config) (thread : ℕ) : Launch → Shared D → Option (Proc Unit × Shared D)
  | .start, s => some (perform .declareEventQueue, s)
  | .onPlaced number, s =>
    (s.broker.deliver number .orchPlaced thread).map fun delivered ↦
      (onPlaced delivered.1, receive delivered.1 delivered.2 s)
  | .onAdvance number, s =>
    (s.broker.deliver number .advance thread).map fun delivered ↦
      (onAdvance cfg delivered.1, receive delivered.1 delivered.2 s)
  | .drainOnce, s => some (do let _ ← relay.drainOnce, s)
  | .replayDlq limit, s => some (do let _ ← replayDlq limit, s)
where
  /-- A delivery is handed to its handler, with the counter of its envelope. -/
  receive (message : Delivery) (broker : Broker) (s : Shared D) : Shared D :=
    match message.body with
    | .envelope env =>
      { s with broker := broker, attempts := Function.update s.attempts thread env.attempt }
    | .poison _ => { s with broker := broker }

/-- What happens beside the handlers. -/
inductive Ambient (D : Downstreams)
  | abort (thread : ℕ)
  | expire (number : ℕ)
  | requeue (number consumer : ℕ)
  | publish (publication : Publication)
  | downstream (act : D.Act)
  | tick (microseconds : ℕ)

def ambient (foreign : Publication → Bool) : Ambient D → Shared D → Option (Shared D)
  | .abort thread, s => some { s with db := s.db.abort thread }
  | .expire number, s => some (s.settle (s.broker.expire number))
  | .requeue number consumer, s => some (s.settle (s.broker.requeue number consumer))
  | .publish publication, s =>
    if publication.publisher.isNone && foreign publication then some (s.publish publication)
    else none
  | .downstream act, s =>
    (D.act act s.downstream).map fun downstream ↦ { s with downstream := downstream }
  | .tick microseconds, s => some { s with clock := s.clock + microseconds }

/-- The orchestrator over downstreams, with the publications others may make. -/
def orchestrator (cfg : Config) (D : Downstreams) (foreign : Publication → Bool) :
    Machine signature Failure Unit where
  Shared := Shared D
  Choice := Choice
  Launch := Launch
  Ambient := Ambient D
  exec := exec
  launch := launch cfg
  ambient := ambient foreign
  start := ⟨.start .empty, 0, 0, .empty, fun _ ↦ 0, D.start, 0, fun _ ↦ 0⟩

end DinnerRush.Orchestrator
