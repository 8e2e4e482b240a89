import DinnerRush.HttpClient
import DinnerRush.Orchestrator.Schema
import DinnerRush.Payment.Service

/-!
# The handlers of the orchestrator

`services/orchestrator`: `on_placed`, `on_advance` and what they call, `replay_dlq`, and the relay
of the outbox, as programs over the effects that touch the database, the broker, Redis, the
downstreams, the clock and the random source. Metrics, logs and message headers are left out:
nothing reads them.

`schedule_retry` increments `env.attempt` in place, and an error raised after it leaves the
increment behind. The counter of the envelope a handler holds is therefore part of the shared state
(`bumpAttempt`, `attempt`).
-/

set_option autoImplicit false
set_option relaxedAutoImplicit false

namespace DinnerRush.Orchestrator

open Concurrency

/-- The settings the handlers depend on. `firstLine` says whether there is a Redis client. -/
structure Config where
  cancelRate : Rat := 0
  brokerMaxAttempts : ℤ := 6
  httpMaxRetries : ℕ := 3
  firstLine : Bool := true

/-! ### Effects -/

/-- The values of the `INSERT` of an order. -/
structure OrderValues where
  orderId : String
  idempotencyKey : Option String
  customerId : Option String
  restaurantId : Option String
  items : List Item
  totalCents : ℤ
  deriving DecidableEq, Repr

/-- The row that the `INSERT` adds at some time. -/
def OrderValues.row (values : OrderValues) (now : ℕ) : OrderRow :=
  ⟨values.orderId, .placed, values.idempotencyKey, values.customerId, values.restaurantId,
    values.items, values.totalCents, now, now⟩

/-- The values of the `INSERT` of a transition; its id is drawn from the sequence. -/
structure TransitionValues where
  orderId : String
  fromState : State
  toState : State
  cause : String
  attempt : ℤ
  deriving DecidableEq, Repr

def TransitionValues.row (values : TransitionValues) (id now : ℕ) : TransitionRow :=
  ⟨id, values.orderId, values.fromState, values.toState, values.cause, values.attempt, now⟩

/-- A request to a downstream. -/
inductive Command
  | charge (request : Payment.Request)
  | fulfill (request : FulfillRequest)
  deriving DecidableEq, Repr

inductive Effect
  -- The database.
  | begin
  | commit
  | rollback
  | insertOrder (values : OrderValues)
  | claimOperation (row : OperationRow)
  | updateState (orderId : String) (target current : State)
  | insertTransition (values : TransitionValues)
  | enqueue (exchange : Exchange) (routingKey : String) (env : Envelope)
  | selectOrder (orderId : String)
  | operationExists (opId : String)
  | selectUnpublished (batch : ℕ)
  | stamp (ids : List ℕ)
  -- The broker.
  | declareEventQueue
  | publish (exchange : Exchange) (routingKey : String) (body : Body)
  | ack (number : ℕ)
  | nack (number : ℕ) (requeue : Bool)
  | getDlq
  -- The counter of the envelope in hand.
  | bumpAttempt
  | attempt
  -- Redis.
  | redisGet (key : String)
  | redisSet (key : String)
  -- The downstreams.
  | allow (service : Service)
  | recordOutcome (service : Service) (success : Bool)
  | send (service : Service) (command : Command)
  | await (service : Service) (request : ℕ)
  -- The clock and the random source.
  | newStamp
  | random
  | sleep

@[reducible] def Effect.Result : Effect → Type
  | begin => Unit
  | commit => Unit
  | rollback => Unit
  | insertOrder _ => Bool
  | claimOperation _ => Bool
  | updateState _ _ _ => ℕ
  | insertTransition _ => Unit
  | enqueue _ _ _ => Unit
  | selectOrder _ => Option OrderRow
  | operationExists _ => Bool
  | selectUnpublished _ => List OutboxRow
  | stamp _ => Unit
  | declareEventQueue => Unit
  | publish _ _ _ => Unit
  | ack _ => Unit
  | nack _ _ => Unit
  | getDlq => Option Delivery
  | bumpAttempt => Unit
  | attempt => ℤ
  | redisGet _ => Bool
  | redisSet _ => Unit
  | allow _ => Bool
  | recordOutcome _ _ => Unit
  | send _ _ => Except String ℕ
  | await _ _ => Except String HttpResponse
  | newStamp => Stamp
  | random => Rat
  | sleep => Unit

abbrev signature : Signature := ⟨Effect, Effect.Result⟩

abbrev Proc (α : Type) := Program signature Failure α

def perform (effect : Effect) : Proc effect.Result := .call (S := signature) effect

/-- `db.tx()`. -/
def tx {α : Type} (body : Proc α) : Proc α :=
  .transaction (perform .begin) (perform .commit) (perform .rollback) body

def makeEvent (type : EventType) (orderId : String) (data : Data) : Proc Envelope := do
  return DinnerRush.makeEvent (← perform .newStamp) type orderId data

/-! ### The broker client -/

/-- The envelope in hand, with its current counter. -/
def current (env : Envelope) : Proc Envelope := do
  return { env with attempt := ← perform .attempt }

/-- `schedule_retry`: bounce a command through the retry queue. -/
def scheduleRetry (env : Envelope) : Proc Unit := do
  perform .bumpAttempt
  perform (.publish .retry rkAdvance (.envelope (← current env)))

def sendToDlq (env : Envelope) : Proc Unit := do
  perform (.publish .dlx "" (.envelope (← current env)))

def sendRawToDlq (body : Body) : Proc Unit := perform (.publish .dlx "" body)

/-- `replay_dlq`: move up to `limit` parked messages back onto the work queue; their number. -/
def replayDlq : ℕ → Proc ℕ
  | 0 => return 0
  | limit + 1 => do
    match ← perform .getDlq with
    | none => return 0
    | some message =>
      match message.body with
      | .poison _ =>
        perform (.ack message.number)
        replayDlq limit
      | .envelope env =>
        perform (.publish .work rkAdvance (.envelope { env with attempt := 1 }))
        perform (.ack message.number)
        return (← replayDlq limit) + 1

/-! ### Redis -/

def isDone (key : String) : Proc Bool :=
  (perform (.redisGet ("done:" ++ key))).tryCatch fun _ ↦ return false

def markDone (key : String) : Proc Unit :=
  (perform (.redisSet ("done:" ++ key))).tryCatch fun _ ↦ return ()

/-! ### Seeding an order -/

/-- The transaction of `on_placed`. -/
def insertPlaced (env : Envelope) : Proc Unit :=
  tx do
    let inserted ← perform (.insertOrder
      { orderId := env.orderId, idempotencyKey := env.data.idempotencyKey,
        customerId := env.data.customerId, restaurantId := env.data.restaurantId,
        items := env.data.items.getD [], totalCents := env.data.totalCents.getD 0 })
    if inserted then
      -- Seed the first advance through the outbox so it is durable with the insert.
      let seed ← makeEvent .advance env.orderId { fromState := some State.placed.value }
      perform (.enqueue .work rkAdvance seed)
    else return ()

def onPlaced (message : Delivery) : Proc Unit :=
  match message.body with
  | .poison _ => do
    sendRawToDlq message.body
    perform (.ack message.number)
  | .envelope env =>
    Program.tryCatch
      (do
        insertPlaced env
        perform (.ack message.number))
      -- Bounded: requeue once, then park in the DLQ instead of hot-looping.
      fun _ ↦
        if message.redelivered then do
          sendToDlq env
          perform (.ack message.number)
        else perform (.nack message.number true)

/-! ### One step of an order -/

/-- What `_commit_transition`, `_cancel` and `_fail_order` share: claim the operation, move the
order, record the transition and enqueue its event and the next command, in one transaction. Whether
this call applied the step. -/
def recordStep (orderId : String) (source target : State) (opId kind : String) (result : Detail)
    (cause race : String) (attempt : ℤ) : Proc Bool :=
  tx do
    if ← perform (.claimOperation ⟨opId, orderId, kind, result⟩) then
      let updated ← perform (.updateState orderId target source)
      if updated = 0 then
        -- State moved underneath us; abort so the operation claim rolls back.
        .raise (.error race)
      else
        perform (.insertTransition ⟨orderId, source, target, cause, attempt⟩)
        let ev ← makeEvent .transition orderId
          { fromState := some source.value, toState := some target.value, cause := some cause,
            attempt := some attempt }
        perform (.enqueue .events rkTransition ev)
        if isTerminal target then return true
        else
          let nxt ← makeEvent .advance orderId { fromState := some target.value }
          perform (.enqueue .work rkAdvance nxt)
          return true
    else return false

def commitTransition (orderId : String) (source target : State) (opId : String) (detail : Detail)
    (attempt : ℤ) : Proc Bool :=
  recordStep orderId source target opId s!"enter:{target.value}" detail "advance"
    s!"state race on {orderId}: expected {source.value}" attempt

def cancel (orderId : String) (source : State) (attempt : ℤ) : Proc Bool :=
  recordStep orderId source .cancelled (opIdFor orderId source .cancelled) "cancel" {}
    "customer_cancelled" s!"state race on cancel {orderId}: expected {source.value}" attempt

def failOrder (orderId : String) (source : State) (reason : String) (attempt : ℤ) : Proc Bool :=
  recordStep orderId source .failed (opIdFor orderId source .failed) "fail" {} reason
    s!"state race on fail {orderId}: expected {source.value}" attempt

def retryOrDlq (cfg : Config) (env : Envelope) (message : Delivery) : Proc Unit := do
  let attempt ← perform .attempt
  if cfg.brokerMaxAttempts ≤ attempt then
    sendToDlq env
  else
    scheduleRetry env
  perform (.ack message.number)

/-! ### Calling a downstream -/

/-- The client of a downstream over the effects of the orchestrator. A post is sent, unless the
connection fails, and its answer is awaited until the timeout. -/
def client (cfg : Config) (service : Service) : HttpClient signature Command where
  name := service.name
  maxRetries := cfg.httpMaxRetries
  allow := perform (.allow service)
  recordSuccess := perform (.recordOutcome service true)
  recordFailure := perform (.recordOutcome service false)
  sleep := perform .sleep
  post command := do
    match ← perform (.send service command) with
    | .error text => return .error text
    | .ok request => perform (.await service request)

/-- The request for a step, idempotent on its operation id. -/
def commandFor (service : Service) (row : OrderRow) (orderId opId : String) (target : State) :
    Command :=
  match service with
  | .payment => .charge
      { headerKey := some opId, orderId := some orderId, metadataOrderId := some orderId,
        amount := some row.totalCents, currency := some (some "usd") }
  | _ => .fulfill
      { orderId := orderId, opId := opId, stage := target.value, customerId := row.customerId,
        restaurantId := row.restaurantId }

def detailOf (service : Service) (result : Json) : Detail :=
  match service with
  | .payment => { paymentIntentId := result.id, amount := result.amount }
  | _ => result.detail.getD {}

/-- `_call_downstream`: the detail of the effect, or nothing when the message was settled here. -/
def callDownstream (cfg : Config) (service : Service) (orderId opId : String) (target : State)
    (row : OrderRow) (env : Envelope) (message : Delivery) : Proc (Option Detail) := do
  match ← ((client cfg service).postJson (commandFor service row orderId opId target)).attempt with
  | .ok result => return some (detailOf service result)
  | .error (.breakerOpen _) =>
    retryOrDlq cfg env message
    return none
  | .error (.transientExhausted _) =>
    retryOrDlq cfg env message
    return none
  | .error (.permanentError statusCode) =>
    -- A definitive 4xx is a terminal business failure: fail the order.
    let cause :=
      match service with
      | .payment => "payment declined"
      | _ => s!"{service.name} rejected"
    let reason := s!"{cause}: {(Failure.permanentError statusCode).text}"
    let _ ← failOrder orderId row.state reason (← perform .attempt)
    perform (.ack message.number)
    return none
  | .error (.error text) => .raise (.error text)

/-! ### Advancing an order -/

/-- Whether the customer cancels. -/
def decideCancel (cfg : Config) (state : State) : Proc Bool := do
  if 0 < cfg.cancelRate ∧ state ∈ [State.placed, .confirmed, .preparing] then
    let draw : Rat ← perform .random
    return decide (draw < cfg.cancelRate)
  else return false

/-- The first-line skip: Redis says done and Postgres confirms. -/
def alreadyDone (cfg : Config) (opId : String) : Proc Bool := do
  if cfg.firstLine then
    if ← isDone opId then perform (.operationExists opId) else return false
  else return false

/-- The step into the next state: its downstream call, its transaction and the ack. -/
def takeStep (cfg : Config) (env : Envelope) (message : Delivery) (row : OrderRow)
    (target : State) (opId : String) : Proc Unit := do
  let detail ← (match stageDownstream target with
    | some service => callDownstream cfg service env.orderId opId target row env message
    | none => do
      -- Think-time of the internal stages.
      perform .sleep
      return some {} : Proc (Option Detail))
  match detail with
  | none => return ()
  | some detail =>
    let applied ← commitTransition env.orderId row.state target opId detail (← perform .attempt)
    if applied && cfg.firstLine then markDone opId
    perform (.ack message.number)

/-- The step, unless it is already done. -/
def advanceStep (cfg : Config) (env : Envelope) (message : Delivery) (row : OrderRow)
    (target : State) : Proc Unit := do
  let opId := opIdFor env.orderId row.state target
  if ← alreadyDone cfg opId then perform (.ack message.number)
  else takeStep cfg env message row target opId

/-- `State(env.data["from"])`. -/
def fromStateOf (env : Envelope) : Proc State :=
  match env.data.fromState with
  | none => .raise (.error "'from'")
  | some text =>
    match State.ofValue text with
    | none => .raise (.error s!"'{text}' is not a valid State")
    | some state => return state

def advance (cfg : Config) (env : Envelope) (message : Delivery) : Proc Unit := do
  let fromState ← fromStateOf env
  match ← perform (.selectOrder env.orderId) with
  | none => retryOrDlq cfg env message
  | some row =>
    if row.state ≠ fromState ∨ isTerminal row.state then
      -- Stale or duplicate advance: the order already moved on.
      perform (.ack message.number)
    else if ← decideCancel cfg row.state then
      let _ ← cancel env.orderId row.state (← perform .attempt)
      perform (.ack message.number)
    else
      match nextHappyState row.state with
      | none => perform (.ack message.number)
      | some target => advanceStep cfg env message row target

/-- `_fault`: bounded fault handling, with a last resort. -/
def fault (cfg : Config) (env : Option Envelope) (message : Delivery) : Proc Unit :=
  Program.tryCatch
    (match env with
      | none => do
        sendRawToDlq message.body
        perform (.ack message.number)
      | some env => retryOrDlq cfg env message)
    fun _ ↦ (perform (.nack message.number false)).tryCatch fun _ ↦ return ()

def onAdvance (cfg : Config) (message : Delivery) : Proc Unit :=
  match message.body with
  | .poison _ => fault cfg none message
  | .envelope env => (advance cfg env message).tryCatch fun _ ↦ fault cfg (some env) message

/-! ### The outbox relay -/

def relay : RelayStatements signature where
  begin := perform .begin
  commit := perform .commit
  rollback := perform .rollback
  select batch := perform (.selectUnpublished batch)
  publish row := perform (.publish row.exchange row.routingKey (.envelope row.payload))
  stamp ids := perform (.stamp ids)

end DinnerRush.Orchestrator
