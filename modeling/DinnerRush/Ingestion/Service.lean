import DinnerRush.Concurrency.Table
import DinnerRush.Outbox

/-!
# The ingestion service

`services/ingestion`: `POST /orders` and the relay of its outbox. The order and its `order.placed`
event are written in one transaction; the caller's idempotency key is a unique constraint.

`xmin` is the Postgres system column that names the transaction which wrote a row; here it is the
request. `sent` records what the relay has published and the broker has taken.
-/

set_option autoImplicit false
set_option relaxedAutoImplicit false

namespace DinnerRush.Ingestion

open Concurrency

/-! ### The database -/

/-- A row of `orders`. -/
structure OrderRow where
  orderId : String
  idempotencyKey : String
  customerId : String
  restaurantId : String
  items : List Item
  totalCents : ℤ
  xmin : ℕ
  deriving DecidableEq, Repr

structure Db where
  orders : List OrderRow
  outbox : List OutboxRow
  deriving DecidableEq

inductive Write
  | insertOrder (row : OrderRow)
  | enqueue (row : OutboxRow)
  | stamp (ids : List ℕ)

/-- What a transaction locks: a value of a unique column it inserts, or a row it updates. -/
inductive Key
  | idempotencyKey (value : String)
  | orderId (value : String)
  | outbox (id : ℕ)
  deriving DecidableEq

def Db.apply (d : Db) : Write → Db
  | .insertOrder row => { d with orders := d.orders ++ [row] }
  | .enqueue row => { d with outbox := d.outbox ++ [row] }
  | .stamp ids => { d with outbox := Outbox.stamp ids d.outbox }

abbrev Store := Transactions Db Key Write

/-! ### The endpoint and the relay -/

structure OrderValues where
  orderId : String
  idempotencyKey : String
  customerId : String
  restaurantId : String
  items : List Item
  totalCents : ℤ
  deriving DecidableEq, Repr

def OrderValues.row (values : OrderValues) (xmin : ℕ) : OrderRow :=
  ⟨values.orderId, values.idempotencyKey, values.customerId, values.restaurantId, values.items,
    values.totalCents, xmin⟩

structure Response where
  statusCode : ℕ
  orderId : String
  idempotencyKey : String
  status : String
  deriving DecidableEq, Repr

inductive Effect
  | newUuid
  | newStamp
  | begin
  | commit
  | rollback
  | insertOrder (values : OrderValues)
  | selectOrderId (key : String)
  | enqueue (exchange : Exchange) (routingKey : String) (env : Envelope)
  | selectUnpublished (batch : ℕ)
  | publish (row : OutboxRow)
  | stamp (ids : List ℕ)

@[reducible] def Effect.Result : Effect → Type
  | newUuid => String
  | newStamp => Stamp
  | begin => Unit
  | commit => Unit
  | rollback => Unit
  | insertOrder _ => Bool
  | selectOrderId _ => Option String
  | enqueue _ _ _ => Unit
  | selectUnpublished _ => List OutboxRow
  | publish _ => Unit
  | stamp _ => Unit

abbrev signature : Signature := ⟨Effect, Effect.Result⟩

abbrev Proc (α : Type) := Program signature Failure α

def perform (effect : Effect) : Proc effect.Result := .call (S := signature) effect

/-- The values of the `INSERT` of an order. -/
def orderValues (req : OrderRequest) (idem orderId : String) : OrderValues :=
  { orderId := orderId, idempotencyKey := idem, customerId := req.customerId,
    restaurantId := req.restaurantId, items := req.items.map OrderItem.modelDump,
    totalCents := req.totalCents }

/-- The transaction of `place_order`: the answer to a duplicate, or nothing once the order and its
event are written. -/
def accept (req : OrderRequest) (idem orderId : String) : Proc (Option Response) :=
  .transaction (perform .begin) (perform .commit) (perform .rollback) do
    if ← perform (.insertOrder (orderValues req idem orderId)) then
      let stamp ← perform .newStamp
      perform (.enqueue .events rkPlaced (makeEvent stamp .placed orderId
        { idempotencyKey := some idem, customerId := some req.customerId,
          restaurantId := some req.restaurantId,
          items := some (req.items.map OrderItem.modelDump),
          totalCents := some req.totalCents }))
      return none
    else
      -- Duplicate accept: return the original order_id, publish nothing.
      let existing ← perform (.selectOrderId idem)
      return some ⟨200, existing.getD "None", idem, "duplicate"⟩

def placeOrder (req : OrderRequest) : Proc Response := do
  let idem ← (match truthy req.idempotencyKey with
    | some key => return key
    | none => perform .newUuid : Proc String)
  let orderId ← perform .newUuid
  match ← accept req idem orderId with
  | some response => return response
  | none => return ⟨202, orderId, idem, "accepted"⟩

def relay : RelayStatements signature where
  begin := perform .begin
  commit := perform .commit
  rollback := perform .rollback
  select batch := perform (.selectUnpublished batch)
  publish row := perform (.publish row)
  stamp ids := perform (.stamp ids)

/-! ### The service -/

structure Shared where
  db : Store
  outboxSeq : ℕ
  sent : List OutboxRow

/-- How one effect is resolved: it succeeds, fails before it took effect, or fails after. -/
inductive Choice
  | done
  | uuid (text : String)
  | stamp (stamp : Stamp)
  | lost (text : String)
  | unconfirmed (text : String)

def Shared.view (s : Shared) (thread : ℕ) : Db := s.db.view Db.apply thread

def Shared.inTransaction (s : Shared) (thread : ℕ) : Bool := (s.db.pending thread).isSome

/-- `INSERT INTO orders … ON CONFLICT (idempotency_key) DO NOTHING RETURNING order_id`. It waits for
a transaction that holds one of its unique values, and has no result when a column constraint or the
primary key is violated. -/
def Shared.insertOrder (s : Shared) (thread : ℕ) (values : OrderValues) : Option (Bool × Shared) :=
  if !(s.inTransaction thread && fitsInt values.totalCents) then none
  else
    match Table.find OrderRow.idempotencyKey values.idempotencyKey (s.view thread).orders with
    | some _ => some (false, s)
    | none =>
      if s.db.free thread (.idempotencyKey values.idempotencyKey) &&
          s.db.free thread (.orderId values.orderId) &&
          (Table.find OrderRow.orderId values.orderId (s.view thread).orders).isNone then
        some (true, { s with
          db := ((s.db.lock thread (.idempotencyKey values.idempotencyKey)).lock thread
            (.orderId values.orderId)).write thread (.insertOrder (values.row thread)) })
      else none

/-- `enqueue`: the row takes the next id of the sequence. -/
def Shared.enqueue (s : Shared) (thread : ℕ) (exchange : Exchange) (routingKey : String)
    (env : Envelope) : Option Shared :=
  if s.inTransaction thread then
    some { s with
      db := (s.db.lock thread (.outbox s.outboxSeq)).write thread
        (.enqueue ⟨s.outboxSeq, exchange, routingKey, env, false⟩)
      outboxSeq := s.outboxSeq + 1 }
  else none

def Shared.unpublished (s : Shared) (thread batch : ℕ) : List OutboxRow :=
  Outbox.unpublished batch (fun id ↦ s.db.free thread (.outbox id)) (s.view thread).outbox

/-- `FOR UPDATE`. -/
def Shared.lockUnpublished (s : Shared) (thread batch : ℕ) : Store :=
  s.db.lockAll thread ((s.unpublished thread batch).map fun row ↦ .outbox row.id)

def exec (thread : ℕ) : (effect : Effect) → Choice → Shared →
    Option (Except Failure effect.Result × Shared)
  | .newUuid, .uuid text, s => some (.ok text, s)
  | .newStamp, .stamp stamp, s => some (.ok stamp, s)
  | .begin, .done, s => some (.ok (), { s with db := s.db.begin thread })
  | .begin, .lost text, s => some (.error (.error text), s)
  | .commit, .done, s =>
    if s.inTransaction thread then some (.ok (), { s with db := s.db.commit Db.apply thread })
    else none
  | .commit, .lost text, s => some (.error (.error text), s)
  | .commit, .unconfirmed text, s =>
    if s.inTransaction thread then
      some (.error (.error text), { s with db := s.db.commit Db.apply thread })
    else none
  | .rollback, .done, s => some (.ok (), { s with db := s.db.abort thread })
  | .rollback, .lost text, s => some (.error (.error text), s)
  | .insertOrder values, .done, s =>
    (s.insertOrder thread values).map fun inserted ↦ (.ok inserted.1, inserted.2)
  | .insertOrder _, .lost text, s => some (.error (.error text), s)
  | .selectOrderId key, .done, s =>
    if s.inTransaction thread then
      some (.ok ((Table.find OrderRow.idempotencyKey key (s.view thread).orders).map
        OrderRow.orderId), s)
    else none
  | .selectOrderId _, .lost text, s => some (.error (.error text), s)
  | .enqueue exchange routingKey env, .done, s =>
    (s.enqueue thread exchange routingKey env).map fun s' ↦ (.ok (), s')
  | .enqueue _ _ _, .lost text, s => some (.error (.error text), s)
  | .selectUnpublished batch, .done, s =>
    if s.inTransaction thread then
      some (.ok (s.unpublished thread batch), { s with db := s.lockUnpublished thread batch })
    else none
  | .selectUnpublished _, .lost text, s => some (.error (.error text), s)
  | .publish row, .done, s => some (.ok (), { s with sent := s.sent ++ [row] })
  | .publish row, .unconfirmed text, s =>
    some (.error (.error text), { s with sent := s.sent ++ [row] })
  | .publish _, .lost text, s => some (.error (.error text), s)
  | .stamp ids, .done, s =>
    if s.inTransaction thread then
      some (.ok (), { s with db := s.db.write thread (.stamp ids) })
    else none
  | .stamp _, .lost text, s => some (.error (.error text), s)
  | _, _, _ => none

/-- What is launched: a request, or a round of the relay. -/
inductive Launch
  | placeOrder (req : OrderRequest)
  | drainOnce

/-- The service: any number of requests and relay rounds over the database. Postgres may abort a
transaction at any time, as it does when its connection is lost. -/
def service : Machine signature Failure (Option Response) where
  Shared := Shared
  Choice := Choice
  Launch := Launch
  Ambient := ℕ
  exec := exec
  launch := fun _ launch s ↦
    match launch with
    | .placeOrder req => some (do return some (← placeOrder req), s)
    | .drainOnce => some (do let _ ← relay.drainOnce; return none, s)
  ambient := fun thread s ↦ some { s with db := s.db.abort thread }
  start := ⟨.start ⟨[], []⟩, 0, []⟩

end DinnerRush.Ingestion
