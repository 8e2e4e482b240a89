import DinnerRush.Downstream

/-!
# The payment service

`drcommon.payment`: `POST /v1/payment_intents`, idempotent on its key. The outcome of a key, charged
or declined, is claimed by one `INSERT … ON CONFLICT DO NOTHING` on the `charges` table; a request
that loses the race reads the row of the winner.

`xmin` is the Postgres system column that names the transaction which wrote a row; here it is the
request.
-/

set_option autoImplicit false
set_option relaxedAutoImplicit false

namespace DinnerRush.Payment

open Concurrency

inductive ChargeStatus
  | succeeded
  | declined
  deriving DecidableEq, Repr

/-- A row of `charges`. -/
structure ChargeRow where
  idempotencyKey : String
  orderId : String
  amountCents : ℤ
  currency : String
  status : ChargeStatus
  paymentIntentId : String
  xmin : ℕ
  deriving DecidableEq, Repr

/-- The values of the `INSERT` on `charges`; a JSON `null` currency is sent as NULL. -/
structure ChargeValues where
  idempotencyKey : String
  orderId : String
  amount : ℤ
  currency : Option String
  status : ChargeStatus
  paymentIntentId : String
  deriving DecidableEq, Repr

/-- The row the values make, if they meet the column types and NOT NULL. -/
def ChargeValues.row (values : ChargeValues) (xmin : ℕ) : Option ChargeRow :=
  match values.currency with
  | some currency =>
    if fitsInt values.amount then
      some ⟨values.idempotencyKey, values.orderId, values.amount, currency, values.status,
        values.paymentIntentId, xmin⟩
    else none
  | none => none

/-- A request: the `Idempotency-Key` header and the JSON body. Each field of the body is absent or
has its value after `str` and `int`; the currency may also be present as `null`. A body of another
shape raises before the service reads or writes anything. -/
structure Request where
  headerKey : Option String := none
  orderId : Option String := none
  metadataOrderId : Option String := none
  amount : Option ℤ := none
  currency : Option (Option String) := none
  bodyKey : Option String := none
  opId : Option String := none
  deriving DecidableEq, Repr

def Request.order (request : Request) : String :=
  (truthy request.orderId <|> truthy request.metadataOrderId).getD "unknown"

def Request.amountCents (request : Request) : ℤ := request.amount.getD 0

def Request.currencyValue (request : Request) : Option String := request.currency.getD (some "usd")

/-- The idempotency key of a request: the header, or a key of the body. -/
def Request.key (request : Request) : Option String :=
  truthy request.headerKey <|> truthy request.bodyKey <|> truthy request.opId

/-- The payment intent in the body of a 200 or 402 answer. -/
structure Intent where
  id : String
  object : String := "payment_intent"
  amount : ℤ
  currency : Option String
  status : String
  duplicate : Bool
  lastPaymentError : Option (String × String) := none
  deriving DecidableEq, Repr

structure Response where
  statusCode : ℕ
  intent : Option Intent := none
  error : Option String := none
  retryAfter : Option String := none
  deriving DecidableEq, Repr

/-- The record `_intent_response` is given. -/
structure IntentRecord where
  paymentIntentId : String
  amountCents : ℤ
  currency : Option String
  status : ChargeStatus
  deriving DecidableEq, Repr

def ChargeRow.record (row : ChargeRow) : IntentRecord :=
  ⟨row.paymentIntentId, row.amountCents, some row.currency, row.status⟩

def intentResponse (rec : IntentRecord) (duplicate : Bool) : Response :=
  match rec.status with
  | .succeeded =>
    { statusCode := 200
      intent := some
        { id := rec.paymentIntentId, amount := rec.amountCents, currency := rec.currency,
          status := "succeeded", duplicate := duplicate } }
  | .declined =>
    { statusCode := 402
      intent := some
        { id := rec.paymentIntentId, amount := rec.amountCents, currency := rec.currency,
          status := "requires_payment_method", duplicate := duplicate,
          lastPaymentError := some ("card_declined", "Your card was declined.") } }

/-! ### The endpoint -/

inductive Effect
  | core (effect : FlakyEffect)
  | fetch (key : String)
  | newUuid
  | insertCharge (values : ChargeValues)

@[reducible] def Effect.Result : Effect → Type
  | core effect => effect.Result
  | fetch _ => Option ChargeRow
  | newUuid => String
  | insertCharge _ => Bool

abbrev signature : Signature := ⟨Effect, Effect.Result⟩

abbrev Proc (α : Type) := Program signature Failure α

def core (effect : FlakyEffect) : Proc effect.Result := .call (S := signature) (.core effect)

/-- `_fetch`. -/
def fetch (key : String) : Proc (Option ChargeRow) := .call (S := signature) (.fetch key)

def newUuid : Proc String := .call (S := signature) .newUuid

/-- The claim of the terminal outcome: whether the `INSERT` returned its row. -/
def insertCharge (values : ChargeValues) : Proc Bool :=
  .call (S := signature) (.insertCharge values)

/-- `_intent_response(dict(await _fetch(key)), duplicate=True)`; `dict(None)` raises. -/
def recorded (key : String) : Proc Response := do
  match ← fetch key with
  | some cached => return intentResponse cached.record true
  | none => .raise (.error "'NoneType' object is not iterable")

/-- Claim the outcome of a key; the loser of a race answers with the recorded one. -/
def settle (request : Request) (key : String) (status : ChargeStatus) : Proc Response := do
  let uuid ← newUuid
  -- `new_uuid().replace("-", "")[:24]`
  let paymentIntentId := "pi_" ++ String.ofList ((uuid.toList.filter fun c ↦ c != '-').take 24)
  let claimed ← insertCharge
    { idempotencyKey := key, orderId := request.order, amount := request.amountCents,
      currency := request.currencyValue, status := status, paymentIntentId := paymentIntentId }
  if claimed then
    return intentResponse
      ⟨paymentIntentId, request.amountCents, request.currencyValue, status⟩ false
  else
    recorded key

def createPaymentIntent (request : Request) : Proc Response := do
  match request.key with
  | none => return { statusCode := 400, error := some "Idempotency-Key required" }
  | some key =>
    if ← core .isDown then
      return { statusCode := 503, error := some "payment provider unavailable" }
    else
      -- Idempotent replay: return the recorded outcome, never charge twice.
      match ← fetch key with
      | some cached => return intentResponse cached.record true
      | none =>
        if ← core .rateLimited then
          return { statusCode := 429, error := some "rate limited", retryAfter := some "1" }
        else
          let _ ← core .latency
          match ← core .roll with
          | some .error => return { statusCode := 502, error := some "processor error" }
          | some .timeout =>
            core .sleep
            return { statusCode := 504, error := some "gateway timeout" }
          | some .decline => settle request key .declined
          | none => settle request key .succeeded

/-! ### The service -/

/-- The table and the requests received so far, each with its number. -/
structure Shared where
  charges : List ChargeRow
  received : List (ℕ × Request)
  deriving DecidableEq

def Shared.receive (s : Shared) (thread : ℕ) (request : Request) : Shared :=
  { s with received := s.received ++ [(thread, request)] }

/-- How one effect is resolved: it succeeds, fails before it took effect, or fails after. -/
inductive Choice
  | done
  | core (choice : FlakyChoice)
  | uuid (text : String)
  | lost (text : String)
  | unconfirmed (text : String)
  deriving DecidableEq

/-- `INSERT INTO charges … ON CONFLICT (idempotency_key) DO NOTHING RETURNING idempotency_key`:
whether a row was returned, and the table after it. A row that violates a column is an error. -/
def Shared.insert (s : Shared) (thread : ℕ) (values : ChargeValues) : Option (Bool × Shared) :=
  (values.row thread).map fun row ↦
    let inserted := Table.insert ChargeRow.idempotencyKey row s.charges
    (inserted.1, { s with charges := inserted.2 })

def exec (thread : ℕ) : (effect : Effect) → Choice → Shared →
    Option (Except Failure effect.Result × Shared)
  | .core effect, .core choice, s => some (.ok (effect.answer choice), s)
  | .fetch key, .done, s => some (.ok (Table.find ChargeRow.idempotencyKey key s.charges), s)
  | .newUuid, .uuid text, s => some (.ok text, s)
  | .insertCharge values, .done, s =>
    (s.insert thread values).map fun inserted ↦ (.ok inserted.1, inserted.2)
  | .insertCharge values, .unconfirmed text, s =>
    (s.insert thread values).map fun inserted ↦ (.error (.error text), inserted.2)
  | .insertCharge _, .lost text, s => some (.error (.error text), s)
  | .fetch _, .lost text, s => some (.error (.error text), s)
  | _, _, _ => none

/-- A request together with the answer it was given. -/
structure Exchange where
  request : Request
  response : Response
  deriving DecidableEq

/-- A request as a program of the service, answering with the pair of both. -/
def handle (request : Request) : Proc Exchange := do
  return ⟨request, ← createPaymentIntent request⟩

/-- The service: any number of requests over the `charges` table. -/
def service : Machine signature Failure Exchange where
  Shared := Shared
  Choice := Choice
  Launch := Request
  Ambient := Empty
  exec := exec
  launch := fun thread request s ↦ some (handle request, s.receive thread request)
  ambient := fun ambient _ ↦ ambient.elim
  start := ⟨[], []⟩

end DinnerRush.Payment
