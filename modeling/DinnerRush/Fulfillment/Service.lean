import DinnerRush.Downstream

/-!
# The restaurant and courier services

`drcommon.downstream.create_downstream_app`: `POST /fulfill`, idempotent on its operation id. The
effect is claimed by one `INSERT … ON CONFLICT DO NOTHING` on the `dispatches` table. There are two
ways to find a duplicate: the row is there before the work, or the claim is lost after it.

The order id is stored in a `uuid` column; a text that is no uuid makes the `INSERT` fail, which is
one of its choices.
-/

set_option autoImplicit false
set_option relaxedAutoImplicit false

namespace DinnerRush.Fulfillment

open Concurrency

/-- A row of `dispatches`. -/
structure DispatchRow where
  opId : String
  orderId : String
  stage : String
  result : Detail
  xmin : ℕ
  deriving DecidableEq, Repr

/-- The values of the `INSERT` on `dispatches`. -/
structure DispatchValues where
  opId : String
  orderId : String
  stage : String
  detail : Detail
  deriving DecidableEq, Repr

def DispatchValues.row (values : DispatchValues) (xmin : ℕ) : DispatchRow :=
  ⟨values.opId, values.orderId, values.stage, values.detail, xmin⟩

structure Response where
  statusCode : ℕ
  result : Option FulfillResult := none
  error : Option String := none
  retryAfter : Option String := none
  deriving DecidableEq, Repr

/-- `JSONResponse(res.model_dump())`. -/
def resultResponse (req : FulfillRequest) (duplicate : Bool) (detail : Detail) : Response :=
  { statusCode := 200
    result := some
      { opId := req.opId, orderId := req.orderId, stage := req.stage, status := "ok",
        duplicate := duplicate, detail := detail } }

/-! ### The endpoint -/

inductive Effect
  | core (effect : FlakyEffect)
  | fetch (opId : String)
  | insertDispatch (values : DispatchValues)

@[reducible] def Effect.Result : Effect → Type
  | core effect => effect.Result
  | fetch _ => Option Detail
  | insertDispatch _ => Bool

abbrev signature : Signature := ⟨Effect, Effect.Result⟩

abbrev Proc (α : Type) := Program signature Failure α

def core (effect : FlakyEffect) : Proc effect.Result := .call (S := signature) (.core effect)

/-- `SELECT result FROM dispatches WHERE op_id = $1`. -/
def fetch (opId : String) : Proc (Option Detail) := .call (S := signature) (.fetch opId)

/-- The claim of the effect: whether the `INSERT` returned its row. -/
def insertDispatch (values : DispatchValues) : Proc Bool :=
  .call (S := signature) (.insertDispatch values)

/-- The claim, and the answer to either of its outcomes. -/
def claim (serviceName : String) (req : FulfillRequest) (delay : ℕ) : Proc Response := do
  let detail : Detail := { handledBy := some serviceName, ms := some delay }
  let claimed ← insertDispatch
    { opId := req.opId, orderId := req.orderId, stage := req.stage, detail := detail }
  return resultResponse req (!claimed) detail

def fulfill (serviceName : String) (req : FulfillRequest) : Proc Response := do
  if ← core .isDown then
    return { statusCode := 503, error := some "service unavailable" }
  else
    -- Idempotent fast path first.
    match ← fetch req.opId with
    | some cached => return resultResponse req true cached
    | none =>
      if ← core .rateLimited then
        return { statusCode := 429, error := some "rate limited", retryAfter := some "1" }
      else
        let delay ← core .latency
        match ← core .roll with
        | some .error => return { statusCode := 500, error := some "internal failure" }
        | some .timeout =>
          core .sleep
          return { statusCode := 504, error := some "gateway timeout" }
        -- A decline is no outcome of these services: it is handled as ok.
        | some .decline => claim serviceName req delay
        | none => claim serviceName req delay

/-! ### The service -/

/-- The table and the requests received so far, each with its number. -/
structure Shared where
  dispatches : List DispatchRow
  received : List (ℕ × FulfillRequest)
  deriving DecidableEq

def Shared.receive (s : Shared) (thread : ℕ) (req : FulfillRequest) : Shared :=
  { s with received := s.received ++ [(thread, req)] }

/-- How one effect is resolved: it succeeds, fails before it took effect, or fails after. -/
inductive Choice
  | done
  | core (choice : FlakyChoice)
  | lost (text : String)
  | unconfirmed (text : String)
  deriving DecidableEq

/-- `INSERT INTO dispatches … ON CONFLICT (op_id) DO NOTHING RETURNING op_id`: whether a row was
returned, and the table after it. -/
def Shared.insert (s : Shared) (thread : ℕ) (values : DispatchValues) : Bool × Shared :=
  let inserted := Table.insert DispatchRow.opId (values.row thread) s.dispatches
  (inserted.1, { s with dispatches := inserted.2 })

def exec (thread : ℕ) : (effect : Effect) → Choice → Shared →
    Option (Except Failure effect.Result × Shared)
  | .core effect, .core choice, s => some (.ok (effect.answer choice), s)
  | .fetch opId, .done, s =>
    some (.ok ((Table.find DispatchRow.opId opId s.dispatches).map DispatchRow.result), s)
  | .fetch _, .lost text, s => some (.error (.error text), s)
  | .insertDispatch values, .done, s =>
    some (.ok (s.insert thread values).1, (s.insert thread values).2)
  | .insertDispatch values, .unconfirmed text, s =>
    some (.error (.error text), (s.insert thread values).2)
  | .insertDispatch _, .lost text, s => some (.error (.error text), s)
  | _, _, _ => none

/-- A request together with the answer it was given. -/
structure Exchange where
  request : FulfillRequest
  response : Response
  deriving DecidableEq

/-- A request as a program of the service, answering with the pair of both. -/
def handle (serviceName : String) (req : FulfillRequest) : Proc Exchange := do
  return ⟨req, ← fulfill serviceName req⟩

/-- The service: any number of requests over the `dispatches` table. -/
def service (serviceName : String) : Machine signature Failure Exchange where
  Shared := Shared
  Choice := Choice
  Launch := FulfillRequest
  Ambient := Empty
  exec := exec
  launch := fun thread req s ↦ some (handle serviceName req, s.receive thread req)
  ambient := fun ambient _ ↦ ambient.elim
  start := ⟨[], []⟩

end DinnerRush.Fulfillment
