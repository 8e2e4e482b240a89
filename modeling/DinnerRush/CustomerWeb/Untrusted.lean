import DinnerRush.CustomerWeb.Catalog
import DinnerRush.CustomerWeb.View

/-!
# Tokens and answers that anyone may write

`customer-web/src/lib/dr.ts` once more, over the values that JSON really gives: a token is whatever
a client puts in the path, and the body of an answer whatever stands behind the path of its id. The
types of the source are erased at run time, so each property that is read and each method that is
called can throw.

Names, cuisines, amounts added up and the earliest date are left out of the view, but not what they
can throw.
-/

set_option autoImplicit false
set_option relaxedAutoImplicit false

namespace DinnerRush.CustomerWeb.Untrusted

/-! ### Values -/

/-- A value that JSON gives, or `undefined`. A number is what `String` makes of it. -/
inductive Value
  | undefined
  | null
  | bool (value : Bool)
  | number (text : String)
  | string (text : String)
  | array (elements : List Value)
  | object (fields : List (String × Value))

inductive Thrown
  | typeError
  deriving DecidableEq, Repr

namespace Value

def nullish : Value → Bool
  | undefined => true
  | null => true
  | _ => false

def truthy : Value → Bool
  | undefined => false
  | null => false
  | bool value => value
  | number text => text != "0"
  | string text => text != ""
  | _ => true

/-- `value === text`. -/
def is : Value → String → Bool
  | string own, text => own == text
  | _, _ => false

/-- `value === 1`. -/
def isOne : Value → Bool
  | number text => text == "1"
  | _ => false

/-- The elements of an array. -/
def list : Value → Option (List Value)
  | array elements => some elements
  | _ => none

/-- `value ?? other`. -/
def orElse (value other : Value) : Value := if value.nullish then other else value

/-- A property of a value that is not nullish. None that the code reads is inherited. -/
def field : Value → String → Value
  | object fields, name => (fields.lookup name).getD undefined
  | _, _ => undefined

/-- `value.name`. -/
def get (value : Value) (name : String) : Except Thrown Value :=
  if value.nullish then .error .typeError else .ok (value.field name)

/-- A method that only arrays have. -/
def elements (value : Value) : Except Thrown (List Value) :=
  value.list.elim (.error .typeError) .ok

/-- `slice` is there on strings and arrays. -/
def hasSlice : Value → Bool
  | string _ => true
  | array _ => true
  | _ => false

def isString : Value → Bool
  | string _ => true
  | _ => false

mutual

/-- `String(value)`. An object with a `toString` of its own, which JSON cannot make a function, has
no primitive value. -/
def text : Value → Except Thrown String
  | undefined => .ok "undefined"
  | null => .ok "null"
  | bool value => .ok (toString value)
  | number text => .ok text
  | string text => .ok text
  | array elements => (texts elements).map fun texts ↦ ",".intercalate texts
  | object fields =>
    if (fields.lookup "toString").isSome then .error .typeError else .ok "[object Object]"

/-- What `join` makes of the elements. -/
def texts : List Value → Except Thrown (List String)
  | [] => .ok []
  | element :: rest => do
    let text ← if element.nullish then .ok "" else text element
    let texts ← texts rest
    return text :: texts

end

/-- The value has a primitive value. -/
def Converts (value : Value) : Prop := ∃ text, value.text = .ok text

end Value

/-- What the engine provides. -/
structure Engine where
  /-- `JSON.parse(Buffer.from(token, "base64url").toString("utf8"))`, unless it throws. -/
  parse : String → Option Value
  /-- `a < b`, of values that have a primitive value. -/
  less : Value → Value → Bool
  /-- The pairs that `sort` hands to the comparator until it is done, or until that throws. -/
  compared : List Value → List (Value × Value)
  /-- The rows as `sort` leaves them. -/
  sorted : List Value → List Value
  compared_mem : ∀ rows, ∀ pair ∈ compared rows, pair.1 ∈ rows ∧ pair.2 ∈ rows
  perm_sorted : ∀ rows, (sorted rows).Perm rows

/-! ### The token and what is read -/

structure CartToken where
  hc : Value
  o : List Value

def decodeCart (engine : Engine) (token : String) : Option CartToken :=
  (engine.parse token).bind fun parsed ↦
    if parsed.truthy && (parsed.field "v").isOne then
      (parsed.field "o").list.map fun elements ↦ ⟨parsed.field "hc", elements⟩
    else none

/-- `pending`, at some time. -/
def pending (now : String) (id restaurantId : Value) : Value :=
  .object [
    ("order", .object [
      ("order_id", id), ("state", .string "placed"), ("customer_id", .null),
      ("restaurant_id", restaurantId), ("items", .array []), ("total_cents", .number "0"),
      ("created_at", .string now)]),
    ("transitions", .array [])]

/-- The outcome of a `fetch`: a response, with its body if that is JSON, or a network error. -/
inductive Fetched
  | response (statusCode : ℕ) (body : Option Value)
  | error

/-- What a read finds, and when. -/
structure Finding where
  fetched : Fetched
  now : String

/-- `fetchOrder`: the path is made inside of the `try`. -/
def fetchOrder (id restaurantId : Value) (finding : Finding) : Value :=
  match id.text, finding.fetched with
  | .ok _, .response statusCode body =>
    if statusCode = 404 then pending finding.now id restaurantId
    else if ¬ (200 ≤ statusCode ∧ statusCode < 300) then pending finding.now id restaurantId
    else body.getD (pending finding.now id restaurantId)
  | _, _ => pending finding.now id restaurantId

/-! ### The view -/

structure ItemRow where
  id : String
  restaurantId : Value
  name : Value
  qty : Value
  unitPriceCents : Value

structure FulfillmentRow where
  id : Value
  restaurantId : Value
  status : Option String
  subtotalCents : Value

structure DeliveryRow where
  id : String
  restaurantId : Value
  status : Option String

structure TransitionRow where
  id : ℕ
  fromState : Value
  toState : Value
  cause : Value
  attempt : Value
  createdAt : Value

structure OrderRow where
  id : String
  status : String
  headcount : Value
  customerName : Value
  failureReason : Value

structure CartView where
  order : Option OrderRow
  items : List ItemRow
  fulfillments : List FulfillmentRow
  deliveries : List DeliveryRow
  transitions : List TransitionRow

/-- `table[state] ?? "pending"`; it is no string where the name is inherited. -/
def statusFrom (table : String → String) (state : Value) : Except Thrown (Option String) :=
  state.text.map fun name ↦ if name ∈ objectPrototype then none else some (table name)

/-- `restaurantName` and `restaurantCuisine`, as far as they can throw. -/
def lookUp (restaurantId : Value) : Except Thrown Unit :=
  if restaurantId.truthy then restaurantId.text.map fun _ ↦ () else .ok ()

/-- `value.slice(0, 8)`, as far as it can throw. -/
def slice (value : Value) : Except Thrown Unit :=
  if value.hasSlice then .ok () else .error .typeError

def itemRow (order : Value) (entry : Value × ℕ) : Except Thrown ItemRow := do
  let restaurantId ← order.get "restaurant_id"
  let id ← (← order.get "order_id").text
  lookUp restaurantId
  return ⟨s!"{id}-{entry.2}", restaurantId.orElse (.string ""), ← entry.1.get "name",
    ← entry.1.get "qty", ← entry.1.get "price_cents"⟩

def itemRows (order : Value) : Except Thrown (List ItemRow) := do
  let elements ← (← order.get "items").elements
  elements.zipIdx.mapM (itemRow order)

def fulfillmentRow (order : Value) : Except Thrown FulfillmentRow := do
  let restaurantId ← order.get "restaurant_id"
  lookUp restaurantId
  let id ← order.get "order_id"
  slice id
  let status ← statusFrom kitchenFromState (← order.get "state")
  return ⟨id, restaurantId.orElse (.string ""), status, ← order.get "total_cents"⟩

def deliveryRow (order : Value) : Except Thrown DeliveryRow := do
  let id ← order.get "order_id"
  let text ← id.text
  let state ← order.get "state"
  if state.is "placed" then .ok () else slice id
  return ⟨text ++ "-d", ← order.get "restaurant_id", ← statusFrom deliveryFromState state⟩

/-- `transitions.find((t) => t.to_state === "failed")`. -/
def findFailed : List Value → Except Thrown Value
  | [] => .ok .undefined
  | row :: rest => do
    if (← row.get "to_state").is "failed" then return row
    findFailed rest

/-- The cause that a failed order gives, if it gives one. -/
def causeOf (order transitions : Value) : Except Thrown (Option Value) := do
  if (← order.get "state").is "failed" then
    let found ← findFailed (← transitions.elements)
    let cause := found.field "cause"
    return if cause.truthy then some cause else none
  else return none

/-- The earlier of the dates so far and that of an order. -/
def earlier (engine : Engine) (createdAt created : Value) : Value :=
  if createdAt.truthy && !engine.less created createdAt then createdAt else created

/-- `if (!createdAt || order.created_at < createdAt) createdAt = order.created_at`. -/
def noteCreated (engine : Engine) (createdAt created : Value) : Except Thrown Value := do
  if createdAt.truthy then
    let _ ← created.text
    let _ ← createdAt.text
  return earlier engine createdAt created

/-- What the loop over the views has so far. -/
structure Loop where
  createdAt : Value
  failureReason : Value
  items : List ItemRow
  fulfillments : List FulfillmentRow
  deliveries : List DeliveryRow

def turn (engine : Engine) (loop : Loop) (view : Value) : Except Thrown Loop := do
  let order ← view.get "order"
  let transitions ← view.get "transitions"
  -- `+=` makes the amount a primitive value.
  let _ ← (← order.get "total_cents").text
  let createdAt ← noteCreated engine loop.createdAt (← order.get "created_at")
  let items ← itemRows order
  let fulfillment ← fulfillmentRow order
  let delivery ← deliveryRow order
  let cause ← causeOf order transitions
  return ⟨createdAt, cause.getD loop.failureReason, loop.items ++ items,
    loop.fulfillments ++ [fulfillment], loop.deliveries ++ [delivery]⟩

/-- A state that is no string is none of the states. -/
def stateName : Value → String
  | .string text => text
  | _ => ""

/-- What `flatMap` takes of a view. -/
def rowsOf (view : Value) : List Value :=
  (view.field "transitions").list.getD [view.field "transitions"]

/-- `a.created_at.localeCompare(b.created_at)`, as far as it can throw. -/
def compareRows (pair : Value × Value) : Except Thrown Unit := do
  let a ← pair.1.get "created_at"
  let b ← pair.2.get "created_at"
  if a.isString then b.text.map fun _ ↦ () else .error .typeError

def transitionRow (entry : Value × ℕ) : Except Thrown TransitionRow := do
  return ⟨entry.2 + 1, ← entry.1.get "from_state", ← entry.1.get "to_state",
    ← entry.1.get "cause", ← entry.1.get "attempt", ← entry.1.get "created_at"⟩

def transitionRows (engine : Engine) (rows : List Value) : Except Thrown (List TransitionRow) := do
  let _ ← (engine.compared rows).mapM compareRows
  (engine.sorted rows).zipIdx.mapM transitionRow

/-- The first customer that a view names. -/
def firstCustomer (views : List Value) : Value :=
  ((views.map fun view ↦ (view.field "order").field "customer_id").find? Value.truthy).getD .null

/-- The views of the elements of a token. -/
def readAll (findings : ℕ → Finding) (elements : List Value) : Except Thrown (List Value) :=
  elements.zipIdx.mapM fun entry ↦ do
    return fetchOrder (← entry.1.get "id") (← entry.1.get "r") (findings entry.2)

/-- `composeCartView`, from what each read finds. -/
def composeCartView (engine : Engine) (token : String) (findings : ℕ → Finding) :
    Except Thrown CartView :=
  match decodeCart engine token with
  | none => .ok ⟨none, [], [], [], []⟩
  | some decoded => do
    let views ← readAll findings decoded.o
    let loop ← views.foldlM (turn engine) ⟨.string "", .null, [], [], []⟩
    let transitions ← transitionRows engine (views.flatMap rowsOf)
    let customer := firstCustomer views
    let order : OrderRow :=
      { id := token
        status := aggregateStatus (views.map fun view ↦
          stateName ((view.field "order").field "state"))
        headcount := decoded.hc
        customerName := if customer.is "guest" then .null else customer
        failureReason := loop.failureReason }
    return ⟨some order, loop.items, loop.fulfillments, loop.deliveries, transitions⟩

end DinnerRush.CustomerWeb.Untrusted
