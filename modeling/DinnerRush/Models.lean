import DinnerRush.States
import Mathlib.Algebra.Ring.Int.Defs

/-!
# Wire models

`drcommon.models`: what the services say to each other. A message on the broker is an `Envelope`;
its `data` is the JSON object of the source as the record of the keys some handler looks up, each
present or not. The order id is the canonical text of a uuid, which every producer of messages
writes (`new_uuid`, or an order id read from another message).

`opIdFor` is the deterministic id of one lifecycle step. `opIdFor_injective` is what the
idempotency of the pipeline hinges on: the text determines the order and both states, whatever the
order id is.
-/

set_option autoImplicit false
set_option relaxedAutoImplicit false

namespace DinnerRush

/-- The exceptions the services raise: the three of the HTTP client, and any other with its
text. -/
inductive Failure
  | error (text : String)
  | breakerOpen (text : String)
  | transientExhausted (text : String)
  | permanentError (statusCode : ℕ)
  deriving DecidableEq, Repr

/-- `str(exc)`. -/
def Failure.text : Failure → String
  | error text => text
  | breakerOpen text => text
  | transientExhausted text => text
  | permanentError statusCode => s!"permanent downstream error {statusCode}"

/-- `value or …`: an absent or empty string is passed over. -/
def truthy (value : Option String) : Option String :=
  value.filter fun text ↦ text ≠ ""

theorem truthy_some {text : String} (h : text ≠ "") : truthy (some text) = some text := by
  simp [truthy, h]

/-- The range of a Postgres `int` column. -/
def fitsInt (value : ℤ) : Bool := decide (-2 ^ 31 ≤ value ∧ value < 2 ^ 31)

/-- The canonical text of a uuid, which is what a `uuid` column holds. -/
def isUuid (text : String) : Bool :=
  text.toList.length == 36 && text.toList.zipIdx.all fun (char, index) ↦
    if index ∈ [8, 13, 18, 23] then char == '-' else "0123456789abcdef".toList.contains char

/-! ### Operation ids -/

/-- Deterministic operation id for a single lifecycle step. -/
def opIdFor (orderId : String) (fromState toState : State) : String :=
  orderId ++ ":" ++ fromState.value ++ "->" ++ toState.value

/-- The last occurrence of a separator splits a list in one way. -/
theorem append_cons_inj_of_notMem_right {α : Type} {separator : α}
    {left left' right right' : List α}
    (hright : separator ∉ right) (hright' : separator ∉ right')
    (h : left ++ separator :: right = left' ++ separator :: right') :
    left = left' ∧ right = right' := by
  induction left generalizing left' with
  | nil =>
    cases left' with
    | nil => exact ⟨rfl, by simpa using h⟩
    | cons head rest =>
      have htail : right = rest ++ separator :: right' := (List.cons.inj h).2
      exact absurd (htail ▸ by simp : separator ∈ right) hright
  | cons head rest ih =>
    cases left' with
    | nil =>
      have htail : rest ++ separator :: right = right' := (List.cons.inj h).2
      exact absurd (htail ▸ by simp : separator ∈ right') hright'
    | cons head' rest' =>
      obtain ⟨hhead, htail⟩ := List.cons.inj h
      obtain ⟨hrest, hsame⟩ := ih htail
      exact ⟨by rw [hhead, hrest], hsame⟩

theorem colon_notMem_value (state : State) : ':' ∉ state.value.toList := by
  cases state <;> decide

theorem minus_notMem_value (state : State) : '-' ∉ state.value.toList := by
  cases state <;> decide

theorem toList_opIdFor (orderId : String) (fromState toState : State) :
    (opIdFor orderId fromState toState).toList =
      orderId.toList ++ ':' :: (fromState.value.toList ++ '-' :: '>' :: toState.value.toList) := by
  simp [opIdFor]

theorem opIdFor_ne_empty (orderId : String) (fromState toState : State) :
    opIdFor orderId fromState toState ≠ "" := by
  intro hempty
  have hlist := congrArg String.toList hempty
  rw [toList_opIdFor] at hlist
  simp at hlist

/-- The id of a step determines the order and both of its states. -/
theorem opIdFor_injective {orderId orderId' : String}
    {fromState fromState' toState toState' : State}
    (h : opIdFor orderId fromState toState = opIdFor orderId' fromState' toState') :
    orderId = orderId' ∧ fromState = fromState' ∧ toState = toState' := by
  have hlist := congrArg String.toList h
  rw [toList_opIdFor, toList_opIdFor] at hlist
  have hcolon : ∀ first second : State,
      ':' ∉ first.value.toList ++ '-' :: '>' :: second.value.toList := by
    intro first second
    simp [colon_notMem_value]
  obtain ⟨horder, hstep⟩ :=
    append_cons_inj_of_notMem_right (hcolon fromState toState) (hcolon fromState' toState') hlist
  obtain ⟨hfrm, -, hto⟩ := (List.append_cons_inj_of_notMem
    (minus_notMem_value fromState) (by simp [minus_notMem_value])).mp hstep
  exact ⟨String.toList_injective horder, State.value_injective (String.toList_injective hfrm),
    State.value_injective (String.toList_injective (List.cons.inj hto).2)⟩

/-! ### HTTP: ingestion input -/

/-- One line of an order as it is stored and sent, the JSON of an `OrderItem`. -/
structure Item where
  name : String
  qty : ℤ
  priceCents : ℤ
  deriving DecidableEq, Repr

/-- A validated line of an order: the field constraints hold. -/
structure OrderItem where
  name : String
  qty : ℤ := 1
  priceCents : ℤ := 0
  one_le_qty : 1 ≤ qty
  priceCents_nonneg : 0 ≤ priceCents
  deriving DecidableEq

/-- `OrderItem.model_dump`. -/
def OrderItem.modelDump (item : OrderItem) : Item :=
  ⟨item.name, item.qty, item.priceCents⟩

/-- Body of `POST /orders`. -/
structure OrderRequest where
  customerId : String
  restaurantId : String
  items : List OrderItem
  idempotencyKey : Option String
  nonEmpty : items ≠ []
  deriving DecidableEq

/-- `sum(i.qty * i.price_cents for i in items)` over stored lines. -/
def totalOfItems (items : List Item) : ℤ :=
  (items.map fun item ↦ item.qty * item.priceCents).sum

def OrderRequest.totalCents (request : OrderRequest) : ℤ :=
  (request.items.map fun item ↦ item.qty * item.priceCents).sum

theorem totalOfItems_modelDump (request : OrderRequest) :
    totalOfItems (request.items.map OrderItem.modelDump) = request.totalCents := by
  rw [totalOfItems, OrderRequest.totalCents, List.map_map]
  rfl

/-! ### HTTP: commands to a downstream and their answers -/

/-- The JSON objects stored as the result of an operation or of a dispatch. -/
structure Detail where
  paymentIntentId : Option String := none
  amount : Option ℤ := none
  handledBy : Option String := none
  /-- Milliseconds, in tenths: the code rounds the delay to one decimal. -/
  ms : Option ℕ := none
  deriving DecidableEq, Repr

/-- Body of `POST /fulfill` on the restaurant and courier services. -/
structure FulfillRequest where
  orderId : String
  opId : String
  stage : String
  customerId : Option String := none
  restaurantId : Option String := none
  deriving DecidableEq, Repr

structure FulfillResult where
  opId : String
  orderId : String
  stage : String
  status : String := "ok"
  duplicate : Bool := false
  detail : Detail := {}
  deriving DecidableEq, Repr

/-! ### Broker envelope -/

/-- The type of an envelope, which doubles as its routing key. -/
inductive EventType
  | placed
  | transition
  | advance
  deriving DecidableEq, Repr

def EventType.value : EventType → String
  | placed => "order.placed"
  | transition => "order.transition"
  | advance => "order.advance"

/-- The JSON object of an envelope: the keys some handler looks up, each present or not. -/
structure Data where
  fromState : Option String := none
  toState : Option String := none
  cause : Option String := none
  attempt : Option ℤ := none
  idempotencyKey : Option String := none
  customerId : Option String := none
  restaurantId : Option String := none
  items : Option (List Item) := none
  totalCents : Option ℤ := none
  deriving DecidableEq, Repr

/-- Uniform wrapper for everything published to the broker. -/
structure Envelope where
  eventId : String
  type : EventType
  orderId : String
  ts : String
  attempt : ℤ := 1
  data : Data := {}
  deriving DecidableEq, Repr

/-- What `new_uuid` and `utcnow_iso` gave for one envelope. -/
structure Stamp where
  eventId : String
  ts : String
  deriving DecidableEq, Repr

def makeEvent (stamp : Stamp) (type : EventType) (orderId : String) (data : Data) : Envelope :=
  { eventId := stamp.eventId, type := type, orderId := orderId, ts := stamp.ts, data := data }

end DinnerRush
