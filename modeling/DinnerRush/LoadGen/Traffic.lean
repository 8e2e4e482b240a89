import DinnerRush.Ingestion.Authorship
import DinnerRush.LoadGen.Generator
import Mathlib.Data.List.Dedup

/-!
# The traffic of the load generator

`_make_order` and `_send_one` of `load_gen/app/main.py`, over the ingestion service, which may be in
any state and serves other clients as well. A task that the dispatcher has created makes its order
when it first runs; now and then that is a resend, under the key of a recent order. It then waits
for the semaphore and posts the order. The POST may be lost on its way or without an answer, and it
may reach ingestion after the task has given up.
-/

set_option autoImplicit false
set_option relaxedAutoImplicit false

namespace DinnerRush.LoadGen

open Concurrency

/-! ### Making an order -/

def restaurants : List String :=
  ["pho-90", "bella-napoli", "sakura-sushi", "taco-libre", "curry-house", "burger-barn"]

def menu : List (String × ℤ) :=
  [("Margherita Pizza", 1450), ("Pad Thai", 1295), ("Cheeseburger", 1150), ("Sushi Combo", 1995),
    ("Chicken Tikka", 1675), ("Caesar Salad", 950), ("Pho Bowl", 1395), ("Fish Tacos", 1250),
    ("Ramen", 1495), ("Fries", 450)]

theorem menu_nonneg : ∀ entry ∈ menu, 0 ≤ entry.2 := by decide

/-- `f"cust-{i:04d}"`. -/
def customer (i : ℕ) : String :=
  "cust-" ++ .ofList ((toString i).toList.leftpad 4 '0')

def customers : List String := (List.range 500).map fun i ↦ customer (i + 1)

/-- What `new_uuid` gives: a text that is not empty. -/
abbrev Uuid := { text : String // text ≠ "" }

/-- What `random` and `new_uuid` decide for one order. -/
structure Draw where
  /-- `random.random()`. -/
  roll : ℚ
  /-- The place that `random.choice` takes in the recent keys. -/
  choice : ℕ
  uuid : Uuid
  /-- `random.sample(MENU, n_items)`, with the quantities less one. -/
  sample : List (Fin menu.length × Fin 3)
  customer : Fin customers.length
  restaurant : Fin restaurants.length
  roll_nonneg : 0 ≤ roll
  roll_lt : roll < 1
  sample_ne : sample ≠ []
  sample_le : sample.length ≤ 4
  sample_nodup : (sample.map Prod.fst).Nodup

namespace Draw

variable (draw : Draw)

def item (pick : Fin menu.length × Fin 3) : OrderItem where
  name := (menu.get pick.1).1
  qty := pick.2.val + 1
  priceCents := (menu.get pick.1).2
  one_le_qty := by omega
  priceCents_nonneg := menu_nonneg _ (List.get_mem menu pick.1)

def order (key : Uuid) : OrderRequest where
  customerId := customers.get draw.customer
  restaurantId := restaurants.get draw.restaurant
  items := draw.sample.map item
  idempotencyKey := some key.val
  nonEmpty := List.map_eq_nil_iff.not.mpr draw.sample_ne

end Draw

/-- The key that an order repeats, when it is a resend. -/
def resentKey (dupRate : ℚ) (recentKeys : List Uuid) (draw : Draw) : Option Uuid :=
  if dupRate > 0 ∧ draw.roll < dupRate then recentKeys[draw.choice % recentKeys.length]? else none

/-- The recent keys are the last 200. -/
def remember (recentKeys : List Uuid) (key : Uuid) : List Uuid :=
  let recentKeys := recentKeys ++ [key]
  if recentKeys.length > 200 then recentKeys.tail else recentKeys

/-- An order that was made under a key. Beside what the code knows, it remembers whether it is a
resend. -/
structure Made where
  draw : Draw
  key : Uuid
  resent : Bool

def Made.request (made : Made) : OrderRequest := made.draw.order made.key

/-- `_make_order`, and the recent keys after it. -/
def makeOrder (dupRate : ℚ) (recentKeys : List Uuid) (draw : Draw) : Made × List Uuid :=
  match resentKey dupRate recentKeys draw with
  | some key => (⟨draw, key, true⟩, recentKeys)
  | none => (⟨draw, draw.uuid, false⟩, remember recentKeys draw.uuid)

/-! ### The tasks -/

/-- Where a task of `_send_one` is. -/
inductive Phase
  | waiting
  | posting
  | ended (statusCode : Option ℕ)
  deriving DecidableEq, Repr

/-- A task of `_send_one` that has made its order, and the thread of ingestion that serves it. -/
structure Sender extends Made where
  thread : Option ℕ := none
  phase : Phase := .waiting

namespace Sender

variable (sender : Sender)

def isWaiting : Bool := sender.phase = .waiting

def isPosting : Bool := sender.phase = .posting

/-- The task has counted its order as sent. -/
def isSent : Bool :=
  match sender.phase with
  | .ended (some code) => code < 300
  | _ => false

/-- The task has counted an error. -/
def isError : Bool :=
  match sender.phase with
  | .ended (some code) => !(code < 300)
  | .ended none => true
  | _ => false

end Sender

/-- The environment of the service, with `LOADGEN_DUP_RATE`. -/
structure TrafficConfig extends Config where
  dupRate : ℚ := 0

structure Traffic where
  gen : Generator
  recentKeys : List Uuid
  senders : List Sender
  ingestion : World Ingestion.service

/-- The status that the thread of a request answers with; what it raises is a 500. -/
def statusOf : Option (Program Ingestion.signature Failure (Option Ingestion.Response)) → Option ℕ
  | some (.ret (some response)) => some response.statusCode
  | some (.raise _) => some 500
  | _ => none

namespace Traffic

inductive Action
  | command (command : Command)
  | tick (dt : ℚ)
  | make (draw : Draw)
  | acquire (index : ℕ)
  | deliver (index : ℕ)
  | answer (index : ℕ)
  | fail (index : ℕ)
  | ingestion (action : Concurrency.Action Ingestion.service)

variable (cfg : TrafficConfig) (s : Traffic)

/-- The tasks that have made their order and wait for the semaphore. -/
def waiting : ℕ := s.senders.countP Sender.isWaiting

/-- A task of the generator does one of its actions, and is then in this phase. -/
def advance (index : ℕ) (sender : Sender) (action : LoadGen.Action) (phase : Phase) :
    Option Traffic :=
  (LoadGen.act cfg.toConfig s.gen action).map fun gen ↦
    { s with gen, senders := s.senders.set index { sender with phase } }

def act : Action → Option Traffic
  | .command command =>
    (LoadGen.act cfg.toConfig s.gen (.command command)).map fun gen ↦ { s with gen }
  | .tick dt => (LoadGen.act cfg.toConfig s.gen (.tick dt)).map fun gen ↦ { s with gen }
  | .make draw =>
    -- The generator counts a task that has not run yet among those that wait.
    if s.waiting < s.gen.waiting then
      let (made, recentKeys) := makeOrder cfg.dupRate s.recentKeys draw
      some { s with senders := s.senders ++ [{ made with }], recentKeys }
    else none
  | .acquire index => do
    let sender ← s.senders[index]?
    if sender.phase = .waiting then s.advance cfg index sender .acquire .posting else none
  | .deliver index => do
    let sender ← s.senders[index]?
    if sender.phase ≠ .waiting ∧ sender.thread.isNone then
      let w ← s.ingestion.act (.launch (.placeOrder sender.request))
      some { s with
        ingestion := w
        senders := s.senders.set index { sender with thread := some s.ingestion.next } }
    else none
  | .answer index => do
    let sender ← s.senders[index]?
    let thread ← sender.thread
    let statusCode ← statusOf (s.ingestion.threads thread)
    if sender.phase = .posting then
      s.advance cfg index sender (.finish (some statusCode)) (.ended (some statusCode))
    else none
  | .fail index => do
    let sender ← s.senders[index]?
    if sender.phase = .posting then s.advance cfg index sender (.finish none) (.ended none)
    else none
  | .ingestion action => (s.ingestion.act action).map fun w ↦ { s with ingestion := w }

end Traffic

/-- The generator before its first tick, over ingestion before its first boot. -/
def traffic (cfg : TrafficConfig) : Transitions Traffic Traffic.Action where
  start := ⟨Generator.start cfg.toConfig, [], [], World.initial Ingestion.service⟩
  act := Traffic.act cfg

/-! ### What one step does -/

section Steps

variable {cfg : TrafficConfig} {s s' : Traffic} {index : ℕ}

/-- The generator takes a command or a tick. -/
theorem Traffic.act_dispatch {action : Traffic.Action}
    (haction : (∃ command, action = .command command) ∨ ∃ dt, action = .tick dt)
    (h : s.act cfg action = some s') :
    ∃ gen, s' = { s with gen } ∧ s.gen.waiting ≤ gen.waiting ∧ gen.inFlight = s.gen.inFlight ∧
      gen.sem = s.gen.sem ∧ gen.sent = s.gen.sent ∧ gen.errors = s.gen.errors := by
  rcases haction with ⟨command, rfl⟩ | ⟨dt, rfl⟩
  · obtain rfl : { s with gen := s.gen.command cfg.toConfig command } = s' := Option.some.inj h
    obtain ⟨mode, heq⟩ := s.gen.command_eq cfg.toConfig command
    refine ⟨_, rfl, ?_⟩
    rw [heq]
    exact ⟨Nat.le_refl _, rfl, rfl, rfl, rfl⟩
  · obtain ⟨gen, hgen, rfl⟩ := Option.map_eq_some_iff.mp h
    obtain ⟨-, heq⟩ := Option.ite_none_right_eq_some.mp hgen
    obtain rfl := Option.some.inj heq
    exact ⟨_, rfl, Nat.le_add_right _ _, rfl, rfl, rfl, rfl⟩

theorem Traffic.act_make {draw : Draw} (h : s.act cfg (.make draw) = some s') :
    s.waiting < s.gen.waiting ∧ s' = { s with
      senders := s.senders ++ [{ (makeOrder cfg.dupRate s.recentKeys draw).1 with }]
      recentKeys := (makeOrder cfg.dupRate s.recentKeys draw).2 } := by
  obtain ⟨hlt, hs'⟩ := Option.ite_none_right_eq_some.mp h
  exact ⟨hlt, (Option.some.inj hs').symm⟩

theorem Traffic.act_acquire (h : s.act cfg (.acquire index) = some s') :
    ∃ sender, s.senders[index]? = some sender ∧ sender.phase = .waiting ∧ 0 < s.gen.waiting ∧
      0 < s.gen.sem ∧ s' = { s with
        gen := s.gen.acquire
        senders := s.senders.set index { sender with phase := .posting } } := by
  obtain ⟨sender, hsender, h⟩ := Option.bind_eq_some_iff.mp h
  obtain ⟨hwaiting, h⟩ := Option.ite_none_right_eq_some.mp h
  obtain ⟨gen, hgen, rfl⟩ := Option.map_eq_some_iff.mp h
  obtain ⟨⟨hcreated, hsem⟩, heq⟩ := Option.ite_none_right_eq_some.mp hgen
  obtain rfl := Option.some.inj heq
  exact ⟨sender, hsender, hwaiting, hcreated, hsem, rfl⟩

theorem Traffic.act_deliver (h : s.act cfg (.deliver index) = some s') :
    ∃ sender w, s.senders[index]? = some sender ∧ sender.phase ≠ .waiting ∧
      sender.thread = none ∧ s.ingestion.act (.launch (.placeOrder sender.request)) = some w ∧
      s' = { s with
        ingestion := w
        senders := s.senders.set index { sender with thread := some s.ingestion.next } } := by
  obtain ⟨sender, hsender, h⟩ := Option.bind_eq_some_iff.mp h
  obtain ⟨⟨hphase, hthread⟩, h⟩ := Option.ite_none_right_eq_some.mp h
  obtain ⟨w, hw, h⟩ := Option.bind_eq_some_iff.mp h
  exact ⟨sender, w, hsender, hphase, Option.isNone_iff_eq_none.mp hthread, hw,
    (Option.some.inj h).symm⟩

/-- A task in flight counts what it got: the status that its thread answers with, or an
exception. -/
theorem Traffic.act_settle {action : Traffic.Action}
    (haction : action = .answer index ∨ action = .fail index)
    (h : s.act cfg action = some s') :
    ∃ sender statusCode, s.senders[index]? = some sender ∧ sender.phase = .posting ∧
      0 < s.gen.inFlight ∧
      (∀ code, statusCode = some code → ∃ thread, sender.thread = some thread ∧
        statusOf (s.ingestion.threads thread) = some code) ∧
      s' = { s with
        gen := s.gen.finish statusCode
        senders := s.senders.set index { sender with phase := .ended statusCode } } := by
  rcases haction with rfl | rfl
  · obtain ⟨sender, hsender, h⟩ := Option.bind_eq_some_iff.mp h
    obtain ⟨thread, hthread, h⟩ := Option.bind_eq_some_iff.mp h
    obtain ⟨code, hcode, h⟩ := Option.bind_eq_some_iff.mp h
    obtain ⟨hposting, h⟩ := Option.ite_none_right_eq_some.mp h
    obtain ⟨gen, hgen, rfl⟩ := Option.map_eq_some_iff.mp h
    obtain ⟨hflight, heq⟩ := Option.ite_none_right_eq_some.mp hgen
    obtain rfl := Option.some.inj heq
    refine ⟨sender, some code, hsender, hposting, hflight, fun other hother ↦ ?_, rfl⟩
    exact ⟨thread, hthread, by rw [hcode, hother]⟩
  · obtain ⟨sender, hsender, h⟩ := Option.bind_eq_some_iff.mp h
    obtain ⟨hposting, h⟩ := Option.ite_none_right_eq_some.mp h
    obtain ⟨gen, hgen, rfl⟩ := Option.map_eq_some_iff.mp h
    obtain ⟨hflight, heq⟩ := Option.ite_none_right_eq_some.mp hgen
    obtain rfl := Option.some.inj heq
    exact ⟨sender, none, hsender, hposting, hflight, nofun, rfl⟩

end Steps

end DinnerRush.LoadGen
