import DinnerRush.Concurrency.Transitions
import DinnerRush.CustomerWeb.View

/-!
# The order stream

`customer-web/src/app/api/orders/[id]/stream/route.ts`: the ticks of one stream, each of which reads
the orders of the cart one by one and then goes on without interruption, and what may happen in
between: the orders move on, the interval fires, the client aborts, the consumer cancels the stream.

`start` awaits its first tick before it creates the interval, so until then `timer` is in its
temporal dead zone and `clearInterval(timer)` throws.

Beside what the code knows, a read remembers when it happened and in which state the order was.
-/

set_option autoImplicit false
set_option relaxedAutoImplicit false

namespace DinnerRush.CustomerWeb

open Concurrency

/-- An order of the orchestrator. -/
structure Order where
  state : State
  customerId : Option String
  restaurantId : Option String
  items : List Item
  totalCents : ℤ
  transitions : List OrchTransition

/-- `GET /orders/{order_id}`. -/
def Order.view (id : String) (order : Order) : OrchView where
  order := ⟨id, order.state.value, order.customerId, order.restaurantId, order.items,
    order.totalCents⟩
  transitions := order.transitions

/-- The answer of the orchestrator for an order, which may not be seeded yet. -/
def answer (id : String) : Option Order → Fetched
  | some order => .response 200 (some (order.view id))
  | none => .response 404 none

/-- An order that is not seeded yet will be placed. -/
def stateOf (order : Option Order) : State := order.elim .placed Order.state

/-- A fetch that does not give the view of an order. -/
def Fetched.fails : Fetched → Bool
  | .response statusCode body =>
    decide (statusCode = 404 ∨ ¬ (200 ≤ statusCode ∧ statusCode < 300)) || body.isNone
  | .error => true

structure Read where
  order : TokenOrder
  fetched : Fetched
  seen : State
  time : ℕ

/-- A tick: the reads it has so far of the orders of the cart, and whether it is still at it. -/
structure Tick where
  reads : List (Option Read)
  running : Bool

inductive Timer
  | uninitialised
  | running
  | cleared
  deriving DecidableEq, Repr

/-- What was enqueued, with the reads it was composed from. -/
inductive Frame
  | view (view : CartView) (reads : List Read)
  | notFound

structure Stream where
  orders : String → Option Order
  log : List Read
  ticks : List Tick
  closed : Bool
  timer : Timer
  controllerOpen : Bool
  terminalSeenAt : Option ℕ
  now : ℕ
  frames : List Frame

inductive Action
  | seed (id : String) (order : Order)
  | advance (id : String) (target : State) (cause : Option String) (attempt : ℤ)
  | fetch (tick index : ℕ) (failed : Option Fetched)
  | settle (tick : ℕ)
  | throw (tick : ℕ)
  | fire
  | abort
  | cancel
  | wait (milliseconds : ℕ)

namespace Stream

variable (decoded : Option CartToken) (s : Stream)

/-- The orders that a tick reads. -/
def orderCount : ℕ := (decoded.map fun token ↦ token.o.length).getD 0

/-- A tick starts: `composeCartView` fetches every order. -/
def startTick : Stream :=
  { s with ticks := s.ticks ++ [⟨List.replicate (orderCount decoded) none, true⟩] }

/-- `close`. It throws at `clearInterval(timer)` before the interval has been created. -/
def close : Stream :=
  if s.closed then s
  else
    match s.timer with
    | .uninitialised => { s with closed := true }
    | _ => { s with closed := true, timer := .cleared, controllerOpen := false }

/-- `send`. It throws when the consumer has cancelled the stream. -/
def send (frame : Frame) : Option Stream :=
  if s.closed then some s
  else if s.controllerOpen then some { s with frames := s.frames ++ [frame] }
  else none

/-- What a tick does once a terminal status was sent. -/
def noteTerminal : Stream :=
  match s.terminalSeenAt with
  | none => { s with terminalSeenAt := some s.now }
  | some seenAt => if 2500 < s.now - seenAt then s.close else s

/-- What a tick does with the view. An error is swallowed. -/
def present (reads : List Read) : Stream :=
  let view := composeCartView decoded (reads.map Read.fetched)
  match view.order with
  | none =>
    match s.send .notFound with
    | some sent => sent.close
    | none => s
  | some row =>
    match s.send (.view view reads) with
    | some sent => if row.status ∈ terminal then sent.noteTerminal else sent
    | none => s

/-- A view with an order is sent; a terminal one is the last. -/
theorem present_of_row {reads : List Read} {row : OrderRow}
    (h : (composeCartView decoded (reads.map Read.fetched)).order = some row) :
    s.present decoded reads =
      ((s.send (.view (composeCartView decoded (reads.map Read.fetched)) reads)).map fun sent ↦
        if row.status ∈ terminal then sent.noteTerminal else sent).getD s := by
  unfold present
  simp only [h]
  cases s.send (.view (composeCartView decoded (reads.map Read.fetched)) reads) <;> rfl

/-- A tick is over; after the first one `start` goes on and creates the interval. -/
def finish (number : ℕ) (tick : Tick) : Stream :=
  { s with
    ticks := s.ticks.set number { tick with running := false }
    timer := if number = 0 then .running else s.timer }

/-- The read of one order by a tick. -/
def read (number index : ℕ) (failed : Option Fetched) : Option Stream := do
  let token ← decoded
  let order ← token.o[index]?
  let tick ← s.ticks[number]?
  if tick.running && tick.reads[index]?.any Option.isNone && failed.all Fetched.fails then
    let read : Read :=
      { order := order, fetched := failed.getD (answer order.id (s.orders order.id))
        seen := stateOf (s.orders order.id), time := s.log.length }
    some { s with
      log := s.log ++ [read]
      ticks := s.ticks.set number { tick with reads := tick.reads.set index (some read) } }
  else none

def act : Action → Option Stream
  | .seed id order =>
    if (s.orders id).isNone ∧ order.state = .placed then
      some { s with orders := Function.update s.orders id (some order) }
    else none
  | .advance id target cause attempt => do
    let order ← s.orders id
    if canTransition order.state target then
      some { s with orders := Function.update s.orders id (some { order with
        state := target
        transitions := order.transitions ++
          [⟨some order.state.value, target.value, cause, attempt⟩] }) }
    else none
  | .fetch number index failed => s.read decoded number index failed
  | .settle number => do
    let tick ← s.ticks[number]?
    let reads ← tick.reads.mapM id
    if tick.running then some ((s.present decoded reads).finish number tick) else none
  | .throw number => do
    let tick ← s.ticks[number]?
    if tick.running then some (s.finish number tick) else none
  | .fire => if s.timer = .running then some (s.startTick decoded) else none
  | .abort => some s.close
  | .cancel => some { s with controllerOpen := false }
  | .wait milliseconds => some { s with now := s.now + milliseconds }

end Stream

/-- A stream for a token, over the orders as they are when it is opened: its first tick has
started. -/
def stream (decoded : Option CartToken) (orders : String → Option Order) :
    Transitions Stream Action where
  start := Stream.startTick decoded ⟨orders, [], [], false, .uninitialised, true, none, 0, []⟩
  act := Stream.act decoded

/-- No order is seeded yet. -/
def unseeded : String → Option Order := fun _ ↦ none

def cart : CartToken := ⟨12, [⟨"o1", "spice-route"⟩, ⟨"o2", "green-bowl"⟩]⟩

/-! ### What one step does -/

variable {decoded : Option CartToken} {s s' : Stream} {number : ℕ}

/-- `close` only ends the stream. -/
theorem close_eq (s : Stream) : ∃ timer controllerOpen,
    s.close = { s with closed := true, timer := timer, controllerOpen := controllerOpen } := by
  unfold Stream.close
  by_cases hclosed : s.closed = true
  · rw [if_pos hclosed]
    refine ⟨s.timer, s.controllerOpen, ?_⟩
    rw [← hclosed]
  · rw [if_neg hclosed]
    split
    · exact ⟨s.timer, s.controllerOpen, rfl⟩
    · exact ⟨.cleared, false, rfl⟩

/-- The frame that a tick sends for its reads. -/
def frameOf (decoded : Option CartToken) (reads : List Read) : Frame :=
  if decoded.isNone then .notFound
  else .view (composeCartView decoded (reads.map Read.fetched)) reads

theorem send_cases {frame : Frame} (h : s.send frame = some s') :
    ∃ frames, (frames = s.frames ∨
        s.closed = false ∧ s.controllerOpen = true ∧ frames = s.frames ++ [frame]) ∧
      s' = { s with frames := frames } := by
  unfold Stream.send at h
  split_ifs at h with hclosed hopen
  · obtain rfl := Option.some.inj h
    exact ⟨s.frames, Or.inl rfl, rfl⟩
  · obtain rfl := Option.some.inj h
    exact ⟨_, Or.inr ⟨Bool.eq_false_iff.mpr hclosed, hopen, rfl⟩, rfl⟩

/-- A tick with its view sends its frame or none, and may note a terminal status or close. -/
theorem present_cases (decoded : Option CartToken) (s : Stream) (reads : List Read) :
    ∃ frames seenAt, (frames = s.frames ∨ s.closed = false ∧ s.controllerOpen = true ∧
        frames = s.frames ++ [frameOf decoded reads]) ∧
      (s.present decoded reads = { s with frames := frames, terminalSeenAt := seenAt } ∨
        s.present decoded reads =
            Stream.close { s with frames := frames, terminalSeenAt := seenAt } ∧
          (decoded = none ∨ s.terminalSeenAt ≠ none)) := by
  unfold Stream.present
  cases decoded with
  | none =>
    show ∃ frames seenAt, _ ∧ ((match s.send .notFound with
      | some sent => sent.close
      | none => s) = _ ∨ (match s.send .notFound with
      | some sent => sent.close
      | none => s) = _ ∧ _)
    cases hsent : s.send .notFound with
    | none => exact ⟨s.frames, s.terminalSeenAt, Or.inl rfl, Or.inl rfl⟩
    | some sent =>
      obtain ⟨frames, hframes, rfl⟩ := send_cases hsent
      exact ⟨frames, s.terminalSeenAt, hframes, Or.inr ⟨rfl, Or.inl rfl⟩⟩
  | some token =>
    let view := composeCartView (some token) (reads.map Read.fetched)
    let row := orderRow token.hc (token.o.zipWith fetchOrder (reads.map Read.fetched))
    show ∃ frames seenAt, _ ∧ ((match s.send (.view view reads) with
      | some sent => if row.status ∈ terminal then sent.noteTerminal else sent
      | none => s) = _ ∨ (match s.send (.view view reads) with
      | some sent => if row.status ∈ terminal then sent.noteTerminal else sent
      | none => s) = _ ∧ _)
    cases hsent : s.send (.view view reads) with
    | none => exact ⟨s.frames, s.terminalSeenAt, Or.inl rfl, Or.inl rfl⟩
    | some sent =>
      obtain ⟨frames, hframes, rfl⟩ := send_cases hsent
      by_cases hterminal : row.status ∈ terminal
      · simp only [if_pos hterminal]
        unfold Stream.noteTerminal
        cases hseen : s.terminalSeenAt with
        | none => exact ⟨frames, some s.now, hframes, Or.inl rfl⟩
        | some seenAt =>
          by_cases hlate : 2500 < s.now - seenAt
          · refine ⟨frames, some seenAt, hframes, Or.inr ⟨?_, Or.inr nofun⟩⟩
            simp only [hlate, if_true]
          · refine ⟨frames, some seenAt, hframes, Or.inl ?_⟩
            simp only [hlate, if_false]
      · simp only [if_neg hterminal]
        exact ⟨frames, s.terminalSeenAt, hframes, Or.inl rfl⟩

theorem stateOf_update {id : String} {order : Order} (orders : String → Option Order)
    (h : Reaches (stateOf (orders id)) order.state) (other : String) :
    Reaches (stateOf (orders other)) (stateOf (Function.update orders id (some order) other)) := by
  by_cases hid : other = id
  · rw [hid, Function.update_self]
    exact h
  · rw [Function.update_of_ne hid]
    exact .refl

/-- An order that is seeded is in the state that it was taken to be in. -/
theorem act_seed {id : String} {order : Order} (h : s.act decoded (.seed id order) = some s') :
    ∃ orders', (∀ other, Reaches (stateOf (s.orders other)) (stateOf (orders' other))) ∧
      s' = { s with orders := orders' } := by
  change (if (s.orders id).isNone ∧ order.state = .placed then _ else none) = some s' at h
  split at h
  · rename_i hplaced
    refine ⟨_, stateOf_update s.orders ?_, (Option.some.inj h).symm⟩
    rw [Option.isNone_iff_eq_none.mp hplaced.1, hplaced.2]
    exact .refl
  · cases h

theorem act_advance {id : String} {target : State} {cause : Option String} {attempt : ℤ}
    (h : s.act decoded (.advance id target cause attempt) = some s') :
    ∃ orders', (∀ other, Reaches (stateOf (s.orders other)) (stateOf (orders' other))) ∧
      s' = { s with orders := orders' } := by
  obtain ⟨order, horder, h⟩ := Option.bind_eq_some_iff.mp h
  split at h
  · rename_i hlegal
    refine ⟨_, stateOf_update s.orders ?_, (Option.some.inj h).symm⟩
    rw [horder]
    exact .single hlegal
  · cases h

theorem act_fire (h : s.act decoded .fire = some s') :
    s.timer = .running ∧ s' = s.startTick decoded := by
  change (if s.timer = .running then some (s.startTick decoded) else none) = some s' at h
  split at h
  · rename_i hrunning
    exact ⟨hrunning, (Option.some.inj h).symm⟩
  · cases h

theorem act_settle (h : s.act decoded (.settle number) = some s') :
    ∃ tick reads, s.ticks[number]? = some tick ∧ tick.running = true ∧
      tick.reads.mapM id = some reads ∧ s' = (s.present decoded reads).finish number tick := by
  obtain ⟨tick, htick, h⟩ := Option.bind_eq_some_iff.mp h
  obtain ⟨reads, hreads, h⟩ := Option.bind_eq_some_iff.mp h
  split at h
  · rename_i hrunning
    exact ⟨tick, reads, htick, hrunning, hreads, (Option.some.inj h).symm⟩
  · cases h

theorem act_throw (h : s.act decoded (.throw number) = some s') :
    ∃ tick, s.ticks[number]? = some tick ∧ tick.running = true ∧ s' = s.finish number tick := by
  obtain ⟨tick, htick, h⟩ := Option.bind_eq_some_iff.mp h
  split at h
  · rename_i hrunning
    exact ⟨tick, htick, hrunning, (Option.some.inj h).symm⟩
  · cases h

/-- The read of one order by a tick. -/
theorem read_cases {index : ℕ} {failed : Option Fetched}
    (h : s.read decoded number index failed = some s') :
    ∃ token order tick, decoded = some token ∧ token.o[index]? = some order ∧
      s.ticks[number]? = some tick ∧ tick.running = true ∧ tick.reads[index]? = some none ∧
      (∀ fetched ∈ failed, fetched.fails = true) ∧
      let read : Read :=
        ⟨order, failed.getD (answer order.id (s.orders order.id)), stateOf (s.orders order.id),
          s.log.length⟩
      s' = { s with
        log := s.log ++ [read]
        ticks := s.ticks.set number { tick with reads := tick.reads.set index (some read) } } := by
  obtain ⟨token, htoken, h⟩ := Option.bind_eq_some_iff.mp h
  obtain ⟨order, horder, h⟩ := Option.bind_eq_some_iff.mp h
  obtain ⟨tick, htick, h⟩ := Option.bind_eq_some_iff.mp h
  split at h
  · rename_i hall
    rw [Bool.and_eq_true, Bool.and_eq_true, Option.any_eq_true] at hall
    obtain ⟨⟨hrunning, unread, hindex, hnone⟩, hfails⟩ := hall
    rw [Option.isNone_iff_eq_none] at hnone
    rw [hnone] at hindex
    refine ⟨token, order, tick, htoken, horder, htick, hrunning, hindex, ?_,
      (Option.some.inj h).symm⟩
    intro fetched hfetched
    rw [Option.all_eq_true] at hfails
    exact hfails fetched hfetched
  · cases h

end DinnerRush.CustomerWeb
