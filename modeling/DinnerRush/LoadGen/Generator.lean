import DinnerRush.Concurrency.Transitions
import Mathlib.Data.Rat.Floor

/-!
# The load generator

`load_gen/app/main.py`. The dispatcher wakes up at every tick, moves its rate towards the target and
creates a `_send_one` task for each whole order that has come due, carrying the rest over to the
next tick. A task waits for the semaphore, posts its order, counts the answer and releases the
semaphore. The operator sets the target at any time, and ingestion answers when it likes.

Times and rates are exact. What the tasks post is in `Traffic`.
-/

set_option autoImplicit false
set_option relaxedAutoImplicit false

namespace DinnerRush.LoadGen

open Concurrency

/-- The environment of the service. -/
structure Config where
  baselineRps : ℚ := 3
  rushRps : ℚ := 80
  rushRampSeconds : ℚ := 5
  autostart : Bool := true
  maxInflight : ℕ := 400

inductive Mode
  | stopped
  | baseline
  | rush
  | custom
  deriving DecidableEq, Repr

/-- A `Generator`, with the `carry` of its dispatch loop, the value of its semaphore and its tasks:
those that wait for the semaphore, and those that hold it. -/
structure Generator where
  targetRps : ℚ := 0
  currentRps : ℚ := 0
  mode : Mode := .stopped
  sent : ℕ := 0
  errors : ℕ := 0
  carry : ℚ := 0
  sem : ℕ
  waiting : ℕ := 0
  inFlight : ℕ := 0
  deriving DecidableEq, Repr

/-- `int` of a number, which is rounded towards zero. -/
def truncate (q : ℚ) : ℤ :=
  if 0 ≤ q then ⌊q⌋ else ⌈q⌉

namespace Generator

def setBaseline (cfg : Config) (gen : Generator) : Generator :=
  { gen with mode := .baseline, targetRps := cfg.baselineRps }

def setRush (cfg : Config) (gen : Generator) : Generator :=
  { gen with mode := .rush, targetRps := cfg.rushRps }

def setRate (gen : Generator) (rps : ℚ) : Generator :=
  { gen with mode := .custom, targetRps := max 0 rps }

def setStopped (gen : Generator) : Generator :=
  { gen with mode := .stopped, targetRps := 0 }

/-- `__init__` and `start`. -/
def start (cfg : Config) : Generator :=
  let gen : Generator := { sem := cfg.maxInflight }
  if cfg.autostart then gen.setBaseline cfg else gen

end Generator

/-- The ramp of `_run`: the rate after a tick. A rate above its target drops to it at once. -/
def ramp (cfg : Config) (dt target current : ℚ) : ℚ :=
  let rampPerTick := if cfg.rushRampSeconds > 0 then cfg.rushRps / cfg.rushRampSeconds * dt else 0
  if current < target then min target (current + max rampPerTick 1)
  else if current > target then target
  else current

namespace Generator

/-- One turn of the loop of `_run`, `dt` after the one before it. -/
def tick (cfg : Config) (gen : Generator) (dt : ℚ) : Generator :=
  let currentRps := ramp cfg dt gen.targetRps gen.currentRps
  let carry := gen.carry + currentRps * dt
  let n := truncate carry
  { gen with
    currentRps
    carry := carry - n
    waiting := gen.waiting + n.toNat }

/-- A task of `_send_one` enters `async with self._sem`. -/
def acquire (gen : Generator) : Generator :=
  { gen with waiting := gen.waiting - 1, sem := gen.sem - 1, inFlight := gen.inFlight + 1 }

/-- A task of `_send_one` counts the status of its response, or the exception that it got instead,
and leaves `async with self._sem`. -/
def finish (gen : Generator) (statusCode : Option ℕ) : Generator :=
  let gen := { gen with sem := gen.sem + 1, inFlight := gen.inFlight - 1 }
  match statusCode with
  | some code =>
    if code < 300 then { gen with sent := gen.sent + 1 } else { gen with errors := gen.errors + 1 }
  | none => { gen with errors := gen.errors + 1 }

/-- The tasks of `_send_one` that were created and are not finished. -/
def unfinished (gen : Generator) : ℕ :=
  gen.waiting + gen.inFlight

end Generator

/-- The endpoints of the control surface. -/
inductive Command
  | rush
  | baseline
  | stop
  | control (rps : ℚ)
  deriving DecidableEq, Repr

def Generator.command (cfg : Config) (gen : Generator) : Command → Generator
  | .rush => gen.setRush cfg
  | .baseline => gen.setBaseline cfg
  | .stop => gen.setStopped
  | .control rps => gen.setRate rps

/-- What the operator, the clock, the event loop and ingestion do. -/
inductive Action
  | command (command : Command)
  | tick (dt : ℚ)
  | acquire
  | finish (statusCode : Option ℕ)
  deriving DecidableEq, Repr

/-- The monotonic clock does not go back, a task acquires a semaphore whose value is positive, and
only a task in flight gets an answer. -/
def act (cfg : Config) (gen : Generator) : Action → Option Generator
  | .command command => some (gen.command cfg command)
  | .tick dt => if 0 ≤ dt then some (gen.tick cfg dt) else none
  | .acquire => if 0 < gen.waiting ∧ 0 < gen.sem then some gen.acquire else none
  | .finish statusCode => if 0 < gen.inFlight then some (gen.finish statusCode) else none

def system (cfg : Config) : Transitions Generator Action where
  start := Generator.start cfg
  act := act cfg

/-! ### What one action does -/

/-- The target that a command sets. -/
def Command.target (cfg : Config) : Command → ℚ
  | .rush => cfg.rushRps
  | .baseline => cfg.baselineRps
  | .stop => 0
  | .control rps => max 0 rps

namespace Generator

/-- A command sets the target and the mode. -/
theorem command_eq (cfg : Config) (gen : Generator) (command : Command) :
    ∃ mode, gen.command cfg command =
      { gen with mode := mode, targetRps := command.target cfg } := by
  cases command <;> exact ⟨_, rfl⟩

/-- A task leaves the semaphore and is counted, as sent or as an error. -/
theorem finish_eq (gen : Generator) (statusCode : Option ℕ) :
    ∃ sent errors, sent + errors = gen.sent + gen.errors + 1 ∧ gen.finish statusCode =
      { gen with sem := gen.sem + 1, inFlight := gen.inFlight - 1, sent, errors } := by
  rcases statusCode with _ | code
  · exact ⟨gen.sent, gen.errors + 1, rfl, rfl⟩
  · by_cases hcode : code < 300
    · exact ⟨gen.sent + 1, gen.errors, by omega, by simp [finish, hcode]⟩
    · exact ⟨gen.sent, gen.errors + 1, rfl, by simp [finish, hcode]⟩

end Generator

/-- An action sets the target and the mode, is a tick, takes the semaphore, or leaves it and is
counted. -/
theorem act_cases {cfg : Config} {gen gen' : Generator} {action : Action}
    (h : act cfg gen action = some gen') :
    (∃ command mode, action = .command command ∧
      gen' = { gen with mode := mode, targetRps := command.target cfg }) ∨
    (∃ dt, action = .tick dt ∧ 0 ≤ dt ∧ gen' = gen.tick cfg dt) ∨
    (action = .acquire ∧ 0 < gen.waiting ∧ 0 < gen.sem ∧ gen' = gen.acquire) ∨
    (∃ statusCode sent errors, action = .finish statusCode ∧ 0 < gen.inFlight ∧
      sent + errors = gen.sent + gen.errors + 1 ∧
      gen' = { gen with sem := gen.sem + 1, inFlight := gen.inFlight - 1, sent, errors }) := by
  cases action with
  | command command =>
    obtain ⟨mode, heq⟩ := gen.command_eq cfg command
    exact .inl ⟨command, mode, rfl, heq ▸ (Option.some.inj h).symm⟩
  | tick dt =>
    obtain ⟨hdt, hgen⟩ := Option.ite_none_right_eq_some.mp h
    exact .inr (.inl ⟨dt, rfl, hdt, (Option.some.inj hgen).symm⟩)
  | acquire =>
    obtain ⟨⟨hwaiting, hsem⟩, hgen⟩ := Option.ite_none_right_eq_some.mp h
    exact .inr (.inr (.inl ⟨rfl, hwaiting, hsem, (Option.some.inj hgen).symm⟩))
  | finish statusCode =>
    obtain ⟨hflight, hgen⟩ := Option.ite_none_right_eq_some.mp h
    obtain ⟨sent, errors, hcount, heq⟩ := gen.finish_eq statusCode
    exact .inr (.inr (.inr ⟨statusCode, sent, errors, rfl, hflight, hcount,
      heq ▸ (Option.some.inj hgen).symm⟩))

end DinnerRush.LoadGen
