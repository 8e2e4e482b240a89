import DinnerRush.Concurrency.RelyGuarantee
import DinnerRush.Concurrency.Table
import DinnerRush.Models

/-!
# The flaky downstreams

`drcommon.downstream.FlakyCore`: the unreliability shared by the downstream services. Its state is
its configuration, the clock and a random source, all of which may change at any time through
`/control`, so each of its answers is a choice of the environment.

A downstream service is a pool of requests over its table. A request claims its effect with one
statement, which is its own transaction. A statement may fail before or after it took effect, and a
request may die at any await.
-/

set_option autoImplicit false
set_option relaxedAutoImplicit false

namespace DinnerRush

open Concurrency

/-- A simulated outcome of `FlakyCore.roll`; an ok roll is `none`. -/
inductive Outcome
  | error
  | timeout
  | decline
  deriving DecidableEq, Repr

inductive FlakyEffect
  | isDown
  | rateLimited
  | latency
  | roll
  | sleep
  deriving DecidableEq, Repr

/-- `latency` gives the delay in tenths of a millisecond. -/
@[reducible] def FlakyEffect.Result : FlakyEffect → Type
  | isDown => Bool
  | rateLimited => Bool
  | latency => ℕ
  | roll => Option Outcome
  | sleep => Unit

/-- What the clock, the random source and the configuration decide. -/
structure FlakyChoice where
  flag : Bool := false
  delay : ℕ := 0
  outcome : Option Outcome := none
  deriving DecidableEq, Repr

def FlakyEffect.answer (choice : FlakyChoice) : (effect : FlakyEffect) → effect.Result
  | isDown => choice.flag
  | rateLimited => choice.flag
  | latency => choice.delay
  | roll => choice.outcome
  | sleep => ()

end DinnerRush
