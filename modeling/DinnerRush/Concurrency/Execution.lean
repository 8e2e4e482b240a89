import DinnerRush.Concurrency.Transitions
import Mathlib.Data.List.Basic

/-!
# Infinite executions

A statement about how long something lasts, or about a bound that no length of run exceeds, is about
a run that does not end. An `Execution` is such a run of a transition system, and every state of it
is reached by finitely many steps. `Execution.ofLaps` is the run that repeats a list of actions for
ever, when each lap of it leads to the start of the next.
-/

set_option autoImplicit false
set_option relaxedAutoImplicit false

namespace DinnerRush.Concurrency

namespace Transitions

variable {σ α : Type} {T : Transitions σ α}

/-- An infinite run: its actions, each enabled in its turn, and its states. -/
structure Execution (T : Transitions σ α) where
  state : ℕ → σ
  action : ℕ → α
  start : state 0 = T.start
  step : ∀ n, T.act (state n) (action n) = some (state (n + 1))

/-- What holds at the start and is kept by every step holds in every state of an execution. -/
theorem Execution.invariant (x : T.Execution) {P : ℕ → σ → Prop} (hstart : P 0 T.start)
    (hstep : ∀ n s', P n (x.state n) → T.act (x.state n) (x.action n) = some s' → P (n + 1) s')
    (n : ℕ) : P n (x.state n) := by
  induction n with
  | zero => exact x.start ▸ hstart
  | succ n ih => exact hstep n _ ih (x.step n)

/-! ### Laps -/

/-- A list of actions is run in two parts. -/
theorem run_append (s : σ) (first rest : List α) :
    T.run s (first ++ rest) = (T.run s first).bind fun s' ↦ T.run s' rest := by
  induction first generalizing s with
  | nil => rfl
  | cons action first ih =>
    rw [List.cons_append, run, run, Option.bind_assoc]
    exact congrArg _ (funext fun s' ↦ ih s')

theorem run_take_succ (s : σ) (actions : List α) {i : ℕ} (hi : i < actions.length) :
    T.run s (actions.take (i + 1)) = (T.run s (actions.take i)).bind (T.act · actions[i]) := by
  rw [List.take_succ_eq_append_getElem hi, run_append]
  refine congrArg _ (funext fun s' ↦ ?_)
  exact Option.bind_fun_some _

/-- The first actions of a list that can be run can be run. -/
theorem isSome_run_take {s s' : σ} {actions : List α} (h : T.run s actions = some s') (i : ℕ) :
    (T.run s (actions.take i)).isSome := by
  rw [← List.take_append_drop i actions, run_append] at h
  obtain ⟨middle, hmiddle, -⟩ := Option.bind_eq_some_iff.mp h
  rw [hmiddle]
  rfl

variable {lap : ℕ → σ} {actions : List α}

/-- The state after `n` actions of a run in laps. -/
def lapState (lap : ℕ → σ) (actions : List α)
    (hlap : ∀ k, T.run (lap k) actions = some (lap (k + 1))) (n : ℕ) : σ :=
  (T.run (lap (n / actions.length)) (actions.take (n % actions.length))).get
    (isSome_run_take (hlap _) _)

/-- Each lap starts in its own state. -/
theorem lapState_mul (hlap : ∀ k, T.run (lap k) actions = some (lap (k + 1)))
    (hactions : 0 < actions.length) (k : ℕ) :
    lapState lap actions hlap (actions.length * k) = lap k := by
  simp [lapState, Nat.mul_div_cancel_left k hactions, run]

/-- The first actions of a lap lead from its start to the state after as many steps more. -/
theorem run_take_lap (hlap : ∀ k, T.run (lap k) actions = some (lap (k + 1)))
    (hactions : 0 < actions.length) (k : ℕ) {i : ℕ} (hi : i ≤ actions.length) :
    T.run (lap k) (actions.take i) = some (lapState lap actions hlap (actions.length * k + i)) := by
  rcases Nat.lt_or_eq_of_le hi with hlt | rfl
  · have hdiv : (actions.length * k + i) / actions.length = k := by
      rw [Nat.mul_add_div hactions, Nat.div_eq_of_lt hlt, Nat.add_zero]
    have hmod : (actions.length * k + i) % actions.length = i := by
      rw [Nat.mul_add_mod, Nat.mod_eq_of_lt hlt]
    simp [lapState, hdiv, hmod]
  · rw [List.take_length, hlap, ← Nat.mul_succ, lapState_mul hlap hactions]

/-- The run that repeats a list of actions, when each lap leads to the start of the next. -/
def Execution.ofLaps (lap : ℕ → σ) (actions : List α) (hactions : 0 < actions.length)
    (hstart : lap 0 = T.start) (hlap : ∀ k, T.run (lap k) actions = some (lap (k + 1))) :
    T.Execution where
  state := lapState lap actions hlap
  action n := actions.get ⟨n % actions.length, Nat.mod_lt n hactions⟩
  start := (lapState_mul hlap hactions 0).trans hstart
  step n := by
    have hmod := Nat.mod_lt n hactions
    have hnow := run_take_lap hlap hactions (n / actions.length) (Nat.le_of_lt hmod)
    have hnext := run_take_lap hlap hactions (n / actions.length) (Nat.succ_le_of_lt hmod)
    rw [run_take_succ _ _ hmod, hnow, Nat.add_succ, Nat.div_add_mod] at hnext
    exact hnext

@[simp] theorem Execution.state_ofLaps_mul (hactions : 0 < actions.length)
    (hstart : lap 0 = T.start) (hlap : ∀ k, T.run (lap k) actions = some (lap (k + 1))) (k : ℕ) :
    (Execution.ofLaps lap actions hactions hstart hlap).state (actions.length * k) = lap k :=
  lapState_mul hlap hactions k

end Transitions

end DinnerRush.Concurrency
