import DinnerRush.Concurrency.Execution
import DinnerRush.LoadGen.Generator
import Mathlib.Data.Nat.Count

/-!
# Backpressure of the load generator

The semaphore bounds the requests in flight, whatever happens. It is taken inside the task, and the
dispatcher creates tasks without waiting for any of them, so nothing bounds the tasks that wait for
it. `asked` is the work that the rates ask for up to a step of a run, a fact about the commands and
the ticks alone, and `finished` the requests that ingestion has answered by then. The tasks that are
not finished are what has been asked for and not finished, up to the part of an order that is
carried over (`load_le_asked`, `load_eq_asked`), so they are bounded just if ingestion keeps up with
the rates.
-/

set_option autoImplicit false
set_option relaxedAutoImplicit false

namespace DinnerRush.LoadGen

open Concurrency

/-! ### What a run asks for -/

/-- A target, and the rate that is on its way there. -/
structure Rates where
  target : ℚ
  current : ℚ
  deriving DecidableEq, Repr

def Rates.start (cfg : Config) : Rates where
  target := if cfg.autostart then cfg.baselineRps else 0
  current := 0

def Rates.after (cfg : Config) (rates : Rates) : Action → Rates
  | .command command => { rates with target := command.target cfg }
  | .tick dt => { rates with current := ramp cfg dt rates.target rates.current }
  | .acquire => rates
  | .finish _ => rates

/-- The orders that come due at an action: at a tick, those of its rate and length. -/
def Rates.due (cfg : Config) (rates : Rates) : Action → ℚ
  | .tick dt => max 0 (ramp cfg dt rates.target rates.current) * dt
  | _ => 0

/-- The rates before each action of a run. -/
def ratesOf (cfg : Config) (actions : ℕ → Action) : ℕ → Rates
  | 0 => .start cfg
  | n + 1 => (ratesOf cfg actions n).after cfg (actions n)

/-- The orders that the first `n` actions ask for. -/
def asked (cfg : Config) (actions : ℕ → Action) : ℕ → ℚ
  | 0 => 0
  | n + 1 => asked cfg actions n + (ratesOf cfg actions n).due cfg (actions n)

def Action.isFinish : Action → Bool
  | .finish _ => true
  | _ => false

/-- The requests that get their answer in the first `n` actions. -/
def finished (actions : ℕ → Action) (n : ℕ) : ℕ :=
  Nat.count (fun k ↦ (actions k).isFinish) n

/-- What the rates ask for is never ahead of what ingestion has finished by more than a bound. -/
def KeepsUp (cfg : Config) (actions : ℕ → Action) : Prop :=
  ∃ bound : ℚ, ∀ n, asked cfg actions n - finished actions n ≤ bound

/-- In a run the semaphore bounds the requests in flight, and the unfinished tasks stay below a
bound. -/
structure Backpressure (cfg : Config) (run : (system cfg).Execution) : Prop where
  inFlight_le : ∀ n, (run.state n).inFlight ≤ cfg.maxInflight
  unfinished_lt : ∃ bound, ∀ n, (run.state n).unfinished < bound

/-! ### The semaphore -/

/-- The value of the semaphore and the tasks that hold it are the limit. -/
def Generator.Guarded (cfg : Config) (gen : Generator) : Prop :=
  gen.sem + gen.inFlight = cfg.maxInflight

theorem guarded_start (cfg : Config) : (Generator.start cfg).Guarded cfg := by
  rw [Generator.start]
  split <;> rfl

theorem guarded_act {cfg : Config} {gen gen' : Generator} {action : Action}
    (h : act cfg gen action = some gen') (hgen : gen.Guarded cfg) : gen'.Guarded cfg := by
  unfold Generator.Guarded at hgen ⊢
  obtain ⟨-, -, -, rfl⟩ | ⟨-, -, -, rfl⟩ | ⟨-, -, hsem, rfl⟩ |
    ⟨-, sent, errors, -, hflight, -, rfl⟩ :=
    act_cases h
  · exact hgen
  · exact hgen
  · simp only [Generator.acquire]
    omega
  · simp only
    omega

/-! ### The load -/

/-- The whole orders in a number and what is left of it, where it is positive. -/
theorem toNat_truncate_add (q : ℚ) :
    ((truncate q).toNat : ℚ) + max 0 (q - truncate q) = max 0 q := by
  unfold truncate
  split
  · rename_i hq
    have hfloor : ((⌊q⌋.toNat : ℤ) : ℚ) = ⌊q⌋ := by
      rw [Int.toNat_of_nonneg (Int.floor_nonneg.mpr hq)]
    have hrest : 0 ≤ q - ⌊q⌋ := Int.fract_nonneg q
    rw [max_eq_right hrest, max_eq_right hq, ← Int.cast_natCast, hfloor]
    ring
  · rename_i hq
    have hceil : ⌈q⌉ ≤ 0 := Int.ceil_le.mpr (by simpa using (not_le.mp hq).le)
    have hrest : q - ⌈q⌉ ≤ 0 := sub_nonpos.mpr (Int.le_ceil q)
    rw [max_eq_left hrest, max_eq_left (not_le.mp hq).le, Int.toNat_of_nonpos hceil]
    simp

/-- What is left of a number is less than one. -/
theorem sub_truncate_lt_one (q : ℚ) : q - truncate q < 1 := by
  unfold truncate
  split
  · exact Int.fract_lt_one q
  · exact lt_of_le_of_lt (sub_nonpos.mpr (Int.le_ceil q)) one_pos

namespace Generator

def rates (gen : Generator) : Rates :=
  ⟨gen.targetRps, gen.currentRps⟩

/-- The unfinished tasks, and the part of an order that has come due. -/
def load (gen : Generator) : ℚ :=
  gen.unfinished + max 0 gen.carry

/-- A tick creates the tasks of the whole orders that have come due. -/
theorem load_tick (cfg : Config) (gen : Generator) (dt : ℚ) :
    (gen.tick cfg dt).load =
      gen.unfinished + max 0 (gen.carry + ramp cfg dt gen.targetRps gen.currentRps * dt) := by
  rw [← toNat_truncate_add]
  simp only [load, unfinished, tick]
  push_cast
  ring

end Generator

/-- Apart from the ticks, only the end of a request changes the load. -/
theorem load_act_of_not_tick {cfg : Config} {gen gen' : Generator} {action : Action}
    (h : act cfg gen action = some gen') (htick : ¬ ∃ dt, action = .tick dt) :
    gen'.load + (if action.isFinish then 1 else 0) = gen.load := by
  obtain ⟨command, mode, rfl, rfl⟩ | ⟨dt, hdt, -⟩ | ⟨rfl, hwaiting, -, rfl⟩ |
    ⟨code, sent, errors, rfl, hflight, -, rfl⟩ := act_cases h
  · exact add_zero _
  · exact absurd ⟨dt, hdt⟩ htick
  · have hmoved : gen.acquire.unfinished = gen.unfinished := by
      simp only [Generator.unfinished, Generator.acquire]
      omega
    have hcarry : gen.acquire.carry = gen.carry := rfl
    rw [Generator.load, hmoved, hcarry]
    exact add_zero _
  · have hended : gen.waiting + (gen.inFlight - 1) + 1 = gen.waiting + gen.inFlight := by omega
    simp only [Generator.load, Generator.unfinished, Action.isFinish, if_true, ← hended]
    push_cast
    ring

/-- Less than one order is carried over. -/
theorem carry_act_lt {cfg : Config} {gen gen' : Generator} {action : Action}
    (h : act cfg gen action = some gen') (hgen : gen.carry < 1) : gen'.carry < 1 := by
  obtain ⟨-, -, -, rfl⟩ | ⟨dt, -, -, rfl⟩ | ⟨-, -, -, rfl⟩ | ⟨-, -, -, -, -, -, rfl⟩ := act_cases h
  · exact hgen
  · exact sub_truncate_lt_one _
  · exact hgen
  · exact hgen

theorem rates_act {cfg : Config} {gen gen' : Generator} {action : Action}
    (h : act cfg gen action = some gen') : gen'.rates = gen.rates.after cfg action := by
  obtain ⟨command, mode, rfl, rfl⟩ | ⟨dt, rfl, -, rfl⟩ | ⟨rfl, -, -, rfl⟩ |
    ⟨code, sent, errors, rfl, -, -, rfl⟩ := act_cases h <;> rfl

theorem due_of_not_tick {cfg : Config} {rates : Rates} {action : Action}
    (htick : ¬ ∃ dt, action = .tick dt) : rates.due cfg action = 0 := by
  cases action with
  | tick dt => exact absurd ⟨dt, rfl⟩ htick
  | command | acquire | finish => rfl

/-- An action adds no more to the load than what comes due. -/
theorem load_act_le {cfg : Config} {gen gen' : Generator} {action : Action}
    (h : act cfg gen action = some gen') :
    gen'.load + (if action.isFinish then 1 else 0) ≤ gen.load + gen.rates.due cfg action := by
  by_cases htick : ∃ dt, action = .tick dt
  · obtain ⟨dt, rfl⟩ := htick
    obtain ⟨hdt, hgen⟩ := Option.ite_none_right_eq_some.mp h
    obtain rfl := Option.some.inj hgen
    have hdue := mul_le_mul_of_nonneg_right
      (le_max_right 0 (ramp cfg dt gen.targetRps gen.currentRps)) hdt
    have hpos : 0 ≤ max 0 (ramp cfg dt gen.targetRps gen.currentRps) * dt :=
      mul_nonneg (le_max_left _ _) hdt
    have hmax : max 0 (gen.carry + ramp cfg dt gen.targetRps gen.currentRps * dt) ≤
        max 0 gen.carry + max 0 (ramp cfg dt gen.targetRps gen.currentRps) * dt :=
      max_le (add_nonneg (le_max_left _ _) hpos) (add_le_add (le_max_right _ _) hdue)
    rw [Generator.load_tick]
    simp only [Action.isFinish, Rates.due, Generator.load, Generator.rates]
    simp only [Bool.false_eq_true, if_false, add_zero]
    linarith
  · rw [load_act_of_not_tick h htick, due_of_not_tick htick, add_zero]

/-! ### Rates that are not negative -/

/-- A target, a rate and a carry that are not negative. -/
structure Generator.Nonneg (gen : Generator) : Prop where
  targetRps : 0 ≤ gen.targetRps
  currentRps : 0 ≤ gen.currentRps
  carry : 0 ≤ gen.carry

theorem ramp_nonneg (cfg : Config) (dt : ℚ) {target current : ℚ} (htarget : 0 ≤ target)
    (hcurrent : 0 ≤ current) : 0 ≤ ramp cfg dt target current := by
  have hstep (r : ℚ) : 0 ≤ current + max r 1 :=
    add_nonneg hcurrent (zero_le_one.trans (le_max_right r 1))
  rw [ramp]
  split_ifs
  · exact le_min htarget (hstep _)
  · exact le_min htarget (hstep _)
  · exact htarget
  · exact hcurrent

theorem Command.target_nonneg {cfg : Config} (hbaseline : 0 ≤ cfg.baselineRps)
    (hrush : 0 ≤ cfg.rushRps) (command : Command) : 0 ≤ command.target cfg := by
  cases command with
  | rush => exact hrush
  | baseline => exact hbaseline
  | stop => exact le_refl 0
  | control rps => exact le_max_left 0 rps

theorem nonneg_start {cfg : Config} (hbaseline : 0 ≤ cfg.baselineRps) :
    (Generator.start cfg).Nonneg := by
  rw [Generator.start]
  split
  · exact ⟨hbaseline, le_refl 0, le_refl 0⟩
  · exact ⟨le_refl 0, le_refl 0, le_refl 0⟩

/-- Configured rates that are not negative keep the target, the rate and the carry so. -/
theorem nonneg_act {cfg : Config} (hbaseline : 0 ≤ cfg.baselineRps) (hrush : 0 ≤ cfg.rushRps)
    {gen gen' : Generator} {action : Action} (h : act cfg gen action = some gen')
    (hgen : gen.Nonneg) : gen'.Nonneg := by
  obtain ⟨command, -, -, rfl⟩ | ⟨dt, -, hdt, rfl⟩ | ⟨-, -, -, rfl⟩ | ⟨-, -, -, -, -, -, rfl⟩ :=
    act_cases h
  · exact ⟨command.target_nonneg hbaseline hrush, hgen.currentRps, hgen.carry⟩
  · have hramp := ramp_nonneg cfg dt hgen.targetRps hgen.currentRps
    have hcarry := add_nonneg hgen.carry (mul_nonneg hramp hdt)
    refine ⟨hgen.targetRps, hramp, ?_⟩
    simp only [Generator.tick, truncate, if_pos hcarry]
    exact Int.fract_nonneg _
  · exact ⟨hgen.targetRps, hgen.currentRps, hgen.carry⟩
  · exact ⟨hgen.targetRps, hgen.currentRps, hgen.carry⟩

/-- Then an action adds exactly what comes due. -/
theorem load_act_eq {cfg : Config} {gen gen' : Generator} {action : Action}
    (h : act cfg gen action = some gen') (hgen : gen.Nonneg) :
    gen'.load + (if action.isFinish then 1 else 0) = gen.load + gen.rates.due cfg action := by
  by_cases htick : ∃ dt, action = .tick dt
  · obtain ⟨dt, rfl⟩ := htick
    obtain ⟨hdt, heq⟩ := Option.ite_none_right_eq_some.mp h
    obtain rfl := Option.some.inj heq
    have hramp := ramp_nonneg cfg dt hgen.targetRps hgen.currentRps
    have hcarry := add_nonneg hgen.carry (mul_nonneg hramp hdt)
    rw [Generator.load_tick]
    simp only [Action.isFinish, Rates.due, Generator.load, Generator.rates]
    rw [max_eq_right hramp, max_eq_right hgen.carry, max_eq_right hcarry]
    simp only [Bool.false_eq_true, if_false, add_zero]
    ring
  · rw [load_act_of_not_tick h htick, due_of_not_tick htick, add_zero]

/-! ### A whole run -/

variable {cfg : Config} (run : (system cfg).Execution)

theorem rates_state (n : ℕ) : (run.state n).rates = ratesOf cfg run.action n := by
  induction n with
  | zero =>
    rw [run.start]
    change (Generator.start cfg).rates = .start cfg
    rw [Generator.start, Rates.start]
    split <;> rfl
  | succ n ih => rw [rates_act (run.step n), ih, ratesOf]

/-- The semaphore bounds the requests in flight. -/
theorem inFlight_state_le (n : ℕ) : (run.state n).inFlight ≤ cfg.maxInflight := by
  have hguarded : (run.state n).Guarded cfg :=
    run.invariant (P := fun _ gen ↦ gen.Guarded cfg) (guarded_start cfg)
      (fun _ _ hgen hact ↦ guarded_act hact hgen) n
  exact hguarded ▸ Nat.le_add_left _ _

theorem load_start (cfg : Config) : (Generator.start cfg).load = 0 := by
  rw [Generator.start]
  split <;> simp [Generator.load, Generator.unfinished, Generator.setBaseline]

theorem finished_succ (actions : ℕ → Action) (n : ℕ) :
    (finished actions (n + 1) : ℚ) =
      finished actions n + if (actions n).isFinish then 1 else 0 := by
  rw [finished, Nat.count_succ]
  push_cast
  rfl

/-- What is unfinished was asked for and is not finished. -/
theorem load_le_asked (n : ℕ) :
    (run.state n).load ≤ asked cfg run.action n - finished run.action n := by
  induction n with
  | zero =>
    rw [run.start]
    exact (load_start cfg).le.trans (by simp [asked, finished])
  | succ n ih =>
    have hstep := load_act_le (run.step n)
    rw [rates_state] at hstep
    rw [asked, finished_succ]
    linarith

/-- With rates that are not negative, what was asked for and is not finished is unfinished, or is
carried over. -/
theorem load_eq_asked (hbaseline : 0 ≤ cfg.baselineRps) (hrush : 0 ≤ cfg.rushRps) (n : ℕ) :
    (run.state n).load = asked cfg run.action n - finished run.action n := by
  have hnonneg := run.invariant (P := fun _ gen ↦ gen.Nonneg) (nonneg_start hbaseline)
    fun _ _ hgen hact ↦ nonneg_act hbaseline hrush hact hgen
  induction n with
  | zero =>
    rw [run.start]
    exact (load_start cfg).trans (by simp [asked, finished])
  | succ n ih =>
    have hstep := load_act_eq (run.step n) (hnonneg n)
    rw [rates_state] at hstep
    rw [asked, finished_succ]
    linarith

theorem unfinished_le_load (gen : Generator) : (gen.unfinished : ℚ) ≤ gen.load :=
  le_add_of_nonneg_right (le_max_left 0 gen.carry)

theorem load_state_lt (n : ℕ) : (run.state n).load < (run.state n).unfinished + 1 := by
  have hstart : (Generator.start cfg).carry < 1 := by
    rw [Generator.start]
    split <;> exact one_pos
  have hcarry : (run.state n).carry < 1 :=
    run.invariant (P := fun _ gen ↦ gen.carry < 1) hstart
      (fun _ _ hgen hact ↦ carry_act_lt hact hgen) n
  exact add_lt_add_right (max_lt one_pos hcarry) _

/-- The requests in flight never exceed the limit of the semaphore. The unfinished tasks stay below
a bound in every run in which ingestion keeps up with the rates, and, when the configured rates are
not negative, in no other. -/
theorem backpressure_of_keepsUp (cfg : Config) (run : (system cfg).Execution) :
    (∀ n, (run.state n).inFlight ≤ cfg.maxInflight) ∧
      (KeepsUp cfg run.action → Backpressure cfg run) ∧
      (0 ≤ cfg.baselineRps → 0 ≤ cfg.rushRps → Backpressure cfg run → KeepsUp cfg run.action) := by
  refine ⟨inFlight_state_le run, fun ⟨bound, hbound⟩ ↦ ?_, fun hbaseline hrush hrun ↦ ?_⟩
  · refine ⟨inFlight_state_le run, ⌊bound⌋₊ + 1, fun n ↦ ?_⟩
    have hload := (unfinished_le_load _).trans ((load_le_asked run n).trans (hbound n))
    exact Nat.lt_succ_of_le (Nat.le_floor hload)
  · obtain ⟨bound, hbound⟩ := hrun.unfinished_lt
    refine ⟨bound, fun n ↦ ?_⟩
    have hlast : ((run.state n).unfinished : ℚ) + 1 ≤ bound := by exact_mod_cast hbound n
    rw [← load_eq_asked run hbaseline hrush]
    exact (load_state_lt run n).le.trans hlast

/-! ### A rush that ingestion cannot follow -/

/-- One request at a time, and twenty orders a second at once. -/
def narrow : Config where
  rushRps := 20
  rushRampSeconds := 1 / 10
  maxInflight := 1

/-- In every tenth of a second two orders come due and one is accepted by ingestion. -/
def rushLap : List Action :=
  [.command .rush, .tick (1 / 10), .acquire, .finish (some 201)]

/-- The generator after so many tenths of a second. -/
def rushed : ℕ → Generator
  | 0 => Generator.start narrow
  | k + 1 =>
    { targetRps := 20
      currentRps := 20
      mode := .rush
      sent := k + 1
      sem := 1
      waiting := k + 1 }

theorem run_rushLap (k : ℕ) : (system narrow).run (rushed k) rushLap = some (rushed (k + 1)) := by
  cases k with
  | zero => decide +kernel
  | succ k =>
    have hramp : ramp narrow (1 / 10) 20 20 = 20 := by decide +kernel
    have hdue : truncate (0 + 20 * (1 / 10)) = 2 := by decide +kernel
    have hcarry : (0 + 20 * (1 / 10) : ℚ) - (2 : ℤ) = 0 := by norm_num
    have hdt : (0 : ℚ) ≤ 1 / 10 := by norm_num
    have hrush : act narrow (rushed (k + 1)) (.command .rush) = some (rushed (k + 1)) := rfl
    have htick : act narrow (rushed (k + 1)) (.tick (1 / 10)) =
        some { rushed (k + 1) with waiting := k + 3 } := by
      simp only [act, if_pos hdt, Generator.tick, rushed, hramp, hdue, hcarry]
      rfl
    have hacquire : act narrow { rushed (k + 1) with waiting := k + 3 } .acquire =
        some { rushed (k + 1) with waiting := k + 2, sem := 0, inFlight := 1 } := by
      simp [act, Generator.acquire, rushed]
    have hfinish : act narrow { rushed (k + 1) with waiting := k + 2, sem := 0, inFlight := 1 }
        (.finish (some 201)) = some (rushed (k + 2)) := by
      simp [act, Generator.finish, rushed]
    simp only [rushLap, Transitions.run, system, hrush, htick, hacquire, hfinish, Option.bind_some]

def rushRun : (system narrow).Execution :=
  .ofLaps rushed rushLap (by decide) rfl run_rushLap

/-- In such a run the unfinished tasks exceed every bound. -/
theorem not_backpressure_rushRun : ¬ Backpressure narrow rushRun := by
  rintro ⟨-, bound, hbound⟩
  have hlap : rushRun.state (rushLap.length * (bound + 1)) = rushed (bound + 1) :=
    Transitions.Execution.state_ofLaps_mul _ _ _ _
  have hlt := hbound (rushLap.length * (bound + 1))
  rw [hlap] at hlt
  simp only [rushed, Generator.unfinished] at hlt
  omega

end DinnerRush.LoadGen
