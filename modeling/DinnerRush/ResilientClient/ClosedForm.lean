import DinnerRush.ResilientClient.Probe
import Mathlib.Data.List.Induction

/-!
# The breaker in closed form

When calls do not overlap, what `allow` answers is a statement about what was recorded: the breaker
admits a call exactly if the failures since the last success are fewer than the threshold, or the
last of them is older than the cooldown (`allow_iff`). Three states, the counter, the time of the
trip and the probe flag say no more than that.
-/

set_option autoImplicit false
set_option relaxedAutoImplicit false

namespace DinnerRush.ResilientClient

/-! ### A history -/

/-- What is asked of a breaker, or told to it. -/
inductive Event
  | allow (now : ℚ)
  | record (now : ℚ) (report : Report)
  deriving DecidableEq, Repr

/-- The breaker after an event. -/
def CircuitBreaker.handle (cfg : Config) (breaker : CircuitBreaker) : Event → CircuitBreaker
  | .allow now => (breaker.allow cfg now).2
  | .record now report => breaker.record cfg now report

/-- The breaker of a new client, after its history. -/
def breakerAfter (cfg : Config) (history : List Event) : CircuitBreaker :=
  history.foldl (CircuitBreaker.handle cfg) {}

/-- The history begins with the record of a call. -/
def recordsFirst : List Event → Bool
  | .record _ _ :: _ => true
  | _ => false

/-- Every call that the breaker admits is recorded before the next one asks. -/
def Sequential (cfg : Config) : CircuitBreaker → List Event → Prop
  | _, [] => True
  | breaker, .allow now :: rest =>
    ((breaker.allow cfg now).1 = true → recordsFirst rest = true) ∧
      Sequential cfg (breaker.allow cfg now).2 rest
  | breaker, .record now report :: rest => Sequential cfg (breaker.record cfg now report) rest

/-- The failed calls since the last success, and the time of the last of them. -/
structure Failures where
  trailing : ℕ := 0
  last : Option ℚ := none
  deriving DecidableEq, Repr

def Failures.handle (failures : Failures) : Event → Failures
  | .allow _ => failures
  | .record _ .success => { failures with trailing := 0 }
  | .record now .failure => ⟨failures.trailing + 1, some now⟩

def failuresOf (history : List Event) : Failures := history.foldl Failures.handle {}

/-! ### The breaker says what was recorded -/

variable {cfg : Config} {breaker : CircuitBreaker} {failures : Failures}

/-- What the state of a breaker says about what was recorded. After a trip the counter is at the
threshold or above, and it stays there through every cycle of open and half-open. -/
structure Tells (cfg : Config) (breaker : CircuitBreaker) (failures : Failures) : Prop where
  closed : breaker.state = .closed →
    breaker.failures = failures.trailing ∧ failures.trailing < cfg.failThreshold
  tripped : breaker.state ≠ .closed →
    cfg.failThreshold ≤ breaker.failures ∧ cfg.failThreshold ≤ failures.trailing
  opened : breaker.state = .opened → failures.last = some breaker.openedAt

theorem tells_initial (hthreshold : 1 ≤ cfg.failThreshold) : Tells cfg {} {} where
  closed _ := ⟨rfl, hthreshold⟩
  tripped hstate := absurd rfl hstate
  opened hstate := by cases hstate

theorem Tells.allow (h : Tells cfg breaker failures) (now : ℚ) :
    Tells cfg (breaker.allow cfg now).2 failures := by
  cases hok : (breaker.allow cfg now).1 with
  | false => rwa [allow_rejects hok]
  | true =>
    rcases allow_admits hok with ⟨-, hsame⟩ | ⟨hnotclosed, -, hprobe⟩
    · rwa [hsame]
    · rw [hprobe]
      have htripped := h.tripped hnotclosed
      refine ⟨fun hstate ↦ ?_, fun _ ↦ htripped, fun hstate ↦ ?_⟩
      · cases hstate
      · cases hstate

theorem tells_success (hthreshold : 1 ≤ cfg.failThreshold) :
    Tells cfg breaker.recordSuccess { failures with trailing := 0 } where
  closed _ := ⟨rfl, hthreshold⟩
  tripped hstate := absurd rfl hstate
  opened hstate := by cases hstate

theorem Tells.failure (h : Tells cfg breaker failures) (now : ℚ) :
    Tells cfg (breaker.recordFailure cfg now) ⟨failures.trailing + 1, some now⟩ := by
  have hmore : ∀ {count : ℕ}, cfg.failThreshold ≤ count → cfg.failThreshold ≤ (count + 1 : ℕ) :=
    fun hcount ↦ hcount.trans (Int.ofNat_le.mpr (Nat.le_succ _))
  unfold CircuitBreaker.recordFailure
  by_cases hhalf : breaker.state = .halfOpen
  · -- The counter stays where the trip has left it.
    obtain ⟨hcounter, htrailing⟩ := h.tripped (by simp [hhalf])
    rw [if_pos hhalf]
    refine ⟨fun hstate ↦ ?_, fun _ ↦ ⟨hcounter, hmore htrailing⟩, fun _ ↦ rfl⟩
    cases hstate
  · rw [if_neg hhalf]
    by_cases hthreshold : cfg.failThreshold ≤ (breaker.failures + 1 : ℕ)
    · simp only [if_pos hthreshold]
      refine ⟨fun hstate ↦ (by cases hstate), fun _ ↦ ⟨hthreshold, ?_⟩, fun _ ↦ rfl⟩
      by_cases hclosed : breaker.state = .closed
      · rw [← (h.closed hclosed).1]
        exact hthreshold
      · exact hmore (h.tripped hclosed).2
    · simp only [if_neg hthreshold]
      have hclosed : breaker.state = .closed := by
        by_contra hnot
        exact hthreshold (hmore (h.tripped hnot).1)
      have hcounter := (h.closed hclosed).1
      refine ⟨fun _ ↦ ⟨congrArg (· + 1) hcounter, ?_⟩, fun hstate ↦ absurd hclosed hstate,
        fun hstate ↦ ?_⟩
      · rw [← hcounter]
        exact not_le.mp hthreshold
      · simp [hclosed] at hstate

theorem Tells.handle (hthreshold : 1 ≤ cfg.failThreshold) (h : Tells cfg breaker failures)
    (event : Event) : Tells cfg (breaker.handle cfg event) (failures.handle event) := by
  cases event with
  | allow now => exact h.allow now
  | record now report =>
    cases report with
    | success => exact tells_success hthreshold
    | failure => exact h.failure now

theorem tells_after (hthreshold : 1 ≤ cfg.failThreshold) (history : List Event) :
    Tells cfg (breakerAfter cfg history) (failuresOf history) := by
  unfold breakerAfter failuresOf
  induction history using List.reverseRecOn with
  | nil => exact tells_initial hthreshold
  | append_singleton events event ih =>
    rw [List.foldl_concat, List.foldl_concat]
    exact ih.handle hthreshold event

/-- A half-open breaker has just admitted a call. -/
theorem Sequential.rests {history : List Event} (h : Sequential cfg breaker history)
    (hstart : breaker.state = .halfOpen → recordsFirst history = true) :
    (history.foldl (CircuitBreaker.handle cfg) breaker).state ≠ .halfOpen := by
  induction history generalizing breaker with
  | nil => exact fun hhalf ↦ by cases hstart hhalf
  | cons event rest ih =>
    cases event with
    | allow now =>
      refine ih h.2 fun hhalf ↦ h.1 ?_
      change (breaker.allow cfg now).2.state = .halfOpen at hhalf
      rcases @allow_cases cfg breaker now with ⟨-, hallow⟩ | ⟨-, -, hallow⟩ |
        ⟨hopened, -, hallow⟩ | ⟨hbefore, -, -⟩ | ⟨hbefore, -, -⟩
      · rw [hallow]
      · rw [hallow]
      · rw [hallow] at hhalf
        simp [hopened] at hhalf
      · cases hstart hbefore
      · cases hstart hbefore
    | record now report =>
      exact ih h fun hhalf ↦ absurd hhalf (record_cases breaker now report).1

/-- **The closed form of the breaker**, after any history of calls that do not overlap. -/
theorem allow_iff (hthreshold : 1 ≤ cfg.failThreshold) {history : List Event}
    (hsequential : Sequential cfg {} history) (now : ℚ) :
    ((breakerAfter cfg history).allow cfg now).1 = true ↔
      (failuresOf history).trailing < cfg.failThreshold ∨
        ∃ last ∈ (failuresOf history).last, cfg.openSeconds ≤ now - last := by
  have htells := tells_after hthreshold history
  have hrests : (breakerAfter cfg history).state ≠ .halfOpen :=
    hsequential.rests fun hhalf ↦ by cases hhalf
  rcases @allow_cases cfg (breakerAfter cfg history) now with ⟨hclosed, hallow⟩ |
    ⟨hopened, hcooled, hallow⟩ | ⟨hopened, hearly, hallow⟩ | ⟨hhalf, -, -⟩ | ⟨hhalf, -, -⟩
  · simp [hallow, (htells.closed hclosed).2]
  · simp [hallow, htells.opened hopened, hcooled]
  · have htrailing := (htells.tripped (by simp [hopened])).2
    simp [hallow, htells.opened hopened, hearly, htrailing]
  · exact absurd hhalf hrests
  · exact absurd hhalf hrests

/-- A breaker with a threshold of two and a cooldown of five seconds. -/
def courier : Config where
  name := "courier"
  maxRetries := 3
  failThreshold := 2
  openSeconds := 5

/-- Two failures, a call that is rejected, and a probe that fails. -/
def cycled : List Event :=
  [.allow 0, .record 1 .failure, .allow 1, .record 2 .failure, .allow 4, .allow 7,
   .record 9 .failure]

instance sequentialDecidable (cfg : Config) : ∀ breaker history,
    Decidable (Sequential cfg breaker history)
  | _, [] => .isTrue trivial
  | breaker, .allow now :: rest =>
    haveI := sequentialDecidable cfg (breaker.allow cfg now).2 rest
    inferInstanceAs (Decidable (_ ∧ _))
  | breaker, .record now report :: rest =>
    sequentialDecidable cfg (breaker.record cfg now report) rest

/-- The probe has moved the end of the cooldown from 7 to 14. -/
theorem allow_iff_cycled :
    ((breakerAfter courier cycled).allow courier 13).1 = false ∧
      ((breakerAfter courier cycled).allow courier 14).1 = true := by
  have hsequential : Sequential courier {} cycled := by decide +kernel
  constructor
  · rw [← Bool.not_eq_true, allow_iff (by decide) hsequential]
    decide +kernel
  · rw [allow_iff (by decide) hsequential]
    decide +kernel

end DinnerRush.ResilientClient
