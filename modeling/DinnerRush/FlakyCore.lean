import DinnerRush.Concurrency.FixedWindow
import Mathlib.Data.List.Chain

/-!
# The rate limiter of the flaky downstreams

`drcommon.downstream.FlakyCore.rate_limited`. A window is opened by the first request that comes a
second or more after the start of the last one, so the windows are not aligned to the clock and a
second may meet two of them. The first one started at `0.0` of a monotonic clock, whose value at the
first request is not promised to be positive. Times are exact.
-/

set_option autoImplicit false
set_option relaxedAutoImplicit false

namespace DinnerRush

open Concurrency

/-- The limiter's part of a `FlakyCore`, with the limit of its configuration. -/
structure FlakyCore where
  rateLimitRps : ℤ
  winStart : ℚ := 0
  winCount : ℤ := 0
  deriving DecidableEq, Repr

namespace FlakyCore

def rateLimited (core : FlakyCore) (now : ℚ) : Bool × FlakyCore :=
  let core :=
    if now - core.winStart ≥ 1 then { core with winStart := now, winCount := 0 } else core
  let core := { core with winCount := core.winCount + 1 }
  (core.winCount > core.rateLimitRps, core)

/-- A request, with the window that it was counted in. -/
structure Request where
  time : ℚ
  window : ℚ
  limited : Bool
  deriving DecidableEq, Repr

/-- What the limiter says to requests at these times. -/
def requests (core : FlakyCore) : List ℚ → List Request
  | [] => []
  | now :: later =>
    let (limited, core) := core.rateLimited now
    ⟨now, core.winStart, limited⟩ :: core.requests later

/-- The starts of the windows, from the current one on, in the order in which they are opened. -/
def windows (core : FlakyCore) : List ℚ → List ℚ
  | [] => [core.winStart]
  | now :: later =>
    let next := (core.rateLimited now).2
    if next.winStart = core.winStart then next.windows later
    else core.winStart :: next.windows later

/-- The requests that the limiter lets through. -/
def letThrough (core : FlakyCore) (times : List ℚ) : List Request :=
  (core.requests times).filter (!·.limited)

example : ((FlakyCore.mk 2 0 0).requests [0, 0, 0]).map (·.limited) = [false, false, true] := by
  decide +kernel

/-! ### What one request does -/

/-- A request is counted in the current window, or opens the next one. -/
theorem rateLimited_cases (core : FlakyCore) (now : ℚ) :
    (now < core.winStart + 1 ∧ core.rateLimited now =
      (decide (core.winCount + 1 > core.rateLimitRps),
        { core with winCount := core.winCount + 1 })) ∨
    (core.winStart + 1 ≤ now ∧ core.rateLimited now =
      (decide (1 > core.rateLimitRps), { core with winStart := now, winCount := 1 })) := by
  by_cases hopen : now - core.winStart ≥ 1
  · refine .inr ⟨by linarith, ?_⟩
    simp [rateLimited, hopen]
  · refine .inl ⟨by linarith, ?_⟩
    simp [rateLimited, hopen]

/-- The limit is not touched. -/
@[simp] theorem rateLimitRps_rateLimited (core : FlakyCore) (now : ℚ) :
    (core.rateLimited now).2.rateLimitRps = core.rateLimitRps := by
  obtain ⟨-, h⟩ | ⟨-, h⟩ := core.rateLimited_cases now <;> rw [h]

/-- A request is inside the window that it is counted in. -/
theorem lt_winStart_rateLimited (core : FlakyCore) (now : ℚ) :
    now < (core.rateLimited now).2.winStart + 1 := by
  obtain ⟨hlt, h⟩ | ⟨-, h⟩ := core.rateLimited_cases now
  · rw [h]
    exact hlt
  · rw [h]
    exact lt_add_one now

/-- A request keeps the window, or opens one at its own time, a second or more later. -/
theorem winStart_rateLimited (core : FlakyCore) (now : ℚ) :
    (core.rateLimited now).2.winStart = core.winStart ∨
      (core.rateLimited now).2.winStart = now ∧
        core.winStart + 1 ≤ (core.rateLimited now).2.winStart := by
  obtain ⟨-, h⟩ | ⟨hle, h⟩ := core.rateLimited_cases now
  · exact .inl (by rw [h])
  · exact .inr (by rw [h]; exact ⟨rfl, hle⟩)

theorem requests_cons (core : FlakyCore) (now : ℚ) (later : List ℚ) :
    core.requests (now :: later) =
      ⟨now, (core.rateLimited now).2.winStart, (core.rateLimited now).1⟩ ::
        (core.rateLimited now).2.requests later :=
  rfl

/-! ### The windows of a run -/

theorem windows_cases (core : FlakyCore) (times : List ℚ) :
    ∃ opened, core.windows times = core.winStart :: opened := by
  induction times generalizing core with
  | nil => exact ⟨[], rfl⟩
  | cons now later ih =>
    rw [windows]
    split
    · rename_i hsame
      rw [← hsame]
      exact ih _
    · exact ⟨_, rfl⟩

/-- Each window starts a second or more after the one before it. -/
theorem isChain_windows (core : FlakyCore) (times : List ℚ) :
    (core.windows times).IsChain (fun start next ↦ start + 1 ≤ next) := by
  induction times generalizing core with
  | nil => exact .singleton _
  | cons now later ih =>
    rw [windows]
    split
    · exact ih _
    · rename_i hopened
      obtain ⟨opened, hwindows⟩ := windows_cases (core.rateLimited now).2 later
      have hlater := (core.winStart_rateLimited now).resolve_left hopened
      have htail := ih (core.rateLimited now).2
      rw [hwindows] at htail ⊢
      exact .cons_cons hlater.2 htail

/-- A request is counted in one of the windows. -/
theorem window_mem_windows (core : FlakyCore) (times : List ℚ) :
    ∀ request ∈ core.requests times, request.window ∈ core.windows times := by
  induction times generalizing core with
  | nil => intro request hrequest; cases hrequest
  | cons now later ih =>
    intro request hrequest
    have hnext : request.window ∈ (core.rateLimited now).2.windows later := by
      rw [requests_cons] at hrequest
      obtain rfl | hrest := List.mem_cons.mp hrequest
      · obtain ⟨opened, hwindows⟩ := windows_cases (core.rateLimited now).2 later
        rw [hwindows]
        exact List.mem_cons_self
      · exact ih _ request hrest
    rw [windows]
    split
    · exact hnext
    · exact List.mem_cons_of_mem _ hnext

/-- Two windows of a run are one window, or a second or more apart. -/
theorem apart_of_mem_windows {core : FlakyCore} {times : List ℚ} {start next : ℚ}
    (hstart : start ∈ core.windows times) (hnext : next ∈ core.windows times)
    (hlt : start < next) : start + 1 ≤ next := by
  have htrans : IsTrans ℚ fun start next ↦ start + 1 ≤ next :=
    ⟨fun a b c hab hbc ↦ by linarith⟩
  have hpairs := (core.isChain_windows times).pairwise
  obtain ⟨i, hi, rfl⟩ := List.getElem_of_mem hstart
  obtain ⟨j, hj, rfl⟩ := List.getElem_of_mem hnext
  rcases lt_trichotomy i j with hij | rfl | hij
  · exact List.pairwise_iff_getElem.mp hpairs i j hi hj hij
  · exact absurd hlt (lt_irrefl _)
  · have hback := List.pairwise_iff_getElem.mp hpairs j i hj hi hij
    linarith

/-! ### What is let through -/

theorem letThrough_cons (core : FlakyCore) (now : ℚ) (later : List ℚ) :
    core.letThrough (now :: later) =
      if (core.rateLimited now).1 then (core.rateLimited now).2.letThrough later
      else ⟨now, (core.rateLimited now).2.winStart, false⟩ ::
        (core.rateLimited now).2.letThrough later := by
  rw [letThrough, requests_cons, List.filter_cons]
  cases (core.rateLimited now).1 <;> rfl

/-- What the limiter may still let through in the window that starts then. -/
def allowance (core : FlakyCore) (start : ℚ) : ℕ :=
  if start < core.winStart then 0
  else if start = core.winStart then (core.rateLimitRps - core.winCount).toNat
  else core.rateLimitRps.toNat

/-- A request that is let through uses one of its window's allowance, and no request adds to it. -/
theorem allowance_rateLimited (core : FlakyCore) (now start : ℚ) :
    (core.rateLimited now).2.allowance start +
        (if (core.rateLimited now).1 = false ∧ (core.rateLimited now).2.winStart = start then 1
          else 0) ≤ core.allowance start := by
  obtain ⟨-, h⟩ | ⟨hopen, h⟩ := core.rateLimited_cases now
  · rw [h]
    rcases lt_trichotomy start core.winStart with hbefore | rfl | hafter
    · simp [allowance, hbefore, hbefore.ne']
    · simp only [allowance, lt_irrefl, if_false, if_true, decide_eq_false_iff_not, and_true]
      split <;> omega
    · simp [allowance, hafter.ne, hafter.ne']
  · -- The window that is opened has its whole allowance, and the ones before it have none left.
    have hlater : core.winStart < now := lt_of_lt_of_le (lt_add_one _) hopen
    rw [h]
    rcases lt_trichotomy start now with hbefore | rfl | hafter
    · simp [allowance, hbefore, hbefore.ne']
    · simp only [allowance, lt_irrefl, if_false, if_true, decide_eq_false_iff_not, and_true,
        not_lt_of_gt hlater, hlater.ne']
      split <;> omega
    · have hmuch : core.winStart < start := hlater.trans hafter
      simp [allowance, hafter.ne, hafter.ne', not_lt_of_gt hafter, hmuch.ne', not_lt_of_gt hmuch]

/-- In each window no more is let through than its allowance. -/
theorem countP_window_le_allowance (core : FlakyCore) (times : List ℚ) (start : ℚ) :
    (core.letThrough times).countP (·.window = start) ≤ core.allowance start := by
  induction times generalizing core with
  | nil => exact Nat.zero_le _
  | cons now later ih =>
    have hlater := ih (core.rateLimited now).2
    have hstep := core.allowance_rateLimited now start
    rw [letThrough_cons]
    cases hlimited : (core.rateLimited now).1 with
    | true => exact hlater.trans (le_trans (Nat.le_add_right _ _) hstep)
    | false =>
      rw [hlimited] at hstep
      simp only [Bool.false_eq_true, if_false, List.countP_cons, decide_eq_true_eq]
      simp only [true_and] at hstep
      omega

/-! ### The requests of a run -/

@[simp] theorem time_requests (core : FlakyCore) (times : List ℚ) :
    (core.requests times).map (·.time) = times := by
  induction times generalizing core with
  | nil => rfl
  | cons now later ih => exact congrArg (now :: ·) (ih _)

/-- A request comes less than a second after the start of its window. -/
theorem lt_window_of_mem (core : FlakyCore) (times : List ℚ) :
    ∀ request ∈ core.requests times, request.time < request.window + 1 := by
  induction times generalizing core with
  | nil => intro request hrequest; cases hrequest
  | cons now later ih =>
    intro request hrequest
    rw [requests_cons] at hrequest
    obtain rfl | hrest := List.mem_cons.mp hrequest
    · exact core.lt_winStart_rateLimited now
    · exact ih _ request hrest

/-- Among requests in the order of their times, only those of the current window may be earlier than
the start of their window. -/
theorem window_le_of_mem (core : FlakyCore) (times : List ℚ) (htimes : times.Pairwise (· ≤ ·)) :
    ∀ request ∈ core.requests times,
      request.window = core.winStart ∨
        core.winStart < request.window ∧ request.window ≤ request.time := by
  induction times generalizing core with
  | nil => intro request hrequest; cases hrequest
  | cons now later ih =>
    obtain ⟨hnow, hlater⟩ := List.pairwise_cons.mp htimes
    intro request hrequest
    rw [requests_cons] at hrequest
    have hwindow := core.winStart_rateLimited now
    obtain rfl | hrest := List.mem_cons.mp hrequest
    · refine hwindow.imp_right fun ⟨hstart, happart⟩ ↦ ?_
      exact ⟨lt_of_lt_of_le (lt_add_one _) happart, hstart.le⟩
    · have htime : now ≤ request.time := by
        refine hnow _ ?_
        rw [← time_requests (core.rateLimited now).2 later]
        exact List.mem_map_of_mem hrest
      -- The window of a later request is the one left by this one, or was opened after it.
      obtain hsame | ⟨hlt, hle⟩ := ih _ hlater request hrest
      · rw [hsame]
        refine hwindow.imp_right fun ⟨hstart, happart⟩ ↦ ?_
        exact ⟨lt_of_lt_of_le (lt_add_one _) happart, hstart.le.trans htime⟩
      · obtain hstart | ⟨-, happart⟩ := hwindow
        · exact .inr ⟨hstart ▸ hlt, hle⟩
        · exact .inr ⟨by linarith, hle⟩

/-- The requests of a run are events of windows of a second at least. -/
theorem windowed_requests (core : FlakyCore) (times : List ℚ) (htimes : times.Pairwise (· ≤ ·)) :
    Windowed 1 ((core.requests times).map fun request ↦ ⟨request.time, request.window⟩) where
  apart := by
    simp only [List.forall_mem_map]
    intro first hfirst next hnext hlt
    exact apart_of_mem_windows (core.window_mem_windows times first hfirst)
      (core.window_mem_windows times next hnext) hlt
  inside := by
    simp only [List.forall_mem_map]
    exact core.lt_window_of_mem times
  opened := by
    simp only [List.forall_mem_map]
    intro first hfirst next hnext hlt
    have hfirst := core.window_le_of_mem times htimes first hfirst
    have hnext := core.window_le_of_mem times htimes next hnext
    rcases hnext with hcurrent | ⟨-, hle⟩
    · rcases hfirst with hsame | ⟨hafter, -⟩ <;> linarith
    · exact hle

/-! ### The bounds -/

/-- What the limiter promises of the requests that it is asked about at these times. -/
structure RateBounded (core : FlakyCore) (times : List ℚ) : Prop where
  counted : ∀ request ∈ core.requests times, request.window ∈ core.windows times
  perWindow : ∀ start, ((core.letThrough times).countP (·.window = start) : ℤ) ≤ core.rateLimitRps
  apart : (core.windows times).IsChain fun start next ↦ start + 1 ≤ next
  perSecond : ∀ t : ℚ, ((core.letThrough times).countP fun request ↦
    t ≤ request.time ∧ request.time < t + 1 : ℤ) ≤ 2 * core.rateLimitRps

/-- With a limit that is not negative, a new limiter lets at most the limit through in each window,
opens windows a second or more apart, and lets at most twice the limit through in any second. -/
theorem rateBounded_of_pairwise (rate : ℤ) (hrate : 0 ≤ rate) (times : List ℚ)
    (htimes : times.Pairwise (· ≤ ·)) :
    RateBounded { rateLimitRps := rate } times := by
  let core : FlakyCore := { rateLimitRps := rate }
  have hwindow : ∀ start, (core.letThrough times).countP (·.window = start) ≤ rate.toNat := by
    intro start
    refine (core.countP_window_le_allowance times start).trans ?_
    rw [allowance]
    split_ifs <;> simp [core]
  have hrequests : Windowed 1 ((core.letThrough times).map fun request ↦
      ⟨request.time, request.window⟩) :=
    (core.windowed_requests times htimes).mono (List.map_subset _ (List.filter_subset_self _))
  refine ⟨core.window_mem_windows times, fun start ↦ ?_, core.isChain_windows times, fun t ↦ ?_⟩
  · exact Int.le_trans (Int.ofNat_le.mpr (hwindow start)) (Int.toNat_of_nonneg hrate).le
  · have hstamps : ∀ start, ((core.letThrough times).map fun request ↦
        (⟨request.time, request.window⟩ : Stamp ℚ)).countP (·.window = start) ≤ rate.toNat := by
      simpa [List.countP_map, Function.comp_def] using hwindow
    have hsecond := hrequests.countP_le hstamps t
    rw [List.countP_map] at hsecond
    have hrate' : (2 * rate.toNat : ℤ) = 2 * rate := by rw [Int.toNat_of_nonneg hrate]
    exact le_trans (Int.ofNat_le.mpr hsecond) hrate'.le

theorem rateBounded_of_pairwise_witness :
    RateBounded { rateLimitRps := 2 } [1 / 2, 1 / 2, 9 / 10, 1, 1, 3 / 2, 21 / 10] ∧
      (FlakyCore.letThrough { rateLimitRps := 2 } [1 / 2, 1 / 2, 9 / 10, 1, 1, 3 / 2, 21 / 10]).map
        (·.time) = [1 / 2, 1 / 2, 1, 1, 21 / 10] :=
  ⟨rateBounded_of_pairwise 2 (by decide) _ (by decide +kernel), by decide +kernel⟩

end FlakyCore

end DinnerRush
