import DinnerRush.Concurrency.Transitions
import DinnerRush.HttpClient
import Mathlib.Algebra.Order.Ring.Rat
import Mathlib.Tactic.Linarith

/-!
# Concurrent calls through one circuit breaker

`drcommon.http_client`: the `CircuitBreaker` as the code has it, and any number of `post_json` calls
of one `ResilientClient`, interleaved at their awaits. A call waits for the answer to a post or
sleeps; between two awaits it runs without interruption, and what it tells the breaker there is at
most one `Report` (`resume`; `begun` for a client without attempts). Time is `time.monotonic`, which
every step but `wait` leaves alone.

The world remembers of each call whether it was admitted as the half-open probe, how often the
breaker had tripped by then, and what it has reported.
-/

set_option autoImplicit false
set_option relaxedAutoImplicit false

namespace DinnerRush.ResilientClient

open Concurrency

/-! ### The breaker -/

inductive BreakerState
  | closed
  | opened
  | halfOpen
  deriving DecidableEq, Repr

structure Config where
  name : String
  maxRetries : ℤ
  failThreshold : ℤ
  openSeconds : ℚ

structure CircuitBreaker where
  state : BreakerState := .closed
  failures : ℕ := 0
  openedAt : ℚ := 0
  probeInflight : Bool := false
  deriving DecidableEq, Repr

/-- What a call reports to the breaker. -/
inductive Report
  | success
  | failure
  deriving DecidableEq, Repr

namespace CircuitBreaker

variable (cfg : Config) (now : ℚ) (breaker : CircuitBreaker)

/-- The half-open branch of `allow`: admit a single probe, reject the rest. -/
def admitProbe : Bool × CircuitBreaker :=
  if breaker.probeInflight then (false, breaker)
  else (true, { breaker with probeInflight := true })

def allow : Bool × CircuitBreaker :=
  match breaker.state with
  | .closed => (true, breaker)
  | .opened =>
    if cfg.openSeconds ≤ now - breaker.openedAt then
      { breaker with state := .halfOpen, probeInflight := false }.admitProbe
    else (false, breaker)
  | .halfOpen => breaker.admitProbe

def recordSuccess : CircuitBreaker :=
  { breaker with failures := 0, probeInflight := false, state := .closed }

def trip : CircuitBreaker :=
  { breaker with state := .opened, openedAt := now, probeInflight := false }

def recordFailure : CircuitBreaker :=
  if breaker.state = .halfOpen then breaker.trip now
  else
    let counted := { breaker with failures := breaker.failures + 1 }
    if cfg.failThreshold ≤ counted.failures then counted.trip now else counted

def record : Report → CircuitBreaker
  | .success => breaker.recordSuccess
  | .failure => breaker.recordFailure cfg now

/-- Recording the outcome runs `_trip`. -/
def trips : Report → Bool
  | .success => false
  | .failure => breaker.state = .halfOpen || cfg.failThreshold ≤ breaker.failures + 1

end CircuitBreaker

/-! ### A call -/

/-- Where a call waits, in which attempt. -/
inductive Call
  | posting (attempt : ℕ)
  | sleeping (attempt : ℕ)
  deriving DecidableEq, Repr

/-- What an await gives. Raised is whatever `post_json` does not catch: an error of `httpx` that is
neither a timeout nor a transport error, an error of `asyncio.sleep`, or the cancellation of the
task. -/
inductive Reply
  | response (response : HttpResponse)
  | transient (text : String)
  | woken
  | raised (text : String)
  deriving DecidableEq, Repr

inductive Status
  | running (call : Call)
  | ended (result : Except Failure Json)

def Status.isRunning : Status → Bool
  | running _ => true
  | ended _ => false

section

variable (cfg : Config)

/-- The attempts of a call, none of them when `max_retries` is negative. -/
def attempts : ℕ := (cfg.maxRetries + 1).toNat

/-- The end of `post_json`, after the loop. -/
def exhausted (lastExc : String) : Status × Option Report :=
  (.ended (.error (.transientExhausted lastExc)), some .failure)

/-- `asyncio.sleep` of a delay that may not be there. -/
def pause (attempt : ℕ) : Except Failure Unit → Status × Option Report
  | .ok () => (.running (.sleeping attempt), none)
  | .error failure => (.ended (.error failure), none)

/-- A 5xx, a timeout or a transport error: sleep and try again, unless this was the last attempt. -/
def again (attempt : ℕ) (lastExc : String) : Status × Option Report :=
  if attempt < attempts cfg then pause attempt (backoff attempt) else exhausted lastExc

/-- A 429. The delay is computed before it is known whether there is another attempt. -/
def rateLimited (attempt : ℕ) (retryAfter : Option ℚ) : Status × Option Report :=
  match retryDelay attempt retryAfter with
  | .ok () =>
    if attempt < attempts cfg then pause attempt (.ok ()) else exhausted "rate limited (429)"
  | .error failure => (.ended (.error failure), none)

/-- `resp.json()`. -/
def parse (response : HttpResponse) : Except Failure Json :=
  match response.json with
  | some json => .ok json
  | none => .error (.error "response is not JSON")

def receive (attempt : ℕ) (response : HttpResponse) : Status × Option Report :=
  if response.statusCode < 300 then (.ended (parse response), some .success)
  else if response.statusCode = 429 then rateLimited cfg attempt response.retryAfter
  else if 500 ≤ response.statusCode then again cfg attempt s!"downstream {response.statusCode}"
  else (.ended (.error (.permanentError response.statusCode)), some .success)

/-- From the admission of a call to its first await, or to its end. -/
def begun : Status × Option Report :=
  if 0 < attempts cfg then (.running (.posting 1), none) else exhausted "exhausted"

/-- What a call does that `allow` has answered. -/
def answered (allowed : Bool) : Status × Option Report :=
  if allowed then begun cfg
  else (.ended (.error (.breakerOpen s!"{cfg.name} circuit open")), none)

/-- From the end of an await to the next one, or to the end of the call. -/
def resume : Call → Reply → Option (Status × Option Report)
  | .posting attempt, .response response => some (receive cfg attempt response)
  | .posting attempt, .transient text => some (again cfg attempt text)
  | .sleeping attempt, .woken => some (.running (.posting (attempt + 1)), none)
  | _, .raised text => some (.ended (.error (.error text)), none)
  | _, _ => none

/-- `_backoff` is called for the delay after the attempt: after a 429 without a `Retry-After` other
than zero, and after a 5xx, a timeout or a transport error unless the attempt is the last. -/
def backsOff (attempt : ℕ) : Reply → Bool
  | .response response =>
    if response.statusCode = 429 then
      decide (response.retryAfter = none ∨ response.retryAfter = some 0)
    else decide (500 ≤ response.statusCode ∧ attempt < attempts cfg)
  | .transient _ => decide (attempt < attempts cfg)
  | _ => false

/-- The delay after the attempt is no float. -/
def overflows (attempt : ℕ) (reply : Reply) : Bool :=
  backsOff cfg attempt reply && decide (1024 < attempt)

end

/-! ### The calls of a client -/

inductive Admission
  | rejected
  | regular
  | probe
  deriving DecidableEq, Repr

/-- A call: how `allow` has answered, how often the breaker had tripped before, how far the call is,
and what it has reported. -/
structure Entry where
  admission : Admission
  trips : ℕ
  status : Status
  reports : List Report

/-- The call is a half-open probe that is still unfinished. -/
def Entry.probing (entry : Entry) : Bool :=
  entry.admission = .probe && entry.status.isRunning

structure World where
  breaker : CircuitBreaker
  now : ℚ
  trips : ℕ
  calls : List Entry

inductive Action
  | start
  | resume (number : ℕ) (reply : Reply)
  | wait (seconds : ℚ)
  deriving DecidableEq

namespace World

variable (cfg : Config) (w : World)

def probing (number : ℕ) : Bool := w.calls[number]?.any Entry.probing

/-- The world after a report, if there is one. -/
def record : Option Report → World
  | none => w
  | some report => { w with
      breaker := w.breaker.record cfg w.now report
      trips := if w.breaker.trips cfg report then w.trips + 1 else w.trips }

/-- What a call becomes that `allow` has answered. -/
def entered (answer : Bool × CircuitBreaker) : Entry where
  admission :=
    if answer.1 then
      if answer.2.state = .halfOpen then .probe else .regular
    else .rejected
  trips := w.trips
  status := (answered cfg answer.1).1
  reports := (answered cfg answer.1).2.toList

def start : World :=
  let answer := w.breaker.allow cfg w.now
  { { w with breaker := answer.2 }.record cfg (answered cfg answer.1).2 with
    calls := w.calls ++ [w.entered cfg answer] }

/-- The call goes on to its next status. -/
def advance (number : ℕ) (entry : Entry) (next : Status × Option Report) : World :=
  { w.record cfg next.2 with
    calls := w.calls.set number
      { entry with status := next.1, reports := entry.reports ++ next.2.toList } }

/-- What the call would do with the reply. -/
def reaction (number : ℕ) (reply : Reply) : Option (Entry × Status × Option Report) :=
  match w.calls[number]? with
  | some entry =>
    match entry.status with
    | .running call => (ResilientClient.resume cfg call reply).map fun next ↦ (entry, next)
    | .ended _ => none
  | none => none

def act : Action → Option World
  | .start => some (w.start cfg)
  | .resume number reply =>
    (w.reaction cfg number reply).map fun reaction ↦ w.advance cfg number reaction.1 reaction.2
  | .wait seconds => if 0 ≤ seconds then some { w with now := w.now + seconds } else none

end World

/-- A client and its calls, from the time it was made. -/
def client (cfg : Config) (madeAt : ℚ) : Transitions World Action where
  start := ⟨{}, madeAt, 0, []⟩
  act := World.act cfg

/-! ### What one step does -/

section

variable {cfg : Config} {call : Call} {reply : Reply} {status : Status} {report : Report}

theorem pause_silent (attempt : ℕ) (delay : Except Failure Unit) :
    (pause attempt delay).2 = none := by
  cases delay <;> rfl

theorem again_report {attempt : ℕ} {lastExc : String}
    (h : again cfg attempt lastExc = (status, some report)) : status.isRunning = false := by
  unfold again at h
  split at h
  · have hsilent := pause_silent attempt (backoff attempt)
    rw [h] at hsilent
    cases hsilent
  · obtain ⟨rfl, -⟩ := Prod.mk.inj h
    rfl

theorem rateLimited_report {attempt : ℕ} {retryAfter : Option ℚ}
    (h : rateLimited cfg attempt retryAfter = (status, some report)) :
    status.isRunning = false := by
  unfold rateLimited at h
  split at h
  · split at h
    · cases h
    · obtain ⟨rfl, -⟩ := Prod.mk.inj h
      rfl
  · cases h

/-- A call that reports ends with it. -/
theorem resume_report (h : resume cfg call reply = some (status, some report)) :
    status.isRunning = false := by
  cases call <;> cases reply <;> simp only [resume, Option.some.injEq, reduceCtorEq] at h
  · unfold receive at h
    split_ifs at h
    · obtain ⟨rfl, -⟩ := Prod.mk.inj h
      rfl
    · exact rateLimited_report h
    · exact again_report h
    · obtain ⟨rfl, -⟩ := Prod.mk.inj h
      rfl
  · exact again_report h
  · cases h
  · cases h
  · cases h

/-- The call has ended without a report. -/
def Unreported (next : Status × Option Report) : Prop :=
  next.1.isRunning = false ∧ next.2 = none

theorem unreported_again_iff {attempt : ℕ} {lastExc : String} :
    Unreported (again cfg attempt lastExc) ↔ attempt < attempts cfg ∧ 1024 < attempt := by
  unfold again
  by_cases hmore : attempt < attempts cfg
  · rw [if_pos hmore]
    by_cases hsoon : attempt ≤ 1024
    · simp [backoff_of_le hsoon, pause, Unreported, Status.isRunning, hsoon]
    · simp [backoff_of_lt (not_le.mp hsoon), pause, Unreported, Status.isRunning, hmore,
        not_le.mp hsoon]
  · simp [hmore, exhausted, Unreported]

theorem unreported_rateLimited_iff {attempt : ℕ} {retryAfter : Option ℚ} :
    Unreported (rateLimited cfg attempt retryAfter) ↔
      (retryAfter = none ∨ retryAfter = some 0) ∧ 1024 < attempt := by
  have hgoes : retryDelay attempt retryAfter = .ok () →
      ¬ Unreported (rateLimited cfg attempt retryAfter) := by
    intro hdelay
    unfold rateLimited
    rw [hdelay]
    by_cases hmore : attempt < attempts cfg
    · simp [hmore, pause, Unreported, Status.isRunning]
    · simp [hmore, exhausted, Unreported]
  by_cases hback : retryAfter = none ∨ retryAfter = some 0
  · by_cases hsoon : attempt ≤ 1024
    · have hnot := hgoes ((retryDelay_eq_backoff hback).trans (backoff_of_le hsoon))
      exact iff_of_false hnot fun h ↦ absurd hsoon (not_le.mpr h.2)
    · refine iff_of_true ?_ ⟨hback, not_le.mp hsoon⟩
      unfold rateLimited
      rw [retryDelay_eq_backoff hback, backoff_of_lt (not_le.mp hsoon)]
      exact ⟨rfl, rfl⟩
  · exact iff_of_false (hgoes (retryDelay_eq_ok hback)) fun h ↦ hback h.1

theorem unreported_receive_iff {attempt : ℕ} {response : HttpResponse} :
    Unreported (receive cfg attempt response) ↔
      overflows cfg attempt (.response response) = true := by
  unfold receive overflows backsOff
  by_cases hsuccess : response.statusCode < 300
  · have hnot : response.statusCode ≠ 429 := by omega
    have hbelow : ¬ 500 ≤ response.statusCode := by omega
    simp [hsuccess, hnot, hbelow, Unreported]
  · by_cases h429 : response.statusCode = 429
    · rw [if_neg hsuccess, if_pos h429, unreported_rateLimited_iff]
      simp [h429]
    · by_cases hserver : 500 ≤ response.statusCode
      · rw [if_neg hsuccess, if_neg h429, if_pos hserver, unreported_again_iff]
        simp [h429, hserver]
      · simp [hsuccess, h429, hserver, Unreported]

/-- Only what `post_json` does not catch, and a delay that is no float, end a call without a
report. -/
theorem resume_unreported_iff {next : Status × Option Report}
    (h : resume cfg call reply = some next) : Unreported next ↔ (∃ text, reply = .raised text) ∨
      ∃ attempt, call = .posting attempt ∧ overflows cfg attempt reply = true := by
  cases call with
  | posting attempt =>
    cases reply with
    | response response =>
      rw [← Option.some.inj h, unreported_receive_iff]
      simp
    | transient text =>
      rw [← Option.some.inj h, unreported_again_iff]
      simp [overflows, backsOff]
    | woken => cases h
    | raised text =>
      rw [← Option.some.inj h]
      exact iff_of_true ⟨rfl, rfl⟩ (Or.inl ⟨text, rfl⟩)
  | sleeping attempt =>
    cases reply with
    | woken =>
      rw [← Option.some.inj h]
      simp [Unreported, Status.isRunning]
    | raised text =>
      rw [← Option.some.inj h]
      exact iff_of_true ⟨rfl, rfl⟩ (Or.inl ⟨text, rfl⟩)
    | response response => cases h
    | transient text => cases h

end

end DinnerRush.ResilientClient
