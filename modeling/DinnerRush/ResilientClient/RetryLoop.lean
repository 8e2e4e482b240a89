import DinnerRush.ResilientClient.System

/-!
# The retry loop

One admitted call of `post_json` over the outcomes of its attempts, with the counters of
`CallStats`. The first decisive response ends the loop, and without one the attempts are exhausted,
unless there are none or `_backoff` raises, as it does from the 1025th attempt on
(`retryLoop_iff`).
-/

set_option autoImplicit false
set_option relaxedAutoImplicit false

namespace DinnerRush.ResilientClient

/-! ### The loop -/

/-- `CallStats`, without the latencies. -/
structure CallStats where
  calls : ℕ := 0
  successes : ℕ := 0
  failures : ℕ := 0
  rateLimited : ℕ := 0
  retries : ℕ := 0
  deriving DecidableEq, Repr

/-- What a post gives: a response, or a timeout or transport error. -/
inductive Outcome
  | response (response : HttpResponse)
  | transient (text : String)
  deriving DecidableEq, Repr

/-- The reply that the await of the post gives. -/
def Outcome.reply : Outcome → Reply
  | .response resp => .response resp
  | .transient text => .transient text

/-- How an attempt ends: with a sleep before the next, or with the call. -/
inductive Turn
  | retry (stats : CallStats)
  | leave (result : Except Failure Json) (report : Option Report) (stats : CallStats)
  deriving DecidableEq

/-- The end of `post_json`, after the loop. -/
def exhaustedTurn (lastExc : String) (stats : CallStats) : Turn :=
  .leave (.error (.transientExhausted lastExc)) (some .failure)
    { stats with failures := stats.failures + 1 }

/-- `asyncio.sleep` of a delay that may not be there. -/
def sleep (delay : Except Failure Unit) (stats : CallStats) : Turn :=
  match delay with
  | .ok () => .retry stats
  | .error failure => .leave (.error failure) none stats

/-- A 5xx, a timeout or a transport error. -/
def transientTurn (cfg : Config) (attempt : ℕ) (lastExc : String) (stats : CallStats) : Turn :=
  if attempt < attempts cfg then
    sleep (backoff attempt) { stats with retries := stats.retries + 1 }
  else exhaustedTurn lastExc stats

/-- One attempt of the loop. -/
def turn (cfg : Config) (attempt : ℕ) (stats : CallStats) : Outcome → Turn
  | .transient text => transientTurn cfg attempt text stats
  | .response response =>
    if response.statusCode < 300 then
      .leave (parse response) (some .success) { stats with successes := stats.successes + 1 }
    else if response.statusCode = 429 then
      -- The delay is computed before it is known whether there is another attempt.
      match retryDelay attempt response.retryAfter with
      | .error failure =>
        .leave (.error failure) none { stats with rateLimited := stats.rateLimited + 1 }
      | .ok () =>
        if attempt < attempts cfg then
          .retry { stats with
            rateLimited := stats.rateLimited + 1, retries := stats.retries + 1 }
        else
          exhaustedTurn "rate limited (429)" { stats with rateLimited := stats.rateLimited + 1 }
    else if 500 ≤ response.statusCode then
      transientTurn cfg attempt s!"downstream {response.statusCode}" stats
    else .leave (.error (.permanentError response.statusCode)) (some .success) stats

/-- A call that has ended: the requests it has sent, its result, and what it has recorded. -/
structure Ended where
  requests : ℕ
  result : Except Failure Json
  report : Option Report
  stats : CallStats
  deriving DecidableEq

/-- The attempts from this one on, as many as `remaining`, and the end after the last. -/
def loop (cfg : Config) (outcome : ℕ → Outcome) : ℕ → ℕ → CallStats → Ended
  | 0, _, stats => ⟨0, .error (.transientExhausted "exhausted"), some .failure,
      { stats with failures := stats.failures + 1 }⟩
  | remaining + 1, attempt, stats =>
    match turn cfg attempt stats (outcome attempt) with
    | .retry stats' =>
      let rest := loop cfg outcome remaining (attempt + 1) stats'
      { rest with requests := rest.requests + 1 }
    | .leave result report stats' => ⟨1, result, report, stats'⟩

/-- A call that `allow` has answered, whose attempts have these outcomes. -/
def postJson (cfg : Config) (allowed : Bool) (outcome : ℕ → Outcome) (stats : CallStats) : Ended :=
  if allowed then loop cfg outcome (attempts cfg) 1 { stats with calls := stats.calls + 1 }
  else ⟨0, .error (.breakerOpen s!"{cfg.name} circuit open"), none, stats⟩

/-! ### What an attempt does -/

/-- A success, or a definitive answer. -/
def Outcome.decisive : Outcome → Bool
  | .response resp => decide (resp.statusCode < 500 ∧ resp.statusCode ≠ 429)
  | .transient _ => false

/-- What the call returns, or raises, for a decisive response. -/
def Outcome.answer : Outcome → Except Failure Json
  | .response resp =>
    if resp.statusCode < 300 then parse resp
    else .error (.permanentError resp.statusCode)
  | .transient text => .error (.transientExhausted text)

/-- The counters after some failed attempts. -/
structure Retried (stats stats' : CallStats) (retries : ℕ) : Prop where
  calls : stats'.calls = stats.calls
  successes : stats'.successes = stats.successes
  failures : stats'.failures = stats.failures
  retries : stats'.retries = stats.retries + retries

theorem Retried.trans {stats stats' stats'' : CallStats} {m n : ℕ} (h : Retried stats stats' m)
    (h' : Retried stats' stats'' n) : Retried stats stats'' (m + n) where
  calls := h'.calls.trans h.calls
  successes := h'.successes.trans h.successes
  failures := h'.failures.trans h.failures
  retries := by rw [h'.retries, h.retries, Nat.add_assoc]

variable {cfg : Config} {outcome : ℕ → Outcome} {attempt : ℕ}

theorem turn_decisive (cfg : Config) (attempt : ℕ) (stats : CallStats) {out : Outcome}
    (h : out.decisive = true) :
    ∃ stats', turn cfg attempt stats out = .leave out.answer (some .success) stats' ∧
      stats'.calls = stats.calls ∧ stats'.retries = stats.retries ∧
        stats'.failures = stats.failures ∧ stats'.successes ≤ stats.successes + 1 := by
  cases out with
  | transient text => cases h
  | response response =>
    obtain ⟨hbelow, hnot⟩ := decide_eq_true_eq.mp h
    by_cases hsuccess : response.statusCode < 300
    · refine ⟨{ stats with successes := stats.successes + 1 }, ?_, rfl, rfl, rfl, Nat.le_refl _⟩
      simp [turn, Outcome.answer, hsuccess]
    · refine ⟨stats, ?_, rfl, rfl, rfl, Nat.le_succ _⟩
      simp [turn, Outcome.answer, hsuccess, hnot, not_le.mpr hbelow]

/-- The delay cannot be computed. -/
theorem turn_overflow (stats : CallStats) {out : Outcome} (hnot : out.decisive = false)
    (hover : overflows cfg attempt out.reply = true) :
    ∃ stats', turn cfg attempt stats out = .leave (.error overflowError) none stats' := by
  obtain ⟨hback, hlate⟩ := Bool.and_eq_true_iff.mp hover
  replace hlate : 1024 < attempt := decide_eq_true_eq.mp hlate
  cases out with
  | transient text =>
    have hmore : attempt < attempts cfg := decide_eq_true_eq.mp hback
    refine ⟨{ stats with retries := stats.retries + 1 }, ?_⟩
    simp only [turn, transientTurn, if_pos hmore, sleep, backoff_of_lt hlate]
  | response response =>
    have hfail : ¬ (response.statusCode < 500 ∧ response.statusCode ≠ 429) :=
      of_decide_eq_false hnot
    have hsuccess : ¬ response.statusCode < 300 := by omega
    by_cases h429 : response.statusCode = 429
    · simp only [Outcome.reply, backsOff, if_pos h429, decide_eq_true_eq] at hback
      have hdelay : retryDelay attempt response.retryAfter = .error overflowError :=
        (retryDelay_eq_backoff hback).trans (backoff_of_lt hlate)
      refine ⟨{ stats with rateLimited := stats.rateLimited + 1 }, ?_⟩
      simp only [turn, if_neg hsuccess, if_pos h429, hdelay]
    · simp only [Outcome.reply, backsOff, if_neg h429, decide_eq_true_eq] at hback
      refine ⟨{ stats with retries := stats.retries + 1 }, ?_⟩
      simp only [turn, if_neg hsuccess, if_neg h429, if_pos hback.1, transientTurn,
        if_pos hback.2, sleep, backoff_of_lt hlate]

theorem le_of_not_overflows {reply : Reply} (hnot : overflows cfg attempt reply = false)
    (hback : backsOff cfg attempt reply = true) : attempt ≤ 1024 := by
  rw [overflows, hback, Bool.true_and, decide_eq_false_iff_not] at hnot
  exact not_lt.mp hnot

/-- A failed attempt that is not the last, or is exhausted if it is. -/
theorem turn_failed (cfg : Config) (stats : CallStats) {out : Outcome} (hnot : out.decisive = false)
    (hfloat : overflows cfg attempt out.reply = false) :
    ∃ stats', Retried stats stats' 0 ∧
      if attempt < attempts cfg then
        turn cfg attempt stats out = .retry { stats' with retries := stats'.retries + 1 }
      else ∃ lastExc, turn cfg attempt stats out = exhaustedTurn lastExc stats' := by
  cases out with
  | transient text =>
    refine ⟨stats, ⟨rfl, rfl, rfl, rfl⟩, ?_⟩
    by_cases hmore : attempt < attempts cfg
    · have hsoon : attempt ≤ 1024 := le_of_not_overflows hfloat (decide_eq_true hmore)
      simp [turn, transientTurn, hmore, sleep, backoff_of_le hsoon]
    · rw [if_neg hmore]
      exact ⟨text, by simp [turn, transientTurn, hmore]⟩
  | response response =>
    have hfail : ¬ (response.statusCode < 500 ∧ response.statusCode ≠ 429) :=
      of_decide_eq_false hnot
    have hsuccess : ¬ response.statusCode < 300 := by omega
    by_cases h429 : response.statusCode = 429
    · refine ⟨{ stats with rateLimited := stats.rateLimited + 1 }, ⟨rfl, rfl, rfl, rfl⟩, ?_⟩
      have hdelay : retryDelay attempt response.retryAfter = .ok () := by
        by_cases hback : response.retryAfter = none ∨ response.retryAfter = some 0
        · rw [retryDelay_eq_backoff hback, backoff_of_le]
          exact le_of_not_overflows hfloat (by simp [Outcome.reply, backsOff, h429, hback])
        · exact retryDelay_eq_ok hback
      by_cases hmore : attempt < attempts cfg
      · simp [turn, h429, hdelay, hmore]
      · rw [if_neg hmore]
        refine ⟨"rate limited (429)", ?_⟩
        simp only [turn, if_neg hsuccess, if_pos h429, hdelay, if_neg hmore]
    · refine ⟨stats, ⟨rfl, rfl, rfl, rfl⟩, ?_⟩
      have hserver : 500 ≤ response.statusCode := by omega
      by_cases hmore : attempt < attempts cfg
      · have hsoon : attempt ≤ 1024 :=
          le_of_not_overflows hfloat (by simp [Outcome.reply, backsOff, h429, hserver, hmore])
        simp [turn, hsuccess, h429, hserver, transientTurn, hmore, sleep, backoff_of_le hsoon]
      · rw [if_neg hmore]
        refine ⟨s!"downstream {response.statusCode}", ?_⟩
        simp only [turn, if_neg hsuccess, if_neg h429, if_pos hserver, transientTurn,
          if_neg hmore]

/-! ### The attempts are those of the calls of a client -/

/-- Where the call is after the attempt. -/
def Turn.next (attempt : ℕ) : Turn → Status × Option Report
  | .retry _ => (.running (.sleeping attempt), none)
  | .leave result report _ => (.ended result, report)

theorem next_transientTurn (lastExc : String) (stats : CallStats) :
    (transientTurn cfg attempt lastExc stats).next attempt = again cfg attempt lastExc := by
  unfold transientTurn again
  by_cases hmore : attempt < attempts cfg
  · rw [if_pos hmore, if_pos hmore]
    cases backoff attempt <;> rfl
  · rw [if_neg hmore, if_neg hmore]
    rfl

/-- An attempt takes a call of a client where its reply takes it. -/
theorem resume_of_turn (stats : CallStats) (out : Outcome) :
    resume cfg (.posting attempt) out.reply =
      some ((turn cfg attempt stats out).next attempt) := by
  cases out with
  | transient text => exact congrArg some (next_transientTurn text stats).symm
  | response response =>
    refine congrArg some ?_
    unfold receive turn
    by_cases hsuccess : response.statusCode < 300
    · simp only [if_pos hsuccess]
      rfl
    · by_cases h429 : response.statusCode = 429
      · simp only [if_neg hsuccess, if_pos h429, rateLimited]
        cases retryDelay attempt response.retryAfter with
        | ok delay => by_cases hmore : attempt < attempts cfg <;> simp only [hmore] <;> rfl
        | error failure => rfl
      · by_cases hserver : 500 ≤ response.statusCode
        · simp only [if_neg hsuccess, if_neg h429, if_pos hserver]
          exact (next_transientTurn _ stats).symm
        · simp only [if_neg hsuccess, if_neg h429, if_neg hserver]
          rfl

/-! ### What the loop does -/

/-- The loop goes on after the attempt: it is no decisive response, and its delay is a float. -/
def GoesOn (cfg : Config) (outcome : ℕ → Outcome) (attempt : ℕ) : Prop :=
  (outcome attempt).decisive = false ∧ overflows cfg attempt (outcome attempt).reply = false

/-- The loop reaches a later attempt, with as many requests and retries more. -/
theorem loop_skip {skipped remaining : ℕ} (cfg : Config) (outcome : ℕ → Outcome)
    (stats : CallStats)
    (hattempt : attempt + skipped + remaining = attempts cfg + 1) (hremaining : 0 < remaining)
    (hgoes : ∀ j, attempt ≤ j → j < attempt + skipped → GoesOn cfg outcome j) :
    ∃ stats', Retried stats stats' skipped ∧
      loop cfg outcome (skipped + remaining) attempt stats =
        { loop cfg outcome remaining (attempt + skipped) stats' with
          requests :=
            (loop cfg outcome remaining (attempt + skipped) stats').requests + skipped } := by
  induction skipped generalizing attempt stats with
  | zero => exact ⟨stats, ⟨rfl, rfl, rfl, rfl⟩, by rw [Nat.zero_add]; rfl⟩
  | succ skipped ih =>
    obtain ⟨hnot, hback⟩ := hgoes attempt (Nat.le_refl _) (by omega)
    obtain ⟨stats₁, hfirst, hturn⟩ := turn_failed cfg stats hnot hback
    rw [if_pos (by omega)] at hturn
    obtain ⟨stats₂, hrest, hloop⟩ := @ih (attempt + 1) { stats₁ with retries := stats₁.retries + 1 }
      (by omega) fun j hj hlt ↦ hgoes j (by omega) (by omega)
    refine ⟨stats₂, ?_, ?_⟩
    · have hone : Retried stats { stats₁ with retries := stats₁.retries + 1 } 1 :=
        ⟨hfirst.calls, hfirst.successes, hfirst.failures, congrArg (· + 1) hfirst.retries⟩
      rw [Nat.add_comm skipped 1]
      exact hone.trans hrest
    · rw [show skipped + 1 + remaining = (skipped + remaining) + 1 by omega, loop, hturn]
      simp only [hloop, show attempt + 1 + skipped = attempt + (skipped + 1) by omega,
        Nat.add_assoc]

/-- The attempt that ends the call. -/
theorem loop_leave {remaining : ℕ} {stats stats' : CallStats} {result : Except Failure Json}
    {report : Option Report}
    (h : turn cfg attempt stats (outcome attempt) = .leave result report stats') :
    loop cfg outcome (remaining + 1) attempt stats = ⟨1, result, report, stats'⟩ := by
  simp only [loop, h]

variable (stats : CallStats)

/-- The call ends with the attempt after some that go on. -/
theorem postJson_skip {last : ℕ} (hlast : 1 ≤ last) (hle : last ≤ attempts cfg)
    (hgoes : ∀ j, 1 ≤ j → j < last → GoesOn cfg outcome j) :
    ∃ stats', Retried { stats with calls := stats.calls + 1 } stats' (last - 1) ∧
      ∀ result report stats'', turn cfg last stats' (outcome last) = .leave result report stats'' →
        postJson cfg true outcome stats = ⟨last, result, report, stats''⟩ := by
  obtain ⟨skipped, rfl⟩ := Nat.exists_eq_add_of_le hlast
  obtain ⟨remaining, hremaining⟩ := Nat.exists_eq_add_of_le hle
  have hall : attempts cfg = skipped + (remaining + 1) := by omega
  obtain ⟨stats', hretried, hloop⟩ := @loop_skip 1 skipped (remaining + 1) cfg outcome
    { stats with calls := stats.calls + 1 } (by omega) (Nat.succ_pos _)
    fun j hj hlt ↦ hgoes j hj hlt
  refine ⟨stats', by simpa using hretried, fun result report stats'' hturn ↦ ?_⟩
  rw [postJson, if_pos rfl, hall, hloop, loop_leave hturn, Nat.add_comm 1 skipped]

/-! ### The claim -/

/-- What is claimed of an admitted call. -/
structure Decides (cfg : Config) (outcome : ℕ → Outcome) (stats : CallStats) (ended : Ended) :
    Prop where
  /-- The first decisive response ends the call, -/
  decisive : ∀ i, 1 ≤ i → i ≤ attempts cfg → (outcome i).decisive = true →
    (∀ j, 1 ≤ j → j < i → (outcome j).decisive = false) →
      ended.requests = i ∧ ended.result = (outcome i).answer
  /-- and without one the attempts are exhausted. -/
  exhausted : (∀ i, 1 ≤ i → i ≤ attempts cfg → (outcome i).decisive = false) →
    ended.requests = attempts cfg ∧ ∃ text, ended.result = .error (.transientExhausted text)
  calls : ended.stats.calls = stats.calls + 1
  retries : ended.stats.retries + 1 = stats.retries + ended.requests
  counted : ended.stats.successes + ended.stats.failures ≤ stats.successes + stats.failures + 1

/-- The delay after an attempt that is reached is no float: the attempt is the 1025th or later, and
no response before or at it was decisive. -/
def Overflows (cfg : Config) (outcome : ℕ → Outcome) (attempt : ℕ) : Prop :=
  attempt ≤ attempts cfg ∧ (∀ j, 1 ≤ j → j ≤ attempt → (outcome j).decisive = false) ∧
    overflows cfg attempt (outcome attempt).reply = true

theorem late_of_overflows {reply : Reply} (h : overflows cfg attempt reply = true) :
    1024 < attempt :=
  decide_eq_true_eq.mp (Bool.and_eq_true_iff.mp h).2

theorem postJson_decisive {i : ℕ} (hone : 1 ≤ i) (hle : i ≤ attempts cfg)
    (hdecisive : (outcome i).decisive = true)
    (hgoes : ∀ j, 1 ≤ j → j < i → GoesOn cfg outcome j) :
    ∃ stats', postJson cfg true outcome stats = ⟨i, (outcome i).answer, some .success, stats'⟩ ∧
      stats'.calls = stats.calls + 1 ∧ stats'.retries + 1 = stats.retries + i ∧
        stats'.successes + stats'.failures ≤ stats.successes + stats.failures + 1 := by
  obtain ⟨stats₁, hretried, hends⟩ := postJson_skip stats hone hle hgoes
  obtain ⟨stats', hturn, hcalls, hretries, hfailures, hsuccesses⟩ :=
    turn_decisive cfg i stats₁ hdecisive
  have hbefore := hretried.retries
  have hfailed := hretried.failures
  have hsucceeded := hretried.successes
  simp only at hbefore hfailed hsucceeded
  exact ⟨stats', hends _ _ _ hturn, hcalls.trans hretried.calls, by omega, by omega⟩

theorem postJson_exhausted (hone : 1 ≤ attempts cfg)
    (hgoes : ∀ j, 1 ≤ j → j ≤ attempts cfg → GoesOn cfg outcome j) :
    ∃ lastExc stats', postJson cfg true outcome stats =
        ⟨attempts cfg, .error (.transientExhausted lastExc), some .failure, stats'⟩ ∧
      stats'.calls = stats.calls + 1 ∧ stats'.retries + 1 = stats.retries + attempts cfg ∧
        stats'.successes + stats'.failures ≤ stats.successes + stats.failures + 1 := by
  obtain ⟨stats₁, hretried, hends⟩ := postJson_skip stats hone (Nat.le_refl _)
    fun j hj hlt ↦ hgoes j hj (Nat.le_of_lt hlt)
  obtain ⟨hnot, hback⟩ := hgoes (attempts cfg) hone (Nat.le_refl _)
  obtain ⟨stats', hfailed, hturn⟩ := turn_failed cfg stats₁ hnot hback
  rw [if_neg (Nat.lt_irrefl _)] at hturn
  obtain ⟨lastExc, hexhausted⟩ := hturn
  have hsame := hretried.trans hfailed
  have hretries := hsame.retries
  have hfailures := hsame.failures
  have hsuccesses := hsame.successes
  simp only at hretries hfailures hsuccesses
  exact ⟨lastExc, _, hends _ _ _ hexhausted, hsame.calls, by simp only; omega, by simp only; omega⟩

/-- The first delay that is no float ends the call. -/
theorem postJson_overflow {i : ℕ} (h : Overflows cfg outcome i)
    (hfirst : ∀ j, j < i → ¬ Overflows cfg outcome j) :
    (postJson cfg true outcome stats).requests = i ∧
      (postJson cfg true outcome stats).result = .error overflowError := by
  obtain ⟨hle, hnone, hover⟩ := h
  have hlate := late_of_overflows hover
  have hgoes : ∀ j, 1 ≤ j → j < i → GoesOn cfg outcome j := by
    intro j hj hlt
    refine ⟨hnone j hj hlt.le, ?_⟩
    rw [Bool.eq_false_iff]
    exact fun hbefore ↦ hfirst j hlt ⟨by omega, fun k hk hkj ↦ hnone k hk (by omega), hbefore⟩
  obtain ⟨stats₁, -, hends⟩ := postJson_skip stats (by omega) hle hgoes
  obtain ⟨stats', hturn⟩ := turn_overflow stats₁ (hnone i (by omega) (Nat.le_refl _)) hover
  rw [hends _ _ _ hturn]
  exact ⟨rfl, rfl⟩

theorem not_decides_of_overflows {i : ℕ} (h : Overflows cfg outcome i) :
    ¬ Decides cfg outcome stats (postJson cfg true outcome stats) := by
  classical
  have hfirst := Nat.find_spec (p := Overflows cfg outcome) ⟨i, h⟩
  obtain ⟨hrequests, hresult⟩ := postJson_overflow stats hfirst
    fun j hj ↦ Nat.find_min _ hj
  intro hdecides
  by_cases hany : ∃ k, 1 ≤ k ∧ k ≤ attempts cfg ∧ (outcome k).decisive = true
  · -- The first decisive response comes after the attempt that has ended the call.
    obtain ⟨hk, hle, hdecisive⟩ := Nat.find_spec hany
    have hbefore : ∀ j, 1 ≤ j → j < Nat.find hany → (outcome j).decisive = false := by
      intro j hj hlt
      rw [Bool.eq_false_iff]
      exact fun hj' ↦ Nat.find_min hany hlt ⟨hj, by omega, hj'⟩
    have hends := (hdecides.decisive _ hk hle hdecisive hbefore).1
    obtain ⟨-, hnone, -⟩ := hfirst
    rw [hrequests] at hends
    rw [hnone _ hk hends.ge] at hdecisive
    cases hdecisive
  · obtain ⟨-, text, hexhausted⟩ := hdecides.exhausted fun k hk hle ↦ by
      rw [Bool.eq_false_iff]
      exact fun hdecisive ↦ hany ⟨k, hk, hle, hdecisive⟩
    rw [hresult] at hexhausted
    cases hexhausted

/-- Without an attempt there is no request, but the counter of the retries is as it was. -/
theorem not_decides_of_none (hnone : attempts cfg = 0) :
    ¬ Decides cfg outcome stats (postJson cfg true outcome stats) := by
  intro hdecides
  have hretries := hdecides.retries
  rw [postJson, if_pos rfl, hnone, loop] at hretries
  simp only at hretries
  omega

/-- **The retry loop** decides by the first decisive response, exactly if there is an attempt and no
delay overflows. -/
theorem retryLoop_iff (cfg : Config) (outcome : ℕ → Outcome) (stats : CallStats) :
    Decides cfg outcome stats (postJson cfg true outcome stats) ↔
      0 ≤ cfg.maxRetries ∧ ∀ attempt, ¬ Overflows cfg outcome attempt := by
  have hsome : 0 ≤ cfg.maxRetries ↔ 1 ≤ attempts cfg := by
    unfold attempts
    omega
  rw [hsome]
  refine ⟨fun hdecides ↦ ⟨?_, fun attempt hover ↦ not_decides_of_overflows stats hover hdecides⟩,
    fun ⟨hsome, hnone⟩ ↦ ?_⟩
  · by_contra hnone
    exact not_decides_of_none stats (by omega) hdecides
  have hgoes : ∀ i, i ≤ attempts cfg → (∀ j, 1 ≤ j → j ≤ i → (outcome j).decisive = false) →
      ∀ j, 1 ≤ j → j ≤ i → GoesOn cfg outcome j := by
    intro i hle hbefore j hj hji
    refine ⟨hbefore j hj hji, ?_⟩
    rw [Bool.eq_false_iff]
    exact fun hover ↦ hnone j ⟨by omega, fun k hk hkj ↦ hbefore k hk (by omega), hover⟩
  by_cases hany : ∃ i, 1 ≤ i ∧ i ≤ attempts cfg ∧ (outcome i).decisive = true
  · classical
    obtain ⟨hone, hle, hdecisive⟩ := Nat.find_spec hany
    have hbefore : ∀ j, 1 ≤ j → j < Nat.find hany → (outcome j).decisive = false := by
      intro j hj hlt
      rw [Bool.eq_false_iff]
      exact fun hj' ↦ Nat.find_min hany hlt ⟨hj, by omega, hj'⟩
    obtain ⟨stats', hended, hcalls, hretries, hcounted⟩ := postJson_decisive stats hone
      hle hdecisive fun j hj hlt ↦ hgoes (Nat.find hany - 1) (by omega)
        (fun k hk hkj ↦ hbefore k hk (by omega)) j hj (by omega)
    rw [hended]
    refine ⟨fun i hi hi' hdec hfirst ↦ ?_, fun hall ↦ ?_, hcalls, hretries, hcounted⟩
    · have hsame : Nat.find hany = i := by
        rcases Nat.lt_trichotomy (Nat.find hany) i with hlt | heq | hgt
        · rw [hfirst _ hone hlt] at hdecisive
          cases hdecisive
        · exact heq
        · rw [hbefore i hi hgt] at hdec
          cases hdec
      rw [← hsame]
      exact ⟨rfl, rfl⟩
    · rw [hall _ hone hle] at hdecisive
      cases hdecisive
  · have hall : ∀ i, 1 ≤ i → i ≤ attempts cfg → (outcome i).decisive = false := by
      intro i hi hle
      rw [Bool.eq_false_iff]
      exact fun hdecisive ↦ hany ⟨i, hi, hle, hdecisive⟩
    obtain ⟨lastExc, stats', hended, hcalls, hretries, hcounted⟩ :=
      postJson_exhausted stats hsome fun j hj hle ↦ hgoes _ (Nat.le_refl _) hall j hj hle
    rw [hended]
    refine ⟨fun i hi hle hdecisive _ ↦ ?_, fun _ ↦ ⟨rfl, lastExc, rfl⟩, hcalls, hretries,
      hcounted⟩
    rw [hall i hi hle] at hdecisive
    cases hdecisive

/-- A client that never gives up for long. -/
def patient : Config where
  name := "restaurant"
  maxRetries := 1024
  failThreshold := 5
  openSeconds := 10

/-- A response that rate limits, without a `Retry-After`. -/
def tooManyRequests : HttpResponse := { statusCode := 429 }

/-- The downstream rate limits every request: the 1025th and last raises `OverflowError`, and the
breaker is told nothing. -/
theorem not_decides_patient :
    ¬ Decides patient (fun _ ↦ .response tooManyRequests) {}
      (postJson patient true (fun _ ↦ .response tooManyRequests) {}) :=
  not_decides_of_overflows {} (i := 1025)
    ⟨by decide +kernel, fun _ _ _ ↦ rfl, by decide +kernel⟩

end DinnerRush.ResilientClient
