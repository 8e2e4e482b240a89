import DinnerRush.ResilientClient.ClosedForm

/-!
# Rate limiting and the breaker

A call whose last attempt is answered 429 leaves the loop by the `break` that a last 5xx leaves it
by, so it is recorded as a failure, unless its delay is no float: then it is not recorded at all. A
downstream that does no more than rate limit keeps the breaker closed as long as no call is
exhausted when one more failure reaches the threshold, and a half-open probe that is exhausted
re-opens the breaker (`rateLimitSpared`).
-/

set_option autoImplicit false
set_option relaxedAutoImplicit false

namespace DinnerRush.ResilientClient

open Concurrency

variable {cfg : Config} {w w' : World} {number : ℕ} {response : HttpResponse}

/-- Every response is a success, a 429 or another definitive answer. -/
def Action.answers : Action → Bool
  | .resume _ (.response response) => decide (response.statusCode < 500)
  | .resume _ (.transient _) => false
  | _ => true

/-- The answer exhausts a call that waits for it: the attempt is the last, and the delay after it,
which is computed all the same, is a float. -/
def Status.exhausts (cfg : Config) (response : HttpResponse) : Status → Bool
  | .running (.posting attempt) =>
    decide (attempts cfg ≤ attempt) && !overflows cfg attempt (.response response)
  | _ => false

def World.exhausts (cfg : Config) (w : World) (number : ℕ) (response : HttpResponse) : Bool :=
  w.calls[number]?.any fun entry ↦ entry.status.exhausts cfg response

/-- No call is exhausted by a 429, or by having no attempt, when one more failure trips the
breaker. -/
def spares (cfg : Config) : Transitions.Condition World Action
  | w, .start => attempts cfg = 0 → w.breaker.failures + 1 < cfg.failThreshold
  | w, .resume number (.response response) => response.statusCode = 429 →
      w.exhausts cfg number response = true → w.breaker.failures + 1 < cfg.failThreshold
  | _, _ => True

/-- The downstream does no more than rate limit, and the breaker is spared. -/
def limited (cfg : Config) : Transitions.Condition World Action :=
  fun w action ↦ action.answers = true ∧ spares cfg w action

/-- The breaker is closed, and it has rejected no call. -/
structure Spared (w : World) : Prop where
  closed : w.breaker.state = .closed
  admitted : ∀ entry ∈ w.calls, entry.admission ≠ .rejected

/-! ### What a response does -/

theorem exhausts_of_running {entry : Entry} {attempt : ℕ} (hentry : w.calls[number]? = some entry)
    (hcall : entry.status = .running (.posting attempt)) : w.exhausts cfg number response =
      (decide (attempts cfg ≤ attempt) && !overflows cfg attempt (.response response)) := by
  rw [World.exhausts, hentry, Option.any_some, hcall]
  rfl

theorem rateLimited_failure_iff {attempt : ℕ} (h429 : response.statusCode = 429) :
    (rateLimited cfg attempt response.retryAfter).2 = some .failure ↔
      attempts cfg ≤ attempt ∧ overflows cfg attempt (.response response) = false := by
  have hover : overflows cfg attempt (.response response) = true ↔
      Unreported (rateLimited cfg attempt response.retryAfter) := by
    rw [unreported_rateLimited_iff]
    simp [overflows, backsOff, h429]
  rw [Bool.eq_false_iff, Ne, hover]
  unfold rateLimited Unreported
  cases retryDelay attempt response.retryAfter with
  | ok delay =>
    by_cases hmore : attempt < attempts cfg
    · simp [hmore, pause]
    · simp [hmore, not_lt.mp hmore, exhausted]
  | error failure => simp [Status.isRunning]

/-- Below 500, a response is recorded as a failure exactly if it is a 429 that exhausts the call. -/
theorem receive_failure_iff {attempt : ℕ} (hanswers : response.statusCode < 500) :
    (receive cfg attempt response).2 = some .failure ↔ response.statusCode = 429 ∧
      attempts cfg ≤ attempt ∧ overflows cfg attempt (.response response) = false := by
  unfold receive
  by_cases hsuccess : response.statusCode < 300
  · simp only [if_pos hsuccess]
    constructor
    · intro h
      cases h
    · rintro ⟨h429, -⟩
      omega
  · by_cases h429 : response.statusCode = 429
    · rw [if_neg hsuccess, if_pos h429, rateLimited_failure_iff h429]
      simp [h429]
    · simp [hsuccess, h429, not_le.mpr hanswers]

/-- The call that is resumed by a response, and what it reports. -/
theorem reaction_response {entry : Entry} {next : Status × Option Report}
    (h : w.reaction cfg number (.response response) = some (entry, next)) :
    ∃ attempt, w.calls[number]? = some entry ∧ entry.status = .running (.posting attempt) ∧
      next = receive cfg attempt response := by
  obtain ⟨hentry, call, hcall, hresume⟩ := reaction_some h
  cases call with
  | posting attempt => exact ⟨attempt, hentry, hcall, (Option.some.inj hresume).symm⟩
  | sleeping attempt => cases hresume

theorem reportOf_failure_iff {entry : Entry} {next : Status × Option Report}
    (h : w.reaction cfg number (.response response) = some (entry, next))
    (hanswers : response.statusCode < 500) :
    next.2 = some .failure ↔
      response.statusCode = 429 ∧ w.exhausts cfg number response = true := by
  obtain ⟨attempt, hentry, hcall, rfl⟩ := reaction_response h
  rw [receive_failure_iff hanswers, exhausts_of_running hentry hcall]
  simp

/-- What a step below 500 reports, if it is not the failure of an exhausted call. -/
theorem report_of_answers {reply : Reply} {entry : Entry} {next : Status × Option Report}
    (h : w.reaction cfg number reply = some (entry, next))
    (hanswers : (Action.resume number reply).answers = true) :
    next.2 = none ∨ next.2 = some .success ∨ next.2 = some .failure ∧ ∃ response,
      reply = .response response ∧ response.statusCode = 429 ∧
        w.exhausts cfg number response = true := by
  obtain ⟨status, report⟩ := next
  cases report with
  | none => exact Or.inl rfl
  | some report =>
    cases report with
    | success => exact Or.inr (Or.inl rfl)
    | failure =>
      refine Or.inr (Or.inr ⟨rfl, ?_⟩)
      cases reply with
      | response response =>
        have hbelow : response.statusCode < 500 := decide_eq_true_eq.mp hanswers
        exact ⟨response, rfl, (reportOf_failure_iff h hbelow).mp rfl⟩
      | transient text => cases hanswers
      | woken =>
        obtain ⟨-, call, -, hresume⟩ := reaction_some h
        cases call <;> cases hresume
      | raised text =>
        obtain ⟨-, call, -, hresume⟩ := reaction_some h
        cases call <;> cases hresume

/-! ### The breaker is spared -/

/-- The admissions of the calls stay as they are. -/
theorem admitted_advance {reply : Reply} {entry : Entry} {next : Status × Option Report}
    (hadmitted : ∀ entry ∈ w.calls, entry.admission ≠ .rejected)
    (h : w.reaction cfg number reply = some (entry, next)) :
    ∀ entry' ∈ (w.advance cfg number entry next).calls, entry'.admission ≠ .rejected := by
  obtain ⟨hentry, -⟩ := reaction_some h
  intro entry' hentry'
  rcases List.mem_or_eq_of_mem_set hentry' with hold | hnew
  · exact hadmitted entry' hold
  · rw [hnew]
    exact hadmitted entry (List.mem_of_getElem? hentry)

theorem allow_of_closed (hclosed : w.breaker.state = .closed) :
    w.breaker.allow cfg w.now = (true, w.breaker) := by
  rw [CircuitBreaker.allow, hclosed]

theorem closed_failure (hclosed : w.breaker.state = .closed) :
    (w.breaker.recordFailure cfg w.now).state = .closed ↔
      w.breaker.failures + 1 < cfg.failThreshold := by
  unfold CircuitBreaker.recordFailure
  by_cases hthreshold : cfg.failThreshold ≤ w.breaker.failures + 1
  · simp [hclosed, hthreshold, CircuitBreaker.trip]
  · simp [hclosed, hthreshold, not_le.mp hthreshold]

/-- A step below 500 keeps a closed breaker closed exactly if it spares it. -/
theorem closed_act_iff {action : Action} (hclosed : w.breaker.state = .closed)
    (hanswers : action.answers = true) (hact : w.act cfg action = some w') :
    w'.breaker.state = .closed ↔ spares cfg w action := by
  cases action with
  | start =>
    obtain rfl := Option.some.inj hact
    have hallow := @allow_of_closed cfg _ hclosed
    by_cases hnone : attempts cfg = 0
    · rw [(breaker_start_of_none hnone (by rw [hallow])).1, hallow]
      exact (closed_failure hclosed).trans ⟨fun h _ ↦ h, fun h ↦ h hnone⟩
    · rw [(breaker_start (Or.inl (Nat.pos_of_ne_zero hnone))).1, hallow]
      exact iff_of_true hclosed fun hzero ↦ absurd hzero hnone
  | wait seconds =>
    obtain ⟨-, rfl⟩ := act_wait hact
    simp [hclosed, spares]
  | resume number reply =>
    obtain ⟨entry, next, hreaction, rfl⟩ := act_resume hact
    have hspares : next.2 ≠ some .failure → spares cfg w (.resume number reply) := by
      intro hnot
      cases reply with
      | response response =>
        intro h429 hlast
        have hbelow : response.statusCode < 500 := decide_eq_true_eq.mp hanswers
        exact absurd ((reportOf_failure_iff hreaction hbelow).mpr ⟨h429, hlast⟩) hnot
      | transient text => trivial
      | woken => trivial
      | raised text => trivial
    rcases report_of_answers hreaction hanswers with hnone | hsuccess |
      ⟨hfailure, response, rfl, h429, hlast⟩
    · rw [breaker_advance_silent hnone]
      exact iff_of_true hclosed (hspares (by simp [hnone]))
    · rw [breaker_advance_report hsuccess]
      exact iff_of_true rfl (hspares (by simp [hsuccess]))
    · rw [breaker_advance_report hfailure]
      exact (closed_failure hclosed).trans ⟨fun h _ _ ↦ h, fun h ↦ h h429 hlast⟩

theorem Spared.act {action : Action} (h : Spared w) (hlimited : limited cfg w action)
    (hact : w.act cfg action = some w') : Spared w' := by
  refine ⟨(closed_act_iff h.closed hlimited.1 hact).mpr hlimited.2, ?_⟩
  cases action with
  | start =>
    obtain rfl := Option.some.inj hact
    intro entry hentry
    rcases List.mem_append.mp hentry with hold | hnew
    · exact h.admitted entry hold
    · rw [List.mem_singleton.mp hnew, World.entered, allow_of_closed h.closed]
      simp [h.closed]
  | wait seconds =>
    obtain ⟨-, rfl⟩ := act_wait hact
    exact h.admitted
  | resume number reply =>
    obtain ⟨entry, next, hreaction, rfl⟩ := act_resume hact
    exact admitted_advance h.admitted hreaction

/-- A closed breaker does not become half-open. -/
theorem not_halfOpen_act {action : Action} (hclosed : w.breaker.state = .closed)
    (hact : w.act cfg action = some w') : w'.breaker.state ≠ .halfOpen := by
  cases action with
  | start =>
    obtain rfl := Option.some.inj hact
    have hallow := @allow_of_closed cfg _ hclosed
    by_cases hnone : attempts cfg = 0
    · rw [(breaker_start_of_none hnone (by rw [hallow])).1]
      exact (record_cases _ w.now .failure).1
    · rw [(breaker_start (Or.inl (Nat.pos_of_ne_zero hnone))).1, hallow]
      simp [hclosed]
  | wait seconds =>
    obtain ⟨-, rfl⟩ := act_wait hact
    simp [hclosed]
  | resume number reply =>
    obtain ⟨entry, next, -, rfl⟩ := act_resume hact
    cases hreport : next.2 with
    | none =>
      rw [breaker_advance_silent hreport]
      simp [hclosed]
    | some report =>
      rw [breaker_advance_report hreport]
      exact (record_cases w.breaker w.now report).1

/-- The probe is exhausted by a 429. -/
theorem reopens_of_exhausted (hhalf : w.breaker.state = .halfOpen)
    (hlast : w.exhausts cfg number response = true) (h429 : response.statusCode = 429)
    (hact : w.act cfg (.resume number (.response response)) = some w') :
    w'.breaker.state = .opened ∧ w'.breaker.openedAt = w.now := by
  obtain ⟨entry, next, hreaction, rfl⟩ := act_resume hact
  have hfailure : next.2 = some .failure :=
    (reportOf_failure_iff hreaction (by omega)).mpr ⟨h429, hlast⟩
  rw [breaker_advance_report hfailure, CircuitBreaker.record, CircuitBreaker.recordFailure,
    if_pos hhalf]
  exact ⟨rfl, rfl⟩

/-- A 429 that is followed by another attempt, or by a delay that is no float. -/
theorem unmoved_of_limited (hnot : w.exhausts cfg number response = false)
    (h429 : response.statusCode = 429)
    (hact : w.act cfg (.resume number (.response response)) = some w') :
    w'.breaker = w.breaker := by
  obtain ⟨entry, next, hreaction, rfl⟩ := act_resume hact
  obtain ⟨attempt, -, -, rfl⟩ := reaction_response hreaction
  refine breaker_advance_silent ?_
  have hfailure : (receive cfg attempt response).2 ≠ some .failure := by
    rw [Ne, reportOf_failure_iff hreaction (by omega), hnot]
    simp
  have hlimited : receive cfg attempt response = rateLimited cfg attempt response.retryAfter := by
    unfold receive
    rw [if_neg (by omega), if_pos h429]
  rw [hlimited] at hfailure ⊢
  unfold rateLimited at hfailure ⊢
  cases hdelay : retryDelay attempt response.retryAfter with
  | ok delay =>
    by_cases hmore : attempt < attempts cfg
    · simp [hmore, pause]
    · rw [hdelay] at hfailure
      simp [hmore, exhausted] at hfailure
  | error failure => rfl

/-- What holds of a breaker whose downstream does no more than rate limit. -/
structure RateLimitSpared (cfg : Config) (madeAt : ℚ) : Prop where
  /-- It stays closed, and rejects no call, in every run from a closed breaker that spares it. -/
  spared : ∀ w w' : World, w.breaker.state = .closed → w.calls = [] →
    Relation.ReflTransGen ((client cfg madeAt).Step (limited cfg)) w w' → Spared w'
  /-- A step that does not spare it opens it. -/
  opens : ∀ (w : World) (action : Action) (w' : World), w.breaker.state = .closed →
    action.answers = true → w.act cfg action = some w' → ¬ spares cfg w action →
      w'.breaker.state = .opened
  /-- A half-open probe that is exhausted by a 429 re-opens it. -/
  reopens : ∀ (w : World) (number : ℕ) (response : HttpResponse) (w' : World),
    w.breaker.state = .halfOpen → w.probing number = true →
      w.exhausts cfg number response = true → response.statusCode = 429 →
        w.act cfg (.resume number (.response response)) = some w' →
          w'.breaker.state = .opened ∧ w'.breaker.openedAt = w.now
  /-- A 429 that does not exhaust the call leaves it as it is. -/
  unmoved : ∀ (w : World) (number : ℕ) (response : HttpResponse) (w' : World),
    w.exhausts cfg number response = false → response.statusCode = 429 →
      w.act cfg (.resume number (.response response)) = some w' → w'.breaker = w.breaker

/-- **Rate limiting and the breaker**, in every run of any number of calls. -/
theorem rateLimitSpared (cfg : Config) (madeAt : ℚ) : RateLimitSpared cfg madeAt where
  spared w w' hclosed hnone hrun := by
    induction hrun with
    | refl => exact ⟨hclosed, by simp [hnone]⟩
    | tail _ hlast ih =>
      obtain ⟨action, hlimited, hact⟩ := hlast
      exact ih.act hlimited hact
  opens w action w' hclosed hanswers hact hnot := by
    have hstill : w'.breaker.state ≠ .closed := fun hstate ↦
      hnot ((closed_act_iff hclosed hanswers hact).mp hstate)
    cases hstate : w'.breaker.state with
    | closed => exact absurd hstate hstill
    | opened => rfl
    | halfOpen => exact absurd hstate (not_halfOpen_act hclosed hact)
  reopens _ _ _ _ hhalf _ hlast h429 hact := reopens_of_exhausted hhalf hlast h429 hact
  unmoved _ _ _ _ hnot h429 hact := unmoved_of_limited hnot h429 hact

instance (w : World) (action : Action) : Decidable (limited cfg w action) :=
  match action with
  | .start => decidable_of_iff (attempts cfg = 0 → w.breaker.failures + 1 < cfg.failThreshold)
      (by simp [limited, spares, Action.answers])
  | .wait _ => .isTrue ⟨rfl, trivial⟩
  | .resume _ .woken => .isTrue ⟨rfl, trivial⟩
  | .resume _ (.raised _) => .isTrue ⟨rfl, trivial⟩
  | .resume _ (.transient _) => .isFalse fun h ↦ by cases h.1
  | .resume number (.response response) => inferInstanceAs (Decidable (_ ∧
      (response.statusCode = 429 → w.exhausts cfg number response = true →
        w.breaker.failures + 1 < cfg.failThreshold)))

/-- A call that is rate limited at all of its attempts. -/
def throttled (number : ℕ) : List Action :=
  [.resume number (.response { statusCode := 429 }), .resume number .woken,
   .resume number (.response { statusCode := 429 }), .resume number .woken,
   .resume number (.response { statusCode := 429 }), .resume number .woken,
   .resume number (.response { statusCode := 429 })]

/-- Two calls overlap: one is exhausted, the other is declined. -/
def sparing : List Action :=
  [.start, .start] ++ throttled 0 ++ [.resume 1 (.response { statusCode := 402 }), .start]

def sparedWorld : World :=
  ((client courier 0).runMeeting (limited courier) (client courier 0).start sparing).get
    (by decide +kernel)

theorem rateLimitSpared_sparedWorld : Spared sparedWorld ∧ sparedWorld.calls.length = 3 := by
  have hrun : Relation.ReflTransGen ((client courier 0).Step (limited courier))
      (client courier 0).start sparedWorld :=
    Transitions.reachable_of_runMeeting (Option.some_get _).symm
  exact ⟨(rateLimitSpared courier 0).spared _ _ rfl rfl hrun, by decide +kernel⟩

/-- A single call is rate limited by a downstream whose breaker opens at the first failure. -/
def throttledWorld : World :=
  ((client payment 0).run (client payment 0).start (.start :: throttled 0 ++ [.start])).get
    (by decide +kernel)

/-- The breaker is open, and the next call is rejected. -/
theorem not_rateLimitSpared_throttledWorld :
    (∀ action ∈ Action.start :: throttled 0 ++ [.start], action.answers = true) ∧
      (client payment 0).Reachable Transitions.anyAction throttledWorld ∧
        ¬ Spared throttledWorld := by
  refine ⟨by decide, Transitions.reachable_of_run (Option.some_get _).symm, fun hspared ↦ ?_⟩
  have hopened : throttledWorld.breaker.state = .opened := by decide +kernel
  rw [hspared.closed] at hopened
  cases hopened

end DinnerRush.ResilientClient
