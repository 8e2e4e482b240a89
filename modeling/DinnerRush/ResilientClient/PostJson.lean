import DinnerRush.ResilientClient.Probe

/-!
# The calls are those of `post_json`

The calls of a client are the program `HttpClient.postJson`, run from await to await: `settle` runs
the effects on the breaker, which nothing interrupts, and `deliver` gives the program what it
awaits. A call that starts is `postJson` up to its first await (`settle_postJson`), and what a call
does with a reply is what the program does with it (`settle_deliver`).
-/

set_option autoImplicit false
set_option relaxedAutoImplicit false

namespace DinnerRush.ResilientClient

open Concurrency

inductive Effect
  | allow
  | recordSuccess
  | recordFailure
  | sleep
  | post

@[reducible] def Effect.Result : Effect → Type
  | allow => Bool
  | recordSuccess => Unit
  | recordFailure => Unit
  | sleep => Unit
  | post => Except String HttpResponse

abbrev signature : Signature := ⟨Effect, Effect.Result⟩

abbrev Proc := Program signature Failure Json

def perform (effect : Effect) : Program signature Failure effect.Result :=
  .call (S := signature) effect

/-- The client, over the effects on its breaker and its awaits. -/
def httpClient (cfg : Config) : HttpClient signature Unit where
  name := cfg.name
  maxRetries := cfg.maxRetries
  allow := perform .allow
  recordSuccess := perform .recordSuccess
  recordFailure := perform .recordFailure
  sleep := perform .sleep
  post _ := perform .post

/-- Up to the next await. -/
def settle (cfg : Config) (now : ℚ) : Proc → CircuitBreaker → Proc × CircuitBreaker
  | .perform .allow resume, breaker =>
    settle cfg now (resume (.ok (breaker.allow cfg now).1)) (breaker.allow cfg now).2
  | .perform .recordSuccess resume, breaker =>
    settle cfg now (resume (.ok ())) breaker.recordSuccess
  | .perform .recordFailure resume, breaker =>
    settle cfg now (resume (.ok ())) (breaker.recordFailure cfg now)
  | program, breaker => (program, breaker)

/-- What the program goes on with after its await. -/
def deliver : Proc → Reply → Option Proc
  | .perform .post resume, .response response => some (resume (.ok (.ok response)))
  | .perform .post resume, .transient text => some (resume (.ok (.error text)))
  | .perform .sleep resume, .woken => some (resume (.ok ()))
  | .perform .post resume, .raised text => some (resume (.error (.error text)))
  | .perform .sleep resume, .raised text => some (resume (.error (.error text)))
  | _, _ => none

/-- What is left of the program in a call. -/
def Status.program (cfg : Config) : Status → Proc
  | .running (.posting attempt) =>
    (httpClient cfg).attempts () (attempts cfg - attempt + 1) attempt
  | .running (.sleeping attempt) => do
    perform .sleep
    (httpClient cfg).attempts () (attempts cfg - attempt) (attempt + 1)
  | .ended result => .ofExcept result

/-- The attempt of a call is one of `range(1, attempts + 1)`, and no call sleeps after the last. -/
def Call.Valid (cfg : Config) : Call → Prop
  | .posting attempt => 1 ≤ attempt ∧ attempt ≤ attempts cfg
  | .sleeping attempt => 1 ≤ attempt ∧ attempt < attempts cfg

variable {cfg : Config} {now : ℚ} {breaker : CircuitBreaker}

/-- The breaker after what a call has told it. -/
def recorded (cfg : Config) (now : ℚ) (breaker : CircuitBreaker) :
    Option Report → CircuitBreaker
  | none => breaker
  | some report => breaker.record cfg now report

theorem breaker_record (w : World) (report : Option Report) :
    (w.record cfg report).breaker = recorded cfg w.now w.breaker report := by
  cases report <;> rfl

/-- A call that is not at the end of an await has nothing to do with the breaker. -/
theorem settle_program (status : Status) :
    settle cfg now (status.program cfg) breaker = (status.program cfg, breaker) := by
  cases status with
  | running call => cases call <;> rfl
  | ended result => cases result <;> rfl

/-- A call that is admitted. -/
theorem settle_begun : settle cfg now ((httpClient cfg).attempts () (attempts cfg) 1) breaker =
    ((begun cfg).1.program cfg, recorded cfg now breaker (begun cfg).2) := by
  unfold begun
  by_cases hsome : 0 < attempts cfg
  · have hall : attempts cfg - 1 + 1 = attempts cfg := by omega
    have hprogram : Status.program cfg (.running (.posting 1)) =
        (httpClient cfg).attempts () (attempts cfg) 1 := by
      rw [Status.program, hall]
    rw [if_pos hsome, ← hprogram]
    exact settle_program (.running (.posting 1))
  · have hnone : attempts cfg = 0 := by omega
    rw [if_neg hsome, hnone]
    rfl

/-- A call that starts. -/
theorem settle_postJson (w : World) :
    settle cfg w.now ((httpClient cfg).postJson ()) w.breaker =
      ((w.entered cfg (w.breaker.allow cfg w.now)).status.program cfg,
        (w.start cfg).breaker) := by
  have hbreaker : (w.start cfg).breaker = recorded cfg w.now (w.breaker.allow cfg w.now).2
      (answered cfg (w.breaker.allow cfg w.now).1).2 :=
    breaker_record { w with breaker := (w.breaker.allow cfg w.now).2 } _
  rw [hbreaker]
  show settle cfg w.now (if (w.breaker.allow cfg w.now).1 = true then
      (httpClient cfg).attempts () (attempts cfg) 1
    else .raise (.breakerOpen s!"{cfg.name} circuit open")) (w.breaker.allow cfg w.now).2 = _
  unfold World.entered answered
  by_cases hok : (w.breaker.allow cfg w.now).1 = true
  · simp only [if_pos hok]
    exact settle_begun
  · simp only [if_neg hok]
    rfl

/-- The attempts after this one. -/
def following (cfg : Config) (attempt : ℕ) : Proc :=
  (httpClient cfg).attempts () (attempts cfg - attempt) (attempt + 1)

theorem settle_exhausted (lastExc : String) :
    settle cfg now ((httpClient cfg).exhausted lastExc) breaker =
      ((exhausted lastExc).1.program cfg, recorded cfg now breaker (exhausted lastExc).2) := rfl

theorem settle_pause (attempt : ℕ) (delay : Except Failure Unit) :
    settle cfg now ((httpClient cfg).pause delay (following cfg attempt)) breaker =
      ((pause attempt delay).1.program cfg, recorded cfg now breaker (pause attempt delay).2) := by
  cases delay <;> rfl

/-- After a 5xx, a timeout or a transport error. -/
theorem settle_again {attempt : ℕ} (hattempt : attempt ≤ attempts cfg) (lastExc : String) :
    settle cfg now ((httpClient cfg).again attempt (attempts cfg - attempt) lastExc
        (following cfg attempt)) breaker =
      ((again cfg attempt lastExc).1.program cfg,
        recorded cfg now breaker (again cfg attempt lastExc).2) := by
  unfold HttpClient.again again
  by_cases hmore : attempt < attempts cfg
  · rw [if_neg (by omega), if_pos hmore]
    exact settle_pause attempt _
  · rw [if_pos (by omega), if_neg hmore]
    exact settle_exhausted lastExc

/-- After a 429. -/
theorem settle_rateLimited {attempt : ℕ} (hattempt : attempt ≤ attempts cfg)
    (retryAfter : Option ℚ) :
    settle cfg now ((httpClient cfg).rateLimited attempt (attempts cfg - attempt) retryAfter
        (following cfg attempt)) breaker =
      ((rateLimited cfg attempt retryAfter).1.program cfg,
        recorded cfg now breaker (rateLimited cfg attempt retryAfter).2) := by
  unfold HttpClient.rateLimited rateLimited
  cases retryDelay attempt retryAfter with
  | ok delay =>
    by_cases hmore : attempt < attempts cfg
    · simp only [if_neg (show ¬ attempts cfg - attempt = 0 by omega), if_pos hmore]
      exact settle_pause attempt _
    · simp only [if_pos (show attempts cfg - attempt = 0 by omega), if_neg hmore]
      exact settle_exhausted _
  | error failure => rfl

/-- After a response. -/
theorem settle_react {attempt : ℕ} (hattempt : attempt ≤ attempts cfg) (response : HttpResponse) :
    settle cfg now ((httpClient cfg).react attempt (attempts cfg - attempt)
        (following cfg attempt) (.ok response)) breaker =
      ((receive cfg attempt response).1.program cfg,
        recorded cfg now breaker (receive cfg attempt response).2) := by
  unfold HttpClient.react receive
  by_cases hsuccess : response.statusCode < 300
  · simp only [if_pos hsuccess]
    show settle cfg now (HttpClient.parse response) breaker.recordSuccess = _
    unfold HttpClient.parse parse
    cases response.json <;> rfl
  · simp only [if_neg hsuccess]
    by_cases hlimit : response.statusCode = 429
    · simp only [if_pos hlimit]
      exact settle_rateLimited hattempt _
    · simp only [if_neg hlimit]
      by_cases hserver : 500 ≤ response.statusCode
      · simp only [if_pos hserver]
        exact settle_again hattempt _
      · simp only [if_neg hserver]
        rfl

/-- What a call does with a reply is what the program does with it. -/
theorem settle_deliver {call : Call} (hvalid : call.Valid cfg) (reply : Reply) :
    (deliver (Status.program cfg (.running call)) reply).map
        (fun program ↦ settle cfg now program breaker) =
      (resume cfg call reply).map fun next ↦
        (next.1.program cfg, recorded cfg now breaker next.2) := by
  cases call with
  | posting attempt =>
    cases reply with
    | response response => exact congrArg some (settle_react hvalid.2 response)
    | transient text => exact congrArg some (settle_again hvalid.2 text)
    | woken => rfl
    | raised text => rfl
  | sleeping attempt =>
    cases reply with
    | woken =>
      have hmore : attempts cfg - attempt = attempts cfg - (attempt + 1) + 1 := by
        have hlast := hvalid.2
        omega
      have hprogram : (httpClient cfg).attempts () (attempts cfg - attempt) (attempt + 1) =
          Status.program cfg (.running (.posting (attempt + 1))) := by
        rw [Status.program, ← hmore]
      refine congrArg some ?_
      show settle cfg now ((httpClient cfg).attempts () (attempts cfg - attempt) (attempt + 1))
        breaker = _
      rw [hprogram]
      exact settle_program (.running (.posting (attempt + 1)))
    | response response => rfl
    | transient text => rfl
    | raised text => rfl

/-! ### In every run -/

theorem valid_pause {attempt : ℕ} (hattempt : 1 ≤ attempt) (hmore : attempt < attempts cfg)
    {delay : Except Failure Unit} {call : Call} (h : (pause attempt delay).1 = .running call) :
    call.Valid cfg := by
  cases delay with
  | ok value =>
    obtain rfl := Status.running.inj h
    exact ⟨hattempt, hmore⟩
  | error failure => cases h

theorem valid_again {attempt : ℕ} (hattempt : 1 ≤ attempt) {lastExc : String} {call : Call}
    (h : (again cfg attempt lastExc).1 = .running call) : call.Valid cfg := by
  unfold again at h
  split at h
  · rename_i hmore
    exact valid_pause hattempt hmore h
  · cases h

theorem valid_rateLimited {attempt : ℕ} (hattempt : 1 ≤ attempt) {retryAfter : Option ℚ}
    {call : Call}
    (h : (rateLimited cfg attempt retryAfter).1 = .running call) : call.Valid cfg := by
  unfold rateLimited at h
  split at h
  · split at h
    · rename_i hmore
      exact valid_pause hattempt hmore h
    · cases h
  · cases h

theorem Call.Valid.resume {call call' : Call} {reply : Reply} {report : Option Report}
    (hvalid : call.Valid cfg)
    (h : ResilientClient.resume cfg call reply = some (.running call', report)) :
    call'.Valid cfg := by
  cases call with
  | posting attempt =>
    cases reply with
    | response response =>
      have hnext : (receive cfg attempt response).1 = .running call' := by
        rw [Option.some.inj h]
      unfold receive at hnext
      split_ifs at hnext
      · exact valid_rateLimited hvalid.1 hnext
      · exact valid_again hvalid.1 hnext
    | transient text =>
      have hnext : (again cfg attempt text).1 = .running call' := by
        rw [Option.some.inj h]
      exact valid_again hvalid.1 hnext
    | woken => cases h
    | raised text => cases h
  | sleeping attempt =>
    cases reply with
    | woken =>
      obtain ⟨hnext, -⟩ := Prod.mk.inj (Option.some.inj h)
      obtain rfl := Status.running.inj hnext
      exact ⟨Nat.le_add_left 1 attempt, hvalid.2⟩
    | response response => cases h
    | transient text => cases h
    | raised text => cases h

/-- Every call that is not finished is at one of its attempts. -/
def Numbered (cfg : Config) (w : World) : Prop :=
  ∀ entry ∈ w.calls, ∀ call, entry.status = .running call → call.Valid cfg

theorem Numbered.act {w w' : World} {action : Action} (h : Numbered cfg w)
    (hact : w.act cfg action = some w') : Numbered cfg w' := by
  cases action with
  | start =>
    obtain rfl := Option.some.inj hact
    intro entry hentry call hcall
    rcases List.mem_append.mp hentry with hold | hnew
    · exact h entry hold call hcall
    · have hfirst : (answered cfg (w.breaker.allow cfg w.now).1).1 = .running call := by
        rw [List.mem_singleton.mp hnew] at hcall
        exact hcall
      unfold answered begun at hfirst
      split_ifs at hfirst with hok hsome
      · obtain rfl := Status.running.inj hfirst
        exact ⟨Nat.le_refl 1, hsome⟩
      · cases hfirst
  | resume number reply =>
    obtain ⟨entry, next, hreaction, rfl⟩ := act_resume hact
    obtain ⟨hentry, call, hcall, hresume⟩ := reaction_some hreaction
    intro other hother call' hcall'
    rcases List.mem_or_eq_of_mem_set hother with hold | hnew
    · exact h other hold call' hcall'
    · have hvalid := h entry (List.mem_of_getElem? hentry) call hcall
      have hnext : next = (.running call', next.2) := by
        rw [hnew] at hcall'
        rw [← hcall']
      rw [hnext] at hresume
      exact hvalid.resume hresume
  | wait seconds =>
    obtain ⟨-, rfl⟩ := act_wait hact
    exact h

/-- In every run, a call that goes on runs `post_json` to its next await, or to its end. -/
theorem resume_refines {madeAt : ℚ} {w w' : World} {number : ℕ} {reply : Reply}
    (hw : (client cfg madeAt).Reachable Transitions.anyAction w)
    (hact : w.act cfg (.resume number reply) = some w') :
    ∃ entry entry' program, w.calls[number]? = some entry ∧ w'.calls[number]? = some entry' ∧
      deliver (entry.status.program cfg) reply = some program ∧
        settle cfg w.now program w.breaker = (entry'.status.program cfg, w'.breaker) := by
  have hnumbered : Numbered cfg w := by
    refine Transitions.invariant (fun _ hentry ↦ by cases hentry) ?_ hw
    exact fun s action s' h _ hstep ↦ h.act hstep
  obtain ⟨entry, next, hreaction, rfl⟩ := act_resume hact
  obtain ⟨hentry, call, hcall, hresume⟩ := reaction_some hreaction
  have hlt : number < w.calls.length := (List.getElem?_eq_some_iff.mp hentry).1
  have hvalid := hnumbered entry (List.mem_of_getElem? hentry) call hcall
  have hdeliver : (deliver (Status.program cfg (.running call)) reply).map
      (fun program ↦ settle cfg w.now program w.breaker) =
        some (next.1.program cfg, recorded cfg w.now w.breaker next.2) := by
    rw [settle_deliver hvalid, hresume]
    rfl
  obtain ⟨program, hprogram, hsettle⟩ := Option.map_eq_some_iff.mp hdeliver
  refine ⟨entry, _, program, hentry, List.getElem?_set_self hlt, ?_, ?_⟩
  · rw [hcall]
    exact hprogram
  · rw [hsettle]
    cases hreport : next.2 with
    | none =>
      rw [breaker_advance_silent hreport]
      rfl
    | some report =>
      rw [breaker_advance_report hreport]
      rfl

end DinnerRush.ResilientClient
