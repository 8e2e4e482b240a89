import DinnerRush.ResilientClient.System

/-!
# The half-open probe

What every step of a client does to its unfinished probes (`probing_start`, `probing_advance`), and
two invariants about them. A report has no identity, so a call from before the trip can take the
breaker out of half-open under a probe that is still running; as long as this does not happen there
is one unfinished probe at most (`singleProbe`). A call that ends without a report leaves the
breaker half-open with a probe in flight for ever; as long as this does not happen every admitted
call reports once and the breaker admits calls again (`neverWedged`). It happens when an await
raises what is not caught, and when a delay is no float (`resume_unreported_iff`).
-/

set_option autoImplicit false
set_option relaxedAutoImplicit false

namespace DinnerRush.ResilientClient

open Concurrency

variable {cfg : Config} {w w' : World} {entry : Entry} {number : ℕ}
  {next : Status × Option Report} {reply : Reply}

/-! ### What a step does to the calls -/

theorem reaction_some (h : w.reaction cfg number reply = some (entry, next)) :
    w.calls[number]? = some entry ∧ ∃ call, entry.status = .running call ∧
      resume cfg call reply = some next := by
  unfold World.reaction at h
  split at h
  · rename_i found hfound
    split at h
    · rename_i call hcall
      obtain ⟨reached, hreached, hsame⟩ := Option.map_eq_some_iff.mp h
      obtain ⟨rfl, rfl⟩ := Prod.mk.inj hsame
      exact ⟨hfound, call, hcall, hreached⟩
    · cases h
  · cases h

/-- A step that resumes a call. -/
theorem act_resume (h : w.act cfg (.resume number reply) = some w') :
    ∃ entry next, w.reaction cfg number reply = some (entry, next) ∧
      w' = w.advance cfg number entry next := by
  obtain ⟨⟨entry, next⟩, hreaction, hw⟩ := Option.map_eq_some_iff.mp h
  exact ⟨entry, next, hreaction, hw.symm⟩

theorem act_wait {seconds : ℚ} (h : w.act cfg (.wait seconds) = some w') :
    0 ≤ seconds ∧ w' = { w with now := w.now + seconds } := by
  simp only [World.act] at h
  split at h
  · rename_i hseconds
    exact ⟨hseconds, (Option.some.inj h).symm⟩
  · cases h

theorem probing_iff : w.probing number = true ↔
    ∃ entry, w.calls[number]? = some entry ∧ entry.admission = .probe ∧
      entry.status.isRunning = true := by
  rw [World.probing, Option.any_eq_true]
  simp only [Entry.probing, Bool.and_eq_true, decide_eq_true_eq]

theorem isRunning_answered {allowed : Bool} : (answered cfg allowed).1.isRunning = true ↔
    allowed = true ∧ 0 < attempts cfg := by
  unfold answered begun
  cases allowed with
  | true => by_cases hsome : 0 < attempts cfg <;> simp [hsome, exhausted, Status.isRunning]
  | false => simp [Status.isRunning]

theorem calls_start :
    (w.start cfg).calls = w.calls ++ [w.entered cfg (w.breaker.allow cfg w.now)] := rfl

/-- The calls after a start. -/
theorem probing_start : (w.start cfg).probing number = true ↔
    w.probing number = true ∨ number = w.calls.length ∧
      (w.breaker.allow cfg w.now).1 = true ∧
        (w.breaker.allow cfg w.now).2.state = .halfOpen ∧ 0 < attempts cfg := by
  rw [World.probing, World.probing, calls_start]
  rcases Nat.lt_trichotomy number w.calls.length with hlt | heq | hgt
  · rw [List.getElem?_append_left hlt]
    simp [Nat.ne_of_lt hlt]
  · subst heq
    rw [List.getElem?_concat_length, List.getElem?_eq_none (Nat.le_refl _)]
    simp only [Option.any_some, Option.any_none, Entry.probing, World.entered, Bool.and_eq_true,
      isRunning_answered]
    by_cases hok : (w.breaker.allow cfg w.now).1 = true
    · by_cases hstate : (w.breaker.allow cfg w.now).2.state = .halfOpen
      · simp [hok, hstate]
      · simp [hok, hstate]
    · simp [hok]
  · rw [List.getElem?_eq_none (by simp; omega), List.getElem?_eq_none (Nat.le_of_lt hgt)]
    simp [Nat.ne_of_gt hgt]

/-- A call that has an attempt, or is rejected, tells the breaker nothing when it starts. -/
theorem breaker_start (h : 0 < attempts cfg ∨ (w.breaker.allow cfg w.now).1 = false) :
    (w.start cfg).breaker = (w.breaker.allow cfg w.now).2 ∧ (w.start cfg).trips = w.trips := by
  have hsilent : (answered cfg (w.breaker.allow cfg w.now).1).2 = none := by
    unfold answered begun
    rcases h with hsome | hnot
    · cases (w.breaker.allow cfg w.now).1 <;> simp [hsome]
    · simp [hnot]
  unfold World.start
  simp only [hsilent]
  exact ⟨rfl, rfl⟩

/-- An admitted call without an attempt has failed when it starts. -/
theorem breaker_start_of_none (hnone : attempts cfg = 0)
    (hok : (w.breaker.allow cfg w.now).1 = true) :
    (w.start cfg).breaker = (w.breaker.allow cfg w.now).2.record cfg w.now .failure ∧
      (w.start cfg).trips =
        if (w.breaker.allow cfg w.now).2.trips cfg .failure then w.trips + 1 else w.trips := by
  have hreport : (answered cfg (w.breaker.allow cfg w.now).1).2 = some .failure := by
    simp [answered, begun, hok, hnone, exhausted]
  unfold World.start
  simp only [hreport]
  exact ⟨rfl, rfl⟩

theorem now_start : (w.start cfg).now = w.now := by
  unfold World.start World.record
  dsimp only
  split <;> rfl

/-- The calls after one of them went on. -/
theorem probing_advance {other : ℕ} (hentry : w.calls[number]? = some entry) :
    (w.advance cfg number entry next).probing other = true ↔
      if other = number then entry.admission = .probe ∧ next.1.isRunning = true
      else w.probing other = true := by
  have hlt : number < w.calls.length := (List.getElem?_eq_some_iff.mp hentry).1
  rw [World.probing, World.advance]
  by_cases hother : other = number
  · subst hother
    rw [if_pos rfl, List.getElem?_set_self hlt]
    simp [Entry.probing]
  · rw [if_neg hother, List.getElem?_set_ne (Ne.symm hother), World.probing]

/-- A call that has gone on was running before. -/
theorem probing_of_advance {other : ℕ} (h : w.reaction cfg number reply = some (entry, next))
    (hprobing : (w.advance cfg number entry next).probing other = true) :
    w.probing other = true := by
  obtain ⟨hentry, call, hcall, -⟩ := reaction_some h
  rw [probing_advance hentry] at hprobing
  split at hprobing
  · rename_i hother
    rw [hother, probing_iff]
    refine ⟨entry, hentry, hprobing.1, ?_⟩
    rw [hcall]
    rfl
  · exact hprobing

theorem now_advance : (w.advance cfg number entry next).now = w.now := by
  unfold World.advance World.record
  split <;> rfl

theorem breaker_advance_silent (h : next.2 = none) :
    (w.advance cfg number entry next).breaker = w.breaker := by
  unfold World.advance
  rw [h]
  rfl

theorem breaker_advance_report {report : Report} (h : next.2 = some report) :
    (w.advance cfg number entry next).breaker = w.breaker.record cfg w.now report := by
  unfold World.advance
  rw [h]
  rfl

/-- A call that has reported is finished. -/
theorem not_probing_of_report {report : Report}
    (h : w.reaction cfg number reply = some (entry, next)) (hreport : next.2 = some report) :
    (w.advance cfg number entry next).probing number = false := by
  obtain ⟨hentry, call, -, hresume⟩ := reaction_some h
  rw [Bool.eq_false_iff, Ne, probing_advance hentry, if_pos rfl]
  rintro ⟨-, hrunning⟩
  have hsome : resume cfg call reply = some (next.1, some report) := by
    rw [hresume, ← hreport]
  rw [resume_report hsome] at hrunning
  cases hrunning

/-! ### What a step does to the breaker -/

/-- The answers of `allow`. -/
theorem allow_cases (breaker : CircuitBreaker) (now : ℚ) :
    (breaker.state = .closed ∧ breaker.allow cfg now = (true, breaker)) ∨
      (breaker.state = .opened ∧ cfg.openSeconds ≤ now - breaker.openedAt ∧
        breaker.allow cfg now =
          (true, { breaker with state := .halfOpen, probeInflight := true })) ∨
      (breaker.state = .opened ∧ now - breaker.openedAt < cfg.openSeconds ∧
        breaker.allow cfg now = (false, breaker)) ∨
      (breaker.state = .halfOpen ∧ breaker.probeInflight = true ∧
        breaker.allow cfg now = (false, breaker)) ∨
      (breaker.state = .halfOpen ∧ breaker.probeInflight = false ∧
        breaker.allow cfg now = (true, { breaker with probeInflight := true })) := by
  unfold CircuitBreaker.allow
  cases hstate : breaker.state with
  | closed => exact Or.inl ⟨rfl, rfl⟩
  | opened =>
    by_cases hcooled : cfg.openSeconds ≤ now - breaker.openedAt
    · exact Or.inr (Or.inl ⟨rfl, hcooled, by simp [hcooled, CircuitBreaker.admitProbe]⟩)
    · exact Or.inr (Or.inr (Or.inl ⟨rfl, not_le.mp hcooled, by simp [hcooled]⟩))
  | halfOpen =>
    cases hprobe : breaker.probeInflight with
    | true =>
      refine Or.inr (Or.inr (Or.inr (Or.inl ⟨rfl, rfl, ?_⟩)))
      simp [CircuitBreaker.admitProbe, hprobe]
    | false =>
      refine Or.inr (Or.inr (Or.inr (Or.inr ⟨rfl, rfl, ?_⟩)))
      simp [CircuitBreaker.admitProbe, hprobe, hstate]

/-- A rejection leaves the breaker as it is. -/
theorem allow_rejects {breaker : CircuitBreaker} {now : ℚ}
    (h : (breaker.allow cfg now).1 = false) : (breaker.allow cfg now).2 = breaker := by
  rcases @allow_cases cfg breaker now with ⟨-, hallow⟩ | ⟨-, -, hallow⟩ | ⟨-, -, hallow⟩ |
    ⟨-, -, hallow⟩ | ⟨-, -, hallow⟩
  · rw [hallow]
  · rw [hallow] at h
    cases h
  · rw [hallow]
  · rw [hallow]
  · rw [hallow] at h
    cases h

/-- A call is admitted by a closed breaker, which stays as it is, or as the probe, in the absence of
another. -/
theorem allow_admits {breaker : CircuitBreaker} {now : ℚ}
    (h : (breaker.allow cfg now).1 = true) :
    (breaker.state = .closed ∧ (breaker.allow cfg now).2 = breaker) ∨
      (breaker.state ≠ .closed ∧
        (breaker.state = .halfOpen → breaker.probeInflight = false) ∧
        (breaker.allow cfg now).2 =
          { breaker with state := .halfOpen, probeInflight := true }) := by
  rcases @allow_cases cfg breaker now with ⟨hclosed, hallow⟩ | ⟨hopened, -, hallow⟩ |
    ⟨-, -, hallow⟩ | ⟨-, -, hallow⟩ | ⟨hhalf, hidle, hallow⟩
  · rw [hallow]
    exact Or.inl ⟨hclosed, rfl⟩
  · rw [hallow]
    simp [hopened]
  · rw [hallow] at h
    cases h
  · rw [hallow] at h
    cases h
  · rw [hallow]
    simp [hhalf, hidle]

/-- Either a call reports at once, without an attempt, or it tells the breaker nothing when it
starts. -/
theorem atOnce_or_silent (cfg : Config) (w : World) :
    (attempts cfg = 0 ∧ (w.breaker.allow cfg w.now).1 = true) ∨
      (0 < attempts cfg ∨ (w.breaker.allow cfg w.now).1 = false) := by
  rcases Nat.eq_zero_or_pos (attempts cfg) with hzero | hsome
  · cases (w.breaker.allow cfg w.now).1 with
    | true => exact Or.inl ⟨hzero, rfl⟩
    | false => exact Or.inr (Or.inr rfl)
  · exact Or.inr (Or.inl hsome)

/-- After a report the breaker is not half-open, and no probe is in flight if none was. -/
theorem record_cases (breaker : CircuitBreaker) (now : ℚ) (report : Report) :
    (breaker.record cfg now report).state ≠ .halfOpen ∧
      (breaker.state = .halfOpen → (breaker.record cfg now report).probeInflight = false) ∧
      (breaker.probeInflight = false →
        (breaker.record cfg now report).probeInflight = false) := by
  cases report with
  | success => exact ⟨nofun, fun _ ↦ rfl, fun _ ↦ rfl⟩
  | failure =>
    unfold CircuitBreaker.record CircuitBreaker.recordFailure
    by_cases hhalf : breaker.state = .halfOpen
    · simp [hhalf, CircuitBreaker.trip]
    · by_cases hthreshold : cfg.failThreshold ≤ breaker.failures + 1
      · simp [hhalf, hthreshold, CircuitBreaker.trip]
      · simp [hhalf, hthreshold]

/-! ### One probe at a time -/

/-- At most one call that was admitted in the half-open state is unfinished. -/
def SingleProbe (w : World) : Prop :=
  ∀ number other, w.probing number = true → w.probing other = true → number = other

/-- What a call would report with the reply. -/
def World.reportOf (cfg : Config) (w : World) (number : ℕ) (reply : Reply) : Option Report :=
  (w.reaction cfg number reply).bind fun reaction ↦ reaction.2.2

/-- While the breaker is half-open, no call reports but the probe in flight, if there is one. -/
def reportsAlone (cfg : Config) : Transitions.Condition World Action
  | w, .resume number reply => (w.reportOf cfg number reply).isSome →
      w.breaker.state = .halfOpen → ∀ other < w.calls.length, w.probing other = true →
        other = number
  | _, _ => True

theorem lt_of_probing (h : w.probing number = true) : number < w.calls.length := by
  obtain ⟨entry, hentry, -⟩ := probing_iff.mp h
  exact (List.getElem?_eq_some_iff.mp hentry).1

/-- There is an unfinished probe only in the half-open state, and then only one. -/
structure Lone (w : World) : Prop where
  single : SingleProbe w
  resting : w.breaker.state ≠ .halfOpen → ∀ number, w.probing number = false
  inflight : w.breaker.state = .halfOpen → w.breaker.probeInflight = true

/-- A start that admits no probe, or one that ends at once, leaves the unfinished probes. -/
theorem Lone.of_same (h : Lone w)
    (hsame : ∀ number, (w.start cfg).probing number = true ↔ w.probing number = true)
    (hresting : (w.start cfg).breaker.state ≠ .halfOpen → w.breaker.state ≠ .halfOpen)
    (hinflight : (w.start cfg).breaker.state = .halfOpen →
      (w.start cfg).breaker.probeInflight = true) : Lone (w.start cfg) where
  single number other hnumber hother :=
    h.single number other ((hsame number).mp hnumber) ((hsame other).mp hother)
  resting hstate number := by
    rw [Bool.eq_false_iff, Ne, hsame, h.resting (hresting hstate) number]
    exact Bool.false_ne_true
  inflight := hinflight

/-- A call that has reported before anything else can happen. -/
theorem Lone.start_atOnce (h : Lone w) (hzero : attempts cfg = 0)
    (hok : (w.breaker.allow cfg w.now).1 = true) : Lone (w.start cfg) := by
  obtain ⟨hbreaker, -⟩ := breaker_start_of_none hzero hok
  have hnothalf : (w.start cfg).breaker.state ≠ .halfOpen := by
    rw [hbreaker]
    exact (record_cases (w.breaker.allow cfg w.now).2 w.now .failure).1
  refine h.of_same (fun number ↦ ?_) (fun _ hhalf ↦ ?_) fun hhalf ↦ absurd hhalf hnothalf
  · simp [probing_start, hzero]
  · rcases allow_admits hok with ⟨hclosed, -⟩ | ⟨-, hidle, -⟩
    · rw [hclosed] at hhalf
      cases hhalf
    · have hprobe := h.inflight hhalf
      rw [hidle hhalf] at hprobe
      cases hprobe

/-- A call that is admitted as a probe finds no other. -/
theorem Lone.start_probe (h : Lone w) (hstate : w.breaker.state ≠ .halfOpen)
    (hbreaker : (w.start cfg).breaker =
      { w.breaker with state := .halfOpen, probeInflight := true }) : Lone (w.start cfg) := by
  have hnew : ∀ number, (w.start cfg).probing number = true → number = w.calls.length := by
    intro number hnumber
    rw [probing_start, h.resting hstate number] at hnumber
    rcases hnumber with hold | ⟨heq, -⟩
    · cases hold
    · exact heq
  refine ⟨fun number other hnumber hother ↦ ?_, fun hnot ↦ ?_, fun _ ↦ ?_⟩
  · rw [hnew number hnumber, hnew other hother]
  · rw [hbreaker] at hnot
    exact absurd rfl hnot
  · rw [hbreaker]

theorem Lone.start (h : Lone w) : Lone (w.start cfg) := by
  rcases atOnce_or_silent cfg w with ⟨hzero, hok⟩ | hsilent
  · exact h.start_atOnce hzero hok
  have hbreaker := (breaker_start hsilent).1
  have hstill : (w.start cfg).breaker = w.breaker →
      ((w.breaker.allow cfg w.now).1 = true → w.breaker.state ≠ .halfOpen) →
        Lone (w.start cfg) := by
    intro hsame hnot
    refine h.of_same (fun number ↦ ?_) (by rw [hsame]; exact id) (by rw [hsame]; exact h.inflight)
    rw [probing_start, ← hbreaker, hsame]
    exact or_iff_left fun ⟨_, hok, hhalf, _⟩ ↦ hnot hok hhalf
  cases hok : (w.breaker.allow cfg w.now).1 with
  | false =>
    refine hstill (hbreaker.trans (allow_rejects hok)) fun htrue ↦ ?_
    rw [hok] at htrue
    cases htrue
  | true =>
    rcases allow_admits hok with ⟨hclosed, hsame⟩ | ⟨-, hidle, hprobe⟩
    · refine hstill (hbreaker.trans hsame) fun _ hhalf ↦ ?_
      rw [hclosed] at hhalf
      cases hhalf
    · refine h.start_probe (fun hhalf ↦ ?_) (hbreaker.trans hprobe)
      have hinflight := h.inflight hhalf
      rw [hidle hhalf] at hinflight
      cases hinflight

theorem Lone.advance (h : Lone w) (hreaction : w.reaction cfg number reply = some (entry, next))
    (hcondition : reportsAlone cfg w (.resume number reply)) :
    Lone (w.advance cfg number entry next) := by
  have hbefore : ∀ other, (w.advance cfg number entry next).probing other = true →
      w.probing other = true := fun _ ↦ probing_of_advance hreaction
  refine ⟨fun first second hfirst hsecond ↦ ?_, fun hnot other ↦ ?_, fun hhalf ↦ ?_⟩
  · exact h.single first second (hbefore first hfirst) (hbefore second hsecond)
  · rw [Bool.eq_false_iff]
    intro hprobing
    have hother := hbefore other hprobing
    by_cases hstate : w.breaker.state = .halfOpen
    · -- Something was reported, by the only probe there was.
      cases hreport : next.2 with
      | none =>
        rw [breaker_advance_silent hreport] at hnot
        exact hnot hstate
      | some report =>
        have hreported : (w.reportOf cfg number reply).isSome := by
          rw [World.reportOf, hreaction, Option.bind_some, hreport]
          rfl
        have hsame : other = number :=
          hcondition hreported hstate other (lt_of_probing hother) hother
        rw [hsame, not_probing_of_report hreaction hreport] at hprobing
        cases hprobing
    · rw [h.resting hstate other] at hother
      cases hother
  · cases hreport : next.2 with
    | none =>
      rw [breaker_advance_silent hreport] at hhalf ⊢
      exact h.inflight hhalf
    | some report =>
      rw [breaker_advance_report hreport] at hhalf
      exact absurd hhalf (record_cases w.breaker w.now report).1

theorem Lone.act {action : Action} (h : Lone w) (hcondition : reportsAlone cfg w action)
    (hact : w.act cfg action = some w') : Lone w' := by
  cases action with
  | start =>
    obtain rfl := Option.some.inj hact
    exact h.start
  | resume number reply =>
    obtain ⟨entry, next, hreaction, rfl⟩ := act_resume hact
    exact h.advance hreaction hcondition
  | wait seconds =>
    obtain ⟨-, rfl⟩ := act_wait hact
    exact ⟨h.single, h.resting, h.inflight⟩

/-- **Single half-open probe**: in every run of any number of calls, as long as no other call
reports while a probe is in flight. -/
theorem singleProbe {madeAt : ℚ} (hw : (client cfg madeAt).Reachable (reportsAlone cfg) w) :
    SingleProbe w := by
  have hlone : Lone w := by
    refine Transitions.invariant ⟨nofun, fun _ _ ↦ rfl, nofun⟩ ?_ hw
    exact fun s action s' h hcondition hact ↦ h.act hcondition hact
  exact hlone.single

instance (w : World) (action : Action) : Decidable (reportsAlone cfg w action) :=
  match action with
  | .resume number reply => inferInstanceAs (Decidable ((w.reportOf cfg number reply).isSome →
      w.breaker.state = .halfOpen → ∀ other < w.calls.length, w.probing other = true →
        other = number))
  | .start => .isTrue trivial
  | .wait _ => .isTrue trivial

/-- A breaker that opens at the first failed call. -/
def payment : Config where
  name := "payment"
  maxRetries := 3
  failThreshold := 1
  openSeconds := 5

/-- A call that fails at all of its attempts. -/
def failing (number : ℕ) : List Action :=
  [.resume number (.transient "timeout"), .resume number .woken,
   .resume number (.transient "timeout"), .resume number .woken,
   .resume number (.transient "timeout"), .resume number .woken,
   .resume number (.transient "timeout")]

/-- A probe is admitted after the cooldown, and the next call is rejected. -/
def probed : List Action := .start :: failing 0 ++ [.wait 5, .start, .start]

def probedWorld : World :=
  ((client payment 0).runMeeting (reportsAlone payment) (client payment 0).start probed).get
    (by decide +kernel)

theorem singleProbe_probedWorld : SingleProbe probedWorld ∧ probedWorld.probing 1 = true :=
  ⟨singleProbe (Transitions.reachable_of_runMeeting (Option.some_get _).symm), by decide +kernel⟩

/-- Two calls start together. The first fails after four seconds and trips the breaker, the second
fails while call 2 is the probe, which retries for longer than the breaker then stays open. -/
def outlasted : List Action :=
  [.start, .start, .wait 1] ++ failing 0 ++ (failing 1).take 6 ++
  [.wait 5, .start, .wait 1, .resume 1 (.transient "timeout"),
   .wait 2, .resume 2 (.transient "timeout"), .resume 2 .woken, .wait 3, .start]

def outlastedWorld : World :=
  ((client payment 0).run (client payment 0).start outlasted).get (by decide +kernel)

theorem not_singleProbe_outlastedWorld :
    (client payment 0).Reachable Transitions.anyAction outlastedWorld ∧
      ¬ SingleProbe outlastedWorld := by
  refine ⟨Transitions.reachable_of_run (Option.some_get _).symm, fun hsingle ↦ ?_⟩
  have hsame : 2 = 3 := hsingle 2 3 (by decide +kernel) (by decide +kernel)
  exact absurd hsame (by decide)

/-! ### Never wedged -/

/-- The attempt whose answer the call waits for. -/
def World.posting (w : World) (number : ℕ) : Option ℕ :=
  w.calls[number]?.bind fun entry ↦
    match entry.status with
    | .running (.posting attempt) => some attempt
    | _ => none

/-- Nothing is raised at an await that `post_json` does not catch, and no delay is computed that is
no float. -/
def caught (cfg : Config) : Transitions.Condition World Action
  | w, .resume number reply => (∀ text, reply ≠ .raised text) ∧
      ∀ attempt ∈ w.posting number, overflows cfg attempt reply = false
  | _, _ => True

instance (w : World) (action : Action) : Decidable (caught cfg w action) :=
  match action with
  | .resume _ (.raised text) => .isFalse fun h ↦ h.1 text rfl
  | .resume number (.response response) =>
    decidable_of_iff (∀ attempt ∈ w.posting number,
      overflows cfg attempt (.response response) = false) (by simp [caught])
  | .resume number (.transient text) =>
    decidable_of_iff (∀ attempt ∈ w.posting number,
      overflows cfg attempt (.transient text) = false) (by simp [caught])
  | .resume _ .woken => .isTrue (by simp [caught, overflows, backsOff])
  | .start => .isTrue trivial
  | .wait _ => .isTrue trivial

/-- What is claimed of every state of a client. -/
structure NeverWedged (cfg : Config) (w : World) : Prop where
  /-- A call that was admitted has reported one outcome when it ends. -/
  reported : ∀ entry ∈ w.calls, entry.admission ≠ .rejected → entry.status.isRunning = false →
    entry.reports.length = 1
  /-- The breaker takes a probe to be in flight only while one is running. -/
  backed : w.breaker.probeInflight = true → ∃ number, w.probing number = true
  /-- Once no probe is running, a call is admitted at the latest after the cooldown. -/
  admits : (∀ number, w.probing number = false) → ∀ later, w.now + cfg.openSeconds ≤ later →
    (w.breaker.allow cfg later).1 = true

/-- Every call has reported once it has ended, and a probe in flight is running. -/
structure Accounted (w : World) : Prop where
  reports : ∀ entry ∈ w.calls, entry.admission ≠ .rejected →
    entry.reports.length = if entry.status.isRunning then 0 else 1
  inflight : w.breaker.state = .halfOpen ↔ w.breaker.probeInflight = true
  backed : w.breaker.probeInflight = true → ∃ number, w.probing number = true
  past : w.breaker.state = .opened → w.breaker.openedAt ≤ w.now

/-- A breaker that is open after a report was open before, or has just tripped. -/
theorem openedAt_record (breaker : CircuitBreaker) (now : ℚ) (report : Report)
    (h : (breaker.record cfg now report).state = .opened) :
    (breaker.record cfg now report).openedAt = now ∨
      breaker.state = .opened ∧ (breaker.record cfg now report).openedAt = breaker.openedAt := by
  cases report with
  | success => cases h
  | failure =>
    unfold CircuitBreaker.record CircuitBreaker.recordFailure at h ⊢
    by_cases hhalf : breaker.state = .halfOpen
    · left
      simp [hhalf, CircuitBreaker.trip]
    · by_cases hthreshold : cfg.failThreshold ≤ breaker.failures + 1
      · left
        simp [hhalf, hthreshold, CircuitBreaker.trip]
      · right
        simpa [hhalf, hthreshold] using h

theorem reports_entered (answer : Bool × CircuitBreaker)
    (h : (w.entered cfg answer).admission ≠ .rejected) :
    (w.entered cfg answer).reports.length =
      if (w.entered cfg answer).status.isRunning then 0 else 1 := by
  have hok : answer.1 = true := by
    by_contra hnot
    rw [World.entered] at h
    simp [hnot] at h
  unfold World.entered answered begun
  by_cases hsome : 0 < attempts cfg
  · simp [hok, hsome, Status.isRunning]
  · simp [hok, hsome, exhausted, Status.isRunning]

/-- The breaker after a report, if a probe was in flight exactly in the half-open state. -/
theorem record_settles (breaker : CircuitBreaker) (now : ℚ) (report : Report)
    (h : breaker.state = .halfOpen ↔ breaker.probeInflight = true) :
    (breaker.record cfg now report).state ≠ .halfOpen ∧
      (breaker.record cfg now report).probeInflight = false := by
  obtain ⟨hnot, hreset, hnone⟩ := @record_cases cfg breaker now report
  refine ⟨hnot, ?_⟩
  by_cases hstate : breaker.state = .halfOpen
  · exact hreset hstate
  · apply hnone
    rw [Bool.eq_false_iff, Ne, ← h]
    exact hstate

/-- After `allow` a probe is in flight exactly in the half-open state, if it was so before. -/
theorem allow_inflight (breaker : CircuitBreaker) (now : ℚ)
    (h : breaker.state = .halfOpen ↔ breaker.probeInflight = true) :
    (breaker.allow cfg now).2.state = .halfOpen ↔
      (breaker.allow cfg now).2.probeInflight = true := by
  cases hok : (breaker.allow cfg now).1 with
  | false => rwa [allow_rejects hok]
  | true =>
    rcases allow_admits hok with ⟨-, hsame⟩ | ⟨-, -, hprobe⟩
    · rwa [hsame]
    · simp [hprobe]

/-- An open breaker that stays open keeps the time of its trip. -/
theorem Accounted.past_allow (h : Accounted w)
    (hopened : (w.breaker.allow cfg w.now).2.state = .opened) :
    (w.breaker.allow cfg w.now).2.openedAt ≤ w.now := by
  cases hok : (w.breaker.allow cfg w.now).1 with
  | false =>
    rw [allow_rejects hok] at hopened ⊢
    exact h.past hopened
  | true =>
    rcases allow_admits hok with ⟨-, hsame⟩ | ⟨-, -, hprobe⟩
    · rw [hsame] at hopened ⊢
      exact h.past hopened
    · rw [hprobe] at hopened
      cases hopened

/-- A probe in flight after a start was so before, or is the call that has started. -/
theorem Accounted.backed_start (h : Accounted w)
    (hsilent : 0 < attempts cfg ∨ (w.breaker.allow cfg w.now).1 = false)
    (hprobe : (w.breaker.allow cfg w.now).2.probeInflight = true) :
    ∃ number, (w.start cfg).probing number = true := by
  have hbefore : w.breaker.probeInflight = true →
      ∃ number, (w.start cfg).probing number = true := by
    intro hinflight
    obtain ⟨number, hnumber⟩ := h.backed hinflight
    exact ⟨number, probing_start.mpr (Or.inl hnumber)⟩
  cases hok : (w.breaker.allow cfg w.now).1 with
  | false =>
    rw [allow_rejects hok] at hprobe
    exact hbefore hprobe
  | true =>
    rcases allow_admits hok with ⟨-, hsame⟩ | ⟨-, -, hhalf⟩
    · rw [hsame] at hprobe
      exact hbefore hprobe
    · have hsome := hsilent.resolve_right (by simp [hok])
      exact ⟨w.calls.length, probing_start.mpr (Or.inr ⟨rfl, hok, by rw [hhalf], hsome⟩)⟩

theorem Accounted.start (h : Accounted w) : Accounted (w.start cfg) := by
  have hreports : ∀ entry ∈ (w.start cfg).calls, entry.admission ≠ .rejected →
      entry.reports.length = if entry.status.isRunning then 0 else 1 := by
    intro entry hentry hadmitted
    rcases List.mem_append.mp hentry with hold | hnew
    · exact h.reports entry hold hadmitted
    · rw [List.mem_singleton.mp hnew] at hadmitted ⊢
      exact reports_entered _ hadmitted
  have hpast := @Accounted.past_allow cfg w h
  rcases atOnce_or_silent cfg w with ⟨hzero, hok⟩ | hsilent
  · have hbreaker := (breaker_start_of_none hzero hok).1
    obtain ⟨hnot, hidle⟩ := @record_settles cfg _ w.now .failure
      (allow_inflight w.breaker w.now h.inflight)
    refine ⟨hreports, ?_, fun hprobe ↦ ?_, fun hopened ↦ ?_⟩
    · rw [hbreaker, hidle]
      simp [hnot]
    · rw [hbreaker, hidle] at hprobe
      cases hprobe
    · rw [hbreaker] at hopened ⊢
      rw [now_start]
      rcases openedAt_record _ w.now .failure hopened with hjust | ⟨hbefore, hsame⟩
      · rw [hjust]
      · rw [hsame]
        exact hpast hbefore
  · have hbreaker := (breaker_start hsilent).1
    refine ⟨hreports, ?_, fun hprobe ↦ ?_, ?_⟩
    · rw [hbreaker]
      exact allow_inflight w.breaker w.now h.inflight
    · rw [hbreaker] at hprobe
      exact h.backed_start hsilent hprobe
    · rw [hbreaker, now_start]
      exact hpast

theorem posting_of_running {attempt : ℕ} (hentry : w.calls[number]? = some entry)
    (hcall : entry.status = .running (.posting attempt)) : w.posting number = some attempt := by
  rw [World.posting, hentry, Option.bind_some, hcall]

/-- A step that meets the condition is no end without a report. -/
theorem not_unreported (hreaction : w.reaction cfg number reply = some (entry, next))
    (hcaught : caught cfg w (.resume number reply)) : ¬ Unreported next := by
  obtain ⟨hentry, call, hcall, hresume⟩ := reaction_some hreaction
  rw [resume_unreported_iff hresume]
  rintro (⟨text, hraised⟩ | ⟨attempt, rfl, hover⟩)
  · exact hcaught.1 text hraised
  · rw [hcaught.2 attempt (posting_of_running hentry hcall)] at hover
    cases hover

theorem Accounted.advance (h : Accounted w)
    (hreaction : w.reaction cfg number reply = some (entry, next))
    (hcaught : caught cfg w (.resume number reply)) :
    Accounted (w.advance cfg number entry next) := by
  obtain ⟨hentry, call, hcall, hresume⟩ := reaction_some hreaction
  have hruns : next.2 = none → next.1.isRunning = true := by
    intro hreport
    rw [← Bool.not_eq_false]
    exact fun hended ↦ not_unreported hreaction hcaught ⟨hended, hreport⟩
  have hreports : ∀ other ∈ (w.advance cfg number entry next).calls,
      other.admission ≠ .rejected →
        other.reports.length = if other.status.isRunning then 0 else 1 := by
    intro other hother hadmitted
    rcases List.mem_or_eq_of_mem_set hother with hold | hnew
    · exact h.reports other hold hadmitted
    · subst hnew
      have hbefore := h.reports entry (List.mem_of_getElem? hentry) hadmitted
      rw [hcall] at hbefore
      have hnone : entry.reports = [] := List.eq_nil_of_length_eq_zero hbefore
      show (entry.reports ++ next.2.toList).length = if next.1.isRunning then 0 else 1
      rw [hnone, List.nil_append]
      cases hreport : next.2 with
      | none =>
        rw [hruns hreport]
        rfl
      | some report =>
        have hsome : resume cfg call reply = some (next.1, some report) := by
          rw [hresume, ← hreport]
        rw [resume_report hsome]
        rfl
  cases hreport : next.2 with
  | none =>
    have hbreaker : (w.advance cfg number entry next).breaker = w.breaker :=
      breaker_advance_silent hreport
    refine ⟨hreports, ?_, fun hprobe ↦ ?_, ?_⟩
    · rw [hbreaker]
      exact h.inflight
    · rw [hbreaker] at hprobe
      obtain ⟨other, hother⟩ := h.backed hprobe
      refine ⟨other, (probing_advance hentry).mpr ?_⟩
      by_cases hsame : other = number
      · rw [if_pos hsame]
        rw [hsame, probing_iff] at hother
        obtain ⟨found, hfound, hadmission, -⟩ := hother
        rw [hentry] at hfound
        exact ⟨Option.some.inj hfound ▸ hadmission, hruns hreport⟩
      · rw [if_neg hsame]
        exact hother
    · rw [hbreaker, now_advance]
      exact h.past
  | some report =>
    have hbreaker : (w.advance cfg number entry next).breaker =
        w.breaker.record cfg w.now report := breaker_advance_report hreport
    obtain ⟨hnothalf, hprobe⟩ : (w.breaker.record cfg w.now report).state ≠ .halfOpen ∧
        (w.breaker.record cfg w.now report).probeInflight = false :=
      record_settles w.breaker w.now report h.inflight
    refine ⟨hreports, ?_, fun hinflight ↦ ?_, fun hopened ↦ ?_⟩
    · rw [hbreaker, hprobe]
      simp [hnothalf]
    · rw [hbreaker, hprobe] at hinflight
      cases hinflight
    · rw [hbreaker] at hopened ⊢
      rw [now_advance]
      rcases openedAt_record w.breaker w.now report hopened with hjust | ⟨hbefore, hsame⟩
      · rw [hjust]
      · rw [hsame]
        exact h.past hbefore

theorem Accounted.act {action : Action} (h : Accounted w) (hcondition : caught cfg w action)
    (hact : w.act cfg action = some w') : Accounted w' := by
  cases action with
  | start =>
    obtain rfl := Option.some.inj hact
    exact h.start
  | resume number reply =>
    obtain ⟨entry, next, hreaction, rfl⟩ := act_resume hact
    exact h.advance hreaction hcondition
  | wait seconds =>
    obtain ⟨hseconds, rfl⟩ := act_wait hact
    refine ⟨h.reports, h.inflight, h.backed, fun hopened ↦ ?_⟩
    show w.breaker.openedAt ≤ w.now + seconds
    have hpast := h.past hopened
    linarith

/-- A breaker without a probe in flight admits a call after its cooldown. -/
theorem Accounted.admits (h : Accounted w) (hnone : ∀ number, w.probing number = false) {later : ℚ}
    (hlater : w.now + cfg.openSeconds ≤ later) : (w.breaker.allow cfg later).1 = true := by
  rcases allow_cases w.breaker later with ⟨-, hallow⟩ | ⟨-, -, hallow⟩ |
    ⟨hstate, hearly, -⟩ | ⟨-, hprobe, -⟩ | ⟨-, -, hallow⟩
  · rw [hallow]
  · rw [hallow]
  · have hpast := h.past hstate
    linarith
  · obtain ⟨number, hnumber⟩ := h.backed hprobe
    rw [hnone number] at hnumber
    cases hnumber
  · rw [hallow]

/-- **The breaker never wedges**: in every run in which nothing is raised that `post_json` does not
catch, and every delay is a float. -/
theorem neverWedged {madeAt : ℚ} (hw : (client cfg madeAt).Reachable (caught cfg) w) :
    NeverWedged cfg w := by
  have haccounted : Accounted w := by
    refine Transitions.invariant ⟨nofun, by simp [client], nofun, nofun⟩ ?_ hw
    exact fun s action s' h hcondition hact ↦ h.act hcondition hact
  refine ⟨fun entry hentry hadmitted hended ↦ ?_, haccounted.backed, fun hnone later hlater ↦ ?_⟩
  · have hreports := haccounted.reports entry hentry hadmitted
    rw [hended] at hreports
    exact hreports
  · exact haccounted.admits hnone hlater

/-- The probe is answered with 200, and the breaker closes. -/
def recovered : List Action :=
  .start :: failing 0 ++
    [.wait 5, .start, .resume 1 (.response { statusCode := 200, json := some {} })]

def recoveredWorld : World :=
  ((client payment 0).runMeeting (caught payment) (client payment 0).start recovered).get
    (by decide +kernel)

theorem neverWedged_recoveredWorld :
    NeverWedged payment recoveredWorld ∧ recoveredWorld.breaker.state = .closed :=
  ⟨neverWedged (Transitions.reachable_of_runMeeting (Option.some_get _).symm), by decide +kernel⟩

/-- The task of the probe is cancelled while it waits for its answer. -/
def wedged : List Action :=
  .start :: failing 0 ++ [.wait 5, .start, .resume 1 (.raised "CancelledError")]

def wedgedWorld : World :=
  ((client payment 0).run (client payment 0).start wedged).get (by decide +kernel)

/-- No probe is running, and no call is admitted any more. -/
theorem not_neverWedged_wedgedWorld :
    (client payment 0).Reachable Transitions.anyAction wedgedWorld ∧
      ¬ NeverWedged payment wedgedWorld ∧
        ∀ later, (wedgedWorld.breaker.allow payment later).1 = false := by
  refine ⟨Transitions.reachable_of_run (Option.some_get _).symm, fun hnever ↦ ?_, fun later ↦ ?_⟩
  · obtain ⟨number, hnumber⟩ := hnever.backed (by decide +kernel)
    have hnone : ∀ number < wedgedWorld.calls.length, wedgedWorld.probing number = false := by
      decide +kernel
    rw [hnone number (lt_of_probing hnumber)] at hnumber
    cases hnumber
  · have hstate : wedgedWorld.breaker.state = .halfOpen := by decide +kernel
    have hprobe : wedgedWorld.breaker.probeInflight = true := by decide +kernel
    simp only [CircuitBreaker.allow, hstate, CircuitBreaker.admitProbe, hprobe, if_true]

end DinnerRush.ResilientClient
