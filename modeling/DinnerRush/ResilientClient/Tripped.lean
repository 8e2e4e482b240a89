import DinnerRush.ResilientClient.Probe

/-!
# A tripped breaker

From a trip on the breaker is open for its cooldown, then half-open with one probe, and it is the
probe that closes or re-opens it (`Steady`). This holds of every step, as long as no call that was
admitted before the last trip reports while the breaker is not closed (`steadyBreaker`).
-/

set_option autoImplicit false
set_option relaxedAutoImplicit false

namespace DinnerRush.ResilientClient

open Concurrency

variable {cfg : Config} {w w' : World} {entry : Entry} {number : ℕ}
  {next : Status × Option Report} {reply : Reply} {action : Action}

/-- While the breaker is not closed, only a call that was admitted after its last trip reports. -/
def freshReports (cfg : Config) : Transitions.Condition World Action
  | w, .resume number reply => (w.reportOf cfg number reply).isSome → w.breaker.state ≠ .closed →
      ∀ entry ∈ w.calls[number]?, entry.trips = w.trips
  | _, _ => True

/-- The step is the report of the probe in flight, with this outcome. -/
def IsProbeReport (cfg : Config) (w : World) (action : Action) (report : Report) : Prop :=
  ∃ number reply, action = .resume number reply ∧ w.probing number = true ∧
    w.reportOf cfg number reply = some report

/-- What is claimed of a step of a client. -/
structure Steady (cfg : Config) (w : World) (action : Action) (w' : World) : Prop where
  /-- An open breaker rejects a call before the end of its cooldown, -/
  rejects : w.breaker.state = .opened → w.now < w.breaker.openedAt + cfg.openSeconds →
    action = .start → (w.breaker.allow cfg w.now).1 = false
  /-- admits the first call after it as the probe (which fails at once if it has no attempt), -/
  admits : w.breaker.state = .opened → w.breaker.openedAt + cfg.openSeconds ≤ w.now →
    action = .start → (∃ entry ∈ w'.calls[w.calls.length]?, entry.admission = .probe) ∧
      (0 < attempts cfg → w'.probing w.calls.length = true ∧ w'.breaker.state = .halfOpen)
  /-- and stays as it is until then. -/
  stays : w.breaker.state = .opened →
    ¬ (action = .start ∧ w.breaker.openedAt + cfg.openSeconds ≤ w.now) → w'.breaker = w.breaker
  /-- It closes only when the probe succeeds, -/
  closes : w.breaker.state ≠ .closed → w'.breaker.state = .closed →
    w.breaker.state = .halfOpen ∧ IsProbeReport cfg w action .success
  /-- re-opens only when the probe fails, -/
  reopens : w.breaker.state = .halfOpen → w'.breaker.state = .opened →
    IsProbeReport cfg w action .failure
  /-- and is not moved at all by the end of a call that was admitted before the trip. -/
  unmoved : w.breaker.state ≠ .closed → ∀ number reply entry, action = .resume number reply →
    w.calls[number]? = some entry → entry.trips < w.trips → w'.breaker = w.breaker

/-- While the breaker is not closed, the only unfinished call admitted since its last trip is the
probe. Calls without an attempt leave no breaker half-open. -/
structure Dated (cfg : Config) (w : World) : Prop where
  started : w.breaker.state = .halfOpen → 0 < attempts cfg
  past : ∀ entry ∈ w.calls, entry.trips ≤ w.trips
  recent : w.breaker.state ≠ .closed → ∀ entry ∈ w.calls, entry.status.isRunning = true →
    entry.trips = w.trips → w.breaker.state = .halfOpen ∧ entry.admission = .probe

/-- A report trips the breaker, closes it, or leaves its state. -/
theorem record_states (breaker : CircuitBreaker) (now : ℚ) (report : Report) :
    breaker.trips cfg report = true ∧ (breaker.record cfg now report).state = .opened ∨
      breaker.trips cfg report = false ∧ ((breaker.record cfg now report).state = .closed ∨
        breaker.state ≠ .halfOpen ∧
          (breaker.record cfg now report).state = breaker.state) := by
  cases report with
  | success => exact Or.inr ⟨rfl, Or.inl rfl⟩
  | failure =>
    unfold CircuitBreaker.record CircuitBreaker.recordFailure CircuitBreaker.trips
    by_cases hhalf : breaker.state = .halfOpen
    · simp [hhalf, CircuitBreaker.trip]
    · by_cases hthreshold : cfg.failThreshold ≤ breaker.failures + 1
      · simp [hhalf, hthreshold, CircuitBreaker.trip]
      · simp [hhalf, hthreshold]

/-- What a call that has an attempt, or is rejected, leaves of the dates. -/
theorem Dated.start_silent (h : Dated cfg w)
    (hsome : 0 < attempts cfg ∨ (w.breaker.allow cfg w.now).1 = false) :
    Dated cfg (w.start cfg) := by
  obtain ⟨hbreaker, htripped⟩ := breaker_start hsome
  refine ⟨fun hhalf ↦ ?_, fun entry hentry ↦ ?_, fun hstate entry hentry hrunning htrips ↦ ?_⟩
  · rcases hsome with hsome | hnot
    · exact hsome
    · rw [hbreaker, allow_rejects hnot] at hhalf
      exact h.started hhalf
  · rw [htripped]
    rcases List.mem_append.mp hentry with hold | hnew
    · exact h.past entry hold
    · rw [List.mem_singleton.mp hnew]
      exact Nat.le_refl _
  · rw [hbreaker] at hstate ⊢
    rw [htripped] at htrips
    rcases List.mem_append.mp hentry with hold | hnew
    · cases hok : (w.breaker.allow cfg w.now).1 with
      | false =>
        rw [allow_rejects hok] at hstate ⊢
        exact h.recent hstate entry hold hrunning htrips
      | true =>
        rcases allow_admits hok with ⟨hclosed, hsame⟩ | ⟨hnotclosed, -, hprobe⟩
        · rw [hsame] at hstate
          exact absurd hclosed hstate
        · rw [hprobe]
          exact ⟨rfl, (h.recent hnotclosed entry hold hrunning htrips).2⟩
    · rw [List.mem_singleton.mp hnew] at hrunning ⊢
      have hok : (w.breaker.allow cfg w.now).1 = true := (isRunning_answered.mp hrunning).1
      have hhalf : (w.breaker.allow cfg w.now).2.state = .halfOpen := by
        rcases allow_admits hok with ⟨hclosed, hsame⟩ | ⟨-, -, hprobe⟩
        · rw [hsame] at hstate
          exact absurd hclosed hstate
        · rw [hprobe]
      refine ⟨hhalf, ?_⟩
      simp [World.entered, hok, hhalf]

/-- A call without an attempt that is admitted trips the breaker, or leaves it closed. -/
theorem start_of_none (hnone : attempts cfg = 0) (hok : (w.breaker.allow cfg w.now).1 = true) :
    (w.start cfg).trips = w.trips + 1 ∧ (w.start cfg).breaker.state = .opened ∨
      (w.start cfg).trips = w.trips ∧ (w.start cfg).breaker.state = .closed := by
  obtain ⟨hbreaker, htripped⟩ := breaker_start_of_none hnone hok
  rw [hbreaker, htripped]
  have hstates := @record_states cfg (w.breaker.allow cfg w.now).2 w.now .failure
  rcases hstates with ⟨htrips, hopened⟩ | ⟨hnot, hclosed | ⟨hnothalf, hsame⟩⟩
  · rw [if_pos htrips]
    exact Or.inl ⟨rfl, hopened⟩
  · rw [hnot]
    exact Or.inr ⟨rfl, hclosed⟩
  · rw [hnot]
    refine Or.inr ⟨rfl, hsame.trans ?_⟩
    rcases allow_admits hok with ⟨hclosed, hkept⟩ | ⟨-, -, hprobe⟩
    · rw [hkept]
      exact hclosed
    · rw [hprobe] at hnothalf
      exact absurd rfl hnothalf

theorem Dated.start (h : Dated cfg w) : Dated cfg (w.start cfg) := by
  rcases atOnce_or_silent cfg w with ⟨hzero, hok⟩ | hsilent
  · have hmoved := start_of_none hzero hok
    have hold : ∀ entry ∈ (w.start cfg).calls, entry.status.isRunning = true → entry ∈ w.calls := by
      intro entry hentry hrunning
      rcases List.mem_append.mp hentry with hold | hnew
      · exact hold
      · rw [List.mem_singleton.mp hnew] at hrunning
        have hsome := (isRunning_answered.mp hrunning).2
        omega
    refine ⟨fun hhalf ↦ ?_, fun entry hentry ↦ ?_, fun hstate entry hentry hrunning htrips ↦ ?_⟩
    · rcases hmoved with ⟨-, hstate⟩ | ⟨-, hstate⟩
      · rw [hstate] at hhalf
        cases hhalf
      · rw [hstate] at hhalf
        cases hhalf
    · have hpast : entry.trips ≤ w.trips := by
        rcases List.mem_append.mp hentry with hold | hnew
        · exact h.past entry hold
        · rw [List.mem_singleton.mp hnew]
          exact Nat.le_refl _
      rcases hmoved with ⟨htrips, -⟩ | ⟨htrips, -⟩
      · omega
      · omega
    · have hpast := h.past entry (hold entry hentry hrunning)
      rcases hmoved with ⟨hmore, -⟩ | ⟨-, hclosed⟩
      · omega
      · exact absurd hclosed hstate
  · exact h.start_silent hsilent

theorem trips_advance_silent (h : next.2 = none) :
    (w.advance cfg number entry next).trips = w.trips := by
  unfold World.advance
  rw [h]
  rfl

theorem trips_advance_report {report : Report} (h : next.2 = some report) :
    (w.advance cfg number entry next).trips =
      if w.breaker.trips cfg report then w.trips + 1 else w.trips := by
  unfold World.advance
  rw [h]
  rfl

/-- A call after the step has a call of the same admission before it. -/
theorem mem_calls_advance (hreaction : w.reaction cfg number reply = some (entry, next))
    {other : Entry} (h : other ∈ (w.advance cfg number entry next).calls) :
    ∃ before ∈ w.calls, other.admission = before.admission ∧ other.trips = before.trips ∧
      (other.status.isRunning = true → before.status.isRunning = true) := by
  obtain ⟨hentry, call, hcall, -⟩ := reaction_some hreaction
  rcases List.mem_or_eq_of_mem_set h with hold | hnew
  · exact ⟨other, hold, rfl, rfl, id⟩
  · refine ⟨entry, List.mem_of_getElem? hentry, ?_⟩
    rw [hnew, hcall]
    exact ⟨rfl, rfl, fun _ ↦ rfl⟩

theorem Dated.advance (h : Dated cfg w)
    (hreaction : w.reaction cfg number reply = some (entry, next)) :
    Dated cfg (w.advance cfg number entry next) := by
  cases hreport : next.2 with
  | none =>
    refine ⟨fun hhalf ↦ ?_, ?_, ?_⟩
    · rw [breaker_advance_silent hreport] at hhalf
      exact h.started hhalf
    · intro other hother
      obtain ⟨before, hbefore, -, htrips, -⟩ := mem_calls_advance hreaction hother
      rw [htrips, trips_advance_silent hreport]
      exact h.past before hbefore
    · intro hstate other hother hrunning hrecent
      obtain ⟨before, hbefore, hadmission, htrips, hran⟩ := mem_calls_advance hreaction hother
      rw [htrips, trips_advance_silent hreport] at hrecent
      rw [breaker_advance_silent hreport] at hstate ⊢
      rw [hadmission]
      exact h.recent hstate before hbefore (hran hrunning) hrecent
  | some report =>
    have hstates : w.breaker.trips cfg report = true ∧
        (w.breaker.record cfg w.now report).state = .opened ∨
        w.breaker.trips cfg report = false ∧
          ((w.breaker.record cfg w.now report).state = .closed ∨ w.breaker.state ≠ .halfOpen ∧
            (w.breaker.record cfg w.now report).state = w.breaker.state) :=
      record_states w.breaker w.now report
    refine ⟨fun hhalf ↦ ?_, ?_, ?_⟩
    · rw [breaker_advance_report hreport] at hhalf
      exact absurd hhalf (record_cases w.breaker w.now report).1
    · intro other hother
      obtain ⟨before, hbefore, -, htrips, -⟩ := mem_calls_advance hreaction hother
      have hpast := h.past before hbefore
      rw [htrips, trips_advance_report hreport]
      split
      · exact Nat.le_succ_of_le hpast
      · exact hpast
    · intro hstate other hother hrunning hrecent
      obtain ⟨before, hbefore, -, htrips, hran⟩ := mem_calls_advance hreaction hother
      have hpast := h.past before hbefore
      rw [htrips, trips_advance_report hreport] at hrecent
      rw [breaker_advance_report hreport] at hstate ⊢
      rcases hstates with ⟨htripped, -⟩ | ⟨hnot, hclosed | ⟨hnothalf, hsame⟩⟩
      · -- Every call is from before a trip that has just happened.
        rw [if_pos htripped] at hrecent
        omega
      · exact absurd hclosed hstate
      · rw [hnot] at hrecent
        rw [hsame] at hstate
        have hhalf := (h.recent hstate before hbefore (hran hrunning) hrecent).1
        exact absurd hhalf hnothalf

theorem Dated.act (h : Dated cfg w) (hact : w.act cfg action = some w') : Dated cfg w' := by
  cases action with
  | start =>
    obtain rfl := Option.some.inj hact
    exact h.start
  | resume number reply =>
    obtain ⟨entry, next, hreaction, rfl⟩ := act_resume hact
    exact h.advance hreaction
  | wait seconds =>
    obtain ⟨-, rfl⟩ := act_wait hact
    exact ⟨h.started, h.past, h.recent⟩

/-! ### One step -/

/-- A step that leaves the breaker alone, and is no start after the cooldown. -/
theorem steady_of_unmoved (hsame : w'.breaker = w.breaker)
    (hearly : action = .start → w.breaker.state = .opened →
      w.now < w.breaker.openedAt + cfg.openSeconds) : Steady cfg w action w' where
  rejects hstate hcooling _ := by
    rcases allow_cases w.breaker w.now with ⟨hclosed, -⟩ | ⟨-, hcooled, -⟩ | ⟨-, -, hallow⟩ |
      ⟨-, -, hallow⟩ | ⟨hhalf, -, -⟩
    · rw [hstate] at hclosed
      cases hclosed
    · linarith
    · rw [hallow]
    · rw [hallow]
    · rw [hstate] at hhalf
      cases hhalf
  admits hstate hcooled hstart := absurd hcooled (not_le.mpr (hearly hstart hstate))
  stays _ _ := hsame
  closes hstate hclosed := by
    rw [hsame] at hclosed
    exact absurd hclosed hstate
  reopens hstate hopened := by
    rw [hsame, hstate] at hopened
    cases hopened
  unmoved _ _ _ _ _ _ _ := hsame

/-- A step from a closed breaker, which nothing is claimed of but what it reports. -/
theorem steady_of_closed (hclosed : w.breaker.state = .closed) : Steady cfg w action w' where
  rejects hopened := by
    rw [hclosed] at hopened
    cases hopened
  admits hopened := by
    rw [hclosed] at hopened
    cases hopened
  stays hopened := by
    rw [hclosed] at hopened
    cases hopened
  closes hstate := absurd hclosed hstate
  reopens hhalf := by
    rw [hclosed] at hhalf
    cases hhalf
  unmoved hstate := absurd hclosed hstate

/-- The first call after the cooldown. -/
theorem steady_probe (hopened : w.breaker.state = .opened)
    (hcooled : cfg.openSeconds ≤ w.now - w.breaker.openedAt)
    (hallow : w.breaker.allow cfg w.now =
      (true, { w.breaker with state := .halfOpen, probeInflight := true })) :
    Steady cfg w .start (w.start cfg) := by
  have hlate : w.breaker.openedAt + cfg.openSeconds ≤ w.now := by linarith
  have hstill : (w.start cfg).breaker.state ≠ .closed := by
    by_cases hsome : 0 < attempts cfg
    · rw [(breaker_start (Or.inl hsome)).1, hallow]
      exact nofun
    · rw [(breaker_start_of_none (by omega) (by rw [hallow])).1, hallow]
      exact nofun
  have hprobe : ∃ entry ∈ (w.start cfg).calls[w.calls.length]?, entry.admission = .probe := by
    refine ⟨w.entered cfg (w.breaker.allow cfg w.now), ?_, ?_⟩
    · rw [calls_start, List.getElem?_concat_length]
      rfl
    · simp [World.entered, hallow]
  refine ⟨fun _ hearly ↦ ?_, fun _ _ _ ↦ ⟨hprobe, fun hsome ↦ ⟨?_, ?_⟩⟩, fun _ hnot ↦ ?_,
    fun _ hclosed ↦ absurd hclosed hstill, fun hhalf ↦ ?_, fun _ _ _ _ hother ↦ by cases hother⟩
  · linarith
  · rw [probing_start, hallow]
    exact Or.inr ⟨rfl, rfl, rfl, hsome⟩
  · rw [(breaker_start (Or.inl hsome)).1, hallow]
  · exact absurd ⟨rfl, hlate⟩ hnot
  · rw [hopened] at hhalf
    cases hhalf

theorem Dated.steady_start (h : Dated cfg w) : Steady cfg w .start (w.start cfg) := by
  have hunmoved : (w.start cfg).breaker = (w.breaker.allow cfg w.now).2 →
      (w.breaker.allow cfg w.now).2 = w.breaker →
      (w.breaker.state = .opened → w.now < w.breaker.openedAt + cfg.openSeconds) →
        Steady cfg w .start (w.start cfg) :=
    fun hbreaker hsame hearly ↦ steady_of_unmoved (hbreaker.trans hsame) fun _ ↦ hearly
  rcases @allow_cases cfg w.breaker w.now with ⟨hclosed, -⟩ | ⟨hopened, hcooled, hallow⟩ |
    ⟨-, hearly, hallow⟩ | ⟨hhalf, -, hallow⟩ | ⟨hhalf, -, hallow⟩
  · exact steady_of_closed hclosed
  · exact steady_probe hopened hcooled hallow
  · refine hunmoved (breaker_start (Or.inr ?_)).1 (by rw [hallow]) fun _ ↦ by linarith
    rw [hallow]
  · refine hunmoved (breaker_start (Or.inr ?_)).1 (by rw [hallow]) fun hopened ↦ ?_
    · rw [hallow]
    · rw [hhalf] at hopened
      cases hopened
  · have hmoved : (w.start cfg).breaker = { w.breaker with probeInflight := true } := by
      rw [(breaker_start (Or.inl (h.started hhalf))).1, hallow]
    have hstill : (w.start cfg).breaker.state = .halfOpen := by
      rw [hmoved]
      exact hhalf
    refine ⟨fun hopened ↦ ?_, fun hopened ↦ ?_, fun hopened ↦ ?_, fun _ hclosed ↦ ?_,
      fun _ hopened ↦ ?_, fun _ _ _ _ hother ↦ by cases hother⟩
    · rw [hhalf] at hopened
      cases hopened
    · rw [hhalf] at hopened
      cases hopened
    · rw [hhalf] at hopened
      cases hopened
    · rw [hstill] at hclosed
      cases hclosed
    · rw [hstill] at hopened
      cases hopened

/-- While the breaker is not closed, a call that reports is the probe. -/
theorem Dated.probing_of_report (h : Dated cfg w)
    (hreaction : w.reaction cfg number reply = some (entry, next)) {report : Report}
    (hreport : next.2 = some report) (hfresh : freshReports cfg w (.resume number reply))
    (hstate : w.breaker.state ≠ .closed) :
    w.breaker.state = .halfOpen ∧ w.probing number = true ∧ entry.trips = w.trips ∧
      w.reportOf cfg number reply = some report := by
  obtain ⟨hentry, call, hcall, -⟩ := reaction_some hreaction
  have hreported : w.reportOf cfg number reply = some report := by
    rw [World.reportOf, hreaction, Option.bind_some, hreport]
  have htrips : entry.trips = w.trips :=
    hfresh (by rw [hreported]; rfl) hstate entry (Option.mem_def.mpr hentry)
  have hrunning : entry.status.isRunning = true := by
    rw [hcall]
    rfl
  obtain ⟨hhalf, hprobe⟩ :=
    h.recent hstate entry (List.mem_of_getElem? hentry) hrunning htrips
  exact ⟨hhalf, probing_iff.mpr ⟨entry, hentry, hprobe, hrunning⟩, htrips, hreported⟩

theorem Dated.steady_advance (h : Dated cfg w)
    (hreaction : w.reaction cfg number reply = some (entry, next))
    (hfresh : freshReports cfg w (.resume number reply)) :
    Steady cfg w (.resume number reply) (w.advance cfg number entry next) := by
  cases hreport : next.2 with
  | none => exact steady_of_unmoved (breaker_advance_silent hreport) nofun
  | some report =>
    have hmoved : (w.advance cfg number entry next).breaker =
        w.breaker.record cfg w.now report := breaker_advance_report hreport
    have hprobe := h.probing_of_report hreaction hreport hfresh
    obtain ⟨hentry, -⟩ := reaction_some hreaction
    have hnotOpened : w.breaker.state ≠ .opened := by
      intro hopened
      have hhalf := (hprobe (by rw [hopened]; exact nofun)).1
      rw [hopened] at hhalf
      cases hhalf
    refine ⟨fun hopened ↦ absurd hopened hnotOpened, fun hopened ↦ absurd hopened hnotOpened,
      fun hopened ↦ absurd hopened hnotOpened, fun hstate hclosed ↦ ?_, fun hhalf hopened ↦ ?_,
      fun hstate other _ stale hsame hstale hpast ↦ ?_⟩
    · obtain ⟨hhalf, hprobing, -, hreported⟩ := hprobe hstate
      refine ⟨hhalf, number, reply, rfl, hprobing, ?_⟩
      cases report with
      | success => exact hreported
      | failure =>
        rw [hmoved, CircuitBreaker.record, CircuitBreaker.recordFailure, if_pos hhalf] at hclosed
        cases hclosed
    · obtain ⟨-, hprobing, -, hreported⟩ := hprobe (by rw [hhalf]; exact nofun)
      refine ⟨number, reply, rfl, hprobing, ?_⟩
      cases report with
      | success =>
        rw [hmoved] at hopened
        cases hopened
      | failure => exact hreported
    · obtain ⟨-, -, htrips, -⟩ := hprobe hstate
      obtain ⟨rfl, -⟩ := Action.resume.inj hsame
      rw [hentry] at hstale
      obtain rfl := Option.some.inj hstale
      omega

theorem Dated.steady (h : Dated cfg w) (hfresh : freshReports cfg w action)
    (hact : w.act cfg action = some w') : Steady cfg w action w' := by
  cases action with
  | start =>
    obtain rfl := Option.some.inj hact
    exact h.steady_start
  | resume number reply =>
    obtain ⟨entry, next, hreaction, rfl⟩ := act_resume hact
    exact h.steady_advance hreaction hfresh
  | wait seconds =>
    obtain ⟨-, rfl⟩ := act_wait hact
    exact steady_of_unmoved rfl nofun

/-! ### Every run -/

/-- What is claimed of a state of a client, in a run whose steps meet a condition. -/
structure SteadyBreaker (condition : Transitions.Condition World Action) (cfg : Config) (madeAt : ℚ)
    (w : World) : Prop where
  /-- However the run goes on, an open breaker rejects every call before the end of its
  cooldown. -/
  cooldown : w.breaker.state = .opened → ∀ w',
    Relation.ReflTransGen ((client cfg madeAt).Step condition) w w' →
      w'.now < w.breaker.openedAt + cfg.openSeconds →
        w'.breaker = w.breaker ∧ (w'.breaker.allow cfg w'.now).1 = false
  /-- Every next step is steady. -/
  steady : ∀ action w', condition w action → w.act cfg action = some w' → Steady cfg w action w'

theorem now_le_act (hact : w.act cfg action = some w') : w.now ≤ w'.now := by
  cases action with
  | start =>
    obtain rfl := Option.some.inj hact
    rw [now_start]
  | resume number reply =>
    obtain ⟨entry, next, -, rfl⟩ := act_resume hact
    rw [now_advance]
  | wait seconds =>
    obtain ⟨hseconds, rfl⟩ := act_wait hact
    show w.now ≤ w.now + seconds
    linarith

theorem dated_of_reachable {madeAt : ℚ} {condition : Transitions.Condition World Action}
    (hw : (client cfg madeAt).Reachable condition w) : Dated cfg w :=
  Transitions.invariant ⟨nofun, nofun, fun _ _ hentry ↦ by cases hentry⟩
    (fun _ _ _ h _ hact ↦ h.act hact) hw

/-- Before the end of its cooldown nothing moves an open breaker. -/
theorem Dated.cooldown_run {madeAt : ℚ} (h : Dated cfg w) (hopened : w.breaker.state = .opened)
    (hrun : Relation.ReflTransGen ((client cfg madeAt).Step (freshReports cfg)) w w')
    (hearly : w'.now < w.breaker.openedAt + cfg.openSeconds) :
    Dated cfg w' ∧ w'.breaker = w.breaker := by
  induction hrun with
  | refl => exact ⟨h, rfl⟩
  | @tail middle last _ hstep ih =>
    obtain ⟨action, hfresh, hact⟩ := hstep
    have hnow : middle.now ≤ last.now := now_le_act hact
    obtain ⟨hmiddle, hsame⟩ := ih (lt_of_le_of_lt hnow hearly)
    have hstays : last.breaker = middle.breaker := by
      refine (hmiddle.steady hfresh hact).stays ?_ ?_
      · rw [hsame]
        exact hopened
      · rintro ⟨-, hlate⟩
        rw [hsame] at hlate
        linarith
    exact ⟨hmiddle.act hact, hstays.trans hsame⟩

/-- **Old calls do not move a tripped breaker**: in every run in which no call that was admitted
before the last trip reports while the breaker is not closed. -/
theorem steadyBreaker {madeAt : ℚ} (hw : (client cfg madeAt).Reachable (freshReports cfg) w) :
    SteadyBreaker (freshReports cfg) cfg madeAt w := by
  have hdated : Dated cfg w := dated_of_reachable hw
  constructor
  · intro hopened w' hrun hearly
    obtain ⟨hdated', hsame⟩ := hdated.cooldown_run hopened hrun hearly
    have hsteady : Steady cfg w' .start (w'.start cfg) := hdated'.steady_start
    refine ⟨hsame, hsteady.rejects ?_ ?_ rfl⟩
    · rw [hsame]
      exact hopened
    · rw [hsame]
      exact hearly
  · exact fun action w' hfresh hact ↦ hdated.steady hfresh hact

instance (w : World) (action : Action) : Decidable (freshReports cfg w action) :=
  match action with
  | .resume number reply => inferInstanceAs (Decidable ((w.reportOf cfg number reply).isSome →
      w.breaker.state ≠ .closed → ∀ entry ∈ w.calls[number]?, entry.trips = w.trips))
  | .start => .isTrue trivial
  | .wait _ => .isTrue trivial

/-- Two calls start together, and the first trips the breaker. -/
def tripped : List Action := [.start, .start] ++ failing 0

def trippedWorld : World :=
  ((client payment 0).runMeeting (freshReports payment) (client payment 0).start tripped).get
    (by decide +kernel)

theorem reachable_trippedWorld :
    (client payment 0).Reachable (freshReports payment) trippedWorld :=
  Transitions.reachable_of_runMeeting (Option.some_get _).symm

theorem steadyBreaker_trippedWorld :
    SteadyBreaker (freshReports payment) payment 0 trippedWorld ∧
      trippedWorld.breaker.state = .opened :=
  ⟨steadyBreaker reachable_trippedWorld, by decide +kernel⟩

/-- The second call succeeds at once, and the breaker is closed before its cooldown has begun to
run. -/
theorem not_steadyBreaker_trippedWorld :
    (client payment 0).Reachable Transitions.anyAction trippedWorld ∧
      ¬ SteadyBreaker Transitions.anyAction payment 0 trippedWorld := by
  refine ⟨reachable_trippedWorld.any, fun hsteady ↦ ?_⟩
  let late : Action := .resume 1 (.response { statusCode := 200, json := some {} })
  have hstep : Steady payment trippedWorld late
      ((trippedWorld.act payment late).get (by decide +kernel)) :=
    hsteady.steady late _ trivial (Option.some_get _).symm
  obtain ⟨hhalf, -⟩ := hstep.closes (by decide +kernel) (by decide +kernel)
  have hopened : trippedWorld.breaker.state = .opened := by decide +kernel
  rw [hopened] at hhalf
  cases hhalf

end DinnerRush.ResilientClient
