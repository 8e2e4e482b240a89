import DinnerRush.Concurrency.Pool

/-!
# Rely-guarantee reasoning about a pool

A discipline for a machine fixes an invariant of the shared state and, for each thread, a relation
`Rely` that says what the rest of the pool may do to the shared state between two of its effects.
`Discipline.wp` is the weakest precondition of a program under it: before each effect the rest of
the pool may have acted, the effect keeps the invariant, and what it does is within the rely of
every other thread. It is closed under the rely by definition, so no stability side conditions
remain, and it has the usual rules for sequencing and error handlers.

`Discipline.holds_of_reachable` is soundness: when every launch starts a program whose weakest
precondition holds and every action of the environment keeps the invariant, the invariant holds in
every reachable world and every returned value satisfies its postcondition there.
-/

set_option autoImplicit false
set_option relaxedAutoImplicit false

namespace DinnerRush.Concurrency

variable {S : Signature} {ε α β : Type}

/-- What a proof about a pool fixes: the effects it is about (`Permit`), the invariant of the
shared state, what each thread relies on the others to do, what holds of a thread number before its
launch, and what holds of a returned value from then on. -/
structure Discipline (M : Machine S ε α) where
  Permit : World.Permit M
  Inv : M.Shared → Prop
  Rely : ℕ → M.Shared → M.Shared → Prop
  Fresh : ℕ → M.Shared → Prop
  Post : ℕ → α → M.Shared → Prop
  rely_refl : ∀ thread s, Rely thread s s
  rely_trans : ∀ thread s₁ s₂ s₃, Rely thread s₁ s₂ → Rely thread s₂ s₃ → Rely thread s₁ s₃
  fresh_rely : ∀ thread s s', Rely thread s s' → Fresh thread s → Fresh thread s'

namespace Discipline

variable {M : Machine S ε α} (D : Discipline M)

/-- From now on, whatever the other threads do, the assertion holds. -/
def Always (thread : ℕ) (P : M.Shared → Prop) (s : M.Shared) : Prop :=
  ∀ s', D.Rely thread s s' → D.Inv s' → P s'

/-- The step of a thread keeps the invariant and respects the rely of every other thread. -/
def Respects (thread : ℕ) (s s' : M.Shared) : Prop :=
  D.Inv s' ∧ ∀ other, other ≠ thread → D.Rely other s s'

/-- The weakest precondition of a program run by a thread, with a postcondition for its value and
one for a raised error. -/
def wp (thread : ℕ) (Q : β → M.Shared → Prop) (E : ε → M.Shared → Prop) :
    Program S ε β → M.Shared → Prop
  | .ret value => D.Always thread (Q value)
  | .raise error => D.Always thread (E error)
  | .perform effect resume => D.Always thread fun s ↦ ∀ choice reply s',
      D.Permit thread effect choice s → M.exec thread effect choice s = some (reply, s') →
        D.Respects thread s s' ∧ wp thread Q E (resume reply) s'

variable {D} {thread : ℕ} {Q Q' : β → M.Shared → Prop} {E E' : ε → M.Shared → Prop}

theorem Always.rely {P : M.Shared → Prop} {s s' : M.Shared} (h : D.Always thread P s)
    (hrely : D.Rely thread s s') : D.Always thread P s' :=
  fun s'' hs'' hinv ↦ h s'' (D.rely_trans thread s s' s'' hrely hs'') hinv

theorem Always.now {P : M.Shared → Prop} {s : M.Shared} (h : D.Always thread P s)
    (hinv : D.Inv s) : P s :=
  h s (D.rely_refl thread s) hinv

/-- A weakest precondition survives whatever the other threads do. -/
theorem wp_rely {program : Program S ε β} {s s' : M.Shared} (h : D.wp thread Q E program s)
    (hrely : D.Rely thread s s') : D.wp thread Q E program s' := by
  cases program <;> exact Always.rely h hrely

theorem wp_mono {program : Program S ε β} (hQ : ∀ value s, Q value s → Q' value s)
    (hE : ∀ error s, E error s → E' error s) {s : M.Shared} :
    D.wp thread Q E program s → D.wp thread Q' E' program s := by
  induction program generalizing s with
  | ret value => exact fun h s' hrely hinv ↦ hQ value s' (h s' hrely hinv)
  | raise error => exact fun h s' hrely hinv ↦ hE error s' (h s' hrely hinv)
  | perform effect resume ih =>
    intro h s₁ hrely hinv choice reply s₂ hpermit hexec
    obtain ⟨hrespects, hrest⟩ := h s₁ hrely hinv choice reply s₂ hpermit hexec
    exact ⟨hrespects, ih reply hrest⟩

/-- Waiting before a program starts adds nothing to what has to be shown of it. -/
theorem wp_of_always {program : Program S ε β} {s : M.Shared}
    (h : D.Always thread (D.wp thread Q E program) s) : D.wp thread Q E program s := by
  cases program <;> exact fun s' hrely hinv ↦ Always.now (h s' hrely hinv) hinv

/-- One effect: the step respects the other threads, and what follows is verified from its
result. -/
theorem wp_call {effect : S.Effect} {Q : S.Result effect → M.Shared → Prop} {s : M.Shared}
    (h : D.Always thread (fun s₁ ↦ ∀ choice reply s₂, D.Permit thread effect choice s₁ →
      M.exec thread effect choice s₁ = some (reply, s₂) → D.Respects thread s₁ s₂ ∧
        D.wp thread Q E (Program.ofExcept reply) s₂) s) :
    D.wp thread Q E (.call effect) s := h

/-- An effect that leaves the shared state alone. -/
theorem wp_call_of_silent {effect : S.Effect} {Q : S.Result effect → M.Shared → Prop}
    {s : M.Shared}
    (hsilent : ∀ s₁ choice reply s₂, M.exec thread effect choice s₁ = some (reply, s₂) → s₂ = s₁)
    (h : ∀ s₁ choice reply, D.Rely thread s s₁ →
      M.exec thread effect choice s₁ = some (reply, s₁) →
        D.wp thread Q E (Program.ofExcept reply) s₁) :
    D.wp thread Q E (.call effect) s := by
  apply wp_call
  intro s₁ hrely hinv choice reply s₂ _ hexec
  have hsame : s₂ = s₁ := hsilent s₁ choice reply s₂ hexec
  subst hsame
  exact ⟨⟨hinv, fun other _ ↦ D.rely_refl other s₂⟩, h s₂ choice reply hrely hexec⟩

/-- Sequencing: the second program is verified from the states in which the first returns. -/
theorem wp_bind {γ : Type} {program : Program S ε γ} {next : γ → Program S ε β} {s : M.Shared}
    (h : D.wp thread (fun value ↦ D.wp thread Q E (next value)) E program s) :
    D.wp thread Q E (program.bind next) s := by
  induction program generalizing s with
  | ret value => exact wp_of_always h
  | raise error => exact h
  | perform effect resume ih =>
    intro s₁ hrely hinv choice reply s₂ hpermit hexec
    obtain ⟨hrespects, hrest⟩ := h s₁ hrely hinv choice reply s₂ hpermit hexec
    exact ⟨hrespects, ih reply hrest⟩

/-- Error handlers are verified from the states in which the program raises. -/
theorem wp_tryCatch {program : Program S ε β} {handler : ε → Program S ε β} {s : M.Shared}
    (h : D.wp thread Q (fun error ↦ D.wp thread Q E (handler error)) program s) :
    D.wp thread Q E (program.tryCatch handler) s := by
  induction program generalizing s with
  | ret value => exact h
  | raise error => exact wp_of_always h
  | perform effect resume ih =>
    intro s₁ hrely hinv choice reply s₂ hpermit hexec
    obtain ⟨hrespects, hrest⟩ := h s₁ hrely hinv choice reply s₂ hpermit hexec
    exact ⟨hrespects, ih reply hrest⟩

theorem wp_attempt {program : Program S ε β} {Q : Except ε β → M.Shared → Prop} {s : M.Shared}
    (h : D.wp thread (fun value ↦ Q (.ok value)) (fun error ↦ Q (.error error)) program s) :
    D.wp thread Q E program.attempt s := by
  induction program generalizing s with
  | ret value => exact h
  | raise error => exact h
  | perform effect resume ih =>
    intro s₁ hrely hinv choice reply s₂ hpermit hexec
    obtain ⟨hrespects, hrest⟩ := h s₁ hrely hinv choice reply s₂ hpermit hexec
    exact ⟨hrespects, ih reply hrest⟩

/-- What no thread undoes: an assertion that every thread may rely on. -/
def Permanent (D : Discipline M) (P : M.Shared → Prop) : Prop :=
  ∀ thread s s', D.Rely thread s s' → P s → P s'

theorem Permanent.and {P P' : M.Shared → Prop} (hP : D.Permanent P) (hP' : D.Permanent P') :
    D.Permanent fun s ↦ P s ∧ P' s :=
  fun thread s s' hrely h ↦ ⟨hP thread s s' hrely h.1, hP' thread s s' hrely h.2⟩

/-- A permanent assertion survives the steps of a thread, which others may rely on. -/
theorem Permanent.respects {P : M.Shared → Prop} (hP : D.Permanent P) {s s' : M.Shared}
    (h : D.Respects thread s s') (hs : P s) : P s' :=
  hP (thread + 1) s s' (h.2 (thread + 1) (Nat.succ_ne_self thread)) hs

/-- The frame rule: what is permanent and holds before a program holds after it. -/
theorem wp_frame {P : M.Shared → Prop} (hP : D.Permanent P) {program : Program S ε β}
    {s : M.Shared} (hs : P s) (h : D.wp thread Q E program s) :
    D.wp thread (fun value s ↦ Q value s ∧ P s) (fun error s ↦ E error s ∧ P s) program s := by
  induction program generalizing s with
  | ret value => exact fun s' hrely hinv ↦ ⟨h s' hrely hinv, hP thread s s' hrely hs⟩
  | raise error => exact fun s' hrely hinv ↦ ⟨h s' hrely hinv, hP thread s s' hrely hs⟩
  | perform effect resume ih =>
    intro s₁ hrely hinv choice reply s₂ hpermit hexec
    obtain ⟨hrespects, hrest⟩ := h s₁ hrely hinv choice reply s₂ hpermit hexec
    have hs₂ : P s₂ := hP.respects hrespects (hP thread s s₁ hrely hs)
    exact ⟨hrespects, ih reply hs₂ hrest⟩

/-- What is permanent and holds before a program may be used of the values it returns. -/
theorem wp_known {P : M.Shared → Prop} (hP : D.Permanent P) {program : Program S ε β}
    {s : M.Shared} (hs : P s)
    (h : D.wp thread (fun value s ↦ P s → Q value s) E program s) :
    D.wp thread Q E program s :=
  wp_mono (fun _ _ hvalue ↦ hvalue.1 hvalue.2) (fun _ _ herror ↦ herror.1) (wp_frame hP hs h)

variable (D)

/-- The world satisfies the invariant, every program in it is verified from the current state on,
and the thread numbers not yet used are fresh. -/
structure Holds (w : World M) : Prop where
  inv : D.Inv w.shared
  verified : ∀ thread program, w.threads thread = some program →
    D.wp thread (D.Post thread) (fun _ _ ↦ True) program w.shared
  unused : ∀ thread, w.next ≤ thread → w.threads thread = none ∧ D.Fresh thread w.shared

/-- The obligations of a discipline: the initial state, the launches and the environment. -/
structure Verified : Prop where
  start : D.Inv M.start ∧ ∀ thread, D.Fresh thread M.start
  launch : ∀ thread launch s program s', D.Inv s → D.Fresh thread s →
    M.launch thread launch s = some (program, s') →
      D.Respects thread s s' ∧ D.wp thread (D.Post thread) (fun _ _ ↦ True) program s'
  ambient : ∀ ambient s s', D.Inv s → M.ambient ambient s = some s' →
    D.Inv s' ∧ ∀ thread, D.Rely thread s s'

variable {D}

theorem holds_initial (hD : D.Verified) : D.Holds (World.initial M) where
  inv := hD.start.1
  verified := fun _ _ h ↦ by simp [World.initial] at h
  unused := fun thread _ ↦ ⟨rfl, hD.start.2 thread⟩

/-- The programs of the other threads stay verified under a step that respects them. -/
theorem Holds.others {w : World M} (hw : D.Holds w) {thread : ℕ} {s' : M.Shared}
    (hrespects : D.Respects thread w.shared s') {other : ℕ} (hne : other ≠ thread)
    {program : Program S ε α} (h : w.threads other = some program) :
    D.wp other (D.Post other) (fun _ _ ↦ True) program s' :=
  wp_rely (hw.verified other program h) (hrespects.2 other hne)

theorem Holds.launch (hD : D.Verified) {w : World M} (hw : D.Holds w) {launch : M.Launch}
    {program : Program S ε α} {s' : M.Shared}
    (hlaunch : M.launch w.next launch w.shared = some (program, s')) :
    D.Holds ⟨s', Function.update w.threads w.next (some program), w.next + 1⟩ := by
  obtain ⟨hrespects, hwp⟩ :=
    hD.launch w.next launch w.shared program s' hw.inv (hw.unused w.next (Nat.le_refl _)).2 hlaunch
  refine ⟨hrespects.1, ?_, ?_⟩
  · intro thread other h
    by_cases hthread : thread = w.next
    · subst hthread
      obtain rfl : program = other := by simpa using h
      exact hwp
    · exact hw.others hrespects hthread (by simpa [hthread] using h)
  · intro thread hthread
    have hne : thread ≠ w.next := by simp only at hthread; omega
    have hunused := hw.unused thread (by simp only at hthread; omega)
    exact ⟨by simpa [hne] using hunused.1,
      D.fresh_rely thread _ _ (hrespects.2 thread hne) hunused.2⟩

theorem Holds.step {w : World M} (hw : D.Holds w) {thread : ℕ} {effect : S.Effect}
    {resume : Except ε (S.Result effect) → Program S ε α} {choice : M.Choice}
    (hthread : w.threads thread = some (.perform effect resume))
    (hpermit : D.Permit thread effect choice w.shared) {reply : Except ε (S.Result effect)}
    {s' : M.Shared} (hexec : M.exec thread effect choice w.shared = some (reply, s')) :
    D.Holds ⟨s', Function.update w.threads thread (some (resume reply)), w.next⟩ := by
  obtain ⟨hrespects, hrest⟩ :=
    (hw.verified thread _ hthread) w.shared (D.rely_refl thread _) hw.inv choice reply s' hpermit
      hexec
  refine ⟨hrespects.1, ?_, ?_⟩
  · intro other program h
    by_cases hother : other = thread
    · subst hother
      obtain rfl : resume reply = program := by simpa using h
      exact hrest
    · exact hw.others hrespects hother (by simpa [hother] using h)
  · intro other hother
    have hunused := hw.unused other hother
    have hne : other ≠ thread := by
      rintro rfl
      simp [hunused.1] at hthread
    exact ⟨by simpa [hne] using hunused.1,
      D.fresh_rely other _ _ (hrespects.2 other hne) hunused.2⟩

/-- One action keeps the discipline. -/
theorem Holds.act (hD : D.Verified) {w w' : World M} (hw : D.Holds w) {action : Action M}
    (hpermit : w.Permitted D.Permit action) (hact : w.act action = some w') : D.Holds w' := by
  cases action with
  | launch launched =>
    obtain ⟨program, s', hlaunch, rfl⟩ := World.act_launch hact
    exact hw.launch hD hlaunch
  | step thread choice =>
    obtain ⟨effect, resume, reply, s', hthread, hexec, rfl⟩ := World.act_step hact
    exact hw.step hthread (hpermit effect resume hthread) hexec
  | kill thread =>
    obtain rfl := World.act_kill hact
    refine ⟨hw.inv, fun other program h ↦ hw.verified other program (World.threads_of_kill h), ?_⟩
    intro other hother
    refine ⟨?_, (hw.unused other hother).2⟩
    by_cases hne : other = thread
    · simp [hne]
    · simpa [hne] using (hw.unused other hother).1
  | ambient ambient =>
    obtain ⟨s', hambient, rfl⟩ := World.act_ambient hact
    obtain ⟨hinv, hrely⟩ := hD.ambient ambient w.shared s' hw.inv hambient
    exact ⟨hinv, fun thread program h ↦ wp_rely (hw.verified thread program h) (hrely thread),
      fun thread hthread ↦ ⟨(hw.unused thread hthread).1,
        D.fresh_rely thread _ _ (hrely thread) (hw.unused thread hthread).2⟩⟩

/-- A thread not launched before the end of a step may rely on the step. -/
theorem Holds.act_rely (hD : D.Verified) {w w' : World M} (hw : D.Holds w) {action : Action M}
    (hpermit : w.Permitted D.Permit action) (hact : w.act action = some w') {thread : ℕ}
    (hthread : w'.next ≤ thread) : D.Rely thread w.shared w'.shared := by
  cases action with
  | launch launched =>
    obtain ⟨program, s', hlaunch, rfl⟩ := World.act_launch hact
    have hfresh := (hw.unused w.next (Nat.le_refl _)).2
    have hne : thread ≠ w.next := by simp only at hthread; omega
    exact (hD.launch w.next launched w.shared program s' hw.inv hfresh hlaunch).1.2 thread hne
  | step other choice =>
    obtain ⟨effect, resume, reply, s', hother, hexec, rfl⟩ := World.act_step hact
    have hne : thread ≠ other := by
      rintro rfl
      rw [(hw.unused thread hthread).1] at hother
      cases hother
    exact (Always.now (hw.verified other _ hother) hw.inv choice reply s'
      (hpermit effect resume hother) hexec).1.2 thread hne
  | kill other =>
    obtain rfl := World.act_kill hact
    exact D.rely_refl thread _
  | ambient ambient =>
    obtain ⟨s', hambient, rfl⟩ := World.act_ambient hact
    exact (hD.ambient ambient w.shared s' hw.inv hambient).2 thread

theorem next_le_of_act {w w' : World M} {action : Action M} (hact : w.act action = some w') :
    w.next ≤ w'.next := by
  cases action with
  | launch launched =>
    obtain ⟨program, s', -, rfl⟩ := World.act_launch hact
    exact Nat.le_succ _
  | step thread choice =>
    obtain ⟨effect, resume, reply, s', -, -, rfl⟩ := World.act_step hact
    exact Nat.le_refl _
  | kill thread =>
    obtain rfl := World.act_kill hact
    exact Nat.le_refl _
  | ambient ambient =>
    obtain ⟨s', -, rfl⟩ := World.act_ambient hact
    exact Nat.le_refl _

/-- Along a run the discipline holds on, and a thread not launched before its end may rely on all
of it. -/
theorem Holds.run (hD : D.Verified) {w w' : World M} (hw : D.Holds w)
    (hrun : Relation.ReflTransGen (World.Step D.Permit) w w') :
    D.Holds w' ∧ w.next ≤ w'.next ∧
      ∀ thread, w'.next ≤ thread → D.Rely thread w.shared w'.shared := by
  induction hrun with
  | refl => exact ⟨hw, Nat.le_refl _, fun thread _ ↦ D.rely_refl thread _⟩
  | tail _ hstep ih =>
    obtain ⟨hmiddle, hnext, hrely⟩ := ih
    obtain ⟨action, hpermit, hact⟩ := hstep
    have hlast := next_le_of_act hact
    refine ⟨hmiddle.act hD hpermit hact, Nat.le_trans hnext hlast, fun thread hthread ↦ ?_⟩
    exact D.rely_trans thread _ _ _ (hrely thread (Nat.le_trans hlast hthread))
      (hmiddle.act_rely hD hpermit hact hthread)

/-- Soundness: a verified discipline holds in every world reached by permitted actions. -/
theorem holds_of_reachable (hD : D.Verified) {w : World M}
    (hw : World.Reachable D.Permit w) : D.Holds w :=
  ((holds_initial hD).run hD hw).1

/-- What a verified discipline says of an answer: once a program has returned, its postcondition
holds of the value. -/
theorem Holds.post {w : World M} (hw : D.Holds w) {thread : ℕ} {value : α}
    (h : w.threads thread = some (.ret value)) : D.Post thread value w.shared :=
  Always.now (hw.verified thread _ h) hw.inv

end Discipline

end DinnerRush.Concurrency
