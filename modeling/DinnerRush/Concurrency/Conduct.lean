import DinnerRush.Concurrency.ReadCommitted

/-!
# The conduct of programs

Which effects a program performs, whatever it is interleaved with. `Program.Conduct` is syntactic:
every effect is allowed, as long as every reply is one that may be expected. A world does not record
what was launched in it, so a property of the threads of one kind is stated over `World.Traced`, the
worlds reached together with the launches in the order of the thread numbers. `Rule.Enforced.inv` is
the induction over them: what the launches and the shared state keep as long as every thread
performs only what its launch may.
-/

set_option autoImplicit false
set_option relaxedAutoImplicit false

namespace DinnerRush.Concurrency

variable {S : Signature} {ε α β : Type}

/-! ### Programs -/

namespace Program

/-- Every effect is allowed and every value returned satisfies the postcondition, if the replies are
as expected. -/
def Conduct (expected : (effect : S.Effect) → Except ε (S.Result effect) → Prop)
    (allowed : S.Effect → Prop) (Q : α → Prop) : Program S ε α → Prop
  | ret value => Q value
  | raise _ => True
  | perform effect resume =>
    allowed effect ∧ ∀ reply, expected effect reply → (resume reply).Conduct expected allowed Q

variable {expected : (effect : S.Effect) → Except ε (S.Result effect) → Prop}
  {allowed : S.Effect → Prop} {Q Q' : α → Prop} {program : Program S ε α}

theorem Conduct.mono (h : program.Conduct expected allowed Q) (hQ : ∀ value, Q value → Q' value) :
    program.Conduct expected allowed Q' := by
  induction program with
  | ret value => exact hQ value h
  | raise error => trivial
  | perform effect resume ih => exact ⟨h.1, fun reply hreply ↦ ih reply (h.2 reply hreply)⟩

theorem Conduct.allowing {allowed' : S.Effect → Prop} (h : program.Conduct expected allowed Q)
    (hallowed : ∀ effect, allowed effect → allowed' effect) :
    program.Conduct expected allowed' Q := by
  induction program with
  | ret value => exact h
  | raise error => trivial
  | perform effect resume ih =>
    exact ⟨hallowed effect h.1, fun reply hreply ↦ ih reply (h.2 reply hreply)⟩

theorem Conduct.bind {next : α → Program S ε β} {Q' : β → Prop}
    (h : program.Conduct expected allowed Q)
    (hnext : ∀ value, Q value → (next value).Conduct expected allowed Q') :
    (program.bind next).Conduct expected allowed Q' := by
  induction program with
  | ret value => exact hnext value h
  | raise error => trivial
  | perform effect resume ih => exact ⟨h.1, fun reply hreply ↦ ih reply (h.2 reply hreply)⟩

theorem Conduct.tryCatch {handler : ε → Program S ε α} (h : program.Conduct expected allowed Q)
    (hhandler : ∀ error, (handler error).Conduct expected allowed Q) :
    (program.tryCatch handler).Conduct expected allowed Q := by
  induction program with
  | ret value => exact h
  | raise error => exact hhandler error
  | perform effect resume ih => exact ⟨h.1, fun reply hreply ↦ ih reply (h.2 reply hreply)⟩

theorem Conduct.attempt (h : program.Conduct expected allowed Q) :
    program.attempt.Conduct expected allowed fun outcome ↦ ∀ value, outcome = .ok value →
      Q value := by
  induction program with
  | ret value =>
    rintro _ ⟨⟩
    exact h
  | raise error =>
    rintro _ ⟨⟩
  | perform effect resume ih => exact ⟨h.1, fun reply hreply ↦ ih reply (h.2 reply hreply)⟩

theorem conduct_call {effect : S.Effect} {Q : S.Result effect → Prop} (hallowed : allowed effect)
    (hQ : ∀ value, expected effect (.ok value) → Q value) :
    (call effect : Program S ε (S.Result effect)).Conduct expected allowed Q := by
  refine ⟨hallowed, fun reply hreply ↦ ?_⟩
  cases reply with
  | ok value => exact hQ value hreply
  | error error => trivial

theorem Conduct.transaction {begin commit rollback : Program S ε Unit}
    (hbegin : begin.Conduct expected allowed fun _ ↦ True)
    (hcommit : commit.Conduct expected allowed fun _ ↦ True)
    (hrollback : rollback.Conduct expected allowed fun _ ↦ True)
    (h : program.Conduct expected allowed Q) :
    (transaction begin commit rollback program).Conduct expected allowed Q := by
  refine hbegin.bind fun _ _ ↦ h.attempt.bind fun outcome houtcome ↦ ?_
  cases outcome with
  | ok value => exact hcommit.bind fun _ _ ↦ houtcome value rfl
  | error error => exact hrollback.bind fun _ _ ↦ trivial

/-- A program that may do anything. -/
theorem conduct_of_allowed (h : ∀ effect, allowed effect) :
    program.Conduct expected allowed fun _ ↦ True := by
  induction program with
  | ret value => trivial
  | raise error => trivial
  | perform effect resume ih => exact ⟨h effect, fun reply _ ↦ ih reply⟩

end Program

/-! ### Properties that combinators keep -/

namespace Program

/-- A property of programs that every combinator keeps. -/
structure Closed (P : ∀ α : Type, Program S ε α → Prop) : Prop where
  ret : ∀ (α : Type) (value : α), P α (.ret value)
  raise : ∀ (α : Type) (error : ε), P α (.raise error)
  bind : ∀ (α β : Type) (program : Program S ε α) (next : α → Program S ε β), P α program →
    (∀ value, P β (next value)) → P β (program.bind next)
  tryCatch : ∀ (α : Type) (program : Program S ε α) (handler : ε → Program S ε α), P α program →
    (∀ error, P α (handler error)) → P α (program.tryCatch handler)
  attempt : ∀ (α : Type) (program : Program S ε α), P α program → P (Except ε α) program.attempt

theorem Closed.transaction {P : ∀ α : Type, Program S ε α → Prop} (hP : Closed P)
    {begin commit rollback : Program S ε Unit} {body : Program S ε α} (hbegin : P Unit begin)
    (hcommit : P Unit commit) (hrollback : P Unit rollback) (h : P α body) :
    P α (transaction begin commit rollback body) := by
  refine hP.bind _ _ _ _ hbegin fun _ ↦ hP.bind _ _ _ _ (hP.attempt _ _ h) fun outcome ↦ ?_
  cases outcome with
  | ok value => exact hP.bind _ _ _ _ hcommit fun _ ↦ hP.ret _ value
  | error error => exact hP.bind _ _ _ _ hrollback fun _ ↦ hP.raise _ error

theorem closed_conduct (expected : (effect : S.Effect) → Except ε (S.Result effect) → Prop)
    (allowed : S.Effect → Prop) : Closed fun (α : Type) (program : Program S ε α) ↦
      program.Conduct expected allowed fun _ ↦ True where
  ret _ _ := trivial
  raise _ _ := trivial
  bind _ _ _ _ h hnext := h.bind fun value _ ↦ hnext value
  tryCatch _ _ _ h hhandler := h.tryCatch hhandler
  attempt _ _ h := h.attempt.mono fun _ _ ↦ trivial

end Program

namespace Discipline

variable {M : Machine S ε α} (D : Discipline M)

/-- The program keeps the assertion, whatever the other threads do meanwhile: it holds again when
the program returns or raises. -/
def Maintains (thread : ℕ) (I : M.Shared → Prop) (β : Type) (program : Program S ε β) : Prop :=
  ∀ s, I s → D.wp thread (fun _ ↦ I) (fun _ ↦ I) program s

variable {D} {thread : ℕ} {I : M.Shared → Prop}

theorem closed_maintains (hI : ∀ s s', D.Rely thread s s' → I s → I s') :
    Program.Closed (D.Maintains thread I) where
  ret _ _ s hs s' hrely _ := hI s s' hrely hs
  raise _ _ s hs s' hrely _ := hI s s' hrely hs
  bind _ _ _ _ h hnext s hs := wp_bind (wp_mono (fun value ↦ hnext value) (fun _ _ h ↦ h) (h s hs))
  tryCatch _ _ _ h hhandler s hs :=
    wp_tryCatch (wp_mono (fun _ _ h ↦ h) (fun error ↦ hhandler error) (h s hs))
  attempt _ _ h s hs := wp_attempt (h s hs)

/-- An effect that keeps the assertion. -/
theorem maintains_call (hI : ∀ s s', D.Rely thread s s' → I s → I s') {effect : S.Effect}
    (h : ∀ s choice reply s', D.Inv s → I s → D.Permit thread effect choice s →
      M.exec thread effect choice s = some (reply, s') → D.Respects thread s s' ∧ I s') :
    D.Maintains thread I (S.Result effect) (.call effect) := by
  intro s hs
  apply wp_call
  intro s₁ hrely hinv choice reply s₂ hpermit hexec
  obtain ⟨hrespects, hs₂⟩ := h s₁ choice reply s₂ hinv (hI s s₁ hrely hs) hpermit hexec
  refine ⟨hrespects, ?_⟩
  cases reply with
  | ok value => exact fun s' hrely' _ ↦ hI s₂ s' hrely' hs₂
  | error error => exact fun s' hrely' _ ↦ hI s₂ s' hrely' hs₂

end Discipline

/-! ### Worlds with their launches -/

namespace World

variable {M : Machine S ε α}

instance (thread : ℕ) (effect : S.Effect) (choice : M.Choice) (s : M.Shared) :
    Decidable (anyEffect (M := M) thread effect choice s) :=
  inferInstanceAs (Decidable True)

/-- The launch of an action. -/
def launchOf : Action M → List M.Launch
  | .launch launch => [launch]
  | _ => []

/-- The world is reached by actions that all meet the condition, and these are its launches: thread
`i` runs the program of launch `i`. -/
inductive Traced (permit : Permit M) : List M.Launch → World M → Prop
  | initial : Traced permit [] (initial M)
  | act {launches : List M.Launch} {w w' : World M} {action : Action M} :
      Traced permit launches w → w.Permitted permit action → w.act action = some w' →
        Traced permit (launches ++ launchOf action) w'

/-- A weaker condition is met by the same runs. -/
theorem Traced.mono {permit permit' : Permit M}
    (h : ∀ thread effect choice s, permit thread effect choice s → permit' thread effect choice s)
    {launches : List M.Launch} {w : World M} (hw : Traced permit launches w) :
    Traced permit' launches w := by
  induction hw with
  | initial => exact .initial
  | act _ hpermit hact ih => exact ih.act (hpermit.mono h) hact

theorem Traced.run {permit : Permit M} [∀ thread effect choice s,
    Decidable (permit thread effect choice s)] {actions : List (Action M)} :
    ∀ {launches : List M.Launch} {w w' : World M}, Traced permit launches w →
      w.runPermitted permit actions = some w' →
        Traced permit (launches ++ actions.flatMap launchOf) w' := by
  induction actions with
  | nil =>
    intro launches w w' hw h
    obtain rfl : w = w' := by simpa [runPermitted] using h
    simpa using hw
  | cons action rest ih =>
    intro launches w w' hw h
    unfold runPermitted at h
    split at h
    · rename_i hpermits
      obtain ⟨middle, hact, hrest⟩ := Option.bind_eq_some_iff.mp h
      have hmiddle := ih (hw.act (permitted_of_permits hpermits) hact) hrest
      rw [List.flatMap_cons, ← List.append_assoc]
      exact hmiddle
    · cases h

theorem traced_of_runPermitted {permit : Permit M} [∀ thread effect choice s,
    Decidable (permit thread effect choice s)] {actions : List (Action M)} {w : World M}
    (h : (initial M).runPermitted permit actions = some w) :
    Traced permit (actions.flatMap launchOf) w := by
  have hrun := Traced.initial.run h
  rwa [List.nil_append] at hrun

theorem Traced.reachable {permit : Permit M} {launches : List M.Launch} {w : World M}
    (h : Traced permit launches w) : Reachable permit w := by
  induction h with
  | initial => exact .refl
  | act _ hpermit hact ih => exact ih.tail ⟨_, hpermit, hact⟩

/-- What the program of a launch may perform, what it may be given and what it may return, and what
holds of the launches and the shared state as long as the programs keep to it. What may be performed
may depend on the shared state. -/
structure Rule (M : Machine S ε α) where
  Allowed : M.Shared → M.Launch → S.Effect → Prop
  Expected : (effect : S.Effect) → Except ε (S.Result effect) → Prop
  Returns : M.Launch → α → Prop
  Inv : List M.Launch → M.Shared → Prop

/-- What may be performed in the one state may be performed in the other. -/
def Rule.Keeps (R : Rule M) (s s' : M.Shared) : Prop :=
  ∀ launched effect, R.Allowed s launched effect → R.Allowed s' launched effect

/-- The obligations of a rule: a launch starts a program that keeps to it, and so does what the
machine does for the program, and nothing that may be performed is forbidden later. -/
structure Rule.Enforced (R : Rule M) (permit : Permit M) : Prop where
  start : R.Inv [] M.start
  launch : ∀ launches launched s program s', R.Inv launches s →
    M.launch launches.length launched s = some (program, s') →
      R.Inv (launches ++ [launched]) s' ∧ R.Keeps s s' ∧
        program.Conduct R.Expected (R.Allowed s' launched) (R.Returns launched)
  exec : ∀ launches thread launched effect choice s reply s',
    launches[thread]? = some launched → R.Allowed s launched effect →
      permit thread effect choice s → R.Inv launches s →
        M.exec thread effect choice s = some (reply, s') →
          R.Inv launches s' ∧ R.Keeps s s' ∧ R.Expected effect reply
  ambient : ∀ launches act s s', R.Inv launches s → M.ambient act s = some s' →
    R.Inv launches s' ∧ R.Keeps s s'

/-- The numbers of the threads are those of the launches, and every thread keeps to the rule. -/
structure Rule.Kept (R : Rule M) (launches : List M.Launch) (w : World M) : Prop where
  next : w.next = launches.length
  inv : R.Inv launches w.shared
  conduct : ∀ thread program, w.threads thread = some program → ∃ launched,
    launches[thread]? = some launched ∧
      program.Conduct R.Expected (R.Allowed w.shared launched) (R.Returns launched)

theorem Rule.Kept.act {R : Rule M} {permit : Permit M} (hR : R.Enforced permit)
    {launches : List M.Launch} {w w' : World M} (h : R.Kept launches w) {action : Action M}
    (hpermit : w.Permitted permit action) (hact : w.act action = some w') :
    R.Kept (launches ++ launchOf action) w' := by
  have hnone : launchOf action = [] → launches ++ launchOf action = launches := by
    intro hnil
    rw [hnil, List.append_nil]
  cases action with
  | launch launched =>
    obtain ⟨program, s', hlaunch, rfl⟩ := act_launch hact
    rw [h.next] at hlaunch
    obtain ⟨hinv, hkeeps, hconduct⟩ :=
      hR.launch launches launched w.shared program s' h.inv hlaunch
    refine ⟨?_, hinv, fun thread other hthread ↦ ?_⟩
    · show w.next + 1 = (launches ++ [launched]).length
      rw [List.length_append, List.length_singleton, h.next]
    · by_cases hnew : thread = w.next
      · subst hnew
        obtain rfl : program = other := by simpa using hthread
        refine ⟨launched, ?_, hconduct⟩
        show (launches ++ [launched])[w.next]? = some launched
        rw [h.next, List.getElem?_concat_length]
      · obtain ⟨launched', hlaunched', hother⟩ :=
          h.conduct thread other (by simpa [hnew] using hthread)
        refine ⟨launched', ?_, hother.allowing (hkeeps launched')⟩
        show (launches ++ [launched])[thread]? = some launched'
        rw [List.getElem?_append_left (List.getElem?_eq_some_iff.mp hlaunched').1, hlaunched']
  | step thread choice =>
    obtain ⟨effect, resume, reply, s', hthread, hexec, rfl⟩ := act_step hact
    obtain ⟨launched, hlaunched, hallowed, hresume⟩ := h.conduct thread _ hthread
    obtain ⟨hinv, hkeeps, hexpected⟩ := hR.exec launches thread launched effect choice w.shared
      reply s'
      hlaunched hallowed (hpermit effect resume hthread) h.inv hexec
    rw [hnone rfl]
    refine ⟨h.next, hinv, fun other program hother ↦ ?_⟩
    by_cases hsame : other = thread
    · subst hsame
      obtain rfl : resume reply = program := by simpa using hother
      exact ⟨launched, hlaunched, (hresume reply hexpected).allowing (hkeeps launched)⟩
    · obtain ⟨launched', hlaunched', hconduct⟩ :=
        h.conduct other program (by simpa [hsame] using hother)
      exact ⟨launched', hlaunched', hconduct.allowing (hkeeps launched')⟩
  | kill thread =>
    obtain rfl := act_kill hact
    rw [hnone rfl]
    exact ⟨h.next, h.inv, fun other program hother ↦
      h.conduct other program (threads_of_kill hother)⟩
  | ambient act =>
    obtain ⟨s', hambient, rfl⟩ := act_ambient hact
    rw [hnone rfl]
    obtain ⟨hinv, hkeeps⟩ := hR.ambient launches act w.shared s' h.inv hambient
    refine ⟨h.next, hinv, fun thread program hthread ↦ ?_⟩
    obtain ⟨launched, hlaunched, hconduct⟩ := h.conduct thread program hthread
    exact ⟨launched, hlaunched, hconduct.allowing (hkeeps launched)⟩

/-- A rule that is enforced is kept in every world that is reached. -/
theorem Rule.Enforced.kept {R : Rule M} {permit : Permit M} (hR : R.Enforced permit)
    {launches : List M.Launch} {w : World M} (hw : Traced permit launches w) :
    R.Kept launches w := by
  induction hw with
  | initial =>
    refine ⟨rfl, hR.start, fun thread program hthread ↦ ?_⟩
    cases hthread
  | act _ hpermit hact ih => exact ih.act hR hpermit hact

end World

end DinnerRush.Concurrency
