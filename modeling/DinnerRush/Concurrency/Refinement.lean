import DinnerRush.Concurrency.Pool

/-!
# Refinement of one machine by another

An observation is a function of the shared state. Along a run its values form a sequence, in which a
step that leaves the value alone adds nothing (`World.Observed`), so two machines may be compared
although they need different numbers of steps for the same changes. `World.observed_of_simulation`
is forward simulation: if every step of the first machine is matched by steps of the second that do
not change the observation and then at most one more, what is observed of the first can be observed
of the second.

A program of the second machine may have to be brought to the point where it matches again, by
effects that leave the shared state alone whatever it is (`Program.Quietly`).
-/

set_option autoImplicit false
set_option relaxedAutoImplicit false

namespace DinnerRush.Concurrency

variable {S : Signature} {ε α β γ : Type}

/-! ### Observations -/

namespace World

variable {M M₀ : Machine S ε α}

/-- The run to the world shows the observation this sequence of values, without repetitions of a
value that stays. -/
inductive Observed (observe : M.Shared → γ) : List γ → World M → Prop
  | initial : Observed observe [observe M.start] (initial M)
  | silent {seen : List γ} {w w' : World M} : Observed observe seen w → Step anyEffect w w' →
      observe w'.shared = observe w.shared → Observed observe seen w'
  | visible {seen : List γ} {w w' : World M} : Observed observe seen w → Step anyEffect w w' →
      observe w'.shared ≠ observe w.shared → Observed observe (seen ++ [observe w'.shared]) w'

/-- A step that the observation does not show. -/
def Silent (observe : M.Shared → γ) (w w' : World M) : Prop :=
  Step anyEffect w w' ∧ observe w'.shared = observe w.shared

/-- Silent steps and then at most one step of any kind. -/
def Weakly (observe : M.Shared → γ) (w w' : World M) : Prop :=
  ∃ middle, Relation.ReflTransGen (Silent observe) w middle ∧
    Relation.ReflGen (Step anyEffect) middle w'

variable {observe : M.Shared → γ} {observe₀ : M₀.Shared → γ} {seen : List γ} {w w' : World M}

theorem Observed.reachable (h : Observed observe seen w) : Reachable anyEffect w := by
  induction h with
  | initial => exact .refl
  | silent _ hstep _ ih => exact ih.tail hstep
  | visible _ hstep _ ih => exact ih.tail hstep

theorem Observed.silently (h : Observed observe seen w)
    (hrun : Relation.ReflTransGen (Silent observe) w w') :
    Observed observe seen w' ∧ observe w'.shared = observe w.shared := by
  induction hrun with
  | refl => exact ⟨h, rfl⟩
  | tail _ hstep ih => exact ⟨ih.1.silent hstep.1 hstep.2, hstep.2.trans ih.2⟩

/-- Every reachable world is at the end of some sequence of observations. -/
theorem exists_observed (observe : M.Shared → γ) (h : Reachable anyEffect w) :
    ∃ seen, Observed observe seen w := by
  induction h with
  | refl => exact ⟨_, .initial⟩
  | tail _ hstep ih =>
    obtain ⟨seen, hseen⟩ := ih
    rename_i middle last _
    by_cases hsame : observe last.shared = observe middle.shared
    · exact ⟨seen, hseen.silent hstep hsame⟩
    · exact ⟨_, hseen.visible hstep hsame⟩

theorem Weakly.refl (observe : M.Shared → γ) (w : World M) : Weakly observe w w :=
  ⟨w, .refl, .refl⟩

theorem Weakly.of_act {action : Action M} (h : w.act action = some w') : Weakly observe w w' :=
  ⟨w, .refl, .single ⟨action, permitted_anyEffect w action, h⟩⟩

theorem Weakly.after {middle : World M} (h : Weakly observe middle w')
    (hsilent : Relation.ReflTransGen (Silent observe) w middle) : Weakly observe w w' := by
  obtain ⟨last, hrest, hlast⟩ := h
  exact ⟨last, hsilent.trans hrest, hlast⟩

/-- Forward simulation: the second machine can show what the first shows. -/
theorem observed_of_simulation {Follows : World M → World M₀ → Prop}
    (hobserve : ∀ w w₀, Follows w w₀ → observe w.shared = observe₀ w₀.shared)
    (hinitial : Follows (initial M) (initial M₀))
    (hstep : ∀ w w' w₀ action, Follows w w₀ → w.act action = some w' →
      ∃ w₀', Weakly observe₀ w₀ w₀' ∧ Follows w' w₀')
    (h : Observed observe seen w) : ∃ w₀, Observed observe₀ seen w₀ ∧ Follows w w₀ := by
  induction h with
  | initial =>
    have hstart : observe M.start = observe₀ M₀.start := hobserve _ _ hinitial
    rw [hstart]
    exact ⟨_, .initial, hinitial⟩
  | silent _ haction hsame ih =>
    obtain ⟨w₀, hseen, hfollows⟩ := ih
    obtain ⟨action, -, hact⟩ := haction
    obtain ⟨w₀', ⟨middle, hsilent, hlast⟩, hfollows'⟩ := hstep _ _ _ action hfollows hact
    obtain ⟨hmiddle, hvalue⟩ := hseen.silently hsilent
    refine ⟨w₀', ?_, hfollows'⟩
    cases hlast with
    | refl => exact hmiddle
    | single hsingle =>
      refine hmiddle.silent hsingle ?_
      rw [hvalue, ← hobserve _ _ hfollows, ← hobserve _ _ hfollows', hsame]
  | visible _ haction hchange ih =>
    obtain ⟨w₀, hseen, hfollows⟩ := ih
    obtain ⟨action, -, hact⟩ := haction
    obtain ⟨w₀', ⟨middle, hsilent, hlast⟩, hfollows'⟩ := hstep _ _ _ action hfollows hact
    obtain ⟨hmiddle, hvalue⟩ := hseen.silently hsilent
    rw [hobserve _ _ hfollows, hobserve _ _ hfollows', ← hvalue] at hchange
    rw [hobserve _ _ hfollows']
    refine ⟨w₀', ?_, hfollows'⟩
    cases hlast with
    | refl => exact absurd rfl hchange
    | single hsingle => exact hmiddle.visible hsingle hchange

end World

/-! ### Quiet programs -/

namespace Program

/-- The program can be brought to another by effects that leave the shared state alone, whatever it
is. -/
inductive Quietly (M : Machine S ε α) : Program S ε β → Program S ε β → Prop
  | refl (program : Program S ε β) : Quietly M program program
  | step {effect : S.Effect} {resume : Except ε (S.Result effect) → Program S ε β}
      {program : Program S ε β} (choice : M.Choice)
      (reply : ℕ → M.Shared → Except ε (S.Result effect))
      (hexec : ∀ thread s, M.exec thread effect choice s = some (reply thread s, s))
      (hnext : ∀ thread s, Quietly M (resume (reply thread s)) program) :
      Quietly M (perform effect resume) program

variable {M : Machine S ε α} {program program' : Program S ε β}

theorem Quietly.bind (h : Quietly M program program') (next : β → Program S ε γ) :
    Quietly M (program.bind next) (program'.bind next) := by
  induction h with
  | refl program => exact .refl _
  | step choice reply hexec _ ih => exact .step choice reply hexec ih

theorem Quietly.tryCatch (h : Quietly M program program') (handler : ε → Program S ε β) :
    Quietly M (program.tryCatch handler) (program'.tryCatch handler) := by
  induction h with
  | refl program => exact .refl _
  | step choice reply hexec _ ih => exact .step choice reply hexec ih

theorem Quietly.attempt (h : Quietly M program program') :
    Quietly M program.attempt program'.attempt := by
  induction h with
  | refl program => exact .refl _
  | step choice reply hexec _ ih => exact .step choice reply hexec ih

end Program

/-- A thread runs quietly. -/
theorem World.silent_of_quietly {M : Machine S ε α} (observe : M.Shared → γ)
    {program program' : Program S ε α} (h : program.Quietly M program') :
    ∀ {w : World M} {thread : ℕ}, w.threads thread = some program →
      Relation.ReflTransGen (Silent observe) w
        { w with threads := Function.update w.threads thread (some program') } := by
  induction h with
  | refl program =>
    intro w thread hthread
    rw [← hthread, Function.update_eq_self]
  | step choice reply hexec hnext ih =>
    rename_i effect resume program
    intro w thread hthread
    have hact := World.act_of_exec hthread (hexec thread w.shared)
    have hrest := @ih thread w.shared { w with
      threads := Function.update w.threads thread (some (resume (reply thread w.shared))) } thread
      (Function.update_self ..)
    rw [Function.update_idem] at hrest
    exact .head ⟨⟨_, World.permitted_anyEffect w _, hact⟩, rfl⟩ hrest

end DinnerRush.Concurrency
