import DinnerRush.Concurrency.Program
import Mathlib.Data.Nat.Notation
import Mathlib.Logic.Function.Basic
import Mathlib.Logic.Relation

/-!
# Pools of interleaved programs

A machine runs any number of programs over one shared state. Its world holds the shared state and
the programs launched so far, each reduced to what it still has to do. One action of the world
launches a program, performs the next effect of one program, kills a program (a crash between two
effects), or lets the environment change the shared state.

An effect is resolved by a choice of the environment: which of its results is given, whether it
fails before it took effect or after. An effect with no successor for a choice is blocked. All of
the nondeterminism of a run is in its list of actions, so a run on given actions is evaluated by
`Machine.run`.

A program that has returned stays in the pool with its value, so that the answers given by a service
are the returned programs of its world.
-/

set_option autoImplicit false
set_option relaxedAutoImplicit false

namespace DinnerRush.Concurrency

/-- A shared state and the ways to change it: resolving an effect of a thread, launching a program
and acting on its own. -/
structure Machine (S : Signature) (ε α : Type) where
  Shared : Type
  Choice : Type
  Launch : Type
  Ambient : Type
  exec : ℕ → (effect : S.Effect) → Choice → Shared →
    Option (Except ε (S.Result effect) × Shared)
  launch : ℕ → Launch → Shared → Option (Program S ε α × Shared)
  ambient : Ambient → Shared → Option Shared
  start : Shared

/-- The shared state and the programs launched so far, numbered in the order of launching. -/
structure World {S : Signature} {ε α : Type} (M : Machine S ε α) where
  shared : M.Shared
  threads : ℕ → Option (Program S ε α)
  next : ℕ

/-- One step of a world. -/
inductive Action {S : Signature} {ε α : Type} (M : Machine S ε α)
  | launch (launch : M.Launch)
  | step (thread : ℕ) (choice : M.Choice)
  | kill (thread : ℕ)
  | ambient (ambient : M.Ambient)

namespace World

variable {S : Signature} {ε α : Type} {M : Machine S ε α}

/-- The world before anything was launched. -/
def initial (M : Machine S ε α) : World M := ⟨M.start, fun _ ↦ none, 0⟩

/-- The world after one action, if the action is enabled. -/
def act (w : World M) : Action M → Option (World M)
  | .launch launch =>
    (M.launch w.next launch w.shared).map fun launched ↦
      ⟨launched.2, Function.update w.threads w.next (some launched.1), w.next + 1⟩
  | .step thread choice =>
    match w.threads thread with
    | some (.perform effect resume) =>
      (M.exec thread effect choice w.shared).map fun reply ↦
        ⟨reply.2, Function.update w.threads thread (some (resume reply.1)), w.next⟩
    | _ => none
  | .kill thread =>
    match w.threads thread with
    | some (.perform _ _) => some { w with threads := Function.update w.threads thread none }
    | _ => none
  | .ambient ambient =>
    (M.ambient ambient w.shared).map fun shared ↦ { w with shared := shared }

/-- A thread performs the effect it is at. -/
theorem act_of_exec {w : World M} {thread : ℕ} {choice : M.Choice} {effect : S.Effect}
    {resume : Except ε (S.Result effect) → Program S ε α} {reply : Except ε (S.Result effect)}
    {s' : M.Shared} (hthread : w.threads thread = some (.perform effect resume))
    (hexec : M.exec thread effect choice w.shared = some (reply, s')) :
    w.act (.step thread choice) =
      some ⟨s', Function.update w.threads thread (some (resume reply)), w.next⟩ := by
  simp [act, hthread, hexec]

theorem act_of_launch {w : World M} {launched : M.Launch} {program : Program S ε α} {s' : M.Shared}
    (h : M.launch w.next launched w.shared = some (program, s')) :
    w.act (.launch launched) =
      some ⟨s', Function.update w.threads w.next (some program), w.next + 1⟩ := by
  simp [act, h]

theorem act_of_kill {w : World M} {thread : ℕ} {effect : S.Effect}
    {resume : Except ε (S.Result effect) → Program S ε α}
    (h : w.threads thread = some (.perform effect resume)) :
    w.act (.kill thread) = some { w with threads := Function.update w.threads thread none } := by
  simp [act, h]

theorem act_of_ambient {w : World M} {ambient : M.Ambient} {s' : M.Shared}
    (h : M.ambient ambient w.shared = some s') :
    w.act (.ambient ambient) = some { w with shared := s' } := by
  simp [act, h]

section Inversion

variable {w w' : World M}

theorem act_launch {launched : M.Launch} (h : w.act (.launch launched) = some w') :
    ∃ program s', M.launch w.next launched w.shared = some (program, s') ∧
      w' = ⟨s', Function.update w.threads w.next (some program), w.next + 1⟩ := by
  obtain ⟨⟨program, s'⟩, hlaunch, hw⟩ := Option.map_eq_some_iff.mp h
  exact ⟨program, s', hlaunch, hw.symm⟩

/-- A step of a thread resolves the effect it is at. -/
theorem act_step {thread : ℕ} {choice : M.Choice} (h : w.act (.step thread choice) = some w') :
    ∃ effect resume reply s', w.threads thread = some (.perform effect resume) ∧
      M.exec thread effect choice w.shared = some (reply, s') ∧
        w' = ⟨s', Function.update w.threads thread (some (resume reply)), w.next⟩ := by
  simp only [act] at h
  split at h
  · rename_i effect resume hthread
    obtain ⟨⟨reply, s'⟩, hexec, hw⟩ := Option.map_eq_some_iff.mp h
    exact ⟨effect, resume, reply, s', hthread, hexec, hw.symm⟩
  · cases h

theorem act_kill {thread : ℕ} (h : w.act (.kill thread) = some w') :
    w' = { w with threads := Function.update w.threads thread none } := by
  simp only [act] at h
  split at h
  · exact (Option.some.inj h).symm
  · cases h

/-- Only a running program is killed. -/
theorem act_kill_running {thread : ℕ} (h : w.act (.kill thread) = some w') :
    ∃ effect resume, w.threads thread = some (.perform effect resume) ∧
      w' = { w with threads := Function.update w.threads thread none } := by
  have hkilled := act_kill h
  simp only [act] at h
  split at h
  · rename_i effect resume hthread
    exact ⟨effect, resume, hthread, hkilled⟩
  · cases h

theorem act_ambient {ambient : M.Ambient} (h : w.act (.ambient ambient) = some w') :
    ∃ s', M.ambient ambient w.shared = some s' ∧ w' = { w with shared := s' } := by
  obtain ⟨s', hambient, hw⟩ := Option.map_eq_some_iff.mp h
  exact ⟨s', hambient, hw.symm⟩

/-- A thread that is still there was not the one killed. -/
theorem threads_of_kill {thread other : ℕ} {program : Program S ε α}
    (h : Function.update w.threads thread none other = some program) :
    w.threads other = some program := by
  by_cases hother : other = thread
  · simp [hother] at h
  · simpa [hother] using h

end Inversion

/-- A condition on the effects performed in a run: the thread, the effect, the choice that resolves
it and the shared state before it. -/
abbrev Permit (M : Machine S ε α) := ℕ → S.Effect → M.Choice → M.Shared → Prop

/-- The action meets the condition: if it performs an effect, the condition holds of it. -/
def Permitted (permit : Permit M) (w : World M) : Action M → Prop
  | .step thread choice => ∀ effect resume, w.threads thread = some (.perform effect resume) →
      permit thread effect choice w.shared
  | _ => True

/-- One action that meets the condition. -/
def Step (permit : Permit M) (w w' : World M) : Prop :=
  ∃ action, w.Permitted permit action ∧ w.act action = some w'

/-- The worlds reached from the initial one by actions that all meet the condition. -/
def Reachable (permit : Permit M) (w : World M) : Prop :=
  Relation.ReflTransGen (Step permit) (initial M) w

/-- The condition that every effect meets. -/
def anyEffect : Permit M := fun _ _ _ _ ↦ True

/-- The world after a list of actions, if each is enabled in its turn. -/
def run (w : World M) : List (Action M) → Option (World M)
  | [] => some w
  | action :: rest => (w.act action).bind fun w' ↦ w'.run rest

/-- Whether the action meets a condition that can be decided. -/
def permits (permit : Permit M) [∀ thread effect choice s,
    Decidable (permit thread effect choice s)] (w : World M) : Action M → Bool
  | .step thread choice =>
    match w.threads thread with
    | some (.perform effect _) => decide (permit thread effect choice w.shared)
    | _ => true
  | _ => true

/-- The world after a list of actions, if each is enabled in its turn and meets the condition. -/
def runPermitted (permit : Permit M) [∀ thread effect choice s,
    Decidable (permit thread effect choice s)] (w : World M) : List (Action M) → Option (World M)
  | [] => some w
  | action :: rest =>
    if w.permits permit action then
      (w.act action).bind fun w' ↦ w'.runPermitted permit rest
    else none

theorem permitted_anyEffect (w : World M) (action : Action M) : w.Permitted anyEffect action := by
  cases action <;> simp [Permitted, anyEffect]

theorem permitted_of_permits {permit : Permit M} [∀ thread effect choice s,
    Decidable (permit thread effect choice s)] {w : World M} {action : Action M}
    (h : w.permits permit action) : w.Permitted permit action := by
  cases action with
  | step thread choice =>
    intro effect resume hthread
    simpa [permits, hthread] using h
  | _ => trivial

/-- A run of permitted actions is a sequence of permitted steps. -/
theorem reflTransGen_of_runPermitted {permit : Permit M} [∀ thread effect choice s,
    Decidable (permit thread effect choice s)] {actions : List (Action M)} :
    ∀ {w w' : World M}, w.runPermitted permit actions = some w' →
      Relation.ReflTransGen (Step permit) w w' := by
  induction actions with
  | nil =>
    intro w w' h
    obtain rfl : w = w' := by simpa [runPermitted] using h
    exact .refl
  | cons action rest ih =>
    intro w w' h
    unfold runPermitted at h
    split at h
    · rename_i hpermits
      obtain ⟨middle, hact, hrest⟩ := Option.bind_eq_some_iff.mp h
      exact .head ⟨action, permitted_of_permits hpermits, hact⟩ (ih hrest)
    · cases h

theorem reachable_of_runPermitted {permit : Permit M} [∀ thread effect choice s,
    Decidable (permit thread effect choice s)] {actions : List (Action M)} {w : World M}
    (h : (initial M).runPermitted permit actions = some w) : Reachable permit w :=
  reflTransGen_of_runPermitted h

theorem Permitted.mono {permit permit' : Permit M}
    (h : ∀ thread effect choice s, permit thread effect choice s → permit' thread effect choice s)
    {w : World M} {action : Action M} (haction : w.Permitted permit action) :
    w.Permitted permit' action := by
  cases action with
  | step thread choice =>
    exact fun effect resume hthread ↦ h _ _ _ _ (haction effect resume hthread)
  | _ => trivial

/-- A weaker condition keeps a world reachable. -/
theorem Reachable.mono {permit permit' : Permit M}
    (h : ∀ thread effect choice s, permit thread effect choice s → permit' thread effect choice s)
    {w : World M} (hw : Reachable permit w) : Reachable permit' w :=
  Relation.ReflTransGen.mono
    (fun _ _ ⟨action, haction, hact⟩ ↦ ⟨action, haction.mono h, hact⟩) _ _ hw

/-- What holds in every world reached may be assumed of every effect. -/
theorem Reachable.knowing {permit : Permit M} {P : M.Shared → Prop}
    (h : ∀ w, Reachable permit w → P w.shared) {w : World M} (hw : Reachable permit w) :
    Reachable (fun thread effect choice s ↦ permit thread effect choice s ∧ P s) w := by
  induction hw with
  | refl => exact .refl
  | tail hbefore hstep ih =>
    obtain ⟨action, hpermit, hact⟩ := hstep
    refine ih.tail ⟨action, ?_, hact⟩
    cases action with
    | step thread choice =>
      exact fun effect resume hthread ↦ ⟨hpermit effect resume hthread, h _ hbefore⟩
    | _ => trivial

/-- A property of programs that launched programs have and resuming keeps is one of every thread. -/
theorem programs_of_reachable {permit : Permit M} {P : Program S ε α → Prop}
    (hlaunch : ∀ thread launched s program s',
      M.launch thread launched s = some (program, s') → P program)
    (hresume : ∀ effect resume reply, P (.perform effect resume) → P (resume reply)) {w : World M}
    (hw : Reachable permit w) : ∀ thread program, w.threads thread = some program → P program := by
  induction hw with
  | refl =>
    intro thread program hthread
    cases hthread
  | @tail w _ _ hstep ih =>
    obtain ⟨action, -, hact⟩ := hstep
    intro thread program hthread
    cases action with
    | launch launched =>
      obtain ⟨new, s', hlaunched, rfl⟩ := act_launch hact
      rcases eq_or_ne thread w.next with rfl | hne
      · obtain rfl : new = program := by simpa using hthread
        exact hlaunch _ _ _ _ _ hlaunched
      · exact ih thread program (by simpa [hne] using hthread)
    | step other choice =>
      obtain ⟨effect, resume, reply, s', hother, -, rfl⟩ := act_step hact
      rcases eq_or_ne thread other with rfl | hne
      · obtain rfl : resume reply = program := by simpa using hthread
        exact hresume _ _ _ (ih _ _ hother)
      · exact ih thread program (by simpa [hne] using hthread)
    | kill other =>
      obtain rfl := act_kill hact
      exact ih thread program (threads_of_kill hthread)
    | ambient act =>
      obtain ⟨s', -, rfl⟩ := act_ambient hact
      exact ih thread program hthread

theorem run_append (w : World M) (first rest : List (Action M)) :
    w.run (first ++ rest) = (w.run first).bind fun w' ↦ w'.run rest := by
  induction first generalizing w with
  | nil => rfl
  | cons action first ih =>
    rw [List.cons_append, run, run, Option.bind_assoc]
    exact congrArg (Option.bind _) (funext ih)

/-- A run of actions is a sequence of steps. -/
theorem reflTransGen_of_run {actions : List (Action M)} :
    ∀ {w w' : World M}, w.run actions = some w' →
      Relation.ReflTransGen (Step anyEffect) w w' := by
  induction actions with
  | nil =>
    intro w w' h
    obtain rfl : w = w' := by simpa [run] using h
    exact .refl
  | cons action rest ih =>
    intro w w' h
    obtain ⟨middle, hact, hrest⟩ := Option.bind_eq_some_iff.mp h
    exact .head ⟨action, permitted_anyEffect w action, hact⟩ (ih hrest)

theorem reachable_of_run {actions : List (Action M)} {w : World M}
    (h : (initial M).run actions = some w) : Reachable anyEffect w :=
  reflTransGen_of_run h

end World

end DinnerRush.Concurrency
