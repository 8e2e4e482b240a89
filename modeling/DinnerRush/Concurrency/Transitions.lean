import Mathlib.Logic.Relation

/-!
# Transition systems

A start state and a step function on actions, each of which is enabled or not. All of the
nondeterminism of a run is in its list of actions, so a run on given actions is evaluated by
`Transitions.run`. `Transitions.Reachable` is about the runs whose steps all meet a condition, which
may look at the state before the step and at the action, and `Transitions.invariant` is the
induction over them.
-/

set_option autoImplicit false
set_option relaxedAutoImplicit false

namespace DinnerRush.Concurrency

/-- A start state, and what each action does to a state, if it is enabled there. -/
structure Transitions (σ α : Type) where
  start : σ
  act : σ → α → Option σ

namespace Transitions

variable {σ α : Type}

/-- A condition on the steps of a run. -/
abbrev Condition (σ α : Type) := σ → α → Prop

/-- The condition that every step meets. -/
def anyAction : Condition σ α := fun _ _ ↦ True

def Step (T : Transitions σ α) (condition : Condition σ α) (s s' : σ) : Prop :=
  ∃ action, condition s action ∧ T.act s action = some s'

/-- The states reached by steps that all meet the condition. -/
def Reachable (T : Transitions σ α) (condition : Condition σ α) (s : σ) : Prop :=
  Relation.ReflTransGen (T.Step condition) T.start s

/-- The state after a list of actions, if each is enabled in its turn. -/
def run (T : Transitions σ α) (s : σ) : List α → Option σ
  | [] => some s
  | action :: rest => (T.act s action).bind fun s' ↦ T.run s' rest

/-- The state after a list of actions, if each is enabled in its turn and meets the condition. -/
def runMeeting (T : Transitions σ α) (condition : Condition σ α)
    [∀ s action, Decidable (condition s action)] (s : σ) : List α → Option σ
  | [] => some s
  | action :: rest =>
    if condition s action then
      (T.act s action).bind fun s' ↦ T.runMeeting condition s' rest
    else none

variable {T : Transitions σ α}

/-- What holds at the start and is kept by every step that meets the condition holds in every state
reached by such steps. -/
theorem invariant {condition : Condition σ α} {P : σ → Prop} (hstart : P T.start)
    (hstep : ∀ s action s', P s → condition s action → T.act s action = some s' → P s') {s : σ}
    (hs : T.Reachable condition s) : P s := by
  induction hs with
  | refl => exact hstart
  | tail _ hlast ih =>
    obtain ⟨action, hcondition, hact⟩ := hlast
    exact hstep _ action _ ih hcondition hact

/-- A weaker condition keeps a state reachable. -/
theorem Reachable.mono {condition condition' : Condition σ α}
    (h : ∀ s action, condition s action → condition' s action) {s : σ}
    (hs : T.Reachable condition s) : T.Reachable condition' s :=
  Relation.ReflTransGen.mono
    (fun _ _ ⟨action, hcondition, hact⟩ ↦ ⟨action, h _ action hcondition, hact⟩) _ _ hs

/-- A run keeps what its steps keep. -/
theorem kept_of_run {condition : Condition σ α} {P : σ → Prop}
    (hkept : ∀ s action s', P s → condition s action → T.act s action = some s' → P s')
    {s s' : σ} (hs : P s) (hrun : Relation.ReflTransGen (T.Step condition) s s') : P s' := by
  induction hrun with
  | refl => exact hs
  | tail _ hlast ih =>
    obtain ⟨action, hcondition, hact⟩ := hlast
    exact hkept _ action _ ih hcondition hact

/-- The steps of a run meet what follows from what they keep. -/
theorem reflTransGen_of_kept {condition condition' : Condition σ α} {P : σ → Prop}
    (hkept : ∀ s action s', P s → condition s action → T.act s action = some s' → P s')
    (hmeets : ∀ s action, P s → condition s action → condition' s action) {s s' : σ} (hs : P s)
    (hrun : Relation.ReflTransGen (T.Step condition) s s') :
    Relation.ReflTransGen (T.Step condition') s s' := by
  induction hrun with
  | refl => exact .refl
  | tail hbefore hlast ih =>
    obtain ⟨action, hcondition, hact⟩ := hlast
    exact ih.tail ⟨action, hmeets _ action (kept_of_run hkept hs hbefore) hcondition, hact⟩

theorem Reachable.any {condition : Condition σ α} {s : σ} (hs : T.Reachable condition s) :
    T.Reachable anyAction s :=
  hs.mono fun _ _ _ ↦ trivial

/-- A run of actions that meet the condition is a sequence of such steps. -/
theorem reflTransGen_of_runMeeting {condition : Condition σ α}
    [∀ s action, Decidable (condition s action)] {actions : List α} {s s' : σ}
    (h : T.runMeeting condition s actions = some s') :
    Relation.ReflTransGen (T.Step condition) s s' := by
  induction actions generalizing s with
  | nil =>
    obtain rfl : s = s' := Option.some.inj h
    exact .refl
  | cons action rest ih =>
    unfold runMeeting at h
    split at h
    · rename_i hcondition
      obtain ⟨middle, hact, hrest⟩ := Option.bind_eq_some_iff.mp h
      exact .head ⟨action, hcondition, hact⟩ (ih hrest)
    · cases h

theorem reachable_of_runMeeting {condition : Condition σ α}
    [∀ s action, Decidable (condition s action)] {actions : List α} {s : σ}
    (h : T.runMeeting condition T.start actions = some s) : T.Reachable condition s :=
  reflTransGen_of_runMeeting h

/-- A run of actions is a sequence of steps. -/
theorem reflTransGen_of_run {actions : List α} {s s' : σ} (h : T.run s actions = some s') :
    Relation.ReflTransGen (T.Step anyAction) s s' := by
  induction actions generalizing s with
  | nil =>
    obtain rfl : s = s' := Option.some.inj h
    exact .refl
  | cons action rest ih =>
    obtain ⟨middle, hact, hrest⟩ := Option.bind_eq_some_iff.mp h
    exact .head ⟨action, trivial, hact⟩ (ih hrest)

theorem reachable_of_run {actions : List α} {s : σ} (h : T.run T.start actions = some s) :
    T.Reachable anyAction s :=
  reflTransGen_of_run h

end Transitions

end DinnerRush.Concurrency
