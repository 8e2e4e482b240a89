import DinnerRush.Concurrency.Conduct

/-!
# Machines with a history

A shared state says what is the case, not how it came about: who was launched as what, and in which
order the effects were performed. `Machine.recorded` adds this as a history variable, which no
program reads, so an invariant of a discipline may speak of it. Recording takes nothing away and
adds nothing: a recorded run is a run of the machine (`reachable_forget`), and every run can be
recorded (`exists_recorded`).
-/

set_option autoImplicit false
set_option relaxedAutoImplicit false

namespace DinnerRush.Concurrency

variable {S : Signature} {ε α : Type}

/-- An effect that was performed: by which thread, and how it was resolved. -/
structure Event (M : Machine S ε α) where
  thread : ℕ
  effect : S.Effect
  choice : M.Choice

/-- The launch of each thread, and the effects performed, in their order. -/
structure History (M : Machine S ε α) where
  launches : ℕ → Option M.Launch
  events : List (Event M)

namespace History

variable {M : Machine S ε α}

def start : History M := ⟨fun _ ↦ none, []⟩

def launched (h : History M) (thread : ℕ) (launched : M.Launch) : History M :=
  { h with launches := Function.update h.launches thread (some launched) }

def performed (h : History M) (thread : ℕ) (effect : S.Effect) (choice : M.Choice) : History M :=
  { h with events := h.events ++ [⟨thread, effect, choice⟩] }

@[simp] theorem launches_launched (h : History M) (thread : ℕ) (launched : M.Launch) :
    (h.launched thread launched).launches thread = some launched :=
  Function.update_self ..

theorem launches_launched_of_ne (h : History M) {thread other : ℕ} (hne : other ≠ thread)
    (launched : M.Launch) : (h.launched thread launched).launches other = h.launches other :=
  Function.update_of_ne hne ..

@[simp] theorem launches_performed (h : History M) (thread : ℕ) (effect : S.Effect)
    (choice : M.Choice) : (h.performed thread effect choice).launches = h.launches := rfl

@[simp] theorem events_performed (h : History M) (thread : ℕ) (effect : S.Effect)
    (choice : M.Choice) :
    (h.performed thread effect choice).events = h.events ++ [⟨thread, effect, choice⟩] := rfl

@[simp] theorem events_launched (h : History M) (thread : ℕ) (launched : M.Launch) :
    (h.launched thread launched).events = h.events := rfl

end History

/-- The shared state of a machine with its history. -/
structure Recorded (M : Machine S ε α) where
  now : M.Shared
  history : History M

/-- The machine that records its history. -/
def Machine.recorded (M : Machine S ε α) : Machine S ε α where
  Shared := Recorded M
  Choice := M.Choice
  Launch := M.Launch
  Ambient := M.Ambient
  exec thread effect choice s := (M.exec thread effect choice s.now).map fun reply ↦
    (reply.1, ⟨reply.2, s.history.performed thread effect choice⟩)
  launch thread launched s := (M.launch thread launched s.now).map fun program ↦
    (program.1, ⟨program.2, s.history.launched thread launched⟩)
  ambient act s := (M.ambient act s.now).map fun now ↦ { s with now := now }
  start := ⟨M.start, .start⟩

/-- The same action where the history is recorded. -/
def Action.recorded {M : Machine S ε α} : Action M → Action M.recorded
  | .launch launched => .launch launched
  | .step thread choice => .step thread choice
  | .kill thread => .kill thread
  | .ambient act => .ambient act

section Recorded

variable {M : Machine S ε α} {s s' : Recorded M} {thread : ℕ}

theorem exec_recorded {effect : S.Effect} {choice : M.Choice} {reply : Except ε (S.Result effect)} :
    M.recorded.exec thread effect choice s = some (reply, s') ↔
      ∃ now, M.exec thread effect choice s.now = some (reply, now) ∧
        s' = ⟨now, s.history.performed thread effect choice⟩ := by
  constructor
  · intro h
    obtain ⟨⟨reply', now⟩, hexec, hresult⟩ := Option.map_eq_some_iff.mp h
    obtain ⟨rfl, rfl⟩ := Prod.mk.inj hresult
    exact ⟨now, hexec, rfl⟩
  · rintro ⟨now, hexec, rfl⟩
    exact Option.map_eq_some_iff.mpr ⟨_, hexec, rfl⟩

theorem launch_recorded {launched : M.Launch} {program : Program S ε α} :
    M.recorded.launch thread launched s = some (program, s') ↔
      ∃ now, M.launch thread launched s.now = some (program, now) ∧
        s' = ⟨now, s.history.launched thread launched⟩ := by
  constructor
  · intro h
    obtain ⟨⟨program', now⟩, hlaunch, hresult⟩ := Option.map_eq_some_iff.mp h
    obtain ⟨rfl, rfl⟩ := Prod.mk.inj hresult
    exact ⟨now, hlaunch, rfl⟩
  · rintro ⟨now, hlaunch, rfl⟩
    exact Option.map_eq_some_iff.mpr ⟨_, hlaunch, rfl⟩

theorem ambient_recorded {act : M.Ambient} :
    M.recorded.ambient act s = some s' ↔
      ∃ now, M.ambient act s.now = some now ∧ s' = { s with now := now } := by
  constructor
  · intro h
    obtain ⟨now, hambient, rfl⟩ := Option.map_eq_some_iff.mp h
    exact ⟨now, hambient, rfl⟩
  · rintro ⟨now, hambient, rfl⟩
    exact Option.map_eq_some_iff.mpr ⟨_, hambient, rfl⟩

end Recorded

/-! ### Recorded runs -/

namespace World

variable {M : Machine S ε α}

/-- The world without its history. -/
def forget (w : World M.recorded) : World M := ⟨w.shared.now, w.threads, w.next⟩

/-- The world with a history. -/
def withHistory (w : World M) (history : History M) : World M.recorded :=
  ⟨⟨w.shared, history⟩, w.threads, w.next⟩

/-- One action of a recorded world is one of the world. -/
theorem step_forget {permit : Permit M.recorded} {w w' : World M.recorded} (h : Step permit w w') :
    Step anyEffect w.forget w'.forget := by
  obtain ⟨action, -, hact⟩ := h
  cases action with
  | launch launched =>
    obtain ⟨program, s', hlaunch, rfl⟩ := act_launch hact
    obtain ⟨now, hnow, rfl⟩ := launch_recorded.mp hlaunch
    exact ⟨.launch launched, permitted_anyEffect _ _, act_of_launch hnow⟩
  | step thread choice =>
    obtain ⟨effect, resume, reply, s', hthread, hexec, rfl⟩ := act_step hact
    obtain ⟨now, hnow, rfl⟩ := exec_recorded.mp hexec
    exact ⟨.step thread choice, permitted_anyEffect _ _, act_of_exec hthread hnow⟩
  | kill thread =>
    obtain ⟨effect, resume, hthread, rfl⟩ := act_kill_running hact
    exact ⟨.kill thread, permitted_anyEffect _ _, act_of_kill hthread⟩
  | ambient act =>
    obtain ⟨s', hambient, rfl⟩ := act_ambient hact
    obtain ⟨now, hnow, rfl⟩ := ambient_recorded.mp hambient
    exact ⟨.ambient act, permitted_anyEffect _ _, act_of_ambient hnow⟩

theorem reachable_forget {permit : Permit M.recorded} {w : World M.recorded}
    (hw : Reachable permit w) : Reachable anyEffect w.forget := by
  induction hw with
  | refl => exact .refl
  | tail _ hstep ih => exact ih.tail (step_forget hstep)

/-- Every run can be recorded, with its launches. -/
theorem exists_recorded {permit : Permit M} {launches : List M.Launch} {w : World M}
    (hw : Traced permit launches w) : w.next = launches.length ∧
      ∃ history : History M, (∀ thread, history.launches thread = launches[thread]?) ∧
        Reachable anyEffect (w.withHistory history) := by
  induction hw with
  | initial => exact ⟨rfl, .start, fun _ ↦ rfl, .refl⟩
  | @act launches w w' action _ _ hact ih =>
    obtain ⟨hnext, history, hlaunches, hreachable⟩ := ih
    have hnone : launchOf action = [] → launches ++ launchOf action = launches := by
      intro hnil
      rw [hnil, List.append_nil]
    cases action with
    | launch launched =>
      obtain ⟨program, s', hlaunch, rfl⟩ := act_launch hact
      refine ⟨?_, history.launched w.next launched, fun thread ↦ ?_, hreachable.tail
        ⟨.launch launched, permitted_anyEffect _ _,
          act_of_launch (launch_recorded.mpr ⟨s', hlaunch, rfl⟩)⟩⟩
      · show w.next + 1 = (launches ++ [launched]).length
        rw [List.length_append, List.length_singleton, hnext]
      · show _ = (launches ++ [launched])[thread]?
        by_cases hthread : thread = w.next
        · rw [hthread, History.launches_launched, hnext, List.getElem?_concat_length]
        · rw [History.launches_launched_of_ne _ hthread, hlaunches, List.getElem?_append]
          grind
    | step thread choice =>
      obtain ⟨effect, resume, reply, s', hthread, hexec, rfl⟩ := act_step hact
      rw [hnone rfl]
      exact ⟨hnext, history.performed thread effect choice, hlaunches, hreachable.tail
        ⟨.step thread choice, permitted_anyEffect _ _,
          act_of_exec hthread (exec_recorded.mpr ⟨s', hexec, rfl⟩)⟩⟩
    | kill thread =>
      obtain ⟨effect, resume, hthread, rfl⟩ := act_kill_running hact
      rw [hnone rfl]
      exact ⟨hnext, history, hlaunches, hreachable.tail
        ⟨.kill thread, permitted_anyEffect _ _, act_of_kill hthread⟩⟩
    | ambient act =>
      obtain ⟨s', hambient, rfl⟩ := act_ambient hact
      rw [hnone rfl]
      exact ⟨hnext, history, hlaunches, hreachable.tail
        ⟨.ambient act, permitted_anyEffect _ _,
          act_of_ambient (ambient_recorded.mpr ⟨s', hambient, rfl⟩)⟩⟩

end World

end DinnerRush.Concurrency
