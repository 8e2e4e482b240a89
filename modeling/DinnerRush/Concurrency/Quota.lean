import DinnerRush.Concurrency.Pool
import Mathlib.Order.Lattice

/-!
# Quotas

The effects of a program have a cost, and a program has at most a cost when its effects, whatever
the replies are, cost no more than that together. A machine meters its threads if it keeps for each
of them a count that grows by no more than the cost of what that thread does. A thread that was
launched with a program of at most some cost is then never counted for more (`World.Within`).
-/

set_option autoImplicit false
set_option relaxedAutoImplicit false

namespace DinnerRush.Concurrency

variable {S : Signature} {ε α β : Type}

namespace Program

/-- The effects that the program performs cost at most this together, whatever the replies are. -/
def AtMost (cost : S.Effect → ℕ) : ℕ → Program S ε α → Prop
  | _, ret _ => True
  | _, raise _ => True
  | n, perform effect resume =>
    cost effect ≤ n ∧ ∀ reply, (resume reply).AtMost cost (n - cost effect)

variable {cost : S.Effect → ℕ} {m n : ℕ} {program : Program S ε α}

theorem AtMost.mono (h : program.AtMost cost m) (hle : m ≤ n) : program.AtMost cost n := by
  induction program generalizing m n with
  | ret value => trivial
  | raise error => trivial
  | perform effect resume ih =>
    exact ⟨h.1.trans hle, fun reply ↦ ih reply (h.2 reply) (Nat.sub_le_sub_right hle _)⟩

theorem AtMost.bind {next : α → Program S ε β} (h : program.AtMost cost m)
    (hnext : ∀ value, (next value).AtMost cost n) : (program.bind next).AtMost cost (m + n) := by
  induction program generalizing m with
  | ret value => exact (hnext value).mono (Nat.le_add_left n m)
  | raise error => trivial
  | perform effect resume ih =>
    refine ⟨h.1.trans (Nat.le_add_right m n), fun reply ↦ ?_⟩
    exact (ih reply (h.2 reply)).mono (Nat.le_of_eq (Nat.sub_add_comm h.1).symm)

theorem atMost_call {effect : S.Effect} (h : cost effect ≤ n) :
    (call effect : Program S ε (S.Result effect)).AtMost cost n := by
  refine ⟨h, fun reply ↦ ?_⟩
  cases reply <;> trivial

end Program

namespace World

variable {M : Machine S ε α} {cost : S.Effect → ℕ} {meter : M.Shared → ℕ → ℕ}

/-- The count of a thread grows by no more than the cost of what it does, and only by that. -/
structure Metered (M : Machine S ε α) (cost : S.Effect → ℕ) (meter : M.Shared → ℕ → ℕ) :
    Prop where
  start : ∀ thread, meter M.start thread = 0
  launch : ∀ thread launched s program s', M.launch thread launched s = some (program, s') →
    meter s' = meter s
  exec : ∀ thread effect choice s reply s', M.exec thread effect choice s = some (reply, s') →
    meter s' thread ≤ meter s thread + cost effect ∧
      ∀ other, other ≠ thread → meter s' other = meter s other
  ambient : ∀ act s s', M.ambient act s = some s' → meter s' = meter s

/-- Nothing is known of the threads that are still to be launched. -/
def Fresh (meter : M.Shared → ℕ → ℕ) (w : World M) : Prop :=
  ∀ thread, w.next ≤ thread → w.threads thread = none ∧ meter w.shared thread = 0

/-- The thread performs nothing any more. -/
def Idle (w : World M) (thread : ℕ) : Prop :=
  ∀ effect resume, w.threads thread ≠ some (.perform effect resume)

/-- What is counted for the thread and what its program may still cost are within the quota. -/
structure Within (cost : S.Effect → ℕ) (meter : M.Shared → ℕ → ℕ) (quota : ℕ) (w : World M)
    (thread : ℕ) : Prop where
  counted : meter w.shared thread ≤ quota
  rest : ∀ program, w.threads thread = some program →
    program.AtMost cost (quota - meter w.shared thread)

section Act

variable {w w' : World M} {action : Action M} {thread quota : ℕ}

theorem fresh_initial (hM : Metered M cost meter) : Fresh meter (initial M) :=
  fun thread _ ↦ ⟨rfl, hM.start thread⟩

theorem Fresh.act (hM : Metered M cost meter) (h : Fresh meter w)
    (hact : w.act action = some w') : Fresh meter w' := by
  intro thread hthread
  cases action with
  | launch launched =>
    obtain ⟨program, s', hlaunch, rfl⟩ := act_launch hact
    obtain ⟨hnone, hzero⟩ := h thread (Nat.le_of_succ_le hthread)
    refine ⟨?_, ?_⟩
    · show Function.update w.threads w.next (some program) thread = none
      rw [Function.update_of_ne (Nat.ne_of_gt hthread), hnone]
    · show meter s' thread = 0
      rw [hM.launch _ _ _ _ _ hlaunch, hzero]
  | step other choice =>
    obtain ⟨effect, resume, reply, s', hother, hexec, rfl⟩ := act_step hact
    obtain ⟨hnone, hzero⟩ := h thread hthread
    have hne : thread ≠ other := by
      rintro rfl
      rw [hnone] at hother
      cases hother
    refine ⟨?_, ?_⟩
    · show Function.update w.threads other (some (resume reply)) thread = none
      rw [Function.update_of_ne hne, hnone]
    · exact ((hM.exec _ _ _ _ _ _ hexec).2 thread hne).trans hzero
  | kill other =>
    obtain rfl := act_kill hact
    obtain ⟨hnone, hzero⟩ := h thread hthread
    refine ⟨?_, hzero⟩
    by_cases hsame : thread = other
    · rw [hsame]
      exact Function.update_self _ _ _
    · exact (Function.update_of_ne hsame _ _).trans hnone
  | ambient act =>
    obtain ⟨s', hambient, rfl⟩ := act_ambient hact
    obtain ⟨hnone, hzero⟩ := h thread hthread
    exact ⟨hnone, (congrFun (hM.ambient _ _ _ hambient) thread).trans hzero⟩

/-- A new thread has its whole quota. -/
theorem Within.launch (hM : Metered M cost meter) (h : Fresh meter w) {launched : M.Launch}
    (hact : w.act (.launch launched) = some w')
    (hcost : ∀ thread s program s', M.launch thread launched s = some (program, s') →
      program.AtMost cost quota) :
    Within cost meter quota w' w.next ∧ meter w'.shared w.next = 0 := by
  obtain ⟨program, s', hlaunch, rfl⟩ := act_launch hact
  have hzero : meter s' w.next = 0 := by
    rw [hM.launch _ _ _ _ _ hlaunch]
    exact (h w.next (Nat.le_refl _)).2
  refine ⟨⟨?_, fun other hother ↦ ?_⟩, hzero⟩
  · exact hzero.trans_le (Nat.zero_le quota)
  · obtain rfl : program = other := by simpa using hother
    exact (hcost _ _ _ _ hlaunch).mono (Nat.le_of_eq (by rw [hzero, Nat.sub_zero]))

/-- A thread stays within its quota, and is counted for nothing if it is idle. -/
theorem Within.act (hM : Metered M cost meter) (hthread : thread < w.next)
    (h : Within cost meter quota w thread) (hact : w.act action = some w') :
    Within cost meter quota w' thread := by
  cases action with
  | launch launched =>
    obtain ⟨program, s', hlaunch, rfl⟩ := act_launch hact
    have hsame := congrFun (hM.launch _ _ _ _ _ hlaunch) thread
    refine ⟨hsame.trans_le h.counted, fun other hother ↦ ?_⟩
    show other.AtMost cost (quota - meter s' thread)
    rw [hsame]
    exact h.rest other ((Function.update_of_ne (Nat.ne_of_lt hthread) _ _).symm.trans hother)
  | step other choice =>
    obtain ⟨effect, resume, reply, s', hother, hexec, rfl⟩ := act_step hact
    obtain ⟨hgrown, hsame⟩ := hM.exec _ _ _ _ _ _ hexec
    by_cases hne : thread = other
    · subst hne
      obtain ⟨hcost, hresume⟩ := h.rest _ hother
      refine ⟨?_, fun program hprogram ↦ ?_⟩
      · have hcounted := h.counted
        show meter s' thread ≤ quota
        omega
      · obtain rfl : resume reply = program := by simpa using hprogram
        refine (hresume reply).mono ?_
        show quota - meter w.shared thread - cost effect ≤ quota - meter s' thread
        omega
    · have hsame := hsame thread hne
      refine ⟨hsame.trans_le h.counted, fun program hprogram ↦ ?_⟩
      show program.AtMost cost (quota - meter s' thread)
      rw [hsame]
      exact h.rest program ((Function.update_of_ne hne _ _).symm.trans hprogram)
  | kill other =>
    obtain rfl := act_kill hact
    exact ⟨h.counted, fun program hprogram ↦ h.rest program (threads_of_kill hprogram)⟩
  | ambient act =>
    obtain ⟨s', hambient, rfl⟩ := act_ambient hact
    have hsame := congrFun (hM.ambient _ _ _ hambient) thread
    refine ⟨hsame.trans_le h.counted, fun program hprogram ↦ ?_⟩
    show program.AtMost cost (quota - meter s' thread)
    rw [hsame]
    exact h.rest program hprogram

/-- An action counts for one thread at most, which it steps. -/
theorem meter_act (hM : Metered M cost meter) (hact : w.act action = some w')
    (hthread : ∀ choice, action ≠ .step thread choice) :
    meter w'.shared thread = meter w.shared thread := by
  cases action with
  | launch launched =>
    obtain ⟨program, s', hlaunch, rfl⟩ := act_launch hact
    exact congrFun (hM.launch _ _ _ _ _ hlaunch) thread
  | step other choice =>
    obtain ⟨effect, resume, reply, s', hother, hexec, rfl⟩ := act_step hact
    refine (hM.exec _ _ _ _ _ _ hexec).2 thread ?_
    rintro rfl
    exact hthread choice rfl
  | kill other =>
    obtain rfl := act_kill hact
    rfl
  | ambient act =>
    obtain ⟨s', hambient, rfl⟩ := act_ambient hact
    exact congrFun (hM.ambient _ _ _ hambient) thread

/-- An idle thread stays idle, and nothing is counted for it. -/
theorem Idle.act (hM : Metered M cost meter) (hthread : thread < w.next) (h : w.Idle thread)
    (hact : w.act action = some w') :
    w'.Idle thread ∧ meter w'.shared thread = meter w.shared thread := by
  refine ⟨fun effect resume hrunning ↦ ?_, meter_act hM hact ?_⟩
  · cases action with
    | launch launched =>
      obtain ⟨program, s', hlaunch, rfl⟩ := act_launch hact
      exact h effect resume
        ((Function.update_of_ne (Nat.ne_of_lt hthread) _ _).symm.trans hrunning)
    | step other choice =>
      obtain ⟨found, rest, reply, s', hother, hexec, rfl⟩ := act_step hact
      by_cases hsame : thread = other
      · exact h found rest (hsame ▸ hother)
      · exact h effect resume ((Function.update_of_ne hsame _ _).symm.trans hrunning)
    | kill other =>
      obtain rfl := act_kill hact
      exact h effect resume (threads_of_kill hrunning)
    | ambient act =>
      obtain ⟨s', hambient, rfl⟩ := act_ambient hact
      exact h effect resume hrunning
  · rintro choice rfl
    obtain ⟨effect, resume, reply, s', hrunning, -⟩ := act_step hact
    exact h effect resume hrunning

end Act

end World

end DinnerRush.Concurrency
