import DinnerRush.Concurrency.ReadCommitted

/-!
# What a program can still do

The weakest precondition of `RelyGuarantee` is about every way a run may go. `Machine.Can` is about
some way: the other programs of the pool stand still, and each effect is resolved as it suits the
program, after the environment has done what it takes. It has the same rules for sequencing, error
handlers and transactions, so that what a handler can do is put together from what its statements
can do, and `exists_turns_of_can` turns it into a run of the pool.
-/

set_option autoImplicit false
set_option relaxedAutoImplicit false

namespace DinnerRush.Concurrency

variable {S : Signature} {ε α β γ : Type}

namespace Machine

variable (M : Machine S ε α) (permit : World.Permit M)

/-- What the environment can do by itself. -/
def Ambience : M.Shared → M.Shared → Prop :=
  Relation.ReflTransGen fun s s' ↦ ∃ ambient, M.ambient ambient s = some s'

/-- The program, run by a thread, can return with the one postcondition, or raise with the other. -/
def Can (thread : ℕ) (Q : β → M.Shared → Prop) (E : ε → M.Shared → Prop) :
    Program S ε β → M.Shared → Prop
  | .ret value => Q value
  | .raise error => E error
  | .perform effect resume => fun s ↦ ∃ s₁ choice reply s₂, M.Ambience s s₁ ∧
      permit thread effect choice s₁ ∧ M.exec thread effect choice s₁ = some (reply, s₂) ∧
        Can thread Q E (resume reply) s₂

variable {M permit} {thread : ℕ} {Q Q' : β → M.Shared → Prop} {E E' : ε → M.Shared → Prop}
  {s s' : M.Shared}

theorem Can.mono {program : Program S ε β} (h : M.Can permit thread Q E program s)
    (hQ : ∀ value s, Q value s → Q' value s) (hE : ∀ error s, E error s → E' error s) :
    M.Can permit thread Q' E' program s := by
  induction program generalizing s with
  | ret value => exact hQ value s h
  | raise error => exact hE error s h
  | perform effect resume ih =>
    obtain ⟨s₁, choice, reply, s₂, hambience, hpermit, hexec, hrest⟩ := h
    exact ⟨s₁, choice, reply, s₂, hambience, hpermit, hexec, ih reply hrest⟩

/-- One effect, after what the environment did for it. -/
theorem can_call {effect : S.Effect} {Q : S.Result effect → M.Shared → Prop} (choice : M.Choice)
    (value : S.Result effect) {s₁ s₂ : M.Shared} (hambience : M.Ambience s s₁)
    (hpermit : permit thread effect choice s₁)
    (hexec : M.exec thread effect choice s₁ = some (.ok value, s₂)) (hQ : Q value s₂) :
    M.Can permit thread Q E (.call effect) s :=
  ⟨s₁, choice, .ok value, s₂, hambience, hpermit, hexec, hQ⟩

theorem can_bind {program : Program S ε γ} {next : γ → Program S ε β}
    (h : M.Can permit thread (fun value ↦ M.Can permit thread Q E (next value)) E program s) :
    M.Can permit thread Q E (program.bind next) s := by
  induction program generalizing s with
  | ret value => exact h
  | raise error => exact h
  | perform effect resume ih =>
    obtain ⟨s₁, choice, reply, s₂, hambience, hpermit, hexec, hrest⟩ := h
    exact ⟨s₁, choice, reply, s₂, hambience, hpermit, hexec, ih reply hrest⟩

theorem can_tryCatch {program : Program S ε β} {handler : ε → Program S ε β}
    (h : M.Can permit thread Q (fun error ↦ M.Can permit thread Q E (handler error)) program s) :
    M.Can permit thread Q E (program.tryCatch handler) s := by
  induction program generalizing s with
  | ret value => exact h
  | raise error => exact h
  | perform effect resume ih =>
    obtain ⟨s₁, choice, reply, s₂, hambience, hpermit, hexec, hrest⟩ := h
    exact ⟨s₁, choice, reply, s₂, hambience, hpermit, hexec, ih reply hrest⟩

theorem can_attempt {program : Program S ε β} {Q : Except ε β → M.Shared → Prop}
    (h : M.Can permit thread (fun value ↦ Q (.ok value)) (fun error ↦ Q (.error error))
      program s) : M.Can permit thread Q E program.attempt s := by
  induction program generalizing s with
  | ret value => exact h
  | raise error => exact h
  | perform effect resume ih =>
    obtain ⟨s₁, choice, reply, s₂, hambience, hpermit, hexec, hrest⟩ := h
    exact ⟨s₁, choice, reply, s₂, hambience, hpermit, hexec, ih reply hrest⟩

/-- A transaction that can return from its body can commit. -/
theorem can_transaction {begin commit rollback : Program S ε Unit} {body : Program S ε β}
    (h : M.Can permit thread (fun _ ↦ M.Can permit thread
      (fun value ↦ M.Can permit thread (fun _ ↦ Q value) E commit) (fun _ _ ↦ False) body) E
        begin s) : M.Can permit thread Q E (.transaction begin commit rollback body) s := by
  refine can_bind (h.mono (fun _ s₁ hbody ↦ ?_) fun _ _ herror ↦ herror)
  refine can_bind (can_attempt (hbody.mono (fun value s₂ hcommit ↦ ?_) fun _ _ hfalse ↦
    hfalse.elim))
  exact can_bind hcommit

end Machine

/-! ### Runs of the pool -/

namespace World

variable {M : Machine S ε α} {permit : World.Permit M} {w w' : World M} {thread : ℕ}
  {Q : α → M.Shared → Prop} {E : ε → M.Shared → Prop} {program : Program S ε α}

/-- A turn of one thread: it performs its next effect, or the environment acts. -/
def Turn (permit : World.Permit M) (thread : ℕ) (w w' : World M) : Prop :=
  (∃ choice, w.Permitted permit (.step thread choice) ∧ w.act (.step thread choice) = some w') ∨
    ∃ ambient, w.act (.ambient ambient) = some w'

theorem Turn.step (h : Turn permit thread w w') : Step permit w w' := by
  rcases h with ⟨choice, hpermitted, hact⟩ | ⟨ambient, hact⟩
  · exact ⟨.step thread choice, hpermitted, hact⟩
  · exact ⟨.ambient ambient, trivial, hact⟩

theorem run_of_turns (h : Relation.ReflTransGen (Turn permit thread) w w') :
    Relation.ReflTransGen (Step permit) w w' :=
  Relation.ReflTransGen.mono (fun _ _ ↦ Turn.step) _ _ h

theorem turns_of_ambience (thread : ℕ) {s : M.Shared} (h : M.Ambience w.shared s) :
    Relation.ReflTransGen (Turn permit thread) w { w with shared := s } := by
  unfold Machine.Ambience at h
  induction h with
  | refl => exact .refl
  | tail _ hstep ih =>
    obtain ⟨ambient, hambient⟩ := hstep
    exact ih.tail (Or.inr ⟨ambient, act_of_ambient (w := { w with shared := _ }) hambient⟩)

/-- How a thread has ended: it has returned with the one postcondition, or raised with the other. -/
def Ended (thread : ℕ) (Q : α → M.Shared → Prop) (E : ε → M.Shared → Prop) (w : World M) : Prop :=
  (∃ value, w.threads thread = some (.ret value) ∧ Q value w.shared) ∨
    ∃ error, w.threads thread = some (.raise error) ∧ E error w.shared

/-- A thread goes the way that it can go. -/
theorem exists_turns_of_can (hthread : w.threads thread = some program)
    (h : M.Can permit thread Q E program w.shared) :
    ∃ w', Relation.ReflTransGen (Turn permit thread) w w' ∧ w'.Ended thread Q E := by
  induction program generalizing w with
  | ret value => exact ⟨w, .refl, Or.inl ⟨value, hthread, h⟩⟩
  | raise error => exact ⟨w, .refl, Or.inr ⟨error, hthread, h⟩⟩
  | perform effect resume ih =>
    obtain ⟨s₁, choice, reply, s₂, hambience, hpermit, hexec, hrest⟩ := h
    let w₁ : World M := { w with shared := s₁ }
    have hat : w₁.threads thread = some (.perform effect resume) := hthread
    have hact := act_of_exec hat hexec
    have hturn : Turn permit thread w₁ ⟨s₂, Function.update w.threads thread (some (resume reply)),
        w.next⟩ := by
      refine Or.inl ⟨choice, fun effect' resume' hthread' ↦ ?_, hact⟩
      rw [hat] at hthread'
      obtain ⟨rfl, -⟩ := Program.perform.inj (Option.some.inj hthread')
      exact hpermit
    obtain ⟨w', hrun, hended⟩ := ih reply
      (w := ⟨s₂, Function.update w.threads thread (some (resume reply)), w.next⟩)
      (Function.update_self _ _ _) hrest
    exact ⟨w', ((turns_of_ambience thread hambience).tail hturn).trans hrun, hended⟩

/-- What a program can do once it is launched. -/
theorem exists_run_of_launch {launched : M.Launch} {s : M.Shared}
    (hlaunch : M.launch w.next launched w.shared = some (program, s))
    (h : M.Can permit w.next Q E program s) :
    ∃ w', Relation.ReflTransGen (Step permit) w w' ∧ w'.Ended w.next Q E := by
  obtain ⟨w', hrun, hended⟩ := exists_turns_of_can
    (w := ⟨s, Function.update w.threads w.next (some program), w.next + 1⟩)
    (Function.update_self _ _ _) h
  exact ⟨w', .head ⟨.launch launched, trivial, act_of_launch hlaunch⟩ (run_of_turns hrun), hended⟩

end World

end DinnerRush.Concurrency
