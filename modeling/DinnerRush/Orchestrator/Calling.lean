import DinnerRush.Orchestrator.Statements

/-!
# Calling a downstream

What the orchestrator knows after `post_json`: a result comes from an answer below 300, so the
downstream has performed the operation, and a permanent error from a definitive rejection
(`wp_postJson`). Nothing is known after a retry is exhausted, although the downstream may have
performed the operation too.
-/

set_option autoImplicit false
set_option relaxedAutoImplicit false

namespace DinnerRush.Orchestrator

open Concurrency Discipline

variable {D : Downstreams} {X : Setting D} {thread : ℕ} {s s' : Shared D} {service : Service}
  {row : OrderRow} {source target : State}

/-- The order was read from the database and has been in the state; only its state may have changed
since. -/
structure Known (row : OrderRow) (source : State) (s : Shared D) : Prop where
  order : ∃ row' ∈ s.db.committed.orders, row'.core = row.core
  entered : Entered s.db.committed row.orderId source

theorem Known.grows (h : Known row source s) (hgrows : Grows X s s') : Known row source s' := by
  obtain ⟨before, hbefore, hsame⟩ := h.order
  obtain ⟨after, hafter, hcore⟩ := hgrows.db.orders before hbefore
  exact ⟨⟨after, hafter, hcore.trans hsame⟩, h.entered.grows hgrows.db⟩

theorem permanent_known (row : OrderRow) (source : State) :
    (discipline X).Permanent (Known row source) :=
  fun _ _ _ hrely h ↦ h.grows hrely.toGrows

theorem Known.ordered (h : Known row source s) (hnext : nextHappyState source = some target)
    (hstage : stageDownstream target = some service) :
    Ordered s.db.committed service (stepCommand service row source target) := by
  obtain ⟨row', hrow', hcore⟩ := h.order
  refine ⟨row', hrow', source, target, ?_, hnext, hstage, ?_⟩
  · rw [orderId_of_core hcore]
    exact h.entered
  · rw [stepCommand_core service row, stepCommand_core service row', hcore]

/-- The downstream has performed the operation of the step. -/
abbrev StepDone (X : Setting D) (service : Service) (row : OrderRow) (source target : State)
    (s : Shared D) : Prop :=
  X.contract.Done s.downstream service (opIdFor row.orderId source target)

/-- The downstream has rejected the operation of the step. -/
abbrev StepRefused (X : Setting D) (service : Service) (row : OrderRow) (source target : State)
    (s : Shared D) : Prop :=
  X.contract.Refused s.downstream service (opIdFor row.orderId source target)

theorem permanent_stepDone : (discipline X).Permanent (StepDone X service row source target) :=
  fun _ _ _ hrely h ↦ X.contract.done_le _ _ _ _ hrely.downstream h

theorem permanent_stepRefused :
    (discipline X).Permanent (StepRefused X service row source target) :=
  fun _ _ _ hrely h ↦ X.contract.refused_le _ _ _ _ hrely.downstream h

/-- What is known when a call raises: only a permanent error tells something. -/
def Rejected (X : Setting D) (service : Service) (row : OrderRow) (source target : State)
    (error : Failure) (s : Shared D) : Prop :=
  ∀ statusCode, error = .permanentError statusCode → StepRefused X service row source target s

theorem rejected_error (text : String) (s : Shared D) :
    Rejected X service row source target (.error text) s := by
  intro statusCode hcode
  cases hcode

/-- The precondition of a part of a call. -/
abbrev Calls {β : Type} (X : Setting D) (thread : ℕ) (service : Service) (row : OrderRow)
    (source target : State) (Q : β → Shared D → Prop) (program : Proc β) (s : Shared D) : Prop :=
  (discipline X).wp thread Q (Rejected X service row source target) program s

/-- A request that is sent is received, and is about a step that was ordered. -/
theorem wp_send {Q : Except String ℕ → Shared D → Prop} (hknown : Known row source s)
    (hnext : nextHappyState source = some target) (hstage : stageDownstream target = some service)
    (herror : ∀ text s₁, Q (.error text) s₁)
    (hsent : ∀ s₁ request, X.contract.Sent s₁.downstream service request
      (stepCommand service row source target) → Q (.ok request) s₁) :
    Calls X thread service row source target Q
      (perform (.send service (stepCommand service row source target))) s := by
  apply wp_perform
  intro s₁ hrely hinv choice reply s₂ _ hexec
  cases choice with
  | done =>
    obtain ⟨rfl, rfl⟩ := Prod.mk.inj (Option.some.inj hexec)
    obtain ⟨hcontract, hle, hreceived, hnew⟩ :=
      X.contract.send service row source target s₁.downstream hinv.effects.inv
    have hordered : Ordered s₁.db.committed service (stepCommand service row source target) :=
      (hknown.grows hrely.toGrows).ordered hnext hstage
    constructor
    · refine ⟨⟨hinv.tables, hinv.filed, ⟨hcontract, ?_, ?_⟩, hinv.custody⟩, fun other _ ↦
        ⟨⟨Db.Grows.refl _, Nat.le_refl _, Nat.le_refl _, List.prefix_rfl, hle⟩,
          Transactions.Kept.refl other _⟩⟩
      · intro service' command' hreceived'
        rcases hnew service' command' hreceived' with hold | ⟨rfl, rfl⟩
        · exact hinv.effects.ordered service' command' hold
        · exact hordered
      · exact fun transition htransition ↦ (hinv.effects.backed transition htransition).le hle
    · intro s₃ hrely₃ _
      exact hsent s₃ _ (X.contract.sent_le _ _ _ _ _ hrely₃.downstream hreceived)
  | transport text =>
    obtain ⟨rfl, rfl⟩ := Prod.mk.inj (Option.some.inj hexec)
    exact ⟨respects_self hinv, fun s₃ _ _ ↦ herror text s₃⟩
  | lost text =>
    obtain ⟨rfl, rfl⟩ := Prod.mk.inj (Option.some.inj hexec)
    exact wp_raise (fun text _ ↦ rejected_error text _) hinv
  | _ => cases hexec

/-- An answer to the request vouches for what the downstream has done. -/
theorem wp_await {request : ℕ} {Q : Except String HttpResponse → Shared D → Prop}
    (hsent : X.contract.Sent s.downstream service request (stepCommand service row source target))
    (herror : ∀ text s₁, Q (.error text) s₁)
    (hanswered : ∀ s₁ response,
      (response.statusCode < 300 → StepDone X service row source target s₁) →
      (300 ≤ response.statusCode → response.statusCode ≠ 429 → response.statusCode < 500 →
        StepRefused X service row source target s₁) → Q (.ok response) s₁) :
    Calls X thread service row source target Q (perform (.await service request)) s := by
  apply wp_silent (fun text _ ↦ rejected_error text _) rfl
  intro s₁ choice result hrely hinv hexec s₂ hrely₂ _
  cases choice with
  | response response =>
    simp only [exec] at hexec
    split at hexec
    · rename_i hanswer
      obtain rfl := Except.ok.inj (Prod.mk.inj (Option.some.inj hexec)).1
      have hsent₁ := X.contract.sent_le _ _ _ _ _ hrely.downstream hsent
      obtain ⟨hdone, hrefused⟩ := X.contract.answered s₁.downstream service row source target
        request
        response hinv.effects.inv hsent₁ hanswer
      refine hanswered s₂ response (fun hcode ↦ ?_) fun hcode hlimit hserver ↦ ?_
      · exact X.contract.done_le _ _ _ _ hrely₂.downstream (hdone hcode)
      · exact X.contract.refused_le _ _ _ _ hrely₂.downstream (hrefused hcode hlimit hserver)
    · cases hexec
  | transport text =>
    obtain rfl := Except.ok.inj (Prod.mk.inj (Option.some.inj hexec)).1
    exact herror text s₂
  | _ => cases hexec

/-! ### The HTTP client -/

variable {remaining attempt left : ℕ} {next : Proc Json}

theorem wp_exhausted {Q : Json → Shared D → Prop} {text : String} :
    Calls X thread service row source target Q ((client X.cfg service).exhausted text) s := by
  apply wp_bind
  apply wp_silent (fun text _ ↦ rejected_error text _) rfl
  intro s₁ choice value _ _ _ s₂ _ _ s₃ _ _ statusCode hcode
  cases hcode

/-- What `_backoff` raises is no permanent error. -/
theorem wp_overflow {Q : Json → Shared D → Prop} :
    Calls X thread service row source target Q (.raise overflowError) s :=
  fun s₁ _ _ ↦ rejected_error _ s₁

theorem wp_pause {Q : Json → Shared D → Prop} {delay : Except Failure Unit}
    (hdelay : delay = .ok () ∨ delay = .error overflowError) (hknown : Known row source s)
    (hnext : ∀ s₁, Known row source s₁ → Calls X thread service row source target Q next s₁) :
    Calls X thread service row source target Q ((client X.cfg service).pause delay next) s := by
  rcases hdelay with rfl | rfl
  · apply wp_bind
    refine wp_known (permanent_known row source) hknown ?_
    apply wp_silent (fun text _ ↦ rejected_error text _) rfl
    exact fun s₁ choice value _ _ _ s₂ _ _ hknown₂ ↦ hnext s₂ hknown₂
  · exact wp_overflow

theorem wp_again {Q : Json → Shared D → Prop} {text : String} (hknown : Known row source s)
    (hnext : ∀ s₁, Known row source s₁ → Calls X thread service row source target Q next s₁) :
    Calls X thread service row source target Q
      ((client X.cfg service).again attempt left text next) s := by
  unfold HttpClient.again
  split
  · exact wp_exhausted
  · exact wp_pause (backoff_cases attempt) hknown hnext

theorem wp_rateLimited {Q : Json → Shared D → Prop} {retryAfter : Option ℚ}
    (hknown : Known row source s)
    (hnext : ∀ s₁, Known row source s₁ → Calls X thread service row source target Q next s₁) :
    Calls X thread service row source target Q
      ((client X.cfg service).rateLimited attempt left retryAfter next) s := by
  unfold HttpClient.rateLimited
  rcases retryDelay_cases attempt retryAfter with hdelay | hdelay <;> rw [hdelay]
  · by_cases hlast : left = 0
    · simp only [if_pos hlast]
      exact wp_exhausted
    · simp only [if_neg hlast]
      exact wp_pause (Or.inl rfl) hknown hnext
  · exact wp_overflow

theorem wp_post {Q : Except String HttpResponse → Shared D → Prop} (hknown : Known row source s)
    (hhappy : nextHappyState source = some target) (hstage : stageDownstream target = some service)
    (herror : ∀ text s₁, Q (.error text) s₁)
    (hanswered : ∀ s₁ response,
      (response.statusCode < 300 → StepDone X service row source target s₁) →
      (300 ≤ response.statusCode → response.statusCode ≠ 429 → response.statusCode < 500 →
        StepRefused X service row source target s₁) → Q (.ok response) s₁) :
    Calls X thread service row source target Q
      ((client X.cfg service).post (stepCommand service row source target)) s := by
  apply wp_bind
  apply wp_send hknown hhappy hstage
  · exact fun text s₁ s₂ _ _ ↦ herror text s₂
  · exact fun s₁ request hsent ↦ wp_await hsent herror hanswered

/-- The breaker is told of a success before the answer is used. -/
theorem wp_recordSuccess {P : Shared D → Prop} (hP : (discipline X).Permanent P) (hs : P s)
    {program : Proc Json} {Q : Json → Shared D → Prop}
    (h : ∀ s₁, P s₁ → Calls X thread service row source target Q program s₁) :
    Calls X thread service row source target Q
      ((client X.cfg service).recordSuccess.bind fun _ ↦ program) s := by
  apply wp_bind
  refine wp_known hP hs ?_
  apply wp_silent (fun text _ ↦ rejected_error text _) rfl
  exact fun s₁ choice value _ _ _ s₂ _ _ hs₂ ↦ h s₂ hs₂

/-- One attempt: post, and look at the answer. -/
theorem wp_attempts_step (hknown : Known row source s)
    (hhappy : nextHappyState source = some target)
    (hstage : stageDownstream target = some service)
    (hnext : ∀ s₁, Known row source s₁ → Calls X thread service row source target
      (fun _ s₂ ↦ StepDone X service row source target s₂) next s₁) :
    Calls X thread service row source target
      (fun _ s₁ ↦ StepDone X service row source target s₁)
      (((client X.cfg service).post (stepCommand service row source target)).bind
        ((client X.cfg service).react attempt left next)) s := by
  apply wp_bind
  refine wp_known (permanent_known row source) hknown ?_
  apply wp_post hknown hhappy hstage
  · exact fun text s₁ hknown₁ ↦ wp_again hknown₁ hnext
  · intro s₁ response hdone hrefused hknown₁
    show Calls X thread service row source target _ (if response.statusCode < 300 then _ else _) s₁
    by_cases hsuccess : response.statusCode < 300
    · rw [if_pos hsuccess]
      refine wp_recordSuccess permanent_stepDone (hdone hsuccess) fun s₂ hdone₂ ↦ ?_
      unfold HttpClient.parse
      cases response.json with
      | some json => exact fun s₃ hrely₃ _ ↦ permanent_stepDone thread s₂ s₃ hrely₃ hdone₂
      | none => exact fun s₃ _ _ ↦ rejected_error _ s₃
    · rw [if_neg hsuccess]
      by_cases hlimit : response.statusCode = 429
      · rw [if_pos hlimit]
        exact wp_rateLimited hknown₁ hnext
      · rw [if_neg hlimit]
        by_cases hserver : 500 ≤ response.statusCode
        · rw [if_pos hserver]
          exact wp_again hknown₁ hnext
        · rw [if_neg hserver]
          have hrejected := hrefused (by omega) hlimit (by omega)
          refine wp_recordSuccess permanent_stepRefused hrejected fun s₂ hrefused₂ ↦ ?_
          exact fun s₃ hrely₃ _ _ _ ↦ permanent_stepRefused thread s₂ s₃ hrely₃ hrefused₂

theorem wp_attempts (hhappy : nextHappyState source = some target)
    (hstage : stageDownstream target = some service) (hknown : Known row source s) :
    Calls X thread service row source target (fun _ s₁ ↦ StepDone X service row source target s₁)
      ((client X.cfg service).attempts (stepCommand service row source target) remaining
        attempt) s := by
  induction remaining generalizing s attempt with
  | zero => exact wp_exhausted
  | succ left ih => exact wp_attempts_step hknown hhappy hstage fun s₁ hknown₁ ↦ ih hknown₁

/-- A call that returns has been answered by a downstream that has performed the operation, and one
that raises a permanent error by a downstream that has rejected it. -/
theorem wp_postJson (hhappy : nextHappyState source = some target)
    (hstage : stageDownstream target = some service) (hknown : Known row source s) :
    Calls X thread service row source target (fun _ s₁ ↦ StepDone X service row source target s₁)
      ((client X.cfg service).postJson (stepCommand service row source target)) s := by
  apply wp_bind
  refine wp_known (permanent_known row source) hknown ?_
  apply wp_silent (fun text _ ↦ rejected_error text _) rfl
  intro s₁ choice allowed _ _ _ s₂ _ _ hknown₂
  cases allowed with
  | true => exact wp_attempts hhappy hstage hknown₂
  | false =>
    intro s₃ _ _ statusCode hcode
    cases hcode

end DinnerRush.Orchestrator
