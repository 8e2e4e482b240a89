import DinnerRush.Orchestrator.Discipline
import DinnerRush.Orchestrator.Steps

/-!
# The statements of the orchestrator

One rule for each effect of the handlers, under the discipline: what it needs, and what is known
after it. An effect that only reads has the rule `wp_silent`. Inside a transaction a handler knows
its writes and locks: `Begun` before it holds the lock of an order, `Writing` from then on, where an
assertion on the slice of the order is guarded by the lock. `wp_commit_of_writing` is where the
tables change.
-/

set_option autoImplicit false
set_option relaxedAutoImplicit false

namespace DinnerRush.Orchestrator

open Concurrency Discipline

variable {D : Downstreams} {X : Setting D} {thread : ℕ} {s s' : Shared D} {β : Type}

/-- The precondition of a part of a handler. Nothing is asked of a raised error. -/
abbrev Verifies (X : Setting D) (thread : ℕ) (Q : β → Shared D → Prop) (program : Proc β)
    (s : Shared D) : Prop :=
  (discipline X).wp thread Q (fun _ _ ↦ True) program s

/-- One effect, in the terms of the orchestrator. -/
theorem wp_perform {effect : Effect} {Q : effect.Result → Shared D → Prop}
    {E : Failure → Shared D → Prop}
    (h : ∀ s₁, Relies X thread s s₁ → Sound X s₁ → ∀ choice reply s₂,
      (X.strict → dropsExpendable thread effect choice s₁) →
      exec thread effect choice s₁ = some (reply, s₂) →
        (discipline X).Respects thread s₁ s₂ ∧
          (discipline X).wp thread Q E (Program.ofExcept reply) s₂) :
    (discipline X).wp thread Q E (perform effect) s :=
  wp_call h

/-! ### The kinds of steps -/

theorem respects_self (hinv : Sound X s) : (discipline X).Respects thread s s :=
  ⟨hinv, fun other _ ↦ (discipline X).rely_refl other s⟩

/-- A step of the store that commits nothing. -/
theorem sound_store (hinv : Sound X s) {db : Store} {transitionSeq outboxSeq : ℕ} {began : ℕ → ℕ}
    (hcommitted : db.committed = s.db.committed) (htransitionSeq : s.transitionSeq ≤ transitionSeq)
    (houtboxSeq : s.outboxSeq ≤ outboxSeq)
    (hlocks : ∀ id other, db.owner (.outbox id) = some other → id < outboxSeq) :
    Sound X { s with
      db := db, transitionSeq := transitionSeq, outboxSeq := outboxSeq, began := began } := by
  refine ⟨⟨?_, ?_, ?_, ?_, ?_, hlocks⟩, hinv.filed, ?_, ?_⟩ <;> rw [hcommitted]
  · exact hinv.tables.ledger
  · exact hinv.tables.orderIds
  · exact fun row hrow ↦ Nat.lt_of_lt_of_le (hinv.tables.transitionIds row hrow) htransitionSeq
  · exact hinv.tables.outboxIds
  · exact fun row hrow ↦ Nat.lt_of_lt_of_le (hinv.tables.outboxDrawn row hrow) houtboxSeq
  · exact hinv.effects
  · exact hinv.custody

theorem respects_store (hinv : Sound X s) {db : Store} {transitionSeq outboxSeq : ℕ} {began : ℕ → ℕ}
    (hcommitted : db.committed = s.db.committed) (htransitionSeq : s.transitionSeq ≤ transitionSeq)
    (houtboxSeq : s.outboxSeq ≤ outboxSeq)
    (hlocks : ∀ id other, db.owner (.outbox id) = some other → id < outboxSeq)
    (hkept : ∀ other, other ≠ thread → s.db.Kept guarding other db) :
    (discipline X).Respects thread s { s with
      db := db, transitionSeq := transitionSeq, outboxSeq := outboxSeq, began := began } := by
  refine ⟨sound_store hinv hcommitted htransitionSeq houtboxSeq hlocks,
    fun other hne ↦ ⟨⟨?_, htransitionSeq, houtboxSeq, List.prefix_rfl, X.contract.le_refl _⟩,
      hkept other hne⟩⟩
  rw [hcommitted]
  exact Db.Grows.refl _

/-- A step of the broker. -/
theorem respects_broker (hinv : Sound X s) {broker : Broker} {attempts : ℕ → ℤ}
    (hlog : s.broker.log <+: broker.log) (hfiled : broker.Filed)
    (hcustody : X.strict → Custody s.db.committed broker) :
    (discipline X).Respects thread s { s with broker := broker, attempts := attempts } :=
  ⟨⟨hinv.tables, hfiled, hinv.effects, hcustody⟩, fun other _ ↦
    ⟨⟨Db.Grows.refl _, Nat.le_refl _, Nat.le_refl _, hlog, X.contract.le_refl _⟩,
      Transactions.Kept.refl other _⟩⟩

theorem respects_moves (hinv : Sound X s) {broker : Broker} {attempts : ℕ → ℤ}
    (hmoves : Broker.Moves s.broker broker) :
    (discipline X).Respects thread s { s with broker := broker, attempts := attempts } := by
  refine respects_broker hinv ?_ (hinv.filed.moves hmoves) fun hstrict ↦
    (hinv.custody hstrict).moves hmoves
  rw [hmoves.log]


/-- What a program returns may be related to the state before it. -/
theorem wp_grows {program : Proc β} {Q : β → Shared D → Prop} {E : Failure → Shared D → Prop}
    (h : (discipline X).wp thread (fun value s₁ ↦ Grows X s s₁ → Q value s₁) E program s) :
    (discipline X).wp thread Q E program s := by
  have hpermanent : (discipline X).Permanent (Grows X s) :=
    fun _ _ _ hrely hgrows ↦ hgrows.trans hrely.toGrows
  exact wp_known hpermanent (Grows.refl s) h

section Failing

variable {E : Failure → Shared D → Prop} (hE : ∀ text s, E (.error text) s)

include hE

/-- An effect that failed and changed nothing. -/
theorem wp_raise (hinv : Sound X s) {Q : β → Shared D → Prop} {text : String} :
    (discipline X).Respects thread s s ∧
      (discipline X).wp thread Q E (.raise (.error text)) s :=
  ⟨respects_self hinv, fun s₁ _ _ ↦ hE text s₁⟩

theorem wp_silent {effect : Effect} (hsilent : effect.silent = true)
    {Q : effect.Result → Shared D → Prop}
    (h : ∀ s₁ choice value, Relies X thread s s₁ → Sound X s₁ →
      exec thread effect choice s₁ = some (.ok value, s₁) →
        (discipline X).Always thread (Q value) s₁) :
    (discipline X).wp thread Q E (perform effect) s := by
  apply wp_perform
  intro s₁ hrely hinv choice reply s₂ _ hexec
  obtain ⟨rfl, herror⟩ := exec_silent hsilent hexec
  refine ⟨respects_self hinv, ?_⟩
  cases reply with
  | ok value => exact h s₂ choice value hrely hinv hexec
  | error error =>
    obtain ⟨text, rfl⟩ := herror error rfl
    exact (wp_raise hE hinv).2

end Failing

/-! ### The broker -/

/-- The message that a handler was given is one of the log. -/
def Delivered (message : Delivery) (s : Shared D) : Prop :=
  ∃ publication, s.broker.log[message.number]? = some publication ∧
    publication.body = message.body

/-- The message may go: its duty is discharged, or was published again. -/
def Settled (message : Delivery) (s : Shared D) : Prop :=
  ∀ task, duty message.body = some task →
    Discharged s.db.committed task ∨ s.broker.Republished duty message.number task

/-- The publication was logged, and not before the bound. -/
def Logged (bound : ℕ) (publication : Publication) (s : Shared D) : Prop :=
  ∃ i, bound ≤ i ∧ s.broker.log[i]? = some publication

theorem permanent_delivered (message : Delivery) :
    (discipline X).Permanent (Delivered message) := by
  rintro _ s s' hrely ⟨publication, hlogged, hbody⟩
  exact ⟨publication, Broker.logged_of_prefix hrely.log hlogged, hbody⟩

theorem permanent_settled (message : Delivery) : (discipline X).Permanent (Settled message) := by
  intro _ s s' hrely h task htask
  rcases h task htask with hdone | hagain
  · exact Or.inl (hdone.grows hrely.db)
  · exact Or.inr (hagain.grows hrely.log)

theorem permanent_logged (bound : ℕ) (publication : Publication) :
    (discipline X).Permanent (Logged bound publication) := by
  rintro _ s s' hrely ⟨i, hi, hlogged⟩
  exact ⟨i, hi, Broker.logged_of_prefix hrely.log hlogged⟩

/-- A message that was published again may go. -/
theorem Logged.settled {message : Delivery} {publication : Publication}
    (h : Logged (message.number + 1) publication s)
    (hduty : duty publication.body = duty message.body) : Settled message s := by
  intro task htask
  obtain ⟨i, hi, hlogged⟩ := h
  exact Or.inr ⟨i, publication, hi, hlogged, hduty.trans htask⟩

/-- What follows an ack is verified whether the ack took effect or raised. -/
theorem wp_of_acked {reply : Except Failure Unit} {Q : Unit → Shared D → Prop}
    (hQ : ∀ s₁, Q () s₁) : Verifies X thread Q (Program.ofExcept reply) s := by
  cases reply with
  | ok value => exact fun s₁ _ _ ↦ hQ s₁
  | error error => exact fun _ _ _ ↦ trivial

/-- Acking a message needs it to be settled. -/
theorem wp_ack {message : Delivery} {Q : Unit → Shared D → Prop}
    (hdelivered : Delivered message s) (hsettled : X.strict → Settled message s)
    (h : ∀ s₁, Q () s₁) : Verifies X thread Q (perform (.ack message.number)) s := by
  apply wp_perform
  intro s₁ hrely hinv choice reply s₂ _ hexec
  refine ⟨?_, wp_of_acked h⟩
  rcases (acked_cases hexec).1 with rfl | rfl
  · exact respects_self hinv
  · refine respects_broker hinv List.prefix_rfl (hinv.filed.discard _ _) fun hstrict ↦ ?_
    refine (hinv.custody hstrict).discard fun copy hcopy hawaits task htask ↦ ?_
    obtain ⟨publication, hlogged, hbody⟩ := permanent_delivered message thread s s₁ hrely hdelivered
    obtain ⟨filed, hfiled, hcopybody⟩ := hinv.filed copy hcopy
    have hnumber : copy.number = message.number := by
      rw [Broker.awaits, Bool.and_eq_true, beq_iff_eq] at hawaits
      exact hawaits.1
    rw [hnumber, hlogged] at hfiled
    have hsame : copy.body = message.body := by
      rw [← hcopybody, ← hbody, Option.some.inj hfiled]
    rw [hsame] at htask
    exact permanent_settled message thread s s₁ hrely (hsettled hstrict) task htask

/-- Dropping a message needs it to be expendable; returning it to its queue needs nothing. -/
theorem wp_nack {number : ℕ} {requeue : Bool} {Q : Unit → Shared D → Prop} (h : ∀ s₁, Q () s₁) :
    Verifies X thread Q (perform (.nack number requeue)) s := by
  apply wp_perform
  intro s₁ _ hinv choice reply s₂ hpermit hexec
  refine ⟨?_, wp_of_acked h⟩
  cases requeue with
  | true =>
    rcases (acked_cases hexec).1 with rfl | rfl
    · exact respects_self hinv
    · exact respects_moves hinv (Broker.moves_requeue _ number thread)
  | false =>
    have hdrop : s₂ = s₁ ∨ (s₂ = s₁.settle (s₁.broker.discard number thread) ∧
        (X.strict → ∀ copy ∈ s₁.broker.copies, Broker.awaits number thread copy →
          expendable s₁.db.committed s₁.broker copy)) := by
      have hspared : (s₁.broker.copies.all fun copy ↦ !Broker.awaits number thread copy ||
          expendable s₁.db.committed s₁.broker copy) = true →
          ∀ copy ∈ s₁.broker.copies, Broker.awaits number thread copy →
            expendable s₁.db.committed s₁.broker copy := by
        intro hall copy hcopy hawaits
        have hcopies := List.all_eq_true.mp hall copy hcopy
        rwa [hawaits, Bool.not_true, Bool.false_or] at hcopies
      cases choice with
      | done =>
        obtain ⟨rfl, rfl⟩ := Prod.mk.inj (Option.some.inj hexec)
        exact Or.inr ⟨rfl, fun hstrict ↦ hspared (hpermit hstrict)⟩
      | unconfirmed text =>
        obtain ⟨rfl, rfl⟩ := Prod.mk.inj (Option.some.inj hexec)
        exact Or.inr ⟨rfl, fun hstrict ↦ hspared (hpermit hstrict)⟩
      | ignored => exact Or.inl (Prod.mk.inj (Option.some.inj hexec)).2.symm
      | lost text => exact Or.inl (Prod.mk.inj (Option.some.inj hexec)).2.symm
      | _ => cases hexec
    rcases hdrop with rfl | ⟨rfl, hfree⟩
    · exact respects_self hinv
    · refine respects_broker hinv List.prefix_rfl (hinv.filed.discard _ _) fun hstrict ↦ ?_
      exact (hinv.custody hstrict).discard_of_expendable hinv.tables.ledger hinv.filed
        (hfree hstrict)

/-- Publishing. A command names a state that its order has entered, and is no event. The transaction
of the thread is kept. -/
theorem wp_publish {exchange : Exchange} {routingKey : String} {body : Body}
    {Q : Unit → Shared D → Prop}
    (hnamed : X.strict → ∀ env, body = .envelope env → env.type = .advance →
      Named s.db.committed env)
    (hevents : X.strict → exchange = .events → body.type ≠ some .advance)
    (h : ∀ s₁, s.db.Kept guarding thread s₁.db →
      (Broker.Routable ⟨some thread, exchange, routingKey, body⟩ →
        Logged s.broker.log.length ⟨some thread, exchange, routingKey, body⟩ s₁) → Q () s₁) :
    Verifies X thread Q (perform (.publish exchange routingKey body)) s := by
  apply wp_perform
  intro s₁ hrely hinv choice reply s₂ _ hexec
  let publication : Publication := ⟨some thread, exchange, routingKey, body⟩
  have hpublish : (discipline X).Respects thread s₁ (s₁.publish publication) := by
    refine respects_broker hinv (s₁.broker.log_publish publication)
      (hinv.filed.publish publication) fun hstrict ↦ ?_
    refine (hinv.custody hstrict).publish (fun env hbody htype ↦ ?_) (hevents hstrict)
    exact (hnamed hstrict env hbody htype).grows hrely.db
  rcases confirmed_cases hexec with ⟨rfl, rfl⟩ | ⟨hcases, text, rfl⟩
  · refine ⟨hpublish, fun s₃ hrely₃ _ ↦ h s₃ (hrely.kept.trans hrely₃.kept) fun hroutable ↦ ?_⟩
    have hlogged := s₁.broker.exists_log_publish hroutable
    exact permanent_logged _ publication thread _ s₃ hrely₃ ⟨_, hrely.log.length_le, hlogged⟩
  · refine ⟨?_, fun _ _ _ ↦ trivial⟩
    rcases hcases with rfl | rfl
    · exact respects_self hinv
    · exact hpublish

theorem wp_declareEventQueue {Q : Unit → Shared D → Prop} (h : ∀ s₁, Q () s₁) :
    Verifies X thread Q (perform .declareEventQueue) s := by
  apply wp_perform
  intro s₁ _ hinv choice reply s₂ _ hexec
  have hdeclare : (discipline X).Respects thread s₁ (s₁.settle s₁.broker.declarePlaced) :=
    respects_broker hinv List.prefix_rfl hinv.filed fun hstrict ↦
      let hcustody := hinv.custody hstrict
      ⟨hcustody.kept, hcustody.named, hcustody.placed, hcustody.stamped⟩
  rcases confirmed_cases hexec with ⟨rfl, rfl⟩ | ⟨hcases, text, rfl⟩
  · exact ⟨hdeclare, fun s₂ _ _ ↦ h s₂⟩
  · refine ⟨?_, fun _ _ _ ↦ trivial⟩
    rcases hcases with rfl | rfl
    · exact respects_self hinv
    · exact hdeclare

/-- A delivery hands over a message of the log. -/
theorem respects_deliver (hinv : Sound X s) {number : ℕ} {queue : Queue} {message : Delivery}
    {broker : Broker} {attempts : ℕ → ℤ}
    (h : s.broker.deliver number queue thread = some (message, broker)) :
    (discipline X).Respects thread s { s with broker := broker, attempts := attempts } ∧
      Delivered message { s with broker := broker, attempts := attempts } := by
  obtain ⟨hmoves, copy, hcopy, -, hnumber, hbody⟩ := Broker.deliver_cases h
  obtain ⟨publication, hlogged, hsame⟩ := hinv.filed copy hcopy
  refine ⟨respects_moves hinv hmoves, publication, ?_, hsame.trans hbody.symm⟩
  show broker.log[message.number]? = some publication
  rw [hmoves.log, hnumber, hlogged]

theorem wp_getDlq {Q : Option Delivery → Shared D → Prop} (hnone : ∀ s₁, Q none s₁)
    (hsome : ∀ s₁ message, Delivered message s₁ → Q (some message) s₁) :
    Verifies X thread Q (perform .getDlq) s := by
  apply wp_perform
  intro s₁ _ hinv choice reply s₂ _ hexec
  cases choice with
  | message number =>
    obtain ⟨⟨message, broker⟩, hdeliver, hreply⟩ := Option.map_eq_some_iff.mp hexec
    obtain ⟨rfl, rfl⟩ := Prod.mk.inj hreply
    obtain ⟨hrespects, hdelivered⟩ :=
      respects_deliver hinv hdeliver
    refine ⟨hrespects, fun s₃ hrely₃ _ ↦ hsome s₃ message ?_⟩
    exact permanent_delivered message thread _ s₃ hrely₃ hdelivered
  | done =>
    simp only [exec] at hexec
    split at hexec
    · obtain ⟨rfl, rfl⟩ := Prod.mk.inj (Option.some.inj hexec)
      exact ⟨respects_self hinv, fun s₃ _ _ ↦ hnone s₃⟩
    · cases hexec
  | lost text =>
    obtain ⟨rfl, rfl⟩ := Prod.mk.inj (Option.some.inj hexec)
    exact wp_raise (fun _ _ ↦ trivial) hinv
  | _ => cases hexec

/-- The counter of the envelope in hand is no part of the invariant. -/
theorem wp_bumpAttempt {Q : Unit → Shared D → Prop} (h : ∀ s₁, Q () s₁) :
    Verifies X thread Q (perform .bumpAttempt) s := by
  apply wp_perform
  intro s₁ _ hinv choice reply s₂ _ hexec
  cases choice with
  | done =>
    obtain ⟨rfl, rfl⟩ := Prod.mk.inj (Option.some.inj hexec)
    exact ⟨respects_broker hinv List.prefix_rfl hinv.filed hinv.custody, fun s₃ _ _ ↦ h s₃⟩
  | _ => cases hexec

end DinnerRush.Orchestrator
