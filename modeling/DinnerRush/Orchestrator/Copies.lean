import DinnerRush.Orchestrator.Provenance
import DinnerRush.Orchestrator.Publications

/-!
# Commands are copies

A handler makes up no command. What it bounces, parks or replays it was given, so the relay has
published the command before, or another service has published one like it (`copying_of_reachable`).
-/

set_option autoImplicit false
set_option relaxedAutoImplicit false

namespace DinnerRush.Orchestrator

open Concurrency Discipline World

variable {cfg : Config} {D : Downstreams} {foreign : Publication → Bool} {thread n n' : ℕ}
  {body : Body} {s s' : Recorded (orchestrator cfg D foreign)} {now : Shared D}

/-- The publication is a command to advance the order from the state. -/
def Commanding (orderId : String) (source : Option String) (publication : Publication) : Prop :=
  ∃ env, publication.body = .envelope env ∧ env.type = .advance ∧ env.orderId = orderId ∧
    env.data.fromState = source

/-- Another service has published the command. -/
def Forged (log : List Publication) (orderId : String) (source : Option String) : Prop :=
  ∃ publication ∈ log, publication.publisher = none ∧ Commanding orderId source publication

/-- A command in the body was published by the relay, among the first `n` publications, or by
another service. -/
def Copied (n : ℕ) (body : Body) (s : Recorded (orchestrator cfg D foreign)) : Prop :=
  ∀ env, body = .envelope env → env.type = .advance →
    (∃ i < n, ∃ original, (publications s.history)[i]? = some original ∧
      FromRelay s.history original ∧ Commanding env.orderId env.data.fromState original) ∨
    Forged s.now.broker.log env.orderId env.data.fromState

/-- The body is that of a command that was published. -/
def Familiar (body : Body) (s : Recorded (orchestrator cfg D foreign)) : Prop :=
  Copied (publications s.history).length body s

/-- What the broker holds, and what a handler publishes, was published before. -/
structure Copying (s : Recorded (orchestrator cfg D foreign)) : Prop where
  copies : ∀ copy ∈ s.now.broker.copies, Familiar copy.body s
  handled : ∀ j publication, (publications s.history)[j]? = some publication →
    Copied j publication.body s ∨ FromRelay s.history publication

/-- A thread keeps its launch, and the log of the broker and the history go on. -/
structure Extends (thread : ℕ) (s s' : Recorded (orchestrator cfg D foreign)) : Prop where
  launch : s'.history.launches thread = s.history.launches thread
  goesOn : GoesOn s.history s'.history
  log : s.now.broker.log <+: s'.now.broker.log

def copying (cfg : Config) (D : Downstreams) (foreign : Publication → Bool) :
    Discipline (orchestrator cfg D foreign).recorded where
  Permit _ _ _ _ := True
  Inv := Copying
  Rely := Extends
  Fresh thread s := History.launches (Recorded.history s) thread = none
  Post _ _ _ := True
  rely_refl _ _ := ⟨rfl, .refl _, List.prefix_rfl⟩
  rely_trans _ _ _ _ h h' :=
    ⟨h'.launch.trans h.launch, h.goesOn.trans h'.goesOn, h.log.trans h'.log⟩
  fresh_rely _ _ _ hrely hfresh := hrely.launch.trans hfresh

theorem Forged.grows {log log' : List Publication} {orderId : String} {source : Option String}
    (h : Forged log orderId source) (hlog : log <+: log') : Forged log' orderId source := by
  obtain ⟨publication, hlogged, hforged⟩ := h
  exact ⟨publication, hlog.subset hlogged, hforged⟩

theorem Copied.mono (h : Copied n body s) (hn : n ≤ n') (hon : GoesOn s.history s'.history)
    (hlog : s.now.broker.log <+: s'.now.broker.log) : Copied n' body s' := by
  intro env hbody htype
  refine (h env hbody htype).imp ?_ fun hforged ↦ hforged.grows hlog
  rintro ⟨i, hi, original, hat, hrelay, hcommanding⟩
  exact ⟨i, Nat.lt_of_lt_of_le hi hn, original, Broker.logged_of_prefix hon.publications hat,
    hon.fromRelay hrelay, hcommanding⟩

theorem Familiar.mono (h : Familiar body s) (hon : GoesOn s.history s'.history)
    (hlog : s.now.broker.log <+: s'.now.broker.log) : Familiar body s' :=
  Copied.mono h hon.publications.length_le hon hlog

/-- A command is known by its order and its state, whatever its counter. -/
theorem Familiar.counted {env : Envelope} (h : Familiar (.envelope env) s) (attempt : ℤ) :
    Familiar (.envelope { env with attempt := attempt }) s := by
  intro counted hcounted htype
  obtain rfl := Body.envelope.inj hcounted
  exact h env rfl htype

/-- What the relay has published is known. -/
theorem familiar_of_fromRelay {publication : Publication}
    (hmem : publication ∈ publications s.history)
    (hrelay : FromRelay s.history publication) : Familiar publication.body s := by
  intro env hbody htype
  obtain ⟨i, hi⟩ := List.mem_iff_getElem?.mp hmem
  exact Or.inl
    ⟨i, (List.getElem?_eq_some_iff.mp hi).1, publication, hi, hrelay, env, hbody, htype, rfl,
    rfl⟩

/-! ### One effect of a thread -/

/-- A publication that takes place reaches the broker; no other effect adds a message. -/
theorem broker_of_publicationOf {effect : Effect} {choice : Choice} {b b' : Shared D}
    {reply : Except Failure effect.Result} (h : exec thread effect choice b = some (reply, b')) :
    (∃ publication, publicationOf thread effect choice = some publication ∧
      b'.broker = b.broker.publish publication) ∨
    (publicationOf thread effect choice = none ∧ b'.broker.log = b.broker.log ∧
      ∀ copy ∈ b'.broker.copies, ∃ before ∈ b.broker.copies, copy.body = before.body) := by
  by_cases hpublish : ∃ exchange routingKey body, effect = .publish exchange routingKey body
  · obtain ⟨exchange, routingKey, body, rfl⟩ := hpublish
    cases choice with
    | done | unconfirmed =>
      obtain ⟨-, rfl⟩ := Prod.mk.inj (Option.some.inj h)
      exact Or.inl ⟨_, rfl, rfl⟩
    | lost text =>
      obtain ⟨-, rfl⟩ := Prod.mk.inj (Option.some.inj h)
      exact Or.inr ⟨rfl, rfl, fun copy hcopy ↦ ⟨copy, hcopy, rfl⟩⟩
    | _ => cases h
  · right
    refine ⟨?_, ?_⟩
    · unfold publicationOf
      split
      · exact absurd ⟨_, _, _, rfl⟩ hpublish
      · rfl
    · rcases broker_of_exec h with hmoves | hbound | ⟨number, hdiscarded⟩ |
        ⟨exchange, routingKey, body, heffect, -⟩
      · refine ⟨hmoves.log, fun copy hcopy ↦ ?_⟩
        obtain ⟨before, hbefore, -, hbody, -⟩ := hmoves.origin copy hcopy
        exact ⟨before, hbefore, hbody⟩
      · rw [hbound]
        exact ⟨rfl, fun copy hcopy ↦ ⟨copy, hcopy, rfl⟩⟩
      · rw [hdiscarded]
        exact ⟨rfl, fun copy hcopy ↦ ⟨copy, List.mem_of_mem_filter hcopy, rfl⟩⟩
      · exact absurd ⟨exchange, routingKey, body, heffect⟩ hpublish

/-- The copies after a publication. -/
theorem mem_copies_publish {b : Broker} {publication : Publication} {copy : Copy}
    (h : copy ∈ (b.publish publication).copies) : copy ∈ b.copies ∨
      (copy.body = publication.body ∧ publication ∈ (b.publish publication).log) := by
  rcases b.publish_cases publication with ⟨-, hsame⟩ | ⟨queue, -, hpublished⟩
  · rw [hsame] at h
    exact Or.inl h
  · rw [hpublished] at h ⊢
    refine (List.mem_append.mp h).imp_right fun hnew ↦ ?_
    rw [List.mem_singleton.mp hnew]
    exact ⟨rfl, List.mem_append_right _ List.mem_cons_self⟩

/-- An effect of a thread that publishes only what is known, or is a round of the relay. -/
theorem respects_copying (hinv : Copying s) {effect : Effect} {choice : Choice}
    {reply : Except Failure effect.Result}
    (hpublish : ∀ exchange routingKey body, effect = .publish exchange routingKey body →
      Familiar body s ∨ IsRound s.history thread)
    (hexec : exec thread effect choice s.now = some (reply, now)) :
    (copying cfg D foreign).Respects thread s ⟨now, s.history.performed thread effect choice⟩ := by
  have hon : GoesOn s.history (s.history.performed thread effect choice) :=
    goesOn_performed s.history thread effect choice
  have hlog : s.now.broker.log <+: now.broker.log := log_grows_of_exec hexec
  let after : Recorded (orchestrator cfg D foreign) :=
    ⟨now, s.history.performed thread effect choice⟩
  have hbefore : ∀ {body : Body}, Familiar body s → Familiar body after :=
    fun hbody ↦ Familiar.mono hbody hon hlog
  -- What is published now is known, or is the relay's.
  have hnew : ∀ publication, publicationOf thread effect choice = some publication →
      Familiar publication.body s ∨ FromRelay after.history publication := by
    intro publication hpublication
    refine (hpublish _ _ _ (publicationOf_eq_some hpublication).2).imp_right fun hround ↦ ?_
    exact ⟨thread, (publicationOf_eq_some hpublication).1, hround⟩
  have hpublications := publications_performed s.history thread effect choice
  refine ⟨⟨fun copy hcopy ↦ ?_, fun j publication hj ↦ ?_⟩, fun other _ ↦ ⟨rfl, hon, hlog⟩⟩
  · rcases broker_of_publicationOf hexec with ⟨publication, hpublication, hpublished⟩ |
      ⟨-, -, hmoved⟩
    · change copy ∈ now.broker.copies at hcopy
      rw [hpublished] at hcopy
      rcases mem_copies_publish hcopy with hold | ⟨hbody, -⟩
      · exact hbefore (hinv.copies copy hold)
      · rw [hbody]
        rcases hnew publication hpublication with hknown | hrelay
        · exact hbefore hknown
        · refine familiar_of_fromRelay ?_ hrelay
          show publication ∈ publications (s.history.performed thread effect choice)
          rw [hpublications, hpublication]
          exact List.mem_append_right _ List.mem_cons_self
    · obtain ⟨before, hmem, hbody⟩ := hmoved copy hcopy
      rw [hbody]
      exact hbefore (hinv.copies before hmem)
  · change (publications (s.history.performed thread effect choice))[j]? = some publication at hj
    rw [hpublications] at hj
    by_cases hlt : j < (publications s.history).length
    · rw [List.getElem?_append_left hlt] at hj
      exact (hinv.handled j publication hj).imp (fun hknown ↦ hknown.mono (Nat.le_refl j) hon hlog)
        hon.fromRelay
    · rw [List.getElem?_append_right (Nat.le_of_not_lt hlt)] at hj
      have hpublication := Option.mem_toList.mp (List.mem_of_getElem? hj)
      exact (hnew publication hpublication).imp_left fun hknown ↦
        Copied.mono hknown (Nat.le_of_not_lt hlt) hon hlog

/-! ### The handlers -/

section Handlers

variable {I : Recorded (orchestrator cfg D foreign) → Prop}

/-- What the others keep, an effect of the thread keeps, too. -/
theorem copies_perform (hI : ∀ s s', Extends thread s s' → I s → I s') {effect : Effect}
    (hpublish : ∀ s, I s → ∀ exchange routingKey body, effect = .publish exchange routingKey body →
      Familiar body s ∨ IsRound s.history thread) :
    (copying cfg D foreign).Maintains thread I effect.Result (perform effect) := by
  refine maintains_call hI fun s choice reply s' hinv hs _ hexec ↦ ?_
  obtain ⟨now, hnow, rfl⟩ := exec_recorded.mp hexec
  exact ⟨respects_copying hinv (hpublish s hs) hnow, hI s _ ⟨rfl,
    goesOn_performed s.history thread effect choice, log_grows_of_exec hnow⟩ hs⟩

/-- An effect that publishes nothing. -/
theorem copies_silent (hI : ∀ s s', Extends thread s s' → I s → I s') {effect : Effect}
    (hsilent : ∀ exchange routingKey body, effect ≠ .publish exchange routingKey body) :
    (copying cfg D foreign).Maintains thread I effect.Result (perform effect) :=
  copies_perform hI fun _ _ exchange routingKey body heffect ↦
    absurd heffect (hsilent exchange routingKey body)

theorem upholds_copies (hI : ∀ s s', Extends thread s s' → I s → I s') :
    Upholds ((copying cfg D foreign).Maintains thread I) where
  closed := closed_maintains hI
  quiet effect hquiet := copies_silent hI fun _ _ _ heffect ↦ by
    rw [heffect] at hquiet
    cases hquiet

theorem transacts_copies (hI : ∀ s s', Extends thread s s' → I s → I s') :
    Transacts ((copying cfg D foreign).Maintains thread I) :=
  ⟨copies_silent hI fun _ _ _ h ↦ (by cases h), copies_silent hI fun _ _ _ h ↦ (by cases h),
    copies_silent hI fun _ _ _ h ↦ by cases h⟩

end Handlers

/-- The message in hand stays that of a command that was published. -/
theorem Familiar.extends (s s' : Recorded (orchestrator cfg D foreign)) (h : Extends thread s s')
    (hbody : Familiar body s) : Familiar body s' :=
  hbody.mono h.goesOn h.log

/-- A handler with this message in hand. -/
abbrev Holding (cfg : Config) (D : Downstreams) (foreign : Publication → Bool) (thread : ℕ)
    (body : Body) : ∀ β : Type, Proc β → Prop :=
  (copying cfg D foreign).Maintains thread (Familiar body)

/-- The message in hand may be published, with any counter. -/
theorem copies_publish {body' : Body} (hsame : ∀ s : Recorded (orchestrator cfg D foreign),
      Familiar body s → Familiar body' s) (exchange : Exchange) (routingKey : String) :
    Holding cfg D foreign thread body Unit (perform (.publish exchange routingKey body')) :=
  copies_perform Familiar.extends fun s hs _ _ _ heffect ↦
    Or.inl ((Effect.publish.inj heffect).2.2 ▸ hsame s hs)

theorem copies_recordStep (orderId : String) (source target : State) (opId kind : String)
    (result : Detail) (cause race : String) (attempt : ℤ) : Holding cfg D foreign thread body Bool
      (recordStep orderId source target opId kind result cause race attempt) :=
  (upholds_copies Familiar.extends).recordStep (transacts_copies Familiar.extends)
    (fun _ ↦ copies_silent Familiar.extends fun _ _ _ h ↦ by cases h)
    (fun _ _ _ ↦ copies_silent Familiar.extends fun _ _ _ h ↦ by cases h)
    (fun _ ↦ copies_silent Familiar.extends fun _ _ _ h ↦ by cases h)
    (fun _ ↦ copies_silent Familiar.extends fun _ _ _ h ↦ by cases h)
    (fun _ ↦ copies_silent Familiar.extends fun _ _ _ h ↦ by cases h) _ _ _ _ _ _ _ _ _

theorem copies_retryOrDlq {env : Envelope} (message : Delivery) :
    Holding cfg D foreign thread (.envelope env) Unit (retryOrDlq cfg env message) := by
  have hupholds : Upholds (Holding cfg D foreign thread (.envelope env)) :=
    upholds_copies Familiar.extends
  refine hupholds.retryOrDlq (fun attempt ↦ copies_publish (fun _ hs ↦ hs.counted attempt) _ _) cfg
    message ?_
  refine hupholds.bind (copies_silent Familiar.extends fun _ _ _ h ↦ by cases h) fun _ ↦ ?_
  unfold Orchestrator.current
  rw [Program.bind_eq, Program.bind_eq, Program.bind_assoc]
  exact hupholds.bindQuiet rfl fun attempt ↦ copies_publish (fun _ hs ↦ hs.counted attempt) _ _

theorem copies_insertPlaced (env : Envelope) :
    Holding cfg D foreign thread body Unit (insertPlaced env) :=
  (upholds_copies Familiar.extends).insertPlaced (transacts_copies Familiar.extends)
    (copies_silent Familiar.extends fun _ _ _ h ↦ by cases h)
    fun _ ↦ copies_silent Familiar.extends fun _ _ _ h ↦ by cases h

theorem copies_onPlaced (message : Delivery) :
    Holding cfg D foreign thread message.body Unit (onPlaced message) := by
  refine (upholds_copies Familiar.extends).onPlaced (copies_publish (fun _ hs ↦ hs) _ _)
    (fun env hbody attempt ↦ ?_) fun env _ ↦ copies_insertPlaced env
  rw [hbody]
  exact copies_publish (fun _ hs ↦ hs.counted attempt) _ _

theorem copies_onAdvance (message : Delivery) :
    Holding cfg D foreign thread message.body Unit (onAdvance cfg message) := by
  refine (upholds_copies Familiar.extends).onAdvance cfg copies_recordStep
    (fun _ ↦ copies_silent Familiar.extends fun _ _ _ h ↦ by cases h)
    (fun _ ↦ copies_silent Familiar.extends fun _ _ _ h ↦ by cases h)
    (copies_publish (fun _ hs ↦ hs) _ _) fun env hbody ↦ ?_
  rw [hbody]
  exact copies_retryOrDlq message

/-! ### A replay -/

/-- A replay knows nothing from one message to the next. -/
abbrev Anyhow (cfg : Config) (D : Downstreams) (foreign : Publication → Bool) (thread : ℕ) :
    ∀ β : Type, Proc β → Prop :=
  (copying cfg D foreign).Maintains thread fun _ ↦ True

theorem copies_getDlq : (copying cfg D foreign).wp thread
    (fun found s₁ ↦ ∀ message, found = some message → Familiar message.body s₁)
    (fun _ _ ↦ True) (perform .getDlq) s := by
  apply wp_call
  intro s₁ _ hinv choice reply s₂ _ hexec
  obtain ⟨now, hnow, rfl⟩ := exec_recorded.mp hexec
  have hrespects := respects_copying hinv (fun _ _ _ heffect ↦ by cases heffect) hnow
  refine ⟨hrespects, ?_⟩
  cases reply with
  | error error => exact fun _ _ _ ↦ trivial
  | ok found =>
    rintro s₃ hrely₃ - message rfl
    have hlog : s₁.now.broker.log <+: now.broker.log := log_grows_of_exec hnow
    refine Familiar.extends _ s₃ hrely₃ ?_
    cases choice with
    | message number =>
      obtain ⟨delivered, hdeliver, hreply⟩ := Option.map_eq_some_iff.mp hnow
      obtain ⟨hmessage, -⟩ := Prod.mk.inj hreply
      obtain rfl := Option.some.inj (Except.ok.inj hmessage)
      obtain ⟨-, copy, hcopy, -, -, hbody⟩ := Broker.deliver_cases hdeliver
      rw [hbody]
      exact (hinv.copies copy hcopy).mono (goesOn_performed s₁.history thread _ _) hlog
    | done =>
      simp only [orchestrator, exec] at hnow
      split at hnow <;> cases hnow
    | _ => cases hnow

theorem copies_replayDlq (limit : ℕ) : Anyhow cfg D foreign thread ℕ (replayDlq limit) := by
  have hupholds : Upholds (Anyhow cfg D foreign thread) := upholds_copies fun _ _ _ _ ↦ trivial
  induction limit with
  | zero => exact hupholds.closed.ret _ _
  | succ limit ih =>
    intro s _
    apply wp_bind
    refine wp_mono ?_ (fun _ _ h ↦ h) copies_getDlq
    intro found s₁ hfound
    cases found with
    | none => exact hupholds.closed.ret _ _ s₁ trivial
    | some message =>
      have hmessage := hfound message rfl
      cases hbody : message.body with
      | poison bytes =>
        simp only [hbody]
        exact hupholds.bindQuiet rfl (fun _ ↦ ih) s₁ trivial
      | envelope env =>
        rw [hbody] at hmessage
        simp only [hbody]
        apply wp_bind
        refine wp_mono (fun _ s₂ _ ↦ ?_) (fun _ _ _ ↦ trivial)
          (copies_publish (fun _ hs ↦ hs.counted 1) .work rkAdvance s₁ hmessage)
        exact hupholds.bindQuiet rfl (fun _ ↦ hupholds.bind ih fun _ ↦ hupholds.closed.ret _ _) s₂
          trivial

/-! ### A round of the relay -/

theorem isRound_extends (s s' : Recorded (orchestrator cfg D foreign)) (h : Extends thread s s')
    (hround : IsRound s.history thread) : IsRound s'.history thread :=
  h.launch.trans hround

theorem copies_drainOnce : (copying cfg D foreign).Maintains thread
    (fun s ↦ IsRound s.history thread) ℕ relay.drainOnce := by
  have hperform : ∀ effect : Effect, (copying cfg D foreign).Maintains thread
      (fun s ↦ IsRound s.history thread) effect.Result (perform effect) :=
    fun _ ↦ copies_perform isRound_extends fun _ hround _ _ _ _ ↦ Or.inr hround
  have hclosed : Program.Closed ((copying cfg D foreign).Maintains thread
      fun s ↦ IsRound s.history thread) := closed_maintains isRound_extends
  refine hclosed.transaction (hperform .begin) (hperform .commit) (hperform .rollback) ?_
  refine hclosed.bind _ _ _ _ (hperform (.selectUnpublished Outbox.batchSize)) fun rows ↦ ?_
  have hpublishAll : ∀ rows, (copying cfg D foreign).Maintains thread
      (fun s ↦ IsRound s.history thread) (List ℕ) (relay.publishAll rows) := by
    intro rows
    induction rows with
    | nil => exact hclosed.ret _ _
    | cons row rest ih =>
      exact hclosed.bind _ _ _ _ (hperform _) fun _ ↦
        hclosed.bind _ _ _ _ ih fun _ ↦ hclosed.ret _ _
  split
  · exact hclosed.ret _ _
  · exact hclosed.bind _ _ _ _ (hpublishAll rows) fun ids ↦
      hclosed.bind _ _ _ _ (hperform (.stamp ids)) fun _ ↦ hclosed.ret _ _

/-! ### The discipline is verified -/

/-- What is launched is verified. -/
theorem wp_launch_copying (hinv : Copying s) {started : Launch} {program : Proc Unit}
    (hlaunch : launch cfg thread started s.now = some (program, now))
    (hon : GoesOn s.history (s.history.launched thread started)) :
    (copying cfg D foreign).wp thread (fun _ _ ↦ True) (fun _ _ ↦ True) program
      ⟨now, s.history.launched thread started⟩ := by
  have hlog : s.now.broker.log <+: now.broker.log := (broker_of_launch hlaunch).log_grows
  have hdelivered : ∀ {number : ℕ} {queue : Queue} {delivered : Delivery × Broker},
      s.now.broker.deliver number queue thread = some delivered → Familiar delivered.1.body
        (⟨now, s.history.launched thread started⟩ : Recorded (orchestrator cfg D foreign)) := by
    intro number queue delivered hdeliver
    obtain ⟨-, copy, hcopy, -, -, hbody⟩ := Broker.deliver_cases hdeliver
    rw [hbody]
    exact (hinv.copies copy hcopy).mono hon hlog
  have hupholds : Upholds (Anyhow cfg D foreign thread) := upholds_copies fun _ _ _ _ ↦ trivial
  cases started with
  | start =>
    obtain ⟨rfl, -⟩ := Prod.mk.inj (Option.some.inj hlaunch)
    exact hupholds.quiet .declareEventQueue rfl _ trivial
  | onPlaced number =>
    obtain ⟨delivered, hdeliver, hreply⟩ := Option.map_eq_some_iff.mp hlaunch
    obtain ⟨rfl, -⟩ := Prod.mk.inj hreply
    exact wp_mono (fun _ _ _ ↦ trivial) (fun _ _ _ ↦ trivial)
      (copies_onPlaced delivered.1 _ (hdelivered hdeliver))
  | onAdvance number =>
    obtain ⟨delivered, hdeliver, hreply⟩ := Option.map_eq_some_iff.mp hlaunch
    obtain ⟨rfl, -⟩ := Prod.mk.inj hreply
    exact wp_mono (fun _ _ _ ↦ trivial) (fun _ _ _ ↦ trivial)
      (copies_onAdvance delivered.1 _ (hdelivered hdeliver))
  | drainOnce =>
    obtain ⟨rfl, -⟩ := Prod.mk.inj (Option.some.inj hlaunch)
    apply wp_bind
    refine wp_mono ?_ (fun _ _ _ ↦ trivial) (copies_drainOnce _ (History.launches_launched ..))
    exact fun _ _ _ _ _ _ ↦ trivial
  | replayDlq limit =>
    obtain ⟨rfl, -⟩ := Prod.mk.inj (Option.some.inj hlaunch)
    exact hupholds.bind (copies_replayDlq limit) (fun _ ↦ hupholds.closed.ret _ _) _ trivial

/-- Messages that are copies of messages before, or forged. -/
theorem Copying.moved (hinv : Copying s) (hon : GoesOn s.history s'.history)
    (hsame : publications s'.history = publications s.history)
    (hlog : s.now.broker.log <+: s'.now.broker.log)
    (hcopies : ∀ copy ∈ s'.now.broker.copies,
      (∃ before ∈ s.now.broker.copies, copy.body = before.body) ∨
        ∃ publication ∈ s'.now.broker.log, publication.publisher = none ∧
          copy.body = publication.body) : Copying s' where
  copies copy hcopy := by
    rcases hcopies copy hcopy with ⟨before, hbefore, hbody⟩ | ⟨publication, hlogged, hnone, hbody⟩
    · rw [hbody]
      exact (hinv.copies before hbefore).mono hon hlog
    · intro env henv htype
      exact Or.inr ⟨publication, hlogged, hnone, env, hbody.symm.trans henv, htype, rfl, rfl⟩
  handled j publication hj := by
    rw [hsame] at hj
    exact (hinv.handled j publication hj).imp (fun hcopied ↦ hcopied.mono (Nat.le_refl j) hon hlog)
      hon.fromRelay

theorem copying_verified : (copying cfg D foreign).Verified where
  start := by
    refine ⟨⟨fun _ hcopy ↦ ?_, fun _ _ hat ↦ ?_⟩, fun _ ↦ rfl⟩
    · cases hcopy
    · cases hat
  launch thread started s program s' hinv hfresh hlaunch := by
    obtain ⟨now, hnow, rfl⟩ := launch_recorded.mp hlaunch
    have hon := goesOn_launched hfresh started
    have hmoves := broker_of_launch hnow
    refine ⟨⟨hinv.moved hon rfl hmoves.log_grows fun copy hcopy ↦ ?_, fun other hne ↦
      ⟨History.launches_launched_of_ne _ hne _, hon, hmoves.log_grows⟩⟩,
      wp_launch_copying hinv hnow hon⟩
    obtain ⟨before, hbefore, -, hbody, -⟩ := hmoves.origin copy hcopy
    exact Or.inl ⟨before, hbefore, hbody⟩
  ambient act s s' hinv hambient := by
    obtain ⟨now, hnow, rfl⟩ := ambient_recorded.mp hambient
    have hon : GoesOn s.history s.history := .refl _
    have hbroker : s.now.broker.log <+: now.broker.log ∧ ∀ copy ∈ now.broker.copies,
        (∃ before ∈ s.now.broker.copies, copy.body = before.body) ∨
          ∃ publication ∈ now.broker.log, publication.publisher = none ∧
            copy.body = publication.body := by
      rcases broker_of_ambient hnow with hmoves | ⟨publication, -, hnone, hpublished⟩
      · refine ⟨hmoves.log_grows, fun copy hcopy ↦ ?_⟩
        obtain ⟨before, hbefore, -, hbody, -⟩ := hmoves.origin copy hcopy
        exact Or.inl ⟨before, hbefore, hbody⟩
      · rw [hpublished]
        refine ⟨s.now.broker.log_publish publication, fun copy hcopy ↦ ?_⟩
        rcases mem_copies_publish hcopy with hold | ⟨hbody, hlogged⟩
        · exact Or.inl ⟨copy, hold, rfl⟩
        · exact Or.inr ⟨publication, hlogged, hnone, hbody⟩
    exact ⟨hinv.moved hon rfl hbroker.1 hbroker.2, fun _ ↦ ⟨rfl, hon, hbroker.1⟩⟩

/-- In every recorded world, a command that a handler has published was published before by the
relay, or was forged. -/
theorem copying_of_reachable {permit : Permit (orchestrator cfg D foreign).recorded}
    {w : World (orchestrator cfg D foreign).recorded} (hw : Reachable permit w) :
    Copying w.shared :=
  (holds_of_reachable copying_verified (hw.mono fun _ _ _ _ _ ↦ trivial)).inv

end DinnerRush.Orchestrator
