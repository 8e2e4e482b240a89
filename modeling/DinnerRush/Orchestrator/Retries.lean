import DinnerRush.Concurrency.History
import DinnerRush.Orchestrator.Composition
import DinnerRush.Orchestrator.Replay

/-!
# Bounded retries

`_retry_or_dlq` bounces a command through the retry exchange until its counter reaches
`BROKER_MAX_ATTEMPTS`. `schedule_retry` increments the counter before it publishes, and when the
publish or the ack after it raises, `on_advance` comes back to `_retry_or_dlq` with the counter as
it was left. `Counting` is what a handler knows of its counter at any point: it has not decreased,
and unless it is as it was delivered it is within the bound. So a copy has a greater counter than
the message it is a copy of, within the bound (`Bouncing`), and a chain of such copies is no longer
than the bound, if it begins with the counter 1 of a new command (`retriesBounded`).
-/

set_option autoImplicit false
set_option relaxedAutoImplicit false

namespace DinnerRush.Orchestrator

open Concurrency Discipline World

variable {cfg : Config} {D : Downstreams} {foreign : Publication → Bool}
  {log log' : List Publication} {number thread : ℕ} {env : Envelope}

/-- The message with the number carries the envelope. -/
def Bears (log : List Publication) (number : ℕ) (env : Envelope) : Prop :=
  ∃ publication, log[number]? = some publication ∧ publication.body = .envelope env

/-- The body is the envelope of the message with a greater counter within the bound, and nothing
else changed. -/
def Retries (cfg : Config) (log : List Publication) (number : ℕ) (body : Body) : Prop :=
  ∃ handled attempt, Bears log number handled ∧
    body = .envelope { handled with attempt := attempt } ∧
      handled.attempt < attempt ∧ attempt ≤ cfg.brokerMaxAttempts

theorem Bears.grows (h : Bears log number env) (hlog : log <+: log') : Bears log' number env := by
  obtain ⟨publication, hlogged, hbody⟩ := h
  exact ⟨publication, Broker.logged_of_prefix hlog hlogged, hbody⟩

theorem Bears.unique {env' : Envelope} (h : Bears log number env) (h' : Bears log number env') :
    env = env' := by
  obtain ⟨publication, hlogged, hbody⟩ := h
  obtain ⟨publication', hlogged', hbody'⟩ := h'
  obtain rfl := Option.some.inj (hlogged.symm.trans hlogged')
  exact Body.envelope.inj (hbody.symm.trans hbody')

theorem Retries.grows {body : Body} (h : Retries cfg log number body) (hlog : log <+: log') :
    Retries cfg log' number body := by
  obtain ⟨handled, attempt, hbears, hcopy⟩ := h
  exact ⟨handled, attempt, hbears.grows hlog, hcopy⟩

/-! ### The effects that count nothing -/

/-- The effect neither changes the counter nor publishes to the retry exchange. -/
def Effect.bouncesNothing : Effect → Bool
  | publish .retry _ _ => false
  | bumpAttempt => false
  | _ => true

section Effects

variable {s s' : Shared D} {effect : Effect} {choice : Choice}
  {reply : Except Failure effect.Result}

theorem filed_of_exec (h : s.broker.Filed)
    (hexec : exec thread effect choice s = some (reply, s')) :
    s'.broker.Filed := by
  rcases broker_of_exec hexec with hmoves | hbound | ⟨number, hdiscarded⟩ | ⟨_, _, _, -, hpublished⟩
  · exact h.moves hmoves
  · rw [hbound]
    exact h
  · rw [hdiscarded]
    exact h.discard number thread
  · rw [hpublished]
    exact h.publish _

end Effects

/-! ### The discipline -/

/-- The thread may publish the body to the retry exchange: the relay publishes what the outbox
holds, and the handler of a command its retries. -/
def MayBounce (cfg : Config) (log : List Publication) (launched : Option Launch) (body : Body) :
    Prop :=
  launched = some .drainOnce ∨
    ∃ number, launched = some (.onAdvance number) ∧ Retries cfg log number body

theorem MayBounce.grows {launched : Option Launch} {body : Body}
    (h : MayBounce cfg log launched body) (hlog : log <+: log') :
    MayBounce cfg log' launched body := by
  rcases h with hrelay | ⟨number, hlaunched, hretries⟩
  · exact Or.inl hrelay
  · exact Or.inr ⟨number, hlaunched, hretries.grows hlog⟩

variable {s s' : Recorded (orchestrator cfg D foreign)} {now : Shared D}

/-- The messages held are those of the log, and the copies in the retry exchange are retries. -/
structure Bouncing (s : Recorded (orchestrator cfg D foreign)) : Prop where
  filed : s.now.broker.Filed
  copies : ∀ publication ∈ s.now.broker.log, ∀ publisher, publication.exchange = .retry →
    publication.publisher = some publisher →
      MayBounce cfg s.now.broker.log (s.history.launches publisher) publication.body

/-- A thread keeps its launch and its counter, and what was published stays published. -/
structure Undisturbed (thread : ℕ) (s s' : Recorded (orchestrator cfg D foreign)) : Prop where
  launches : s'.history.launches thread = s.history.launches thread
  attempts : s'.now.attempts thread = s.now.attempts thread
  log : s.now.broker.log <+: s'.now.broker.log

def retrying (cfg : Config) (D : Downstreams) (foreign : Publication → Bool) :
    Discipline (orchestrator cfg D foreign).recorded where
  Permit := anyEffect
  Inv := Bouncing
  Rely := Undisturbed
  Fresh thread s := s.history.launches thread = none
  Post _ _ _ := True
  rely_refl _ _ := ⟨rfl, rfl, List.prefix_rfl⟩
  rely_trans _ _ _ _ h h' :=
    ⟨h'.launches.trans h.launches, h'.attempts.trans h.attempts, h.log.trans h'.log⟩
  fresh_rely _ _ _ hrely hfresh := hrely.launches.trans hfresh

/-- What a thread does to its own counter and publishes itself is its own affair. -/
theorem respects_exec (h : Bouncing s) {effect : Effect} {choice : Choice}
    {reply : Except Failure effect.Result}
    (hexec : exec thread effect choice s.now = some (reply, now))
    (hbounce : ∀ routingKey body, effect = .publish .retry routingKey body →
      MayBounce cfg s.now.broker.log (s.history.launches thread) body) :
    (retrying cfg D foreign).Respects thread s ⟨now, s.history.performed thread effect choice⟩ := by
  have hlog := log_of_exec hexec
  have hgrows : s.now.broker.log <+: now.broker.log := by
    rcases hlog with hsame | ⟨_, _, _, -, hpublished⟩
    · rw [hsame]
    · rw [hpublished]
      exact List.prefix_append _ _
  refine ⟨⟨filed_of_exec h.filed hexec, ?_⟩, fun other hne ↦ ⟨rfl, ?_, hgrows⟩⟩
  · intro publication hlogged publisher hretry hpublisher
    rcases hlog with hsame | ⟨exchange, routingKey, body, rfl, hpublished⟩
    · rw [hsame] at hlogged
      exact (h.copies publication hlogged publisher hretry hpublisher).grows hgrows
    · rw [hpublished] at hlogged
      rcases List.mem_append.mp hlogged with hold | hnew
      · exact (h.copies publication hold publisher hretry hpublisher).grows hgrows
      · obtain rfl := List.mem_singleton.mp hnew
        obtain rfl : exchange = .retry := hretry
        obtain rfl : thread = publisher := Option.some.inj hpublisher
        exact (hbounce routingKey body rfl).grows hgrows
  · rcases attempts_of_exec hexec with hsame | ⟨-, hbumped⟩
    · rw [hsame]
    · rw [hbumped, Function.update_of_ne hne]

/-! ### What a handler knows of its counter -/

/-- The thread handles the message, which carries the envelope, and its counter is as it was
delivered, or greater and within the bound. -/
structure Counting (thread number : ℕ) (env : Envelope)
    (s : Recorded (orchestrator cfg D foreign)) : Prop where
  launched : s.history.launches thread = some (.onAdvance number)
  bears : Bears s.now.broker.log number env
  counter : s.now.attempts thread = env.attempt ∨
    env.attempt < s.now.attempts thread ∧ s.now.attempts thread ≤ cfg.brokerMaxAttempts

theorem Counting.rely (h : Counting thread number env s) (hrely : Undisturbed thread s s') :
    Counting thread number env s' where
  launched := hrely.launches.trans h.launched
  bears := h.bears.grows hrely.log
  counter := by
    rw [hrely.attempts]
    exact h.counter

abbrev Counts (cfg : Config) (D : Downstreams) (foreign : Publication → Bool) (thread number : ℕ)
    (env : Envelope) : ∀ β : Type, Proc β → Prop :=
  (retrying cfg D foreign).Maintains thread (Counting thread number env)

theorem counting_exec (h : Counting thread number env s) {effect : Effect} {choice : Choice}
    {reply : Except Failure effect.Result} (hbump : effect ≠ .bumpAttempt)
    (hexec : exec thread effect choice s.now = some (reply, now)) :
    Counting thread number env
      (⟨now, s.history.performed thread effect choice⟩ : Recorded (orchestrator cfg D foreign))
      where
  launched := h.launched
  bears := by
    refine h.bears.grows ?_
    rcases log_of_exec hexec with hsame | ⟨_, _, _, -, hpublished⟩
    · rw [hsame]
    · rw [hpublished]
      exact List.prefix_append _ _
  counter := by
    rcases attempts_of_exec hexec with hsame | ⟨hbumped, -⟩
    · rw [hsame]
      exact h.counter
    · exact absurd hbumped hbump

theorem counts_perform {effect : Effect} (h : effect.bouncesNothing = true) :
    Counts cfg D foreign thread number env effect.Result (perform effect) := by
  refine maintains_call (fun _ _ hrely h ↦ Counting.rely h hrely) ?_
  intro s choice reply s' hinv hs _ hexec
  obtain ⟨now, hnow, rfl⟩ := exec_recorded.mp hexec
  refine ⟨respects_exec hinv hnow ?_, counting_exec hs ?_ hnow⟩
  · rintro routingKey body rfl
    cases h
  · rintro rfl
    cases h

theorem upholds_counts : Upholds (Counts cfg D foreign thread number env) where
  closed := closed_maintains fun _ _ hrely h ↦ Counting.rely h hrely
  quiet effect hquiet := counts_perform <| by
    cases effect <;> first | rfl | cases hquiet

section Retry

variable {β : Type} {E : Failure → Recorded (orchestrator cfg D foreign) → Prop}

/-- One effect of a thread that counts. -/
theorem wp_counting {effect : Effect}
    {Q : effect.Result → Recorded (orchestrator cfg D foreign) → Prop}
    (hs : Counting thread number env s)
    (hbounce : ∀ routingKey body, effect = .publish .retry routingKey body →
      Retries cfg s.now.broker.log number body)
    (h : ∀ s₁ choice reply now, Counting thread number env s₁ →
      s₁.now.attempts thread = s.now.attempts thread →
        exec thread effect choice s₁.now = some (reply, now) →
          (retrying cfg D foreign).wp thread Q E (Program.ofExcept reply)
            ⟨now, s₁.history.performed thread effect choice⟩) :
    (retrying cfg D foreign).wp thread Q E (perform effect) s := by
  apply wp_call
  intro s₁ hrely hinv choice reply s₂ _ hexec
  obtain ⟨now, hnow, rfl⟩ := exec_recorded.mp hexec
  have hs₁ : Counting thread number env s₁ := Counting.rely hs hrely
  refine ⟨respects_exec hinv hnow fun routingKey body heffect ↦ ?_, ?_⟩
  · exact Or.inr ⟨number, hs₁.launched, (hbounce routingKey body heffect).grows hrely.log⟩
  · exact h s₁ choice reply now hs₁ hrely.attempts hnow

/-- The counter read is the counter as it stands. -/
theorem wp_attempt_counting {Q : ℤ → Recorded (orchestrator cfg D foreign) → Prop}
    (hs : Counting thread number env s)
    (h : ∀ s₁, Counting thread number env s₁ → s₁.now.attempts thread = s.now.attempts thread →
      Q (s.now.attempts thread) s₁) :
    (retrying cfg D foreign).wp thread Q E (perform .attempt) s := by
  refine wp_counting hs (fun _ _ heffect ↦ by cases heffect)
    fun s₁ choice reply now hs₁ hsame hnow ↦ ?_
  cases choice with
  | done =>
    obtain ⟨rfl, rfl⟩ := Prod.mk.inj (Option.some.inj hnow)
    intro s₂ hrely₂ _
    rw [hsame]
    exact h s₂ (Counting.rely (counting_exec hs₁ (fun heffect ↦ by cases heffect) hnow) hrely₂)
      (hrely₂.attempts.trans hsame)
  | _ => cases hnow

theorem wp_current_counting {Q : Envelope → Recorded (orchestrator cfg D foreign) → Prop}
    (hs : Counting thread number env s)
    (h : ∀ s₁, Counting thread number env s₁ → s₁.now.attempts thread = s.now.attempts thread →
      Q { env with attempt := s.now.attempts thread } s₁) :
    (retrying cfg D foreign).wp thread Q E (current env) s := by
  apply wp_bind
  refine wp_attempt_counting hs fun s₁ hs₁ hsame s₂ hrely₂ _ ↦ ?_
  exact h s₂ (Counting.rely hs₁ hrely₂) (hrely₂.attempts.trans hsame)

/-- A retry: the counter grows, whatever becomes of the publication. -/
theorem counting_scheduleRetry (hs : Counting thread number env s)
    (hlt : s.now.attempts thread < cfg.brokerMaxAttempts) :
    (retrying cfg D foreign).wp thread (fun _ ↦ Counting thread number env)
      (fun _ ↦ Counting thread number env) (scheduleRetry env) s := by
  apply wp_bind
  refine wp_counting hs (fun _ _ heffect ↦ by cases heffect)
    fun s₁ choice reply now hs₁ hsame hnow ↦ ?_
  cases choice with
  | done =>
    obtain ⟨rfl, rfl⟩ := Prod.mk.inj (Option.some.inj hnow)
    have hcounter := hs₁.counter
    rw [← hsame] at hlt
    -- From here on the counter has grown by one.
    have hgrown : env.attempt < s₁.now.attempts thread + 1 ∧
        s₁.now.attempts thread + 1 ≤ cfg.brokerMaxAttempts := by omega
    intro s₂ hrely₂ _
    have hattempts : s₂.now.attempts thread = s₁.now.attempts thread + 1 :=
      hrely₂.attempts.trans (Function.update_self ..)
    have hs₂ : Counting thread number env s₂ :=
      { launched := hrely₂.launches.trans hs₁.launched
        bears := hs₁.bears.grows hrely₂.log
        counter := by
          rw [hattempts]
          exact Or.inr hgrown }
    apply wp_bind
    refine wp_current_counting hs₂ fun s₃ hs₃ _ ↦ ?_
    refine wp_counting hs₃ ?_ fun s₄ choice reply now hs₄ _ hnow ↦ ?_
    · rintro routingKey body heffect
      cases heffect
      rw [hattempts]
      exact ⟨env, _, hs₃.bears, rfl, hgrown⟩
    · have hs₅ := counting_exec hs₄ (fun heffect ↦ by cases heffect) hnow
      cases reply with
      | ok value => exact fun s₆ hrely₆ _ ↦ Counting.rely hs₅ hrely₆
      | error error => exact fun s₆ hrely₆ _ ↦ Counting.rely hs₅ hrely₆
  | _ => cases hnow

end Retry

theorem counts_retryOrDlq (message : Delivery) :
    Counts cfg D foreign thread number env Unit (retryOrDlq cfg env message) := by
  intro s hs
  apply wp_bind
  refine wp_attempt_counting hs fun s₁ hs₁ hsame ↦ ?_
  by_cases hattempts : cfg.brokerMaxAttempts ≤ s.now.attempts thread
  · rw [if_pos hattempts]
    exact upholds_counts.bind (upholds_counts.sendToDlq fun _ ↦ counts_perform rfl)
      (fun _ ↦ upholds_counts.ack message.number) s₁ hs₁
  · rw [if_neg hattempts]
    apply wp_bind
    refine wp_mono (fun _ ↦ upholds_counts.ack message.number) (fun _ _ h ↦ h)
      (counting_scheduleRetry hs₁ ?_)
    rw [hsame]
    omega

theorem counts_recordStep (orderId : String) (source target : State) (opId kind : String)
    (result : Detail) (cause race : String) (attempt : ℤ) :
    Counts cfg D foreign thread number env Bool
      (recordStep orderId source target opId kind result cause race attempt) :=
  upholds_counts.recordStep ⟨counts_perform rfl, counts_perform rfl, counts_perform rfl⟩
    (fun _ ↦ counts_perform rfl) (fun _ _ _ ↦ counts_perform rfl) (fun _ ↦ counts_perform rfl)
    (fun _ ↦ counts_perform rfl) (fun _ ↦ counts_perform rfl) _ _ _ _ _ _ _ _ _

/-- The handler of a command counts, to its end. -/
theorem counts_onAdvance {message : Delivery} (h : message.body = .envelope env) :
    Counts cfg D foreign thread number env Unit (onAdvance cfg message) := by
  refine upholds_counts.onAdvance cfg counts_recordStep (fun _ ↦ counts_perform rfl)
    (fun _ ↦ counts_perform rfl) (counts_perform rfl) fun held hheld ↦ ?_
  obtain rfl : env = held := Body.envelope.inj (h.symm.trans hheld)
  exact counts_retryOrDlq message

/-! ### The other threads -/

/-- Programs that bounce nothing need to know nothing. -/
theorem upholds_bounceless (cfg : Config) (D : Downstreams) (foreign : Publication → Bool)
    (thread : ℕ) : Upholds ((retrying cfg D foreign).Maintains thread fun _ ↦ True) ∧
      ∀ effect : Effect, effect.bouncesNothing = true →
        (retrying cfg D foreign).Maintains thread (fun _ ↦ True) effect.Result
        (perform effect) := by
  have hperform : ∀ effect : Effect, effect.bouncesNothing = true →
      (retrying cfg D foreign).Maintains thread (fun _ ↦ True) effect.Result (perform effect) := by
    intro effect h
    refine maintains_call (fun _ _ _ _ ↦ trivial) fun s choice reply s' hinv _ _ hexec ↦ ?_
    obtain ⟨now, hnow, rfl⟩ := exec_recorded.mp hexec
    refine ⟨respects_exec hinv hnow ?_, trivial⟩
    rintro routingKey body rfl
    cases h
  refine ⟨⟨closed_maintains fun _ _ _ _ ↦ trivial, fun effect hquiet ↦ hperform effect ?_⟩,
    hperform⟩
  cases effect <;> first | rfl | cases hquiet

/-- The relay may publish anything. -/
theorem wp_of_drainOnce {β : Type} {program : Proc β}
    (h : s.history.launches thread = some .drainOnce) :
    (retrying cfg D foreign).wp thread (fun _ _ ↦ True) (fun _ _ ↦ True) program s := by
  induction program generalizing s with
  | ret value => exact fun _ _ _ ↦ trivial
  | raise error => exact fun _ _ _ ↦ trivial
  | perform effect resume ih =>
    intro s₁ hrely hinv choice reply s₂ _ hexec
    obtain ⟨now, hnow, rfl⟩ := exec_recorded.mp hexec
    have hs₁ : s₁.history.launches thread = some .drainOnce := hrely.launches.trans h
    exact ⟨respects_exec hinv hnow fun _ _ _ ↦ Or.inl hs₁, ih reply hs₁⟩

/-- The handler of a command begins with the counter that was delivered. -/
theorem counting_delivered {message : Delivery} {broker : Broker} (hfiled : s.now.broker.Filed)
    (hdeliver : s.now.broker.deliver number .advance thread = some (message, broker))
    (hbody : message.body = .envelope env) : Counting thread number env
      (⟨launch.receive thread message broker s.now, s.history.launched thread (.onAdvance number)⟩ :
        Recorded (orchestrator cfg D foreign)) := by
  obtain ⟨hmoves, copy, hcopy, -, hnumber, hsame⟩ := Broker.deliver_cases hdeliver
  obtain ⟨publication, hlogged, hpublished⟩ := hfiled copy hcopy
  have hreceive : launch.receive thread message broker s.now = { s.now with
      broker := broker, attempts := Function.update s.now.attempts thread env.attempt } := by
    unfold launch.receive
    rw [hbody]
  rw [hreceive]
  refine ⟨History.launches_launched .., ⟨publication, ?_, ?_⟩, Or.inl (Function.update_self ..)⟩
  · show broker.log[number]? = some publication
    rw [hmoves.log, ← Broker.number_of_deliver hdeliver, hnumber, hlogged]
  · rw [hpublished, ← hsame, hbody]

/-- What is launched is verified. -/
theorem wp_launched {started : Launch} {program : Proc Unit} (hfiled : s.now.broker.Filed)
    (h : launch cfg thread started s.now = some (program, now)) :
    (retrying cfg D foreign).wp thread (fun _ _ ↦ True) (fun _ _ ↦ True) program
      ⟨now, s.history.launched thread started⟩ := by
  obtain ⟨hupholds, hperform⟩ := upholds_bounceless cfg D foreign thread
  have htransacts : Transacts ((retrying cfg D foreign).Maintains thread fun _ ↦ True) :=
    ⟨hperform .begin rfl, hperform .commit rfl, hperform .rollback rfl⟩
  cases started with
  | start =>
    obtain ⟨rfl, rfl⟩ := Prod.mk.inj (Option.some.inj h)
    exact hperform .declareEventQueue rfl _ trivial
  | onPlaced number =>
    obtain ⟨⟨message, broker⟩, -, hreply⟩ := Option.map_eq_some_iff.mp h
    obtain ⟨rfl, rfl⟩ := Prod.mk.inj hreply
    refine hupholds.onPlaced (hperform (.publish .dlx "" message.body) rfl)
      (fun env _ attempt ↦ hperform (.publish .dlx "" (.envelope { env with attempt := attempt }))
        rfl)
      (fun env _ ↦ ?_) _ trivial
    exact hupholds.insertPlaced htransacts (hperform (.insertOrder _) rfl)
      fun seed ↦ hperform (.enqueue .work rkAdvance seed) rfl
  | onAdvance number =>
    obtain ⟨⟨message, broker⟩, hdeliver, hreply⟩ := Option.map_eq_some_iff.mp h
    obtain ⟨rfl, rfl⟩ := Prod.mk.inj hreply
    cases hbody : message.body with
    | envelope env =>
      exact wp_mono (fun _ _ _ ↦ trivial) (fun _ _ _ ↦ trivial)
        (counts_onAdvance hbody _ (counting_delivered hfiled hdeliver hbody))
    | poison bytes =>
      have hfault : (retrying cfg D foreign).Maintains thread (fun _ ↦ True) Unit
          (fault cfg none message) :=
        hupholds.fault cfg (hperform (.publish .dlx "" message.body) rfl)
          fun _ hheld ↦ by cases hheld
      unfold onAdvance
      rw [hbody]
      exact hfault _ trivial
  | drainOnce =>
    obtain ⟨rfl, rfl⟩ := Prod.mk.inj (Option.some.inj h)
    exact wp_of_drainOnce (History.launches_launched ..)
  | replayDlq limit =>
    obtain ⟨rfl, rfl⟩ := Prod.mk.inj (Option.some.inj h)
    exact hupholds.bind (hupholds.replayDlq
      (fun body ↦ hperform (.publish .work rkAdvance body) rfl) limit)
      (fun _ ↦ hupholds.closed.ret _ _) _ trivial

theorem Bouncing.publishes (h : Bouncing s) (hfiled : now.broker.Filed)
    {history : History (orchestrator cfg D foreign)}
    (hlaunches : ∀ publisher launched, s.history.launches publisher = some launched →
      history.launches publisher = some launched)
    (hgrows : s.now.broker.log <+: now.broker.log)
    (hlog : ∀ publication ∈ now.broker.log, publication ∈ s.now.broker.log ∨
      publication.publisher = none) :
    Bouncing (⟨now, history⟩ : Recorded (orchestrator cfg D foreign)) where
  filed := hfiled
  copies publication hlogged publisher hretry hpublisher := by
    rcases hlog publication hlogged with hold | hnone
    · rcases h.copies publication hold publisher hretry hpublisher with
        hrelay | ⟨number, hhandler, hretries⟩
      · exact Or.inl (hlaunches publisher _ hrelay)
      · exact Or.inr ⟨number, hlaunches publisher _ hhandler, hretries.grows hgrows⟩
    · rw [hnone] at hpublisher
      cases hpublisher

theorem retrying_verified (cfg : Config) (D : Downstreams) (foreign : Publication → Bool) :
    (retrying cfg D foreign).Verified where
  start := ⟨⟨fun _ hcopy ↦ (by cases hcopy), fun _ hlogged ↦ (by cases hlogged)⟩, fun _ ↦ rfl⟩
  launch thread started s program s' hinv hfresh hlaunch := by
    obtain ⟨now, hnow, rfl⟩ := launch_recorded.mp hlaunch
    have hmoves := broker_of_launch hnow
    refine ⟨⟨hinv.publishes (hinv.filed.moves hmoves) ?_ hmoves.log_grows ?_, ?_⟩,
      wp_launched hinv.filed hnow⟩
    · intro publisher launched hlaunched
      have hne : publisher ≠ thread := by
        rintro rfl
        rw [hfresh] at hlaunched
        cases hlaunched
      exact (History.launches_launched_of_ne _ hne _).trans hlaunched
    · intro publication hlogged
      rw [hmoves.log] at hlogged
      exact Or.inl hlogged
    · intro other hne
      exact ⟨History.launches_launched_of_ne _ hne _, attempts_of_launch hnow hne,
        hmoves.log_grows⟩
  ambient act s s' hinv hambient := by
    obtain ⟨now, hnow, rfl⟩ := ambient_recorded.mp hambient
    have hbroker : now.broker.Filed ∧ s.now.broker.log <+: now.broker.log := by
      rcases broker_of_ambient hnow with hmoves | ⟨publication, -, -, hpublished⟩
      · exact ⟨hinv.filed.moves hmoves, hmoves.log_grows⟩
      · rw [hpublished]
        exact ⟨hinv.filed.publish publication, s.now.broker.log_publish publication⟩
    refine ⟨hinv.publishes hbroker.1 (fun _ _ h ↦ h) hbroker.2 (log_of_ambient hnow),
      fun thread ↦ ?_⟩
    refine ⟨rfl, congrFun (attempts_of_ambient hnow) thread, hbroker.2⟩

/-! ### Retries in any run -/

variable {launches : List Launch}

/-- The second message is a copy of the first that its handler has published to the retry
exchange. -/
def RetryOf (launches : List Launch) (log : List Publication) (number later : ℕ) : Prop :=
  ∃ publication thread, log[later]? = some publication ∧ publication.exchange = .retry ∧
    publication.publisher = some thread ∧ launches[thread]? = some (.onAdvance number)

/-- Every copy that the handler of a command publishes to the retry exchange has a greater counter
within the bound, and a chain of copies that begins with a new command is within the bound. How
often one of these messages is redelivered is not bounded
(`not_handledBounded_redeliveredWorld`). -/
structure RetriesBounded (cfg : Config) (launches : List Launch) (log : List Publication) :
    Prop where
  copies : ∀ publication ∈ log, ∀ thread number, publication.exchange = .retry →
    publication.publisher = some thread → launches[thread]? = some (.onAdvance number) →
      Retries cfg log number publication.body
  chains : ∀ number chain env, (number :: chain).IsChain (RetryOf launches log) →
    Bears log number env → 1 ≤ env.attempt →
      ((number :: chain).length : ℤ) ≤ cfg.brokerMaxAttempts

/-- Along a chain the counters grow. -/
theorem chain_le (hcopies : ∀ publication ∈ log, ∀ thread number, publication.exchange = .retry →
      publication.publisher = some thread → launches[thread]? = some (.onAdvance number) →
        Retries cfg log number publication.body) {chain : List ℕ} :
    ∀ {number : ℕ} {env : Envelope}, (number :: chain).IsChain (RetryOf launches log) →
      Bears log number env → env.attempt ≤ cfg.brokerMaxAttempts →
        env.attempt + chain.length ≤ cfg.brokerMaxAttempts := by
  induction chain with
  | nil =>
    intro number env _ _ hbound
    simpa using hbound
  | cons later rest ih =>
    intro number env hchain hbears hbound
    obtain ⟨hretry, hrest⟩ := List.isChain_cons_cons.mp hchain
    obtain ⟨publication, thread, hlogged, hexchange, hpublisher, hhandler⟩ := hretry
    obtain ⟨handled, attempt, hhandled, hbody, hgrown, hwithin⟩ :=
      hcopies publication (List.mem_of_getElem? hlogged) thread number hexchange hpublisher hhandler
    obtain rfl := hhandled.unique hbears
    have hlater := ih hrest ⟨publication, hlogged, hbody⟩ hwithin
    rw [List.length_cons]
    push_cast
    simp only at hlater
    omega

/-- **Broker retries are bounded**, in every run: a copy has a greater counter than the command it
was made of, within the bound, and a command whose counter begins at 1 or above heads no chain of
more than `brokerMaxAttempts` copies, itself included. -/
theorem retriesBounded (hmax : 1 ≤ cfg.brokerMaxAttempts) {w : World (orchestrator cfg D foreign)}
    (hw : Traced anyEffect launches w) : RetriesBounded cfg launches w.shared.broker.log := by
  obtain ⟨-, history, hlaunches, hreachable⟩ := exists_recorded hw
  have hinv : Bouncing (⟨w.shared, history⟩ : Recorded (orchestrator cfg D foreign)) :=
    (holds_of_reachable (retrying_verified cfg D foreign) hreachable).inv
  have hcopies : ∀ publication ∈ w.shared.broker.log, ∀ thread number,
      publication.exchange = .retry → publication.publisher = some thread →
        launches[thread]? = some (.onAdvance number) →
          Retries cfg w.shared.broker.log number publication.body := by
    intro publication hlogged thread number hretry hpublisher hhandler
    have hhandler : history.launches thread = some (.onAdvance number) :=
      (hlaunches thread).trans hhandler
    rcases hinv.copies publication hlogged thread hretry hpublisher with
      hrelay | ⟨handled, hlaunched, hretries⟩
    · cases hhandler.symm.trans hrelay
    · cases hhandler.symm.trans hlaunched
      exact hretries
  refine ⟨hcopies, fun number chain env hchain hbears hnew ↦ ?_⟩
  cases chain with
  | nil => simpa using hmax
  | cons later rest =>
    obtain ⟨publication, thread, hlogged, hexchange, hpublisher, hhandler⟩ :=
      (List.isChain_cons_cons.mp hchain).1
    obtain ⟨handled, attempt, hhandled, -, hgrown, hwithin⟩ :=
      hcopies publication (List.mem_of_getElem? hlogged) thread number hexchange hpublisher hhandler
    obtain rfl := hhandled.unique hbears
    have hlength := chain_le hcopies hchain hbears (by omega)
    simp only [List.length_cons] at hlength ⊢
    push_cast at hlength ⊢
    omega

/-! ### A command for an order that is not there -/

def strayCommand (attempt : ℤ) : Envelope :=
  { eventId := "e0", type := .advance, orderId := dinnerId, ts := "t", attempt := attempt
    data := { fromState := some State.placed.value } }

/-- The command is bounced by its first handler (thread 0), and parked by the second (thread 1). -/
def bouncing (attempt : ℤ) :
    List (Action (orchestrator { brokerMaxAttempts := attempt + 1 } .any fun _ ↦ true)) :=
  [.ambient (.publish ⟨none, .work, rkAdvance, .envelope (strayCommand attempt)⟩),
   .launch (.onAdvance 0), .step 0 .done, .step 0 .done, .step 0 .done, .step 0 .done,
    .step 0 .done,
   .step 0 .done,
   .ambient (.expire 1),
   .launch (.onAdvance 1), .step 1 .done, .step 1 .done, .step 1 .done, .step 1 .done,
    .step 1 .done]

def bouncedWorld : World (orchestrator { brokerMaxAttempts := 2 } .any fun _ ↦ true) :=
  ((World.initial _).runPermitted anyEffect (bouncing 1)).get (by decide +kernel)

/-- A new command is handled twice when two attempts are allowed. -/
theorem retriesBounded_bouncedWorld :
    RetriesBounded { brokerMaxAttempts := 2 } ((bouncing 1).flatMap launchOf)
        bouncedWorld.shared.broker.log ∧
      [0, 1].IsChain (RetryOf ((bouncing 1).flatMap launchOf) bouncedWorld.shared.broker.log) ∧
        bouncedWorld.shared.broker.copies.map Copy.place = [.ready .dlq] := by
  refine ⟨retriesBounded (by decide) (traced_of_runPermitted (Option.some_get _).symm), ?_,
    by decide +kernel⟩
  exact List.isChain_cons_cons.mpr ⟨⟨_, 0, rfl, rfl, rfl, rfl⟩, .singleton 1⟩

def overhandledWorld : World (orchestrator { brokerMaxAttempts := 1 } .any fun _ ↦ true) :=
  ((World.initial _).runPermitted anyEffect (bouncing 0)).get (by decide +kernel)

/-- A command whose counter is 0, which no service sends, is handled twice when one attempt is
allowed. -/
theorem not_chainsBounded_overhandledWorld :
    ¬ ∀ (cfg : Config) (D : Downstreams) (foreign : Publication → Bool) (launches : List Launch)
      (w : World (orchestrator cfg D foreign)), 1 ≤ cfg.brokerMaxAttempts →
        Traced anyEffect launches w → ∀ number chain env,
          (number :: chain).IsChain (RetryOf launches w.shared.broker.log) →
            Bears w.shared.broker.log number env →
              ((number :: chain).length : ℤ) ≤ cfg.brokerMaxAttempts := by
  intro h
  have htraced : Traced anyEffect ((bouncing 0).flatMap launchOf) overhandledWorld :=
    traced_of_runPermitted (Option.some_get _).symm
  have hchain : [0, 1].IsChain
      (RetryOf ((bouncing 0).flatMap launchOf) overhandledWorld.shared.broker.log) :=
    List.isChain_cons_cons.mpr ⟨⟨_, 0, rfl, rfl, rfl, rfl⟩, .singleton 1⟩
  have hlength := h _ _ _ _ _ (by decide) htraced 0 [1] (strayCommand 0) hchain ⟨_, rfl, rfl⟩
  exact absurd hlength (by decide)

/-- The database, the publish to the DLQ and the `nack` of the last resort all raise (thread 0). The
delivery goes back to its queue as it was and is handled again (thread 1). -/
def redelivering : List (Action (orchestrator { brokerMaxAttempts := 1 } .any fun _ ↦ true)) :=
  [.ambient (.publish ⟨none, .work, rkAdvance, .envelope (strayCommand 1)⟩),
   .launch (.onAdvance 0), .step 0 (.lost "connection is closed"), .step 0 .done, .step 0 .done,
    .step 0 (.lost "channel is closed"), .step 0 (.lost "channel is closed"),
   .ambient (.requeue 0 0),
   .launch (.onAdvance 0)]

def redeliveredWorld : World (orchestrator { brokerMaxAttempts := 1 } .any fun _ ↦ true) :=
  ((World.initial _).runPermitted anyEffect redelivering).get (by decide +kernel)

/-- A new command is handled twice when one attempt is allowed. -/
theorem not_handledBounded_redeliveredWorld :
    ¬ ∀ (cfg : Config) (D : Downstreams) (foreign : Publication → Bool) (launches : List Launch)
      (w : World (orchestrator cfg D foreign)), 1 ≤ cfg.brokerMaxAttempts →
        Traced anyEffect launches w → ∀ number env, Bears w.shared.broker.log number env →
          1 ≤ env.attempt → (launches.count (.onAdvance number) : ℤ) ≤ cfg.brokerMaxAttempts := by
  intro h
  have htraced : Traced anyEffect (redelivering.flatMap launchOf) redeliveredWorld :=
    traced_of_runPermitted (Option.some_get _).symm
  have hcount := h _ _ _ _ _ (by decide) htraced 0 (strayCommand 1) ⟨_, rfl, rfl⟩ (by decide)
  exact absurd hcount (by decide)

/-- Neither the chains of copies of any command nor the times that a new one is handled are within
the bound. -/
theorem not_retriesBounded_overhandledWorld :
    (¬ ∀ (cfg : Config) (D : Downstreams) (foreign : Publication → Bool) (launches : List Launch)
      (w : World (orchestrator cfg D foreign)), 1 ≤ cfg.brokerMaxAttempts →
        Traced anyEffect launches w → ∀ number chain env,
          (number :: chain).IsChain (RetryOf launches w.shared.broker.log) →
            Bears w.shared.broker.log number env →
              ((number :: chain).length : ℤ) ≤ cfg.brokerMaxAttempts) ∧
      ¬ ∀ (cfg : Config) (D : Downstreams) (foreign : Publication → Bool) (launches : List Launch)
        (w : World (orchestrator cfg D foreign)), 1 ≤ cfg.brokerMaxAttempts →
          Traced anyEffect launches w → ∀ number env, Bears w.shared.broker.log number env →
            1 ≤ env.attempt → (launches.count (.onAdvance number) : ℤ) ≤ cfg.brokerMaxAttempts :=
  ⟨not_chainsBounded_overhandledWorld, not_handledBounded_redeliveredWorld⟩

end DinnerRush.Orchestrator
