import DinnerRush.Orchestrator.Copies

/-!
# The order of events

The first publications of the events of an order are in the order of its steps, and each comes
before that of the command of the same transaction (`eventOrder`), whatever the other handlers and
rounds of the relay do meanwhile.
-/

set_option autoImplicit false
set_option relaxedAutoImplicit false

namespace DinnerRush.Orchestrator

open Concurrency Discipline World

variable {cfg : Config} {D : Downstreams} {foreign : Publication → Bool} {thread : ℕ}
  {s s' : Recorded (orchestrator cfg D foreign)} {now : Shared D}

/-! ### The statements of the handlers -/

/-- The thread is no round, has locked the order, and has enqueued these messages, unless its
transaction is gone. -/
structure Locking (thread : ℕ) (orderId : String) (messages : List Envelope)
    (s : Recorded (orchestrator cfg D foreign)) : Prop where
  playing : Playing aside thread s
  locked : s.now.db.pending thread ≠ none → s.now.db.owner (.order orderId) = some thread
  holds : ∀ writes, s.now.db.pending thread = some writes → ∀ env ∈ messages,
    ∃ row ∈ enqueued writes, row.payload = env

variable {orderId : String} {messages : List Envelope}

theorem Locking.rely (h : Locking thread orderId messages s) (hrely : Continues thread s s') :
    Locking thread orderId messages s' where
  playing := h.playing.rely hrely
  locked hopen := by
    rcases hrely.kept with hnone | ⟨hpending, hlocks⟩
    · exact absurd hnone hopen
    · rw [hpending] at hopen
      exact (hlocks _ (h.locked hopen)).1
  holds writes hwrites := by
    rcases hrely.kept with hnone | ⟨hpending, -⟩
    · rw [hnone] at hwrites
      cases hwrites
    · exact h.holds writes (hpending.symm.trans hwrites)

/-- What the statements of a handler keep. -/
abbrev Statement (cfg : Config) (D : Downstreams) (foreign : Publication → Bool) (thread : ℕ)
    {β : Type} (Q : β → Recorded (orchestrator cfg D foreign) → Prop) :
    Proc β → Recorded (orchestrator cfg D foreign) → Prop :=
  (relaying cfg D foreign).wp thread Q (fun _ ↦ Playing aside thread)

/-- One effect of a thread that has locked an order. -/
theorem statement_perform {effect : Effect}
    {Q : effect.Result → Recorded (orchestrator cfg D foreign) → Prop}
    (hs : Locking thread orderId messages s) (hannounces : effect.announcesNothing = true)
    (h : ∀ s₁ choice reply now, Locking thread orderId messages s₁ → Relaying s₁ →
      Drawn (D := D) (Recorded.now s₁) → exec thread effect choice s₁.now = some (reply, now) →
        Orderly (IsRound s₁.history) (Relayed s₁.history) thread s₁.now now ∧
          ∀ value, reply = .ok value → ∀ s₂, Continues thread
            ⟨now, s₁.history.performed thread effect choice⟩ s₂ → Q value s₂) :
    Statement cfg D foreign thread Q (perform effect) s := by
  apply wp_call
  intro s₁ hrely hinv choice reply s₂ hpermit hexec
  obtain ⟨now, hnow, rfl⟩ := exec_recorded.mp hexec
  have hs₁ : Locking thread orderId messages s₁ := Locking.rely hs hrely
  obtain ⟨horderly, hvalue⟩ := h s₁ choice reply now hs₁ hinv hpermit.2 hnow
  refine ⟨respects_aside hinv hs₁.playing hannounces horderly, ?_⟩
  cases reply with
  | ok value => exact fun s₃ hrely₃ _ ↦ hvalue value rfl s₃ hrely₃
  | error error => exact fun s₃ hrely₃ _ ↦ Playing.rely hs₁.playing.performed hrely₃

/-- A statement that may lock an order. -/
theorem statement_locks {effect : Effect} {orderId : String} {locks : effect.Result → Prop}
    (hs : Playing aside thread s) (hannounces : effect.announcesNothing = true)
    (hleaves : effect.leavesOutbox = true)
    (h : ∀ choice value (b b' : Shared D), exec thread effect choice b = some (.ok value, b') →
      locks value → b'.db.owner (.order orderId) = some thread) :
    Statement cfg D foreign thread
      (fun value s₁ ↦ Playing aside thread s₁ ∧ (locks value → Locking thread orderId [] s₁))
      (perform effect) s := by
  apply wp_call
  intro s₁ hrely hinv choice reply s₂ hpermit hexec
  obtain ⟨now, hnow, rfl⟩ := exec_recorded.mp hexec
  have hs₁ : Playing aside thread s₁ := Playing.rely hs hrely
  refine ⟨respects_aside hinv hs₁ hannounces
    (orderly_of_exec hinv.sequencing hpermit.2 hnow hleaves), ?_⟩
  cases reply with
  | ok value =>
    intro s₃ hrely₃ _
    refine ⟨Playing.rely hs₁.performed hrely₃, fun hlocks ↦ Locking.rely ?_ hrely₃⟩
    exact ⟨hs₁.performed, fun _ ↦ h choice value s₁.now now hnow hlocks,
      fun _ _ _ henv ↦ by cases henv⟩
  | error error => exact fun s₃ hrely₃ _ ↦ Playing.rely hs₁.performed hrely₃

/-- Moving an order locks it. -/
theorem statement_updateState (hs : Playing aside thread s) (orderId : String)
    (target source : State) :
    Statement cfg D foreign thread
      (fun updated s₁ ↦ Playing aside thread s₁ ∧
        (updated ≠ 0 → Locking thread orderId [] s₁))
      (perform (.updateState orderId target source)) s := by
  apply statement_locks hs rfl rfl
  intro choice updated b b' hexec hupdated
  cases choice with
  | done =>
    obtain ⟨⟨rows, b₁⟩, hupdate, hreply⟩ := Option.map_eq_some_iff.mp hexec
    obtain ⟨hrows, rfl⟩ := Prod.mk.inj hreply
    obtain rfl := Except.ok.inj hrows
    obtain ⟨-, ⟨hzero, -⟩ | ⟨-, -, -, rfl⟩⟩ := updateState_cases hupdate
    · exact absurd hzero hupdated
    · exact owner_wrote_self b.db _ _
  | _ => cases hexec

/-- Inserting an order locks it. -/
theorem statement_insertOrder (hs : Playing aside thread s) (values : OrderValues) :
    Statement cfg D foreign thread
      (fun inserted s₁ ↦ Playing aside thread s₁ ∧
        (inserted = true → Locking thread values.orderId [] s₁))
      (perform (.insertOrder values)) s := by
  apply statement_locks hs rfl rfl
  intro choice inserted b b' hexec hinserted
  cases choice with
  | done =>
    obtain ⟨⟨found, b₁⟩, hinsert, hreply⟩ := Option.map_eq_some_iff.mp hexec
    obtain ⟨hfound, rfl⟩ := Prod.mk.inj hreply
    obtain rfl := Except.ok.inj hfound
    obtain ⟨-, -, ⟨hnone, -⟩ | ⟨-, -, -, rfl⟩⟩ := insertOrder_cases hinsert
    · exact absurd (hinserted.symm.trans hnone) (by decide)
    · exact owner_wrote_self b.db _ _
  | _ => cases hexec

theorem statement_insertTransition (hs : Locking thread orderId messages s)
    (values : TransitionValues) :
    Statement cfg D foreign thread (fun _ ↦ Locking thread orderId messages)
      (perform (.insertTransition values)) s := by
  apply statement_perform hs rfl
  intro s₁ choice reply now hs₁ hinv hdrawn hexec
  refine ⟨orderly_of_exec hinv.sequencing hdrawn hexec rfl, ?_⟩
  rintro value rfl s₂ hrely₂
  cases choice with
  | done =>
    obtain ⟨b, hinsert, hreply⟩ := Option.map_eq_some_iff.mp hexec
    obtain ⟨-, rfl⟩ := Prod.mk.inj hreply
    obtain ⟨hin, rfl⟩ := insertTransition_cases hinsert
    obtain ⟨writes, hpending⟩ := Option.isSome_iff_exists.mp hin
    refine Locking.rely ?_ hrely₂
    refine ⟨hs₁.playing.performed, fun _ ↦ hs₁.locked (pending_of_inTransaction hin),
      fun writes' hwrites' env henv ↦ ?_⟩
    obtain rfl : writes ++ [_] = writes' := by
      simpa [Transactions.write, hpending] using hwrites'
    obtain ⟨row, hrow, hpayload⟩ := hs₁.holds writes hpending env henv
    rw [enqueued_insertTransition]
    exact ⟨row, hrow, hpayload⟩
  | _ => cases hexec

theorem statement_makeEvent (hs : Locking thread orderId messages s) (type : EventType)
    (subject : String) (data : Data) :
    Statement cfg D foreign thread
      (fun env s₁ ↦ (∃ stamp, env = DinnerRush.makeEvent stamp type subject data) ∧
        Locking thread orderId messages s₁) (makeEvent type subject data) s := by
  apply wp_bind
  apply statement_perform hs rfl
  intro s₁ choice reply now hs₁ hinv hdrawn hexec
  refine ⟨orderly_of_exec hinv.sequencing hdrawn hexec rfl, ?_⟩
  rintro stamp rfl s₂ hrely₂ s₃ hrely₃ _
  cases choice with
  | stamp drawn =>
    obtain ⟨-, rfl⟩ := Prod.mk.inj (Option.some.inj hexec)
    have hsame : Locking thread orderId messages
        (⟨s₁.now, s₁.history.performed thread .newStamp (.stamp drawn)⟩ :
          Recorded (orchestrator cfg D foreign)) := ⟨hs₁.playing.performed, hs₁.locked, hs₁.holds⟩
    exact ⟨⟨stamp, rfl⟩, Locking.rely (Locking.rely hsame hrely₂) hrely₃⟩
  | _ => cases hexec

/-- Enqueuing a message about the order; a command comes after the event that led to it. -/
theorem statement_enqueue (hs : Locking thread orderId messages s) {exchange : Exchange}
    {routingKey : String} {env : Envelope} (horder : env.orderId = orderId)
    (hcommand : env.type = .advance → env.data.fromState = some State.placed.value ∨
      ∃ event ∈ messages, event.orderId = orderId ∧ event.type = .transition ∧
        event.data.toState = env.data.fromState) :
    Statement cfg D foreign thread (fun _ ↦ Locking thread orderId (messages ++ [env]))
      (perform (.enqueue exchange routingKey env)) s := by
  apply statement_perform hs rfl
  intro s₁ choice reply now hs₁ hinv hdrawn hexec
  cases choice with
  | done =>
    obtain ⟨b, henqueue, hreply⟩ := Option.map_eq_some_iff.mp hexec
    obtain ⟨rfl, rfl⟩ := Prod.mk.inj hreply
    obtain ⟨hin, rfl⟩ := enqueue_cases henqueue
    obtain ⟨writes, hpending⟩ := Option.isSome_iff_exists.mp hin
    have hopen : s₁.now.db.pending thread ≠ none := pending_of_inTransaction hin
    let row : OutboxRow := ⟨s₁.now.outboxSeq, exchange, routingKey, env, false⟩
    constructor
    · refine orderly_enqueue hinv.sequencing hdrawn hpending (show row.id = _ from rfl) rfl ?_ ?_
      · show s₁.now.db.owner (.order env.orderId) = some thread
        rw [horder]
        exact hs₁.locked hopen
      · intro htype
        refine (hcommand htype).imp_right ?_
        rintro ⟨event, hevent, hsubject, htransition, hstate⟩
        obtain ⟨earlier, hearlier, rfl⟩ := hs₁.holds writes hpending event hevent
        exact ⟨earlier, hearlier, hsubject.trans horder.symm, htransition, hstate⟩
    · rintro - - s₂ hrely₂
      refine Locking.rely ?_ hrely₂
      refine ⟨hs₁.playing.performed, fun _ ↦ owner_wrote_of_owner (hs₁.locked hopen),
        fun writes' hwrites' added hadded ↦ ?_⟩
      have hwritten := pending_wrote hpending (.outbox row.id) (.enqueue row)
      obtain rfl := Option.some.inj (hwritten.symm.trans hwrites')
      rw [enqueued_enqueue]
      rcases List.mem_append.mp hadded with hbefore | hnew
      · obtain ⟨other, hother, hpayload⟩ := hs₁.holds writes hpending added hbefore
        exact ⟨other, List.mem_append_left _ hother, hpayload⟩
      · rw [List.mem_singleton.mp hnew]
        exact ⟨row, List.mem_append_right _ List.mem_cons_self, rfl⟩
  | lost text =>
    obtain ⟨rfl, rfl⟩ := Prod.mk.inj (Option.some.inj hexec)
    exact ⟨orderly_same hinv.sequencing rfl rfl, fun _ hvalue ↦ by cases hvalue⟩
  | _ => cases hexec

/-! ### The transactions of the handlers -/

/-- Seeding an order. -/
theorem keeps_insertPlaced (env : Envelope) :
    Keeps cfg D foreign aside thread Unit (insertPlaced env) := by
  refine upholds_keeps.tx transacts_keeps fun s hs ↦ ?_
  apply wp_bind
  refine wp_mono ?_ (fun _ _ h ↦ h) (statement_insertOrder hs _)
  rintro inserted s₁ ⟨hs₁, hlocking⟩
  cases inserted with
  | false => exact fun s₂ hrely₂ _ ↦ Playing.rely hs₁ hrely₂
  | true =>
    apply wp_bind
    refine wp_mono ?_ (fun _ _ h ↦ h) (statement_makeEvent (hlocking rfl) .advance env.orderId _)
    rintro seed s₂ ⟨⟨stamp, rfl⟩, hlocking₂⟩
    exact wp_mono (fun _ _ h ↦ h.playing) (fun _ _ h ↦ h)
      (statement_enqueue hlocking₂ rfl fun _ ↦ Or.inl rfl)

/-- Recording a step: the event is enqueued before the command. -/
theorem keeps_recordStep (orderId : String) (source target : State) (opId kind : String)
    (result : Detail) (cause race : String) (attempt : ℤ) : Keeps cfg D foreign aside thread Bool
      (recordStep orderId source target opId kind result cause race attempt) := by
  refine upholds_keeps.tx transacts_keeps
    (upholds_keeps.bind (keeps_perform rfl rfl) fun claimed ↦ ?_)
  cases claimed with
  | false => exact upholds_keeps.closed.ret _ _
  | true =>
    intro s hs
    apply wp_bind
    refine wp_mono ?_ (fun _ _ h ↦ h) (statement_updateState hs orderId target source)
    rintro updated s₁ ⟨hs₁, hlocking⟩
    by_cases hupdated : updated = 0
    · rw [if_pos hupdated]
      exact fun s₂ hrely₂ _ ↦ Playing.rely hs₁ hrely₂
    · rw [if_neg hupdated]
      apply wp_bind
      refine wp_mono ?_ (fun _ _ h ↦ h) (statement_insertTransition (hlocking hupdated) _)
      intro _ s₂ hlocking₂
      apply wp_bind
      refine wp_mono ?_ (fun _ _ h ↦ h) (statement_makeEvent hlocking₂ .transition orderId _)
      rintro ev s₃ ⟨⟨stamp, hev⟩, hlocking₃⟩
      apply wp_bind
      have hno : ev.type = .advance → False := fun htype ↦ by
        rw [hev] at htype
        cases htype
      refine wp_mono ?_ (fun _ _ h ↦ h) (statement_enqueue hlocking₃ (congrArg Envelope.orderId hev)
        fun htype ↦ (hno htype).elim)
      intro _ s₄ hlocking₄
      by_cases hterminal : isTerminal target = true
      · rw [if_pos hterminal]
        exact fun s₅ hrely₅ _ ↦ Playing.rely hlocking₄.playing hrely₅
      · rw [if_neg hterminal]
        apply wp_bind
        refine wp_mono ?_ (fun _ _ h ↦ h) (statement_makeEvent hlocking₄ .advance orderId _)
        rintro nxt s₅ ⟨⟨stamp', rfl⟩, hlocking₅⟩
        apply wp_bind
        refine wp_mono ?_ (fun _ _ h ↦ h) (statement_enqueue hlocking₅ rfl fun _ ↦
          Or.inr ⟨ev, List.mem_cons_self, congrArg Envelope.orderId hev,
            congrArg Envelope.type hev, congrArg (fun env ↦ env.data.toState) hev⟩)
        exact fun _ s₆ hlocking₆ s₇ hrely₇ _ ↦ Playing.rely hlocking₆.playing hrely₇

/-- What a handler publishes by itself is no event. -/
theorem keeps_publish {exchange : Exchange} (hexchange : exchange ≠ .events) (routingKey : String)
    (body : Body) : Keeps cfg D foreign aside thread Unit
      (perform (.publish exchange routingKey body)) := by
  refine keeps_perform rfl ?_
  cases exchange <;> first | rfl | exact absurd rfl hexchange

theorem keeps_retryOrDlq (env : Envelope) (message : Delivery) :
    Keeps cfg D foreign aside thread Unit (retryOrDlq cfg env message) := by
  refine upholds_keeps.retryOrDlq (fun _ ↦ keeps_publish (by decide) _ _) cfg message ?_
  exact upholds_keeps.bind (keeps_perform rfl rfl) fun _ ↦
    upholds_keeps.bind (upholds_keeps.current env) fun _ ↦ keeps_publish (by decide) _ _

theorem keeps_onPlaced (message : Delivery) :
    Keeps cfg D foreign aside thread Unit (onPlaced message) :=
  upholds_keeps.onPlaced (keeps_publish (by decide) _ _) (fun _ _ _ ↦ keeps_publish (by decide) _ _)
    fun env _ ↦ keeps_insertPlaced env

theorem keeps_onAdvance (message : Delivery) :
    Keeps cfg D foreign aside thread Unit (onAdvance cfg message) :=
  upholds_keeps.onAdvance cfg keeps_recordStep (fun _ ↦ keeps_perform rfl rfl)
    (fun _ ↦ keeps_perform rfl rfl) (keeps_publish (by decide) _ _)
    fun env _ ↦ keeps_retryOrDlq env message

theorem keeps_replayDlq (limit : ℕ) : Keeps cfg D foreign aside thread ℕ (replayDlq limit) :=
  upholds_keeps.replayDlq (fun _ ↦ keeps_publish (by decide) _ _) limit

/-! ### A round of the relay -/

def round (launched : Launch) : Prop := launched = .drainOnce

theorem Playing.isRound (h : Playing round thread s) : IsRound s.history thread := by
  obtain ⟨launched, hlaunched, rfl⟩ := h
  exact hlaunched

/-- The rows are left to publish: what comes before one of them of its order was published, or is
among the rows before it. -/
def Due (rows : List OutboxRow) (s : Recorded (orchestrator cfg D foreign)) : Prop :=
  ∀ before row after, rows = before ++ row :: after → row ∈ s.now.db.committed.entries ∧
    ∀ earlier ∈ s.now.db.committed.entries, Alike earlier row → earlier.id < row.id →
      Relayed s.history earlier ∨ earlier ∈ before

/-- The rows with these ids were published. -/
def Posted (ids : List ℕ) (s : Recorded (orchestrator cfg D foreign)) : Prop :=
  ∀ id ∈ ids, ∃ entry ∈ s.now.db.committed.entries, entry.id = id ∧ Relayed s.history entry

variable {rows : List OutboxRow} {row : OutboxRow} {ids : List ℕ}

theorem Due.mono (h : Due rows s) (happends : Appends s.now.db s'.now.db)
    (hon : GoesOn s.history s'.history) : Due rows s' := by
  intro before row after hsplit
  obtain ⟨hrow, hearlier⟩ := h before row after hsplit
  refine ⟨happends.entries.subset hrow, fun earlier hmem halike hlt ↦ ?_⟩
  exact (hearlier earlier (happends.earlier row hrow earlier hmem halike hlt) halike hlt).imp_left
    hon.sent

theorem Due.rely (h : Due rows s) (hrely : Continues thread s s') : Due rows s' :=
  h.mono hrely.appends hrely.goesOn

theorem Posted.mono (h : Posted ids s) (happends : Appends s.now.db s'.now.db)
    (hon : GoesOn s.history s'.history) : Posted ids s' := by
  intro id hid
  obtain ⟨entry, hentry, hsame, hsent⟩ := h id hid
  exact ⟨entry, happends.entries.subset hentry, hsame, hon.sent hsent⟩

/-- The first row may be published. -/
theorem Due.ready (h : Due (row :: rows) s) (thread : ℕ) : Ready s
    ⟨some thread, row.exchange, row.routingKey, .envelope row.payload⟩ := by
  obtain ⟨hrow, hearlier⟩ := h [] row rows rfl
  refine ⟨row, hrow, ⟨rfl, rfl, rfl⟩, fun earlier hmem halike hlt ↦ ?_⟩
  exact (hearlier earlier hmem halike hlt).resolve_right (by simp)

/-- The first row was published. -/
theorem Due.tail (h : Due (row :: rows) s) (hsent : Relayed s.history row) : Due rows s := by
  intro before next after hsplit
  obtain ⟨hnext, hearlier⟩ := h (row :: before) next after (by rw [hsplit]; rfl)
  refine ⟨hnext, fun earlier hmem halike hlt ↦ ?_⟩
  rcases hearlier earlier hmem halike hlt with hwas | hbefore
  · exact Or.inl hwas
  · rcases List.mem_cons.mp hbefore with rfl | hrest
    · exact Or.inl hsent
    · exact Or.inr hrest

/-- What a round keeps, whether or not it fails. -/
abbrev Rounds (cfg : Config) (D : Downstreams) (foreign : Publication → Bool) (thread : ℕ)
    {β : Type}
    (Q : β → Recorded (orchestrator cfg D foreign) → Prop) :
    Proc β → Recorded (orchestrator cfg D foreign) → Prop :=
  (relaying cfg D foreign).wp thread Q (fun _ ↦ Playing round thread)

theorem respects_round (hinv : Relaying s) (hs : Playing round thread s) {effect : Effect}
    {choice : Choice} (hready : ∀ publication,
      publicationOf thread effect choice = some publication → Ready s publication)
    (h : Orderly (IsRound s.history) (Relayed s.history) thread s.now now) :
    (relaying cfg D foreign).Respects thread s ⟨now, s.history.performed thread effect choice⟩ :=
  respects_performed hinv hs.launched
    (fun publication hpublication _ ↦ hready publication hpublication)
    (fun _ _ _ ↦ hs.isRound) h.sequencing h.kept h.appends

/-- One effect of a round. -/
theorem rounds_perform {effect : Effect}
    {Q : effect.Result → Recorded (orchestrator cfg D foreign) → Prop} (hs : Playing round thread s)
    (h : ∀ s₁ choice reply now, Continues thread s s₁ → Relaying s₁ → Playing round thread s₁ →
      oneRelay thread effect choice s₁ → Drawn (D := D) (Recorded.now s₁) →
        exec thread effect choice s₁.now = some (reply, now) →
          Orderly (IsRound s₁.history) (Relayed s₁.history) thread s₁.now now ∧
            (∀ publication, publicationOf thread effect choice = some publication →
              Ready s₁ publication) ∧
            ∀ value, reply = .ok value → ∀ s₂, Continues thread
              ⟨now, s₁.history.performed thread effect choice⟩ s₂ → Q value s₂) :
    Rounds cfg D foreign thread Q (perform effect) s := by
  apply wp_call
  intro s₁ hrely hinv choice reply s₂ hpermit hexec
  obtain ⟨now, hnow, rfl⟩ := exec_recorded.mp hexec
  have hs₁ : Playing round thread s₁ := Playing.rely hs hrely
  obtain ⟨horderly, hready, hvalue⟩ :=
    h s₁ choice reply now hrely hinv hs₁ hpermit.1 hpermit.2 hnow
  refine ⟨respects_round hinv hs₁ hready horderly, ?_⟩
  cases reply with
  | ok value => exact fun s₃ hrely₃ _ ↦ hvalue value rfl s₃ hrely₃
  | error error => exact fun s₃ hrely₃ _ ↦ Playing.rely hs₁.performed hrely₃

/-- A round that has opened its transaction, and written nothing. -/
structure Opened (thread : ℕ) (s : Recorded (orchestrator cfg D foreign)) : Prop where
  playing : Playing round thread s
  nothing : s.now.db.pending thread ≠ none → s.now.db.pending thread = some []

theorem Opened.rely (h : Opened thread s) (hrely : Continues thread s s') : Opened thread s' where
  playing := h.playing.rely hrely
  nothing hopen := by
    rcases hrely.kept with hnone | ⟨hpending, -⟩
    · exact absurd hnone hopen
    · rw [hpending] at hopen ⊢
      exact h.nothing hopen

theorem rounds_begin (hs : Playing round thread s) :
    Rounds cfg D foreign thread (fun _ ↦ Opened thread) (perform .begin) s := by
  apply rounds_perform hs
  intro s₁ choice reply now _ hinv hs₁ _ hdrawn hexec
  refine ⟨orderly_of_exec hinv.sequencing hdrawn hexec rfl, fun _ h ↦ (by cases h), ?_⟩
  rintro value rfl s₂ hrely₂
  cases choice with
  | done =>
    obtain ⟨-, rfl⟩ := Prod.mk.inj (Option.some.inj hexec)
    refine Opened.rely ⟨hs₁.performed, fun _ ↦ ?_⟩ hrely₂
    exact Function.update_self _ _ _
  | _ => cases hexec

/-- Nobody else holds a committed row when a round polls. -/
theorem free_of_oneRelay (hinv : Relaying s) {batch : ℕ} {choice : Choice}
    (hone : oneRelay thread (.selectUnpublished batch) choice s) {row : OutboxRow}
    (hrow : row ∈ s.now.db.committed.outbox) : s.now.db.free thread (.outbox row.id) := by
  rw [Transactions.free, decide_eq_true_eq]
  cases howner : s.now.db.owner (.outbox row.id) with
  | none => exact Or.inl rfl
  | some other =>
    right
    by_cases hsame : other = thread
    · rw [hsame]
    · rcases hinv.sequencing.locks row.id other howner with hround | hnone
      · have hopen := hinv.sequencing.held _ other howner
        obtain ⟨event, hevent, rfl⟩ := hinv.acted other hopen
        exact absurd (hone rfl event hevent hsame hround) hopen
      · exact absurd (Outbox.id_unstamped row) (hnone _ (mem_entries hrow))

/-- What a poll finds is due. -/
theorem due_unpublished (hinv : Relaying s) (batch : ℕ)
    (hview : Shared.view s.now thread = s.now.db.committed)
    (hfree : ∀ row ∈ s.now.db.committed.outbox, s.now.db.free thread (.outbox row.id)) :
    Due (Shared.unpublished s.now thread batch) s := by
  intro before row after hsplit
  unfold Shared.unpublished at hsplit
  rw [hview] at hsplit
  have hmem : row ∈ before ++ row :: after := List.mem_append_right _ List.mem_cons_self
  rw [← hsplit] at hmem
  obtain ⟨hrow, hunpublished, -⟩ := Outbox.mem_of_mem_unpublished hmem
  refine ⟨?_, fun earlier hearlier _ hlt ↦ ?_⟩
  · rw [← Outbox.unstamped_of_unpublished hunpublished]
    exact mem_entries hrow
  · obtain ⟨stored, hstored, rfl⟩ := List.mem_map.mp hearlier
    cases hpublished : stored.published with
    | true => exact Or.inl (hinv.sequencing.stamped stored hstored hpublished)
    | false =>
      right
      rw [Outbox.unstamped_of_unpublished hpublished]
      exact Outbox.mem_before_of_unpublished hsplit hstored hpublished (hfree stored hstored) hlt

/-- A round reads the first rows that were not published. -/
theorem rounds_select (hopened : Opened thread s) :
    Rounds cfg D foreign thread (fun rows s₁ ↦ Playing round thread s₁ ∧ Due rows s₁)
      (perform (.selectUnpublished Outbox.batchSize)) s := by
  apply rounds_perform hopened.playing
  intro s₁ choice reply now hrely hinv hs₁ hone _ hexec
  cases choice with
  | done =>
    simp only [exec] at hexec
    split at hexec
    · rename_i hin
      obtain ⟨rfl, rfl⟩ := Prod.mk.inj (Option.some.inj hexec)
      have hopen : s₁.now.db.pending thread ≠ none := pending_of_inTransaction hin
      have hview : Shared.view s₁.now thread = s₁.now.db.committed :=
        view_of_pending ((Opened.rely hopened hrely).nothing hopen)
      have hkeys : ∀ key ∈ (Shared.unpublished s₁.now thread Outbox.batchSize).map
          fun row ↦ Key.outbox row.id, s₁.now.db.free thread key := by
        intro key hkey
        obtain ⟨row, hrow, rfl⟩ := List.mem_map.mp hkey
        exact (Outbox.mem_of_mem_unpublished hrow).2.2
      have hcommitted : (Shared.lockUnpublished s₁.now thread Outbox.batchSize).committed =
          s₁.now.db.committed := Transactions.committed_lockAll _ _ _
      have hdue := due_unpublished hinv Outbox.batchSize hview fun row hrow ↦
        free_of_oneRelay hinv hone hrow
      refine ⟨⟨hinv.sequencing.lockAll hkeys hopen hs₁.isRound,
        fun other hne ↦ Transactions.kept_lockAll hkeys hne, appends_of_committed hcommitted⟩,
        fun _ h ↦ (by cases h), ?_⟩
      rintro rows hrows s₂ hrely₂
      obtain rfl := Except.ok.inj hrows
      exact ⟨Playing.rely hs₁.performed hrely₂, Due.rely (hdue.mono
        (appends_of_committed hcommitted) (goesOn_performed s₁.history thread _ _)) hrely₂⟩
    · cases hexec
  | lost text =>
    obtain ⟨rfl, rfl⟩ := Prod.mk.inj (Option.some.inj hexec)
    exact ⟨orderly_same hinv.sequencing rfl rfl, fun _ h ↦ (by cases h), fun _ h ↦ by cases h⟩
  | _ => cases hexec

/-- Publishing the first of the rows that are due. -/
theorem rounds_publish (hs : Playing round thread s) (hdue : Due (row :: rows) s) :
    Rounds cfg D foreign thread
      (fun _ s₁ ↦ Playing round thread s₁ ∧ Due rows s₁ ∧ Posted [row.id] s₁)
      (perform (.publish row.exchange row.routingKey (.envelope row.payload))) s := by
  apply rounds_perform hs
  intro s₁ choice reply now hrely hinv hs₁ _ hdrawn hexec
  have hdue₁ : Due (row :: rows) s₁ := hdue.rely hrely
  have horderly := orderly_of_exec hinv.sequencing hdrawn hexec rfl
  refine ⟨horderly, fun publication hpublication ↦ ?_, ?_⟩
  · obtain ⟨hexchange, hkey, hbody⟩ := Effect.publish.inj (publicationOf_eq_some hpublication).2
    obtain ⟨entry, hentry, hcarries, hearlier⟩ := hdue₁.ready thread
    exact ⟨entry, hentry, ⟨hexchange.symm.trans hcarries.exchange,
      hkey.symm.trans hcarries.routingKey, hbody.symm.trans hcarries.body⟩, hearlier⟩
  · rintro value rfl s₂ hrely₂
    cases choice with
    | done =>
      have hon := goesOn_performed s₁.history thread
        (.publish row.exchange row.routingKey (.envelope row.payload)) .done
      have hsent : Relayed (s₁.history.performed thread
          (.publish row.exchange row.routingKey (.envelope row.payload)) .done) row := by
        refine ⟨⟨some thread, row.exchange, row.routingKey, .envelope row.payload⟩, ?_,
          ⟨thread, rfl, hs₁.isRound⟩, ⟨rfl, rfl, rfl⟩⟩
        rw [publications_performed]
        exact List.mem_append_right _ List.mem_cons_self
      have hdue₂ : Due (row :: rows)
          (⟨now, s₁.history.performed thread
            (.publish row.exchange row.routingKey (.envelope row.payload)) .done⟩ :
              Recorded (orchestrator cfg D foreign)) := hdue₁.mono horderly.appends hon
      refine ⟨Playing.rely hs₁.performed hrely₂, (hdue₂.tail hsent).rely hrely₂, ?_⟩
      intro id hid
      rw [List.mem_singleton.mp hid]
      exact ⟨row, hrely₂.appends.entries.subset (hdue₂ [] row rows rfl).1, rfl,
        hrely₂.goesOn.sent hsent⟩
    | _ => cases hexec

/-- All rows are published, in order. -/
theorem rounds_publishAll (hs : Playing round thread s) (hdue : Due rows s) :
    Rounds cfg D foreign thread (fun ids s₁ ↦ Playing round thread s₁ ∧ Posted ids s₁)
      (relay.publishAll rows) s := by
  induction rows generalizing s with
  | nil => exact fun s₁ hrely _ ↦ ⟨Playing.rely hs hrely, fun id hid ↦ by cases hid⟩
  | cons row rest ih =>
    apply wp_bind
    refine wp_mono ?_ (fun _ _ h ↦ h) (rounds_publish hs hdue)
    rintro _ s₁ ⟨hs₁, hdue₁, hfirst⟩
    apply wp_bind
    have hpermanent : (relaying cfg D foreign).Permanent (Posted [row.id]) :=
      fun _ _ _ hrely hposted ↦ Posted.mono hposted hrely.appends hrely.goesOn
    refine wp_known hpermanent hfirst ?_
    refine wp_mono ?_ (fun _ _ h ↦ h) (ih hs₁ hdue₁)
    rintro ids s₂ ⟨hs₂, hrest⟩ hfirst₂ s₃ hrely₃ _
    have hposted : Posted (row.id :: ids) s₂ := by
      intro id hid
      rcases List.mem_cons.mp hid with rfl | hmem
      · exact hfirst₂ row.id List.mem_cons_self
      · exact hrest id hmem
    exact ⟨Playing.rely hs₂ hrely₃, hposted.mono hrely₃.appends hrely₃.goesOn⟩

/-- Stamping rows that were published. -/
theorem rounds_stamp (hs : Playing round thread s) (hposted : Posted ids s) :
    Rounds cfg D foreign thread (fun _ ↦ Playing round thread) (perform (.stamp ids)) s := by
  apply rounds_perform hs
  intro s₁ choice reply now hrely hinv hs₁ _ hdrawn hexec
  have hposted₁ : Posted ids s₁ := hposted.mono hrely.appends hrely.goesOn
  refine ⟨?_, fun _ h ↦ (by cases h), fun _ _ s₂ hrely₂ ↦ Playing.rely hs₁.performed hrely₂⟩
  cases choice with
  | done =>
    simp only [exec] at hexec
    split at hexec
    · rename_i hin
      obtain ⟨-, rfl⟩ := Prod.mk.inj (Option.some.inj hexec)
      obtain ⟨writes, hpending⟩ := Option.isSome_iff_exists.mp hin
      have hstamped : Enqueuing (Relayed s₁.history) s₁.now.db s₁.now.outboxSeq thread
          (writes ++ [.stamp ids]) :=
        (hinv.sequencing.enqueuing thread writes hpending).other (fun _ h ↦ by cases h)
          fun ids' hids' id hid ↦ hposted₁ id (Write.stamp.inj hids' ▸ hid)
      exact ⟨hinv.sequencing.write hpending hstamped,
        fun other hne ↦ Transactions.kept_write hne, appends_of_committed rfl⟩
    · cases hexec
  | lost text =>
    obtain ⟨-, rfl⟩ := Prod.mk.inj (Option.some.inj hexec)
    exact orderly_same hinv.sequencing rfl rfl
  | _ => cases hexec

/-- Ending the transaction of a round. -/
theorem rounds_end (hs : Playing round thread s) (effect : Effect)
    (hleaves : effect.leavesOutbox = true)
    (hpublishes : ∀ choice, publicationOf thread effect choice = none) :
    Rounds cfg D foreign thread (fun _ ↦ Playing round thread) (perform effect) s := by
  apply rounds_perform hs
  intro s₁ choice reply now _ hinv hs₁ _ hdrawn hexec
  refine ⟨orderly_of_exec hinv.sequencing hdrawn hexec hleaves, fun publication h ↦ ?_,
    fun _ _ s₂ hrely₂ ↦ Playing.rely hs₁.performed hrely₂⟩
  rw [hpublishes choice] at h
  cases h

/-- A round of the relay publishes the rows of each order in their order. -/
theorem rounds_drainOnce (hs : Playing round thread s) :
    Rounds cfg D foreign thread (fun _ ↦ Playing round thread) relay.drainOnce s := by
  apply wp_bind
  refine wp_mono ?_ (fun _ _ h ↦ h) (rounds_begin hs)
  intro _ s₁ hopened
  apply wp_bind
  apply wp_attempt
  refine wp_mono (Q := fun _ ↦ Playing round thread) (E := fun _ ↦ Playing round thread) ?_ ?_ ?_
  · intro value s₂ hs₂
    apply wp_bind
    refine wp_mono ?_ (fun _ _ h ↦ h) (rounds_end hs₂ .commit rfl fun _ ↦ rfl)
    exact fun _ s₃ hs₃ s₄ hrely₄ _ ↦ Playing.rely hs₃ hrely₄
  · intro error s₂ hs₂
    apply wp_bind
    refine wp_mono ?_ (fun _ _ h ↦ h) (rounds_end hs₂ .rollback rfl fun _ ↦ rfl)
    exact fun _ s₃ hs₃ s₄ hrely₄ _ ↦ Playing.rely hs₃ hrely₄
  · apply wp_bind
    refine wp_mono ?_ (fun _ _ h ↦ h) (rounds_select hopened)
    rintro rows s₂ ⟨hs₂, hdue⟩
    split
    · exact fun s₃ hrely₃ _ ↦ Playing.rely hs₂ hrely₃
    · apply wp_bind
      refine wp_mono ?_ (fun _ _ h ↦ h) (rounds_publishAll hs₂ hdue)
      rintro ids s₃ ⟨hs₃, hposted⟩
      apply wp_bind
      refine wp_mono ?_ (fun _ _ h ↦ h) (rounds_stamp hs₃ hposted)
      exact fun _ s₄ hs₄ s₅ hrely₅ _ ↦ Playing.rely hs₄ hrely₅

/-! ### The discipline is verified -/

/-- What was published was published by a thread that had been launched. -/
theorem launched_of_publication (hinv : Relaying s) {publication : Publication}
    (h : publication ∈ publications s.history) :
    ∃ thread, publication.publisher = some thread ∧ s.history.launches thread ≠ none := by
  obtain ⟨event, hevent, hpublication⟩ := List.mem_filterMap.mp h
  exact ⟨event.thread, (publicationOf_eq_some hpublication).1, hinv.launched event hevent⟩

/-- Nothing was published, and the outbox is as it was. -/
theorem Relaying.moved (hinv : Relaying s) (hon : GoesOn s.history s'.history)
    (hevents : s'.history.events = s.history.events)
    (hsequencing : Sequencing (IsRound s.history) (Relayed s.history) s'.now.db s'.now.outboxSeq)
    (hpending : ∀ thread, s'.now.db.pending thread ≠ none → s.now.db.pending thread ≠ none)
    (hcommitted : s'.now.db.committed = s.now.db.committed) : Relaying s' := by
  have hsame : publications s'.history = publications s.history :=
    congrArg (List.filterMap publicationAt) hevents
  constructor
  case sequencing =>
    exact hsequencing.mono (fun thread hround ↦ hon.launches thread _ hround)
      (fun _ hsent ↦ hon.sent hsent) (Nat.le_refl _)
  case acted =>
    intro thread hopen
    rw [hevents]
    exact hinv.acted thread (hpending thread hopen)
  case launched =>
    intro event hevent
    rw [hevents] at hevent
    obtain ⟨launched, hlaunched⟩ := Option.ne_none_iff_exists'.mp (hinv.launched event hevent)
    rw [hon.launches event.thread launched hlaunched]
    nofun
  case events =>
    intro publication hmem hexchange
    rw [hsame] at hmem
    exact hon.fromRelay (hinv.events publication hmem hexchange)
  case inOrder =>
    intro j publication hj hrelay
    rw [hsame] at hj
    rw [hcommitted]
    have hbefore : FromRelay s.history publication := by
      obtain ⟨thread, hpublisher, hround⟩ := hrelay
      obtain ⟨other, hother, hlaunched⟩ := launched_of_publication hinv (List.mem_of_getElem? hj)
      obtain rfl : other = thread := Option.some.inj (hother.symm.trans hpublisher)
      obtain ⟨launched, hwas⟩ := Option.ne_none_iff_exists'.mp hlaunched
      refine ⟨other, hpublisher, ?_⟩
      rw [IsRound, hwas]
      exact (hon.launches other launched hwas).symm.trans hround
    obtain ⟨entry, hentry, hcarries, hbefores⟩ := hinv.inOrder j publication hj hbefore
    refine ⟨entry, hentry, hcarries, fun earlier hearlier halike hlt ↦ ?_⟩
    obtain ⟨i, hi, before, hat, hfrom, hcarried⟩ := hbefores earlier hearlier halike hlt
    exact ⟨i, hi, before, hsame ▸ hat, hon.fromRelay hfrom, hcarried⟩

/-- What is launched is verified. -/
theorem wp_launch_relaying {started : Launch} {program : Proc Unit} {b b' : Shared D}
    {h : History (orchestrator cfg D foreign)}
    (hlaunch : launch cfg thread started b = some (program, b')) :
    (relaying cfg D foreign).wp thread (fun _ _ ↦ True) (fun _ _ ↦ True) program
      ⟨b', h.launched thread started⟩ := by
  have hplaying : ∀ {role : Launch → Prop}, role started → Playing role thread
      (⟨b', h.launched thread started⟩ : Recorded (orchestrator cfg D foreign)) :=
    fun hrole ↦ ⟨started, History.launches_launched h thread started, hrole⟩
  have hkeeps : ∀ {program' : Proc Unit}, started ≠ .drainOnce →
      Keeps cfg D foreign aside thread Unit program' → (relaying cfg D foreign).wp thread
        (fun _ _ ↦ True) (fun _ _ ↦ True) program' ⟨b', h.launched thread started⟩ :=
    fun haside hkeeps ↦ wp_mono (fun _ _ _ ↦ trivial) (fun _ _ _ ↦ trivial)
      (hkeeps _ (hplaying haside))
  cases started with
  | start =>
    obtain ⟨rfl, rfl⟩ := Prod.mk.inj (Option.some.inj hlaunch)
    exact hkeeps nofun (keeps_perform rfl rfl)
  | onPlaced number =>
    obtain ⟨delivered, -, hreply⟩ := Option.map_eq_some_iff.mp hlaunch
    obtain ⟨rfl, rfl⟩ := Prod.mk.inj hreply
    exact hkeeps nofun (keeps_onPlaced delivered.1)
  | onAdvance number =>
    obtain ⟨delivered, -, hreply⟩ := Option.map_eq_some_iff.mp hlaunch
    obtain ⟨rfl, rfl⟩ := Prod.mk.inj hreply
    exact hkeeps nofun (keeps_onAdvance delivered.1)
  | replayDlq limit =>
    obtain ⟨rfl, rfl⟩ := Prod.mk.inj (Option.some.inj hlaunch)
    exact hkeeps nofun (upholds_keeps.bind (keeps_replayDlq limit) fun _ ↦
      upholds_keeps.closed.ret _ _)
  | drainOnce =>
    obtain ⟨rfl, rfl⟩ := Prod.mk.inj (Option.some.inj hlaunch)
    apply wp_bind
    refine wp_mono ?_ (fun _ _ _ ↦ trivial) (rounds_drainOnce (hplaying rfl))
    exact fun _ _ _ _ _ _ ↦ trivial

theorem relaying_verified : (relaying cfg D foreign).Verified where
  start := by
    refine ⟨⟨Sequencing.start, fun _ hopen ↦ absurd rfl hopen, fun _ hevent ↦ ?_,
      fun _ hmem ↦ ?_, fun _ _ hat ↦ ?_⟩, fun _ ↦ rfl⟩
    · cases hevent
    · cases hmem
    · cases hat
  launch thread started s program s' hinv hfresh hlaunch := by
    obtain ⟨now, hnow, rfl⟩ := launch_recorded.mp hlaunch
    have hdb : now.db = s.now.db := (db_of_launch hnow).1
    have hon := goesOn_launched hfresh started
    refine ⟨⟨hinv.moved hon rfl ?_ (fun other hopen ↦ ?_) ?_, fun other hne ↦ ?_⟩,
      wp_launch_relaying hnow⟩
    · show Sequencing (IsRound s.history) (Relayed s.history) now.db now.outboxSeq
      rw [hdb, (db_of_launch hnow).2]
      exact hinv.sequencing
    · rwa [← hdb]
    · exact congrArg Transactions.committed hdb
    · refine ⟨History.launches_launched_of_ne _ hne _, ?_, appends_of_committed
        (congrArg Transactions.committed hdb), hon⟩
      show s.now.db.Kept holding other now.db
      rw [hdb]
      exact Transactions.Kept.refl other _
  ambient act s s' hinv hambient := by
    obtain ⟨now, hnow, rfl⟩ := ambient_recorded.mp hambient
    have hon : GoesOn s.history s.history := .refl _
    obtain ⟨hdb, hseq⟩ := db_of_ambient hnow
    have hcommitted : now.db.committed = s.now.db.committed := by
      rcases hdb with hsame | ⟨aborted, haborted⟩
      · rw [hsame]
      · rw [haborted]
        rfl
    refine ⟨hinv.moved hon rfl ?_ (fun other hopen ↦ ?_) hcommitted, fun other ↦
      ⟨rfl, ?_, appends_of_committed hcommitted, hon⟩⟩
    · show Sequencing (IsRound s.history) (Relayed s.history) now.db now.outboxSeq
      rw [hseq]
      rcases hdb with hsame | ⟨aborted, haborted⟩
      · rw [hsame]
        exact hinv.sequencing
      · rw [haborted]
        exact hinv.sequencing.abort
    · change now.db.pending other ≠ none at hopen
      rcases hdb with hsame | ⟨aborted, haborted⟩
      · rwa [← hsame]
      · rw [haborted] at hopen
        by_cases hother : other = aborted
        · simp [Transactions.abort, hother] at hopen
        · simpa [Transactions.abort, hother] using hopen
    · show s.now.db.Kept holding other now.db
      rcases hdb with hsame | ⟨aborted, haborted⟩
      · rw [hsame]
        exact Transactions.Kept.refl other _
      · rw [haborted]
        by_cases hother : other = aborted
        · rw [hother]
          exact Transactions.kept_abort_self
        · exact Transactions.kept_abort hother

/-! ### The rows of an order -/

section Rows

variable {d : Db} {step later : State × State} {entry : OutboxRow}

theorem slice_outbox (d : Db) (orderId : String) :
    (d.slice orderId).outbox = d.entries.filter fun row ↦ row.payload.orderId = orderId := by
  unfold Db.entries
  rw [List.filter_map]
  rfl

theorem recorded_of_ne_empty (hledger : Ledger d) {orderId : String}
    (hne : d.slice orderId ≠ .empty) : ∃ row, ConsistentOrder orderId (d.slice orderId) row ∧
      history d orderId = (d.slice orderId).steps := by
  obtain ⟨row, -, rfl, hrow⟩ := hledger.exists_order hne
  exact ⟨row, hrow, history_eq hrow⟩

/-- An order with a step has its record. -/
theorem recorded_of_step (hledger : Ledger d) {orderId : String}
    (hstep : step ∈ history d orderId) :
    ∃ row, ConsistentOrder orderId (d.slice orderId) row ∧
      history d orderId = (d.slice orderId).steps := by
  refine recorded_of_ne_empty hledger fun hempty ↦ ?_
  have hnone : (d.transitions.filter fun row ↦ row.orderId = orderId) = [] :=
    congrArg Slice.transitions hempty
  rw [history, hnone] at hstep
  cases hstep

/-- An order with a message has its record. -/
theorem recorded_of_entry (hledger : Ledger d) (hentry : entry ∈ d.entries) :
    entry ∈ (d.slice entry.payload.orderId).outbox ∧
      ∃ row, ConsistentOrder entry.payload.orderId (d.slice entry.payload.orderId) row ∧
        history d entry.payload.orderId = (d.slice entry.payload.orderId).steps := by
  have hmem : entry ∈ (d.slice entry.payload.orderId).outbox := by
    rw [slice_outbox]
    exact List.mem_filter.mpr ⟨hentry, decide_eq_true rfl⟩
  refine ⟨hmem, recorded_of_ne_empty hledger fun hempty ↦ ?_⟩
  rw [hempty] at hmem
  cases hmem

/-- What is sent to the exchange of events reports a step of its order. -/
theorem reports_of_entry (hledger : Ledger d) (hentry : entry ∈ d.entries)
    (hevent : entry.payload.type = .transition ∨ entry.exchange = .events) :
    ∃ step ∈ history d entry.payload.orderId,
      Reports entry.payload.orderId step.1 step.2 entry := by
  obtain ⟨hmem, row, hrow, hhistory⟩ := recorded_of_entry hledger hentry
  obtain ⟨htype, hexchange, hkey⟩ : entry.payload.type = .transition ∧ entry.exchange = .events ∧
      entry.routingKey = rkTransition := by
    rcases hrow.addressed entry hmem with ⟨hadvance, hwork, -⟩ | haddressed
    · rw [hadvance, hwork] at hevent
      rcases hevent with hevent | hevent <;> cases hevent
    · exact haddressed
  have hreported : (entry.payload.data.fromState, entry.payload.data.toState) ∈
      (d.slice entry.payload.orderId).events :=
    List.mem_map_of_mem (List.mem_filter.mpr ⟨hmem, decide_eq_true htype⟩)
  rw [hrow.events] at hreported
  obtain ⟨step, hstep, hvalues⟩ := List.mem_map.mp hreported
  obtain ⟨hsource, htarget⟩ := Prod.mk.inj hvalues
  rw [hhistory]
  exact ⟨step, hstep, rfl, htype, hsource.symm, htarget.symm, hexchange, hkey⟩

/-- The events of the order that has the slice. -/
def Slice.reports (x : Slice) : List OutboxRow :=
  x.outbox.filter fun out ↦ out.payload.type = .transition

/-- The step that an event reports. -/
def reported (out : OutboxRow) : Option String × Option String :=
  (out.payload.data.fromState, out.payload.data.toState)

theorem mem_reports {orderId : String} {out : OutboxRow} : out ∈ (d.slice orderId).reports ↔
    out ∈ d.entries ∧ out.payload.orderId = orderId ∧ out.payload.type = .transition := by
  simp [Slice.reports, slice_outbox, and_comm]

theorem reports_ascend (hascending : Ascending d.entries) (orderId : String) :
    (d.slice orderId).reports.Pairwise fun first later ↦ first.id < later.id := by
  have hsublist : (d.slice orderId).reports.Sublist d.entries := by
    refine List.filter_sublist.trans ?_
    rw [slice_outbox]
    exact List.filter_sublist
  refine (hascending.sublist hsublist).imp_of_mem fun hfirst hlater hlt ↦ hlt ?_
  exact (mem_reports.mp hfirst).2.1.trans (mem_reports.mp hlater).2.1.symm

theorem nodup_reported {orderId : String} {row : OrderRow}
    (h : ConsistentOrder orderId (d.slice orderId) row) :
    ((d.slice orderId).reports.map reported).Nodup := by
  have hevents : (d.slice orderId).reports.map reported = (d.slice orderId).steps.map fun step ↦
      (some step.1.value, some step.2.value) := h.events
  rw [hevents]
  refine (h.path.nodup depth_lt_of_legal).map fun first second hsame ↦ ?_
  obtain ⟨hsource, htarget⟩ := Prod.mk.inj hsame
  exact Prod.ext (State.value_injective (Option.some.inj hsource))
    (State.value_injective (Option.some.inj htarget))

/-- The events of an order have ids in the order of its steps. -/
theorem events_ascend (hledger : Ledger d) (hascending : Ascending d.entries) (orderId : String) :
    (history d orderId).Pairwise fun step later ↦
      ∀ entry ∈ d.entries, Reports orderId later.1 later.2 entry →
        ∃ earlier ∈ d.entries, Reports orderId step.1 step.2 earlier ∧ earlier.id < entry.id := by
  by_cases hempty : d.slice orderId = .empty
  · have hnone : history d orderId = [] := List.eq_nil_iff_forall_not_mem.mpr fun step hstep ↦ by
      obtain ⟨row, hrow, -⟩ := recorded_of_step hledger hstep
      have horders := hrow.orders
      rw [hempty] at horders
      cases horders
    rw [hnone]
    exact List.Pairwise.nil
  · obtain ⟨row, hrow, hhistory⟩ := recorded_of_ne_empty hledger hempty
    -- The events and the steps are listed in the same order.
    have hpairs : ((d.slice orderId).reports.map reported).Pairwise fun first later ↦
        ∀ entry ∈ (d.slice orderId).reports, reported entry = later →
          ∃ earlier ∈ (d.slice orderId).reports, reported earlier = first ∧
            earlier.id < entry.id := by
      refine List.pairwise_map.mpr ((reports_ascend hascending orderId).imp_of_mem ?_)
      intro first later hfirst hlater hlt entry hentry hsame
      refine ⟨first, hfirst, rfl, ?_⟩
      rwa [List.inj_on_of_nodup_map (nodup_reported hrow) hentry hlater hsame]
    rw [show (d.slice orderId).reports.map reported = _ from hrow.events] at hpairs
    rw [hhistory]
    refine (List.pairwise_map.mp hpairs).imp fun {step later} hpair entry hentry hreports ↦ ?_
    obtain ⟨earlier, hearlier, hsame, hlt⟩ := hpair entry
      (mem_reports.mpr ⟨hentry, hreports.orderId, hreports.type⟩)
      (Prod.ext hreports.fromState hreports.toState)
    obtain ⟨hmem, horder, htype⟩ := mem_reports.mp hearlier
    obtain ⟨_, -, haddressed⟩ := reports_of_entry hledger hmem (Or.inl htype)
    exact ⟨earlier, hmem, ⟨horder, htype, congrArg Prod.fst hsame, congrArg Prod.snd hsame,
      haddressed.exchange, haddressed.routingKey⟩, hlt⟩

/-- A command comes after the event of the step that led to its state. -/
theorem event_of_command (hledger : Ledger d) (hpreceded : Preceded d.entries)
    (hstep : step ∈ history d entry.payload.orderId) (hentry : entry ∈ d.entries)
    (htype : entry.payload.type = .advance)
    (hstate : entry.payload.data.fromState = some step.2.value) :
    ∃ event ∈ d.entries,
      Reports entry.payload.orderId step.1 step.2 event ∧ event.id < entry.id := by
  obtain ⟨row, hrow, hhistory⟩ := recorded_of_step hledger hstep
  rw [hhistory] at hstep
  have hnodup := hrow.path.nodup_entered depth_lt_of_legal
  rcases hpreceded entry hentry htype with hplaced | ⟨event, hevent, hprecedes, hlt⟩
  · -- No step leads back to placed.
    have hback : step.2 = .placed :=
      State.value_injective (Option.some.inj (hstate.symm.trans hplaced))
    have hmem : State.placed ∈ (d.slice entry.payload.orderId).steps.map Prod.snd :=
      List.mem_map.mpr ⟨step, hstep, hback⟩
    exact absurd hmem (List.nodup_cons.mp hnodup).1
  · obtain ⟨reported, hreported, hreports⟩ :=
      reports_of_entry hledger hevent (Or.inl hprecedes.type)
    have horder : event.payload.orderId = entry.payload.orderId := hprecedes.alike
    rw [horder, hhistory] at hreported
    rw [horder] at hreports
    have htarget : reported.2 = step.2 := State.value_injective <| Option.some.inj <|
      hreports.toState.symm.trans (hprecedes.state.trans hstate)
    obtain rfl : reported = step :=
      List.inj_on_of_nodup_map (List.nodup_cons.mp hnodup).2 hreported hstep htarget
    exact ⟨event, hevent, hreports, hlt⟩

end Rows

/-! ### The order of the publications -/

/-- The publication is the event of the step. -/
def Reporting (orderId : String) (step : State × State) (publication : Publication) : Prop :=
  publication.exchange = .events ∧ ∃ env, publication.body = .envelope env ∧
    env.type = .transition ∧ env.orderId = orderId ∧
      env.data.fromState = some step.1.value ∧ env.data.toState = some step.2.value

/-- Each of the later publications comes after one of the first: the first of the first comes before
the first of the later. -/
def Before (log : List Publication) (first later : Publication → Prop) : Prop :=
  ∀ (j : ℕ) publication, log[j]? = some publication → later publication →
    ∃ i < j, ∃ before, log[i]? = some before ∧ first before

/-- The events of every order are published in the order of its steps, each before the command from
the state that its step leads to. -/
structure EventOrder (s : Recorded (orchestrator cfg D foreign)) : Prop where
  recorded : ∀ publication ∈ publications s.history, publication.exchange = .events →
    ∃ orderId, ∃ step ∈ history s.now.db.committed orderId, Reporting orderId step publication
  events : ∀ orderId, (history s.now.db.committed orderId).Pairwise fun step later ↦
    Before (publications s.history) (Reporting orderId step) (Reporting orderId later)
  /-- The relay publishes the command only after the event. -/
  relayed : ∀ orderId, ∀ step ∈ history s.now.db.committed orderId,
    Before (publications s.history) (Reporting orderId step) fun publication ↦
      FromRelay s.history publication ∧ Commanding orderId (some step.2.value) publication
  /-- So does anybody, unless another service has made the command up. -/
  commands : ∀ orderId, ∀ step ∈ history s.now.db.committed orderId,
    Forged s.now.broker.log orderId (some step.2.value) ∨
      Before (publications s.history) (Reporting orderId step)
        (Commanding orderId (some step.2.value))

section Order

variable {orderId : String} {step : State × State} {publication : Publication} {row : OutboxRow}

/-- The publication of a row that reports a step. -/
theorem reporting_of_carries (hcarries : Carries publication row)
    (hreports : Reports orderId step.1 step.2 row) : Reporting orderId step publication :=
  ⟨hcarries.exchange.trans hreports.exchange, row.payload, hcarries.body, hreports.type,
    hreports.orderId, hreports.fromState, hreports.toState⟩

/-- The row of a publication that reports a step. -/
theorem reports_of_carries {d : Db} (hledger : Ledger d) (hrow : row ∈ d.entries)
    (hcarries : Carries publication row) (h : Reporting orderId step publication) :
    Reports orderId step.1 step.2 row := by
  obtain ⟨hevents, env, hbody, htype, horder, hsource, htarget⟩ := h
  obtain rfl := Body.envelope.inj (hbody.symm.trans hcarries.body)
  obtain ⟨_, -, haddressed⟩ := reports_of_entry hledger hrow (Or.inl htype)
  exact ⟨horder, htype, hsource, htarget, haddressed.exchange, haddressed.routingKey⟩

theorem relayed_before (hinv : Relaying s) (hledger : Ledger s.now.db.committed)
    (hstep : step ∈ history s.now.db.committed orderId) :
    Before (publications s.history) (Reporting orderId step) fun publication ↦
      FromRelay s.history publication ∧ Commanding orderId (some step.2.value) publication := by
  rintro j publication hj ⟨hrelay, env, hbody, htype, rfl, hstate⟩
  obtain ⟨entry, hentry, hcarries, hbefores⟩ := hinv.inOrder j publication hj hrelay
  obtain rfl := Body.envelope.inj (hbody.symm.trans hcarries.body)
  obtain ⟨event, hevent, hreports, hlt⟩ :=
    event_of_command hledger hinv.sequencing.preceded hstep hentry htype hstate
  obtain ⟨i, hi, before, hat, -, hcarried⟩ := hbefores event hevent hreports.orderId hlt
  exact ⟨i, hi, before, hat, reporting_of_carries hcarried hreports⟩

theorem eventOrder_of_relaying (hinv : Relaying s) (hledger : Ledger s.now.db.committed)
    (hcopying : Copying s) : EventOrder s where
  recorded publication hmem hevents := by
    obtain ⟨j, hj⟩ := List.mem_iff_getElem?.mp hmem
    obtain ⟨entry, hentry, hcarries, -⟩ :=
      hinv.inOrder j publication hj (hinv.events publication hmem hevents)
    obtain ⟨step, hstep, hreports⟩ :=
      reports_of_entry hledger hentry (Or.inr (hcarries.exchange.symm.trans hevents))
    exact ⟨entry.payload.orderId, step, hstep, reporting_of_carries hcarries hreports⟩
  events orderId := by
    refine (events_ascend hledger hinv.sequencing.ascending orderId).imp fun {step later} hids ↦ ?_
    intro j publication hj hreporting
    have hrelay := hinv.events publication (List.mem_of_getElem? hj) hreporting.1
    obtain ⟨entry, hentry, hcarries, hbefores⟩ := hinv.inOrder j publication hj hrelay
    have hreports := reports_of_carries hledger hentry hcarries hreporting
    obtain ⟨earlier, hearlier, hreported, hlt⟩ := hids entry hentry hreports
    obtain ⟨i, hi, before, hat, -, hcarried⟩ :=
      hbefores earlier hearlier (hreported.orderId.trans hreports.orderId.symm) hlt
    exact ⟨i, hi, before, hat, reporting_of_carries hcarried hreported⟩
  relayed orderId step hstep := relayed_before hinv hledger hstep
  commands orderId step hstep := by
    by_cases hforged : Forged s.now.broker.log orderId (some step.2.value)
    · exact Or.inl hforged
    · right
      rintro j publication hj ⟨env, hbody, htype, rfl, hstate⟩
      have hbefore := relayed_before hinv hledger hstep
      rcases hcopying.handled j publication hj with hcopied | hrelay
      · -- A handler has it from the relay.
        rcases hcopied env hbody htype with ⟨i, hi, original, hat, hrelay, hcommanding⟩ | hmade
        · rw [hstate] at hcommanding
          obtain ⟨k, hk, before, hbefore⟩ := hbefore i original hat ⟨hrelay, hcommanding⟩
          exact ⟨k, hk.trans hi, before, hbefore⟩
        · rw [hstate] at hmade
          exact absurd hmade hforged
      · exact hbefore j publication hj ⟨hrelay, env, hbody, htype, rfl, hstate⟩

end Order

/-- **The events of an order are published in order**: in every run with one relay, whatever the
handlers do meanwhile, and wherever a round fails and is repeated. -/
theorem eventOrder (cfg : Config) (D : Downstreams) (foreign : Publication → Bool)
    {w : World (orchestrator cfg D foreign).recorded} (hw : Reachable oneRelay w) :
    EventOrder w.shared := by
  let X : Setting D := ⟨cfg, .trivial D, foreign, False, fun hstrict ↦ hstrict.elim⟩
  have hsound : ∀ w' : World (orchestrator cfg D foreign).recorded, Reachable oneRelay w' →
      Sound X w'.shared.now := fun w' hw' ↦
    sound_of_reachable (X := X) ((reachable_forget hw').mono fun _ _ _ _ _ hstrict ↦ hstrict.elim)
  have hdrawn : ∀ w' : World (orchestrator cfg D foreign).recorded, Reachable oneRelay w' →
      Drawn (D := D) (Recorded.now w'.shared) := fun w' hw' ↦
    ⟨(hsound w' hw').tables.outboxIds, (hsound w' hw').tables.outboxDrawn,
      (hsound w' hw').tables.locks⟩
  have hinv := (holds_of_reachable relaying_verified (Reachable.knowing hdrawn hw)).inv
  exact eventOrder_of_relaying hinv (hsound w hw).tables.ledger (copying_of_reachable hw)

/-! ### A run with a failure -/

/-- A round publishes the event of the confirmed order and loses its connection (thread 4); the next
publishes the event again, and then the command (thread 5). -/
def announcing : List (Action (orchestrator {} .any fun _ ↦ true)) :=
  confirming ++ [.launch .drainOnce, .step 4 .done, .step 4 .done, .step 4 .done,
    .step 4 (.lost "connection is closed"), .step 4 .done,
    .launch .drainOnce, .step 5 .done, .step 5 .done, .step 5 .done, .step 5 .done, .step 5 .done,
    .step 5 .done]

def announcedWorld : World (orchestrator {} .any fun _ ↦ true).recorded :=
  ((World.initial _).runPermitted oneRelay (announcing.map Action.recorded)).get (by decide +kernel)

theorem eventOrder_announcedWorld : EventOrder announcedWorld.shared ∧
    (publications announcedWorld.shared.history).map
        (fun publication ↦ (publication.publisher, publication.routingKey)) =
      [(some 2, rkAdvance), (some 4, rkTransition), (some 5, rkTransition), (some 5, rkAdvance)] :=
  ⟨eventOrder {} .any _ (reachable_of_runPermitted (Option.some_get _).symm), by decide +kernel⟩

end DinnerRush.Orchestrator
