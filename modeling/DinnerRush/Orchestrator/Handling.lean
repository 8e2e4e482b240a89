import DinnerRush.Orchestrator.Calling
import DinnerRush.Orchestrator.Recording

/-!
# The handlers are sound

Every program of the orchestrator is verified under its discipline: the two handlers, the replay of
the DLQ and the relay. What makes a handler sound is that it settles its message before it acks it:
the order was inserted, the order has left the state that the command names, or the message was
published again. A step that is recorded has been performed by the downstream it depends on, and
recording it leaves the state.
-/

set_option autoImplicit false
set_option relaxedAutoImplicit false

namespace DinnerRush.Orchestrator

open Concurrency Discipline

variable {D : Downstreams} {X : Setting D} {thread : ℕ} {s s' : Shared D} {orderId : String}
  {β : Type}

/-! ### The two transactions -/

theorem wp_makeEvent {type : EventType} {data : Data} {Q : Envelope → Shared D → Prop}
    (h : ∀ s₁ stamp, Relies X thread s s₁ → Q (DinnerRush.makeEvent stamp type orderId data) s₁) :
    Verifies X thread Q (makeEvent type orderId data) s := by
  apply wp_bind
  apply wp_silent (fun _ _ ↦ trivial) rfl
  intro s₁ choice stamp hrely _ _ s₂ hrely₂ _ s₃ hrely₃ _
  exact h s₃ stamp ((discipline X).rely_trans _ _ _ _ hrely
    ((discipline X).rely_trans _ _ _ _ hrely₂ hrely₃))

theorem permanent_exists_order (orderId : String) : (discipline X).Permanent fun s ↦
    ∃ row ∈ s.db.committed.orders, row.orderId = orderId :=
  fun _ _ _ hrely h ↦ exists_order_grows h hrely.db

theorem permanent_left (orderId : String) (state : State) : (discipline X).Permanent fun s ↦
    Left s.db.committed orderId state :=
  fun _ _ _ hrely h ↦ h.grows hrely.db

/-- After the transaction of `on_placed`, the order is there. -/
theorem wp_insertPlaced {env : Envelope} :
    Verifies X thread (fun _ s₁ ↦ ∃ row ∈ s₁.db.committed.orders, row.orderId = env.orderId)
      (insertPlaced env) s := by
  apply wp_transaction
  intro s₁ _ hbegun
  apply wp_bind
  apply wp_insertOrder hbegun
  · intro s₂ hbegun₂ hrow s₃ hrely₃ _
    refine wp_known (permanent_exists_order env.orderId) (exists_order_grows hrow hrely₃.db) ?_
    apply wp_commit_of_begun (hbegun₂.rely hrely₃)
    exact fun s₄ hrow₄ ↦ fun s₅ hrely₅ _ ↦ exists_order_grows hrow₄ hrely₅.db
  · intro s₂ now huuid hwriting
    apply wp_bind
    apply wp_makeEvent
    intro s₃ stamp hrely₃
    refine wp_enqueue (hwriting.rely hrely₃) (by rfl) ?_
    intro s₄ id hwriting₄
    apply wp_commit_of_writing hwriting₄
    · rintro x - rfl
      exact consistent_seed rfl ⟨rfl, rfl, rfl, rfl, rfl⟩
    · intro row hrow
      obtain rfl : row = OrderValues.row _ now := by simpa using hrow
      exact huuid
    · intro s₅ _ row hrow
      simp at hrow
    · rintro s₅ ⟨d, hgrows⟩ s₆ hrely₆ _
      refine exists_order_grows (exists_order_grows ?_ hgrows) hrely₆.db
      exact ⟨_, List.mem_append_right _ (List.mem_singleton.mpr rfl), rfl⟩

/-- Every transition of the step with these values is backed. -/
def BackedStep (X : Setting D) (orderId : String) (source target : State) (cause : String)
    (attempt : ℤ) (s : Shared D) : Prop :=
  ∀ id now, Backed X.cfg X.contract s.downstream
    ⟨id, orderId, source, target, cause, attempt, now⟩

theorem BackedStep.grows {source target : State} {cause : String} {attempt : ℤ}
    (h : BackedStep X orderId source target cause attempt s) (hgrows : Grows X s s') :
    BackedStep X orderId source target cause attempt s' :=
  fun id now ↦ (h id now).le hgrows.downstream

/-- Recording a step keeps a consistent slice in its source state consistent. -/
theorem consistent_record {source target : State} {operation : OperationRow}
    {transition : TransitionRow} {event : OutboxRow} {command : Option OutboxRow}
    (hlegal : Legal source target)
    (hrecords : Records orderId source target operation transition event command) {x : Slice}
    (h : Consistent orderId x) (hstate : ∃ order ∈ x.orders, order.state = source)
    (hids : ∀ earlier ∈ x.transitions, earlier.id < transition.id) (now : ℕ) :
    Consistent orderId
      ((stepWrites orderId target now operation transition event command).foldl Slice.apply x) := by
  obtain ⟨order, horder, rfl⟩ := hstate
  rcases h with rfl | ⟨row, hrow⟩
  · cases horder
  · rw [hrow.orders, List.mem_singleton] at horder
    subst horder
    exact Or.inr ⟨_, hrow.step hlegal hrecords hids now⟩

/-- The transaction of a step with all of its writes is fit to commit. -/
theorem wp_commit_record {source target : State} {operation : OperationRow}
    {transition : TransitionRow} {event : OutboxRow} {command : Option OutboxRow}
    {cause : String} {attempt : ℤ} {now : ℕ} {Q : Unit → Shared D → Prop}
    (hlegal : Legal source target)
    (hrecords : Records orderId source target operation transition event command)
    (hvalues : ∃ id now, transition = ⟨id, orderId, source, target, cause, attempt, now⟩)
    (hbacked : BackedStep X orderId source target cause attempt s)
    (hwriting : Writing thread orderId
      (stepWrites orderId target now operation transition event command)
      (fun x ↦ (∃ order ∈ x.orders, order.state = source) ∧
        ∀ earlier ∈ x.transitions, earlier.id < transition.id) s)
    (h : ∀ s₁, Left s₁.db.committed orderId source → Q () s₁) :
    Verifies X thread Q (perform .commit) s := by
  apply wp_commit_of_writing hwriting
  · rintro x hconsistent ⟨hstate, hids⟩
    exact consistent_record hlegal hrecords hconsistent hstate hids now
  · intro row hrow
    exfalso
    cases command <;> simp [stepWrites] at hrow
  · intro s₁ hrely row hrow
    obtain ⟨id, createdAt, rfl⟩ := hvalues
    obtain rfl : row = ⟨id, orderId, source, target, cause, attempt, createdAt⟩ := by
      cases command <;> simpa [stepWrites] using hrow
    exact hbacked.grows hrely.toGrows id createdAt
  · rintro s₁ ⟨d, hgrows⟩
    obtain ⟨id, createdAt, rfl⟩ := hvalues
    refine h s₁ ⟨⟨id, orderId, source, target, cause, attempt, createdAt⟩,
      hgrows.transitions _ ?_, rfl, rfl⟩
    cases command <;> simp [stepWrites, Db.apply]

/-- After a step is recorded, or was found recorded, the order has left its source. -/
theorem wp_recordStep {source target : State} {opId kind : String} {result : Detail}
    {cause race : String} {attempt : ℤ} (hopId : opId = opIdFor orderId source target)
    (hlegal : Legal source target)
    (hbacked : BackedStep X orderId source target cause attempt s) :
    Verifies X thread (fun _ s₁ ↦ Left s₁.db.committed orderId source)
      (recordStep orderId source target opId kind result cause race attempt) s := by
  apply wp_transaction
  intro s₁ hgrows₁ hbegun
  apply wp_bind
  apply wp_grows
  apply wp_claimOperation hbegun
  · -- The step is in the table of operations, so the order has taken it.
    rintro s₂ hbegun₂ ⟨other, hother, hsame⟩ _ s₃ hrely₃ hinv₃
    have hleft : Left s₃.db.committed orderId source :=
      hinv₃.tables.ledger.left_of_operation (hrely₃.db.operations other hother)
        (hsame.trans hopId)
    refine wp_known (permanent_left orderId source) hleft ?_
    apply wp_commit_of_begun (hbegun₂.rely hrely₃)
    exact fun s₄ hleft₄ s₅ hrely₅ _ ↦ hleft₄.grows hrely₅.db
  · intro s₂ hbegun₂ hgrows₂
    apply wp_bind
    apply wp_grows
    apply wp_updateState hbegun₂
    · exact fun s₃ _ s₄ _ _ ↦ trivial
    · intro s₃ now hwriting₃ hgrows₃
      apply wp_bind
      apply wp_grows
      refine wp_insertTransition hwriting₃ (by rfl) ?_
      intro s₄ id createdAt hwriting₄ hgrows₄
      apply wp_bind
      apply wp_grows
      apply wp_makeEvent
      intro s₅ stamp hrely₅ hgrows₅
      apply wp_bind
      apply wp_grows
      refine wp_enqueue (hwriting₄.rely hrely₅) (by rfl) ?_
      intro s₆ eventId hwriting₆ hgrows₆
      have hbacked₆ : BackedStep X orderId source target cause attempt s₆ :=
        hbacked.grows (hgrows₁.trans (hgrows₂.trans (hgrows₃.trans (hgrows₄.trans
          (hgrows₅.trans hgrows₆)))))
      let operation : OperationRow := ⟨opId, orderId, kind, result⟩
      let transition : TransitionRow := ⟨id, orderId, source, target, cause, attempt, createdAt⟩
      let event : OutboxRow :=
        ⟨eventId, .events, rkTransition, DinnerRush.makeEvent stamp .transition
        orderId { fromState := some source.value, toState := some target.value, cause := some cause,
                  attempt := some attempt }, false⟩
      have hreports : Reports orderId source target event := ⟨rfl, rfl, rfl, rfl, rfl, rfl⟩
      split
      · rename_i hterminal
        intro s₇ hrely₇ _
        have hrecords : Records orderId source target operation transition event none :=
          ⟨hopId, rfl, hreports, Or.inl ⟨rfl, hterminal⟩⟩
        refine wp_commit_record hlegal hrecords ⟨id, createdAt, rfl⟩ (hbacked₆.grows hrely₇.toGrows)
          (hwriting₆.rely hrely₇) ?_
        exact fun s₈ hleft s₉ hrely₉ _ ↦ hleft.grows hrely₉.db
      · rename_i hopen
        apply wp_bind
        apply wp_grows
        apply wp_makeEvent
        intro s₇ stamp₇ hrely₇ hgrows₇
        apply wp_bind
        apply wp_grows
        refine wp_enqueue (hwriting₆.rely hrely₇) (by rfl) ?_
        intro s₈ commandId hwriting₈ hgrows₈ s₉ hrely₉ _
        let command : OutboxRow := ⟨commandId, .work, rkAdvance,
          DinnerRush.makeEvent stamp₇ .advance orderId { fromState := some target.value }, false⟩
        have hrecords : Records orderId source target operation transition event (some command) :=
          ⟨hopId, rfl, hreports,
            Or.inr ⟨command, rfl, by simpa using hopen, ⟨rfl, rfl, rfl, rfl, rfl⟩⟩⟩
        refine wp_commit_record hlegal hrecords ⟨id, createdAt, rfl⟩
          (hbacked₆.grows ((hgrows₇.trans hgrows₈).trans hrely₉.toGrows)) (hwriting₈.rely hrely₉) ?_
        exact fun s₁₀ hleft s₁₁ hrely₁₁ _ ↦ hleft.grows hrely₁₁.db

/-! ### Putting a message back -/

/-- The handler holds the envelope of its message; a command names a state that was entered. -/
structure InHand (X : Setting D) (message : Delivery) (env : Envelope) (s : Shared D) : Prop where
  body : message.body = .envelope env
  delivered : Delivered message s
  named : X.strict → env.type = .advance → Named s.db.committed env

theorem InHand.grows {message : Delivery} {env : Envelope} (h : InHand X message env s)
    (hgrows : Grows X s s') : InHand X message env s' := by
  obtain ⟨publication, hlogged, hbody⟩ := h.delivered
  refine ⟨h.body, ⟨publication, Broker.logged_of_prefix hgrows.log hlogged, hbody⟩, ?_⟩
  exact fun hstrict htype ↦ (h.named hstrict htype).grows hgrows.db

theorem permanent_inHand (message : Delivery) (env : Envelope) :
    (discipline X).Permanent (InHand X message env) :=
  fun _ _ _ hrely h ↦ h.grows hrely.toGrows

/-- A delivered command names an entered state, since every logged one does. -/
theorem inHand_of_delivered {message : Delivery} {env : Envelope} (hinv : Sound X s)
    (hdelivered : Delivered message s) (hbody : message.body = .envelope env) :
    InHand X message env s := by
  refine ⟨hbody, hdelivered, fun hstrict htype ↦ ?_⟩
  obtain ⟨publication, hlogged, hsame⟩ := hdelivered
  exact (hinv.custody hstrict).named publication (List.mem_of_getElem? hlogged) env
    (hsame.trans hbody) htype

theorem Delivered.lt {message : Delivery} (h : Delivered message s) :
    message.number + 1 ≤ s.broker.log.length := by
  obtain ⟨publication, hlogged, -⟩ := h
  exact (List.getElem?_eq_some_iff.mp hlogged).1

theorem wp_current {env : Envelope} {Q : Envelope → Shared D → Prop}
    (h : ∀ s₁ attempt, Relies X thread s s₁ → Q { env with attempt := attempt } s₁) :
    Verifies X thread Q (current env) s := by
  apply wp_bind
  apply wp_silent (fun _ _ ↦ trivial) rfl
  intro s₁ choice attempt hrely _ _ s₂ hrely₂ _ s₃ hrely₃ _
  exact h s₃ attempt ((discipline X).rely_trans _ _ _ _ hrely
    ((discipline X).rely_trans _ _ _ _ hrely₂ hrely₃))

/-- Publishing the message in hand again, with whatever counter, settles it. -/
theorem wp_republish {message : Delivery} {env : Envelope} {exchange : Exchange}
    {routingKey : String} {attempt : ℤ} (hhand : InHand X message env s)
    (hexchange : exchange ≠ .events) (hroute : exchange = .dlx ∨ routingKey = rkAdvance) :
    Verifies X thread (fun _ s₁ ↦ Settled message s₁)
      (perform (.publish exchange routingKey (.envelope { env with attempt := attempt }))) s := by
  apply wp_publish
  · intro hstrict other hother htype
    obtain rfl := Body.envelope.inj hother
    exact hhand.named hstrict htype
  · exact fun _ hevents ↦ absurd hevents hexchange
  · intro s₁ _ hlogged
    have hroutable : Broker.Routable ⟨some thread, exchange, routingKey,
        .envelope { env with attempt := attempt }⟩ :=
      hroute.imp_right fun hkey ↦ ⟨hexchange, hkey⟩
    obtain ⟨i, hi, hat⟩ := hlogged hroutable
    have hbound := hhand.delivered.lt
    refine Logged.settled ⟨i, by omega, hat⟩ ?_
    rw [hhand.body]
    rfl

theorem wp_sendToDlq {message : Delivery} {env : Envelope} (hhand : InHand X message env s) :
    Verifies X thread (fun _ s₁ ↦ Settled message s₁) (sendToDlq env) s := by
  apply wp_bind
  apply wp_current
  intro s₁ attempt hrely
  exact wp_republish (hhand.grows hrely.toGrows) (by decide) (Or.inl rfl)

theorem wp_scheduleRetry {message : Delivery} {env : Envelope} (hhand : InHand X message env s) :
    Verifies X thread (fun _ s₁ ↦ Settled message s₁) (scheduleRetry env) s := by
  apply wp_bind
  refine wp_known (permanent_inHand message env) hhand ?_
  apply wp_bumpAttempt
  intro s₁ hhand₁
  apply wp_bind
  apply wp_current
  intro s₂ attempt hrely
  exact wp_republish (hhand₁.grows hrely.toGrows) (by decide) (Or.inr rfl)

/-- The ack at the end of a branch whose message is settled. -/
theorem wp_ack_last {message : Delivery} (hdelivered : Delivered message s)
    (hsettled : X.strict → Settled message s) :
    Verifies X thread (fun _ _ ↦ True) (perform (.ack message.number)) s :=
  wp_ack hdelivered hsettled fun _ ↦ trivial

theorem wp_retryOrDlq {message : Delivery} {env : Envelope} (hhand : InHand X message env s) :
    Verifies X thread (fun _ _ ↦ True) (retryOrDlq X.cfg env message) s := by
  have hback : ∀ (program : Proc Unit) (s₁ : Shared D), InHand X message env s₁ →
      Verifies X thread (fun _ s₂ ↦ Settled message s₂) program s₁ →
      Verifies X thread (fun _ _ ↦ True)
        (program.bind fun _ ↦ perform (.ack message.number)) s₁ := by
    intro program s₁ hhand₁ hprogram
    apply wp_bind
    refine wp_known (permanent_inHand message env) hhand₁
      (wp_mono ?_ (fun _ _ _ ↦ trivial) hprogram)
    exact fun _ s₂ hsettled hhand₂ ↦ wp_ack_last hhand₂.delivered fun _ ↦ hsettled
  apply wp_bind
  refine wp_known (permanent_inHand message env) hhand ?_
  apply wp_silent (fun _ _ ↦ trivial) rfl
  intro s₁ choice attempt hrely _ _ s₂ hrely₂ _ hhand₂
  split
  · exact hback _ s₂ hhand₂ (wp_sendToDlq hhand₂)
  · exact hback _ s₂ hhand₂ (wp_scheduleRetry hhand₂)

/-! ### One step of an order -/

variable {message : Delivery} {env : Envelope} {row : OrderRow} {target : State}

/-- The order of the message in hand was read in the state that the message names. -/
structure Standing (X : Setting D) (message : Delivery) (env : Envelope) (row : OrderRow)
    (s : Shared D) : Prop where
  hand : InHand X message env s
  known : Known row row.state s
  orderId : row.orderId = env.orderId
  fromState : env.data.fromState = some row.state.value

theorem permanent_standing : (discipline X).Permanent (Standing X message env row) :=
  fun _ _ _ hrely h ↦
    ⟨h.hand.grows hrely.toGrows, h.known.grows hrely.toGrows, h.orderId, h.fromState⟩

/-- Once the order has left its state, the message is settled. -/
theorem Standing.settled (h : Standing X message env row s)
    (hleft : Left s.db.committed row.orderId row.state) : Settled message s := by
  intro task htask
  rw [h.hand.body] at htask
  refine Or.inl ?_
  cases task with
  | insert orderId =>
    obtain ⟨-, rfl⟩ := dutyOf_insert htask
    obtain ⟨row', hrow', hcore⟩ := h.known.order
    exact ⟨row', hrow', (orderId_of_core hcore).trans h.orderId⟩
  | advance orderId source =>
    obtain ⟨-, rfl, hfrom⟩ := dutyOf_advance htask
    rw [h.fromState] at hfrom
    rw [← State.value_injective (Option.some.inj hfrom), ← h.orderId]
    exact hleft

/-- A message about a state that the order is not in is settled. -/
theorem settled_of_stale {fromState : State} (hinv : Sound X s) (hstrict : X.strict)
    (hhand : InHand X message env s) (hrow : row ∈ s.db.committed.orders)
    (horder : row.orderId = env.orderId) (hfrom : env.data.fromState = some fromState.value)
    (hstale : row.state ≠ fromState ∨ isTerminal row.state = true) : Settled message s := by
  intro task htask
  rw [hhand.body] at htask
  refine Or.inl ?_
  cases task with
  | insert orderId =>
    obtain ⟨-, rfl⟩ := dutyOf_insert htask
    exact ⟨row, hrow, horder⟩
  | advance orderId source =>
    obtain ⟨htype, rfl, hsource⟩ := dutyOf_advance htask
    obtain ⟨named, hnamed, hopen, hentered⟩ := hhand.named hstrict htype
    rw [hfrom] at hnamed hsource
    obtain rfl := State.value_injective (Option.some.inj hnamed)
    obtain rfl := State.value_injective (Option.some.inj hsource)
    rw [← horder] at hentered ⊢
    rcases hinv.tables.ledger.eq_or_left hrow hentered with hstate | hleft
    · rcases hstale with hne | hterminal
      · exact absurd hstate hne
      · rw [hstate, hopen] at hterminal
        cases hterminal
    · exact hleft

/-- Acking a message whose order has left its state. -/
theorem wp_ack_left (hstanding : Standing X message env row s)
    (hleft : Left s.db.committed row.orderId row.state) :
    Verifies X thread (fun _ _ ↦ True) (perform (.ack message.number)) s :=
  wp_ack_last hstanding.hand.delivered fun _ ↦ hstanding.settled hleft

theorem wp_readAttempt {Q : ℤ → Shared D → Prop}
    (h : ∀ s₁ attempt, Relies X thread s s₁ → Q attempt s₁) :
    Verifies X thread Q (perform .attempt) s := by
  apply wp_silent (fun _ _ ↦ trivial) rfl
  intro s₁ choice attempt hrely _ _ s₂ hrely₂ _
  exact h s₂ attempt ((discipline X).rely_trans _ _ _ _ hrely hrely₂)

/-- Recording a step from the state that the message names, and what follows. -/
theorem wp_record_then {opId kind : String} {result : Detail} {cause race : String}
    {attempt : ℤ} (hstanding : Standing X message env row s)
    (hopId : opId = opIdFor row.orderId row.state target) (hlegal : Legal row.state target)
    (hbacked : BackedStep X row.orderId row.state target cause attempt s) {last : Bool → Proc β}
    {Q : β → Shared D → Prop} (hlast : ∀ applied s₁, Standing X message env row s₁ →
      Left s₁.db.committed row.orderId row.state → Verifies X thread Q (last applied) s₁) :
    Verifies X thread Q
      ((recordStep row.orderId row.state target opId kind result cause race attempt).bind last)
      s := by
  apply wp_bind
  refine wp_known permanent_standing hstanding ?_
  refine wp_mono ?_ (fun _ _ _ ↦ trivial) (wp_recordStep hopId hlegal hbacked)
  exact fun applied s₁ hleft hstanding₁ ↦ hlast applied s₁ hstanding₁ hleft

theorem wp_cancel {attempt : ℤ} (hstanding : Standing X message env row s)
    (hrate : 0 < X.cfg.cancelRate) (hlegal : Legal row.state .cancelled) :
    Verifies X thread (fun _ _ ↦ True)
      ((cancel row.orderId row.state attempt).bind fun _ ↦ perform (.ack message.number)) s := by
  refine wp_record_then hstanding rfl hlegal ?_ fun _ _ h hleft ↦ wp_ack_left h hleft
  intro id now
  exact ⟨fun _ hnext ↦ absurd rfl (nextHappyState_ne hnext).1, (fun _ _ hfailed ↦ by cases hfailed),
    fun _ ↦ hrate⟩

theorem wp_failOrder {service : Service} {reason : String} {attempt : ℤ}
    (hstanding : Standing X message env row s) (hhappy : nextHappyState row.state = some target)
    (hstage : stageDownstream target = some service)
    (hrefused : StepRefused X service row row.state target s) {last : Bool → Proc β}
    {Q : β → Shared D → Prop} (hlast : ∀ applied s₁, Standing X message env row s₁ →
      Left s₁.db.committed row.orderId row.state → Verifies X thread Q (last applied) s₁) :
    Verifies X thread Q
      ((failOrder row.orderId row.state reason attempt).bind last) s := by
  have hopen := not_isTerminal_of_canTransition (canTransition_nextHappyState hhappy)
  refine wp_record_then hstanding rfl (canTransition_failed hopen) ?_ hlast
  intro id now
  refine ⟨fun _ hnext ↦ absurd rfl (nextHappyState_ne hnext).2, ?_, fun hcancelled ↦ by
    cases hcancelled⟩
  intro next other _ hnext hother
  obtain rfl := Option.some.inj (hhappy.symm.trans hnext)
  obtain rfl := Option.some.inj (hstage.symm.trans hother)
  exact hrefused

/-- A downstream call that gives a detail was performed; otherwise the message is dealt with. -/
theorem wp_callDownstream {service : Service} (hstanding : Standing X message env row s)
    (hhappy : nextHappyState row.state = some target)
    (hstage : stageDownstream target = some service) :
    Verifies X thread
      (fun detail s₁ ↦ detail ≠ none → StepDone X service row row.state target s₁)
      (callDownstream X.cfg service row.orderId
        (opIdFor row.orderId row.state target) target row env
        message) s := by
  have hretry : ∀ s₁, Standing X message env row s₁ →
      Verifies X thread (fun (detail : Option Detail) s₂ ↦ detail ≠ none →
        StepDone X service row row.state target s₂)
        ((retryOrDlq X.cfg env message).bind fun _ ↦ .ret none) s₁ := by
    intro s₁ hstanding₁
    apply wp_bind
    refine wp_mono ?_ (fun _ _ _ ↦ trivial) (wp_retryOrDlq hstanding₁.hand)
    exact fun _ s₂ _ s₃ _ _ hnone ↦ absurd rfl hnone
  apply wp_bind
  refine wp_known permanent_standing hstanding ?_
  apply wp_attempt
  refine wp_mono ?_ ?_ (wp_postJson hhappy hstage hstanding.known)
  · exact fun result s₁ hdone _ s₂ hrely₂ _ _ ↦ permanent_stepDone thread s₁ s₂ hrely₂ hdone
  · intro error s₁ hrejected hstanding₁
    cases error with
    | error text => exact fun _ _ _ ↦ trivial
    | breakerOpen text => exact hretry s₁ hstanding₁
    | transientExhausted text => exact hretry s₁ hstanding₁
    | permanentError statusCode =>
      apply wp_bind
      refine wp_known (permanent_standing.and permanent_stepRefused)
        ⟨hstanding₁, hrejected statusCode rfl⟩ ?_
      apply wp_readAttempt
      rintro s₂ attempt _ ⟨hstanding₂, hrefused₂⟩
      apply wp_failOrder hstanding₂ hhappy hstage hrefused₂
      intro applied s₃ hstanding₃ hleft
      apply wp_bind
      refine wp_mono ?_ (fun _ _ _ ↦ trivial) (wp_ack_left hstanding₃ hleft)
      exact fun _ s₄ _ s₅ _ _ hnone ↦ absurd rfl hnone

theorem wp_decideCancel {state : State} :
    Verifies X thread (fun cancels _ ↦ cancels = true → 0 < X.cfg.cancelRate ∧
      Legal state .cancelled) (decideCancel X.cfg state) s := by
  unfold decideCancel
  split
  · rename_i hearly
    apply wp_bind
    apply wp_silent (fun _ _ ↦ trivial) rfl
    intro s₁ choice draw _ _ _ s₂ _ _ s₃ _ _ _
    refine ⟨hearly.1, ?_⟩
    have hstate := hearly.2
    revert hstate
    unfold Legal
    cases state <;> decide
  · intro s₁ _ _ hcancels
    cases hcancels

/-- The first-line skip is taken only when the operation is in the table. -/
theorem wp_alreadyDone {opId : String} :
    Verifies X thread (fun skip s₁ ↦ skip = true →
      ∃ operation ∈ s₁.db.committed.operations, operation.opId = opId)
      (alreadyDone X.cfg opId) s := by
  have hnot : ∀ s₁, Verifies X thread (fun skip s₂ ↦ skip = true →
      ∃ operation ∈ s₂.db.committed.operations, operation.opId = opId) (.ret false) s₁ := by
    intro s₁ s₂ _ _ hskip
    cases hskip
  unfold alreadyDone
  split
  · apply wp_bind
    apply wp_tryCatch
    apply wp_silent (fun _ _ ↦ fun s₁ _ _ ↦ hnot s₁) rfl
    intro s₁ choice done _ _ _ s₂ _ _
    cases done with
    | false => exact hnot s₂
    | true =>
      apply wp_silent (fun _ _ ↦ trivial) rfl
      intro s₃ choice₃ found _ _ hexec s₄ hrely₄ _ hskip
      cases choice₃ with
      | done =>
        have hsome := Except.ok.inj (Prod.mk.inj (Option.some.inj hexec)).1
        rw [hskip] at hsome
        obtain ⟨operation, hfind⟩ := Option.isSome_iff_exists.mp hsome
        obtain ⟨hmem, hopId⟩ := Table.find_some hfind
        exact ⟨operation, hrely₄.db.operations operation hmem, hopId⟩
      | _ => cases hexec
  · exact hnot s

theorem wp_markDone {key : String} {Q : Unit → Shared D → Prop} (h : ∀ s₁, Q () s₁) :
    Verifies X thread Q (markDone key) s := by
  apply wp_tryCatch
  apply wp_silent (fun _ _ ↦ fun s₁ _ _ ↦ h s₁) rfl
  exact fun s₁ choice value _ _ _ s₂ _ _ ↦ h s₂

/-- The call of a step, or the think-time of an internal stage. -/
theorem wp_stage (hstanding : Standing X message env row s)
    (hhappy : nextHappyState row.state = some target) :
    Verifies X thread (fun (detail : Option Detail) s₁ ↦ detail ≠ none →
      ∀ service, stageDownstream target = some service →
        StepDone X service row row.state target s₁)
      (match stageDownstream target with
        | some service => callDownstream X.cfg service row.orderId
            (opIdFor row.orderId row.state target) target row env message
        | none => do
          perform .sleep
          return some {}) s := by
  cases hstage : stageDownstream target with
  | some service =>
    refine wp_mono ?_ (fun _ _ _ ↦ trivial) (wp_callDownstream hstanding hhappy hstage)
    intro detail s₁ hdone hsome other hother
    rw [← Option.some.inj hother]
    exact hdone hsome
  | none =>
    apply wp_bind
    apply wp_silent (fun _ _ ↦ trivial) rfl
    intro s₁ choice value _ _ _ s₂ _ _ s₃ _ _ _ service hservice
    cases hservice

/-- Nothing but a recorded step lets the message go. -/
theorem wp_takeStep (hstanding : Standing X message env row s)
    (hhappy : nextHappyState row.state = some target) :
    Verifies X thread (fun _ _ ↦ True)
      (takeStep X.cfg env message row target (opIdFor row.orderId row.state target)) s := by
  unfold takeStep
  rw [← hstanding.orderId]
  apply wp_bind
  refine wp_known permanent_standing hstanding
    (wp_mono ?_ (fun _ _ _ ↦ trivial) (wp_stage hstanding hhappy))
  intro detail s₁ hdone hstanding₁
  cases detail with
  | none => exact fun _ _ _ ↦ trivial
  | some detail =>
    have hperm : (discipline X).Permanent fun s ↦ ∀ service,
        stageDownstream target = some service → StepDone X service row row.state target s :=
      fun thread s s' hrely h service hstage ↦
        permanent_stepDone thread s s' hrely (h service hstage)
    apply wp_bind
    refine wp_known (permanent_standing.and hperm) ⟨hstanding₁, hdone (by simp)⟩ ?_
    apply wp_readAttempt
    rintro s₂ attempt _ ⟨hstanding₂, hdone₂⟩
    refine wp_record_then hstanding₂ rfl (canTransition_nextHappyState hhappy) ?_ ?_
    · intro id now
      obtain ⟨hcancelled, hfailed⟩ := nextHappyState_ne hhappy
      exact ⟨fun service _ hstage ↦ hdone₂ service hstage,
        fun _ _ h ↦ absurd h hfailed, fun h ↦ absurd h hcancelled⟩
    · intro applied s₃ hstanding₃ hleft₃
      show Verifies X thread _ (if _ then _ else _) s₃
      split
      · apply wp_bind
        refine wp_known (permanent_standing.and (permanent_left row.orderId row.state))
          ⟨hstanding₃, hleft₃⟩ ?_
        apply wp_markDone
        exact fun s₄ h ↦ wp_ack_left h.1 h.2
      · exact wp_ack_left hstanding₃ hleft₃

/-- The fast path acks a message whose step is recorded. -/
theorem wp_advanceStep (hstanding : Standing X message env row s)
    (hhappy : nextHappyState row.state = some target) :
    Verifies X thread (fun _ _ ↦ True) (advanceStep X.cfg env message row target) s := by
  unfold advanceStep
  rw [← hstanding.orderId]
  apply wp_bind
  refine wp_known permanent_standing hstanding ?_
  refine wp_mono ?_ (fun _ _ _ ↦ trivial) wp_alreadyDone
  intro skip s₁ hskip hstanding₁
  cases skip with
  | true =>
    apply wp_of_always
    intro s₂ hrely₂ hinv₂
    obtain ⟨operation, hmem, hopId⟩ := hskip rfl
    have hleft : Left s₂.db.committed row.orderId row.state :=
      hinv₂.tables.ledger.left_of_operation (hrely₂.db.operations operation hmem) hopId
    exact wp_ack_left (permanent_standing thread s₁ s₂ hrely₂ hstanding₁) hleft
  | false => exact wp_takeStep hstanding₁ hhappy

/-- A command names a state or is at fault. -/
theorem fromStateOf_cases (env : Envelope) : (∃ error, fromStateOf env = .raise error) ∨
    ∃ state, fromStateOf env = .ret state ∧ env.data.fromState = some state.value := by
  unfold fromStateOf
  split
  · exact Or.inl ⟨_, rfl⟩
  · rename_i text hfrom
    split
    · exact Or.inl ⟨_, rfl⟩
    · rename_i state hstate
      exact Or.inr ⟨state, rfl, by rw [hfrom, value_of_ofValue hstate]⟩

theorem wp_fromStateOf : Verifies X thread
    (fun fromState _ ↦ env.data.fromState = some fromState.value) (fromStateOf env) s := by
  rcases fromStateOf_cases env with ⟨error, hraise⟩ | ⟨state, hret, hfrom⟩
  · rw [hraise]
    exact fun _ _ _ ↦ trivial
  · rw [hret]
    exact fun _ _ _ ↦ hfrom

/-- An open order has a next state, which is entered. -/
theorem wp_onward (hstanding : Standing X message env row s)
    (hopen : isTerminal row.state = false) :
    Verifies X thread (fun _ _ ↦ True) (match nextHappyState row.state with
      | none => perform (.ack message.number)
      | some target => advanceStep X.cfg env message row target) s := by
  obtain ⟨target, hhappy⟩ := Option.isSome_iff_exists.mp (nextHappyState_isSome hopen)
  rw [hhappy]
  exact wp_advanceStep hstanding hhappy

/-- Every branch of `_advance` settles the message before it acks it. -/
theorem wp_advance (hhand : InHand X message env s) :
    Verifies X thread (fun _ _ ↦ True) (advance X.cfg env message) s := by
  apply wp_bind
  refine wp_known (permanent_inHand message env) hhand ?_
  refine wp_mono ?_ (fun _ _ _ ↦ trivial) wp_fromStateOf
  intro fromState s₁ hfrom hhand₁
  apply wp_bind
  refine wp_known (permanent_inHand message env) hhand₁ ?_
  apply wp_silent (fun _ _ ↦ trivial) rfl
  intro s₂ choice found hrely₂ hinv₂ hexec s₃ hrely₃ _ hhand₃
  cases found with
  | none => exact wp_retryOrDlq hhand₃
  | some row =>
    have hread : row ∈ s₂.db.committed.orders ∧ row.orderId = env.orderId := by
      cases choice with
      | done =>
        exact Table.find_some (Except.ok.inj (Prod.mk.inj (Option.some.inj hexec)).1)
      | _ => cases hexec
    obtain ⟨hrow, horder⟩ := hread
    have hhand₂ : InHand X message env s₂ := hhand₁.grows hrely₂.toGrows
    show Verifies X thread _ (if _ then _ else _) s₃
    by_cases hstale : row.state ≠ fromState ∨ isTerminal row.state = true
    · rw [if_pos hstale]
      refine wp_ack_last hhand₃.delivered fun hstrict ↦ ?_
      have hsettled := settled_of_stale hinv₂ hstrict hhand₂ hrow horder hfrom hstale
      exact permanent_settled message thread s₂ s₃ hrely₃ hsettled
    · rw [if_neg hstale]
      simp only [not_or, not_not, Bool.not_eq_true] at hstale
      obtain ⟨rfl, hopen⟩ := hstale
      have hknown₂ : Known row row.state s₂ :=
        ⟨⟨row, hrow, rfl⟩, hinv₂.tables.ledger.entered hrow⟩
      have hstanding₃ : Standing X message env row s₃ :=
        ⟨hhand₃, hknown₂.grows hrely₃.toGrows, horder, hfrom⟩
      apply wp_bind
      refine wp_known permanent_standing hstanding₃ ?_
      refine wp_mono ?_ (fun _ _ _ ↦ trivial) wp_decideCancel
      intro cancels s₄ hcancels hstanding₄
      cases cancels with
      | true =>
        obtain ⟨hrate, hlegal⟩ := hcancels rfl
        apply wp_bind
        refine wp_known permanent_standing hstanding₄ ?_
        apply wp_readAttempt
        intro s₅ attempt _ hstanding₅
        rw [← horder]
        exact wp_cancel hstanding₅ hrate hlegal
      | false => exact wp_onward hstanding₄ hopen

/-- The last resort: what fails is given up, unless the message stays with the channel. -/
theorem wp_lastResort {number : ℕ} {program : Proc Unit}
    (h : Verifies X thread (fun _ _ ↦ True) program s) :
    Verifies X thread (fun _ _ ↦ True) (program.tryCatch fun _ ↦
      (perform (.nack number false)).tryCatch fun _ ↦ .ret ()) s := by
  have hnack : ∀ s₁, Verifies X thread (fun _ _ ↦ True)
      ((perform (.nack number false)).tryCatch fun _ ↦ .ret ()) s₁ := by
    intro s₁
    apply wp_tryCatch
    refine wp_mono (fun _ _ _ ↦ trivial) ?_ (wp_nack (Q := fun _ _ ↦ True) fun _ ↦ trivial)
    exact fun _ s₁ _ _ _ _ ↦ trivial
  apply wp_tryCatch
  exact wp_mono (fun _ _ _ ↦ trivial) (fun _ s₁ _ ↦ hnack s₁) h

/-- Parking a body that cannot be parsed. -/
theorem wp_parkPoison {bytes : String} (hdelivered : Delivered message s)
    (hbody : message.body = .poison bytes) : Verifies X thread (fun _ _ ↦ True)
      ((sendRawToDlq message.body).bind fun _ ↦ perform (.ack message.number)) s := by
  apply wp_bind
  refine wp_known (permanent_delivered message) hdelivered ?_
  apply wp_publish
  · intro _ env henv
    rw [hbody] at henv
    cases henv
  · intro _ hevents
    cases hevents
  · refine fun s₁ _ _ hdelivered₁ ↦ wp_ack_last hdelivered₁ fun _ task htask ↦ ?_
    rw [hbody] at htask
    cases htask

theorem wp_onAdvance (hdelivered : Delivered message s)
    (hhand : ∀ env, message.body = .envelope env → InHand X message env s) :
    Verifies X thread (fun _ _ ↦ True) (onAdvance X.cfg message) s := by
  unfold onAdvance
  cases hbody : message.body with
  | poison bytes =>
    exact wp_lastResort (wp_parkPoison hdelivered hbody)
  | envelope env =>
    have hhand' := hhand env hbody
    apply wp_tryCatch
    refine wp_mono (fun _ _ _ ↦ trivial) ?_
      (wp_frame (permanent_inHand message env) hhand' (wp_advance hhand'))
    rintro error s₁ ⟨-, hhand₁⟩
    exact wp_lastResort (wp_retryOrDlq hhand₁)

/-! ### The placed events and the replay -/

/-- A placed event is settled once its order is there. -/
theorem settled_of_inserted (hhand : InHand X message env s) (htype : env.type ≠ .advance)
    (horder : ∃ row ∈ s.db.committed.orders, row.orderId = env.orderId) : Settled message s := by
  intro task htask
  rw [hhand.body] at htask
  cases task with
  | insert orderId =>
    obtain ⟨-, rfl⟩ := dutyOf_insert htask
    exact Or.inl horder
  | advance orderId source => exact absurd (dutyOf_advance htask).1 htype

theorem wp_onPlaced (hdelivered : Delivered message s)
    (hhand : ∀ env, message.body = .envelope env → InHand X message env s)
    (hplaced : X.strict → message.body.type ≠ some .advance) :
    Verifies X thread (fun _ _ ↦ True) (onPlaced message) s := by
  unfold onPlaced
  cases hbody : message.body with
  | poison bytes =>
    have hpark : Verifies X thread (fun _ _ ↦ True)
        ((sendRawToDlq message.body).bind fun _ ↦ perform (.ack message.number)) s :=
      wp_parkPoison hdelivered hbody
    rw [hbody] at hpark
    exact hpark
  | envelope env =>
    have hhand' := hhand env hbody
    have htype : X.strict → env.type ≠ .advance := by
      intro hstrict hadvance
      refine hplaced hstrict ?_
      rw [hbody]
      exact congrArg some hadvance
    have hinsert : Verifies X thread (fun _ _ ↦ True)
        ((insertPlaced env).bind fun _ ↦ perform (.ack message.number)) s := by
      apply wp_bind
      refine wp_known (permanent_inHand message env) hhand' ?_
      refine wp_mono ?_ (fun _ _ _ ↦ trivial) wp_insertPlaced
      exact fun _ s₁ horder hhand₁ ↦ wp_ack_last hhand₁.delivered fun hstrict ↦
        settled_of_inserted hhand₁ (htype hstrict) horder
    apply wp_tryCatch
    refine wp_mono (fun _ _ _ ↦ trivial) ?_ (wp_frame (permanent_inHand message env) hhand' hinsert)
    rintro error s₁ ⟨-, hhand₁⟩
    split
    · apply wp_bind
      refine wp_known (permanent_inHand message env) hhand₁ ?_
      refine wp_mono ?_ (fun _ _ _ ↦ trivial) (wp_sendToDlq hhand₁)
      exact fun _ s₂ hsettled hhand₂ ↦ wp_ack_last hhand₂.delivered fun _ ↦ hsettled
    · exact wp_nack fun _ ↦ trivial

/-- A replayed message is acked after it was published again, and a poison body has no duty. -/
theorem wp_replayDlq {limit : ℕ} :
    Verifies X thread (fun _ _ ↦ True) (replayDlq limit) s := by
  induction limit generalizing s with
  | zero => exact fun _ _ _ ↦ trivial
  | succ limit ih =>
    apply wp_bind
    apply wp_getDlq
    · exact fun s₁ s₂ _ _ ↦ trivial
    · intro s₁ message hdelivered
      dsimp only
      cases hbody : message.body with
      | poison bytes =>
        apply wp_bind
        apply wp_ack hdelivered
        · intro _ task htask
          rw [hbody] at htask
          cases htask
        · exact fun s₂ ↦ ih
      | envelope env =>
        apply wp_of_always
        intro s₂ hrely₂ hinv₂
        have hdelivered₂ := permanent_delivered message thread s₁ s₂ hrely₂ hdelivered
        have hhand := inHand_of_delivered hinv₂ hdelivered₂ hbody
        apply wp_bind
        refine wp_known (permanent_inHand message env) hhand ?_
        refine wp_mono ?_ (fun _ _ _ ↦ trivial)
          (wp_republish hhand (by decide) (Or.inr rfl))
        intro _ s₃ hsettled hhand₃
        apply wp_bind
        apply wp_ack hhand₃.delivered fun _ ↦ hsettled
        intro s₄
        apply wp_bind
        exact wp_mono (fun _ _ _ ↦ fun _ _ _ ↦ trivial) (fun _ _ _ ↦ trivial) ih

end DinnerRush.Orchestrator
