import DinnerRush.Orchestrator.System

/-!
# What a step does

What the effects of the handlers, a launch, and what happens beside the handlers may change. Every
effect is about one part of the shared state (`part_of_exec`): the tables, the broker, the counter
of an envelope, or the downstreams. A launch delivers at most a message (`part_of_launch`). A
statement on the tables takes effect as when it is answered, or not at all (`statement_cases`), and
each has a lemma about what it does then.
-/

set_option autoImplicit false
set_option relaxedAutoImplicit false

namespace DinnerRush.Orchestrator

open Concurrency

variable {D : Downstreams} {thread : ℕ} {s s' : Shared D}

/-! ### Effects that leave the shared state alone -/

/-- The effects that change nothing: reads, Redis, the breaker, and the clock. -/
def Effect.silent : Effect → Bool
  | selectOrder _ => true
  | operationExists _ => true
  | attempt => true
  | redisGet _ => true
  | redisSet _ => true
  | allow _ => true
  | recordOutcome _ _ => true
  | await _ _ => true
  | newStamp => true
  | random => true
  | sleep => true
  | _ => false

/-- The reply of an effect that changed nothing: an error is one with a text. -/
def Silent {α : Type} (s s' : Shared D) (reply : Except Failure α) : Prop :=
  s' = s ∧ ∀ error, reply = .error error → ∃ text, error = .error text

theorem silent_ok {α : Type} {value : α} {reply : Except Failure α}
    (h : some (Except.ok value, s) = some (reply, s')) : Silent s s' reply := by
  obtain ⟨rfl, rfl⟩ := Prod.mk.inj (Option.some.inj h)
  exact ⟨rfl, fun _ herror ↦ by cases herror⟩

theorem silent_error {α : Type} {text : String} {reply : Except Failure α}
    (h : some (Except.error (.error text), s) = some (reply, s')) : Silent s s' reply := by
  obtain ⟨rfl, rfl⟩ := Prod.mk.inj (Option.some.inj h)
  exact ⟨rfl, fun _ herror ↦ ⟨text, (Except.error.inj herror).symm⟩⟩

theorem exec_silent {effect : Effect} (hsilent : effect.silent = true) {choice : Choice}
    {reply : Except Failure effect.Result} (h : exec thread effect choice s = some (reply, s')) :
    Silent s s' reply := by
  cases effect with
  | random =>
    cases choice with
    | draw value =>
      simp only [exec] at h
      split at h
      · exact silent_ok h
      · cases h
    | _ => cases h
  | await service request =>
    cases choice with
    | response response =>
      simp only [exec] at h
      split at h
      · exact silent_ok h
      · cases h
    | transport text => exact silent_ok h
    | lost text => exact silent_error h
    | _ => cases h
  | selectOrder | operationExists | attempt | redisGet | redisSet | allow | recordOutcome
  | newStamp | sleep =>
    cases choice <;> first
      | exact silent_ok h
      | exact silent_error h
      | cases h
  | _ => cases hsilent

/-! ### Effects on the tables -/

/-- The effects on the tables. -/
def Effect.isStatement : Effect → Bool
  | begin => true
  | commit => true
  | rollback => true
  | insertOrder _ => true
  | claimOperation _ => true
  | updateState _ _ _ => true
  | insertTransition _ => true
  | enqueue _ _ _ => true
  | selectUnpublished _ => true
  | stamp _ => true
  | _ => false

/-- The store after a statement that locks a key and adds a write. -/
def wrote (thread : ℕ) (key : Key) (write : Write) (db : Store) : Store :=
  (db.lock thread key).write thread write

theorem insertOrder_cases {values : OrderValues} {inserted : Bool}
    (h : s.insertOrder thread values = some (inserted, s')) :
    s.inTransaction thread ∧ isUuid values.orderId ∧
      ((inserted = false ∧ s' = s ∧
          ∃ row ∈ (s.view thread).orders, row.orderId = values.orderId) ∨
        (inserted = true ∧ s.db.free thread (.order values.orderId) ∧
          (∀ row ∈ (s.view thread).orders, row.orderId ≠ values.orderId) ∧
          s' = { s with
            db := wrote thread (.order values.orderId)
              (.insertOrder (values.row (s.began thread))) s.db })) := by
  unfold Shared.insertOrder at h
  split at h
  · cases h
  · rename_i hopen
    rw [Bool.not_eq_true', Bool.not_eq_false, Bool.and_eq_true, Bool.and_eq_true] at hopen
    refine ⟨hopen.1.1, hopen.2, ?_⟩
    split at h
    · rename_i row hrow
      obtain ⟨rfl, rfl⟩ := Prod.mk.inj (Option.some.inj h)
      exact Or.inl ⟨rfl, rfl, row, Table.find_some hrow⟩
    · rename_i hnone
      split at h
      · rename_i hfree
        obtain ⟨rfl, rfl⟩ := Prod.mk.inj (Option.some.inj h)
        exact Or.inr ⟨rfl, hfree, Table.find_none.mp hnone, rfl⟩
      · cases h

/-- The operation is in the table, or is claimed under its lock. -/
theorem claimOperation_cases {row : OperationRow} {claimed : Bool}
    (h : s.claimOperation thread row = some (claimed, s')) :
    s.inTransaction thread ∧
      ((claimed = false ∧ s' = s ∧
          ∃ other ∈ (s.view thread).operations, other.opId = row.opId) ∨
        (claimed = true ∧ s.db.free thread (.operation row.opId) ∧
          s' = { s with db := wrote thread (.operation row.opId) (.claim row) s.db })) := by
  unfold Shared.claimOperation at h
  split at h
  · cases h
  · rename_i hin
    rw [Bool.not_eq_true', Bool.not_eq_false] at hin
    refine ⟨hin, ?_⟩
    split at h
    · rename_i other hother
      obtain ⟨rfl, rfl⟩ := Prod.mk.inj (Option.some.inj h)
      exact Or.inl ⟨rfl, rfl, other, Table.find_some hother⟩
    · split at h
      · rename_i hfree
        obtain ⟨rfl, rfl⟩ := Prod.mk.inj (Option.some.inj h)
        exact Or.inr ⟨rfl, hfree, rfl⟩
      · cases h

/-- No row qualifies, or the order is moved under its lock. -/
theorem updateState_cases {orderId : String} {target source : State} {updated : ℕ}
    (h : s.updateState thread orderId target source = some (updated, s')) :
    s.inTransaction thread ∧
      ((updated = 0 ∧ s' = s) ∨
        (updated = 1 ∧ s.db.free thread (.order orderId) ∧
          (∃ order ∈ (s.view thread).orders, order.orderId = orderId ∧ order.state = source) ∧
          s' = { s with
            db := wrote thread (.order orderId)
              (.setState orderId target (s.began thread)) s.db })) := by
  unfold Shared.updateState at h
  split at h
  · cases h
  · rename_i hin
    rw [Bool.not_eq_true', Bool.not_eq_false] at hin
    refine ⟨hin, ?_⟩
    simp only at h
    split at h
    · rename_i hany
      obtain ⟨order, hmem, hqualifies⟩ := List.any_eq_true.mp hany
      split at h
      · rename_i hfree
        obtain ⟨rfl, rfl⟩ := Prod.mk.inj (Option.some.inj h)
        exact Or.inr ⟨rfl, hfree, ⟨order, hmem, of_decide_eq_true hqualifies⟩, rfl⟩
      · cases h
    · obtain ⟨rfl, rfl⟩ := Prod.mk.inj (Option.some.inj h)
      exact Or.inl ⟨rfl, rfl⟩

theorem insertTransition_cases {values : TransitionValues}
    (h : s.insertTransition thread values = some s') :
    s.inTransaction thread ∧ s' = { s with
      db := s.db.write thread (.insertTransition (values.row s.transitionSeq (s.began thread)))
      transitionSeq := s.transitionSeq + 1 } := by
  unfold Shared.insertTransition at h
  split at h
  · rename_i hin
    exact ⟨hin, (Option.some.inj h).symm⟩
  · cases h

theorem enqueue_cases {exchange : Exchange} {routingKey : String} {env : Envelope}
    (h : s.enqueue thread exchange routingKey env = some s') :
    s.inTransaction thread ∧ s' = { s with
      db := wrote thread (.outbox s.outboxSeq)
        (.enqueue ⟨s.outboxSeq, exchange, routingKey, env, false⟩) s.db
      outboxSeq := s.outboxSeq + 1 } := by
  unfold Shared.enqueue at h
  split at h
  · rename_i hin
    exact ⟨hin, (Option.some.inj h).symm⟩
  · cases h

/-- An effect that fails before it takes effect changes nothing. -/
theorem exec_lost {effect : Effect} {text : String} {reply : Except Failure effect.Result}
    (h : exec thread effect (.lost text) s = some (reply, s')) : s' = s := by
  cases effect <;> first
    | exact (Prod.mk.inj (Option.some.inj h)).2.symm
    | cases h

/-- A statement that is not answered has had no effect, or the one it has when it is answered. -/
theorem statement_cases {effect : Effect} (heffect : effect.isStatement = true) {choice : Choice}
    {reply : Except Failure effect.Result} (h : exec thread effect choice s = some (reply, s')) :
    s' = s ∨ ∃ answer, exec thread effect .done s = some (answer, s') := by
  cases choice with
  | done => exact Or.inr ⟨reply, h⟩
  | lost text => exact Or.inl (exec_lost h)
  | unconfirmed text =>
    cases effect with
    | commit =>
      simp only [exec] at h ⊢
      split at h
      · rename_i hin
        obtain ⟨-, rfl⟩ := Prod.mk.inj (Option.some.inj h)
        exact Or.inr ⟨.ok (), if_pos hin⟩
      · cases h
    | begin | rollback | insertOrder | claimOperation | updateState | insertTransition | enqueue |
        selectUnpublished | stamp => cases h
    | _ => cases heffect
  | _ =>
    cases effect with
    | begin | commit | rollback | insertOrder | claimOperation | updateState | insertTransition |
        enqueue | selectUnpublished | stamp => cases h
    | _ => cases heffect

/-- A statement changes the store, and may draw from its sequences or begin a transaction. -/
theorem store_of_statement {effect : Effect} (heffect : effect.isStatement = true) {choice : Choice}
    {reply : Except Failure effect.Result} (h : exec thread effect choice s = some (reply, s')) :
    ∃ db transitionSeq outboxSeq began, s' = { s with
      db := db, transitionSeq := transitionSeq, outboxSeq := outboxSeq, began := began } := by
  rcases statement_cases heffect h with rfl | ⟨answer, hdone⟩
  · exact ⟨_, _, _, _, rfl⟩
  cases effect with
  | begin | rollback =>
    obtain ⟨-, rfl⟩ := Prod.mk.inj (Option.some.inj hdone)
    exact ⟨_, _, _, _, rfl⟩
  | commit | selectUnpublished | stamp =>
    simp only [exec] at hdone
    split at hdone
    · obtain ⟨-, rfl⟩ := Prod.mk.inj (Option.some.inj hdone)
      exact ⟨_, _, _, _, rfl⟩
    · cases hdone
  | insertOrder values =>
    obtain ⟨⟨inserted, s₁⟩, hinsert, hreply⟩ := Option.map_eq_some_iff.mp hdone
    obtain ⟨-, rfl⟩ := Prod.mk.inj hreply
    rcases (insertOrder_cases hinsert).2.2 with ⟨-, rfl, -⟩ | ⟨-, -, -, rfl⟩
    · exact ⟨_, _, _, _, rfl⟩
    · exact ⟨_, _, _, _, rfl⟩
  | claimOperation row =>
    obtain ⟨⟨claimed, s₁⟩, hclaim, hreply⟩ := Option.map_eq_some_iff.mp hdone
    obtain ⟨-, rfl⟩ := Prod.mk.inj hreply
    rcases (claimOperation_cases hclaim).2 with ⟨-, rfl, -⟩ | ⟨-, -, rfl⟩
    · exact ⟨_, _, _, _, rfl⟩
    · exact ⟨_, _, _, _, rfl⟩
  | updateState orderId target source =>
    obtain ⟨⟨updated, s₁⟩, hupdate, hreply⟩ := Option.map_eq_some_iff.mp hdone
    obtain ⟨-, rfl⟩ := Prod.mk.inj hreply
    rcases (updateState_cases hupdate).2 with ⟨-, rfl⟩ | ⟨-, -, -, rfl⟩
    · exact ⟨_, _, _, _, rfl⟩
    · exact ⟨_, _, _, _, rfl⟩
  | insertTransition values =>
    obtain ⟨s₁, hinsert, hreply⟩ := Option.map_eq_some_iff.mp hdone
    obtain ⟨-, rfl⟩ := Prod.mk.inj hreply
    obtain ⟨-, rfl⟩ := insertTransition_cases hinsert
    exact ⟨_, _, _, _, rfl⟩
  | enqueue exchange routingKey env =>
    obtain ⟨s₁, henqueue, hreply⟩ := Option.map_eq_some_iff.mp hdone
    obtain ⟨-, rfl⟩ := Prod.mk.inj hreply
    obtain ⟨-, rfl⟩ := enqueue_cases henqueue
    exact ⟨_, _, _, _, rfl⟩
  | _ => cases heffect

/-! ### Effects on the broker -/

/-- The effects on the broker. -/
def Effect.onBroker : Effect → Bool
  | declareEventQueue => true
  | publish _ _ _ => true
  | ack _ => true
  | nack _ _ => true
  | getDlq => true
  | _ => false

theorem acked_cases {choice : Choice} {reply : Except Failure Unit} {s₁ : Shared D}
    (h : acked s s' choice = some (reply, s₁)) :
    (s₁ = s ∨ s₁ = s') ∧ ∀ error, reply = .error error → ∃ text, error = .error text := by
  cases choice with
  | done => exact (silent_ok h).imp_left Or.inr
  | ignored => exact (silent_ok h).imp_left Or.inl
  | lost text => exact (silent_error h).imp_left Or.inl
  | unconfirmed text => exact (silent_error h).imp_left Or.inr
  | _ => cases h

theorem confirmed_cases {choice : Choice} {reply : Except Failure Unit} {s₁ : Shared D}
    (h : confirmed s s' choice = some (reply, s₁)) :
    (s₁ = s' ∧ reply = .ok ()) ∨ ((s₁ = s ∨ s₁ = s') ∧ ∃ text, reply = .error (.error text)) := by
  cases choice with
  | done =>
    obtain ⟨rfl, rfl⟩ := Prod.mk.inj (Option.some.inj h)
    exact Or.inl ⟨rfl, rfl⟩
  | lost text =>
    obtain ⟨rfl, rfl⟩ := Prod.mk.inj (Option.some.inj h)
    exact Or.inr ⟨Or.inl rfl, text, rfl⟩
  | unconfirmed text =>
    obtain ⟨rfl, rfl⟩ := Prod.mk.inj (Option.some.inj h)
    exact Or.inr ⟨Or.inr rfl, text, rfl⟩
  | _ => cases h

/-! ### The parts of the state -/

/-- An effect is about the tables, the broker, the counter of its envelope, or the downstreams. -/
theorem part_of_exec {effect : Effect} {choice : Choice} {reply : Except Failure effect.Result}
    (h : exec thread effect choice s = some (reply, s')) :
    (effect.isStatement = true ∧ ∃ db transitionSeq outboxSeq began, s' = { s with
        db := db, transitionSeq := transitionSeq, outboxSeq := outboxSeq, began := began }) ∨
      (effect.onBroker = true ∧ ∃ broker, s' = s.settle broker) ∨
        (effect = .bumpAttempt ∧ s' = { s with
          attempts := Function.update s.attempts thread (s.attempts thread + 1) }) ∨
          ∃ downstream, s' = { s with downstream := downstream } := by
  cases effect with
  | begin | commit | rollback | insertOrder | claimOperation | updateState | insertTransition |
      enqueue | selectUnpublished | stamp => exact Or.inl ⟨rfl, store_of_statement rfl h⟩
  | declareEventQueue | publish =>
    refine Or.inr (Or.inl ⟨rfl, ?_⟩)
    rcases confirmed_cases h with ⟨rfl, -⟩ | ⟨rfl | rfl, -⟩ <;> exact ⟨_, rfl⟩
  | ack | nack =>
    refine Or.inr (Or.inl ⟨rfl, ?_⟩)
    rcases (acked_cases h).1 with rfl | rfl <;> exact ⟨_, rfl⟩
  | getDlq =>
    refine Or.inr (Or.inl ⟨rfl, ?_⟩)
    cases choice with
    | message number =>
      obtain ⟨delivered, -, hreply⟩ := Option.map_eq_some_iff.mp h
      obtain ⟨-, rfl⟩ := Prod.mk.inj hreply
      exact ⟨_, rfl⟩
    | done =>
      simp only [exec] at h
      split at h
      · obtain ⟨-, rfl⟩ := Prod.mk.inj (Option.some.inj h)
        exact ⟨_, rfl⟩
      · cases h
    | lost text =>
      obtain rfl := exec_lost h
      exact ⟨_, rfl⟩
    | _ => cases h
  | bumpAttempt =>
    cases choice with
    | done =>
      obtain ⟨-, rfl⟩ := Prod.mk.inj (Option.some.inj h)
      exact Or.inr (Or.inr (Or.inl ⟨rfl, rfl⟩))
    | _ => cases h
  | send service command =>
    refine Or.inr (Or.inr (Or.inr ?_))
    cases choice with
    | done | transport | lost =>
      obtain ⟨-, rfl⟩ := Prod.mk.inj (Option.some.inj h)
      exact ⟨_, rfl⟩
    | _ => cases h
  | _ =>
    obtain ⟨rfl, -⟩ := exec_silent rfl h
    exact Or.inr (Or.inr (Or.inr ⟨_, rfl⟩))

/-- Only a statement changes the store. -/
theorem db_of_exec {effect : Effect} {choice : Choice} {reply : Except Failure effect.Result}
    (h : exec thread effect choice s = some (reply, s')) (heffect : effect.isStatement = false) :
    s'.db = s.db ∧ s'.outboxSeq = s.outboxSeq := by
  rcases part_of_exec h with ⟨hstatement, -⟩ | ⟨-, _, rfl⟩ | ⟨-, rfl⟩ | ⟨_, rfl⟩
  · rw [hstatement] at heffect
    cases heffect
  · exact ⟨rfl, rfl⟩
  · exact ⟨rfl, rfl⟩
  · exact ⟨rfl, rfl⟩

/-- Only the increment changes a counter, and only that of its thread. -/
theorem attempts_of_exec {effect : Effect} {choice : Choice} {reply : Except Failure effect.Result}
    (h : exec thread effect choice s = some (reply, s')) :
    s'.attempts = s.attempts ∨ effect = .bumpAttempt ∧
      s'.attempts = Function.update s.attempts thread (s.attempts thread + 1) := by
  rcases part_of_exec h with ⟨-, _, _, _, _, rfl⟩ | ⟨-, _, rfl⟩ | ⟨heffect, rfl⟩ | ⟨_, rfl⟩
  · exact Or.inl rfl
  · exact Or.inl rfl
  · exact Or.inr ⟨heffect, rfl⟩
  · exact Or.inl rfl

/-- What an effect does to the broker: it moves messages, binds the queue of placed events, discards
messages, or publishes. -/
theorem broker_of_exec {effect : Effect} {choice : Choice}
    {reply : Except Failure effect.Result} (h : exec thread effect choice s = some (reply, s')) :
    Broker.Moves s.broker s'.broker ∨ s'.broker = s.broker.declarePlaced ∨
      (∃ number, s'.broker = s.broker.discard number thread) ∨
        ∃ exchange routingKey body, effect = .publish exchange routingKey body ∧
          s'.broker = s.broker.publish ⟨some thread, exchange, routingKey, body⟩ := by
  have hsame : s' = s → Broker.Moves s.broker s'.broker := fun hs' ↦ hs' ▸ Broker.Moves.refl _
  cases effect with
  | declareEventQueue =>
    rcases confirmed_cases h with ⟨rfl, -⟩ | ⟨rfl | rfl, -⟩
    · exact Or.inr (Or.inl rfl)
    · exact Or.inl (hsame rfl)
    · exact Or.inr (Or.inl rfl)
  | publish exchange routingKey body =>
    rcases confirmed_cases h with ⟨rfl, -⟩ | ⟨rfl | rfl, -⟩
    · exact Or.inr (Or.inr (Or.inr ⟨exchange, routingKey, body, rfl, rfl⟩))
    · exact Or.inl (hsame rfl)
    · exact Or.inr (Or.inr (Or.inr ⟨exchange, routingKey, body, rfl, rfl⟩))
  | ack number =>
    rcases (acked_cases h).1 with rfl | rfl
    · exact Or.inl (hsame rfl)
    · exact Or.inr (Or.inr (Or.inl ⟨number, rfl⟩))
  | nack number requeue =>
    rcases (acked_cases h).1 with rfl | rfl
    · exact Or.inl (hsame rfl)
    · cases requeue with
      | true => exact Or.inl (Broker.moves_requeue _ number thread)
      | false => exact Or.inr (Or.inr (Or.inl ⟨number, rfl⟩))
  | getDlq =>
    left
    cases choice with
    | message number =>
      obtain ⟨⟨message, broker⟩, hdeliver, hreply⟩ := Option.map_eq_some_iff.mp h
      obtain ⟨-, rfl⟩ := Prod.mk.inj hreply
      exact (Broker.deliver_cases hdeliver).1
    | done =>
      simp only [exec] at h
      split at h
      · exact hsame (Prod.mk.inj (Option.some.inj h)).2.symm
      · cases h
    | lost text => exact hsame (Prod.mk.inj (Option.some.inj h)).2.symm
    | _ => cases h
  | _ =>
    left
    rcases part_of_exec h with ⟨-, _, _, _, _, rfl⟩ | ⟨hbroker, -⟩ | ⟨-, rfl⟩ | ⟨_, rfl⟩
    · exact Broker.Moves.refl _
    · cases hbroker
    · exact Broker.Moves.refl _
    · exact Broker.Moves.refl _

/-! ### Launches -/

/-- A launch delivers at most a message, to the handler of its queue, with the counter of its
thread. -/
theorem part_of_launch {cfg : Config} {started : Launch} {program : Proc Unit}
    (h : launch cfg thread started s = some (program, s')) :
    ∃ broker attempts, s' = { s with broker := broker, attempts := attempts } ∧
      Broker.Moves s.broker broker ∧
        ∀ other, other ≠ thread → attempts other = s.attempts other := by
  have hreceived : ∀ number queue delivered,
      s.broker.deliver number queue thread = some delivered → ∃ broker attempts,
        launch.receive thread delivered.1 delivered.2 s =
          { s with broker := broker, attempts := attempts } ∧ Broker.Moves s.broker broker ∧
            ∀ other, other ≠ thread → attempts other = s.attempts other := by
    intro number queue delivered hdeliver
    have hmoves := (Broker.deliver_cases hdeliver).1
    unfold launch.receive
    split
    · exact ⟨_, _, rfl, hmoves, fun other hne ↦ Function.update_of_ne hne _ _⟩
    · exact ⟨_, _, rfl, hmoves, fun _ _ ↦ rfl⟩
  cases started with
  | onPlaced number =>
    obtain ⟨delivered, hdeliver, hreply⟩ := Option.map_eq_some_iff.mp h
    obtain ⟨-, rfl⟩ := Prod.mk.inj hreply
    exact hreceived number _ delivered hdeliver
  | onAdvance number =>
    obtain ⟨delivered, hdeliver, hreply⟩ := Option.map_eq_some_iff.mp h
    obtain ⟨-, rfl⟩ := Prod.mk.inj hreply
    exact hreceived number _ delivered hdeliver
  | _ =>
    obtain ⟨-, rfl⟩ := Prod.mk.inj (Option.some.inj h)
    exact ⟨_, _, rfl, Broker.Moves.refl _, fun _ _ ↦ rfl⟩

theorem broker_of_launch {cfg : Config} {started : Launch} {program : Proc Unit}
    (h : launch cfg thread started s = some (program, s')) : Broker.Moves s.broker s'.broker := by
  obtain ⟨_, _, rfl, hmoves, -⟩ := part_of_launch h
  exact hmoves

theorem db_of_launch {cfg : Config} {started : Launch} {program : Proc Unit}
    (h : launch cfg thread started s = some (program, s')) :
    s'.db = s.db ∧ s'.outboxSeq = s.outboxSeq := by
  obtain ⟨_, _, rfl, -⟩ := part_of_launch h
  exact ⟨rfl, rfl⟩

/-- A delivery sets the counter of its thread. -/
theorem attempts_of_launch {cfg : Config} {started : Launch} {program : Proc Unit}
    (h : launch cfg thread started s = some (program, s')) {other : ℕ} (hne : other ≠ thread) :
    s'.attempts other = s.attempts other := by
  obtain ⟨_, _, rfl, -, hattempts⟩ := part_of_launch h
  exact hattempts other hne

/-! ### Beside the handlers -/

/-- What happens beside the handlers is an abort, an event of the broker or of the downstreams, or
the publication of another service. -/
theorem part_of_ambient {foreign : Publication → Bool} {act : Ambient D}
    (h : ambient foreign act s = some s') :
    (∃ aborted, s' = { s with db := s.db.abort aborted }) ∨
      (∃ broker, s' = s.settle broker ∧ Broker.Moves s.broker broker) ∨
        (∃ publication, act = .publish publication ∧ publication.publisher = none ∧
          s' = s.publish publication) ∨
          ∃ downstream clock, s' = { s with downstream := downstream, clock := clock } := by
  cases act with
  | abort aborted =>
    obtain rfl := Option.some.inj h
    exact Or.inl ⟨aborted, rfl⟩
  | expire number =>
    obtain rfl := Option.some.inj h
    exact Or.inr (Or.inl ⟨_, rfl, Broker.moves_expire _ number⟩)
  | requeue number consumer =>
    obtain rfl := Option.some.inj h
    exact Or.inr (Or.inl ⟨_, rfl, Broker.moves_requeue _ number consumer⟩)
  | publish publication =>
    simp only [ambient] at h
    split at h
    · rename_i hallowed
      rw [Bool.and_eq_true, Option.isNone_iff_eq_none] at hallowed
      obtain rfl := Option.some.inj h
      exact Or.inr (Or.inr (Or.inl ⟨publication, rfl, hallowed.1, rfl⟩))
    · cases h
  | downstream act =>
    obtain ⟨downstream, -, rfl⟩ := Option.map_eq_some_iff.mp h
    exact Or.inr (Or.inr (Or.inr ⟨downstream, _, rfl⟩))
  | tick microseconds =>
    obtain rfl := Option.some.inj h
    exact Or.inr (Or.inr (Or.inr ⟨_, _, rfl⟩))

/-- What happens to the broker beside the handlers: it moves messages, or another service
publishes. -/
theorem broker_of_ambient {foreign : Publication → Bool} {act : Ambient D}
    (h : ambient foreign act s = some s') : Broker.Moves s.broker s'.broker ∨
      ∃ publication, act = .publish publication ∧ publication.publisher = none ∧
        s'.broker = s.broker.publish publication := by
  rcases part_of_ambient h with ⟨_, rfl⟩ | ⟨_, rfl, hmoves⟩ | ⟨publication, hact, hnone, rfl⟩ |
    ⟨_, _, rfl⟩
  · exact Or.inl (Broker.Moves.refl _)
  · exact Or.inl hmoves
  · exact Or.inr ⟨publication, hact, hnone, rfl⟩
  · exact Or.inl (Broker.Moves.refl _)

theorem db_of_ambient {foreign : Publication → Bool} {act : Ambient D}
    (h : ambient foreign act s = some s') :
    (s'.db = s.db ∨ ∃ aborted, s'.db = s.db.abort aborted) ∧ s'.outboxSeq = s.outboxSeq := by
  rcases part_of_ambient h with ⟨aborted, rfl⟩ | ⟨_, rfl, -⟩ | ⟨_, -, -, rfl⟩ | ⟨_, _, rfl⟩
  · exact ⟨Or.inr ⟨aborted, rfl⟩, rfl⟩
  · exact ⟨Or.inl rfl, rfl⟩
  · exact ⟨Or.inl rfl, rfl⟩
  · exact ⟨Or.inl rfl, rfl⟩

theorem attempts_of_ambient {foreign : Publication → Bool} {act : Ambient D}
    (h : ambient foreign act s = some s') : s'.attempts = s.attempts := by
  rcases part_of_ambient h with ⟨_, rfl⟩ | ⟨_, rfl, -⟩ | ⟨_, -, -, rfl⟩ | ⟨_, _, rfl⟩ <;> rfl

end DinnerRush.Orchestrator
