import DinnerRush.Models
import Mathlib.Data.List.Infix

/-!
# The broker

`drcommon.broker` and what it assumes of RabbitMQ. The topology of `declare_topology` is durable and
every service declares it before it publishes or consumes anything, so it is fixed here. The queue
of placed events is declared by the orchestrator when it starts, and until then `dinner.events`
routes nothing.

A message that was routed to a queue has a number, its position in the log of publications. Its copy
is moved between the queues and the consumers until it is removed; a redelivered or expired message
keeps its number, a republished one gets a new number. Publishing a message that no queue is bound
for is confirmed and has no effect.
-/

set_option autoImplicit false
set_option relaxedAutoImplicit false

namespace DinnerRush

inductive Exchange
  | events
  | work
  | retry
  | dlx
  deriving DecidableEq, Repr

def Exchange.name : Exchange → String
  | events => "dinner.events"
  | work => "dinner.work"
  | retry => "dinner.retry"
  | dlx => "dinner.dlx"

/-- The durable queues. -/
inductive Queue
  | advance
  | advanceRetry
  | dlq
  | orchPlaced
  deriving DecidableEq, Repr

def Queue.name : Queue → String
  | advance => "q.order.advance"
  | advanceRetry => "q.order.advance.retry"
  | dlq => "q.order.dlq"
  | orchPlaced => "q.orch.placed"

/-- The body of a message: the bytes of an envelope, or bytes that are none. -/
inductive Body
  | envelope (env : Envelope)
  | poison (bytes : String)
  deriving DecidableEq, Repr

/-- A publication that was routed to a queue; the publisher is a handler or another service. -/
structure Publication where
  publisher : Option ℕ
  exchange : Exchange
  routingKey : String
  body : Body
  deriving DecidableEq, Repr

/-- Where a message is: ready in a queue, or delivered from it to a consumer and not yet acked. -/
inductive Place
  | ready (queue : Queue)
  | unacked (queue : Queue) (consumer : ℕ)
  deriving DecidableEq, Repr

/-- The queue a message is in, or was delivered from. -/
def Place.queue : Place → Queue
  | ready queue => queue
  | unacked queue _ => queue

/-- A message held by the broker. -/
structure Copy where
  number : ℕ
  body : Body
  redelivered : Bool
  place : Place
  deriving DecidableEq, Repr

structure Broker where
  placedBound : Bool
  copies : List Copy
  log : List Publication
  deriving DecidableEq, Repr

/-- What a handler is given: `AbstractIncomingMessage`. -/
structure Delivery where
  number : ℕ
  body : Body
  redelivered : Bool
  deriving DecidableEq, Repr

def rkAdvance : String := EventType.advance.value
def rkPlaced : String := EventType.placed.value
def rkTransition : String := EventType.transition.value

namespace Broker

/-- The broker of a first boot, with the topology declared. -/
def empty : Broker := ⟨false, [], []⟩

/-- The queue that an exchange routes a key to. -/
def route (b : Broker) (exchange : Exchange) (routingKey : String) : Option Queue :=
  match exchange with
  | .events => if b.placedBound && routingKey == rkPlaced then some .orchPlaced else none
  | .work => if routingKey = rkAdvance then some .advance else none
  | .retry => if routingKey = rkAdvance then some .advanceRetry else none
  | .dlx => some .dlq

/-- `declare_event_queue("q.orch.placed", ["order.placed"])`. -/
def declarePlaced (b : Broker) : Broker := { b with placedBound := true }

def publish (b : Broker) (publication : Publication) : Broker :=
  match b.route publication.exchange publication.routingKey with
  | some queue =>
    { b with
      copies := b.copies ++ [⟨b.log.length, publication.body, false, .ready queue⟩]
      log := b.log ++ [publication] }
  | none => b

/-- The message is ready in the queue. -/
def readyIn (number : ℕ) (queue : Queue) (copy : Copy) : Bool :=
  decide (copy.number = number ∧ copy.place = .ready queue)

/-- The message was delivered to the consumer and awaits its ack. -/
def awaits (number consumer : ℕ) (copy : Copy) : Bool :=
  copy.number == number &&
    match copy.place with
    | .ready _ => false
    | .unacked _ other => other == consumer

/-- Move the selected messages. -/
def move (b : Broker) (selected : Copy → Bool) (target : Copy → Copy) : Broker :=
  { b with copies := b.copies.map fun copy ↦ if selected copy then target copy else copy }

/-- Hand a ready message to a consumer. -/
def deliver (b : Broker) (number : ℕ) (queue : Queue) (consumer : ℕ) :
    Option (Delivery × Broker) :=
  (b.copies.find? (readyIn number queue)).map fun copy ↦
    (⟨copy.number, copy.body, copy.redelivered⟩,
      b.move (readyIn number queue) fun copy ↦ { copy with place := .unacked queue consumer })

/-- `ack`, and `nack(requeue=False)` on a queue without a dead-letter exchange: the message is
gone. -/
def discard (b : Broker) (number consumer : ℕ) : Broker :=
  { b with copies := b.copies.filter fun copy ↦ !awaits number consumer copy }

/-- The message back in its queue, as after `nack(requeue=True)` or the death of the channel. -/
def returned (copy : Copy) : Copy :=
  match copy.place with
  | .ready _ => copy
  | .unacked queue _ => { copy with place := .ready queue, redelivered := true }

def requeue (b : Broker) (number consumer : ℕ) : Broker :=
  b.move (awaits number consumer) returned

/-- The TTL of a message in the retry queue is over: it is dead-lettered to the work queue. -/
def expire (b : Broker) (number : ℕ) : Broker :=
  b.move (readyIn number .advanceRetry) fun copy ↦ { copy with place := .ready .advance }

/-! ### What the operations do to the messages -/

variable {b b' : Broker}

/-- Messages were moved, but none was added or removed, and none came to the queue of placed
events. -/
structure Moves (b b' : Broker) : Prop where
  log : b'.log = b.log
  bound : b'.placedBound = b.placedBound
  kept : ∀ copy ∈ b.copies, ∃ copy' ∈ b'.copies,
    copy'.number = copy.number ∧ copy'.body = copy.body
  origin : ∀ copy' ∈ b'.copies, ∃ copy ∈ b.copies,
    copy'.number = copy.number ∧ copy'.body = copy.body ∧
      (copy'.place.queue = .orchPlaced → copy.place.queue = .orchPlaced)

theorem Moves.refl (b : Broker) : Moves b b where
  log := rfl
  bound := rfl
  kept copy hcopy := ⟨copy, hcopy, rfl, rfl⟩
  origin copy hcopy := ⟨copy, hcopy, rfl, rfl, id⟩

theorem Moves.log_grows (h : Moves b b') : b.log <+: b'.log := by
  rw [h.log]

theorem moves_move {selected : Copy → Bool} {target : Copy → Copy}
    (hsame : ∀ copy, (target copy).number = copy.number ∧ (target copy).body = copy.body)
    (hqueue : ∀ copy, selected copy → (target copy).place.queue = .orchPlaced →
      copy.place.queue = .orchPlaced) : Moves b (b.move selected target) where
  log := rfl
  bound := rfl
  kept copy hcopy := by
    refine ⟨_, List.mem_map_of_mem hcopy, ?_⟩
    split
    · exact hsame copy
    · exact ⟨rfl, rfl⟩
  origin copy' hcopy' := by
    obtain ⟨copy, hcopy, rfl⟩ := List.mem_map.mp hcopy'
    refine ⟨copy, hcopy, ?_⟩
    split
    · rename_i hselected
      exact ⟨(hsame copy).1, (hsame copy).2, hqueue copy hselected⟩
    · exact ⟨rfl, rfl, id⟩

theorem deliver_cases {number consumer : ℕ} {queue : Queue} {message : Delivery}
    (h : b.deliver number queue consumer = some (message, b')) :
    Moves b b' ∧ ∃ copy ∈ b.copies, copy.place = .ready queue ∧ message.number = copy.number ∧
      message.body = copy.body := by
  obtain ⟨copy, hfind, hresult⟩ := Option.map_eq_some_iff.mp h
  obtain ⟨rfl, rfl⟩ := Prod.mk.inj hresult
  have hready := List.find?_some hfind
  rw [readyIn, decide_eq_true_eq] at hready
  refine ⟨moves_move (fun _ ↦ ⟨rfl, rfl⟩) ?_, copy, List.mem_of_find?_eq_some hfind, hready.2, rfl,
    rfl⟩
  intro other hother hqueue
  rw [readyIn, decide_eq_true_eq] at hother
  rw [hother.2]
  exact hqueue

theorem number_of_deliver {number consumer : ℕ} {queue : Queue} {message : Delivery}
    (h : b.deliver number queue consumer = some (message, b')) : message.number = number := by
  obtain ⟨copy, hfind, hresult⟩ := Option.map_eq_some_iff.mp h
  obtain ⟨rfl, -⟩ := Prod.mk.inj hresult
  have hready := List.find?_some hfind
  rw [readyIn, decide_eq_true_eq] at hready
  exact hready.1

theorem moves_requeue (b : Broker) (number consumer : ℕ) :
    Moves b (b.requeue number consumer) := by
  refine moves_move (fun copy ↦ ?_) fun copy _ ↦ ?_
  · unfold returned
    split <;> exact ⟨rfl, rfl⟩
  · unfold returned
    split
    · exact id
    · rename_i queue _ hplace
      rw [hplace]
      exact id

theorem moves_expire (b : Broker) (number : ℕ) : Moves b (b.expire number) :=
  moves_move (fun _ ↦ ⟨rfl, rfl⟩) fun _ _ hqueue ↦ by cases hqueue

/-- Discarding removes messages with one number. -/
theorem mem_discard {number consumer : ℕ} {copy : Copy} (h : copy ∈ b.copies) :
    copy ∈ (b.discard number consumer).copies ∨ copy.number = number := by
  by_cases hawaits : awaits number consumer copy
  · refine Or.inr ?_
    rw [awaits, Bool.and_eq_true, beq_iff_eq] at hawaits
    exact hawaits.1
  · exact Or.inl (List.mem_filter.mpr ⟨h, by simpa using hawaits⟩)

/-- A publication is routed and logged under the next number, or has no effect. -/
theorem publish_cases (b : Broker) (publication : Publication) :
    (b.route publication.exchange publication.routingKey = none ∧ b.publish publication = b) ∨
      ∃ queue, b.route publication.exchange publication.routingKey = some queue ∧
        b.publish publication =
          ⟨b.placedBound, b.copies ++ [⟨b.log.length, publication.body, false, .ready queue⟩],
            b.log ++ [publication]⟩ := by
  unfold publish
  cases b.route publication.exchange publication.routingKey with
  | none => exact Or.inl ⟨rfl, rfl⟩
  | some queue => exact Or.inr ⟨queue, rfl, rfl⟩

/-! ### What becomes of a publication -/

/-- The publications that some queue is always bound for. -/
def Routable (publication : Publication) : Prop :=
  publication.exchange = .dlx ∨
    (publication.exchange ≠ .events ∧ publication.routingKey = rkAdvance)

theorem exists_log_publish (b : Broker) {publication : Publication} (h : Routable publication) :
    (b.publish publication).log[b.log.length]? = some publication := by
  rcases b.publish_cases publication with ⟨hnone, -⟩ | ⟨queue, -, hpublished⟩
  · unfold route at hnone
    rcases h with hdlx | ⟨hevents, hkey⟩
    · simp [hdlx] at hnone
    · split at hnone <;> simp_all
  · rw [hpublished]
    exact List.getElem?_concat_length

/-- What was logged stays logged. -/
theorem logged_of_prefix {log log' : List Publication} (h : log <+: log') {i : ℕ}
    {publication : Publication} (hlogged : log[i]? = some publication) :
    log'[i]? = some publication := by
  obtain ⟨hi, rfl⟩ := List.getElem?_eq_some_iff.mp hlogged
  exact List.prefix_iff_getElem?.mp h i hi

/-- The messages held are those of the log. -/
def Filed (b : Broker) : Prop :=
  ∀ copy ∈ b.copies, ∃ publication, b.log[copy.number]? = some publication ∧
    publication.body = copy.body

theorem Filed.moves (h : Filed b) (hmoves : Moves b b') : Filed b' := by
  intro copy' hcopy'
  obtain ⟨copy, hcopy, hnumber, hbody, -⟩ := hmoves.origin copy' hcopy'
  rw [hmoves.log, hnumber, hbody]
  exact h copy hcopy

theorem Filed.discard (h : Filed b) (number consumer : ℕ) : Filed (b.discard number consumer) :=
  fun copy hcopy ↦ h copy (List.mem_of_mem_filter hcopy)

theorem Filed.publish (h : Filed b) (publication : Publication) :
    Filed (b.publish publication) := by
  rcases b.publish_cases publication with ⟨-, hsame⟩ | ⟨queue, -, hpublished⟩
  · rw [hsame]
    exact h
  · rw [hpublished]
    intro copy hcopy
    rcases List.mem_append.mp hcopy with hold | hnew
    · obtain ⟨logged, hlogged, hbody⟩ := h copy hold
      exact ⟨logged, logged_of_prefix (List.prefix_append _ _) hlogged, hbody⟩
    · rw [List.mem_singleton.mp hnew]
      exact ⟨publication, List.getElem?_concat_length, rfl⟩

theorem log_publish (b : Broker) (publication : Publication) :
    b.log <+: (b.publish publication).log := by
  rcases b.publish_cases publication with ⟨-, hsame⟩ | ⟨queue, -, hpublished⟩
  · rw [hsame]
  · rw [hpublished]
    exact List.prefix_append _ _

theorem mem_log_of_publish {publication logged : Publication}
    (h : logged ∈ (b.publish publication).log) : logged ∈ b.log ∨ logged = publication := by
  rcases b.publish_cases publication with ⟨-, hsame⟩ | ⟨queue, -, hpublished⟩
  · rw [hsame] at h
    exact Or.inl h
  · rw [hpublished] at h
    exact (List.mem_append.mp h).imp_right List.mem_singleton.mp

theorem bound_publish (b : Broker) (publication : Publication) :
    (b.publish publication).placedBound = b.placedBound := by
  rcases b.publish_cases publication with ⟨-, hsame⟩ | ⟨queue, -, hpublished⟩
  · rw [hsame]
  · rw [hpublished]

/-- A placed event that is published to a bound queue is logged. -/
theorem mem_log_publish {publication : Publication} (hbound : b.placedBound = true)
    (hexchange : publication.exchange = .events) (hkey : publication.routingKey = rkPlaced) :
    publication ∈ (b.publish publication).log := by
  rcases b.publish_cases publication with ⟨hnone, -⟩ | ⟨queue, -, hpublished⟩
  · rw [hexchange, hkey, route, hbound] at hnone
    simp at hnone
  · rw [hpublished]
    exact List.mem_append_right _ List.mem_cons_self

section Duties

variable {δ : Type} {duty : Body → Option δ} {Discharged Discharged' : δ → Prop}
  {number consumer : ℕ}

/-- A message with the duty was published after the message with the number. -/
def Republished (duty : Body → Option δ) (b : Broker) (number : ℕ) (task : δ) : Prop :=
  ∃ i publication, number < i ∧ b.log[i]? = some publication ∧ duty publication.body = some task

/-- No duty is lost: it is discharged, or some message with the duty is held that is not older than
the publication. -/
def Kept (duty : Body → Option δ) (Discharged : δ → Prop) (b : Broker) : Prop :=
  ∀ i publication task, b.log[i]? = some publication → duty publication.body = some task →
    Discharged task ∨ ∃ copy ∈ b.copies, i ≤ copy.number ∧ duty copy.body = some task

theorem Republished.grows {task : δ} (h : Republished duty b number task)
    (hlog : b.log <+: b'.log) : Republished duty b' number task := by
  obtain ⟨i, publication, hi, hlogged, hduty⟩ := h
  exact ⟨i, publication, hi, logged_of_prefix hlog hlogged, hduty⟩

theorem Kept.mono (h : Kept duty Discharged b) (hd : ∀ task, Discharged task → Discharged' task) :
    Kept duty Discharged' b :=
  fun i publication task hlogged hduty ↦ (h i publication task hlogged hduty).imp_left (hd task)

theorem Kept.moves (h : Kept duty Discharged b) (hmoves : Moves b b') :
    Kept duty Discharged b' := by
  intro i publication task hlogged hduty
  rw [hmoves.log] at hlogged
  rcases h i publication task hlogged hduty with hdone | ⟨copy, hcopy, hi, htask⟩
  · exact Or.inl hdone
  · obtain ⟨copy', hcopy', hnumber, hbody⟩ := hmoves.kept copy hcopy
    refine Or.inr ⟨copy', hcopy', ?_, ?_⟩
    · rw [hnumber]
      exact hi
    · rw [hbody]
      exact htask

/-- A publication is kept by its own copy. -/
theorem Kept.publish (h : Kept duty Discharged b) (publication : Publication) :
    Kept duty Discharged (b.publish publication) := by
  rcases b.publish_cases publication with ⟨-, hsame⟩ | ⟨queue, -, hpublished⟩
  · rw [hsame]
    exact h
  · rw [hpublished]
    intro i logged task hlogged hduty
    by_cases hi : i < b.log.length
    · rw [List.getElem?_append_left hi] at hlogged
      refine (h i logged task hlogged hduty).imp_right ?_
      rintro ⟨copy, hcopy, hnumber, htask⟩
      exact ⟨copy, List.mem_append_left _ hcopy, hnumber, htask⟩
    · have hlast : i = b.log.length := by
        have hbound := (List.getElem?_eq_some_iff.mp hlogged).1
        rw [List.length_append, List.length_singleton] at hbound
        omega
      subst hlast
      rw [List.getElem?_concat_length] at hlogged
      obtain rfl := Option.some.inj hlogged
      exact Or.inr ⟨_, List.mem_append_right _ (List.mem_singleton.mpr rfl), Nat.le_refl _, hduty⟩

/-- A message may be discarded when its duty is discharged or was published again. -/
theorem Kept.discard (h : Kept duty Discharged b)
    (hfree : ∀ copy ∈ b.copies, awaits number consumer copy → ∀ task,
      duty copy.body = some task → Discharged task ∨ Republished duty b number task) :
    Kept duty Discharged (b.discard number consumer) := by
  intro i publication task hlogged hduty
  rcases h i publication task hlogged hduty with hdone | ⟨copy, hcopy, hi, htask⟩
  · exact Or.inl hdone
  · by_cases hawaits : awaits number consumer copy
    · have hnumber : copy.number = number := by
        rw [awaits, Bool.and_eq_true, beq_iff_eq] at hawaits
        exact hawaits.1
      rcases hfree copy hcopy hawaits task htask with hdone | ⟨j, later, hj, hlater, hsame⟩
      · exact Or.inl hdone
      · -- The later publication is kept by a message that is not the discarded one.
        rcases h j later task hlater hsame with hdone | ⟨other, hother, hbound, hothertask⟩
        · exact Or.inl hdone
        · have hne : other.number ≠ number := by omega
          have hkept : other ∈ (b.discard number consumer).copies :=
            (mem_discard hother).resolve_right hne
          exact Or.inr ⟨other, hkept, by omega, hothertask⟩
    · exact Or.inr ⟨copy, List.mem_filter.mpr ⟨hcopy, by simpa using hawaits⟩, hi, htask⟩

end Duties

end Broker

end DinnerRush
