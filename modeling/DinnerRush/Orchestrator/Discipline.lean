import DinnerRush.Concurrency.RelyGuarantee
import DinnerRush.Orchestrator.Custody
import DinnerRush.Orchestrator.System

/-!
# The discipline of the orchestrator

The invariant of the orchestrator (`Sound`) has four parts: its tables (`Tables`), the broker, what
it has asked of the downstreams (`Effects`) and the custody of orders. What is known of the
downstreams is a `Contract`: a relation `Done` between their state and the operations they have
performed, which an answer below 300 vouches for, and `Refused`, which a definitive rejection
vouches for.

Custody is kept only under a condition on the effects performed (`dropsExpendable`), and when
nobody else publishes commands, so a `Setting` has a switch `strict` for it. Without the switch the
invariant is about every run.
-/

set_option autoImplicit false
set_option relaxedAutoImplicit false

namespace DinnerRush.Orchestrator

open Concurrency

/-! ### The downstreams -/

/-- The command for a step of an order. -/
def stepCommand (service : Service) (row : OrderRow) (source target : State) : Command :=
  commandFor service row row.orderId (opIdFor row.orderId source target) target

/-- What the orchestrator relies on when it talks to the downstreams. -/
structure Contract (D : Downstreams) where
  Inv : D.State → Prop
  Le : D.State → D.State → Prop
  Received : D.State → Service → Command → Prop
  Sent : D.State → Service → ℕ → Command → Prop
  Done : D.State → Service → String → Prop
  Refused : D.State → Service → String → Prop
  start : Inv D.start ∧ ∀ service command, ¬ Received D.start service command
  le_refl : ∀ st, Le st st
  le_trans : ∀ st₁ st₂ st₃, Le st₁ st₂ → Le st₂ st₃ → Le st₁ st₃
  sent_le : ∀ st st' service request command, Le st st' → Sent st service request command →
    Sent st' service request command
  done_le : ∀ st st' service opId, Le st st' → Done st service opId → Done st' service opId
  refused_le : ∀ st st' service opId, Le st st' → Refused st service opId →
    Refused st' service opId
  act : ∀ act st st', Inv st → D.act act st = some st' →
    Inv st' ∧ Le st st' ∧ ∀ service command, Received st' service command →
      Received st service command
  send : ∀ service row source target st, Inv st →
    let command := stepCommand service row source target
    let sent := D.send service command st
    Inv sent.2 ∧ Le st sent.2 ∧ Sent sent.2 service sent.1 command ∧
      ∀ service' command', Received sent.2 service' command' →
        Received st service' command' ∨ (service' = service ∧ command' = command)
  answered : ∀ st service row source target request response, Inv st →
    Sent st service request (stepCommand service row source target) →
    D.answered st service request response = true →
      let opId := opIdFor row.orderId source target
      (response.statusCode < 300 → Done st service opId) ∧
        (300 ≤ response.statusCode → response.statusCode ≠ 429 → response.statusCode < 500 →
          Refused st service opId)

/-- The contract that any downstreams meet. -/
def Contract.trivial (D : Downstreams) : Contract D where
  Inv _ := True
  Le _ _ := True
  Received _ _ _ := False
  Sent _ _ _ _ := True
  Done _ _ _ := True
  Refused _ _ _ := True
  start := ⟨⟨⟩, fun _ _ h ↦ h⟩
  le_refl _ := ⟨⟩
  le_trans _ _ _ _ _ := ⟨⟩
  sent_le _ _ _ _ _ _ h := h
  done_le _ _ _ _ _ h := h
  refused_le _ _ _ _ _ h := h
  act _ _ _ _ _ := ⟨⟨⟩, ⟨⟩, fun _ _ h ↦ h⟩
  send _ _ _ _ _ _ := ⟨⟨⟩, ⟨⟩, ⟨⟩, fun _ _ h ↦ h.elim⟩
  answered _ _ _ _ _ _ _ _ _ _ := ⟨fun _ ↦ ⟨⟩, fun _ _ _ ↦ ⟨⟩⟩

/-- The command is that of a step of an order from a state it has entered. -/
def Ordered (d : Db) (service : Service) (command : Command) : Prop :=
  ∃ row ∈ d.orders, ∃ source target, Entered d row.orderId source ∧
    nextHappyState source = some target ∧ stageDownstream target = some service ∧
    command = stepCommand service row source target

/-- A command reads no state of the row. -/
theorem stepCommand_core (service : Service) (row : OrderRow) (source target : State) :
    stepCommand service row source target = stepCommand service row.core source target := by
  cases service <;> rfl

theorem Ordered.grows {d d' : Db} {service : Service} {command : Command}
    (h : Ordered d service command) (hgrows : d.Grows d') : Ordered d' service command := by
  obtain ⟨row, hrow, source, target, hentered, hnext, hstage, rfl⟩ := h
  obtain ⟨row', hrow', hcore⟩ := hgrows.orders row hrow
  refine ⟨row', hrow', source, target, ?_, hnext, hstage, ?_⟩
  · rw [orderId_of_core hcore]
    exact hentered.grows hgrows
  · rw [stepCommand_core service row, stepCommand_core service row', hcore]

variable {D : Downstreams}

/-- What the downstreams have done about a step, when it was taken or the order was failed instead;
orders are cancelled only if there is a rate. -/
structure Backed (cfg : Config) (C : Contract D) (st : D.State) (row : TransitionRow) : Prop where
  done : ∀ service, nextHappyState row.fromState = some row.toState →
    stageDownstream row.toState = some service →
      C.Done st service (opIdFor row.orderId row.fromState row.toState)
  failed : ∀ target service, row.toState = .failed → nextHappyState row.fromState = some target →
    stageDownstream target = some service →
      C.Refused st service (opIdFor row.orderId row.fromState target)
  cancelled : row.toState = .cancelled → 0 < cfg.cancelRate

theorem Backed.le {cfg : Config} {C : Contract D} {st st' : D.State} {row : TransitionRow}
    (h : Backed cfg C st row) (hle : C.Le st st') : Backed cfg C st' row where
  done service hnext hstage := C.done_le _ _ _ _ hle (h.done service hnext hstage)
  failed target service hfailed hnext hstage :=
    C.refused_le _ _ _ _ hle (h.failed target service hfailed hnext hstage)
  cancelled := h.cancelled

/-! ### The invariant -/

/-- The tables record lifecycles, and the ids of the sequences are drawn. -/
structure Tables (db : Store) (transitionSeq outboxSeq : ℕ) : Prop where
  ledger : Ledger db.committed
  orderIds : ∀ row ∈ db.committed.orders, isUuid row.orderId
  transitionIds : ∀ row ∈ db.committed.transitions, row.id < transitionSeq
  outboxIds : Table.Unique OutboxRow.id db.committed.outbox
  outboxDrawn : ∀ row ∈ db.committed.outbox, row.id < outboxSeq
  locks : ∀ id thread, db.owner (.outbox id) = some thread → id < outboxSeq

/-- What was asked of the downstreams, and what the transitions say of it. -/
structure Effects (cfg : Config) (C : Contract D) (d : Db) (st : D.State) : Prop where
  inv : C.Inv st
  ordered : ∀ service command, C.Received st service command → Ordered d service command
  backed : ∀ row ∈ d.transitions, Backed cfg C st row

/-- What a verification of the orchestrator is about: its settings, the contract of the downstreams,
who else publishes, and whether the custody of orders is part of it. -/
structure Setting (D : Downstreams) where
  cfg : Config
  contract : Contract D
  foreign : Publication → Bool
  strict : Prop
  /-- For custody, nobody else publishes commands. -/
  quiet : strict → ∀ publication, foreign publication = true →
    publication.body.type ≠ some .advance

/-- The setting without a contract with the downstreams and without custody: the invariant of every
run. -/
def Setting.bare (cfg : Config) (D : Downstreams) (foreign : Publication → Bool) : Setting D :=
  ⟨cfg, .trivial D, foreign, False, fun hstrict ↦ hstrict.elim⟩

variable (X : Setting D)

structure Sound (s : Shared D) : Prop where
  tables : Tables s.db s.transitionSeq s.outboxSeq
  filed : s.broker.Filed
  effects : Effects X.cfg X.contract s.db.committed s.downstream
  custody : X.strict → Custody s.db.committed s.broker

/-- Nothing is taken back. -/
structure Grows (s s' : Shared D) : Prop where
  db : s.db.committed.Grows s'.db.committed
  transitionSeq : s.transitionSeq ≤ s'.transitionSeq
  outboxSeq : s.outboxSeq ≤ s'.outboxSeq
  log : s.broker.log <+: s'.broker.log
  downstream : X.contract.Le s.downstream s'.downstream

/-- What a thread relies on: its transaction is kept, and nothing is taken back. -/
structure Relies (thread : ℕ) (s s' : Shared D) : Prop extends Grows X s s' where
  kept : s.db.Kept guarding thread s'.db

variable {X}

theorem Grows.refl (s : Shared D) : Grows X s s :=
  ⟨Db.Grows.refl _, Nat.le_refl _, Nat.le_refl _, List.prefix_rfl, X.contract.le_refl _⟩

theorem Grows.trans {s₁ s₂ s₃ : Shared D} (h : Grows X s₁ s₂) (h' : Grows X s₂ s₃) :
    Grows X s₁ s₃ where
  db := h.db.trans h'.db
  transitionSeq := Nat.le_trans h.transitionSeq h'.transitionSeq
  outboxSeq := Nat.le_trans h.outboxSeq h'.outboxSeq
  log := h.log.trans h'.log
  downstream := X.contract.le_trans _ _ _ h.downstream h'.downstream

/-- Every message that the effect drops for good, by a `nack` without requeue, is expendable. -/
def dropsExpendable (thread : ℕ) (effect : Effect) (choice : Choice) (s : Shared D) : Bool :=
  let spared (number : ℕ) : Bool := s.broker.copies.all fun copy ↦
    !Broker.awaits number thread copy || expendable s.db.committed s.broker copy
  match effect, choice with
  | .nack number false, .done => spared number
  | .nack number false, .unconfirmed _ => spared number
  | _, _ => true

variable (X)

/-- The orchestrator of a setting. -/
abbrev Setting.machine : Machine signature Failure Unit := orchestrator X.cfg D X.foreign

def discipline : Discipline X.machine where
  Permit thread effect choice s := X.strict → dropsExpendable (D := D) thread effect choice s
  Inv := Sound X
  Rely := Relies X
  Fresh _ _ := True
  Post _ _ _ := True
  rely_refl := fun thread s ↦ ⟨Grows.refl s, Transactions.Kept.refl thread _⟩
  rely_trans := fun _ _ _ _ h h' ↦ ⟨h.toGrows.trans h'.toGrows, h.kept.trans h'.kept⟩
  fresh_rely := fun _ _ _ _ _ ↦ ⟨⟩

/-- Without custody, every action is permitted. -/
theorem permitted_bare {cfg : Config} {foreign : Publication → Bool}
    (w : World (orchestrator cfg D foreign)) (action : Action (orchestrator cfg D foreign)) :
    w.Permitted (discipline (Setting.bare cfg D foreign)).Permit action :=
  (World.permitted_anyEffect w action).mono fun _ _ _ _ _ hstrict ↦ hstrict.elim

end DinnerRush.Orchestrator
