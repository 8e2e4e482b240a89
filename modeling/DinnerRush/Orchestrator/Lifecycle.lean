import DinnerRush.Orchestrator.Handling
import DinnerRush.Orchestrator.Relaying

/-!
# The ledger of orders is consistent and legal

The discipline of the orchestrator is verified (`verified`), so its invariant holds in every world
that it reaches. What it says of the tables is put here in the terms of the tables themselves
(`Lawful`): the transitions of an order, taken in the order of their ids, are a path of legal steps
from placed to its state, with exactly one operation and one event for each step, and exactly one
command for each open state that was entered.
-/

set_option autoImplicit false
set_option relaxedAutoImplicit false

namespace DinnerRush.Orchestrator

open Concurrency Discipline

variable {D : Downstreams} {X : Setting D} {s s' : Shared D}

/-! ### The discipline is verified -/

theorem sound_start : Sound X X.machine.start where
  tables := by
    refine ⟨fun orderId ↦ Or.inl rfl, ?_, ?_, List.nodup_nil, ?_, ?_⟩
    · intro row hrow
      cases hrow
    · intro row hrow
      cases hrow
    · intro row hrow
      cases hrow
    · intro id thread howner
      cases howner
  filed copy hcopy := by cases hcopy
  effects := by
    refine ⟨X.contract.start.1, fun service command hreceived ↦ ?_, fun row hrow ↦ by cases hrow⟩
    exact absurd hreceived (X.contract.start.2 service command)
  custody _ := by
    constructor
    · intro i publication task hlogged
      have hnone : none = some publication := hlogged
      cases hnone
    · intro publication hlogged
      cases hlogged
    · intro copy hcopy
      cases hcopy
    · intro row hrow
      cases hrow

/-- A handler that was launched with a delivery has its message in hand. -/
theorem launched {thread : ℕ} (hinv : Sound X s) {number : ℕ} {queue : Queue} {message : Delivery}
    {broker : Broker} (h : s.broker.deliver number queue thread = some (message, broker)) :
    (discipline X).Respects thread s (launch.receive thread message broker s) ∧
      Delivered message (launch.receive thread message broker s) := by
  unfold launch.receive
  cases message.body <;> exact respects_deliver hinv h

theorem wp_ignore {thread : ℕ} {α : Type} {program : Proc α}
    (h : Verifies X thread (fun _ _ ↦ True) program s) :
    Verifies X thread (fun _ _ ↦ True) (program.bind fun _ ↦ .ret ()) s :=
  wp_bind (wp_mono (fun _ _ _ ↦ fun _ _ _ ↦ trivial) (fun _ _ _ ↦ trivial) h)

theorem wp_launch {thread : ℕ} {started : Launch} (hinv : Sound X s) {program : Proc Unit}
    (h : launch X.cfg thread started s = some (program, s')) :
    (discipline X).Respects thread s s' ∧ Verifies X thread (fun _ _ ↦ True) program s' := by
  cases started with
  | start =>
    obtain ⟨rfl, rfl⟩ := Prod.mk.inj (Option.some.inj h)
    exact ⟨respects_self hinv, wp_declareEventQueue fun _ ↦ trivial⟩
  | onPlaced number =>
    obtain ⟨⟨message, broker⟩, hdeliver, hreply⟩ := Option.map_eq_some_iff.mp h
    obtain ⟨rfl, rfl⟩ := Prod.mk.inj hreply
    obtain ⟨hrespects, hdelivered⟩ := launched hinv hdeliver
    refine ⟨hrespects, wp_onPlaced hdelivered (fun env hbody ↦ ?_) fun hstrict ↦ ?_⟩
    · exact inHand_of_delivered hrespects.1 hdelivered hbody
    · obtain ⟨-, copy, hcopy, hplace, -, hbody⟩ := Broker.deliver_cases hdeliver
      rw [hbody]
      refine (hinv.custody hstrict).placed copy hcopy ?_
      rw [hplace]
      rfl
  | onAdvance number =>
    obtain ⟨⟨message, broker⟩, hdeliver, hreply⟩ := Option.map_eq_some_iff.mp h
    obtain ⟨rfl, rfl⟩ := Prod.mk.inj hreply
    obtain ⟨hrespects, hdelivered⟩ := launched hinv hdeliver
    refine ⟨hrespects, wp_onAdvance hdelivered fun env hbody ↦ ?_⟩
    exact inHand_of_delivered hrespects.1 hdelivered hbody
  | drainOnce =>
    obtain ⟨rfl, rfl⟩ := Prod.mk.inj (Option.some.inj h)
    exact ⟨respects_self hinv, wp_ignore wp_drainOnce⟩
  | replayDlq limit =>
    obtain ⟨rfl, rfl⟩ := Prod.mk.inj (Option.some.inj h)
    exact ⟨respects_self hinv, wp_ignore wp_replayDlq⟩

/-- A step that respects the rely of every thread but one, whichever that is, respects all. -/
theorem rely_of_respects (h : ∀ thread, (discipline X).Respects thread s s') :
    Sound X s' ∧ ∀ thread, Relies X thread s s' :=
  ⟨(h 0).1, fun thread ↦ (h (thread + 1)).2 thread (Nat.ne_of_lt (Nat.lt_succ_self thread))⟩

theorem rely_abort (hinv : Sound X s) (aborted : ℕ) :
    Sound X { s with db := s.db.abort aborted } ∧
      ∀ thread, Relies X thread s { s with db := s.db.abort aborted } := by
  obtain ⟨hsound, hothers⟩ := respects_store (X := X) hinv
    (Transactions.committed_abort aborted s.db) (Nat.le_refl _) (Nat.le_refl _)
    (fun _ _ ↦ owner_released hinv) fun other hne ↦ Transactions.kept_abort hne
  refine ⟨hsound, fun thread ↦ ?_⟩
  by_cases hthread : thread = aborted
  · subst hthread
    refine ⟨(hothers (thread + 1) (Nat.succ_ne_self thread)).toGrows, ?_⟩
    exact Transactions.kept_abort_self
  · exact hothers thread hthread

theorem rely_ambient {act : Ambient D} (hinv : Sound X s)
    (h : ambient X.foreign act s = some s') : Sound X s' ∧ ∀ thread, Relies X thread s s' := by
  cases act with
  | abort aborted =>
    obtain rfl := Option.some.inj h
    exact rely_abort hinv aborted
  | expire number =>
    obtain rfl := Option.some.inj h
    exact rely_of_respects fun _ ↦ respects_moves hinv (Broker.moves_expire _ number)
  | requeue number consumer =>
    obtain rfl := Option.some.inj h
    exact rely_of_respects fun _ ↦ respects_moves hinv (Broker.moves_requeue _ number consumer)
  | publish publication =>
    simp only [ambient] at h
    split at h
    · rename_i hallowed
      rw [Bool.and_eq_true] at hallowed
      obtain rfl := Option.some.inj h
      refine rely_of_respects fun _ ↦ respects_broker hinv (s.broker.log_publish publication)
        (hinv.filed.publish publication) fun hstrict ↦ ?_
      have hquiet := X.quiet hstrict publication hallowed.2
      refine (hinv.custody hstrict).publish (fun env hbody htype ↦ ?_) fun _ ↦ hquiet
      rw [hbody] at hquiet
      exact absurd (congrArg some htype) hquiet
    · cases h
  | downstream act =>
    obtain ⟨downstream, hact, rfl⟩ := Option.map_eq_some_iff.mp h
    obtain ⟨hcontract, hle, hreceived⟩ := X.contract.act act _ _ hinv.effects.inv hact
    refine ⟨⟨hinv.tables, hinv.filed, ⟨hcontract, ?_, ?_⟩, hinv.custody⟩, fun thread ↦
      ⟨⟨Db.Grows.refl _, Nat.le_refl _, Nat.le_refl _, List.prefix_rfl, hle⟩,
        Transactions.Kept.refl thread _⟩⟩
    · exact fun service command h ↦ hinv.effects.ordered service command
        (hreceived service command h)
    · exact fun row hrow ↦ (hinv.effects.backed row hrow).le hle
  | tick microseconds =>
    obtain rfl := Option.some.inj h
    exact ⟨⟨hinv.tables, hinv.filed, hinv.effects, hinv.custody⟩, fun thread ↦
      ⟨⟨Db.Grows.refl _, Nat.le_refl _, Nat.le_refl _, List.prefix_rfl, X.contract.le_refl _⟩,
        Transactions.Kept.refl thread _⟩⟩

theorem verified (X : Setting D) : (discipline X).Verified where
  start := ⟨sound_start, fun _ ↦ trivial⟩
  launch _ _ _ _ _ hinv _ h := wp_launch hinv h
  ambient _ _ _ hinv h := rely_ambient hinv h

/-- The invariant holds in every world that the orchestrator of a setting reaches. -/
theorem sound_of_reachable {w : World X.machine}
    (hw : World.Reachable (fun thread effect choice s ↦
      X.strict → dropsExpendable (D := D) thread effect choice s) w) : Sound X w.shared :=
  (holds_of_reachable (verified X) hw).inv

/-! ### What the ledger says in terms of the tables -/

variable {d : Db} {row : OrderRow}

/-- The steps of an order, in the order of the ids of its transitions. -/
def history (d : Db) (orderId : String) : List (State × State) :=
  ((d.transitions.filter fun row ↦ row.orderId = orderId).insertionSort
    fun first second ↦ first.id ≤ second.id).map TransitionRow.step

/-- The messages of a type about an order. -/
def messages (d : Db) (type : EventType) (orderId : String) : List OutboxRow :=
  d.outbox.filter fun row ↦ row.payload.type = type ∧ row.payload.orderId = orderId

/-- The states that an order with this history has entered and could leave. -/
def openStates (steps : List (State × State)) : List State :=
  (State.placed :: steps.map Prod.snd).filter fun state ↦ !isTerminal state

/-- The tables record a legal lifecycle of the order. -/
structure Lawful (d : Db) (row : OrderRow) : Prop where
  path : IsPath (fun source target ↦ canTransition source target = true) .placed
    (history d row.orderId) row.state
  onceEach : (history d row.orderId).Nodup
  fromOpen : ∀ step ∈ history d row.orderId, isTerminal step.1 = false
  operations : Table.OnePer OperationRow.opId
    (d.operations.filter fun operation ↦ operation.orderId = row.orderId)
    ((history d row.orderId).map fun step ↦ opIdFor row.orderId step.1 step.2)
  events : Table.OnePer (fun out ↦ (out.payload.data.fromState, out.payload.data.toState))
    (messages d .transition row.orderId)
    ((history d row.orderId).map fun step ↦ (some step.1.value, some step.2.value))
  commands : Table.OnePer (fun out ↦ out.payload.data.fromState)
    (messages d .advance row.orderId)
    ((openStates (history d row.orderId)).map fun state ↦ some state.value)

/-- Every order has one row and a lawful record, and the other tables are about these orders. -/
structure LawfulTables (d : Db) : Prop where
  orders : Table.Unique OrderRow.orderId d.orders
  lawful : ∀ row ∈ d.orders, Lawful d row
  transitions : ∀ transition ∈ d.transitions, ∃ row ∈ d.orders, row.orderId = transition.orderId
  operations : ∀ operation ∈ d.operations, ∃ row ∈ d.orders, row.orderId = operation.orderId
  outbox : ∀ out ∈ d.outbox, ∃ row ∈ d.orders, row.orderId = out.payload.orderId

theorem history_eq (h : ConsistentOrder row.orderId (d.slice row.orderId) row) :
    history d row.orderId = (d.slice row.orderId).steps := by
  have hsorted : (d.slice row.orderId).transitions.Pairwise
      fun first second ↦ first.id ≤ second.id := h.ordered.imp Nat.le_of_lt
  unfold history
  rw [show (d.transitions.filter fun transition ↦ transition.orderId = row.orderId) =
    (d.slice row.orderId).transitions from rfl, hsorted.insertionSort_eq]
  rfl

/-- The messages of a type are those of the slice, but for the stamps. -/
theorem map_messages {α : Type} (f : OutboxRow → α) (hf : ∀ out, f (Outbox.unstamped out) = f out)
    (type : EventType) (orderId : String) :
    (messages d type orderId).map f =
      ((d.slice orderId).outbox.filter fun out ↦ out.payload.type = type).map f := by
  have hfilter : messages d type orderId = (d.outbox.filter fun out ↦
      out.payload.orderId = orderId).filter fun out ↦ out.payload.type = type := by
    unfold messages
    rw [List.filter_filter]
    refine List.filter_congr fun out _ ↦ ?_
    rw [Bool.eq_iff_iff]
    simp
  rw [hfilter]
  show _ = (((d.outbox.filter fun out ↦ out.payload.orderId = orderId).map
    Outbox.unstamped).filter fun out ↦ out.payload.type = type).map f
  rw [List.filter_map, List.map_map]
  exact List.map_congr_left fun out _ ↦ (hf out).symm

theorem lawful_of_consistent (h : ConsistentOrder row.orderId (d.slice row.orderId) row) :
    Lawful d row := by
  have hhistory := history_eq h
  have hnodup : (history d row.orderId).Nodup := by
    rw [hhistory]
    exact h.path.nodup depth_lt_of_legal
  constructor
  · rw [hhistory]
    exact h.path
  · exact hnodup
  · intro step hstep
    rw [hhistory] at hstep
    exact not_isTerminal_of_canTransition (h.path.rel hstep)
  · refine Table.onePer_of_map_eq ?_ (hnodup.map fun first second hsame ↦ ?_)
    · rw [hhistory]
      exact h.operations
    · obtain ⟨-, hsource, htarget⟩ := opIdFor_injective hsame
      exact Prod.ext hsource htarget
  · refine Table.onePer_of_map_eq ?_ (hnodup.map fun first second hsame ↦ ?_)
    · rw [map_messages (fun out ↦ (out.payload.data.fromState, out.payload.data.toState))
        (fun _ ↦ rfl), hhistory]
      exact h.events
    · obtain ⟨hsource, htarget⟩ := Prod.mk.inj hsame
      exact Prod.ext (State.value_injective (Option.some.inj hsource))
        (State.value_injective (Option.some.inj htarget))
  · have hopen : (openStates (history d row.orderId)).Nodup := by
      rw [hhistory]
      exact (h.path.nodup_entered depth_lt_of_legal).filter _
    refine Table.onePer_of_map_eq ?_ (hopen.map fun first second hsame ↦ ?_)
    · rw [map_messages (fun out ↦ out.payload.data.fromState) (fun _ ↦ rfl), hhistory]
      exact h.commands
    · exact State.value_injective (Option.some.inj hsame)

theorem lawfulTables_of_ledger (hledger : Ledger d) : LawfulTables d where
  orders := by
    refine Table.unique_of_length_filter_le_one fun orderId ↦ ?_
    show (d.slice orderId).orders.length ≤ 1
    rcases hledger orderId with hempty | ⟨row, hrow⟩
    · rw [hempty]
      exact Nat.zero_le 1
    · rw [hrow.orders]
      exact Nat.le_refl 1
  lawful row hrow := lawful_of_consistent (hledger.order hrow)
  transitions transition htransition := by
    have hmem := mem_slice_transitions.mpr ⟨htransition, rfl⟩
    obtain ⟨row, hrow, horder, -⟩ := hledger.exists_order fun hempty ↦ by
      rw [hempty] at hmem
      cases hmem
    exact ⟨row, hrow, horder⟩
  operations operation hoperation := by
    have hmem := mem_slice_operations.mpr ⟨hoperation, rfl⟩
    obtain ⟨row, hrow, horder, -⟩ := hledger.exists_order fun hempty ↦ by
      rw [hempty] at hmem
      cases hmem
    exact ⟨row, hrow, horder⟩
  outbox out hout := by
    have hmem := mem_slice_outbox hout
    obtain ⟨row, hrow, horder, -⟩ := hledger.exists_order fun hempty ↦ by
      rw [hempty] at hmem
      cases hmem
    exact ⟨row, hrow, horder⟩

/-- **The ledger is consistent and legal**, in every world of the orchestrator: whatever messages
are published and delivered, whatever the downstreams answer, and whatever fails. -/
theorem lawfulLedger (cfg : Config) (D : Downstreams)
    {w : World (orchestrator cfg D fun _ ↦ true)} (hw : World.Reachable World.anyEffect w) :
    LawfulTables w.shared.db.committed := by
  let X : Setting D := ⟨cfg, .trivial D, fun _ ↦ true, False, fun hstrict ↦ hstrict.elim⟩
  have hsound : Sound X w.shared :=
    sound_of_reachable (X := X) (hw.mono fun _ _ _ _ _ hstrict ↦ hstrict.elim)
  exact lawfulTables_of_ledger hsound.tables.ledger

/-! ### A run -/

def dinnerId : String := "00000000-0000-4000-8000-000000000001"

/-- The placed event of an order. -/
def dinnerPlaced : Envelope :=
  { eventId := "e0", type := .placed, orderId := dinnerId, ts := "t"
    data := { idempotencyKey := some "k", customerId := some "c", restaurantId := some "r",
              items := some [⟨"ramen", 2, 1450⟩], totalCents := some 2900 } }

section Runs

variable {cfg : Config} {foreign : Publication → Bool}

/-- The orchestrator starts, a placed event arrives and its order is inserted (thread 1), and the
relay publishes the first command (thread 2). -/
def placing : List (Action (orchestrator cfg D foreign)) :=
  [.launch .start, .step 0 .done,
   .ambient (.publish ⟨none, .events, rkPlaced, .envelope dinnerPlaced⟩),
   .launch (.onPlaced 0), .step 1 .done, .step 1 .done, .step 1 (.stamp ⟨"e1", "t"⟩), .step 1 .done,
   .step 1 .done, .step 1 .done,
   .launch .drainOnce, .step 2 .done, .step 2 .done, .step 2 .done, .step 2 .done, .step 2 .done]

end Runs

/-- The order is charged and confirmed by the first command (thread 3). -/
def advancing : List (Action (orchestrator {} .any fun _ ↦ true)) :=
  [.launch (.onAdvance 1), .step 3 .done, .step 3 (.flag false), .step 3 (.flag true),
    .step 3 .done, .step 3 (.response ⟨200, some {}, none⟩), .step 3 .done, .step 3 .done,
    .step 3 .done, .step 3 .done, .step 3 .done, .step 3 .done, .step 3 (.stamp ⟨"e2", "t"⟩),
    .step 3 .done, .step 3 (.stamp ⟨"e3", "t"⟩), .step 3 .done, .step 3 .done, .step 3 .done,
    .step 3 .done]

def confirming : List (Action (orchestrator {} .any fun _ ↦ true)) := placing ++ advancing

def confirmedWorld : World (orchestrator {} .any fun _ ↦ true) :=
  ((World.initial _).run confirming).get (by decide +kernel)

theorem lawfulLedger_confirmedWorld : LawfulTables confirmedWorld.shared.db.committed ∧
    confirmedWorld.shared.db.committed.orders.map OrderRow.state = [.confirmed] ∧
    confirmedWorld.shared.db.committed.transitions.length = 1 :=
  ⟨lawfulLedger {} .any (World.reachable_of_run (Option.some_get _).symm), by decide +kernel,
    by decide +kernel⟩

end DinnerRush.Orchestrator
