import DinnerRush.Orchestrator.Lifecycle

/-!
# No order is stuck

An order that is not finished has a command for its state: in an unpublished row of the outbox, in
one of the queues, or in a delivery that is not settled (`noStuckOrder`). There is one way to lose
the last command. When a handler fails and cannot publish the command again either, its last resort
is `nack(requeue=False)`, and the work queue has no dead-letter exchange, so the command is gone
(`not_noStuckOrder_strandedWorld`). `sparing` is the condition that this does not happen to a
command that is still needed.
-/

set_option autoImplicit false
set_option relaxedAutoImplicit false

namespace DinnerRush.Orchestrator

open Concurrency Discipline

variable {cfg : Config} {D : Downstreams} {s : Shared D}

/-- An `order.advance` command for the order that names its state. -/
def isCommandFor (row : OrderRow) (env : Envelope) : Bool :=
  decide (env.type = .advance ∧ env.orderId = row.orderId ∧
    env.data.fromState = some row.state.value)

/-- In the work queue, the retry queue or the DLQ, or delivered and not yet settled. -/
def inPipeline : Place → Bool
  | .ready queue => decide (queue = .advance ∨ queue = .advanceRetry ∨ queue = .dlq)
  | .unacked _ _ => true

/-- The order has a command for its state. -/
def hasCommand (s : Shared D) (row : OrderRow) : Bool :=
  (s.db.committed.outbox.any fun out ↦ !out.published && isCommandFor row out.payload) ||
    s.broker.copies.any fun copy ↦ inPipeline copy.place &&
      match copy.body with
      | .envelope env => isCommandFor row env
      | .poison _ => false

def NoStuckOrder (s : Shared D) : Prop :=
  ∀ row ∈ s.db.committed.orders, isTerminal row.state = false → hasCommand s row = true

/-- Other services publish no commands. -/
def noCommands (publication : Publication) : Bool := publication.body.type != some .advance

/-- What a last-resort `nack` drops is expendable: the order does not wait for it, or it was
published again. -/
def sparing {foreign : Publication → Bool} : World.Permit (orchestrator cfg D foreign) :=
  fun thread effect choice s ↦ dropsExpendable (D := D) thread effect choice s = true

instance {foreign : Publication → Bool} (thread : ℕ) (effect : signature.Effect)
    (choice : (orchestrator cfg D foreign).Choice) (s : (orchestrator cfg D foreign).Shared) :
    Decidable (sparing thread effect choice s) :=
  inferInstanceAs (Decidable (dropsExpendable (D := D) thread effect choice s = true))

/-- The setting in which custody is kept. -/
def custodySetting (cfg : Config) (D : Downstreams) : Setting D where
  cfg := cfg
  contract := .trivial D
  foreign := noCommands
  strict := True
  quiet _ publication hforeign := by simpa [noCommands] using hforeign

/-- In custody, every unfinished order has a command. -/
theorem Custody.noStuck (h : Custody s.db.committed s.broker)
    (hledger : Ledger s.db.committed) : NoStuckOrder s := by
  intro row hrow hopen
  rw [hasCommand, Bool.or_eq_true, List.any_eq_true, List.any_eq_true]
  rcases h.command hledger hrow hopen with ⟨out, hout, hunpublished, hcommands⟩ | hheld
  · refine Or.inl ⟨out, hout, ?_⟩
    rw [hunpublished, Bool.not_false, Bool.true_and, isCommandFor, decide_eq_true_eq]
    exact ⟨hcommands.type, hcommands.orderId, hcommands.fromState⟩
  · obtain ⟨copy, hcopy, hduty⟩ := hheld
    refine Or.inr ⟨copy, hcopy, ?_⟩
    cases hbody : copy.body with
    | poison bytes =>
      rw [hbody] at hduty
      cases hduty
    | envelope env =>
      rw [hbody] at hduty
      obtain ⟨htype, horder, hfrom⟩ := dutyOf_advance hduty
      have hcommand : isCommandFor row env = true := by
        rw [isCommandFor, decide_eq_true_eq]
        exact ⟨htype, horder, hfrom⟩
      show (inPipeline copy.place && isCommandFor row env) = true
      rw [hcommand, Bool.and_true]
      cases hplace : copy.place with
      | unacked queue consumer => rfl
      | ready queue =>
        cases queue with
        | orchPlaced =>
          -- The queue of placed events holds no command.
          have hplaced := h.placed copy hcopy (by rw [hplace]; rfl)
          rw [hbody] at hplaced
          exact absurd (congrArg some htype) hplaced
        | _ => rfl

/-- **No order is stuck**, in every run in which the last resort drops only what is expendable. -/
theorem noStuckOrder (cfg : Config) (D : Downstreams) {w : World (orchestrator cfg D noCommands)}
    (hw : World.Reachable sparing w) : NoStuckOrder w.shared := by
  have hsound : Sound (custodySetting cfg D) w.shared :=
    sound_of_reachable (hw.mono fun _ _ _ _ hspared _ ↦ hspared)
  exact (hsound.custody trivial).noStuck hsound.tables.ledger

/-- A handler reads nothing and cannot publish either: its command goes (thread 3). -/
def stranding (confirms : Bool) : List (Action (orchestrator {} .any noCommands)) :=
  placing ++ [.launch (.onAdvance 1), .step 3 (.lost "connection is closed"), .step 3 .done,
    .step 3 .done, .step 3 .done,
    .step 3 (if confirms then .unconfirmed "timeout" else .lost "channel is closed"), .step 3 .done]

/-- The command was taken by the broker, although the publish raised. -/
def sparedWorld : World (orchestrator {} .any noCommands) :=
  ((World.initial _).runPermitted sparing (stranding true)).get (by decide)

theorem noStuckOrder_sparedWorld : NoStuckOrder sparedWorld.shared ∧
    sparedWorld.shared.db.committed.orders.map OrderRow.state = [.placed] ∧
    sparedWorld.shared.broker.copies.length = 1 :=
  ⟨noStuckOrder {} .any (World.reachable_of_runPermitted (Option.some_get _).symm), by decide,
    by decide⟩

/-- The command was dropped. -/
def strandedWorld : World (orchestrator {} .any noCommands) :=
  ((World.initial _).run (stranding false)).get (by decide)

theorem reachable_strandedWorld : World.Reachable World.anyEffect strandedWorld :=
  World.reachable_of_run (Option.some_get _).symm

theorem not_noStuckOrder_strandedWorld :
    ¬ ∀ w : World (orchestrator {} .any noCommands), World.Reachable World.anyEffect w →
      NoStuckOrder w.shared := by
  intro h
  have hstranded : ¬ ∀ row ∈ strandedWorld.shared.db.committed.orders,
      isTerminal row.state = false → hasCommand strandedWorld.shared row = true := by decide
  exact hstranded (h strandedWorld reachable_strandedWorld)

end DinnerRush.Orchestrator
