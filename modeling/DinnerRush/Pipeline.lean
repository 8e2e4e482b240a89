import DinnerRush.Ingestion.Authorship
import DinnerRush.Concurrency.Conduct
import DinnerRush.Orchestrator.Liveness

/-!
# From ingestion to the orchestrator

Both services from a first boot, in any order and with any crashes and restarts. What the relay of
ingestion publishes goes to the broker that the orchestrator consumes from. Between the two an order
is accounted for when the orchestrator has it, when its placed event is still to be relayed, or when
the broker holds that event.

Ingestion does not declare the queue of placed events, and a publication that no queue is bound for
is confirmed. So an event that is relayed before the orchestrator has first started is stamped and
gone (`not_noOrderLost_unboundPipeline`). An order is never lost when the queue is bound at every
publication of a placed event and no `nack` drops a placed event (`noOrderLost`).
-/

set_option autoImplicit false
set_option relaxedAutoImplicit false

namespace DinnerRush

open Concurrency Orchestrator

/-- The two services. The broker is part of the orchestrator's world. -/
structure Pipeline (cfg : Config) (D : Downstreams) where
  ingestion : World Ingestion.service
  orch : World (orchestrator cfg D noCommands)

namespace Pipeline

variable {cfg : Config} {D : Downstreams}

/-- What ingestion publishes for a row of its outbox. -/
def publicationOf (row : OutboxRow) : Publication :=
  ⟨none, row.exchange, row.routingKey, .envelope row.payload⟩

/-- The broker takes what ingestion publishes. -/
def take (w : World (orchestrator cfg D noCommands)) (rows : List OutboxRow) :
    World (orchestrator cfg D noCommands) :=
  { w with shared := rows.foldl (fun s row ↦ Shared.publish s (publicationOf row)) w.shared }

/-- An action of one of the services. -/
inductive Step (cfg : Config) (D : Downstreams)
  | ingestion (action : Action Ingestion.service)
  | orch (action : Action (orchestrator cfg D noCommands))

def initial (cfg : Config) (D : Downstreams) : Pipeline cfg D := ⟨.initial _, .initial _⟩

def act (p : Pipeline cfg D) : Step cfg D → Option (Pipeline cfg D)
  | .ingestion action => (p.ingestion.act action).map fun w ↦
      ⟨w, take p.orch (w.shared.sent.drop p.ingestion.shared.sent.length)⟩
  | .orch action => (p.orch.act action).map fun w ↦ { p with orch := w }

/-- The effect publishes an event, whether the publisher learns of it or not. -/
def publishes (effect : Ingestion.Effect) (choice : Ingestion.Choice) : Bool :=
  match effect, choice with
  | .publish _, .done => true
  | .publish _, .unconfirmed _ => true
  | _, _ => false

/-- Ingestion publishes only when the queue of placed events is bound. -/
def bound (b : Broker) : World.Permit Ingestion.service :=
  fun _ effect choice _ ↦ publishes effect choice = true → b.placedBound = true

instance (b : Broker) (thread : ℕ) (effect : Ingestion.signature.Effect)
    (choice : Ingestion.service.Choice) (s : Ingestion.service.Shared) :
    Decidable (bound b thread effect choice s) :=
  inferInstanceAs (Decidable (publishes effect choice = true → b.placedBound = true))

/-- The condition on a step: ingestion publishes to a bound queue, and the orchestrator's last
resort drops only what is expendable. -/
def safe (p : Pipeline cfg D) : Step cfg D → Bool
  | .ingestion action => p.ingestion.permits (bound p.orch.shared.broker) action
  | .orch action => p.orch.permits sparing action

/-- Reached from a first boot by steps that all meet the condition. -/
def Reachable (condition : Pipeline cfg D → Step cfg D → Bool) (p : Pipeline cfg D) : Prop :=
  Relation.ReflTransGen
    (fun before after ↦ ∃ step, condition before step = true ∧ before.act step = some after)
    (initial cfg D) p

/-- The pipeline after a list of steps, if each is enabled in its turn and meets the condition. -/
def run (condition : Pipeline cfg D → Step cfg D → Bool) (p : Pipeline cfg D) :
    List (Step cfg D) → Option (Pipeline cfg D)
  | [] => some p
  | step :: rest =>
    if condition p step then (p.act step).bind fun p' ↦ p'.run condition rest else none

theorem reflTransGen_of_run {condition : Pipeline cfg D → Step cfg D → Bool}
    {steps : List (Step cfg D)} : ∀ {p p' : Pipeline cfg D}, p.run condition steps = some p' →
      Relation.ReflTransGen
        (fun before after ↦ ∃ step, condition before step = true ∧ before.act step = some after)
        p p' := by
  induction steps with
  | nil =>
    intro p p' h
    obtain rfl : p = p' := by simpa [run] using h
    exact .refl
  | cons step rest ih =>
    intro p p' h
    unfold run at h
    split at h
    · rename_i hcondition
      obtain ⟨middle, hact, hrest⟩ := Option.bind_eq_some_iff.mp h
      exact .head ⟨step, hcondition, hact⟩ (ih hrest)
    · cases h

theorem reachable_of_run {condition : Pipeline cfg D → Step cfg D → Bool}
    {steps : List (Step cfg D)} {p : Pipeline cfg D}
    (h : (initial cfg D).run condition steps = some p) : p.Reachable condition :=
  reflTransGen_of_run h

/-! ### Accounting -/

/-- The placed event of an order. -/
def isPlacedOf (orderId : String) (env : Envelope) : Bool :=
  decide (env.type = .placed ∧ env.orderId = orderId)

/-- The orchestrator has the order, or its placed event is in an unpublished row of the outbox, in
a queue, or in a delivery that is not settled. -/
def accounted (p : Pipeline cfg D) (orderId : String) : Bool :=
  (p.orch.shared.db.committed.orders.any fun row ↦ decide (row.orderId = orderId)) ||
    (p.ingestion.shared.db.committed.outbox.any fun out ↦
      !out.published && isPlacedOf orderId out.payload) ||
    p.orch.shared.broker.copies.any fun copy ↦
      match copy.body with
      | .envelope env => isPlacedOf orderId env
      | .poison _ => false

def NoOrderLost (p : Pipeline cfg D) : Prop :=
  ∀ row ∈ p.ingestion.shared.db.committed.orders, p.accounted row.orderId = true

/-- Both services keep their disciplines, and what ingestion has sent was routed. -/
structure Sound (p : Pipeline cfg D) : Prop where
  ingestion : Ingestion.discipline.Holds p.ingestion
  orch : (discipline (custodySetting cfg D)).Holds p.orch
  routed : ∀ row ∈ p.ingestion.shared.sent, ∃ publication ∈ p.orch.shared.broker.log,
    publication.body = .envelope row.payload

variable {p p' : Pipeline cfg D}

/-- What was sent is the placed event of an order. -/
theorem exists_announces_of_sent {s : Ingestion.Shared} (hinv : Ingestion.Sound s)
    {row : OutboxRow} (hrow : row ∈ s.sent) :
    ∃ order ∈ s.db.committed.orders, Ingestion.Announces row order := by
  obtain ⟨event, hevent, rfl⟩ := hinv.sent row hrow
  obtain ⟨order, horder, hannounces⟩ :=
    (Table.exists_mem_of_forall₂ hinv.events).1 event hevent
  exact ⟨order, horder, { hannounces with }⟩

/-- Only a publication adds to what ingestion has sent. -/
theorem sent_of_exec {thread : ℕ} {effect : Ingestion.Effect} {choice : Ingestion.Choice}
    {s s' : Ingestion.Shared} {reply : Except Failure effect.Result}
    (h : Ingestion.exec thread effect choice s = some (reply, s')) :
    s'.sent = s.sent ∨ publishes effect choice = true := by
  cases effect with
  | publish row =>
    cases choice with
    | done => exact Or.inr rfl
    | unconfirmed text => exact Or.inr rfl
    | lost text =>
      obtain ⟨-, rfl⟩ := Prod.mk.inj (Option.some.inj h)
      exact Or.inl rfl
    | _ => cases h
  | _ =>
    left
    simp only [Ingestion.exec] at h
    cases choice <;> grind [Ingestion.Shared.insertOrder, Ingestion.Shared.enqueue]

/-- A step of ingestion that sends something sends it to a bound queue. -/
theorem bound_of_sent {w w' : World Ingestion.service} {b : Broker}
    {action : Action Ingestion.service} (hbound : w.Permitted (bound b) action)
    (hact : w.act action = some w') : w'.shared.sent = w.shared.sent ∨ b.placedBound = true := by
  cases action with
  | launch started =>
    left
    obtain ⟨program, s', hlaunch, rfl⟩ := World.act_launch hact
    cases started <;> obtain ⟨-, rfl⟩ := Prod.mk.inj (Option.some.inj hlaunch) <;> rfl
  | step thread choice =>
    obtain ⟨effect, resume, reply, s', hthread, hexec, rfl⟩ := World.act_step hact
    exact (sent_of_exec hexec).imp_right (hbound effect resume hthread)
  | kill thread =>
    left
    rw [World.act_kill hact]
  | ambient aborted =>
    left
    obtain ⟨s', hambient, rfl⟩ := World.act_ambient hact
    obtain rfl := Option.some.inj hambient
    rfl

/-- To the orchestrator, another service publishes. -/
theorem act_publish (w : World (orchestrator cfg D noCommands)) {row : OutboxRow}
    (hplaced : row.payload.type = .placed) :
    w.act (.ambient (.publish (publicationOf row))) =
      some { w with shared := Shared.publish w.shared (publicationOf row) } := by
  have hallowed :
      ((publicationOf row).publisher.isNone && noCommands (publicationOf row)) = true := by
    rw [noCommands, publicationOf, Body.type, hplaced]
    rfl
  show Option.map _ (if _ then some _ else none) = _
  rw [if_pos hallowed]
  rfl

/-- The orchestrator is at home with what ingestion publishes. -/
theorem holds_take {w : World (orchestrator cfg D noCommands)} {rows : List OutboxRow}
    (hw : (discipline (custodySetting cfg D)).Holds w)
    (hrows : ∀ row ∈ rows, row.payload.type = .placed) :
    (discipline (custodySetting cfg D)).Holds (take w rows) := by
  induction rows generalizing w with
  | nil => exact hw
  | cons row rest ih =>
    have hpermit : w.Permitted (discipline (custodySetting cfg D)).Permit
      (.ambient (.publish (publicationOf row))) := trivial
    have hact := act_publish w (hrows row List.mem_cons_self)
    have hnext := Discipline.Holds.act (verified (custodySetting cfg D)) hw hpermit hact
    exact ih hnext fun other hother ↦ hrows other (List.mem_cons_of_mem row hother)

theorem traced_take {launches : List (orchestrator cfg D noCommands).Launch}
    {w : World (orchestrator cfg D noCommands)}
    {rows : List OutboxRow} (hw : World.Traced World.anyEffect launches w)
    (hrows : ∀ row ∈ rows, row.payload.type = .placed) :
    World.Traced World.anyEffect launches (take w rows) := by
  induction rows generalizing w with
  | nil => exact hw
  | cons row rest ih =>
    have hnext := hw.act (World.permitted_anyEffect _ _)
      (act_publish w (hrows row List.mem_cons_self))
    have hnone : launches ++ World.launchOf (M := orchestrator cfg D noCommands)
        (.ambient (.publish (publicationOf row))) = launches := List.append_nil launches
    rw [hnone] at hnext
    exact ih hnext fun other hother ↦ hrows other (List.mem_cons_of_mem row hother)

theorem log_take (w : World (orchestrator cfg D noCommands)) (rows : List OutboxRow) :
    w.shared.broker.log <+: (take w rows).shared.broker.log := by
  induction rows generalizing w with
  | nil => exact List.prefix_rfl
  | cons row rest ih =>
    exact (Broker.log_publish w.shared.broker (publicationOf row)).trans
      (ih { w with shared := Shared.publish w.shared (publicationOf row) })

/-- What the broker has logged is from before, or of the rows. -/
theorem mem_log_take {w : World (orchestrator cfg D noCommands)} {rows : List OutboxRow}
    {publication : Publication} (h : publication ∈ (take w rows).shared.broker.log) :
    publication ∈ w.shared.broker.log ∨ ∃ row ∈ rows, publication = publicationOf row := by
  induction rows generalizing w with
  | nil => exact Or.inl h
  | cons row rest ih =>
    let w₁ : World (orchestrator cfg D noCommands) :=
      { w with shared := Shared.publish w.shared (publicationOf row) }
    have hrest : publication ∈ (take w₁ rest).shared.broker.log := h
    rcases ih hrest with hbefore | ⟨later, hlater, hsame⟩
    · rcases Broker.mem_log_of_publish hbefore with hold | hnew
      · exact Or.inl hold
      · exact Or.inr ⟨row, List.mem_cons_self, hnew⟩
    · exact Or.inr ⟨later, List.mem_cons_of_mem row hlater, hsame⟩

/-- Placed events that are published to a bound queue are routed. -/
theorem routed_take {w : World (orchestrator cfg D noCommands)} {rows : List OutboxRow}
    (hbound : w.shared.broker.placedBound = true)
    (hrows : ∀ row ∈ rows, row.exchange = .events ∧ row.routingKey = rkPlaced) :
    ∀ row ∈ rows, ∃ publication ∈ (take w rows).shared.broker.log,
      publication.body = .envelope row.payload := by
  induction rows generalizing w with
  | nil =>
    intro row hrow
    cases hrow
  | cons first rest ih =>
    let w₁ : World (orchestrator cfg D noCommands) :=
      { w with shared := Shared.publish w.shared (publicationOf first) }
    intro row hrow
    rcases List.mem_cons.mp hrow with rfl | hlater
    · obtain ⟨hexchange, hkey⟩ := hrows row List.mem_cons_self
      have hlogged : publicationOf row ∈ w₁.shared.broker.log :=
        Broker.mem_log_publish hbound hexchange hkey
      exact ⟨publicationOf row, (log_take w₁ rest).subset hlogged, rfl⟩
    · have hbound₁ : w₁.shared.broker.placedBound = true :=
        (Broker.bound_publish _ _).trans hbound
      exact ih hbound₁ (fun other hother ↦ hrows other (List.mem_cons_of_mem first hother)) row
        hlater

/-! ### The guarantee -/

theorem sound_initial : Sound (initial cfg D) where
  ingestion := Discipline.holds_initial Ingestion.verified
  orch := Discipline.holds_initial (verified (custodySetting cfg D))
  routed row hrow := by cases hrow

theorem Sound.ingest {action : Action Ingestion.service} (h : Sound p)
    (hbound : p.ingestion.Permitted (bound p.orch.shared.broker) action)
    (hact : p.act (.ingestion action) = some p') : Sound p' := by
  obtain ⟨w, hw, rfl⟩ := Option.map_eq_some_iff.mp hact
  have hnext : Ingestion.discipline.Holds w := Discipline.Holds.act Ingestion.verified h.ingestion
    (World.permitted_anyEffect _ _) hw
  have hannounces : ∀ row ∈ w.shared.sent.drop p.ingestion.shared.sent.length,
      ∃ order, Ingestion.Announces row order := by
    intro row hrow
    obtain ⟨order, -, horder⟩ := exists_announces_of_sent hnext.inv (List.mem_of_mem_drop hrow)
    exact ⟨order, horder⟩
  have hprefix : p.ingestion.shared.sent <+: w.shared.sent :=
    (Discipline.Holds.act_rely Ingestion.verified h.ingestion (World.permitted_anyEffect _ _) hw
      (Nat.le_refl _)).sent
  constructor
  · exact hnext
  · refine holds_take h.orch fun row hrow ↦ ?_
    obtain ⟨order, horder⟩ := hannounces row hrow
    exact horder.type
  · intro row hrow
    obtain ⟨later, hsent⟩ := hprefix
    have hdrop : w.shared.sent.drop p.ingestion.shared.sent.length = later := by
      rw [← hsent]
      exact List.drop_left
    rw [← hsent] at hrow
    rcases List.mem_append.mp hrow with hold | hnew
    · obtain ⟨publication, hlogged, hbody⟩ := h.routed row hold
      exact ⟨publication, (log_take p.orch _).subset hlogged, hbody⟩
    · have hqueue : p.orch.shared.broker.placedBound = true := by
        refine (bound_of_sent hbound hw).resolve_left fun hsame ↦ ?_
        rw [hsame, List.drop_length] at hdrop
        rw [← hdrop] at hnew
        cases hnew
      refine routed_take hqueue (fun other hother ↦ ?_) row (by rw [hdrop]; exact hnew)
      obtain ⟨order, horder⟩ := hannounces other hother
      exact ⟨horder.exchange, horder.routingKey⟩

theorem Sound.orchestrate {action : Action (orchestrator cfg D noCommands)} (h : Sound p)
    (hspared : p.orch.Permitted sparing action) (hact : p.act (.orch action) = some p') :
    Sound p' := by
  obtain ⟨w, hw, rfl⟩ := Option.map_eq_some_iff.mp hact
  have hpermit : p.orch.Permitted (discipline (custodySetting cfg D)).Permit action :=
    hspared.mono fun _ _ _ _ hspared _ ↦ hspared
  have hgrows : Relies (custodySetting cfg D) w.next p.orch.shared w.shared :=
    Discipline.Holds.act_rely (verified (custodySetting cfg D)) h.orch hpermit hw (Nat.le_refl _)
  constructor
  · exact h.ingestion
  · exact Discipline.Holds.act (verified (custodySetting cfg D)) h.orch hpermit hw
  · intro row hrow
    obtain ⟨publication, hlogged, hbody⟩ := h.routed row hrow
    exact ⟨publication, hgrows.log.subset hlogged, hbody⟩

theorem sound_of_reachable (hp : p.Reachable safe) : Sound p := by
  induction hp with
  | refl => exact sound_initial
  | tail _ hstep ih =>
    obtain ⟨step, hsafe, hact⟩ := hstep
    cases step with
    | ingestion action => exact ih.ingest (World.permitted_of_permits hsafe) hact
    | orch action => exact ih.orchestrate (World.permitted_of_permits hsafe) hact

/-- An order of ingestion is accounted for. -/
theorem Sound.accounted (h : Sound p) {row : Ingestion.OrderRow}
    (hrow : row ∈ p.ingestion.shared.db.committed.orders) : p.accounted row.orderId = true := by
  have hinv : Ingestion.Sound p.ingestion.shared := h.ingestion.inv
  have hcustody : Custody p.orch.shared.db.committed p.orch.shared.broker :=
    (Orchestrator.Sound.custody h.orch.inv) trivial
  obtain ⟨event, hevent, hannounces⟩ :=
    (Table.exists_mem_of_forall₂ hinv.events).2 row hrow
  unfold Pipeline.accounted
  rw [Bool.or_eq_true, Bool.or_eq_true, List.any_eq_true, List.any_eq_true, List.any_eq_true]
  by_cases hpublished : event.published = true
  · -- A stamped event was sent, so it is in the custody of the broker.
    obtain ⟨publication, hlogged, hbody⟩ := h.routed _ (hinv.stamped event hevent hpublished)
    obtain ⟨i, hi, hat⟩ := List.mem_iff_getElem.mp hlogged
    have hduty : duty publication.body = some (.insert row.orderId) := by
      rw [hbody, ← hannounces.orderId]
      show dutyOf event.payload = _
      rw [dutyOf, hannounces.type]
    rcases hcustody.kept i publication _ (List.getElem?_eq_some_iff.mpr ⟨hi, hat⟩) hduty with
      ⟨order, horder, hsame⟩ | ⟨copy, hcopy, -, htask⟩
    · exact Or.inl (Or.inl ⟨order, horder, decide_eq_true hsame⟩)
    · refine Or.inr ⟨copy, hcopy, ?_⟩
      cases hcontent : copy.body with
      | poison bytes =>
        rw [hcontent] at htask
        cases htask
      | envelope env =>
        rw [hcontent] at htask
        exact decide_eq_true (dutyOf_insert htask)
  · refine Or.inl (Or.inr ⟨event, hevent, ?_⟩)
    rw [Bool.not_eq_true] at hpublished
    rw [hpublished, Bool.not_false, Bool.true_and]
    exact decide_eq_true ⟨hannounces.type, hannounces.orderId⟩

/-- **No accepted order is lost**, in every run in which placed events are published to a bound
queue and the last resort of the orchestrator drops only what is expendable. -/
theorem noOrderLost (cfg : Config) (D : Downstreams) {p : Pipeline cfg D}
    (hp : p.Reachable safe) : p.NoOrderLost :=
  fun _ hrow ↦ (sound_of_reachable hp).accounted hrow

/-! ### Two start orders -/

/-- The orchestrator starts. -/
def starting : List (Step {} .any) :=
  [.orch (.launch .start), .orch (.step 0 .done)]

/-- Ingestion accepts an order (thread 0) and relays its event (thread 1). -/
def ingesting : List (Step {} .any) :=
  [.launch (.placeOrder Ingestion.dinner), .step 0 (.uuid dinnerId), .step 0 .done, .step 0 .done,
    .step 0 (.stamp ⟨"e", "t"⟩), .step 0 .done, .step 0 .done, .launch .drainOnce, .step 1 .done,
    .step 1 .done, .step 1 .done, .step 1 .done, .step 1 .done].map .ingestion

/-- The orchestrator started first: the event waits in its queue. -/
def boundPipeline : Pipeline {} .any :=
  ((initial {} .any).run safe (starting ++ ingesting)).get (by decide)

theorem noOrderLost_boundPipeline : boundPipeline.NoOrderLost ∧
    boundPipeline.ingestion.shared.db.committed.orders.length = 1 ∧
    boundPipeline.orch.shared.broker.copies.length = 1 :=
  ⟨noOrderLost {} .any (reachable_of_run (Option.some_get _).symm), by decide, by decide⟩

/-- Any step. -/
def anyStep (_ : Pipeline {} .any) (_ : Step {} .any) : Bool := true

/-- Ingestion was first: the event was relayed and stamped, and no queue has it. -/
def unboundPipeline : Pipeline {} .any :=
  ((initial {} .any).run anyStep (ingesting ++ starting)).get (by decide)

theorem reachable_unboundPipeline : unboundPipeline.Reachable anyStep :=
  reachable_of_run (Option.some_get _).symm

theorem not_noOrderLost_unboundPipeline :
    ¬ ∀ p : Pipeline {} .any, p.Reachable anyStep → p.NoOrderLost := by
  intro h
  have hlost : ¬ ∀ row ∈ unboundPipeline.ingestion.shared.db.committed.orders,
      unboundPipeline.accounted row.orderId = true := by decide
  exact hlost (h unboundPipeline reachable_unboundPipeline)

end Pipeline

end DinnerRush
