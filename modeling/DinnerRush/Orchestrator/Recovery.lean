import DinnerRush.Orchestrator.Capabilities
import DinnerRush.Orchestrator.Liveness

/-!
# No order is beyond recovery

A command that an order waits for is somewhere, but it may be anywhere: unpublished in the outbox
behind a lock, on its way back from the retry queue, parked in the DLQ, or with a handler that died.
From each of these places it can be brought to the work queue (`exists_run_ready`), by rounds of the
relay, by the broker, or by a replay of the DLQ, without a change to the orders or to the
downstreams. What a handler can do with it there is up to the downstreams (`exists_run_handled`).
-/

set_option autoImplicit false
set_option relaxedAutoImplicit false

namespace DinnerRush

open Concurrency Machine

namespace Outbox

/-- A row that can be found is found, unless others are. -/
theorem unpublished_ne_nil {batch : ℕ} (hbatch : 0 < batch) {free : ℕ → Bool}
    {rows : List OutboxRow} {row : OutboxRow} (hrow : row ∈ rows)
    (hunpublished : row.published = false) (hfree : free row.id) :
    unpublished batch free rows ≠ [] := by
  have hmem : row ∈ (rows.filter fun row ↦ !row.published && free row.id).insertionSort
      fun a b ↦ a.id ≤ b.id := by
    rw [List.mem_insertionSort, List.mem_filter, hunpublished, hfree]
    exact ⟨hrow, rfl⟩
  rw [unpublished, ne_eq, List.take_eq_nil_iff, not_or]
  exact ⟨Nat.ne_of_gt hbatch, List.ne_nil_of_mem hmem⟩

/-- The rows that wait for the relay. -/
def backlog (rows : List OutboxRow) : ℕ := rows.countP fun row ↦ !row.published

/-- Stamping a row that waits shortens the backlog. -/
theorem backlog_stamp_lt {ids : List ℕ} {rows : List OutboxRow} {row : OutboxRow}
    (hrow : row ∈ rows) (hunpublished : row.published = false) (hid : row.id ∈ ids) :
    backlog (stamp ids rows) < backlog rows := by
  rw [backlog, stamp, List.countP_map]
  refine Table.countP_lt (fun other _ hother ↦ ?_) hrow ?_ (by rw [hunpublished]; rfl)
  · rw [Function.comp_apply] at hother
    split at hother
    · cases hother
    · exact hother
  · rw [Function.comp_apply, if_pos hid]
    rfl

end Outbox

namespace Broker

variable {b : Broker} {copy : Copy}

theorem mem_move {selected : Copy → Bool} (target : Copy → Copy) (hcopy : copy ∈ b.copies)
    (hselected : selected copy = true) : target copy ∈ (b.move selected target).copies :=
  List.mem_map.mpr ⟨copy, hcopy, if_pos hselected⟩

/-- A message that is ready can be delivered. There may be copies with its number, but they have its
body. -/
theorem exists_deliver (hfiled : b.Filed) (hcopy : copy ∈ b.copies) {queue : Queue}
    (hplace : copy.place = .ready queue) (consumer : ℕ) :
    ∃ message b', b.deliver copy.number queue consumer = some (message, b') ∧
      message.body = copy.body := by
  have hready : readyIn copy.number queue copy = true := decide_eq_true ⟨rfl, hplace⟩
  obtain ⟨found, hfound⟩ := Option.isSome_iff_exists.mp
    (List.find?_isSome.mpr ⟨copy, hcopy, hready⟩)
  have hfoundReady : readyIn copy.number queue found = true := List.find?_some hfound
  have hnumber : found.number = copy.number := (of_decide_eq_true hfoundReady).1
  obtain ⟨publication, hlogged, hbody⟩ := hfiled copy hcopy
  obtain ⟨publication', hlogged', hbody'⟩ := hfiled found (List.mem_of_find?_eq_some hfound)
  rw [hnumber, hlogged] at hlogged'
  obtain rfl := Option.some.inj hlogged'
  have hdeliver : b.deliver copy.number queue consumer =
      some (⟨found.number, found.body, found.redelivered⟩, b.move (readyIn copy.number queue)
        fun copy ↦ { copy with place := .unacked queue consumer }) := by
    rw [deliver, hfound]
    rfl
  exact ⟨_, _, hdeliver, hbody'.symm.trans hbody⟩

end Broker

namespace Orchestrator

variable {D : Downstreams} {X : Setting D} {thread : ℕ} {s : Shared D}
  {E : Failure → Shared D → Prop}

/-! ### A round of the relay -/

section Round

variable {d : Db} {st : D.State} {rows : List OutboxRow}

theorem able_publish {exchange : Exchange} {routingKey : String} {body : Body}
    {Q : Unit → Shared D → Prop}
    (hQ : Q () (s.publish ⟨some thread, exchange, routingKey, body⟩)) :
    Able X thread Q E (perform (.publish exchange routingKey body)) s :=
  able_perform .done rfl rfl hQ

/-- The relay finds the rows that are free, of which there is one if a row waits: whoever else holds
its lock is aborted. -/
theorem able_selectUnpublished {row : OutboxRow} {Q : List OutboxRow → Shared D → Prop}
    (h : Uncommitted thread d st [] s) (hrow : row ∈ d.outbox)
    (hunpublished : row.published = false)
    (hQ : ∀ rows s₁, rows ≠ [] → (∀ row ∈ rows, row ∈ d.outbox ∧ row.published = false) →
      Uncommitted thread d st [] s₁ → Q rows s₁) :
    Able X thread Q E (perform (.selectUnpublished Outbox.batchSize)) s := by
  obtain ⟨s₁, hambience, hfree, h₁⟩ := h.exists_free (X := X) (.outbox row.id)
  have hview : s₁.view thread = d := h₁.view
  have hfound : s₁.unpublished thread Outbox.batchSize ≠ [] := by
    unfold Shared.unpublished
    rw [hview]
    exact Outbox.unpublished_ne_nil (by decide) hrow hunpublished hfree
  have hread : ∀ row ∈ s₁.unpublished thread Outbox.batchSize,
      row ∈ d.outbox ∧ row.published = false := by
    intro row hrow
    obtain ⟨hmem, hunpublished, -⟩ := Outbox.mem_of_mem_unpublished hrow
    rw [hview] at hmem
    exact ⟨hmem, hunpublished⟩
  refine can_call Choice.done (s₁.unpublished thread Outbox.batchSize) hambience (fun _ ↦ rfl)
    (if_pos h₁.inTransaction) (hQ _ _ hfound hread ⟨?_, h₁.downstream, ?_⟩)
  · exact (Transactions.committed_lockAll _ _ _).trans h₁.committed
  · show (s₁.lockUnpublished thread Outbox.batchSize).pending thread = some []
    unfold Shared.lockUnpublished
    rw [Transactions.pending_lockAll]
    exact h₁.pending

theorem able_publishAll {Q : List ℕ → Shared D → Prop} (h : Uncommitted thread d st [] s)
    (hQ : ∀ s₁, Uncommitted thread d st [] s₁ → Q (rows.map OutboxRow.id) s₁) :
    Able X thread Q E (relay.publishAll rows) s := by
  induction rows generalizing s Q with
  | nil => exact hQ s h
  | cons row rest ih =>
    refine can_bind (able_publish ?_)
    exact can_bind (ih ⟨h.committed, h.downstream, h.pending⟩ hQ)

theorem able_stamp {ids : List ℕ} {Q : Unit → Shared D → Prop} (h : Uncommitted thread d st [] s)
    (hQ : ∀ s₁, Uncommitted thread d st [.stamp ids] s₁ → Q () s₁) :
    Able X thread Q E (perform (.stamp ids)) s := by
  refine able_perform .done (if_pos h.inTransaction) rfl (hQ _ ⟨h.committed, h.downstream, ?_⟩)
  show Function.update s.db.pending thread ((s.db.pending thread).map fun writes ↦ _) thread = _
  rw [Function.update_self, h.pending]
  rfl

/-- A round of the relay can shorten the backlog, if there is one. -/
theorem able_drainOnce {row : OutboxRow} {Q : ℕ → Shared D → Prop}
    (hrow : row ∈ s.db.committed.outbox) (hunpublished : row.published = false)
    (hQ : ∀ count ids (s₁ : Shared D), s₁.db.committed = s.db.committed.apply (.stamp ids) →
      s₁.downstream = s.downstream →
        Outbox.backlog s₁.db.committed.outbox < Outbox.backlog s.db.committed.outbox →
          Q count s₁) :
    Able X thread Q E relay.drainOnce s := by
  refine can_transaction (able_begin fun s₁ h₁ ↦ ?_)
  refine can_bind (able_selectUnpublished h₁ hrow hunpublished fun rows s₂ hrows hread h₂ ↦ ?_)
  obtain ⟨first, rest, rfl⟩ := List.exists_cons_of_ne_nil hrows
  refine can_bind (able_publishAll h₂ fun s₃ h₃ ↦ ?_)
  refine can_bind (able_stamp h₃ fun s₄ h₄ ↦ ?_)
  refine able_commit h₄ fun s₅ hcommitted hdownstream ↦ hQ _ _ s₅ hcommitted hdownstream ?_
  rw [hcommitted]
  obtain ⟨hfirst, hwaits⟩ := hread first List.mem_cons_self
  exact Outbox.backlog_stamp_lt hfirst hwaits List.mem_cons_self

end Round

/-! ### Bringing a command to the work queue -/

/-- A message with the body is ready in the work queue. -/
def Waiting (s : Shared D) (body : Body) : Prop :=
  ∃ copy ∈ s.broker.copies, copy.place = .ready .advance ∧ copy.body = body

/-- A replay of one message brings it to the work queue, with a new counter. -/
theorem able_replayDlq {copy : Copy} {env : Envelope} {Q : ℕ → Shared D → Prop}
    (hfiled : s.broker.Filed) (hcopy : copy ∈ s.broker.copies) (hplace : copy.place = .ready .dlq)
    (hbody : copy.body = .envelope env)
    (hQ : ∀ count (s₁ : Shared D), s₁.db = s.db → s₁.downstream = s.downstream →
      Waiting s₁ (.envelope { env with attempt := 1 }) → Q count s₁) :
    Able X thread Q E (replayDlq 1) s := by
  obtain ⟨message, b, hdeliver, hmessage⟩ := Broker.exists_deliver hfiled hcopy hplace thread
  have hget : exec thread .getDlq (.message copy.number) s =
      some (.ok (some message), s.settle b) := by
    rw [exec, hdeliver]
    rfl
  refine can_bind (able_perform (.message copy.number) hget rfl ?_)
  rw [hbody] at hmessage
  simp only [hmessage]
  refine can_bind (able_publish ?_)
  refine can_bind (able_perform .done rfl rfl ?_)
  refine hQ _ _ rfl rfl
    ⟨⟨b.log.length, .envelope { env with attempt := 1 }, false, .ready .advance⟩,
      List.mem_filter.mpr ⟨List.mem_append_right _ List.mem_cons_self, ?_⟩, rfl, rfl⟩
  rw [Broker.awaits, Bool.and_false]
  rfl

/-- The orders are as they were, and so is all that the downstreams have. -/
structure Standstill (s s' : Shared D) : Prop where
  orders : s'.db.committed.orders = s.db.committed.orders
  downstream : s'.downstream = s.downstream

theorem Standstill.refl (s : Shared D) : Standstill s s := ⟨rfl, rfl⟩

theorem Standstill.trans {s₁ s₂ s₃ : Shared D} (h : Standstill s₁ s₂) (h' : Standstill s₂ s₃) :
    Standstill s₁ s₃ :=
  ⟨h'.orders.trans h.orders, h'.downstream.trans h.downstream⟩

section Runs

variable {w : World X.machine} {row : OrderRow}

/-- The runs of a setting. -/
abbrev Goes (X : Setting D) : World X.machine → World X.machine → Prop :=
  Relation.ReflTransGen (World.Step (discipline X).Permit)

/-- What a launch can do, when nothing is raised. -/
theorem exists_goes_of_launch {launched : Launch} {program : Proc Unit} {s : Shared D}
    {P : Shared D → Prop} (hlaunch : launch X.cfg w.next launched w.shared = some (program, s))
    (h : Able X w.next (fun _ ↦ P) (fun _ _ ↦ False) program s) :
    ∃ w', Goes X w w' ∧ P w'.shared := by
  obtain ⟨w', hrun, hended⟩ := World.exists_run_of_launch hlaunch h
  rcases hended with ⟨value, -, hP⟩ | ⟨error, -, hfalse⟩
  · exact ⟨w', hrun, hP⟩
  · exact hfalse.elim

theorem exists_goes_of_ambient (act : Ambient D) {s : Shared D}
    (h : ambient X.foreign act w.shared = some s) : ∃ w', Goes X w w' ∧ w'.shared = s :=
  ⟨{ w with shared := s }, .single ⟨.ambient act, trivial, World.act_of_ambient h⟩, rfl⟩

/-- The relay can catch up. -/
theorem exists_run_relayed (w : World X.machine) :
    ∃ w', Goes X w w' ∧ Standstill w.shared w'.shared ∧
      ∀ row ∈ w'.shared.db.committed.outbox, row.published = true := by
  -- By induction on the backlog, which a round can shorten.
  induction hbacklog : Outbox.backlog w.shared.db.committed.outbox using Nat.strong_induction_on
    generalizing w with
  | _ backlog ih =>
    by_cases hwaits : ∃ row ∈ w.shared.db.committed.outbox, row.published = false
    · obtain ⟨row, hrow, hunpublished⟩ := hwaits
      obtain ⟨w₁, hrun₁, hsame₁, hlt⟩ := exists_goes_of_launch (w := w)
        (P := fun s ↦ Standstill w.shared s ∧
          Outbox.backlog s.db.committed.outbox < backlog)
        (show launch X.cfg w.next .drainOnce w.shared = _ from rfl)
        (can_bind (able_drainOnce hrow hunpublished fun count ids s₁ hcommitted hdownstream hlt ↦
          ⟨⟨by rw [hcommitted]; rfl, hdownstream⟩, by rw [← hbacklog]; exact hlt⟩))
      obtain ⟨w₂, hrun₂, hsame₂, hall⟩ := ih _ hlt w₁ rfl
      exact ⟨w₂, hrun₁.trans hrun₂, hsame₁.trans hsame₂, hall⟩
    · refine ⟨w, .refl, .refl _, fun row hrow ↦ ?_⟩
      by_contra hpublished
      exact hwaits ⟨row, hrow, by simpa using hpublished⟩

/-- A message that is with a handler can be ready again. -/
theorem exists_run_returned {copy : Copy} (hcopy : copy ∈ w.shared.broker.copies) :
    ∃ w', Goes X w w' ∧ Standstill w.shared w'.shared ∧
      ∃ copy' ∈ w'.shared.broker.copies, copy'.body = copy.body ∧
        ∃ queue, copy'.place = .ready queue := by
  cases hplace : copy.place with
  | ready queue => exact ⟨w, .refl, .refl _, copy, hcopy, rfl, queue, hplace⟩
  | unacked queue consumer =>
    obtain ⟨w', hrun, hshared⟩ := exists_goes_of_ambient (w := w)
      (.requeue copy.number consumer) rfl
    have hawaits : Broker.awaits copy.number consumer copy = true := by
      simp [Broker.awaits, hplace]
    have hreturned := Broker.mem_move Broker.returned hcopy hawaits
    refine ⟨w', hrun, ⟨by rw [hshared]; rfl, by rw [hshared]; rfl⟩, Broker.returned copy, ?_, ?_,
      queue, ?_⟩
    · rw [hshared]
      exact hreturned
    · simp [Broker.returned, hplace]
    · simp [Broker.returned, hplace]

/-- A command that is ready somewhere can be brought to the work queue. -/
theorem exists_run_waiting (hsound : Sound X w.shared) (hstrict : X.strict) {copy : Copy}
    {env : Envelope} (hcopy : copy ∈ w.shared.broker.copies) {queue : Queue}
    (hplace : copy.place = .ready queue) (hbody : copy.body = .envelope env)
    (htype : env.type = .advance) :
    ∃ w', Goes X w w' ∧ Standstill w.shared w'.shared ∧
      ∃ attempt, Waiting w'.shared (.envelope { env with attempt := attempt }) := by
  cases queue with
  | advance => exact ⟨w, .refl, .refl _, env.attempt, copy, hcopy, hplace, hbody⟩
  | advanceRetry =>
    obtain ⟨w', hrun, hshared⟩ := exists_goes_of_ambient (w := w) (.expire copy.number) rfl
    have hready : Broker.readyIn copy.number .advanceRetry copy = true :=
      decide_eq_true ⟨rfl, hplace⟩
    have hexpired := Broker.mem_move (fun copy ↦ { copy with place := .ready .advance }) hcopy
      hready
    refine ⟨w', hrun, ⟨by rw [hshared]; rfl, by rw [hshared]; rfl⟩, env.attempt,
      { copy with place := .ready .advance }, ?_, rfl, hbody⟩
    rw [hshared]
    exact hexpired
  | dlq =>
    obtain ⟨w', hrun, hsame, hwaiting⟩ := exists_goes_of_launch (w := w)
      (P := fun s ↦ Standstill w.shared s ∧ Waiting s (.envelope { env with attempt := 1 }))
      (show launch X.cfg w.next (.replayDlq 1) w.shared = _ from rfl)
      (can_bind (able_replayDlq hsound.filed hcopy hplace hbody
        fun count s₁ hdb hdownstream hwaiting ↦ ⟨⟨by rw [hdb], hdownstream⟩, hwaiting⟩))
    exact ⟨w', hrun, hsame, 1, hwaiting⟩
  | orchPlaced =>
    -- The queue of placed events holds no command.
    have hplaced := (hsound.custody hstrict).placed copy hcopy (by rw [hplace]; rfl)
    rw [hbody] at hplaced
    exact absurd (congrArg some htype) hplaced

/-- The command of an unfinished order can be brought to the work queue. -/
theorem exists_run_ready (hstrict : X.strict)
    (hw : World.Reachable (discipline X).Permit w) (hrow : row ∈ w.shared.db.committed.orders)
    (hopen : isTerminal row.state = false) :
    ∃ w', Goes X w w' ∧ Standstill w.shared w'.shared ∧
      ∃ env, dutyOf env = some (.advance row.orderId row.state) ∧
        Waiting w'.shared (.envelope env) := by
  obtain ⟨w₁, hrun₁, hsame₁, hall⟩ := exists_run_relayed w
  have hsound₁ : Sound X w₁.shared := sound_of_reachable (hw.trans hrun₁)
  have hrow₁ : row ∈ w₁.shared.db.committed.orders := by
    rw [hsame₁.orders]
    exact hrow
  rcases (hsound₁.custody hstrict).command hsound₁.tables.ledger hrow₁ hopen with
    ⟨out, hout, hunpublished, -⟩ | ⟨copy, hcopy, hduty⟩
  · rw [hall out hout] at hunpublished
    cases hunpublished
  · obtain ⟨w₂, hrun₂, hsame₂, copy₂, hcopy₂, hbody₂, queue, hplace₂⟩ :=
      exists_run_returned (X := X) hcopy
    have hsound₂ : Sound X w₂.shared := sound_of_reachable ((hw.trans hrun₁).trans hrun₂)
    cases hbody : copy.body with
    | poison bytes =>
      rw [hbody] at hduty
      cases hduty
    | envelope env =>
      rw [hbody] at hduty
      obtain ⟨w₃, hrun₃, hsame₃, attempt, hwaiting⟩ := exists_run_waiting hsound₂ hstrict hcopy₂
        hplace₂ (hbody₂.trans hbody) (dutyOf_advance hduty).1
      exact ⟨w₃, (hrun₁.trans hrun₂).trans hrun₃, (hsame₁.trans hsame₂).trans hsame₃,
        { env with attempt := attempt }, hduty, hwaiting⟩

/-! ### Taking the step -/

/-- What a handler of the command can do, the order can come to. -/
theorem exists_run_handled (hstrict : X.strict) (hrate : X.cfg.cancelRate < 1)
    (hw : World.Reachable (discipline X).Permit w) (hrow : row ∈ w.shared.db.committed.orders)
    {target : State} (hnext : nextHappyState row.state = some target) {P : Shared D → Prop}
    (h : ∀ thread env message s, s.downstream = w.shared.downstream →
      Steppable s.db.committed row → env.orderId = row.orderId →
        Able X thread (fun _ ↦ P) (fun _ _ ↦ False)
          (takeStep X.cfg env message row target (opIdFor row.orderId row.state target)) s) :
    ∃ w', Goes X w w' ∧ P w'.shared := by
  have hopen := not_isTerminal_of_canTransition (canTransition_nextHappyState hnext)
  obtain ⟨w₁, hrun₁, hsame₁, env, hduty, copy, hcopy, hplace, hbody⟩ :=
    exists_run_ready hstrict hw hrow hopen
  have hsound₁ : Sound X w₁.shared := sound_of_reachable (hw.trans hrun₁)
  have hrow₁ : row ∈ w₁.shared.db.committed.orders := by
    rw [hsame₁.orders]
    exact hrow
  obtain ⟨message, b, hdeliver, hmessage⟩ :=
    Broker.exists_deliver hsound₁.filed hcopy hplace w₁.next
  rw [hbody] at hmessage
  have hlaunch : launch X.cfg w₁.next (.onAdvance copy.number) w₁.shared =
      some (onAdvance X.cfg message, launch.receive w₁.next message b w₁.shared) := by
    show (w₁.shared.broker.deliver copy.number .advance w₁.next).map _ = _
    rw [hdeliver]
    rfl
  have hreceive : (launch.receive w₁.next message b w₁.shared).db = w₁.shared.db ∧
      (launch.receive w₁.next message b w₁.shared).downstream = w₁.shared.downstream := by
    unfold launch.receive
    rw [hmessage]
    exact ⟨rfl, rfl⟩
  obtain ⟨-, horder, hfrom⟩ := dutyOf_advance hduty
  have hsteppable : Steppable (launch.receive w₁.next message b w₁.shared).db.committed row := by
    rw [hreceive.1]
    exact steppable_of_ledger hsound₁.tables.ledger hrow₁
  obtain ⟨w₂, hrun₂, hP⟩ := exists_goes_of_launch hlaunch
    (able_onAdvance_of_step hrate hmessage horder hfrom hsteppable hnext
      (h w₁.next env message _ (hreceive.2.trans hsame₁.downstream) hsteppable horder))
  exact ⟨w₂, hrun₁.trans hrun₂, hP⟩

/-- An order can take its next step, if the service takes it. -/
theorem exists_run_granted (hstrict : X.strict) (hrate : X.cfg.cancelRate < 1)
    (hw : World.Reachable (discipline X).Permit w) (hrow : row ∈ w.shared.db.committed.orders)
    {target : State} (hnext : nextHappyState row.state = some target)
    (hgrants : ∀ service, stageDownstream target = some service →
      Grants w.shared.downstream service row target) :
    ∃ w', Goes X w w' ∧ InState w'.shared.db.committed row.orderId target := by
  refine exists_run_handled (P := fun s ↦ InState s.db.committed row.orderId target) hstrict hrate
    hw hrow hnext fun thread env message s hdownstream hsteppable horder ↦ ?_
  rw [← hdownstream] at hgrants
  exact able_takeStep hgrants hsteppable horder fun _ hmoved ↦ hmoved

/-- An order can be failed, if the service turns its next step down. -/
theorem exists_run_denied (hstrict : X.strict) (hrate : X.cfg.cancelRate < 1)
    (hw : World.Reachable (discipline X).Permit w) (hrow : row ∈ w.shared.db.committed.orders)
    {target : State} (hnext : nextHappyState row.state = some target) {service : Service}
    (hstage : stageDownstream target = some service)
    (hdenies : Denies w.shared.downstream service row target) :
    ∃ w', Goes X w w' ∧ InState w'.shared.db.committed row.orderId .failed := by
  refine exists_run_handled (P := fun s ↦ InState s.db.committed row.orderId .failed) hstrict hrate
    hw hrow hnext fun thread env message s hdownstream hsteppable horder ↦ ?_
  rw [← hdownstream] at hdenies
  exact able_takeStep_denied hstage hdenies hsteppable horder fun _ hfailed ↦ hfailed

/-- The service of the next step of the order, if it has one, takes it. -/
def Willing (st : D.State) (row : OrderRow) : Prop :=
  ∀ target service, nextHappyState row.state = some target →
    stageDownstream target = some service → Grants st service row target

/-- An order can be delivered, if the services are willing all the way. -/
theorem exists_run_delivered (hstrict : X.strict) (hrate : X.cfg.cancelRate < 1)
    (hw : World.Reachable (discipline X).Permit w) (hrow : row ∈ w.shared.db.committed.orders)
    (hopen : isTerminal row.state = false) (hwilling : Willing w.shared.downstream row)
    (honward : ∀ w', Goes X w w' → ∀ row' ∈ w'.shared.db.committed.orders,
      row'.orderId = row.orderId → row'.state ≠ .placed → Willing w'.shared.downstream row') :
    ∃ w', Goes X w w' ∧ InState w'.shared.db.committed row.orderId .delivered := by
  -- By induction on how far the order is from delivery.
  induction hfar : State.delivered.depth - row.state.depth using Nat.strong_induction_on
    generalizing w row with
  | _ far ih =>
    obtain ⟨target, hnext⟩ := Option.isSome_iff_exists.mp (nextHappyState_isSome hopen)
    obtain ⟨w₁, hrun₁, row₁, hrow₁, hid₁, hstate₁⟩ :=
      exists_run_granted hstrict hrate hw hrow hnext fun service ↦ hwilling target service hnext
    by_cases hdelivered : target = .delivered
    · rw [hdelivered] at hstate₁
      exact ⟨w₁, hrun₁, row₁, hrow₁, hid₁, hstate₁⟩
    · have hopen₁ : isTerminal row₁.state = false := by
        rw [hstate₁]
        revert hnext hdelivered
        cases row.state <;> cases target <;> decide
      have hnearer : State.delivered.depth - row₁.state.depth < far := by
        rw [hstate₁, ← hfar]
        revert hnext hdelivered
        cases row.state <;> cases target <;> decide
      have hleft₁ : row₁.state ≠ .placed := by
        rw [hstate₁]
        revert hnext
        cases row.state <;> cases target <;> decide
      obtain ⟨w₂, hrun₂, hend⟩ := ih _ hnearer (hw.trans hrun₁) hrow₁ hopen₁
        (honward w₁ hrun₁ row₁ hrow₁ hid₁ hleft₁)
        (fun w' hrun' row' hrow' hid' ↦ honward w' (hrun₁.trans hrun') row' hrow'
          (hid'.trans hid₁)) rfl
      rw [hid₁] at hend
      exact ⟨w₂, hrun₁.trans hrun₂, hend⟩

end Runs

end Orchestrator

end DinnerRush
