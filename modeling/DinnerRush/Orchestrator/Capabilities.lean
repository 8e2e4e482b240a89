import DinnerRush.Concurrency.Angelic
import DinnerRush.Orchestrator.Lifecycle

/-!
# What the handlers can do

The statements of the orchestrator, its transactions and its handlers, each with what it can do when
everything goes well: a lock held by another transaction is released by aborting that one, Redis
knows nothing, the breaker admits the call, and the service answers. A handler that is given a
command for the state of its order can so take the step (`able_takeStep`), and one whose service
turns the step down can fail the order (`able_takeStep_denied`).

What a service can answer is left to the section variables of the handlers: `Grants` for a step that
it takes, `Denies` for one that it turns down.
-/

set_option autoImplicit false
set_option relaxedAutoImplicit false

namespace DinnerRush.Orchestrator

open Concurrency Machine

variable {D : Downstreams} {X : Setting D} {thread : ℕ} {s : Shared D}

/-- What a program can do in the orchestrator of a setting. -/
abbrev Able (X : Setting D) (thread : ℕ) {α : Type} (Q : α → Shared D → Prop)
    (E : Failure → Shared D → Prop) (program : Proc α) (s : Shared D) : Prop :=
  X.machine.Can (discipline X).Permit thread Q E program s

variable {E : Failure → Shared D → Prop}

/-- One effect that succeeds and drops nothing. -/
theorem able_perform (choice : Choice) {effect : Effect} {Q : effect.Result → Shared D → Prop}
    {value : effect.Result} {s₁ : Shared D}
    (hexec : exec thread effect choice s = some (.ok value, s₁))
    (hspares : dropsExpendable thread effect choice s = true) (hQ : Q value s₁) :
    Able X thread Q E (perform effect) s :=
  can_call choice value .refl (fun _ ↦ hspares) hexec hQ

/-! ### The database -/

/-- The thread is in a transaction with these writes, over a committed database and downstreams that
nothing has touched. -/
structure Uncommitted (thread : ℕ) (d : Db) (st : D.State) (writes : List Write) (s : Shared D) :
    Prop where
  committed : s.db.committed = d
  downstream : s.downstream = st
  pending : s.db.pending thread = some writes

section Statements

variable {d : Db} {st : D.State} {writes : List Write}

theorem Uncommitted.view (h : Uncommitted thread d st writes s) :
    s.view thread = writes.foldl Db.apply d := by
  rw [Shared.view, Transactions.view, h.pending, h.committed]
  rfl

theorem Uncommitted.inTransaction (h : Uncommitted thread d st writes s) :
    s.inTransaction thread = true := by
  rw [Shared.inTransaction, h.pending]
  rfl

/-- A lock can be had: whoever else holds it is aborted. -/
theorem Uncommitted.exists_free (h : Uncommitted thread d st writes s) (key : Key) :
    ∃ s₁ : Shared D, X.machine.Ambience s s₁ ∧ s₁.db.free thread key = true ∧
      Uncommitted thread d st writes s₁ := by
  by_cases hfree : s.db.free thread key = true
  · exact ⟨s, .refl, hfree, h⟩
  · rw [Transactions.free, decide_eq_true_eq, not_or] at hfree
    obtain ⟨other, hother⟩ := Option.ne_none_iff_exists'.mp hfree.1
    have hne : thread ≠ other := fun hsame ↦ hfree.2 (by rw [hother, hsame])
    refine ⟨{ s with db := s.db.abort other }, .single ⟨.abort other, rfl⟩, ?_, h.committed,
      h.downstream, ?_⟩
    · rw [Transactions.free, decide_eq_true_eq]
      exact Or.inl (if_pos hother)
    · show Function.update s.db.pending other none thread = _
      rw [Function.update_of_ne hne]
      exact h.pending

theorem uncommitted_write (h : Uncommitted thread d st writes s) (key : Key) (write : Write) :
    Uncommitted thread d st (writes ++ [write])
      { s with db := (s.db.lock thread key).write thread write } := by
  refine ⟨h.committed, h.downstream, ?_⟩
  show Function.update s.db.pending thread ((s.db.pending thread).map fun writes ↦ _) thread = _
  rw [Function.update_self, h.pending]
  rfl

theorem able_begin {Q : Unit → Shared D → Prop}
    (hQ : ∀ s₁, Uncommitted thread s.db.committed s.downstream [] s₁ → Q () s₁) :
    Able X thread Q E (perform .begin) s :=
  able_perform .done rfl rfl (hQ _ ⟨rfl, rfl, Function.update_self _ _ _⟩)

/-- An operation that is not there can be claimed. -/
theorem able_claimOperation {row : OperationRow} {Q : Bool → Shared D → Prop}
    (h : Uncommitted thread d st writes s)
    (hnew : ∀ other ∈ (writes.foldl Db.apply d).operations, other.opId ≠ row.opId)
    (hQ : ∀ s₁, Uncommitted thread d st (writes ++ [.claim row]) s₁ → Q true s₁) :
    Able X thread Q E (perform (.claimOperation row)) s := by
  obtain ⟨s₁, hambience, hfree, huncommitted⟩ := h.exists_free (X := X) (.operation row.opId)
  refine can_call Choice.done true hambience (fun _ ↦ rfl) ?_
    (hQ _ (uncommitted_write huncommitted (.operation row.opId) (.claim row)))
  have hfind : Table.find OperationRow.opId row.opId (s₁.view thread).operations = none := by
    rw [huncommitted.view]
    exact Table.find_none.mpr hnew
  show (Shared.claimOperation s₁ thread row).map _ = _
  simp only [Shared.claimOperation, huncommitted.inTransaction, hfind, hfree]
  rfl

/-- An order that is in its state can be moved. -/
theorem able_updateState {orderId : String} {source target : State} {Q : ℕ → Shared D → Prop}
    (h : Uncommitted thread d st writes s)
    (hrow : ∃ row ∈ (writes.foldl Db.apply d).orders, row.orderId = orderId ∧ row.state = source)
    (hQ : ∀ now s₁, Uncommitted thread d st (writes ++ [.setState orderId target now]) s₁ →
      Q 1 s₁) :
    Able X thread Q E (perform (.updateState orderId target source)) s := by
  obtain ⟨s₁, hambience, hfree, huncommitted⟩ := h.exists_free (X := X) (.order orderId)
  refine can_call Choice.done 1 hambience (fun _ ↦ rfl) ?_
    (hQ _ _ (uncommitted_write huncommitted (.order orderId)
      (.setState orderId target (s₁.began thread))))
  have hqualifies : ((s₁.view thread).orders.any fun row ↦
      decide (row.orderId = orderId ∧ row.state = source)) = true := by
    rw [huncommitted.view, List.any_eq_true]
    obtain ⟨row, hmem, hsame⟩ := hrow
    exact ⟨row, hmem, decide_eq_true hsame⟩
  show (Shared.updateState s₁ thread orderId target source).map _ = _
  simp only [Shared.updateState, huncommitted.inTransaction, hqualifies, hfree]
  rfl

theorem able_insertTransition {values : TransitionValues} {Q : Unit → Shared D → Prop}
    (h : Uncommitted thread d st writes s)
    (hQ : ∀ id now s₁, Uncommitted thread d st
      (writes ++ [.insertTransition (values.row id now)]) s₁ → Q () s₁) :
    Able X thread Q E (perform (.insertTransition values)) s := by
  have hexec : exec thread (.insertTransition values) .done s =
      some (.ok (), { s with
        db := s.db.write thread (.insertTransition (values.row s.transitionSeq (s.began thread)))
        transitionSeq := s.transitionSeq + 1 }) := by
    simp [exec, Shared.insertTransition, h.inTransaction]
  refine able_perform .done hexec rfl (hQ s.transitionSeq (s.began thread) _
    ⟨h.committed, h.downstream, ?_⟩)
  show Function.update s.db.pending thread ((s.db.pending thread).map fun writes ↦ _) thread = _
  rw [Function.update_self, h.pending]
  rfl

theorem able_enqueue {exchange : Exchange} {routingKey : String} {env : Envelope}
    {Q : Unit → Shared D → Prop} (h : Uncommitted thread d st writes s)
    (hQ : ∀ id s₁, Uncommitted thread d st
      (writes ++ [.enqueue ⟨id, exchange, routingKey, env, false⟩]) s₁ → Q () s₁) :
    Able X thread Q E (perform (.enqueue exchange routingKey env)) s := by
  have hexec : exec thread (.enqueue exchange routingKey env) .done s =
      some (.ok (), { s with
        db := (s.db.lock thread (.outbox s.outboxSeq)).write thread
          (.enqueue ⟨s.outboxSeq, exchange, routingKey, env, false⟩)
        outboxSeq := s.outboxSeq + 1 }) := by
    simp [exec, Shared.enqueue, h.inTransaction]
  exact able_perform .done hexec rfl (hQ s.outboxSeq _ ⟨h.committed, h.downstream,
    (uncommitted_write h (.outbox s.outboxSeq) _).pending⟩)

theorem able_commit {Q : Unit → Shared D → Prop} (h : Uncommitted thread d st writes s)
    (hQ : ∀ s₁ : Shared D, s₁.db.committed = writes.foldl Db.apply d → s₁.downstream = st →
      Q () s₁) :
    Able X thread Q E (perform .commit) s := by
  have hexec : exec thread .commit .done s =
      some (.ok (), { s with db := s.db.commit Db.apply thread }) := by
    simp [exec, h.inTransaction]
  exact able_perform .done hexec rfl (hQ _ h.view h.downstream)

end Statements

/-! ### Recording a step -/

/-- The order is in the state. -/
def InState (d : Db) (orderId : String) (state : State) : Prop :=
  ∃ row ∈ d.orders, row.orderId = orderId ∧ row.state = state

theorem inState_apply {d : Db} {orderId : String} {source target : State}
    (h : InState d orderId source) (now : ℕ) :
    InState (d.apply (.setState orderId target now)) orderId target := by
  obtain ⟨row, hrow, rfl, -⟩ := h
  exact ⟨{ row with state := target, updatedAt := now },
    List.mem_map.mpr ⟨row, hrow, if_pos rfl⟩, rfl, rfl⟩

theorem able_makeEvent {type : EventType} {orderId : String} {data : Data}
    {Q : Envelope → Shared D → Prop} (hQ : ∀ env, Q env s) :
    Able X thread Q E (makeEvent type orderId data) s :=
  can_bind (able_perform (.stamp ⟨"", ""⟩) rfl rfl (hQ _))

/-- A step that is not recorded can be recorded, if the order is in its source. -/
theorem able_recordStep {orderId opId kind cause race : String} {source target : State}
    {result : Detail} {attempt : ℤ} {Q : Bool → Shared D → Prop}
    (hstate : InState s.db.committed orderId source)
    (hnew : ∀ other ∈ s.db.committed.operations, other.opId ≠ opId)
    (hQ : ∀ s₁ : Shared D, InState s₁.db.committed orderId target → Q true s₁) :
    Able X thread Q E
      (recordStep orderId source target opId kind result cause race attempt) s := by
  refine can_transaction (able_begin fun s₁ h₁ ↦ ?_)
  refine can_bind (able_claimOperation h₁ hnew fun s₂ h₂ ↦ ?_)
  refine can_bind (able_updateState h₂ hstate fun now s₃ h₃ ↦ ?_)
  refine can_bind (able_insertTransition h₃ fun id createdAt s₄ h₄ ↦ ?_)
  refine can_bind (able_makeEvent fun event ↦ ?_)
  refine can_bind (able_enqueue h₄ fun eventId s₅ h₅ ↦ ?_)
  have hmoved : InState (s.db.committed.apply (.setState orderId target now)) orderId target :=
    inState_apply hstate now
  show Able X thread _ _ (if isTerminal target = true then _ else _) s₅
  by_cases hterminal : isTerminal target = true
  · rw [if_pos hterminal]
    refine able_commit h₅ fun s₆ hcommitted _ ↦ hQ s₆ ?_
    rw [hcommitted]
    exact hmoved
  · rw [if_neg hterminal]
    refine can_bind (able_makeEvent fun command ↦ ?_)
    refine can_bind (able_enqueue h₅ fun commandId s₆ h₆ ↦ ?_)
    refine able_commit h₆ fun s₇ hcommitted _ ↦ hQ s₇ ?_
    rw [hcommitted]
    exact hmoved

/-! ### Calling a downstream -/

/-- Once the command is sent, the service can come to give the response. -/
def CanAnswer (st : D.State) (service : Service) (command : Command) (response : HttpResponse) :
    Prop :=
  ∃ st', Relation.ReflTransGen (fun st st' ↦ ∃ act, D.act act st = some st')
    (D.send service command st).2 st' ∧
      D.answered st' service (D.send service command st).1 response = true

/-- The service can take the step of the order. -/
def Grants (st : D.State) (service : Service) (row : OrderRow) (target : State) : Prop :=
  ∃ response, CanAnswer st service (stepCommand service row row.state target) response ∧
    response.statusCode < 300 ∧ response.json.isSome

/-- The service can turn the step down for good. -/
def Denies (st : D.State) (service : Service) (row : OrderRow) (target : State) : Prop :=
  ∃ response, CanAnswer st service (stepCommand service row row.state target) response ∧
    300 ≤ response.statusCode ∧ response.statusCode ≠ 429 ∧ response.statusCode < 500

section Calls

variable {service : Service} {command : Command} {response : HttpResponse}

theorem ambience_downstream {st st' : D.State}
    (h : Relation.ReflTransGen (fun st st' ↦ ∃ act, D.act act st = some st') st st') :
    X.machine.Ambience { s with downstream := st } { s with downstream := st' } := by
  induction h with
  | refl => exact .refl
  | tail _ hstep ih =>
    obtain ⟨act, hact⟩ := hstep
    refine ih.tail ⟨.downstream act, ?_⟩
    show (D.act act _).map _ = _
    rw [hact]
    rfl

/-- The call can be posted and answered, which leaves the database alone. -/
theorem able_post {Q : Except String HttpResponse → Shared D → Prop}
    (h : CanAnswer s.downstream service command response)
    (hQ : ∀ s₁ : Shared D, s₁.db = s.db → Q (.ok response) s₁) :
    Able X thread Q E ((client X.cfg service).post command) s := by
  obtain ⟨st', hruns, hanswered⟩ := h
  refine can_bind (able_perform .done rfl rfl ?_)
  refine can_call (Choice.response response) (.ok response) (ambience_downstream hruns)
    (fun _ ↦ rfl) (if_pos hanswered) (hQ _ rfl)

theorem able_recordSuccess {Q : Unit → Shared D → Prop} (hQ : Q () s) :
    Able X thread Q E (client X.cfg service).recordSuccess s :=
  able_perform .done rfl rfl hQ

/-- The breaker can admit the call, and the first attempt get the response. -/
theorem able_postJson {Q : Json → Shared D → Prop} {E : Failure → Shared D → Prop}
    (h : CanAnswer s.downstream service command response)
    (hreact : ∀ (s₁ : Shared D) attempt left next, s₁.db = s.db → Able X thread Q E
      ((client X.cfg service).react attempt left next (.ok response)) s₁) :
    Able X thread Q E ((client X.cfg service).postJson command) s := by
  refine can_bind (able_perform (.flag true) rfl rfl ?_)
  show Able X thread Q E ((client X.cfg service).attempts command (X.cfg.httpMaxRetries + 1) 1) s
  exact can_bind (able_post h fun s₁ hdb ↦ hreact s₁ _ _ _ hdb)

theorem able_postJson_granted {Q : Json → Shared D → Prop}
    (h : CanAnswer s.downstream service command response) (hcode : response.statusCode < 300)
    (hjson : response.json.isSome) (hQ : ∀ json (s₁ : Shared D), s₁.db = s.db → Q json s₁) :
    Able X thread Q E ((client X.cfg service).postJson command) s := by
  obtain ⟨json, hjson⟩ := Option.isSome_iff_exists.mp hjson
  refine able_postJson h fun s₁ attempt left next hdb ↦ ?_
  rw [HttpClient.react, if_pos hcode]
  refine can_bind (able_recordSuccess ?_)
  show Able X thread Q E (HttpClient.parse response) s₁
  rw [HttpClient.parse, hjson]
  exact hQ json s₁ hdb

theorem able_postJson_denied {Q : Json → Shared D → Prop}
    (h : CanAnswer s.downstream service command response) (hcode : 300 ≤ response.statusCode)
    (hlimited : response.statusCode ≠ 429) (hserver : response.statusCode < 500)
    (hE : ∀ s₁ : Shared D, s₁.db = s.db → E (.permanentError response.statusCode) s₁) :
    Able X thread Q E ((client X.cfg service).postJson command) s := by
  refine able_postJson h fun s₁ attempt left next hdb ↦ ?_
  rw [HttpClient.react, if_neg (Nat.not_lt.mpr hcode), if_neg hlimited,
    if_neg (Nat.not_le.mpr hserver)]
  exact can_bind (able_recordSuccess (hE s₁ hdb))

end Calls

/-! ### The handler of a command -/

section Handler

variable {row : OrderRow} {env : Envelope} {message : Delivery} {target : State}

/-- The order is in the state of the row, and nothing of a step from it is recorded. -/
structure Steppable (d : Db) (row : OrderRow) : Prop where
  found : Table.find OrderRow.orderId row.orderId d.orders = some row
  unrecorded : ∀ target, ∀ other ∈ d.operations,
    other.opId ≠ opIdFor row.orderId row.state target

theorem steppable_of_ledger {d : Db} (h : Ledger d) (hrow : row ∈ d.orders) :
    Steppable d row where
  found := (lawfulTables_of_ledger h).orders.find_of_mem hrow
  unrecorded _ _ hother hopId := h.not_left hrow (h.left_of_operation hother hopId)

theorem Steppable.inState {d : Db} (h : Steppable d row) : InState d row.orderId row.state :=
  ⟨row, (Table.find_some h.found).1, rfl, rfl⟩

theorem able_ack {number : ℕ} {Q : Unit → Shared D → Prop}
    (hQ : ∀ s₁ : Shared D, s₁.db = s.db → Q () s₁) :
    Able X thread Q E (perform (.ack number)) s :=
  able_perform .done rfl rfl (hQ _ rfl)

theorem able_attempt {Q : ℤ → Shared D → Prop} (hQ : ∀ attempt, Q attempt s) :
    Able X thread Q E (perform .attempt) s :=
  able_perform .done rfl rfl (hQ _)

theorem able_callDownstream_granted {service : Service} {Q : Option Detail → Shared D → Prop}
    (h : Grants s.downstream service row target)
    (hQ : ∀ detail (s₁ : Shared D), s₁.db = s.db → Q (some detail) s₁) :
    Able X thread Q E (callDownstream X.cfg service row.orderId
      (opIdFor row.orderId row.state target) target row env message) s := by
  obtain ⟨response, hanswer, hcode, hjson⟩ := h
  refine can_bind (can_attempt (able_postJson_granted hanswer hcode hjson fun json s₁ hdb ↦ ?_))
  exact hQ _ s₁ hdb

/-- A step that is turned down fails the order. -/
theorem able_callDownstream_denied {service : Service} {Q : Option Detail → Shared D → Prop}
    (h : Denies s.downstream service row target) (hready : Steppable s.db.committed row)
    (hQ : ∀ s₁ : Shared D, InState s₁.db.committed row.orderId .failed → Q none s₁) :
    Able X thread Q E (callDownstream X.cfg service row.orderId
      (opIdFor row.orderId row.state target) target row env message) s := by
  obtain ⟨response, hanswer, hcode, hlimited, hserver⟩ := h
  refine can_bind (can_attempt
    (able_postJson_denied hanswer hcode hlimited hserver fun s₁ hdb ↦ ?_))
  refine can_bind (able_attempt fun attempt ↦ ?_)
  rw [← hdb] at hready
  refine can_bind (able_recordStep hready.inState (hready.unrecorded .failed) fun s₂ hfailed ↦ ?_)
  refine can_bind (able_ack fun s₃ hdb₃ ↦ hQ s₃ ?_)
  rw [hdb₃]
  exact hfailed

/-- The step can be taken if its service, if it has one, takes it. -/
theorem able_takeStep {Q : Unit → Shared D → Prop}
    (hgrants : ∀ service, stageDownstream target = some service →
      Grants s.downstream service row target)
    (hready : Steppable s.db.committed row) (horder : env.orderId = row.orderId)
    (hQ : ∀ s₁ : Shared D, InState s₁.db.committed row.orderId target → Q () s₁) :
    Able X thread Q E
      (takeStep X.cfg env message row target (opIdFor row.orderId row.state target)) s := by
  have hrecord : ∀ detail (s₁ : Shared D), s₁.db = s.db → Able X thread Q E (do
      let applied ← commitTransition row.orderId row.state target
        (opIdFor row.orderId row.state target) detail (← perform .attempt)
      if applied && X.cfg.firstLine then markDone (opIdFor row.orderId row.state target)
      perform (.ack message.number)) s₁ := by
    intro detail s₁ hdb
    rw [← hdb] at hready
    refine can_bind (able_attempt fun attempt ↦ ?_)
    refine can_bind (able_recordStep hready.inState (hready.unrecorded target) fun s₂ hmoved ↦ ?_)
    have hack : Able X thread Q E (perform (.ack message.number)) s₂ := able_ack fun s₃ hdb₃ ↦
      hQ s₃ (by rw [hdb₃]; exact hmoved)
    show Able X thread Q E (if _ then _ else _) s₂
    split
    · refine can_bind (can_tryCatch ?_)
      exact able_perform .done rfl rfl hack
    · exact hack
  unfold takeStep
  rw [horder]
  cases hstage : stageDownstream target with
  | none =>
    refine can_bind (can_bind (able_perform .done rfl rfl ?_))
    exact hrecord {} s rfl
  | some service =>
    refine can_bind (able_callDownstream_granted (hgrants service hstage) fun detail s₁ hdb ↦ ?_)
    exact hrecord detail s₁ hdb

/-- A step that its service turns down fails the order. -/
theorem able_takeStep_denied {service : Service} {Q : Unit → Shared D → Prop}
    (hstage : stageDownstream target = some service)
    (hdenies : Denies s.downstream service row target) (hready : Steppable s.db.committed row)
    (horder : env.orderId = row.orderId)
    (hQ : ∀ s₁ : Shared D, InState s₁.db.committed row.orderId .failed → Q () s₁) :
    Able X thread Q E
      (takeStep X.cfg env message row target (opIdFor row.orderId row.state target)) s := by
  unfold takeStep
  rw [horder, hstage]
  exact can_bind (able_callDownstream_denied hdenies hready fun s₁ hfailed ↦ hQ s₁ hfailed)

/-- Redis can know nothing of the step. -/
theorem able_advanceStep {Q : Unit → Shared D → Prop} (horder : env.orderId = row.orderId)
    (h : Able X thread Q E
      (takeStep X.cfg env message row target (opIdFor row.orderId row.state target)) s) :
    Able X thread Q E (advanceStep X.cfg env message row target) s := by
  unfold advanceStep alreadyDone
  rw [horder]
  split
  · refine can_bind (can_bind (can_tryCatch ?_))
    exact able_perform (.flag false) rfl rfl h
  · exact can_bind h

/-- The customer need not cancel, unless all do. -/
theorem able_decideCancel {state : State} {Q : Bool → Shared D → Prop}
    (hrate : X.cfg.cancelRate < 1) (hQ : Q false s) :
    Able X thread Q E (decideCancel X.cfg state) s := by
  unfold decideCancel
  split
  · rename_i hearly
    have hdraw : exec thread .random (.draw X.cfg.cancelRate) s =
        some (.ok X.cfg.cancelRate, s) := if_pos ⟨Rat.le_of_lt hearly.1, hrate⟩
    refine can_bind (able_perform (.draw X.cfg.cancelRate) hdraw rfl ?_)
    show Q (decide (X.cfg.cancelRate < X.cfg.cancelRate)) s
    rw [decide_eq_false Rat.lt_irrefl]
    exact hQ
  · exact hQ

/-- A command for the state of its order comes to the next step. -/
theorem able_onAdvance_of_step {Q : Unit → Shared D → Prop} (hrate : X.cfg.cancelRate < 1)
    (hbody : message.body = .envelope env) (horder : env.orderId = row.orderId)
    (hfrom : env.data.fromState = some row.state.value) (hready : Steppable s.db.committed row)
    (hnext : nextHappyState row.state = some target)
    (h : Able X thread Q (fun _ _ ↦ False)
      (takeStep X.cfg env message row target (opIdFor row.orderId row.state target)) s) :
    Able X thread Q E (onAdvance X.cfg message) s := by
  have hopen := not_isTerminal_of_canTransition (canTransition_nextHappyState hnext)
  have hstate : fromStateOf env = .ret row.state := by
    unfold fromStateOf
    rw [hfrom]
    simp only [State.ofValue_value]
    rfl
  unfold onAdvance
  rw [hbody]
  refine can_tryCatch (Can.mono (Q := Q) (E := fun _ _ ↦ False) ?_ (fun _ _ hreturned ↦ hreturned)
    fun _ _ hfalse ↦ hfalse.elim)
  unfold advance
  rw [hstate, Program.bind_eq, Program.ret_bind]
  refine can_bind (able_perform .done rfl rfl ?_)
  rw [horder, hready.found]
  show Able X thread Q _ (if _ then _ else _) s
  rw [if_neg (by simp [hopen])]
  refine can_bind (able_decideCancel hrate ?_)
  simp only [Bool.false_eq_true, if_false, hnext]
  exact able_advanceStep horder h

end Handler

end DinnerRush.Orchestrator
