import DinnerRush.Concurrency.Conduct
import DinnerRush.Orchestrator.Handlers

/-!
# How the handlers are composed

A property of programs that every combinator keeps holds of a handler when it holds of its effects.
Most effects of the handlers are of no interest to most properties (`Effect.isQuiet`), so a property
that upholds them (`Upholds`) holds of `on_advance` as soon as it holds of the transaction of a
step, of the reads of the tables and of what follows a failure (`Upholds.onAdvance`). The other
programs of the service are taken apart in the same way.
-/

set_option autoImplicit false
set_option relaxedAutoImplicit false

namespace DinnerRush.Orchestrator

open Concurrency Program

/-- The effect neither touches the tables, publishes, nor changes the counter of the envelope in
hand. -/
def Effect.isQuiet : Effect → Bool
  | declareEventQueue => true
  | ack _ => true
  | nack _ _ => true
  | getDlq => true
  | attempt => true
  | redisGet _ => true
  | redisSet _ => true
  | allow _ => true
  | recordOutcome _ _ => true
  | send _ _ => true
  | await _ _ => true
  | newStamp => true
  | random => true
  | sleep => true
  | _ => false

/-- A property that the combinators keep and that holds of the quiet effects. -/
structure Upholds (P : ∀ α : Type, Proc α → Prop) : Prop where
  closed : Closed P
  quiet : ∀ effect : Effect, effect.isQuiet = true → P effect.Result (perform effect)

/-- A property of the statements that begin a transaction or end it. -/
structure Transacts (P : ∀ α : Type, Proc α → Prop) : Prop where
  begin : P Unit (perform .begin)
  commit : P Unit (perform .commit)
  rollback : P Unit (perform .rollback)

namespace Upholds

variable {P : ∀ α : Type, Proc α → Prop} (h : Upholds P) {α β : Type}

include h

theorem bind {program : Proc α} {next : α → Proc β} (hprogram : P α program)
    (hnext : ∀ value, P β (next value)) : P β (program.bind next) :=
  h.closed.bind _ _ _ _ hprogram hnext

/-- A quiet effect comes first. -/
theorem bindQuiet {effect : Effect} {next : effect.Result → Proc β} (hquiet : effect.isQuiet = true)
    (hnext : ∀ value, P β (next value)) : P β ((perform effect).bind next) :=
  h.bind (h.quiet effect hquiet) hnext

theorem makeEvent (type : EventType) (orderId : String) (data : Data) :
    P Envelope (makeEvent type orderId data) :=
  h.bindQuiet rfl fun _ ↦ h.closed.ret _ _

theorem current (env : Envelope) : P Envelope (current env) :=
  h.bindQuiet rfl fun _ ↦ h.closed.ret _ _

theorem ack (number : ℕ) : P Unit (perform (.ack number)) :=
  h.quiet (.ack number) rfl

/-! ### The transactions -/

theorem tx (htransacts : Transacts P) {body : Proc α} (hbody : P α body) : P α (tx body) :=
  h.closed.transaction htransacts.begin htransacts.commit htransacts.rollback hbody

/-- Seeding an order. -/
theorem insertPlaced (htransacts : Transacts P) {env : Envelope}
    (hinsert : P Bool (perform (.insertOrder
      { orderId := env.orderId, idempotencyKey := env.data.idempotencyKey,
        customerId := env.data.customerId, restaurantId := env.data.restaurantId,
        items := env.data.items.getD [], totalCents := env.data.totalCents.getD 0 })))
    (henqueue : ∀ seed, P Unit (perform (.enqueue .work rkAdvance seed))) :
    P Unit (insertPlaced env) := by
  refine h.tx htransacts (h.bind hinsert fun inserted ↦ ?_)
  cases inserted with
  | true => exact h.bind (h.makeEvent _ _ _) henqueue
  | false => exact h.closed.ret _ _

/-- Recording a step. -/
theorem recordStep (htransacts : Transacts P)
    (hclaim : ∀ row, P Bool (perform (.claimOperation row)))
    (hupdate : ∀ orderId target source, P ℕ (perform (.updateState orderId target source)))
    (hinsert : ∀ values, P Unit (perform (.insertTransition values)))
    (hevent : ∀ env, P Unit (perform (.enqueue .events rkTransition env)))
    (hcommand : ∀ env, P Unit (perform (.enqueue .work rkAdvance env)))
    (orderId : String) (source target : State) (opId kind : String) (result : Detail)
    (cause race : String) (attempt : ℤ) :
    P Bool (recordStep orderId source target opId kind result cause race attempt) := by
  refine h.tx htransacts (h.bind (hclaim _) fun claimed ↦ ?_)
  cases claimed with
  | false => exact h.closed.ret _ _
  | true =>
    refine h.bind (hupdate _ _ _) fun updated ↦ ?_
    by_cases hupdated : updated = 0
    · rw [if_pos hupdated]
      exact h.closed.raise _ _
    · rw [if_neg hupdated]
      refine h.bind (hinsert _) fun _ ↦ h.bind (h.makeEvent _ _ _) fun ev ↦ h.bind (hevent ev) ?_
      intro _
      by_cases hterminal : isTerminal target = true
      · rw [if_pos hterminal]
        exact h.closed.ret _ _
      · rw [if_neg hterminal]
        exact h.bind (h.makeEvent _ _ _) fun nxt ↦ h.bind (hcommand nxt) fun _ ↦ h.closed.ret _ _

/-! ### Settling a message -/

theorem sendToDlq {env : Envelope} (hpark : ∀ attempt : ℤ, P Unit
      (perform (.publish .dlx "" (.envelope { env with attempt := attempt })))) :
    P Unit (sendToDlq env) := by
  unfold Orchestrator.sendToDlq Orchestrator.current
  rw [bind_eq, bind_eq, bind_assoc]
  exact h.bindQuiet rfl hpark

theorem retryOrDlq {env : Envelope} (hpark : ∀ attempt : ℤ, P Unit
      (perform (.publish .dlx "" (.envelope { env with attempt := attempt }))))
    (cfg : Config) (message : Delivery) (hretry : P Unit (scheduleRetry env)) :
    P Unit (retryOrDlq cfg env message) := by
  refine h.bindQuiet rfl fun attempt ↦ ?_
  by_cases hattempts : cfg.brokerMaxAttempts ≤ attempt
  · rw [if_pos hattempts]
    exact h.bind (h.sendToDlq hpark) fun _ ↦ h.ack _
  · rw [if_neg hattempts]
    exact h.bind hretry fun _ ↦ h.ack _

theorem onPlaced {message : Delivery} (hraw : P Unit (perform (.publish .dlx "" message.body)))
    (hpark : ∀ env, message.body = .envelope env → ∀ attempt : ℤ, P Unit
      (perform (.publish .dlx "" (.envelope { env with attempt := attempt }))))
    (hinsert : ∀ env, message.body = .envelope env →
      P Unit (Orchestrator.insertPlaced env)) : P Unit (onPlaced message) := by
  unfold Orchestrator.onPlaced
  cases hbody : message.body with
  | poison bytes =>
    rw [hbody] at hraw
    exact h.bind hraw fun _ ↦ h.ack _
  | envelope env =>
    refine h.closed.tryCatch _ _ _ (h.bind (hinsert env hbody) fun _ ↦ h.ack _) fun error ↦ ?_
    by_cases hredelivered : message.redelivered = true
    · rw [if_pos hredelivered]
      exact h.bind (h.sendToDlq (hpark env hbody)) fun _ ↦ h.ack _
    · rw [if_neg hredelivered]
      exact h.quiet (.nack message.number true) rfl

theorem replayDlq (hpublish : ∀ body, P Unit (perform (.publish .work rkAdvance body)))
    (limit : ℕ) : P ℕ (replayDlq limit) := by
  induction limit with
  | zero => exact h.closed.ret _ _
  | succ limit ih =>
    refine h.bindQuiet rfl fun found ↦ ?_
    cases found with
    | none => exact h.closed.ret _ _
    | some message =>
      cases hbody : message.body with
      | poison bytes =>
        simp only [hbody]
        exact h.bindQuiet rfl fun _ ↦ ih
      | envelope env =>
        simp only [hbody]
        exact h.bind (hpublish _) fun _ ↦ h.bindQuiet rfl fun _ ↦ h.bind ih fun _ ↦
          h.closed.ret _ _

/-! ### A downstream call -/

theorem exhausted (cfg : Config) (service : Service) (lastExc : String) :
    P Json ((client cfg service).exhausted lastExc) :=
  h.bindQuiet rfl fun _ ↦ h.closed.raise _ _

theorem pause (cfg : Config) (service : Service) (delay : Except Failure Unit) {next : Proc Json}
    (hnext : P Json next) : P Json ((client cfg service).pause delay next) := by
  cases delay with
  | ok => exact h.bindQuiet rfl fun _ ↦ hnext
  | error failure => exact h.closed.raise _ _

theorem again (cfg : Config) (service : Service) (attempt left : ℕ) (lastExc : String)
    {next : Proc Json} (hnext : P Json next) :
    P Json ((client cfg service).again attempt left lastExc next) := by
  unfold HttpClient.again
  split
  · exact h.exhausted cfg service lastExc
  · exact h.pause cfg service _ hnext

theorem rateLimited (cfg : Config) (service : Service) (attempt left : ℕ) (retryAfter : Option ℚ)
    {next : Proc Json} (hnext : P Json next) :
    P Json ((client cfg service).rateLimited attempt left retryAfter next) := by
  unfold HttpClient.rateLimited
  split
  · split
    · exact h.exhausted cfg service _
    · exact h.pause cfg service _ hnext
  · exact h.closed.raise _ _

theorem parse (response : HttpResponse) : P Json (HttpClient.parse (S := signature) response) := by
  unfold HttpClient.parse
  split
  · exact h.closed.ret _ _
  · exact h.closed.raise _ _

theorem react (cfg : Config) (service : Service) (attempt left : ℕ) {next : Proc Json}
    (hnext : P Json next) (outcome : Except String HttpResponse) :
    P Json ((client cfg service).react attempt left next outcome) := by
  cases outcome with
  | error text => exact h.again cfg service attempt left text hnext
  | ok response =>
    simp only [HttpClient.react]
    split
    · exact h.bindQuiet rfl fun _ ↦ h.parse response
    · split
      · exact h.rateLimited cfg service attempt left _ hnext
      · split
        · exact h.again cfg service attempt left _ hnext
        · exact h.bindQuiet rfl fun _ ↦ h.closed.raise _ _

theorem post (cfg : Config) (service : Service) (command : Command) :
    P (Except String HttpResponse) ((client cfg service).post command) := by
  refine h.bindQuiet rfl fun sent ↦ ?_
  cases sent with
  | error text => exact h.closed.ret _ _
  | ok request => exact h.quiet (.await service request) rfl

theorem attempts (cfg : Config) (service : Service) (command : Command) (remaining attempt : ℕ) :
    P Json ((client cfg service).attempts command remaining attempt) := by
  induction remaining generalizing attempt with
  | zero => exact h.exhausted cfg service _
  | succ left ih =>
    exact h.bind (h.post cfg service command) fun outcome ↦
      h.react cfg service attempt left (ih (attempt + 1)) outcome

theorem postJson (cfg : Config) (service : Service) (command : Command) :
    P Json ((client cfg service).postJson command) := by
  refine h.bindQuiet rfl fun allowed ↦ ?_
  cases allowed with
  | true => exact h.attempts cfg service command _ 1
  | false => exact h.closed.raise _ _

theorem callDownstream {cfg : Config} {env : Envelope} {message : Delivery}
    (hrecord : ∀ orderId source target opId kind result cause race attempt, P Bool
      (Orchestrator.recordStep orderId source target opId kind result cause race attempt))
    (hretry : P Unit (Orchestrator.retryOrDlq cfg env message))
    (service : Service) (orderId opId : String) (target : State) (row : OrderRow) :
    P (Option Detail) (callDownstream cfg service orderId opId target row env message) := by
  refine h.bind (h.closed.attempt _ _ (h.postJson cfg service _)) fun outcome ↦ ?_
  cases outcome with
  | ok result => exact h.closed.ret _ _
  | error error =>
    cases error with
    | error text => exact h.closed.raise _ _
    | breakerOpen text => exact h.bind hretry fun _ ↦ h.closed.ret _ _
    | transientExhausted text => exact h.bind hretry fun _ ↦ h.closed.ret _ _
    | permanentError statusCode =>
      exact h.bindQuiet rfl fun attempt ↦ h.bind (hrecord _ _ _ _ _ _ _ _ _) fun _ ↦
        h.bindQuiet rfl fun _ ↦ h.closed.ret _ _

/-! ### Advancing an order -/

theorem decideCancel (cfg : Config) (state : State) : P Bool (decideCancel cfg state) := by
  unfold Orchestrator.decideCancel
  split
  · exact h.bindQuiet rfl fun _ ↦ h.closed.ret _ _
  · exact h.closed.ret _ _

theorem fromStateOf (env : Envelope) : P State (fromStateOf env) := by
  unfold Orchestrator.fromStateOf
  split
  · exact h.closed.raise _ _
  · split
    · exact h.closed.raise _ _
    · exact h.closed.ret _ _

theorem markDone (opId : String) : P Unit (markDone opId) :=
  h.closed.tryCatch _ _ _ (h.quiet (.redisSet _) rfl) fun _ ↦ h.closed.ret _ _

theorem alreadyDone (hconfirm : ∀ opId, P Bool (perform (.operationExists opId))) (cfg : Config)
    (opId : String) : P Bool (alreadyDone cfg opId) := by
  unfold Orchestrator.alreadyDone
  split
  · have hisDone : P Bool (isDone opId) :=
      h.closed.tryCatch _ _ _ (h.quiet (.redisGet _) rfl) fun _ ↦ h.closed.ret _ _
    refine h.bind hisDone fun done ↦ ?_
    cases done with
    | true => exact hconfirm opId
    | false => exact h.closed.ret _ _
  · exact h.closed.ret _ _

section Advance

variable {cfg : Config} {env : Envelope} {message : Delivery}
  (hrecord : ∀ orderId source target opId kind result cause race attempt, P Bool
    (Orchestrator.recordStep orderId source target opId kind result cause race attempt))
  (hretry : P Unit (Orchestrator.retryOrDlq cfg env message))

include hrecord

/-- What follows the downstream call. -/
theorem commit (cfg : Config) (env : Envelope) (message : Delivery) (row : OrderRow)
    (target : State)
    (opId : String) (detail : Option Detail) : P Unit (match detail with
      | none => return ()
      | some detail => do
        let applied ← commitTransition env.orderId row.state target opId detail (← perform .attempt)
        if applied && cfg.firstLine then Orchestrator.markDone opId
        perform (.ack message.number) : Proc Unit) := by
  cases detail with
  | none => exact h.closed.ret _ _
  | some detail =>
    refine h.bindQuiet rfl fun attempt ↦ h.bind (hrecord _ _ _ _ _ _ _ _ _) fun applied ↦ ?_
    split
    · exact h.bind (h.markDone opId) fun _ ↦ h.ack _
    · exact h.ack _

include hretry

theorem takeStep (row : OrderRow) (target : State) (opId : String) :
    P Unit (takeStep cfg env message row target opId) := by
  have hcommit : ∀ detail, P Unit _ := h.commit hrecord cfg env message row target opId
  unfold Orchestrator.takeStep
  cases stageDownstream target with
  | some service => exact h.bind (h.callDownstream hrecord hretry service _ _ _ _) hcommit
  | none =>
    have hsleep : P (Option Detail) ((perform .sleep).bind fun _ ↦ .ret (some ({} : Detail))) :=
      h.bindQuiet rfl fun _ ↦ h.closed.ret _ _
    exact h.bind hsleep hcommit

variable (hselect : ∀ orderId, P (Option OrderRow) (perform (.selectOrder orderId)))
  (hconfirm : ∀ opId, P Bool (perform (.operationExists opId)))

include hselect hconfirm

theorem advance : P Unit (advance cfg env message) := by
  refine h.bind (h.fromStateOf env) fun fromState ↦ h.bind (hselect env.orderId) fun found ↦ ?_
  cases found with
  | none => exact hretry
  | some row =>
    by_cases hstale : row.state ≠ fromState ∨ isTerminal row.state = true
    · simp only [if_pos hstale]
      exact h.ack _
    · simp only [if_neg hstale]
      refine h.bind (h.decideCancel cfg row.state) fun cancelled ↦ ?_
      cases cancelled with
      | true =>
        exact h.bindQuiet rfl fun attempt ↦ h.bind (hrecord _ _ _ _ _ _ _ _ _) fun _ ↦ h.ack _
      | false =>
        cases hnext : nextHappyState row.state with
        | none => exact h.ack _
        | some target =>
          refine h.bind (h.alreadyDone hconfirm cfg _) fun done ↦ ?_
          cases done with
          | true => exact h.ack _
          | false => exact h.takeStep hrecord hretry row target _

end Advance

/-- The last resort: whatever fails, the message is dropped. -/
theorem fault (cfg : Config) {env : Option Envelope} {message : Delivery}
    (hpark : P Unit (perform (.publish .dlx "" message.body)))
    (hretry : ∀ held, env = some held → P Unit (Orchestrator.retryOrDlq cfg held message)) :
    P Unit (fault cfg env message) := by
  refine h.closed.tryCatch _ _ _ ?_ fun _ ↦
    h.closed.tryCatch _ _ _ (h.quiet (.nack message.number false) rfl) fun _ ↦ h.closed.ret _ _
  cases env with
  | none => exact h.bind hpark fun _ ↦ h.ack _
  | some env => exact hretry env rfl

/-- The handler of commands: a property that holds of its transaction, its reads, and what it does
about a failure. -/
theorem onAdvance (cfg : Config) {message : Delivery}
    (hrecord : ∀ orderId source target opId kind result cause race attempt, P Bool
      (Orchestrator.recordStep orderId source target opId kind result cause race attempt))
    (hselect : ∀ orderId, P (Option OrderRow) (perform (.selectOrder orderId)))
    (hconfirm : ∀ opId, P Bool (perform (.operationExists opId)))
    (hpark : P Unit (perform (.publish .dlx "" message.body)))
    (hretry : ∀ env, message.body = .envelope env →
      P Unit (Orchestrator.retryOrDlq cfg env message)) : P Unit (onAdvance cfg message) := by
  unfold Orchestrator.onAdvance
  cases hbody : message.body with
  | poison bytes =>
    show P Unit (Orchestrator.fault cfg none message)
    exact h.fault cfg hpark fun held hheld ↦ by cases hheld
  | envelope env =>
    refine h.closed.tryCatch _ _ _ (h.advance hrecord (hretry env hbody) hselect hconfirm)
      fun _ ↦ ?_
    show P Unit (Orchestrator.fault cfg (some env) message)
    exact h.fault cfg hpark fun held hheld ↦ Option.some.inj hheld ▸ hretry env hbody

end Upholds

end DinnerRush.Orchestrator
