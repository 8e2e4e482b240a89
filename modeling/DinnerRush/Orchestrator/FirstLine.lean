import DinnerRush.Concurrency.Refinement
import DinnerRush.Orchestrator.Composition
import DinnerRush.Orchestrator.Handling

/-!
# The handlers with and without the first-line check

`on_advance` with a Redis client and `on_advance` without one are different programs: the first
reads Redis, may confirm the operation in Postgres and then acks at once, and marks the operation
done at the end. `Matches` relates a program of a world with the check to one of a world without it.
Where the first takes the fast path, the second stays where it is: it would do the step again, and
nothing forces it to. Only when the ack of the fast path fails does it have to move, since the first
then republishes the command: it fails as well, before it has touched anything (`Quietly`).

The relation holds of every handler of a command (`matches_onAdvance`).
-/

set_option autoImplicit false
set_option relaxedAutoImplicit false

namespace DinnerRush.Orchestrator

open Concurrency

variable {α β : Type}

/-- The settings without a Redis client. -/
def Config.withoutFirstLine (cfg : Config) : Config := { cfg with firstLine := false }

/-! ### Programs that confirm nothing -/

/-- The confirmation of the fast path, which nothing else performs. -/
def Effect.confirms : Effect → Bool
  | operationExists _ => true
  | _ => false

/-- The program is off the fast path: it never confirms an operation. -/
def Plain (program : Proc α) : Prop :=
  program.Conduct (fun _ _ ↦ True) (fun effect : Effect ↦ effect.confirms = false) fun _ ↦ True

theorem plain_perform {effect : Effect} (h : effect.confirms = false) : Plain (perform effect) :=
  Program.conduct_call h fun _ _ ↦ trivial

theorem Plain.bind {program : Proc α} {next : α → Proc β} (h : Plain program)
    (hnext : ∀ value, Plain (next value)) : Plain (program.bind next) :=
  Program.Conduct.bind h fun value _ ↦ hnext value

/-- The effect comes first. -/
theorem plain_then {effect : Effect} {next : effect.Result → Proc β}
    (h : effect.confirms = false) (hnext : ∀ value, Plain (next value)) :
    Plain ((perform effect).bind next) :=
  (plain_perform h).bind hnext

theorem upholds_plain : Upholds fun (β : Type) (program : Proc β) ↦ Plain program where
  closed := Program.closed_conduct _ _
  quiet effect hquiet := plain_perform <| by
    cases effect <;> first | rfl | cases hquiet

theorem transacts_plain : Transacts fun (β : Type) (program : Proc β) ↦ Plain program :=
  ⟨plain_perform rfl, plain_perform rfl, plain_perform rfl⟩

theorem plain_replayDlq (limit : ℕ) : Plain (replayDlq limit) :=
  upholds_plain.replayDlq (fun _ ↦ plain_perform rfl) limit

theorem plain_onPlaced (message : Delivery) : Plain (onPlaced message) :=
  upholds_plain.onPlaced (plain_perform rfl) (fun _ _ _ ↦ plain_perform rfl) fun _ _ ↦
    upholds_plain.insertPlaced transacts_plain (plain_perform rfl) fun _ ↦ plain_perform rfl

theorem plain_recordStep (orderId : String) (source target : State) (opId kind : String)
    (result : Detail) (cause race : String) (attempt : ℤ) :
    Plain (recordStep orderId source target opId kind result cause race attempt) :=
  upholds_plain.recordStep transacts_plain (fun _ ↦ plain_perform rfl)
    (fun _ _ _ ↦ plain_perform rfl) (fun _ ↦ plain_perform rfl) (fun _ ↦ plain_perform rfl)
    (fun _ ↦ plain_perform rfl) _ _ _ _ _ _ _ _ _

theorem plain_retryOrDlq (cfg : Config) (env : Envelope) (message : Delivery) :
    Plain (retryOrDlq cfg env message) :=
  upholds_plain.retryOrDlq (fun _ ↦ plain_perform rfl) cfg message
    (plain_then rfl fun _ ↦ (upholds_plain.current env).bind fun _ ↦ plain_perform rfl)

theorem plain_fault (cfg : Config) (env : Option Envelope) (message : Delivery) :
    Plain (fault cfg env message) :=
  upholds_plain.fault cfg (plain_perform rfl) fun held _ ↦ plain_retryOrDlq cfg held message

theorem plain_publishAll (rows : List OutboxRow) : Plain (relay.publishAll rows) := by
  induction rows with
  | nil => trivial
  | cons row rest ih => exact plain_then rfl fun _ ↦ ih.bind fun _ ↦ trivial

theorem plain_drainOnce : Plain relay.drainOnce := by
  refine upholds_plain.tx transacts_plain (plain_then rfl fun rows ↦ ?_)
  show Plain (if _ then _ else _)
  split
  · trivial
  · exact (plain_publishAll rows).bind fun _ ↦ plain_then rfl fun _ ↦ trivial

/-! ### Giving up quietly -/

variable {cfg : Config} {D : Downstreams} {foreign : Publication → Bool}

/-- Without the check, the program can fail before it has touched the shared state. -/
def GivesUp (cfg : Config) (D : Downstreams) (foreign : Publication → Bool) (program : Proc α) :
    Prop :=
  program.Quietly (orchestrator cfg.withoutFirstLine D foreign) (.raise (.error ""))

theorem GivesUp.bind {program : Proc α} (h : GivesUp cfg D foreign program) (next : α → Proc β) :
    GivesUp cfg D foreign (program.bind next) :=
  Program.Quietly.bind h next

/-- The transaction of a step fails to begin. -/
theorem givesUp_recordStep (orderId : String) (source target : State) (opId kind : String)
    (result : Detail) (cause race : String) (attempt : ℤ) : GivesUp cfg D foreign
      (recordStep orderId source target opId kind result cause race attempt) :=
  .step (.lost "") (fun _ _ ↦ .error (.error "")) (fun _ _ ↦ rfl) fun _ _ ↦ .refl _

/-- The breaker admits the call, and the request fails to be sent. -/
theorem givesUp_callDownstream (service : Service) (orderId opId : String) (target : State)
    (row : OrderRow) (env : Envelope) (message : Delivery) : GivesUp cfg D foreign
      (callDownstream cfg.withoutFirstLine service orderId opId target row env message) := by
  have hattempts : ∀ command left, GivesUp cfg D foreign
      ((client cfg.withoutFirstLine service).attempts command (left + 1) 1) := fun command left ↦
    .step (.lost "") (fun _ _ ↦ .error (.error "")) (fun _ _ ↦ rfl) fun _ _ ↦ .refl _
  have hpost : ∀ command, GivesUp cfg D foreign
      ((client cfg.withoutFirstLine service).postJson command) := fun command ↦
    .step (.flag true) (fun _ _ ↦ .ok true) (fun _ _ ↦ rfl) fun _ _ ↦
      hattempts command cfg.httpMaxRetries
  exact (hpost _).attempt.bind _

theorem givesUp_takeStep (env : Envelope) (message : Delivery) (row : OrderRow) (target : State)
    (opId : String) : GivesUp cfg D foreign
      (takeStep cfg.withoutFirstLine env message row target opId) := by
  unfold takeStep
  cases stageDownstream target with
  | some service => exact (givesUp_callDownstream service ..).bind _
  | none =>
    refine .step .done (fun _ _ ↦ .ok ()) (fun _ _ ↦ rfl) fun _ _ ↦ ?_
    refine .step .done (fun thread s ↦ .ok (s.attempts thread)) (fun _ _ ↦ rfl) fun _ _ ↦ ?_
    exact (givesUp_recordStep ..).bind _

/-! ### The programs of the two worlds -/

/-- The order of the message with the number has left the state that the message names. -/
def Passed (log : List Publication) (d : Db) (number : ℕ) : Prop :=
  ∃ publication env source, log[number]? = some publication ∧ publication.body = .envelope env ∧
    env.data.fromState = some source.value ∧ Left d env.orderId source

/-- The operation is a step from the state that the message with the number names. -/
def Names (log : List Publication) (number : ℕ) (opId : String) : Prop :=
  ∃ publication env source target, log[number]? = some publication ∧
    publication.body = .envelope env ∧ env.data.fromState = some source.value ∧
    opId = opIdFor env.orderId source target

/-- A program of a world with the check, and one of a world without it that can follow. -/
inductive Matches (cfg : Config) (D : Downstreams) (foreign : Publication → Bool)
    (log : List Publication) (d : Db) : Proc Unit → Proc Unit → Prop
  /-- A program that has finished, on the fast path or not. -/
  | finished (value : Unit) (program₀ : Proc Unit) :
      Matches cfg D foreign log d (.ret value) program₀
  | failed (error error₀ : Failure) :
      Matches cfg D foreign log d (.raise error) (.raise error₀)
  | same (effect : Effect) (resume resume₀ : Except Failure effect.Result → Proc Unit)
      (hplain : effect.confirms = false)
      (hresume : ∀ reply, Matches cfg D foreign log d (resume reply) (resume₀ reply)) :
      Matches cfg D foreign log d (.perform effect resume) (.perform effect resume₀)
  | redisGet (key : String) (resume : Except Failure Bool → Proc Unit) (program₀ : Proc Unit)
      (hresume : ∀ reply, Matches cfg D foreign log d (resume reply) program₀) :
      Matches cfg D foreign log d (.perform (.redisGet key) resume) program₀
  | redisSet (key : String) (resume : Except Failure Unit → Proc Unit) (program₀ : Proc Unit)
      (hresume : ∀ reply, Matches cfg D foreign log d (resume reply) program₀) :
      Matches cfg D foreign log d (.perform (.redisSet key) resume) program₀
  /-- The confirmation: what Postgres confirms is a step of the message that is acked next. -/
  | confirm (opId : String) (number : ℕ) (resume : Except Failure Bool → Proc Unit)
      (tail : Except Failure Unit → Proc Unit) (program₀ : Proc Unit)
      (hnames : Names log number opId) (hack : resume (.ok true) = .perform (.ack number) tail)
      (hdone : ∃ value, tail (.ok ()) = .ret value)
      (hfailed : ∀ error, Matches cfg D foreign log d (tail (.error error)) program₀)
      (hresume : ∀ reply, reply ≠ .ok true → Matches cfg D foreign log d (resume reply) program₀) :
      Matches cfg D foreign log d (.perform (.operationExists opId) resume) program₀
  /-- The ack of the fast path. -/
  | skip (number : ℕ) (tail : Except Failure Unit → Proc Unit) (program₀ : Proc Unit)
      (hpassed : Passed log d number) (hdone : ∃ value, tail (.ok ()) = .ret value)
      (hfailed : ∀ error, Matches cfg D foreign log d (tail (.error error)) program₀) :
      Matches cfg D foreign log d (.perform (.ack number) tail) program₀
  | quietly (program program₀ program₁ : Proc Unit)
      (hquietly : program₀.Quietly (orchestrator cfg.withoutFirstLine D foreign) program₁)
      (hmatches : Matches cfg D foreign log d program program₁) :
      Matches cfg D foreign log d program program₀

variable {log log' : List Publication} {d d' : Db} {program program₀ : Proc Unit}

theorem Passed.mono {number : ℕ} (h : Passed log d number) (hlog : log <+: log')
    (hgrows : d.Grows d') : Passed log' d' number := by
  obtain ⟨publication, env, source, hlogged, hbody, hfrom, hleft⟩ := h
  exact ⟨publication, env, source, Broker.logged_of_prefix hlog hlogged, hbody, hfrom,
    hleft.grows hgrows⟩

theorem Names.mono {number : ℕ} {opId : String} (h : Names log number opId)
    (hlog : log <+: log') : Names log' number opId := by
  obtain ⟨publication, env, source, target, hlogged, hbody, hfrom, hop⟩ := h
  exact ⟨publication, env, source, target, Broker.logged_of_prefix hlog hlogged, hbody, hfrom, hop⟩

/-- An order has left the state of each of its recorded operations. -/
theorem Names.passed {number : ℕ} {opId : String} (h : Names log number opId) (hledger : Ledger d)
    (hexists : (Table.find OperationRow.opId opId d.operations).isSome = true) :
    Passed log d number := by
  obtain ⟨publication, env, source, target, hlogged, hbody, hfrom, hop⟩ := h
  obtain ⟨operation, hfind⟩ := Option.isSome_iff_exists.mp hexists
  obtain ⟨hmem, hid⟩ := Table.find_some hfind
  exact ⟨publication, env, source, hlogged, hbody, hfrom,
    hledger.left_of_operation hmem (hid.trans hop)⟩

/-- Two programs match whatever is published and recorded meanwhile. -/
theorem Matches.mono (h : Matches cfg D foreign log d program program₀) (hlog : log <+: log')
    (hgrows : d.Grows d') : Matches cfg D foreign log' d' program program₀ := by
  induction h with
  | finished value program₀ => exact .finished value program₀
  | failed error error₀ => exact .failed error error₀
  | same effect resume resume₀ hplain _ ih => exact .same effect resume resume₀ hplain ih
  | redisGet key resume program₀ _ ih => exact .redisGet key resume program₀ ih
  | redisSet key resume program₀ _ ih => exact .redisSet key resume program₀ ih
  | confirm opId number resume tail program₀ hnames hack hdone _ _ ihfailed ih =>
    exact .confirm opId number resume tail program₀ (hnames.mono hlog) hack hdone ihfailed ih
  | skip number tail program₀ hpassed hdone _ ih =>
    exact .skip number tail program₀ (hpassed.mono hlog hgrows) hdone ih
  | quietly program program₀ program₁ hquietly _ ih =>
    exact .quietly program program₀ program₁ hquietly ih

/-- The same plain program, before programs that match. -/
theorem matches_bind {plain : Proc α} (hplain : Plain plain) {next next₀ : α → Proc Unit}
    (h : ∀ value, Matches cfg D foreign log d (next value) (next₀ value)) :
    Matches cfg D foreign log d (plain.bind next) (plain.bind next₀) := by
  induction plain with
  | ret value => exact h value
  | raise error => exact .failed error error
  | perform effect resume ih =>
    exact .same effect _ _ hplain.1 fun reply ↦ ih reply (hplain.2 reply trivial)

theorem matches_refl (hplain : Plain program) : Matches cfg D foreign log d program program := by
  induction program with
  | ret value => exact .finished value _
  | raise error => exact .failed error error
  | perform effect resume ih =>
    exact .same effect _ _ hplain.1 fun reply ↦ ih reply (hplain.2 reply trivial)

/-- Handlers that ignore which error was raised. -/
theorem Matches.tryCatch (h : Matches cfg D foreign log d program program₀)
    {handler handler₀ : Failure → Proc Unit}
    (hhandler : ∀ error error₀, Matches cfg D foreign log d (handler error) (handler₀ error₀)) :
    Matches cfg D foreign log d (program.tryCatch handler) (program₀.tryCatch handler₀) := by
  induction h with
  | finished value program₀ => exact .finished value _
  | failed error error₀ => exact hhandler error error₀
  | same effect resume resume₀ hplain _ ih => exact .same effect _ _ hplain ih
  | redisGet key resume program₀ _ ih => exact .redisGet key _ _ ih
  | redisSet key resume program₀ _ ih => exact .redisSet key _ _ ih
  | confirm opId number resume tail program₀ hnames hack hdone _ _ ihfailed ih =>
    obtain ⟨value, hvalue⟩ := hdone
    refine .confirm opId number _ (fun reply ↦ (tail reply).tryCatch handler) _ hnames ?_
      ⟨value, ?_⟩ ihfailed ih
    · rw [hack, Program.perform_tryCatch]
    · rw [hvalue, Program.ret_tryCatch]
  | skip number tail program₀ hpassed hdone _ ih =>
    obtain ⟨value, hvalue⟩ := hdone
    refine .skip number _ _ hpassed ⟨value, ?_⟩ ih
    rw [hvalue, Program.ret_tryCatch]
  | quietly program program₀ program₁ hquietly _ ih =>
    exact .quietly _ _ _ (hquietly.tryCatch handler₀) ih

/-! ### The handlers match -/

section Handlers

variable {env : Envelope} {message : Delivery} {row : OrderRow} {target : State} {opId : String}

/-- Whatever Redis answers, or if it fails. -/
theorem matches_isDone {key : String} {next : Bool → Proc Unit}
    (h : ∀ done, Matches cfg D foreign log d (next done) program₀) :
    Matches cfg D foreign log d ((isDone key).bind next) program₀ := by
  refine .redisGet _ _ _ fun reply ↦ ?_
  cases reply with
  | ok done => exact h done
  | error error => exact h false

theorem matches_markDone {key : String}
    (h : Matches cfg D foreign log d program program₀) :
    Matches cfg D foreign log d ((markDone key).bind fun _ ↦ program) program₀ := by
  refine .redisSet _ _ _ fun reply ↦ ?_
  cases reply with
  | ok value => exact h
  | error error => exact h

theorem plain_stage (cfg : Config) (opId : String) (row : OrderRow) (env : Envelope)
    (message : Delivery) (target : State) : Plain (match stageDownstream target with
      | some service => callDownstream cfg service env.orderId opId target row env message
      | none => do
        perform .sleep
        return some {} : Proc (Option Detail)) := by
  cases stageDownstream target with
  | some service =>
    exact upholds_plain.callDownstream plain_recordStep (plain_retryOrDlq cfg env message) service
      _ _ _ _
  | none => exact plain_then rfl fun _ ↦ trivial

theorem matches_takeStep : Matches cfg D foreign log d (takeStep cfg env message row target opId)
    (takeStep cfg.withoutFirstLine env message row target opId) := by
  have hack : Matches cfg D foreign log d (perform (.ack message.number))
      (perform (.ack message.number)) := matches_refl (plain_perform rfl)
  refine matches_bind (plain_stage cfg opId row env message target) fun detail ↦ ?_
  cases detail with
  | none => exact .finished _ _
  | some detail =>
    refine matches_bind (plain_perform rfl) fun attempt ↦ matches_bind (plain_recordStep ..) ?_
    intro applied
    have hlast : Matches cfg D foreign log d
        (if applied && cfg.firstLine then (markDone opId).bind fun _ ↦ perform (.ack message.number)
          else perform (.ack message.number)) (perform (.ack message.number)) := by
      split
      · exact matches_markDone hack
      · exact hack
    cases applied with
    | true => exact hlast
    | false => exact hlast

/-- The fast path acks the message of the step it finds recorded. -/
theorem matches_advanceStep
    (hnames : Names log message.number (opIdFor env.orderId row.state target)) :
    Matches cfg D foreign log d (advanceStep cfg env message row target)
      (advanceStep cfg.withoutFirstLine env message row target) := by
  generalize hop : opIdFor env.orderId row.state target = opId at hnames
  have hstep : Matches cfg D foreign log d (takeStep cfg env message row target opId)
      (takeStep cfg.withoutFirstLine env message row target opId) := matches_takeStep
  show Matches cfg D foreign log d
    ((alreadyDone cfg (opIdFor env.orderId row.state target)).bind fun skip ↦
      if skip then perform (.ack message.number) else takeStep cfg env message row target _)
    (takeStep cfg.withoutFirstLine env message row target _)
  rw [hop]
  unfold alreadyDone
  split
  · rw [Program.bind_eq, Program.bind_assoc]
    refine matches_isDone fun done ↦ ?_
    cases done with
    | false => exact hstep
    | true =>
      refine .confirm opId message.number _ Program.ofExcept _ hnames rfl ⟨(), rfl⟩ ?_ ?_
      · exact fun error ↦ .quietly _ _ _ (givesUp_takeStep env message row target opId)
          (.failed error _)
      · intro reply hreply
        rcases reply with error | (_ | _)
        · exact .quietly _ _ _ (givesUp_takeStep env message row target opId) (.failed error _)
        · exact hstep
        · exact absurd rfl hreply
  · exact hstep

/-- Whichever state comes next. -/
theorem matches_onward
    (hnames : ∀ target, Names log message.number (opIdFor env.orderId row.state target)) :
    Matches cfg D foreign log d
      (match nextHappyState row.state with
        | none => perform (.ack message.number)
        | some target => advanceStep cfg env message row target)
      (match nextHappyState row.state with
        | none => perform (.ack message.number)
        | some target => advanceStep cfg.withoutFirstLine env message row target) := by
  cases nextHappyState row.state with
  | none => exact matches_refl (plain_perform rfl)
  | some target => exact matches_advanceStep (hnames target)

/-- A step is only taken from the state that the message names. -/
theorem matches_advance {publication : Publication}
    (hlogged : log[message.number]? = some publication)
    (hbody : publication.body = .envelope env) : Matches cfg D foreign log d
      (advance cfg env message) (advance cfg.withoutFirstLine env message) := by
  have hack : Matches cfg D foreign log d (perform (.ack message.number))
      (perform (.ack message.number)) := matches_refl (plain_perform rfl)
  unfold advance
  rcases fromStateOf_cases env with ⟨error, hraise⟩ | ⟨fromState, hret, hfrom⟩
  · rw [hraise]
    exact .failed _ _
  · rw [hret]
    refine matches_bind (plain_perform rfl) fun found ↦ ?_
    cases found with
    | none => exact matches_refl (plain_retryOrDlq cfg env message)
    | some row =>
      show Matches cfg D foreign log d (if _ then _ else _) (if _ then _ else _)
      by_cases hstale : row.state ≠ fromState ∨ isTerminal row.state = true
      · rw [if_pos hstale, if_pos hstale]
        exact hack
      · rw [if_neg hstale, if_neg hstale]
        refine matches_bind (upholds_plain.decideCancel cfg row.state) fun cancels ↦ ?_
        cases cancels with
        | true =>
          refine matches_refl (plain_then rfl fun attempt ↦ ?_)
          exact (plain_recordStep ..).bind fun _ ↦ plain_perform rfl
        | false =>
          have hstate : row.state = fromState := by
            by_contra hne
            exact hstale (Or.inl hne)
          have hnamed : env.data.fromState = some row.state.value := by rw [hfrom, hstate]
          exact matches_onward fun target ↦
            ⟨publication, env, row.state, target, hlogged, hbody, hnamed, rfl⟩

theorem matches_onAdvance {publication : Publication}
    (hlogged : log[message.number]? = some publication) (hbody : publication.body = message.body) :
    Matches cfg D foreign log d (onAdvance cfg message)
      (onAdvance cfg.withoutFirstLine message) := by
  unfold onAdvance
  cases hmessage : message.body with
  | poison bytes => exact matches_refl (plain_fault cfg none message)
  | envelope env =>
    refine (matches_advance hlogged (hbody.trans hmessage)).tryCatch fun _ _ ↦ ?_
    exact matches_refl (plain_fault cfg (some env) message)

end Handlers

end DinnerRush.Orchestrator
