import DinnerRush.Concurrency.Conduct
import DinnerRush.Orchestrator.Lifecycle

/-!
# Replaying the DLQ

The DLQ collects what both handlers park: placed events and commands. A replay moves all of it to
the work queue, whose handler is `on_advance`. A command resumes (`replayResumes`). A placed event
does not: `on_advance` finds no `from` in it, bounces it until its attempts are used up, and parks
it again, so its order is never inserted (`not_replayResumes_starvedWorld`).
-/

set_option autoImplicit false
set_option relaxedAutoImplicit false

namespace DinnerRush.Orchestrator

open Concurrency World

variable {cfg : Config} {D : Downstreams} {foreign : Publication → Bool}

/-- The queue that the handler of a type of message consumes. -/
def consumedFrom : EventType → Option Queue
  | .placed => some .orchPlaced
  | .advance => some .advance
  | .transition => none

/-- Thread `i` is a replay. -/
def IsReplay (launches : List Launch) (thread : ℕ) : Prop :=
  ∃ limit, launches[thread]? = some (.replayDlq limit)

/-- Every envelope that a replay has published went to the queue that the handler of its type
consumes. -/
def ReplayResumes (launches : List Launch) (s : Shared D) : Prop :=
  ∀ publication ∈ s.broker.log, ∀ thread env, publication.publisher = some thread →
    IsReplay launches thread → publication.body = .envelope env →
      s.broker.route publication.exchange publication.routingKey = consumedFrom env.type

/-- A command, or no envelope at all. -/
def isCommand (body : Body) : Bool := decide (body.type = none ∨ body.type = some .advance)

/-- What the effect takes from the DLQ is a command, or no envelope at all. -/
def takesCommand (thread : ℕ) (effect : Effect) (choice : Choice) (s : Shared D) : Bool :=
  match effect, choice with
  | .getDlq, .message number => (s.broker.deliver number .dlq thread).all fun delivered ↦
      isCommand delivered.1.body
  | _, _ => true

/-- The DLQ is replayed only as long as it holds commands. -/
def replaysCommands : World.Permit (orchestrator cfg D foreign) :=
  fun thread effect choice s ↦ takesCommand (D := D) thread effect choice s = true

instance (thread : ℕ) (effect : signature.Effect) (choice : (orchestrator cfg D foreign).Choice)
    (s : (orchestrator cfg D foreign).Shared) :
    Decidable (replaysCommands thread effect choice s) :=
  inferInstanceAs (Decidable (takesCommand (D := D) thread effect choice s = true))

/-! ### The conduct of a replay -/

/-- What a replay is given from the DLQ, when only commands are taken. -/
def Given (commands : Prop) : (effect : Effect) → Except Failure effect.Result → Prop
  | .getDlq, .ok (some message) => commands → isCommand message.body = true
  | _, _ => True

/-- What a replay publishes. -/
structure Moved (commands : Prop) (exchange : Exchange) (routingKey : String) (body : Body) :
    Prop where
  exchange : exchange = .work
  routingKey : routingKey = rkAdvance
  commands : commands → body.type = some .advance

def Moves (commands : Prop) : Effect → Prop
  | .publish exchange routingKey body => Moved commands exchange routingKey body
  | _ => True

theorem conduct_perform {commands : Prop} {effect : Effect} (hmoves : Moves commands effect) :
    (perform effect).Conduct (Given commands) (Moves commands)
      fun value ↦ Given commands effect (.ok value) :=
  Program.conduct_call hmoves fun _ hvalue ↦ hvalue

theorem conduct_replayDlq (commands : Prop) (limit : ℕ) :
    (replayDlq limit).Conduct (Given commands) (Moves commands) fun _ ↦ True := by
  induction limit with
  | zero => trivial
  | succ limit ih =>
    have hget : Moves commands .getDlq := trivial
    refine (conduct_perform hget).bind fun message hgiven ↦ ?_
    cases message with
    | none => trivial
    | some message =>
      have hack : Moves commands (.ack message.number) := trivial
      cases hbody : message.body with
      | poison bytes =>
        simp only [hbody]
        exact (conduct_perform hack).bind fun _ _ ↦ ih
      | envelope env =>
        simp only [hbody]
        have hmoved : Moves commands
            (.publish .work rkAdvance (.envelope { env with attempt := 1 })) := by
          refine ⟨rfl, rfl, fun hcommands ↦ ?_⟩
          have htype : isCommand message.body = true := hgiven hcommands
          rw [isCommand, decide_eq_true_eq, hbody] at htype
          exact htype.resolve_left fun hnone ↦ by cases hnone
        refine (conduct_perform hmoved).bind fun _ _ ↦ ?_
        refine (conduct_perform hack).bind fun _ _ ↦ ?_
        exact ih.bind fun _ _ ↦ trivial

/-! ### Who has published what -/

/-- What a publication adds to the log, if it is routed. -/
theorem log_publish_cases (b : Broker) (publication : Publication) :
    (b.publish publication).log = b.log ∨ (b.publish publication).log = b.log ++ [publication] := by
  rcases b.publish_cases publication with ⟨-, hsame⟩ | ⟨queue, -, hpublished⟩
  · exact Or.inl (congrArg Broker.log hsame)
  · exact Or.inr (congrArg Broker.log hpublished)

/-- The log grows by what an effect publishes, and by nothing else. -/
theorem log_of_exec {thread : ℕ} {effect : Effect} {choice : Choice} {s s' : Shared D}
    {reply : Except Failure effect.Result} (h : exec thread effect choice s = some (reply, s')) :
    s'.broker.log = s.broker.log ∨ ∃ exchange routingKey body,
      effect = .publish exchange routingKey body ∧
        s'.broker.log = s.broker.log ++ [⟨some thread, exchange, routingKey, body⟩] := by
  rcases broker_of_exec h with hmoves | hbound | ⟨number, hdiscarded⟩ |
    ⟨exchange, routingKey, body, heffect, hpublished⟩
  · exact Or.inl hmoves.log
  · rw [hbound]
    exact Or.inl rfl
  · rw [hdiscarded]
    exact Or.inl rfl
  · rw [hpublished]
    exact (log_publish_cases s.broker _).imp_right fun hlog ↦
      ⟨exchange, routingKey, body, heffect, hlog⟩

/-- What is taken from the DLQ under the condition is as expected. -/
theorem given_of_exec {commands : Prop} {thread : ℕ} {effect : Effect} {choice : Choice}
    {s s' : Shared D} {reply : Except Failure effect.Result}
    (h : exec thread effect choice s = some (reply, s'))
    (htakes : commands → takesCommand thread effect choice s = true) :
    Given commands effect reply := by
  cases effect with
  | getDlq =>
    cases reply with
    | error error => trivial
    | ok found =>
      cases found with
      | none => trivial
      | some message =>
        intro hcommands
        have htaken := htakes hcommands
        cases choice with
        | message number =>
          obtain ⟨delivered, hdeliver, hreply⟩ := Option.map_eq_some_iff.mp h
          obtain ⟨hmessage, -⟩ := Prod.mk.inj hreply
          obtain rfl := Option.some.inj (Except.ok.inj hmessage)
          rw [takesCommand, hdeliver] at htaken
          exact htaken
        | done =>
          simp only [exec] at h
          split at h <;> cases h
        | _ => cases h
  | _ => trivial

/-- The rule of the replays: only the threads of the pool have published, and what a replay has
published is what it may publish. -/
def replayRule (commands : Prop) : Rule (orchestrator cfg D foreign) where
  Allowed _ launched effect := ∀ limit, launched = .replayDlq limit → Moves commands effect
  Expected := Given commands
  Returns _ _ := True
  Inv launches s := ∀ publication ∈ Broker.log (Shared.broker s), ∀ thread,
    publication.publisher = some thread → thread < launches.length ∧ (IsReplay launches thread →
      Moved commands publication.exchange publication.routingKey publication.body)

theorem isReplay_append {launches : List Launch} {started : Launch} {thread : ℕ}
    (h : IsReplay (launches ++ [started]) thread) :
    IsReplay launches thread ∨
      thread = launches.length ∧ ∃ limit, started = .replayDlq limit := by
  obtain ⟨limit, hlimit⟩ := h
  by_cases hthread : thread < launches.length
  · rw [List.getElem?_append_left hthread] at hlimit
    exact Or.inl ⟨limit, hlimit⟩
  · have hbound := (List.getElem?_eq_some_iff.mp hlimit).1
    rw [List.length_append, List.length_singleton] at hbound
    have hlast : thread = launches.length := by omega
    rw [hlast, List.getElem?_concat_length] at hlimit
    exact Or.inr ⟨hlast, limit, Option.some.inj hlimit⟩

/-- What happens beside the handlers is not published by one of them. -/
theorem log_of_ambient {act : Ambient D} {s s' : Shared D} (h : ambient foreign act s = some s') :
    ∀ publication ∈ s'.broker.log, publication ∈ s.broker.log ∨ publication.publisher = none := by
  intro logged hlogged
  rcases broker_of_ambient h with hmoves | ⟨publication, -, hnone, hpublished⟩
  · rw [hmoves.log] at hlogged
    exact Or.inl hlogged
  · rw [hpublished] at hlogged
    rcases Broker.mem_log_of_publish hlogged with hold | rfl
    · exact Or.inl hold
    · exact Or.inr hnone

section Steps

variable {commands : Prop} {launches : List (orchestrator cfg D foreign).Launch}
  {w : World (orchestrator cfg D foreign)}

/-- The programs of the pool keep to the rule. -/
theorem conduct_of_launch {launched : Launch} {thread : ℕ} {s s' : Shared D} {program : Proc Unit}
    (h : launch cfg thread launched s = some (program, s')) :
    program.Conduct (Given commands)
      (fun effect ↦ ∀ limit, launched = .replayDlq limit → Moves commands effect)
      fun _ ↦ True := by
  by_cases hreplay : ∃ limit, launched = .replayDlq limit
  · obtain ⟨limit, rfl⟩ := hreplay
    obtain ⟨rfl, -⟩ := Prod.mk.inj (Option.some.inj h)
    have hconduct : ((replayDlq limit).bind fun _ ↦ .ret ()).Conduct (Given commands)
        (Moves commands) fun _ ↦ True :=
      (conduct_replayDlq commands limit).bind fun _ _ ↦ trivial
    exact hconduct.allowing fun effect hmoves _ _ ↦ hmoves
  · exact Program.conduct_of_allowed fun _ limit hlimit ↦ absurd ⟨limit, hlimit⟩ hreplay

theorem replays_enforced : Rule.Enforced (M := orchestrator cfg D foreign) (replayRule commands)
    fun thread effect choice s ↦
      commands → takesCommand (D := D) thread effect choice s = true where
  start _ hlogged := by cases hlogged
  launch launches launched s program s' h hlaunch := by
    refine ⟨fun publication hlogged thread hpublisher ↦ ?_, fun _ _ h ↦ h,
      conduct_of_launch hlaunch⟩
    rw [(broker_of_launch hlaunch).log] at hlogged
    obtain ⟨hused, hmoved⟩ := h publication hlogged thread hpublisher
    rw [List.length_append]
    refine ⟨Nat.lt_add_right _ hused, fun hreplay ↦ ?_⟩
    rcases isReplay_append hreplay with hreplay | ⟨hlast, -⟩
    · exact hmoved hreplay
    · exact absurd hused (hlast ▸ Nat.lt_irrefl _)
  exec launches thread launched effect choice s reply s' hlaunched hallowed htakes h hexec := by
    refine ⟨fun publication hlogged publisher hpublisher ↦ ?_, fun _ _ h ↦ h,
      given_of_exec hexec htakes⟩
    rcases log_of_exec hexec with hlog | ⟨exchange, routingKey, body, rfl, hlog⟩
    · rw [hlog] at hlogged
      exact h publication hlogged publisher hpublisher
    · rw [hlog] at hlogged
      rcases List.mem_append.mp hlogged with hold | hnew
      · exact h publication hold publisher hpublisher
      · rw [List.mem_singleton.mp hnew] at hpublisher ⊢
        obtain rfl : thread = publisher := Option.some.inj hpublisher
        refine ⟨(List.getElem?_eq_some_iff.mp hlaunched).1, fun ⟨limit, hlimit⟩ ↦ ?_⟩
        exact hallowed limit (Option.some.inj (hlaunched.symm.trans hlimit))
  ambient launches act s s' h hambient := by
    refine ⟨fun publication hlogged thread hpublisher ↦ ?_, fun _ _ h ↦ h⟩
    rcases log_of_ambient hambient publication hlogged with hold | hnone
    · exact h publication hold thread hpublisher
    · rw [hnone] at hpublisher
      cases hpublisher

/-- What the replays of a world have published. -/
theorem moved_of_traced (hw : Traced (fun thread effect choice s ↦
      commands → takesCommand (D := D) thread effect choice s = true) launches w)
    {publication : Publication} (hlogged : publication ∈ w.shared.broker.log) {thread : ℕ}
    (hpublisher : publication.publisher = some thread) (hreplay : IsReplay launches thread) :
    Moved commands publication.exchange publication.routingKey publication.body :=
  (((replays_enforced).kept hw).inv publication hlogged thread hpublisher).2 hreplay

/-- What a replay has published is consumed by the handler of its type exactly when it is a
command. -/
theorem route_eq_consumedFrom_iff {s : Shared D} {publication : Publication} {env : Envelope}
    (h : Moved commands publication.exchange publication.routingKey publication.body) :
    s.broker.route publication.exchange publication.routingKey = consumedFrom env.type ↔
      env.type = .advance := by
  have hroute : s.broker.route publication.exchange publication.routingKey = some .advance := by
    rw [h.exchange, h.routingKey]
    rfl
  rw [hroute]
  cases env.type <;> simp [consumedFrom]

/-- In any run, what the replays have moved resumes exactly when it is commands. -/
theorem resumes_iff (hw : Traced anyEffect launches w) : ReplayResumes launches w.shared ↔
    ∀ publication ∈ w.shared.broker.log, ∀ thread env, publication.publisher = some thread →
      IsReplay launches thread → publication.body = .envelope env → env.type = .advance := by
  have hmoved : ∀ publication ∈ w.shared.broker.log, ∀ thread,
      publication.publisher = some thread → IsReplay launches thread →
        Moved False publication.exchange publication.routingKey publication.body :=
    fun _ hlogged _ ↦ moved_of_traced (hw.mono fun _ _ _ _ _ hfalse ↦ hfalse.elim) hlogged
  constructor
  · intro h publication hlogged thread env hpublisher hreplay hbody
    exact (route_eq_consumedFrom_iff (hmoved publication hlogged thread hpublisher hreplay)).mp
      (h publication hlogged thread env hpublisher hreplay hbody)
  · intro h publication hlogged thread env hpublisher hreplay hbody
    exact (route_eq_consumedFrom_iff (hmoved publication hlogged thread hpublisher hreplay)).mpr
      (h publication hlogged thread env hpublisher hreplay hbody)

end Steps

/-- **Replays resume what was parked**, in every run in which they take only commands from the
DLQ. -/
theorem replayResumes (cfg : Config) (D : Downstreams) (foreign : Publication → Bool)
    {launches : List (orchestrator cfg D foreign).Launch} {w : World (orchestrator cfg D foreign)}
    (hw : Traced replaysCommands launches w) : ReplayResumes launches w.shared := by
  rw [resumes_iff (hw.mono fun _ _ _ _ _ ↦ trivial)]
  intro publication hlogged thread env hpublisher hreplay hbody
  have hmoved : Moved True publication.exchange publication.routingKey publication.body :=
    moved_of_traced (hw.mono fun _ _ _ _ htakes _ ↦ htakes) hlogged hpublisher hreplay
  have htype := hmoved.commands trivial
  rw [hbody] at htype
  exact Option.some.inj htype

/-! ### Two parked messages -/

/-- The handler of the first command cannot read its order (thread 3) and parks the command, which
is replayed (thread 4). -/
def resuming : List (Action (orchestrator { brokerMaxAttempts := 1 } .any fun _ ↦ true)) :=
  placing ++ [.launch (.onAdvance 1), .step 3 (.lost "connection is closed"), .step 3 .done,
    .step 3 .done, .step 3 .done, .step 3 .done,
    .launch (.replayDlq 1), .step 4 (.message 2), .step 4 .done, .step 4 .done]

/-- The command is back in the work queue. -/
def resumedWorld : World (orchestrator { brokerMaxAttempts := 1 } .any fun _ ↦ true) :=
  ((World.initial _).runPermitted replaysCommands resuming).get (by decide)

theorem replayResumes_resumedWorld :
    ReplayResumes (resuming.flatMap launchOf) resumedWorld.shared ∧
      resumedWorld.shared.broker.copies.map Copy.place = [.ready .advance] :=
  ⟨replayResumes _ .any (fun _ ↦ true) (traced_of_runPermitted (Option.some_get _).symm), by decide⟩

/-- Two handlers of a placed event cannot reach the database (threads 1 and 2), so the event is
parked. It is replayed (thread 3), and handled on the work queue when nothing fails any more
(thread 4). -/
def starving : List (Action (orchestrator {} .any fun _ ↦ true)) :=
  [.launch .start, .step 0 .done,
    .ambient (.publish ⟨none, .events, rkPlaced, .envelope dinnerPlaced⟩),
    .launch (.onPlaced 0), .step 1 (.lost "connection is closed"), .step 1 .done,
    .launch (.onPlaced 0), .step 2 (.lost "connection is closed"), .step 2 .done, .step 2 .done,
    .step 2 .done,
    .launch (.replayDlq 1), .step 3 (.message 1), .step 3 .done, .step 3 .done,
    .launch (.onAdvance 2), .step 4 .done, .step 4 .done, .step 4 .done, .step 4 .done,
    .step 4 .done]

def starvedWorld : World (orchestrator {} .any fun _ ↦ true) :=
  ((World.initial _).runPermitted anyEffect starving).get (by decide)

/-- The replayed event has come to the handler of commands, and the order is still not there. -/
theorem starvedWorld_orders : starvedWorld.shared.db.committed.orders = [] := by
  decide

theorem not_replayResumes_starvedWorld :
    ¬ ∀ (launches : List (orchestrator {} .any fun _ ↦ true).Launch)
      (w : World (orchestrator {} .any fun _ ↦ true)), Traced anyEffect launches w →
        ReplayResumes launches w.shared := by
  intro h
  have htraced : Traced anyEffect (starving.flatMap launchOf) starvedWorld :=
    traced_of_runPermitted (Option.some_get _).symm
  have hlogged : ⟨some 3, .work, rkAdvance, .envelope dinnerPlaced⟩ ∈
      starvedWorld.shared.broker.log := by decide
  have hroute := h _ _ htraced _ hlogged 3 dinnerPlaced rfl ⟨1, rfl⟩ rfl
  exact absurd hroute (by decide)

end DinnerRush.Orchestrator
