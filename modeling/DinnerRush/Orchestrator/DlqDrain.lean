import DinnerRush.Concurrency.Quota
import DinnerRush.Concurrency.Transitions
import DinnerRush.Orchestrator.System
import Mathlib.Algebra.BigOperators.Group.Finset.Basic
import Mathlib.Algebra.Order.Field.Rat
import Mathlib.Tactic.Linarith

/-!
# The automatic replay

`_dlq_drain_loop` and `_downstreams_healthy` of the orchestrator, beside everything else that it
does, and the part of `drcommon.downstream` that decides whether a downstream is down: `FlakyCore`
with its outage loop, and the `/control` routes that an operator uses.

A round of the loop begins after its sleep. It reads the depth of the DLQ, asks the downstreams one
after the other, and replays only when each has said that it is up. An answer is as old as its way
to the loop is long, and what happens meanwhile is not seen.
-/

set_option autoImplicit false
set_option relaxedAutoImplicit false

namespace DinnerRush

open Concurrency

/-! ### The outages of a downstream -/

/-- The part of a `SimConfig` that the outages depend on. Times are in seconds. -/
structure SimConfig where
  outageProb : ℚ := 0
  outageSeconds : ℚ := 20
  forcedDown : Bool := false
  deriving DecidableEq, Repr

/-- The part of a `FlakyCore` that decides whether it is down. -/
structure OutageCore where
  cfg : SimConfig := {}
  autoDownUntil : ℚ := 0
  deriving DecidableEq, Repr

/-- The body of `POST /control`: the attributes that it sets. -/
structure Control where
  outageProb : Option ℚ := none
  outageSeconds : Option ℚ := none
  forcedDown : Option Bool := none
  deriving DecidableEq, Repr

namespace OutageCore

variable (core : OutageCore)

def isDown (now : ℚ) : Bool := core.cfg.forcedDown || now < core.autoDownUntil

def forceDown : OutageCore := { core with cfg := { core.cfg with forcedDown := true } }

def forceUp : OutageCore :=
  { core with cfg := { core.cfg with forcedDown := false }, autoDownUntil := 0 }

def setControl (control : Control) : OutageCore :=
  { core with cfg :=
    { outageProb := control.outageProb.getD core.cfg.outageProb
      outageSeconds := control.outageSeconds.getD core.cfg.outageSeconds
      forcedDown := control.forcedDown.getD core.cfg.forcedDown } }

/-- One pass of `run_outage_loop` after its sleep. The clock is read again when an outage begins. -/
def outagePass (now later roll : ℚ) : OutageCore :=
  if core.isDown now then core
  else if core.cfg.outageProb > 0 ∧ roll < core.cfg.outageProb then
    { core with autoDownUntil := later + core.cfg.outageSeconds }
  else core

end OutageCore

namespace Orchestrator

/-! ### The loop -/

/-- The downstreams in the order of `Orchestrator.clients`. -/
def clients : List Service := [.payment, .restaurant, .courier]

/-- Where the loop is: asleep, about to read the depth, about to ask the first of the downstreams
that are left, with the answer of one on its way, or in a replay. -/
inductive DrainPhase
  | sleeping
  | woken
  | probing (rest : List Service)
  | answered (service : Service) (rest : List Service) (down : Bool)
  | replaying (thread : ℕ)
  deriving DecidableEq, Repr

/-- `DLQ_REPLAY_INTERVAL_SECONDS`, what each downstream is configured with, and what its monotonic
clock shows at the start. -/
structure DrainEnv where
  interval : ℚ := 15
  sim : Service → SimConfig := fun _ ↦ {}
  boot : Service → ℚ := fun _ ↦ 0

/-- The orchestrator with its loop, and the downstreams. Beside what the loop knows, it remembers
which replays it has started. -/
structure Drain (cfg : Config) (D : Downstreams) (foreign : Publication → Bool) where
  clock : ℚ
  cores : Service → OutageCore
  /-- When the outage loop of each downstream wakes. -/
  ticks : Service → ℚ
  world : World (orchestrator cfg D foreign)
  /-- When the loop wakes. -/
  wakes : ℚ
  phase : DrainPhase
  replays : Finset ℕ

namespace Drain

variable {cfg : Config} {D : Downstreams} {foreign : Publication → Bool}

inductive Action (cfg : Config) (D : Downstreams) (foreign : Publication → Bool)
  | pass (dt : ℚ)
  | forceDown (service : Service)
  | forceUp (service : Service)
  | setControl (service : Service) (control : Control)
  | tick (service : Service) (roll lag : ℚ)
  | restart (service : Service)
  | orchestrator (action : Concurrency.Action (orchestrator cfg D foreign))
  | wake
  | depth
  | ask
  | told
  | fail
  | ended
  | restartLoop

variable (env : DrainEnv) (s : Drain cfg D foreign)

/-- What the monotonic clock of a downstream shows. -/
def now (service : Service) : ℚ := s.clock + env.boot service

def isDown (service : Service) : Bool := (s.cores service).isDown (s.now env service)

/-- `dlq_depth`: only the messages that are ready are counted. -/
def dlqDepth : ℕ := s.world.shared.broker.copies.countP fun copy ↦ copy.place = .ready .dlq

def setCore (service : Service) (change : OutageCore → OutageCore) : Drain cfg D foreign :=
  { s with cores := Function.update s.cores service (change (s.cores service)) }

/-- The round is over. -/
def sleep : Drain cfg D foreign :=
  { s with phase := .sleeping, wakes := s.clock + env.interval }

/-- The thread performs nothing any more. -/
def isOver (thread : ℕ) : Bool :=
  match s.world.threads thread with
  | some (.perform _ _) => false
  | _ => true

/-- `replay_dlq(500)`. -/
def replay : Option (Drain cfg D foreign) :=
  (s.world.act (.launch (.replayDlq 500))).map fun world ↦
    { s with
      world
      phase := .replaying s.world.next
      replays := insert s.world.next s.replays }

def act : Action cfg D foreign → Option (Drain cfg D foreign)
  | .pass dt => if 0 ≤ dt then some { s with clock := s.clock + dt } else none
  -- The downstreams.
  | .forceDown service => some (s.setCore service OutageCore.forceDown)
  | .forceUp service => some (s.setCore service OutageCore.forceUp)
  | .setControl service control => some (s.setCore service (·.setControl control))
  | .tick service roll lag =>
    if s.ticks service ≤ s.clock ∧ 0 ≤ roll ∧ roll < 1 ∧ 0 ≤ lag then
      let now := s.now env service
      some { s.setCore service (·.outagePass now (now + lag) roll) with
        clock := s.clock + lag
        ticks := Function.update s.ticks service (s.clock + lag + 5) }
    else none
  | .restart service => some
    { s.setCore service (fun _ ↦ { cfg := env.sim service }) with
      ticks := Function.update s.ticks service (s.clock + 5) }
  -- The orchestrator.
  | .orchestrator action => (s.world.act action).map fun world ↦ { s with world }
  | .wake =>
    if s.phase = .sleeping ∧ s.wakes ≤ s.clock then some { s with phase := .woken } else none
  | .depth =>
    if s.phase = .woken then
      if s.dlqDepth = 0 then some (s.sleep env) else some { s with phase := .probing clients }
    else none
  | .ask =>
    match s.phase with
    | .probing (service :: rest) =>
      some { s with phase := .answered service rest (s.isDown env service) }
    | _ => none
  | .told =>
    match s.phase with
    | .answered _ rest down =>
      if down then some (s.sleep env)
      else if rest = [] then s.replay
      else some { s with phase := .probing rest }
    | _ => none
  -- The depth is not read, or a downstream does not answer.
  | .fail =>
    match s.phase with
    | .woken | .probing _ | .answered _ _ _ => some (s.sleep env)
    | _ => none
  | .ended =>
    match s.phase with
    | .replaying thread => if s.isOver thread then some (s.sleep env) else none
    | _ => none
  -- A replay that is stopped by a restart is killed and then ends, so the loop sleeps there too.
  | .restartLoop =>
    match s.phase with
    | .replaying _ => none
    | _ => some (s.sleep env)

/-- The message count that a thread has put back. -/
def putBack (shared : Shared D) (thread : ℕ) : ℕ :=
  shared.broker.log.countP fun publication ↦ publication.publisher = some thread

/-- The messages that the replays of the loop have put back to the work queue. -/
def moved : ℕ := ∑ thread ∈ s.replays, putBack s.world.shared thread

/-- The present round has found the downstream up. -/
def found (service : Service) : Bool :=
  match s.phase with
  | .probing rest => service ∉ rest
  | .answered asked rest down => service ∉ rest ∧ (asked = service → down = false)
  | _ => false

/-- A replay of the loop has not ended. -/
def inReplay : Bool :=
  match s.phase with
  | .replaying _ => true
  | _ => false

end Drain

/-- The loop and the downstreams at their start. -/
def drain (cfg : Config) (D : Downstreams) (foreign : Publication → Bool) (env : DrainEnv) :
    Transitions (Drain cfg D foreign) (Drain.Action cfg D foreign) where
  start :=
    { clock := 0
      cores := fun service ↦ { cfg := env.sim service }
      ticks := fun _ ↦ 5
      world := World.initial _
      wakes := env.interval
      phase := .sleeping
      replays := ∅ }
  act := Drain.act env

/-! ### What one step does -/

namespace Drain

variable {cfg : Config} {D : Downstreams} {foreign : Publication → Bool} {env : DrainEnv}
  {s s' : Drain cfg D foreign} {action : Action cfg D foreign}

/-- The loop goes on to another phase. -/
inductive Goes (env : DrainEnv) (s : Drain cfg D foreign) : DrainPhase → Prop
  | woken : s.phase = .sleeping → s.wakes ≤ s.clock → Goes env s .woken
  | probing : s.phase = .woken → 0 < s.dlqDepth → Goes env s (.probing clients)
  | answered (service : Service) (rest : List Service) : s.phase = .probing (service :: rest) →
      Goes env s (.answered service rest (s.isDown env service))
  | next (service : Service) (rest : List Service) : s.phase = .answered service rest false →
      Goes env s (.probing rest)

/-- The round ends, for one of these reasons. -/
inductive Stops (s : Drain cfg D foreign) : Action cfg D foreign → Prop
  | empty : s.phase = .woken → s.dlqDepth = 0 → Stops s .depth
  | down (service : Service) (rest : List Service) : s.phase = .answered service rest true →
      Stops s .told
  | fail : s.inReplay = false → Stops s .fail
  | ended (thread : ℕ) : s.phase = .replaying thread → s.world.Idle thread → Stops s .ended
  | restart : s.inReplay = false → Stops s .restartLoop

/-- The action is one of the environment: time, an operator, or a downstream. -/
def Action.isOutside : Action cfg D foreign → Bool
  | .pass _ | .forceDown _ | .forceUp _ | .setControl _ _ | .tick _ _ _ | .restart _ => true
  | _ => false

theorem idle_of_isOver {thread : ℕ} (h : s.isOver thread = true) : s.world.Idle thread := by
  intro effect resume hthread
  rw [isOver, hthread] at h
  cases h

/-- An action of the environment leaves the loop and the orchestrator alone, the orchestrator takes
a step of its own, or the loop goes on, ends its round or starts a replay. -/
theorem act_cases (h : s.act env action = some s') :
    (action.isOutside = true ∧ s.clock ≤ s'.clock ∧ s'.world = s.world ∧ s'.phase = s.phase ∧
      s'.replays = s.replays ∧ s'.wakes = s.wakes) ∨
    (∃ step world, s.world.act step = some world ∧ s' = { s with world }) ∨
    (∃ phase, s.Goes env phase ∧ s' = { s with phase }) ∨
    (s.Stops action ∧ s' = s.sleep env) ∨
    (∃ service, s.phase = .answered service [] false ∧ s.replay = some s') := by
  cases action with
  | pass dt =>
    obtain ⟨hdt, hs'⟩ := Option.ite_none_right_eq_some.mp h
    obtain rfl := Option.some.inj hs'
    exact .inl ⟨rfl, le_add_of_nonneg_right hdt, rfl, rfl, rfl, rfl⟩
  | forceDown service | forceUp service | setControl service control | restart service =>
    obtain rfl := Option.some.inj h
    exact .inl ⟨rfl, le_refl _, rfl, rfl, rfl, rfl⟩
  | tick service roll lag =>
    obtain ⟨⟨-, -, -, hlag⟩, hs'⟩ := Option.ite_none_right_eq_some.mp h
    obtain rfl := Option.some.inj hs'
    exact .inl ⟨rfl, le_add_of_nonneg_right hlag, rfl, rfl, rfl, rfl⟩
  | orchestrator step =>
    obtain ⟨world, hworld, rfl⟩ := Option.map_eq_some_iff.mp h
    exact .inr (.inl ⟨step, world, hworld, rfl⟩)
  | wake =>
    obtain ⟨⟨hphase, hdue⟩, hs'⟩ := Option.ite_none_right_eq_some.mp h
    exact .inr (.inr (.inl ⟨_, .woken hphase hdue, (Option.some.inj hs').symm⟩))
  | depth =>
    obtain ⟨hphase, hs'⟩ := Option.ite_none_right_eq_some.mp h
    split at hs'
    · rename_i hempty
      exact .inr (.inr (.inr (.inl ⟨.empty hphase hempty, (Option.some.inj hs').symm⟩)))
    · rename_i hfull
      exact .inr (.inr (.inl ⟨_, .probing hphase (Nat.pos_of_ne_zero hfull),
        (Option.some.inj hs').symm⟩))
  | ask =>
    simp only [act] at h
    split at h
    · rename_i service rest hphase
      exact .inr (.inr (.inl ⟨_, .answered service rest hphase, (Option.some.inj h).symm⟩))
    · cases h
  | told =>
    simp only [act] at h
    split at h
    · rename_i service rest down hphase
      cases down with
      | true => exact .inr (.inr (.inr (.inl ⟨.down service rest hphase,
          (Option.some.inj h).symm⟩)))
      | false =>
        rw [if_neg Bool.false_ne_true] at h
        split at h
        · rename_i hlast
          exact .inr (.inr (.inr (.inr ⟨service, hlast ▸ hphase, h⟩)))
        · exact .inr (.inr (.inl ⟨_, .next service rest hphase, (Option.some.inj h).symm⟩))
    · cases h
  | fail =>
    refine .inr (.inr (.inr (.inl ?_)))
    simp only [act] at h
    split at h
    · rename_i hphase
      exact ⟨.fail (by rw [inReplay, hphase]), (Option.some.inj h).symm⟩
    · rename_i hphase
      exact ⟨.fail (by rw [inReplay, hphase]), (Option.some.inj h).symm⟩
    · rename_i hphase
      exact ⟨.fail (by rw [inReplay, hphase]), (Option.some.inj h).symm⟩
    · cases h
  | ended =>
    simp only [act] at h
    split at h
    · rename_i thread hphase
      obtain ⟨hover, hs'⟩ := Option.ite_none_right_eq_some.mp h
      exact .inr (.inr (.inr (.inl ⟨.ended thread hphase (idle_of_isOver hover),
        (Option.some.inj hs').symm⟩)))
    · cases h
  | restartLoop =>
    refine .inr (.inr (.inr (.inl ?_)))
    simp only [act] at h
    split at h
    · cases h
    · rename_i hphase
      refine ⟨.restart ?_, (Option.some.inj h).symm⟩
      unfold inReplay
      split
      · exact absurd ‹_› (hphase _)
      · rfl

theorem replay_eq_some (h : s.replay = some s') : ∃ world,
    s.world.act (.launch (.replayDlq 500)) = some world ∧ s' = { s with
      world
      phase := .replaying s.world.next
      replays := insert s.world.next s.replays } := by
  obtain ⟨world, hworld, hs'⟩ := Option.map_eq_some_iff.mp h
  exact ⟨world, hworld, hs'.symm⟩

/-- The action may bring a downstream up. -/
def Action.lifts (service : Service) : Action cfg D foreign → Bool
  | .forceUp other => other = service
  | .restart other => other = service
  | _ => false

/-- The action may change what a downstream is configured with. -/
def Action.configures (service : Service) : Action cfg D foreign → Bool
  | .setControl other _ => other = service
  | _ => false

/-- Only a pass of the outage loop, and what an operator or a restart does to it, changes a core. -/
theorem cores_act (h : s.act env action = some s') (service : Service)
    (hlifts : action.lifts service = false) :
    s'.cores service = s.cores service ∨ s'.cores service = (s.cores service).forceDown ∨
    (∃ control, action.configures service = true ∧
      s'.cores service = (s.cores service).setControl control) ∨
    ∃ later roll, s'.cores service =
      (s.cores service).outagePass (s.now env service) later roll := by
  have hset (other : Service) (change : OutageCore → OutageCore) :
      (other = service ∧ (s.setCore other change).cores service = change (s.cores service)) ∨
        (s.setCore other change).cores service = s.cores service := by
    by_cases hsame : other = service
    · subst hsame
      exact .inl ⟨rfl, Function.update_self _ _ _⟩
    · exact .inr (Function.update_of_ne (Ne.symm hsame) _ _)
  cases action with
  | forceDown other =>
    obtain rfl := Option.some.inj h
    rcases hset other OutageCore.forceDown with ⟨-, hchanged⟩ | hkept
    · exact .inr (.inl hchanged)
    · exact .inl hkept
  | forceUp other =>
    obtain rfl := Option.some.inj h
    rcases hset other OutageCore.forceUp with ⟨hsame, -⟩ | hkept
    · simp [Action.lifts, hsame] at hlifts
    · exact .inl hkept
  | setControl other control =>
    obtain rfl := Option.some.inj h
    rcases hset other (·.setControl control) with ⟨hsame, hchanged⟩ | hkept
    · exact .inr (.inr (.inl ⟨control, decide_eq_true hsame, hchanged⟩))
    · exact .inl hkept
  | tick other roll lag =>
    obtain ⟨-, hs'⟩ := Option.ite_none_right_eq_some.mp h
    obtain rfl := Option.some.inj hs'
    rcases hset other (·.outagePass (s.now env other) (s.now env other + lag) roll) with
      ⟨hsame, hchanged⟩ | hkept
    · subst hsame
      exact .inr (.inr (.inr ⟨_, _, hchanged⟩))
    · exact .inl hkept
  | restart other =>
    obtain rfl := Option.some.inj h
    rcases hset other (fun _ ↦ { cfg := env.sim other }) with ⟨hsame, -⟩ | hkept
    · simp [Action.lifts, hsame] at hlifts
    · exact .inl hkept
  | pass dt =>
    obtain ⟨-, hs'⟩ := Option.ite_none_right_eq_some.mp h
    exact .inl (by rw [← Option.some.inj hs'])
  | _ =>
    refine .inl ?_
    rcases act_cases h with ⟨houtside, -⟩ | ⟨step, world, -, rfl⟩ | ⟨phase, -, rfl⟩ | ⟨-, rfl⟩ |
      ⟨other, -, hreplay⟩
    · cases houtside
    · rfl
    · rfl
    · rfl
    · obtain ⟨world, -, rfl⟩ := replay_eq_some hreplay
      rfl

end Drain

end Orchestrator

end DinnerRush
