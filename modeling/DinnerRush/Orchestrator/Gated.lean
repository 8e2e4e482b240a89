import DinnerRush.Orchestrator.DlqDrain
import DinnerRush.Orchestrator.Replay
import Mathlib.Algebra.Order.BigOperators.Group.Finset
import Mathlib.Tactic.Ring

/-!
# The automatic replay is gated

While a downstream is down, the loop of the orchestrator keeps the parked messages back: a run
during an outage finishes at most the replay that it finds, or starts one if the round that it finds
has asked the downstream before (`Drain.KeptBack`). So an outage lets at most 500 messages through,
and none if the loop was asleep when it began. Replays are an interval apart, and a round that finds
messages and all the downstreams up does replay (`Drain.gated`).
-/

set_option autoImplicit false
set_option relaxedAutoImplicit false

namespace DinnerRush.Orchestrator

open Concurrency World

variable {cfg : Config} {D : Downstreams} {foreign : Publication → Bool}

/-! ### What a replay puts back -/

def publishes : Effect → ℕ
  | .publish _ _ _ => 1
  | _ => 0

theorem atMost_replayDlq (limit : ℕ) : (replayDlq limit).AtMost publishes limit := by
  induction limit with
  | zero => trivial
  | succ limit ih =>
    have hget : (perform .getDlq).AtMost publishes 0 := Program.atMost_call (Nat.le_refl 0)
    refine (hget.bind (n := limit + 1) fun message ↦ ?_).mono (Nat.le_of_eq (Nat.zero_add _))
    cases message with
    | none => trivial
    | some message =>
      have hack : (perform (.ack message.number)).AtMost publishes 0 :=
        Program.atMost_call (Nat.le_refl 0)
      cases hbody : message.body with
      | poison bytes =>
        simp only [hbody]
        refine (hack.bind fun _ ↦ ih).mono ?_
        omega
      | envelope env =>
        simp only [hbody]
        have hpublish : (perform (.publish .work rkAdvance
            (.envelope { env with attempt := 1 }))).AtMost publishes 1 :=
          Program.atMost_call (Nat.le_refl 1)
        have hrest : ((replayDlq limit).bind fun moved ↦ .ret (moved + 1)).AtMost publishes
            (limit + 0) := ih.bind fun _ ↦ trivial
        refine (hpublish.bind fun _ ↦ hack.bind fun _ ↦ hrest).mono ?_
        omega

theorem putBack_of_log {s s' : Shared D} (h : s'.broker.log = s.broker.log) :
    Drain.putBack s' = Drain.putBack s := by
  funext thread
  show List.countP _ _ = List.countP _ _
  rw [h]

/-- The broker counts what each thread has published. -/
theorem metered_putBack :
    Metered (orchestrator cfg D foreign) publishes (Drain.putBack (D := D)) where
  start _ := rfl
  launch _ _ _ _ _ hlaunch := putBack_of_log (broker_of_launch hlaunch).log
  exec thread effect choice s reply s' hexec := by
    rcases log_of_exec hexec with hlog | ⟨exchange, routingKey, body, rfl, hlog⟩
    · have hsame := putBack_of_log hlog
      exact ⟨(congrFun hsame thread).trans_le (Nat.le_add_right _ _),
        fun other _ ↦ congrFun hsame other⟩
    · have hadded (other : ℕ) : Drain.putBack s' other =
          Drain.putBack s other + if thread = other then 1 else 0 := by
        show List.countP _ _ = List.countP _ _ + _
        rw [hlog, List.countP_append, List.countP_singleton]
        simp
      refine ⟨?_, fun other hother ↦ ?_⟩
      · rw [hadded, if_pos rfl]
        exact Nat.le_refl _
      · rw [hadded, if_neg hother.symm, Nat.add_zero]
  ambient act s s' hambient := by
    rcases broker_of_ambient hambient with hmoves | ⟨publication, -, hnone, hpublished⟩
    · exact putBack_of_log hmoves.log
    · rcases log_publish_cases s.broker publication with hsame | happended
      · exact putBack_of_log (by rw [hpublished, hsame])
      · funext thread
        show List.countP _ _ = List.countP _ _
        rw [hpublished, happended, List.countP_append, List.countP_singleton, hnone]
        rfl

/-! ### What holds in every state -/

namespace Drain

variable {env : DrainEnv} {s s' : Drain cfg D foreign} {action : Action cfg D foreign}

/-- The replays of the loop are threads of the orchestrator, none of which puts back more than 500,
and only the last of them, in which the loop waits, still runs. -/
structure Sound (s : Drain cfg D foreign) : Prop where
  fresh : Fresh putBack s.world
  launched : ∀ thread ∈ s.replays, thread < s.world.next
  within : ∀ thread ∈ s.replays, Within publishes putBack 500 s.world thread
  idle : ∀ thread ∈ s.replays, s.phase ≠ .replaying thread → s.world.Idle thread
  current : ∀ thread, s.phase = .replaying thread → thread ∈ s.replays

theorem sound_start : (drain cfg D foreign env).start.Sound where
  fresh := fresh_initial metered_putBack
  launched _ hthread := absurd hthread (Finset.notMem_empty _)
  within _ hthread := absurd hthread (Finset.notMem_empty _)
  idle _ hthread := absurd hthread (Finset.notMem_empty _)
  current _ hphase := by cases hphase

/-- A step of the orchestrator. -/
theorem Sound.step (h : s.Sound) {step : Concurrency.Action (orchestrator cfg D foreign)}
    {world : World (orchestrator cfg D foreign)} (hact : s.world.act step = some world) :
    Sound { s with world } where
  fresh := h.fresh.act metered_putBack hact
  launched thread hthread :=
    (h.launched thread hthread).trans_le (Discipline.next_le_of_act hact)
  within thread hthread :=
    (h.within thread hthread).act metered_putBack (h.launched thread hthread) hact
  idle thread hthread hphase :=
    ((h.idle thread hthread hphase).act metered_putBack (h.launched thread hthread) hact).1
  current := h.current

/-- The loop is in another phase, and no replay is going on. -/
theorem Sound.leave (h : s.Sound) {phase : DrainPhase} {wakes : ℚ}
    (hphase : ∀ thread, phase ≠ .replaying thread)
    (hidle : ∀ thread, s.phase = .replaying thread → s.world.Idle thread) :
    Sound { s with phase, wakes } where
  fresh := h.fresh
  launched := h.launched
  within := h.within
  idle thread hthread _ := by
    by_cases hcurrent : s.phase = .replaying thread
    · exact hidle thread hcurrent
    · exact h.idle thread hthread hcurrent
  current thread hthread := absurd hthread (hphase thread)

/-- A replay of the loop puts back no more than 500. -/
theorem atMost_launch (cfg : Config) (thread : ℕ) (shared : Shared D) (program : Proc Unit)
    (shared' : Shared D)
    (h : launch cfg thread (.replayDlq 500) shared = some (program, shared')) :
    program.AtMost publishes 500 := by
  obtain ⟨rfl, -⟩ := Prod.mk.inj (Option.some.inj h)
  exact (atMost_replayDlq 500).bind (n := 0) fun _ ↦ trivial

theorem Sound.replay (h : s.Sound) (hphase : s.inReplay = false) (hreplay : s.replay = some s') :
    s'.Sound := by
  obtain ⟨world, hact, rfl⟩ := replay_eq_some hreplay
  have hstep := h.step hact
  have hnext : s.world.next < world.next := by
    obtain ⟨program, shared, -, rfl⟩ := act_launch hact
    exact Nat.lt_succ_self _
  constructor
  · exact hstep.fresh
  · exact (Finset.forall_mem_insert _ _ _).mpr ⟨hnext, hstep.launched⟩
  · exact (Finset.forall_mem_insert _ _ _).mpr
      ⟨(Within.launch metered_putBack h.fresh hact (atMost_launch cfg)).1, hstep.within⟩
  · intro thread hthread hcurrent
    obtain rfl | hold := Finset.mem_insert.mp hthread
    · exact absurd rfl hcurrent
    · refine hstep.idle thread hold fun hsame ↦ ?_
      rw [inReplay, show s.phase = .replaying thread from hsame] at hphase
      cases hphase
  · rintro thread hthread
    cases hthread
    exact Finset.mem_insert_self _ _

theorem Goes.inReplay {phase : DrainPhase} (h : s.Goes env phase) : s.inReplay = false := by
  cases h with
  | woken hphase _ | probing hphase _ | answered _ _ hphase | next _ _ hphase =>
    rw [Drain.inReplay, hphase]

theorem Goes.ne {phase : DrainPhase} (h : s.Goes env phase) (thread : ℕ) :
    phase ≠ .replaying thread := by
  cases h <;> exact nofun

theorem ne_of_inReplay (h : s.inReplay = false) (thread : ℕ) : s.phase ≠ .replaying thread := by
  intro hphase
  rw [inReplay, hphase] at h
  cases h

theorem exists_of_inReplay (h : s.inReplay = true) : ∃ thread, s.phase = .replaying thread := by
  unfold inReplay at h
  split at h
  · exact ⟨_, ‹_›⟩
  · cases h

/-- A round that stops leaves no replay that still runs. -/
theorem Stops.idle (h : s.Stops action) (thread : ℕ) (hphase : s.phase = .replaying thread) :
    s.world.Idle thread := by
  cases h with
  | empty hother _ | down _ _ hother => rw [hother] at hphase; cases hphase
  | fail hnone | restart hnone => exact absurd hphase (ne_of_inReplay hnone thread)
  | ended other hother hidle =>
    rw [hother] at hphase
    cases hphase
    exact hidle

theorem Sound.act (h : s.Sound) (hact : s.act env action = some s') : s'.Sound := by
  rcases act_cases hact with ⟨-, -, hworld, hphase, hreplays, -⟩ | ⟨step, world, hstep, rfl⟩ |
    ⟨phase, hgoes, rfl⟩ | ⟨hstops, rfl⟩ | ⟨service, hphase, hreplay⟩
  · constructor
    · rw [hworld]
      exact h.fresh
    · rw [hworld, hreplays]
      exact h.launched
    · rw [hworld, hreplays]
      exact h.within
    · rw [hworld, hreplays, hphase]
      exact h.idle
    · rw [hreplays, hphase]
      exact h.current
  · exact h.step hstep
  · exact h.leave hgoes.ne fun thread hthread ↦
      absurd hthread (ne_of_inReplay hgoes.inReplay thread)
  · exact h.leave nofun hstops.idle
  · exact h.replay (by rw [inReplay, hphase]) hreplay

theorem sound_of_reachable (hs : (drain cfg D foreign env).Reachable Transitions.anyAction s) :
    s.Sound :=
  Transitions.invariant sound_start (fun _ _ _ h _ hact ↦ h.act hact) hs

/-! ### What the replays of a run put back -/

/-- What the replays have put back, where the one that still runs counts for all that it may. -/
def spent (s : Drain cfg D foreign) : ℕ :=
  match s.phase with
  | .replaying thread =>
    ∑ other ∈ s.replays.erase thread, putBack s.world.shared other + 500
  | _ => s.moved

theorem spent_of_inReplay (h : s.inReplay = false) : s.spent = s.moved := by
  unfold spent
  split
  · exact absurd ‹_› (ne_of_inReplay h _)
  · rfl

theorem spent_of_replaying {thread : ℕ} (h : s.phase = .replaying thread) :
    s.spent = ∑ other ∈ s.replays.erase thread, putBack s.world.shared other + 500 := by
  rw [spent, h]

theorem Sound.moved_le (h : s.Sound) : s.moved ≤ s.spent := by
  unfold spent
  split
  · rename_i thread hphase
    have hmem := h.current thread hphase
    rw [moved, ← Finset.sum_erase_add _ _ hmem]
    exact Nat.add_le_add_left (h.within thread hmem).counted _
  · exact Nat.le_refl _

theorem spent_le (s : Drain cfg D foreign) :
    s.spent ≤ s.moved + if s.inReplay then 500 else 0 := by
  cases hnone : s.inReplay with
  | false => exact (spent_of_inReplay hnone).trans_le (Nat.le_add_right _ _)
  | true =>
    obtain ⟨thread, hphase⟩ := exists_of_inReplay hnone
    have hothers : ∑ other ∈ s.replays.erase thread, putBack s.world.shared other ≤ s.moved :=
      Finset.sum_le_sum_of_subset (Finset.erase_subset _ _)
    rw [spent_of_replaying hphase]
    exact Nat.add_le_add_right hothers _

/-- A step of the orchestrator spends nothing, since the other replays are over. -/
theorem Sound.spent_step (h : s.Sound) {step : Concurrency.Action (orchestrator cfg D foreign)}
    {world : World (orchestrator cfg D foreign)} (hact : s.world.act step = some world) :
    spent { s with world } = s.spent := by
  have hsame : ∀ thread ∈ s.replays, s.phase ≠ .replaying thread →
      putBack world.shared thread = putBack s.world.shared thread := fun thread hthread hphase ↦
    ((h.idle thread hthread hphase).act metered_putBack (h.launched thread hthread) hact).2
  cases hnone : s.inReplay with
  | true =>
    obtain ⟨thread, hphase⟩ := exists_of_inReplay hnone
    rw [spent_of_replaying (s := { s with world }) hphase, spent_of_replaying hphase]
    refine congrArg (· + 500) (Finset.sum_congr rfl fun other hother ↦ ?_)
    obtain ⟨hne, hmem⟩ := Finset.mem_erase.mp hother
    refine hsame other hmem fun hsame ↦ hne ?_
    rw [hphase] at hsame
    cases hsame
    rfl
  | false =>
    rw [spent_of_inReplay (s := { s with world }) hnone, spent_of_inReplay hnone]
    exact Finset.sum_congr rfl fun thread hthread ↦
      hsame thread hthread (ne_of_inReplay hnone thread)

/-- A step spends 500 for a replay that it starts, and nothing otherwise. -/
theorem Sound.spent_act (h : s.Sound) (hact : s.act env action = some s') :
    s.replays.card ≤ s'.replays.card ∧
      s'.spent ≤ s.spent + 500 * (s'.replays.card - s.replays.card) := by
  rcases act_cases hact with ⟨-, -, hworld, hphase, hreplays, -⟩ | ⟨step, world, hstep, rfl⟩ |
    ⟨phase, hgoes, rfl⟩ | ⟨hstops, rfl⟩ | ⟨service, hphase, hreplay⟩
  · have hspent : s'.spent = s.spent := by
      rw [spent, spent, moved, moved, hworld, hphase, hreplays]
    rw [hspent, hreplays]
    exact ⟨Nat.le_refl _, Nat.le_add_right _ _⟩
  · rw [h.spent_step hstep]
    exact ⟨Nat.le_refl _, Nat.le_add_right _ _⟩
  · have hspent : spent { s with phase } = s.moved :=
      spent_of_inReplay (s := { s with phase }) (by
        cases hgoes <;> rfl)
    rw [hspent]
    exact ⟨Nat.le_refl _, h.moved_le.trans (Nat.le_add_right _ _)⟩
  · have hspent : (s.sleep env).spent = s.moved := rfl
    rw [hspent]
    exact ⟨Nat.le_refl _, h.moved_le.trans (Nat.le_add_right _ _)⟩
  · obtain ⟨world, hlaunch, rfl⟩ := replay_eq_some hreplay
    have hnew : s.world.next ∉ s.replays := fun hmem ↦
      Nat.lt_irrefl _ (h.launched _ hmem)
    have hspent : s.spent = s.moved := spent_of_inReplay (by rw [inReplay, hphase])
    have hshared : putBack world.shared = putBack s.world.shared := by
      obtain ⟨program, shared, hlaunched, rfl⟩ := act_launch hlaunch
      exact metered_putBack.launch _ _ _ _ _ hlaunched
    have hcard := Finset.card_insert_of_notMem hnew
    refine ⟨Nat.le_of_lt (by rw [hcard]; exact Nat.lt_succ_self _), ?_⟩
    show ∑ other ∈ (insert s.world.next s.replays).erase s.world.next,
      putBack world.shared other + 500 ≤ _
    rw [Finset.erase_insert hnew, hshared, hcard, hspent, Nat.add_sub_cancel_left]
    exact Nat.le_refl _

/-- What a run puts back. -/
theorem spent_run {s₀ s : Drain cfg D foreign} (h : s₀.Sound)
    {condition : Transitions.Condition _ _}
    (hrun : Relation.ReflTransGen ((drain cfg D foreign env).Step condition) s₀ s) :
    s.Sound ∧ s₀.replays.card ≤ s.replays.card ∧
      s.spent ≤ s₀.spent + 500 * (s.replays.card - s₀.replays.card) := by
  induction hrun with
  | refl => exact ⟨h, Nat.le_refl _, Nat.le_add_right _ _⟩
  | tail _ hstep ih =>
    obtain ⟨action, -, hact⟩ := hstep
    obtain ⟨hsound, hcard, hspent⟩ := ih
    obtain ⟨hcard', hspent'⟩ := hsound.spent_act hact
    exact ⟨hsound.act hact, hcard.trans hcard', by omega⟩

/-! ### What an outage keeps back -/

/-- While a downstream is down, a round that has not found it up yet starts no replay. -/
theorem started_act {service : Service} (hdown : s.isDown env service = true)
    (hact : s.act env action = some s') :
    s'.replays.card + (s'.found service).toNat ≤ s.replays.card + (s.found service).toNat := by
  rcases act_cases hact with ⟨-, -, hworld, hphase, hreplays, -⟩ | ⟨step, world, hstep, rfl⟩ |
    ⟨phase, hgoes, rfl⟩ | ⟨hstops, rfl⟩ | ⟨last, hphase, hreplay⟩
  · rw [hreplays, found, found, hphase]
  · exact Nat.le_refl _
  · suffices hfound : found { s with phase } service = true → s.found service = true from
      Nat.add_le_add_left (Bool.toNat_le_toNat hfound) _
    cases hgoes with
    | woken hphase hdue => exact nofun
    | probing hphase hfull =>
      have hmem : service ∈ clients := by cases service <;> decide
      simp [found, hmem]
    | answered asked rest hphase =>
      simp only [found, hphase, decide_eq_true_eq]
      rintro ⟨hrest, hup⟩ hmem
      rcases List.mem_cons.mp hmem with rfl | hlater
      · have hasked := hup rfl
        rw [hdown] at hasked
        cases hasked
      · exact hrest hlater
    | next asked rest hphase =>
      simp only [found, hphase, decide_eq_true_eq]
      exact fun hrest ↦ ⟨hrest, fun _ ↦ trivial⟩
  · exact Nat.add_le_add_left (Nat.zero_le _) _
  · obtain ⟨world, -, rfl⟩ := replay_eq_some hreplay
    have hfound : s.found service = true := by
      rw [found, hphase]
      exact decide_eq_true ⟨List.not_mem_nil, fun _ ↦ rfl⟩
    rw [hfound]
    exact Finset.card_insert_le _ _

theorem started_run {service : Service} {s₀ s : Drain cfg D foreign}
    (hrun : Relation.ReflTransGen
      ((drain cfg D foreign env).Step fun s _ ↦ s.isDown env service = true) s₀ s) :
    s.replays.card + (s.found service).toNat ≤ s₀.replays.card + (s₀.found service).toNat := by
  induction hrun with
  | refl => exact Nat.le_refl _
  | tail _ hstep ih =>
    obtain ⟨action, hdown, hact⟩ := hstep
    exact (started_act hdown hact).trans ih

/-- A forced outage lasts as long as nobody ends it. -/
theorem forced_act {service : Service} (hforced : (s.cores service).cfg.forcedDown = true)
    (hlifts : action.lifts service = false) (hconfigures : action.configures service = false)
    (hact : s.act env action = some s') : (s'.cores service).cfg.forcedDown = true := by
  rcases cores_act hact service hlifts with hsame | hsame | ⟨control, hcontrol, -⟩ |
    ⟨later, roll, hsame⟩
  · rw [hsame, hforced]
  · rw [hsame]
    rfl
  · rw [hcontrol] at hconfigures
    cases hconfigures
  · rw [hsame, OutageCore.outagePass, OutageCore.isDown, hforced]
    exact hforced

/-- A simulated outage lasts as long as it was meant to, unless somebody ends it. -/
theorem outage_act {service : Service}
    (houtage : s.now env service < (s.cores service).autoDownUntil)
    (hlifts : action.lifts service = false) (hact : s.act env action = some s') :
    (s'.cores service).autoDownUntil = (s.cores service).autoDownUntil := by
  rcases cores_act hact service hlifts with hsame | hsame | ⟨control, -, hsame⟩ |
    ⟨later, roll, hsame⟩
  · rw [hsame]
  · rw [hsame]
    rfl
  · rw [hsame]
    rfl
  · have hdown : (s.cores service).isDown (s.now env service) = true := by
      rw [OutageCore.isDown, decide_eq_true houtage, Bool.or_true]
    rw [hsame, OutageCore.outagePass, if_pos hdown]

/-! ### How often the loop replays -/

/-- Between two replays of a run the loop sleeps. -/
structure Paced (env : DrainEnv) (s₀ s : Drain cfg D foreign) : Prop where
  clock : s₀.clock ≤ s.clock
  card : s₀.replays.card ≤ s.replays.card
  started : s₀.replays.card < s.replays.card →
    ((s.replays.card : ℚ) - s₀.replays.card - 1) * env.interval ≤ s.clock - s₀.clock
  asleep : s₀.replays.card < s.replays.card → s.phase = .sleeping →
    ((s.replays.card : ℚ) - s₀.replays.card) * env.interval ≤ s.wakes - s₀.clock
  awake : s₀.replays.card < s.replays.card → s.phase ≠ .sleeping → s.inReplay = false →
    ((s.replays.card : ℚ) - s₀.replays.card) * env.interval ≤ s.clock - s₀.clock

theorem Paced.act {s₀ : Drain cfg D foreign} (h : Paced env s₀ s) (hsound : s.Sound)
    (hact : s.act env action = some s') : Paced env s₀ s' := by
  rcases act_cases hact with ⟨-, hclock, hworld, hphase, hreplays, hwakes⟩ |
    ⟨step, world, hstep, rfl⟩ | ⟨phase, hgoes, rfl⟩ | ⟨hstops, rfl⟩ | ⟨last, hphase, hreplay⟩
  · constructor
    · exact h.clock.trans hclock
    · exact hreplays ▸ h.card
    · rw [hreplays]
      exact fun hmore ↦ (h.started hmore).trans (sub_le_sub_right hclock _)
    · rw [hreplays, hphase, hwakes]
      exact h.asleep
    · rw [hreplays, inReplay, hphase]
      exact fun hmore hawake hnone ↦
        (h.awake hmore hawake hnone).trans (sub_le_sub_right hclock _)
  · exact ⟨h.clock, h.card, h.started, h.asleep, h.awake⟩
  · refine ⟨h.clock, h.card, h.started, fun hmore hasleep ↦ ?_, fun hmore _ _ ↦ ?_⟩
    · cases hgoes <;> cases hasleep
    · cases hgoes with
      | woken hphase hdue => exact (h.asleep hmore hphase).trans (sub_le_sub_right hdue _)
      | probing hphase _ | answered _ _ hphase | next _ _ hphase =>
        exact h.awake hmore (by simp [hphase]) (by rw [inReplay, hphase])
  · refine ⟨h.clock, h.card, h.started, fun hmore _ ↦ ?_, fun _ hawake ↦ absurd rfl hawake⟩
    have hstarted := h.started hmore
    show ((s.replays.card : ℚ) - s₀.replays.card) * env.interval ≤
      s.clock + env.interval - s₀.clock
    linarith
  · have hcard : s'.replays.card = s.replays.card + 1 := by
      obtain ⟨world, -, rfl⟩ := replay_eq_some hreplay
      exact Finset.card_insert_of_notMem fun hmem ↦ Nat.lt_irrefl _ (hsound.launched _ hmem)
    obtain ⟨world, -, rfl⟩ := replay_eq_some hreplay
    refine ⟨h.clock, hcard ▸ Nat.le_succ_of_le h.card, fun _ ↦ ?_, fun _ hasleep ↦ ?_,
      fun _ _ hnone ↦ ?_⟩
    · -- The first replay of the run may come at once; each later one comes after a sleep.
      have hone : (((s.replays.card + 1 : ℕ) : ℚ) - s₀.replays.card - 1) =
          (s.replays.card : ℚ) - s₀.replays.card := by
        push_cast
        ring
      rw [hcard, hone]
      rcases h.card.eq_or_lt with hfirst | hmore
      · rw [hfirst, sub_self, zero_mul]
        exact sub_nonneg.mpr h.clock
      · exact h.awake hmore (by simp [hphase]) (by rw [inReplay, hphase])
    · cases hasleep
    · cases hnone

/-! ### When a round replays -/

/-- There are messages in the DLQ and all the downstreams are up. -/
def Healthy (env : DrainEnv) (s : Drain cfg D foreign) : Prop :=
  0 < s.dlqDepth ∧ ∀ service, s.isDown env service = false

/-- The round is cut short: an effect of it fails, or the loop is restarted. -/
def Action.interrupts : Action cfg D foreign → Bool
  | .fail | .restartLoop => true
  | _ => false

/-- The round goes on and nothing has spoken against a replay. -/
inductive Underway (s : Drain cfg D foreign) : Prop
  | woken : s.phase = .woken → Underway s
  | probing (rest : List Service) : s.phase = .probing rest → Underway s
  | answered (service : Service) (rest : List Service) :
      s.phase = .answered service rest false → Underway s

theorem Underway.act (h : s.Underway) (hsound : s.Sound) (hhealthy : s.Healthy env)
    (hinterrupts : action.interrupts = false) (hact : s.act env action = some s') :
    s'.replays.card = s.replays.card ∧ s'.Underway ∨ s.replays.card < s'.replays.card := by
  have hnone : s.inReplay = false := by
    cases h with
    | woken hphase | probing _ hphase | answered _ _ hphase => rw [inReplay, hphase]
  rcases act_cases hact with ⟨-, -, -, hphase, hreplays, -⟩ | ⟨step, world, hstep, rfl⟩ |
    ⟨phase, hgoes, rfl⟩ | ⟨hstops, rfl⟩ | ⟨last, hphase, hreplay⟩
  · refine .inl ⟨by rw [hreplays], ?_⟩
    cases h with
    | woken hbefore => exact .woken (hphase.trans hbefore)
    | probing rest hbefore => exact .probing rest (hphase.trans hbefore)
    | answered service rest hbefore => exact .answered service rest (hphase.trans hbefore)
  · refine .inl ⟨rfl, ?_⟩
    cases h with
    | woken hbefore => exact .woken hbefore
    | probing rest hbefore => exact .probing rest hbefore
    | answered service rest hbefore => exact .answered service rest hbefore
  · refine .inl ⟨rfl, ?_⟩
    cases hgoes with
    | woken hphase hdue => exact .woken rfl
    | probing hphase hfull => exact .probing _ rfl
    | answered service rest hphase => exact .answered service rest (by rw [hhealthy.2 service])
    | next service rest hphase => exact .probing rest rfl
  · exfalso
    cases hstops with
    | empty hphase hempty => exact absurd hhealthy.1 (hempty ▸ Nat.lt_irrefl 0)
    | down service rest hphase =>
      cases h with
      | woken hbefore | probing _ hbefore | answered _ _ hbefore =>
        rw [hphase] at hbefore
        cases hbefore
    | fail _ | restart _ => cases hinterrupts
    | ended thread hphase hidle => exact ne_of_inReplay hnone thread hphase
  · obtain ⟨world, -, rfl⟩ := replay_eq_some hreplay
    have hnew : s.world.next ∉ s.replays := fun hmem ↦ Nat.lt_irrefl _ (hsound.launched _ hmem)
    exact .inr (by rw [Finset.card_insert_of_notMem hnew]; exact Nat.lt_succ_self _)

/-! ### The gate -/

/-- What a run during an outage of the downstream can do: finish the replay that it finds, or start
one if the round that it finds has already asked the downstream. -/
structure KeptBack (service : Service) (s s' : Drain cfg D foreign) : Prop where
  started_le : s'.replays.card ≤ s.replays.card + (s.found service).toNat
  moved_le : s'.moved ≤ s.moved + if s.found service || s.inReplay then 500 else 0

/-- What the replays of the loop may do in the runs from a state. -/
structure Gated (env : DrainEnv) (s : Drain cfg D foreign) : Prop where
  /-- A replay puts back no more than 500. -/
  moves : ∀ s', Relation.ReflTransGen
      ((drain cfg D foreign env).Step Transitions.anyAction) s s' →
    s'.moved + 500 * s.replays.card ≤
      s.moved + 500 * s'.replays.card + if s.inReplay then 500 else 0
  /-- From one replay to the next passes an interval. -/
  paced : ∀ s', Relation.ReflTransGen
      ((drain cfg D foreign env).Step Transitions.anyAction) s s' →
    s.replays.card < s'.replays.card →
      ((s'.replays.card : ℚ) - s.replays.card - 1) * env.interval ≤ s'.clock - s.clock
  /-- While a downstream is down. -/
  shut : ∀ service s', Relation.ReflTransGen
      ((drain cfg D foreign env).Step fun m _ ↦ m.isDown env service = true) s s' →
    KeptBack service s s'
  /-- A downstream that was forced down stays down until somebody ends it. -/
  forced : ∀ service, (s.cores service).cfg.forcedDown = true → ∀ s', Relation.ReflTransGen
      ((drain cfg D foreign env).Step fun _ action ↦
        action.lifts service = false ∧ action.configures service = false) s s' →
    KeptBack service s s'
  /-- A simulated outage keeps a downstream down for its time. -/
  outage : ∀ service s', Relation.ReflTransGen
      ((drain cfg D foreign env).Step fun m action ↦
        m.now env service < (s.cores service).autoDownUntil ∧ action.lifts service = false) s s' →
    KeptBack service s s'
  /-- A round that has begun replays, if nothing fails and everything is up while it lasts. -/
  opens : s.phase = .woken → ∀ s', Relation.ReflTransGen
      ((drain cfg D foreign env).Step fun m action ↦
        m.Healthy env ∧ action.interrupts = false) s s' →
    s'.phase = .sleeping → s.replays.card < s'.replays.card

theorem found_of_inReplay (h : s.inReplay = true) (service : Service) :
    s.found service = false := by
  obtain ⟨thread, hphase⟩ := exists_of_inReplay h
  rw [found, hphase]

theorem Sound.moves (h : s.Sound) {condition : Transitions.Condition _ _}
    (hrun : Relation.ReflTransGen ((drain cfg D foreign env).Step condition) s s') :
    s'.moved + 500 * s.replays.card ≤
      s.moved + 500 * s'.replays.card + if s.inReplay then 500 else 0 := by
  obtain ⟨hsound, hcard, hspent⟩ := spent_run h hrun
  have hmoved := hsound.moved_le
  have hbefore := s.spent_le
  omega

theorem Sound.shut (h : s.Sound) {service : Service} (hrun : Relation.ReflTransGen
    ((drain cfg D foreign env).Step fun m _ ↦ m.isDown env service = true) s s') :
    KeptBack service s s' := by
  have hmoved := h.moves hrun
  have hcard := (spent_run h hrun).2.1
  have hstarted := started_run hrun
  refine ⟨Nat.le_trans (Nat.le_add_right _ _) hstarted, ?_⟩
  cases hreplay : s.inReplay with
  | true =>
    rw [found_of_inReplay hreplay service, Bool.toNat_false] at hstarted
    rw [hreplay, if_pos rfl] at hmoved
    rw [Bool.or_true, if_pos rfl]
    omega
  | false =>
    rw [hreplay, if_neg Bool.false_ne_true] at hmoved
    rw [Bool.or_false]
    cases hfound : s.found service with
    | true =>
      rw [hfound, Bool.toNat_true] at hstarted
      rw [if_pos rfl]
      omega
    | false =>
      rw [hfound, Bool.toNat_false] at hstarted
      rw [if_neg Bool.false_ne_true]
      omega

/-- **The automatic replay is gated**, in every state of the orchestrator and its downstreams. -/
theorem gated (hs : (drain cfg D foreign env).Reachable Transitions.anyAction s) :
    Gated env s := by
  have hsound := sound_of_reachable hs
  constructor
  · exact fun s' hrun ↦ hsound.moves hrun
  · intro s' hrun hmore
    have hpaced : Paced env s s' := by
      have hstart : Paced env s s :=
        ⟨le_rfl, Nat.le_refl _, fun hless ↦ absurd hless (Nat.lt_irrefl _),
          fun hless ↦ absurd hless (Nat.lt_irrefl _), fun hless ↦ absurd hless (Nat.lt_irrefl _)⟩
      refine (Transitions.kept_of_run (P := fun m ↦ m.Sound ∧ Paced env s m) ?_
        ⟨hsound, hstart⟩ hrun).2
      exact fun m action m' ⟨hm, hpaced⟩ _ hact ↦ ⟨hm.act hact, hpaced.act hm hact⟩
    exact hpaced.started hmore
  · exact fun service s' hrun ↦ hsound.shut hrun
  · intro service hforced s' hrun
    refine hsound.shut (Transitions.reflTransGen_of_kept
      (P := fun m ↦ (m.cores service).cfg.forcedDown = true) ?_ ?_ hforced hrun)
    · exact fun m action m' hm ⟨hlifts, hconfigures⟩ hact ↦
        forced_act hm hlifts hconfigures hact
    · intro m action hm _
      show OutageCore.isDown _ _ = true
      rw [OutageCore.isDown, hm, Bool.true_or]
  · intro service s' hrun
    refine hsound.shut (Transitions.reflTransGen_of_kept
      (P := fun m ↦ (m.cores service).autoDownUntil = (s.cores service).autoDownUntil)
      ?_ ?_ rfl hrun)
    · intro m action m' hm ⟨hbefore, hlifts⟩ hact
      rw [← hm] at hbefore
      exact (outage_act hbefore hlifts hact).trans hm
    · intro m action hm ⟨hbefore, _⟩
      show OutageCore.isDown _ _ = true
      rw [OutageCore.isDown, hm, decide_eq_true hbefore, Bool.or_true]
  · intro hwoken s' hrun hasleep
    have hkept : s'.Sound ∧ (s'.replays.card = s.replays.card ∧ s'.Underway ∨
        s.replays.card < s'.replays.card) := by
      refine Transitions.kept_of_run
        (P := fun m ↦ m.Sound ∧ (m.replays.card = s.replays.card ∧ m.Underway ∨
          s.replays.card < m.replays.card)) ?_ ⟨hsound, .inl ⟨rfl, .woken hwoken⟩⟩ hrun
      rintro m action m' ⟨hm, hstate⟩ ⟨hhealthy, hinterrupts⟩ hact
      refine ⟨hm.act hact, ?_⟩
      rcases hstate with ⟨hcard, hunderway⟩ | hmore
      · rw [← hcard]
        exact hunderway.act hm hhealthy hinterrupts hact
      · exact .inr (hmore.trans_le (hm.spent_act hact).1)
    rcases hkept.2 with ⟨-, hunderway⟩ | hmore
    · cases hunderway with
      | woken hphase | probing _ hphase | answered _ _ hphase =>
        rw [hasleep] at hphase
        cases hphase
    · exact hmore

end Drain

/-! ### An outage in the middle of a round -/

/-- A message is parked, the loop wakes and finds the payment service up, and an operator takes it
down. -/
def parking : List (Drain.Action {} .any fun _ ↦ true) :=
  [.orchestrator (.ambient (.publish ⟨none, .dlx, "", .envelope dinnerPlaced⟩)), .pass 15, .wake,
    .depth, .ask, .told, .forceDown .payment]

/-- The other two are up, so the message is replayed. -/
def replayingOne : List (Drain.Action {} .any fun _ ↦ true) :=
  [.ask, .told, .ask, .told, .orchestrator (.step 0 (.message 0)), .orchestrator (.step 0 .done),
    .orchestrator (.step 0 .done), .orchestrator (.step 0 .done), .ended]

def parkedDrain : Drain {} .any fun _ ↦ true :=
  ((drain {} .any _ {}).run (drain {} .any _ {}).start parking).get (by decide +kernel)

theorem gated_parkedDrain : Drain.Gated {} parkedDrain ∧ parkedDrain.found .payment = true ∧
    (parkedDrain.cores .payment).cfg.forcedDown = true ∧
      ((drain {} .any _ {}).run parkedDrain replayingOne).map (fun s ↦ (s.moved, s.replays)) =
        some (1, {0}) :=
  ⟨Drain.gated (Transitions.reachable_of_run (Option.some_get _).symm), by decide +kernel,
    by decide +kernel, by decide +kernel⟩

end DinnerRush.Orchestrator
