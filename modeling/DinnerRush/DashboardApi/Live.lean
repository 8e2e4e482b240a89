import DinnerRush.Concurrency.Transitions
import DinnerRush.DashboardApi.Service
import DinnerRush.Orchestrator.Accounting

/-!
# The dashboard beside the pipeline

The orchestrator and the dashboard run side by side. A refresh notes the throughput when it begins,
asks for `/stats` at some time, and shows what it got when all of its sources are in; meanwhile
events come in and orders move on. The moments at which a refresh began and ended are recorded
(`Span`).

What is shown is never made up. The throughput is that of the moment at which the refresh of the
snapshot began (`throughput_exact`), however often the expired times were thrown away before: the
library's `Expiry.Kept`. The counts are those of one state of the orchestrator between that moment
and the end of the refresh (`totals_grow`), so they add up, and a later snapshot never shows fewer
orders, or fewer of any finished kind.
-/

set_option autoImplicit false
set_option relaxedAutoImplicit false

namespace DinnerRush.DashboardApi

open Concurrency Orchestrator

variable (cfg : Config) (D : Downstreams) (foreign : Publication → Bool)

/-- A moment: the orchestrator, the monotonic clock, and the events that the dashboard has handled
so far. -/
structure Moment where
  orch : World (orchestrator cfg D foreign)
  clock : ℚ
  handled : List (ℚ × Body)

/-- When a refresh began and when it ended. -/
structure Span where
  began : Moment cfg D foreign
  ended : Moment cfg D foreign

/-- The dashboard at a moment. It is recorded when the refresh under way began, and when the one
that produced the snapshot did and ended. -/
structure Live extends Moment cfg D foreign where
  dash : Dashboard
  began : Option (Moment cfg D foreign)
  shown : Option (Span cfg D foreign)

/-- What happens: in the orchestrator, as time goes on, when an event comes in, and in the course of
a refresh, which asks for `/stats` in vain or not and may raise. -/
inductive Act
  | orchestrator (action : Action (Orchestrator.orchestrator cfg D foreign))
  | pass (dt : ℚ)
  | event (body : Body)
  | refresh (ts : String)
  | stats (up : Bool)
  | finish (sources : Sources)
  | abandon

variable {cfg D foreign}

namespace Live

/-- The database of the orchestrator. -/
def db (s : Live cfg D foreign) : Db := s.orch.shared.db.committed

def act (s : Live cfg D foreign) : Act cfg D foreign → Option (Live cfg D foreign)
  | .orchestrator action => (s.orch.act action).map fun orch ↦ { s with orch := orch }
  | .pass dt => if 0 ≤ dt then some { s with clock := s.clock + dt } else none
  | .event body =>
    some { s with
      dash := s.dash.onEvent body s.clock
      handled := s.handled ++ [(s.clock, body)] }
  | .refresh ts =>
    match s.dash.refreshing with
    | none => some { s with dash := s.dash.beginRefresh ts s.clock, began := some s.toMoment }
    | some _ => none
  | .stats up =>
    match s.dash.refreshing with
    | some ⟨snap, none⟩ =>
      let answer := if up then some (Orchestrator.stats s.db) else none
      some { s with dash := { s.dash with refreshing := some ⟨snap, some answer⟩ } }
    | _ => none
  | .finish sources =>
    match s.dash.refreshing with
    | some ⟨snap, some stats⟩ =>
      some { s with
        dash := s.dash.finishRefresh snap stats sources
        began := none
        shown := s.began.map fun began ↦ ⟨began, s.toMoment⟩ }
    | _ => none
  | .abandon => some { s with dash := { s.dash with refreshing := none }, began := none }

end Live

def live (cfg : Config) (D : Downstreams) (foreign : Publication → Bool) :
    Transitions (Live cfg D foreign) (Act cfg D foreign) where
  start :=
    { orch := .initial _, clock := 0, handled := [], dash := {}, began := none, shown := none }
  act := Live.act

variable {s s' : Live cfg D foreign} {w w' : World (orchestrator cfg D foreign)}

/-- What an action does. -/
inductive Moves (s : Live cfg D foreign) : Live cfg D foreign → Prop
  | orchestrator {orch : World (orchestrator cfg D foreign)}
      (h : World.Step World.anyEffect s.orch orch) : Moves s { s with orch := orch }
  | pass {clock : ℚ} (h : s.clock ≤ clock) : Moves s { s with clock := clock }
  | event (body : Body) : Moves s { s with
      dash := s.dash.onEvent body s.clock
      handled := s.handled ++ [(s.clock, body)] }
  | refresh (ts : String) :
      Moves s { s with dash := s.dash.beginRefresh ts s.clock, began := some s.toMoment }
  | stats {snap : Snapshot} {answer : Option Stats} (h : s.dash.refreshing = some ⟨snap, none⟩)
      (hanswer : ∀ stats, answer = some stats → stats = Orchestrator.stats s.db) :
      Moves s { s with dash := { s.dash with refreshing := some ⟨snap, some answer⟩ } }
  | finish {snap : Snapshot} {stats : Option Stats} (sources : Sources)
      (h : s.dash.refreshing = some ⟨snap, some stats⟩) :
      Moves s { s with
        dash := s.dash.finishRefresh snap stats sources
        began := none
        shown := s.began.map fun began ↦ ⟨began, s.toMoment⟩ }
  | abandon : Moves s { s with dash := { s.dash with refreshing := none }, began := none }

theorem moves_of_act {action : Act cfg D foreign} (hact : s.act action = some s') : Moves s s' := by
  cases action with
  | orchestrator action =>
    obtain ⟨orch, horch, rfl⟩ := Option.map_eq_some_iff.mp hact
    exact .orchestrator ⟨action, World.permitted_anyEffect _ _, horch⟩
  | pass dt =>
    obtain ⟨hdt, hpassed⟩ := Option.ite_none_right_eq_some.mp hact
    obtain rfl := Option.some.inj hpassed
    exact .pass (le_add_of_nonneg_right hdt)
  | event body =>
    obtain rfl := Option.some.inj hact
    exact .event body
  | refresh ts =>
    simp only [Live.act] at hact
    split at hact
    · obtain rfl := Option.some.inj hact
      exact .refresh ts
    · cases hact
  | stats up =>
    simp only [Live.act] at hact
    split at hact
    · rename_i hrefreshing
      obtain rfl := Option.some.inj hact
      refine .stats hrefreshing fun stats hanswer ↦ ?_
      cases up <;> cases hanswer
      rfl
    · cases hact
  | finish sources =>
    simp only [Live.act] at hact
    split at hact
    · rename_i hrefreshing
      obtain rfl := Option.some.inj hact
      exact .finish sources hrefreshing
    · cases hact
  | abandon =>
    obtain rfl := Option.some.inj hact
    exact .abandon

/-! ### Moments -/

/-- A run of the orchestrator. -/
abbrev Runs (w w' : World (orchestrator cfg D foreign)) : Prop :=
  Relation.ReflTransGen (World.Step World.anyEffect) w w'

/-- One moment comes before another. -/
structure Moment.Before (m m' : Moment cfg D foreign) : Prop where
  orch : Runs m.orch m'.orch
  clock : m.clock ≤ m'.clock
  handled : m.handled <+: m'.handled

/-- The orchestrator was in this world between the begin and the end. -/
def Span.Contains (span : Span cfg D foreign) (w : World (orchestrator cfg D foreign)) : Prop :=
  Runs span.began.orch w ∧ Runs w span.ended.orch

variable {m m' m'' : Moment cfg D foreign}

theorem Moment.Before.refl (m : Moment cfg D foreign) : m.Before m :=
  ⟨.refl, le_rfl, List.prefix_rfl⟩

theorem Moment.Before.trans (h : m.Before m') (h' : m'.Before m'') : m.Before m'' :=
  ⟨h.orch.trans h'.orch, h.clock.trans h'.clock, h.handled.trans h'.handled⟩

/-- Time does not go back. -/
theorem before_of_moves (hmoves : Moves s s') : s.toMoment.Before s'.toMoment := by
  have hsame := Moment.Before.refl s.toMoment
  cases hmoves with
  | orchestrator hstep => exact { hsame with orch := .single hstep }
  | pass hclock => exact { hsame with clock := hclock }
  | event body => exact { hsame with handled := List.prefix_append _ _ }
  | _ => exact hsame

/-! ### The throughput -/

/-- The times at which events of a kind were handled. -/
def timesOf (kind : Body → Bool) (handled : List (ℚ × Body)) : List ℚ :=
  (handled.filter fun event ↦ kind event.2).map Prod.fst

/-- How many events of a kind a second there were in the window before a time. -/
def perSecond (kind : Body → Bool) (handled : List (ℚ × Body)) (now : ℚ) : ℚ :=
  handled.countP (fun event ↦ kind event.2 && decide (now - event.1 ≤ window)) / window

/-- The throughput at a moment. -/
def Moment.throughput (m : Moment cfg D foreign) : Throughput :=
  ⟨perSecond isPlaced m.handled m.clock, perSecond isDelivered m.handled m.clock⟩

/-- The clock and the times that the dashboard keeps. -/
structure Timed (s : Live cfg D foreign) : Prop where
  past : ∀ event ∈ s.handled, event.1 ≤ s.clock
  ingest : windowExpiry.Kept s.clock (timesOf isPlaced s.handled) s.dash.ingestTimes
  deliver : windowExpiry.Kept s.clock (timesOf isDelivered s.handled) s.dash.deliverTimes

theorem timesOf_append (kind : Body → Bool) (handled : List (ℚ × Body)) (time : ℚ) (body : Body) :
    timesOf kind (handled ++ [(time, body)]) =
      timesOf kind handled ++ if kind body then [time] else [] := by
  by_cases hkind : kind body <;> simp [timesOf, hkind]

/-- The rate that is computed is that of the events handled. -/
theorem rate_eq_perSecond {kind : Body → Bool} {handled : List (ℚ × Body)} {times : List ℚ}
    {now : ℚ} (h : windowExpiry.Kept now (timesOf kind handled) times) :
    (Dashboard.rate times now).1 = perSecond kind handled now := by
  have hcount : (windowExpiry.prune now times).length =
      handled.countP fun event ↦ kind event.2 && decide (now - event.1 ≤ window) := by
    rw [h.prune_eq_filter, timesOf, List.filter_map, List.length_map, List.filter_filter,
      ← List.countP_eq_length_filter]
    refine List.countP_congr fun event _ ↦ ?_
    simp [windowExpiry, not_lt, and_comm]
  rw [rate_eq, hcount]
  rfl

theorem kept_event {now : ℚ} {arrivals times : List ℚ} (h : windowExpiry.Kept now arrivals times)
    (arrives : Bool) : windowExpiry.Kept now (arrivals ++ if arrives then [now] else [])
      (times ++ if arrives then [now] else []) := by
  cases arrives with
  | true => exact h.arrive
  | false => simpa using h

theorem timed_start : Timed (live cfg D foreign).start where
  past _ hevent := absurd hevent List.not_mem_nil
  ingest := Expiry.kept_nil 0
  deliver := Expiry.kept_nil 0

theorem Timed.event (h : Timed s) (body : Body) :
    Timed { s with
      dash := s.dash.onEvent body s.clock
      handled := s.handled ++ [(s.clock, body)] } := by
  rw [onEvent_eq]
  constructor
  · intro event hevent
    rcases List.mem_append.mp hevent with hold | hnew
    · exact h.past event hold
    · rw [List.mem_singleton.mp hnew]
  · rw [timesOf_append]
    exact kept_event h.ingest _
  · rw [timesOf_append]
    exact kept_event h.deliver _

theorem Timed.moves (h : Timed s) (hmoves : Moves s s') : Timed s' := by
  cases hmoves with
  | pass hclock =>
    exact ⟨fun event hevent ↦ (h.past event hevent).trans hclock, h.ingest.later hclock,
      h.deliver.later hclock⟩
  | event body => exact h.event body
  | refresh ts => exact ⟨h.past, h.ingest.prune, h.deliver.prune⟩
  | _ => exact ⟨h.past, h.ingest, h.deliver⟩

/-- What a refresh notes when it begins is the throughput of the moment. -/
theorem Timed.throughput (h : Timed s) :
    (⟨(Dashboard.rate s.dash.ingestTimes s.clock).1,
      (Dashboard.rate s.dash.deliverTimes s.clock).1⟩ : Throughput) = s.toMoment.throughput := by
  rw [rate_eq_perSecond h.ingest, rate_eq_perSecond h.deliver]
  rfl

/-! ### The counts -/

/-- The snapshot shows the orders of a database, by their states. -/
structure Counts (d : Db) (snap : Snapshot) : Prop where
  states : ∀ state, snap.states state = d.orders.countP fun row ↦ row.state = state
  ingested : snap.totals.ingested = d.orders.length
  delivered : snap.totals.delivered = d.orders.countP fun row ↦ row.state = .delivered
  failed : snap.totals.failed = d.orders.countP fun row ↦ row.state = .failed
  cancelled : snap.totals.cancelled = d.orders.countP fun row ↦ row.state = .cancelled
  inFlight : snap.totals.inFlight = d.orders.countP fun row ↦ !isTerminal row.state

/-- A refresh with an answer of `/stats` shows the orders it was given for. -/
theorem counts_finish (snap : Snapshot) (d : Db) (sources : Sources) :
    Counts d ((snap.withStats (some (Orchestrator.stats d))).withSources sources) where
  states := stats_getD d
  ingested := by
    have hall := sum_stats d fun _ ↦ true
    rwa [List.filter_true, List.countP_true] at hall
  delivered := stats_getD d .delivered
  failed := stats_getD d .failed
  cancelled := stats_getD d .cancelled
  inFlight := sum_stats d fun state ↦ !isTerminal state

/-- The orders in flight and the finished ones are all of them. -/
def Totals.AddUp (totals : Totals) : Prop :=
  totals.ingested = totals.inFlight + totals.delivered + totals.failed + totals.cancelled

/-- No fewer orders, and no fewer of any finished kind. -/
structure Totals.Le (totals totals' : Totals) : Prop where
  ingested : totals.ingested ≤ totals'.ingested
  delivered : totals.delivered ≤ totals'.delivered
  failed : totals.failed ≤ totals'.failed
  cancelled : totals.cancelled ≤ totals'.cancelled

theorem Counts.addUp {d : Db} {snap : Snapshot} (h : Counts d snap) : snap.totals.AddUp := by
  have hall := sum_stats d fun _ ↦ true
  have hopen := sum_stats d fun state ↦ !isTerminal state
  rw [List.filter_true, List.countP_true] at hall
  simp only [stats_getD] at hall hopen
  rw [Totals.AddUp, h.ingested, h.inFlight, h.delivered, h.failed, h.cancelled, ← hall, ← hopen]
  simp [State.all, isTerminal, terminalStates]
  omega

theorem Counts.le {d d' : Db} {snap snap' : Snapshot} (h : Counts d snap) (h' : Counts d' snap')
    (hledger : Ledger d) (hledger' : Ledger d') (hgrows : d.Grows d') :
    snap.totals.Le snap'.totals := by
  have hterminal : ∀ state, isTerminal state → (d.orders.countP fun row ↦ row.state = state) ≤
      d'.orders.countP fun row ↦ row.state = state :=
    fun _ hstate ↦ countP_terminal_le hledger hledger' hgrows hstate
  constructor
  · rw [h.ingested, h'.ingested]
    exact length_orders_le hledger hgrows
  · rw [h.delivered, h'.delivered]
    exact hterminal .delivered rfl
  · rw [h.failed, h'.failed]
    exact hterminal .failed rfl
  · rw [h.cancelled, h'.cancelled]
    exact hterminal .cancelled rfl

/-! ### The refreshes -/

/-- A refresh under way that began at a moment. -/
structure Asks (s : Live cfg D foreign) (began : Moment cfg D foreign) (refresh : Refresh) :
    Prop where
  reached : World.Reachable World.anyEffect began.orch
  before : began.Before s.toMoment
  throughput : refresh.snap.throughput = began.throughput
  down : refresh.snap.orchestratorUp = false
  stats : ∀ stats, refresh.stats = some (some stats) → ∃ w, Runs began.orch w ∧ Runs w s.orch ∧
    stats = Orchestrator.stats w.shared.db.committed

/-- A snapshot shows what its refresh saw. -/
structure Shows (span : Span cfg D foreign) (snap : Snapshot) : Prop where
  reached : World.Reachable World.anyEffect span.began.orch
  before : span.began.Before span.ended
  throughput : snap.throughput = span.began.throughput
  counts : snap.orchestratorUp = true →
    ∃ w, span.Contains w ∧ Counts w.shared.db.committed snap

/-- The moments that are recorded are those of the refresh under way and of the snapshot, one after
the other. -/
structure Recorded (s : Live cfg D foreign) : Prop where
  reached : World.Reachable World.anyEffect s.orch
  underWay : ∀ refresh, s.dash.refreshing = some refresh →
    ∃ began, s.began = some began ∧ Asks s began refresh
  shown : (s.shown = none ∧ s.dash.snapshot = emptySnapshot) ∨ ∃ span, s.shown = some span ∧
    Shows span s.dash.snapshot ∧ span.ended.Before s.toMoment
  apart : ∀ span began, s.shown = some span → s.began = some began → span.ended.Before began

theorem recorded_start : Recorded (live cfg D foreign).start where
  reached := .refl
  underWay _ hrefresh := by cases hrefresh
  shown := Or.inl ⟨rfl, rfl⟩
  apart _ _ hshown := by cases hshown

theorem Recorded.of_shown (h : Recorded s) {span : Span cfg D foreign}
    (hspan : s.shown = some span) :
    Shows span s.dash.snapshot ∧ span.ended.Before s.toMoment := by
  rcases h.shown with ⟨hnone, -⟩ | ⟨span', hspan', hshows⟩
  · rw [hnone] at hspan
    cases hspan
  · obtain rfl := Option.some.inj (hspan'.symm.trans hspan)
    exact hshows

/-- Where the refreshes stand does not change as the rest goes on. -/
theorem Recorded.goes (h : Recorded s) (hbefore : s.toMoment.Before s'.toMoment)
    (hrefreshing : s'.dash.refreshing = s.dash.refreshing)
    (hsnapshot : s'.dash.snapshot = s.dash.snapshot) (hbegan : s'.began = s.began)
    (hshown : s'.shown = s.shown) : Recorded s' where
  reached := h.reached.trans hbefore.orch
  underWay refresh hrefresh := by
    rw [hrefreshing] at hrefresh
    obtain ⟨began, hrecorded, hasks⟩ := h.underWay refresh hrefresh
    refine ⟨began, hbegan.trans hrecorded,
      { hasks with before := hasks.before.trans hbefore, stats := fun stats hstats ↦ ?_ }⟩
    obtain ⟨w, hbegun, hnow, heq⟩ := hasks.stats stats hstats
    exact ⟨w, hbegun, hnow.trans hbefore.orch, heq⟩
  shown := by
    rw [hshown, hsnapshot]
    exact h.shown.imp_right fun ⟨span, hspan, hshows, hended⟩ ↦
      ⟨span, hspan, hshows, hended.trans hbefore⟩
  apart span began hspan hrecorded :=
    h.apart span began (hshown.symm.trans hspan) (hbegan.symm.trans hrecorded)

theorem Recorded.begin (h : Recorded s) (htimed : Timed s) (ts : String) :
    Recorded { s with dash := s.dash.beginRefresh ts s.clock, began := some s.toMoment } where
  reached := h.reached
  underWay refresh hrefresh := by
    obtain rfl := Option.some.inj hrefresh
    exact ⟨s.toMoment, rfl,
      { reached := h.reached
        before := Moment.Before.refl _
        throughput := htimed.throughput
        down := rfl
        stats := fun _ hstats ↦ by cases hstats }⟩
  shown := h.shown
  apart span began hspan hrecorded := by
    obtain rfl := Option.some.inj hrecorded
    exact (h.of_shown hspan).2

/-- What `/stats` answers is of this moment. -/
theorem Recorded.stats (h : Recorded s) {snap : Snapshot} {answer : Option Stats}
    (hrefreshing : s.dash.refreshing = some ⟨snap, none⟩)
    (hanswer : ∀ stats, answer = some stats → stats = Orchestrator.stats s.db) :
    Recorded { s with dash := { s.dash with refreshing := some ⟨snap, some answer⟩ } } where
  reached := h.reached
  underWay refresh hrefresh := by
    obtain rfl := Option.some.inj hrefresh
    obtain ⟨began, hbegan, hasks⟩ := h.underWay _ hrefreshing
    refine ⟨began, hbegan, { hasks with stats := fun stats hstats ↦ ?_ }⟩
    exact ⟨s.orch, hasks.before.orch, .refl, hanswer stats (Option.some.inj hstats)⟩
  shown := h.shown
  apart := h.apart

/-- The refresh is over: it shows what `/stats` gave. -/
theorem Recorded.finish (h : Recorded s) {snap : Snapshot} {stats : Option Stats}
    (hrefreshing : s.dash.refreshing = some ⟨snap, some stats⟩) (sources : Sources) :
    Recorded { s with
      dash := s.dash.finishRefresh snap stats sources
      began := none
      shown := s.began.map fun began ↦ ⟨began, s.toMoment⟩ } := by
  obtain ⟨began, hbegan, hasks⟩ := h.underWay _ hrefreshing
  have hshows : Shows ⟨began, s.toMoment⟩ ((snap.withStats stats).withSources sources) := by
    refine ⟨hasks.reached, hasks.before, ?_, fun hup ↦ ?_⟩
    · rw [throughput_finish]
      exact hasks.throughput
    · cases stats with
      | none =>
        have hdown : snap.orchestratorUp = false := hasks.down
        have hup' : snap.orchestratorUp = true := hup
        rw [hdown] at hup'
        cases hup'
      | some stats =>
        obtain ⟨w, hbegun, hnow, rfl⟩ := hasks.stats stats rfl
        exact ⟨w, ⟨hbegun, hnow⟩, counts_finish snap _ sources⟩
  have hspan : (s.began.map fun began ↦ (⟨began, s.toMoment⟩ : Span cfg D foreign)) =
      some ⟨began, s.toMoment⟩ := by
    rw [hbegan]
    rfl
  exact
    { reached := h.reached
      underWay := fun _ hrefresh ↦ by cases hrefresh
      shown := Or.inr ⟨_, hspan, hshows, Moment.Before.refl _⟩
      apart := fun _ _ _ hnone ↦ by cases hnone }

theorem Recorded.moves (h : Recorded s) (htimed : Timed s) (hmoves : Moves s s') :
    Recorded s' := by
  have hbefore := before_of_moves hmoves
  cases hmoves with
  | orchestrator _ => exact h.goes hbefore rfl rfl rfl rfl
  | pass _ => exact h.goes hbefore rfl rfl rfl rfl
  | event body =>
    rw [onEvent_eq] at hbefore ⊢
    exact h.goes hbefore rfl rfl rfl rfl
  | refresh ts => exact h.begin htimed ts
  | stats hrefreshing hanswer => exact h.stats hrefreshing hanswer
  | finish sources hrefreshing => exact h.finish hrefreshing sources
  | abandon =>
    exact
      { reached := h.reached
        underWay := fun _ hrefresh ↦ by cases hrefresh
        shown := h.shown
        apart := fun _ _ _ hnone ↦ by cases hnone }

/-- The invariant of the dashboard. -/
structure Sound (s : Live cfg D foreign) : Prop where
  timed : Timed s
  recorded : Recorded s

theorem Sound.moves (h : Sound s) (hmoves : Moves s s') : Sound s' :=
  ⟨h.timed.moves hmoves, h.recorded.moves h.timed hmoves⟩

theorem sound_of_reachable (hs : (live cfg D foreign).Reachable Transitions.anyAction s) :
    Sound s :=
  Transitions.invariant ⟨timed_start, recorded_start⟩
    (fun _ _ _ h _ hact ↦ h.moves (moves_of_act hact)) hs

/-- The throughput of the snapshot is that of the moment at which its refresh began. -/
def Exact (s : Live cfg D foreign) : Prop :=
  ∃ span, s.shown = some span ∧ span.began.Before span.ended ∧ span.ended.Before s.toMoment ∧
    s.dash.snapshot.throughput = span.began.throughput

/-- **The throughput is exact**: every snapshot but the empty one of the start shows the events a
second of the window before the begin of its refresh. -/
theorem throughput_exact (cfg : Config) (D : Downstreams) (foreign : Publication → Bool)
    {s : Live cfg D foreign} (hs : (live cfg D foreign).Reachable Transitions.anyAction s)
    {ts : String} (hts : s.dash.snapshot.ts = some ts) : Exact s := by
  rcases (sound_of_reachable hs).recorded.shown with ⟨-, hempty⟩ | ⟨span, hspan, hshows, hended⟩
  · rw [hempty] at hts
    cases hts
  · exact ⟨span, hspan, hshows.before, hended, hshows.throughput⟩

/-! ### One snapshot after another -/

/-- Only the end of a refresh changes what is shown. -/
theorem shown_of_moves (h : Recorded s) (hmoves : Moves s s') :
    (s'.shown = s.shown ∧ s'.dash.snapshot = s.dash.snapshot) ∨
      ∃ began, s.began = some began ∧ s'.shown = some ⟨began, s.toMoment⟩ := by
  cases hmoves with
  | event body =>
    rw [onEvent_eq]
    exact Or.inl ⟨rfl, rfl⟩
  | finish sources hrefreshing =>
    obtain ⟨began, hbegan, -⟩ := h.underWay _ hrefreshing
    refine Or.inr ⟨began, hbegan, ?_⟩
    rw [hbegan]
    rfl
  | _ => exact Or.inl ⟨rfl, rfl⟩

/-- The snapshot is still this one, or that of a refresh that began after the end of this one's. -/
def Follows (span : Span cfg D foreign) (snap : Snapshot) (s : Live cfg D foreign) : Prop :=
  (s.shown = some span ∧ s.dash.snapshot = snap) ∨
    ∃ next, s.shown = some next ∧ span.ended.Before next.began

theorem Follows.moves {span : Span cfg D foreign} {snap : Snapshot} (h : Follows span snap s)
    (hrecorded : Recorded s) (hmoves : Moves s s') : Follows span snap s' := by
  rcases shown_of_moves hrecorded hmoves with ⟨hshown, hsnapshot⟩ | ⟨began, hbegan, hshown⟩
  · unfold Follows
    rw [hshown, hsnapshot]
    exact h
  · refine Or.inr ⟨_, hshown, ?_⟩
    rcases h with ⟨hspan, -⟩ | ⟨next, hnext, hafter⟩
    · exact hrecorded.apart span began hspan hbegan
    · exact hafter.trans ((hrecorded.of_shown hnext).1.before.trans
        (hrecorded.apart next began hnext hbegan))

theorem follows_of_run (h : Sound s) {span : Span cfg D foreign} (hspan : s.shown = some span)
    (hrun : Relation.ReflTransGen ((live cfg D foreign).Step Transitions.anyAction) s s') :
    Sound s' ∧ Follows span s.dash.snapshot s' :=
  Transitions.kept_of_run (P := fun s' ↦ Sound s' ∧ Follows span s.dash.snapshot s')
    (fun _ _ _ hkept _ hact ↦ ⟨hkept.1.moves (moves_of_act hact),
      hkept.2.moves hkept.1.recorded (moves_of_act hact)⟩) ⟨h, Or.inl ⟨hspan, rfl⟩⟩ hrun

/-- A snapshot with the orchestrator up shows the counts of a world that its refresh saw. -/
theorem Sound.counted (h : Sound s) (hup : s.dash.snapshot.orchestratorUp = true) :
    ∃ span w, s.shown = some span ∧ span.Contains w ∧ World.Reachable World.anyEffect w ∧
      Counts w.shared.db.committed s.dash.snapshot := by
  rcases h.recorded.shown with ⟨-, hempty⟩ | ⟨span, hspan, hshows, -⟩
  · rw [hempty] at hup
    cases hup
  · obtain ⟨w, hcontains, hcounts⟩ := hshows.counts hup
    exact ⟨span, w, hspan, hcontains, hshows.reached.trans hcontains.1, hcounts⟩

/-- **The totals only grow**: two snapshots with the orchestrator up, one after the other, show the
orders of two worlds, one after the other, each between the begin and the end of the refresh that
produced the snapshot. -/
theorem totals_grow (cfg : Config) (D : Downstreams) (foreign : Publication → Bool)
    {s s' : Live cfg D foreign} (hs : (live cfg D foreign).Reachable Transitions.anyAction s)
    (hrun : Relation.ReflTransGen ((live cfg D foreign).Step Transitions.anyAction) s s')
    (hup : s.dash.snapshot.orchestratorUp = true)
    (hup' : s'.dash.snapshot.orchestratorUp = true) :
    (∃ span span' w w', s.shown = some span ∧ s'.shown = some span' ∧
      span.Contains w ∧ span'.Contains w' ∧ World.Reachable World.anyEffect w ∧ Runs w w' ∧
      Counts w.shared.db.committed s.dash.snapshot ∧
        Counts w'.shared.db.committed s'.dash.snapshot) ∧
      s.dash.snapshot.totals.AddUp ∧ s.dash.snapshot.totals.Le s'.dash.snapshot.totals := by
  have hsound := sound_of_reachable hs
  obtain ⟨span, w, hspan, hcontains, hw, hcounts⟩ := hsound.counted hup
  obtain ⟨hsound', hfollows⟩ := follows_of_run hsound hspan hrun
  rcases hfollows with ⟨hspan', hsame⟩ | ⟨next, hnext, hafter⟩
  · rw [hsame]
    exact ⟨⟨span, span, w, w, hspan, hspan', hcontains, hcontains, hw, .refl, hcounts, hcounts⟩,
      hcounts.addUp, ⟨le_rfl, le_rfl, le_rfl, le_rfl⟩⟩
  · obtain ⟨span', w', hspan', hcontains', hw', hcounts'⟩ := hsound'.counted hup'
    obtain rfl := Option.some.inj (hspan'.symm.trans hnext)
    have hruns : Runs w w' := (hcontains.2.trans hafter.orch).trans hcontains'.1
    exact ⟨⟨span, span', w, w', hspan, hspan', hcontains, hcontains', hw, hruns, hcounts, hcounts'⟩,
      hcounts.addUp, hcounts.le hcounts' (ledger_of_reachable hw) (ledger_of_reachable hw')
        (grows_of_run hw hruns)⟩

/-! ### A run -/

/-- An order is placed and its event comes in; a second later there is a refresh. -/
def showing : List (Act {} .any fun _ ↦ true) :=
  placing.map .orchestrator ++
    [.event (.envelope dinnerPlaced), .pass 1, .refresh "t1", .stats true, .finish {}]

/-- Six seconds later there is another refresh, which ends when the order is confirmed. -/
def showingAgain : List (Act {} .any fun _ ↦ true) :=
  [.pass 6, .refresh "t2"] ++ advancing.map .orchestrator ++ [.stats true, .pass 1, .finish {}]

def shownLive : Live {} .any fun _ ↦ true :=
  ((live _ _ _).run (live _ _ _).start showing).get (by decide +kernel)

def shownAgain : Live {} .any fun _ ↦ true :=
  ((live _ _ _).run shownLive showingAgain).get (by decide +kernel)

theorem throughput_exact_shownLive : Exact shownLive ∧
    (shownLive.shown.map fun span ↦ (span.began.clock, span.began.handled.length)) = some (1, 1) ∧
    shownLive.dash.snapshot.throughput = ⟨⟨1, 5, by decide, by decide⟩, 0⟩ :=
  ⟨throughput_exact {} .any _ (Transitions.reachable_of_run (Option.some_get _).symm)
    (show shownLive.dash.snapshot.ts = some "t1" by decide +kernel), by decide +kernel,
    by decide +kernel⟩

theorem totals_grow_shownAgain :
    shownLive.dash.snapshot.totals = { ingested := 1, inFlight := 1 } ∧
    (shownAgain.shown.map fun span ↦ (span.began.clock, span.ended.clock)) = some (7, 8) ∧
    shownAgain.dash.snapshot.states .confirmed = 1 ∧
    shownLive.dash.snapshot.totals.Le shownAgain.dash.snapshot.totals := by
  have hfirst : (live _ _ _).run (live _ _ _).start showing = some shownLive :=
    (Option.some_get _).symm
  have hagain : (live _ _ _).run shownLive showingAgain = some shownAgain :=
    (Option.some_get _).symm
  have hgrow := totals_grow {} .any _ (Transitions.reachable_of_run hfirst)
    (Transitions.reflTransGen_of_run hagain) (by decide +kernel) (by decide +kernel)
  exact ⟨by decide +kernel, by decide +kernel, by decide +kernel, hgrow.2.2⟩

end DinnerRush.DashboardApi
