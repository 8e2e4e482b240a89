import DinnerRush.Broker
import DinnerRush.Concurrency.SlidingWindow
import Mathlib.Algebra.Order.Ring.Rat
import Mathlib.Tactic.Linarith

/-!
# The dashboard

`dashboard_api/app/main.py`: the snapshot of the whole pipeline that the browser is shown. The
counts come from `/stats` of the orchestrator, the throughput from the times at which events came
in, and the rest from what the other services answer; a source that fails leaves its defaults. The
sources of one refresh are asked at the same time and answer in any order.

Times and rates are exact. A rate is a number of fifths, so its rounding to two decimals leaves it
as it is. The copy of the snapshot in Redis is left out: nothing reads it.
-/

set_option autoImplicit false
set_option relaxedAutoImplicit false

namespace DinnerRush.DashboardApi

open Concurrency

/-! ### What the sources answer -/

/-- `/stats` of the orchestrator. -/
abbrev Stats := State → Option ℕ

/-- One entry of `/downstreams` of the orchestrator: the keys that are read, each present or not. -/
structure Health where
  breaker : Option String := none
  errorRate : Option ℚ := none
  avgLatencyMs : Option ℚ := none
  deriving DecidableEq

/-- `/status` of the load generator. -/
structure LoadStatus where
  mode : Option String := none
  targetRps : Option ℚ := none
  currentRps : Option ℚ := none
  sent : Option ℤ := none
  deriving DecidableEq

/-- What the sources beside `/stats` gave, each or nothing: `/control` of a service has a `down`,
and a queue has its depth. -/
structure Sources where
  downstreams : Option (Service → Option Health) := none
  control : Service → Option (Option Bool) := fun _ ↦ none
  load : Option LoadStatus := none
  advance : Option ℤ := none
  retry : Option ℤ := none
  dlq : Option ℤ := none

/-! ### The snapshot -/

structure Totals where
  ingested : ℕ := 0
  delivered : ℕ := 0
  failed : ℕ := 0
  cancelled : ℕ := 0
  inFlight : ℕ := 0
  deriving DecidableEq, Repr

structure Throughput where
  ingestPerSec : ℚ := 0
  deliverPerSec : ℚ := 0
  deriving DecidableEq, Repr

structure Retries where
  brokerRetries : ℤ := 0
  dlqDepth : ℤ := 0
  deriving DecidableEq, Repr

structure Queues where
  advance : ℤ := 0
  retry : ℤ := 0
  dlq : ℤ := 0
  deriving DecidableEq, Repr

structure DownstreamView where
  breaker : String := "unknown"
  errorRate : ℚ := 0
  avgLatencyMs : ℚ := 0
  down : Bool := false
  deriving DecidableEq, Repr

structure Load where
  mode : String := "unknown"
  targetRps : ℚ := 0
  currentRps : Option ℚ := none
  sent : ℤ := 0
  deriving DecidableEq, Repr

structure Snapshot where
  ts : Option String := none
  states : State → ℕ := fun _ ↦ 0
  totals : Totals := {}
  throughput : Throughput := {}
  retries : Retries := {}
  queues : Queues := {}
  downstreams : Service → DownstreamView := fun _ ↦ {}
  load : Load := {}
  orchestratorUp : Bool := false

def emptySnapshot : Snapshot := {}

/-- `NON_TERMINAL`. -/
def nonTerminal : List State := [.placed, .confirmed, .preparing, .ready, .outForDelivery]

/-- The counts of a refresh, from what `/stats` gave. -/
def Snapshot.withStats (snap : Snapshot) : Option Stats → Snapshot
  | none => snap
  | some stats =>
    let states := fun state ↦ (stats state).getD 0
    { snap with
      orchestratorUp := true
      states := states
      totals :=
        { delivered := states .delivered
          failed := states .failed
          cancelled := states .cancelled
          inFlight := (nonTerminal.map states).sum
          ingested := (State.all.map states).sum } }

/-- The view of one downstream: its entry of `/downstreams`, and its own word on being down. -/
def downstreamView (sources : Sources) (service : Service) (view : DownstreamView) :
    DownstreamView :=
  let view := match sources.downstreams with
    | none => view
    | some health =>
      let h := (health service).getD {}
      { view with
        breaker := h.breaker.getD "unknown"
        errorRate := h.errorRate.getD 0
        avgLatencyMs := h.avgLatencyMs.getD 0 }
  match sources.control service with
  | none => view
  | some down => { view with down := down.getD false }

/-- The rest of a refresh, from what the other sources gave. -/
def Snapshot.withSources (snap : Snapshot) (sources : Sources) : Snapshot :=
  let queues : Queues :=
    { advance := sources.advance.getD 0, retry := sources.retry.getD 0,
      dlq := sources.dlq.getD 0 }
  { snap with
    downstreams := fun service ↦ downstreamView sources service (snap.downstreams service)
    load := match sources.load with
      | none => snap.load
      | some load =>
        { mode := load.mode.getD "unknown", targetRps := load.targetRps.getD 0,
          currentRps := some (load.currentRps.getD 0), sent := load.sent.getD 0 }
    queues := queues
    retries := { brokerRetries := queues.retry, dlqDepth := queues.dlq } }

/-! ### The service -/

/-- A `_refresh_once` that waits for its sources: the snapshot so far, and what `/stats` gave once
it is asked. -/
structure Refresh where
  snap : Snapshot
  stats : Option (Option Stats) := none

structure Dashboard where
  snapshot : Snapshot := emptySnapshot
  ingestTimes : List ℚ := []
  deliverTimes : List ℚ := []
  refreshing : Option Refresh := none

/-- `WINDOW`, in seconds. -/
def window : ℚ := 5

/-- Whether an event is one of those that came in, or one of those that report a delivery. -/
def isPlaced : Body → Bool
  | .envelope env => env.type = .placed
  | .poison _ => false

def isDelivered : Body → Bool
  | .envelope env => env.type = .transition ∧ env.data.toState = some "delivered"
  | .poison _ => false

namespace Dashboard

/-- `on_event`: a body that cannot be parsed is ignored. -/
def onEvent (dash : Dashboard) (body : Body) (now : ℚ) : Dashboard :=
  match body with
  | .poison _ => dash
  | .envelope env =>
    if env.type = .placed then { dash with ingestTimes := dash.ingestTimes ++ [now] }
    else if env.type = .transition ∧ env.data.toState = some "delivered" then
      { dash with deliverTimes := dash.deliverTimes ++ [now] }
    else dash

/-- `_rate`: the rate, and the times that are kept. -/
def rate (times : List ℚ) (now : ℚ) : ℚ × List ℚ :=
  let kept := times.dropWhile fun t ↦ now - t > window
  (kept.length / window, kept)

/-- `_refresh_once` up to its sources. -/
def beginRefresh (dash : Dashboard) (ts : String) (now : ℚ) : Dashboard :=
  let ingest := rate dash.ingestTimes now
  let deliver := rate dash.deliverTimes now
  { dash with
    ingestTimes := ingest.2
    deliverTimes := deliver.2
    refreshing := some { snap := { emptySnapshot with
      ts := some ts, throughput := ⟨ingest.1, deliver.1⟩ } } }

/-- The end of `_refresh_once`. -/
def finishRefresh (dash : Dashboard) (snap : Snapshot) (stats : Option Stats) (sources : Sources) :
    Dashboard :=
  { dash with snapshot := (snap.withStats stats).withSources sources, refreshing := none }

end Dashboard

/-! ### What the functions do -/

section Lemmas

variable {dash : Dashboard} {snap : Snapshot} {body : Body} {now : ℚ}

/-- The times older than the window have expired. -/
def windowExpiry : Expiry ℚ where
  expired now t := now - t > window
  older now t t' ht h := by
    rw [decide_eq_true_eq] at h ⊢
    linarith
  stays now now' t hnow h := by
    rw [decide_eq_true_eq] at h ⊢
    linarith

theorem rate_eq (times : List ℚ) (now : ℚ) : Dashboard.rate times now =
    ((windowExpiry.prune now times).length / window, windowExpiry.prune now times) := rfl

theorem onEvent_eq (dash : Dashboard) (body : Body) (now : ℚ) : dash.onEvent body now =
    { dash with
      ingestTimes := dash.ingestTimes ++ if isPlaced body then [now] else []
      deliverTimes := dash.deliverTimes ++ if isDelivered body then [now] else [] } := by
  cases body with
  | poison bytes => simp [Dashboard.onEvent, isPlaced, isDelivered]
  | envelope env =>
    by_cases hplaced : env.type = .placed
    · simp [Dashboard.onEvent, isPlaced, isDelivered, hplaced]
    · by_cases hdelivered : env.type = .transition ∧ env.data.toState = some "delivered"
      · simp [Dashboard.onEvent, isPlaced, isDelivered, hdelivered]
      · simp [Dashboard.onEvent, isPlaced, isDelivered, hplaced, hdelivered]

theorem throughput_finish (snap : Snapshot) (stats : Option Stats) (sources : Sources) :
    ((snap.withStats stats).withSources sources).throughput = snap.throughput := by
  cases stats <;> rfl

end Lemmas

end DinnerRush.DashboardApi
