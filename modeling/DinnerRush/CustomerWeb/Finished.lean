import DinnerRush.CustomerWeb.Onward

/-!
# The end of the feed

The stream closes when it has seen a terminal status for a while. A status other than `failed` is
terminal only if every order is; one failed order makes the whole cart `failed`, whatever the others
do. So the feed ends with the cart exactly if no order has failed while another can still move
(`endsFinished`).
-/

set_option autoImplicit false
set_option relaxedAutoImplicit false

namespace DinnerRush.CustomerWeb

open Concurrency Concurrency.Table

variable {decoded : Option CartToken} {token : CartToken} {orders : String → Option Order}
  {s s' : Stream} {number : ℕ} {reads : List Read} {action : Action} {log : List Read}

/-! ### A terminal aggregate -/

/-- One of the orders has failed, and one can still move. -/
def Mixed (states : List State) : Prop :=
  State.failed ∈ states ∧ ∃ state ∈ states, isTerminal state = false

instance (states : List State) : Decidable (Mixed states) := by
  unfold Mixed
  infer_instance

/-- Apart from a failed order, only orders that are all terminal have a terminal aggregate. -/
theorem terminal_of_aggregate {states : List State}
    (hterminal : aggregateStatus (states.map State.value) ∈ terminal)
    (hnone : State.failed ∉ states) : ∀ state ∈ states, isTerminal state = true := by
  intro state hstate
  rcases aggregateStatus_cases states with ⟨hfailed, -⟩ | ⟨hcancelled, -⟩ |
    ⟨-, index, hindex, hstatus, hleast, -⟩
  · exact absurd hfailed hnone
  · rw [hcancelled state hstate]
    rfl
  · rw [hstatus] at hterminal
    have hlast := terminal_flow hindex hterminal
    by_cases hcancelled : state = .cancelled
    · rw [hcancelled]
      rfl
    · have hdepth := hleast state hstate hcancelled
      have hstateFailed : state ≠ .failed := fun h ↦ hnone (h ▸ hstate)
      rw [hlast] at hdepth
      revert hdepth hstateFailed
      cases state <;> decide

theorem aggregate_failed {states : List State} (h : State.failed ∈ states) :
    aggregateStatus (states.map State.value) ∈ terminal := by
  rcases aggregateStatus_cases states with ⟨-, hstatus⟩ | ⟨hcancelled, -⟩ | ⟨hnone, -⟩
  · rw [hstatus]
    decide
  · cases hcancelled .failed h
  · exact absurd h hnone

/-- A terminal aggregate means that every order is terminal, exactly if the orders are not mixed. -/
theorem finished_iff (states : List State) :
    (aggregateStatus (states.map State.value) ∈ terminal →
      ∀ state ∈ states, isTerminal state = true) ↔ ¬ Mixed states := by
  constructor
  · rintro hfinished ⟨hfailed, state, hstate, hgoing⟩
    rw [hfinished (aggregate_failed hfailed) state hstate] at hgoing
    cases hgoing
  · intro hnot hterminal state hstate
    by_cases hfailed : State.failed ∈ states
    · by_contra hgoing
      exact hnot ⟨hfailed, state, hstate, Bool.eq_false_iff.mpr hgoing⟩
    · exact terminal_of_aggregate hterminal hfailed state hstate

/-! ### What the ticks have read -/

/-- The reads of the ticks are of the orders of the token, and an order that was read has only taken
legal steps since. -/
structure Recorded (decoded : Option CartToken) (s : Stream) : Prop where
  reached : ∀ read ∈ s.log, Reaches read.seen (stateOf (s.orders read.order.id))
  faithful : ∀ read ∈ s.log, read.Faithful
  ticks : ∀ tick ∈ s.ticks, ∀ token ∈ decoded, List.Forall₂ (ReadIn s.log) token.o tick.reads

theorem recorded_start : Recorded decoded (stream decoded orders).start where
  reached := nofun
  faithful := nofun
  ticks := chronicled_start.ticks

theorem Recorded.move (h : Recorded decoded s) {orders' : String → Option Order}
    (hmove : ∀ id, Reaches (stateOf (s.orders id)) (stateOf (orders' id))) :
    Recorded decoded { s with orders := orders' } where
  reached read hread := (h.reached read hread).trans (hmove read.order.id)
  faithful := h.faithful
  ticks := h.ticks

/-- The ticks are of the same reads. -/
theorem Recorded.same (h : Recorded decoded s) (horders : s'.orders = s.orders)
    (hlog : s'.log = s.log)
    (hticks : ∀ tick ∈ s'.ticks, ∃ tick' ∈ s.ticks, tick.reads = tick'.reads) :
    Recorded decoded s' := by
  refine ⟨?_, ?_, fun tick htick ↦ ?_⟩
  · rw [hlog, horders]
    exact h.reached
  · rw [hlog]
    exact h.faithful
  · obtain ⟨tick', htick', hsame⟩ := hticks tick htick
    rw [hlog, hsame]
    exact h.ticks tick' htick'

/-- A tick that has ended has the reads it had. -/
theorem Recorded.finish (h : Recorded decoded s) {tick : Tick}
    (htick : s.ticks[number]? = some tick) (horders : s'.orders = s.orders)
    (hlog : s'.log = s.log) (hticks : s'.ticks = s.ticks) :
    Recorded decoded (s'.finish number tick) := by
  refine h.same horders hlog fun other hother ↦ ?_
  change other ∈ s'.ticks.set number { tick with running := false } at hother
  rw [hticks] at hother
  rcases List.mem_or_eq_of_mem_set hother with hold | rfl
  · exact ⟨other, hold, rfl⟩
  · exact ⟨tick, List.mem_of_getElem? htick, rfl⟩

/-- What a tick does with the view leaves the orders and the reads alone. -/
theorem present_kept (decoded : Option CartToken) (s : Stream) (reads : List Read) :
    (s.present decoded reads).orders = s.orders ∧ (s.present decoded reads).log = s.log ∧
      (s.present decoded reads).ticks = s.ticks := by
  obtain ⟨frames, seenAt, -, hpresent | ⟨hpresent, -⟩⟩ := present_cases decoded s reads
  · rw [hpresent]
    exact ⟨rfl, rfl, rfl⟩
  · obtain ⟨timer, controllerOpen, hclose⟩ :=
      close_eq { s with frames := frames, terminalSeenAt := seenAt }
    rw [hpresent, hclose]
    exact ⟨rfl, rfl, rfl⟩

theorem Recorded.fetch (h : Recorded decoded s) {index : ℕ} {failed : Option Fetched}
    (hact : s.read decoded number index failed = some s') : Recorded decoded s' := by
  obtain ⟨token, order, tick, htoken, horder, htick, -, -, hfails, rfl⟩ := read_cases hact
  refine ⟨fun read hread ↦ ?_, fun read hread ↦ ?_, fun tick' htick' token' htoken' ↦ ?_⟩
  · rcases List.mem_append.mp hread with hold | hnew
    · exact h.reached read hold
    · rw [List.mem_singleton.mp hnew]
      exact .refl
  · rcases List.mem_append.mp hread with hold | hnew
    · exact h.faithful read hold
    · rw [List.mem_singleton.mp hnew]
      exact faithful_read hfails _ _
  · obtain rfl : token' = token := Option.some.inj (htoken'.symm.trans htoken)
    have hlater : ∀ read, ∀ other ∈ s.ticks,
        List.Forall₂ (ReadIn (s.log ++ [read])) token'.o other.reads := fun read other hother ↦
      (h.ticks other hother token' htoken').imp fun _ _ hread ↦ hread.append read
    rcases List.mem_or_eq_of_mem_set htick' with hold | rfl
    · exact hlater _ tick' hold
    · refine forall₂_set (hlater _ tick (List.mem_of_getElem? htick)) horder fun read hread ↦ ?_
      obtain rfl := Option.some.inj hread
      exact ⟨List.mem_append_right s.log List.mem_cons_self, rfl⟩

theorem Recorded.act (h : Recorded decoded s) (hact : s.act decoded action = some s') :
    Recorded decoded s' := by
  cases action with
  | seed id order =>
    obtain ⟨orders', hmove, rfl⟩ := act_seed hact
    exact h.move hmove
  | advance id target cause attempt =>
    obtain ⟨orders', hmove, rfl⟩ := act_advance hact
    exact h.move hmove
  | fetch number index failed => exact h.fetch hact
  | settle number =>
    obtain ⟨tick, reads, htick, -, -, rfl⟩ := act_settle hact
    obtain ⟨horders, hlog, hticks⟩ := present_kept decoded s reads
    exact h.finish htick horders hlog hticks
  | throw number =>
    obtain ⟨tick, htick, -, rfl⟩ := act_throw hact
    exact h.finish htick rfl rfl rfl
  | fire =>
    obtain ⟨-, rfl⟩ := act_fire hact
    refine ⟨h.reached, h.faithful, fun tick htick token htoken ↦ ?_⟩
    rcases List.mem_append.mp htick with hold | hnew
    · exact h.ticks tick hold token htoken
    · rw [List.mem_singleton.mp hnew, Stream.orderCount, show decoded = some token from htoken]
      exact forall₂_replicate_none s.log token.o
  | abort =>
    obtain rfl := Option.some.inj hact
    obtain ⟨timer, controllerOpen, hclose⟩ := close_eq s
    rw [hclose]
    exact h.same rfl rfl fun tick htick ↦ ⟨tick, htick, rfl⟩
  | cancel =>
    obtain rfl := Option.some.inj hact
    exact h.same rfl rfl fun tick htick ↦ ⟨tick, htick, rfl⟩
  | wait milliseconds =>
    obtain rfl := Option.some.inj hact
    exact h.same rfl rfl fun tick htick ↦ ⟨tick, htick, rfl⟩

/-! ### The feed closes -/

/-- A tick that closes the stream of a readable token has a terminal status. -/
theorem terminal_of_closes (hopen : s.closed = false)
    (hclosed : (s.present (some token) reads).closed = true) :
    aggregateStatus ((token.o.zipWith fetchOrder (reads.map Read.fetched)).map
      fun view ↦ view.order.state) ∈ terminal := by
  let row := orderRow token.hc (token.o.zipWith fetchOrder (reads.map Read.fetched))
  let frame := Frame.view (composeCartView (some token) (reads.map Read.fetched)) reads
  have hpresent : s.present (some token) reads = ((s.send frame).map fun sent ↦
      if row.status ∈ terminal then sent.noteTerminal else sent).getD s :=
    Stream.present_of_row (some token) s rfl
  rw [hpresent] at hclosed
  cases hsent : s.send frame with
  | none =>
    rw [hsent] at hclosed
    simp [hopen] at hclosed
  | some sent =>
    obtain ⟨frames, -, rfl⟩ := send_cases hsent
    rw [hsent] at hclosed
    by_contra hnot
    have hrow : row.status ∉ terminal := hnot
    simp [hrow, hopen] at hclosed

/-- The states of the orders of a token. -/
def statesOf (s : Stream) (token : CartToken) : List State :=
  token.o.map fun order ↦ stateOf (s.orders order.id)

/-- The states that a tick shows are states from which the orders have gone on. -/
theorem Recorded.reaches (h : Recorded decoded s) {order : List TokenOrder}
    (hreads : List.Forall₂ (fun order read ↦ ReadIn s.log order (some read)) order reads) :
    List.Forall₂ Reaches (reads.map Read.shown)
      (order.map fun order ↦ stateOf (s.orders order.id)) := by
  induction hreads with
  | nil => exact .nil
  | @cons order read rest reads hhead _ ih =>
    obtain ⟨hmem, rfl⟩ := hhead _ rfl
    refine .cons ?_ ih
    unfold Read.shown
    split
    · exact reaches_of_placed _
    · exact h.reached _ hmem

/-- When the feed closes, either every order is terminal, or one has failed. -/
theorem Recorded.closes (h : Recorded (some token) s) (hopen : s.closed = false)
    (hact : s.act (some token) (.settle number) = some s') (hclosed : s'.closed = true) :
    State.failed ∈ statesOf s token ∨ ∀ state ∈ statesOf s token, isTerminal state = true := by
  obtain ⟨tick, reads, htick, -, hreads, rfl⟩ := act_settle hact
  have htickReads := h.ticks tick (List.mem_of_getElem? htick) token rfl
  rw [map_some_of_mapM hreads, List.forall₂_map_right_iff] at htickReads
  have hterminal := terminal_of_closes hopen hclosed
  rw [states_eq h.faithful htickReads] at hterminal
  have hreaches := h.reaches htickReads
  by_cases hfailed : State.failed ∈ reads.map Read.shown
  · obtain ⟨target, htarget, hstill⟩ := (exists_mem_of_forall₂ hreaches).1 .failed hfailed
    obtain rfl := hstill.eq_of_terminal rfl
    exact Or.inl htarget
  · have hall := terminal_of_aggregate hterminal hfailed
    right
    rw [statesOf, eq_of_terminal hreaches hall]
    exact hall

/-- What is claimed of the aggregate and of the stream of a cart. -/
structure EndsFinished (token : CartToken) (orders : String → Option Order) : Prop where
  /-- For any orders, a terminal aggregate means that none can still move, unless they are mixed. -/
  aggregate : ∀ states : List State, (aggregateStatus (states.map State.value) ∈ terminal →
    ∀ state ∈ states, isTerminal state = true) ↔ ¬ Mixed states
  /-- In every run, the feed closes because of a status when no order can still move, unless they
  are mixed then. -/
  feed : ∀ (s : Stream) (number : ℕ) (s' : Stream),
    (stream (some token) orders).Reachable Transitions.anyAction s → s.closed = false →
      s.act (some token) (.settle number) = some s' → s'.closed = true →
        ((∀ state ∈ statesOf s token, isTerminal state = true) ↔ ¬ Mixed (statesOf s token))

/-- **The feed ends with the cart**, exactly if no order has failed while another can still move. -/
theorem endsFinished (token : CartToken) (orders : String → Option Order) :
    EndsFinished token orders where
  aggregate := finished_iff
  feed s number s' hs hopen hact hclosed := by
    have hrecorded : Recorded (some token) s :=
      Transitions.invariant recorded_start (fun _ _ _ h _ hstep ↦ h.act hstep) hs
    constructor
    · rintro hall ⟨-, state, hstate, hgoing⟩
      rw [hall state hstate] at hgoing
      cases hgoing
    · intro hnot state hstate
      rcases hrecorded.closes hopen hact hclosed with hfailed | hall
      · by_contra hgoing
        exact hnot ⟨hfailed, state, hstate, Bool.eq_false_iff.mpr hgoing⟩
      · exact hall state hstate

/-- One order is declined while the other is still being prepared, and the stream sees it twice. -/
def halfDeclined : List Action :=
  [.seed "o1" (placedOrder "spice-route"), .seed "o2" (placedOrder "green-bowl"),
   .advance "o1" .failed (some "payment declined") 1, .advance "o2" .confirmed (some "advance") 1,
   .advance "o2" .preparing (some "advance") 1, .fetch 0 0 none, .fetch 0 1 none, .settle 0,
   .wait 3000, .fire, .fetch 1 0 none, .fetch 1 1 none]

def halfDeclinedStream : Stream :=
  ((stream (some cart) unseeded).run (stream (some cart) unseeded).start halfDeclined).get
    (by decide +kernel)

def halfDeclinedClosed : Stream :=
  (halfDeclinedStream.act (some cart) (.settle 1)).get (by decide +kernel)

/-- The feed closes, and the second order is still being prepared. -/
theorem not_finished_halfDeclined :
    (stream (some cart) unseeded).Reachable Transitions.anyAction halfDeclinedStream ∧
      halfDeclinedStream.closed = false ∧
      halfDeclinedStream.act (some cart) (.settle 1) = some halfDeclinedClosed ∧
      halfDeclinedClosed.closed = true ∧
      ¬ ∀ state ∈ statesOf halfDeclinedStream cart, isTerminal state = true := by
  refine ⟨Transitions.reachable_of_run (Option.some_get _).symm, by decide +kernel,
    (Option.some_get _).symm, by decide +kernel, by decide +kernel⟩

end DinnerRush.CustomerWeb
