import DinnerRush.CustomerWeb.Stream
import Mathlib.Data.List.Forall2

/-!
# The live view moves on

A read that fails is shown like an order that is not seeded yet, and a tick that is slow may end
after one that began later. In every run in which no frame takes the place of one with a later read
of some order, or of one that had read an order beyond `placed` where its own read has failed, the
statuses of the frames only move on (`viewMovesOn`).
-/

set_option autoImplicit false
set_option relaxedAutoImplicit false

namespace DinnerRush.CustomerWeb

open Concurrency

/-- The reads that a frame was composed from. -/
def Frame.reads : Frame → List Read
  | .view _ reads => reads
  | .notFound => []

/-- The status that a frame shows. -/
def Frame.status : Frame → Option String
  | .view composed _ => composed.order.map OrderRow.status
  | .notFound => none

variable {decoded : Option CartToken} {orders : String → Option Order} {s s' : Stream}
  {number : ℕ} {tick : Tick} {reads : List Read} {action : Action} {log : List Read}

/-! ### What a read shows -/

/-- The state that the view shows for a read. -/
def Read.shown (read : Read) : State := if read.fetched.fails then .placed else read.seen

theorem fetchOrder_of_fails {order : TokenOrder} {fetched : Fetched}
    (h : fetched.fails = true) : fetchOrder order fetched = pending order := by
  cases fetched with
  | error => rfl
  | response statusCode body =>
    change (decide (statusCode = 404 ∨ ¬ (200 ≤ statusCode ∧ statusCode < 300)) || body.isNone) =
      true at h
    show (if statusCode = 404 then pending order
      else if ¬ (200 ≤ statusCode ∧ statusCode < 300) then pending order
      else body.getD (pending order)) = pending order
    by_cases hmissing : statusCode = 404
    · rw [if_pos hmissing]
    · by_cases hok : ¬ (200 ≤ statusCode ∧ statusCode < 300)
      · rw [if_neg hmissing, if_pos hok]
      · rw [decide_eq_false (not_or.mpr ⟨hmissing, hok⟩), Bool.false_or,
          Option.isNone_iff_eq_none] at h
        rw [if_neg hmissing, if_neg hok, h]
        rfl

/-- A read that the view shows as the code means it. -/
def Read.Faithful (read : Read) : Prop :=
  (fetchOrder read.order read.fetched).order.state = read.shown.value

/-- A read fails, or gives the order as it is. -/
theorem faithful_read {order : TokenOrder} {failed : Option Fetched}
    (hfails : ∀ fetched ∈ failed, fetched.fails = true) (found : Option Order) (time : ℕ) :
    Read.Faithful ⟨order, failed.getD (answer order.id found), stateOf found, time⟩ := by
  unfold Read.Faithful Read.shown
  cases failed with
  | some fetched =>
    have hfailed := hfails fetched rfl
    show (fetchOrder order fetched).order.state = _
    rw [fetchOrder_of_fails hfailed, Option.getD_some, if_pos hfailed]
    rfl
  | none => cases found <;> rfl

/-! ### Frames in order -/

/-- A read may be shown after another of the same order: it is not older, and if it has failed, then
so has the other, or the order was still placed. -/
def Read.MayFollow (later earlier : Read) : Prop :=
  earlier.time ≤ later.time ∧
    (later.fetched.fails = true → earlier.fetched.fails = true ∨ earlier.seen = .placed)

instance (later earlier : Read) : Decidable (later.MayFollow earlier) := by
  unfold Read.MayFollow
  infer_instance

/-- When a frame is sent, each of its reads may follow that of the frame before. -/
def framesInOrder : Transitions.Condition Stream Action
  | s, .settle number => s.closed = false → s.controllerOpen = true →
      ∀ tick ∈ s.ticks[number]?, ∀ reads ∈ tick.reads.mapM id, ∀ frame ∈ s.frames.getLast?,
        ∀ pair ∈ frame.reads.zip reads, pair.2.MayFollow pair.1
  | _, _ => True

/-! ### What has been read -/

/-- What a tick has of an order is a read of it. -/
def ReadIn (log : List Read) (order : TokenOrder) (entry : Option Read) : Prop :=
  ∀ read ∈ entry, read ∈ log ∧ read.order = order

/-- The stream remembers what it has read: orders only take legal steps between two reads, every
tick and every frame is about the orders of the token, and the frames move on. -/
structure Chronicled (decoded : Option CartToken) (s : Stream) : Prop where
  past : ∀ read ∈ s.log, read.time < s.log.length
  reached : ∀ read ∈ s.log, Reaches read.seen (stateOf (s.orders read.order.id))
  faithful : ∀ read ∈ s.log, read.Faithful
  ordered : ∀ earlier ∈ s.log, ∀ later ∈ s.log, earlier.order.id = later.order.id →
    earlier.time ≤ later.time → Reaches earlier.seen later.seen
  ticks : ∀ tick ∈ s.ticks, ∀ token ∈ decoded, List.Forall₂ (ReadIn s.log) token.o tick.reads
  frames : ∀ frame ∈ s.frames, ∃ reads, frame = frameOf decoded reads ∧
    ∀ token ∈ decoded, List.Forall₂ (fun order read ↦ ReadIn s.log order (some read)) token.o reads
  onward : (s.frames.filterMap Frame.status).Pairwise Onward

theorem ReadIn.append {order : TokenOrder} {entry : Option Read} (h : ReadIn log order entry)
    (read : Read) : ReadIn (log ++ [read]) order entry := by
  intro read' hread'
  obtain ⟨hmem, horder⟩ := h read' hread'
  exact ⟨List.mem_append_left [read] hmem, horder⟩

theorem forall₂_replicate_none (log : List Read) (orders : List TokenOrder) :
    List.Forall₂ (ReadIn log) orders (List.replicate orders.length none) := by
  induction orders with
  | nil => exact .nil
  | cons order rest ih => exact .cons nofun ih

theorem forall₂_set {orders : List TokenOrder} {entries : List (Option Read)} {index : ℕ}
    {order : TokenOrder} {entry : Option Read} (h : List.Forall₂ (ReadIn log) orders entries)
    (horder : orders[index]? = some order) (hentry : ReadIn log order entry) :
    List.Forall₂ (ReadIn log) orders (entries.set index entry) := by
  induction h generalizing index with
  | nil => cases horder
  | cons hhead htail ih =>
    cases index with
    | zero =>
      obtain rfl := Option.some.inj horder
      exact .cons hentry htail
    | succ index => exact .cons hhead (ih horder)

/-- The reads of a tick that has them all. -/
theorem map_some_of_mapM {entries : List (Option Read)} (h : entries.mapM id = some reads) :
    entries = reads.map some := by
  induction entries generalizing reads with
  | nil =>
    obtain rfl : [] = reads := Option.some.inj h
    rfl
  | cons entry rest ih =>
    rw [List.mapM_cons] at h
    obtain ⟨read, hread, h⟩ := Option.bind_eq_some_iff.mp h
    obtain ⟨later, hlater, h⟩ := Option.bind_eq_some_iff.mp h
    obtain rfl := Option.some.inj h
    rw [ih hlater, show entry = some read from hread]
    rfl

theorem chronicled_start : Chronicled decoded (stream decoded orders).start where
  past := nofun
  reached := nofun
  faithful := nofun
  ordered := nofun
  ticks tick htick token htoken := by
    obtain rfl : tick = ⟨List.replicate (Stream.orderCount decoded) none, true⟩ :=
      List.mem_singleton.mp htick
    obtain rfl : decoded = some token := htoken
    exact forall₂_replicate_none [] token.o
  frames := nofun
  onward := List.Pairwise.nil

/-- The orders have taken legal steps. -/
theorem Chronicled.move (h : Chronicled decoded s) {orders' : String → Option Order}
    (hmove : ∀ id, Reaches (stateOf (s.orders id)) (stateOf (orders' id))) :
    Chronicled decoded { s with orders := orders' } where
  past := h.past
  reached read hread := (h.reached read hread).trans (hmove read.order.id)
  faithful := h.faithful
  ordered := h.ordered
  ticks := h.ticks
  frames := h.frames
  onward := h.onward

/-- The ticks are of the same reads. -/
theorem Chronicled.same (h : Chronicled decoded s) (horders : s'.orders = s.orders)
    (hlog : s'.log = s.log) (hframes : s'.frames = s.frames)
    (hticks : ∀ tick ∈ s'.ticks, ∀ token ∈ decoded,
      List.Forall₂ (ReadIn s.log) token.o tick.reads) : Chronicled decoded s' := by
  constructor
  · rw [hlog]
    exact h.past
  · rw [hlog, horders]
    exact h.reached
  · rw [hlog]
    exact h.faithful
  · rw [hlog]
    exact h.ordered
  · rw [hlog]
    exact hticks
  · rw [hlog, hframes]
    exact h.frames
  · rw [hframes]
    exact h.onward

/-- An order is read. -/
theorem Chronicled.read (h : Chronicled decoded s) {read : Read} (hfaithful : read.Faithful)
    (hseen : read.seen = stateOf (s.orders read.order.id)) (htime : read.time = s.log.length)
    {ticks : List Tick} (hticks : ∀ tick ∈ ticks, ∀ token ∈ decoded,
      List.Forall₂ (ReadIn (s.log ++ [read])) token.o tick.reads) :
    Chronicled decoded { s with log := s.log ++ [read], ticks := ticks } where
  past read' hread' := by
    show read'.time < (s.log ++ [read]).length
    rw [List.length_append, List.length_singleton]
    rcases List.mem_append.mp hread' with hold | hnew
    · exact Nat.lt_succ_of_lt (h.past read' hold)
    · rw [List.mem_singleton.mp hnew, htime]
      exact Nat.lt_succ_self _
  reached read' hread' := by
    rcases List.mem_append.mp hread' with hold | hnew
    · exact h.reached read' hold
    · rw [List.mem_singleton.mp hnew, hseen]
      exact .refl
  faithful read' hread' := by
    rcases List.mem_append.mp hread' with hold | hnew
    · exact h.faithful read' hold
    · rw [List.mem_singleton.mp hnew]
      exact hfaithful
  ordered earlier hearlier later hlater hid hle := by
    rcases List.mem_append.mp hearlier with hold | hnew
    · rcases List.mem_append.mp hlater with hold' | hnew'
      · exact h.ordered earlier hold later hold' hid hle
      · rw [List.mem_singleton.mp hnew'] at hid ⊢
        rw [hseen, ← hid]
        exact h.reached earlier hold
    · rcases List.mem_append.mp hlater with hold' | hnew'
      · have hpast := h.past later hold'
        rw [List.mem_singleton.mp hnew, htime] at hle
        omega
      · rw [List.mem_singleton.mp hnew, List.mem_singleton.mp hnew']
        exact .refl
  ticks := hticks
  frames frame hframe := by
    obtain ⟨reads, rfl, hreads⟩ := h.frames frame hframe
    refine ⟨reads, rfl, fun token htoken ↦ ?_⟩
    exact (hreads token htoken).imp fun order entry hentry ↦ hentry.append read
  onward := h.onward

/-! ### The frame that is sent -/

/-- The states that a view shows are those that its reads show. -/
theorem states_eq {order : List TokenOrder} (hfaithful : ∀ read ∈ log, read.Faithful)
    (h : List.Forall₂ (fun order read ↦ ReadIn log order (some read)) order reads) :
    ((order.zipWith fetchOrder (reads.map Read.fetched)).map fun view ↦ view.order.state) =
      (reads.map Read.shown).map State.value := by
  induction h with
  | nil => rfl
  | cons hhead _ ih =>
    obtain ⟨hmem, rfl⟩ := hhead _ rfl
    rw [List.map_cons, List.map_cons, List.map_cons, ← ih, ← hfaithful _ hmem]
    rfl

theorem status_frameOf {token : CartToken} (hfaithful : ∀ read ∈ log, read.Faithful)
    (h : List.Forall₂ (fun order read ↦ ReadIn log order (some read)) token.o reads) :
    (frameOf (some token) reads).status =
      some (aggregateStatus ((reads.map Read.shown).map State.value)) := by
  rw [← states_eq hfaithful h]
  rfl

theorem reaches_of_placed (state : State) : Reaches .placed state := by
  have hconfirmed : Reaches .placed .confirmed := .single rfl
  have hpreparing : Reaches .placed .preparing := hconfirmed.tail rfl
  have hready : Reaches .placed .ready := hpreparing.tail rfl
  have hout : Reaches .placed .outForDelivery := hready.tail rfl
  cases state with
  | placed => exact .refl
  | confirmed => exact hconfirmed
  | preparing => exact hpreparing
  | ready => exact hready
  | outForDelivery => exact hout
  | delivered => exact hout.tail rfl
  | failed => exact .single rfl
  | cancelled => exact .single rfl

/-- What is shown of an order moves on when its reads are in order. -/
theorem Chronicled.shown (h : Chronicled decoded s) {earlier later : Read}
    (hearlier : earlier ∈ s.log) (hlater : later ∈ s.log) (hid : earlier.order = later.order)
    (hfollow : later.MayFollow earlier) : Reaches earlier.shown later.shown := by
  have hplaced : earlier.fetched.fails = true ∨ earlier.seen = .placed →
      earlier.shown = .placed := by
    intro hearlier
    unfold Read.shown
    split
    · rfl
    · rename_i hgiven
      exact hearlier.resolve_left hgiven
  by_cases hfails : later.fetched.fails = true
  · rw [hplaced (hfollow.2 hfails)]
    exact reaches_of_placed _
  · by_cases hfailed : earlier.fetched.fails = true
    · rw [hplaced (Or.inl hfailed)]
      exact reaches_of_placed _
    · unfold Read.shown
      rw [if_neg hfails, if_neg hfailed]
      exact h.ordered earlier hearlier later hlater (congrArg TokenOrder.id hid) hfollow.1

theorem Chronicled.forall₂_shown (h : Chronicled decoded s) {order : List TokenOrder}
    {reads' : List Read}
    (hreads : List.Forall₂ (fun order read ↦ ReadIn s.log order (some read)) order reads)
    (hreads' : List.Forall₂ (fun order read ↦ ReadIn s.log order (some read)) order reads')
    (hfollow : ∀ pair ∈ reads.zip reads', pair.2.MayFollow pair.1) :
    List.Forall₂ Reaches (reads.map Read.shown) (reads'.map Read.shown) := by
  induction hreads generalizing reads' with
  | nil =>
    cases hreads'
    exact .nil
  | cons hhead _ ih =>
    cases hreads' with
    | cons hhead' htail' =>
      obtain ⟨hmem, horder⟩ := hhead _ rfl
      obtain ⟨hmem', horder'⟩ := hhead' _ rfl
      refine .cons (h.shown hmem hmem' (horder.trans horder'.symm) ?_)
        (ih htail' fun pair hpair ↦ ?_)
      · exact hfollow (_, _) List.mem_cons_self
      · exact hfollow pair (List.mem_cons_of_mem _ hpair)

/-- A status that may follow the last one may follow all of them. -/
theorem pairwise_concat {statuses : List String} {status : String}
    (h : statuses.Pairwise Onward) (hlast : ∀ last ∈ statuses.getLast?, Onward last status) :
    (statuses ++ [status]).Pairwise Onward := by
  rw [List.pairwise_append]
  refine ⟨h, List.pairwise_singleton _ _, fun earlier hearlier other hother ↦ ?_⟩
  rw [List.mem_singleton.mp hother]
  rcases List.eq_nil_or_concat' statuses with rfl | ⟨init, last, rfl⟩
  · cases hearlier
  · have hfollow : Onward last status := hlast last List.getLast?_concat
    rcases List.mem_append.mp hearlier with hinit | hsame
    · exact ((List.pairwise_append.mp h).2.2 earlier hinit last List.mem_cons_self).trans hfollow
    · rw [List.mem_singleton.mp hsame]
      exact hfollow

/-- A frame whose reads may follow those of the last one is sent. -/
theorem Chronicled.send (h : Chronicled decoded s)
    (hreads : ∀ token ∈ decoded,
      List.Forall₂ (fun order read ↦ ReadIn s.log order (some read)) token.o reads)
    (hfollow : ∀ frame ∈ s.frames.getLast?, ∀ pair ∈ frame.reads.zip reads,
      pair.2.MayFollow pair.1) :
    Chronicled decoded { s with frames := s.frames ++ [frameOf decoded reads] } where
  past := h.past
  reached := h.reached
  faithful := h.faithful
  ordered := h.ordered
  ticks := h.ticks
  frames frame hframe := by
    rcases List.mem_append.mp hframe with hold | hnew
    · exact h.frames frame hold
    · exact ⟨reads, List.mem_singleton.mp hnew, hreads⟩
  onward := by
    show ((s.frames ++ [frameOf decoded reads]).filterMap Frame.status).Pairwise Onward
    rw [List.filterMap_append]
    cases decoded with
    | none =>
      rw [show [frameOf none reads].filterMap Frame.status = [] from rfl, List.append_nil]
      exact h.onward
    | some token =>
      rw [List.filterMap_cons_some (status_frameOf h.faithful (hreads token rfl)),
        List.filterMap_nil]
      refine pairwise_concat h.onward fun status hstatus ↦ ?_
      -- The last status is that of the last frame, since every frame of a token has one.
      rcases List.eq_nil_or_concat' s.frames with hnil | ⟨init, last, hframes⟩
      · rw [hnil] at hstatus
        cases hstatus
      · have hmem : last ∈ s.frames := by
          rw [hframes]
          exact List.mem_append_right init List.mem_cons_self
        obtain ⟨shown, rfl, hshown⟩ := h.frames last hmem
        have hlast := status_frameOf h.faithful (hshown token rfl)
        rw [hframes, List.filterMap_append, List.filterMap_cons_some hlast, List.filterMap_nil,
          List.getLast?_concat] at hstatus
        obtain rfl := Option.some.inj hstatus
        refine onward_aggregateStatus (h.forall₂_shown (hshown token rfl) (hreads token rfl) ?_)
        refine hfollow (frameOf (some token) shown) ?_
        rw [hframes]
        exact List.getLast?_concat

/-- A running tick that has all of its reads ends. -/
theorem Chronicled.settle (h : Chronicled decoded s) (hinOrder : framesInOrder s (.settle number))
    (hact : s.act decoded (.settle number) = some s') : Chronicled decoded s' := by
  obtain ⟨tick, reads, htick, -, hreads, rfl⟩ := act_settle hact
  have hmem : tick ∈ s.ticks := List.mem_of_getElem? htick
  have hentries := map_some_of_mapM hreads
  obtain ⟨frames, seenAt, hframes, hpresent⟩ := present_cases decoded s reads
  have hsent : Chronicled decoded { s with frames := frames } := by
    rcases hframes with rfl | ⟨hclosed, hopen, rfl⟩
    · exact h
    · refine h.send (fun token htoken ↦ ?_) (hinOrder hclosed hopen tick htick reads hreads)
      have htickReads := h.ticks tick hmem token htoken
      rw [hentries, List.forall₂_map_right_iff] at htickReads
      exact htickReads
  have hticks : ∀ tick' ∈ s.ticks.set number { tick with running := false },
      ∀ token ∈ decoded, List.Forall₂ (ReadIn s.log) token.o tick'.reads := by
    intro tick' htick'
    rcases List.mem_or_eq_of_mem_set htick' with hold | rfl
    · exact h.ticks tick' hold
    · exact h.ticks tick hmem
  rcases hpresent with hpresent | ⟨hpresent, -⟩
  · rw [hpresent]
    exact hsent.same rfl rfl rfl hticks
  · obtain ⟨timer, controllerOpen, hclose⟩ :=
      close_eq { s with frames := frames, terminalSeenAt := seenAt }
    rw [hpresent, hclose]
    exact hsent.same rfl rfl rfl hticks

theorem Chronicled.act (h : Chronicled decoded s) (hinOrder : framesInOrder s action)
    (hact : s.act decoded action = some s') : Chronicled decoded s' := by
  cases action with
  | seed id order =>
    obtain ⟨orders', hmove, rfl⟩ := act_seed hact
    exact h.move hmove
  | advance id target cause attempt =>
    obtain ⟨orders', hmove, rfl⟩ := act_advance hact
    exact h.move hmove
  | fetch number index failed =>
    obtain ⟨token, order, tick, htoken, horder, htick, -, -, hfails, rfl⟩ := read_cases hact
    have hmem : tick ∈ s.ticks := List.mem_of_getElem? htick
    refine h.read (faithful_read hfails _ _) rfl rfl fun tick' htick' token' htoken' ↦ ?_
    obtain rfl : token' = token := Option.some.inj (htoken'.symm.trans htoken)
    rcases List.mem_or_eq_of_mem_set htick' with hold | rfl
    · exact (h.ticks tick' hold token' htoken').imp fun _ _ hread ↦ hread.append _
    · refine forall₂_set ((h.ticks tick hmem token' htoken').imp fun _ _ hread ↦ hread.append _)
        horder ?_
      intro read hread
      obtain rfl := Option.some.inj hread
      exact ⟨List.mem_append_right s.log List.mem_cons_self, rfl⟩
  | settle number => exact h.settle hinOrder hact
  | throw number =>
    obtain ⟨tick, htick, -, rfl⟩ := act_throw hact
    refine h.same rfl rfl rfl fun tick' htick' ↦ ?_
    rcases List.mem_or_eq_of_mem_set htick' with hold | rfl
    · exact h.ticks tick' hold
    · exact h.ticks tick (List.mem_of_getElem? htick)
  | fire =>
    obtain ⟨-, rfl⟩ := act_fire hact
    refine h.same rfl rfl rfl fun tick' htick' token htoken ↦ ?_
    rcases List.mem_append.mp htick' with hold | hnew
    · exact h.ticks tick' hold token htoken
    · rw [List.mem_singleton.mp hnew, Stream.orderCount, show decoded = some token from htoken]
      exact forall₂_replicate_none s.log token.o
  | abort =>
    obtain rfl := Option.some.inj hact
    obtain ⟨timer, controllerOpen, hclose⟩ := close_eq s
    rw [hclose]
    exact h.same rfl rfl rfl h.ticks
  | cancel =>
    obtain rfl := Option.some.inj hact
    exact h.same rfl rfl rfl h.ticks
  | wait milliseconds =>
    obtain rfl := Option.some.inj hact
    exact h.same rfl rfl rfl h.ticks

/-- **The live view moves on**: in every run in which the reads of each frame that is sent may
follow those of the frame before. -/
theorem viewMovesOn (hs : (stream decoded orders).Reachable framesInOrder s) :
    (s.frames.filterMap Frame.status).Pairwise Onward :=
  (Transitions.invariant chronicled_start (fun _ _ _ h hinOrder hact ↦ h.act hinOrder hact)
    hs).onward

instance (s : Stream) (action : Action) : Decidable (framesInOrder s action) :=
  match action with
  | .settle number => inferInstanceAs (Decidable (s.closed = false → s.controllerOpen = true →
      ∀ tick ∈ s.ticks[number]?, ∀ reads ∈ tick.reads.mapM id, ∀ frame ∈ s.frames.getLast?,
        ∀ pair ∈ frame.reads.zip reads, pair.2.MayFollow pair.1))
  | .seed _ _ | .advance _ _ _ _ | .fetch _ _ _ | .throw _ | .fire | .abort | .cancel | .wait _ =>
    .isTrue trivial

def placedOrder (restaurantId : String) : Order :=
  ⟨.placed, some "guest", some restaurantId, [⟨"Dal", 2, 900⟩], 1800, []⟩

/-- Both orders are confirmed, which the first tick sees. -/
def confirmedCart : List Action :=
  [.seed "o1" (placedOrder "spice-route"), .advance "o1" .confirmed (some "accepted") 1,
    .seed "o2" (placedOrder "green-bowl"), .advance "o2" .confirmed (some "accepted") 1,
    .fetch 0 0 none, .fetch 0 1 none, .settle 0]

/-- The next tick begins before one order fails, and ends. -/
def failedCart : List Action :=
  confirmedCart ++ [.fire, .fetch 1 0 none, .advance "o2" .failed (some "kitchen closed") 5,
    .fetch 1 1 none, .settle 1]

def failedStream : Stream :=
  ((stream (some cart) unseeded).runMeeting framesInOrder
    (stream (some cart) unseeded).start failedCart).get (by decide +kernel)

theorem viewMovesOn_failedStream :
    (failedStream.frames.filterMap Frame.status).Pairwise Onward ∧
      failedStream.frames.filterMap Frame.status = ["confirmed", "failed"] :=
  ⟨viewMovesOn (Transitions.reachable_of_runMeeting (Option.some_get _).symm),
    by decide +kernel⟩

/-- The orchestrator answers one read of the next tick with an internal error. -/
def flickeringStream : Stream :=
  ((stream (some cart) unseeded).run (stream (some cart) unseeded).start
    (confirmedCart ++ [.fire, .fetch 1 0 none, .fetch 1 1 (some (.response 503 none)),
      .settle 1])).get (by decide +kernel)

/-- The view of the confirmed orders steps back to `placed`. -/
theorem not_viewMovesOn_flickeringStream :
    (stream (some cart) unseeded).Reachable Transitions.anyAction flickeringStream ∧
      ¬ (flickeringStream.frames.filterMap Frame.status).Pairwise Onward :=
  ⟨Transitions.reachable_of_run (Option.some_get _).symm, by decide +kernel⟩

/-- Without any failure, a tick that ends after a later one takes the view back as well. -/
example : ((stream (some cart) unseeded).run (stream (some cart) unseeded).start
    ([.fetch 0 0 none, .fetch 0 1 none, .settle 0, .fire, .fetch 1 0 none, .fetch 1 1 none,
      .seed "o1" (placedOrder "spice-route"), .advance "o1" .cancelled none 0,
      .seed "o2" (placedOrder "green-bowl"), .advance "o2" .cancelled none 0,
      .fire, .fetch 2 0 none, .fetch 2 1 none, .settle 2, .settle 1])).any fun s ↦
      s.frames.filterMap Frame.status = ["placed", "cancelled", "placed"] := by
  decide +kernel

end DinnerRush.CustomerWeb
