import DinnerRush.CustomerWeb.Stream

/-!
# A closed stream stops

When `close` runs before the interval has been created, it throws after it has set `closed`: the
controller stays open, and the interval is then created and never cleared. In every run in which it
runs only later, a closed stream has ended its controller and its interval, and no tick starts any
more (`stopsWhenClosed`).
-/

set_option autoImplicit false
set_option relaxedAutoImplicit false

namespace DinnerRush.CustomerWeb

open Concurrency

variable {decoded : Option CartToken} {orders : String → Option Order} {s s' : Stream}
  {number : ℕ} {tick : Tick} {reads : List Read} {action : Action}

/-! ### `close` -/

theorem close_of_closed (h : s.closed = true) : s.close = s := by
  unfold Stream.close
  rw [if_pos h]

theorem close_of_open (h : s.closed = false) (htimer : s.timer ≠ .uninitialised) :
    s.close = { s with closed := true, timer := .cleared, controllerOpen := false } := by
  unfold Stream.close
  rw [h, if_neg Bool.false_ne_true]
  split
  · rename_i hopening
    exact absurd hopening htimer
  · rfl

/-! ### Closing after the interval has been created -/

/-- `close` runs only when the interval has been created: the client does not abort before, and the
token can be read. -/
def closesLate (decoded : Option CartToken) : Transitions.Condition Stream Action
  | s, .abort => s.timer ≠ .uninitialised
  | s, .settle _ => decoded = none → s.timer ≠ .uninitialised
  | _, _ => True

/-- What is claimed of a stream once `close` was invoked. -/
structure Stopped (decoded : Option CartToken) (orders : String → Option Order)
    (condition : Transitions.Condition Stream Action) (s : Stream) : Prop where
  controller : s.controllerOpen = false
  interval : s.timer ≠ .running
  /-- However it goes on, the interval is not created, no frame is enqueued and no tick starts. -/
  silent : ∀ s', Relation.ReflTransGen ((stream decoded orders).Step condition) s s' →
    s'.timer ≠ .running ∧ s'.frames = s.frames ∧ s'.ticks.length = s.ticks.length

/-- The stream is in order: only the first tick runs before the interval is created. -/
structure Orderly (s : Stream) : Prop where
  started : 0 < s.ticks.length
  opening : s.timer = .uninitialised →
    s.closed = false ∧ s.terminalSeenAt = none ∧ s.ticks.length = 1
  first : ∀ tick, s.ticks[0]? = some tick → tick.running = true → s.timer = .uninitialised
  ended : s.closed = true → s.controllerOpen = false ∧ s.timer = .cleared

theorem orderly_start : Orderly (stream decoded orders).start where
  started := Nat.one_pos
  opening _ := ⟨rfl, rfl, rfl⟩
  first _ _ _ := rfl
  ended := nofun

/-- Replacing a tick by one that runs no longer than it. -/
theorem Orderly.first_set (h : Orderly s) {tick' : Tick} (htick : s.ticks[number]? = some tick)
    (hrunning : tick'.running = true → tick.running = true) :
    ∀ tick'', (s.ticks.set number tick')[0]? = some tick'' → tick''.running = true →
      s.timer = .uninitialised := by
  intro tick'' hget hrunning'
  by_cases hzero : number = 0
  · subst hzero
    rw [List.getElem?_set_self h.started] at hget
    obtain rfl := Option.some.inj hget
    exact h.first tick htick (hrunning hrunning')
  · rw [List.getElem?_set_ne hzero] at hget
    exact h.first tick'' hget hrunning'

/-- While the stream opens, the tick that runs is the first one. -/
theorem Orderly.number_eq (h : Orderly s) (htimer : s.timer = .uninitialised)
    (htick : s.ticks[number]? = some tick) : number = 0 := by
  obtain ⟨hlt, -⟩ := List.getElem?_eq_some_iff.mp htick
  have hone := (h.opening htimer).2.2
  omega

/-- The end of the first tick, if it has not closed the stream. -/
theorem orderly_finish_first (hstarted : 0 < s.ticks.length) (hopen : s.closed = false) :
    Orderly (s.finish 0 tick) where
  started := by
    unfold Stream.finish
    rw [List.length_set]
    exact hstarted
  opening := nofun
  first tick' hget hrunning := by
    unfold Stream.finish at hget
    rw [List.getElem?_set_self hstarted] at hget
    obtain rfl := Option.some.inj hget
    cases hrunning
  ended hclosed := by
    rw [show s.closed = true from hclosed] at hopen
    cases hopen

theorem Orderly.finish (h : Orderly s) (htick : s.ticks[number]? = some tick)
    (hlater : number ≠ 0) : Orderly (s.finish number tick) := by
  unfold Stream.finish
  rw [if_neg hlater]
  refine ⟨?_, fun hopening ↦ ?_, h.first_set htick nofun, h.ended⟩
  · rw [List.length_set]
    exact h.started
  · rw [List.length_set]
    exact h.opening hopening

theorem Orderly.close (h : Orderly s) (htimer : s.timer ≠ .uninitialised) : Orderly s.close := by
  cases hclosed : s.closed with
  | true =>
    rw [close_of_closed hclosed]
    exact h
  | false =>
    rw [close_of_open hclosed htimer]
    refine ⟨h.started, nofun, fun tick hget hrunning ↦ ?_, fun _ ↦ ⟨rfl, rfl⟩⟩
    exact absurd (h.first tick hget hrunning) htimer

/-- A frame is sent, or a terminal status noted, once the interval has been created. -/
theorem Orderly.sent (h : Orderly s) (htimer : s.timer ≠ .uninitialised) (frames : List Frame)
    (seenAt : Option ℕ) : Orderly { s with frames := frames, terminalSeenAt := seenAt } where
  started := h.started
  opening hopening := absurd hopening htimer
  first := h.first
  ended := h.ended

/-- The step relation keeps a stream in order. -/
theorem Orderly.act (h : Orderly s) (hlate : closesLate decoded s action)
    (hact : s.act decoded action = some s') : Orderly s' := by
  cases action with
  | seed id order =>
    obtain ⟨orders', -, rfl⟩ := act_seed hact
    exact ⟨h.started, h.opening, h.first, h.ended⟩
  | advance id target cause attempt =>
    obtain ⟨orders', -, rfl⟩ := act_advance hact
    exact ⟨h.started, h.opening, h.first, h.ended⟩
  | fetch number index failed =>
    obtain ⟨token, order, tick, -, -, htick, hrunning, -, -, rfl⟩ := read_cases hact
    refine ⟨?_, fun htimer ↦ ?_, h.first_set htick fun _ ↦ hrunning, h.ended⟩
    · rw [List.length_set]
      exact h.started
    · rw [List.length_set]
      exact h.opening htimer
  | settle number =>
    obtain ⟨tick, reads, htick, hrunning, -, rfl⟩ := act_settle hact
    obtain ⟨frames, seenAt, -, hpresent⟩ := present_cases decoded s reads
    by_cases hzero : number = 0
    · -- The first tick cannot close the stream.
      have htimer : s.timer = .uninitialised := by
        rw [hzero] at htick
        exact h.first tick htick hrunning
      obtain ⟨hopen, hunseen, hone⟩ := h.opening htimer
      rcases hpresent with hpresent | ⟨-, hnone | hseen⟩
      · rw [hpresent, hzero]
        exact orderly_finish_first h.started hopen
      · exact absurd htimer (hlate hnone)
      · exact absurd hunseen hseen
    · have htimer : s.timer ≠ .uninitialised := fun htimer ↦ hzero (h.number_eq htimer htick)
      have hsent := h.sent htimer frames seenAt
      rcases hpresent with hpresent | ⟨hpresent, -⟩
      · rw [hpresent]
        exact hsent.finish htick hzero
      · rw [hpresent]
        refine (hsent.close htimer).finish ?_ hzero
        obtain ⟨timer, controllerOpen, hclose⟩ :=
          close_eq { s with frames := frames, terminalSeenAt := seenAt }
        rw [hclose]
        exact htick
  | throw number =>
    obtain ⟨tick, htick, hrunning, rfl⟩ := act_throw hact
    by_cases hzero : number = 0
    · rw [hzero] at htick ⊢
      exact orderly_finish_first h.started (h.opening (h.first tick htick hrunning)).1
    · exact h.finish htick hzero
  | fire =>
    obtain ⟨htimer, rfl⟩ := act_fire hact
    have hgoing : s.timer ≠ .uninitialised := by
      rw [htimer]
      exact nofun
    refine ⟨?_, fun hopening ↦ absurd hopening hgoing, fun tick hget hrunning ↦ ?_, h.ended⟩
    · unfold Stream.startTick
      rw [List.length_append]
      exact Nat.add_pos_left h.started _
    · unfold Stream.startTick at hget
      rw [List.getElem?_append_left h.started] at hget
      exact h.first tick hget hrunning
  | abort =>
    obtain rfl := Option.some.inj hact
    exact h.close hlate
  | cancel =>
    obtain rfl := Option.some.inj hact
    exact ⟨h.started, h.opening, h.first, fun hclosed ↦ ⟨rfl, (h.ended hclosed).2⟩⟩
  | wait milliseconds =>
    obtain rfl := Option.some.inj hact
    exact ⟨h.started, h.opening, h.first, h.ended⟩

/-- A closed stream stays as it is, but for what its running ticks still read. -/
theorem Orderly.closed_act (h : Orderly s) (hclosed : s.closed = true)
    (hact : s.act decoded action = some s') :
    s'.closed = true ∧ s'.frames = s.frames ∧ s'.ticks.length = s.ticks.length := by
  cases action with
  | seed id order =>
    obtain ⟨orders', -, rfl⟩ := act_seed hact
    exact ⟨hclosed, rfl, rfl⟩
  | advance id target cause attempt =>
    obtain ⟨orders', -, rfl⟩ := act_advance hact
    exact ⟨hclosed, rfl, rfl⟩
  | fetch number index failed =>
    obtain ⟨token, order, tick, -, -, -, -, -, -, rfl⟩ := read_cases hact
    exact ⟨hclosed, rfl, List.length_set⟩
  | settle number =>
    obtain ⟨tick, reads, -, -, -, rfl⟩ := act_settle hact
    obtain ⟨frames, seenAt, hframes, hpresent⟩ := present_cases decoded s reads
    have hsame : s.present decoded reads =
        { s with frames := frames, terminalSeenAt := seenAt } := by
      rcases hpresent with hpresent | ⟨hpresent, -⟩
      · exact hpresent
      · rw [hpresent]
        exact close_of_closed hclosed
    have hunsent : frames = s.frames := by
      rcases hframes with hframes | ⟨hopen, -⟩
      · exact hframes
      · rw [hclosed] at hopen
        cases hopen
    rw [hsame]
    exact ⟨hclosed, hunsent, List.length_set⟩
  | throw number =>
    obtain ⟨tick, -, -, rfl⟩ := act_throw hact
    exact ⟨hclosed, rfl, List.length_set⟩
  | fire =>
    obtain ⟨htimer, -⟩ := act_fire hact
    rw [(h.ended hclosed).2] at htimer
    cases htimer
  | abort =>
    obtain rfl := Option.some.inj hact
    rw [close_of_closed hclosed]
    exact ⟨hclosed, rfl, rfl⟩
  | cancel =>
    obtain rfl := Option.some.inj hact
    exact ⟨hclosed, rfl, rfl⟩
  | wait milliseconds =>
    obtain rfl := Option.some.inj hact
    exact ⟨hclosed, rfl, rfl⟩

theorem orderly_of_reachable (hs : (stream decoded orders).Reachable (closesLate decoded) s) :
    Orderly s :=
  Transitions.invariant orderly_start (fun _ _ _ h hlate hact ↦ h.act hlate hact) hs

theorem Orderly.closed_run (h : Orderly s) (hclosed : s.closed = true)
    (hrun : Relation.ReflTransGen ((stream decoded orders).Step (closesLate decoded)) s s') :
    Orderly s' ∧ s'.closed = true ∧ s'.frames = s.frames ∧ s'.ticks.length = s.ticks.length := by
  induction hrun with
  | refl => exact ⟨h, hclosed, rfl, rfl⟩
  | tail _ hlast ih =>
    obtain ⟨action, hlate, hact⟩ := hlast
    obtain ⟨horderly, hmiddle, hframes, hticks⟩ := ih
    obtain ⟨hclosed', hframes', hticks'⟩ := horderly.closed_act hmiddle hact
    exact ⟨horderly.act hlate hact, hclosed', hframes'.trans hframes, hticks'.trans hticks⟩

/-- **A closed stream stops**: in every run in which `close` runs only after the interval has been
created. -/
theorem stopsWhenClosed (hs : (stream decoded orders).Reachable (closesLate decoded) s)
    (hclosed : s.closed = true) : Stopped decoded orders (closesLate decoded) s := by
  have horderly := orderly_of_reachable hs
  obtain ⟨hcontroller, htimer⟩ := horderly.ended hclosed
  refine ⟨hcontroller, by rw [htimer]; exact nofun, fun s' hrun ↦ ?_⟩
  obtain ⟨horderly', hclosed', hframes, hticks⟩ := horderly.closed_run hclosed hrun
  refine ⟨?_, hframes, hticks⟩
  rw [(horderly'.ended hclosed').2]
  exact nofun

instance (s : Stream) (action : Action) : Decidable (closesLate decoded s action) :=
  match action with
  | .abort => inferInstanceAs (Decidable (s.timer ≠ .uninitialised))
  | .settle _ => inferInstanceAs (Decidable (decoded = none → s.timer ≠ .uninitialised))
  | .seed _ _ | .advance _ _ _ _ | .fetch _ _ _ | .throw _ | .fire | .cancel | .wait _ =>
    .isTrue trivial

/-- The client aborts after the first tick. -/
def left : List Action := [.fetch 0 1 none, .fetch 0 0 none, .settle 0, .fire, .abort]

def leftStream : Stream :=
  ((stream (some cart) unseeded).runMeeting (closesLate (some cart))
    (stream (some cart) unseeded).start left).get (by decide +kernel)

theorem stopsWhenClosed_leftStream :
    Stopped (some cart) unseeded (closesLate (some cart)) leftStream ∧
      leftStream.ticks.length = 2 :=
  ⟨stopsWhenClosed (Transitions.reachable_of_runMeeting (Option.some_get _).symm)
    (by decide +kernel), by decide +kernel⟩

/-- The token cannot be read, so the first tick closes the stream. -/
def unreadableStream : Stream :=
  ((stream none unseeded).run (stream none unseeded).start [.settle 0]).get (by decide +kernel)

/-- The stream of an unreadable token is closed with its interval running. -/
theorem not_stopsWhenClosed_unreadableStream :
    (stream none unseeded).Reachable Transitions.anyAction unreadableStream ∧
      unreadableStream.closed = true ∧
      ¬ Stopped none unseeded Transitions.anyAction unreadableStream := by
  refine ⟨Transitions.reachable_of_run (Option.some_get _).symm, by decide +kernel,
    fun hstopped ↦ hstopped.interval ?_⟩
  decide +kernel

/-- So is that of a client which aborts during the first tick. -/
example : ((stream (some cart) unseeded).run (stream (some cart) unseeded).start
    [.abort, .fetch 0 0 none, .fetch 0 1 none, .settle 0, .fire]).any fun s ↦
      s.closed && s.controllerOpen && decide (s.ticks.length = 2) := by
  decide +kernel

end DinnerRush.CustomerWeb
