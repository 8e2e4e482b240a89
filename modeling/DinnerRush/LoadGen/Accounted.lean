import DinnerRush.LoadGen.Backpressure
import DinnerRush.LoadGen.Traffic

/-!
# The traffic is accounted for

Whatever POSTs are lost, answered late or resent, what the generator counts as sent is what
ingestion holds: each key whose order was answered has exactly one order (`Accounted.once`), so the
orders under these keys are no more than what was sent, and no fewer than that less the resends.
What ingestion has stored for the generator and the generator does not count as sent is among its
errors and the requests in flight.
-/

set_option autoImplicit false
set_option relaxedAutoImplicit false

namespace DinnerRush.LoadGen

open Concurrency

namespace Traffic

variable (s : Traffic)

/-- The orders that ingestion holds. -/
def orders : List Ingestion.OrderRow := s.ingestion.shared.db.committed.orders

/-- The keys of the orders that are counted as sent. -/
def sentKeys : List String := (s.senders.filter Sender.isSent).map (·.key.val)

/-- The orders of ingestion under these keys. -/
def placed : List Ingestion.OrderRow := s.orders.filter fun row ↦ row.idempotencyKey ∈ s.sentKeys

/-- The orders of ingestion that the requests of the generator have written. -/
def written : List Ingestion.OrderRow :=
  s.orders.filter fun row ↦ s.senders.any fun sender ↦ sender.thread = some row.xmin

/-- The uuids of the orders that were made under a new key. -/
def uuids : List String := (s.senders.filter (!·.resent)).map (·.key.val)

/-- The resends that are counted as sent. -/
def resends : ℕ := s.senders.countP fun sender ↦ sender.resent && sender.isSent

end Traffic

/-- How the counts of the generator and the orders of ingestion are related. -/
structure Accounted (cfg : TrafficConfig) (s : Traffic) : Prop where
  /-- Each order that was made is counted, in flight, or waits for the semaphore. -/
  made : s.senders.length = s.gen.sent + s.gen.errors + s.gen.inFlight + s.waiting
  waiting_le : s.waiting ≤ s.gen.waiting
  inFlight_le : s.gen.inFlight ≤ cfg.maxInflight
  recentKeys_le : s.recentKeys.length ≤ 200
  /-- A resend is under the key of an order that was made before. -/
  repeats : ∀ sender ∈ s.senders, sender.resent = true → sender.key.val ∈ s.uuids
  /-- For each order that is counted as sent there is exactly one of its key. -/
  once : ∀ sender ∈ s.senders, sender.isSent = true →
    (s.orders.filter fun row ↦ row.idempotencyKey = sender.key.val).length = 1
  /-- What was written for the generator is what one of its requests has asked for. -/
  asked : ∀ row ∈ s.written, ∃ sender ∈ s.senders, sender.thread = some row.xmin ∧
    Ingestion.OrderOf sender.request row
  written_le : s.written.length ≤ s.gen.sent + s.gen.errors + s.gen.inFlight
  placed_le : s.placed.length ≤ s.gen.sent
  sent_le : s.uuids.Nodup → s.gen.sent ≤ s.placed.length + s.resends
  /-- Without a rate of duplicates no order is a resend, sent or not. -/
  never : cfg.dupRate ≤ 0 → ∀ sender ∈ s.senders, sender.resent = false

/-! ### The counts -/

/-- The counts of the generator are those of its tasks, and the tasks that have not run yet wait
too. -/
structure Traffic.Tallied (cfg : TrafficConfig) (s : Traffic) : Prop where
  guarded : s.gen.Guarded cfg.toConfig
  waiting : s.waiting ≤ s.gen.waiting
  inFlight : s.senders.countP Sender.isPosting = s.gen.inFlight
  sent : s.senders.countP Sender.isSent = s.gen.sent
  errors : s.senders.countP Sender.isError = s.gen.errors

section Tallied

variable {cfg : TrafficConfig} {s s' : Traffic}

/-- A task is in one of its phases. -/
theorem length_senders (senders : List Sender) : senders.length =
    senders.countP Sender.isSent + senders.countP Sender.isError +
      senders.countP Sender.isPosting + senders.countP Sender.isWaiting := by
  induction senders with
  | nil => rfl
  | cons sender rest ih =>
    have hphase : (if sender.isSent then 1 else 0) + (if sender.isError then 1 else 0) +
        (if sender.isPosting then 1 else 0) + (if sender.isWaiting then 1 else 0) = 1 := by
      unfold Sender.isSent Sender.isError Sender.isPosting Sender.isWaiting
      rcases sender.phase with _ | _ | _ | code
      · rfl
      · rfl
      · rfl
      · by_cases hcode : code < 300 <;> simp [hcode]
    simp only [List.length_cons, List.countP_cons]
    omega

/-- A task is counted by its status. -/
theorem finish_counts (gen : Generator) (sender : Sender) (statusCode : Option ℕ) :
    (gen.finish statusCode).sent =
        gen.sent + (if { sender with phase := .ended statusCode }.isSent then 1 else 0) ∧
      (gen.finish statusCode).errors =
        gen.errors + (if { sender with phase := .ended statusCode }.isError then 1 else 0) := by
  rcases statusCode with _ | code
  · exact ⟨rfl, rfl⟩
  · by_cases hcode : code < 300 <;> simp [Generator.finish, Sender.isSent, Sender.isError, hcode]

theorem Traffic.tallied_start (cfg : TrafficConfig) : (traffic cfg).start.Tallied cfg where
  guarded := guarded_start cfg.toConfig
  waiting := Nat.zero_le _
  inFlight := by
    simp only [traffic, Generator.start]
    split <;> rfl
  sent := by
    simp only [traffic, Generator.start]
    split <;> rfl
  errors := by
    simp only [traffic, Generator.start]
    split <;> rfl

theorem Traffic.Tallied.dispatch (h : s.Tallied cfg) {action : Traffic.Action}
    (haction : (∃ command, action = .command command) ∨ ∃ dt, action = .tick dt)
    (hact : s.act cfg action = some s') : s'.Tallied cfg := by
  obtain ⟨gen, rfl, hmore, hflight, hsem, hsent, herrors⟩ := Traffic.act_dispatch haction hact
  constructor
  · show gen.sem + gen.inFlight = cfg.maxInflight
    rw [hsem, hflight]
    exact h.guarded
  · exact h.waiting.trans hmore
  · exact h.inFlight.trans hflight.symm
  · exact h.sent.trans hsent.symm
  · exact h.errors.trans herrors.symm

theorem Traffic.Tallied.make (h : s.Tallied cfg) {draw : Draw}
    (hact : s.act cfg (.make draw) = some s') : s'.Tallied cfg := by
  obtain ⟨hlt, rfl⟩ := Traffic.act_make hact
  constructor
  · exact h.guarded
  · show List.countP _ (s.senders ++ _) ≤ _
    rw [List.countP_append]
    exact hlt
  · show List.countP _ (s.senders ++ _) = _
    rw [List.countP_append]
    exact h.inFlight
  · show List.countP _ (s.senders ++ _) = _
    rw [List.countP_append]
    exact h.sent
  · show List.countP _ (s.senders ++ _) = _
    rw [List.countP_append]
    exact h.errors

theorem Traffic.Tallied.acquire (h : s.Tallied cfg) {index : ℕ}
    (hact : s.act cfg (.acquire index) = some s') : s'.Tallied cfg := by
  obtain ⟨sender, hsender, hphase, hcreated, hsem, rfl⟩ := Traffic.act_acquire hact
  have hset (p : Sender → Bool) :=
    Table.countP_set { sender with phase := .posting } p hsender
  have hwaits : sender.isWaiting = true := by rw [Sender.isWaiting, hphase]; rfl
  have hposts : sender.isPosting = false := by rw [Sender.isPosting, hphase]; rfl
  have hsent : sender.isSent = false := by rw [Sender.isSent, hphase]
  have herror : sender.isError = false := by rw [Sender.isError, hphase]
  have hguarded : s.gen.sem + s.gen.inFlight = cfg.maxInflight := h.guarded
  constructor
  · show s.gen.sem - 1 + (s.gen.inFlight + 1) = cfg.maxInflight
    omega
  · have hcount := hset Sender.isWaiting
    rw [hwaits] at hcount
    exact Nat.le_sub_of_add_le (hcount.trans_le h.waiting)
  · have hcount := hset Sender.isPosting
    rw [hposts] at hcount
    exact hcount.trans (congrArg (· + 1) h.inFlight)
  · have hcount := hset Sender.isSent
    rw [hsent] at hcount
    exact hcount.trans h.sent
  · have hcount := hset Sender.isError
    rw [herror] at hcount
    exact hcount.trans h.errors

theorem Traffic.Tallied.settle (h : s.Tallied cfg) {action : Traffic.Action} {index : ℕ}
    (haction : action = .answer index ∨ action = .fail index)
    (hact : s.act cfg action = some s') : s'.Tallied cfg := by
  obtain ⟨sender, statusCode, hsender, hphase, hflight, -, rfl⟩ := Traffic.act_settle haction hact
  have hset (p : Sender → Bool) :=
    Table.countP_set { sender with phase := .ended statusCode } p hsender
  have hwaits : sender.isWaiting = false := by rw [Sender.isWaiting, hphase]; rfl
  have hposts : sender.isPosting = true := by rw [Sender.isPosting, hphase]; rfl
  have hnotSent : sender.isSent = false := by rw [Sender.isSent, hphase]
  have hnoError : sender.isError = false := by rw [Sender.isError, hphase]
  have hguarded : s.gen.sem + s.gen.inFlight = cfg.maxInflight := h.guarded
  obtain ⟨sent, errors, -, hfinish⟩ := s.gen.finish_eq statusCode
  obtain ⟨hsent, herrors⟩ := finish_counts s.gen sender statusCode
  constructor
  · show (s.gen.finish statusCode).sem + (s.gen.finish statusCode).inFlight = cfg.maxInflight
    rw [hfinish]
    show s.gen.sem + 1 + (s.gen.inFlight - 1) = cfg.maxInflight
    omega
  · have hcount := hset Sender.isWaiting
    rw [hwaits] at hcount
    show List.countP _ _ ≤ (s.gen.finish statusCode).waiting
    rw [hfinish]
    exact (Nat.add_right_cancel hcount).trans_le h.waiting
  · have hcount := hset Sender.isPosting
    rw [hposts, h.inFlight] at hcount
    show List.countP _ _ = (s.gen.finish statusCode).inFlight
    rw [hfinish]
    exact Nat.eq_sub_of_add_eq hcount
  · have hcount := hset Sender.isSent
    rw [hnotSent, h.sent] at hcount
    exact hcount.trans hsent.symm
  · have hcount := hset Sender.isError
    rw [hnoError, h.errors] at hcount
    exact hcount.trans herrors.symm

theorem Traffic.Tallied.act (h : s.Tallied cfg) {action : Traffic.Action}
    (hact : s.act cfg action = some s') : s'.Tallied cfg := by
  cases action with
  | command command => exact h.dispatch (.inl ⟨command, rfl⟩) hact
  | tick dt => exact h.dispatch (.inr ⟨dt, rfl⟩) hact
  | make draw => exact h.make hact
  | acquire index => exact h.acquire hact
  | deliver index =>
    obtain ⟨sender, w, hsender, -, -, -, rfl⟩ := Traffic.act_deliver hact
    have hset (p : Sender → Bool) :=
      Table.countP_set { sender with thread := some s.ingestion.next } p hsender
    exact ⟨h.guarded, (Nat.add_right_cancel (hset _)).trans_le h.waiting,
      (Nat.add_right_cancel (hset _)).trans h.inFlight,
      (Nat.add_right_cancel (hset _)).trans h.sent,
      (Nat.add_right_cancel (hset _)).trans h.errors⟩
  | answer index => exact h.settle (.inl rfl) hact
  | fail index => exact h.settle (.inr rfl) hact
  | ingestion action =>
    obtain ⟨w, -, rfl⟩ := Option.map_eq_some_iff.mp hact
    exact ⟨h.guarded, h.waiting, h.inFlight, h.sent, h.errors⟩

end Tallied

/-! ### The keys -/

/-- A resend repeats a new key, and the recent keys are some of these. -/
structure Keyed (dupRate : ℚ) (recentKeys : List Uuid) (made : List Made) : Prop where
  recentKeys_le : recentKeys.length ≤ 200
  recent : ∀ key ∈ recentKeys, ∃ first ∈ made, first.resent = false ∧ first.key = key
  repeats : ∀ order ∈ made, order.resent = true →
    ∃ first ∈ made, first.resent = false ∧ first.key = order.key
  never : dupRate ≤ 0 → ∀ order ∈ made, order.resent = false

/-- The orders that the tasks have made. -/
def Traffic.made (s : Traffic) : List Made := s.senders.map Sender.toMade

section Keyed

variable {dupRate : ℚ} {recentKeys : List Uuid} {made : List Made}

theorem length_remember_le (hrecent : recentKeys.length ≤ 200) (key : Uuid) :
    (remember recentKeys key).length ≤ 200 := by
  unfold remember
  simp only
  split
  · rw [List.length_tail, List.length_append, List.length_singleton]
    omega
  · omega

theorem mem_remember {key other : Uuid} (h : other ∈ remember recentKeys key) :
    other ∈ recentKeys ∨ other = key := by
  have hmem : other ∈ recentKeys ++ [key] := by
    unfold remember at h
    simp only at h
    split at h
    · exact List.mem_of_mem_tail h
    · exact h
  simpa using hmem

theorem resentKey_of_nonpos (hdup : dupRate ≤ 0) (draw : Draw) :
    resentKey dupRate recentKeys draw = none :=
  if_neg fun h ↦ absurd h.1 (not_lt.mpr hdup)

theorem mem_of_resentKey {draw : Draw} {key : Uuid}
    (h : resentKey dupRate recentKeys draw = some key) : key ∈ recentKeys :=
  List.mem_of_getElem? (Option.ite_none_right_eq_some.mp h).2

theorem Keyed.make (h : Keyed dupRate recentKeys made) (draw : Draw) :
    Keyed dupRate (makeOrder dupRate recentKeys draw).2
      (made ++ [(makeOrder dupRate recentKeys draw).1]) := by
  have hold : ∀ {key : Uuid} {order : Made},
      (∃ first ∈ made, first.resent = false ∧ first.key = key) →
        ∃ first ∈ made ++ [order], first.resent = false ∧ first.key = key :=
    fun ⟨first, hfirst, hkey⟩ ↦ ⟨first, List.mem_append_left _ hfirst, hkey⟩
  unfold makeOrder
  cases hresent : resentKey dupRate recentKeys draw with
  | some key =>
    have hrecent : key ∈ recentKeys := mem_of_resentKey hresent
    constructor
    · exact h.recentKeys_le
    · exact fun other hother ↦ hold (h.recent other hother)
    · intro order horder hrepeats
      rcases List.mem_append.mp horder with hbefore | hnew
      · exact hold (h.repeats order hbefore hrepeats)
      · obtain rfl := List.mem_singleton.mp hnew
        exact hold (h.recent key hrecent)
    · intro hdup
      rw [resentKey_of_nonpos hdup] at hresent
      cases hresent
  | none =>
    constructor
    · exact length_remember_le h.recentKeys_le draw.uuid
    · intro other hother
      rcases mem_remember hother with hbefore | rfl
      · exact hold (h.recent other hbefore)
      · exact ⟨_, List.mem_append_right _ (List.mem_singleton.mpr rfl), rfl, rfl⟩
    · intro order horder hrepeats
      rcases List.mem_append.mp horder with hbefore | hnew
      · exact hold (h.repeats order hbefore hrepeats)
      · obtain rfl := List.mem_singleton.mp hnew
        cases hrepeats
    · intro hdup order horder
      rcases List.mem_append.mp horder with hbefore | hnew
      · exact h.never hdup order hbefore
      · rw [List.mem_singleton.mp hnew]

end Keyed

section Keyed

variable {cfg : TrafficConfig} {s s' : Traffic}

/-- Only a task that makes its order changes what was made. -/
theorem Traffic.made_act {action : Traffic.Action} (hact : s.act cfg action = some s')
    (hmake : ∀ draw, action ≠ .make draw) : s'.made = s.made ∧ s'.recentKeys = s.recentKeys := by
  cases action with
  | make draw => exact absurd rfl (hmake draw)
  | command command =>
    obtain ⟨gen, rfl, -⟩ := Traffic.act_dispatch (.inl ⟨command, rfl⟩) hact
    exact ⟨rfl, rfl⟩
  | tick dt =>
    obtain ⟨gen, rfl, -⟩ := Traffic.act_dispatch (.inr ⟨dt, rfl⟩) hact
    exact ⟨rfl, rfl⟩
  | acquire index =>
    obtain ⟨sender, hsender, -, -, -, rfl⟩ := Traffic.act_acquire hact
    exact ⟨Table.map_set_of_eq hsender rfl, rfl⟩
  | deliver index =>
    obtain ⟨sender, w, hsender, -, -, -, rfl⟩ := Traffic.act_deliver hact
    exact ⟨Table.map_set_of_eq hsender rfl, rfl⟩
  | answer index =>
    obtain ⟨sender, statusCode, hsender, -, -, -, rfl⟩ := Traffic.act_settle (.inl rfl) hact
    exact ⟨Table.map_set_of_eq hsender rfl, rfl⟩
  | fail index =>
    obtain ⟨sender, statusCode, hsender, -, -, -, rfl⟩ := Traffic.act_settle (.inr rfl) hact
    exact ⟨Table.map_set_of_eq hsender rfl, rfl⟩
  | ingestion action =>
    obtain ⟨w, -, rfl⟩ := Option.map_eq_some_iff.mp hact
    exact ⟨rfl, rfl⟩

theorem Traffic.keyed_start (cfg : TrafficConfig) :
    Keyed cfg.dupRate (traffic cfg).start.recentKeys (traffic cfg).start.made where
  recentKeys_le := Nat.zero_le _
  recent _ h := absurd h List.not_mem_nil
  repeats _ h := absurd h List.not_mem_nil
  never _ _ h := absurd h List.not_mem_nil

theorem Traffic.keyed_act (h : Keyed cfg.dupRate s.recentKeys s.made) {action : Traffic.Action}
    (hact : s.act cfg action = some s') : Keyed cfg.dupRate s'.recentKeys s'.made := by
  by_cases hmake : ∃ draw, action = .make draw
  · obtain ⟨draw, rfl⟩ := hmake
    obtain ⟨-, rfl⟩ := Traffic.act_make hact
    have hmade := h.make draw
    rwa [Traffic.made, List.map_append]
  · obtain ⟨hmade, hrecent⟩ := Traffic.made_act hact fun draw hdraw ↦ hmake ⟨draw, hdraw⟩
    rwa [hmade, hrecent]

end Keyed

/-! ### What ingestion holds -/

/-- The request of a task is one that ingestion serves, and an order that is counted as sent is
there. -/
structure Sender.Served (launches : List Ingestion.Launch) (orders : List Ingestion.OrderRow)
    (sender : Sender) : Prop where
  launched : ∀ thread, sender.thread = some thread →
    launches[thread]? = some (.placeOrder sender.request)
  posted : sender.thread ≠ none → sender.phase ≠ .waiting
  stored : sender.isSent = true → ∃ row ∈ orders, row.idempotencyKey = sender.key.val

def Traffic.Served (s : Traffic) : Prop :=
  ∃ launches, World.Traced World.anyEffect launches s.ingestion ∧
    ∀ sender ∈ s.senders, sender.Served launches s.orders

section Served

variable {cfg : TrafficConfig} {s s' : Traffic} {launches launches' : List Ingestion.Launch}
  {orders orders' : List Ingestion.OrderRow} {sender : Sender}

theorem Sender.Served.mono (h : sender.Served launches orders)
    (hlaunches : ∀ (thread : ℕ) launched, launches[thread]? = some launched →
      launches'[thread]? = some launched)
    (horders : ∀ row ∈ orders, row ∈ orders') : sender.Served launches' orders' where
  launched thread hthread := hlaunches thread _ (h.launched thread hthread)
  posted := h.posted
  stored hsent := by
    obtain ⟨row, hrow, hkey⟩ := h.stored hsent
    exact ⟨row, horders row hrow, hkey⟩

/-- The key of a request is that of its order. -/
theorem Made.truthy_request (made : Made) :
    truthy made.request.idempotencyKey = some made.key.val :=
  truthy_some made.key.property

/-- A status below 300 is that of an answer, so the order is there. -/
theorem Made.exists_order {made : Made} {w : World Ingestion.service}
    (hw : World.Traced World.anyEffect launches w) {thread code : ℕ}
    (hlaunched : launches[thread]? = some (.placeOrder made.request))
    (hcode : statusOf (w.threads thread) = some code) (hsent : code < 300) :
    ∃ row ∈ w.shared.db.committed.orders, row.idempotencyKey = made.key.val := by
  unfold statusOf at hcode
  split at hcode
  · rename_i response hreturned
    exact Ingestion.exists_order_of_answered hw hlaunched hreturned made.truthy_request
  · obtain rfl := Option.some.inj hcode
    exact absurd hsent (by decide)
  · cases hcode

theorem Traffic.served_start (cfg : TrafficConfig) : (traffic cfg).start.Served :=
  ⟨[], .initial, fun _ h ↦ absurd h List.not_mem_nil⟩

theorem Traffic.Served.act (h : s.Served) {action : Traffic.Action}
    (hact : s.act cfg action = some s') : s'.Served := by
  obtain ⟨launches, htraced, hsenders⟩ := h
  have hset : ∀ {index : ℕ} {sender : Sender}, sender.Served launches s.orders →
      ∀ other ∈ s.senders.set index sender, other.Served launches s.orders := by
    intro index sender hsender other hother
    rcases List.mem_or_eq_of_mem_set hother with hold | rfl
    · exact hsenders other hold
    · exact hsender
  have hsettle : ∀ {index : ℕ}, (action = .answer index ∨ action = .fail index) → s'.Served := by
    intro index haction
    obtain ⟨sender, statusCode, hsender, hphase, -, hcode, rfl⟩ := Traffic.act_settle haction hact
    have hserved := hsenders sender (List.mem_of_getElem? hsender)
    refine ⟨launches, htraced, hset ⟨hserved.launched, fun _ ↦ nofun, fun hsent ↦ ?_⟩⟩
    rcases statusCode with _ | code
    · cases hsent
    · obtain ⟨thread, hthread, hstatus⟩ := hcode code rfl
      exact Made.exists_order htraced (hserved.launched thread hthread) hstatus
        (of_decide_eq_true hsent)
  cases action with
  | command command =>
    obtain ⟨gen, rfl, -⟩ := Traffic.act_dispatch (.inl ⟨command, rfl⟩) hact
    exact ⟨launches, htraced, hsenders⟩
  | tick dt =>
    obtain ⟨gen, rfl, -⟩ := Traffic.act_dispatch (.inr ⟨dt, rfl⟩) hact
    exact ⟨launches, htraced, hsenders⟩
  | make draw =>
    obtain ⟨-, rfl⟩ := Traffic.act_make hact
    refine ⟨launches, htraced, fun sender hsender ↦ ?_⟩
    rcases List.mem_append.mp hsender with hold | hnew
    · exact hsenders sender hold
    · rw [List.mem_singleton.mp hnew]
      exact ⟨nofun, fun hnone ↦ absurd rfl hnone, nofun⟩
  | acquire index =>
    obtain ⟨sender, hsender, -, -, -, rfl⟩ := Traffic.act_acquire hact
    have hserved := hsenders sender (List.mem_of_getElem? hsender)
    exact ⟨launches, htraced, hset ⟨hserved.launched, fun _ ↦ nofun, nofun⟩⟩
  | deliver index =>
    obtain ⟨sender, w, hsender, hphase, -, hw, rfl⟩ := Traffic.act_deliver hact
    have hgrown : ∀ other ∈ s.senders, other.Served (launches ++ [.placeOrder sender.request])
        w.shared.db.committed.orders := fun other hother ↦
      (hsenders other hother).mono (fun thread _ h ↦ Ingestion.launches_append thread h _)
        (Ingestion.orders_act htraced hw)
    refine ⟨_, htraced.act (World.permitted_anyEffect _ _) hw, fun other hother ↦ ?_⟩
    rcases List.mem_or_eq_of_mem_set hother with hold | rfl
    · exact hgrown other hold
    · refine ⟨fun thread hthread ↦ ?_, fun _ ↦ hphase,
        (hgrown sender (List.mem_of_getElem? hsender)).stored⟩
      obtain rfl := Option.some.inj hthread
      exact Ingestion.launches_next htraced _
  | answer index => exact hsettle (.inl rfl)
  | fail index => exact hsettle (.inr rfl)
  | ingestion action =>
    obtain ⟨w, hw, rfl⟩ := Option.map_eq_some_iff.mp hact
    refine ⟨_, htraced.act (World.permitted_anyEffect _ _) hw, fun sender hsender ↦ ?_⟩
    exact (hsenders sender hsender).mono (fun thread _ h ↦ Ingestion.launches_append thread h _)
      (Ingestion.orders_act htraced hw)

end Served

/-! ### The two add up -/

section Sums

variable {cfg : TrafficConfig} {s : Traffic}

theorem Traffic.tallied_of_reachable (hs : (traffic cfg).Reachable Transitions.anyAction s) :
    s.Tallied cfg :=
  Transitions.invariant (tallied_start cfg) (fun _ _ _ h _ hact ↦ h.act hact) hs

theorem Traffic.keyed_of_reachable (hs : (traffic cfg).Reachable Transitions.anyAction s) :
    Keyed cfg.dupRate s.recentKeys s.made :=
  Transitions.invariant (P := fun s : Traffic ↦ Keyed cfg.dupRate s.recentKeys s.made)
    (keyed_start cfg) (fun _ _ _ h _ hact ↦ keyed_act h hact) hs

theorem Traffic.served_of_reachable (hs : (traffic cfg).Reachable Transitions.anyAction s) :
    s.Served :=
  Transitions.invariant (served_start cfg) (fun _ _ _ h _ hact ↦ h.act hact) hs

theorem Traffic.Served.unique (h : s.Served) :
    Table.Unique Ingestion.OrderRow.idempotencyKey s.orders := by
  obtain ⟨launches, htraced, -⟩ := h
  have hholds : Ingestion.discipline.Holds s.ingestion :=
    Discipline.holds_of_reachable Ingestion.verified htraced.reachable
  exact Ingestion.Sound.keys hholds.inv

/-- What is written for a task is what it has asked for, and the task no longer waits. -/
theorem Traffic.Served.exists_sender (h : s.Served) {row : Ingestion.OrderRow}
    (hrow : row ∈ s.written) : ∃ sender ∈ s.senders, sender.thread = some row.xmin ∧
      sender.isWaiting = false ∧ Ingestion.OrderOf sender.request row := by
  obtain ⟨launches, htraced, hsenders⟩ := h
  obtain ⟨horder, hany⟩ := List.mem_filter.mp hrow
  obtain ⟨sender, hsender, hthread⟩ := List.any_eq_true.mp hany
  have hxmin : sender.thread = some row.xmin := of_decide_eq_true hthread
  have hserved := hsenders sender hsender
  have hphase := hserved.posted (by rw [hxmin]; exact nofun)
  exact ⟨sender, hsender, hxmin, decide_eq_false hphase,
    Ingestion.orderOf_of_traced htraced horder (hserved.launched row.xmin hxmin)⟩

/-- There is an order for each key that is counted as sent. -/
theorem Traffic.Served.exists_order (h : s.Served) {key : String} (hkey : key ∈ s.sentKeys) :
    ∃ row ∈ s.orders, row.idempotencyKey = key := by
  obtain ⟨launches, -, hsenders⟩ := h
  obtain ⟨sender, hsender, rfl⟩ := List.mem_map.mp hkey
  obtain ⟨hmem, hsent⟩ := List.mem_filter.mp hsender
  exact (hsenders sender hmem).stored hsent

/-- The orders under the keys that are counted as sent are as many as these keys. -/
theorem Traffic.Served.length_placed (h : s.Served) :
    s.placed.length = s.sentKeys.dedup.length :=
  h.unique.length_filter_mem fun _ hkey ↦ h.exists_order hkey

theorem Traffic.Tallied.length_sentKeys (h : s.Tallied cfg) : s.sentKeys.length = s.gen.sent := by
  rw [Traffic.sentKeys, List.length_map, ← List.countP_eq_length_filter, h.sent]

/-- Orders under different new keys have different keys. -/
theorem Traffic.sent_le_dedup (hnodup : s.uuids.Nodup) :
    s.senders.countP Sender.isSent ≤ s.sentKeys.dedup.length + s.resends := by
  let first := (s.senders.filter fun sender ↦ !sender.resent).filter Sender.isSent
  have hfirst : (first.map fun sender ↦ sender.key.val).Nodup :=
    hnodup.sublist (List.filter_sublist.map _)
  have hsubset : first.map (fun sender ↦ sender.key.val) ⊆ s.sentKeys.dedup := by
    intro key hkey
    obtain ⟨sender, hsender, rfl⟩ := List.mem_map.mp hkey
    obtain ⟨hnew, hsent⟩ := List.mem_filter.mp hsender
    have hmem := List.mem_filter.mpr ⟨(List.mem_filter.mp hnew).1, hsent⟩
    exact List.mem_dedup.mpr (List.mem_map_of_mem hmem)
  have hsplit : s.senders.countP Sender.isSent = s.resends + first.length := by
    have hcount := List.countP_eq_countP_filter_add s.senders Sender.isSent (·.resent)
    rw [← List.countP_eq_length_filter, hcount, List.countP_filter]
    congr 1
    exact List.countP_congr fun sender _ ↦ by rw [Bool.and_comm]
  have hlength := hfirst.length_le_of_subset hsubset
  rw [List.length_map] at hlength
  omega

/-- **The traffic is accounted for**: in every state of the generator over ingestion. -/
theorem traffic_accounted (hs : (traffic cfg).Reachable Transitions.anyAction s) :
    Accounted cfg s := by
  have htallied := Traffic.tallied_of_reachable hs
  have hkeyed := Traffic.keyed_of_reachable hs
  have hserved := Traffic.served_of_reachable hs
  have hlength := length_senders s.senders
  rw [htallied.sent, htallied.errors, htallied.inFlight] at hlength
  have hguarded : s.gen.sem + s.gen.inFlight = cfg.maxInflight := htallied.guarded
  constructor
  · exact hlength
  · exact htallied.waiting
  · omega
  · exact hkeyed.recentKeys_le
  · intro sender hsender hresent
    obtain ⟨first, hfirst, hnew, hkey⟩ :=
      hkeyed.repeats sender.toMade (List.mem_map_of_mem hsender) hresent
    obtain ⟨other, hother, rfl⟩ := List.mem_map.mp hfirst
    rw [← hkey]
    exact List.mem_map_of_mem (List.mem_filter.mpr ⟨hother, by rw [hnew]; rfl⟩)
  · intro sender hsender hsent
    have hkey : sender.key.val ∈ s.sentKeys :=
      List.mem_map_of_mem (List.mem_filter.mpr ⟨hsender, hsent⟩)
    obtain ⟨row, hrow, hsame⟩ := hserved.exists_order hkey
    rw [← hsame, hserved.unique.filter_eq_singleton hrow]
    rfl
  · intro row hrow
    obtain ⟨sender, hsender, hthread, -, horder⟩ := hserved.exists_sender hrow
    exact ⟨sender, hsender, hthread, horder⟩
  · -- Each order that was written has the key of a task of its own that no longer waits.
    let posted := s.senders.filter fun sender ↦ !sender.isWaiting
    have hsubset : s.written.map Ingestion.OrderRow.idempotencyKey ⊆
        posted.map fun sender ↦ sender.key.val := by
      intro key hkey
      obtain ⟨row, hrow, rfl⟩ := List.mem_map.mp hkey
      obtain ⟨sender, hsender, -, hwaiting, horder⟩ := hserved.exists_sender hrow
      rw [horder.key _ sender.truthy_request]
      exact List.mem_map_of_mem (List.mem_filter.mpr ⟨hsender, by rw [hwaiting]; rfl⟩)
    have hle := (hserved.unique.filter _).length_le_of_subset hsubset
    have hsplit := List.length_eq_length_filter_add (l := s.senders) Sender.isWaiting
    rw [List.length_map, List.length_map] at hle
    rw [← List.countP_eq_length_filter, hlength] at hsplit
    exact hle.trans (Nat.le_of_eq (Nat.add_left_cancel ((Nat.add_comm _ _).trans hsplit)).symm)
  · rw [hserved.length_placed, ← htallied.length_sentKeys]
    exact (List.dedup_sublist _).length_le
  · intro hnodup
    rw [hserved.length_placed, ← htallied.sent]
    exact Traffic.sent_le_dedup hnodup
  · intro hdup sender hsender
    exact hkeyed.never hdup sender.toMade (List.mem_map_of_mem hsender)

end Sums

/-! ### A resend and a lost answer -/

/-- Every other order is a resend, if there is one to repeat. -/
def doubling : TrafficConfig where
  dupRate := 1 / 2

def draw (roll : ℚ) (uuid : Uuid) (hroll : 0 ≤ roll) (hlt : roll < 1) : Draw where
  roll
  choice := 0
  uuid
  sample := [(⟨8, by decide⟩, 1)]
  customer := ⟨0, by simp [customers]⟩
  restaurant := ⟨0, by decide⟩
  roll_nonneg := hroll
  roll_lt := hlt
  sample_ne := List.cons_ne_nil _ _
  sample_le := by decide
  sample_nodup := by decide

/-- Of three orders the second resends the first, and the answer to the third is lost. -/
def resending : List Traffic.Action :=
  [.tick 1, .make (draw (1 / 2) ⟨"a", by decide⟩ (by norm_num) (by norm_num)),
    .make (draw (1 / 4) ⟨"b", by decide⟩ (by norm_num) (by norm_num)),
    .make (draw (3 / 4) ⟨"c", by decide⟩ (by norm_num) (by norm_num)),
    .acquire 0, .acquire 1, .acquire 2, .deliver 0, .deliver 2, .deliver 1,
    .ingestion (.step 0 (.uuid "x")), .ingestion (.step 0 .done), .ingestion (.step 0 .done),
    .ingestion (.step 0 (.stamp ⟨"e", "t"⟩)), .ingestion (.step 0 .done),
    .ingestion (.step 0 .done), .answer 0,
    .ingestion (.step 2 (.uuid "y")), .ingestion (.step 2 .done), .ingestion (.step 2 .done),
    .ingestion (.step 2 .done), .ingestion (.step 2 .done), .answer 1, .fail 2,
    .ingestion (.step 1 (.uuid "z")), .ingestion (.step 1 .done), .ingestion (.step 1 .done),
    .ingestion (.step 1 (.stamp ⟨"f", "t"⟩)), .ingestion (.step 1 .done),
    .ingestion (.step 1 .done)]

def resentTraffic : Traffic :=
  ((traffic doubling).run (traffic doubling).start resending).get (by decide +kernel)

theorem reachable_resentTraffic :
    (traffic doubling).Reachable Transitions.anyAction resentTraffic :=
  Transitions.reachable_of_run (Option.some_get _).symm

theorem traffic_accounted_resentTraffic : Accounted doubling resentTraffic ∧
    resentTraffic.gen.sent = 2 ∧ resentTraffic.gen.errors = 1 ∧
      resentTraffic.placed.length = 1 ∧ resentTraffic.written.length = 2 :=
  ⟨traffic_accounted reachable_resentTraffic, by decide +kernel, by decide +kernel,
    by decide +kernel, by decide +kernel⟩

end DinnerRush.LoadGen
