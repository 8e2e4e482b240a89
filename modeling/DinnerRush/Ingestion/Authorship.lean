import DinnerRush.Concurrency.Conduct
import DinnerRush.Ingestion.Accept

/-!
# Who wrote an order

`POST /orders` inserts what its request asks for and nothing else. So an order of the database is
that of the request which its `xmin` names (`author_of_traced`), and it stays there unchanged. An
answer carries the idempotency key of its request. With what the transactions guarantee this is the
guarantee of the endpoint (`idempotentAtomicAccept`).
-/

set_option autoImplicit false
set_option relaxedAutoImplicit false

namespace DinnerRush.Ingestion

open Concurrency World Program

/-- The row is the order of the request. -/
structure OrderOf (req : OrderRequest) (row : OrderRow) : Prop where
  key : ∀ key, truthy req.idempotencyKey = some key → row.idempotencyKey = key
  customerId : row.customerId = req.customerId
  restaurantId : row.restaurantId = req.restaurantId
  items : row.items = req.items.map OrderItem.modelDump
  totalCents : row.totalCents = req.totalCents

/-- Among the requests launched, the one that the row names has asked for it. -/
def Authored (launches : List Launch) (row : OrderRow) : Prop :=
  ∃ req, launches[row.xmin]? = some (.placeOrder req) ∧ OrderOf req row

/-- A request inserts what it asks for; a relay round inserts nothing. -/
def Asks (launched : Launch) : Effect → Prop
  | .insertOrder values => ∃ req, launched = .placeOrder req ∧ ∀ xmin, OrderOf req (values.row xmin)
  | _ => True

/-- The key of an answer is that of its request. -/
def Returns (launched : Launch) (answer : Option Response) : Prop :=
  ∀ response, answer = some response → ∃ req, launched = .placeOrder req ∧
    ∀ key, truthy req.idempotencyKey = some key → response.idempotencyKey = key

/-- Any reply. -/
def anyReply (effect : Effect) (_ : Except Failure effect.Result) : Prop := True

theorem conduct_perform {launched : Launch} {effect : Effect} (h : Asks launched effect) :
    (perform effect).Conduct anyReply (Asks launched) fun _ ↦ True :=
  conduct_call h fun _ _ ↦ trivial

theorem conduct_accept {req : OrderRequest} {idem orderId : String}
    (hidem : ∀ key, truthy req.idempotencyKey = some key → idem = key) :
    (accept req idem orderId).Conduct anyReply (Asks (.placeOrder req)) fun answered ↦
      ∀ response, answered = some response → response.idempotencyKey = idem := by
  apply Conduct.transaction (conduct_perform (by trivial)) (conduct_perform (by trivial))
    (conduct_perform (by trivial))
  have hasks : Asks (.placeOrder req) (.insertOrder (orderValues req idem orderId)) :=
    ⟨req, rfl, fun _ ↦ ⟨hidem, rfl, rfl, rfl, rfl⟩⟩
  refine (conduct_perform hasks).bind fun inserted _ ↦ ?_
  cases inserted with
  | true =>
    refine (conduct_perform (by trivial)).bind fun stamp _ ↦ ?_
    exact (conduct_perform (by trivial)).bind fun _ _ response hnone ↦ by cases hnone
  | false =>
    refine (conduct_perform (by trivial)).bind fun existing _ response hresponse ↦ ?_
    obtain rfl := Option.some.inj hresponse
    rfl

/-- The answer, under the key that was chosen. -/
theorem conduct_answered (req : OrderRequest) (idem : String)
    (hidem : ∀ key, truthy req.idempotencyKey = some key → idem = key) :
    ((perform .newUuid).bind fun orderId ↦ (accept req idem orderId).bind fun answered ↦
      match answered with
      | some response => .ret response
      | none => .ret ⟨202, orderId, idem, "accepted"⟩ : Proc Response).Conduct anyReply
        (Asks (.placeOrder req)) fun response ↦
          ∀ key, truthy req.idempotencyKey = some key → response.idempotencyKey = key := by
  refine (conduct_perform (by trivial)).bind fun orderId _ ↦ ?_
  refine (conduct_accept hidem).bind fun answered hanswered ↦ ?_
  cases answered with
  | some response => exact fun key hkey ↦ (hanswered response rfl).trans (hidem key hkey)
  | none => exact hidem

theorem conduct_placeOrder (req : OrderRequest) :
    (placeOrder req).Conduct anyReply (Asks (.placeOrder req)) fun response ↦
      ∀ key, truthy req.idempotencyKey = some key → response.idempotencyKey = key := by
  unfold placeOrder
  cases hkey : truthy req.idempotencyKey with
  | some key =>
    have hconduct := conduct_answered req key fun key' hkey' ↦
      Option.some.inj (hkey.symm.trans hkey')
    exact hconduct.mono fun response hresponse key' hkey' ↦ hresponse key' (hkey.trans hkey')
  | none =>
    refine (conduct_perform (by trivial)).bind fun idem _ ↦ ?_
    have hconduct := conduct_answered req idem fun key hkey' ↦ by
      rw [hkey] at hkey'
      cases hkey'
    exact hconduct.mono fun response _ key hkey' ↦ by cases hkey'

theorem conduct_drainOnce :
    relay.drainOnce.Conduct anyReply (Asks .drainOnce) fun _ ↦ True := by
  apply Conduct.transaction (conduct_perform (by trivial)) (conduct_perform (by trivial))
    (conduct_perform (by trivial))
  refine (conduct_perform (by trivial)).bind fun rows _ ↦ ?_
  split
  · trivial
  · have hpublish : (relay.publishAll rows).Conduct anyReply (Asks .drainOnce) fun _ ↦ True := by
      clear * -
      induction rows with
      | nil => trivial
      | cons row rest ih =>
        exact (conduct_perform (by trivial)).bind fun _ _ ↦ ih.bind fun _ _ ↦ trivial
    exact hpublish.bind fun _ _ ↦ (conduct_perform (by trivial)).bind fun _ _ ↦ trivial

/-! ### What the database holds -/

/-- The row is committed, or inserted by an open transaction. -/
def Shared.Holds (s : Shared) (row : OrderRow) : Prop :=
  s.db.Written (fun d ↦ row ∈ d.orders) fun write ↦ write = .insertOrder row

theorem mem_orders_apply {row : OrderRow} (d : Db) (write : Write)
    (h : row ∈ (d.apply write).orders) : row ∈ d.orders ∨ write = .insertOrder row := by
  cases write with
  | insertOrder inserted =>
    rcases List.mem_append.mp h with hold | hnew
    · exact Or.inl hold
    · rw [List.mem_singleton.mp hnew]
      exact Or.inr rfl
  | enqueue event => exact Or.inl h
  | stamp ids => exact Or.inl h

/-- What is inserted fits its column. -/
theorem fitsInt_of_insertOrder {thread : ℕ} {values : OrderValues} {s : Shared}
    {inserted : Bool × Shared} (h : s.insertOrder thread values = some inserted) :
    fitsInt values.totalCents = true := by
  unfold Shared.insertOrder at h
  split at h
  · cases h
  · rename_i hopen
    rw [Bool.not_eq_true', Bool.not_eq_false, Bool.and_eq_true] at hopen
    exact hopen.2

/-- A statement that is lost leaves everything as it was. -/
theorem exec_lost {thread : ℕ} {effect : Effect} {text : String} {s s' : Shared}
    {reply : Except Failure effect.Result}
    (hexec : exec thread effect (.lost text) s = some (reply, s')) : s' = s := by
  cases effect with
  | newUuid => cases hexec
  | newStamp => cases hexec
  | _ => exact (Prod.mk.inj (Option.some.inj hexec)).2.symm

/-- What a statement that takes effect may insert. -/
theorem holds_done {thread : ℕ} {effect : Effect} {s s' : Shared}
    {reply : Except Failure effect.Result} (hexec : exec thread effect .done s = some (reply, s'))
    {row : OrderRow} (h : s'.Holds row) :
    s.Holds row ∨ ∃ values, effect = .insertOrder values ∧ row = values.row thread ∧
      fitsInt values.totalCents = true := by
  cases effect with
  | newUuid => cases hexec
  | newStamp => cases hexec
  | begin =>
    obtain ⟨-, rfl⟩ := Prod.mk.inj (Option.some.inj hexec)
    exact Or.inl (Transactions.written_begin h)
  | commit =>
    obtain ⟨-, hdone⟩ := Option.ite_none_right_eq_some.mp hexec
    obtain ⟨-, rfl⟩ := Prod.mk.inj (Option.some.inj hdone)
    exact Or.inl (Transactions.written_commit mem_orders_apply h)
  | rollback =>
    obtain ⟨-, rfl⟩ := Prod.mk.inj (Option.some.inj hexec)
    exact Or.inl (Transactions.written_abort h)
  | insertOrder values =>
    obtain ⟨⟨claimed, s₁⟩, hinsert, hreply⟩ := Option.map_eq_some_iff.mp hexec
    obtain ⟨-, rfl⟩ := Prod.mk.inj hreply
    rcases (insertOrder_cases hinsert).2 with ⟨-, hs', -⟩ | ⟨-, hs', -⟩
    · rw [show s₁ = s from hs'] at h
      exact Or.inl h
    · rw [show s₁ = _ from hs'] at h
      rcases Transactions.written_write h with hbefore | hwrite
      · exact Or.inl hbefore
      · exact Or.inr ⟨values, rfl, (Write.insertOrder.inj hwrite).symm,
          fitsInt_of_insertOrder hinsert⟩
  | selectOrderId key =>
    obtain ⟨-, hdone⟩ := Option.ite_none_right_eq_some.mp hexec
    obtain ⟨-, rfl⟩ := Prod.mk.inj (Option.some.inj hdone)
    exact Or.inl h
  | enqueue exchange routingKey env =>
    obtain ⟨s₁, henqueue, hreply⟩ := Option.map_eq_some_iff.mp hexec
    obtain ⟨-, rfl⟩ := Prod.mk.inj hreply
    obtain ⟨-, hdone⟩ := Option.ite_none_right_eq_some.mp henqueue
    obtain rfl := Option.some.inj hdone
    exact Or.inl ((Transactions.written_write h).resolve_right fun hwrite ↦ by cases hwrite)
  | selectUnpublished batch =>
    obtain ⟨-, hdone⟩ := Option.ite_none_right_eq_some.mp hexec
    obtain ⟨-, rfl⟩ := Prod.mk.inj (Option.some.inj hdone)
    exact Or.inl (Transactions.written_lockAll h)
  | publish published =>
    obtain ⟨-, rfl⟩ := Prod.mk.inj (Option.some.inj hexec)
    exact Or.inl h
  | stamp ids =>
    obtain ⟨-, hdone⟩ := Option.ite_none_right_eq_some.mp hexec
    obtain ⟨-, rfl⟩ := Prod.mk.inj (Option.some.inj hdone)
    exact Or.inl ((Transactions.written_write h).resolve_right fun hwrite ↦ by cases hwrite)

/-- A row that is there after an effect was there before, or the effect has inserted it. -/
theorem holds_exec {thread : ℕ} {effect : Effect} {choice : Choice} {s s' : Shared}
    {reply : Except Failure effect.Result} (hexec : exec thread effect choice s = some (reply, s'))
    {row : OrderRow} (h : s'.Holds row) :
    s.Holds row ∨ ∃ values, effect = .insertOrder values ∧ row = values.row thread ∧
      fitsInt values.totalCents = true := by
  cases choice with
  | done => exact holds_done hexec h
  | lost text =>
    rw [exec_lost hexec] at h
    exact Or.inl h
  | unconfirmed text =>
    -- Only a commit and a publish may take effect without an answer.
    cases effect with
    | commit =>
      obtain ⟨-, hdone⟩ := Option.ite_none_right_eq_some.mp hexec
      obtain ⟨-, rfl⟩ := Prod.mk.inj (Option.some.inj hdone)
      exact Or.inl (Transactions.written_commit mem_orders_apply h)
    | publish published =>
      obtain ⟨-, rfl⟩ := Prod.mk.inj (Option.some.inj hexec)
      exact Or.inl h
    | _ => cases hexec
  | uuid text =>
    cases effect with
    | newUuid =>
      obtain ⟨-, rfl⟩ := Prod.mk.inj (Option.some.inj hexec)
      exact Or.inl h
    | _ => cases hexec
  | stamp stamp =>
    cases effect with
    | newStamp =>
      obtain ⟨-, rfl⟩ := Prod.mk.inj (Option.some.inj hexec)
      exact Or.inl h
    | _ => cases hexec

/-! ### The rule -/

theorem Authored.append {launches : List Launch} {row : OrderRow} (h : Authored launches row)
    (launched : Launch) : Authored (launches ++ [launched]) row := by
  obtain ⟨req, hreq, horder⟩ := h
  refine ⟨req, ?_, horder⟩
  rw [List.getElem?_append_left (List.getElem?_eq_some_iff.mp hreq).1, hreq]

def authorship : Rule service where
  Allowed _ := Asks
  Expected := anyReply
  Returns := Returns
  Inv launches s := ∀ row, s.Holds row → Authored launches row ∧ fitsInt row.totalCents = true

theorem authorship_enforced : authorship.Enforced anyEffect where
  start row h := by
    rcases h with hcommitted | ⟨thread, writes, hpending, -⟩
    · cases hcommitted
    · cases hpending
  launch launches launched s program s' h hlaunch := by
    cases launched with
    | placeOrder req =>
      obtain ⟨rfl, rfl⟩ := Prod.mk.inj (Option.some.inj hlaunch)
      refine ⟨fun row hrow ↦ (h row hrow).imp_left fun h ↦ h.append _, fun _ _ h ↦ h,
        (conduct_placeOrder req).bind ?_⟩
      intro answered hanswered response hresponse
      obtain rfl := Option.some.inj hresponse
      exact ⟨req, rfl, hanswered⟩
    | drainOnce =>
      obtain ⟨rfl, rfl⟩ := Prod.mk.inj (Option.some.inj hlaunch)
      refine ⟨fun row hrow ↦ (h row hrow).imp_left fun h ↦ h.append _, fun _ _ h ↦ h,
        conduct_drainOnce.bind ?_⟩
      intro moved _ response hnone
      cases hnone
  exec launches thread launched effect choice s reply s' hlaunched hasks _ h hexec := by
    refine ⟨fun row hrow ↦ ?_, fun _ _ h ↦ h, trivial⟩
    rcases holds_exec hexec hrow with hbefore | ⟨values, rfl, rfl, hfits⟩
    · exact h row hbefore
    · obtain ⟨req, rfl, horder⟩ := hasks
      exact ⟨⟨req, hlaunched, horder thread⟩, hfits⟩
  ambient launches aborted s s' h hambient := by
    obtain rfl := Option.some.inj hambient
    exact ⟨fun row hrow ↦ h row (Transactions.written_abort hrow), fun _ _ h ↦ h⟩

/-- An order is that of the request that wrote it. -/
theorem author_of_traced {launches : List Launch} {w : World service}
    (hw : Traced anyEffect launches w) {row : OrderRow}
    (hrow : row ∈ w.shared.db.committed.orders) : Authored launches row :=
  ((authorship_enforced.kept hw).inv row (Or.inl hrow)).1

theorem fitsInt_of_traced {launches : List Launch} {w : World service}
    (hw : Traced anyEffect launches w) {row : OrderRow}
    (hrow : row ∈ w.shared.db.committed.orders) : fitsInt row.totalCents = true :=
  ((authorship_enforced.kept hw).inv row (Or.inl hrow)).2

/-- The answer to a request carries its key. -/
theorem key_of_traced {launches : List Launch} {w : World service}
    (hw : Traced anyEffect launches w) {thread : ℕ} {req : OrderRequest} {response : Response}
    (hreq : launches[thread]? = some (.placeOrder req))
    (hthread : w.threads thread = some (.ret (some response))) {key : String}
    (hkey : truthy req.idempotencyKey = some key) : response.idempotencyKey = key := by
  obtain ⟨launched, hlaunched, hreturns⟩ := (authorship_enforced.kept hw).conduct thread _ hthread
  obtain ⟨req', rfl, hkeys⟩ := hreturns response rfl
  obtain rfl : req' = req := Launch.placeOrder.inj (Option.some.inj (hlaunched.symm.trans hreq))
  exact hkeys key hkey

/-! ### The requests of a client -/

/-- The orders stay. -/
theorem orders_act {launches : List Launch} {w w' : World service}
    (hw : Traced anyEffect launches w) {action : Action service} (hact : w.act action = some w') :
    ∀ row ∈ w.shared.db.committed.orders, row ∈ w'.shared.db.committed.orders := by
  have hholds : discipline.Holds w := Discipline.holds_of_reachable verified hw.reachable
  exact (Discipline.Holds.act_rely verified hholds (permitted_anyEffect _ _) hact
    (Nat.le_refl _)).orders

theorem launches_append {launches : List Launch} {launched : Launch} (thread : ℕ)
    (h : launches[thread]? = some launched) (more : List Launch) :
    (launches ++ more)[thread]? = some launched := by
  rw [List.getElem?_append_left (List.getElem?_eq_some_iff.mp h).1, h]

/-- The next thread is that of the next launch. -/
theorem launches_next {launches : List Launch} {w : World service}
    (hw : Traced anyEffect launches w) (launched : Launch) :
    (launches ++ [launched])[w.next]? = some launched := by
  have hnext : w.next = List.length launches := (authorship_enforced.kept hw).next
  rw [hnext]
  exact List.getElem?_concat_length

/-- A request that was answered has an order under its key. -/
theorem exists_order_of_answered {launches : List Launch} {w : World service}
    (hw : Traced anyEffect launches w) {thread : ℕ} {req : OrderRequest} {response : Response}
    (hreq : launches[thread]? = some (.placeOrder req))
    (hthread : w.threads thread = some (.ret (some response))) {key : String}
    (hkey : truthy req.idempotencyKey = some key) :
    ∃ row ∈ w.shared.db.committed.orders, row.idempotencyKey = key := by
  have hholds : discipline.Holds w := Discipline.holds_of_reachable verified hw.reachable
  obtain ⟨row, hrow, hsame, -⟩ := hholds.post hthread response rfl
  exact ⟨row, hrow, hsame.trans (key_of_traced hw hreq hthread hkey)⟩

/-- An order is that of the request of its thread. -/
theorem orderOf_of_traced {launches : List Launch} {w : World service}
    (hw : Traced anyEffect launches w) {row : OrderRow}
    (hrow : row ∈ w.shared.db.committed.orders) {req : OrderRequest}
    (hreq : launches[row.xmin]? = some (.placeOrder req)) : OrderOf req row := by
  obtain ⟨author, hauthor, horder⟩ := author_of_traced hw hrow
  obtain rfl : author = req := Launch.placeOrder.inj (Option.some.inj (hauthor.symm.trans hreq))
  exact horder

/-! ### The guarantee -/

/-- What holds of the orders, the events and the answers in a world of the service, whose programs
were launched in this order. -/
structure Accepts (launches : List Launch) (w : World service) : Prop where
  /-- At most one order is recorded for an idempotency key. -/
  onePerKey : ∀ key,
    (w.shared.db.committed.orders.filter fun row ↦ row.idempotencyKey = key).length ≤ 1
  /-- An order is that of the request which its `xmin` names: under the key of the request, with its
  customer, restaurant, items and total. -/
  authored : ∀ row ∈ w.shared.db.committed.orders, Authored launches row
  /-- An order has exactly one `order.placed` event, with its id, key, items and total. -/
  eventOfOrder : ∀ row ∈ w.shared.db.committed.orders, ∃ event,
    (w.shared.db.committed.outbox.filter fun event ↦
      decide (event.payload.type = .placed ∧ event.payload.orderId = row.orderId)) = [event] ∧
      Announces event row
  /-- An `order.placed` event is that of an order. -/
  orderOfEvent : ∀ event ∈ w.shared.db.committed.outbox, event.payload.type = .placed →
    ∃ row ∈ w.shared.db.committed.orders, Announces event row
  total : ∀ row ∈ w.shared.db.committed.orders, row.totalCents = totalOfItems row.items
  /-- An answer is one to a request, and carries its key. -/
  key : ∀ thread response, w.threads thread = some (.ret (some response)) →
    ∃ req, launches[thread]? = some (.placeOrder req) ∧
      ∀ key, truthy req.idempotencyKey = some key → response.idempotencyKey = key
  /-- Every 200 or 202 answer for a key carries the order id recorded for it. -/
  answered : ∀ thread response, w.threads thread = some (.ret (some response)) →
    response.statusCode = 200 ∨ response.statusCode = 202 →
      ∃ row ∈ w.shared.db.committed.orders, row.idempotencyKey = response.idempotencyKey ∧
        row.orderId = response.orderId
  /-- A request is only told that it was accepted if it has written the order itself. -/
  accepted : ∀ thread response, w.threads thread = some (.ret (some response)) →
    response.status = "accepted" →
      ∃ row ∈ w.shared.db.committed.orders, row.orderId = response.orderId ∧ row.xmin = thread
  /-- At most one answer for a key says that it was accepted. -/
  acceptedOnce : ∀ thread thread' response response',
    w.threads thread = some (.ret (some response)) →
    w.threads thread' = some (.ret (some response')) →
    response.idempotencyKey = response'.idempotencyKey →
    response.status = "accepted" → response'.status = "accepted" → thread = thread'

/-- **Idempotent, atomic accept**: in every world the service reaches, whatever was launched. -/
theorem idempotentAtomicAccept {launches : List Launch} {w : World service}
    (hw : Traced anyEffect launches w) : Accepts launches w := by
  have hholds : discipline.Holds w := Discipline.holds_of_reachable verified hw.reachable
  have hsound : Sound w.shared := hholds.inv
  have hanswers : ∀ thread response, w.threads thread = some (.ret (some response)) →
      Answers thread response w.shared :=
    fun thread response h ↦ hholds.post h response rfl
  obtain ⟨horder, hevent⟩ := Table.exists_mem_of_forall₂ hsound.events
  constructor
  · exact fun key ↦ hsound.keys.length_filter_le_one key
  · exact fun row ↦ author_of_traced hw
  · intro row hrow
    obtain ⟨event, hmem, hannounces⟩ := hevent row hrow
    refine ⟨event, ?_, hannounces⟩
    rw [← (unique_events hsound).filter_eq_singleton hmem]
    refine List.filter_congr fun other hother ↦ ?_
    obtain ⟨order, -, hother'⟩ := horder other hother
    simp [hother'.type, hannounces.orderId]
  · exact fun event hmem _ ↦ horder event hmem
  · exact hsound.totals
  · intro thread response h
    obtain ⟨launched, hlaunched, hreturns⟩ := (authorship_enforced.kept hw).conduct thread _ h
    obtain ⟨req, rfl, hkeys⟩ := hreturns response rfl
    exact ⟨req, hlaunched, hkeys⟩
  · intro thread response h _
    obtain ⟨row, hrow, hkey, hid, -⟩ := hanswers thread response h
    exact ⟨row, hrow, hkey, hid⟩
  · intro thread response h hstatus
    obtain ⟨row, hrow, -, hid, hxmin⟩ := hanswers thread response h
    exact ⟨row, hrow, hid, hxmin hstatus⟩
  · intro thread thread' response response' h h' hkeys hstatus hstatus'
    obtain ⟨row, hrow, hkey, -, hxmin⟩ := hanswers thread response h
    obtain ⟨row', hrow', hkey', -, hxmin'⟩ := hanswers thread' response' h'
    have hrows : row = row' := hsound.keys.eq hrow hrow' (by rw [hkey, hkey', hkeys])
    rw [← hxmin hstatus, hrows, hxmin' hstatus']

def dinner : OrderRequest :=
  { customerId := "c", restaurantId := "r", items := [⟨"ramen", 2, 1450, by decide, by decide⟩],
    idempotencyKey := some "k", nonEmpty := by decide }

/-- Two requests under one key: the second waits for the first to commit, then reads its order; the
relay sends the event of the order. -/
def retriedPost : List (Action service) :=
  [.launch (.placeOrder dinner), .launch (.placeOrder dinner), .launch .drainOnce,
   .step 0 (.uuid "a"), .step 0 .done, .step 0 .done, .step 1 (.uuid "b"), .step 1 .done,
   .step 0 (.stamp ⟨"e", "t"⟩), .step 0 .done, .step 0 .done,
   .step 1 .done, .step 1 .done, .step 1 .done,
   .step 2 .done, .step 2 .done, .step 2 .done, .step 2 .done, .step 2 .done]

def retriedPostWorld : World service :=
  ((World.initial service).runPermitted anyEffect retriedPost).get (by decide)

theorem traced_retriedPostWorld :
    Traced anyEffect (retriedPost.flatMap launchOf) retriedPostWorld :=
  traced_of_runPermitted (Option.some_get _).symm

theorem idempotentAtomicAccept_retriedPostWorld :
    Accepts (retriedPost.flatMap launchOf) retriedPostWorld ∧
      retriedPostWorld.shared.db.committed.orders.length = 1 :=
  ⟨idempotentAtomicAccept traced_retriedPostWorld, by decide⟩

end DinnerRush.Ingestion
