import DinnerRush.CustomerWeb.Conserved
import DinnerRush.CustomerWeb.Retry
import DinnerRush.Orchestrator.Causality

/-!
# What a customer pays

The charges of the payment service against what was posted to ingestion, at the two ends of the
shop. A charge is for one order of ingestion, for the amount of its lines, and no idempotency key is
charged twice. So whatever becomes of the calls of a checkout, a customer never pays more for a cart
than its amount (`billed`), as long as its keys were used for this cart only; and what the live view
shows as accepted by a kitchen has been paid.
-/

set_option autoImplicit false
set_option relaxedAutoImplicit false

namespace DinnerRush

/-- The amount of an order that is posted is not negative. -/
theorem OrderRequest.totalCents_nonneg (request : OrderRequest) : 0 ≤ request.totalCents := by
  refine List.sum_nonneg fun amount hamount ↦ ?_
  obtain ⟨item, -, rfl⟩ := List.mem_map.mp hamount
  exact mul_nonneg (zero_le_one.trans item.one_le_qty) item.priceCents_nonneg

namespace CustomerWeb

open Concurrency
open Orchestrator (Config services)

variable {cfg : Config} {s : Shop cfg} {platform : Platform} {attempt : Attempt}
  {charge : Payment.ChargeRow} {row : Ingestion.OrderRow}

/-! ### The bill of a cart -/

/-- What the payment service has recorded. -/
def Shop.charges (s : Shop cfg) : List Payment.ChargeRow :=
  Orchestrator.charges s.pipeline.orch.shared

/-- What the kitchens and the couriers have recorded. -/
def Shop.dispatches (s : Shop cfg) : List Fulfillment.DispatchRow :=
  Orchestrator.tickets s.pipeline.orch.shared ++ Orchestrator.couriers s.pipeline.orch.shared

/-- The keys of the orders of a call. -/
def Attempt.keys (attempt : Attempt) : List String :=
  (byRestaurant attempt.input.items).map fun group ↦
    derivedKey attempt.cartKey group.restaurantId

/-- The orders under these keys, whoever has stored them. -/
def Storefront.ordersOf (s : Storefront) (attempt : Attempt) : List Ingestion.OrderRow :=
  s.orders.filter fun row ↦ row.idempotencyKey ∈ attempt.keys

/-- The charges for these orders that have succeeded. -/
def Shop.chargesOf (s : Shop cfg) (attempt : Attempt) : List Payment.ChargeRow :=
  s.charges.filter fun charge ↦ charge.status = .succeeded ∧
    ∃ row ∈ s.front.ordersOf attempt, row.orderId = charge.orderId

/-- What was paid for the cart of a call, by all calls together. -/
def Shop.paid (s : Shop cfg) (attempt : Attempt) : ℤ :=
  ((s.chargesOf attempt).map Payment.ChargeRow.amountCents).sum

/-- The order was read now or before, or it is shown as pending: it was not seeded yet, or could not
be read. -/
def Shop.Shown (s : Shop cfg) (order : TokenOrder) (fetched : Fetched) : Prop :=
  s.Read order fetched ∨ fetchOrder order fetched = pending order

/-- The kitchen has accepted its part of the cart. -/
def FulfillmentRow.accepted (row : FulfillmentRow) : Bool :=
  row.status ∈ ["placed", "preparing", "ready"]

/-! ### The orchestrator and its services within the shop -/

theorem Shop.Sound.composed (h : s.Sound) :
    Orchestrator.Sound (Orchestrator.composed cfg) s.pipeline.orch.shared :=
  ⟨h.records.tables, h.records.filed, h.records.effects, fun hstrict ↦ hstrict.elim⟩

/-- A charge is for an order of ingestion. -/
theorem Shop.Sound.order_of_charge (h : s.Sound) (hcharge : charge ∈ s.charges) :
    ∃ order ∈ s.front.orders, order.orderId = charge.orderId ∧
      order.totalCents = charge.amountCents := by
  obtain ⟨row, hrow, hid, hamount, -⟩ := Orchestrator.order_of_charge h.composed hcharge
  obtain ⟨order, horder, hsame⟩ := h.exists_order hrow
  exact ⟨order, horder, hsame.orderId.symm.trans hid.symm,
    hsame.totalCents.symm.trans hamount.symm⟩

theorem Shop.Sound.unique_charges (h : s.Sound) :
    Table.Unique Payment.ChargeRow.orderId s.charges :=
  Orchestrator.unique_charges h.composed

/-- An order that has its charge with the payment service is paid. -/
theorem Shop.Sound.paid_of_served (h : s.Sound) {row : Orchestrator.OrderRow}
    (hrow : row ∈ s.db.orders)
    (hserved : Orchestrator.Served s.pipeline.orch.shared row .payment) :
    ∃ order ∈ s.front.orders, order.orderId = row.orderId ∧ ∃ charge ∈ s.charges,
      charge.orderId = order.orderId ∧ charge.status = .succeeded ∧
        charge.amountCents = order.totalCents := by
  obtain ⟨order, horder, hsame⟩ := h.exists_order hrow
  obtain ⟨charge, hcharge, hid, -, hstatus, hamount⟩ := hserved
  exact ⟨order, horder, hsame.orderId.symm, charge, hcharge, hid.trans hsame.orderId, hstatus,
    hamount.trans hsame.totalCents⟩

/-- A dispatch is for an order that is paid. -/
theorem Shop.Sound.paid_of_dispatch (h : s.Sound) {dispatch : Fulfillment.DispatchRow}
    (hdispatch : dispatch ∈ s.dispatches) :
    ∃ order ∈ s.front.orders, order.orderId = dispatch.orderId ∧ ∃ charge ∈ s.charges,
      charge.orderId = order.orderId ∧ charge.status = .succeeded ∧
        charge.amountCents = order.totalCents := by
  have hservices := h.composed.effects.inv
  have hrow : ∃ row ∈ s.db.orders, row.orderId = dispatch.orderId ∧
      Orchestrator.Served s.pipeline.orch.shared row .payment := by
    rcases List.mem_append.mp hdispatch with hticket | hcourier
    · obtain ⟨row, hrow, hid, hserved⟩ := Orchestrator.served_of_dispatch h.composed .restaurant
        hservices.restaurant.inv rfl hticket
      exact ⟨row, hrow, hid, hserved .payment (by decide)⟩
    · obtain ⟨row, hrow, hid, hserved⟩ := Orchestrator.served_of_dispatch h.composed .courier
        hservices.courier.inv rfl hcourier
      exact ⟨row, hrow, hid, hserved .payment (by decide)⟩
  obtain ⟨row, hmem, hid, hserved⟩ := hrow
  rw [← hid]
  exact h.paid_of_served hmem hserved

/-! ### A cart is not paid twice -/

theorem Storefront.Sound.totalCents_nonneg {s : Storefront} (h : s.Sound) (hrow : row ∈ s.orders) :
    0 ≤ row.totalCents := by
  obtain ⟨launches, htraced, -⟩ := h
  obtain ⟨req, -, horder⟩ := Ingestion.author_of_traced htraced hrow
  rw [horder.totalCents]
  exact req.totalCents_nonneg

theorem Group.totalCents_nonneg (group : Group) : 0 ≤ group.totalCents := by
  rw [← totalCents_request group "" ""]
  exact OrderRequest.totalCents_nonneg _

/-- What was paid for a cart is at most what is stored under its keys. -/
theorem Shop.Sound.paid_le_stored (h : s.Sound) (attempt : Attempt) :
    s.paid attempt ≤ ((s.front.ordersOf attempt).map Ingestion.OrderRow.totalCents).sum := by
  have hfound : ∀ charge ∈ s.chargesOf attempt, ∃ row ∈ s.front.ordersOf attempt,
      row.orderId = charge.orderId ∧ row.totalCents = charge.amountCents := by
    intro charge hcharge
    obtain ⟨hmem, hkept⟩ := List.mem_filter.mp hcharge
    obtain ⟨-, row, hrow, hid⟩ := of_decide_eq_true hkept
    obtain ⟨order, horder, hsame, hamount⟩ := h.order_of_charge hmem
    have hrows : row = order := h.front.inv.orderIds.eq (List.mem_filter.mp hrow).1 horder
      (hid.trans hsame.symm)
    exact ⟨row, hrow, hid, hrows ▸ hamount⟩
  exact Table.Unique.sum_le (h.unique_charges.filter _) hfound fun row hrow ↦
    h.front.totalCents_nonneg (List.mem_filter.mp hrow).1

/-- An order under the keys of a call is that of one of its groups. -/
theorem exists_rowOf {s : Storefront} (hrow : row ∈ s.ordersOf attempt) :
    ∃ group ∈ byRestaurant attempt.input.items, RowOf s attempt group row := by
  obtain ⟨hmem, hkey⟩ := List.mem_filter.mp hrow
  obtain ⟨group, hgroup, hsame⟩ := List.mem_map.mp (of_decide_eq_true hkey)
  exact ⟨group, hgroup, hmem, hsame.symm⟩

theorem RowOf.mem_ordersOf {s : Storefront} {group : Group} (h : RowOf s attempt group row)
    (hgroup : group ∈ byRestaurant attempt.input.items) : row ∈ s.ordersOf attempt :=
  List.mem_filter.mpr
    ⟨h.mem, decide_eq_true (List.mem_map.mpr ⟨group, hgroup, h.key.symm⟩)⟩

/-- What is stored under the keys of a cart that was found alike is at most its amount. -/
theorem Shop.Sound.stored_le_cartTotal (h : s.Sound) (hattempt : attempt ∈ s.attempts)
    (halike : FoundAlike s.front attempt) :
    ((s.front.ordersOf attempt).map Ingestion.OrderRow.totalCents).sum ≤
      cartTotal attempt.input.items := by
  obtain ⟨launches, htraced, hattempts⟩ := h.front
  have hgroups : ∀ row ∈ s.front.ordersOf attempt, ∃ group ∈ byRestaurant attempt.input.items,
      derivedKey attempt.cartKey group.restaurantId = row.idempotencyKey ∧
        group.totalCents = row.totalCents := by
    intro row hrow
    obtain ⟨group, hgroup, hrowOf⟩ := exists_rowOf hrow
    have hplaced :=
      (hattempts attempt hattempt).asPlaced htraced h.front.inv halike hgroup hrowOf
    exact ⟨group, hgroup, hrowOf.key.symm, hplaced.totalCents.symm⟩
  rw [← sum_byRestaurant]
  exact Table.Unique.sum_le (h.front.inv.keys.filter _) hgroups fun group _ ↦
    group.totalCents_nonneg

/-- What the calls of one cart have stored under its keys was found alike. -/
theorem Shop.Sound.foundAlike_of_storedFor (h : s.Sound) (hattempt : attempt ∈ s.attempts)
    {key : String} (hkey : attempt.input.idempotencyKey = some key)
    (hstored : ∀ row ∈ s.front.ordersOf attempt, ∃ restaurantId,
      s.front.storedFor attempt.input restaurantId row = true) : FoundAlike s.front attempt := by
  obtain ⟨launches, htraced, hattempts⟩ := h.front
  intro group hgroup row hfound
  have hfoundKey := List.find?_some hfound
  rw [Bool.and_eq_true, decide_eq_true_eq] at hfoundKey
  have hrow : RowOf s.front attempt group row :=
    ⟨List.mem_of_find?_eq_some hfound, hfoundKey.1⟩
  obtain ⟨restaurantId, hwritten⟩ := hstored row (hrow.mem_ordersOf hgroup)
  obtain ⟨other, hother, hposted⟩ := List.any_eq_true.mp hwritten
  rw [Bool.and_eq_true, decide_eq_true_eq] at hposted
  obtain ⟨hinput, hposts⟩ := hposted
  obtain ⟨post, hpost, hthread⟩ := List.any_eq_true.mp hposts
  rw [decide_eq_true_eq] at hthread
  -- The POST that has stored the order is that of the same group.
  have hsound := hattempts other hother
  have hwrote := hsound.orderOf htraced hpost hrow.mem hthread.2
  have hcartKey : other.cartKey = attempt.cartKey := by
    rw [hsound.key key (by rw [hinput, hkey]), (hattempts attempt hattempt).key key hkey]
  have hpostKey := hsound.idempotencyKey_eq htraced hpost hrow.mem hthread.2
  rw [hrow.key, hcartKey] at hpostKey
  have hposted : post.group ∈ byRestaurant attempt.input.items := by
    rw [← hinput, ← hsound.groups]
    exact List.mem_map_of_mem hpost
  have hsame : group = post.group :=
    List.inj_on_of_nodup_map (grouped_byRestaurant attempt.input.items).nodup hgroup hposted
      (derivedKey_inj hpostKey)
  rw [hsame]
  exact ⟨hwrote.restaurantId, hwrote.items⟩

/-! ### What the customer sees has been paid -/

/-- What was read is an order that the orchestrator had then. -/
theorem exists_of_read {order : TokenOrder} {fetched : Fetched} (hread : s.Read order fetched) :
    ∃ earlier : Shop cfg, (shop cfg).Reachable Transitions.anyAction earlier ∧
      Relation.ReflTransGen ((shop cfg).Step Transitions.anyAction) earlier s ∧
      ∃ found ∈ earlier.db.orders, found.orderId = order.id ∧
        (fetchOrder order fetched).order = ⟨found.orderId, found.state.value, found.customerId,
          found.restaurantId, found.items, found.totalCents⟩ := by
  obtain ⟨earlier, hearlier, hsteps, ⟨seeded, hseeded, hid⟩, later, rfl⟩ := hread
  refine ⟨earlier, hearlier, hsteps, ?_⟩
  have huuid : isUuid order.id = true :=
    hid ▸ (Shop.sound_of_reachable hearlier).records.tables.orderIds seeded hseeded
  unfold getOrder
  rw [if_pos huuid]
  cases hfind : Table.find Orchestrator.OrderRow.orderId order.id earlier.db.orders with
  | none => exact absurd hid (Table.find_none.mp hfind seeded hseeded)
  | some found =>
    obtain ⟨hfound, hfoundId⟩ := Table.find_some hfind
    exact ⟨found, hfound, hfoundId, rfl⟩

theorem orderId_of_shown {order : TokenOrder} {fetched : Fetched}
    (hshown : s.Shown order fetched) : (fetchOrder order fetched).order.orderId = order.id := by
  rcases hshown with hread | hpending
  · obtain ⟨-, -, -, found, -, hid, hsame⟩ := exists_of_read hread
    rw [hsame]
    exact hid
  · rw [hpending]
    rfl

/-- A kitchen that has accepted an order is that of an order which has been confirmed. -/
theorem confirmed_of_accepted {state : State}
    (h : kitchenFromState state.value ∈ ["placed", "preparing", "ready"]) :
    state ∈ happyPath ∧ State.confirmed.depth ≤ state.depth := by
  revert h
  cases state <;> decide

theorem read_of_accepted {order : TokenOrder} {fetched : Fetched} (hshown : s.Shown order fetched)
    (haccepted : (fulfillmentRow (fetchOrder order fetched).order).accepted = true) :
    s.Read order fetched := by
  refine hshown.resolve_right fun hpending ↦ ?_
  rw [hpending] at haccepted
  cases haccepted

/-- An order that was shown as accepted was charged what was shown. -/
theorem Shop.Sound.charge_of_accepted (h : s.Sound) {order : TokenOrder} {fetched : Fetched}
    (hread : s.Read order fetched)
    (haccepted : (fulfillmentRow (fetchOrder order fetched).order).accepted = true) :
    ∃ charge ∈ s.charges, charge.status = .succeeded ∧ charge.orderId = order.id ∧
      charge.amountCents = (fetchOrder order fetched).order.totalCents := by
  obtain ⟨earlier, hearlier, hsteps, found, hfound, hid, hsame⟩ := exists_of_read hread
  rw [hsame] at haccepted ⊢
  obtain ⟨hhappy, hdepth⟩ := confirmed_of_accepted (of_decide_eq_true haccepted)
  have hgrows := Shop.grows_of_steps hearlier hsteps
  have hentered :=
    ((Shop.sound_of_reachable hearlier).records.tables.ledger.entered hfound).grows hgrows
  obtain ⟨row, hrow, hcore⟩ := hgrows.orders found hfound
  have hrowId := Orchestrator.orderId_of_core hcore
  rw [← hrowId] at hentered
  obtain ⟨charge, hcharge, hchargeId, -, hstatus, hamount⟩ :=
    Orchestrator.served_of_entered h.composed hrow .payment hhappy hentered hdepth
  have htotal : row.core.totalCents = found.core.totalCents :=
    congrArg Orchestrator.OrderRow.totalCents hcore
  exact ⟨charge, hcharge, hstatus, hchargeId.trans (hrowId.trans hid), hamount.trans htotal⟩

/-- The orders that a call has placed are stored under its keys and have ids of their own. -/
theorem Attempt.Sound.placed_orders {s : Storefront} {launches : List Ingestion.Launch}
    (hinv : Ingestion.Sound s.ingestion.shared) (h : attempt.Sound launches s.orders)
    (hreturns : attempt.returns = true) :
    (∀ order ∈ attempt.placed, ∃ row ∈ s.ordersOf attempt, row.orderId = order.id) ∧
      (attempt.placed.map TokenOrder.id).Nodup := by
  have hnodup := h.nodup_placed hreturns
  constructor
  · intro order horder
    obtain ⟨row, hrow, hkey, hid⟩ := h.stored order horder
    obtain ⟨group, hgroup, hr⟩ :=
      List.mem_map.mp ((h.perm_placed hreturns).mem_iff.mp (List.mem_map_of_mem horder))
    rw [← hr] at hkey
    exact ⟨row, RowOf.mem_ordersOf ⟨hrow, hkey⟩ hgroup, hid⟩
  · refine hnodup.of_map.map_on fun order horder other hother hids ↦ ?_
    obtain ⟨row, hrow, hkey, hid⟩ := h.stored order horder
    obtain ⟨row', hrow', hkey', hid'⟩ := h.stored other hother
    have hrows : row = row' := hinv.orderIds.eq hrow hrow' (by rw [hid, hid', hids])
    have hr : order.r = other.r := by
      rw [hrows, hkey'] at hkey
      exact derivedKey_inj hkey.symm
    exact List.inj_on_of_nodup_map hnodup horder hother hr

/-- The views are of the orders of the token. -/
theorem views_of_shown {orders : List TokenOrder} {fetched : List Fetched}
    (hshown : List.Forall₂ s.Shown orders fetched) :
    (orders.zipWith fetchOrder fetched).map (fun view ↦ view.order.orderId) =
        orders.map TokenOrder.id ∧
      ∀ view ∈ orders.zipWith fetchOrder fetched, ∃ order ∈ orders, ∃ answer,
        s.Shown order answer ∧ view = fetchOrder order answer := by
  induction hshown with
  | nil => exact ⟨rfl, fun _ hview ↦ absurd hview List.not_mem_nil⟩
  | @cons order answer rest answers hhead _ ih =>
    constructor
    · rw [List.zipWith_cons_cons, List.map_cons, List.map_cons, orderId_of_shown hhead, ih.1]
    · intro view hview
      rcases List.mem_cons.mp hview with rfl | hlater
      · exact ⟨order, List.mem_cons_self, answer, hhead, rfl⟩
      · obtain ⟨other, hother, found⟩ := ih.2 view hlater
        exact ⟨other, List.mem_cons_of_mem order hother, found⟩

/-- A view of accepted orders only has read them all. -/
theorem forall₂_read_of_accepted {orders : List TokenOrder} {fetched : List Fetched}
    (hshown : List.Forall₂ s.Shown orders fetched)
    (haccepted : ∀ view ∈ orders.zipWith fetchOrder fetched,
      (fulfillmentRow view.order).accepted = true) : List.Forall₂ s.Read orders fetched := by
  induction hshown with
  | nil => exact .nil
  | cons hhead _ ih =>
    rw [List.zipWith_cons_cons, List.forall_mem_cons] at haccepted
    exact .cons (read_of_accepted hhead haccepted.1) (ih haccepted.2)

/-- What the view shows as accepted was paid. -/
theorem Shop.Sound.shown_le_paid (h : s.Sound) (hattempt : attempt ∈ s.attempts)
    (hreturns : attempt.returns = true) {fetched : List Fetched}
    (hshown : List.Forall₂ s.Shown (attempt.token platform).o fetched) :
    (((composeCartView (some (attempt.token platform)) fetched).fulfillments.filter
      FulfillmentRow.accepted).map FulfillmentRow.subtotalCents).sum ≤ s.paid attempt := by
  obtain ⟨launches, htraced, hattempts⟩ := h.front
  obtain ⟨hplaced, hids⟩ :=
    (hattempts attempt hattempt).placed_orders h.front.inv hreturns
  obtain ⟨hviews, hmem⟩ := views_of_shown hshown
  have hperm := perm_token attempt platform
  have hunique : Table.Unique FulfillmentRow.id
      (composeCartView (some (attempt.token platform)) fetched).fulfillments := by
    have hmap : (composeCartView (some (attempt.token platform)) fetched).fulfillments.map
        FulfillmentRow.id = (attempt.token platform).o.map TokenOrder.id := by
      rw [← hviews]
      exact List.map_map
    rw [Table.Unique, hmap]
    exact (hperm.map TokenOrder.id).nodup_iff.mpr hids
  have hcharged : ∀ row ∈ (composeCartView (some (attempt.token platform))
      fetched).fulfillments.filter FulfillmentRow.accepted, ∃ charge ∈ s.chargesOf attempt,
        charge.orderId = row.id ∧ charge.amountCents = row.subtotalCents := by
    intro row hrow
    obtain ⟨hrowOf, haccepted⟩ := List.mem_filter.mp hrow
    obtain ⟨view, hview, rfl⟩ := List.mem_map.mp hrowOf
    obtain ⟨order, horder, answer, hanswer, rfl⟩ := hmem view hview
    obtain ⟨charge, hcharge, hstatus, hid, hamount⟩ :=
      h.charge_of_accepted (read_of_accepted hanswer haccepted) haccepted
    obtain ⟨stored, hstored, hstoredId⟩ := hplaced order (hperm.mem_iff.mp horder)
    refine ⟨charge, List.mem_filter.mpr ⟨hcharge, decide_eq_true ⟨hstatus, stored, hstored, ?_⟩⟩,
      ?_, hamount⟩
    · exact hstoredId.trans hid.symm
    · exact hid.trans (orderId_of_shown hanswer).symm
  refine Table.Unique.sum_le (hunique.filter _) hcharged fun charge hcharge ↦ ?_
  obtain ⟨order, horder, -, hamount⟩ := h.order_of_charge (List.mem_filter.mp hcharge).1
  rw [← hamount]
  exact h.front.totalCents_nonneg horder

/-- The amounts that are stored for the orders of a token add up to the cart. -/
theorem Shop.Sound.sum_storedTotal (h : s.Sound) (hattempt : attempt ∈ s.attempts)
    (hreturns : attempt.returns = true) (halike : FoundAlike s.front attempt) :
    ((attempt.token platform).o.map fun order ↦ s.front.storedTotal order.id).sum =
      cartTotal attempt.input.items := by
  obtain ⟨launches, htraced, hattempts⟩ := h.front
  have hsound := hattempts attempt hattempt
  obtain ⟨rowOf, hrowOf⟩ := hsound.exists_rowOf hreturns
  have hperm : (attempt.token platform).o.Perm _ :=
    hsound.perm_orders h.front.inv hreturns hrowOf
  rw [(hperm.map fun order ↦ s.front.storedTotal order.id).sum_eq, List.map_map,
    ← sum_byRestaurant]
  refine congrArg List.sum (List.map_congr_left fun group hgroup ↦ ?_)
  have hplaced := hsound.asPlaced htraced h.front.inv halike hgroup (hrowOf group hgroup)
  exact ((hrowOf group hgroup).storedTotal_eq h.front.inv).trans hplaced.totalCents

/-! ### What a customer pays -/

/-- The records of the services, against what was posted to ingestion. -/
structure Billed (platform : Platform) (s : Shop cfg) : Prop where
  /-- A charge is for an order of ingestion, for the amount of its lines. -/
  posted : ∀ charge ∈ s.charges, ∃ order ∈ s.front.orders, order.orderId = charge.orderId ∧
    charge.amountCents = totalOfItems order.items
  /-- No idempotency key is charged twice. -/
  once : ∀ key, (s.charges.filter fun charge ↦ ∃ order ∈ s.front.orders,
    order.orderId = charge.orderId ∧ order.idempotencyKey = key).length ≤ 1
  /-- Nothing is cooked or delivered that was not posted and paid. -/
  served : ∀ dispatch ∈ s.dispatches, ∃ order ∈ s.front.orders,
    order.orderId = dispatch.orderId ∧ ∃ charge ∈ s.charges, charge.orderId = order.orderId ∧
      charge.status = .succeeded ∧ charge.amountCents = order.totalCents
  /-- At every moment at most what is stored for a cart was paid for it. -/
  stored : ∀ attempt ∈ s.attempts,
    s.paid attempt ≤ ((s.front.ordersOf attempt).map Ingestion.OrderRow.totalCents).sum
  /-- It is at most the amount of the cart, if its keys were used for this cart only. -/
  cart : ∀ attempt ∈ s.attempts, FoundAlike s.front attempt →
    s.paid attempt ≤ cartTotal attempt.input.items
  /-- So it is, however often the cart was placed under its key. -/
  retried : ∀ attempt ∈ s.attempts, ∀ key, attempt.input.idempotencyKey = some key →
    (∀ row ∈ s.front.ordersOf attempt, ∃ restaurantId,
      s.front.storedFor attempt.input restaurantId row = true) →
      s.paid attempt ≤ cartTotal attempt.input.items
  /-- What the live view shows as accepted was paid. -/
  shown : ∀ attempt ∈ s.attempts, ∀ result, attempt.result platform = some result →
    ∀ fetched, List.Forall₂ s.Shown (attempt.token platform).o fetched →
      (((composeCartView (some (attempt.token platform)) fetched).fulfillments.filter
        FulfillmentRow.accepted).map FulfillmentRow.subtotalCents).sum ≤ s.paid attempt
  /-- When every kitchen has accepted a cart whose keys were used for this cart only (`FoundAlike`),
  exactly what `placeCart` has reported was paid. -/
  settled : ∀ attempt ∈ s.attempts, ∀ result, attempt.result platform = some result →
    FoundAlike s.front attempt →
      ∀ fetched, List.Forall₂ s.Shown (attempt.token platform).o fetched →
        (∀ row ∈ (composeCartView (some (attempt.token platform)) fetched).fulfillments,
          row.accepted = true) → s.paid attempt = result.totalCents

/-- **What a customer pays**, in every run of the shop. -/
theorem billed (platform : Platform) (hs : (shop cfg).Reachable Transitions.anyAction s) :
    Billed platform s := by
  have hshop := Shop.sound_of_reachable hs
  have hinv : Ingestion.Sound s.front.ingestion.shared := hshop.front.inv
  have hcart : ∀ attempt ∈ s.attempts, FoundAlike s.front attempt →
      s.paid attempt ≤ cartTotal attempt.input.items := fun attempt hattempt halike ↦
    (hshop.paid_le_stored attempt).trans (hshop.stored_le_cartTotal hattempt halike)
  constructor
  · intro charge hcharge
    obtain ⟨order, horder, hid, hamount⟩ := hshop.order_of_charge hcharge
    exact ⟨order, horder, hid, hamount.symm.trans (hinv.totals order horder)⟩
  · intro key
    by_cases hused : ∃ order ∈ s.front.orders, order.idempotencyKey = key
    · obtain ⟨order, horder, rfl⟩ := hused
      have hfilter : (s.charges.filter fun charge ↦ ∃ other ∈ s.front.orders,
          other.orderId = charge.orderId ∧ other.idempotencyKey = order.idempotencyKey) =
          s.charges.filter fun charge ↦ charge.orderId = order.orderId := by
        refine List.filter_congr fun charge hcharge ↦ decide_eq_decide.mpr ⟨?_, fun hid ↦ ?_⟩
        · rintro ⟨other, hother, hid, hkey⟩
          rw [← hid, hinv.keys.eq hother horder hkey]
        · exact ⟨order, horder, hid.symm, rfl⟩
      rw [hfilter]
      exact hshop.unique_charges.length_filter_le_one _
    · have hnone : (s.charges.filter fun charge ↦ ∃ other ∈ s.front.orders,
          other.orderId = charge.orderId ∧ other.idempotencyKey = key) = [] := by
        refine List.filter_eq_nil_iff.mpr fun charge hcharge hmatch ↦ hused ?_
        obtain ⟨other, hother, -, hkey⟩ := of_decide_eq_true hmatch
        exact ⟨other, hother, hkey⟩
      rw [hnone]
      exact Nat.zero_le 1
  · exact fun dispatch hdispatch ↦ hshop.paid_of_dispatch hdispatch
  · exact fun attempt _ ↦ hshop.paid_le_stored attempt
  · exact hcart
  · exact fun attempt hattempt key hkey hstored ↦
      hcart attempt hattempt (hshop.foundAlike_of_storedFor hattempt hkey hstored)
  · intro attempt hattempt result hresult fetched hshown
    exact hshop.shown_le_paid hattempt (Attempt.result_eq hresult).1 hshown
  · intro attempt hattempt result hresult halike fetched hshown haccepted
    obtain ⟨hreturns, rfl⟩ := Attempt.result_eq hresult
    obtain ⟨launches, -, hattempts⟩ := hshop.front
    have htotal : attempt.totalCents = cartTotal attempt.input.items :=
      (hattempts attempt hattempt).totalCents_eq hreturns
    have hpaid := hshop.shown_le_paid hattempt hreturns hshown
    have hread := forall₂_read_of_accepted hshown fun view hview ↦
      haccepted _ (List.mem_map_of_mem hview)
    -- Everything is shown, and it is shown with what is stored.
    have hsum : ((composeCartView (some (attempt.token platform)) fetched).fulfillments.map
        FulfillmentRow.subtotalCents).sum = cartTotal attempt.input.items := by
      rw [← hshop.sum_storedTotal hattempt hreturns halike, ← map_totalCents_views hshop hread]
      exact congrArg List.sum List.map_map
    rw [List.filter_eq_self.mpr haccepted, hsum] at hpaid
    exact (le_antisymm (hcart attempt hattempt halike) hpaid).trans htotal.symm

/-! ### Both restaurants are paid -/

/-- The payment service takes a request and records the charge. -/
def paying (request : ℕ) (uuid : String) : List (Shop.Action {}) :=
  ([.core {}, .done, .core {}, .core { delay := 300 }, .core {}, .uuid uuid, .done] :
    List Payment.Choice).map fun choice ↦
      .orch (.ambient (.downstream (.payment (.step request choice))))

/-- A handler has the answer of the payment service and confirms its order. -/
def confirming (thread : ℕ) (intent : String) (amount : ℤ) : List (Shop.Action {}) :=
  ([.response ⟨200, some { id := some intent, amount := some amount }, none⟩] ++
    List.replicate 6 .done ++ [.stamp ⟨"c", "t"⟩, .done, .stamp ⟨"d", "t"⟩] ++
    List.replicate 4 .done : List Orchestrator.Choice).map fun choice ↦ .orch (.step thread choice)

def paidShop : Shop {} :=
  ((shop {}).run lunchShop (paying 0 "a" ++ paying 1 "b" ++ confirming 4 "pi_a" 29000 ++
    confirming 5 "pi_b" 4800)).get (by decide +kernel)

theorem billed_paidShop : Billed lunchNode paidShop ∧
    paidShop.attempts.map paidShop.paid = [33800] ∧
    (paidShop.attempts.map fun attempt ↦ cartTotal attempt.input.items) = [33800] ∧
    paidShop.db.orders.map Orchestrator.OrderRow.state = [.confirmed, .confirmed] := by
  refine ⟨billed lunchNode ?_, by decide +kernel, by decide +kernel, by decide +kernel⟩
  exact (Transitions.reachable_of_run (Option.some_get _).symm).trans
    (Transitions.reflTransGen_of_run (Option.some_get _).symm)

end CustomerWeb

end DinnerRush
