import DinnerRush.CustomerWeb.Separate
import DinnerRush.CustomerWeb.Shop
import Mathlib.Algebra.Order.BigOperators.Group.List

/-!
# Money is conserved

The amount of a cart is computed by `placeCart`, split over the restaurants, computed again and
stored by ingestion, carried by the placed events, stored by the orchestrator, asked of the payment
service and added up again by `composeCartView`. All of them agree, exactly when what `placeCart`
has found under its keys is as it would have placed it, and the amount is one that JavaScript adds
up exactly (`moneyConserved_iff`). It is for every cart of up to 2^22 restaurants
(`isSafeInteger_of_length_le`).
-/

set_option autoImplicit false
set_option relaxedAutoImplicit false

namespace DinnerRush.CustomerWeb

open Concurrency
open Orchestrator (Config orchestrator services noCommands)

variable {cfg : Config} {s : Shop cfg} {platform : Platform} {attempt : Attempt} {group : Group}
  {row : Ingestion.OrderRow} {launches : List Ingestion.Launch} {items : List CartLine}

/-- `Number.isSafeInteger`: a number that is not rounded. -/
def isSafeInteger (value : ℤ) : Bool := decide (-(2 ^ 53 - 1) ≤ value ∧ value ≤ 2 ^ 53 - 1)

/-- The lines of a restaurant as ingestion stores them. -/
def storedLines (restaurantId : String) (items : List CartLine) : List Item :=
  (linesOf restaurantId items).map fun line ↦ line.ingestItem.modelDump

/-- What is claimed of a cart for which `placeCart` has returned. -/
structure MoneyConserved (platform : Platform) (s : Shop cfg) (items : List CartLine)
    (result : PlaceOrderResult) (token : CartToken) : Prop where
  decodes : decodeCart platform result.orderId = some token
  nodup : (token.o.map TokenOrder.r).Nodup
  restaurants : ∀ r, r ∈ token.o.map TokenOrder.r ↔ ∃ line ∈ items, line.restaurantId = r
  orders : ∀ order ∈ token.o, ∃ row ∈ s.front.orders, row.orderId = order.id ∧
    row.restaurantId = order.r ∧ row.items = storedLines order.r items
  cart : result.totalCents = cartTotal items
  stored : result.totalCents = (token.o.map fun order ↦ s.front.storedTotal order.id).sum
  /-- Whenever the orders were read, the view has the amount. -/
  view : ∀ fetched, List.Forall₂ s.Read token.o fetched →
    (composeCartView (decodeCart platform result.orderId) fetched).order.map OrderRow.totalCents =
      some result.totalCents
  /-- Whatever was asked of the payment service for the orders adds up to the amount. -/
  charged : ∀ amount : TokenOrder → ℤ, (∀ order ∈ token.o, s.Asked order.id (amount order)) →
    (token.o.map amount).sum = result.totalCents
  fits : ∀ order ∈ token.o, fitsInt (s.front.storedTotal order.id) = true
  /-- Whichever lines were added up, in whatever order, the sum is not rounded. -/
  exact : ∀ lines : List CartLine, lines.Subperm items → isSafeInteger (cartTotal lines) = true

/-- What other requests have stored under the keys of the cart is for the same restaurants and
lines. -/
def FoundAlike (s : Storefront) (attempt : Attempt) : Prop :=
  ∀ group ∈ byRestaurant attempt.input.items, ∀ row, s.found attempt group = some row →
    row.restaurantId = group.restaurantId ∧ row.items = group.items.map OrderItem.modelDump

/-- A cart whose keys nobody else has used. -/
theorem foundAlike_of_fresh {s : Storefront}
    (h : ∀ group ∈ byRestaurant attempt.input.items, s.found attempt group = none) :
    FoundAlike s attempt := by
  intro group hgroup row hfound
  rw [h group hgroup] at hfound
  cases hfound

/-! ### Amounts that are added up exactly -/

theorem amounts_nonneg (items : List CartLine) :
    ∀ amount ∈ items.map fun line ↦ line.qty * line.unitPriceCents, 0 ≤ amount := by
  intro amount hamount
  obtain ⟨line, -, rfl⟩ := List.mem_map.mp hamount
  exact mul_nonneg line.qty_pos.le line.unitPriceCents_nonneg

/-- A part of a cart has no larger amount. -/
theorem cartTotal_le_of_subperm {lines : List CartLine} (h : lines.Subperm items) :
    cartTotal lines ≤ cartTotal items := by
  obtain ⟨kept, hperm, hsublist⟩ := h
  have hsum : cartTotal kept = cartTotal lines :=
    (hperm.map fun line : CartLine ↦ line.qty * line.unitPriceCents).sum_eq
  rw [← hsum]
  exact (hsublist.map _).sum_le_sum (amounts_nonneg items)

theorem isSafeInteger_of_subperm {lines : List CartLine} (h : lines.Subperm items)
    (hitems : isSafeInteger (cartTotal items) = true) : isSafeInteger (cartTotal lines) = true := by
  rw [isSafeInteger, decide_eq_true_eq] at hitems ⊢
  have hle := cartTotal_le_of_subperm h
  have hnonneg : 0 ≤ cartTotal lines := List.sum_nonneg (amounts_nonneg lines)
  omega

/-! ### The order of a group -/

/-- The row is as `placeCart` asks for it. -/
structure AsPlaced (group : Group) (row : Ingestion.OrderRow) : Prop where
  restaurantId : row.restaurantId = group.restaurantId
  items : row.items = group.items.map OrderItem.modelDump
  totalCents : row.totalCents = group.totalCents

theorem asPlaced_of_items (hinv : Ingestion.Sound s.front.ingestion.shared)
    (hrow : row ∈ s.front.orders) (hrestaurant : row.restaurantId = group.restaurantId)
    (hitems : row.items = group.items.map OrderItem.modelDump) : AsPlaced group row where
  restaurantId := hrestaurant
  items := hitems
  totalCents := by
    rw [hinv.totals row hrow, hitems, ← totalCents_request group "" "",
      ← totalOfItems_modelDump (group.request "" "")]
    rfl

/-- What was found alike and what the call wrote is as placed. -/
theorem Attempt.Sound.asPlaced (hw : World.Traced World.anyEffect launches s.front.ingestion)
    (hinv : Ingestion.Sound s.front.ingestion.shared) (h : attempt.Sound launches s.front.orders)
    (halike : FoundAlike s.front attempt) (hgroup : group ∈ byRestaurant attempt.input.items)
    (hrow : RowOf s.front attempt group row) : AsPlaced group row := by
  rcases h.found_cases hw hinv hgroup hrow with ⟨-, hfound⟩ | ⟨-, -, horder⟩
  · obtain ⟨hrestaurant, hitems⟩ := halike group hgroup row hfound
    exact asPlaced_of_items hinv hrow.mem hrestaurant hitems
  · exact asPlaced_of_items hinv hrow.mem horder.restaurantId horder.items

theorem storedLines_eq (hgroup : group ∈ byRestaurant items) :
    group.items.map OrderItem.modelDump = storedLines group.restaurantId items := by
  rw [(grouped_byRestaurant items).items group hgroup, List.map_map]
  rfl

/-! ### The orchestrator and the view agree with what is stored -/

/-- The amount of an order of the orchestrator is what ingestion has stored. -/
theorem Shop.Sound.storedTotal_eq (h : s.Sound) {row : Orchestrator.OrderRow}
    (hrow : row ∈ s.db.orders) : s.front.storedTotal row.orderId = row.totalCents := by
  obtain ⟨order, horder, hsame⟩ := h.exists_order hrow
  have hfind : Table.find Ingestion.OrderRow.orderId order.orderId s.front.orders = some order :=
    h.front.inv.orderIds.find_of_mem horder
  rw [Storefront.storedTotal, hsame.orderId, hfind, hsame.totalCents]
  rfl

theorem Shop.Sound.storedTotal_of_read (h : s.Sound) {order : TokenOrder} {fetched : Fetched}
    (hread : s.Read order fetched) :
    (fetchOrder order fetched).order.totalCents = s.front.storedTotal order.id := by
  obtain ⟨row, hrow, hid, htotal⟩ := Shop.amount_of_read hread
  rw [htotal, ← hid, h.storedTotal_eq hrow]

theorem Shop.Sound.storedTotal_of_asked (h : s.Sound) {orderId : String} {amount : ℤ}
    (hasked : s.Asked orderId amount) : amount = s.front.storedTotal orderId := by
  obtain ⟨row, hrow, hid, htotal⟩ := h.amount_of_asked hasked
  rw [← htotal, ← hid, h.storedTotal_eq hrow]

/-- The amounts of the views, one by one. -/
theorem map_totalCents_views (h : s.Sound) {orders : List TokenOrder} {fetched : List Fetched}
    (hread : List.Forall₂ s.Read orders fetched) :
    (orders.zipWith fetchOrder fetched).map (fun view ↦ view.order.totalCents) =
      orders.map fun order ↦ s.front.storedTotal order.id := by
  induction hread with
  | nil => rfl
  | cons hhead _ ih =>
    rw [List.zipWith_cons_cons, List.map_cons, List.map_cons, ih, h.storedTotal_of_read hhead]

theorem totalCents_view (h : s.Sound) {token : CartToken} {fetched : List Fetched}
    (hread : List.Forall₂ s.Read token.o fetched) :
    (composeCartView (some token) fetched).order.map OrderRow.totalCents =
      some (token.o.map fun order ↦ s.front.storedTotal order.id).sum := by
  rw [← map_totalCents_views h hread]
  rfl

theorem decodeCart_encodeCart {token : CartToken}
    (hround : platform.read (encodeCart platform token) = some ⟨1, token.hc, some token.o⟩) :
    decodeCart platform (encodeCart platform token) = some token := by
  unfold decodeCart
  rw [hround]
  rfl

/-! ### The amounts agree -/

/-- **Money is conserved** through the fan-out, exactly when what the call has found is as it would
have placed it and its amount is not rounded. -/
theorem moneyConserved_iff (hs : (shop cfg).Reachable Transitions.anyAction s)
    (hattempt : attempt ∈ s.attempts) {result : PlaceOrderResult}
    (hresult : attempt.result platform = some result)
    (hround : platform.read (encodeCart platform (attempt.token platform)) =
      some ⟨1, (attempt.token platform).hc, some (attempt.token platform).o⟩) :
    MoneyConserved platform s attempt.input.items result (attempt.token platform) ↔
      FoundAlike s.front attempt ∧ isSafeInteger (cartTotal attempt.input.items) = true := by
  have hshop := Shop.sound_of_reachable hs
  obtain ⟨launches, htraced, hattempts⟩ := hshop.front
  have hinv : Ingestion.Sound s.front.ingestion.shared := hshop.front.inv
  have hsound := hattempts attempt hattempt
  obtain ⟨hreturns, rfl⟩ := Attempt.result_eq hresult
  obtain ⟨rowOf, hrowOf⟩ := hsound.exists_rowOf hreturns
  have hperm : (attempt.token platform).o.Perm _ := hsound.perm_orders hinv hreturns hrowOf
  have hmem : ∀ group ∈ byRestaurant attempt.input.items,
      ⟨(rowOf group).orderId, group.restaurantId⟩ ∈ (attempt.token platform).o :=
    fun group hgroup ↦ hperm.mem_iff.mpr (List.mem_map_of_mem hgroup)
  constructor
  · intro h
    refine ⟨fun group hgroup row hfound ↦ ?_, h.exact _ (List.Subperm.refl _)⟩
    obtain ⟨other, hother, hid, hrestaurant, hitems⟩ := h.orders _ (hmem group hgroup)
    -- The row that was found is that of the token: both have the key of the group.
    have hkeys := List.find?_some hfound
    rw [Bool.and_eq_true, decide_eq_true_eq] at hkeys
    have hrow : row = rowOf group := hinv.keys.eq (List.mem_of_find?_eq_some hfound)
      (hrowOf group hgroup).mem (hkeys.1.trans (hrowOf group hgroup).key.symm)
    have hsame : other = rowOf group := hinv.orderIds.eq hother (hrowOf group hgroup).mem hid
    rw [hrow, ← hsame, storedLines_eq hgroup]
    exact ⟨hrestaurant, hitems⟩
  · rintro ⟨halike, hsafe⟩
    have hplaced := fun group hgroup ↦
      hsound.asPlaced htraced hinv halike hgroup (hrowOf group hgroup)
    have hcart : attempt.totalCents = cartTotal attempt.input.items := hsound.totalCents_eq hreturns
    have hstored : attempt.totalCents =
        ((attempt.token platform).o.map fun order ↦ s.front.storedTotal order.id).sum := by
      rw [(hperm.map fun order ↦ s.front.storedTotal order.id).sum_eq, List.map_map, hcart,
        ← sum_byRestaurant]
      refine congrArg List.sum (List.map_congr_left fun group hgroup ↦ ?_)
      exact (((hrowOf group hgroup).storedTotal_eq hinv).trans
        (hplaced group hgroup).totalCents).symm
    have hdecodes := decodeCart_encodeCart hround
    constructor
    · exact hdecodes
    · exact ((perm_token attempt platform).map TokenOrder.r).nodup_iff.mpr
        (hsound.nodup_placed hreturns)
    · intro r
      constructor
      · intro hr
        obtain ⟨order, horder, rfl⟩ := List.mem_map.mp hr
        exact hsound.exists_line hreturns ((perm_token attempt platform).mem_iff.mp horder)
      · rintro ⟨line, hline, rfl⟩
        obtain ⟨group, hgroup, hr⟩ := List.mem_map.mp
          ((grouped_byRestaurant attempt.input.items).covers line hline)
        exact List.mem_map.mpr ⟨_, hmem group hgroup, hr⟩
    · intro order horder
      obtain ⟨group, hgroup, rfl⟩ := List.mem_map.mp (hperm.mem_iff.mp horder)
      refine ⟨rowOf group, (hrowOf group hgroup).mem, rfl, (hplaced group hgroup).restaurantId, ?_⟩
      rw [(hplaced group hgroup).items, storedLines_eq hgroup]
    · exact hcart
    · exact hstored
    · intro fetched hread
      show (composeCartView (decodeCart platform (encodeCart platform _)) fetched).order.map _ = _
      rw [hdecodes, totalCents_view hshop hread, ← hstored]
    · intro amount hasked
      show _ = attempt.totalCents
      rw [hstored]
      exact congrArg List.sum (List.map_congr_left fun order horder ↦
        hshop.storedTotal_of_asked (hasked order horder))
    · intro order horder
      obtain ⟨group, hgroup, rfl⟩ := List.mem_map.mp (hperm.mem_iff.mp horder)
      rw [(hrowOf group hgroup).storedTotal_eq hinv]
      exact Ingestion.fitsInt_of_traced htraced (hrowOf group hgroup).mem
    · exact fun lines hlines ↦ isSafeInteger_of_subperm hlines hsafe

/-- A call of a cart of up to 2^22 restaurants has an amount that is not rounded: ingestion has
rejected every order that does not fit. -/
theorem isSafeInteger_of_length_le (hs : (shop cfg).Reachable Transitions.anyAction s)
    (hattempt : attempt ∈ s.attempts) (hreturns : attempt.returns = true)
    (halike : FoundAlike s.front attempt)
    (hlength : (byRestaurant attempt.input.items).length ≤ 2 ^ 22) :
    isSafeInteger (cartTotal attempt.input.items) = true := by
  have hshop := Shop.sound_of_reachable hs
  obtain ⟨launches, htraced, hattempts⟩ := hshop.front
  have hinv : Ingestion.Sound s.front.ingestion.shared := hshop.front.inv
  have hsound := hattempts attempt hattempt
  obtain ⟨rowOf, hrowOf⟩ := hsound.exists_rowOf hreturns
  have hfits : ∀ amount ∈ (byRestaurant attempt.input.items).map Group.totalCents,
      amount ≤ 2 ^ 31 - 1 := by
    intro amount hamount
    obtain ⟨group, hgroup, rfl⟩ := List.mem_map.mp hamount
    have hplaced := hsound.asPlaced htraced hinv halike hgroup (hrowOf group hgroup)
    have hrow := Ingestion.fitsInt_of_traced htraced (hrowOf group hgroup).mem
    rw [fitsInt, decide_eq_true_eq, hplaced.totalCents] at hrow
    omega
  have hsum := List.sum_le_card_nsmul _ _ hfits
  rw [sum_byRestaurant, List.length_map, nsmul_eq_mul] at hsum
  have hnonneg : 0 ≤ cartTotal attempt.input.items :=
    List.sum_nonneg (amounts_nonneg attempt.input.items)
  rw [isSafeInteger, decide_eq_true_eq]
  omega

/-! ### A cart of two restaurants -/

/-- What the platform does with one token. -/
def nodeFor (token : CartToken) (text : String) : Platform where
  write json := if json = ⟨1, token.hc, some token.o⟩ then text else ""
  read text' := if text' = text then some ⟨1, token.hc, some token.o⟩ else none
  localeCompare a b := compare a b

theorem read_nodeFor (token : CartToken) (text : String) :
    (nodeFor token text).read (encodeCart (nodeFor token text) token) =
      some ⟨1, token.hc, some token.o⟩ := by
  show (if (if _ then text else "") = text then _ else none) = _
  rw [if_pos rfl, if_pos rfl]

def spiceId : String := "00000000-0000-4000-8000-000000000001"

def bowlId : String := "00000000-0000-4000-8000-000000000002"

/-- The orchestrator starts. -/
def starting : List (Concurrency.Action (orchestrator {} services noCommands)) :=
  [.launch .start, .step 0 .done]

/-- Both orders are accepted and their events are relayed (thread 2 of ingestion). -/
def ordering : List Storefront.Action :=
  [.place lunch "", .deliver 0 0, .deliver 0 1] ++ accepting 0 spiceId ++ accepting 1 bowlId ++
    [.answer 0 0, .answer 0 1, .ingestion (.launch .drainOnce)] ++
    List.replicate 6 (.ingestion (.step 2 .done))

/-- Both orders are seeded (threads 1 and 2 of the orchestrator), their commands are relayed (thread
3), and both are charged (threads 4 and 5). -/
def charging : List (Concurrency.Action (orchestrator {} services noCommands)) :=
  [.launch (.onPlaced 0), .step 1 .done, .step 1 .done, .step 1 (.stamp ⟨"e1", "t"⟩), .step 1 .done,
    .step 1 .done, .step 1 .done, .launch (.onPlaced 1), .step 2 .done, .step 2 .done,
    .step 2 (.stamp ⟨"e2", "t"⟩), .step 2 .done, .step 2 .done, .step 2 .done,
    .launch .drainOnce] ++
    List.replicate 6 (.step 3 .done) ++
  [.launch (.onAdvance 2), .step 4 .done, .step 4 (.flag false), .step 4 (.flag true),
    .step 4 .done,
    .launch (.onAdvance 3), .step 5 .done, .step 5 (.flag false), .step 5 (.flag true),
    .step 5 .done]

def lunchShop : Shop {} :=
  ((shop {}).run (shop {}).start (starting.map .orch ++ ordering.map .storefront ++
    charging.map .orch)).get (by decide +kernel)

def lunchAttempt : Attempt := lunchShop.attempts[0]?.get (by decide +kernel)

def lunchServed : CartToken := ⟨12, [⟨bowlId, "green-bowl"⟩, ⟨spiceId, "spice-route"⟩]⟩

def lunchNode : Platform := nodeFor lunchServed
  "eyJ2IjoxLCJoYyI6MTIsIm8iOlt7ImlkIjoiMDAwMDAwMDAtMDAwMC00MDAwLTgwMDAtMDAwMDAwMDAwMDAyIiwiciI6ImdyZWVuLWJvd2wifSx7ImlkIjoiMDAwMDAwMDAtMDAwMC00MDAwLTgwMDAtMDAwMDAwMDAwMDAxIiwiciI6InNwaWNlLXJvdXRlIn1dfQ"

theorem token_lunchAttempt : lunchAttempt.token lunchNode = lunchServed := by
  have hplaced : lunchAttempt.placed = [⟨spiceId, "spice-route"⟩, ⟨bowlId, "green-bowl"⟩] := by
    decide +kernel
  have hheadcount : lunchAttempt.input.headcount = 12 := by decide +kernel
  have hcompare : lunchNode.localeCompare "spice-route" "green-bowl" = .gt := by decide +kernel
  rw [Attempt.token, hplaced, hheadcount, sortPlaced]
  simp [List.mergeSort, hcompare, List.MergeSort.Internal.splitInTwo, lunchServed]

/-- Both orders are seeded with their amounts, and the payment service is asked for these. -/
theorem moneyConserved_lunchShop :
    MoneyConserved lunchNode lunchShop lunchAttempt.input.items
        ((lunchAttempt.result lunchNode).get (by decide +kernel)) (lunchAttempt.token lunchNode) ∧
      lunchShop.db.orders.map Orchestrator.OrderRow.totalCents = [29000, 4800] ∧
      lunchShop.Asked spiceId 29000 ∧ lunchShop.Asked bowlId 4800 := by
  have hfresh : ∀ group ∈ byRestaurant lunchAttempt.input.items,
      lunchShop.front.found lunchAttempt group = none := by decide +kernel
  have hround : lunchNode.read (encodeCart lunchNode (lunchAttempt.token lunchNode)) =
      some ⟨1, (lunchAttempt.token lunchNode).hc, some (lunchAttempt.token lunchNode).o⟩ := by
    rw [token_lunchAttempt]
    exact read_nodeFor _ _
  have hreachable : (shop {}).Reachable Transitions.anyAction lunchShop :=
    Transitions.reachable_of_run (Option.some_get _).symm
  have hmem : lunchAttempt ∈ lunchShop.attempts := List.mem_of_getElem? (Option.some_get _).symm
  have hresult : lunchAttempt.result lunchNode =
      some ((lunchAttempt.result lunchNode).get (by decide +kernel)) := (Option.some_get _).symm
  refine ⟨(moneyConserved_iff hreachable hmem hresult hround).mpr
    ⟨foundAlike_of_fresh hfresh, by decide +kernel⟩, by decide +kernel, ?_, ?_⟩
  · unfold Shop.Asked
    decide +kernel
  · unfold Shop.Asked
    decide +kernel

/-! ### A cart that is given the order of another -/

/-- Ten bowls, under a key of their own. -/
def feast : PlaceOrderInput := { supper with
  items := [{ bowl with qty := 10, qty_pos := Int.natCast_succ_pos 9 }], items_ne := by decide }

/-- A cart with the key `k` and a restaurant `2:green-bowl` is placed, then ten bowls with the key
`k:2`. -/
def mixing : List Storefront.Action :=
  [.place colonCart "", .deliver 0 0] ++ accepting 0 bowlId ++
    [.answer 0 0, .place feast "", .deliver 1 0] ++ repeating 1 spiceId ++ [.answer 1 0]

def mixedShop : Shop {} :=
  ((shop {}).run (shop {}).start (mixing.map .storefront)).get (by decide +kernel)

def feastAttempt : Attempt := mixedShop.attempts[1]?.get (by decide +kernel)

def feastServed : CartToken := ⟨12, [⟨bowlId, "green-bowl"⟩]⟩

def feastNode : Platform := nodeFor feastServed
  "eyJ2IjoxLCJoYyI6MTIsIm8iOlt7ImlkIjoiMDAwMDAwMDAtMDAwMC00MDAwLTgwMDAtMDAwMDAwMDAwMDAyIiwiciI6ImdyZWVuLWJvd2wifV19"

theorem token_feastAttempt : feastAttempt.token feastNode = feastServed := by
  have hplaced : feastAttempt.placed = [⟨bowlId, "green-bowl"⟩] := by decide +kernel
  have hheadcount : feastAttempt.input.headcount = 12 := by decide +kernel
  rw [Attempt.token, hplaced, hheadcount, sortPlaced]
  simp [feastServed]

/-- The second cart has a key that no other has, and reports 120.00, but its token names the order
of the first, of 48.00. -/
theorem not_moneyConserved_mixedShop :
    (shop {}).Reachable Transitions.anyAction mixedShop ∧ feastAttempt ∈ mixedShop.attempts ∧
      (∀ other ∈ mixedShop.attempts, other.cartKey = feastAttempt.cartKey →
        other = feastAttempt) ∧
      feastNode.read (encodeCart feastNode (feastAttempt.token feastNode)) =
        some ⟨1, (feastAttempt.token feastNode).hc, some (feastAttempt.token feastNode).o⟩ ∧
      ¬ MoneyConserved feastNode mixedShop feastAttempt.input.items
        ((feastAttempt.result feastNode).get (by decide +kernel))
        (feastAttempt.token feastNode) := by
  refine ⟨Transitions.reachable_of_run (Option.some_get _).symm,
    List.mem_of_getElem? (Option.some_get _).symm, by decide +kernel, ?_, fun hconserved ↦ ?_⟩
  · rw [token_feastAttempt]
    exact read_nodeFor _ _
  · have hstored := hconserved.stored
    rw [token_feastAttempt] at hstored
    have hdiffer : ((feastAttempt.result feastNode).get (by decide +kernel)).totalCents ≠
        (feastServed.o.map fun order ↦ mixedShop.front.storedTotal order.id).sum := by
      decide +kernel
    exact hdiffer hstored

end DinnerRush.CustomerWeb
