import DinnerRush.CustomerWeb.Checkout
import Mathlib.Tactic.Linarith

/-!
# What a call reports

`placeCart` adds up the amounts of its own cart and always says that nothing was a duplicate, while
ingestion answers for the order that is stored. So what it reports is what is stored exactly when
some order is its own and the orders that it found have the amounts it asked for
(`reportsStored_iff`).
-/

set_option autoImplicit false
set_option relaxedAutoImplicit false

namespace DinnerRush.CustomerWeb

open Concurrency

variable {s : Storefront} {platform : Platform} {attempt : Attempt} {group : Group}
  {row : Ingestion.OrderRow} {launches : List Ingestion.Launch}

/-- The orders that ingestion holds. -/
def Storefront.orders (s : Storefront) : List Ingestion.OrderRow :=
  s.ingestion.shared.db.committed.orders

/-- The `total_cents` that ingestion holds for an order. -/
def Storefront.storedTotal (s : Storefront) (orderId : String) : ℤ :=
  ((Table.find Ingestion.OrderRow.orderId orderId s.orders).map
    Ingestion.OrderRow.totalCents).getD 0

/-- A POST of the call wrote the row. -/
def Attempt.wrote (attempt : Attempt) (row : Ingestion.OrderRow) : Bool :=
  attempt.posts.any fun post ↦ post.thread = some row.xmin

/-- The order was newly created by the call. -/
def Storefront.created (s : Storefront) (attempt : Attempt) (orderId : String) : Bool :=
  s.orders.any fun row ↦ decide (row.orderId = orderId) && attempt.wrote row

/-- What is claimed of the result of a call. -/
structure ReportsStored (platform : Platform) (s : Storefront) (attempt : Attempt)
    (result : PlaceOrderResult) : Prop where
  total : result.totalCents =
    ((attempt.token platform).o.map fun order ↦ s.storedTotal order.id).sum
  duplicate : result.duplicate = true ↔
    ∀ order ∈ (attempt.token platform).o, s.created attempt order.id = false

/-- The order that another request has stored under the key of a group of the cart. -/
def Storefront.found (s : Storefront) (attempt : Attempt) (group : Group) :
    Option Ingestion.OrderRow :=
  s.orders.find? fun row ↦
    decide (row.idempotencyKey = derivedKey attempt.cartKey group.restaurantId) &&
      !attempt.wrote row

/-- For some restaurant of the cart no other request has stored an order under its key, and the
orders that others have stored have the amounts of the cart, all together. -/
structure FoundAsPlaced (s : Storefront) (attempt : Attempt) : Prop where
  fresh : ∃ group ∈ byRestaurant attempt.input.items, s.found attempt group = none
  total : (((byRestaurant attempt.input.items).filterMap (s.found attempt)).map
      Ingestion.OrderRow.totalCents).sum =
    (((byRestaurant attempt.input.items).filter fun group ↦ (s.found attempt group).isSome).map
      Group.totalCents).sum

/-! ### The order of a group -/

/-- The row is that of a group of the call. -/
structure RowOf (s : Storefront) (attempt : Attempt) (group : Group) (row : Ingestion.OrderRow) :
    Prop where
  mem : row ∈ s.orders
  key : row.idempotencyKey = derivedKey attempt.cartKey group.restaurantId

theorem Attempt.Sound.exists_row (h : attempt.Sound launches s.orders)
    (hreturns : attempt.returns = true) (hgroup : group ∈ byRestaurant attempt.input.items) :
    ∃ row, RowOf s attempt group row ∧ ⟨row.orderId, group.restaurantId⟩ ∈ attempt.placed := by
  obtain ⟨order, horder, hr⟩ := List.mem_map.mp
    ((h.perm_placed hreturns).mem_iff.mpr (List.mem_map_of_mem hgroup))
  obtain ⟨row, hrow, hkey, hid⟩ := h.stored order horder
  rw [hr] at hkey
  refine ⟨row, ⟨hrow, hkey⟩, ?_⟩
  rw [hid, ← hr]
  exact horder

/-- The rows of the groups of a call that has returned. -/
theorem Attempt.Sound.exists_rowOf (h : attempt.Sound launches s.orders)
    (hreturns : attempt.returns = true) : ∃ rowOf : Group → Ingestion.OrderRow,
      ∀ group ∈ byRestaurant attempt.input.items, RowOf s attempt group (rowOf group) := by
  have hexists : ∀ group, ∃ row, group ∈ byRestaurant attempt.input.items →
      RowOf s attempt group row := by
    intro group
    by_cases hgroup : group ∈ byRestaurant attempt.input.items
    · obtain ⟨row, hrow, -⟩ := h.exists_row hreturns hgroup
      exact ⟨row, fun _ ↦ hrow⟩
    · exact ⟨⟨"", "", "", "", [], 0, 0⟩, fun h ↦ absurd h hgroup⟩
  choose rowOf hrowOf using hexists
  exact ⟨rowOf, hrowOf⟩

/-- The order of a group is found, or the call wrote it as it asked for it. -/
theorem Attempt.Sound.found_cases (hw : World.Traced World.anyEffect launches s.ingestion)
    (hinv : Ingestion.Sound s.ingestion.shared) (h : attempt.Sound launches s.orders)
    (hgroup : group ∈ byRestaurant attempt.input.items) (hrow : RowOf s attempt group row) :
    (attempt.wrote row = false ∧ s.found attempt group = some row) ∨
      (attempt.wrote row = true ∧ s.found attempt group = none ∧
        Ingestion.OrderOf (group.request (customerIdOf attempt.input) attempt.cartKey) row) := by
  have honly : ∀ other ∈ s.orders,
      other.idempotencyKey = derivedKey attempt.cartKey group.restaurantId → other = row :=
    fun other hother hkey ↦ hinv.keys.eq hother hrow.mem (hkey.trans hrow.key.symm)
  cases hwrote : attempt.wrote row with
  | false =>
    refine Or.inl ⟨rfl, ?_⟩
    cases hfound : s.found attempt group with
    | none =>
      have hnot := List.find?_eq_none.mp hfound row hrow.mem
      rw [hwrote, hrow.key, decide_eq_true rfl] at hnot
      exact absurd rfl hnot
    | some other =>
      have hother := List.find?_some hfound
      rw [Bool.and_eq_true, decide_eq_true_eq] at hother
      rw [honly other (List.mem_of_find?_eq_some hfound) hother.1]
  | true =>
    refine Or.inr ⟨rfl, ?_, ?_⟩
    · unfold Storefront.found
      rw [List.find?_eq_none]
      intro other hother hfound
      rw [Bool.and_eq_true, decide_eq_true_eq] at hfound
      rw [honly other hother hfound.1, hwrote] at hfound
      exact Bool.false_ne_true hfound.2
    · -- The POST that wrote the row is that of the group.
      obtain ⟨post, hpost, hthread⟩ := List.any_eq_true.mp hwrote
      rw [decide_eq_true_eq] at hthread
      have horder := h.orderOf hw hpost hrow.mem hthread
      have hkey := h.idempotencyKey_eq hw hpost hrow.mem hthread
      have hposts : post.group ∈ byRestaurant attempt.input.items := by
        rw [← h.groups]
        exact List.mem_map_of_mem hpost
      have hsame : post.group = group :=
        List.inj_on_of_nodup_map (grouped_byRestaurant attempt.input.items).nodup hposts hgroup
          (derivedKey_inj (hkey.symm.trans hrow.key))
      rw [← hsame]
      exact horder

/-! ### The orders of the token -/

/-- The token names the orders of the groups. -/
theorem Attempt.Sound.perm_orders (hinv : Ingestion.Sound s.ingestion.shared)
    (h : attempt.Sound launches s.orders) (hreturns : attempt.returns = true)
    {rowOf : Group → Ingestion.OrderRow}
    (hrowOf : ∀ group ∈ byRestaurant attempt.input.items, RowOf s attempt group (rowOf group)) :
    (attempt.token platform).o.Perm ((byRestaurant attempt.input.items).map fun group ↦
      ⟨(rowOf group).orderId, group.restaurantId⟩) := by
  refine (perm_token attempt platform).trans ?_
  have hr : (attempt.placed.map TokenOrder.r).Perm
      (((byRestaurant attempt.input.items).map fun group ↦
        (⟨(rowOf group).orderId, group.restaurantId⟩ : TokenOrder)).map TokenOrder.r) := by
    rw [List.map_map]
    exact h.perm_placed hreturns
  refine perm_of_map hr (h.nodup_placed hreturns) fun order horder other hother hsame ↦ ?_
  obtain ⟨group, hgroup, rfl⟩ := List.mem_map.mp hother
  obtain ⟨row, hrow, hkey, hid⟩ := h.stored order horder
  have hrows : row = rowOf group := by
    refine hinv.keys.eq hrow (hrowOf group hgroup).mem ?_
    rw [hkey, (hrowOf group hgroup).key, hsame]
  have hids : order.id = (rowOf group).orderId := by rw [← hid, hrows]
  cases order
  exact congrArg₂ TokenOrder.mk hids hsame

theorem RowOf.storedTotal_eq (hinv : Ingestion.Sound s.ingestion.shared)
    (h : RowOf s attempt group row) : s.storedTotal row.orderId = row.totalCents := by
  have hfind : Table.find Ingestion.OrderRow.orderId row.orderId s.orders = some row :=
    hinv.orderIds.find_of_mem h.mem
  rw [Storefront.storedTotal, hfind]
  rfl

theorem RowOf.created_eq (hinv : Ingestion.Sound s.ingestion.shared)
    (h : RowOf s attempt group row) : s.created attempt row.orderId = attempt.wrote row := by
  rw [Bool.eq_iff_iff]
  unfold Storefront.created
  rw [List.any_eq_true]
  constructor
  · rintro ⟨other, hother, hcreated⟩
    rw [Bool.and_eq_true, decide_eq_true_eq] at hcreated
    rw [← hinv.orderIds.eq hother h.mem hcreated.1]
    exact hcreated.2
  · intro hwrote
    refine ⟨row, h.mem, ?_⟩
    rw [hwrote, Bool.and_true, decide_eq_true rfl]

/-- What is stored and what was asked for differ only in the orders that were found. -/
theorem sub_found {groups : List Group} {rowOf : Group → Ingestion.OrderRow}
    (h : ∀ group ∈ groups, s.found attempt group = some (rowOf group) ∨
      s.found attempt group = none ∧ (rowOf group).totalCents = group.totalCents) :
    (groups.map fun group ↦ (rowOf group).totalCents).sum - (groups.map Group.totalCents).sum =
      ((groups.filterMap (s.found attempt)).map Ingestion.OrderRow.totalCents).sum -
        ((groups.filter fun group ↦ (s.found attempt group).isSome).map Group.totalCents).sum := by
  induction groups with
  | nil => rfl
  | cons group rest ih =>
    have hrest := ih fun other hother ↦ h other (List.mem_cons_of_mem group hother)
    rw [List.map_cons, List.map_cons, List.sum_cons, List.sum_cons]
    rcases h group List.mem_cons_self with hfound | ⟨hnone, hsame⟩
    · have hfilter : (group :: rest).filter (fun group ↦ (s.found attempt group).isSome) =
          group :: rest.filter fun group ↦ (s.found attempt group).isSome :=
        List.filter_cons_of_pos (by rw [hfound]; rfl)
      rw [List.filterMap_cons_some hfound, hfilter, List.map_cons, List.map_cons, List.sum_cons,
        List.sum_cons]
      linarith
    · have hfilter : (group :: rest).filter (fun group ↦ (s.found attempt group).isSome) =
          rest.filter fun group ↦ (s.found attempt group).isSome :=
        List.filter_cons_of_neg (by rw [hnone]; exact Bool.false_ne_true)
      rw [List.filterMap_cons_none hnone, hfilter, hsame]
      linarith

/-- **What a call reports is what is stored**, exactly when it has found the orders of others as it
would have placed them, and has not found them all. -/
theorem reportsStored_iff (hs : storefront.Reachable Transitions.anyAction s)
    (hattempt : attempt ∈ s.attempts) {result : PlaceOrderResult}
    (hresult : attempt.result platform = some result) :
    ReportsStored platform s attempt result ↔ FoundAsPlaced s attempt := by
  obtain ⟨launches, htraced, hattempts⟩ := Storefront.sound_of_reachable hs
  have hinv : Ingestion.Sound s.ingestion.shared :=
    (Discipline.holds_of_reachable Ingestion.verified htraced.reachable).inv
  have hsound := hattempts attempt hattempt
  obtain ⟨hreturns, rfl⟩ := Attempt.result_eq hresult
  obtain ⟨rowOf, hrowOf⟩ := hsound.exists_rowOf hreturns
  have hperm : (attempt.token platform).o.Perm _ := hsound.perm_orders hinv hreturns hrowOf
  have hcases := fun group hgroup ↦ hsound.found_cases htraced hinv hgroup (hrowOf group hgroup)
  -- The amount: what is stored is what the groups ask for, but for what was found.
  have hstored : ((attempt.token platform).o.map fun order ↦ s.storedTotal order.id).sum =
      ((byRestaurant attempt.input.items).map fun group ↦ (rowOf group).totalCents).sum := by
    rw [(hperm.map fun order ↦ s.storedTotal order.id).sum_eq, List.map_map]
    refine congrArg List.sum (List.map_congr_left fun group hgroup ↦ ?_)
    exact (hrowOf group hgroup).storedTotal_eq hinv
  have hasked : attempt.totalCents =
      ((byRestaurant attempt.input.items).map Group.totalCents).sum := by
    rw [hsound.total, hsound.fulfilled_eq hreturns]
  have hsub := sub_found fun group hgroup ↦
    (hcases group hgroup).imp (fun h ↦ h.2) fun h ↦
      ⟨h.2.1, h.2.2.totalCents.trans (totalCents_request group _ _)⟩
  -- The flag: an order of the token was created by the call unless its group was found.
  have hcreated : (∀ order ∈ (attempt.token platform).o, s.created attempt order.id = false) ↔
      ∀ group ∈ byRestaurant attempt.input.items, s.found attempt group ≠ none := by
    constructor
    · intro h group hgroup hnone
      have hold := h _ (hperm.mem_iff.mpr (List.mem_map_of_mem hgroup))
      rw [(hrowOf group hgroup).created_eq hinv] at hold
      rcases hcases group hgroup with ⟨-, hfound⟩ | ⟨hwrote, -⟩
      · rw [hnone] at hfound
        cases hfound
      · rw [hwrote] at hold
        cases hold
    · intro h order horder
      obtain ⟨group, hgroup, rfl⟩ := List.mem_map.mp (hperm.mem_iff.mp horder)
      rw [(hrowOf group hgroup).created_eq hinv]
      rcases hcases group hgroup with ⟨hwrote, -⟩ | ⟨-, hnone, -⟩
      · exact hwrote
      · exact absurd hnone (h group hgroup)
  constructor
  · rintro ⟨htotal, hduplicate⟩
    rw [hcreated] at hduplicate
    change attempt.totalCents = _ at htotal
    constructor
    · by_contra hnone
      have hfound : ∀ group ∈ byRestaurant attempt.input.items, s.found attempt group ≠ none :=
        fun group hgroup hgroup' ↦ hnone ⟨group, hgroup, hgroup'⟩
      cases hduplicate.mpr hfound
    · linarith
  · rintro ⟨⟨group, hgroup, hnone⟩, htotal⟩
    constructor
    · show attempt.totalCents = _
      linarith
    · rw [hcreated]
      exact ⟨nofun, fun hfound ↦ absurd hnone (hfound group hgroup)⟩

/-! ### A second call after a partial failure -/

/-- The first call has stored the order of one restaurant, and the POST for the other is lost; the
second call stores the order of the other. -/
def resuming (second : PlaceOrderInput) : List Storefront.Action :=
  [.place lunch "", .deliver 0 0] ++ accepting 0 "b" ++ [.fail 0 0, .fail 0 1] ++
  [.place second "", .deliver 1 0, .deliver 1 1] ++ repeating 1 "c" ++ accepting 2 "a" ++
  [.answer 1 0, .answer 1 1]

/-- The second call is of the same cart. -/
def resumedStorefront : Storefront :=
  (storefront.run storefront.start (resuming lunch)).get (by decide +kernel)

def resumedAttempt : Attempt := resumedStorefront.attempts[1]?.get (by decide +kernel)

theorem reportsStored_resumedAttempt : ReportsStored node resumedStorefront resumedAttempt
    ((resumedAttempt.result node).get (by decide +kernel)) := by
  have hfound : FoundAsPlaced resumedStorefront resumedAttempt :=
    ⟨by decide +kernel, by decide +kernel⟩
  exact (reportsStored_iff (Transitions.reachable_of_run (Option.some_get _).symm)
    (List.mem_of_getElem? (Option.some_get _).symm) (Option.some_get _).symm).mpr hfound

/-- The customer takes a line out of the cart before the second call. -/
def lighter : PlaceOrderInput := { lunch with items := [thali, bowl], items_ne := by decide }

def changedStorefront : Storefront :=
  (storefront.run storefront.start (resuming lighter)).get (by decide +kernel)

def changedAttempt : Attempt := changedStorefront.attempts[1]?.get (by decide +kernel)

/-- The call reports 193.00, and 338.00 is stored. -/
theorem not_reportsStored_changedAttempt :
    storefront.Reachable Transitions.anyAction changedStorefront ∧
      changedAttempt ∈ changedStorefront.attempts ∧
      ¬ ReportsStored node changedStorefront changedAttempt
        ((changedAttempt.result node).get (by decide +kernel)) := by
  refine ⟨Transitions.reachable_of_run (Option.some_get _).symm,
    List.mem_of_getElem? (Option.some_get _).symm, fun hreports ↦ ?_⟩
  have htotal := hreports.total
  rw [((perm_token changedAttempt node).map _).sum_eq] at htotal
  have hdiffer : ((changedAttempt.result node).get (by decide +kernel)).totalCents ≠
      (changedAttempt.placed.map fun order ↦ changedStorefront.storedTotal order.id).sum := by
    decide +kernel
  exact hdiffer htotal

end DinnerRush.CustomerWeb
