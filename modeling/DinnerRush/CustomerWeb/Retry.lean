import DinnerRush.CustomerWeb.Checkout

/-!
# Retried checkout

However often a cart is placed under one key, and whatever becomes of the POSTs of each call,
ingestion stores at most one order for a restaurant, and all calls that return give the same token
and the same amount (`retrySafe`): the derived key makes the POSTs of all calls one, and the sort
hides the order in which they were answered.
-/

set_option autoImplicit false
set_option relaxedAutoImplicit false

namespace DinnerRush.CustomerWeb

open Concurrency

variable {s : Storefront} {platform : Platform} {input : PlaceOrderInput} {key : String}

/-- The row was written by the POST for a restaurant, of a call with this input. -/
def Storefront.storedFor (s : Storefront) (input : PlaceOrderInput) (restaurantId : String)
    (row : Ingestion.OrderRow) : Bool :=
  s.attempts.any fun attempt ↦ decide (attempt.input = input) && attempt.posts.any fun post ↦
    decide (post.group.restaurantId = restaurantId ∧ post.thread = some row.xmin)

/-- What is claimed of all calls with one input. -/
structure RetrySafe (platform : Platform) (input : PlaceOrderInput) (key : String)
    (s : Storefront) : Prop where
  /-- At most one order is stored for a restaurant, by the calls or under the key of its order. -/
  onePerRestaurant : ∀ restaurantId,
    (s.ingestion.shared.db.committed.orders.filter fun row ↦
      s.storedFor input restaurantId row ||
        decide (row.idempotencyKey = derivedKey key restaurantId)).length ≤ 1
  /-- Two calls that return give the same token and the same amount. -/
  sameResult : ∀ first ∈ s.attempts, ∀ second ∈ s.attempts, first.input = input →
    second.input = input → ∀ result result', first.result platform = some result →
      second.result platform = some result' →
        result.orderId = result'.orderId ∧ result.totalCents = result'.totalCents

theorem Storefront.Sound.key_of_storedFor {launches : List Ingestion.Launch}
    (hw : World.Traced World.anyEffect launches s.ingestion)
    (hattempts : ∀ attempt ∈ s.attempts,
      attempt.Sound launches s.ingestion.shared.db.committed.orders)
    (hkey : input.idempotencyKey = some key) {restaurantId : String} {row : Ingestion.OrderRow}
    (hrow : row ∈ s.ingestion.shared.db.committed.orders)
    (h : s.storedFor input restaurantId row = true) :
    row.idempotencyKey = derivedKey key restaurantId := by
  obtain ⟨attempt, hattempt, h⟩ := List.any_eq_true.mp h
  rw [Bool.and_eq_true, decide_eq_true_eq] at h
  obtain ⟨hinput, hposts⟩ := h
  obtain ⟨post, hpost, hthread⟩ := List.any_eq_true.mp hposts
  rw [decide_eq_true_eq] at hthread
  have hsound := hattempts attempt hattempt
  rw [hsound.idempotencyKey_eq hw hpost hrow hthread.2, hthread.1,
    hsound.key key (by rw [hinput, hkey])]

/-- **Retried checkout is safe**: in every run of the storefront, for every cart and key. -/
theorem retrySafe (hs : storefront.Reachable Transitions.anyAction s)
    (hkey : input.idempotencyKey = some key)
    (hstrict : platform.StrictOn (input.items.map CartLine.restaurantId)) :
    RetrySafe platform input key s := by
  obtain ⟨launches, htraced, hattempts⟩ := Storefront.sound_of_reachable hs
  have hinv : Ingestion.Sound s.ingestion.shared :=
    (Discipline.holds_of_reachable Ingestion.verified htraced.reachable).inv
  constructor
  · intro restaurantId
    have hfilter : s.ingestion.shared.db.committed.orders.filter (fun row ↦
        s.storedFor input restaurantId row ||
          decide (row.idempotencyKey = derivedKey key restaurantId)) =
        s.ingestion.shared.db.committed.orders.filter fun row ↦
          row.idempotencyKey = derivedKey key restaurantId := by
      refine List.filter_congr fun row hrow ↦ ?_
      by_cases hstored : s.storedFor input restaurantId row = true
      · simp [hstored, Storefront.Sound.key_of_storedFor htraced hattempts hkey hrow hstored]
      · simp [hstored]
    rw [hfilter]
    exact hinv.keys.length_filter_le_one _
  · intro first hfirst second hsecond hinput hinput' result result' hresult hresult'
    obtain ⟨hreturns, rfl⟩ := Attempt.result_eq hresult
    obtain ⟨hreturns', rfl⟩ := Attempt.result_eq hresult'
    have hsound := hattempts first hfirst
    have hsound' := hattempts second hsecond
    have hrestaurants := hsound.perm_placed hreturns
    have hrestaurants' := hsound'.perm_placed hreturns'
    rw [hinput] at hrestaurants
    rw [hinput'] at hrestaurants'
    -- Both calls have found the order that is stored under the key of the restaurant.
    have hsame : ∀ order ∈ first.placed, ∀ other ∈ second.placed, order.r = other.r →
        order = other := by
      intro order horder other hother hr
      obtain ⟨row, hrow, hrowKey, hid⟩ := hsound.stored order horder
      obtain ⟨row', hrow', hrowKey', hid'⟩ := hsound'.stored other hother
      rw [hsound.key key (by rw [hinput, hkey]), hr] at hrowKey
      rw [hsound'.key key (by rw [hinput', hkey])] at hrowKey'
      have hrows := hinv.keys.eq hrow hrow' (hrowKey.trans hrowKey'.symm)
      have hids : order.id = other.id := by rw [← hid, ← hid', hrows]
      cases order
      cases other
      exact congrArg₂ TokenOrder.mk hids hr
    have hperm : first.placed.Perm second.placed :=
      perm_of_map (hrestaurants.trans hrestaurants'.symm) (hsound.nodup_placed hreturns) hsame
    have hids : ∀ order ∈ first.placed, order.r ∈ input.items.map CartLine.restaurantId := by
      intro order horder
      obtain ⟨line, hline, hr⟩ := hsound.exists_line hreturns horder
      rw [hinput] at hline
      exact List.mem_map.mpr ⟨line, hline, hr⟩
    constructor
    · show encodeCart platform (first.token platform) = encodeCart platform (second.token platform)
      have hkeys : ∀ order ∈ first.placed, ∀ other ∈ first.placed, order.r = other.r →
          order = other := fun order horder other hother hr ↦
        List.inj_on_of_nodup_map (hsound.nodup_placed hreturns) horder hother hr
      rw [Attempt.token, Attempt.token, hinput, hinput', sortPlaced_eq hstrict hperm hids hkeys]
    · show first.totalCents = second.totalCents
      rw [hsound.totalCents_eq hreturns, hsound'.totalCents_eq hreturns', hinput, hinput']

/-! ### A checkout that is tried three times -/

/-- The first call loses an answer and gives up; its other POST is served while the second call is
under way. A third call is answered in another order. -/
def retried : List Storefront.Action :=
  [.place lunch "", .deliver 0 0, .deliver 0 1] ++ accepting 0 "b" ++ [.fail 0 0] ++
  [.place lunch "", .deliver 1 0, .deliver 1 1] ++ repeating 2 "c" ++ accepting 1 "a" ++
  repeating 3 "d" ++ [.answer 1 1, .answer 1 0, .answer 0 1] ++
  [.place lunch "", .deliver 2 0, .deliver 2 1] ++ repeating 4 "e" ++ repeating 5 "f" ++
  [.answer 2 0, .answer 2 1]

def retriedStorefront : Storefront :=
  (storefront.run storefront.start retried).get (by decide +kernel)

theorem reachable_retriedStorefront :
    storefront.Reachable Transitions.anyAction retriedStorefront :=
  Transitions.reachable_of_run (Option.some_get _).symm

theorem strictOn_lunch : node.StrictOn (lunch.items.map CartLine.restaurantId) := by
  constructor <;> decide

theorem retrySafe_retriedStorefront : RetrySafe node lunch "k" retriedStorefront ∧
    retriedStorefront.attempts.map Attempt.returns = [false, true, true] ∧
    retriedStorefront.attempts.map (fun attempt ↦ attempt.placed.map TokenOrder.r) =
      [["green-bowl"], ["green-bowl", "spice-route"], ["spice-route", "green-bowl"]] :=
  ⟨retrySafe reachable_retriedStorefront rfl strictOn_lunch, by decide +kernel, by decide +kernel⟩

end DinnerRush.CustomerWeb
