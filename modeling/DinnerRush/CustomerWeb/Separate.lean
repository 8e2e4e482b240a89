import DinnerRush.CustomerWeb.Checkout

/-!
# Separate carts

The key of an order is the key of its cart, a colon and its restaurant, unescaped, and both parts
are arbitrary texts. So carts with different keys have orders of their own exactly when no key
continues the other by a colon and what a restaurant id of its cart begins with (`cartsApart_iff`).
-/

set_option autoImplicit false
set_option relaxedAutoImplicit false

namespace DinnerRush.CustomerWeb

open Concurrency

variable {s : Storefront} {platform : Platform} {first second : PlaceOrderInput}
  {key key' restaurantId restaurantId' : String}

/-- What is claimed of two carts with different keys. -/
structure CartsApart (platform : Platform) (first second : PlaceOrderInput) (key key' : String) :
    Prop where
  keys : ∀ line ∈ first.items, ∀ line' ∈ second.items,
    derivedKey key line.restaurantId ≠ derivedKey key' line'.restaurantId
  /-- In no run do calls for both of them give tokens with an order in common. -/
  orders : ∀ s, storefront.Reachable Transitions.anyAction s →
    ∀ attempt ∈ s.attempts, ∀ attempt' ∈ s.attempts, attempt.input = first →
      attempt'.input = second → attempt.returns = true → attempt'.returns = true →
        ∀ order ∈ (attempt.token platform).o, ∀ order' ∈ (attempt'.token platform).o,
          order.id ≠ order'.id

/-- One key continues the other by a colon and what the restaurant id begins with. -/
def Overlap (key restaurantId key' restaurantId' : String) : Prop :=
  ∃ text, key' = key ++ ":" ++ text ∧ restaurantId = text ++ ":" ++ restaurantId'

/-- Some restaurant ids of the carts overlap, one way or the other. -/
def CartsOverlap (first second : PlaceOrderInput) (key key' : String) : Prop :=
  ∃ line ∈ first.items, ∃ line' ∈ second.items,
    Overlap key line.restaurantId key' line'.restaurantId ∨
      Overlap key' line'.restaurantId key line.restaurantId

theorem derivedKey_of_overlap (h : Overlap key restaurantId key' restaurantId') :
    derivedKey key restaurantId = derivedKey key' restaurantId' := by
  obtain ⟨text, rfl, rfl⟩ := h
  simp only [derivedKey, String.append_assoc]

/-- A part of an overlap: what the longer key has more. -/
theorem overlap_of_append {more : List Char} (hmore : more ≠ [])
    (hkey : key'.toList = key.toList ++ more)
    (hrest : ':' :: restaurantId.toList = more ++ ':' :: restaurantId'.toList) :
    Overlap key restaurantId key' restaurantId' := by
  cases more with
  | nil => exact absurd rfl hmore
  | cons head text =>
    obtain ⟨rfl, htext⟩ := List.cons.inj hrest
    refine ⟨.ofList text, String.toList_injective ?_, String.toList_injective ?_⟩
    · rw [hkey]
      simp
    · rw [htext]
      simp

/-- Different keys of carts give the same key of an order exactly when they overlap. -/
theorem derivedKey_eq_iff (hne : key ≠ key') :
    derivedKey key restaurantId = derivedKey key' restaurantId' ↔
      Overlap key restaurantId key' restaurantId' ∨
        Overlap key' restaurantId' key restaurantId := by
  constructor
  · intro h
    have hlist := congrArg String.toList h
    rw [toList_derivedKey, toList_derivedKey, List.append_eq_append_iff] at hlist
    rcases hlist with ⟨more, hkey, hrest⟩ | ⟨more, hkey, hrest⟩
    · refine Or.inl (overlap_of_append ?_ hkey hrest)
      rintro rfl
      rw [List.append_nil] at hkey
      exact hne (String.toList_injective hkey).symm
    · refine Or.inr (overlap_of_append ?_ hkey hrest)
      rintro rfl
      rw [List.append_nil] at hkey
      exact hne (String.toList_injective hkey)
  · rintro (h | h)
    · exact derivedKey_of_overlap h
    · exact (derivedKey_of_overlap h).symm

/-- A restaurant id without a colon does not overlap. -/
theorem not_overlap_of_notMem (h : ':' ∉ restaurantId.toList) :
    ¬ Overlap key restaurantId key' restaurantId' := by
  rintro ⟨text, -, rfl⟩
  simp at h

/-- **Carts do not share orders**, exactly when their keys do not overlap. -/
theorem cartsApart_iff (hkey : first.idempotencyKey = some key)
    (hkey' : second.idempotencyKey = some key') (hne : key ≠ key') :
    CartsApart platform first second key key' ↔ ¬ CartsOverlap first second key key' := by
  constructor
  · rintro hapart ⟨line, hline, line', hline', hoverlap⟩
    exact hapart.keys line hline line' hline' ((derivedKey_eq_iff hne).mpr hoverlap)
  · intro hapart
    have hkeys : ∀ line ∈ first.items, ∀ line' ∈ second.items,
        derivedKey key line.restaurantId ≠ derivedKey key' line'.restaurantId :=
      fun line hline line' hline' hsame ↦
        hapart ⟨line, hline, line', hline', (derivedKey_eq_iff hne).mp hsame⟩
    refine ⟨hkeys, ?_⟩
    intro s hs attempt hattempt attempt' hattempt' hinput hinput' hreturns hreturns'
      order horder order' horder' hids
    obtain ⟨launches, htraced, hattempts⟩ := Storefront.sound_of_reachable hs
    have hinv : Ingestion.Sound s.ingestion.shared :=
      (Discipline.holds_of_reachable Ingestion.verified htraced.reachable).inv
    have hsound := hattempts attempt hattempt
    have hsound' := hattempts attempt' hattempt'
    have hplaced := (perm_token attempt platform).mem_iff.mp horder
    have hplaced' := (perm_token attempt' platform).mem_iff.mp horder'
    obtain ⟨line, hline, hr⟩ := hsound.exists_line hreturns hplaced
    obtain ⟨line', hline', hr'⟩ := hsound'.exists_line hreturns' hplaced'
    obtain ⟨row, hrow, hrowKey, hid⟩ := hsound.stored order hplaced
    obtain ⟨row', hrow', hrowKey', hid'⟩ := hsound'.stored order' hplaced'
    have hrows : row = row' := hinv.orderIds.eq hrow hrow' (by rw [hid, hid', hids])
    rw [hsound.key key (by rw [hinput, hkey]), ← hr] at hrowKey
    rw [hsound'.key key' (by rw [hinput', hkey']), ← hr', ← hrows] at hrowKey'
    rw [hinput] at hline
    rw [hinput'] at hline'
    exact hkeys line hline line' hline' (hrowKey.symm.trans hrowKey')

/-- The cart with another key. -/
def supper : PlaceOrderInput := { lunch with
  idempotencyKey := some "k:2", idempotencyKey_ne := by decide }

theorem cartsApart_lunch_supper : CartsApart node lunch supper "k" "k:2" := by
  have hcolon : ∀ line ∈ lunch.items, ':' ∉ line.restaurantId.toList := by decide
  refine (cartsApart_iff rfl rfl (by decide)).mpr ?_
  rintro ⟨line, hline, line', hline', hoverlap | hoverlap⟩
  · exact not_overlap_of_notMem (hcolon line hline) hoverlap
  · exact not_overlap_of_notMem (hcolon line' hline') hoverlap

/-! ### Two carts with one order -/

/-- A cart with the key `k` and a restaurant `2:green-bowl`. -/
def colonCart : PlaceOrderInput := { lunch with
  items := [{ bowl with restaurantId := "2:green-bowl", restaurantId_ne := by decide }]
  items_ne := by decide }

/-- A cart with the key `k:2` and the restaurant `green-bowl`. -/
def bowlCart : PlaceOrderInput := { supper with items := [bowl], items_ne := by decide }

/-- The first cart is placed, then the second. -/
def mixed : List Storefront.Action :=
  [.place colonCart "", .deliver 0 0] ++ accepting 0 "a" ++ [.answer 0 0] ++
  [.place bowlCart "", .deliver 1 0] ++ repeating 1 "b" ++ [.answer 1 0]

def mixedStorefront : Storefront :=
  (storefront.run storefront.start mixed).get (by decide +kernel)

/-- The token of the second cart names the order of the first. -/
theorem not_cartsApart_mixedStorefront :
    ¬ CartsApart node colonCart bowlCart "k" "k:2" := by
  intro hapart
  have hreachable : storefront.Reachable Transitions.anyAction mixedStorefront :=
    Transitions.reachable_of_run (Option.some_get _).symm
  have hshared : ∃ attempt ∈ mixedStorefront.attempts, ∃ attempt' ∈ mixedStorefront.attempts,
      attempt.input = colonCart ∧ attempt'.input = bowlCart ∧ attempt.returns = true ∧
        attempt'.returns = true ∧ ∃ order ∈ attempt.placed, ∃ order' ∈ attempt'.placed,
          order.id = order'.id := by
    decide +kernel
  obtain ⟨attempt, hattempt, attempt', hattempt', hinput, hinput', hreturns, hreturns', order,
    horder, order', horder', hids⟩ := hshared
  exact hapart.orders mixedStorefront hreachable attempt hattempt attempt' hattempt' hinput hinput'
    hreturns hreturns' order ((perm_token attempt node).mem_iff.mpr horder) order'
    ((perm_token attempt' node).mem_iff.mpr horder') hids

end DinnerRush.CustomerWeb
