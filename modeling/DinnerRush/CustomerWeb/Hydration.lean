import DinnerRush.Concurrency.Transitions
import DinnerRush.CustomerWeb.Untrusted

/-!
# The stored cart

The hydrate and persist effects of `CartProvider` (`cart-context.tsx`), from its mount to the first
operation of the user. The effects of a commit run in their order and with the values of that
render, what they set is rendered later, and React may run the effects again.

The hydrate effect sets `didLoad` before the persist effect of the same commit looks at it, and that
one still has the values of `SEED`. So the stored cart is kept exactly if it is the seed
(`keepsStored_iff`). It is written back with the next render (`hydrated_once`), but not if the mount
effects run twice (`lost_twice`).
-/

set_option autoImplicit false
set_option relaxedAutoImplicit false

namespace DinnerRush.CustomerWeb.Hydration

open Concurrency Untrusted

/-! ### The provider -/

/-- The items of a cart, as JSON has them, and its headcount, which is a number. -/
structure Contents where
  items : List Value
  headcount : String

def line (dishId qty : String) : Value :=
  .object [("dishId", .string dishId), ("qty", .number qty)]

/-- `SEED`. -/
def seed : Contents where
  items := [line "fuego-1" "1", line "sakura-1" "1", line "verde-2" "1"]
  headcount := "40"

/-- `JSON.stringify({ items, headcount })`. -/
def Contents.json (contents : Contents) : Value :=
  .object [("items", .array contents.items), ("headcount", .number contents.headcount)]

/-- A state update that waits for the next render. -/
inductive Update
  | setItems (items : List Value)
  | setHeadcount (headcount : String)
  | setHydrated

def Update.isSetItems : Update → Bool
  | .setItems _ => true
  | _ => false

inductive Effect
  | hydrate
  | persist

/-- A mounted provider: what it has rendered, the updates and the effects that are due, and what
`localStorage` has under the key, which is JSON. -/
structure Provider where
  contents : Contents
  hydrated : Bool
  updates : List Update
  effects : List Effect
  didLoad : Bool
  stored : Option Value

/-- A number of JSON. -/
def numberOf : Value → Option String
  | .number text => some text
  | _ => none

/-- What the hydrate effect sets. -/
def hydrateUpdates (stored : Option Value) : List Update :=
  (stored.elim [] fun parsed ↦
    ((parsed.field "items").list.map Update.setItems).toList ++
      ((numberOf (parsed.field "headcount")).map Update.setHeadcount).toList) ++ [.setHydrated]

namespace Provider

variable (s : Provider)

/-- An effect runs. `setItem` may throw, which is ignored. -/
def runEffect (refused : Bool) : Effect → Provider
  | .hydrate => { s with updates := s.updates ++ hydrateUpdates s.stored, didLoad := true }
  | .persist =>
    if s.didLoad && !refused then { s with stored := some s.contents.json } else s

def apply : Update → Provider
  | .setItems items => { s with contents := { s.contents with items := items } }
  | .setHeadcount headcount => { s with contents := { s.contents with headcount := headcount } }
  | .setHydrated => { s with hydrated := true }

/-- The render of what has been set. Its commit persists if the items, which are another list once
they are set, or the headcount changed. -/
def render : Provider :=
  let rendered := s.updates.foldl apply s
  { rendered with
    updates := []
    effects :=
      if s.updates.any Update.isSetItems || rendered.contents.headcount != s.contents.headcount then
        [.persist]
      else [] }

end Provider

inductive Action
  | effect (refused : Bool)
  | remount
  | render

def Provider.act (s : Provider) : Action → Option Provider
  | .effect refused =>
    match s.effects with
    | [] => none
    | effect :: rest => some { s.runEffect refused effect with effects := rest }
  | .remount => if s.effects.isEmpty then some { s with effects := [.hydrate, .persist] } else none
  | .render => if s.effects.isEmpty && !s.updates.isEmpty then some s.render else none

/-- The provider mounts over what is stored. -/
def cartProvider (stored : Option Value) : Transitions Provider Action where
  start := ⟨seed, false, [], [.hydrate, .persist], false, stored⟩
  act := Provider.act

/-! ### A stored cart -/

/-- The cart of a JSON value with an array of items and a numeric headcount. -/
def cartOf (stored : Value) : Option Contents :=
  (stored.field "items").list.bind fun items ↦
    (numberOf (stored.field "headcount")).map fun headcount ↦ ⟨items, headcount⟩

variable {s s' : Provider} {action : Action} {stored : Value} {cart : Contents}

@[simp] theorem cartOf_json (contents : Contents) : cartOf contents.json = some contents := by
  simp [cartOf, Contents.json, Value.field, Value.list, numberOf, List.lookup_cons]

theorem cartOf_eq_some : cartOf stored = some cart ↔
    (stored.field "items").list = some cart.items ∧
      numberOf (stored.field "headcount") = some cart.headcount := by
  unfold cartOf
  simp only [Option.bind_eq_some_iff, Option.map_eq_some_iff]
  constructor
  · rintro ⟨items, hitems, headcount, hheadcount, rfl⟩
    exact ⟨hitems, hheadcount⟩
  · rintro ⟨hitems, hheadcount⟩
    exact ⟨_, hitems, _, hheadcount, rfl⟩

theorem hydrateUpdates_eq (h : cartOf stored = some cart) : hydrateUpdates (some stored) =
    [.setItems cart.items, .setHeadcount cart.headcount, .setHydrated] := by
  obtain ⟨hitems, hheadcount⟩ := cartOf_eq_some.mp h
  simp [hydrateUpdates, hitems, hheadcount]

/-- What is claimed of a provider that mounts over a stored cart. -/
structure KeepsStored (stored : Value) (cart : Contents) : Prop where
  storage : ∀ s, (cartProvider (some stored)).Reachable Transitions.anyAction s →
    s.stored.bind cartOf = some cart
  state : ∀ s, (cartProvider (some stored)).Reachable Transitions.anyAction s →
    s.hydrated = true → s.contents = cart

/-- An update that sets what the seed has. -/
def Update.Seeds : Update → Prop
  | .setItems items => items = seed.items
  | .setHeadcount headcount => headcount = seed.headcount
  | .setHydrated => True

/-- The seed is all there is. -/
structure Seeded (s : Provider) : Prop where
  contents : s.contents = seed
  stored : s.stored.bind cartOf = some seed
  updates : ∀ update ∈ s.updates, update.Seeds

theorem seeds_hydrateUpdates {stored : Option Value} (h : stored.bind cartOf = some seed) :
    ∀ update ∈ hydrateUpdates stored, update.Seeds := by
  obtain ⟨parsed, rfl, hcart⟩ := Option.bind_eq_some_iff.mp h
  simp [hydrateUpdates_eq hcart, Update.Seeds]

theorem Seeded.apply (h : Seeded s) {update : Update} (hseeds : update.Seeds) :
    Seeded (s.apply update) := by
  cases update with
  | setItems items =>
    obtain rfl : items = seed.items := hseeds
    exact ⟨by simp [Provider.apply, h.contents], h.stored, h.updates⟩
  | setHeadcount headcount =>
    obtain rfl : headcount = seed.headcount := hseeds
    exact ⟨by simp [Provider.apply, h.contents], h.stored, h.updates⟩
  | setHydrated => exact ⟨h.contents, h.stored, h.updates⟩

theorem Seeded.foldl (h : Seeded s) {updates : List Update}
    (hseeds : ∀ update ∈ updates, update.Seeds) : Seeded (updates.foldl Provider.apply s) := by
  induction updates generalizing s with
  | nil => exact h
  | cons update rest ih =>
    rw [List.forall_mem_cons] at hseeds
    exact ih (h.apply hseeds.1) hseeds.2

theorem Seeded.act (h : Seeded s) (hact : s.act action = some s') : Seeded s' := by
  cases action with
  | effect refused =>
    unfold Provider.act at hact
    cases heffects : s.effects with
    | nil => simp [heffects] at hact
    | cons effect rest =>
      obtain rfl : { s.runEffect refused effect with effects := rest } = s' := by
        simpa [heffects] using hact
      cases effect with
      | hydrate =>
        refine ⟨h.contents, h.stored, fun update hupdate ↦ ?_⟩
        rcases List.mem_append.mp hupdate with hold | hnew
        · exact h.updates update hold
        · exact seeds_hydrateUpdates h.stored update hnew
      | persist =>
        by_cases hwrites : (s.didLoad && !refused) = true
        · refine ⟨?_, ?_, ?_⟩ <;> simp [Provider.runEffect, hwrites, h.contents]
          exact h.updates
        · simp only [Provider.runEffect, hwrites]
          exact ⟨h.contents, h.stored, h.updates⟩
  | remount =>
    unfold Provider.act at hact
    by_cases heffects : s.effects.isEmpty = true
    · obtain rfl : { s with effects := [.hydrate, .persist] } = s' := by
        simpa [heffects] using hact
      exact ⟨h.contents, h.stored, h.updates⟩
    · simp [heffects] at hact
  | render =>
    unfold Provider.act at hact
    by_cases hready : (s.effects.isEmpty && !s.updates.isEmpty) = true
    · obtain rfl : s.render = s' := by simpa [hready] using hact
      have hrendered := h.foldl h.updates
      exact ⟨hrendered.contents, hrendered.stored, by simp [Provider.render]⟩
    · simp [hready] at hact

/-- The provider after its mount effects: the stored cart is waiting for the next render, and the
seed is in its place. -/
def mounted (stored : Value) : Provider where
  contents := seed
  hydrated := false
  updates := hydrateUpdates (some stored)
  effects := []
  didLoad := true
  stored := some seed.json

theorem run_mounted (stored : Value) :
    (cartProvider (some stored)).run (cartProvider (some stored)).start
      [.effect false, .effect false] = some (mounted stored) := rfl

/-- **The stored cart is kept until the first operation**, exactly if it is the seed. -/
theorem keepsStored_iff (h : cartOf stored = some cart) :
    KeepsStored stored cart ↔ cart = seed := by
  constructor
  · intro hkeeps
    have hmounted := hkeeps.storage _ (Transitions.reachable_of_run (run_mounted stored))
    simpa [mounted, eq_comm] using hmounted
  · rintro rfl
    have hseeded : ∀ s, (cartProvider (some stored)).Reachable Transitions.anyAction s → Seeded s :=
      fun s hs ↦
        Transitions.invariant ⟨rfl, by simpa [cartProvider] using h, by simp [cartProvider]⟩
        (fun _ _ _ hseeded _ hact ↦ hseeded.act hact) hs
    exact ⟨fun s hs ↦ (hseeded s hs).stored, fun s hs _ ↦ (hseeded s hs).contents⟩

theorem keepsStored_seed : KeepsStored seed.json seed :=
  (keepsStored_iff (cartOf_json seed)).mpr rfl

/-- A cart that has been emptied. -/
def emptied : Contents := ⟨[], "12"⟩

theorem not_keepsStored_emptied : ¬ KeepsStored emptied.json emptied := by
  intro hkeeps
  have hmounted := hkeeps.storage _ (Transitions.reachable_of_run (run_mounted emptied.json))
  simp [mounted, emptied, seed] at hmounted

/-! ### With and without a second mount -/

/-- If the mount effects run once, the next render has the stored cart, and writes it back. -/
theorem hydrated_once (h : cartOf stored = some cart) :
    ∃ s, (cartProvider (some stored)).run (cartProvider (some stored)).start
      [.effect false, .effect false, .render, .effect false] = some s ∧
        s.hydrated = true ∧ s.contents = cart ∧ s.stored = some cart.json := by
  have hrun : (cartProvider (some stored)).run (cartProvider (some stored)).start
      [.effect false, .effect false, .render, .effect false] =
    (cartProvider (some stored)).run (mounted stored) [.render, .effect false] := rfl
  rw [hrun, mounted, hydrateUpdates_eq h]
  exact ⟨_, rfl, rfl, rfl, rfl⟩

/-- If they run twice, the second run reads the seed, and the stored cart is gone. -/
theorem lost_twice (h : cartOf stored = some cart) :
    ∃ s, (cartProvider (some stored)).run (cartProvider (some stored)).start
      [.effect false, .effect false, .remount, .effect false, .effect false, .render,
        .effect false] = some s ∧
        s.hydrated = true ∧ s.contents = seed ∧ s.stored = some seed.json := by
  let remounted : Provider :=
    { mounted stored with
      updates := (mounted stored).updates ++ hydrateUpdates (some seed.json) }
  have hrun : (cartProvider (some stored)).run (cartProvider (some stored)).start
      [.effect false, .effect false, .remount, .effect false, .effect false, .render,
        .effect false] =
    (cartProvider (some stored)).run remounted [.render, .effect false] := rfl
  have hremounted : remounted = ⟨seed, false,
      [.setItems cart.items, .setHeadcount cart.headcount, .setHydrated, .setItems seed.items,
        .setHeadcount seed.headcount, .setHydrated], [], true, some seed.json⟩ := by
    simp [remounted, mounted, hydrateUpdates_eq h, hydrateUpdates_eq (cartOf_json seed)]
  rw [hrun, hremounted]
  exact ⟨_, rfl, rfl, rfl, rfl⟩

end DinnerRush.CustomerWeb.Hydration
