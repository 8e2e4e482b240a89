import Mathlib.Algebra.Order.Field.Basic
import Mathlib.Tactic.Linarith

/-!
# Fixed windows and sliding intervals

Events are counted window by window, and a window starts a whole span or more after the one before
it. A limit on the events of each window bounds the events of every interval of one span, wherever
it lies: `Windowed.not_three` is that no interval of one span meets three windows, and
`Windowed.countP_le` that it therefore holds at most twice the limit.

The first window may have started at any time, so an event of it may be earlier than its start.
-/

set_option autoImplicit false
set_option relaxedAutoImplicit false

namespace DinnerRush.Concurrency

/-- The time of an event, and the start of the window that it was counted in. -/
structure Stamp (τ : Type) where
  time : τ
  window : τ

variable {τ : Type} [Field τ] [LinearOrder τ] [IsStrictOrderedRing τ]

/-- Windows of one span at least, of which only the first may start after its own events. -/
structure Windowed (span : τ) (stamps : List (Stamp τ)) : Prop where
  apart : ∀ a ∈ stamps, ∀ b ∈ stamps, a.window < b.window → a.window + span ≤ b.window
  inside : ∀ a ∈ stamps, a.time < a.window + span
  opened : ∀ a ∈ stamps, ∀ b ∈ stamps, a.window < b.window → b.window ≤ b.time

namespace Windowed

variable {span : τ} {stamps : List (Stamp τ)}

omit [IsStrictOrderedRing τ] in
/-- Some of the events are events of the same windows. -/
theorem mono (h : Windowed span stamps) {some : List (Stamp τ)} (hsome : some ⊆ stamps) :
    Windowed span some where
  apart a ha b hb := h.apart a (hsome ha) b (hsome hb)
  inside a ha := h.inside a (hsome ha)
  opened a ha b hb := h.opened a (hsome ha) b (hsome hb)

/-- Two events with a whole window between theirs are a span or more apart. -/
theorem not_three (h : Windowed span stamps) {a b c : Stamp τ} (ha : a ∈ stamps) (hb : b ∈ stamps)
    (hc : c ∈ stamps) (hab : a.window < b.window) (hbc : b.window < c.window) :
    a.time + span < c.time := by
  have hfirst : a.time < b.window := lt_of_lt_of_le (h.inside a ha) (h.apart a ha b hb hab)
  have hlast : b.window + span ≤ c.time :=
    le_trans (h.apart b hb c hc hbc) (h.opened b hb c hc hbc)
  linarith

/-- Events of one span are of at most two windows. -/
theorem eq_or_eq (h : Windowed span stamps) {t : τ} {a b c : Stamp τ}
    (ha : a ∈ stamps ∧ t ≤ a.time ∧ a.time < t + span)
    (hb : b ∈ stamps ∧ t ≤ b.time ∧ b.time < t + span)
    (hc : c ∈ stamps ∧ t ≤ c.time ∧ c.time < t + span) (hab : b.window ≠ a.window) :
    c.window = a.window ∨ c.window = b.window := by
  -- Three different windows would have one of them between the other two.
  have hbetween : ∀ x y z : Stamp τ, (x ∈ stamps ∧ t ≤ x.time ∧ x.time < t + span) →
      (y ∈ stamps ∧ t ≤ y.time ∧ y.time < t + span) →
      (z ∈ stamps ∧ t ≤ z.time ∧ z.time < t + span) →
      x.window < y.window → y.window < z.window → False := by
    intro x y z hx hy hz hxy hyz
    have hspan := h.not_three hx.1 hy.1 hz.1 hxy hyz
    linarith [hx.2.1, hz.2.2]
  by_contra hother
  obtain ⟨hca, hcb⟩ := not_or.mp hother
  rcases lt_or_gt_of_ne hab with hab | hab <;> rcases lt_or_gt_of_ne hca with hca | hca <;>
    rcases lt_or_gt_of_ne hcb with hcb | hcb
  · exact hbetween c b a hc hb ha hcb hab
  · exact hbetween b c a hb hc ha hcb hca
  · exact absurd (hcb.trans hab) (not_lt_of_gt hca)
  · exact hbetween b a c hb ha hc hab hca
  · exact hbetween c a b hc ha hb hca hab
  · exact absurd (hcb.trans hca) (not_lt_of_gt hab)
  · exact hbetween a c b ha hc hb hca hcb
  · exact hbetween a b c ha hb hc hab hcb

/-- A limit for each window limits every half-open interval of one span to twice as much. -/
theorem countP_le (h : Windowed span stamps) {limit : ℕ}
    (hlimit : ∀ w, stamps.countP (fun s ↦ s.window = w) ≤ limit) (t : τ) :
    stamps.countP (fun s ↦ t ≤ s.time ∧ s.time < t + span) ≤ 2 * limit := by
  rw [List.countP_eq_length_filter]
  generalize hnear : stamps.filter (fun s ↦ t ≤ s.time ∧ s.time < t + span) = near
  have hmem : ∀ s ∈ near, s ∈ stamps ∧ t ≤ s.time ∧ s.time < t + span := by
    intro s hs
    simpa [← hnear] using hs
  have hwindow : ∀ w, near.countP (fun s ↦ s.window = w) ≤ limit := fun w ↦
    le_trans ((hnear ▸ List.filter_sublist).countP_le) (hlimit w)
  by_cases hall : ∃ a ∈ near, ∃ b ∈ near, b.window ≠ a.window
  · obtain ⟨a, ha, b, hb, hab⟩ := hall
    -- Every other event of the interval is in the window of `a` or in the window of `b`.
    have hrest : near.countP (fun s ↦ ¬ s.window = a.window) ≤
        near.countP (fun s ↦ s.window = b.window) := by
      refine List.countP_mono_left fun s hs hne ↦ ?_
      have hor := h.eq_or_eq (hmem a ha) (hmem b hb) (hmem s hs) hab
      simpa using hor.resolve_left (by simpa using hne)
    have hsplit := near.length_eq_countP_add_countP (fun s ↦ s.window = a.window)
    have ha' := hwindow a.window
    have hb' := hwindow b.window
    simp only [decide_eq_true_eq] at hsplit
    omega
  · cases near with
    | nil => simp
    | cons a rest =>
      have hone : (a :: rest).countP (fun s ↦ s.window = a.window) = (a :: rest).length := by
        refine List.countP_eq_length.mpr fun s hs ↦ ?_
        by_contra hne
        exact hall ⟨a, List.mem_cons_self, s, hs, by simpa using hne⟩
      have ha' := hwindow a.window
      omega

end Windowed

end DinnerRush.Concurrency
