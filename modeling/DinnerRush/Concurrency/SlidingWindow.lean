import Mathlib.Order.Lattice
import Mathlib.Data.List.TakeWhile

/-!
# A sliding window over a queue of times

Times are appended to a queue as they arrive, and whoever looks first takes the expired ones off its
front. Taking them off the front is enough when the clock never goes back: the queue is in the order
of the times, and what has expired once stays expired. So whoever looks finds exactly the arrivals
that have not expired, however often anyone looked before (`Kept.prune_eq_filter`).
-/

set_option autoImplicit false
set_option relaxedAutoImplicit false

namespace DinnerRush.Concurrency

variable {τ : Type} [LinearOrder τ]

/-- Which times have expired by now: the older ones sooner, and for good. -/
structure Expiry (τ : Type) [LinearOrder τ] where
  expired : τ → τ → Bool
  older : ∀ now t t', t ≤ t' → expired now t' → expired now t
  stays : ∀ now now' t, now ≤ now' → expired now t → expired now' t

namespace Expiry

variable (E : Expiry τ) {now now' t : τ} {times arrivals : List τ}

/-- Take the expired times off the front. -/
def prune (now : τ) : List τ → List τ := List.dropWhile (E.expired now)

variable {E}

/-- In the order of the times, the expired ones are at the front. -/
theorem prune_eq_filter (h : times.Pairwise (· ≤ ·)) :
    E.prune now times = times.filter fun t ↦ !E.expired now t := by
  induction times with
  | nil => rfl
  | cons first rest ih =>
    obtain ⟨hfirst, hrest⟩ := List.pairwise_cons.mp h
    cases hexpired : E.expired now first with
    | true => simpa [prune, hexpired] using ih hrest
    | false =>
      have hlater : ∀ t ∈ rest, E.expired now t = false := by
        intro t ht
        by_contra hnot
        rw [Bool.not_eq_false] at hnot
        rw [E.older now first t (hfirst t ht) hnot] at hexpired
        cases hexpired
      have hkept : rest.filter (fun t ↦ !E.expired now t) = rest := by
        rw [List.filter_eq_self]
        intro t ht
        rw [hlater t ht]
        rfl
      simp [prune, hexpired, hkept]

variable (E)

/-- The queue holds the arrivals, in their order, but for some that had expired by now. -/
structure Kept (now : τ) (arrivals times : List τ) : Prop where
  sorted : arrivals.Pairwise (· ≤ ·)
  past : ∀ t ∈ arrivals, t ≤ now
  dropped : ∃ gone, arrivals = gone ++ times ∧ ∀ t ∈ gone, E.expired now t

variable {E}

theorem kept_nil (now : τ) : E.Kept now [] [] :=
  ⟨List.Pairwise.nil, fun _ h ↦ absurd h List.not_mem_nil,
    [], rfl, fun _ h ↦ absurd h List.not_mem_nil⟩

/-- Time goes on. -/
theorem Kept.later (h : E.Kept now arrivals times) (hnow : now ≤ now') :
    E.Kept now' arrivals times := by
  obtain ⟨gone, happend, hgone⟩ := h.dropped
  exact ⟨h.sorted, fun t ht ↦ le_trans (h.past t ht) hnow, gone, happend,
    fun t ht ↦ E.stays now now' t hnow (hgone t ht)⟩

theorem Kept.arrive (h : E.Kept now arrivals times) :
    E.Kept now (arrivals ++ [now]) (times ++ [now]) := by
  obtain ⟨gone, happend, hgone⟩ := h.dropped
  refine ⟨?_, ?_, gone, ?_, hgone⟩
  · rw [List.pairwise_append]
    refine ⟨h.sorted, List.pairwise_singleton _ _, fun t ht last hlast ↦ ?_⟩
    rw [List.mem_singleton.mp hlast]
    exact h.past t ht
  · intro t ht
    rcases List.mem_append.mp ht with hold | hnew
    · exact h.past t hold
    · exact le_of_eq (List.mem_singleton.mp hnew)
  · rw [happend, List.append_assoc]

/-- Whoever looks finds the arrivals that have not expired. -/
theorem Kept.prune_eq_filter (h : E.Kept now arrivals times) :
    E.prune now times = arrivals.filter fun t ↦ !E.expired now t := by
  obtain ⟨gone, rfl, hgone⟩ := h.dropped
  have hnone : gone.filter (fun t ↦ !E.expired now t) = [] := by
    rw [List.filter_eq_nil_iff]
    intro t ht
    simp [hgone t ht]
  rw [List.filter_append, hnone, List.nil_append,
    Expiry.prune_eq_filter (List.pairwise_append.mp h.sorted).2.1]

theorem Kept.prune (h : E.Kept now arrivals times) : E.Kept now arrivals (E.prune now times) := by
  obtain ⟨gone, rfl, hgone⟩ := h.dropped
  refine ⟨h.sorted, h.past, gone ++ times.takeWhile (E.expired now), ?_, ?_⟩
  · rw [Expiry.prune, List.append_assoc, List.takeWhile_append_dropWhile]
  · intro t ht
    rcases List.mem_append.mp ht with hbefore | hfront
    · exact hgone t hbefore
    · exact List.mem_takeWhile_imp hfront

end Expiry

end DinnerRush.Concurrency
