import Mathlib.Data.List.Nodup
import Mathlib.Data.Nat.Notation

/-!
# Paths of steps

A list of steps that leads from a state to a state along a relation. When a rank strictly increases
along the relation, a path leaves no state twice, never leaves its last state, and leaves every
other state it has entered (`IsPath.nodup_source`, `IsPath.source_ne`, `IsPath.left_of_entered`).
-/

set_option autoImplicit false
set_option relaxedAutoImplicit false

namespace DinnerRush

variable {α : Type} {R : α → α → Prop}

/-- The steps lead from one state to the other, each along the relation and starting where the one
before it ended. -/
def IsPath (R : α → α → Prop) : α → List (α × α) → α → Prop
  | source, [], target => source = target
  | source, step :: rest, target => step.1 = source ∧ R step.1 step.2 ∧ IsPath R step.2 rest target

namespace IsPath

variable {source middle target : α} {steps : List (α × α)} {step : α × α}

theorem snoc (h : IsPath R source steps middle) (hstep : R middle target) :
    IsPath R source (steps ++ [(middle, target)]) target := by
  induction steps generalizing source with
  | nil =>
    obtain rfl : source = middle := h
    exact ⟨rfl, hstep, rfl⟩
  | cons first rest ih => exact ⟨h.1, h.2.1, ih h.2.2⟩

theorem rel (h : IsPath R source steps target) (hstep : step ∈ steps) : R step.1 step.2 := by
  induction steps generalizing source with
  | nil => simp at hstep
  | cons first rest ih =>
    rcases List.mem_cons.mp hstep with rfl | hrest
    · exact h.2.1
    · exact ih h.2.2 hrest

/-- The states entered, from the first on, are those left and the last. -/
theorem entered_eq (h : IsPath R source steps target) :
    source :: steps.map Prod.snd = steps.map Prod.fst ++ [target] := by
  induction steps generalizing source with
  | nil => exact congrArg (fun state ↦ [state]) h
  | cons first rest ih =>
    rw [List.map_cons, List.map_cons, List.cons_append, ih h.2.2, h.1]

/-- The last state was entered. -/
theorem entered_target (h : IsPath R source steps target) :
    target = source ∨ ∃ step ∈ steps, step.2 = target := by
  induction steps generalizing source with
  | nil => exact Or.inl (Eq.symm h)
  | cons first rest ih =>
    rcases ih h.2.2 with hlast | ⟨step, hstep, hstate⟩
    · exact Or.inr ⟨first, by simp, hlast.symm⟩
    · exact Or.inr ⟨step, List.mem_cons_of_mem first hstep, hstate⟩

/-- A state that was left was entered. -/
theorem entered_source (h : IsPath R source steps target) (hstep : step ∈ steps) :
    step.1 = source ∨ ∃ earlier ∈ steps, earlier.2 = step.1 := by
  induction steps generalizing source with
  | nil => simp at hstep
  | cons first rest ih =>
    rcases List.mem_cons.mp hstep with rfl | hrest
    · exact Or.inl h.1
    · rcases ih h.2.2 hrest with hfirst | ⟨earlier, hearlier, hstate⟩
      · exact Or.inr ⟨first, List.mem_cons_self, hfirst.symm⟩
      · exact Or.inr ⟨earlier, List.mem_cons_of_mem first hearlier, hstate⟩

/-- A state that was entered is the last one or was left. -/
theorem left_of_entered (h : IsPath R source steps target) {state : α}
    (hentered : state = source ∨ ∃ step ∈ steps, step.2 = state) :
    state = target ∨ ∃ step ∈ steps, step.1 = state := by
  induction steps generalizing source with
  | nil =>
    obtain rfl : source = target := h
    rcases hentered with rfl | ⟨step, hstep, -⟩
    · exact Or.inl rfl
    · simp at hstep
  | cons first rest ih =>
    by_cases hfirst : first.1 = state
    · exact Or.inr ⟨first, by simp, hfirst⟩
    · have hlater : state = first.2 ∨ ∃ step ∈ rest, step.2 = state := by
        rcases hentered with rfl | ⟨step, hstep, hstate⟩
        · exact absurd h.1 hfirst
        · rcases List.mem_cons.mp hstep with rfl | hrest
          · exact Or.inl hstate.symm
          · exact Or.inr ⟨step, hrest, hstate⟩
      rcases ih h.2.2 hlater with hlast | ⟨step, hstep, hstate⟩
      · exact Or.inl hlast
      · exact Or.inr ⟨step, List.mem_cons_of_mem first hstep, hstate⟩

section Ranked

variable {rank : α → ℕ} (hrank : ∀ a b, R a b → rank a < rank b)

include hrank

theorem rank_le (h : IsPath R source steps target) : rank source ≤ rank target := by
  induction steps generalizing source with
  | nil =>
    obtain rfl : source = target := h
    exact Nat.le_refl _
  | cons first rest ih =>
    have hstep := hrank _ _ h.2.1
    have hrest := ih h.2.2
    rw [← h.1]
    omega

theorem rank_source_le (h : IsPath R source steps target) (hstep : step ∈ steps) :
    rank source ≤ rank step.1 := by
  induction steps generalizing source with
  | nil => simp at hstep
  | cons first rest ih =>
    rcases List.mem_cons.mp hstep with rfl | hrest
    · exact Nat.le_of_eq (congrArg rank h.1.symm)
    · have hfirst := hrank _ _ h.2.1
      have hlater := ih h.2.2 hrest
      rw [← h.1]
      omega

theorem rank_lt_target (h : IsPath R source steps target) (hstep : step ∈ steps) :
    rank step.1 < rank target := by
  induction steps generalizing source with
  | nil => simp at hstep
  | cons first rest ih =>
    rcases List.mem_cons.mp hstep with rfl | hrest
    · exact Nat.lt_of_lt_of_le (hrank _ _ h.2.1) (rank_le hrank h.2.2)
    · exact ih h.2.2 hrest

/-- The last state is never left. -/
theorem source_ne (h : IsPath R source steps target) (hstep : step ∈ steps) :
    step.1 ≠ target := by
  intro hsame
  have hlt := rank_lt_target hrank h hstep
  rw [hsame] at hlt
  exact Nat.lt_irrefl _ hlt

/-- No state is left twice. -/
theorem nodup_source (h : IsPath R source steps target) : (steps.map Prod.fst).Nodup := by
  induction steps generalizing source with
  | nil => exact List.nodup_nil
  | cons first rest ih =>
    rw [List.map_cons, List.nodup_cons]
    refine ⟨?_, ih h.2.2⟩
    intro hmem
    obtain ⟨step, hstep, hsame⟩ := List.mem_map.mp hmem
    have hlater := rank_source_le hrank h.2.2 hstep
    have hfirst := hrank _ _ h.2.1
    rw [hsame] at hlater
    omega

theorem nodup (h : IsPath R source steps target) : steps.Nodup :=
  (nodup_source hrank h).of_map

theorem rank_le_entered (h : IsPath R source steps target) {state : α}
    (hstate : state ∈ source :: steps.map Prod.snd) : rank source ≤ rank state := by
  induction steps generalizing source with
  | nil =>
    obtain rfl : state = source := by simpa using hstate
    exact Nat.le_refl _
  | cons first rest ih =>
    rcases List.mem_cons.mp hstate with rfl | hlater
    · exact Nat.le_refl _
    · have hfirst := hrank _ _ h.2.1
      have hrest := ih h.2.2 hlater
      rw [← h.1]
      omega

/-- No state is entered twice. -/
theorem nodup_entered (h : IsPath R source steps target) :
    (source :: steps.map Prod.snd).Nodup := by
  induction steps generalizing source with
  | nil => exact List.nodup_singleton source
  | cons first rest ih =>
    rw [List.map_cons, List.nodup_cons]
    refine ⟨fun hmem ↦ ?_, ih h.2.2⟩
    have hlater := rank_le_entered hrank h.2.2 hmem
    have hfirst := hrank _ _ h.2.1
    rw [h.1] at hfirst
    omega

/-- Rows that record a path, all of them among the rows of another path from the same state, are the
beginning of those. -/
theorem exists_append_of_subset {ρ : Type} {step : ρ → α × α} {rows other : List ρ} {last : α}
    (h : IsPath R source (rows.map step) middle) (hother : IsPath R source (other.map step) last)
    (hsubset : rows ⊆ other) :
    ∃ later, other = rows ++ later ∧ IsPath R middle (later.map step) last := by
  induction rows generalizing source other with
  | nil =>
    obtain rfl : source = middle := h
    exact ⟨other, rfl, hother⟩
  | cons first rest ih =>
    cases other with
    | nil => exact absurd (hsubset List.mem_cons_self) List.not_mem_nil
    | cons start remaining =>
      -- The other path leaves the source once, so it begins with the same row.
      have hfirst : first = start := by
        rcases List.mem_cons.mp (hsubset List.mem_cons_self) with hsame | hlater
        · exact hsame
        · have hback := rank_source_le hrank hother.2.2 (List.mem_map_of_mem hlater)
          have hforth := hrank _ _ hother.2.1
          rw [h.1, ← hother.1] at hback
          omega
      subst hfirst
      have hrest : rest ⊆ remaining := by
        intro row hrow
        rcases List.mem_cons.mp (hsubset (List.mem_cons_of_mem first hrow)) with rfl | hmem
        · have hback := rank_source_le hrank h.2.2 (List.mem_map_of_mem hrow)
          have hforth := hrank _ _ h.2.1
          omega
        · exact hmem
      obtain ⟨later, rfl, hpath⟩ := ih h.2.2 hother.2.2 hrest
      exact ⟨later, rfl, hpath⟩

end Ranked

end IsPath

end DinnerRush
