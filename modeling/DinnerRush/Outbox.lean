import DinnerRush.Broker
import DinnerRush.Concurrency.ReadCommitted
import Mathlib.Data.List.Sort

/-!
# The transactional outbox

`drcommon.outbox`: the rows of the `outbox` table and one round of the relay, `_drain_once`. The
relay is used by two services over their own databases, so it is written against the statements it
performs (`RelayStatements`).
-/

set_option autoImplicit false
set_option relaxedAutoImplicit false

namespace DinnerRush

open Concurrency

/-- A row of `outbox`; `published` says that `published_at` is set. -/
structure OutboxRow where
  id : ℕ
  exchange : Exchange
  routingKey : String
  payload : Envelope
  published : Bool := false
  deriving DecidableEq, Repr

namespace Outbox

/-- `batch_size`. -/
def batchSize : ℕ := 128

/-- `… WHERE published_at IS NULL ORDER BY id LIMIT $1 FOR UPDATE SKIP LOCKED`. -/
def unpublished (batch : ℕ) (free : ℕ → Bool) (rows : List OutboxRow) : List OutboxRow :=
  ((rows.filter fun row ↦ !row.published && free row.id).insertionSort fun a b ↦ a.id ≤ b.id).take
    batch

/-- `UPDATE outbox SET published_at = now() WHERE id = ANY($1)`. -/
def stamp (ids : List ℕ) (rows : List OutboxRow) : List OutboxRow :=
  rows.map fun row ↦ if row.id ∈ ids then { row with published := true } else row

/-- The columns a row never changes. -/
def unstamped (row : OutboxRow) : OutboxRow := { row with published := false }

theorem id_unstamped (row : OutboxRow) : (unstamped row).id = row.id := rfl

theorem unstamped_of_unpublished {row : OutboxRow} (h : row.published = false) :
    unstamped row = row := by
  rw [unstamped, ← h]

theorem map_stamp {α : Type} (f : OutboxRow → α) (hf : ∀ row, f (unstamped row) = f row)
    (ids : List ℕ) (rows : List OutboxRow) : (stamp ids rows).map f = rows.map f := by
  rw [stamp, List.map_map]
  apply List.map_congr_left
  intro row _
  have hsame : f { row with published := true } = f row := by
    rw [← hf { row with published := true }, ← hf row]
    rfl
  by_cases hmem : row.id ∈ ids
  · simp [hmem, hsame]
  · simp [hmem]

/-- Stamping keeps every row but for its stamp. -/
theorem exists_mem_stamp {ids : List ℕ} {rows : List OutboxRow} {row : OutboxRow}
    (h : row ∈ rows) : ∃ row' ∈ stamp ids rows, unstamped row' = unstamped row := by
  refine ⟨_, List.mem_map_of_mem h, ?_⟩
  split <;> rfl

/-- A stamped row was stamped before or is stamped now. -/
theorem mem_stamp {ids : List ℕ} {rows : List OutboxRow} {row : OutboxRow}
    (h : row ∈ stamp ids rows) :
    ∃ before ∈ rows, unstamped row = unstamped before ∧
      (row.published = true → before.published = true ∨ before.id ∈ ids) := by
  obtain ⟨before, hbefore, rfl⟩ := List.mem_map.mp h
  refine ⟨before, hbefore, ?_, ?_⟩
  · split <;> rfl
  · split
    · rename_i hmem
      exact fun _ ↦ Or.inr hmem
    · exact Or.inl

theorem mem_of_mem_unpublished {batch : ℕ} {free : ℕ → Bool} {rows : List OutboxRow}
    {row : OutboxRow} (h : row ∈ unpublished batch free rows) :
    row ∈ rows ∧ row.published = false ∧ free row.id := by
  have hsorted := List.mem_of_mem_take h
  rw [List.mem_insertionSort, List.mem_filter, Bool.and_eq_true, Bool.not_eq_true'] at hsorted
  exact hsorted

/-- A row that is found comes after every row that could be found and has a lower id. -/
theorem mem_before_of_unpublished {batch : ℕ} {free : ℕ → Bool} {rows before after : List OutboxRow}
    {row other : OutboxRow} (h : unpublished batch free rows = before ++ row :: after)
    (hother : other ∈ rows) (hunpublished : other.published = false) (hfree : free other.id)
    (hlt : other.id < row.id) : other ∈ before := by
  let earlier (a b : OutboxRow) : Prop := a.id ≤ b.id
  let found := (rows.filter fun row ↦ !row.published && free row.id).insertionSort earlier
  have hsorted : found.Pairwise earlier := by
    have : Std.Total earlier := ⟨fun a b ↦ Nat.le_total a.id b.id⟩
    have : IsTrans OutboxRow earlier := ⟨fun _ _ _ ↦ Nat.le_trans⟩
    exact List.pairwise_insertionSort earlier _
  have hmem : other ∈ found := by
    simp [found, List.mem_insertionSort, hother, hunpublished, hfree]
  have hsplit : found = before ++ row :: (after ++ found.drop batch) := by
    rw [← List.cons_append, ← List.append_assoc, ← h]
    exact (List.take_append_drop batch found).symm
  rw [hsplit, List.pairwise_append, List.pairwise_cons] at hsorted
  rw [hsplit] at hmem
  rcases List.mem_append.mp hmem with hbefore | hlater
  · exact hbefore
  · rcases List.mem_cons.mp hlater with rfl | hafter
    · exact absurd hlt (Nat.lt_irrefl _)
    · have hle := hsorted.2.1.1 other hafter
      exact absurd hlt (Nat.not_lt.mpr hle)

end Outbox

/-- The statements of a relay over the effects of a service. -/
structure RelayStatements (S : Signature) where
  begin : Program S Failure Unit
  commit : Program S Failure Unit
  rollback : Program S Failure Unit
  select : ℕ → Program S Failure (List OutboxRow)
  publish : OutboxRow → Program S Failure Unit
  stamp : List ℕ → Program S Failure Unit

namespace RelayStatements

variable {S : Signature} (statements : RelayStatements S)

/-- Publish the rows in their order; the ids of the rows published. -/
def publishAll : List OutboxRow → Program S Failure (List ℕ)
  | [] => return []
  | row :: rest => do
    statements.publish row
    let publishedIds ← publishAll rest
    return row.id :: publishedIds

/-- `_drain_once`: the number of rows moved. -/
def drainOnce : Program S Failure ℕ :=
  .transaction statements.begin statements.commit statements.rollback do
    let rows ← statements.select Outbox.batchSize
    if rows.isEmpty then
      return 0
    else
      let publishedIds ← statements.publishAll rows
      statements.stamp publishedIds
      return publishedIds.length

end RelayStatements

end DinnerRush
