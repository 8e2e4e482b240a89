import DinnerRush.Concurrency.Table
import DinnerRush.Outbox

/-!
# The database of the orchestrator

The tables `orders`, `transitions`, `operations` and `outbox`, the writes the orchestrator makes to
them, and the keys its statements lock. A time is that of the clock of the database. The times of
operations and of the outbox are left out: nothing reads them.
-/

set_option autoImplicit false
set_option relaxedAutoImplicit false

namespace DinnerRush.Orchestrator

open Concurrency

/-- A row of `orders`. -/
structure OrderRow where
  orderId : String
  state : State
  idempotencyKey : Option String
  customerId : Option String
  restaurantId : Option String
  items : List Item
  totalCents : ℤ
  createdAt : ℕ
  updatedAt : ℕ
  deriving DecidableEq, Repr

/-- A row of `transitions`. -/
structure TransitionRow where
  id : ℕ
  orderId : String
  fromState : State
  toState : State
  cause : String
  attempt : ℤ
  createdAt : ℕ
  deriving DecidableEq, Repr

/-- A row of `operations`. -/
structure OperationRow where
  opId : String
  orderId : String
  kind : String
  result : Detail
  deriving DecidableEq, Repr

structure Db where
  orders : List OrderRow
  transitions : List TransitionRow
  operations : List OperationRow
  outbox : List OutboxRow
  deriving DecidableEq, Repr

inductive Write
  | insertOrder (row : OrderRow)
  | claim (row : OperationRow)
  | setState (orderId : String) (state : State) (now : ℕ)
  | insertTransition (row : TransitionRow)
  | enqueue (row : OutboxRow)
  | stamp (ids : List ℕ)
  deriving DecidableEq, Repr

/-- What a transaction locks: an order it inserts or updates, an operation it claims, or a row of
the outbox. -/
inductive Key
  | order (orderId : String)
  | operation (opId : String)
  | outbox (id : ℕ)
  deriving DecidableEq, Repr

def Db.empty : Db := ⟨[], [], [], []⟩

def Db.apply (d : Db) : Write → Db
  | .insertOrder row => { d with orders := d.orders ++ [row] }
  | .claim row => { d with operations := d.operations ++ [row] }
  | .setState orderId state now =>
    { d with orders := d.orders.map fun row ↦
        if row.orderId = orderId then { row with state := state, updatedAt := now } else row }
  | .insertTransition row => { d with transitions := d.transitions ++ [row] }
  | .enqueue row => { d with outbox := d.outbox ++ [row] }
  | .stamp ids => { d with outbox := Outbox.stamp ids d.outbox }

abbrev Store := Transactions Db Key Write

/-! ### What writes do to the database -/

/-- The columns of an order that never change: those apart from `state` and `updated_at`, which a
transition sets. -/
def OrderRow.core (row : OrderRow) : OrderRow := { row with state := .placed, updatedAt := 0 }

theorem orderId_of_core {row row' : OrderRow} (h : row'.core = row.core) :
    row'.orderId = row.orderId := by
  have hid : row'.core.orderId = row.core.orderId := congrArg OrderRow.orderId h
  exact hid

/-- Nothing is taken out of the database: an order may change its state, with the time of that, and
a row of the outbox may be stamped. -/
structure Db.Grows (d d' : Db) : Prop where
  orders : ∀ row ∈ d.orders, ∃ row' ∈ d'.orders, row'.core = row.core
  transitions : ∀ row ∈ d.transitions, row ∈ d'.transitions
  operations : ∀ row ∈ d.operations, row ∈ d'.operations
  outbox : ∀ row ∈ d.outbox, ∃ row' ∈ d'.outbox, Outbox.unstamped row' = Outbox.unstamped row

namespace Db

theorem Grows.refl (d : Db) : d.Grows d :=
  ⟨fun row h ↦ ⟨row, h, rfl⟩, fun _ h ↦ h, fun _ h ↦ h, fun row h ↦ ⟨row, h, rfl⟩⟩

theorem Grows.trans {d₁ d₂ d₃ : Db} (h : d₁.Grows d₂) (h' : d₂.Grows d₃) : d₁.Grows d₃ where
  orders row hrow := by
    obtain ⟨row₂, hrow₂, hsame₂⟩ := h.orders row hrow
    obtain ⟨row₃, hrow₃, hsame₃⟩ := h'.orders row₂ hrow₂
    exact ⟨row₃, hrow₃, hsame₃.trans hsame₂⟩
  transitions row hrow := h'.transitions row (h.transitions row hrow)
  operations row hrow := h'.operations row (h.operations row hrow)
  outbox row hrow := by
    obtain ⟨row₂, hrow₂, hsame₂⟩ := h.outbox row hrow
    obtain ⟨row₃, hrow₃, hsame₃⟩ := h'.outbox row₂ hrow₂
    exact ⟨row₃, hrow₃, hsame₃.trans hsame₂⟩

theorem grows_apply (d : Db) (write : Write) : d.Grows (d.apply write) := by
  have hsame := Grows.refl d
  cases write with
  | insertOrder row =>
    exact { hsame with orders := fun row h ↦ ⟨row, List.mem_append_left _ h, rfl⟩ }
  | claim row => exact { hsame with operations := fun _ h ↦ List.mem_append_left _ h }
  | setState orderId state now =>
    refine { hsame with orders := fun row h ↦ ⟨_, List.mem_map_of_mem h, ?_⟩ }
    split <;> rfl
  | insertTransition row => exact { hsame with transitions := fun _ h ↦ List.mem_append_left _ h }
  | enqueue row =>
    exact { hsame with outbox := fun row h ↦ ⟨row, List.mem_append_left _ h, rfl⟩ }
  | stamp ids => exact { hsame with outbox := fun row h ↦ Outbox.exists_mem_stamp h }

theorem grows_foldl (d : Db) (writes : List Write) : d.Grows (writes.foldl apply d) := by
  induction writes generalizing d with
  | nil => exact Grows.refl d
  | cons write rest ih => exact (d.grows_apply write).trans (ih (d.apply write))

theorem mem_transitions_foldl {d : Db} {writes : List Write} {row : TransitionRow}
    (h : row ∈ (writes.foldl apply d).transitions) :
    row ∈ d.transitions ∨ .insertTransition row ∈ writes := by
  induction writes generalizing d with
  | nil => exact Or.inl h
  | cons write rest ih =>
    rcases ih h with hbefore | hlater
    · cases write with
      | insertTransition first =>
        rcases List.mem_append.mp hbefore with hold | hnew
        · exact Or.inl hold
        · rw [List.mem_singleton.mp hnew]
          exact Or.inr List.mem_cons_self
      | _ => exact Or.inl hbefore
    · exact Or.inr (List.mem_cons_of_mem write hlater)

/-- An order was there before, apart from what may change of it, or was inserted. -/
theorem mem_orders_foldl {d : Db} {writes : List Write} {row : OrderRow}
    (h : row ∈ (writes.foldl apply d).orders) :
    (∃ before ∈ d.orders, row.core = before.core) ∨
      ∃ inserted, .insertOrder inserted ∈ writes ∧ row.core = inserted.core := by
  induction writes generalizing d with
  | nil => exact Or.inl ⟨row, h, rfl⟩
  | cons write rest ih =>
    rcases ih h with ⟨before, hbefore, hcore⟩ | ⟨inserted, hinserted, hcore⟩
    · cases write with
      | insertOrder first =>
        rcases List.mem_append.mp hbefore with hold | hnew
        · exact Or.inl ⟨before, hold, hcore⟩
        · rw [List.mem_singleton.mp hnew] at hcore
          exact Or.inr ⟨first, List.mem_cons_self, hcore⟩
      | setState orderId state now =>
        obtain ⟨old, hold, rfl⟩ := List.mem_map.mp hbefore
        refine Or.inl ⟨old, hold, hcore.trans ?_⟩
        split <;> rfl
      | _ => exact Or.inl ⟨before, hbefore, hcore⟩
    · exact Or.inr ⟨inserted, List.mem_cons_of_mem write hinserted, hcore⟩

end Db

/-- The rows that the writes add to the outbox. -/
def enqueued (writes : List Write) : List OutboxRow :=
  writes.filterMap fun write ↦
    match write with
    | .enqueue row => some row
    | _ => none

theorem mem_enqueued {writes : List Write} {row : OutboxRow} :
    row ∈ enqueued writes ↔ .enqueue row ∈ writes := by
  unfold enqueued
  rw [List.mem_filterMap]
  constructor
  · rintro ⟨write, hwrite, hrow⟩
    cases write with
    | enqueue other =>
      rw [← Option.some.inj hrow]
      exact hwrite
    | _ => cases hrow
  · exact fun h ↦ ⟨_, h, rfl⟩

theorem outbox_foldl {d : Db} {writes : List Write} (h : ∀ ids, .stamp ids ∉ writes) :
    (writes.foldl Db.apply d).outbox = d.outbox ++ enqueued writes := by
  induction writes generalizing d with
  | nil => simp [enqueued]
  | cons write rest ih =>
    have hrest : ∀ ids, Write.stamp ids ∉ rest :=
      fun ids hmem ↦ h ids (List.mem_cons_of_mem write hmem)
    rw [List.foldl_cons, ih hrest]
    cases write with
    | enqueue row => simp [Db.apply, enqueued]
    | stamp ids => exact absurd List.mem_cons_self (h ids)
    | _ => rfl

end DinnerRush.Orchestrator
