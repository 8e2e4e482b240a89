import DinnerRush.Concurrency.Pool
import DinnerRush.Concurrency.Table
import DinnerRush.Outbox

/-!
# Relays and writers on one outbox table

`drcommon.outbox` on its own: any number of transactions that `enqueue` rows, and any number of
rounds `_drain_once` of relays, interleaved at every statement and every publish.

Of Postgres it is assumed that a statement at READ COMMITTED reads what was committed when it
started, and that `FOR UPDATE SKIP LOCKED` takes the rows found one after the other: a row that
another transaction has locked is skipped, and of a row that it locks it looks at the current
version again. So the `SELECT` of a relay is not one step here but a scan and then one step for each
row.

The broker is what was handed to it, in order. A flag records whether something has gone wrong so
far: a call has raised, or a transaction that had locked rows of the table has been aborted.
-/

set_option autoImplicit false
set_option relaxedAutoImplicit false

namespace DinnerRush.OutboxRelay

open Concurrency

/-! ### The table -/

inductive Write
  | insert (row : OutboxRow)
  | stamp (ids : List ℕ)
  deriving DecidableEq, Repr

def apply (rows : List OutboxRow) : Write → List OutboxRow
  | .insert row => rows ++ [row]
  | .stamp ids => Outbox.stamp ids rows

/-- The locks are on rows, by their ids. -/
abbrev Store := Transactions (List OutboxRow) ℕ Write

/-- What a service enqueues. -/
structure Message where
  exchange : Exchange
  routingKey : String
  payload : Envelope
  deriving DecidableEq, Repr

/-- A row that was handed to the broker, and whether the broker has confirmed it. -/
structure Handed where
  publisher : ℕ
  row : OutboxRow
  confirmed : Bool
  deriving DecidableEq, Repr

structure Shared where
  db : Store
  sequence : ℕ
  handed : List Handed
  disturbed : Bool

/-! ### Programs -/

inductive Effect
  | begin
  | commit
  | rollback
  | enqueue (message : Message)
  | scan
  | lockRow (id : ℕ)
  | publish (row : OutboxRow)
  | stamp (ids : List ℕ)

@[reducible] def Effect.Result : Effect → Type
  | begin => Unit
  | commit => Unit
  | rollback => Unit
  | enqueue _ => Unit
  | scan => List ℕ
  | lockRow _ => Option OutboxRow
  | publish _ => Unit
  | stamp _ => Unit

abbrev signature : Signature := ⟨Effect, Effect.Result⟩

abbrev Proc (α : Type) := Program signature Failure α

def perform (effect : Effect) : Proc effect.Result := .call (S := signature) effect

/-- Take up to `batch` of the rows that were found. -/
def takeRows : ℕ → List ℕ → Proc (List OutboxRow)
  | 0, _ => return []
  | _, [] => return []
  | batch + 1, id :: rest => do
    match ← perform (.lockRow id) with
    | some row => return row :: (← takeRows batch rest)
    | none => takeRows (batch + 1) rest

/-- `SELECT … WHERE published_at IS NULL ORDER BY id LIMIT $1 FOR UPDATE SKIP LOCKED`. -/
def select (batch : ℕ) : Proc (List OutboxRow) := do
  takeRows batch (← perform .scan)

def relay : RelayStatements signature where
  begin := perform .begin
  commit := perform .commit
  rollback := perform .rollback
  select := select
  publish row := perform (.publish row)
  stamp ids := perform (.stamp ids)

def enqueueAll : List Message → Proc Unit
  | [] => return ()
  | message :: rest => do
    perform (.enqueue message)
    enqueueAll rest

/-- A transaction of a service that enqueues messages, and may raise at its end. -/
def write (messages : List Message) (fails : Bool) : Proc Unit :=
  .transaction (perform .begin) (perform .commit) (perform .rollback) do
    enqueueAll messages
    if fails then .raise (.error "the transaction of the service failed") else return ()

/-! ### Steps -/

inductive Choice
  | done
  | lost (text : String)
  | unconfirmed (text : String)

namespace Shared

def view (s : Shared) (thread : ℕ) : List OutboxRow := s.db.view apply thread

def inTransaction (s : Shared) (thread : ℕ) : Bool := (s.db.pending thread).isSome

/-- The transaction of the thread has locked no row of the table. -/
def idle (s : Shared) (thread : ℕ) : Bool :=
  s.db.committed.all fun row ↦ s.db.owner row.id ≠ some thread

/-- The ids of the rows that a scan finds, in their order. -/
def found (s : Shared) (thread : ℕ) : List ℕ :=
  (((s.view thread).filter fun row ↦ !row.published).insertionSort fun a b ↦ a.id ≤ b.id).map
    OutboxRow.id

/-- The current version of a row, if it is still to be published. -/
def recheck (s : Shared) (thread id : ℕ) : Option OutboxRow :=
  (Table.find OutboxRow.id id (s.view thread)).filter fun row ↦ !row.published

def commit (s : Shared) (thread : ℕ) : Shared := { s with db := s.db.commit apply thread }

def hand (s : Shared) (thread : ℕ) (row : OutboxRow) (confirmed : Bool) : Shared :=
  { s with handed := s.handed ++ [⟨thread, row, confirmed⟩] }

def disturb (s : Shared) : Shared := { s with disturbed := true }

end Shared

def exec (thread : ℕ) : (effect : Effect) → Choice → Shared →
    Option (Except Failure effect.Result × Shared)
  | .commit, .unconfirmed text, s =>
    if s.inTransaction thread then some (.error (.error text), (s.commit thread).disturb) else none
  | .publish row, .unconfirmed text, s =>
    some (.error (.error text), (s.hand thread row false).disturb)
  | _, .unconfirmed _, _ => none
  | _, .lost text, s => some (.error (.error text), s.disturb)
  | .begin, .done, s => some (.ok (), { s with db := s.db.begin thread })
  | .commit, .done, s =>
    if s.inTransaction thread then some (.ok (), s.commit thread) else none
  | .rollback, .done, s => some (.ok (), { s with db := s.db.abort thread })
  | .enqueue message, .done, s =>
    if s.inTransaction thread then
      some (.ok (), { s with
        db := (s.db.lock thread s.sequence).write thread (.insert
          ⟨s.sequence, message.exchange, message.routingKey, message.payload, false⟩)
        sequence := s.sequence + 1 })
    else none
  | .scan, .done, s => if s.inTransaction thread then some (.ok (s.found thread), s) else none
  | .lockRow id, .done, s =>
    if s.inTransaction thread then
      if s.db.free thread id then
        some (.ok (s.recheck thread id), { s with db := s.db.lock thread id })
      else some (.ok none, s)
    else none
  | .publish row, .done, s => some (.ok (), s.hand thread row true)
  | .stamp ids, .done, s =>
    if s.inTransaction thread then
      some (.ok (), { s with db := s.db.write thread (.stamp ids) })
    else none

/-- What is launched: a round of a relay, or a transaction of a service. -/
inductive Launch
  | drainOnce
  | write (messages : List Message) (fails : Bool)

def launch : Launch → Proc Unit
  | .drainOnce => do let _ ← relay.drainOnce
  | .write messages fails => OutboxRelay.write messages fails

/-- A transaction is aborted, as after the crash of its process. -/
def abort (thread : ℕ) (s : Shared) : Shared :=
  { s with db := s.db.abort thread, disturbed := s.disturbed || !s.idle thread }

/-- The outbox table with its relays and writers. -/
def outbox : Machine signature Failure Unit where
  Shared := Shared
  Choice := Choice
  Launch := Launch
  Ambient := ℕ
  exec := exec
  launch _ launched s := some (launch launched, s)
  ambient thread s := some (abort thread s)
  start := ⟨.start [], 0, [], false⟩

end DinnerRush.OutboxRelay
