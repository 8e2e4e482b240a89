import DinnerRush.Orchestrator.Ledger

/-!
# The custody of orders

A message on the broker has a duty: a placed event is to get its order inserted, a command is to get
its order out of the state it names. Between the outbox and the tables an order is in the custody of
the broker. `Custody` says what that takes: whatever the relay has stamped was published, and the
duty of every publication is discharged or still with a message that the broker holds. From it, an
order that can still move has a command somewhere (`Custody.command`).

What may break custody is a message that is dropped. `expendable` is when one may be.
-/

set_option autoImplicit false
set_option relaxedAutoImplicit false

namespace DinnerRush

open Concurrency

/-- The type of the envelope, if the body is one. -/
def Body.type : Body → Option EventType
  | envelope env => some env.type
  | poison _ => none

namespace Orchestrator

/-- What a message is to achieve. -/
inductive Duty
  | insert (orderId : String)
  | advance (orderId : String) (source : State)
  deriving DecidableEq, Repr

/-- The duty of an envelope. Its counter plays no part. -/
def dutyOf (env : Envelope) : Option Duty :=
  match env.type with
  | .placed => some (.insert env.orderId)
  | .advance => (env.data.fromState.bind State.ofValue).map (.advance env.orderId)
  | .transition => none

def duty : Body → Option Duty
  | .envelope env => dutyOf env
  | .poison _ => none

/-- The duty is achieved: the order is inserted, or has left the state. -/
def Discharged (d : Db) : Duty → Prop
  | .insert orderId => ∃ row ∈ d.orders, row.orderId = orderId
  | .advance orderId source => Left d orderId source

/-- The order waits for the duty: it is not inserted, or is in the state it has to leave. -/
def awaited (d : Db) : Duty → Bool
  | .insert orderId => !d.orders.any fun row ↦ decide (row.orderId = orderId)
  | .advance orderId source =>
    d.orders.any fun row ↦ decide (row.orderId = orderId ∧ row.state = source)

/-- The message may be dropped: no order waits for its duty, or a message with the same duty was
published after it. -/
def expendable (d : Db) (b : Broker) (copy : Copy) : Bool :=
  match duty copy.body with
  | none => true
  | some task =>
    !awaited d task ||
      (b.log.drop (copy.number + 1)).any fun publication ↦ duty publication.body == some task

/-- The envelope names an open state that its order has entered. -/
def Named (d : Db) (env : Envelope) : Prop :=
  ∃ source, env.data.fromState = some source.value ∧ isTerminal source = false ∧
    Entered d env.orderId source

/-- The custody of the broker over the orders of a database. -/
structure Custody (d : Db) (b : Broker) : Prop where
  kept : Broker.Kept duty (Discharged d) b
  /-- Commands are about states that were entered. -/
  named : ∀ publication ∈ b.log, ∀ env, publication.body = .envelope env →
    env.type = .advance → Named d env
  /-- The queue of placed events holds no command. -/
  placed : ∀ copy ∈ b.copies, copy.place.queue = .orchPlaced →
    copy.body.type ≠ some .advance
  /-- What the relay has stamped was published. -/
  stamped : ∀ row ∈ d.outbox, row.published = true → row.payload.type = .advance →
    ∃ publication ∈ b.log, publication.body = .envelope row.payload

variable {d d' : Db} {b b' : Broker} {env : Envelope}

theorem value_of_ofValue {text : String} {state : State} (h : State.ofValue text = some state) :
    text = state.value := by
  have hvalue := List.find?_some h
  exact (of_decide_eq_true hvalue).symm

theorem dutyOf_of_named {source : State} (htype : env.type = .advance)
    (hfrom : env.data.fromState = some source.value) :
    dutyOf env = some (.advance env.orderId source) := by
  unfold dutyOf
  rw [htype, hfrom]
  simp [State.ofValue_value]

/-- A message with the duty to advance an order is a command that names the state. -/
theorem dutyOf_advance {orderId : String} {source : State}
    (h : dutyOf env = some (.advance orderId source)) :
    env.type = .advance ∧ env.orderId = orderId ∧ env.data.fromState = some source.value := by
  unfold dutyOf at h
  split at h
  · cases h
  · rename_i htype
    obtain ⟨state, hstate, hduty⟩ := Option.map_eq_some_iff.mp h
    obtain ⟨rfl, rfl⟩ := Duty.advance.inj hduty
    obtain ⟨text, htext, hvalue⟩ := Option.bind_eq_some_iff.mp hstate
    exact ⟨htype, rfl, by rw [htext, value_of_ofValue hvalue]⟩
  · cases h

theorem dutyOf_insert {orderId : String} (h : dutyOf env = some (.insert orderId)) :
    env.type = .placed ∧ env.orderId = orderId := by
  unfold dutyOf at h
  split at h
  · rename_i htype
    obtain rfl := Duty.insert.inj (Option.some.inj h)
    exact ⟨htype, rfl⟩
  · obtain ⟨state, -, hduty⟩ := Option.map_eq_some_iff.mp h
    cases hduty
  · cases h

/-- An order that no longer waits for a duty has discharged it. -/
theorem discharged_of_not_awaited (hledger : Ledger d) {task : Duty}
    (htask : dutyOf env = some task)
    (hnamed : env.type = .advance → Named d env) (h : awaited d task = false) :
    Discharged d task := by
  cases task with
  | insert orderId =>
    rw [awaited, Bool.not_eq_false', List.any_eq_true] at h
    obtain ⟨row, hrow, horder⟩ := h
    exact ⟨row, hrow, of_decide_eq_true horder⟩
  | advance orderId source =>
    obtain ⟨htype, rfl, hfrom⟩ := dutyOf_advance htask
    obtain ⟨named, hsame, -, hentered⟩ := hnamed htype
    rw [hfrom] at hsame
    obtain rfl := State.value_injective (Option.some.inj hsame)
    obtain ⟨row, hrow, horder⟩ := hentered.1
    rw [← horder] at hentered
    rcases hledger.eq_or_left hrow hentered with hstate | hleft
    · rw [awaited, List.any_eq_false] at h
      exact absurd (decide_eq_true ⟨horder, hstate⟩) (h row hrow)
    · rw [← horder]
      exact hleft

theorem Discharged.grows {task : Duty} (h : Discharged d task) (hgrows : d.Grows d') :
    Discharged d' task := by
  cases task with
  | insert orderId => exact exists_order_grows h hgrows
  | advance orderId source => exact Left.grows h hgrows

theorem Named.grows (h : Named d env) (hgrows : d.Grows d') : Named d' env := by
  obtain ⟨source, hfrom, hopen, hentered⟩ := h
  exact ⟨source, hfrom, hopen, hentered.grows hgrows⟩

namespace Custody

/-- What the database gains is no threat to custody. -/
theorem mono (h : Custody d b) (hgrows : d.Grows d')
    (hstamped : ∀ row ∈ d'.outbox, row.published = true → row.payload.type = .advance →
      ∃ publication ∈ b.log, publication.body = .envelope row.payload) : Custody d' b where
  kept := h.kept.mono fun _ hdone ↦ hdone.grows hgrows
  named publication hlogged env hbody htype :=
    (h.named publication hlogged env hbody htype).grows hgrows
  placed := h.placed
  stamped := hstamped

theorem moves (h : Custody d b) (hmoves : Broker.Moves b b') : Custody d b' where
  kept := h.kept.moves hmoves
  named := by
    rw [hmoves.log]
    exact h.named
  placed copy' hcopy' hqueue := by
    obtain ⟨copy, hcopy, -, hbody, hsame⟩ := hmoves.origin copy' hcopy'
    rw [hbody]
    exact h.placed copy hcopy (hsame hqueue)
  stamped := by
    rw [hmoves.log]
    exact h.stamped

/-- A publication is kept, if a command names an entered state and is not published as an event. -/
theorem publish (h : Custody d b) {publication : Publication}
    (hnamed : ∀ env, publication.body = .envelope env → env.type = .advance → Named d env)
    (hevents : publication.exchange = .events → publication.body.type ≠ some .advance) :
    Custody d (b.publish publication) where
  kept := h.kept.publish publication
  named := by
    rcases b.publish_cases publication with ⟨-, hsame⟩ | ⟨queue, -, hpublished⟩
    · rw [hsame]
      exact h.named
    · rw [hpublished]
      intro logged hlogged
      rcases List.mem_append.mp hlogged with hold | hnew
      · exact h.named logged hold
      · rw [List.mem_singleton.mp hnew]
        exact hnamed
  placed := by
    rcases b.publish_cases publication with ⟨-, hsame⟩ | ⟨queue, hroute, hpublished⟩
    · rw [hsame]
      exact h.placed
    · rw [hpublished]
      intro copy hcopy hqueue
      rcases List.mem_append.mp hcopy with hold | hnew
      · exact h.placed copy hold hqueue
      · obtain rfl := List.mem_singleton.mp hnew
        obtain rfl : queue = .orchPlaced := hqueue
        refine hevents ?_
        unfold Broker.route at hroute
        split at hroute
        · assumption
        · split at hroute <;> simp at hroute
        · split at hroute <;> simp at hroute
        · simp at hroute
  stamped row hrow hpublished htype := by
    obtain ⟨logged, hlogged, hbody⟩ := h.stamped row hrow hpublished htype
    exact ⟨logged, (b.log_publish publication).subset hlogged, hbody⟩

theorem discard (h : Custody d b) {number consumer : ℕ}
    (hfree : ∀ copy ∈ b.copies, Broker.awaits number consumer copy → ∀ task,
      duty copy.body = some task → Discharged d task ∨ b.Republished duty number task) :
    Custody d (b.discard number consumer) where
  kept := h.kept.discard hfree
  named := h.named
  placed copy hcopy := h.placed copy (List.mem_of_mem_filter hcopy)
  stamped := h.stamped

/-- An expendable message may be discarded. -/
theorem discard_of_expendable (h : Custody d b) (hledger : Ledger d) (hfiled : b.Filed)
    {number consumer : ℕ}
    (hfree : ∀ copy ∈ b.copies, Broker.awaits number consumer copy → expendable d b copy) :
    Custody d (b.discard number consumer) := by
  refine h.discard fun copy hcopy hawaits task htask ↦ ?_
  have hexpendable := hfree copy hcopy hawaits
  have hnumber : copy.number = number := by
    rw [Broker.awaits, Bool.and_eq_true, beq_iff_eq] at hawaits
    exact hawaits.1
  rw [expendable, htask] at hexpendable
  simp only [Bool.or_eq_true, Bool.not_eq_true', List.any_eq_true, beq_iff_eq] at hexpendable
  rcases hexpendable with hidle | ⟨later, hlater, hsame⟩
  · cases hbody : copy.body with
    | poison bytes =>
      rw [hbody] at htask
      cases htask
    | envelope env =>
      rw [hbody] at htask
      obtain ⟨logged, hlogged, hlast⟩ := hfiled copy hcopy
      refine Or.inl (discharged_of_not_awaited hledger htask ?_ hidle)
      exact h.named logged (List.mem_of_getElem? hlogged) env (hlast.trans hbody)
  · obtain ⟨i, hi, rfl⟩ := List.mem_iff_getElem.mp hlater
    rw [List.length_drop] at hi
    refine Or.inr ⟨copy.number + 1 + i, _, by omega, ?_, hsame⟩
    rw [List.getElem_drop]
    exact List.getElem?_eq_getElem _

/-- An order that can still move has a command in the outbox or with the broker. -/
theorem command (h : Custody d b) (hledger : Ledger d) {row : OrderRow} (hrow : row ∈ d.orders)
    (hopen : isTerminal row.state = false) :
    (∃ out ∈ d.outbox, out.published = false ∧ Commands row.orderId row.state out) ∨
      ∃ copy ∈ b.copies, duty copy.body = some (.advance row.orderId row.state) := by
  obtain ⟨out, hout, hcommands⟩ := hledger.command hrow hopen
  by_cases hpublished : out.published = true
  · obtain ⟨logged, hlogged, hbody⟩ := h.stamped out hout hpublished hcommands.type
    obtain ⟨i, hi, hat⟩ := List.mem_iff_getElem.mp hlogged
    have htask : duty logged.body = some (.advance row.orderId row.state) := by
      rw [hbody, ← hcommands.orderId]
      exact dutyOf_of_named hcommands.type hcommands.fromState
    rcases h.kept i logged _ (List.getElem?_eq_some_iff.mpr ⟨hi, hat⟩) htask with hleft | hcopy
    · exact absurd hleft (hledger.not_left hrow)
    · obtain ⟨copy, hcopy, -, hduty⟩ := hcopy
      exact Or.inr ⟨copy, hcopy, hduty⟩
  · exact Or.inl ⟨out, hout, by simpa using hpublished, hcommands⟩

end Custody

end Orchestrator

end DinnerRush
