import DinnerRush.Ingestion.Statements

/-!
# Idempotent, atomic accept

Whatever requests, relay rounds, aborts and failures are interleaved, the orders and the
`order.placed` events of the outbox are the same list (`Sound.events`): each transaction that
commits appends one row to both or nothing to either. A duplicate is answered from the row that its
`INSERT` met, which is committed because the `INSERT` waits for open transactions.
-/

set_option autoImplicit false
set_option relaxedAutoImplicit false

namespace DinnerRush.Ingestion

open Concurrency Discipline

variable {thread : ℕ} {s s' : Shared}

/-! ### The endpoint -/

/-- The order and its event are written but not committed. -/
def Announced (thread : ℕ) (row : OrderRow) (event : OutboxRow) (s : Shared) : Prop :=
  Tx thread [.insertOrder row, .enqueue event]
    (fun key ↦ AbsentKeys row key ∨ key = .outbox event.id)
    (fun d ↦ Absent row d ∧ event.id ∉ d.outbox.map OutboxRow.id) s ∧ event.id < s.outboxSeq

theorem announced_of_same {row : OrderRow} {id : ℕ} {d d' : Db}
    (h : ∀ key, AbsentKeys row key ∨ key = .outbox id → guarding.Same key d d')
    (hd : Absent row d ∧ id ∉ d.outbox.map OutboxRow.id) :
    Absent row d' ∧ id ∉ d'.outbox.map OutboxRow.id :=
  ⟨absent_of_same (fun key hkey ↦ h key (Or.inl hkey)) hd.1,
    fun hmem ↦ hd.2 ((h _ (Or.inr rfl)).mpr hmem)⟩

theorem Announced.rely {row : OrderRow} {event : OutboxRow} (h : Announced thread row event s)
    (hrely : Relies thread s s') : Announced thread row event s' :=
  ⟨Tx.rely h.1 hrely fun _ _ ↦ announced_of_same, Nat.lt_of_lt_of_le h.2 hrely.outboxSeq⟩

/-- No transaction holds the id that the sequence gives next. -/
theorem free_outboxSeq (hinv : Sound s) : s.db.free thread (.outbox s.outboxSeq) := by
  rw [Transactions.free, decide_eq_true_eq]
  cases howner : s.db.owner (.outbox s.outboxSeq) with
  | none => exact Or.inl rfl
  | some other => exact absurd (hinv.locks _ other howner) (Nat.lt_irrefl _)

/-- A step that only draws an id from the sequence keeps the service sound. -/
theorem Sound.draw (hinv : Sound s) {db : Store} (hcommitted : db.committed = s.db.committed)
    (howner : ∀ id other, db.owner (.outbox id) = some other → id < s.outboxSeq + 1) :
    Sound ⟨db, s.outboxSeq + 1, s.sent⟩ ∧ Grows s ⟨db, s.outboxSeq + 1, s.sent⟩ := by
  constructor
  · constructor
    all_goals simp only [hcommitted]
    · exact hinv.keys
    · exact hinv.orderIds
    · exact hinv.totals
    · exact hinv.events
    · exact hinv.outboxIds
    · exact fun row hrow ↦ Nat.lt_succ_of_lt (hinv.drawn row hrow)
    · exact howner
    · exact hinv.stamped
    · exact hinv.sent
  · constructor
    all_goals simp only [hcommitted]
    · exact fun _ h ↦ h
    · exact fun row h ↦ ⟨row, h, rfl⟩
    · exact List.prefix_rfl
    · exact Nat.le_succ _

/-- The transaction of a thread in the state after `enqueue`. -/
def enqueued (thread : ℕ) (event : OutboxRow) (db : Store) : Store :=
  (db.lock thread (.outbox event.id)).write thread (.enqueue event)

theorem owner_enqueued (hinv : Sound s) {event : OutboxRow} (hid : event.id = s.outboxSeq)
    {id other : ℕ} (h : (enqueued thread event s.db).owner (.outbox id) = some other) :
    id < s.outboxSeq + 1 := by
  by_cases hsame : id = event.id
  · omega
  · have hbefore : s.db.owner (.outbox id) = some other := by
      simpa [enqueued, Transactions.lock, Transactions.write, hsame] using h
    exact Nat.lt_succ_of_lt (hinv.locks id other hbefore)

theorem wp_enqueue {row : OrderRow} {exchange : Exchange} {routingKey : String} {env : Envelope}
    {Q : Unit → Shared → Prop} (hinserted : Inserted thread row s)
    (h : ∀ s₁ id, Announced thread row ⟨id, exchange, routingKey, env, false⟩ s₁ → Q () s₁) :
    Verifies thread Q (perform (.enqueue exchange routingKey env)) s := by
  apply wp_call
  intro s₁ hrely hinv choice reply s₂ _ hexec
  cases choice with
  | done =>
    obtain ⟨s₃, henqueue, hreply⟩ := Option.map_eq_some_iff.mp hexec
    obtain ⟨rfl, rfl⟩ := Prod.mk.inj hreply
    unfold Shared.enqueue at henqueue
    split at henqueue
    · rename_i hin
      obtain rfl := Option.some.inj henqueue
      obtain ⟨hpending, howned, habsent⟩ := hinserted.rely hrely (pending_of_inTransaction hin)
      let event : OutboxRow := ⟨s₁.outboxSeq, exchange, routingKey, env, false⟩
      have hdraw := Sound.draw hinv (rfl : (enqueued thread event s₁.db).committed = _)
        fun _ _ ↦ owner_enqueued hinv rfl
      refine ⟨⟨hdraw.1, fun other hne ↦ ⟨hdraw.2, ?_⟩⟩, ?_⟩
      · exact (Transactions.kept_lock (free_outboxSeq hinv) hne).trans
          (Transactions.kept_write hne)
      · have hannounced : Announced thread row event
            ⟨enqueued thread event s₁.db, s₁.outboxSeq + 1, s₁.sent⟩ := by
          refine ⟨fun _ ↦ ⟨?_, ?_, habsent, ?_⟩, Nat.lt_succ_self _⟩
          · simp [enqueued, Transactions.lock, Transactions.write, hpending]
          · rintro key (hkey | rfl)
            · have hne : key ≠ .outbox event.id := by
                rcases hkey with rfl | rfl <;> simp
              simpa [enqueued, Transactions.lock, Transactions.write, hne] using howned key hkey
            · simp [enqueued, Transactions.lock, Transactions.write]
          · intro hmem
            obtain ⟨other, hother, hid⟩ := List.mem_map.mp hmem
            exact absurd (Sound.drawn hinv other hother) (by rw [hid]; exact Nat.lt_irrefl _)
        exact fun s₃ hrely₃ _ ↦ h s₃ _ (hannounced.rely hrely₃)
    · cases henqueue
  | lost text =>
    obtain ⟨rfl, rfl⟩ := Prod.mk.inj (Option.some.inj hexec)
    exact wp_raise_of_inv hinv
  | _ => cases hexec

/-- What the transaction of an accept has to satisfy to be committed. -/
theorem Sound.accept (hinv : Sound s) {row : OrderRow} {event : OutboxRow}
    (habsent : Absent row s.db.committed ∧ event.id ∉ s.db.committed.outbox.map OutboxRow.id)
    (hid : event.id < s.outboxSeq) (hannounces : Announces event row)
    (htotal : row.totalCents = totalOfItems row.items) (hevent : event.published = false)
    {db : Store} (hcommitted : db.committed =
      [Write.insertOrder row, .enqueue event].foldl Db.apply s.db.committed)
    (howner : ∀ id other, db.owner (.outbox id) = some other → id < s.outboxSeq) :
    Sound { s with db := db } ∧ Grows s { s with db := db } := by
  have horders : db.committed.orders = s.db.committed.orders ++ [row] := by rw [hcommitted]; rfl
  have houtbox : db.committed.outbox = s.db.committed.outbox ++ [event] := by rw [hcommitted]; rfl
  constructor
  · constructor
    all_goals simp only [horders, houtbox]
    · exact hinv.keys.append habsent.1.1
    · exact hinv.orderIds.append habsent.1.2
    · intro other hother
      rcases List.mem_append.mp hother with hold | hnew
      · exact hinv.totals other hold
      · rw [List.mem_singleton.mp hnew, htotal]
    · exact List.rel_append hinv.events (.cons hannounces .nil)
    · refine hinv.outboxIds.append fun other hother hsame ↦ habsent.2 ?_
      exact List.mem_map.mpr ⟨other, hother, hsame⟩
    · intro other hother
      rcases List.mem_append.mp hother with hold | hnew
      · exact hinv.drawn other hold
      · rw [List.mem_singleton.mp hnew]
        exact hid
    · exact howner
    · intro other hother hpublished
      rcases List.mem_append.mp hother with hold | hnew
      · exact hinv.stamped other hold hpublished
      · rw [List.mem_singleton.mp hnew, hevent] at hpublished
        cases hpublished
    · intro other hother
      obtain ⟨row', hrow', hsame⟩ := hinv.sent other hother
      exact ⟨row', List.mem_append_left _ hrow', hsame⟩
  · constructor
    all_goals simp only [horders, houtbox]
    · exact fun other hother ↦ List.mem_append_left _ hother
    · exact fun other hother ↦ ⟨other, List.mem_append_left _ hother, rfl⟩
    · exact List.prefix_rfl
    · exact Nat.le_refl _

/-- The transaction of an accept: a duplicate is answered from the recorded order, and otherwise the
order is recorded. -/
theorem wp_accept {req : OrderRequest} {idem orderId : String} :
    Verifies thread (fun answer s₁ ↦ match answer with
      | some response => Answers thread response s₁
      | none => Answers thread ⟨202, orderId, idem, "accepted"⟩ s₁)
      (accept req idem orderId) s := by
  apply wp_transaction
  intro s₁ hbegun
  apply wp_bind
  apply wp_insertOrder hbegun
  · -- The key is taken: the other transaction is committed, so its order can be read.
    intro s₂ hbegun₂ hrow
    apply wp_bind
    apply wp_selectOrderId hbegun₂ hrow
    intro s₃ row hmem hkey hbegun₃ s₄ hrely₄ _
    apply wp_commit_of_begun (hbegun₃.rely hrely₄)
    intro s₅ hgrows s₆ hrely₆ _ s₇ hrely₇ _
    have hmem₇ := hrely₇.orders row (hrely₆.orders row (hgrows.orders row (hrely₄.orders row hmem)))
    exact ⟨row, hmem₇, hkey, rfl, fun hstatus ↦ absurd hstatus (by simp)⟩
  · intro s₂ hinserted
    apply wp_bind
    apply wp_newStamp
    intro s₃ stamp hrely₃ s₄ hrely₄ _
    apply wp_bind
    apply wp_enqueue (Inserted.rely (hinserted.rely hrely₃) hrely₄)
    intro s₅ id hannounced s₆ hrely₆ _
    apply wp_commit (hannounced.rely hrely₆).1 fun _ _ ↦ announced_of_same
    · intro w hw key htouches
      rcases List.mem_pair.mp hw with rfl | rfl
      · exact Or.inl htouches
      · exact Or.inr htouches
    · intro s₇ hrely₇ hinv habsent db hcommitted howner
      have hid := Nat.lt_of_lt_of_le (hannounced.rely hrely₆).2 hrely₇.outboxSeq
      obtain ⟨hsound, hgrows⟩ := Sound.accept hinv habsent hid ⟨rfl, rfl, rfl, rfl, rfl⟩
        (totalOfItems_modelDump req).symm rfl hcommitted howner
      refine ⟨hsound, hgrows, fun s₈ hrely₈ _ s₉ hrely₉ _ ↦ ?_⟩
      have hmem : (orderValues req idem orderId).row thread ∈ db.committed.orders := by
        rw [hcommitted]
        exact List.mem_append_right _ (List.mem_singleton.mpr rfl)
      exact ⟨_, hrely₉.orders _ (hrely₈.orders _ hmem), rfl, rfl, fun _ ↦ rfl⟩

theorem wp_placeOrder {req : OrderRequest} :
    Verifies thread (fun response ↦ Answers thread response) (placeOrder req) s := by
  have hrest : ∀ idem s₁, Verifies thread (fun response ↦ Answers thread response)
      (do
        let orderId ← perform .newUuid
        match ← accept req idem orderId with
        | some response => return response
        | none => return ⟨202, orderId, idem, "accepted"⟩) s₁ := by
    intro idem s₁
    apply wp_bind
    apply wp_newUuid
    intro s₂ orderId _ s₃ _ _
    apply wp_bind
    refine wp_mono (fun answer s₄ hanswer ↦ ?_) (fun _ _ h ↦ h) wp_accept
    cases answer with
    | some response => exact fun s₅ hrely _ ↦ permanent_order _ thread s₄ s₅ hrely hanswer
    | none => exact fun s₅ hrely _ ↦ permanent_order _ thread s₄ s₅ hrely hanswer
  unfold placeOrder
  cases truthy req.idempotencyKey with
  | some key => exact hrest key s
  | none =>
    apply wp_bind
    apply wp_newUuid
    intro s₁ idem _ s₂ _ _
    exact hrest idem s₂

/-! ### The relay -/

/-- Rows that were read from the outbox and rows that were sent stay where they are. -/
theorem permanent_read (rows : List OutboxRow) :
    discipline.Permanent fun s ↦
      ∀ row ∈ rows, ∃ row' ∈ s.db.committed.outbox, Outbox.unstamped row' = row := by
  intro _ s s' hrely h row hrow
  obtain ⟨row', hrow', rfl⟩ := h row hrow
  exact hrely.outbox row' hrow'

theorem permanent_sent (rows : List OutboxRow) :
    discipline.Permanent fun s ↦ ∀ row ∈ rows, row ∈ s.sent :=
  fun _ _ _ hrely h row hrow ↦ hrely.sent.subset (h row hrow)

theorem wp_selectUnpublished {batch : ℕ} {Q : List OutboxRow → Shared → Prop}
    (hbegun : Begun thread s)
    (h : ∀ s₁ rows, Begun thread s₁ →
      (∀ row ∈ rows, ∃ row' ∈ s₁.db.committed.outbox, Outbox.unstamped row' = row) → Q rows s₁) :
    Verifies thread Q (perform (.selectUnpublished batch)) s := by
  apply wp_call
  intro s₁ hrely hinv choice reply s₂ _ hexec
  cases choice with
  | done =>
    simp only [service, exec] at hexec
    split at hexec
    · rename_i hin
      obtain ⟨rfl, rfl⟩ := Prod.mk.inj (Option.some.inj hexec)
      have hbegun₁ : Begun thread s₁ := hbegun.rely hrely
      obtain ⟨hpending, -, -⟩ := hbegun₁ (pending_of_inTransaction hin)
      have hread : ∀ row ∈ s₁.unpublished thread batch, row ∈ s₁.db.committed.outbox ∧
          row.published = false ∧ s₁.db.free thread (.outbox row.id) := by
        intro row hrow
        have hmem := Outbox.mem_of_mem_unpublished hrow
        rwa [view_of_pending hpending] at hmem
      constructor
      · refine respects_of_kept hinv (Transactions.committed_lockAll _ _ _) ?_ ?_
        · intro id other howner
          rcases Transactions.owner_lockAll howner with hlocked | hbefore
          · obtain ⟨row, hrow, hid⟩ := List.mem_map.mp hlocked
            rw [← Key.outbox.inj hid]
            exact Sound.drawn hinv row (hread row hrow).1
          · exact Sound.locks hinv id other hbefore
        · refine fun other hne ↦ Transactions.kept_lockAll ?_ hne
          intro key hkey
          obtain ⟨row, hrow, rfl⟩ := List.mem_map.mp hkey
          exact (hread row hrow).2.2
      · intro s₃ hrely₃ _
        refine h s₃ _ (Begun.rely (fun _ ↦ ⟨?_, fun _ h ↦ h.elim, trivial⟩) hrely₃) ?_
        · show (s₁.lockUnpublished thread batch).pending thread = some []
          unfold Shared.lockUnpublished
          rw [Transactions.pending_lockAll, hpending]
        · intro row hrow
          obtain ⟨hmem, hpublished, -⟩ := hread row hrow
          have hmem₂ : row ∈ (s₁.lockUnpublished thread batch).committed.outbox := by
            unfold Shared.lockUnpublished
            rw [Transactions.committed_lockAll]
            exact hmem
          obtain ⟨row', hrow', hsame⟩ := hrely₃.outbox row hmem₂
          exact ⟨row', hrow', hsame.trans (Outbox.unstamped_of_unpublished hpublished)⟩
    · cases hexec
  | lost text =>
    obtain ⟨rfl, rfl⟩ := Prod.mk.inj (Option.some.inj hexec)
    exact wp_raise_of_inv hinv
  | _ => cases hexec

theorem wp_publish {row : OutboxRow} {Q : Unit → Shared → Prop} (hbegun : Begun thread s)
    (hread : ∃ row' ∈ s.db.committed.outbox, Outbox.unstamped row' = row)
    (h : ∀ s₁, Begun thread s₁ → row ∈ s₁.sent → Q () s₁) :
    Verifies thread Q (perform (.publish row)) s := by
  apply wp_call
  intro s₁ hrely hinv choice reply s₂ _ hexec
  have hgrows : Grows s₁ { s₁ with sent := s₁.sent ++ [row] } :=
    ⟨fun _ h ↦ h, fun row h ↦ ⟨row, h, rfl⟩, List.prefix_append _ _, Nat.le_refl _⟩
  have hsent : discipline.Respects thread s₁ { s₁ with sent := s₁.sent ++ [row] } := by
    refine ⟨{ hinv with
      stamped := fun other hother hpublished ↦ ?_
      sent := fun other hother ↦ ?_ }, fun other hne ↦ ⟨hgrows, ?_⟩⟩
    · exact List.mem_append_left _ (Sound.stamped hinv other hother hpublished)
    · rcases List.mem_append.mp hother with hold | hnew
      · exact Sound.sent hinv other hold
      · obtain ⟨row', hrow', hsame⟩ := hread
        obtain ⟨row'', hrow'', hsame'⟩ := hrely.outbox row' hrow'
        rw [List.mem_singleton.mp hnew]
        exact ⟨row'', hrow'', hsame'.trans hsame⟩
    · exact Transactions.Kept.refl other s₁.db
  cases choice with
  | done =>
    obtain ⟨rfl, rfl⟩ := Prod.mk.inj (Option.some.inj hexec)
    have hbegun₁ : Begun thread s₁ := hbegun.rely hrely
    have hbegun₂ : Begun thread { s₁ with sent := s₁.sent ++ [row] } := hbegun₁
    refine ⟨hsent, fun s₃ hrely₃ _ ↦ h s₃ (hbegun₂.rely hrely₃) ?_⟩
    exact hrely₃.sent.subset (List.mem_append_right _ (List.mem_singleton.mpr rfl))
  | unconfirmed text =>
    obtain ⟨rfl, rfl⟩ := Prod.mk.inj (Option.some.inj hexec)
    exact ⟨hsent, fun _ _ _ ↦ trivial⟩
  | lost text =>
    obtain ⟨rfl, rfl⟩ := Prod.mk.inj (Option.some.inj hexec)
    exact wp_raise_of_inv hinv
  | _ => cases hexec

/-- All rows are sent, in order; what is returned are their ids. -/
theorem wp_publishAll {rows : List OutboxRow} (hbegun : Begun thread s)
    (hread : ∀ row ∈ rows, ∃ row' ∈ s.db.committed.outbox, Outbox.unstamped row' = row) :
    Verifies thread (fun ids s₁ ↦ Begun thread s₁ ∧ ids = rows.map OutboxRow.id ∧
      ∀ row ∈ rows, row ∈ s₁.sent) (relay.publishAll rows) s := by
  induction rows generalizing s with
  | nil => exact fun s₁ hrely _ ↦ ⟨hbegun.rely hrely, rfl, by simp⟩
  | cons row rest ih =>
    apply wp_bind
    have hlater : ∀ row ∈ rest, ∃ row' ∈ s.db.committed.outbox, Outbox.unstamped row' = row :=
      fun other hother ↦ hread other (List.mem_cons_of_mem row hother)
    apply wp_known (permanent_read rest) hlater
    apply wp_publish hbegun (hread row List.mem_cons_self)
    intro s₁ hbegun₁ hrow hlater₁
    apply wp_bind
    have hframed := wp_frame (permanent_sent [row])
      (by simpa using hrow) (ih hbegun₁ hlater₁)
    refine wp_mono ?_ (fun _ _ _ ↦ trivial) hframed
    rintro ids s₂ ⟨⟨hbegun₂, rfl, hrest⟩, hsent⟩ s₃ hrely₃ _
    refine ⟨hbegun₂.rely hrely₃, rfl, ?_⟩
    intro other hother
    rcases List.mem_cons.mp hother with rfl | hother
    · exact hrely₃.sent.subset (hsent other (by simp))
    · exact hrely₃.sent.subset (hrest other hother)

/-- The transaction of the relay has stamped the rows. -/
abbrev Stamped (thread : ℕ) (ids : List ℕ) : Shared → Prop :=
  Tx thread [.stamp ids] (fun _ ↦ False) (fun _ ↦ True)

theorem wp_stamp {ids : List ℕ} {Q : Unit → Shared → Prop} (hbegun : Begun thread s)
    (h : ∀ s₁, Stamped thread ids s₁ → Q () s₁) :
    Verifies thread Q (perform (.stamp ids)) s := by
  apply wp_call
  intro s₁ hrely hinv choice reply s₂ _ hexec
  cases choice with
  | done =>
    simp only [service, exec] at hexec
    split at hexec
    · rename_i hin
      obtain ⟨rfl, rfl⟩ := Prod.mk.inj (Option.some.inj hexec)
      obtain ⟨hpending, -, -⟩ := hbegun.rely hrely (pending_of_inTransaction hin)
      constructor
      · exact respects_of_kept hinv rfl (fun id other ↦ Sound.locks hinv id other)
          fun other hne ↦ Transactions.kept_write hne
      · have hstamped : Stamped thread ids
            { s₁ with db := Transactions.write thread (.stamp ids) s₁.db } :=
          fun _ ↦ ⟨by simp [Transactions.write, hpending], fun _ h ↦ h.elim, trivial⟩
        exact fun s₃ hrely₃ _ ↦ h s₃ (Tx.rely hstamped hrely₃ fun _ _ _ _ ↦ trivial)
    · cases hexec
  | lost text =>
    obtain ⟨rfl, rfl⟩ := Prod.mk.inj (Option.some.inj hexec)
    exact wp_raise_of_inv hinv
  | _ => cases hexec

/-- Stamping rows that were sent keeps the service sound. -/
theorem Sound.stamp (hinv : Sound s) {rows : List OutboxRow}
    (hread : ∀ row ∈ rows, ∃ row' ∈ s.db.committed.outbox, Outbox.unstamped row' = row)
    (hsent : ∀ row ∈ rows, row ∈ s.sent) {db : Store}
    (hcommitted : db.committed =
      [Write.stamp (rows.map OutboxRow.id)].foldl Db.apply s.db.committed)
    (howner : ∀ id other, db.owner (.outbox id) = some other → id < s.outboxSeq) :
    Sound { s with db := db } ∧ Grows s { s with db := db } := by
  have horders : db.committed.orders = s.db.committed.orders := by rw [hcommitted]; rfl
  have houtbox : db.committed.outbox =
      Outbox.stamp (rows.map OutboxRow.id) s.db.committed.outbox := by rw [hcommitted]; rfl
  constructor
  · constructor
    all_goals simp only [horders, houtbox]
    · exact hinv.keys
    · exact hinv.orderIds
    · exact hinv.totals
    · rw [Outbox.stamp, List.forall₂_map_left_iff]
      refine hinv.events.imp fun event row hannounces ↦ ?_
      split
      · exact { hannounces with }
      · exact hannounces
    · rw [Table.Unique, Outbox.map_stamp OutboxRow.id fun _ ↦ rfl]
      exact hinv.outboxIds
    · intro row hrow
      obtain ⟨before, hbefore, hsame, -⟩ := Outbox.mem_stamp hrow
      rw [← Outbox.id_unstamped row, hsame]
      exact hinv.drawn before hbefore
    · exact howner
    · intro row hrow hpublished
      obtain ⟨before, hbefore, hsame, hcases⟩ := Outbox.mem_stamp hrow
      rw [hsame]
      rcases hcases hpublished with hbefore' | hstamped
      · exact hinv.stamped before hbefore hbefore'
      · obtain ⟨read, hmem, hid⟩ := List.mem_map.mp hstamped
        obtain ⟨current, hcurrent, hunstamped⟩ := hread read hmem
        have hids : current.id = before.id := by
          rw [← hid, ← hunstamped]
          rfl
        rw [← hinv.outboxIds.eq hcurrent hbefore hids, hunstamped]
        exact hsent read hmem
    · intro row hrow
      obtain ⟨before, hbefore, rfl⟩ := hinv.sent row hrow
      exact Outbox.exists_mem_stamp hbefore
  · constructor
    all_goals simp only [horders, houtbox]
    · exact fun _ h ↦ h
    · exact fun row hrow ↦ Outbox.exists_mem_stamp hrow
    · exact List.prefix_rfl
    · exact Nat.le_refl _

/-- A round of the relay keeps the service sound. -/
theorem wp_drainOnce : Verifies thread (fun _ _ ↦ True) relay.drainOnce s := by
  apply wp_transaction
  intro s₁ hbegun
  apply wp_bind
  apply wp_selectUnpublished hbegun
  intro s₂ rows hbegun₂ hread
  split
  · intro s₃ hrely₃ _
    exact wp_commit_of_begun (hbegun₂.rely hrely₃) fun _ _ _ _ _ _ _ _ ↦ trivial
  · apply wp_bind
    refine wp_mono ?_ (fun _ _ _ ↦ trivial)
      (wp_frame (permanent_read rows) hread (wp_publishAll hbegun₂ hread))
    rintro ids s₃ ⟨⟨hbegun₃, rfl, hsent⟩, hread₃⟩
    apply wp_bind
    have hknown := (permanent_read rows).and (permanent_sent rows)
    refine wp_mono ?_ (fun _ _ _ ↦ trivial)
      (wp_frame hknown ⟨hread₃, hsent⟩
        (wp_stamp (Q := fun _ ↦ Stamped thread _) hbegun₃ fun _ h ↦ h))
    rintro _ s₄ ⟨hstamped, hknown₄⟩ s₅ hrely₅ _
    apply wp_commit (Tx.rely hstamped hrely₅ fun _ _ _ _ ↦ trivial) (fun _ _ _ _ ↦ trivial)
    · intro w hw key htouches
      rw [List.mem_singleton.mp hw] at htouches
      exact htouches
    · intro s₆ hrely₆ hinv _ db hcommitted howner
      have hknown₆ := hknown thread _ _ hrely₆ (hknown thread _ _ hrely₅ hknown₄)
      obtain ⟨hsound, hgrows⟩ := Sound.stamp hinv hknown₆.1 hknown₆.2 hcommitted howner
      exact ⟨hsound, hgrows, fun _ _ _ _ _ _ ↦ trivial⟩

theorem verified : discipline.Verified where
  start := by
    refine ⟨?_, fun _ ↦ trivial⟩
    constructor
    · exact List.nodup_nil
    · exact List.nodup_nil
    · simp [service, Transactions.start]
    · exact .nil
    · exact List.nodup_nil
    · simp [service, Transactions.start]
    · simp [service, Transactions.start]
    · simp [service, Transactions.start]
    · simp [service]
  launch := by
    intro thread launch s program s' hinv _ hlaunch
    have hsame : discipline.Respects thread s s :=
      ⟨hinv, fun other _ ↦ discipline.rely_refl other s⟩
    cases launch with
    | placeOrder req =>
      obtain ⟨rfl, rfl⟩ := Prod.mk.inj (Option.some.inj hlaunch)
      refine ⟨hsame, wp_bind (wp_mono ?_ (fun _ _ h ↦ h) wp_placeOrder)⟩
      intro response s₁ hanswers s₂ hrely _ answer hanswer
      obtain rfl := Option.some.inj hanswer
      exact permanent_order _ thread s₁ s₂ hrely hanswers
    | drainOnce =>
      obtain ⟨rfl, rfl⟩ := Prod.mk.inj (Option.some.inj hlaunch)
      refine ⟨hsame, wp_bind (wp_mono ?_ (fun _ _ h ↦ h) wp_drainOnce)⟩
      rintro moved s₁ - s₂ - - response hnone
      cases hnone
  ambient := by
    intro aborted s s' hinv hambient
    obtain rfl := Option.some.inj hambient
    obtain ⟨hsound, hgrows⟩ := sound_of_committed hinv
      (Transactions.committed_abort aborted (Shared.db s)) fun _ _ ↦ owner_released hinv
    refine ⟨hsound, fun thread ↦ ⟨hgrows, ?_⟩⟩
    by_cases hthread : thread = aborted
    · subst hthread
      exact Transactions.kept_abort_self
    · exact Transactions.kept_abort hthread

/-! ### The events of the orders -/

theorem map_orderId_of_announces {events : List OutboxRow} {orders : List OrderRow}
    (h : List.Forall₂ Announces events orders) :
    events.map (fun event ↦ event.payload.orderId) = orders.map OrderRow.orderId := by
  induction h with
  | nil => rfl
  | cons hhead _ ih => rw [List.map_cons, List.map_cons, hhead.orderId, ih]

/-- The events of the outbox are as unique as the orders. -/
theorem unique_events (hinv : Sound s) :
    Table.Unique (fun event ↦ event.payload.orderId) s.db.committed.outbox := by
  rw [Table.Unique, map_orderId_of_announces hinv.events]
  exact hinv.orderIds

end DinnerRush.Ingestion
