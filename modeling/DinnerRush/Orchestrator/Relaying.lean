import DinnerRush.Orchestrator.Recording

/-!
# The relay of the orchestrator is sound

A round of the relay stamps the rows it has read and published. Between the two the rows may be
published by other rounds too, but none of them is lost: a command that is stamped is in the log of
the broker.
-/

set_option autoImplicit false
set_option relaxedAutoImplicit false

namespace DinnerRush.Orchestrator

open Concurrency Discipline

variable {D : Downstreams} {X : Setting D} {thread : ℕ} {s s' : Shared D}
  {rows : List OutboxRow} {row : OutboxRow}

/-- The rows are those of the outbox, but for their stamps. -/
def Read (rows : List OutboxRow) (s : Shared D) : Prop :=
  ∀ row ∈ rows, ∃ row' ∈ s.db.committed.outbox, Outbox.unstamped row' = row

/-- The commands among the rows were published. -/
def Sent (rows : List OutboxRow) (s : Shared D) : Prop :=
  ∀ row ∈ rows, row.payload.type = .advance →
    ∃ publication ∈ s.broker.log, publication.body = .envelope row.payload

theorem permanent_read (rows : List OutboxRow) : (discipline X).Permanent (Read rows) := by
  intro _ s s' hrely h row hrow
  obtain ⟨before, hbefore, rfl⟩ := h row hrow
  exact hrely.db.outbox before hbefore

theorem permanent_sent (rows : List OutboxRow) : (discipline X).Permanent (Sent rows) := by
  intro _ s s' hrely h row hrow htype
  obtain ⟨publication, hlogged, hbody⟩ := h row hrow htype
  exact ⟨publication, hrely.log.subset hlogged, hbody⟩

/-- A row that was read carries a command only to the work queue, and about an entered state. -/
theorem command_of_read (hinv : Sound X s) (hread : Read [row] s)
    (htype : row.payload.type = .advance) :
    row.exchange = .work ∧ row.routingKey = rkAdvance ∧ Named s.db.committed row.payload := by
  obtain ⟨stored, hstored, rfl⟩ := hread row (by simp)
  obtain ⟨source, hopen, hcommands, hentered⟩ :=
    hinv.tables.ledger.entered_of_command hstored htype
  exact ⟨hcommands.exchange, hcommands.routingKey, source, hcommands.fromState, hopen, hentered⟩

theorem wp_selectUnpublished {batch : ℕ} {Q : List OutboxRow → Shared D → Prop}
    (hbegun : Begun thread [] s) (h : ∀ s₁ rows, Begun thread [] s₁ → Read rows s₁ → Q rows s₁) :
    Verifies X thread Q (perform (.selectUnpublished batch)) s := by
  apply wp_perform
  intro s₁ hrely hinv choice reply s₂ _ hexec
  cases choice with
  | done =>
    simp only [exec] at hexec
    split at hexec
    · rename_i hin
      obtain ⟨rfl, rfl⟩ := Prod.mk.inj (Option.some.inj hexec)
      have hbegun₁ : Begun thread [] s₁ := hbegun.rely hrely
      obtain ⟨hpending, -, -⟩ := hbegun₁ (pending_of_inTransaction hin)
      have hread : ∀ row ∈ s₁.unpublished thread batch, row ∈ s₁.db.committed.outbox ∧
          row.published = false ∧ s₁.db.free thread (.outbox row.id) := by
        intro row hrow
        have hmem := Outbox.mem_of_mem_unpublished hrow
        rwa [view_of_pending hpending] at hmem
      have hcommitted : (s₁.lockUnpublished thread batch).committed = s₁.db.committed :=
        Transactions.committed_lockAll _ _ _
      constructor
      · refine respects_store hinv hcommitted (Nat.le_refl _) (Nat.le_refl _)
          (fun id other howner ↦ ?_) fun other hne ↦ Transactions.kept_lockAll ?_ hne
        · rcases Transactions.owner_lockAll howner with hlocked | hbefore
          · obtain ⟨row, hrow, hid⟩ := List.mem_map.mp hlocked
            rw [← Key.outbox.inj hid]
            exact hinv.tables.outboxDrawn row (hread row hrow).1
          · exact hinv.tables.locks id other hbefore
        · intro key hkey
          obtain ⟨row, hrow, rfl⟩ := List.mem_map.mp hkey
          exact (hread row hrow).2.2
      · have hbegun₂ : Begun thread [] { s₁ with db := s₁.lockUnpublished thread batch } := by
          refine fun _ ↦ ⟨?_, fun _ h ↦ h.elim, trivial⟩
          show (s₁.lockUnpublished thread batch).pending thread = some []
          unfold Shared.lockUnpublished
          rw [Transactions.pending_lockAll, hpending]
        have hread₂ : Read (s₁.unpublished thread batch)
            { s₁ with db := s₁.lockUnpublished thread batch } := by
          intro row hrow
          refine ⟨row, ?_, Outbox.unstamped_of_unpublished (hread row hrow).2.1⟩
          show row ∈ (s₁.lockUnpublished thread batch).committed.outbox
          rw [hcommitted]
          exact (hread row hrow).1
        intro s₃ hrely₃ _
        exact h s₃ _ (hbegun₂.rely hrely₃) (permanent_read _ thread _ s₃ hrely₃ hread₂)
    · cases hexec
  | lost text =>
    obtain ⟨rfl, rfl⟩ := Prod.mk.inj (Option.some.inj hexec)
    exact wp_raise (fun _ _ ↦ trivial) hinv
  | _ => cases hexec

/-- Publishing a row that was read. -/
theorem wp_publishRow (hbegun : Begun thread [] s) (hread : Read [row] s) :
    Verifies X thread (fun _ s₁ ↦ Begun thread [] s₁ ∧ Sent [row] s₁)
      (perform (.publish row.exchange row.routingKey (.envelope row.payload))) s := by
  apply wp_of_always
  intro s₁ hrely hinv
  have hread₁ := permanent_read [row] thread s s₁ hrely hread
  apply wp_publish
  · rintro - env henv htype
    obtain rfl := Body.envelope.inj henv
    exact (command_of_read hinv hread₁ htype).2.2
  · intro _ hevents hadvance
    obtain ⟨hwork, -, -⟩ := command_of_read hinv hread₁ (Option.some.inj hadvance)
    rw [hwork] at hevents
    cases hevents
  · intro s₂ hkept hlogged
    refine ⟨(hbegun.rely hrely).kept hkept fun _ _ _ _ ↦ trivial, fun other hother htype ↦ ?_⟩
    obtain rfl := List.mem_singleton.mp hother
    obtain ⟨hwork, hkey, -⟩ := command_of_read hinv hread₁ htype
    obtain ⟨i, -, hat⟩ := hlogged (Or.inr ⟨by simp [hwork], hkey⟩)
    exact ⟨_, List.mem_of_getElem? hat, rfl⟩

/-- All rows are published, in order; what is returned are their ids. -/
theorem wp_publishAll (hbegun : Begun thread [] s) (hread : Read rows s) :
    Verifies X thread (fun ids s₁ ↦ Begun thread [] s₁ ∧ ids = rows.map OutboxRow.id ∧
      Sent rows s₁) (relay.publishAll rows) s := by
  induction rows generalizing s with
  | nil =>
    refine fun s₁ hrely _ ↦ ⟨hbegun.rely hrely, rfl, fun row hrow ↦ ?_⟩
    cases hrow
  | cons row rest ih =>
    have hfirst : Read [row] s := fun other hother ↦ hread other (by simp_all)
    have hrest : Read rest s := fun other hother ↦ hread other (List.mem_cons_of_mem row hother)
    apply wp_bind
    refine wp_known (permanent_read rest) hrest ?_
    refine wp_mono ?_ (fun _ _ _ ↦ trivial) (wp_publishRow hbegun hfirst)
    rintro _ s₁ ⟨hbegun₁, hsent₁⟩ hrest₁
    apply wp_bind
    refine wp_known (permanent_sent [row]) hsent₁ ?_
    refine wp_mono ?_ (fun _ _ _ ↦ trivial) (ih hbegun₁ hrest₁)
    rintro ids s₂ ⟨hbegun₂, rfl, hsent₂⟩ hfirst₂ s₃ hrely₃ _
    refine ⟨hbegun₂.rely hrely₃, rfl, ?_⟩
    have hsent : Sent (row :: rest) s₂ := by
      intro other hother
      rcases List.mem_cons.mp hother with rfl | hmem
      · exact hfirst₂ other (by simp)
      · exact hsent₂ other hmem
    exact permanent_sent (row :: rest) thread s₂ s₃ hrely₃ hsent

theorem wp_stamp {ids : List ℕ} {Q : Unit → Shared D → Prop} (hbegun : Begun thread [] s)
    (h : ∀ s₁, Begun thread [.stamp ids] s₁ → Q () s₁) :
    Verifies X thread Q (perform (.stamp ids)) s := by
  apply wp_perform
  intro s₁ hrely hinv choice reply s₂ _ hexec
  cases choice with
  | done =>
    simp only [exec] at hexec
    split at hexec
    · rename_i hin
      obtain ⟨rfl, rfl⟩ := Prod.mk.inj (Option.some.inj hexec)
      obtain ⟨hpending, -, -⟩ := (hbegun.rely hrely) (pending_of_inTransaction hin)
      refine ⟨respects_store hinv rfl (Nat.le_refl _) (Nat.le_refl _) hinv.tables.locks
        fun other hne ↦ Transactions.kept_write hne, ?_⟩
      have hbegun₂ : Begun thread [.stamp ids]
          { s₁ with db := s₁.db.write thread (.stamp ids) } := by
        refine fun _ ↦ ⟨?_, fun _ h ↦ h.elim, trivial⟩
        show Function.update s₁.db.pending thread _ thread = _
        rw [Function.update_self, hpending]
        rfl
      exact fun s₃ hrely₃ _ ↦ h s₃ (hbegun₂.rely hrely₃)
    · cases hexec
  | lost text =>
    obtain ⟨rfl, rfl⟩ := Prod.mk.inj (Option.some.inj hexec)
    exact wp_raise (fun _ _ ↦ trivial) hinv
  | _ => cases hexec

/-- Stamping rows that were read and published keeps the orchestrator sound. -/
theorem Sound.stamp (hinv : Sound X s) (hread : Read rows s) (hsent : Sent rows s) {db : Store}
    (hcommitted : db.committed = s.db.committed.apply (.stamp (rows.map OutboxRow.id)))
    (hlocks : ∀ id other, db.owner (.outbox id) = some other → id < s.outboxSeq) :
    Sound X { s with db := db } := by
  have houtbox : db.committed.outbox =
      Outbox.stamp (rows.map OutboxRow.id) s.db.committed.outbox := by rw [hcommitted]; rfl
  have hgrows : s.db.committed.Grows db.committed := by
    rw [hcommitted]
    exact Db.grows_apply _ _
  refine ⟨⟨?_, ?_, ?_, ?_, ?_, hlocks⟩, hinv.filed, ⟨hinv.effects.inv, ?_, ?_⟩, ?_⟩
  · intro orderId
    rw [hcommitted, slice_stamp]
    exact hinv.tables.ledger orderId
  · rw [hcommitted]
    exact hinv.tables.orderIds
  · rw [hcommitted]
    exact hinv.tables.transitionIds
  · rw [houtbox, Table.Unique, Outbox.map_stamp OutboxRow.id fun _ ↦ rfl]
    exact hinv.tables.outboxIds
  · intro row hrow
    rw [houtbox] at hrow
    obtain ⟨before, hbefore, hsame, -⟩ := Outbox.mem_stamp hrow
    have hid : row.id = before.id := by
      rw [← Outbox.id_unstamped row, hsame]
      rfl
    rw [hid]
    exact hinv.tables.outboxDrawn before hbefore
  · exact fun service command hreceived ↦
      (hinv.effects.ordered service command hreceived).grows hgrows
  · rw [hcommitted]
    exact hinv.effects.backed
  · intro hstrict
    refine (hinv.custody hstrict).mono hgrows fun row hrow hpublished htype ↦ ?_
    rw [houtbox] at hrow
    obtain ⟨before, hbefore, hsame, hcases⟩ := Outbox.mem_stamp hrow
    have hpayload : (Outbox.unstamped row).payload = (Outbox.unstamped before).payload :=
      congrArg OutboxRow.payload hsame
    change row.payload = before.payload at hpayload
    rw [hpayload] at htype ⊢
    rcases hcases hpublished with hbefore' | hstamped
    · exact (hinv.custody hstrict).stamped before hbefore hbefore' htype
    · obtain ⟨read, hmem, hid⟩ := List.mem_map.mp hstamped
      obtain ⟨current, hcurrent, rfl⟩ := hread read hmem
      rw [hinv.tables.outboxIds.eq hcurrent hbefore hid] at hmem
      exact hsent (Outbox.unstamped before) hmem htype

/-- A round of the relay keeps the orchestrator sound. -/
theorem wp_drainOnce : Verifies X thread (fun _ _ ↦ True) relay.drainOnce s := by
  apply wp_transaction
  intro s₁ _ hbegun
  apply wp_bind
  apply wp_selectUnpublished hbegun
  intro s₂ rows hbegun₂ hread
  split
  · intro s₃ hrely₃ _
    exact wp_commit_of_begun (hbegun₂.rely hrely₃) fun _ ↦ fun _ _ _ ↦ trivial
  · apply wp_bind
    refine wp_known (permanent_read rows) hread ?_
    refine wp_mono ?_ (fun _ _ _ ↦ trivial) (wp_publishAll hbegun₂ hread)
    rintro ids s₃ ⟨hbegun₃, rfl, hsent⟩ hread₃
    apply wp_bind
    refine wp_known ((permanent_read rows).and (permanent_sent rows)) ⟨hread₃, hsent⟩ ?_
    apply wp_stamp hbegun₃
    rintro s₄ hstamped ⟨hread₄, hsent₄⟩ s₅ hrely₅ _
    refine wp_commit (hstamped.rely hrely₅) (fun _ _ _ _ ↦ trivial) ?_ ?_
      fun s₆ _ ↦ fun _ _ _ ↦ trivial
    · rintro write hwrite key (⟨orderId, horder, -⟩ | ⟨row, rfl, -⟩)
      · rw [List.mem_singleton.mp hwrite] at horder
        cases horder
      · cases List.mem_singleton.mp hwrite
    · intro s₆ hrely₆ hinv _ db hcommitted hlocks
      have hread₅ := permanent_read rows thread s₄ s₅ hrely₅ hread₄
      have hsent₅ := permanent_sent rows thread s₄ s₅ hrely₅ hsent₄
      exact hinv.stamp (permanent_read rows thread s₅ s₆ hrely₆ hread₅)
        (permanent_sent rows thread s₅ s₆ hrely₆ hsent₅) hcommitted hlocks

end DinnerRush.Orchestrator
