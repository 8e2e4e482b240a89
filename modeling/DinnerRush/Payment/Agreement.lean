import DinnerRush.Payment.Service

/-!
# Agreement of the payment answers

Whatever requests run concurrently, at most one row is ever recorded for an idempotency key, and
every 200 or 402 answer given for the key is the answer of that row
(`paymentIdempotencyAgreement`). The discipline is small: the table is keyed by its primary key,
each row was asked for by a request received, and requests only add rows, so a row found or written
by a request is there for good. Two
concurrent first requests may roll opposite outcomes; the one whose `INSERT` returns no row answers
from the row of the other (`wp_recorded`), and both build their answer with `intentResponse`.
-/

set_option autoImplicit false
set_option relaxedAutoImplicit false

namespace DinnerRush.Payment

open Concurrency Discipline

/-- An answer that reports the outcome of the key. -/
def Response.Final (response : Response) : Prop :=
  response.statusCode = 200 ∨ response.statusCode = 402

instance (response : Response) : Decidable response.Final :=
  inferInstanceAs (Decidable (_ ∨ _))

/-- The answers that ask for another attempt: rate limiting and the simulated failures. -/
def retryCodes : List ℕ := [429, 502, 503, 504]

/-- What is known of the answer to a request: it has no key, it is told to try again, or it gets the
answer of the row recorded for its key, the original one only if it wrote that row. -/
def Agrees (thread : ℕ) (key : Option String) (response : Response) (s : Shared) : Prop :=
  (key = none ∧ response.statusCode = 400) ∨ response.statusCode ∈ retryCodes ∨
    ∃ row ∈ s.charges, key = some row.idempotencyKey ∧ ∃ duplicate,
      response = intentResponse row.record duplicate ∧ (duplicate = false → row.xmin = thread)

/-- The row charges what the request asks for, for its order and under its key. -/
structure Request.Charges (request : Request) (row : ChargeRow) : Prop where
  key : request.key = some row.idempotencyKey
  order : row.orderId = request.order
  amount : row.amountCents = request.amountCents

/-- The table is keyed, each of its rows was asked for by a request received, and no two requests
have the same number. -/
structure Sound (s : Shared) : Prop where
  unique : Table.Unique ChargeRow.idempotencyKey s.charges
  received : ∀ row ∈ s.charges, ∃ entry ∈ s.received, entry.2.Charges row
  numbered : Table.Unique Prod.fst s.received

/-- No row and no request is ever taken back. -/
structure Grows (s s' : Shared) : Prop where
  charges : ∀ row ∈ s.charges, row ∈ s'.charges
  received : ∀ entry ∈ s.received, entry ∈ s'.received

theorem Grows.refl (s : Shared) : Grows s s := ⟨fun _ h ↦ h, fun _ h ↦ h⟩

theorem Grows.trans {s₁ s₂ s₃ : Shared} (h : Grows s₁ s₂) (h' : Grows s₂ s₃) : Grows s₁ s₃ where
  charges row hrow := h'.charges row (h.charges row hrow)
  received entry hentry := h'.received entry (h.received entry hentry)

/-- What a request relies on: the service only grows, and the others do not receive requests under
its number. -/
structure Relies (thread : ℕ) (s s' : Shared) : Prop extends Grows s s' where
  own : ∀ entry ∈ s'.received, entry.1 = thread → entry ∈ s.received

theorem Relies.refl (thread : ℕ) (s : Shared) : Relies thread s s :=
  ⟨Grows.refl s, fun _ h _ ↦ h⟩

theorem Relies.trans {thread : ℕ} {s₁ s₂ s₃ : Shared} (h : Relies thread s₁ s₂)
    (h' : Relies thread s₂ s₃) : Relies thread s₁ s₃ where
  toGrows := h.toGrows.trans h'.toGrows
  own entry hentry hnumber := h.own entry (h'.own entry hentry hnumber) hnumber

/-- Requests keep the table sound, only add to it, and every answer agrees with it. -/
def discipline : Discipline service where
  Permit := World.anyEffect
  Inv := Sound
  Rely := Relies
  Fresh thread s := ∀ entry ∈ s.received, entry.1 ≠ thread
  Post thread exchange s := (thread, exchange.request) ∈ s.received ∧
    Agrees thread exchange.request.key exchange.response s
  rely_refl := Relies.refl
  rely_trans := fun _ _ _ _ ↦ Relies.trans
  fresh_rely := fun _ _ _ hrely hfresh entry hentry hnumber ↦
    hfresh entry (hrely.own entry hentry hnumber) hnumber

/-- The precondition of a part of a request. Nothing is asked of a raised error: it answers 500. -/
abbrev Verifies {β : Type} (thread : ℕ) (Q : β → Shared → Prop) (program : Proc β) (s : Shared) :
    Prop :=
  discipline.wp thread Q (fun _ _ ↦ True) program s

variable {thread : ℕ} {s s' : Shared} {key : String} {choice : Choice}

/-! ### What each effect can do -/

theorem exec_core {effect : FlakyEffect} {reply : Except Failure effect.Result}
    (h : exec thread (.core effect) choice s = some (reply, s')) :
    s' = s ∧ ∃ c, reply = .ok (effect.answer c) := by
  cases choice with
  | core c =>
    obtain ⟨rfl, rfl⟩ := Prod.mk.inj (Option.some.inj h)
    exact ⟨rfl, c, rfl⟩
  | _ => cases h

theorem exec_newUuid {reply : Except Failure String}
    (h : exec thread .newUuid choice s = some (reply, s')) :
    s' = s ∧ ∃ text, reply = .ok text := by
  cases choice with
  | uuid text =>
    obtain ⟨rfl, rfl⟩ := Prod.mk.inj (Option.some.inj h)
    exact ⟨rfl, text, rfl⟩
  | _ => cases h

theorem exec_fetch {reply : Except Failure (Option ChargeRow)}
    (h : exec thread (.fetch key) choice s = some (reply, s')) :
    s' = s ∧ (reply = .ok (Table.find ChargeRow.idempotencyKey key s.charges) ∨
      ∃ error, reply = .error error) := by
  cases choice with
  | done =>
    obtain ⟨rfl, rfl⟩ := Prod.mk.inj (Option.some.inj h)
    exact ⟨rfl, Or.inl rfl⟩
  | lost text =>
    obtain ⟨rfl, rfl⟩ := Prod.mk.inj (Option.some.inj h)
    exact ⟨rfl, Or.inr ⟨_, rfl⟩⟩
  | _ => cases h

theorem row_eq_some {values : ChargeValues} {row : ChargeRow}
    (h : values.row thread = some row) :
    row.idempotencyKey = values.idempotencyKey ∧ row.orderId = values.orderId ∧ row.xmin = thread ∧
      row.record = ⟨values.paymentIntentId, values.amount, values.currency, values.status⟩ := by
  unfold ChargeValues.row at h
  split at h
  · rename_i currency hcurrency
    split at h
    · obtain rfl := Option.some.inj h
      exact ⟨rfl, rfl, rfl, by rw [ChargeRow.record, hcurrency]⟩
    · cases h
  · cases h

/-- The `INSERT`: a key already there gives no row and changes nothing, otherwise the row is
added. -/
theorem insert_cases {values : ChargeValues} {claimed : Bool}
    (h : s.insert thread values = some (claimed, s')) :
    (claimed = false ∧ s' = s) ∨
      (claimed = true ∧ ∃ row, values.row thread = some row ∧ row ∈ s'.charges ∧
        (Sound s → (∃ entry ∈ s.received, entry.2.Charges row) → Sound s') ∧
        ∀ other, Relies other s s') := by
  obtain ⟨row, hrow, hinsert⟩ := Option.map_eq_some_iff.mp h
  obtain ⟨rfl, rfl⟩ := Prod.mk.inj hinsert
  rcases Table.insert_cases ChargeRow.idempotencyKey row s.charges with
    ⟨hclaimed, hsame, -⟩ | ⟨hclaimed, hadded, hnew⟩
  · exact Or.inl ⟨hclaimed, by rw [hsame]⟩
  · refine Or.inr ⟨hclaimed, row, hrow, ?_, ?_, ?_⟩
    · rw [hadded]
      simp
    · intro hsound hrequest
      constructor
      · show Table.Unique _ _
        rw [hadded]
        exact hsound.unique.append hnew
      · intro other hother
        rw [hadded, List.mem_append, List.mem_singleton] at hother
        rcases hother with hother | rfl
        · exact hsound.received other hother
        · exact hrequest
      · exact hsound.numbered
    · refine fun _ ↦ ⟨⟨fun other hother ↦ ?_, fun _ hmem ↦ hmem⟩, fun _ hmem _ ↦ hmem⟩
      rw [hadded]
      exact List.mem_append_left _ hother

theorem exec_insertCharge {values : ChargeValues} {reply : Except Failure Bool}
    (h : exec thread (.insertCharge values) choice s = some (reply, s')) :
    (s' = s ∧ ∃ error, reply = .error error) ∨
      ∃ claimed, s.insert thread values = some (claimed, s') ∧
        (reply = .ok claimed ∨ ∃ error, reply = .error error) := by
  cases choice with
  | done =>
    obtain ⟨⟨claimed, s₁⟩, hinsert, hreply⟩ := Option.map_eq_some_iff.mp h
    obtain ⟨rfl, rfl⟩ := Prod.mk.inj hreply
    exact Or.inr ⟨claimed, hinsert, Or.inl rfl⟩
  | unconfirmed text =>
    obtain ⟨⟨claimed, s₁⟩, hinsert, hreply⟩ := Option.map_eq_some_iff.mp h
    obtain ⟨rfl, rfl⟩ := Prod.mk.inj hreply
    exact Or.inr ⟨claimed, hinsert, Or.inr ⟨_, rfl⟩⟩
  | lost text =>
    obtain ⟨rfl, rfl⟩ := Prod.mk.inj (Option.some.inj h)
    exact Or.inl ⟨rfl, _, rfl⟩
  | _ => cases h

/-- A request in progress receives no other. -/
theorem received_of_exec {effect : Effect} {reply : Except Failure effect.Result}
    (h : exec thread effect choice s = some (reply, s')) : s'.received = s.received := by
  cases effect with
  | core effect => rw [(exec_core h).1]
  | fetch key => rw [(exec_fetch h).1]
  | newUuid => rw [(exec_newUuid h).1]
  | insertCharge values =>
    rcases exec_insertCharge h with ⟨hsame, -⟩ | ⟨claimed, hinsert, -⟩
    · rw [hsame]
    · obtain ⟨row, -, hreply⟩ := Option.map_eq_some_iff.mp hinsert
      obtain ⟨-, rfl⟩ := Prod.mk.inj hreply
      rfl

/-! ### The endpoint -/

theorem agrees_of_row {row : ChargeRow} {duplicate : Bool} (hrow : row ∈ s.charges)
    (hkey : row.idempotencyKey = key) (hxmin : duplicate = false → row.xmin = thread) :
    discipline.Always thread (Agrees thread (some key) (intentResponse row.record duplicate)) s :=
  fun _ hrely _ ↦
    Or.inr (Or.inr ⟨row, hrely.charges row hrow, by rw [hkey], duplicate, rfl, hxmin⟩)

theorem agrees_of_retry {response : Response} (h : response.statusCode ∈ retryCodes) :
    discipline.Always thread (Agrees thread key response) s :=
  fun _ _ _ ↦ Or.inr (Or.inl h)

theorem Agrees.grows {key : Option String} {response : Response}
    (h : Agrees thread key response s) (hgrows : Grows s s') : Agrees thread key response s' := by
  rcases h with hkey | hretry | ⟨row, hrow, hrest⟩
  · exact Or.inl hkey
  · exact Or.inr (Or.inl hretry)
  · exact Or.inr (Or.inr ⟨row, hgrows.charges row hrow, hrest⟩)

theorem wp_core {effect : FlakyEffect} {Q : effect.Result → Shared → Prop}
    (h : ∀ s₁, Relies thread s s₁ → ∀ answer, discipline.Always thread (Q answer) s₁) :
    Verifies thread Q (core effect) s := by
  refine wp_call_of_silent (fun _ _ _ _ hexec ↦ (exec_core hexec).1) ?_
  intro s₁ choice reply hrely hexec
  obtain ⟨-, c, rfl⟩ := exec_core hexec
  exact h s₁ hrely _

theorem wp_newUuid {Q : String → Shared → Prop}
    (h : ∀ s₁, Relies thread s s₁ → ∀ text, discipline.Always thread (Q text) s₁) :
    Verifies thread Q newUuid s := by
  refine wp_call_of_silent (fun _ _ _ _ hexec ↦ (exec_newUuid hexec).1) ?_
  intro s₁ choice reply hrely hexec
  obtain ⟨-, text, rfl⟩ := exec_newUuid hexec
  exact h s₁ hrely text

theorem wp_fetch {Q : Option ChargeRow → Shared → Prop}
    (h : ∀ s₁, discipline.Rely thread s s₁ →
      discipline.Always thread (Q (Table.find ChargeRow.idempotencyKey key s₁.charges)) s₁) :
    Verifies thread Q (fetch key) s := by
  refine wp_call_of_silent (fun _ _ _ _ hexec ↦ (exec_fetch hexec).1) ?_
  intro s₁ choice reply hrely hexec
  rcases (exec_fetch hexec).2 with rfl | ⟨error, rfl⟩
  · exact h s₁ hrely
  · exact fun _ _ _ ↦ trivial

/-- The claim: a request that gets its row back wrote it. -/
theorem wp_insertCharge {values : ChargeValues} {Q : Bool → Shared → Prop}
    (hrequest : ∀ row, values.row thread = some row → ∃ entry ∈ s.received, entry.2.Charges row)
    (hlost : ∀ s₁, discipline.Always thread (Q false) s₁)
    (hwon : ∀ s₁ row, row ∈ s₁.charges → values.row thread = some row →
      discipline.Always thread (Q true) s₁) :
    Verifies thread Q (insertCharge values) s := by
  apply wp_call
  intro s₁ hrely hinv choice reply s₂ _ hexec
  rcases exec_insertCharge hexec with ⟨rfl, error, rfl⟩ | ⟨claimed, hinsert, hreply⟩
  · exact ⟨⟨hinv, fun other _ ↦ Relies.refl other _⟩, fun _ _ _ ↦ trivial⟩
  · rcases insert_cases hinsert with ⟨rfl, rfl⟩ | ⟨rfl, row, hrow, hmem, hsound, hrelies⟩
    · refine ⟨⟨hinv, fun other _ ↦ Relies.refl other _⟩, ?_⟩
      rcases hreply with rfl | ⟨error, rfl⟩
      · exact hlost s₂
      · exact fun _ _ _ ↦ trivial
    · obtain ⟨entry, hreceived, hcharges⟩ := hrequest row hrow
      have hinv₂ : Sound s₂ := hsound hinv ⟨entry, hrely.received entry hreceived, hcharges⟩
      refine ⟨⟨hinv₂, fun other _ ↦ hrelies other⟩, ?_⟩
      rcases hreply with rfl | ⟨error, rfl⟩
      · exact hwon s₂ row hmem hrow
      · exact fun _ _ _ ↦ trivial

/-- The answer read back is that of the recorded row. -/
theorem wp_recorded :
    Verifies thread (Agrees thread (some key)) (recorded key) s := by
  apply wp_bind
  apply wp_fetch
  intro s₁ _
  cases hfind : Table.find ChargeRow.idempotencyKey key s₁.charges with
  | some row =>
    obtain ⟨hmem, hkey⟩ := Table.find_some hfind
    have hanswer : discipline.Always thread
        (Agrees thread (some key) (intentResponse row.record true)) s₁ :=
      agrees_of_row hmem hkey (by simp)
    exact fun s₂ hrely _ ↦ hanswer.rely hrely
  | none => exact fun _ _ _ ↦ fun _ _ _ ↦ trivial

theorem wp_settle {request : Request} {status : ChargeStatus} (hkey : request.key = some key)
    (hreceived : (thread, request) ∈ s.received) :
    Verifies thread (Agrees thread (some key)) (settle request key status) s := by
  apply wp_bind
  apply wp_newUuid
  intro s₁ hrely₁ uuid s₂ hrely₂ _
  apply wp_bind
  apply wp_insertCharge
  · intro row hrow
    obtain ⟨hrowKey, horder, -, hrecord⟩ := row_eq_some hrow
    refine ⟨_, hrely₂.received _ (hrely₁.received _ hreceived), ?_, horder, ?_⟩
    · rw [hkey, hrowKey]
    · exact congrArg IntentRecord.amountCents hrecord
  · intro s₃ s₄ _ _
    exact wp_recorded
  · intro s₃ row hmem hrow s₄ hrely _
    obtain ⟨hrowKey, -, hxmin, hrecord⟩ := row_eq_some hrow
    have hanswer : discipline.Always thread
        (Agrees thread (some key) (intentResponse row.record false)) s₄ :=
      agrees_of_row (hrely.charges row hmem) hrowKey (fun _ ↦ hxmin)
    rw [hrecord] at hanswer
    exact hanswer

/-- Every answer of the endpoint agrees with the table. -/
theorem wp_createPaymentIntent {request : Request} (hreceived : (thread, request) ∈ s.received) :
    Verifies thread (Agrees thread request.key) (createPaymentIntent request) s := by
  unfold createPaymentIntent
  cases hkey : request.key with
  | none => exact fun _ _ _ ↦ Or.inl ⟨rfl, rfl⟩
  | some key =>
    apply wp_bind
    apply wp_core
    intro s₁ h₁ down s₂ h₂ _
    have hreceived₂ := (h₁.trans h₂).received _ hreceived
    cases down with
    | true => exact agrees_of_retry (by decide)
    | false =>
      apply wp_bind
      apply wp_fetch
      intro s₃ h₃ s₄ h₄ _
      have hreceived₄ := (h₃.trans h₄).received _ hreceived₂
      cases hfind : Table.find ChargeRow.idempotencyKey key s₃.charges with
      | some row =>
        obtain ⟨hmem, hrow⟩ := Table.find_some hfind
        exact agrees_of_row (h₄.charges row hmem) hrow (by simp)
      | none =>
        apply wp_bind
        apply wp_core
        intro s₅ h₅ limited s₆ h₆ _
        have hreceived₆ := (h₅.trans h₆).received _ hreceived₄
        cases limited with
        | true => exact agrees_of_retry (by decide)
        | false =>
          apply wp_bind
          apply wp_core
          intro s₇ h₇ delay s₈ h₈ _
          have hreceived₈ := (h₇.trans h₈).received _ hreceived₆
          apply wp_bind
          apply wp_core
          intro s₉ h₉ outcome s₁₀ h₁₀ _
          have hreceived₁₀ := (h₉.trans h₁₀).received _ hreceived₈
          cases outcome with
          | none => exact wp_settle hkey hreceived₁₀
          | some outcome =>
            cases outcome with
            | error => exact agrees_of_retry (by decide)
            | decline => exact wp_settle hkey hreceived₁₀
            | timeout =>
              apply wp_bind
              apply wp_core
              intro s₁₁ _ _ s₁₂ _ _
              exact agrees_of_retry (by decide)

theorem mem_receive (s : Shared) (thread : ℕ) (request : Request) :
    (thread, request) ∈ (s.receive thread request).received := by
  simp [Shared.receive]

theorem relies_receive {other : ℕ} (s : Shared) (request : Request) (hne : other ≠ thread) :
    Relies other s (s.receive thread request) := by
  refine ⟨⟨fun _ h ↦ h, fun _ h ↦ List.mem_append_left _ h⟩, fun entry hentry hnumber ↦ ?_⟩
  rcases List.mem_append.mp hentry with hold | hnew
  · exact hold
  · rw [List.mem_singleton.mp hnew] at hnumber
    exact absurd hnumber.symm hne

theorem Sound.receive {request : Request} (h : Sound s)
    (hfresh : ∀ entry ∈ s.received, entry.1 ≠ thread) :
    Sound (s.receive thread request) where
  unique := h.unique
  received row hrow := by
    obtain ⟨entry, hentry, hcharges⟩ := h.received row hrow
    exact ⟨entry, List.mem_append_left _ hentry, hcharges⟩
  numbered := h.numbered.append hfresh

theorem permanent_received (entry : ℕ × Request) :
    discipline.Permanent fun s ↦ entry ∈ s.received :=
  fun _ _ _ hrely h ↦ hrely.received entry h

theorem verified : discipline.Verified where
  start := ⟨⟨List.nodup_nil, by simp [service], List.nodup_nil⟩, by simp [discipline, service]⟩
  launch := by
    intro thread request s program s' hinv hfresh hlaunch
    obtain ⟨rfl, rfl⟩ := Prod.mk.inj (Option.some.inj hlaunch)
    refine ⟨⟨Sound.receive hinv hfresh, fun other hne ↦ relies_receive s request hne⟩, wp_bind ?_⟩
    have hreceived := mem_receive s thread request
    refine wp_mono ?_ (fun _ _ _ ↦ trivial)
      (wp_frame (permanent_received (thread, request)) hreceived (wp_createPaymentIntent hreceived))
    rintro response s₁ ⟨hagrees, hmem⟩ s₂ hrely -
    exact ⟨hrely.received _ hmem, hagrees.grows hrely.toGrows⟩
  ambient := fun ambient ↦ ambient.elim

/-! ### The agreement -/

/-- The intent of an answer says what the row says: id, amount, currency and outcome. -/
def Intent.Reports (intent : Intent) (row : ChargeRow) : Prop :=
  intent.id = row.paymentIntentId ∧ intent.amount = row.amountCents ∧
    intent.currency = some row.currency ∧ (intent.status = "succeeded" ↔ row.status = .succeeded)

/-- What holds of an idempotency key in a world of the service. -/
structure Agreement (w : World service) (key : String) : Prop where
  /-- At most one row is recorded for the key. -/
  atMostOneRow : (w.shared.charges.filter fun row ↦ row.idempotencyKey = key).length ≤ 1
  /-- The row stays as it is in every later world. -/
  permanent : ∀ w', Relation.ReflTransGen (World.Step World.anyEffect) w w' →
    ∀ row ∈ w.shared.charges, row.idempotencyKey = key → row ∈ w'.shared.charges
  /-- Every final answer given for the key agrees with the row. -/
  agree : ∀ thread exchange, w.threads thread = some (.ret exchange) →
    exchange.request.key = some key → exchange.response.Final →
      ∃ row ∈ w.shared.charges, row.idempotencyKey = key ∧
        (exchange.response.statusCode = 200 ↔ row.status = .succeeded) ∧
        ∃ intent, exchange.response.intent = some intent ∧ intent.Reports row
  /-- At most one final answer given for the key is not a duplicate. -/
  original : ∀ thread thread' exchange exchange' intent intent',
    w.threads thread = some (.ret exchange) → w.threads thread' = some (.ret exchange') →
    exchange.request.key = some key → exchange'.request.key = some key →
    exchange.response.Final → exchange'.response.Final →
    exchange.response.intent = some intent → exchange'.response.intent = some intent' →
    intent.duplicate = false → intent'.duplicate = false → thread = thread'

theorem intentResponse_intent (rec : IntentRecord) (duplicate : Bool) :
    ∃ intent, (intentResponse rec duplicate).intent = some intent ∧
      intent.id = rec.paymentIntentId ∧ intent.amount = rec.amountCents ∧
      intent.currency = rec.currency ∧ intent.duplicate = duplicate ∧
      (intent.status = "succeeded" ↔ rec.status = .succeeded) ∧
      ((intentResponse rec duplicate).statusCode = 200 ↔ rec.status = .succeeded) := by
  unfold intentResponse
  cases rec.status <;> simp

theorem agrees_of_final {w : World service} (hw : discipline.Holds w) {thread : ℕ}
    {exchange : Exchange} (hanswer : w.threads thread = some (.ret exchange)) {key : String}
    (hkey : exchange.request.key = some key) (hfinal : exchange.response.Final) :
    ∃ row ∈ w.shared.charges, row.idempotencyKey = key ∧ ∃ duplicate,
      exchange.response = intentResponse row.record duplicate ∧
        (duplicate = false → row.xmin = thread) := by
  have hagrees : Agrees thread exchange.request.key exchange.response w.shared :=
    (hw.post hanswer).2
  rcases hagrees with ⟨hnone, -⟩ | hretry | ⟨row, hrow, hsame, hrest⟩
  · rw [hkey] at hnone
    cases hnone
  · rcases hfinal with hcode | hcode <;> rw [hcode] at hretry <;> exact absurd hretry (by decide)
  · rw [hkey] at hsame
    exact ⟨row, hrow, (Option.some.inj hsame).symm, hrest⟩

/-- **Payment idempotency agreement**: in every world the service reaches, for every key. -/
theorem paymentIdempotencyAgreement {w : World service}
    (hw : World.Reachable World.anyEffect w) (key : String) : Agreement w key := by
  have hholds : discipline.Holds w := holds_of_reachable verified hw
  have hunique : Table.Unique ChargeRow.idempotencyKey w.shared.charges := hholds.inv.unique
  constructor
  · exact hunique.length_filter_le_one key
  · intro w' hrun row hrow _
    exact ((hholds.run verified hrun).2.2 w'.next (Nat.le_refl _)).charges row hrow
  · intro thread exchange hanswer hkey hfinal
    obtain ⟨row, hrow, hsame, duplicate, hresponse, -⟩ := agrees_of_final hholds hanswer hkey hfinal
    obtain ⟨intent, hintent, hid, hamount, hcurrency, -, hstatus, hcode⟩ :=
      intentResponse_intent row.record duplicate
    rw [← hresponse] at hintent hcode
    exact ⟨row, hrow, hsame, hcode, intent, hintent, hid, hamount, hcurrency, hstatus⟩
  · intro thread thread' exchange exchange' intent intent' hanswer hanswer' hkey hkey' hfinal
      hfinal'
      hintent hintent' hfirst hfirst'
    obtain ⟨row, hrow, hsame, duplicate, hresponse, hxmin⟩ :=
      agrees_of_final hholds hanswer hkey hfinal
    obtain ⟨row', hrow', hsame', duplicate', hresponse', hxmin'⟩ :=
      agrees_of_final hholds hanswer' hkey' hfinal'
    have hrows : row = row' := hunique.eq hrow hrow' (hsame.trans hsame'.symm)
    have hflag : duplicate = false := by
      obtain ⟨built, hbuilt, -, -, -, hduplicate, -⟩ := intentResponse_intent row.record duplicate
      rw [← hresponse, hintent] at hbuilt
      rw [← hduplicate, ← Option.some.inj hbuilt, hfirst]
    have hflag' : duplicate' = false := by
      obtain ⟨built, hbuilt, -, -, -, hduplicate, -⟩ := intentResponse_intent row'.record duplicate'
      rw [← hresponse', hintent'] at hbuilt
      rw [← hduplicate, ← Option.some.inj hbuilt, hfirst']
    rw [← hxmin hflag, hrows, hxmin' hflag']

/-- Two first requests under one key with different bodies: both miss the cache, the first rolls a
decline and the second succeeds, and the second claims the row first. -/
def race : List (Action service) :=
  [.launch { headerKey := some "k", amount := some 500 },
   .launch { headerKey := some "k", amount := some 700 },
   .step 0 (.core { flag := false }), .step 0 .done,
   .step 1 (.core { flag := false }), .step 1 .done,
   .step 0 (.core { flag := false }), .step 0 (.core { delay := 1500 }),
   .step 0 (.core { outcome := some .decline }), .step 0 (.uuid "a"),
   .step 1 (.core { flag := false }), .step 1 (.core { delay := 300 }),
   .step 1 (.core { outcome := none }), .step 1 (.uuid "b"),
   .step 1 .done, .step 0 .done, .step 0 .done]

def raceWorld : World service := ((World.initial service).run race).get (by decide)

theorem reachable_raceWorld : World.Reachable World.anyEffect raceWorld :=
  World.reachable_of_run (Option.some_get _).symm

theorem paymentIdempotencyAgreement_raceWorld :
    Agreement raceWorld "k" ∧ raceWorld.shared.charges.length = 1 :=
  ⟨paymentIdempotencyAgreement reachable_raceWorld "k", by decide⟩

end DinnerRush.Payment
