import DinnerRush.Fulfillment.Service

/-!
# Agreement of the fulfillment answers

At most one row is recorded for an operation id and at most one 200 answer is the original one,
whatever requests run concurrently (`exclusive_of_anyEffect`). The detail is another matter. A
request that misses the cache and then loses the insert race answers with the detail it made itself,
not with the recorded one (`not_agreement_overlapWorld`): the payment service re-reads the row at
this point, this one does not. The answers agree with the rows as long as no request goes on to
answer after its `INSERT` found the operation id recorded. Right after one has, they agree only if
the two details happen to be the same (`fulfillmentIdempotencyAgreement`).
-/

set_option autoImplicit false
set_option relaxedAutoImplicit false

namespace DinnerRush.Fulfillment

open Concurrency Discipline

variable {serviceName : String}

/-- An `INSERT` that does not raise finds its operation id unrecorded: no request goes on to answer
after it has lost its claim. -/
def claimsUnrecorded (serviceName : String) : World.Permit (service serviceName) :=
  fun _ effect choice s ↦
    match effect, choice with
    | .insertDispatch values, .done => ∀ row ∈ s.dispatches, row.opId ≠ values.opId
    | _, _ => True

/-- The answers that ask for another attempt. -/
def retryCodes : List ℕ := [429, 500, 503, 504]

/-- What is known of the answer to a request: it is told to try again, or it is a result for the
recorded row, the original one only if the request wrote that row. Under `exact` it carries the
recorded detail. -/
def Agrees (exact : Prop) (thread : ℕ) (opId : String) (response : Response) (s : Shared) : Prop :=
  response.statusCode ∈ retryCodes ∨
    (response.statusCode = 200 ∧ ∃ row ∈ s.dispatches, row.opId = opId ∧
      ∃ result, response.result = some result ∧ (result.duplicate = false → row.xmin = thread) ∧
        (exact → result.detail = row.result))

/-- The values, or the row they make, are what the request asks for. -/
def Asks (req : FulfillRequest) (opId orderId stage : String) : Prop :=
  req.opId = opId ∧ req.orderId = orderId ∧ req.stage = stage

/-- The table is keyed, each of its rows was asked for by a request received, and no two requests
have the same number. -/
structure Sound (s : Shared) : Prop where
  unique : Table.Unique DispatchRow.opId s.dispatches
  received : ∀ row ∈ s.dispatches, ∃ entry ∈ s.received, Asks entry.2 row.opId row.orderId row.stage
  numbered : Table.Unique Prod.fst s.received

/-- No row and no request is ever taken back. -/
structure Grows (s s' : Shared) : Prop where
  dispatches : ∀ row ∈ s.dispatches, row ∈ s'.dispatches
  received : ∀ entry ∈ s.received, entry ∈ s'.received

theorem Grows.refl (s : Shared) : Grows s s := ⟨fun _ h ↦ h, fun _ h ↦ h⟩

theorem Grows.trans {s₁ s₂ s₃ : Shared} (h : Grows s₁ s₂) (h' : Grows s₂ s₃) : Grows s₁ s₃ where
  dispatches row hrow := h'.dispatches row (h.dispatches row hrow)
  received entry hentry := h'.received entry (h.received entry hentry)

/-- What a request relies on: the service only grows, and the others do not receive requests under
its number. -/
structure Relies (thread : ℕ) (s s' : Shared) : Prop extends Grows s s' where
  own : ∀ entry ∈ s'.received, entry.1 = thread → entry ∈ s.received

theorem Relies.refl (thread : ℕ) (s : Shared) : Relies thread s s :=
  ⟨Grows.refl s, fun _ h _ ↦ h⟩

theorem Relies.trans {thread : ℕ} {s₁ s₂ s₃ : Shared} (h : Relies thread s₁ s₂)
    (h' : Relies thread s₂ s₃) : Relies thread s₁ s₃ where
  toGrows := h.toGrows.trans h'.toGrows
  own entry hentry hnumber := h.own entry (h'.own entry hentry hnumber) hnumber

/-- Requests keep the table sound, only add to it, and every answer agrees with it: on the detail
too when every effect is required to meet `claimsUnrecorded`. -/
def discipline (serviceName : String) (exact : Prop) : Discipline (service serviceName) where
  Permit thread effect choice s := exact → claimsUnrecorded serviceName thread effect choice s
  Inv := Sound
  Rely := Relies
  Fresh thread s := ∀ entry ∈ s.received, entry.1 ≠ thread
  Post thread exchange s := (thread, exchange.request) ∈ s.received ∧
    Agrees exact thread exchange.request.opId exchange.response s
  rely_refl := Relies.refl
  rely_trans := fun _ _ _ _ ↦ Relies.trans
  fresh_rely := fun _ _ _ hrely hfresh entry hentry hnumber ↦
    hfresh entry (hrely.own entry hentry hnumber) hnumber

/-- The precondition of a part of a request. Nothing is asked of a raised error: it answers 500. -/
abbrev Verifies (serviceName : String) (exact : Prop) {β : Type} (thread : ℕ)
    (Q : β → Shared → Prop) (program : Proc β) (s : Shared) : Prop :=
  (discipline serviceName exact).wp thread Q (fun _ _ ↦ True) program s

variable {exact : Prop} {thread : ℕ} {s s' : Shared} {opId : String} {choice : Choice}

/-! ### What each effect can do -/

theorem exec_core {effect : FlakyEffect} {reply : Except Failure effect.Result}
    (h : exec thread (.core effect) choice s = some (reply, s')) :
    s' = s ∧ ∃ c, reply = .ok (effect.answer c) := by
  cases choice with
  | core c =>
    obtain ⟨rfl, rfl⟩ := Prod.mk.inj (Option.some.inj h)
    exact ⟨rfl, c, rfl⟩
  | _ => cases h

theorem exec_fetch {reply : Except Failure (Option Detail)}
    (h : exec thread (.fetch opId) choice s = some (reply, s')) :
    s' = s ∧
      (reply = .ok ((Table.find DispatchRow.opId opId s.dispatches).map DispatchRow.result) ∨
        ∃ error, reply = .error error) := by
  cases choice with
  | done =>
    obtain ⟨rfl, rfl⟩ := Prod.mk.inj (Option.some.inj h)
    exact ⟨rfl, Or.inl rfl⟩
  | lost text =>
    obtain ⟨rfl, rfl⟩ := Prod.mk.inj (Option.some.inj h)
    exact ⟨rfl, Or.inr ⟨_, rfl⟩⟩
  | _ => cases h

theorem exec_insertDispatch {values : DispatchValues} {reply : Except Failure Bool}
    (h : exec thread (.insertDispatch values) choice s = some (reply, s')) :
    (s' = s ∧ ∃ error, reply = .error error) ∨
      (s' = (s.insert thread values).2 ∧
        (choice = .done ∧ reply = .ok (s.insert thread values).1 ∨
          ∃ error, reply = .error error)) := by
  cases choice with
  | done =>
    obtain ⟨rfl, rfl⟩ := Prod.mk.inj (Option.some.inj h)
    exact Or.inr ⟨rfl, Or.inl ⟨rfl, rfl⟩⟩
  | unconfirmed text =>
    obtain ⟨rfl, rfl⟩ := Prod.mk.inj (Option.some.inj h)
    exact Or.inr ⟨rfl, Or.inr ⟨_, rfl⟩⟩
  | lost text =>
    obtain ⟨rfl, rfl⟩ := Prod.mk.inj (Option.some.inj h)
    exact Or.inl ⟨rfl, _, rfl⟩
  | _ => cases h

/-- The `INSERT`: afterwards a row has the operation id, and it is the row of the request if one was
returned. -/
theorem insert_spec (s : Shared) (thread : ℕ) (values : DispatchValues) :
    (∀ other, Relies other s (s.insert thread values).2) ∧
      (Sound s →
        (∃ entry ∈ s.received, Asks entry.2 values.opId values.orderId values.stage) →
          Sound (s.insert thread values).2) ∧
      ∃ row ∈ (s.insert thread values).2.dispatches, row.opId = values.opId ∧
        ((s.insert thread values).1 = true → row = values.row thread) ∧
        ((s.insert thread values).1 = false → row ∈ s.dispatches) := by
  unfold Shared.insert
  rcases Table.insert_cases DispatchRow.opId (values.row thread) s.dispatches with
    ⟨hclaimed, hsame, other, hother, hkey⟩ | ⟨hclaimed, hadded, hnew⟩
  · simp only [hclaimed, hsame]
    exact ⟨fun other ↦ Relies.refl other s, fun hsound _ ↦ hsound, other, hother, hkey, by simp,
      fun _ ↦ hother⟩
  · simp only [hclaimed, hadded]
    refine ⟨fun _ ↦ ⟨⟨fun row hrow ↦ List.mem_append_left _ hrow, fun _ h ↦ h⟩, fun _ h _ ↦ h⟩, ?_,
      values.row thread, by simp, rfl, by simp, by simp⟩
    intro hsound hreceived
    refine ⟨hsound.unique.append hnew, fun row hrow ↦ ?_, hsound.numbered⟩
    rcases List.mem_append.mp hrow with hold | hrow
    · exact hsound.received row hold
    · rw [List.mem_singleton.mp hrow]
      exact hreceived

/-- A request in progress receives no other. -/
theorem received_of_exec {effect : Effect} {reply : Except Failure effect.Result}
    (h : exec thread effect choice s = some (reply, s')) : s'.received = s.received := by
  cases effect with
  | core effect => rw [(exec_core h).1]
  | fetch opId => rw [(exec_fetch h).1]
  | insertDispatch values =>
    rcases exec_insertDispatch h with ⟨hsame, -⟩ | ⟨hinserted, -⟩
    · rw [hsame]
    · rw [hinserted]
      rfl

/-! ### The endpoint -/

theorem Agrees.grows {response : Response} (h : Agrees exact thread opId response s)
    (hgrows : Grows s s') : Agrees exact thread opId response s' := by
  rcases h with hretry | ⟨hcode, row, hrow, hrest⟩
  · exact Or.inl hretry
  · exact Or.inr ⟨hcode, row, hgrows.dispatches row hrow, hrest⟩

theorem agrees_of_retry {response : Response} (h : response.statusCode ∈ retryCodes) :
    (discipline serviceName exact).Always thread (Agrees exact thread opId response) s :=
  fun _ _ _ ↦ Or.inl h

theorem wp_core {effect : FlakyEffect} {Q : effect.Result → Shared → Prop}
    (h : ∀ s₁, Relies thread s s₁ → ∀ answer,
      (discipline serviceName exact).Always thread (Q answer) s₁) :
    Verifies serviceName exact thread Q (core effect) s := by
  refine wp_call_of_silent (fun _ _ _ _ hexec ↦ (exec_core hexec).1) ?_
  intro s₁ choice reply hrely hexec
  obtain ⟨-, c, rfl⟩ := exec_core hexec
  exact h s₁ hrely _

theorem wp_fetch {Q : Option Detail → Shared → Prop}
    (h : ∀ s₁, Relies thread s s₁ → (discipline serviceName exact).Always thread
      (Q ((Table.find DispatchRow.opId opId s₁.dispatches).map DispatchRow.result)) s₁) :
    Verifies serviceName exact thread Q (fetch opId) s := by
  refine wp_call_of_silent (fun _ _ _ _ hexec ↦ (exec_fetch hexec).1) ?_
  intro s₁ choice reply hrely hexec
  rcases (exec_fetch hexec).2 with rfl | ⟨error, rfl⟩
  · exact h s₁ hrely
  · exact fun _ _ _ ↦ trivial

theorem wp_insertDispatch {values : DispatchValues} {Q : Bool → Shared → Prop}
    (hreceived : ∃ entry ∈ s.received, Asks entry.2 values.opId values.orderId values.stage)
    (h : ∀ s₁ claimed row, row ∈ s₁.dispatches → row.opId = values.opId →
      (claimed = true → row = values.row thread) → (exact → row.result = values.detail) →
        (discipline serviceName exact).Always thread (Q claimed) s₁) :
    Verifies serviceName exact thread Q (insertDispatch values) s := by
  apply wp_call
  intro s₁ hrely hinv choice reply s₂ hpermit hexec
  rcases exec_insertDispatch hexec with ⟨rfl, error, rfl⟩ | ⟨rfl, hreply⟩
  · exact ⟨⟨hinv, fun other _ ↦ Relies.refl other _⟩, fun _ _ _ ↦ trivial⟩
  · obtain ⟨hrelies, hsound, row, hrow, hkey, hwon, hlost⟩ := insert_spec s₁ thread values
    obtain ⟨entry, hentry, hasks⟩ := hreceived
    refine ⟨⟨hsound hinv ⟨entry, hrely.received entry hentry, hasks⟩, fun other _ ↦ hrelies other⟩,
      ?_⟩
    rcases hreply with ⟨rfl, rfl⟩ | ⟨error, rfl⟩
    · refine h _ _ row hrow hkey hwon fun hexact ↦ ?_
      cases hclaimed : (s₁.insert thread values).1 with
      | true =>
        rw [hwon hclaimed]
        rfl
      | false => exact absurd hkey (hpermit hexact row (hlost hclaimed))
    · exact fun _ _ _ ↦ trivial

/-- The claim answers with the detail of the request, so with the recorded one if it was not
lost. -/
theorem wp_claim {req : FulfillRequest} {delay : ℕ} (hreceived : (thread, req) ∈ s.received) :
    Verifies serviceName exact thread (Agrees exact thread req.opId)
      (claim serviceName req delay) s := by
  apply wp_bind
  apply wp_insertDispatch ⟨_, hreceived, rfl, rfl, rfl⟩
  intro s₁ claimed row hrow hkey hwon hdetail s₂ hrely _ s₃ hrely' _
  refine Or.inr ⟨rfl, row, hrely'.dispatches row (hrely.dispatches row hrow), hkey, _, rfl, ?_, ?_⟩
  · intro hduplicate
    rw [hwon (by simpa using hduplicate)]
    rfl
  · intro hexact
    rw [hdetail hexact]

/-- Every answer of the endpoint agrees with the table. -/
theorem wp_fulfill {req : FulfillRequest} (hreceived : (thread, req) ∈ s.received) :
    Verifies serviceName exact thread (Agrees exact thread req.opId)
      (fulfill serviceName req) s := by
  unfold fulfill
  apply wp_bind
  apply wp_core
  intro s₁ h₁ down s₂ h₂ _
  have hreceived₂ := (h₁.trans h₂).received _ hreceived
  cases down with
  | true => exact agrees_of_retry (by decide)
  | false =>
    apply wp_bind
    apply wp_fetch
    intro s₃ h₃ s₄ h₄ _
    have hreceived₄ := (h₃.trans h₄).received _ hreceived₂
    cases hfind : Table.find DispatchRow.opId req.opId s₃.dispatches with
    | some row =>
      obtain ⟨hmem, hkey⟩ := Table.find_some hfind
      have hagrees : Agrees exact thread req.opId (resultResponse req true row.result) s₄ :=
        Or.inr ⟨rfl, row, h₄.dispatches row hmem, hkey, _, rfl, by simp, fun _ ↦ rfl⟩
      exact fun s₅ hrely _ ↦ hagrees.grows hrely.toGrows
    | none =>
      apply wp_bind
      apply wp_core
      intro s₅ h₅ limited s₆ h₆ _
      have hreceived₆ := (h₅.trans h₆).received _ hreceived₄
      cases limited with
      | true => exact agrees_of_retry (by decide)
      | false =>
        apply wp_bind
        apply wp_core
        intro s₇ h₇ delay s₈ h₈ _
        have hreceived₈ := (h₇.trans h₈).received _ hreceived₆
        apply wp_bind
        apply wp_core
        intro s₉ h₉ outcome s₁₀ h₁₀ _
        have hreceived₁₀ := (h₉.trans h₁₀).received _ hreceived₈
        cases outcome with
        | none => exact wp_claim hreceived₁₀
        | some outcome =>
          cases outcome with
          | error => exact agrees_of_retry (by decide)
          | decline => exact wp_claim hreceived₁₀
          | timeout =>
            apply wp_bind
            apply wp_core
            intro s₁₁ _ _ s₁₂ _ _
            exact agrees_of_retry (by decide)

theorem mem_receive (s : Shared) (thread : ℕ) (req : FulfillRequest) :
    (thread, req) ∈ (s.receive thread req).received := by
  simp [Shared.receive]

theorem relies_receive {other : ℕ} (s : Shared) (req : FulfillRequest) (hne : other ≠ thread) :
    Relies other s (s.receive thread req) := by
  refine ⟨⟨fun _ h ↦ h, fun _ h ↦ List.mem_append_left _ h⟩, fun entry hentry hnumber ↦ ?_⟩
  rcases List.mem_append.mp hentry with hold | hnew
  · exact hold
  · rw [List.mem_singleton.mp hnew] at hnumber
    exact absurd hnumber.symm hne

theorem Sound.receive {req : FulfillRequest} (h : Sound s)
    (hfresh : ∀ entry ∈ s.received, entry.1 ≠ thread) : Sound (s.receive thread req) where
  unique := h.unique
  received row hrow := by
    obtain ⟨entry, hentry, hkey⟩ := h.received row hrow
    exact ⟨entry, List.mem_append_left _ hentry, hkey⟩
  numbered := h.numbered.append hfresh

theorem permanent_received (entry : ℕ × FulfillRequest) :
    (discipline serviceName exact).Permanent fun s ↦ entry ∈ s.received :=
  fun _ _ _ hrely h ↦ hrely.received entry h

theorem verified : (discipline serviceName exact).Verified where
  start := ⟨⟨List.nodup_nil, by simp [service], List.nodup_nil⟩, by simp [discipline, service]⟩
  launch := by
    intro thread req s program s' hinv hfresh hlaunch
    obtain ⟨rfl, rfl⟩ := Prod.mk.inj (Option.some.inj hlaunch)
    refine ⟨⟨Sound.receive hinv hfresh, fun other hne ↦ relies_receive s req hne⟩, wp_bind ?_⟩
    have hreceived := mem_receive s thread req
    refine wp_mono ?_ (fun _ _ _ ↦ trivial)
      (wp_frame (permanent_received (thread, req)) hreceived (wp_fulfill hreceived))
    rintro response s₁ ⟨hagrees, hmem⟩ s₂ hrely -
    exact ⟨hrely.received _ hmem, hagrees.grows hrely.toGrows⟩
  ambient := fun ambient ↦ ambient.elim

/-! ### The agreement -/

/-- What holds of an operation id in every world of the service. -/
structure Exclusive (w : World (service serviceName)) (opId : String) : Prop where
  /-- At most one row is recorded for the operation id. -/
  atMostOneRow : (w.shared.dispatches.filter fun row ↦ row.opId = opId).length ≤ 1
  /-- At most one 200 answer given for the operation id is not a duplicate. -/
  original : ∀ thread thread' exchange exchange' result result',
    w.threads thread = some (.ret exchange) → w.threads thread' = some (.ret exchange') →
    exchange.request.opId = opId → exchange'.request.opId = opId →
    exchange.response.statusCode = 200 → exchange'.response.statusCode = 200 →
    exchange.response.result = some result → exchange'.response.result = some result' →
    result.duplicate = false → result'.duplicate = false → thread = thread'

/-- What is claimed of an operation id: moreover every 200 answer given for it carries the detail
recorded in the row. -/
structure Agreement (w : World (service serviceName)) (opId : String) : Prop where
  exclusive : Exclusive w opId
  agree : ∀ thread exchange, w.threads thread = some (.ret exchange) →
    exchange.request.opId = opId → exchange.response.statusCode = 200 →
      ∃ row ∈ w.shared.dispatches, row.opId = opId ∧
        ∃ result, exchange.response.result = some result ∧ result.detail = row.result

theorem agrees_of_ok {w : World (service serviceName)}
    (hw : (discipline serviceName exact).Holds w) {thread : ℕ} {exchange : Exchange}
    (hanswer : w.threads thread = some (.ret exchange))
    (hcode : exchange.response.statusCode = 200) :
    ∃ row ∈ w.shared.dispatches, row.opId = exchange.request.opId ∧
      ∃ result, exchange.response.result = some result ∧
        (result.duplicate = false → row.xmin = thread) ∧ (exact → result.detail = row.result) := by
  have hagrees : Agrees exact thread exchange.request.opId exchange.response w.shared :=
    (hw.post hanswer).2
  rcases hagrees with hretry | ⟨-, hrow⟩
  · rw [hcode] at hretry
    exact absurd hretry (by decide)
  · exact hrow

theorem exclusive_of_holds {w : World (service serviceName)}
    (hw : (discipline serviceName exact).Holds w) (opId : String) : Exclusive w opId := by
  have hunique : Table.Unique DispatchRow.opId w.shared.dispatches := hw.inv.unique
  constructor
  · exact hunique.length_filter_le_one opId
  · intro thread thread' exchange exchange' result result' hanswer hanswer' hopId hopId' hcode
      hcode'
      hresult hresult' hfirst hfirst'
    obtain ⟨row, hrow, hkey, found, hfound, hxmin, -⟩ := agrees_of_ok hw hanswer hcode
    obtain ⟨row', hrow', hkey', found', hfound', hxmin', -⟩ := agrees_of_ok hw hanswer' hcode'
    have hrows : row = row' :=
      hunique.eq hrow hrow' (by rw [hkey, hkey', hopId, hopId'])
    rw [hresult] at hfound
    rw [hresult'] at hfound'
    rw [← hxmin (Option.some.inj hfound ▸ hfirst), hrows,
      hxmin' (Option.some.inj hfound' ▸ hfirst')]

theorem holds_of_anyEffect {w : World (service serviceName)}
    (hw : World.Reachable World.anyEffect w) : (discipline serviceName False).Holds w :=
  holds_of_reachable verified (hw.mono fun _ _ _ _ _ ↦ False.elim)

/-- The parts of the agreement that hold of every run. -/
theorem exclusive_of_anyEffect {w : World (service serviceName)}
    (hw : World.Reachable World.anyEffect w) (opId : String) : Exclusive w opId :=
  exclusive_of_holds (holds_of_anyEffect hw) opId

/-- The agreement in the runs in which no claim is lost. -/
theorem agreement_of_claimsUnrecorded {w : World (service serviceName)}
    (hw : World.Reachable (claimsUnrecorded serviceName) w) (opId : String) : Agreement w opId := by
  have hreach : World.Reachable (discipline serviceName True).Permit w :=
    hw.mono fun _ _ _ _ h _ ↦ h
  have hholds := holds_of_reachable verified hreach
  constructor
  · exact exclusive_of_holds hholds opId
  · intro thread exchange hanswer hopId hcode
    obtain ⟨row, hrow, hkey, result, hresult, -, hdetail⟩ := agrees_of_ok hholds hanswer hcode
    exact ⟨row, hrow, hkey.trans hopId, result, hresult, hdetail trivial⟩

/-! ### A lost claim -/

/-- What comes after each `INSERT` of a program: an answer with the detail of its values. -/
def Announces : Proc Exchange → Prop
  | .perform (.insertDispatch values) resume =>
    (∃ req : FulfillRequest, req.opId = values.opId ∧ ∀ claimed,
      resume (.ok claimed) = .ret ⟨req, resultResponse req (!claimed) values.detail⟩) ∧
      ∀ reply, Announces (resume reply)
  | .perform (.core _) resume => ∀ reply, Announces (resume reply)
  | .perform (.fetch _) resume => ∀ reply, Announces (resume reply)
  | .ret _ => True
  | .raise _ => True

theorem announces_resume {effect : Effect}
    {resume : Except Failure effect.Result → Proc Exchange} (reply : Except Failure effect.Result)
    (h : Announces (.perform effect resume)) : Announces (resume reply) := by
  cases effect with
  | core effect => exact h reply
  | fetch opId => exact h reply
  | insertDispatch values => exact h.2 reply

theorem announces_claim (req : FulfillRequest) (delay : ℕ) :
    Announces ((claim serviceName req delay).bind fun response ↦ .ret ⟨req, response⟩) := by
  refine ⟨⟨req, rfl, fun _ ↦ rfl⟩, fun reply ↦ ?_⟩
  cases reply <;> trivial

theorem announces_handle (req : FulfillRequest) : Announces (handle serviceName req) := by
  intro down
  cases down with
  | error error => trivial
  | ok down =>
    cases down with
    | true => trivial
    | false =>
      intro cached
      cases cached with
      | error error => trivial
      | ok cached =>
        cases cached with
        | some detail => trivial
        | none =>
          intro limited
          cases limited with
          | error error => trivial
          | ok limited =>
            cases limited with
            | true => trivial
            | false =>
              intro delay
              cases delay with
              | error error => trivial
              | ok delay =>
                intro outcome
                cases outcome with
                | error error => trivial
                | ok outcome =>
                  cases outcome with
                  | none => exact announces_claim req delay
                  | some outcome =>
                    cases outcome with
                    | error => trivial
                    | decline => exact announces_claim req delay
                    | timeout =>
                      intro slept
                      cases slept <;> trivial

/-- A request that is at its `INSERT` answers with the detail of its values. -/
theorem announces_of_reachable {w : World (service serviceName)}
    (hw : World.Reachable World.anyEffect w) {thread : ℕ} {program : Proc Exchange}
    (hthread : w.threads thread = some program) : Announces program := by
  refine World.programs_of_reachable ?_ (fun _ _ ↦ announces_resume) hw thread program hthread
  intro thread req s program s' hlaunch
  obtain ⟨rfl, -⟩ := Prod.mk.inj (Option.some.inj hlaunch)
  exact announces_handle req

theorem insert_of_recorded {values : DispatchValues} {row : DispatchRow} (hrow : row ∈ s.dispatches)
    (hkey : row.opId = values.opId) : s.insert thread values = (false, s) := by
  unfold Shared.insert
  rcases Table.insert_cases DispatchRow.opId (values.row thread) s.dispatches with
    ⟨hclaimed, hsame, -⟩ | ⟨-, -, hnew⟩
  · simp only [hclaimed, hsame]
  · exact absurd hkey (hnew row hrow)

section Lost

variable {w w' : World (service serviceName)} {values : DispatchValues}
  {resume : Except Failure Bool → Proc Exchange} {row : DispatchRow}

/-- A request whose `INSERT` finds its operation id recorded answers at once, with its own
detail. -/
theorem act_of_lost (hw : World.Reachable World.anyEffect w)
    (hthread : w.threads thread = some (.perform (.insertDispatch values) resume))
    (hact : w.act (.step thread .done) = some w') (hrow : row ∈ w.shared.dispatches)
    (hkey : row.opId = values.opId) :
    ∃ req : FulfillRequest, req.opId = values.opId ∧
      w' = ⟨w.shared, Function.update w.threads thread
        (some (.ret ⟨req, resultResponse req true values.detail⟩)), w.next⟩ := by
  obtain ⟨⟨req, hreq, hresume⟩, -⟩ := announces_of_reachable hw hthread
  have hinsert : Shared.insert w.shared thread values = (false, w.shared) :=
    insert_of_recorded hrow hkey
  have hexec : (service serviceName).exec thread (.insertDispatch values) .done w.shared =
      some (.ok false, w.shared) := by
    show some (Except.ok (Shared.insert w.shared thread values).1,
      (Shared.insert w.shared thread values).2) = _
    rw [hinsert]
    rfl
  rw [World.act_of_exec hthread hexec] at hact
  refine ⟨req, hreq, ?_⟩
  rw [← Option.some.inj hact, hresume false]
  rfl

theorem agreement_iff_of_lost (hw : World.Reachable World.anyEffect w)
    (hthread : w.threads thread = some (.perform (.insertDispatch values) resume))
    (hact : w.act (.step thread .done) = some w') (hrow : row ∈ w.shared.dispatches)
    (hkey : row.opId = values.opId) :
    Agreement w' values.opId ↔ Agreement w values.opId ∧ row.result = values.detail := by
  have hw' : World.Reachable World.anyEffect w' :=
    hw.tail ⟨_, World.permitted_anyEffect w _, hact⟩
  obtain ⟨req, hreq, rfl⟩ := act_of_lost hw hthread hact hrow hkey
  constructor
  · intro hagreement
    constructor
    · refine ⟨exclusive_of_anyEffect hw _, fun other exchange hanswer hopId hcode ↦ ?_⟩
      have hne : other ≠ thread := by
        rintro rfl
        rw [hthread] at hanswer
        cases hanswer
      exact hagreement.agree other exchange (by simpa [hne] using hanswer) hopId hcode
    · obtain ⟨recorded, hrecorded, hsame, result, hresult, hdetail⟩ :=
        hagreement.agree thread _ (Function.update_self ..) hreq rfl
      have hunique : Table.Unique DispatchRow.opId w.shared.dispatches :=
        (holds_of_anyEffect hw).inv.unique
      rw [hunique.eq hrow hrecorded (hkey.trans hsame.symm), ← hdetail, ← Option.some.inj hresult]
  · rintro ⟨hagreement, hdetail⟩
    refine ⟨exclusive_of_anyEffect hw' _, fun other exchange hanswer hopId hcode ↦ ?_⟩
    by_cases hother : other = thread
    · subst hother
      have hexchange : Exchange.mk req (resultResponse req true values.detail) = exchange := by
        simpa using hanswer
      rw [← hexchange]
      exact ⟨row, hrow, hkey, _, rfl, hdetail.symm⟩
    · exact hagreement.agree other exchange (by simpa [hother] using hanswer) hopId hcode

end Lost

/-- What decides whether the answers agree with the rows. -/
structure AgreesUnlessLost (w : World (service serviceName)) : Prop where
  /-- They agree as long as every `INSERT` that did not raise has found its operation id
  unrecorded. -/
  agreement : World.Reachable (claimsUnrecorded serviceName) w → ∀ opId, Agreement w opId
  /-- When an `INSERT` that does not raise finds its operation id recorded, they agree afterwards if
  and only if they did before and the detail of its values is the recorded one. -/
  lost : ∀ thread values resume w' row,
    w.threads thread = some (.perform (.insertDispatch values) resume) →
    w.act (.step thread .done) = some w' → row ∈ w.shared.dispatches → row.opId = values.opId →
      (Agreement w' values.opId ↔ Agreement w values.opId ∧ row.result = values.detail)

/-- **Fulfillment idempotency agreement**: in every world reached by a run in which no request goes
on to answer after it has lost its claim, for every operation id, and what a lost claim does to it
in any run. -/
theorem fulfillmentIdempotencyAgreement {w : World (service serviceName)}
    (hw : World.Reachable World.anyEffect w) : AgreesUnlessLost w where
  agreement := agreement_of_claimsUnrecorded
  lost _ _ _ _ _ hthread hact hrow hkey := agreement_iff_of_lost hw hthread hact hrow hkey

instance (thread : ℕ) (effect : Effect) (choice : (service serviceName).Choice)
    (s : (service serviceName).Shared) :
    Decidable (claimsUnrecorded serviceName thread effect choice s) :=
  match effect, choice with
  | .insertDispatch values, .done =>
    inferInstanceAs (Decidable (∀ row ∈ Shared.dispatches s, row.opId ≠ values.opId))
  | .insertDispatch _, .core _ => .isTrue trivial
  | .insertDispatch _, .lost _ => .isTrue trivial
  | .insertDispatch _, .unconfirmed _ => .isTrue trivial
  | .core _, _ => .isTrue trivial
  | .fetch _, _ => .isTrue trivial

def kitchenTicket : FulfillRequest :=
  { orderId := "o", opId := "o:confirmed->preparing", stage := "preparing" }

/-- The second request is answered from the cache. The third misses the cache, and its `INSERT`
raises after the first has recorded its row. -/
def retried : List (Action (service "restaurant-svc")) :=
  [.launch kitchenTicket, .launch kitchenTicket, .launch kitchenTicket,
   .step 2 (.core { flag := false }), .step 2 .done,
   .step 0 (.core { flag := false }), .step 0 .done, .step 0 (.core { flag := false }),
   .step 0 (.core { delay := 2000 }), .step 0 (.core { outcome := none }), .step 0 .done,
   .step 1 (.core { flag := false }), .step 1 .done,
   .step 2 (.core { flag := false }), .step 2 (.core { delay := 3000 }),
   .step 2 (.core { outcome := none }), .step 2 (.lost "connection was closed")]

def retriedWorld : World (service "restaurant-svc") :=
  ((World.initial _).runPermitted (claimsUnrecorded "restaurant-svc") retried).get (by decide)

theorem reachable_retriedWorld :
    World.Reachable (claimsUnrecorded "restaurant-svc") retriedWorld :=
  World.reachable_of_runPermitted (Option.some_get _).symm

theorem fulfillmentIdempotencyAgreement_retriedWorld :
    Agreement retriedWorld kitchenTicket.opId ∧ retriedWorld.shared.dispatches.length = 1 :=
  ⟨(fulfillmentIdempotencyAgreement
      (reachable_retriedWorld.mono fun _ _ _ _ _ ↦ trivial)).agreement reachable_retriedWorld
    kitchenTicket.opId, by decide⟩

/-- Two overlapping requests: both miss the cache and work, for different times, and the second
loses the insert race. -/
def overlap : List (Action (service "restaurant-svc")) :=
  [.launch kitchenTicket, .launch kitchenTicket,
   .step 0 (.core { flag := false }), .step 0 .done,
   .step 1 (.core { flag := false }), .step 1 .done,
   .step 0 (.core { flag := false }), .step 0 (.core { delay := 2000 }),
   .step 0 (.core { outcome := none }), .step 0 .done,
   .step 1 (.core { flag := false }), .step 1 (.core { delay := 3000 }),
   .step 1 (.core { outcome := none }), .step 1 .done]

def overlapWorld : World (service "restaurant-svc") :=
  ((World.initial _).run overlap).get (by decide)

/-- The loser of the race is answered 200 with a detail that is not the recorded one. -/
theorem not_agreement_overlapWorld :
    World.Reachable World.anyEffect overlapWorld ∧ ¬ Agreement overlapWorld kitchenTicket.opId := by
  refine ⟨World.reachable_of_run (Option.some_get _).symm, fun hagreement ↦ ?_⟩
  obtain ⟨row, hrow, -, result, hresult, hdetail⟩ :=
    hagreement.agree 1 ⟨kitchenTicket, resultResponse kitchenTicket true
      { handledBy := some "restaurant-svc", ms := some 3000 }⟩ (by rfl) rfl rfl
  have hrecorded : ∀ row ∈ overlapWorld.shared.dispatches, row.result.ms = some 2000 := by decide
  have hms : result.detail.ms = some 3000 := by
    rw [← Option.some.inj hresult]
  rw [hdetail, hrecorded row hrow] at hms
  exact absurd hms (by decide)

end DinnerRush.Fulfillment
