import DinnerRush.Orchestrator.FirstLine
import DinnerRush.Orchestrator.Lifecycle

/-!
# Redis is not load-bearing

A world of the orchestrator with the first-line check is followed by a world without it
(`Follows`). Everything but the broker is the same in both. The second world still holds the
messages that the fast path has acked in the first (`Covers`): each of them names a state that its
order has left, and the handler that has it in hand is never scheduled again. So whatever the tables
go through with Redis, whatever it answers, they can go through without it
(`redisNotLoadBearing`).
-/

set_option autoImplicit false
set_option relaxedAutoImplicit false

namespace DinnerRush.Orchestrator

open Concurrency

variable {D : Downstreams}

/-! ### Effects over another broker -/

/-- The outcome over another broker. -/
def overBroker {α : Type} (broker : Broker) (outcome : α × Shared D) : α × Shared D :=
  (outcome.1, outcome.2.settle broker)

section Settle

variable (s : Shared D) (broker : Broker) (thread : ℕ)

@[simp] theorem settle_db : (s.settle broker).db = s.db := rfl

@[simp] theorem settle_downstream : (s.settle broker).downstream = s.downstream := rfl

@[simp] theorem settle_view : (s.settle broker).view thread = s.view thread := rfl

@[simp] theorem settle_inTransaction :
    (s.settle broker).inTransaction thread = s.inTransaction thread := rfl

theorem insertOrder_settle (values : OrderValues) :
    (s.settle broker).insertOrder thread values =
      (s.insertOrder thread values).map (overBroker broker) := by
  unfold Shared.insertOrder
  rw [settle_inTransaction, settle_view, settle_db]
  split_ifs
  · rfl
  all_goals cases Table.find OrderRow.orderId values.orderId (s.view thread).orders <;> rfl

theorem claimOperation_settle (row : OperationRow) :
    (s.settle broker).claimOperation thread row =
      (s.claimOperation thread row).map (overBroker broker) := by
  unfold Shared.claimOperation
  rw [settle_inTransaction, settle_view, settle_db]
  split_ifs
  · rfl
  all_goals cases Table.find OperationRow.opId row.opId (s.view thread).operations <;> rfl

theorem updateState_settle (orderId : String) (target source : State) :
    (s.settle broker).updateState thread orderId target source =
      (s.updateState thread orderId target source).map (overBroker broker) := by
  unfold Shared.updateState
  rw [settle_inTransaction, settle_view, settle_db]
  dsimp only
  split_ifs <;> rfl

theorem insertTransition_settle (values : TransitionValues) :
    (s.settle broker).insertTransition thread values =
      (s.insertTransition thread values).map fun s' ↦ s'.settle broker := by
  unfold Shared.insertTransition
  rw [settle_inTransaction]
  split_ifs <;> rfl

theorem enqueue_settle (exchange : Exchange) (routingKey : String) (env : Envelope) :
    (s.settle broker).enqueue thread exchange routingKey env =
      (s.enqueue thread exchange routingKey env).map fun s' ↦ s'.settle broker := by
  unfold Shared.enqueue
  rw [settle_inTransaction]
  split_ifs <;> rfl

/-- What is not about the broker is the same over any broker. -/
theorem exec_settle {effect : Effect} (hbroker : effect.onBroker = false) (choice : Choice) :
    exec thread effect choice (s.settle broker) =
      (exec thread effect choice s).map (overBroker broker) := by
  cases effect with
  | insertOrder values =>
    cases choice with
    | done =>
      simp only [exec, insertOrder_settle, Option.map_map]
      rfl
    | _ => rfl
  | claimOperation row =>
    cases choice with
    | done =>
      simp only [exec, claimOperation_settle, Option.map_map]
      rfl
    | _ => rfl
  | updateState orderId target source =>
    cases choice with
    | done =>
      simp only [exec, updateState_settle, Option.map_map]
      rfl
    | _ => rfl
  | insertTransition values =>
    cases choice with
    | done =>
      simp only [exec, insertTransition_settle, Option.map_map]
      rfl
    | _ => rfl
  | enqueue exchange routingKey env =>
    cases choice with
    | done =>
      simp only [exec, enqueue_settle, Option.map_map]
      rfl
    | _ => rfl
  | commit | selectUnpublished | stamp =>
    cases choice <;> first
      | rfl
      | simp only [exec]
        rw [settle_inTransaction]
        split_ifs <;> rfl
  | await service request =>
    cases choice with
    | response response =>
      simp only [exec]
      rw [settle_downstream]
      split_ifs <;> rfl
    | _ => rfl
  | random =>
    cases choice with
    | draw value =>
      simp only [exec]
      split_ifs <;> rfl
    | _ => rfl
  | declareEventQueue | publish | ack | nack | getDlq => cases hbroker
  | _ => cases choice <;> rfl

end Settle

/-! ### A broker that holds more -/

/-- The second broker holds what the first does, and beyond that only messages in the hand of a
consumer whose orders have left the states they name. -/
structure Covers (d : Db) (b b₀ : Broker) (spent : List ℕ) : Prop where
  log : b₀.log = b.log
  bound : b₀.placedBound = b.placedBound
  copies : b.copies = b₀.copies.filter fun copy ↦ copy.number ∉ spent
  passed : ∀ number ∈ spent, Passed b.log d number
  unacked : ∀ copy ∈ b₀.copies, copy.number ∈ spent → ∀ queue, copy.place ≠ .ready queue
  unique : Table.Unique Copy.number b.copies

namespace Covers

variable {d d' : Db} {b b' b₀ : Broker} {spent : List ℕ} {number thread : ℕ}

theorem mono (h : Covers d b b₀ spent) (hgrows : d.Grows d') : Covers d' b b₀ spent where
  log := h.log
  bound := h.bound
  copies := h.copies
  passed number hnumber := (h.passed number hnumber).mono List.prefix_rfl hgrows
  unacked := h.unacked
  unique := h.unique

/-- A message of the first broker was not acked on the fast path. -/
theorem notMem_spent (h : Covers d b b₀ spent) {copy : Copy} (hcopy : copy ∈ b.copies) :
    copy ∈ b₀.copies ∧ copy.number ∉ spent := by
  rw [h.copies, List.mem_filter, decide_eq_true_eq] at hcopy
  exact hcopy

theorem publish (h : Covers d b b₀ spent) (hfiled : b.Filed) (publication : Publication) :
    Covers d (b.publish publication) (b₀.publish publication) spent := by
  have hroute : b₀.route publication.exchange publication.routingKey =
      b.route publication.exchange publication.routingKey := by
    unfold Broker.route
    rw [h.bound]
  unfold Broker.publish
  rw [hroute, h.log]
  cases b.route publication.exchange publication.routingKey with
  | none => exact h
  | some queue =>
    have hfresh : b.log.length ∉ spent := by
      intro hspent
      obtain ⟨_, _, _, hlogged, -⟩ := h.passed _ hspent
      exact absurd (List.getElem?_eq_some_iff.mp hlogged).1 (lt_irrefl _)
    refine ⟨rfl, h.bound, ?_, ?_, ?_, ?_⟩
    · simp only [h.copies, List.filter_append]
      congr 1
      simp [hfresh]
    · exact fun number hnumber ↦
        (h.passed number hnumber).mono (List.prefix_append _ _) (Db.Grows.refl d)
    · intro copy hcopy hspent
      rcases List.mem_append.mp hcopy with hold | hnew
      · exact h.unacked copy hold hspent
      · rw [List.mem_singleton.mp hnew] at hspent
        exact absurd hspent hfresh
    · refine h.unique.append fun copy hcopy hsame ↦ ?_
      obtain ⟨logged, hlogged, -⟩ := hfiled copy hcopy
      rw [hsame] at hlogged
      exact absurd (List.getElem?_eq_some_iff.mp hlogged).1 (lt_irrefl _)

/-- Both brokers move a message that was not acked on the fast path. -/
theorem move (h : Covers d b b₀ spent) {selected : Copy → Bool} {target : Copy → Copy}
    (hselected : ∀ copy, selected copy = true → copy.number = number)
    (htarget : ∀ copy, (target copy).number = copy.number) (hnumber : number ∉ spent) :
    Covers d (b.move selected target) (b₀.move selected target) spent := by
  have hsame : ∀ copy : Copy,
      (if selected copy then target copy else copy).number = copy.number := by
    intro copy
    split
    · exact htarget copy
    · rfl
  refine ⟨h.log, h.bound, ?_, h.passed, ?_, ?_⟩
  · show b.copies.map _ = (b₀.copies.map _).filter _
    rw [List.filter_map, h.copies]
    congr 1
    refine List.filter_congr fun copy _ ↦ ?_
    show decide (copy.number ∉ spent) =
      decide ((if selected copy then target copy else copy).number ∉ spent)
    rw [hsame]
  · intro copy' hcopy' hspent
    obtain ⟨copy, hcopy, rfl⟩ := List.mem_map.mp hcopy'
    rw [hsame] at hspent
    have hstays : selected copy = false := by
      by_contra hmoves
      exact hnumber (hselected copy (by simpa using hmoves) ▸ hspent)
    rw [if_neg (by simp [hstays])]
    exact h.unacked copy hcopy hspent
  · have hmap : (b.move selected target).copies.map Copy.number = b.copies.map Copy.number := by
      show (b.copies.map _).map _ = _
      rw [List.map_map]
      exact List.map_congr_left fun copy _ ↦ hsame copy
    rw [Table.Unique, hmap]
    exact h.unique

/-- The first broker no longer holds a message that was acked on the fast path. -/
theorem move_spent (h : Covers d b b₀ spent) {selected : Copy → Bool} {target : Copy → Copy}
    (hselected : ∀ copy, selected copy = true → copy.number = number) (hnumber : number ∈ spent) :
    b.move selected target = b := by
  have hmap : (b.copies.map fun copy ↦ if selected copy then target copy else copy) =
      b.copies.map id := by
    refine List.map_congr_left fun copy hcopy ↦ if_neg fun hmoves ↦ ?_
    rw [← hselected copy hmoves] at hnumber
    exact (h.notMem_spent hcopy).2 hnumber
  unfold Broker.move
  rw [hmap, List.map_id]

theorem discard (h : Covers d b b₀ spent) (number thread : ℕ) :
    Covers d (b.discard number thread) (b₀.discard number thread) spent where
  log := h.log
  bound := h.bound
  copies := by
    show b.copies.filter _ = (b₀.copies.filter _).filter _
    rw [h.copies, List.filter_comm]
  passed := h.passed
  unacked copy hcopy := h.unacked copy (List.mem_of_mem_filter hcopy)
  unique := h.unique.filter _

/-- The fast path acks a message, which the second broker keeps. -/
theorem skip (h : Covers d b b₀ spent) (hpassed : Passed b.log d number) :
    ∃ spent', Covers d (b.discard number thread) b₀ spent' := by
  by_cases hawaits : ∃ copy ∈ b.copies, Broker.awaits number thread copy = true
  · obtain ⟨copy, hcopy, hcopyawaits⟩ := hawaits
    have hnumber : copy.number = number ∧ ∀ queue, copy.place ≠ .ready queue := by
      rw [Broker.awaits, Bool.and_eq_true, beq_iff_eq] at hcopyawaits
      refine ⟨hcopyawaits.1, fun queue hready ↦ ?_⟩
      rw [hready] at hcopyawaits
      exact absurd hcopyawaits.2 (by simp)
    -- The message in hand is the only one with its number.
    have honly : ∀ other ∈ b.copies, other.number = number → other = copy :=
      fun other hother hsame ↦ h.unique.eq hother hcopy (hsame.trans hnumber.1.symm)
    refine ⟨number :: spent, h.log, h.bound, ?_, ?_, ?_, h.unique.filter _⟩
    · have hfilter : (b.discard number thread).copies =
          b.copies.filter fun copy ↦ copy.number ≠ number := by
        refine List.filter_congr fun other hother ↦ ?_
        by_cases hsame : other.number = number
        · rw [honly other hother hsame, hcopyawaits]
          simp [hnumber.1]
        · simp [Broker.awaits, hsame]
      rw [hfilter, h.copies, List.filter_filter]
      refine List.filter_congr fun other _ ↦ ?_
      simp [List.mem_cons, not_or]
    · intro other hother
      rcases List.mem_cons.mp hother with rfl | hold
      · exact hpassed
      · exact h.passed other hold
    · intro other hother hspent queue
      by_cases hold : other.number ∈ spent
      · exact h.unacked other hother hold queue
      · have hmem : other ∈ b.copies := by
          rw [h.copies]
          exact List.mem_filter.mpr ⟨hother, decide_eq_true hold⟩
        rw [honly other hmem ((List.mem_cons.mp hspent).resolve_right hold)]
        exact hnumber.2 queue
  · refine ⟨spent, h.log, h.bound, ?_, h.passed, h.unacked, h.unique.filter _⟩
    have hfilter : (b.discard number thread).copies = b.copies := by
      refine List.filter_eq_self.mpr fun copy hcopy ↦ ?_
      rw [Bool.not_eq_true', Bool.eq_false_iff]
      exact fun h ↦ hawaits ⟨copy, hcopy, h⟩
    rw [hfilter, h.copies]

theorem readyIn_number {queue : Queue} (copy : Copy) (h : Broker.readyIn number queue copy = true) :
    copy.number = number :=
  (of_decide_eq_true h).1

theorem deliver (h : Covers d b b₀ spent) {queue : Queue} {message : Delivery}
    (hdeliver : b.deliver number queue thread = some (message, b')) :
    ∃ b₀', b₀.deliver number queue thread = some (message, b₀') ∧ Covers d b' b₀' spent := by
  obtain ⟨copy, hfind, hresult⟩ := Option.map_eq_some_iff.mp hdeliver
  obtain ⟨rfl, rfl⟩ := Prod.mk.inj hresult
  have hnumber : number ∉ spent := by
    rw [← readyIn_number copy (List.find?_some hfind)]
    exact (h.notMem_spent (List.mem_of_find?_eq_some hfind)).2
  have hfind₀ : b₀.copies.find? (Broker.readyIn number queue) = some copy := by
    rw [h.copies, List.find?_filter] at hfind
    rw [← hfind]
    congr 1
    funext other
    by_cases hready : Broker.readyIn number queue other = true
    · simp [hready, readyIn_number other hready, hnumber]
    · simp [hready]
  refine ⟨_, ?_, h.move readyIn_number (fun _ ↦ rfl) hnumber⟩
  unfold Broker.deliver
  rw [hfind₀]
  rfl

/-- No message is ready in the second broker that is not in the first. -/
theorem all_ready (h : Covers d b b₀ spent) {queue : Queue}
    (hall : (b.copies.all fun copy ↦ copy.place != .ready queue) = true) :
    (b₀.copies.all fun copy ↦ copy.place != .ready queue) = true := by
  rw [List.all_eq_true] at hall ⊢
  intro copy hcopy
  by_cases hspent : copy.number ∈ spent
  · simpa using h.unacked copy hcopy hspent queue
  · refine hall copy ?_
    rw [h.copies]
    exact List.mem_filter.mpr ⟨hcopy, decide_eq_true hspent⟩

end Covers

/-! ### A state that is followed -/

/-- The second state differs in its broker only, which covers that of the first. -/
structure Behind (s s₀ : Shared D) : Prop where
  rest : s₀ = s.settle s₀.broker
  broker : ∃ spent, Covers s.db.committed s.broker s₀.broker spent

variable {s s' s₀ t t₀ : Shared D} {thread number : ℕ} {choice : Choice}

theorem Behind.settle (h : Behind s s₀) {b b₀ : Broker}
    (hcovers : ∃ spent, Covers s.db.committed b b₀ spent) :
    Behind (s.settle b) (s₀.settle b₀) where
  rest := by
    rw [h.rest]
    rfl
  broker := hcovers

theorem Behind.settle_left (h : Behind s s₀) {b : Broker}
    (hcovers : ∃ spent, Covers s.db.committed b s₀.broker spent) : Behind (s.settle b) s₀ where
  rest := h.rest
  broker := hcovers

/-- The second state stays as it is when the first acks a message that it does not have. -/
theorem Behind.acked (h : Behind s s₀) (ht : Behind t t₀ ∨ Behind t s₀)
    {reply : Except Failure Unit} (hacked : acked s t choice = some (reply, s')) :
    ∃ choice₀ s₀', Orchestrator.acked s₀ t₀ choice₀ = some (reply, s₀') ∧ Behind s' s₀' := by
  cases choice with
  | done =>
    obtain ⟨rfl, rfl⟩ := Prod.mk.inj (Option.some.inj hacked)
    rcases ht with ht | ht
    · exact ⟨.done, t₀, rfl, ht⟩
    · exact ⟨.ignored, s₀, rfl, ht⟩
  | ignored =>
    obtain ⟨rfl, rfl⟩ := Prod.mk.inj (Option.some.inj hacked)
    exact ⟨.ignored, s₀, rfl, h⟩
  | lost text =>
    obtain ⟨rfl, rfl⟩ := Prod.mk.inj (Option.some.inj hacked)
    exact ⟨.lost text, s₀, rfl, h⟩
  | unconfirmed text =>
    obtain ⟨rfl, rfl⟩ := Prod.mk.inj (Option.some.inj hacked)
    rcases ht with ht | ht
    · exact ⟨.unconfirmed text, t₀, rfl, ht⟩
    · exact ⟨.lost text, s₀, rfl, ht⟩
  | _ => cases hacked

theorem Behind.confirmed (h : Behind s s₀) (ht : Behind t t₀) {reply : Except Failure Unit}
    (hconfirmed : confirmed s t choice = some (reply, s')) :
    ∃ s₀', Orchestrator.confirmed s₀ t₀ choice = some (reply, s₀') ∧ Behind s' s₀' := by
  cases choice with
  | done =>
    obtain ⟨rfl, rfl⟩ := Prod.mk.inj (Option.some.inj hconfirmed)
    exact ⟨t₀, rfl, ht⟩
  | lost text =>
    obtain ⟨rfl, rfl⟩ := Prod.mk.inj (Option.some.inj hconfirmed)
    exact ⟨s₀, rfl, h⟩
  | unconfirmed text =>
    obtain ⟨rfl, rfl⟩ := Prod.mk.inj (Option.some.inj hconfirmed)
    exact ⟨t₀, rfl, ht⟩
  | _ => cases hconfirmed

theorem awaits_number (copy : Copy) (h : Broker.awaits number thread copy = true) :
    copy.number = number := by
  rw [Broker.awaits, Bool.and_eq_true, beq_iff_eq] at h
  exact h.1

theorem number_returned (copy : Copy) : (Broker.returned copy).number = copy.number := by
  unfold Broker.returned
  split <;> rfl

/-- A message goes back to its queue, unless it was acked on the fast path. -/
theorem Behind.requeue (h : Behind s s₀) (number thread : ℕ) :
    Behind (s.settle (s.broker.requeue number thread))
        (s₀.settle (s₀.broker.requeue number thread)) ∨
      Behind (s.settle (s.broker.requeue number thread)) s₀ := by
  obtain ⟨spent, hcovers⟩ := h.broker
  by_cases hnumber : number ∈ spent
  · refine Or.inr (h.settle_left ⟨spent, ?_⟩)
    rw [Broker.requeue, hcovers.move_spent awaits_number hnumber]
    exact hcovers
  · exact Or.inl (h.settle ⟨spent, hcovers.move awaits_number number_returned hnumber⟩)

/-- An effect that is not about the broker is the same in both states. -/
theorem Behind.exec_of_not_onBroker (h : Behind s s₀) {effect : Effect}
    (hbroker : effect.onBroker = false) {reply : Except Failure effect.Result}
    (hexec : exec thread effect choice s = some (reply, s'))
    (hgrows : s.db.committed.Grows s'.db.committed) :
    ∃ s₀', exec thread effect choice s₀ = some (reply, s₀') ∧ Behind s' s₀' := by
  have hsame := exec_settle s s.broker thread hbroker choice
  rw [show s.settle s.broker = s from rfl, hexec] at hsame
  have hkept : s' = s'.settle s.broker := (Prod.mk.inj (Option.some.inj hsame)).2
  have hs'broker : s'.broker = s.broker := by
    rw [hkept]
    rfl
  refine ⟨s'.settle s₀.broker, ?_, rfl, ?_⟩
  · rw [h.rest, exec_settle s s₀.broker thread hbroker, hexec]
    rfl
  · obtain ⟨spent, hcovers⟩ := h.broker
    rw [hs'broker]
    exact ⟨spent, hcovers.mono hgrows⟩

/-- Every effect of the first state can be had in the second, with the same reply. -/
theorem Behind.exec (h : Behind s s₀) (hfiled : s.broker.Filed) {effect : Effect}
    {reply : Except Failure effect.Result}
    (hexec : exec thread effect choice s = some (reply, s'))
    (hgrows : s.db.committed.Grows s'.db.committed) :
    ∃ choice₀ s₀', Orchestrator.exec thread effect choice₀ s₀ = some (reply, s₀') ∧
      Behind s' s₀' := by
  obtain ⟨spent, hcovers⟩ := h.broker
  cases effect with
  | declareEventQueue =>
    have ht : Behind (s.settle s.broker.declarePlaced) (s₀.settle s₀.broker.declarePlaced) :=
      h.settle ⟨spent, hcovers.log, rfl, hcovers.copies, hcovers.passed, hcovers.unacked,
        hcovers.unique⟩
    obtain ⟨s₀', hconfirmed, hbehind⟩ := h.confirmed ht hexec
    exact ⟨choice, s₀', hconfirmed, hbehind⟩
  | publish exchange routingKey body =>
    have ht := h.settle ⟨spent, hcovers.publish hfiled ⟨some thread, exchange, routingKey, body⟩⟩
    obtain ⟨s₀', hconfirmed, hbehind⟩ := h.confirmed ht hexec
    exact ⟨choice, s₀', hconfirmed, hbehind⟩
  | ack number => exact h.acked (Or.inl (h.settle ⟨spent, hcovers.discard number thread⟩)) hexec
  | nack number requeue =>
    cases requeue with
    | true => exact h.acked (h.requeue number thread) hexec
    | false => exact h.acked (Or.inl (h.settle ⟨spent, hcovers.discard number thread⟩)) hexec
  | getDlq =>
    cases choice with
    | message number =>
      obtain ⟨⟨message, broker⟩, hdeliver, hresult⟩ := Option.map_eq_some_iff.mp hexec
      obtain ⟨rfl, rfl⟩ := Prod.mk.inj hresult
      obtain ⟨broker₀, hdeliver₀, hcovers'⟩ := hcovers.deliver hdeliver
      refine ⟨.message number, s₀.settle broker₀, ?_, h.settle ⟨spent, hcovers'⟩⟩
      exact Option.map_eq_some_iff.mpr ⟨_, hdeliver₀, rfl⟩
    | done =>
      simp only [Orchestrator.exec] at hexec
      split at hexec
      · rename_i hall
        obtain ⟨rfl, rfl⟩ := Prod.mk.inj (Option.some.inj hexec)
        exact ⟨.done, s₀, if_pos (hcovers.all_ready hall), h⟩
      · cases hexec
    | lost text =>
      obtain ⟨rfl, rfl⟩ := Prod.mk.inj (Option.some.inj hexec)
      exact ⟨.lost text, s₀, rfl, h⟩
    | _ => cases hexec
  | _ => exact ⟨choice, h.exec_of_not_onBroker rfl hexec hgrows⟩

/-- The fast path acks in the first state only. -/
theorem Behind.skip (h : Behind s s₀) (hpassed : Passed s.broker.log s.db.committed number)
    {reply : Except Failure Unit} (hexec : Orchestrator.exec thread (.ack number) choice s =
      some (reply, s')) : Behind s' s₀ := by
  obtain ⟨spent, hcovers⟩ := h.broker
  rcases (acked_cases hexec).1 with rfl | rfl
  · exact h
  · exact h.settle_left (hcovers.skip hpassed)

/-! ### A world that is followed -/

variable {cfg : Config} {foreign : Publication → Bool}

/-- What the programs of the two worlds have to match. -/
abbrev MatchesAt (cfg : Config) (foreign : Publication → Bool) (s : Shared D) :
    Proc Unit → Proc Unit → Prop :=
  Matches cfg D foreign s.broker.log s.db.committed

/-- A message is delivered in both states. -/
theorem Behind.receive (h : Behind s s₀) {queue : Queue} {message : Delivery} {broker : Broker}
    (hdeliver : s.broker.deliver number queue thread = some (message, broker)) :
    ∃ broker₀, s₀.broker.deliver number queue thread = some (message, broker₀) ∧
      Behind (launch.receive thread message broker s)
        (launch.receive thread message broker₀ s₀) := by
  obtain ⟨spent, hcovers⟩ := h.broker
  obtain ⟨broker₀, hdeliver₀, hcovers'⟩ := hcovers.deliver hdeliver
  refine ⟨broker₀, hdeliver₀, ?_⟩
  have hattempts : s₀.attempts = s.attempts := by
    rw [h.rest]
    rfl
  unfold launch.receive
  cases message.body with
  | envelope env =>
    refine ⟨?_, spent, hcovers'⟩
    rw [hattempts, h.rest]
    rfl
  | poison bytes =>
    refine ⟨?_, spent, hcovers'⟩
    rw [h.rest]
    rfl

/-- What is launched in the first world is launched in the second, without the check. -/
theorem Behind.launch (h : Behind s s₀) (foreign : Publication → Bool) (hfiled : s.broker.Filed)
    {launched : Launch}
    {program : Proc Unit} (hlaunch : launch cfg thread launched s = some (program, s')) :
    ∃ program₀ s₀', Orchestrator.launch cfg.withoutFirstLine thread launched s₀ =
      some (program₀, s₀') ∧ Behind s' s₀' ∧ MatchesAt cfg foreign s' program program₀ := by
  cases launched with
  | start =>
    obtain ⟨rfl, rfl⟩ := Prod.mk.inj (Option.some.inj hlaunch)
    exact ⟨_, s₀, rfl, h, matches_refl (plain_perform rfl)⟩
  | drainOnce =>
    obtain ⟨rfl, rfl⟩ := Prod.mk.inj (Option.some.inj hlaunch)
    exact ⟨_, s₀, rfl, h, matches_refl (plain_drainOnce.bind fun _ ↦ trivial)⟩
  | replayDlq limit =>
    obtain ⟨rfl, rfl⟩ := Prod.mk.inj (Option.some.inj hlaunch)
    exact ⟨_, s₀, rfl, h, matches_refl ((plain_replayDlq limit).bind fun _ ↦ trivial)⟩
  | onPlaced number =>
    obtain ⟨⟨message, broker⟩, hdeliver, hresult⟩ := Option.map_eq_some_iff.mp hlaunch
    obtain ⟨rfl, rfl⟩ := Prod.mk.inj hresult
    obtain ⟨broker₀, hdeliver₀, hbehind⟩ := h.receive hdeliver
    exact ⟨_, _, Option.map_eq_some_iff.mpr ⟨_, hdeliver₀, rfl⟩, hbehind,
      matches_refl (plain_onPlaced message)⟩
  | onAdvance number =>
    obtain ⟨⟨message, broker⟩, hdeliver, hresult⟩ := Option.map_eq_some_iff.mp hlaunch
    obtain ⟨rfl, rfl⟩ := Prod.mk.inj hresult
    obtain ⟨broker₀, hdeliver₀, hbehind⟩ := h.receive hdeliver
    obtain ⟨hmoves, copy, hcopy, -, hnumber, hbody⟩ := Broker.deliver_cases hdeliver
    obtain ⟨publication, hlogged, hfiledbody⟩ := hfiled copy hcopy
    have hlog : (launch.receive thread message broker s).broker.log = s.broker.log := by
      unfold launch.receive
      cases message.body <;> exact hmoves.log
    have hat : (launch.receive thread message broker s).broker.log[message.number]? =
        some publication := by
      rw [hlog, hnumber]
      exact hlogged
    exact ⟨_, _, Option.map_eq_some_iff.mpr ⟨_, hdeliver₀, rfl⟩, hbehind,
      matches_onAdvance hat (hfiledbody.trans hbody.symm)⟩

/-- What happens beside the handlers happens in the second world too, or is about a message that was
acked on the fast path. -/
theorem Behind.ambient (h : Behind s s₀) (hfiled : s.broker.Filed) {act : Ambient D}
    (hambient : ambient foreign act s = some s')
    (hgrows : s.db.committed.Grows s'.db.committed) :
    (∃ s₀', Orchestrator.ambient foreign act s₀ = some s₀' ∧ Behind s' s₀') ∨ Behind s' s₀ := by
  obtain ⟨spent, hcovers⟩ := h.broker
  cases act with
  | abort aborted =>
    obtain rfl := Option.some.inj hambient
    refine Or.inl ⟨_, rfl, ?_, spent, hcovers.mono hgrows⟩
    rw [h.rest]
    rfl
  | expire number =>
    obtain rfl := Option.some.inj hambient
    by_cases hnumber : number ∈ spent
    · refine Or.inr (h.settle_left ⟨spent, ?_⟩)
      rw [Broker.expire, hcovers.move_spent Covers.readyIn_number hnumber]
      exact hcovers
    · exact Or.inl ⟨_, rfl,
        h.settle ⟨spent, hcovers.move Covers.readyIn_number (fun _ ↦ rfl) hnumber⟩⟩
  | requeue number consumer =>
    obtain rfl := Option.some.inj hambient
    rcases h.requeue number consumer with hboth | hleft
    · exact Or.inl ⟨_, rfl, hboth⟩
    · exact Or.inr hleft
  | publish publication =>
    simp only [Orchestrator.ambient] at hambient
    split at hambient
    · rename_i hallowed
      obtain rfl := Option.some.inj hambient
      exact Or.inl ⟨_, if_pos hallowed,
        h.settle ⟨spent, hcovers.publish hfiled publication⟩⟩
    · cases hambient
  | downstream act =>
    obtain ⟨downstream, hact, rfl⟩ := Option.map_eq_some_iff.mp hambient
    have hsame : s₀.downstream = s.downstream := by
      rw [h.rest]
      rfl
    refine Or.inl ⟨{ s₀ with downstream := downstream }, ?_, ?_, spent, hcovers⟩
    · show (D.act act s₀.downstream).map _ = _
      rw [hsame, hact]
      rfl
    · rw [h.rest]
      rfl
  | tick microseconds =>
    obtain rfl := Option.some.inj hambient
    refine Or.inl ⟨_, rfl, ?_, spent, hcovers⟩
    rw [h.rest]
    rfl

/-- The world without the check follows the one with it, thread by thread. -/
structure Follows (w : World (orchestrator cfg D foreign))
    (w₀ : World (orchestrator cfg.withoutFirstLine D foreign)) : Prop where
  holds : (discipline (Setting.bare cfg D foreign)).Holds w
  next : w₀.next = w.next
  behind : Behind (D := D) w.shared w₀.shared
  threads : ∀ thread program, w.threads thread = some program →
    ∃ program₀, w₀.threads thread = some program₀ ∧
      MatchesAt (D := D) cfg foreign w.shared program program₀

variable {w w' : World (orchestrator cfg D foreign)}
  {w₀ : World (orchestrator cfg.withoutFirstLine D foreign)}

theorem follows_initial : Follows (World.initial (orchestrator cfg D foreign))
    (World.initial (orchestrator cfg.withoutFirstLine D foreign)) where
  holds := Discipline.holds_initial (verified (Setting.bare cfg D foreign))
  next := Eq.trans (b := 0) rfl rfl
  behind := by
    have hstart : Behind (D := D) ⟨.start .empty, 0, 0, .empty, fun _ ↦ 0, D.start, 0, fun _ ↦ 0⟩
        ⟨.start .empty, 0, 0, .empty, fun _ ↦ 0, D.start, 0, fun _ ↦ 0⟩ := by
      refine ⟨rfl, [], rfl, rfl, rfl, ?_, ?_, List.nodup_nil⟩
      · intro number hnumber
        cases hnumber
      · intro copy hcopy
        cases hcopy
    exact hstart
  threads _ _ h := by cases h

/-- What an action adds to the tables and to the log stays. -/
theorem Follows.grows (h : Follows w w₀) {action : Action (orchestrator cfg D foreign)}
    (hact : w.act action = some w') : Grows (Setting.bare cfg D foreign) w.shared w'.shared :=
  (h.holds.act_rely (verified (Setting.bare cfg D foreign)) (permitted_bare w action) hact
    (Nat.le_refl w'.next)).toGrows

/-- What the second world has to show after a step of the first. -/
theorem Follows.stepped (h : Follows w w₀) {thread : ℕ} {s' : Shared D} {program : Proc Unit}
    (hholds : (discipline (Setting.bare cfg D foreign)).Holds
      ⟨s', Function.update w.threads thread (some program), w.next⟩)
    (hgrows : Grows (Setting.bare cfg D foreign) w.shared s') {s₀' : Shared D}
    {program₀ : Proc Unit} (hbehind : Behind s' s₀')
    (hmatches : MatchesAt cfg foreign s' program program₀) :
    Follows
      (⟨s', Function.update w.threads thread (some program), w.next⟩ :
        World (orchestrator cfg D foreign))
      (⟨s₀', Function.update w₀.threads thread (some program₀), w₀.next⟩ :
        World (orchestrator cfg.withoutFirstLine D foreign)) where
  holds := hholds
  next := h.next
  behind := hbehind
  threads other program' hother := by
    replace hother : Function.update w.threads thread (some program) other = some program' := hother
    by_cases hne : other = thread
    · subst hne
      rw [Function.update_self] at hother
      obtain rfl := Option.some.inj hother
      exact ⟨program₀, Function.update_self .., hmatches⟩
    · rw [Function.update_of_ne hne] at hother
      obtain ⟨program₀', hprogram₀', hsame⟩ := h.threads other program' hother
      refine ⟨program₀', ?_, hsame.mono hgrows.log hgrows.db⟩
      show Function.update w₀.threads thread (some program₀) other = some program₀'
      rw [Function.update_of_ne hne]
      exact hprogram₀'

/-- The second world need not do anything. -/
theorem Follows.stays (h : Follows w w₀) {thread : ℕ} {s' : Shared D} {program program₀ : Proc Unit}
    (hthread₀ : w₀.threads thread = some program₀)
    (hholds : (discipline (Setting.bare cfg D foreign)).Holds
      ⟨s', Function.update w.threads thread (some program), w.next⟩)
    (hgrows : Grows (Setting.bare cfg D foreign) w.shared s') (hbehind : Behind s' w₀.shared)
    (hmatches : MatchesAt cfg foreign w.shared program program₀) :
    Follows (⟨s', Function.update w.threads thread (some program), w.next⟩ :
      World (orchestrator cfg D foreign)) w₀ := by
  have hstepped := h.stepped hholds hgrows hbehind (hmatches.mono hgrows.log hgrows.db)
  rw [← hthread₀, Function.update_eq_self] at hstepped
  exact hstepped

/-- A thread of the second world that has been brought to another matching point. -/
theorem Follows.moved (h : Follows w w₀) {thread : ℕ} {program program₁ : Proc Unit}
    (hthread : w.threads thread = some program)
    (hmatches : MatchesAt (D := D) cfg foreign w.shared program program₁) :
    Follows w { w₀ with threads := Function.update w₀.threads thread (some program₁) } where
  holds := h.holds
  next := h.next
  behind := h.behind
  threads other program' hother := by
    by_cases hne : other = thread
    · subst hne
      obtain rfl := Option.some.inj (hthread.symm.trans hother)
      exact ⟨program₁, Function.update_self .., hmatches⟩
    · obtain ⟨program₀', hprogram₀', hsame⟩ := h.threads other program' hother
      refine ⟨program₀', ?_, hsame⟩
      show Function.update w₀.threads thread (some program₁) other = some program₀'
      rw [Function.update_of_ne hne]
      exact hprogram₀'

/-- The tables. -/
def tables (s : Shared D) : Db := s.db.committed

/-- A step of a thread is matched: by the same step, or on the fast path by no step at all, or by
giving up when the ack of the fast path has failed. -/
theorem Follows.step_of_matches {thread : ℕ} {program program₀ : Proc Unit}
    (hmatches : MatchesAt (D := D) cfg foreign w.shared program program₀) :
    ∀ {w₀ : World (orchestrator cfg.withoutFirstLine D foreign)}, Follows w w₀ →
      w.threads thread = some program → w₀.threads thread = some program₀ →
      ∀ {effect : Effect} {resume : Except Failure effect.Result → Proc Unit} {choice : Choice}
        {reply : Except Failure effect.Result} {s' : Shared D},
        program = .perform effect resume →
        exec (D := D) thread effect choice w.shared = some (reply, s') →
        (discipline (Setting.bare cfg D foreign)).Holds
          ⟨s', Function.update w.threads thread (some (resume reply)), w.next⟩ →
        Grows (Setting.bare cfg D foreign) w.shared s' →
        ∃ w₀', World.Weakly (tables (D := D)) w₀ w₀' ∧
          Follows (⟨s', Function.update w.threads thread (some (resume reply)), w.next⟩ :
            World (orchestrator cfg D foreign)) w₀' := by
  induction hmatches with
  | finished value program₀ =>
    intro w₀ h hthread hthread₀ effect resume choice reply s' hprogram
    cases hprogram
  | failed error error₀ =>
    intro w₀ h hthread hthread₀ effect resume choice reply s' hprogram
    cases hprogram
  | same effect' resume' resume₀ hplain hresume _ =>
    intro w₀ h hthread hthread₀ effect resume choice reply s' hprogram hexec hholds hgrows
    cases hprogram
    obtain ⟨choice₀, s₀', hexec₀, hbehind⟩ := h.behind.exec h.holds.inv.filed hexec hgrows.db
    exact ⟨_, .of_act (World.act_of_exec hthread₀ hexec₀),
      h.stepped hholds hgrows hbehind ((hresume reply).mono hgrows.log hgrows.db)⟩
  | redisGet key resume' program₀ hresume _ =>
    intro w₀ h hthread hthread₀ effect resume choice reply s' hprogram hexec hholds hgrows
    cases hprogram
    obtain rfl := (exec_silent rfl hexec).1
    exact ⟨w₀, .refl _ w₀, h.stays hthread₀ hholds hgrows h.behind (hresume reply)⟩
  | redisSet key resume' program₀ hresume _ =>
    intro w₀ h hthread hthread₀ effect resume choice reply s' hprogram hexec hholds hgrows
    cases hprogram
    obtain rfl := (exec_silent rfl hexec).1
    exact ⟨w₀, .refl _ w₀, h.stays hthread₀ hholds hgrows h.behind (hresume reply)⟩
  | confirm opId number resume' tail program₀ hnames hack hdone hfailed hresume _ _ =>
    intro w₀ h hthread hthread₀ effect resume choice reply s' hprogram hexec hholds hgrows
    cases hprogram
    obtain rfl := (exec_silent rfl hexec).1
    refine ⟨w₀, .refl _ w₀, h.stays hthread₀ hholds hgrows h.behind ?_⟩
    by_cases hreply : reply = .ok true
    · -- Postgres confirms: the order has left the state.
      have hexists : (Table.find OperationRow.opId opId w.shared.db.committed.operations).isSome =
          true := by
        cases choice with
        | done =>
          have hvalue := (Prod.mk.inj (Option.some.inj hexec)).1
          rw [hreply] at hvalue
          exact Except.ok.inj hvalue
        | lost text =>
          have hvalue := (Prod.mk.inj (Option.some.inj hexec)).1
          rw [hreply] at hvalue
          cases hvalue
        | _ => cases hexec
      rw [hreply, hack]
      exact .skip number tail program₀ (hnames.passed h.holds.inv.tables.ledger hexists) hdone
        hfailed
    · exact hresume reply hreply
  | skip number tail program₀ hpassed hdone hfailed _ =>
    intro w₀ h hthread hthread₀ effect resume choice reply s' hprogram hexec hholds hgrows
    cases hprogram
    refine ⟨w₀, .refl _ w₀, h.stays hthread₀ hholds hgrows (h.behind.skip hpassed hexec) ?_⟩
    cases reply with
    | ok value =>
      obtain ⟨result, hresult⟩ := hdone
      rw [hresult]
      exact .finished _ _
    | error error => exact hfailed error
  | quietly program program₀ program₁ hquietly hmatches ih =>
    intro w₀ h hthread hthread₀ effect resume choice reply s' hprogram hexec hholds hgrows
    have hsilent := World.silent_of_quietly (tables (D := D)) hquietly hthread₀
    obtain ⟨w₀', hweakly, hfollows⟩ := ih (h.moved hthread hmatches) hthread
      (Function.update_self ..) hprogram hexec hholds hgrows
    exact ⟨w₀', hweakly.after hsilent, hfollows⟩

/-- Every action of the world with the check is matched in the world without it. -/
theorem Follows.act (h : Follows w w₀) {action : Action (orchestrator cfg D foreign)}
    (hact : w.act action = some w') :
    ∃ w₀', World.Weakly (tables (D := D)) w₀ w₀' ∧ Follows w' w₀' := by
  have hholds := h.holds.act (verified (Setting.bare cfg D foreign)) (permitted_bare w action) hact
  have hgrows := h.grows hact
  cases action with
  | launch launched =>
    obtain ⟨program, s', hlaunch, rfl⟩ := World.act_launch hact
    obtain ⟨program₀, s₀', hlaunch₀, hbehind, hmatches⟩ :=
      h.behind.launch foreign h.holds.inv.filed hlaunch
    rw [← h.next] at hlaunch₀
    refine ⟨_, .of_act (World.act_of_launch hlaunch₀), hholds, congrArg (· + 1) h.next, hbehind, ?_⟩
    intro thread other hother
    replace hother : Function.update w.threads w.next (some program) thread = some other := hother
    show ∃ other₀, Function.update w₀.threads w₀.next (some program₀) thread = some other₀ ∧ _
    rw [h.next]
    by_cases hthread : thread = w.next
    · subst hthread
      rw [Function.update_self] at hother
      obtain rfl := Option.some.inj hother
      exact ⟨program₀, Function.update_self .., hmatches⟩
    · rw [Function.update_of_ne hthread] at hother
      obtain ⟨other₀, hother₀, hsame⟩ := h.threads thread other hother
      exact ⟨other₀, (Function.update_of_ne hthread _ _).trans hother₀,
        hsame.mono hgrows.log hgrows.db⟩
  | step thread choice =>
    obtain ⟨effect, resume, reply, s', hthread, hexec, rfl⟩ := World.act_step hact
    obtain ⟨program₀, hthread₀, hmatches⟩ := h.threads thread _ hthread
    exact Follows.step_of_matches hmatches h hthread hthread₀ rfl hexec hholds hgrows
  | kill thread =>
    obtain rfl := World.act_kill hact
    refine ⟨w₀, .refl _ w₀, hholds, h.next, h.behind, fun other program hother ↦ ?_⟩
    exact h.threads other program (World.threads_of_kill hother)
  | ambient act =>
    obtain ⟨s', hambient, rfl⟩ := World.act_ambient hact
    have hthreads : ∀ thread program, w.threads thread = some program →
        ∃ program₀, w₀.threads thread = some program₀ ∧
          MatchesAt (D := D) cfg foreign s' program program₀ := by
      intro thread program hthread
      obtain ⟨program₀, hthread₀, hmatches⟩ := h.threads thread program hthread
      exact ⟨program₀, hthread₀, hmatches.mono hgrows.log hgrows.db⟩
    rcases h.behind.ambient h.holds.inv.filed hambient hgrows.db with
      ⟨s₀', hambient₀, hbehind⟩ | hbehind
    · exact ⟨_, .of_act (World.act_of_ambient hambient₀), hholds, h.next, hbehind, hthreads⟩
    · exact ⟨w₀, .refl _ w₀, hholds, h.next, hbehind, hthreads⟩

/-! ### The fast path acks only what has been left -/

/-- The state is left for good, and no order with the id is in it again. -/
def LeftForGood (w : World (orchestrator cfg D foreign)) (orderId : String) (source : State) :
    Prop :=
  ∀ w', Relation.ReflTransGen (World.Step World.anyEffect) w w' →
    Left w'.shared.db.committed orderId source ∧
      ∀ row ∈ w'.shared.db.committed.orders, row.orderId = orderId → row.state ≠ source

/-- A handler that is about to confirm an operation which Postgres has will ack a message next, and
the order of that message has left for good the state that the message names. -/
def FastPathSafe (w : World (orchestrator cfg D foreign)) : Prop :=
  ∀ thread opId resume, w.threads thread = some (.perform (.operationExists opId) resume) →
    (Table.find OperationRow.opId opId w.shared.db.committed.operations).isSome = true →
      ∃ number tail publication env source, resume (.ok true) = .perform (.ack number) tail ∧
        w.shared.broker.log[number]? = some publication ∧ publication.body = .envelope env ∧
        env.data.fromState = some source.value ∧ LeftForGood w env.orderId source

/-- The second state has every message of the first, and beyond that only messages whose orders have
left the states they name. -/
def HoldsMore (s s₀ : Shared D) : Prop :=
  s₀.broker.log = s.broker.log ∧ (∀ copy ∈ s.broker.copies, copy ∈ s₀.broker.copies) ∧
    ∀ copy ∈ s₀.broker.copies, copy ∉ s.broker.copies →
      ∃ env source, copy.body = .envelope env ∧ env.data.fromState = some source.value ∧
        Left s.db.committed env.orderId source

/-- What is confirmed next is a step of the message that is acked then. -/
theorem Matches.acked {log : List Publication} {d : Db} {program program₀ : Proc Unit}
    (h : Matches cfg D foreign log d program program₀) {opId : String}
    {resume : Except Failure Bool → Proc Unit}
    (hprogram : program = .perform (.operationExists opId) resume) :
    ∃ number tail, Names log number opId ∧ resume (.ok true) = .perform (.ack number) tail := by
  induction h with
  | same effect resume' resume₀ hplain _ _ =>
    cases hprogram
    cases hplain
  | confirm opId' number resume' tail program₀ hnames hack _ _ _ _ _ =>
    cases hprogram
    exact ⟨number, tail, hnames, hack⟩
  | quietly program program₀ program₁ _ _ ih => exact ih hprogram
  | _ => cases hprogram

theorem Follows.leftForGood (h : Follows w w₀) {orderId : String} {source : State}
    (hleft : Left w.shared.db.committed orderId source) : LeftForGood w orderId source := by
  intro w' hrun
  have hpermitted : Relation.ReflTransGen
      (World.Step (discipline (Setting.bare cfg D foreign)).Permit) w w' :=
    Relation.ReflTransGen.mono
      (fun w _ ⟨action, _, hact⟩ ↦ ⟨action, permitted_bare w action, hact⟩) _ _ hrun
  obtain ⟨hholds, -, hrely⟩ := h.holds.run (verified (Setting.bare cfg D foreign)) hpermitted
  have hleft' : Left w'.shared.db.committed orderId source :=
    hleft.grows (hrely w'.next (Nat.le_refl _)).db
  refine ⟨hleft', fun row hrow horder hstate ↦ ?_⟩
  rw [← horder, ← hstate] at hleft'
  exact hholds.inv.tables.ledger.not_left hrow hleft'

theorem Follows.fastPathSafe (h : Follows w w₀) : FastPathSafe w := by
  intro thread opId resume hthread hexists
  obtain ⟨program₀, -, hmatches⟩ := h.threads thread _ hthread
  obtain ⟨number, tail, hnames, hack⟩ := hmatches.acked rfl
  obtain ⟨publication, env, source, hlogged, hbody, hfrom, hleft⟩ :=
    hnames.passed h.holds.inv.tables.ledger hexists
  exact ⟨number, tail, publication, env, source, hack, hlogged, hbody, hfrom, h.leftForGood hleft⟩

theorem Behind.holdsMore (h : Behind s s₀) (hfiled : s₀.broker.Filed) : HoldsMore s s₀ := by
  obtain ⟨spent, hcovers⟩ := h.broker
  refine ⟨hcovers.log, fun copy hcopy ↦ (hcovers.notMem_spent hcopy).1, fun copy hcopy hnot ↦ ?_⟩
  have hspent : copy.number ∈ spent := by
    by_contra hkept
    rw [hcovers.copies, List.mem_filter, decide_eq_true_eq] at hnot
    exact hnot ⟨hcopy, hkept⟩
  obtain ⟨publication, env, source, hlogged, hbody, hfrom, hleft⟩ := hcovers.passed _ hspent
  obtain ⟨filed, hfiledat, hsame⟩ := hfiled copy hcopy
  rw [hcovers.log, hlogged] at hfiledat
  obtain rfl := Option.some.inj hfiledat
  exact ⟨env, source, hsame.symm.trans hbody, hfrom, hleft⟩

/-- A second copy of the first command of the order. -/
def dinnerAgain : Publication :=
  ⟨none, .work, rkAdvance, .envelope
    { eventId := "d0", type := .advance, orderId := dinnerId, ts := "t"
      data := { fromState := some State.placed.value } }⟩

/-- Three handlers have the first command of the order in hand and have read its row. The first one
records the step, Redis says so to the others, the second one acks on the fast path, and the third
one is about to look into Postgres. -/
def skipping : List (Action (orchestrator {} .any fun _ ↦ true)) :=
  placing ++ [.ambient (.publish dinnerAgain), .ambient (.publish dinnerAgain),
    .launch (.onAdvance 1), .launch (.onAdvance 2), .launch (.onAdvance 3),
    .step 4 .done, .step 5 .done,
    .step 3 .done, .step 3 (.flag false), .step 3 (.flag true), .step 3 .done,
    .step 3 (.response ⟨200, some {}, none⟩), .step 3 .done, .step 3 .done, .step 3 .done,
    .step 3 .done, .step 3 .done, .step 3 .done, .step 3 (.stamp ⟨"e2", "t"⟩), .step 3 .done,
    .step 3 (.stamp ⟨"e3", "t"⟩), .step 3 .done, .step 3 .done, .step 3 .done, .step 3 .done,
    .step 4 (.flag true), .step 4 .done, .step 4 .done, .step 5 (.flag true)]

def skippedWorld : World (orchestrator {} .any fun _ ↦ true) :=
  ((World.initial _).run skipping).get (by decide +kernel)

/-- The thread is about to look for a recorded operation. -/
def isConfirming (w : World (orchestrator cfg D foreign)) (thread : ℕ) : Bool :=
  match w.threads thread with
  | some (.perform effect _) => Effect.confirms effect
  | _ => false

end DinnerRush.Orchestrator
