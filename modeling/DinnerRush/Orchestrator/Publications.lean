import DinnerRush.Concurrency.History
import DinnerRush.Orchestrator.Composition
import DinnerRush.Orchestrator.Lifecycle
import DinnerRush.Orchestrator.Sequencing

/-!
# What is published, and in which order

The relay publishes the rows of the outbox in the order of their ids, and starts again with the
first row not stamped when a round fails. The ids of the rows of one order are in the order of its
steps (`Sequencing`), so what the relay publishes of an order is, too (`Relaying`). Rounds of the
relay may fail at any point, be killed, or have their transaction aborted; what is asked of a run is
that when a round polls, the transaction of every other round is over, as `SKIP LOCKED` passes over
what an open transaction holds (`oneRelay`).

Here is what one effect of a thread does to this (`respects_performed`, `orderly_of_exec`), and that
the effects of a handler keep it; its transactions and the rounds of the relay are in `EventOrder`.
-/

set_option autoImplicit false
set_option relaxedAutoImplicit false

namespace DinnerRush.Orchestrator

open Concurrency Discipline World

variable {cfg : Config} {D : Downstreams} {foreign : Publication → Bool} {thread : ℕ}

/-! ### What was published -/

/-- The effect took place, whether or not an error was raised. -/
def Choice.tookPlace : Choice → Bool
  | done => true
  | unconfirmed _ => true
  | _ => false

/-- The publication that the effect is, if it is one that took place. -/
def publicationOf (thread : ℕ) (effect : Effect) (choice : Choice) : Option Publication :=
  match effect with
  | .publish exchange routingKey body =>
    if choice.tookPlace then some ⟨some thread, exchange, routingKey, body⟩ else none
  | _ => none

def publicationAt (event : Event (orchestrator cfg D foreign)) : Option Publication :=
  publicationOf event.thread event.effect event.choice

/-- What the threads have published, in the order of the publications. -/
def publications (h : History (orchestrator cfg D foreign)) : List Publication :=
  h.events.filterMap publicationAt

/-- The thread is a round of the relay. -/
def IsRound (h : History (orchestrator cfg D foreign)) (thread : ℕ) : Prop :=
  h.launches thread = some .drainOnce

def FromRelay (h : History (orchestrator cfg D foreign)) (publication : Publication) : Prop :=
  ∃ thread, publication.publisher = some thread ∧ IsRound h thread

/-- The publication is that of a row of the outbox. -/
structure Carries (publication : Publication) (row : OutboxRow) : Prop where
  exchange : publication.exchange = row.exchange
  routingKey : publication.routingKey = row.routingKey
  body : publication.body = .envelope row.payload

/-- The relay has published the row. -/
def Relayed (h : History (orchestrator cfg D foreign)) (row : OutboxRow) : Prop :=
  ∃ publication ∈ publications h, FromRelay h publication ∧ Carries publication row

theorem publications_performed (h : History (orchestrator cfg D foreign)) (thread : ℕ)
    (effect : Effect) (choice : Choice) : publications (h.performed thread effect choice) =
      publications h ++ (publicationOf thread effect choice).toList := by
  have hlast : [(⟨thread, effect, choice⟩ : Event (orchestrator cfg D foreign))].filterMap
      publicationAt = (publicationOf thread effect choice).toList := by
    have hevent : publicationAt (⟨thread, effect, choice⟩ : Event (orchestrator cfg D foreign)) =
        publicationOf thread effect choice := rfl
    rw [List.filterMap_cons, hevent]
    cases publicationOf thread effect choice <;> rfl
  rw [← hlast]
  exact List.filterMap_append

/-- What is published under the name of the thread is what its effect publishes. -/
theorem publicationOf_eq_some {effect : Effect} {choice : Choice} {publication : Publication}
    (h : publicationOf thread effect choice = some publication) :
    publication.publisher = some thread ∧
      effect = .publish publication.exchange publication.routingKey publication.body := by
  unfold publicationOf at h
  split at h
  · split at h
    · obtain rfl := Option.some.inj h
      exact ⟨rfl, rfl⟩
    · cases h
  · cases h

/-! ### The discipline -/

/-- The history goes on: what was launched and published stays. -/
structure GoesOn (h h' : History (orchestrator cfg D foreign)) : Prop where
  launches : ∀ thread launched, h.launches thread = some launched →
    h'.launches thread = some launched
  publications : publications h <+: publications h'

section GoesOn

variable {h h' : History (orchestrator cfg D foreign)}

theorem goesOn_performed (h : History (orchestrator cfg D foreign)) (thread : ℕ) (effect : Effect)
    (choice : Choice) : GoesOn h (h.performed thread effect choice) where
  launches _ _ hlaunched := hlaunched
  publications := by
    rw [publications_performed]
    exact List.prefix_append _ _

theorem goesOn_launched {h : History (orchestrator cfg D foreign)}
    (hfresh : h.launches thread = none) (started : Launch) :
    GoesOn h (h.launched thread started) where
  launches other launched hlaunched := by
    have hne : other ≠ thread := by
      rintro rfl
      rw [hfresh] at hlaunched
      cases hlaunched
    exact (History.launches_launched_of_ne h hne started).trans hlaunched
  publications := List.prefix_rfl

theorem GoesOn.refl (h : History (orchestrator cfg D foreign)) : GoesOn h h :=
  ⟨fun _ _ hlaunched ↦ hlaunched, List.prefix_rfl⟩

theorem GoesOn.trans {h'' : History (orchestrator cfg D foreign)} (hon : GoesOn h h')
    (hon' : GoesOn h' h'') : GoesOn h h'' where
  launches thread launched hlaunched :=
    hon'.launches thread launched (hon.launches thread launched hlaunched)
  publications := hon.publications.trans hon'.publications

theorem GoesOn.fromRelay (hon : GoesOn h h') {publication : Publication}
    (hrelay : FromRelay h publication) : FromRelay h' publication := by
  obtain ⟨thread, hpublisher, hround⟩ := hrelay
  exact ⟨thread, hpublisher, hon.launches thread _ hround⟩

theorem GoesOn.sent (hon : GoesOn h h') {row : OutboxRow} (hsent : Relayed h row) :
    Relayed h' row := by
  obtain ⟨publication, hmem, hrelay, hcarries⟩ := hsent
  exact ⟨publication, hon.publications.subset hmem, hon.fromRelay hrelay, hcarries⟩

end GoesOn

/-- The outbox goes on: rows are appended, above what there is of their orders. -/
structure Appends (db db' : Store) : Prop where
  entries : db.committed.entries <+: db'.committed.entries
  earlier : ∀ entry ∈ db.committed.entries, ∀ other ∈ db'.committed.entries, Alike other entry →
    other.id < entry.id → other ∈ db.committed.entries

theorem Appends.refl (db : Store) : Appends db db :=
  ⟨List.prefix_rfl, fun _ _ _ hother _ _ ↦ hother⟩

theorem Appends.trans {db db' db'' : Store} (h : Appends db db') (h' : Appends db' db'') :
    Appends db db'' where
  entries := h.entries.trans h'.entries
  earlier entry hentry other hother halike hlt :=
    h.earlier entry hentry other
      (h'.earlier entry (h.entries.subset hentry) other hother halike hlt)
      halike hlt

theorem appends_of_committed {db db' : Store} (h : db'.committed = db.committed) :
    Appends db db' := by
  have hrefl := Appends.refl db
  constructor
  · rw [h]
  · rw [h]
    exact hrefl.earlier

/-- What a round published of an order before a row of it. -/
def SentBefore (h : History (orchestrator cfg D foreign)) (d : Db) (j : ℕ) (entry : OutboxRow) :
    Prop :=
  ∀ earlier ∈ d.entries, Alike earlier entry → earlier.id < entry.id →
    ∃ i < j, ∃ before, (publications h)[i]? = some before ∧ FromRelay h before ∧
      Carries before earlier

variable {s s' : Recorded (orchestrator cfg D foreign)} {now : Shared D}

/-- Only the relay publishes events, and it publishes the rows of an order in the order of their
ids. -/
structure Relaying (s : Recorded (orchestrator cfg D foreign)) : Prop where
  sequencing : Sequencing (IsRound s.history) (Relayed s.history) s.now.db s.now.outboxSeq
  acted : ∀ thread, s.now.db.pending thread ≠ none →
    ∃ event ∈ s.history.events, event.thread = thread
  launched : ∀ event ∈ s.history.events, s.history.launches event.thread ≠ none
  events : ∀ publication ∈ publications s.history, publication.exchange = .events →
    FromRelay s.history publication
  inOrder : ∀ j publication, (publications s.history)[j]? = some publication →
    FromRelay s.history publication → ∃ entry ∈ s.now.db.committed.entries,
      Carries publication entry ∧ SentBefore s.history s.now.db.committed j entry

/-- Locks that guard nothing: all that is relied on is that they are held. -/
def holding : Guarding Db Key Write where
  apply := Db.apply
  Touches _ _ := False
  Same _ _ _ := True
  same_refl _ _ := trivial
  same_trans _ _ _ _ _ _ := trivial
  same_apply _ _ _ _ := trivial

/-- A thread keeps its launch and its transaction, and the outbox and the history go on. -/
structure Continues (thread : ℕ) (s s' : Recorded (orchestrator cfg D foreign)) : Prop where
  launch : s'.history.launches thread = s.history.launches thread
  kept : s.now.db.Kept holding thread s'.now.db
  appends : Appends s.now.db s'.now.db
  goesOn : GoesOn s.history s'.history

/-- A round of the relay reads the outbox. -/
def Effect.polls : Effect → Bool
  | selectUnpublished _ => true
  | _ => false

/-- When a round of the relay polls, the transaction of every other round that has acted is over. -/
def oneRelay : Permit (orchestrator cfg D foreign).recorded :=
  fun thread effect _ s ↦ Effect.polls effect = true →
    ∀ event ∈ History.events (Recorded.history s), event.thread ≠ thread →
      IsRound (Recorded.history s) event.thread →
        (Recorded.now s).db.pending event.thread = none

instance (h : History (orchestrator cfg D foreign)) (thread : ℕ) : Decidable (IsRound h thread) :=
  (inferInstance : DecidableEq (Option Launch)) (h.launches thread) (some .drainOnce)

instance (thread : ℕ) (effect : signature.Effect)
    (choice : (orchestrator cfg D foreign).recorded.Choice)
    (s : (orchestrator cfg D foreign).recorded.Shared) :
    Decidable (oneRelay thread effect choice s) :=
  inferInstanceAs (Decidable (_ → _))

/-- The ids of the outbox are drawn, and no two rows share one. -/
structure Drawn (s : Shared D) : Prop where
  unique : Table.Unique OutboxRow.id s.db.committed.outbox
  drawn : ∀ row ∈ s.db.committed.outbox, row.id < s.outboxSeq
  locks : ∀ id thread, s.db.owner (.outbox id) = some thread → id < s.outboxSeq

def relaying (cfg : Config) (D : Downstreams) (foreign : Publication → Bool) :
    Discipline (orchestrator cfg D foreign).recorded where
  Permit thread effect choice s :=
    oneRelay thread effect choice s ∧ Drawn (D := D) (Recorded.now s)
  Inv := Relaying
  Rely := Continues
  Fresh thread s := History.launches (Recorded.history s) thread = none
  Post _ _ _ := True
  rely_refl _ _ := ⟨rfl, Transactions.Kept.refl _ _, Appends.refl _, .refl _⟩
  rely_trans _ _ _ _ h h' :=
    ⟨h'.launch.trans h.launch, h.kept.trans h'.kept, h.appends.trans h'.appends,
      h.goesOn.trans h'.goesOn⟩
  fresh_rely _ _ _ hrely hfresh := hrely.launch.trans hfresh

/-! ### One effect of a thread -/

/-- The row may be published next: all before it of its order was. -/
def Ready (s : Recorded (orchestrator cfg D foreign)) (publication : Publication) : Prop :=
  ∃ entry ∈ s.now.db.committed.entries, Carries publication entry ∧
    ∀ earlier ∈ s.now.db.committed.entries, Alike earlier entry → earlier.id < entry.id →
      Relayed s.history earlier

theorem Relaying.performed (hinv : Relaying s) {effect : Effect} {choice : Choice}
    (hlaunched : s.history.launches thread ≠ none)
    (hround : ∀ publication, publicationOf thread effect choice = some publication →
      IsRound s.history thread → Ready s publication)
    (hother : ∀ publication, publicationOf thread effect choice = some publication →
      publication.exchange = .events → IsRound s.history thread)
    (hsequencing : Sequencing (IsRound s.history) (Relayed s.history) now.db now.outboxSeq)
    (hkept : ∀ other, other ≠ thread → s.now.db.Kept holding other now.db)
    (happends : Appends s.now.db now.db) :
    Relaying (⟨now, s.history.performed thread effect choice⟩ :
      Recorded (orchestrator cfg D foreign)) := by
  have hon : GoesOn s.history (s.history.performed thread effect choice) :=
    goesOn_performed s.history thread effect choice
  have hpublications := publications_performed s.history thread effect choice
  constructor
  case sequencing =>
    exact hsequencing.mono (fun _ h ↦ h) (fun _ hsent ↦ hon.sent hsent) (Nat.le_refl _)
  case acted =>
    intro other hopen
    by_cases hsame : other = thread
    · exact ⟨⟨thread, effect, choice⟩, List.mem_append_right _ List.mem_cons_self, hsame.symm⟩
    · rcases hkept other hsame with hnone | ⟨hpending, -⟩
      · exact absurd hnone hopen
      · have hbefore : s.now.db.pending other ≠ none := by
          rw [← hpending]
          exact hopen
        obtain ⟨event, hevent, hthread⟩ := hinv.acted other hbefore
        exact ⟨event, List.mem_append_left _ hevent, hthread⟩
  case launched =>
    intro event hevent
    rcases List.mem_append.mp hevent with hold | hnew
    · exact hinv.launched event hold
    · rw [List.mem_singleton.mp hnew]
      exact hlaunched
  case events =>
    intro publication hmem hevents
    rw [hpublications] at hmem
    rcases List.mem_append.mp hmem with hold | hnew
    · exact hon.fromRelay (hinv.events publication hold hevents)
    · have hpublication := Option.mem_toList.mp hnew
      exact ⟨thread, (publicationOf_eq_some hpublication).1,
        hother publication hpublication hevents⟩
  case inOrder =>
    intro j publication hj hrelay
    have hbefore : ∀ i before, (publications s.history)[i]? = some before →
        (publications (s.history.performed thread effect choice))[i]? = some before :=
      fun i before hi ↦ Broker.logged_of_prefix hon.publications hi
    rw [hpublications] at hj
    by_cases hlt : j < (publications s.history).length
    · rw [List.getElem?_append_left hlt] at hj
      obtain ⟨entry, hentry, hcarries, hbefores⟩ := hinv.inOrder j publication hj hrelay
      refine ⟨entry, happends.entries.subset hentry, hcarries, fun earlier hearlier halike hid ↦ ?_⟩
      obtain ⟨i, hi, before, hat, hfrom, hcarried⟩ := hbefores earlier
        (happends.earlier entry hentry earlier hearlier halike hid) halike hid
      exact ⟨i, hi, before, hbefore i before hat, hon.fromRelay hfrom, hcarried⟩
    · -- The publication is the one made now.
      rw [List.getElem?_append_right (Nat.le_of_not_lt hlt)] at hj
      have hpublication := Option.mem_toList.mp (List.mem_of_getElem? hj)
      obtain ⟨publisher, hpublisher, hpublished⟩ := hrelay
      obtain rfl : thread = publisher :=
        Option.some.inj ((publicationOf_eq_some hpublication).1.symm.trans hpublisher)
      obtain ⟨entry, hentry, hcarries, hready⟩ := hround publication hpublication hpublished
      refine ⟨entry, happends.entries.subset hentry, hcarries, fun earlier hearlier halike hid ↦ ?_⟩
      obtain ⟨before, hmem, hfrom, hcarried⟩ := hready earlier
        (happends.earlier entry hentry earlier hearlier halike hid) halike hid
      obtain ⟨i, hi⟩ := List.mem_iff_getElem?.mp hmem
      have hbound := (List.getElem?_eq_some_iff.mp hi).1
      exact ⟨i, by omega, before, hbefore i before hi, hon.fromRelay hfrom, hcarried⟩

theorem respects_performed (hinv : Relaying s) {effect : Effect} {choice : Choice}
    (hlaunched : s.history.launches thread ≠ none)
    (hround : ∀ publication, publicationOf thread effect choice = some publication →
      IsRound s.history thread → Ready s publication)
    (hother : ∀ publication, publicationOf thread effect choice = some publication →
      publication.exchange = .events → IsRound s.history thread)
    (hsequencing : Sequencing (IsRound s.history) (Relayed s.history) now.db now.outboxSeq)
    (hkept : ∀ other, other ≠ thread → s.now.db.Kept holding other now.db)
    (happends : Appends s.now.db now.db) : (relaying cfg D foreign).Respects thread s
      ⟨now, s.history.performed thread effect choice⟩ :=
  ⟨hinv.performed hlaunched hround hother hsequencing hkept happends, fun other hne ↦
    ⟨rfl, hkept other hne, happends, goesOn_performed s.history thread effect choice⟩⟩

/-! ### What the effects do to the outbox -/

section Effects

variable {IsRelay : ℕ → Prop} {Sent : OutboxRow → Prop} {b b' : Shared D} {writes : List Write}

/-- The effect of the thread keeps the outbox in order, and leaves the other transactions alone. -/
structure Orderly (IsRelay : ℕ → Prop) (Sent : OutboxRow → Prop) (thread : ℕ) (b b' : Shared D) :
    Prop where
  sequencing : Sequencing IsRelay Sent b'.db b'.outboxSeq
  kept : ∀ other, other ≠ thread → b.db.Kept holding other b'.db
  appends : Appends b.db b'.db

theorem orderly_same (h : Sequencing IsRelay Sent b.db b.outboxSeq) (hdb : b'.db = b.db)
    (hseq : b'.outboxSeq = b.outboxSeq) : Orderly IsRelay Sent thread b b' where
  sequencing := by
    rw [hdb, hseq]
    exact h
  kept other _ := by
    rw [hdb]
    exact Transactions.Kept.refl other b.db
  appends := by
    rw [hdb]
    exact Appends.refl b.db

/-- A statement that locks a row of another table and adds a write about it. -/
theorem orderly_wrote (h : Sequencing IsRelay Sent b.db b.outboxSeq) (hin : b.inTransaction thread)
    {key : Key} (hfree : b.db.free thread key) (hkey : ∀ id, key ≠ .outbox id) {write : Write}
    (henqueue : ∀ row, write ≠ .enqueue row) (hstamp : ∀ ids, write ≠ .stamp ids) :
    Orderly IsRelay Sent thread b { b with db := wrote thread key write b.db } := by
  obtain ⟨writes, hpending⟩ := Option.isSome_iff_exists.mp hin
  have hopen : b.db.pending thread ≠ none := pending_of_inTransaction hin
  have hlocked := h.lock hfree hopen fun id hid ↦ absurd hid (hkey id)
  exact
    { sequencing := hlocked.write hpending
        ((hlocked.enqueuing thread writes hpending).other henqueue
          fun ids hids ↦ absurd hids (hstamp ids))
      kept := fun other hne ↦
        (Transactions.kept_lock hfree hne).trans (Transactions.kept_write hne)
      appends := appends_of_committed rfl }

theorem orderly_begin (h : Sequencing IsRelay Sent b.db b.outboxSeq) :
    Orderly IsRelay Sent thread b
      { b with db := b.db.begin thread, began := Function.update b.began thread b.clock } where
  sequencing := h.begin
  kept _ hne := Transactions.kept_begin hne
  appends := appends_of_committed rfl

theorem orderly_abort (h : Sequencing IsRelay Sent b.db b.outboxSeq) :
    Orderly IsRelay Sent thread b { b with db := b.db.abort thread } where
  sequencing := h.abort
  kept _ hne := Transactions.kept_abort hne
  appends := appends_of_committed rfl

theorem orderly_commit (h : Sequencing IsRelay Sent b.db b.outboxSeq) (hdrawn : Drawn b)
    (hin : b.inTransaction thread) :
    Orderly IsRelay Sent thread b { b with db := b.db.commit Db.apply thread } := by
  obtain ⟨writes, hpending⟩ := Option.isSome_iff_exists.mp hin
  have henqueuing := h.enqueuing thread writes hpending
  have hentries : (b.db.commit Db.apply thread).committed.entries =
      b.db.committed.entries ++ enqueued writes := by
    rw [← entries_foldl henqueuing.unpublished]
    exact congrArg Db.entries (view_of_pending hpending)
  refine ⟨h.commit hpending hdrawn.unique, fun other hne ↦ ?_, ?_, ?_⟩
  · exact @Transactions.kept_commit _ _ _ holding thread other b.db writes hne hpending
      fun _ _ _ htouches ↦ htouches.elim
  · rw [hentries]
    exact List.prefix_append _ _
  · intro entry hentry other hother halike hlt
    rw [hentries] at hother
    rcases List.mem_append.mp hother with hold | hnew
    · exact hold
    · exact absurd (henqueuing.later other hnew entry hentry halike.symm) (by omega)

/-- A row with the next id of the sequence, about an order that the thread has locked. -/
theorem orderly_enqueue (h : Sequencing IsRelay Sent b.db b.outboxSeq) (hdrawn : Drawn b)
    (hpending : b.db.pending thread = some writes) {row : OutboxRow} (hid : row.id = b.outboxSeq)
    (hunpublished : row.published = false)
    (horder : b.db.owner (.order row.payload.orderId) = some thread)
    (hcommand : row.payload.type = .advance →
      row.payload.data.fromState = some State.placed.value ∨
        ∃ event ∈ enqueued writes, Precedes event row) :
    Orderly IsRelay Sent thread b
      { b with db := wrote thread (.outbox row.id) (.enqueue row) b.db
               outboxSeq := b.outboxSeq + 1 } := by
  have hopen : b.db.pending thread ≠ none := by
    rw [hpending]
    nofun
  have hentries : ∀ entry ∈ b.db.committed.entries, entry.id < b.outboxSeq := by
    intro entry hentry
    obtain ⟨before, hbefore, rfl⟩ := List.mem_map.mp hentry
    exact hdrawn.drawn before hbefore
  have hfree : b.db.free thread (.outbox row.id) := by
    rw [Transactions.free, decide_eq_true_eq]
    cases howner : b.db.owner (.outbox row.id) with
    | none => exact Or.inl rfl
    | some other =>
      have hlt := hdrawn.locks _ other howner
      omega
  have hlocked := h.lock hfree hopen fun id hkey ↦ Or.inr fun entry hentry hsame ↦ by
    have hlt := hentries entry hentry
    obtain rfl := Key.outbox.inj hkey
    omega
  have henqueuing := (hlocked.enqueuing thread writes hpending).enqueue hid hunpublished
    (Sequencing.owner_lock hfree horder) (Function.update_self ..) hentries hcommand
  exact
    { sequencing := (hlocked.mono (fun _ h ↦ h) (fun _ h ↦ h) (Nat.le_succ _)).write hpending
        henqueuing
      kept := fun other hne ↦
        (Transactions.kept_lock hfree hne).trans (Transactions.kept_write hne)
      appends := appends_of_committed rfl }

/-- The effects that write no row of the outbox. -/
def Effect.leavesOutbox : Effect → Bool
  | enqueue _ _ _ => false
  | selectUnpublished _ => false
  | stamp _ => false
  | _ => true

theorem orderly_of_exec (h : Sequencing IsRelay Sent b.db b.outboxSeq) (hdrawn : Drawn b)
    {effect : Effect} {choice : Choice} {reply : Except Failure effect.Result}
    (hexec : exec thread effect choice b = some (reply, b'))
    (heffect : effect.leavesOutbox = true) : Orderly IsRelay Sent thread b b' := by
  cases hstatement : effect.isStatement with
  | false =>
    obtain ⟨hdb, hseq⟩ := db_of_exec hexec hstatement
    exact orderly_same h hdb hseq
  | true =>
    rcases statement_cases hstatement hexec with rfl | ⟨answer, hdone⟩
    · exact orderly_same h rfl rfl
    cases effect with
    | begin =>
      obtain ⟨-, rfl⟩ := Prod.mk.inj (Option.some.inj hdone)
      exact orderly_begin h
    | rollback =>
      obtain ⟨-, rfl⟩ := Prod.mk.inj (Option.some.inj hdone)
      exact orderly_abort h
    | commit =>
      simp only [exec] at hdone
      split at hdone
      · rename_i hin
        obtain ⟨-, rfl⟩ := Prod.mk.inj (Option.some.inj hdone)
        exact orderly_commit h hdrawn hin
      · cases hdone
    | insertOrder values =>
      obtain ⟨⟨inserted, s₁⟩, hinsert, hreply⟩ := Option.map_eq_some_iff.mp hdone
      obtain ⟨-, rfl⟩ := Prod.mk.inj hreply
      obtain ⟨hin, -, ⟨-, rfl, -⟩ | ⟨-, hfree, -, rfl⟩⟩ := insertOrder_cases hinsert
      · exact orderly_same h rfl rfl
      · exact orderly_wrote h hin hfree (fun _ hkey ↦ by cases hkey)
          (fun _ hwrite ↦ by cases hwrite)
          fun _ hwrite ↦ by cases hwrite
    | claimOperation row =>
      obtain ⟨⟨claimed, s₁⟩, hclaim, hreply⟩ := Option.map_eq_some_iff.mp hdone
      obtain ⟨-, rfl⟩ := Prod.mk.inj hreply
      obtain ⟨hin, ⟨-, rfl, -⟩ | ⟨-, hfree, rfl⟩⟩ := claimOperation_cases hclaim
      · exact orderly_same h rfl rfl
      · exact orderly_wrote h hin hfree (fun _ hkey ↦ by cases hkey)
          (fun _ hwrite ↦ by cases hwrite)
          fun _ hwrite ↦ by cases hwrite
    | updateState orderId target source =>
      obtain ⟨⟨updated, s₁⟩, hupdate, hreply⟩ := Option.map_eq_some_iff.mp hdone
      obtain ⟨-, rfl⟩ := Prod.mk.inj hreply
      obtain ⟨hin, ⟨-, rfl⟩ | ⟨-, hfree, -, rfl⟩⟩ := updateState_cases hupdate
      · exact orderly_same h rfl rfl
      · exact orderly_wrote h hin hfree (fun _ hkey ↦ by cases hkey)
          (fun _ hwrite ↦ by cases hwrite)
          fun _ hwrite ↦ by cases hwrite
    | insertTransition values =>
      obtain ⟨s₁, hinsert, hreply⟩ := Option.map_eq_some_iff.mp hdone
      obtain ⟨-, rfl⟩ := Prod.mk.inj hreply
      obtain ⟨hin, rfl⟩ := insertTransition_cases hinsert
      obtain ⟨writes, hpending⟩ := Option.isSome_iff_exists.mp hin
      exact
        { sequencing := h.write hpending ((h.enqueuing thread writes hpending).other
            (fun _ hwrite ↦ by cases hwrite) fun _ hwrite ↦ by cases hwrite)
          kept := fun other hne ↦ Transactions.kept_write hne
          appends := appends_of_committed rfl }
    | enqueue | selectUnpublished | stamp => cases heffect
    | _ => cases hstatement

end Effects

/-! ### The handlers -/

/-- The thread was launched as one of these. -/
def Playing (role : Launch → Prop) (thread : ℕ) (s : Recorded (orchestrator cfg D foreign)) :
    Prop :=
  ∃ launched, s.history.launches thread = some launched ∧ role launched

theorem Playing.rely {role : Launch → Prop} (h : Playing role thread s)
    (hrely : Continues thread s s') : Playing role thread s' := by
  obtain ⟨launched, hlaunched, hrole⟩ := h
  exact ⟨launched, hrely.launch.trans hlaunched, hrole⟩

theorem Playing.performed {role : Launch → Prop} (h : Playing role thread s) {other : ℕ}
    {effect : Effect} {choice : Choice} : Playing role thread
      (⟨now, s.history.performed other effect choice⟩ : Recorded (orchestrator cfg D foreign)) := h

theorem Playing.launched {role : Launch → Prop} (h : Playing role thread s) :
    s.history.launches thread ≠ none := by
  obtain ⟨launched, hlaunched, -⟩ := h
  rw [hlaunched]
  nofun

abbrev Keeps (cfg : Config) (D : Downstreams) (foreign : Publication → Bool)
    (role : Launch → Prop) (thread : ℕ) : ∀ β : Type, Proc β → Prop :=
  (relaying cfg D foreign).Maintains thread (Playing role thread)

/-- Not a round of the relay. -/
def aside (launched : Launch) : Prop := launched ≠ .drainOnce

theorem not_isRound (h : Playing aside thread s) : ¬ IsRound s.history thread := by
  obtain ⟨launched, hlaunched, haside⟩ := h
  intro hround
  exact haside (Option.some.inj (hlaunched.symm.trans hround))

/-- What a thread that is no round publishes is no event. -/
def Effect.announcesNothing : Effect → Bool
  | publish .events _ _ => false
  | _ => true

/-- An orderly effect of a thread that is no round. -/
theorem respects_aside (hinv : Relaying s) (hs : Playing aside thread s) {effect : Effect}
    {choice : Choice} (hannounces : effect.announcesNothing = true)
    (h : Orderly (IsRound s.history) (Relayed s.history) thread s.now now) :
    (relaying cfg D foreign).Respects thread s
      ⟨now, s.history.performed thread effect choice⟩ := by
  refine respects_performed hinv hs.launched (fun publication _ hround ↦ ?_)
    (fun publication hpublication hevents ↦ ?_) h.sequencing h.kept h.appends
  · exact absurd hround (not_isRound hs)
  · have heffect := (publicationOf_eq_some hpublication).2
    rw [heffect, hevents] at hannounces
    cases hannounces

theorem keeps_perform {effect : Effect} (hleaves : effect.leavesOutbox = true)
    (hannounces : effect.announcesNothing = true) :
    Keeps cfg D foreign aside thread effect.Result (perform effect) := by
  refine maintains_call (fun _ _ hrely h ↦ Playing.rely h hrely) ?_
  intro s choice reply s' hinv hs hpermit hexec
  obtain ⟨now, hnow, rfl⟩ := exec_recorded.mp hexec
  exact ⟨respects_aside hinv hs hannounces (orderly_of_exec hinv.sequencing hpermit.2 hnow hleaves),
    hs⟩

theorem upholds_keeps : Upholds (Keeps cfg D foreign aside thread) where
  closed := closed_maintains fun _ _ hrely h ↦ Playing.rely h hrely
  quiet effect hquiet := by
    refine keeps_perform ?_ ?_
    · cases effect <;> first | rfl | cases hquiet
    · cases effect <;> first | rfl | cases hquiet

theorem transacts_keeps : Transacts (Keeps cfg D foreign aside thread) :=
  ⟨keeps_perform rfl rfl, keeps_perform rfl rfl, keeps_perform rfl rfl⟩

end DinnerRush.Orchestrator
