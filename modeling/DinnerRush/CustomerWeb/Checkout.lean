import DinnerRush.Concurrency.Transitions
import DinnerRush.CustomerWeb.PlaceCart
import DinnerRush.Ingestion.Authorship
import Mathlib.Algebra.BigOperators.Group.List.Basic

/-!
# Checkout

Any number of calls of `placeCart` over the ingestion service, which may be in any state and serves
other requests as well. A call sends one POST for each restaurant of its cart and waits for all of
them. A POST may be lost on its way or without an answer, and it may reach ingestion after the call
has given up: `Promise.all` rejects with the first failure while the other POSTs go on.
-/

set_option autoImplicit false
set_option relaxedAutoImplicit false

namespace DinnerRush.CustomerWeb

open Concurrency
open Ingestion (orders_act launches_append launches_next)

/-- What a POST is to the call that sent it. -/
inductive Outcome
  | waiting
  | fulfilled
  | rejected
  deriving DecidableEq, Repr

/-- The POST for one restaurant, and the thread of ingestion that serves it. -/
structure Post where
  group : Group
  thread : Option ℕ
  outcome : Outcome
  deriving DecidableEq

/-- A call of `placeCart`. -/
structure Attempt where
  input : PlaceOrderInput
  cartKey : String
  posts : List Post
  placed : List TokenOrder
  totalCents : ℤ
  deriving DecidableEq

structure Storefront where
  ingestion : World Ingestion.service
  attempts : List Attempt

namespace Attempt

variable (attempt : Attempt)

/-- A call of `placeCart` up to its POSTs. -/
def start (input : PlaceOrderInput) (uuid : String) : Attempt where
  input := input
  cartKey := input.idempotencyKey.getD uuid
  posts := (byRestaurant input.items).map fun group ↦ ⟨group, none, .waiting⟩
  placed := []
  totalCents := 0

def request (post : Post) : OrderRequest :=
  post.group.request (customerIdOf attempt.input) attempt.cartKey

/-- The answer to a POST: a call takes 200 and 202. -/
def settle (number : ℕ) (post : Post) (response : Ingestion.Response) : Attempt :=
  if response.statusCode ≠ 200 ∧ response.statusCode ≠ 202 then
    { attempt with posts := attempt.posts.set number { post with outcome := .rejected } }
  else
    { attempt with
      posts := attempt.posts.set number { post with outcome := .fulfilled }
      placed := attempt.placed ++ [⟨response.orderId, post.group.restaurantId⟩]
      totalCents := attempt.totalCents + post.group.totalCents }

/-- A POST fails: the connection, or ingestion with an error. -/
def fail (number : ℕ) (post : Post) : Attempt :=
  { attempt with posts := attempt.posts.set number { post with outcome := .rejected } }

/-- What the token of the call says. -/
def token (platform : Platform) : CartToken :=
  ⟨attempt.input.headcount, sortPlaced platform attempt.placed⟩

/-- Every POST was answered, so the call returns. -/
def returns : Bool := attempt.posts.all fun post ↦ post.outcome = .fulfilled

/-- What the call returns. -/
def result (platform : Platform) : Option PlaceOrderResult :=
  if attempt.returns then
    some
      { orderId := encodeCart platform (attempt.token platform), status := "accepted"
        idempotencyKey := attempt.cartKey, duplicate := false, totalCents := attempt.totalCents }
  else none

end Attempt

namespace Storefront

inductive Action
  | ingestion (action : Concurrency.Action Ingestion.service)
  | place (input : PlaceOrderInput) (uuid : String)
  | deliver (attempt post : ℕ)
  | answer (attempt post : ℕ)
  | fail (attempt post : ℕ)

variable (s : Storefront)

def act : Action → Option Storefront
  | .ingestion action => (s.ingestion.act action).map fun w ↦ { s with ingestion := w }
  | .place input uuid =>
    if (Attempt.start input uuid).posts.isEmpty then none
    else some { s with attempts := s.attempts ++ [.start input uuid] }
  | .deliver number index => do
    let attempt ← s.attempts[number]?
    let post ← attempt.posts[index]?
    if post.thread.isNone then
      let w ← s.ingestion.act (.launch (.placeOrder (attempt.request post)))
      some ⟨w, s.attempts.set number { attempt with
        posts := attempt.posts.set index { post with thread := some s.ingestion.next } }⟩
    else none
  | .answer number index => do
    let attempt ← s.attempts[number]?
    let post ← attempt.posts[index]?
    let thread ← post.thread
    if post.outcome = .waiting then
      match s.ingestion.threads thread with
      | some (.ret (some response)) =>
        some { s with attempts := s.attempts.set number (attempt.settle index post response) }
      | some (.raise _) =>
        some { s with attempts := s.attempts.set number (attempt.fail index post) }
      | _ => none
    else none
  | .fail number index => do
    let attempt ← s.attempts[number]?
    let post ← attempt.posts[index]?
    if post.outcome = .waiting then
      some { s with attempts := s.attempts.set number (attempt.fail index post) }
    else none

end Storefront

/-- The storefront before any call. -/
def storefront : Transitions Storefront Storefront.Action where
  start := ⟨World.initial Ingestion.service, []⟩
  act := Storefront.act

/-! ### What one step does -/

section Steps

variable {s s' : Storefront} {number index : ℕ}

theorem Storefront.act_place {input : PlaceOrderInput} {uuid : String}
    (h : s.act (.place input uuid) = some s') :
    s' = { s with attempts := s.attempts ++ [.start input uuid] } := by
  change (if (Attempt.start input uuid).posts.isEmpty then none else some _) = some s' at h
  split at h
  · cases h
  · exact (Option.some.inj h).symm

theorem Storefront.act_deliver (h : s.act (.deliver number index) = some s') :
    ∃ attempt post w, s.attempts[number]? = some attempt ∧ attempt.posts[index]? = some post ∧
      s.ingestion.act (.launch (.placeOrder (attempt.request post))) = some w ∧
      s' = ⟨w, s.attempts.set number { attempt with
        posts := attempt.posts.set index { post with thread := some s.ingestion.next } }⟩ := by
  obtain ⟨attempt, hattempt, h⟩ := Option.bind_eq_some_iff.mp h
  obtain ⟨post, hpost, h⟩ := Option.bind_eq_some_iff.mp h
  split at h
  · obtain ⟨w, hw, h⟩ := Option.bind_eq_some_iff.mp h
    exact ⟨attempt, post, w, hattempt, hpost, hw, (Option.some.inj h).symm⟩
  · cases h

/-- A POST is answered with what its thread has returned, or its thread has raised. -/
theorem Storefront.act_answer (h : s.act (.answer number index) = some s') :
    ∃ attempt post thread, s.attempts[number]? = some attempt ∧
      attempt.posts[index]? = some post ∧ post.outcome = .waiting ∧ post.thread = some thread ∧
      ((∃ response, s.ingestion.threads thread = some (.ret (some response)) ∧
          s' = { s with attempts := s.attempts.set number (attempt.settle index post response) }) ∨
        s' = { s with attempts := s.attempts.set number (attempt.fail index post) }) := by
  obtain ⟨attempt, hattempt, h⟩ := Option.bind_eq_some_iff.mp h
  obtain ⟨post, hpost, h⟩ := Option.bind_eq_some_iff.mp h
  obtain ⟨thread, hthread, h⟩ := Option.bind_eq_some_iff.mp h
  split at h
  · rename_i hwaiting
    refine ⟨attempt, post, thread, hattempt, hpost, hwaiting, hthread, ?_⟩
    split at h
    · rename_i response hreturned
      exact Or.inl ⟨response, hreturned, (Option.some.inj h).symm⟩
    · exact Or.inr (Option.some.inj h).symm
    · cases h
  · cases h

theorem Storefront.act_fail (h : s.act (.fail number index) = some s') :
    ∃ attempt post, s.attempts[number]? = some attempt ∧ attempt.posts[index]? = some post ∧
      post.outcome = .waiting ∧
      s' = { s with attempts := s.attempts.set number (attempt.fail index post) } := by
  obtain ⟨attempt, hattempt, h⟩ := Option.bind_eq_some_iff.mp h
  obtain ⟨post, hpost, h⟩ := Option.bind_eq_some_iff.mp h
  split at h
  · rename_i hwaiting
    exact ⟨attempt, post, hattempt, hpost, hwaiting, (Option.some.inj h).symm⟩
  · cases h

end Steps

/-! ### What the calls know -/

/-- The groups whose POST was answered. -/
def Attempt.fulfilled (attempt : Attempt) : List Group :=
  (attempt.posts.filter fun post ↦ post.outcome = .fulfilled).map Post.group

/-- A call has a POST for each restaurant of its cart, which ingestion serves as it was sent; what
it has placed is stored under its keys, and it has added up what was answered. -/
structure Attempt.Sound (launches : List Ingestion.Launch) (orders : List Ingestion.OrderRow)
    (attempt : Attempt) : Prop where
  key : ∀ key, attempt.input.idempotencyKey = some key → attempt.cartKey = key
  groups : attempt.posts.map Post.group = byRestaurant attempt.input.items
  launched : ∀ post ∈ attempt.posts, ∀ thread, post.thread = some thread →
    launches[thread]? = some (.placeOrder (attempt.request post))
  served : ∀ post ∈ attempt.posts, post.outcome = .fulfilled → post.thread ≠ none
  placed : (attempt.placed.map TokenOrder.r).Perm (attempt.fulfilled.map Group.restaurantId)
  stored : ∀ order ∈ attempt.placed, ∃ row ∈ orders,
    row.idempotencyKey = derivedKey attempt.cartKey order.r ∧ row.orderId = order.id
  total : attempt.totalCents = (attempt.fulfilled.map Group.totalCents).sum

/-- Every call is sound over the launches of ingestion and the orders it holds. -/
def Storefront.Sound (s : Storefront) : Prop :=
  ∃ launches, World.Traced World.anyEffect launches s.ingestion ∧
    ∀ attempt ∈ s.attempts, attempt.Sound launches s.ingestion.shared.db.committed.orders

section Filter

variable {β : Type} {l : List Post} {post post' : Post} {index : ℕ} {kept : Post → Bool}

theorem perm_filter_set (hget : l[index]? = some post) (hpost : kept post = false)
    (hpost' : kept post' = true) :
    ((l.set index post').filter kept).Perm (post' :: l.filter kept) := by
  induction l generalizing index with
  | nil => cases hget
  | cons first rest ih =>
    cases index with
    | zero =>
      obtain rfl := Option.some.inj hget
      rw [List.set_cons_zero, List.filter_cons_of_pos hpost',
        List.filter_cons_of_neg (by rw [hpost]; exact Bool.false_ne_true)]
    | succ index =>
      rw [List.set_cons_succ]
      have hrest := ih hget
      by_cases hfirst : kept first = true
      · rw [List.filter_cons_of_pos hfirst, List.filter_cons_of_pos hfirst]
        exact (hrest.cons first).trans (List.Perm.swap post' first _)
      · rw [List.filter_cons_of_neg hfirst, List.filter_cons_of_neg hfirst]
        exact hrest

/-- A change that is not seen after the filter. -/
theorem map_filter_set {f : Post → β} (hget : l[index]? = some post)
    (hkept : kept post' = kept post) (hf : kept post = true → f post' = f post) :
    ((l.set index post').filter kept).map f = (l.filter kept).map f := by
  induction l generalizing index with
  | nil => cases hget
  | cons first rest ih =>
    cases index with
    | zero =>
      obtain rfl := Option.some.inj hget
      rw [List.set_cons_zero]
      by_cases hfirst : kept first = true
      · rw [List.filter_cons_of_pos hfirst, List.filter_cons_of_pos (hkept.trans hfirst),
          List.map_cons, List.map_cons, hf hfirst]
      · have hfirst' : ¬ kept post' = true := by rw [hkept]; exact hfirst
        rw [List.filter_cons_of_neg hfirst, List.filter_cons_of_neg hfirst']
    | succ index =>
      rw [List.set_cons_succ]
      have hrest := ih hget
      by_cases hfirst : kept first = true
      · rw [List.filter_cons_of_pos hfirst, List.filter_cons_of_pos hfirst, List.map_cons,
          List.map_cons, hrest]
      · rw [List.filter_cons_of_neg hfirst, List.filter_cons_of_neg hfirst]
        exact hrest

theorem map_set_of_eq {f : Post → β} (hget : l[index]? = some post) (hf : f post' = f post) :
    (l.set index post').map f = l.map f := by
  have hall : ((l.set index post').filter fun _ ↦ true).map f = (l.filter fun _ ↦ true).map f :=
    map_filter_set hget rfl fun _ ↦ hf
  rwa [List.filter_true, List.filter_true] at hall

end Filter

/-- Lists of keyed elements with the same keys are the same up to their order, if elements with the
same key are the same. -/
theorem perm_of_map {α κ : Type} {f : α → κ} {l l' : List α} (hperm : (l.map f).Perm (l'.map f))
    (hnodup : (l.map f).Nodup) (hsame : ∀ x ∈ l, ∀ y ∈ l', f x = f y → x = y) : l.Perm l' := by
  rw [List.perm_ext_iff_of_nodup hnodup.of_map (hperm.nodup_iff.mp hnodup).of_map]
  intro x
  constructor
  · intro hx
    obtain ⟨y, hy, hxy⟩ := List.mem_map.mp (hperm.mem_iff.mp (List.mem_map_of_mem hx))
    rw [hsame x hx y hy hxy.symm]
    exact hy
  · intro hx
    obtain ⟨y, hy, hxy⟩ := List.mem_map.mp (hperm.mem_iff.mpr (List.mem_map_of_mem hx))
    rw [← hsame y hy x hx hxy]
    exact hy

section Sound

variable {launches launches' : List Ingestion.Launch} {orders orders' : List Ingestion.OrderRow}
  {attempt : Attempt} {post post' : Post} {index : ℕ} {s s' : Storefront}

theorem Attempt.Sound.mono (h : attempt.Sound launches orders)
    (hlaunches : ∀ (thread : ℕ) launched, launches[thread]? = some launched →
      launches'[thread]? = some launched)
    (horders : ∀ row ∈ orders, row ∈ orders') : attempt.Sound launches' orders' where
  key := h.key
  groups := h.groups
  launched post hpost thread hthread := hlaunches thread _ (h.launched post hpost thread hthread)
  served := h.served
  placed := h.placed
  stored order horder := by
    obtain ⟨row, hrow, hkeys⟩ := h.stored order horder
    exact ⟨row, horders row hrow, hkeys⟩
  total := h.total

theorem Attempt.sound_start (input : PlaceOrderInput) (uuid : String) :
    (Attempt.start input uuid).Sound launches orders := by
  have hposts : ∀ post ∈ (Attempt.start input uuid).posts,
      post.thread = none ∧ post.outcome = .waiting := by
    intro post hpost
    obtain ⟨group, -, rfl⟩ := List.mem_map.mp hpost
    exact ⟨rfl, rfl⟩
  have hnone : (Attempt.start input uuid).fulfilled = [] := by
    rw [Attempt.fulfilled, List.map_eq_nil_iff, List.filter_eq_nil_iff]
    intro post hpost
    rw [(hposts post hpost).2]
    exact of_decide_eq_false rfl
  constructor
  · intro key hkey
    show input.idempotencyKey.getD uuid = key
    rw [show input.idempotencyKey = some key from hkey, Option.getD_some]
  · show ((byRestaurant input.items).map _).map Post.group = byRestaurant input.items
    rw [List.map_map]
    exact List.map_id _
  · intro post hpost thread hthread
    rw [(hposts post hpost).1] at hthread
    cases hthread
  · intro post hpost hfulfilled
    rw [(hposts post hpost).2] at hfulfilled
    cases hfulfilled
  · rw [hnone]
    exact .nil
  · exact nofun
  · rw [hnone]
    rfl

/-- A POST is replaced by one of the same group that is as much fulfilled as it. -/
theorem Attempt.Sound.set (h : attempt.Sound launches orders)
    (hpost : attempt.posts[index]? = some post) (hgroup : post'.group = post.group)
    (hkept : decide (post'.outcome = .fulfilled) = decide (post.outcome = .fulfilled))
    (hthread : ∀ thread, post'.thread = some thread →
      launches[thread]? = some (.placeOrder (attempt.request post)))
    (hserved : post'.outcome = .fulfilled → post'.thread ≠ none) :
    Attempt.Sound launches orders { attempt with posts := attempt.posts.set index post' } := by
  have hfulfilled : Attempt.fulfilled { attempt with posts := attempt.posts.set index post' } =
      attempt.fulfilled := map_filter_set hpost hkept fun _ ↦ hgroup
  constructor
  · exact h.key
  · exact (map_set_of_eq hpost hgroup).trans h.groups
  · intro other hother thread hother'
    rcases List.mem_or_eq_of_mem_set hother with hold | rfl
    · exact h.launched other hold thread hother'
    · rw [hthread thread hother', Attempt.request, Attempt.request, hgroup]
  · intro other hother houtcome
    rcases List.mem_or_eq_of_mem_set hother with hold | rfl
    · exact h.served other hold houtcome
    · exact hserved houtcome
  · rw [hfulfilled]
    exact h.placed
  · exact h.stored
  · rw [hfulfilled]
    exact h.total

theorem Attempt.Sound.fail (h : attempt.Sound launches orders)
    (hpost : attempt.posts[index]? = some post) (hwaiting : post.outcome = .waiting) :
    (attempt.fail index post).Sound launches orders := by
  refine h.set hpost rfl ?_ (h.launched post (List.mem_of_getElem? hpost)) nofun
  rw [hwaiting]
  rfl

/-- A POST is answered. -/
theorem Attempt.Sound.settle (h : attempt.Sound launches orders)
    (hpost : attempt.posts[index]? = some post) (hwaiting : post.outcome = .waiting)
    (hthread : post.thread ≠ none) {response : Ingestion.Response} {row : Ingestion.OrderRow}
    (hrow : row ∈ orders)
    (hkey : row.idempotencyKey = derivedKey attempt.cartKey post.group.restaurantId)
    (hid : row.orderId = response.orderId) :
    (attempt.settle index post response).Sound launches orders := by
  have hmem : post ∈ attempt.posts := List.mem_of_getElem? hpost
  unfold Attempt.settle
  split
  · exact h.fail hpost hwaiting
  · have hfulfilled : (((attempt.posts.set index { post with outcome := .fulfilled }).filter
        fun post ↦ post.outcome = .fulfilled).map Post.group).Perm
          (post.group :: attempt.fulfilled) :=
      (perm_filter_set hpost (by rw [hwaiting]; rfl) (decide_eq_true rfl)).map Post.group
    have hgroups : (attempt.posts.set index { post with outcome := .fulfilled }).map Post.group =
        attempt.posts.map Post.group := map_set_of_eq hpost rfl
    constructor
    · exact h.key
    · exact hgroups.trans h.groups
    · intro other hother thread hother'
      rcases List.mem_or_eq_of_mem_set hother with hold | rfl
      · exact h.launched other hold thread hother'
      · exact h.launched post hmem thread hother'
    · intro other hother houtcome
      rcases List.mem_or_eq_of_mem_set hother with hold | rfl
      · exact h.served other hold houtcome
      · exact hthread
    · show ((attempt.placed ++ [_]).map TokenOrder.r).Perm _
      rw [List.map_append]
      have hplaced := (h.placed.cons post.group.restaurantId).trans
        (hfulfilled.map Group.restaurantId).symm
      exact (List.perm_append_singleton _ _).trans hplaced
    · intro order horder
      rcases List.mem_append.mp horder with hold | hnew
      · exact h.stored order hold
      · rw [List.mem_singleton.mp hnew]
        exact ⟨row, hrow, hkey, hid⟩
    · show attempt.totalCents + post.group.totalCents = _
      refine Eq.trans ?_ (hfulfilled.map Group.totalCents).sum_eq.symm
      rw [List.map_cons, List.sum_cons, h.total]
      exact add_comm _ _

theorem Storefront.sound_start : storefront.start.Sound :=
  ⟨[], .initial, nofun⟩

/-- The answer to a POST names an order under its key. -/
theorem Attempt.Sound.answered {w : World Ingestion.service}
    (hw : World.Traced World.anyEffect launches w) (h : attempt.Sound launches orders)
    (hpost : post ∈ attempt.posts) {thread : ℕ} (hthread : post.thread = some thread)
    {response : Ingestion.Response} (hreturned : w.threads thread = some (.ret (some response))) :
    ∃ row ∈ w.shared.db.committed.orders,
      row.idempotencyKey = derivedKey attempt.cartKey post.group.restaurantId ∧
        row.orderId = response.orderId := by
  have hholds : Ingestion.discipline.Holds w :=
    Discipline.holds_of_reachable Ingestion.verified hw.reachable
  have hanswers : Ingestion.Answers thread response w.shared := hholds.post hreturned response rfl
  obtain ⟨row, hrow, hkey, hid, -⟩ := hanswers
  have hderived : truthy (attempt.request post).idempotencyKey =
      some (derivedKey attempt.cartKey post.group.restaurantId) :=
    truthy_some (derivedKey_ne _ _)
  have hlaunched := h.launched post hpost thread hthread
  exact ⟨row, hrow, hkey.trans (Ingestion.key_of_traced hw hlaunched hreturned hderived), hid⟩

/-- One step of the storefront. -/
theorem Storefront.Sound.act (h : s.Sound) {action : Storefront.Action}
    (hact : s.act action = some s') : s'.Sound := by
  obtain ⟨launches, htraced, hattempts⟩ := h
  have hset : ∀ {number : ℕ} {attempt' : Attempt},
      attempt'.Sound launches s.ingestion.shared.db.committed.orders →
        ∀ other ∈ s.attempts.set number attempt',
          other.Sound launches s.ingestion.shared.db.committed.orders := by
    intro number attempt' hattempt' other hother
    rcases List.mem_or_eq_of_mem_set hother with hold | rfl
    · exact hattempts other hold
    · exact hattempt'
  cases action with
  | ingestion action =>
    obtain ⟨w, hw, rfl⟩ := Option.map_eq_some_iff.mp hact
    refine ⟨_, htraced.act (World.permitted_anyEffect _ _) hw, fun attempt hattempt ↦ ?_⟩
    exact (hattempts attempt hattempt).mono (fun thread _ h ↦ launches_append thread h _)
      (orders_act htraced hw)
  | place input uuid =>
    obtain rfl := Storefront.act_place hact
    refine ⟨launches, htraced, fun attempt hattempt ↦ ?_⟩
    rcases List.mem_append.mp hattempt with hold | hnew
    · exact hattempts attempt hold
    · rw [List.mem_singleton.mp hnew]
      exact Attempt.sound_start input uuid
  | deliver number index =>
    obtain ⟨attempt, post, w, hattempt, hpost, hw, rfl⟩ := Storefront.act_deliver hact
    have hnext := htraced.act (World.permitted_anyEffect _ _) hw
    have hgrown : ∀ other ∈ s.attempts,
        other.Sound (launches ++ [.placeOrder (attempt.request post)])
          w.shared.db.committed.orders := fun other hother ↦
      (hattempts other hother).mono (fun thread _ h ↦ launches_append thread h _)
        (orders_act htraced hw)
    refine ⟨_, hnext, fun other hother ↦ ?_⟩
    rcases List.mem_or_eq_of_mem_set hother with hold | rfl
    · exact hgrown other hold
    · refine (hgrown attempt (List.mem_of_getElem? hattempt)).set hpost rfl rfl ?_ ?_
      · intro thread hsame
        obtain rfl := Option.some.inj hsame
        exact launches_next htraced _
      · exact fun _ ↦ nofun
  | answer number index =>
    obtain ⟨attempt, post, thread, hattempt, hpost, hwaiting, hthread, hcases⟩ :=
      Storefront.act_answer hact
    have hsound := hattempts attempt (List.mem_of_getElem? hattempt)
    rcases hcases with ⟨response, hreturned, rfl⟩ | rfl
    · obtain ⟨row, hrow, hkey, hid⟩ :=
        hsound.answered htraced (List.mem_of_getElem? hpost) hthread hreturned
      refine ⟨launches, htraced, hset (hsound.settle hpost hwaiting ?_ hrow hkey hid)⟩
      rw [hthread]
      exact nofun
    · exact ⟨launches, htraced, hset (hsound.fail hpost hwaiting)⟩
  | fail number index =>
    obtain ⟨attempt, post, hattempt, hpost, hwaiting, rfl⟩ := Storefront.act_fail hact
    exact ⟨launches, htraced,
      hset ((hattempts attempt (List.mem_of_getElem? hattempt)).fail hpost hwaiting)⟩

theorem Storefront.sound_of_reachable (hs : storefront.Reachable Transitions.anyAction s) :
    s.Sound :=
  Transitions.invariant Storefront.sound_start (fun _ _ _ h _ hact ↦ h.act hact) hs

/-- What a POST has stored is stored under its derived key, with the lines of its group. -/
theorem Attempt.Sound.orderOf {w : World Ingestion.service}
    (hw : World.Traced World.anyEffect launches w)
    (h : attempt.Sound launches w.shared.db.committed.orders)
    (hpost : post ∈ attempt.posts) {row : Ingestion.OrderRow}
    (hrow : row ∈ w.shared.db.committed.orders) (hthread : post.thread = some row.xmin) :
    Ingestion.OrderOf (attempt.request post) row := by
  obtain ⟨req, hreq, horder⟩ := Ingestion.author_of_traced hw hrow
  have hlaunched := h.launched post hpost row.xmin hthread
  obtain rfl : req = attempt.request post :=
    Ingestion.Launch.placeOrder.inj (Option.some.inj (hreq.symm.trans hlaunched))
  exact horder

theorem Attempt.Sound.idempotencyKey_eq {w : World Ingestion.service}
    (hw : World.Traced World.anyEffect launches w)
    (h : attempt.Sound launches w.shared.db.committed.orders)
    (hpost : post ∈ attempt.posts) {row : Ingestion.OrderRow}
    (hrow : row ∈ w.shared.db.committed.orders) (hthread : post.thread = some row.xmin) :
    row.idempotencyKey = derivedKey attempt.cartKey post.group.restaurantId :=
  (h.orderOf hw hpost hrow hthread).key _ (truthy_some (derivedKey_ne _ _))

/-! ### A call that has returned -/

theorem Attempt.Sound.fulfilled_eq (h : attempt.Sound launches orders)
    (hreturns : attempt.returns = true) :
    attempt.fulfilled = byRestaurant attempt.input.items := by
  unfold Attempt.fulfilled
  rw [List.filter_eq_self.mpr (List.all_eq_true.mp hreturns), h.groups]

/-- A call that has returned has placed one order for each restaurant. -/
theorem Attempt.Sound.perm_placed (h : attempt.Sound launches orders)
    (hreturns : attempt.returns = true) : (attempt.placed.map TokenOrder.r).Perm
      ((byRestaurant attempt.input.items).map Group.restaurantId) := by
  rw [← h.fulfilled_eq hreturns]
  exact h.placed

theorem Attempt.Sound.nodup_placed (h : attempt.Sound launches orders)
    (hreturns : attempt.returns = true) : (attempt.placed.map TokenOrder.r).Nodup :=
  (h.perm_placed hreturns).nodup_iff.mpr (grouped_byRestaurant attempt.input.items).nodup

theorem Attempt.Sound.exists_line (h : attempt.Sound launches orders)
    (hreturns : attempt.returns = true) {order : TokenOrder} (horder : order ∈ attempt.placed) :
    ∃ line ∈ attempt.input.items, line.restaurantId = order.r := by
  obtain ⟨group, hgroup, hr⟩ :=
    List.mem_map.mp ((h.perm_placed hreturns).mem_iff.mp (List.mem_map_of_mem horder))
  obtain ⟨line, hline, hlr⟩ := exists_line_of_mem hgroup
  exact ⟨line, hline, hlr.trans hr⟩

/-- The token names what was placed. -/
theorem perm_token (attempt : Attempt) (platform : Platform) :
    (attempt.token platform).o.Perm attempt.placed :=
  List.mergeSort_perm attempt.placed _

/-- What it reports is the amount of its cart. -/
theorem Attempt.Sound.totalCents_eq (h : attempt.Sound launches orders)
    (hreturns : attempt.returns = true) : attempt.totalCents = cartTotal attempt.input.items := by
  rw [h.total, h.fulfilled_eq hreturns, sum_byRestaurant]

theorem Attempt.result_eq {platform : Platform} {result : PlaceOrderResult}
    (h : attempt.result platform = some result) : attempt.returns = true ∧
      result = ⟨encodeCart platform (attempt.token platform), "accepted", attempt.cartKey, false,
        attempt.totalCents⟩ := by
  unfold Attempt.result at h
  split at h
  · rename_i hreturns
    exact ⟨hreturns, (Option.some.inj h).symm⟩
  · cases h

end Sound

/-! ### A cart of two restaurants -/

def thali : CartLine := ⟨"thali", "spice-route", some "Thali", 10, 1450, by decide, by decide,
  by decide, Int.natCast_nonneg 1450⟩

def bowl : CartLine := ⟨"bowl", "green-bowl", none, 4, 1200, by decide, by decide, by decide,
  by decide⟩

def lunch : PlaceOrderInput where
  idempotencyKey := some "k"
  items := [thali, bowl, thali]
  headcount := 12
  customerName := some " Ada "
  customerEmail := none
  idempotencyKey_ne := by decide
  items_ne := by decide
  headcount_pos := by decide
  headcount_le := by decide

def lunchToken : CartToken := ⟨12, [⟨"a", "green-bowl"⟩, ⟨"b", "spice-route"⟩]⟩

/-- What the platform does with the token of the cart. -/
def node : Platform where
  write json :=
    if json = ⟨1, lunchToken.hc, some lunchToken.o⟩ then
      "eyJ2IjoxLCJoYyI6MTIsIm8iOlt7ImlkIjoiYSIsInIiOiJncmVlbi1ib3dsIn0seyJpZCI6ImIiLCJyIjoic3BpY2Utcm91dGUifV19"
    else ""
  read text :=
    if text = "eyJ2IjoxLCJoYyI6MTIsIm8iOlt7ImlkIjoiYSIsInIiOiJncmVlbi1ib3dsIn0seyJpZCI6ImIiLCJyIjoic3BpY2Utcm91dGUifV19" then
      some ⟨1, lunchToken.hc, some lunchToken.o⟩
    else none
  localeCompare a b := compare a b

/-- Ingestion accepts the order of a thread, with this id. -/
def accepting (thread : ℕ) (id : String) : List Storefront.Action :=
  ([.uuid id, .done, .done, .stamp ⟨"e", "t"⟩, .done, .done] : List Ingestion.Choice).map
    fun choice ↦ .ingestion (.step thread choice)

/-- Ingestion has accepted the order of a thread before. -/
def repeating (thread : ℕ) (id : String) : List Storefront.Action :=
  ([.uuid id, .done, .done, .done, .done] : List Ingestion.Choice).map
    fun choice ↦ .ingestion (.step thread choice)

end DinnerRush.CustomerWeb
