import DinnerRush.CustomerWeb.View
import DinnerRush.Grouping
import Mathlib.Tactic.Ring

/-!
# Placing a cart

`customer-web/src/lib/dr.ts` and the `OrderSchema` of `app/api/orders/route.ts`: the input of
`placeCart`, the lines of a cart grouped by restaurant, the bodies of the requests to ingestion, and
the token. Amounts are integers. What the platform does is a parameter: base64url of JSON both ways,
and `localeCompare`.
-/

set_option autoImplicit false
set_option relaxedAutoImplicit false

namespace DinnerRush.CustomerWeb

/-! ### The input -/

/-- A line of a cart that `ItemSchema` accepts. -/
@[ext]
structure CartLine where
  dishId : String
  restaurantId : String
  name : Option String
  qty : ℤ
  unitPriceCents : ℤ
  dishId_ne : dishId ≠ ""
  restaurantId_ne : restaurantId ≠ ""
  qty_pos : 0 < qty
  unitPriceCents_nonneg : 0 ≤ unitPriceCents

instance : DecidableEq CartLine := fun _ _ ↦ decidable_of_iff _ CartLine.ext_iff.symm

/-- A cart that `OrderSchema` accepts. -/
structure PlaceOrderInput where
  idempotencyKey : Option String
  items : List CartLine
  headcount : ℤ
  customerName : Option String
  customerEmail : Option String
  idempotencyKey_ne : idempotencyKey ≠ some ""
  items_ne : items ≠ []
  headcount_pos : 0 < headcount
  headcount_le : headcount ≤ 2000
  deriving DecidableEq

/-- What `String.prototype.trim` strips: white space and line terminators. -/
def isWhiteSpace (char : Char) : Bool :=
  decide (char.toNat ∈ [0x9, 0xA, 0xB, 0xC, 0xD, 0x20, 0xA0, 0x1680, 0x2028, 0x2029, 0x202F, 0x205F,
    0x3000, 0xFEFF] ∨ 0x2000 ≤ char.toNat ∧ char.toNat ≤ 0x200A)

/-- `String.prototype.trim`. -/
def trim (text : String) : String :=
  .ofList ((text.toList.dropWhile isWhiteSpace).reverse.dropWhile isWhiteSpace).reverse

def customerIdOf (input : PlaceOrderInput) : String :=
  ((truthy (input.customerName.map trim)).or (truthy (input.customerEmail.map trim))).getD "guest"

/-! ### Cart lines by restaurant -/

def CartLine.ingestItem (line : CartLine) : OrderItem where
  name := line.name.getD line.dishId
  qty := line.qty
  priceCents := line.unitPriceCents
  one_le_qty := line.qty_pos
  priceCents_nonneg := line.unitPriceCents_nonneg

/-- An entry of `byRestaurant`. -/
@[ext]
structure Group where
  restaurantId : String
  items : List OrderItem
  nonEmpty : items ≠ []

instance : DecidableEq Group := fun _ _ ↦ decidable_of_iff _ Group.ext_iff.symm

/-- `byRestaurant.set`: an entry that is there keeps its place. -/
def push : List Group → CartLine → List Group
  | [], line => [⟨line.restaurantId, [line.ingestItem], List.cons_ne_nil _ _⟩]
  | group :: rest, line =>
    if group.restaurantId = line.restaurantId then
      ⟨group.restaurantId, group.items ++ [line.ingestItem],
        List.append_ne_nil_of_right_ne_nil _ (List.cons_ne_nil _ _)⟩ :: rest
    else group :: push rest line

def byRestaurant (lines : List CartLine) : List Group := lines.foldl push []

/-- The amount of one restaurant, as `placeCart` adds it up. -/
def Group.totalCents (group : Group) : ℤ :=
  group.items.foldl (fun sum item ↦ sum + item.qty * item.priceCents) 0

/-- The key of the order of one restaurant: the key of the cart, a colon and the restaurant. -/
def derivedKey (cartKey restaurantId : String) : String := cartKey ++ ":" ++ restaurantId

theorem toList_derivedKey (cartKey restaurantId : String) :
    (derivedKey cartKey restaurantId).toList = cartKey.toList ++ ':' :: restaurantId.toList := by
  simp [derivedKey]

theorem derivedKey_ne (cartKey restaurantId : String) : derivedKey cartKey restaurantId ≠ "" := by
  intro hempty
  have hlist := congrArg String.toList hempty
  rw [toList_derivedKey] at hlist
  simp at hlist

theorem derivedKey_inj {cartKey restaurantId restaurantId' : String}
    (h : derivedKey cartKey restaurantId = derivedKey cartKey restaurantId') :
    restaurantId = restaurantId' := by
  have hlist := congrArg String.toList h
  rw [toList_derivedKey, toList_derivedKey] at hlist
  exact String.toList_injective (List.cons.inj (List.append_cancel_left hlist)).2

/-- The body of the POST to ingestion for one restaurant. -/
def Group.request (group : Group) (customerId cartKey : String) : OrderRequest where
  customerId := customerId
  restaurantId := group.restaurantId
  items := group.items
  idempotencyKey := some (derivedKey cartKey group.restaurantId)
  nonEmpty := group.nonEmpty

/-! ### The token -/

/-- The JSON of a token, as far as the code looks at it; `o` is absent unless it is an array. -/
structure TokenJson where
  v : ℤ
  hc : ℤ
  o : Option (List TokenOrder)
  deriving DecidableEq, Repr

/-- What the platform provides. -/
structure Platform where
  /-- `Buffer.from(JSON.stringify(token)).toString("base64url")`. -/
  write : TokenJson → String
  /-- `JSON.parse(Buffer.from(token, "base64url").toString("utf8"))`, unless it throws. -/
  read : String → Option TokenJson
  localeCompare : String → String → Ordering

def encodeCart (platform : Platform) (token : CartToken) : String :=
  platform.write ⟨1, token.hc, some token.o⟩

def decodeCart (platform : Platform) (token : String) : Option CartToken := do
  let parsed ← platform.read token
  if parsed.v = 1 then
    let orders ← parsed.o
    return ⟨parsed.hc, orders⟩
  else none

/-- `placed.sort((a, b) => a.r.localeCompare(b.r))`, which is stable. -/
def sortPlaced (platform : Platform) (placed : List TokenOrder) : List TokenOrder :=
  placed.mergeSort fun a b ↦ platform.localeCompare a.r b.r ≠ .gt

structure PlaceOrderResult where
  orderId : String
  status : String
  idempotencyKey : String
  duplicate : Bool
  totalCents : ℤ
  deriving DecidableEq, Repr

/-! ### The order of the token -/

/-- The platform orders these restaurant ids strictly and transitively. -/
structure Platform.StrictOn (platform : Platform) (ids : List String) : Prop where
  swap : ∀ a ∈ ids, ∀ b ∈ ids,
    platform.localeCompare b a = (platform.localeCompare a b).swap
  strict : ∀ a ∈ ids, ∀ b ∈ ids, platform.localeCompare a b = .eq → a = b
  trans : ∀ a ∈ ids, ∀ b ∈ ids, ∀ c ∈ ids, platform.localeCompare a b = .lt →
    platform.localeCompare b c = .lt → platform.localeCompare a c = .lt

/-- A sort of some elements needs a linear order on these only. -/
theorem pairwise_mergeSort_of_mem {α : Type} {le : α → α → Bool} {l : List α}
    (trans : ∀ a ∈ l, ∀ b ∈ l, ∀ c ∈ l, le a b = true → le b c = true → le a c = true)
    (total : ∀ a ∈ l, ∀ b ∈ l, (le a b || le b a) = true) :
    (l.mergeSort le).Pairwise fun a b ↦ le a b = true := by
  have hsorted : (l.attach.mergeSort fun a b ↦ le a.1 b.1).Pairwise fun a b ↦
      le a.1 b.1 = true :=
    List.pairwise_mergeSort (fun a b c ↦ trans a.1 a.2 b.1 b.2 c.1 c.2)
      (fun a b ↦ total a.1 a.2 b.1 b.2) l.attach
  have hmap : (l.attach.mergeSort fun a b ↦ le a.1 b.1).map Subtype.val = l.mergeSort le := by
    rw [List.map_mergeSort (s := le) fun _ _ _ _ ↦ rfl, List.attach_map_subtype_val]
  rw [← hmap, List.pairwise_map]
  exact hsorted

theorem Platform.StrictOn.pairwise {platform : Platform} {ids : List String}
    (h : platform.StrictOn ids) {placed : List TokenOrder}
    (hids : ∀ order ∈ placed, order.r ∈ ids) :
    (sortPlaced platform placed).Pairwise fun a b ↦ platform.localeCompare a.r b.r ≠ .gt := by
  have hle : ∀ a ∈ ids, ∀ b ∈ ids, platform.localeCompare a b ≠ .gt →
      a = b ∨ platform.localeCompare a b = .lt := by
    intro a ha b hb hle
    cases hcompare : platform.localeCompare a b with
    | lt => exact Or.inr rfl
    | eq => exact Or.inl (h.strict a ha b hb hcompare)
    | gt => exact absurd hcompare hle
  let le : TokenOrder → TokenOrder → Bool := fun a b ↦ platform.localeCompare a.r b.r ≠ .gt
  have hsorted : (placed.mergeSort le).Pairwise fun a b ↦ le a b = true := by
    apply pairwise_mergeSort_of_mem
    · intro a ha b hb c hc hab hbc
      rw [decide_eq_true_eq] at hab hbc ⊢
      rcases hle _ (hids a ha) _ (hids b hb) hab with hsame | hlt
      · rw [hsame]
        exact hbc
      · rcases hle _ (hids b hb) _ (hids c hc) hbc with hsame | hlt'
        · rw [← hsame]
          exact hab
        · rw [h.trans _ (hids a ha) _ (hids b hb) _ (hids c hc) hlt hlt']
          exact nofun
    · intro a ha b hb
      rw [Bool.or_eq_true, decide_eq_true_eq, decide_eq_true_eq,
        h.swap _ (hids a ha) _ (hids b hb)]
      cases platform.localeCompare a.r b.r <;> simp
  exact hsorted.imp fun hab ↦ of_decide_eq_true hab

/-- The token does not show in which order the requests were answered. -/
theorem sortPlaced_eq {platform : Platform} {ids : List String} (h : platform.StrictOn ids)
    {placed placed' : List TokenOrder} (hperm : placed.Perm placed')
    (hids : ∀ order ∈ placed, order.r ∈ ids)
    (hkey : ∀ order ∈ placed, ∀ other ∈ placed, order.r = other.r → order = other) :
    sortPlaced platform placed = sortPlaced platform placed' := by
  have hids' : ∀ order ∈ placed', order.r ∈ ids :=
    fun order horder ↦ hids order (hperm.mem_iff.mpr horder)
  have hsorts : (sortPlaced platform placed).Perm (sortPlaced platform placed') :=
    (List.mergeSort_perm placed _).trans (hperm.trans (List.mergeSort_perm placed' _).symm)
  refine List.Perm.eq_of_pairwise (fun a b ha hb hab hba ↦ ?_) (h.pairwise hids)
    (h.pairwise hids') hsorts
  have ha' : a ∈ placed := List.mem_mergeSort.mp ha
  have hb' : b ∈ placed := hperm.mem_iff.mpr (List.mem_mergeSort.mp hb)
  refine hkey a ha' b hb' (h.strict _ (hids a ha') _ (hids b hb') ?_)
  rw [h.swap _ (hids a ha') _ (hids b hb')] at hba
  cases hcompare : platform.localeCompare a.r b.r with
  | lt =>
    rw [hcompare] at hba
    exact absurd rfl hba
  | eq => rfl
  | gt => exact absurd hcompare hab

/-! ### The groups partition the cart -/

/-- The groups of a cart are those of its lines by their restaurant. -/
def cartGrouping : Grouping String CartLine Group where
  keyOf := CartLine.restaurantId
  key := Group.restaurantId
  single line := ⟨line.restaurantId, [line.ingestItem], List.cons_ne_nil _ _⟩
  extend group line := ⟨group.restaurantId, group.items ++ [line.ingestItem],
    List.append_ne_nil_of_right_ne_nil _ (List.cons_ne_nil _ _)⟩
  key_single _ := rfl
  key_extend _ _ := rfl

theorem push_eq (groups : List Group) (line : CartLine) :
    push groups line = cartGrouping.insert groups line := by
  induction groups with
  | nil => rfl
  | cons group rest ih =>
    rw [push, Grouping.insert, ih]
    rfl

theorem byRestaurant_eq (lines : List CartLine) : byRestaurant lines = cartGrouping.of lines := by
  rw [byRestaurant, funext fun groups ↦ funext (push_eq groups)]
  rfl

/-- The lines of one restaurant. -/
def linesOf (restaurantId : String) (lines : List CartLine) : List CartLine :=
  lines.filter fun line ↦ line.restaurantId = restaurantId

/-- What the groups of some lines are: one for each restaurant, with its lines in their order. -/
structure Grouped (lines : List CartLine) (groups : List Group) : Prop where
  nodup : (groups.map Group.restaurantId).Nodup
  covers : ∀ line ∈ lines, line.restaurantId ∈ groups.map Group.restaurantId
  items : ∀ group ∈ groups,
    group.items = (linesOf group.restaurantId lines).map CartLine.ingestItem

/-- The groups of a cart partition it. -/
theorem grouped_byRestaurant (lines : List CartLine) : Grouped lines (byRestaurant lines) := by
  have hpartition := cartGrouping.partition_of lines
  rw [byRestaurant_eq]
  exact ⟨hpartition.nodup, hpartition.covers, fun group hgroup ↦
    Grouping.lines_of Group.items CartLine.ingestItem (fun _ ↦ rfl) (fun _ _ ↦ rfl) hgroup⟩

/-- Every group is that of a line. -/
theorem exists_line_of_mem {lines : List CartLine} {group : Group}
    (h : group ∈ byRestaurant lines) : ∃ line ∈ lines, line.restaurantId = group.restaurantId := by
  have hitems := (grouped_byRestaurant lines).items group h
  have hsome : linesOf group.restaurantId lines ≠ [] := by
    intro hnone
    rw [hnone] at hitems
    exact group.nonEmpty hitems
  obtain ⟨line, hline⟩ := List.exists_mem_of_ne_nil _ hsome
  obtain ⟨hmem, hrestaurant⟩ := List.mem_filter.mp hline
  exact ⟨line, hmem, of_decide_eq_true hrestaurant⟩

/-! ### The amounts add up -/

/-- The amount of a cart. -/
def cartTotal (lines : List CartLine) : ℤ :=
  (lines.map fun line ↦ line.qty * line.unitPriceCents).sum

theorem foldl_add (items : List OrderItem) (start : ℤ) :
    items.foldl (fun sum item ↦ sum + item.qty * item.priceCents) start =
      start + (items.map fun item ↦ item.qty * item.priceCents).sum := by
  induction items generalizing start with
  | nil => simp
  | cons item rest ih =>
    rw [List.foldl_cons, ih, List.map_cons, List.sum_cons]
    ring

/-- The storefront and ingestion add up the same. -/
theorem totalCents_request (group : Group) (customerId cartKey : String) :
    (group.request customerId cartKey).totalCents = group.totalCents := by
  rw [Group.totalCents, foldl_add, zero_add]
  rfl

/-- The amounts of the restaurants add up to that of the cart. -/
theorem sum_byRestaurant (lines : List CartLine) :
    ((byRestaurant lines).map Group.totalCents).sum = cartTotal lines := by
  rw [byRestaurant_eq]
  refine Grouping.sum_of Group.totalCents _ (fun line ↦ ?_) (fun group line ↦ ?_) lines
  · exact zero_add (line.qty * line.unitPriceCents)
  · change (group.items ++ [line.ingestItem]).foldl _ 0 = _
    rw [List.foldl_append]
    rfl

end DinnerRush.CustomerWeb
