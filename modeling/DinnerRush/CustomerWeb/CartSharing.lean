import DinnerRush.CustomerWeb.Cart
import Mathlib.Data.List.Find
import Mathlib.Data.List.Nodup

/-!
# The lines that a bundle shares

`addBundle` of `cart-context.tsx` over line objects and their references. Its updater copies the
list of references but not the lines, and `existing.qty += 1` writes to a line that the previous
list, and with it `SEED`, may share.

The updater is pure exactly if no dish of the bundle is in the cart (`pureUpdate_iff`).
-/

set_option autoImplicit false
set_option relaxedAutoImplicit false

namespace DinnerRush.CustomerWeb.Cart

/-! ### Lines and references -/

/-- The line objects there are, in the order in which they were made, and the lists that hold
references to them: the previous items, and the items of `SEED`. -/
structure Memory where
  lines : List CartItem
  items : List ℕ
  seed : List ℕ
  items_lt : ∀ ref ∈ items, ref < lines.length
  seed_lt : ∀ ref ∈ seed, ref < lines.length

/-- The lines of a list, as they are now. -/
def values (lines : List CartItem) (refs : List ℕ) : List CartItem :=
  refs.filterMap fun ref ↦ lines[ref]?

def isLineOf (lines : List CartItem) (dishId : String) (ref : ℕ) : Bool :=
  (lines[ref]?).any fun item ↦ item.dishId == dishId

/-- `next.find((i) => i.dishId === dishId)`. -/
def findLine (lines : List CartItem) (dishId : String) (next : List ℕ) : Option ℕ :=
  next.find? (isLineOf lines dishId)

/-- `existing.qty += 1`. -/
def growLine (lines : List CartItem) (ref : ℕ) : List CartItem :=
  lines.modify ref fun item ↦ { item with qty := item.qty + 1 }

/-- What the updater has written and pushed so far. -/
structure Progress where
  lines : List CartItem
  next : List ℕ

/-- A dish of the bundle: its line is written to, or a new one is pushed. -/
def Progress.dish (progress : Progress) (dishId : String) : Progress :=
  match findLine progress.lines dishId progress.next with
  | some ref => ⟨growLine progress.lines ref, progress.next⟩
  | none => ⟨progress.lines ++ [⟨dishId, 1⟩], progress.next ++ [progress.lines.length]⟩

/-- The updater of `addBundle` evaluated on a previous list. -/
def evaluate (dishIds : List String) (lines : List CartItem) (prev : List ℕ) : Progress :=
  dishIds.foldl Progress.dish ⟨lines, prev⟩

/-- The updater evaluated a number of times on the same previous list: the lines after that, and the
next list after each time. -/
def replay (dishIds : List String) (prev : List ℕ) :
    ℕ → List CartItem → List CartItem × List (List CartItem)
  | 0, lines => (lines, [])
  | times + 1, lines =>
    let progress := evaluate dishIds lines prev
    let later := replay dishIds prev times progress.lines
    (later.1, values progress.lines progress.next :: later.2)

/-- What is claimed of the updater. -/
structure PureUpdate (memory : Memory) (dishIds : List String) : Prop where
  /-- The next list is the same each time, -/
  same : ∀ times, ∀ next ∈ (replay dishIds memory.items times memory.lines).2,
    ∀ next' ∈ (replay dishIds memory.items times memory.lines).2, next = next'
  /-- has one more of a dish for each time that the bundle names it, -/
  grown : ∀ times, ∀ next ∈ (replay dishIds memory.items times memory.lines).2, ∀ dishId,
    qtyOf next dishId = qtyOf (values memory.lines memory.items) dishId + dishIds.count dishId
  /-- and the other lines as they were. -/
  others : ∀ times, ∀ next ∈ (replay dishIds memory.items times memory.lines).2,
    (next.filter fun item ↦ item.dishId ∉ dishIds) =
      (values memory.lines memory.items).filter fun item ↦ item.dishId ∉ dishIds
  /-- The previous list and `SEED` have the lines they had. -/
  items : ∀ times, values (replay dishIds memory.items times memory.lines).1 memory.items =
    values memory.lines memory.items
  seed : ∀ times, values (replay dishIds memory.items times memory.lines).1 memory.seed =
    values memory.lines memory.seed

/-! ### A bundle of which nothing is in the cart -/

variable {lines lines' : List CartItem} {refs : List ℕ} {dishId : String} {dishIds : List String}

theorem findLine_eq_none :
    findLine lines dishId refs = none ↔ hasLine (values lines refs) dishId = false := by
  unfold findLine isLineOf hasLine values
  rw [List.find?_eq_none, List.any_eq_false]
  simp only [List.mem_filterMap]
  constructor
  · rintro h item ⟨ref, href, hitem⟩
    simpa [hitem] using h ref href
  · intro h ref href
    cases hitem : lines[ref]? with
    | none => simp
    | some item => simpa using h item ⟨ref, href, hitem⟩

theorem values_congr (h : ∀ ref ∈ refs, lines'[ref]? = lines[ref]?) :
    values lines' refs = values lines refs :=
  List.filterMap_congr h

theorem values_append (lines : List CartItem) (refs refs' : List ℕ) :
    values lines (refs ++ refs') = values lines refs ++ values lines refs' :=
  List.filterMap_append

theorem bump_append {items : List CartItem} (h : hasLine items dishId = false)
    (rest : List CartItem) : bump dishId (items ++ rest) = items ++ bump dishId rest := by
  induction items with
  | nil => rfl
  | cons item items ih =>
    simp only [hasLine, List.any_cons, Bool.or_eq_false_iff] at h
    have hdish : item.dishId ≠ dishId := by simpa using h.1
    rw [List.cons_append, bump, if_neg hdish, ih h.2, List.cons_append]

theorem bump_of_not_hasLine {items : List CartItem} (h : hasLine items dishId = false) :
    bump dishId items = items ++ [⟨dishId, 1⟩] := by
  have happend := bump_append h []
  rw [List.append_nil] at happend
  exact happend

theorem growLine_of_ne {ref other : ℕ} (h : other ≠ ref) :
    (growLine lines ref)[other]? = lines[other]? := by
  simp [growLine, h.symm]

theorem values_cons {ref : ℕ} {item : CartItem} (h : lines[ref]? = some item) :
    values lines (ref :: refs) = item :: values lines refs := by
  simp [values, h]

/-- The line that is found grows where it is referred to, if it is referred to once. -/
theorem values_growLine {ref : ℕ} (hnodup : refs.Nodup)
    (h : findLine lines dishId refs = some ref) :
    values (growLine lines ref) refs = bump dishId (values lines refs) := by
  induction refs with
  | nil => simp [findLine] at h
  | cons first rest ih =>
    obtain ⟨hfirst, hrest⟩ := List.nodup_cons.mp hnodup
    by_cases hfound : isLineOf lines dishId first = true
    · obtain rfl : first = ref := by simpa [findLine, hfound] using h
      obtain ⟨item, hitem, hdish⟩ := (Option.any_eq_true _ _).mp hfound
      have hgrown : (growLine lines first)[first]? = some { item with qty := item.qty + 1 } := by
        simp [growLine, hitem]
      rw [values_cons hgrown, values_cons hitem, bump, if_pos (by simpa using hdish)]
      congr 1
      exact values_congr fun other hother ↦ growLine_of_ne fun hsame ↦ hfirst (hsame ▸ hother)
    · have hlater : findLine lines dishId rest = some ref := by
        simpa [findLine, hfound] using h
      have hne : first ≠ ref := fun hsame ↦ hfirst (hsame ▸ List.mem_of_find?_eq_some hlater)
      cases hitem : lines[first]? with
      | none =>
        simp only [values, List.filterMap_cons, growLine_of_ne hne, hitem]
        exact ih hrest hlater
      | some item =>
        have hdish : item.dishId ≠ dishId := by simpa [isLineOf, hitem] using hfound
        rw [values_cons ((growLine_of_ne hne).trans hitem), values_cons hitem, bump, if_neg hdish,
          ih hrest hlater]

/-- Lines that only one list refers to, and that only once, grow as `bump` says. -/
theorem values_dish {progress : Progress} (hnodup : progress.next.Nodup)
    (hlt : ∀ ref ∈ progress.next, ref < progress.lines.length) :
    values (progress.dish dishId).lines (progress.dish dishId).next =
      bump dishId (values progress.lines progress.next) := by
  unfold Progress.dish
  cases hfind : findLine progress.lines dishId progress.next with
  | some ref => exact values_growLine hnodup hfind
  | none =>
    rw [bump_of_not_hasLine (findLine_eq_none.mp hfind), values_append]
    congr 1
    · exact values_congr fun ref href ↦ List.getElem?_append_left (hlt ref href)
    · simp [values]

/-- The lines that a list refers to are new, and the old ones are as they were. -/
structure Apart (start : List CartItem) (progress : Progress) : Prop where
  nodup : progress.next.Nodup
  le_ref : ∀ ref ∈ progress.next, start.length ≤ ref
  ref_lt : ∀ ref ∈ progress.next, ref < progress.lines.length
  le_length : start.length ≤ progress.lines.length
  kept : ∀ ref < start.length, progress.lines[ref]? = start[ref]?

theorem apart_start {start : List CartItem} (hle : start.length ≤ lines.length)
    (hkept : ∀ ref < start.length, lines[ref]? = start[ref]?) : Apart start ⟨lines, []⟩ where
  nodup := .nil
  le_ref := by simp
  ref_lt := by simp
  le_length := hle
  kept := hkept

theorem Apart.dish {start : List CartItem} {progress : Progress} (h : Apart start progress)
    (dishId : String) : Apart start (progress.dish dishId) := by
  unfold Progress.dish
  cases hfind : findLine progress.lines dishId progress.next with
  | some ref =>
    have href := h.le_ref ref (List.mem_of_find?_eq_some hfind)
    refine ⟨h.nodup, h.le_ref, fun other hother ↦ ?_, ?_, fun other hother ↦ ?_⟩
    · simpa [growLine] using h.ref_lt other hother
    · simpa [growLine] using h.le_length
    · rw [growLine_of_ne (by omega), h.kept other hother]
  | none =>
    refine ⟨?_, fun ref href ↦ ?_, fun ref href ↦ ?_, ?_, fun ref href ↦ ?_⟩
    · refine List.nodup_append.mpr ⟨h.nodup, List.nodup_singleton _, fun ref href other hother ↦ ?_⟩
      obtain rfl := List.mem_singleton.mp hother
      exact Nat.ne_of_lt (h.ref_lt ref href)
    · rcases List.mem_append.mp href with hold | hnew
      · exact h.le_ref ref hold
      · rw [List.mem_singleton.mp hnew]
        exact h.le_length
    · rw [List.length_append]
      rcases List.mem_append.mp href with hold | hnew
      · exact Nat.lt_add_right _ (h.ref_lt ref hold)
      · rw [List.mem_singleton.mp hnew]
        simp
    · rw [List.length_append]
      exact Nat.le_add_right_of_le h.le_length
    · have hlt := h.le_length
      rw [List.getElem?_append_left (by omega), h.kept ref href]

/-- One evaluation on lines that nobody else has is the updater of `Operation.addBundle`. -/
theorem values_evaluate (dishIds : List String) {prev : List ℕ} (hnodup : prev.Nodup)
    (hlt : ∀ ref ∈ prev, ref < lines.length) :
    values (evaluate dishIds lines prev).lines (evaluate dishIds lines prev).next =
      addDishes dishIds (values lines prev) := by
  have hrun : ∀ (dishIds : List String) (progress : Progress), Apart [] progress →
      values (dishIds.foldl Progress.dish progress).lines
        (dishIds.foldl Progress.dish progress).next =
      addDishes dishIds (values progress.lines progress.next) := by
    intro dishIds
    induction dishIds with
    | nil => exact fun _ _ ↦ rfl
    | cons dishId rest ih =>
      intro progress h
      rw [List.foldl_cons, ih _ (h.dish dishId), values_dish h.nodup h.ref_lt]
      rfl
  exact hrun dishIds ⟨lines, prev⟩ ⟨hnodup, by simp, hlt, by simp, by simp⟩

/-- Of a list that has no line of the dish, only what is pushed to it matters. -/
theorem dish_append {prev : List ℕ} (h : findLine lines dishId prev = none) :
    Progress.dish ⟨lines, prev ++ refs⟩ dishId =
      ⟨(Progress.dish ⟨lines, refs⟩ dishId).lines,
        prev ++ (Progress.dish ⟨lines, refs⟩ dishId).next⟩ := by
  have hfind : findLine lines dishId (prev ++ refs) = findLine lines dishId refs := by
    unfold findLine at h ⊢
    rw [List.find?_append, h, Option.none_or]
  unfold Progress.dish
  simp only [hfind]
  cases findLine lines dishId refs with
  | some ref => rfl
  | none => simp

/-- The updater pushes new lines behind a list that has no line of the bundle, and writes to none
of the old ones. -/
theorem evaluate_apart {start : List CartItem} {prev : List ℕ}
    (hprev : ∀ ref ∈ prev, ref < start.length)
    (hnone : ∀ dishId ∈ dishIds, hasLine (values start prev) dishId = false) {progress : Progress}
    (h : Apart start progress) :
    ∃ progress', Apart start progress' ∧
      dishIds.foldl Progress.dish ⟨progress.lines, prev ++ progress.next⟩ =
        ⟨progress'.lines, prev ++ progress'.next⟩ ∧
      values progress'.lines progress'.next =
        addDishes dishIds (values progress.lines progress.next) := by
  induction dishIds generalizing progress with
  | nil => exact ⟨progress, h, rfl, rfl⟩
  | cons dishId rest ih =>
    have hfind : findLine progress.lines dishId prev = none := by
      rw [findLine_eq_none, values_congr fun ref href ↦ h.kept ref (hprev ref href)]
      exact hnone dishId List.mem_cons_self
    obtain ⟨progress', hprogress', hfold, hvalues⟩ :=
      ih (fun later hlater ↦ hnone later (List.mem_cons_of_mem dishId hlater)) (h.dish dishId)
    refine ⟨progress', hprogress', ?_, ?_⟩
    · rw [List.foldl_cons, dish_append hfind]
      exact hfold
    · rw [hvalues, values_dish h.nodup h.ref_lt]
      rfl

theorem addDishes_append {items : List CartItem}
    (h : ∀ dishId ∈ dishIds, hasLine items dishId = false) (rest : List CartItem) :
    addDishes dishIds (items ++ rest) = items ++ addDishes dishIds rest := by
  induction dishIds generalizing rest with
  | nil => rfl
  | cons dishId later ih =>
    simp only [addDishes, List.foldl_cons] at ih ⊢
    rw [bump_append (h dishId List.mem_cons_self)]
    exact ih (fun other hother ↦ h other (List.mem_cons_of_mem dishId hother)) _

theorem evaluate_eq {start : List CartItem} {prev : List ℕ}
    (hprev : ∀ ref ∈ prev, ref < start.length)
    (hnone : ∀ dishId ∈ dishIds, hasLine (values start prev) dishId = false)
    (hle : start.length ≤ lines.length)
    (hkept : ∀ ref < start.length, lines[ref]? = start[ref]?) :
    (start.length ≤ (evaluate dishIds lines prev).lines.length ∧
      ∀ ref < start.length, (evaluate dishIds lines prev).lines[ref]? = start[ref]?) ∧
    values (evaluate dishIds lines prev).lines (evaluate dishIds lines prev).next =
      addDishes dishIds (values start prev) := by
  obtain ⟨progress, h, hfold, hvalues⟩ := evaluate_apart hprev hnone (apart_start hle hkept)
  have hevaluate : evaluate dishIds lines prev = ⟨progress.lines, prev ++ progress.next⟩ := by
    simpa [evaluate] using hfold
  rw [hevaluate]
  refine ⟨⟨h.le_length, h.kept⟩, ?_⟩
  simp only [values_append]
  rw [hvalues, values_congr fun ref href ↦ h.kept ref (hprev ref href)]
  have hsplit := addDishes_append hnone []
  rw [List.append_nil] at hsplit
  rw [hsplit]
  rfl

/-- Every evaluation gives the same next list and leaves the old lines alone. -/
theorem replay_eq {start : List CartItem} {prev : List ℕ}
    (hprev : ∀ ref ∈ prev, ref < start.length)
    (hnone : ∀ dishId ∈ dishIds, hasLine (values start prev) dishId = false)
    (hle : start.length ≤ lines.length)
    (hkept : ∀ ref < start.length, lines[ref]? = start[ref]?) (times : ℕ) :
    (∀ ref < start.length, (replay dishIds prev times lines).1[ref]? = start[ref]?) ∧
      ∀ next ∈ (replay dishIds prev times lines).2,
        next = addDishes dishIds (values start prev) := by
  induction times generalizing lines with
  | zero => exact ⟨hkept, by simp [replay]⟩
  | succ times ih =>
    obtain ⟨⟨hlength, hstill⟩, hvalues⟩ := evaluate_eq hprev hnone hle hkept
    obtain ⟨hlater, hnexts⟩ := ih hlength hstill
    refine ⟨hlater, fun next hnext ↦ ?_⟩
    rcases List.mem_cons.mp hnext with rfl | hrest
    · exact hvalues
    · exact hnexts next hrest

/-! ### What a bundle adds -/

theorem qtyOf_bump (items : List CartItem) (dishId other : String) :
    qtyOf (bump dishId items) other = qtyOf items other + if dishId = other then 1 else 0 := by
  induction items with
  | nil => by_cases hsame : dishId = other <;> simp [bump, qtyOf, hsame]
  | cons item rest ih =>
    unfold bump
    by_cases hdish : item.dishId = dishId
    · by_cases hother : item.dishId = other
      · simp [qtyOf, ← hdish, hother]
      · simp [qtyOf, ← hdish, hother]
    · rw [if_neg hdish]
      by_cases hother : item.dishId = other
      · have hne : dishId ≠ other := fun hsame ↦ hdish (hother.trans hsame.symm)
        simp [qtyOf, hother, hne]
      · simpa [qtyOf, hother] using ih

theorem qtyOf_addDishes (dishIds : List String) (items : List CartItem) (dishId : String) :
    qtyOf (addDishes dishIds items) dishId = qtyOf items dishId + dishIds.count dishId := by
  induction dishIds generalizing items with
  | nil => simp [addDishes]
  | cons first rest ih =>
    simp only [addDishes, List.foldl_cons] at ih ⊢
    rw [ih, qtyOf_bump, List.count_cons]
    by_cases hsame : first = dishId
    · simp [hsame, add_assoc, add_comm]
    · simp [hsame]

theorem filter_bump (items : List CartItem) (h : dishId ∈ dishIds) :
    (bump dishId items).filter (fun item ↦ item.dishId ∉ dishIds) =
      items.filter fun item ↦ item.dishId ∉ dishIds := by
  induction items with
  | nil => simp [bump, h]
  | cons item rest ih =>
    unfold bump
    by_cases hdish : item.dishId = dishId
    · simp [hdish, h]
    · rw [if_neg hdish, List.filter_cons, List.filter_cons, ih]

theorem filter_addDishes (items : List CartItem) {later : List String} (h : later ⊆ dishIds) :
    (addDishes later items).filter (fun item ↦ item.dishId ∉ dishIds) =
      items.filter fun item ↦ item.dishId ∉ dishIds := by
  induction later generalizing items with
  | nil => rfl
  | cons dishId rest ih =>
    obtain ⟨hdish, hrest⟩ := List.cons_subset.mp h
    simp only [addDishes, List.foldl_cons] at ih ⊢
    rw [ih _ hrest, filter_bump items hdish]

/-! ### A bundle of which something is in the cart -/

/-- The first line of a dish in a list is shared: it has grown by what the bundle has named the
dish so far. -/
structure Shared (start : List CartItem) (prev : List ℕ) (dishId : String) (ref count : ℕ)
    (progress : Progress) : Prop where
  behind : prev <+: progress.next
  le_length : start.length ≤ progress.lines.length
  dishes : ∀ other < start.length,
    (progress.lines[other]?).map CartItem.dishId = (start[other]?).map CartItem.dishId
  grown : (progress.lines[ref]?).map CartItem.qty =
    (start[ref]?).map fun item ↦ item.qty + (count : ℚ)

theorem isLineOf_congr {ref : ℕ}
    (h : (lines'[ref]?).map CartItem.dishId = (lines[ref]?).map CartItem.dishId) :
    isLineOf lines' dishId ref = isLineOf lines dishId ref := by
  unfold isLineOf
  cases hline : lines[ref]? <;> cases hline' : lines'[ref]? <;> simp_all

theorem growLine_dishId (lines : List CartItem) (ref other : ℕ) :
    ((growLine lines ref)[other]?).map CartItem.dishId = (lines[other]?).map CartItem.dishId := by
  by_cases hsame : ref = other <;> simp [growLine, hsame, Function.comp_def]

theorem growLine_qty (lines : List CartItem) (ref : ℕ) :
    ((growLine lines ref)[ref]?).map CartItem.qty = (lines[ref]?).map fun item ↦ item.qty + 1 := by
  simp [growLine, Function.comp_def]

/-- A line has one dish. -/
theorem eq_of_isLineOf {other : String} {ref : ℕ} (h : isLineOf lines dishId ref = true)
    (h' : isLineOf lines other ref = true) : dishId = other := by
  obtain ⟨item, hitem, hdish⟩ := (Option.any_eq_true _ _).mp h
  obtain ⟨item', hitem', hother⟩ := (Option.any_eq_true _ _).mp h'
  obtain rfl := Option.some.inj (hitem.symm.trans hitem')
  exact (eq_of_beq hdish).symm.trans (eq_of_beq hother)

/-- Naming a dish writes to the first of its lines in the list, if that has one. -/
theorem Shared.dish {start : List CartItem} {prev : List ℕ} {ref count : ℕ} {progress : Progress}
    (hprev : ∀ other ∈ prev, other < start.length) (hfirst : findLine start dishId prev = some ref)
    (h : Shared start prev dishId ref count progress) (next : String) :
    Shared start prev dishId ref (count + [next].count dishId) (progress.dish next) := by
  have hline : isLineOf start dishId ref = true := List.find?_some hfirst
  have hlt : ref < start.length := hprev ref (List.mem_of_find?_eq_some hfirst)
  have hsameLine : ∀ dishId, ∀ other < start.length,
      isLineOf progress.lines dishId other = isLineOf start dishId other :=
    fun dishId other hother ↦ isLineOf_congr (h.dishes other hother)
  have hfound : findLine progress.lines dishId progress.next = some ref := by
    have hprefix : findLine progress.lines dishId prev = some ref := by
      rw [← hfirst]
      exact List.find?_congr fun other hother ↦ hsameLine dishId other (hprev other hother)
    obtain ⟨later, hlater⟩ := h.behind
    unfold findLine at hprefix ⊢
    rw [← hlater, List.find?_append, hprefix, Option.some_or]
  have hlength := h.le_length
  unfold Progress.dish
  by_cases hsame : next = dishId
  · rw [hsame, hfound]
    refine ⟨h.behind, by simpa [growLine], fun other hother ↦ ?_, ?_⟩
    · exact (growLine_dishId _ ref other).trans (h.dishes other hother)
    · have hgrown := congrArg (Option.map fun qty : ℚ ↦ qty + 1) h.grown
      rw [Option.map_map, Option.map_map] at hgrown
      refine (growLine_qty _ ref).trans (hgrown.trans ?_)
      simp [Function.comp_def, add_assoc]
  · have hzero : [next].count dishId = 0 := by simp [hsame]
    rw [hzero, Nat.add_zero]
    cases hfind : findLine progress.lines next progress.next with
    | some written =>
      have hne : ref ≠ written := by
        rintro rfl
        have hwritten : isLineOf progress.lines next ref = true := List.find?_some hfind
        rw [hsameLine next ref hlt] at hwritten
        exact hsame (eq_of_isLineOf hwritten hline)
      refine ⟨h.behind, by simpa [growLine], fun other hother ↦ ?_, ?_⟩
      · exact (growLine_dishId _ written other).trans (h.dishes other hother)
      · simp only [growLine_of_ne hne]
        exact h.grown
    | none =>
      refine ⟨h.behind.trans (List.prefix_append _ _), ?_, fun other hother ↦ ?_, ?_⟩
      · rw [List.length_append]
        exact Nat.le_add_right_of_le hlength
      · rw [List.getElem?_append_left (by omega)]
        exact h.dishes other hother
      · simp only [List.getElem?_append_left (Nat.lt_of_lt_of_le hlt hlength)]
        exact h.grown

/-- A line of the previous list has grown by as much as the bundle names its dish. -/
theorem Shared.evaluate {start : List CartItem} {prev : List ℕ} {ref : ℕ}
    (hprev : ∀ other ∈ prev, other < start.length) (hfirst : findLine start dishId prev = some ref)
    (dishIds : List String) :
    Shared start prev dishId ref (dishIds.count dishId) (evaluate dishIds start prev) := by
  have hrun : ∀ (dishIds : List String) (count : ℕ) (progress : Progress),
      Shared start prev dishId ref count progress →
        Shared start prev dishId ref (count + dishIds.count dishId)
          (dishIds.foldl Progress.dish progress) := by
    intro dishIds
    induction dishIds with
    | nil => exact fun _ _ h ↦ h
    | cons next rest ih =>
      intro count progress h
      have hlater := ih _ _ (h.dish hprev hfirst next)
      rw [Nat.add_assoc, ← List.count_append, List.singleton_append] at hlater
      exact hlater
  have hstart : Shared start prev dishId ref 0 ⟨start, prev⟩ :=
    ⟨List.prefix_rfl, Nat.le_refl _, fun _ _ ↦ rfl, by simp⟩
  have hall := hrun dishIds 0 _ hstart
  rw [Nat.zero_add] at hall
  exact hall

/-- Lists with the same lines have the same line behind each reference. -/
theorem getElem?_eq_of_values_eq (h : ∀ ref ∈ refs, ref < lines.length)
    (h' : ∀ ref ∈ refs, ref < lines'.length) (hsame : values lines' refs = values lines refs) :
    ∀ ref ∈ refs, lines'[ref]? = lines[ref]? := by
  induction refs with
  | nil => simp
  | cons first rest ih =>
    rw [List.forall_mem_cons] at h h'
    have hfirst := List.getElem?_eq_getElem h.1
    have hfirst' := List.getElem?_eq_getElem h'.1
    rw [values_cons hfirst, values_cons hfirst'] at hsame
    obtain ⟨hhead, htail⟩ := List.cons.inj hsame
    rw [List.forall_mem_cons]
    exact ⟨by rw [hfirst, hfirst', hhead], ih h.2 h'.2 htail⟩

/-- **The updater of a bundle is pure**, exactly if the cart has none of its dishes. -/
theorem pureUpdate_iff (memory : Memory) (dishIds : List String) : PureUpdate memory dishIds ↔
    ∀ dishId ∈ dishIds, hasLine (values memory.lines memory.items) dishId = false := by
  constructor
  · intro h dishId hdish
    by_contra hline
    have hfind : findLine memory.lines dishId memory.items ≠ none :=
      fun hnone ↦ hline (findLine_eq_none.mp hnone)
    obtain ⟨ref, hfirst⟩ := Option.ne_none_iff_exists'.mp hfind
    have hshared := Shared.evaluate memory.items_lt hfirst dishIds
    have hmem := List.mem_of_find?_eq_some hfirst
    -- One evaluation is enough: the line is another one in the previous list.
    have hkept : values (evaluate dishIds memory.lines memory.items).lines memory.items =
        values memory.lines memory.items := h.items 1
    have hsame := getElem?_eq_of_values_eq memory.items_lt
      (fun other hother ↦ Nat.lt_of_lt_of_le (memory.items_lt other hother) hshared.le_length)
      hkept ref hmem
    have hgrown := hshared.grown
    rw [hsame, List.getElem?_eq_getElem (memory.items_lt ref hmem)] at hgrown
    have hcount : (0 : ℚ) < dishIds.count dishId := by
      exact_mod_cast List.count_pos_iff.mpr hdish
    simp only [Option.map_some, Option.some.injEq] at hgrown
    linarith
  · intro hnone
    have hreplay := fun times ↦
      replay_eq memory.items_lt hnone (Nat.le_refl _) (fun _ _ ↦ rfl) times
    refine ⟨fun times next hnext next' hnext' ↦ ?_, fun times next hnext dishId ↦ ?_,
      fun times next hnext ↦ ?_, fun times ↦ ?_, fun times ↦ ?_⟩
    · rw [(hreplay times).2 next hnext, (hreplay times).2 next' hnext']
    · rw [(hreplay times).2 next hnext, qtyOf_addDishes]
    · rw [(hreplay times).2 next hnext, filter_addDishes _ (List.Subset.refl dishIds)]
    · exact values_congr fun ref href ↦ (hreplay times).1 ref (memory.items_lt ref href)
    · exact values_congr fun ref href ↦ (hreplay times).1 ref (memory.seed_lt ref href)

/-! ### The seed -/

/-- The first visit: the items are those of `SEED`. -/
def firstVisit : Memory where
  lines := [⟨"fuego-1", 1⟩, ⟨"sakura-1", 1⟩, ⟨"verde-2", 1⟩]
  items := [0, 1, 2]
  seed := [0, 1, 2]
  items_lt := by decide
  seed_lt := by decide

/-- The bundle `b-world`. -/
def aroundTheWorld : List String := ["fuego-1", "sakura-1", "saffron-1", "verde-1"]

/-- Evaluated twice, the updater adds two tacos, and `SEED` has three of them. -/
theorem not_pureUpdate_aroundTheWorld : ¬ PureUpdate firstVisit aroundTheWorld := by
  intro h
  have hseed := h.seed 2
  revert hseed
  decide +kernel

end DinnerRush.CustomerWeb.Cart
