import Mathlib.Data.List.GetD
import Mathlib.Tactic.SplitIfs
import NseHft.Common.Types
import NseHft.Lib.Bisect
import NseHft.Lib.FixedWidth

/-!
# Price levels

One side of the book is a flat array of levels, best price first. The list holds the
first `count` entries of the array; the entries behind them are never read.
Insertion and removal search by bisection, which is right only on a strictly sorted
array: `split_exists` and the lemmas on `SplitAt` are the one place where this is used.
-/
namespace NseHft

open FixedWidth

/-- The resting orders queued at one price. `orderCount` is not reduced to 32 bits. -/
structure PriceLevel where
  price : Int := 0
  totalQuantity : Int := 0
  orderCount : Int := 0
  deriving DecidableEq, Repr, Inhabited

namespace PriceLevel

def addOrder (l : PriceLevel) (qty : Int) : PriceLevel :=
  { l with totalQuantity := i32 (l.totalQuantity + qty), orderCount := l.orderCount + 1 }

def removeOrder (l : PriceLevel) (qty : Int) (dropOrder : Bool) : PriceLevel :=
  let total := i32 (l.totalQuantity - qty)
  { l with
    totalQuantity := if total < 0 then 0 else total
    orderCount := if dropOrder ∧ l.orderCount > 0 then l.orderCount - 1 else l.orderCount }

def empty (l : PriceLevel) : Bool := decide (l.orderCount ≤ 0)

@[simp] theorem addOrder_price (l : PriceLevel) (qty : Int) :
    (l.addOrder qty).price = l.price := rfl

@[simp] theorem removeOrder_price (l : PriceLevel) (qty : Int) (dropOrder : Bool) :
    (l.removeOrder qty dropOrder).price = l.price := rfl

end PriceLevel

def kMaxLevelsPerSide : Nat := 256

/-- Whether a level at price `a` sorts strictly before one at price `b`: bids are
descending, asks ascending. -/
def sortsBefore (isBid : Bool) (a b : Int) : Bool :=
  if isBid then decide (a > b) else decide (a < b)

def searchLevel (isBid : Bool) (levels : List PriceLevel) (hit : PriceLevel → Bool)
    (price : Int) : Option Bisect.Outcome :=
  Bisect.search hit (fun l => sortsBefore isBid l.price price) levels

/-- Index of the level with this price, or the number of levels if there is none. -/
def findLevel (isBid : Bool) (levels : List PriceLevel) (price : Int) : Nat :=
  match searchLevel isBid levels (fun l => l.price == price) price with
  | some (.found i) => i
  | _ => levels.length

def insertionPoint (isBid : Bool) (levels : List PriceLevel) (price : Int) : Nat :=
  match searchLevel isBid levels (fun _ => false) price with
  | some (.stop lo) => lo
  | _ => levels.length

def addQtyToLevel (isBid : Bool) (levels : List PriceLevel) (price : Int) (qty : Int) :
    List PriceLevel :=
  let idx := findLevel isBid levels price
  if idx < levels.length then levels.modify idx (fun l => l.addOrder qty)
  else
    let pos := insertionPoint isBid levels price
    let level := PriceLevel.addOrder ⟨price, 0, 0⟩ qty
    if levels.length ≥ kMaxLevelsPerSide then
      -- full: a worse level is dropped, a better one pushes out the last
      if pos ≥ kMaxLevelsPerSide then levels
      else (levels.insertIdx pos level).take kMaxLevelsPerSide
    else levels.insertIdx pos level

def removeQtyFromLevel (isBid : Bool) (levels : List PriceLevel) (price : Int)
    (qty : Int) (dropOrder : Bool) : List PriceLevel :=
  let idx := findLevel isBid levels price
  if idx ≥ levels.length then levels
  else
    let updated := levels.modify idx (fun l => l.removeOrder qty dropOrder)
    if (updated.getD idx default).empty then updated.eraseIdx idx else updated

/-- First level with this price, by a scan from the best level on. -/
def levelAt (levels : List PriceLevel) (price : Int) : Option PriceLevel :=
  levels.find? (fun l => l.price == price)

/-! ### Sorted sides -/

/-- Strictly sorted, best price first. -/
def Sorted (isBid : Bool) (levels : List PriceLevel) : Prop :=
  levels.Pairwise (fun a b => sortsBefore isBid a.price b.price = true)

theorem sortsBefore_trans {isBid : Bool} {a b c : Int} (ab : sortsBefore isBid a b = true)
    (bc : sortsBefore isBid b c = true) : sortsBefore isBid a c = true := by
  cases isBid <;> simp [sortsBefore] at * <;> omega

theorem sortsBefore_irrefl (isBid : Bool) (a : Int) : sortsBefore isBid a a = false := by
  cases isBid <;> simp [sortsBefore]

theorem sortsBefore_asymm {isBid : Bool} {a b : Int} (earlier : sortsBefore isBid a b = true) :
    sortsBefore isBid b a = false := by
  cases isBid <;> simp [sortsBefore] at * <;> omega

theorem sortsBefore_total {isBid : Bool} {a b : Int} (different : a ≠ b)
    (later : sortsBefore isBid a b = false) : sortsBefore isBid b a = true := by
  cases isBid <;> simp [sortsBefore] at * <;> omega

/-- Where a price belongs in a sorted side, and what both searches return there. -/
structure SplitAt (isBid : Bool) (levels : List PriceLevel) (price : Int)
    (pre post : List PriceLevel) : Prop where
  append : levels = pre ++ post
  before : ∀ l ∈ pre, sortsBefore isBid l.price price = true
  after : ∀ l ∈ post, sortsBefore isBid l.price price = false

theorem split_exists {isBid : Bool} {levels : List PriceLevel} (sorted : Sorted isBid levels)
    (price : Int) : ∃ pre post, SplitAt isBid levels price pre post := by
  induction levels with
  | nil => exact ⟨[], [], rfl, by simp, by simp⟩
  | cons l rest ih =>
    obtain ⟨first, tail⟩ := List.pairwise_cons.mp sorted
    by_cases earlier : sortsBefore isBid l.price price = true
    · obtain ⟨pre, post, append, before, after⟩ := ih tail
      refine ⟨l :: pre, post, by rw [append, List.cons_append], ?_, after⟩
      simpa [earlier] using before
    · refine ⟨[], l :: rest, rfl, by simp, ?_⟩
      intro m member
      rcases List.mem_cons.mp member with rfl | later
      · simpa using earlier
      · by_contra sooner
        exact earlier (sortsBefore_trans (first m later) (by simpa using sooner))

section Split

variable {isBid : Bool} {levels pre post : List PriceLevel} {price : Int}

private theorem SplitAt.partitioned (split : SplitAt isBid levels price pre post) :
    Bisect.Partitioned (fun l => sortsBefore isBid l.price price) levels pre.length := by
  obtain ⟨rfl, before, after⟩ := split
  refine ⟨by simp, ?_, ?_⟩
  · intro i bound
    rw [List.getD_append _ _ _ _ bound, List.getD_eq_getElem _ _ bound]
    exact before _ (List.getElem_mem bound)
  · intro i bound outside
    rw [List.length_append] at bound
    rw [List.getD_append_right _ _ _ _ outside, List.getD_eq_getElem _ _ (by omega)]
    exact after _ (List.getElem_mem _)

theorem SplitAt.insertionPoint_eq (split : SplitAt isBid levels price pre post) :
    insertionPoint isBid levels price = pre.length := by
  rw [insertionPoint, searchLevel, Bisect.search_spec split.partitioned (by simp [Bisect.HitsAt])]
  simp

/-- A price that is present is the first of the later levels. -/
theorem SplitAt.findLevel_eq (split : SplitAt isBid levels price pre post)
    (sorted : Sorted isBid levels) :
    (∃ l rest, post = l :: rest ∧ l.price = price ∧ findLevel isBid levels price = pre.length) ∨
    ((∀ l ∈ levels, l.price ≠ price) ∧ findLevel isBid levels price = levels.length) := by
  have hits : Bisect.HitsAt (fun l => l.price == price) levels pre.length := by
    intro i bound equal
    have parts := split.partitioned
    simp only [beq_iff_eq] at equal
    by_contra different
    rcases Nat.lt_or_gt_of_ne different with earlier | later
    -- levels before the split are strictly better, those after its head strictly worse
    · have := parts.below i earlier
      rw [equal, sortsBefore_irrefl] at this
      exact Bool.false_ne_true this
    · have first := parts.above pre.length (by omega) (le_refl _)
      have ordered := List.pairwise_iff_getElem.mp sorted pre.length i (by omega) bound later
      rw [List.getD_eq_getElem _ _ bound] at equal
      rw [List.getD_eq_getElem _ _ (by omega)] at first
      rw [equal, first] at ordered
      exact Bool.false_ne_true ordered
  rw [findLevel, searchLevel, Bisect.search_spec split.partitioned hits]
  split_ifs with found
  · obtain ⟨bound, equal⟩ := found
    left
    obtain ⟨rfl, before, after⟩ := split
    cases post with
    | nil => simp at bound
    | cons l rest => exact ⟨l, rest, rfl, by simpa using equal, rfl⟩
  · right
    refine ⟨?_, rfl⟩
    intro l member equal
    obtain ⟨i, bound, rfl⟩ := List.mem_iff_getElem.mp member
    have here : (levels.getD i default).price = price := by
      rw [List.getD_eq_getElem _ _ bound, equal]
    -- a level with the price would sit where the search has looked
    have index := hits i bound (by simpa using here)
    exact found ⟨index ▸ bound, by simpa [← index] using here⟩

theorem SplitAt.head_mem {l : PriceLevel} (split : SplitAt isBid levels price pre (l :: post)) :
    l ∈ levels := by
  rw [split.append]
  simp

theorem findLevel_absent (sorted : Sorted isBid levels) (absent : ∀ l ∈ levels, l.price ≠ price) :
    findLevel isBid levels price = levels.length := by
  obtain ⟨pre, post, split⟩ := split_exists sorted price
  rcases split.findLevel_eq sorted with ⟨l, rest, rfl, equal, _⟩ | ⟨_, index⟩
  · exact absurd equal (absent l split.head_mem)
  · exact index

private theorem insertIdx_middle (pre post : List PriceLevel) (l : PriceLevel) :
    (pre ++ post).insertIdx pre.length l = pre ++ l :: post := by
  induction pre with
  | nil => simp
  | cons a pre ih => simp [ih]

private theorem modify_middle (pre post : List PriceLevel) (l : PriceLevel)
    (f : PriceLevel → PriceLevel) :
    (pre ++ l :: post).modify pre.length f = pre ++ f l :: post := by
  induction pre with
  | nil => simp
  | cons a pre ih => simp [ih]

/-- Adding at a price without a level opens one where it belongs. On a full side the last level
falls off, or nothing happens when all levels are better. -/
theorem SplitAt.addQtyToLevel_absent (split : SplitAt isBid levels price pre post)
    (sorted : Sorted isBid levels) (absent : ∀ l ∈ levels, l.price ≠ price) (qty : Int) :
    addQtyToLevel isBid levels price qty =
      if levels.length < kMaxLevelsPerSide then
        pre ++ PriceLevel.addOrder ⟨price, 0, 0⟩ qty :: post
      else if kMaxLevelsPerSide ≤ pre.length then levels
      else (pre ++ PriceLevel.addOrder ⟨price, 0, 0⟩ qty :: post).take kMaxLevelsPerSide := by
  have inserted (l : PriceLevel) : levels.insertIdx pre.length l = pre ++ l :: post := by
    rw [split.append, insertIdx_middle]
  have index := findLevel_absent sorted absent
  have outside : ¬ levels.length < levels.length := lt_irrefl _
  simp only [addQtyToLevel, index, if_neg outside, split.insertionPoint_eq, inserted, ge_iff_le]
  by_cases room : levels.length < kMaxLevelsPerSide
  · rw [if_neg (Nat.not_le.mpr room), if_pos room]
  · rw [if_pos (Nat.not_lt.mp room), if_neg room]

/-- Everything adding to a level can do: grow the level of that price, open a new
level where it belongs (dropping the last one of a full side), or nothing when the
side is full of better levels. -/
theorem addQtyToLevel_cases (sorted : Sorted isBid levels) (price qty : Int) :
    (∃ pre l post, levels = pre ++ l :: post ∧ l.price = price ∧
      addQtyToLevel isBid levels price qty = pre ++ l.addOrder qty :: post) ∨
    (∃ pre post, SplitAt isBid levels price pre post ∧ (∀ l ∈ levels, l.price ≠ price) ∧
      levels.length < kMaxLevelsPerSide ∧
      addQtyToLevel isBid levels price qty = pre ++ PriceLevel.addOrder ⟨price, 0, 0⟩ qty :: post) ∨
    (∃ pre post, SplitAt isBid levels price pre post ∧ (∀ l ∈ levels, l.price ≠ price) ∧
      kMaxLevelsPerSide ≤ levels.length ∧
      addQtyToLevel isBid levels price qty = if kMaxLevelsPerSide ≤ pre.length then levels else
        (pre ++ PriceLevel.addOrder ⟨price, 0, 0⟩ qty :: post).take kMaxLevelsPerSide) := by
  obtain ⟨pre, post, split⟩ := split_exists sorted price
  -- the search says which branch of the code is taken
  rcases split.findLevel_eq sorted with ⟨l, rest, rfl, equal, index⟩ | ⟨absent, _⟩
  · left
    refine ⟨pre, l, rest, split.append, equal, ?_⟩
    have inside : pre.length < levels.length := by rw [split.append]; simp
    simp only [addQtyToLevel, index, if_pos inside]
    rw [split.append, modify_middle]
  · right
    have result := split.addQtyToLevel_absent sorted absent qty
    by_cases room : levels.length < kMaxLevelsPerSide
    · left
      rw [if_pos room] at result
      exact ⟨pre, post, split, absent, room, result⟩
    · right
      rw [if_neg room] at result
      exact ⟨pre, post, split, absent, Nat.not_lt.mp room, result⟩

/-- Removing shrinks the level of that price, which disappears with its last order. -/
theorem SplitAt.removeQtyFromLevel_present {l : PriceLevel}
    (split : SplitAt isBid levels price pre (l :: post)) (sorted : Sorted isBid levels)
    (here : l.price = price) (qty : Int) (dropOrder : Bool) :
    removeQtyFromLevel isBid levels price qty dropOrder =
      if (l.removeOrder qty dropOrder).empty then pre ++ post
      else pre ++ l.removeOrder qty dropOrder :: post := by
  rcases split.findLevel_eq sorted with ⟨_, _, _, _, index⟩ | ⟨absent, _⟩
  · have inside : ¬ pre.length ≥ levels.length := by rw [split.append]; simp
    have updated : levels.modify pre.length (fun l => l.removeOrder qty dropOrder) =
        pre ++ l.removeOrder qty dropOrder :: post := by
      rw [split.append, modify_middle]
    simp only [removeQtyFromLevel, index, if_neg inside, updated]
    rw [List.getD_append_right _ _ _ _ (le_refl _), Nat.sub_self, List.getD_cons_zero,
      List.eraseIdx_append_of_length_le (le_refl _), Nat.sub_self, List.eraseIdx_cons_zero]
  · exact absurd here (absent l split.head_mem)

/-- Everything removing from a level can do: nothing when the price has no level, else
shrink that level. -/
theorem removeQtyFromLevel_cases (sorted : Sorted isBid levels) (price qty : Int)
    (dropOrder : Bool) :
    ((∀ l ∈ levels, l.price ≠ price) ∧
      removeQtyFromLevel isBid levels price qty dropOrder = levels) ∨
    (∃ pre l post, levels = pre ++ l :: post ∧ l.price = price ∧
      removeQtyFromLevel isBid levels price qty dropOrder =
        if (l.removeOrder qty dropOrder).empty then pre ++ post
        else pre ++ l.removeOrder qty dropOrder :: post) := by
  obtain ⟨pre, post, split⟩ := split_exists sorted price
  rcases split.findLevel_eq sorted with ⟨l, rest, rfl, equal, index⟩ | ⟨absent, index⟩
  · right
    exact ⟨pre, l, rest, split.append, equal,
      split.removeQtyFromLevel_present sorted equal qty dropOrder⟩
  · left
    refine ⟨absent, ?_⟩
    simp only [removeQtyFromLevel, index, if_pos (le_refl _)]

/-- Replacing a level by one at the same price keeps the order. -/
theorem sorted_replace {l m : PriceLevel} (sorted : Sorted isBid (pre ++ l :: post))
    (same : m.price = l.price) : Sorted isBid (pre ++ m :: post) := by
  unfold Sorted at *
  simp only [List.pairwise_append, List.pairwise_cons, List.mem_cons, forall_eq_or_imp, same] at *
  exact sorted

theorem sorted_remove {l : PriceLevel} (sorted : Sorted isBid (pre ++ l :: post)) :
    Sorted isBid (pre ++ post) :=
  sorted.sublist ((List.Sublist.refl pre).append (List.sublist_cons_self l post))

/-- A new price goes between the levels before it and the levels after it. -/
theorem SplitAt.sorted_insert (split : SplitAt isBid levels price pre post)
    (sorted : Sorted isBid levels) (absent : ∀ l ∈ levels, l.price ≠ price) {m : PriceLevel}
    (here : m.price = price) : Sorted isBid (pre ++ m :: post) := by
  obtain ⟨rfl, before, after⟩ := split
  obtain ⟨left, right, across⟩ := List.pairwise_append.mp sorted
  -- not before the new price and not equal to it, so behind it
  have behind : ∀ l ∈ post, sortsBefore isBid m.price l.price = true := by
    intro l member
    rw [here]
    exact sortsBefore_total (absent l (List.mem_append_right _ member)) (after l member)
  refine List.pairwise_append.mpr ⟨left, List.pairwise_cons.mpr ⟨behind, right⟩, ?_⟩
  intro a ha b hb
  rcases List.mem_cons.mp hb with rfl | later
  · rw [here]
    exact before a ha
  · exact across a ha b later

/-! ### What a scan finds -/

theorem levelAt_eq_none_iff (levels : List PriceLevel) (price : Int) :
    levelAt levels price = none ↔ ∀ l ∈ levels, l.price ≠ price := by
  simp [levelAt]

private theorem levelAt_append (pre post : List PriceLevel) (price : Int) :
    levelAt (pre ++ post) price = (levelAt pre price).or (levelAt post price) := by
  simp [levelAt]

/-- In a sorted side a level is the only one at its price. -/
theorem levelAt_middle {m : PriceLevel} (sorted : Sorted isBid (pre ++ m :: post)) (q : Int) :
    levelAt (pre ++ m :: post) q = if q = m.price then some m else levelAt (pre ++ post) q := by
  obtain ⟨_, right, across⟩ := List.pairwise_append.mp sorted
  rw [levelAt_append, levelAt_append]
  split_ifs with here
  · have absent : levelAt pre q = none := by
      rw [levelAt_eq_none_iff]
      intro l member equal
      have earlier := across l member m (List.mem_cons_self)
      rw [equal, here, sortsBefore_irrefl] at earlier
      exact Bool.false_ne_true earlier
    rw [absent, Option.none_or]
    simp [levelAt, here]
  · have skip : levelAt (m :: post) q = levelAt post q := by
      simp [levelAt, Ne.symm here]
    rw [skip]

theorem levelAt_eq_some_iff (sorted : Sorted isBid levels) (l : PriceLevel) :
    levelAt levels l.price = some l ↔ l ∈ levels := by
  constructor
  · exact List.mem_of_find?_eq_some
  · intro member
    obtain ⟨pre, post, rfl⟩ := List.append_of_mem member
    rw [levelAt_middle sorted, if_pos rfl]

theorem levelAt_without {m : PriceLevel} (sorted : Sorted isBid (pre ++ m :: post)) :
    levelAt (pre ++ post) m.price = none := by
  rw [levelAt_eq_none_iff]
  intro l member equal
  obtain ⟨_, right, across⟩ := List.pairwise_append.mp sorted
  have ordered : sortsBefore isBid l.price m.price = true ∨ sortsBefore isBid m.price l.price = true := by
    rcases List.mem_append.mp member with earlier | later
    · exact .inl (across l earlier m (List.mem_cons_self))
    · exact .inr ((List.pairwise_cons.mp right).1 l later)
  rw [equal, sortsBefore_irrefl] at ordered
  simp at ordered

/-- The insertion point is the number of better levels. -/
theorem insertionPoint_eq_countP (sorted : Sorted isBid levels) (price : Int) :
    insertionPoint isBid levels price =
      levels.countP fun l => sortsBefore isBid l.price price := by
  obtain ⟨pre, post, split⟩ := split_exists sorted price
  have better := List.countP_eq_length.mpr split.before
  have worse : post.countP (fun l => sortsBefore isBid l.price price) = 0 := by
    rw [List.countP_eq_zero]
    intro l member
    simp [split.after l member]
  rw [split.insertionPoint_eq, split.append, List.countP_append, better, worse, Nat.add_zero]

/-- The bisection and the scan find the same level. -/
theorem levelAt_eq_findLevel (sorted : Sorted isBid levels) (price : Int) :
    levelAt levels price = levels[findLevel isBid levels price]? := by
  obtain ⟨pre, post, split⟩ := split_exists sorted price
  rcases split.findLevel_eq sorted with ⟨l, rest, rfl, equal, index⟩ | ⟨absent, index⟩
  · rw [index]
    rw [split.append] at sorted ⊢
    rw [levelAt_middle sorted, if_pos equal.symm, List.getElem?_append_right (le_refl _),
      Nat.sub_self, List.getElem?_cons_zero]
  · rw [index, (levelAt_eq_none_iff levels price).mpr absent, List.getElem?_eq_none (le_refl _)]

/-- No two levels of a sorted side have the same price. -/
theorem Sorted.index_unique (sorted : Sorted isBid levels) {i j : Nat} (inside : i < levels.length)
    (inside' : j < levels.length) (same : levels[i].price = levels[j].price) : i = j := by
  have apart {i j : Nat} (inside : i < levels.length) (inside' : j < levels.length) (ordered : i < j) :
      levels[i].price ≠ levels[j].price := by
    intro same
    have before := List.pairwise_iff_getElem.mp sorted i j inside inside' ordered
    rw [same, sortsBefore_irrefl] at before
    exact Bool.false_ne_true before
  rcases Nat.lt_trichotomy i j with earlier | equal | later
  · exact absurd same (apart inside inside' earlier)
  · exact equal
  · exact absurd same.symm (apart inside' inside later)

/-- The index found holds the price, and no other one does. -/
theorem findLevel_eq_iff (sorted : Sorted isBid levels) (price : Int) {i : Nat}
    (inside : i < levels.length) : findLevel isBid levels price = i ↔ levels[i].price = price := by
  have scanned := levelAt_eq_findLevel sorted price
  constructor
  · intro found
    rw [found, List.getElem?_eq_getElem inside] at scanned
    simpa using List.find?_some scanned
  · intro here
    have shown := (levelAt_eq_some_iff sorted levels[i]).mpr (List.getElem_mem inside)
    rw [here, scanned, List.getElem?_eq_some_iff] at shown
    obtain ⟨inside', equal⟩ := shown
    exact sorted.index_unique inside' inside (congrArg PriceLevel.price equal)

/-- Adding where there is room changes what is found at that price only. -/
theorem levelAt_addQtyToLevel (sorted : Sorted isBid levels) (price qty : Int)
    (room : levelAt levels price = none → levels.length < kMaxLevelsPerSide) (q : Int) :
    levelAt (addQtyToLevel isBid levels price qty) q =
      if q = price then some (((levelAt levels price).getD ⟨price, 0, 0⟩).addOrder qty)
      else levelAt levels q := by
  rcases addQtyToLevel_cases sorted price qty with
    ⟨pre, l, post, rfl, rfl, result⟩ | ⟨pre, post, split, absent, _, result⟩ |
    ⟨pre, post, split, absent, full, _⟩
  · have grown : Sorted isBid (pre ++ l.addOrder qty :: post) := sorted_replace sorted rfl
    rw [result, levelAt_middle grown, levelAt_middle sorted, levelAt_middle sorted, if_pos rfl,
      PriceLevel.addOrder_price, Option.getD_some]
    by_cases here : q = l.price <;> simp [here]
  · have none : levelAt levels price = none := (levelAt_eq_none_iff levels price).mpr absent
    rw [result, levelAt_middle (split.sorted_insert sorted absent rfl), ← split.append, none]
    rfl
  · have := room ((levelAt_eq_none_iff levels price).mpr absent)
    omega

/-- What is found in a part that stays is found in the whole. -/
private theorem levelAt_take (levels : List PriceLevel) (n : Nat) (q : Int) :
    levelAt (levels.take n) q = levelAt levels q ∨ levelAt (levels.take n) q = none := by
  cases found : levelAt (levels.take n) q with
  | none => exact .inr rfl
  | some l => exact .inl ((List.take_prefix _ _).find?_eq_some found).symm

/-- Adding changes what is found at another price only when it pushes that level out. -/
theorem levelAt_addQtyToLevel_away (sorted : Sorted isBid levels) {price : Int} (qty : Int) {q : Int}
    (away : q ≠ price) :
    levelAt (addQtyToLevel isBid levels price qty) q = levelAt levels q ∨
      levelAt (addQtyToLevel isBid levels price qty) q = none := by
  by_cases room : levelAt levels price = none → levels.length < kMaxLevelsPerSide
  · rw [levelAt_addQtyToLevel sorted price qty room, if_neg away]
    exact .inl rfl
  · obtain ⟨none, full⟩ := Classical.not_imp.mp room
    have absent := (levelAt_eq_none_iff levels price).mp none
    obtain ⟨pre, post, split⟩ := split_exists sorted price
    rw [split.addQtyToLevel_absent sorted absent qty, if_neg full]
    split_ifs
    · exact .inl rfl
    have opened := split.sorted_insert sorted absent
      (m := PriceLevel.addOrder ⟨price, 0, 0⟩ qty) rfl
    have apart := levelAt_middle opened q
    rw [PriceLevel.addOrder_price, if_neg away, ← split.append] at apart
    rw [← apart]
    exact levelAt_take _ _ q

/-- Adding grows the level at its price or opens one, unless the side is full of better levels. -/
theorem levelAt_addQtyToLevel_here (sorted : Sorted isBid levels) (price qty : Int) :
    levelAt (addQtyToLevel isBid levels price qty) price =
        some (((levelAt levels price).getD ⟨price, 0, 0⟩).addOrder qty) ∨
      (levelAt levels price = none ∧
        levelAt (addQtyToLevel isBid levels price qty) price = none) := by
  by_cases room : levelAt levels price = none → levels.length < kMaxLevelsPerSide
  · rw [levelAt_addQtyToLevel sorted price qty room, if_pos rfl]
    exact .inl rfl
  · obtain ⟨none, full⟩ := Classical.not_imp.mp room
    have absent := (levelAt_eq_none_iff levels price).mp none
    obtain ⟨pre, post, split⟩ := split_exists sorted price
    rw [split.addQtyToLevel_absent sorted absent qty, if_neg full, none]
    split_ifs
    · exact .inr ⟨rfl, none⟩
    have opened := split.sorted_insert sorted absent
      (m := PriceLevel.addOrder ⟨price, 0, 0⟩ qty) rfl
    have here := levelAt_middle opened price
    rw [PriceLevel.addOrder_price, if_pos rfl] at here
    rw [Option.getD_none, ← here]
    exact (levelAt_take _ _ price).imp_right fun gone => ⟨rfl, gone⟩

/-- Removing changes what is found at that price only. -/
theorem levelAt_removeQtyFromLevel (sorted : Sorted isBid levels) (price qty : Int)
    (dropOrder : Bool) (q : Int) :
    levelAt (removeQtyFromLevel isBid levels price qty dropOrder) q =
      if q = price then (levelAt levels price).bind fun l =>
        if (l.removeOrder qty dropOrder).empty then none else some (l.removeOrder qty dropOrder)
      else levelAt levels q := by
  rcases removeQtyFromLevel_cases sorted price qty dropOrder with
    ⟨absent, result⟩ | ⟨pre, l, post, rfl, rfl, result⟩
  · rw [result]
    split_ifs with here
    · rw [here, (levelAt_eq_none_iff levels price).mpr absent, Option.bind_none]
    · rfl
  · have shrunk : Sorted isBid (pre ++ l.removeOrder qty dropOrder :: post) :=
      sorted_replace sorted rfl
    rw [result, levelAt_middle sorted, levelAt_middle sorted, if_pos rfl, Option.bind_some]
    by_cases here : q = l.price
    · split_ifs
      · rw [here, levelAt_without sorted]
      · rw [levelAt_middle shrunk, PriceLevel.removeOrder_price, if_pos here]
    · split_ifs
      · rfl
      · rw [levelAt_middle shrunk, PriceLevel.removeOrder_price, if_neg here]

/-! ### The side invariant -/

/-- A level in use, on the tick grid. -/
structure LevelOk (tick : Int) (l : PriceLevel) : Prop where
  used : 1 ≤ l.orderCount
  onTick : tick ≠ 0 → tick ∣ l.price

/-- A side of the book that no handler can break. -/
structure SideOk (tick : Int) (isBid : Bool) (levels : List PriceLevel) : Prop where
  sorted : Sorted isBid levels
  bounded : levels.length ≤ kMaxLevelsPerSide
  each : ∀ l ∈ levels, LevelOk tick l

theorem sideOk_nil (tick : Int) (isBid : Bool) : SideOk tick isBid [] :=
  ⟨List.Pairwise.nil, Nat.zero_le _, by simp⟩

theorem sideOk_singleton {tick : Int} {l : PriceLevel} (isBid : Bool) (ok : LevelOk tick l) :
    SideOk tick isBid [l] :=
  ⟨List.pairwise_singleton _ _, by simp [kMaxLevelsPerSide], by simpa using ok⟩

/-- Levels around a replaced or inserted one are fine if they were. -/
private theorem each_middle {tick : Int} {m : PriceLevel} (ok : LevelOk tick m)
    (left : ∀ l ∈ pre, LevelOk tick l) (right : ∀ l ∈ post, LevelOk tick l) :
    ∀ l ∈ pre ++ m :: post, LevelOk tick l := by
  simp only [List.mem_append, List.mem_cons]
  rintro l (member | rfl | member)
  · exact left l member
  · exact ok
  · exact right l member

theorem addQtyToLevel_sideOk {tick : Int} (ok : SideOk tick isBid levels) (price qty : Int)
    (grid : tick ≠ 0 → tick ∣ price) :
    SideOk tick isBid (addQtyToLevel isBid levels price qty) := by
  have fresh : LevelOk tick (PriceLevel.addOrder ⟨price, 0, 0⟩ qty) :=
    ⟨by simp [PriceLevel.addOrder], grid⟩
  obtain ⟨sorted, bounded, each⟩ := ok
  rcases addQtyToLevel_cases sorted price qty with
    ⟨pre, l, post, rfl, here, result⟩ | ⟨pre, post, split, absent, room, result⟩ |
    ⟨pre, post, split, absent, full, result⟩
  · -- the level grows: same price, one order more
    rw [List.forall_mem_append, List.forall_mem_cons] at each
    obtain ⟨left, ⟨used, onTick⟩, right⟩ := each
    have grown : LevelOk tick (l.addOrder qty) := ⟨by simp only [PriceLevel.addOrder]; omega, onTick⟩
    rw [result]
    exact ⟨sorted_replace sorted rfl, by simpa using bounded, each_middle grown left right⟩
  · have longer := congrArg List.length split.append
    rw [split.append, List.forall_mem_append] at each
    rw [List.length_append] at longer
    rw [result]
    refine ⟨split.sorted_insert sorted absent rfl, ?_, each_middle fresh each.1 each.2⟩
    rw [List.length_append, List.length_cons]
    omega
  · rw [result]
    split
    · exact ⟨sorted, bounded, each⟩
    · -- the last level falls off
      rw [split.append, List.forall_mem_append] at each
      have all := each_middle fresh each.1 each.2
      exact ⟨(split.sorted_insert sorted absent rfl).sublist (List.take_sublist _ _),
        List.length_take_le _ _, fun m member => all m (List.mem_of_mem_take member)⟩

theorem removeQtyFromLevel_sideOk {tick : Int} (ok : SideOk tick isBid levels) (price qty : Int)
    (dropOrder : Bool) :
    SideOk tick isBid (removeQtyFromLevel isBid levels price qty dropOrder) := by
  rcases removeQtyFromLevel_cases ok.sorted price qty dropOrder with
    ⟨_, result⟩ | ⟨pre, l, post, rfl, here, result⟩
  · rw [result]
    exact ok
  · obtain ⟨sorted, bounded, each⟩ := ok
    rw [List.forall_mem_append, List.forall_mem_cons] at each
    rw [List.length_append, List.length_cons] at bounded
    obtain ⟨left, ⟨_, onTick⟩, right⟩ := each
    rw [result]
    split
    next gone =>
      refine ⟨sorted_remove sorted, ?_, List.forall_mem_append.mpr ⟨left, right⟩⟩
      rw [List.length_append]
      omega
    next stays =>
      have shrunk : LevelOk tick (l.removeOrder qty dropOrder) := by
        refine ⟨?_, onTick⟩
        simp only [PriceLevel.empty, decide_eq_true_eq] at stays
        omega
      refine ⟨sorted_replace sorted rfl, ?_, each_middle shrunk left right⟩
      rw [List.length_append, List.length_cons]
      exact bounded

end Split

end NseHft
