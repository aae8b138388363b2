import Mathlib.Algebra.BigOperators.Group.List.Basic
import Mathlib.Algebra.Order.BigOperators.Group.List
import Mathlib.Algebra.Order.Group.Int
import Mathlib.Data.Finset.Card
import NseHft.OrderBook.OrderBook

/-!
# Levels and tracked orders agree

The order table and the two level arrays are updated separately by every handler. Over
a feed of well-formed events that fits the configured capacities, the levels are at all
times the aggregate of the tracked orders.
-/
namespace NseHft

open FixedWidth

/-! ### Aggregating orders -/

/-- The orders that rest on a side at a price. -/
def restingAt (side : Side) (price : Int) (orders : List OrderRecord) : List OrderRecord :=
  orders.filter fun r => r.side = side ∧ r.price = price

def totalAt (side : Side) (price : Int) (orders : List OrderRecord) : Int :=
  ((restingAt side price orders).map OrderRecord.qty).sum

/-- The level that a set of orders shows at a price, if any rests there. -/
def aggregate (side : Side) (price : Int) (orders : List OrderRecord) : Option PriceLevel :=
  if restingAt side price orders = [] then none
  else some ⟨price, totalAt side price orders, (restingAt side price orders).length⟩

/-- The distinct prices at which orders rest on a side. -/
def livePrices (side : Side) (orders : List OrderRecord) : Finset Int :=
  ((orders.filter fun r => r.side = side).map OrderRecord.price).toFinset

section Aggregate

variable {side : Side} {price : Int} {orders orders' : List OrderRecord} {r : OrderRecord}

theorem restingAt_cons_here (here : r.side = side ∧ r.price = price) :
    restingAt side price (r :: orders) = r :: restingAt side price orders := by
  simp [restingAt, here.1, here.2]

theorem restingAt_cons_away (away : ¬ (r.side = side ∧ r.price = price)) :
    restingAt side price (r :: orders) = restingAt side price orders := by
  simp only [restingAt, List.filter_cons, away, decide_false, Bool.false_eq_true, if_false]

theorem totalAt_cons_here (here : r.side = side ∧ r.price = price) :
    totalAt side price (r :: orders) = r.qty + totalAt side price orders := by
  simp only [totalAt, restingAt_cons_here here, List.map_cons, List.sum_cons]

theorem aggregate_cons_here (here : r.side = side ∧ r.price = price) :
    aggregate side price (r :: orders) = some ⟨price, r.qty + totalAt side price orders,
      (restingAt side price orders).length + 1⟩ := by
  rw [aggregate, totalAt_cons_here here, restingAt_cons_here here, if_neg (List.cons_ne_nil _ _),
    List.length_cons, Int.natCast_succ]

theorem aggregate_cons_away (away : ¬ (r.side = side ∧ r.price = price)) :
    aggregate side price (r :: orders) = aggregate side price orders := by
  simp only [aggregate, totalAt, restingAt_cons_away away]

theorem aggregate_getD (side : Side) (price : Int) (orders : List OrderRecord) :
    (aggregate side price orders).getD ⟨price, 0, 0⟩ =
      ⟨price, totalAt side price orders, (restingAt side price orders).length⟩ := by
  rw [aggregate]
  split
  next none => simp [totalAt, none]
  · rfl

theorem restingAt_perm (perm : orders.Perm orders') :
    (restingAt side price orders).Perm (restingAt side price orders') := perm.filter _

theorem totalAt_perm (perm : orders.Perm orders') :
    totalAt side price orders = totalAt side price orders' :=
  ((restingAt_perm perm).map _).sum_eq

theorem aggregate_perm (perm : orders.Perm orders') :
    aggregate side price orders = aggregate side price orders' := by
  have same : (restingAt side price orders).Perm (restingAt side price orders') :=
    restingAt_perm perm
  have empty : restingAt side price orders = [] ↔ restingAt side price orders' = [] :=
    ⟨fun h => (h ▸ same).nil_eq.symm, fun h => (h ▸ same).eq_nil⟩
  simp only [aggregate, totalAt_perm perm, same.length_eq, empty]

theorem livePrices_perm (perm : orders.Perm orders') :
    livePrices side orders = livePrices side orders' :=
  List.toFinset_eq_of_perm _ _ ((perm.filter _).map _)

theorem mem_livePrices : price ∈ livePrices side orders ↔ restingAt side price orders ≠ [] := by
  simp [livePrices, restingAt, and_assoc]

theorem livePrices_cons (here : r.side = side) :
    livePrices side (r :: orders) = insert r.price (livePrices side orders) := by
  simp [livePrices, here]

theorem aggregate_eq_some_iff (l : PriceLevel) : aggregate side price orders = some l ↔
      restingAt side price orders ≠ [] ∧
        l = ⟨price, totalAt side price orders, (restingAt side price orders).length⟩ := by
  rw [aggregate]
  split_ifs with none
  · simp [none]
  · simp [none, eq_comm]

theorem restingAt_ne_nil_iff :
    restingAt side price orders ≠ [] ↔ ∃ r ∈ orders, r.side = side ∧ r.price = price := by
  simp [restingAt]

/-- Only the orders at the price count. -/
theorem totalAt_nonneg_at (positive : ∀ r ∈ orders, r.side = side → r.price = price → 0 < r.qty) :
    0 ≤ totalAt side price orders := by
  apply List.sum_nonneg
  intro qty member
  obtain ⟨r, resting, rfl⟩ := List.mem_map.mp member
  obtain ⟨listed, here⟩ := List.mem_filter.mp resting
  simp only [Bool.decide_and, Bool.and_eq_true, decide_eq_true_eq] at here
  exact le_of_lt (positive r listed here.1 here.2)

theorem totalAt_nonneg (positive : ∀ r ∈ orders, 0 < r.qty) : 0 ≤ totalAt side price orders :=
  totalAt_nonneg_at fun r member _ _ => positive r member

/-- Every order counts at least one unit. -/
theorem length_le_totalAt (positive : ∀ r ∈ orders, 0 < r.qty) :
    ((restingAt side price orders).length : Int) ≤ totalAt side price orders := by
  have bound := List.card_nsmul_le_sum ((restingAt side price orders).map OrderRecord.qty) 1 (by
    intro qty member
    obtain ⟨r, resting, rfl⟩ := List.mem_map.mp member
    exact positive r (List.mem_of_mem_filter resting))
  simpa [totalAt] using bound

/-- An order is no larger than its level. -/
theorem qty_fits (positive : ∀ o ∈ orders, 0 < o.qty) (member : r ∈ orders)
    (fits : FitsI32 (totalAt r.side r.price orders)) : FitsI32 r.qty := by
  have resting : r ∈ restingAt r.side r.price orders := by simp [restingAt, member]
  have bound : r.qty ≤ totalAt r.side r.price orders := by
    refine List.single_le_sum ?_ r.qty (List.mem_map_of_mem resting)
    intro qty listed
    obtain ⟨o, rests, rfl⟩ := List.mem_map.mp listed
    exact le_of_lt (positive o (List.mem_of_mem_filter rests))
  have least := positive r member
  simp only [FitsI32] at fits ⊢
  omega

theorem totalAt_cons_ge (nonneg : 0 ≤ r.qty) :
    totalAt side price orders ≤ totalAt side price (r :: orders) := by
  by_cases here : r.side = side ∧ r.price = price
  · rw [totalAt_cons_here here]
    omega
  · rw [totalAt, totalAt, restingAt_cons_away here]

/-- No level holds more than all orders together. -/
theorem fits_of_sum (positive : ∀ r ∈ orders, 0 < r.qty)
    (small : (orders.map OrderRecord.qty).sum < 2 ^ 31) : FitsI32 (totalAt side price orders) := by
  have nonneg : 0 ≤ totalAt side price orders := totalAt_nonneg positive
  have most : totalAt side price orders ≤ (orders.map OrderRecord.qty).sum := by
    refine List.Sublist.sum_le_sum (List.filter_sublist.map _) ?_
    intro qty member
    obtain ⟨r, listed, rfl⟩ := List.mem_map.mp member
    exact le_of_lt (positive r listed)
  simp only [FitsI32]
  omega

theorem livePrices_card_le : (livePrices side orders).card ≤ orders.length := by
  refine le_trans (List.toFinset_card_le _) ?_
  rw [List.length_map]
  exact List.length_filter_le _ _

/-- Shrinking an order shrinks the sums. -/
theorem totalAt_cons_mono {r' : OrderRecord} (same : r'.side = r.side ∧ r'.price = r.price)
    (smaller : r'.qty ≤ r.qty) :
    totalAt side price (r' :: orders) ≤ totalAt side price (r :: orders) := by
  by_cases here : r.side = side ∧ r.price = price
  · rw [totalAt_cons_here here, totalAt_cons_here ⟨same.1.trans here.1, same.2.trans here.2⟩]
    omega
  · have away : ¬ (r'.side = side ∧ r'.price = price) :=
      fun both => here ⟨same.1.symm.trans both.1, same.2.symm.trans both.2⟩
    rw [totalAt, totalAt, restingAt_cons_away here, restingAt_cons_away away]

/-- Sums of positive quantities that do not grow still fit. -/
theorem fits_of_le {orders' : List OrderRecord} (positive : ∀ r ∈ orders, 0 < r.qty)
    (fits : FitsI32 (totalAt side price orders'))
    (smaller : totalAt side price orders ≤ totalAt side price orders') :
    FitsI32 (totalAt side price orders) := by
  have nonneg : 0 ≤ totalAt side price orders := totalAt_nonneg positive
  simp only [FitsI32] at fits ⊢
  omega

/-- The level after an order has joined it. -/
theorem aggregate_add (fits : FitsI32 (totalAt r.side r.price (r :: orders))) :
    aggregate r.side r.price (r :: orders) =
      some (((aggregate r.side r.price orders).getD ⟨r.price, 0, 0⟩).addOrder r.qty) := by
  rw [totalAt_cons_here ⟨rfl, rfl⟩] at fits
  rw [aggregate_cons_here ⟨rfl, rfl⟩, aggregate_getD]
  simp only [PriceLevel.addOrder]
  rw [add_comm _ r.qty, i32_eq_self _ fits]

/-- The level after an order has left it, which goes with its last order. -/
theorem aggregate_remove (nonneg : 0 ≤ totalAt r.side r.price orders)
    (fits : FitsI32 (totalAt r.side r.price orders)) :
    (aggregate r.side r.price (r :: orders)).bind (fun l =>
      if (l.removeOrder r.qty true).empty then none else some (l.removeOrder r.qty true)) =
        aggregate r.side r.price orders := by
  -- neither clamp of the source applies: the rest is not negative and the count was positive
  have removed : PriceLevel.removeOrder ⟨r.price, r.qty + totalAt r.side r.price orders,
      (restingAt r.side r.price orders).length + 1⟩ r.qty true =
      ⟨r.price, totalAt r.side r.price orders, (restingAt r.side r.price orders).length⟩ := by
    simp only [PriceLevel.removeOrder, add_sub_cancel_left, i32_eq_self _ fits,
      if_neg (not_lt.mpr nonneg), true_and, add_sub_cancel_right]
    rw [if_pos (by omega)]
  rw [aggregate_cons_here ⟨rfl, rfl⟩, Option.bind_some, removed, aggregate]
  by_cases last : restingAt r.side r.price orders = []
  · simp [PriceLevel.empty, last]
  · have some : 0 < (restingAt r.side r.price orders).length := List.length_pos_iff.mpr last
    rw [if_neg last, if_neg]
    simp only [PriceLevel.empty, decide_eq_true_eq]
    omega

/-- The level after one of its orders was partly traded. -/
theorem aggregate_reduce {r' : OrderRecord} {traded : Int}
    (same : r'.side = r.side ∧ r'.price = r.price) (qty : r'.qty = r.qty - traded)
    (nonneg : 0 ≤ totalAt r.side r.price (r' :: orders))
    (fits : FitsI32 (totalAt r.side r.price (r' :: orders))) :
    (aggregate r.side r.price (r :: orders)).bind (fun l =>
      if (l.removeOrder traded false).empty then none else some (l.removeOrder traded false)) =
        aggregate r.side r.price (r' :: orders) := by
  rw [totalAt_cons_here same, qty] at fits nonneg
  have rest : r.qty + totalAt r.side r.price orders - traded =
      r.qty - traded + totalAt r.side r.price orders := by omega
  have removed : PriceLevel.removeOrder ⟨r.price, r.qty + totalAt r.side r.price orders,
      (restingAt r.side r.price orders).length + 1⟩ traded false =
      ⟨r.price, r.qty - traded + totalAt r.side r.price orders,
        (restingAt r.side r.price orders).length + 1⟩ := by
    simp only [PriceLevel.removeOrder, rest, i32_eq_self _ fits, if_neg (not_lt.mpr nonneg),
      Bool.false_eq_true, false_and, if_false]
  rw [aggregate_cons_here ⟨rfl, rfl⟩, aggregate_cons_here same, Option.bind_some, removed, qty, if_neg]
  simp only [PriceLevel.empty, decide_eq_true_eq]
  omega

end Aggregate

/-! ### One side -/

/-- A side of the book shows exactly the aggregate of these orders. -/
structure Shows (tick : Int) (side : Side) (levels : List PriceLevel)
    (orders : List OrderRecord) : Prop where
  ok : SideOk tick side levels
  level : ∀ price, levelAt levels price = aggregate side price orders

section Side

variable {tick : Int} {side : Side} {levels : List PriceLevel} {orders orders' : List OrderRecord}
  {r : OrderRecord}

theorem Shows.perm (shows : Shows tick side levels orders) (perm : orders.Perm orders') :
    Shows tick side levels orders' :=
  ⟨shows.ok, fun price => (shows.level price).trans (aggregate_perm perm)⟩

/-- An order of the other side does not matter. -/
theorem shows_cons_other (other : r.side ≠ side) :
    Shows tick side levels (r :: orders) ↔ Shows tick side levels orders := by
  have same (price : Int) : aggregate side price (r :: orders) = aggregate side price orders :=
    aggregate_cons_away fun here => other here.1
  constructor
  · rintro ⟨ok, level⟩
    exact ⟨ok, fun price => (level price).trans (same price)⟩
  · rintro ⟨ok, level⟩
    exact ⟨ok, fun price => (level price).trans (same price).symm⟩

theorem Shows.exists_iff (shows : Shows tick side levels orders) (price : Int) :
    (∃ l ∈ levels, l.price = price) ↔ ∃ r ∈ orders, r.side = side ∧ r.price = price := by
  rw [← restingAt_ne_nil_iff]
  have shown := shows.level price
  constructor
  · rintro ⟨l, member, equal⟩ none
    rw [aggregate, if_pos none, levelAt_eq_none_iff] at shown
    exact shown l member equal
  · intro some
    by_contra absent
    push Not at absent
    rw [(levelAt_eq_none_iff levels price).mpr absent, aggregate, if_neg some] at shown
    cases shown

/-- The first level is the best price among the orders of its side. -/
theorem Shows.best (shows : Shows tick side levels orders) :
    (levels.head? = none ↔ ∀ r ∈ orders, r.side ≠ side) ∧
    ∀ l, levels.head? = some l →
      (∃ r ∈ orders, r.side = side ∧ r.price = l.price) ∧
      ∀ r ∈ orders, r.side = side → r.price = l.price ∨ sortsBefore side l.price r.price = true := by
  have sorted := shows.ok.sorted
  have exists_iff := shows.exists_iff
  clear shows
  cases levels with
  | nil =>
    refine ⟨⟨fun _ r member here => ?_, fun _ => rfl⟩, by simp⟩
    obtain ⟨_, impossible, _⟩ := (exists_iff r.price).mpr ⟨r, member, here, rfl⟩
    cases impossible
  | cons first rest =>
    have live := (exists_iff first.price).mp ⟨first, List.mem_cons_self, rfl⟩
    refine ⟨⟨by simp, fun none => ?_⟩, ?_⟩
    · obtain ⟨r, member, here, _⟩ := live
      exact absurd here (none r member)
    · intro l head
      cases head
      refine ⟨live, ?_⟩
      intro r member here
      obtain ⟨m, inLevels, price⟩ := (exists_iff r.price).mpr ⟨r, member, here, rfl⟩
      rcases List.mem_cons.mp inLevels with rfl | later
      · exact .inl price.symm
      · exact .inr (price ▸ (List.pairwise_cons.mp sorted).1 m later)

/-- There are as many levels as live prices. -/
theorem Shows.length_eq (shows : Shows tick side levels orders) :
    levels.length = (livePrices side orders).card := by
  -- strictly sorted levels have distinct prices, and these are the live ones
  have nodup : (levels.map PriceLevel.price).Nodup := by
    refine List.pairwise_map.mpr (shows.ok.sorted.imp ?_)
    intro l m earlier equal
    rw [equal, sortsBefore_irrefl] at earlier
    exact Bool.false_ne_true earlier
  have prices : (levels.map PriceLevel.price).toFinset = livePrices side orders := by
    ext price
    rw [mem_livePrices, restingAt_ne_nil_iff, List.mem_toFinset, List.mem_map]
    exact shows.exists_iff price
  rw [← prices, List.toFinset_card_of_nodup nodup, List.length_map]

/-- A new order goes to its level, as long as there is room for its price. -/
theorem Shows.add (shows : Shows tick r.side levels orders) (grid : tick ≠ 0 → tick ∣ r.price)
    (room : (livePrices r.side (r :: orders)).card ≤ kMaxLevelsPerSide)
    (fits : FitsI32 (totalAt r.side r.price (r :: orders))) :
    Shows tick r.side (addQtyToLevel r.side levels r.price r.qty) (r :: orders) := by
  refine ⟨addQtyToLevel_sideOk shows.ok r.price r.qty grid, ?_⟩
  intro price
  have free : levelAt levels r.price = none → levels.length < kMaxLevelsPerSide := by
    intro none
    -- a price without a level is a live price more
    have fresh : r.price ∉ livePrices r.side orders := by
      rw [mem_livePrices, not_not]
      by_contra some
      rw [shows.level, aggregate, if_neg some] at none
      cases none
    rw [livePrices_cons rfl, Finset.card_insert_of_notMem fresh] at room
    rw [shows.length_eq]
    omega
  -- every other price keeps its aggregate
  rw [levelAt_addQtyToLevel shows.ok.sorted r.price r.qty free, shows.level, shows.level]
  split_ifs with here
  · rw [here, aggregate_add fits]
  · rw [aggregate_cons_away fun both => here both.2.symm]

/-- A withdrawn order leaves its level, which goes with its last order. -/
theorem Shows.remove (shows : Shows tick r.side levels (r :: orders)) (positive : 0 < r.qty)
    (others : ∀ o ∈ orders, 0 < o.qty) (fits : FitsI32 (totalAt r.side r.price (r :: orders))) :
    Shows tick r.side (removeQtyFromLevel r.side levels r.price r.qty true) orders := by
  refine ⟨removeQtyFromLevel_sideOk shows.ok r.price r.qty true, ?_⟩
  intro price
  have fits' : FitsI32 (totalAt r.side r.price orders) :=
    fits_of_le others fits (totalAt_cons_ge (le_of_lt positive))
  rw [levelAt_removeQtyFromLevel shows.ok.sorted, shows.level, shows.level]
  split_ifs with here
  · rw [here, aggregate_remove (totalAt_nonneg others) fits']
  · exact aggregate_cons_away fun both => here both.2.symm

/-- A partly traded order keeps its place in the level. -/
theorem Shows.reduce {r' : OrderRecord} (shows : Shows tick r.side levels (r :: orders))
    {traded : Int} (positive : 0 < traded) (partly : traded < r.qty)
    (same : r'.side = r.side ∧ r'.price = r.price) (qty : r'.qty = r.qty - traded)
    (others : ∀ o ∈ orders, 0 < o.qty) (fits : FitsI32 (totalAt r.side r.price (r :: orders))) :
    Shows tick r.side (removeQtyFromLevel r.side levels r.price traded false)
      (r' :: orders) := by
  have kept : ∀ o ∈ r' :: orders, 0 < o.qty := List.forall_mem_cons.mpr ⟨by omega, others⟩
  have fits' : FitsI32 (totalAt r.side r.price (r' :: orders)) :=
    fits_of_le kept fits (totalAt_cons_mono same (by omega))
  refine ⟨removeQtyFromLevel_sideOk shows.ok r.price traded false, ?_⟩
  intro price
  rw [levelAt_removeQtyFromLevel shows.ok.sorted, shows.level, shows.level]
  split_ifs with here
  · rw [here, aggregate_reduce same qty (totalAt_nonneg kept) fits']
  · have away : r'.price ≠ price := fun equal => here (equal.symm.trans same.2)
    rw [aggregate_cons_away fun both => here both.2.symm,
      aggregate_cons_away fun both => away both.2]

end Side

/-! ### The book -/

namespace OrderBook

section Book

variable {tick : Int} {b b' : OrderBook} {orders : List OrderRecord} {r r' : OrderRecord}
  {ev : MarketEvent}

theorem shows_addQty (shows : ∀ side, Shows tick side (b.levels side) orders)
    (grid : tick ≠ 0 → tick ∣ r.price)
    (room : (livePrices r.side (r :: orders)).card ≤ kMaxLevelsPerSide)
    (fits : FitsI32 (totalAt r.side r.price (r :: orders))) (side : Side) :
    Shows tick side ((b.addQty r.side r.price r.qty).levels side) (r :: orders) := by
  rw [addQty_levels]
  split_ifs with here
  · subst here
    exact (shows r.side).add grid room fits
  · exact (shows_cons_other (Ne.symm here)).mpr (shows side)

theorem shows_removeQty (shows : ∀ side, Shows tick side (b.levels side) (r :: orders))
    (positive : 0 < r.qty) (others : ∀ o ∈ orders, 0 < o.qty)
    (fits : FitsI32 (totalAt r.side r.price (r :: orders))) (side : Side) :
    Shows tick side ((b.removeQty r.side r.price r.qty true).levels side) orders := by
  rw [removeQty_levels]
  split_ifs with here
  · subst here
    exact (shows r.side).remove positive others fits
  · exact (shows_cons_other (Ne.symm here)).mp (shows side)

theorem shows_reduceQty (shows : ∀ side, Shows tick side (b.levels side) (r :: orders))
    {traded : Int} (positive : 0 < traded) (partly : traded < r.qty)
    (same : r'.side = r.side ∧ r'.price = r.price) (qty : r'.qty = r.qty - traded)
    (others : ∀ o ∈ orders, 0 < o.qty) (fits : FitsI32 (totalAt r.side r.price (r :: orders)))
    (side : Side) :
    Shows tick side ((b.removeQty r.side r.price traded false).levels side) (r' :: orders) := by
  rw [removeQty_levels]
  split_ifs with here
  · subst here
    exact (shows r.side).reduce positive partly same qty others fits
  · have other : r'.side ≠ side := fun equal => here (equal.symm.trans same.1)
    exact (shows_cons_other other).mpr ((shows_cons_other (Ne.symm here)).mp (shows side))

/-- The levels of the book are the aggregate of its tracked orders. -/
structure Consistent (b : OrderBook) : Prop where
  table : b.table.Ok
  shows : ∀ side, Shows b.tickSize side (b.levels side) b.table.tracked
  positive : ∀ r ∈ b.table.tracked, 0 < r.qty
  fits : ∀ side price, FitsI32 (totalAt side price b.table.tracked)

/-- The book stays within its capacities: a free slot in the order table, at most 256
live prices a side, level sums of 32 bits. -/
structure Roomy (b : OrderBook) : Prop where
  free : ¬ b.table.Full
  prices : ∀ side, (livePrices side b.table.tracked).card ≤ kMaxLevelsPerSide
  sums : ∀ side price, FitsI32 (totalAt side price b.table.tracked)

/-- Well-formed order events; an add brings an order number that is not tracked. -/
def Admissible (b : OrderBook) (ev : MarketEvent) : Prop :=
  (ev.msgType = some .orderAdd ∧ b.table.findOrder ev.orderNo = none ∧ 0 < ev.qty) ∨
  (ev.msgType = some .orderModify ∧ 0 < ev.qty) ∨
  ev.msgType = some .orderCancel ∨
  (ev.msgType = some .trade ∧ 0 < ev.qty)

/-- The levels of the book are the aggregate of its tracked orders and of `extra` ones. -/
structure Aggregates (extra : List OrderRecord) (b : OrderBook) : Prop where
  table : b.table.Ok
  shows : ∀ side, Shows b.tickSize side (b.levels side) (extra ++ b.table.tracked)
  positive : ∀ r ∈ extra ++ b.table.tracked, 0 < r.qty
  fits : ∀ side price, FitsI32 (totalAt side price (extra ++ b.table.tracked))

/-- Prices and sums stay within the capacities of the levels. -/
structure Within (extra : List OrderRecord) (b : OrderBook) : Prop where
  prices : ∀ side, (livePrices side (extra ++ b.table.tracked)).card ≤ kMaxLevelsPerSide
  sums : ∀ side price, FitsI32 (totalAt side price (extra ++ b.table.tracked))

theorem consistent_iff : b.Consistent ↔ Aggregates [] b :=
  ⟨fun c => ⟨c.table, c.shows, c.positive, c.fits⟩, fun a => ⟨a.table, a.shows, a.positive, a.fits⟩⟩

variable {extra : List OrderRecord}

private theorem place_aggregates {table : OrderTable} (a : Aggregates extra b)
    (tableOk : table.Ok) (positive : 0 < r.qty) (grid : b.tickOk r.price = true)
    (stored : table.tracked.Perm (r :: b.table.tracked))
    (within : Within extra ({ b with table := table }.addQty r.side r.price r.qty)) :
    Aggregates extra ({ b with table := table }.addQty r.side r.price r.qty) := by
  have perm : (extra ++ table.tracked).Perm (r :: (extra ++ b.table.tracked)) :=
    (stored.append_left extra).trans List.perm_middle
  have room := within.prices r.side
  have sums := within.sums
  rw [addQty_table, livePrices_perm perm] at room
  refine ⟨by rwa [addQty_table], ?_, ?_, sums⟩
  · intro side
    rw [addQty_tickSize, addQty_table]
    refine (shows_addQty ?_ ((b.tickOk_iff r.price).mp grid) room ?_ side).perm perm.symm
    · simpa using a.shows
    · have fits := sums r.side r.price
      rwa [addQty_table, totalAt_perm perm] at fits
  · rw [addQty_table]
    intro o member
    rcases List.mem_cons.mp (perm.mem_iff.mp member) with rfl | old
    · exact positive
    · exact a.positive o old

private theorem withdraw_aggregates {table : OrderTable} (a : Aggregates extra b)
    (tableOk : table.Ok) (erased : b.table.tracked.Perm (r :: table.tracked)) :
    Aggregates extra { b.removeQty r.side r.price r.qty true with table := table } := by
  have perm : (extra ++ b.table.tracked).Perm (r :: (extra ++ table.tracked)) :=
    (erased.append_left extra).trans List.perm_middle
  have positive : ∀ o ∈ r :: (extra ++ table.tracked), 0 < o.qty :=
    fun o member => a.positive o (perm.mem_iff.mpr member)
  obtain ⟨gone, rest⟩ := List.forall_mem_cons.mp positive
  have fits (side : Side) (price : Int) :
      FitsI32 (totalAt side price (r :: (extra ++ table.tracked))) := by
    rw [← totalAt_perm perm]
    exact a.fits side price
  refine ⟨tableOk, ?_, rest, ?_⟩
  · intro side
    rw [levels_table, removeQty_tickSize]
    exact shows_removeQty (fun side => (a.shows side).perm perm) gone rest (fits _ _) side
  · intro side price
    exact fits_of_le rest (fits side price) (totalAt_cons_ge (le_of_lt gone))

/-- Reducing an order does not wrap. -/
theorem reduced_qty {qty traded : Int} (fits : FitsI32 qty) (positive : 0 < traded)
    (partly : traded < qty) : i32 (qty - traded) = qty - traded := by
  apply i32_eq_self
  simp only [FitsI32] at fits ⊢
  omega

private theorem reduce_aggregates {table : OrderTable} (a : Aggregates extra b) (tableOk : table.Ok)
    (old : b.table.tracked.Perm (r :: orders)) (new : table.tracked.Perm (r' :: orders))
    {traded : Int} (positive : 0 < traded) (partly : traded < r.qty)
    (same : r'.side = r.side ∧ r'.price = r.price) (qty : r'.qty = i32 (r.qty - traded)) :
    Aggregates extra { b.removeQty r.side r.price traded false with table := table } := by
  have before : (extra ++ b.table.tracked).Perm (r :: (extra ++ orders)) :=
    (old.append_left extra).trans List.perm_middle
  have after : (extra ++ table.tracked).Perm (r' :: (extra ++ orders)) :=
    (new.append_left extra).trans List.perm_middle
  have rest : ∀ o ∈ extra ++ orders, 0 < o.qty :=
    fun o member => a.positive o (before.mem_iff.mpr (List.mem_cons_of_mem _ member))
  have fits (side : Side) (price : Int) : FitsI32 (totalAt side price (r :: (extra ++ orders))) := by
    rw [← totalAt_perm before]
    exact a.fits side price
  have small : FitsI32 r.qty :=
    qty_fits (r := r) a.positive (before.mem_iff.mpr List.mem_cons_self) (a.fits _ _)
  rw [reduced_qty small positive partly] at qty
  have kept : ∀ o ∈ r' :: (extra ++ orders), 0 < o.qty := by
    rw [List.forall_mem_cons]
    exact ⟨by omega, rest⟩
  refine ⟨tableOk, ?_, fun o member => kept o (after.mem_iff.mp member), ?_⟩
  · intro side
    rw [levels_table, removeQty_tickSize]
    exact (shows_reduceQty (fun side => (a.shows side).perm before) positive partly same qty rest
      (fits _ _) side).perm after.symm
  · intro side price
    rw [totalAt_perm after]
    exact fits_of_le kept (fits side price) (totalAt_cons_mono same (by omega))

private theorem requeue_aggregates {table : OrderTable} (a : Aggregates extra b) (tableOk : table.Ok)
    (old : b.table.tracked.Perm (r :: orders)) (new : table.tracked.Perm (r' :: orders))
    (positive : 0 < r'.qty) (grid : b.tickOk r'.price = true) (side : r'.side = r.side)
    (within : Within extra ({ b.removeQty r.side r.price r.qty true with table := table }.addQty
      r.side r'.price r'.qty)) :
    Aggregates extra ({ b.removeQty r.side r.price r.qty true with table := table }.addQty
      r.side r'.price r'.qty) := by
  have before : (extra ++ b.table.tracked).Perm (r :: (extra ++ orders)) :=
    (old.append_left extra).trans List.perm_middle
  have after : (extra ++ table.tracked).Perm (r' :: (extra ++ orders)) :=
    (new.append_left extra).trans List.perm_middle
  have tracked : ∀ o ∈ r :: (extra ++ orders), 0 < o.qty :=
    fun o member => a.positive o (before.mem_iff.mpr member)
  obtain ⟨gone, rest⟩ := List.forall_mem_cons.mp tracked
  have room := within.prices r.side
  have sums := within.sums
  rw [addQty_table, livePrices_perm after] at room
  refine ⟨by rwa [addQty_table], ?_, ?_, sums⟩
  · -- the old contribution goes first, then the order joins its new level
    have removed := shows_removeQty (fun side => (a.shows side).perm before) gone rest
      (by rw [← totalAt_perm before]; exact a.fits _ _)
    intro s
    rw [requeue_tickSize, addQty_table, ← side]
    refine (shows_addQty ?_ ((b.tickOk_iff r'.price).mp grid) ?_ ?_ s).perm after.symm
    · intro s
      rw [levels_table, side]
      exact removed s
    · rwa [side]
    · have fits := sums r'.side r'.price
      rwa [addQty_table, totalAt_perm after] at fits
  · rw [addQty_table]
    intro o member
    rcases List.mem_cons.mp (after.mem_iff.mp member) with rfl | old
    · exact positive
    · exact rest o old

/-- A change that an admissible event makes keeps the levels the aggregate. Only a new or a
re-queued order can exceed a capacity. -/
theorem Change.aggregates (change : Change ev b b') (a : Aggregates extra b)
    (admissible : b.Admissible ev) (within : ev.msgType ≠ some .trade → Within extra b') :
    Aggregates extra b' := by
  cases change with
  | idle => exact a
  -- a snapshot is not an order event
  | seed type => simp [Admissible, type] at admissible
  | place table type grid absent stored =>
    have positive : 0 < ev.qty := by simpa [Admissible, type, absent] using admissible
    obtain ⟨tableOk, perm⟩ := a.table.insertOrder_new stored absent
    exact place_aggregates a tableOk positive grid perm (within (by simp [type]))
  -- an admissible add brings a number that is not tracked
  | overwrite i type grid found => simp [Admissible, type, found] at admissible
  | requeue i type grid found =>
    have positive : 0 < ev.qty := by simpa [Admissible, type] using admissible
    obtain ⟨_, _, _, before⟩ := a.table.findOrder_some found
    obtain ⟨tableOk, _, after⟩ := a.table.updateRecord found ev.price ev.qty
    have room := within (by simp [type])
    -- the two records come from the permutations, not from the goal
    have requeued := requeue_aggregates a tableOk before after positive grid rfl room
    exact requeued
  | withdraw orderNo i fuel table type found erased =>
    obtain ⟨tableOk, _, cases⟩ := a.table.eraseOrder_cases erased
    rcases cases with ⟨absent, _⟩ | ⟨j, found', _, perm⟩
    · rw [absent] at found
      cases found
    · rw [found] at found'
      cases found'
      exact withdraw_aggregates a tableOk perm
  | reduce orderNo i type found partly =>
    have positive : 0 < ev.qty := by simpa [Admissible, type] using admissible
    obtain ⟨_, _, _, before⟩ := a.table.findOrder_some found
    obtain ⟨tableOk, _, after⟩ := a.table.updateRecord found (b.table.record i).price
      (i32 ((b.table.record i).qty - ev.qty))
    exact reduce_aggregates a tableOk before after positive partly ⟨rfl, rfl⟩ rfl

private theorem Aggregates.trackSeq (a : Aggregates extra b) (ev : MarketEvent) :
    Aggregates extra (b.trackSeq ev).2 := by
  simp only [OrderBook.trackSeq]
  split_ifs
  · exact ⟨a.table, a.shows, a.positive, a.fits⟩
  · exact ⟨a.table, a.shows, a.positive, a.fits⟩
  · exact a

theorem applyEvent_aggregates {fuel : Nat} {result : BookResult} (a : Aggregates extra b)
    (admissible : b.Admissible ev) (returned : b.applyEvent fuel ev = some (result, b'))
    (within : Within extra b') : Aggregates extra b' := by
  obtain ⟨m, first, second, once⟩ := applyEvent_changes a.table returned
  -- the sequence check leaves the order table alone
  have tracked : (b.trackSeq ev).2.Admissible ev := by
    rw [Admissible, trackSeq_table]
    exact admissible
  rcases once with rfl | trade
  · exact first.aggregates (a.trackSeq ev) tracked fun _ => within
  · -- the two reductions of a trade need no room
    have reduced := first.aggregates (a.trackSeq ev) tracked fun other => absurd trade other
    have positive : 0 < ev.qty := by simpa [Admissible, trade] using admissible
    exact second.aggregates reduced (.inr (.inr (.inr ⟨trade, positive⟩)))
      fun other => absurd trade other

theorem applyEvent_consistent {fuel : Nat} {result : BookResult} (c : b.Consistent)
    (admissible : b.Admissible ev) (returned : b.applyEvent fuel ev = some (result, b'))
    (roomy : b'.Roomy) : b'.Consistent :=
  consistent_iff.mpr (applyEvent_aggregates (consistent_iff.mp c) admissible returned
    ⟨roomy.prices, roomy.sums⟩)

end Book

/-! ### Feeds -/

/-- Books reached from a fresh one by well-formed events, never leaving the capacities. -/
inductive Feed (token : Nat) (tickSize : Int) (capacity : Nat) : OrderBook → Prop
  | fresh : Feed token tickSize capacity (new token tickSize capacity)
  | event {b b' : OrderBook} {result : BookResult} (fuel : Nat) (ev : MarketEvent) :
      Feed token tickSize capacity b → b.Admissible ev →
      b.applyEvent fuel ev = some (result, b') → b'.Roomy → Feed token tickSize capacity b'

section Feeds

variable {token capacity : Nat} {tickSize : Int} {b : OrderBook}

private theorem new_consistent (token : Nat) (tickSize : Int) (capacity : Nat) :
    (new token tickSize capacity).Consistent ∧ ¬ (new token tickSize capacity).table.Full := by
  have ok := OrderTable.new_ok capacity
  have none : (new token tickSize capacity).table.tracked = [] := OrderTable.tracked_new capacity
  refine ⟨⟨ok, ?_, ?_, ?_⟩, ?_⟩
  · intro side
    rw [none]
    cases side <;> exact ⟨sideOk_nil _ _, fun price => rfl⟩
  · simp [none]
  · intro side price
    rw [none]
    exact (by decide : FitsI32 0)
  · intro full
    have size := ok.full_iff.mp full
    rw [OrderTable.tracked_new] at size
    simp at size

theorem Feed.consistent (feed : Feed token tickSize capacity b) :
    b.Consistent ∧ ¬ b.table.Full := by
  induction feed with
  | fresh => exact new_consistent token tickSize capacity
  | event fuel ev _ admissible returned roomy ih =>
    exact ⟨applyEvent_consistent ih.1 admissible returned roomy, roomy.free⟩

/-- The levels are exactly the aggregates of the tracked orders. -/
theorem Consistent.mem_levels_iff (c : b.Consistent) (side : Side) (l : PriceLevel) :
    l ∈ b.levels side ↔ aggregate side l.price b.table.tracked = some l := by
  rw [← (c.shows side).level, levelAt_eq_some_iff (c.shows side).ok.sorted]

theorem Consistent.displayedQtyAt_eq (c : b.Consistent) (side : Side) (price : Int) :
    b.displayedQtyAt side price = totalAt side price b.table.tracked := by
  rw [displayedQtyAt, (c.shows side).level, aggregate]
  split_ifs with none
  · simp [totalAt, none]
  · rfl

/-- The count of a level is right, and no larger than a sum that fits its type. -/
theorem Consistent.orderCount_eq (c : b.Consistent) (side : Side) (l : PriceLevel)
    (member : l ∈ b.levels side) :
    l.orderCount = (restingAt side l.price b.table.tracked).length ∧ FitsI32 l.orderCount := by
  have shown := ((aggregate_eq_some_iff _).mp ((c.mem_levels_iff side l).mp member)).2
  have count : l.orderCount = (restingAt side l.price b.table.tracked).length :=
    congrArg PriceLevel.orderCount shown
  have bound : ((restingAt side l.price b.table.tracked).length : Int) ≤
      totalAt side l.price b.table.tracked := length_le_totalAt c.positive
  have fits := c.fits side l.price
  simp only [FitsI32] at fits ⊢
  omega

/-- Over every feed the book shows what is tracked: sums, counts and prices of the levels
and both best prices; and the next event of the feed returns. -/
theorem feed_levels_match_orders (token capacity : Nat) (tickSize : Int) (b : OrderBook)
    (feed : Feed token tickSize capacity b) :
    (∀ side price,
      b.displayedQtyAt side price =
        ((restingAt side price b.table.tracked).map OrderRecord.qty).sum ∧
      ((∃ l ∈ b.levels side, l.price = price) ↔
        ∃ r ∈ b.table.tracked, r.side = side ∧ r.price = price) ∧
      ∀ l ∈ b.levels side, l.price = price →
        l.orderCount = (restingAt side price b.table.tracked).length ∧ FitsI32 l.orderCount) ∧
    (b.bestBid = none ↔ ∀ r ∈ b.table.tracked, r.side ≠ kBuy) ∧
    (∀ l, b.bestBid = some l → (∃ r ∈ b.table.tracked, r.side = kBuy ∧ r.price = l.price) ∧
      ∀ r ∈ b.table.tracked, r.side = kBuy → r.price ≤ l.price) ∧
    (b.bestAsk = none ↔ ∀ r ∈ b.table.tracked, r.side ≠ kSell) ∧
    (∀ l, b.bestAsk = some l → (∃ r ∈ b.table.tracked, r.side = kSell ∧ r.price = l.price) ∧
      ∀ r ∈ b.table.tracked, r.side = kSell → l.price ≤ r.price) ∧
    ∀ ev, ∃ fuel result b', b.applyEvent fuel ev = some (result, b') := by
  obtain ⟨c, free⟩ := feed.consistent
  obtain ⟨noBid, bid⟩ := (c.shows kBuy).best
  obtain ⟨noAsk, ask⟩ := (c.shows kSell).best
  refine ⟨fun side price => ⟨c.displayedQtyAt_eq side price, (c.shows side).exists_iff price, ?_⟩,
    noBid, ?_, noAsk, ?_, ?_⟩
  · rintro l member rfl
    exact c.orderCount_eq side l member
  · intro l best
    refine ⟨(bid l best).1, fun r member here => ?_⟩
    have := (bid l best).2 r member here
    simp only [sortsBefore, if_true, decide_eq_true_eq] at this
    omega
  · intro l best
    refine ⟨(ask l best).1, fun r member here => ?_⟩
    have := (ask l best).2 r member here
    simp only [sortsBefore, Bool.false_eq_true, if_false, decide_eq_true_eq] at this
    omega
  · intro ev
    exact (applyEvent_returns_iff c.table ev).mpr fun stuck => free stuck.1

/-- A few orders leave room. -/
theorem within_of_few {extra : List OrderRecord}
    (positive : ∀ r ∈ extra ++ b.table.tracked, 0 < r.qty)
    (few : (extra ++ b.table.tracked).length ≤ kMaxLevelsPerSide)
    (small : ((extra ++ b.table.tracked).map OrderRecord.qty).sum < 2 ^ 31) : Within extra b :=
  ⟨fun _ => livePrices_card_le.trans few, fun _ _ => fits_of_sum positive small⟩

private theorem roomy_of_few (free : ¬ b.table.Full) (positive : ∀ r ∈ b.table.tracked, 0 < r.qty)
    (few : b.table.tracked.length ≤ kMaxLevelsPerSide)
    (small : (b.table.tracked.map OrderRecord.qty).sum < 2 ^ 31) : b.Roomy :=
  ⟨free, fun _ => livePrices_card_le.trans few, fun _ _ => fits_of_sum positive small⟩

/-- A buy order of 10 after a trade of 4 shows 6 at its price. -/
theorem feed_levels_match_orders_partial_trade :
    ∃ b, Feed 7 5 4 b ∧ b.table.tracked = [⟨1, 100, 6, kBuy, true⟩] ∧
      b.displayedQtyAt kBuy 100 = 6 := by
  have placed : Feed 7 5 4 _ := Feed.event 0 { type := 65, orderNo := 1, price := 100, qty := 10 }
    .fresh (.inl ⟨by decide, by decide +kernel, by decide⟩) rfl
    (roomy_of_few (by decide +kernel) (by decide +kernel) (by decide +kernel) (by decide +kernel))
  have traded := placed.event 0 { type := 84, orderNo := 1, qty := 4 }
    (.inr (.inr (.inr ⟨by decide, by decide⟩))) rfl
    (roomy_of_few (by decide +kernel) (by decide +kernel) (by decide +kernel) (by decide +kernel))
  refine ⟨_, traded, by decide +kernel, ?_⟩
  rw [((feed_levels_match_orders 7 4 5 _ traded).1 kBuy 100).1]
  decide +kernel

end Feeds

end OrderBook

end NseHft
