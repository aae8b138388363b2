import NseHft.OrderBook.Consistency
import NseHft.OrderBook.TrackedOrders

/-!
# Recovery from a snapshot

A Snap Quote carries only the touch. The book it seeds has one anonymous level a side and
tracks none of the orders that rest at the exchange, so it cannot follow what happens to
them. It is compared here with the full book of the exchange.
-/
namespace NseHft

open FixedWidth

/-! ### Best prices -/

/-- The best price among the orders of a side. -/
def bestPrice (side : Side) (orders : List OrderRecord) : Option Int :=
  let prices := (orders.filter fun r => r.side = side).map OrderRecord.price
  match side with
  | kBuy => prices.max?
  | kSell => prices.min?

/-- The better one of two best prices. -/
def betterOf (side : Side) : Option Int → Option Int → Option Int
  | none, second => second
  | first, none => first
  | some a, some b => some (if sortsBefore side b a then b else a)

section Best

variable {side : Side} {orders first second : List OrderRecord} {price : Int}

theorem bestPrice_eq_none_iff : bestPrice side orders = none ↔ ∀ r ∈ orders, r.side ≠ side := by
  cases side <;> simp [bestPrice]

theorem bestPrice_eq_some_iff : bestPrice side orders = some price ↔
    (∃ r ∈ orders, r.side = side ∧ r.price = price) ∧
      ∀ r ∈ orders, r.side = side → sortsBefore side r.price price = false := by
  have listed (p : Int) : p ∈ (orders.filter fun r => r.side = side).map OrderRecord.price ↔
      ∃ r ∈ orders, r.side = side ∧ r.price = p := by
    simp [and_assoc]
  have all (P : Int → Prop) : (∀ p, (∃ r ∈ orders, r.side = side ∧ r.price = p) → P p) ↔
      ∀ r ∈ orders, r.side = side → P r.price := by
    constructor
    · intro each r member here
      exact each r.price ⟨r, member, here, rfl⟩
    · rintro each _ ⟨r, member, here, rfl⟩
      exact each r member here
  cases side <;>
    simp only [bestPrice, List.max?_eq_some_iff, List.min?_eq_some_iff, listed, all, sortsBefore,
      if_true, Bool.false_eq_true, if_false, decide_eq_false_iff_not, not_lt]

private theorem bestPrice_left (best : bestPrice side first = some price)
    (rest : ∀ r ∈ second, r.side = side → sortsBefore side r.price price = false) :
    bestPrice side (first ++ second) = some price := by
  rw [bestPrice_eq_some_iff] at best ⊢
  obtain ⟨⟨r, member, here⟩, others⟩ := best
  exact ⟨⟨r, List.mem_append_left _ member, here⟩, List.forall_mem_append.mpr ⟨others, rest⟩⟩

private theorem bestPrice_right (best : bestPrice side second = some price)
    (rest : ∀ r ∈ first, r.side = side → sortsBefore side r.price price = false) :
    bestPrice side (first ++ second) = some price := by
  rw [bestPrice_eq_some_iff] at best ⊢
  obtain ⟨⟨r, member, here⟩, others⟩ := best
  exact ⟨⟨r, List.mem_append_right _ member, here⟩, List.forall_mem_append.mpr ⟨rest, others⟩⟩

/-- A price not better than one that is not better than a third. -/
private theorem not_better_trans {a b c : Int} (ab : sortsBefore side a b = false)
    (bc : sortsBefore side b c = false) : sortsBefore side a c = false := by
  cases side <;> simp [sortsBefore] at * <;> omega

theorem bestPrice_append (side : Side) (first second : List OrderRecord) :
    bestPrice side (first ++ second) = betterOf side (bestPrice side first) (bestPrice side second) := by
  cases best₁ : bestPrice side first with
  | none =>
    have none₁ := bestPrice_eq_none_iff.mp best₁
    cases best₂ : bestPrice side second with
    | none =>
      have none₂ := bestPrice_eq_none_iff.mp best₂
      exact bestPrice_eq_none_iff.mpr (List.forall_mem_append.mpr ⟨none₁, none₂⟩)
    | some b => exact bestPrice_right best₂ fun r member here => absurd here (none₁ r member)
  | some a =>
    cases best₂ : bestPrice side second with
    | none =>
      have none₂ := bestPrice_eq_none_iff.mp best₂
      exact bestPrice_left best₁ fun r member here => absurd here (none₂ r member)
    | some b =>
      have least₁ := (bestPrice_eq_some_iff.mp best₁).2
      have least₂ := (bestPrice_eq_some_iff.mp best₂).2
      simp only [betterOf]
      split
      next better =>
        have worse := sortsBefore_asymm better
        exact bestPrice_right best₂ fun r member here => not_better_trans (least₁ r member here) worse
      next worse =>
        have worse : sortsBefore side b a = false := by simpa using worse
        exact bestPrice_left best₁ fun r member here => not_better_trans (least₂ r member here) worse

/-- Two books that share some orders agree on the best price when their other orders do, or
when a common order is at least as good as the others of both. -/
theorem betterOf_eq_iff (side : Side) (seed old known : Option Int) :
    betterOf side seed known = betterOf side old known ↔
      old = seed ∨ ∃ best ∈ known, (∀ price ∈ old, sortsBefore side price best = false) ∧
        ∀ price ∈ seed, sortsBefore side price best = false := by
  -- finitely many shapes: each of the three is there or not
  cases side <;> cases old <;> cases seed <;> cases known <;>
    simp [betterOf, sortsBefore]
  all_goals try split_ifs
  all_goals omega

/-- The first level carries the best price. -/
theorem Shows.head_price {tick : Int} {levels : List PriceLevel}
    (shows : Shows tick side levels orders) :
    levels.head?.map PriceLevel.price = bestPrice side orders := by
  obtain ⟨none_iff, best⟩ := shows.best
  cases head : levels.head? with
  | none => exact (bestPrice_eq_none_iff.mpr (none_iff.mp head)).symm
  | some l =>
    obtain ⟨live, others⟩ := best l head
    refine (bestPrice_eq_some_iff.mpr ⟨live, fun r member here => ?_⟩).symm
    rcases others r member here with same | later
    · rw [same, sortsBefore_irrefl]
    · exact sortsBefore_asymm later

end Best

/-! ### The exchange -/

/-- What a trade leaves of an order. -/
def afterTrade (traded : Int) (r : OrderRecord) : Option OrderRecord :=
  if traded ≥ r.qty then none else some { r with qty := r.qty - traded }

/-- What an event makes of a set of orders that is not added to. -/
def changed (ev : MarketEvent) (orders : List OrderRecord) : List OrderRecord :=
  match ev.msgType with
  | some .orderModify =>
    updateOrder ev.orderNo (fun r => some { r with price := ev.price, qty := ev.qty }) orders
  | some .orderCancel => updateOrder ev.orderNo (fun _ => none) orders
  | some .trade =>
    updateOrder ev.orderNo2 (afterTrade ev.qty) (updateOrder ev.orderNo (afterTrade ev.qty) orders)
  | _ => orders

/-- The order that an add brings. -/
def added (ev : MarketEvent) : List OrderRecord :=
  if ev.msgType = some .orderAdd then [⟨ev.orderNo, ev.price, ev.qty, ev.side, true⟩] else []

/-- The full book at the exchange. The orders that rested there at the snapshot are kept
apart from those added since. -/
structure Exchange where
  old : List OrderRecord
  since : List OrderRecord := []
  deriving DecidableEq, Repr

namespace Exchange

def orders (ex : Exchange) : List OrderRecord := ex.old ++ ex.since

/-- The exchange's side of an event. -/
def apply (ex : Exchange) (ev : MarketEvent) : Exchange :=
  ⟨changed ev ex.old, added ev ++ changed ev ex.since⟩

/-- The events an exchange sends: it adds under new numbers, and changes what it has. -/
def Sends (ex : Exchange) (ev : MarketEvent) : Prop :=
  (ev.msgType = some .orderAdd ∧ (∀ r ∈ ex.orders, r.orderNo ≠ ev.orderNo) ∧ ev.orderNo ≠ 0 ∧
    0 < ev.qty) ∨
  (ev.msgType = some .orderModify ∧ (∃ r ∈ ex.orders, r.orderNo = ev.orderNo) ∧ 0 < ev.qty) ∨
  (ev.msgType = some .orderCancel ∧ ∃ r ∈ ex.orders, r.orderNo = ev.orderNo) ∨
  (ev.msgType = some .trade ∧ 0 < ev.qty)

end Exchange

theorem Exchange.Sends.type {ex : Exchange} {ev : MarketEvent} (sends : ex.Sends ev) :
    ev.msgType ≠ some .snapQuote := by
  intro snap
  simp [Exchange.Sends, snap] at sends

/-- An add brings a new number, and not the number 0. -/
theorem Exchange.Sends.add_new {ex : Exchange} {ev : MarketEvent} (sends : ex.Sends ev)
    (type : ev.msgType = some .orderAdd) :
    (∀ r ∈ ex.orders, r.orderNo ≠ ev.orderNo) ∧ ev.orderNo ≠ 0 := by
  rcases sends with ⟨_, new, named, _⟩ | ⟨other, _⟩ | ⟨other, _⟩ | ⟨other, _⟩
  · exact ⟨new, named⟩
  all_goals
    rw [type] at other
    cases other

section Update

variable {orders : List OrderRecord} {orderNo traded : Int} {r : OrderRecord}

theorem changed_perm {orders' : List OrderRecord} (ev : MarketEvent) (perm : orders.Perm orders') :
    (changed ev orders).Perm (changed ev orders') := by
  simp only [changed]
  split
  · exact updateOrder_perm perm
  · exact updateOrder_perm perm
  · exact updateOrder_perm (updateOrder_perm perm)
  · exact perm

/-- A trade of an exchange leaves quantities that fit where the ones before it did. -/
theorem reduceOrder_eq (named : ∀ r ∈ orders, r.orderNo ≠ 0)
    (small : ∀ r ∈ orders, FitsI32 r.qty) (positive : 0 < traded) :
    reduceOrder orderNo traded orders = updateOrder orderNo (afterTrade traded) orders := by
  by_cases zero : orderNo = 0
  · -- the number 0 stands for no order
    rw [reduceOrder, if_pos zero, updateOrder_absent (zero ▸ named)]
  rw [reduceOrder, if_neg zero]
  refine updateOrder_congr fun r member => ?_
  simp only [leftOver, afterTrade]
  split
  · rfl
  next partly => rw [OrderBook.reduced_qty (small r member) positive (not_le.mp partly)]

theorem afterTrade_named {r' : OrderRecord} (named : r.orderNo ≠ 0)
    (left : afterTrade traded r = some r') : r'.orderNo ≠ 0 := by
  simp only [afterTrade] at left
  split at left
  · cases left
  · cases left
    exact named

private theorem afterTrade_small (positive : 0 < traded) {r' : OrderRecord}
    (small : FitsI32 r.qty) (left : afterTrade traded r = some r') : FitsI32 r'.qty := by
  simp only [afterTrade] at left
  split at left
  · cases left
  · cases left
    simp only [FitsI32] at small ⊢
    omega

/-- Away from trades, both sides of the exchange's book change as the tracked orders do. -/
theorem changeOrders_eq {ev : MarketEvent} (other : ev.msgType ≠ some .trade) :
    changeOrders ev orders = added ev ++ changed ev orders := by
  simp only [changeOrders, added, changed]
  split
  next type => simp [type]
  next type => simp [type]
  next type => simp [type]
  next add modify cancel =>
    rw [if_neg add, List.nil_append]
    split
    next type => exact absurd type modify
    next type => exact absurd type cancel
    next type => exact absurd type other
    · rfl

end Update

/-! ### What the book tracks -/

namespace OrderBook

section Tracked

variable {b b' : OrderBook} {ev : MarketEvent} {fuel : Nat} {result : BookResult}

/-- What an event that arrives in order needs for the table to follow it. -/
structure Follows (b : OrderBook) (ev : MarketEvent) : Prop where
  table : b.table.Ok
  free : ¬ b.table.Full
  live : b.stale = false
  met : ¬ b.SeqGap ev
  named : ∀ r ∈ b.table.tracked, r.orderNo ≠ 0
  small : ∀ r ∈ b.table.tracked, FitsI32 r.qty
  grid : ev.msgType = some .orderAdd ∨ ev.msgType = some .orderModify → b.tickOk ev.price = true
  absent : ev.msgType = some .orderAdd → b.table.findOrder ev.orderNo = none
  traded : ev.msgType = some .trade → 0 < ev.qty

theorem Follows.takes (follows : b.Follows ev) : b.Takes ev :=
  ⟨follows.met, follows.live, follows.grid⟩

/-- The table follows the event as the exchange does. -/
theorem Follows.tracked (follows : b.Follows ev) (type : ev.msgType ≠ some .snapQuote)
    (returned : b.applyEvent fuel ev = some (result, b')) :
    b'.table.tracked.Perm (added ev ++ changed ev b.table.tracked) := by
  by_cases kind : ev.msgType = some .trade
  · have traded := follows.traded kind
    have perm := applyEvent_traded follows.table kind returned follows.takes
    -- what is left of an order keeps its number and is smaller
    have named : ∀ r ∈ updateOrder ev.orderNo (afterTrade ev.qty) b.table.tracked, r.orderNo ≠ 0 :=
      forall_updateOrder follows.named fun _ _ => afterTrade_named
    have small : ∀ r ∈ updateOrder ev.orderNo (afterTrade ev.qty) b.table.tracked, FitsI32 r.qty :=
      forall_updateOrder follows.small fun _ _ => afterTrade_small traded
    rw [reduceOrder_eq follows.named follows.small traded, reduceOrder_eq named small traded] at perm
    simpa [added, changed, kind] using perm
  · rw [← changeOrders_eq kind]
    exact follows.takes.tracked follows.table follows.free follows.absent type kind returned

end Tracked

/-! ### The snapshot -/

/-- Price and quantity that a Snap Quote carries for a side. -/
def quoted (snap : MarketEvent) : Side → Int × Int
  | kBuy => (snap.bidPrice, snap.bidQty)
  | kSell => (snap.askPrice, snap.askQty)

/-- The quote gives the best price and the quantity there, and no quantity for an empty side. -/
def Quotes (snap : MarketEvent) (orders : List OrderRecord) : Prop :=
  ∀ side, match bestPrice side orders with
    | none => (quoted snap side).2 = 0
    | some price => quoted snap side = (price, totalAt side price orders)

/-- A numbered Snap Quote of a full book. -/
structure Snapshot (snap : MarketEvent) (start : List OrderRecord) : Prop where
  type : snap.msgType = some .snapQuote
  numbered : snap.seqNo ≠ 0
  positive : ∀ r ∈ start, 0 < r.qty
  quotes : Quotes snap start

/-- The level that the quote seeds on a side, as an order of its own. -/
def seedOrder (snap : MarketEvent) (side : Side) : List OrderRecord :=
  if (quoted snap side).2 > 0 then [⟨0, (quoted snap side).1, (quoted snap side).2, side, true⟩] else []

def seedOrders (snap : MarketEvent) : List OrderRecord := seedOrder snap kBuy ++ seedOrder snap kSell

section Seeding

variable {b b' : OrderBook} {snap : MarketEvent} {start : List OrderRecord} {side : Side}

theorem bestPrice_seedOrders (snap : MarketEvent) (side : Side) :
    bestPrice side (seedOrders snap) =
      if (quoted snap side).2 > 0 then some (quoted snap side).1 else none := by
  cases side <;> simp only [seedOrders, seedOrder, bestPrice] <;> split_ifs <;> simp

/-- The seeded levels show the best prices of the exchange. -/
theorem Snapshot.bestPrice_eq (snapshot : Snapshot snap start) (side : Side) :
    bestPrice side (seedOrders snap) = bestPrice side start := by
  have quotes := snapshot.quotes side
  rw [bestPrice_seedOrders]
  cases best : bestPrice side start with
  | none =>
    rw [best] at quotes
    rw [quotes, if_neg (lt_irrefl 0)]
  | some price =>
    rw [best] at quotes
    obtain ⟨⟨r, member, here⟩, _⟩ := bestPrice_eq_some_iff.mp best
    -- some order rests at the best price, so there is a quantity
    have resting : restingAt side price start ≠ [] := restingAt_ne_nil_iff.mpr ⟨r, member, here⟩
    have count := List.length_pos_iff.mpr resting
    have sum : ((restingAt side price start).length : Int) ≤ totalAt side price start :=
      length_le_totalAt snapshot.positive
    rw [quotes, if_pos (by dsimp only; omega)]

private theorem seed_levels (grid : ∀ side, 0 < (quoted snap side).2 →
      b.tickOk (quoted snap side).1 = true) (side : Side) :
    (b.seed snap).levels side = (seedOrder snap side).map fun r => ⟨r.price, r.qty, 1⟩ := by
  have onTick := grid side
  cases side <;> simp only [quoted] at onTick <;>
    simp only [seed, levels, seedOrder, quoted, clear, tickOk, gt_iff_lt] at onTick ⊢ <;>
    split_ifs <;> simp_all

private theorem aggregate_seedOrders (snap : MarketEvent) (side : Side) (price : Int) :
    aggregate side price (seedOrders snap) =
      levelAt ((seedOrder snap side).map fun r => ⟨r.price, r.qty, 1⟩) price := by
  -- the level of the other side does not count
  have resting : restingAt side price (seedOrders snap) = restingAt side price (seedOrder snap side) := by
    cases side <;> simp only [seedOrders, seedOrder, restingAt, List.filter_append] <;>
      split_ifs <;> simp [List.filter_cons]
  have same : aggregate side price (seedOrders snap) = aggregate side price (seedOrder snap side) := by
    simp only [aggregate, totalAt, resting]
  rw [same, seedOrder]
  split_ifs
  · by_cases here : (quoted snap side).1 = price <;>
      simp [aggregate, totalAt, restingAt, levelAt, here]
  · rfl

private theorem seedOrder_positive {r : OrderRecord} (member : r ∈ seedOrder snap side) :
    0 < r.qty := by
  rw [seedOrder] at member
  split_ifs at member with positive
  · rw [List.mem_singleton.mp member]
    exact positive
  · cases member

/-- The seeded book is the aggregate of the two levels. -/
theorem seed_aggregates (ok : b.Ok) (type : snap.msgType = some .snapQuote)
    (grid : ∀ side, 0 < (quoted snap side).2 → b.tickOk (quoted snap side).1 = true)
    (within : Within (seedOrders snap) (b.seed snap)) :
    Aggregates (seedOrders snap) (b.seed snap) := by
  have none : (b.seed snap).table.tracked = [] := b.table.tracked_clear
  have seeded := (Change.seed b type).ok ok
  refine ⟨seeded.table, ?_, ?_, within.sums⟩
  · intro side
    refine ⟨seeded.side side, fun price => ?_⟩
    rw [none, List.append_nil, aggregate_seedOrders, seed_levels grid]
  · rw [none, List.append_nil]
    intro r member
    rcases List.mem_append.mp member with bid | ask
    · exact seedOrder_positive bid
    · exact seedOrder_positive ask

end Seeding

/-! ### Recoveries -/

/-- The exchange and a book that was seeded from its snapshot: every event reaches both, under
consecutive numbers, and stays on the tick grid and within the capacities of the book. -/
inductive Recovery (snap : MarketEvent) (start : List OrderRecord) : Nat → Exchange → OrderBook → Prop
  | seeded {b b' : OrderBook} {result : BookResult} (fuel : Nat) :
      b.Ok → Snapshot snap start →
      (∀ side, 0 < (quoted snap side).2 → b.tickOk (quoted snap side).1 = true) →
      b.applyEvent fuel snap = some (result, b') →
      ¬ b'.table.Full → Within (seedOrders snap) b' → Recovery snap start snap.seqNo ⟨start, []⟩ b'
  | event {seq : Nat} {ex : Exchange} {b b' : OrderBook} {result : BookResult} (fuel : Nat)
      (ev : MarketEvent) :
      Recovery snap start seq ex b → ex.Sends ev → ev.seqNo = u64 (seq + 1) →
      (ev.msgType = some .orderAdd ∨ ev.msgType = some .orderModify → b.tickOk ev.price = true) →
      b.applyEvent fuel ev = some (result, b') →
      ¬ b'.table.Full → Within (seedOrders snap) b' → Recovery snap start ev.seqNo (ex.apply ev) b'

/-- The book tracks the orders added since, and shows them together with the seeded levels. -/
structure Mirrors (snap : MarketEvent) (seq : Nat) (ex : Exchange) (b : OrderBook) : Prop where
  aggregates : Aggregates (seedOrders snap) b
  tracked : b.table.tracked.Perm ex.since
  named : ∀ r ∈ ex.since, r.orderNo ≠ 0
  free : ¬ b.table.Full
  live : b.stale = false
  next : b.expectedSeq = 0 ∨ b.expectedSeq = u64 (seq + 1)

section Recoveries

variable {snap ev : MarketEvent} {start : List OrderRecord} {seq : Nat} {ex : Exchange}
  {b b' : OrderBook} {fuel : Nat} {result : BookResult}

/-- Updates keep the numbers of the orders. -/
private theorem changed_named {orders : List OrderRecord} (named : ∀ r ∈ orders, r.orderNo ≠ 0) :
    ∀ r ∈ changed ev orders, r.orderNo ≠ 0 := by
  simp only [changed]
  split
  · refine forall_updateOrder named ?_
    rintro r _ kept ⟨⟩
    exact kept
  · refine forall_updateOrder named ?_
    rintro r _ _ ⟨⟩
  · exact forall_updateOrder (forall_updateOrder named fun _ _ => afterTrade_named)
      fun _ _ => afterTrade_named
  · exact named

theorem seeded_mirrors (ok : b.Ok) (snapshot : Snapshot snap start)
    (grid : ∀ side, 0 < (quoted snap side).2 → b.tickOk (quoted snap side).1 = true)
    (returned : b.applyEvent fuel snap = some (result, b')) (free : ¬ b'.table.Full)
    (within : Within (seedOrders snap) b') : Mirrors snap snap.seqNo ⟨start, []⟩ b' := by
  obtain ⟨_, expected, stale⟩ := applyEvent_sequence ok.table returned
  rw [if_pos snapshot.type] at stale
  -- whether or not the snapshot itself shows a gap
  have numbered : (b.trackSeq snap).2.expectedSeq = u64 (snap.seqNo + 1) := by
    simp only [trackSeq, if_pos snapshot.numbered]
    split <;> rfl
  rw [applyEvent_snapQuote snapshot.type] at returned
  cases returned
  have grid' : ∀ side, 0 < (quoted snap side).2 →
      (b.trackSeq snap).2.tickOk (quoted snap side).1 = true := by
    intro side positive
    rw [← grid side positive]
    simp only [trackSeq]
    split_ifs <;> rfl
  refine ⟨seed_aggregates (ok.trackSeq snap) snapshot.type grid' within, ?_, by simp, free, stale,
    .inr (expected.trans numbered)⟩
  exact (b.trackSeq snap).2.table.tracked_clear ▸ .refl _

theorem Mirrors.follows (mirrors : Mirrors snap seq ex b) (sends : ex.Sends ev)
    (number : ev.seqNo = u64 (seq + 1))
    (grid : ev.msgType = some .orderAdd ∨ ev.msgType = some .orderModify → b.tickOk ev.price = true) :
    b.Follows ev where
  table := mirrors.aggregates.table
  free := mirrors.free
  live := mirrors.live
  met := Awaits.met (number ▸ mirrors.next)
  named r member := mirrors.named r (mirrors.tracked.mem_iff.mp member)
  small r member := by
    have listed : r ∈ seedOrders snap ++ b.table.tracked := List.mem_append_right _ member
    exact qty_fits mirrors.aggregates.positive listed (mirrors.aggregates.fits _ _)
  grid := grid
  absent type := by
    rw [mirrors.aggregates.table.findOrder_none_iff]
    intro r member
    exact (sends.add_new type).1 r (List.mem_append_right _ (mirrors.tracked.mem_iff.mp member))
  traded type := by simpa [Exchange.Sends, type] using sends

theorem Mirrors.event (mirrors : Mirrors snap seq ex b) (sends : ex.Sends ev)
    (number : ev.seqNo = u64 (seq + 1))
    (grid : ev.msgType = some .orderAdd ∨ ev.msgType = some .orderModify → b.tickOk ev.price = true)
    (returned : b.applyEvent fuel ev = some (result, b')) (free : ¬ b'.table.Full)
    (within : Within (seedOrders snap) b') : Mirrors snap ev.seqNo (ex.apply ev) b' := by
  have follows := mirrors.follows sends number grid
  have type := sends.type
  -- the book finds what the exchange sends to be well formed
  have admissible : b.Admissible ev := by
    rcases sends with ⟨add, _, _, positive⟩ | ⟨modify, _, positive⟩ | ⟨cancel, _⟩ | trade
    · exact .inl ⟨add, follows.absent add, positive⟩
    · exact .inr (.inl ⟨modify, positive⟩)
    · exact .inr (.inr (.inl cancel))
    · exact .inr (.inr (.inr trade))
  obtain ⟨next, stale⟩ := Awaits.next (number ▸ mirrors.next) follows.table type returned
  refine ⟨applyEvent_aggregates mirrors.aggregates admissible returned within, ?_, ?_, free,
    stale.trans mirrors.live, next⟩
  · exact (follows.tracked type returned).trans ((changed_perm ev mirrors.tracked).append_left _)
  · refine List.forall_mem_append.mpr ⟨?_, changed_named mirrors.named⟩
    intro r member
    rw [added] at member
    split at member
    next add =>
      rw [List.mem_singleton.mp member]
      exact (sends.add_new add).2
    · cases member

theorem Recovery.mirrors (recovery : Recovery snap start seq ex b) :
    Mirrors snap seq ex b ∧ Snapshot snap start := by
  induction recovery with
  | seeded fuel ok snapshot grid returned free within =>
    exact ⟨seeded_mirrors ok snapshot grid returned free within, snapshot⟩
  | event fuel ev _ sends number grid returned free within ih =>
    exact ⟨ih.1.event sends number grid returned free within, ih.2⟩

/-- The best of the orders from before the snapshot is where it was, or an order added since
is at least as good as what is left of them and as the snapshot. -/
def TopFollowed (side : Side) (start : List OrderRecord) (ex : Exchange) : Prop :=
  bestPrice side ex.old = bestPrice side start ∨
  ∃ best ∈ bestPrice side ex.since,
    (∀ price ∈ bestPrice side ex.old, sortsBefore side price best = false) ∧
    ∀ price ∈ bestPrice side start, sortsBefore side price best = false

/-- After every event of a recovery the best price of a side is the exchange's exactly when
its top is followed; and the next event returns. -/
theorem recovered_top_iff (snap : MarketEvent) (start : List OrderRecord) (seq : Nat)
    (ex : Exchange) (b : OrderBook) (recovery : Recovery snap start seq ex b) :
    (b.bestBid.map PriceLevel.price = bestPrice kBuy ex.orders ↔ TopFollowed kBuy start ex) ∧
    (b.bestAsk.map PriceLevel.price = bestPrice kSell ex.orders ↔ TopFollowed kSell start ex) ∧
    ∀ ev, ∃ fuel result b', b.applyEvent fuel ev = some (result, b') := by
  obtain ⟨mirrors, snapshot⟩ := recovery.mirrors
  have top (side : Side) : (b.levels side).head?.map PriceLevel.price = bestPrice side ex.orders ↔
      TopFollowed side start ex := by
    -- both sides are the better of two: the old orders or their seed, and the new ones
    have shows := (mirrors.aggregates.shows side).perm (mirrors.tracked.append_left _)
    rw [shows.head_price, bestPrice_append, snapshot.bestPrice_eq, Exchange.orders, bestPrice_append]
    exact betterOf_eq_iff side _ _ _
  refine ⟨top kBuy, top kSell, fun ev => ?_⟩
  exact (applyEvent_returns_iff mirrors.aggregates.table ev).mpr fun stuck => mirrors.free stuck.1

/-- An exchange with one order a side, and its snapshot. -/
def twoOrders : List OrderRecord := [⟨1, 100, 10, kBuy, true⟩, ⟨2, 110, 20, kSell, true⟩]

def twoOrdersSnap : MarketEvent :=
  { type := 81, seqNo := 5, bidPrice := 100, bidQty := 10, askPrice := 110, askQty := 20 }

/-- A book of four slots right after the snapshot. -/
private theorem twoOrders_seeded : Recovery twoOrdersSnap twoOrders 5 ⟨twoOrders, []⟩
    (((new 7 5 4).trackSeq twoOrdersSnap).2.seed twoOrdersSnap) := by
  refine .seeded 0 (new_ok 7 5 4) ⟨rfl, by decide, by decide, ?_⟩ ?_ rfl (by decide +kernel)
    (within_of_few (by decide +kernel) (by decide +kernel) (by decide +kernel))
  · intro side
    cases side <;> rfl
  · intro side _
    cases side <;> decide

/-- A new bid is better than the old one by the time that one is cancelled. -/
theorem recovered_top_iff_outbid :
    ∃ ex b, Recovery twoOrdersSnap twoOrders 7 ex b ∧ bestPrice kBuy ex.orders = some 105 ∧
      b.bestBid.map PriceLevel.price = some 105 := by
  have outbid := twoOrders_seeded.event 0 { type := 65, seqNo := 6, orderNo := 3, price := 105, qty := 5 }
    (.inl ⟨rfl, by decide, by decide, by decide⟩) rfl (fun _ => by decide) rfl (by decide +kernel)
    (within_of_few (by decide +kernel) (by decide +kernel) (by decide +kernel))
  have cancelled := outbid.event 0 { type := 88, seqNo := 7, orderNo := 1 }
    (.inr (.inr (.inl ⟨rfl, by decide⟩))) rfl (fun other => absurd other (by decide)) rfl
    (by decide +kernel) (within_of_few (by decide +kernel) (by decide +kernel) (by decide +kernel))
  refine ⟨_, _, cancelled, by decide +kernel, ?_⟩
  exact ((recovered_top_iff _ _ _ _ _ cancelled).1.mpr
    (.inr ⟨105, by decide +kernel, by decide +kernel, by decide +kernel⟩)).trans (by decide +kernel)

/-- The exchange cancels the bid that the snapshot showed: it has none left, but the seeded
level stays. -/
theorem cancelled_before_snapshot_stays :
    ∃ b b', Recovery twoOrdersSnap twoOrders 5 ⟨twoOrders, []⟩ b ∧
      b.applyEvent 0 { type := 88, seqNo := 6, orderNo := 1 } = some (.unknownOrder, b') ∧
      Recovery twoOrdersSnap twoOrders 6 ⟨[⟨2, 110, 20, kSell, true⟩], []⟩ b' ∧
      bestPrice kBuy (Exchange.orders ⟨[⟨2, 110, 20, kSell, true⟩], []⟩) = none ∧
      b'.bestBid.map PriceLevel.price = some 100 := by
  have cancelled := twoOrders_seeded.event 0 { type := 88, seqNo := 6, orderNo := 1 }
    (.inr (.inr (.inl ⟨rfl, by decide⟩))) rfl (fun other => absurd other (by decide)) rfl
    (by decide +kernel) (within_of_few (by decide +kernel) (by decide +kernel) (by decide +kernel))
  exact ⟨_, _, twoOrders_seeded, rfl, cancelled, by decide +kernel, by decide +kernel⟩

end Recoveries

end OrderBook

end NseHft
