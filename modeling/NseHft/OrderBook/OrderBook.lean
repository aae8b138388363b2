import NseHft.OrderBook.OrderTable
import NseHft.OrderBook.PriceLevels

/-!
# Order book

The limit order book of one instrument, maintained from the order-by-order feed.
`applyEvent` is the single entry point. Erasing an order runs a loop without a bound of
its own, so the handlers that erase take the number of iterations allowed and return
`none` when it runs out.
-/
namespace NseHft

open FixedWidth

/-- Outcome of applying a single market event to the book. -/
inductive BookResult where
  | ok
  | seeded
  | gap
  | staleDropped
  | tickViolation
  | unknownOrder
  | full
  deriving DecidableEq, Repr

structure OrderBook where
  token : Nat
  tickSize : Int
  table : OrderTable
  bids : List PriceLevel := []
  asks : List PriceLevel := []
  expectedSeq : Nat := 0
  stale : Bool := false
  gapCount : Nat := 0
  deriving DecidableEq, Repr

namespace OrderBook

def new (token : Nat) (tickSize : Int) (orderCapacity : Nat) : OrderBook :=
  { token := token, tickSize := tickSize, table := OrderTable.new orderCapacity }

def tickOk (b : OrderBook) (price : Int) : Bool :=
  b.tickSize == 0 || price.tmod b.tickSize == 0

def bestBid (b : OrderBook) : Option PriceLevel := b.bids.head?

def bestAsk (b : OrderBook) : Option PriceLevel := b.asks.head?

def levels (b : OrderBook) : Side → List PriceLevel
  | kBuy => b.bids
  | kSell => b.asks

def displayedQtyAt (b : OrderBook) (side : Side) (price : Int) : Int :=
  match levelAt (b.levels side) price with
  | some l => l.totalQuantity
  | none => 0

def clear (b : OrderBook) : OrderBook :=
  { b with bids := [], asks := [], table := b.table.clear, stale := false }

/-- `AddQtyToLevel` on the side of an order. -/
def addQty (b : OrderBook) (side : Side) (price qty : Int) : OrderBook :=
  match side with
  | kBuy => { b with bids := addQtyToLevel true b.bids price qty }
  | kSell => { b with asks := addQtyToLevel false b.asks price qty }

/-- `RemoveQtyFromLevel` on the side of an order. -/
def removeQty (b : OrderBook) (side : Side) (price qty : Int) (dropOrder : Bool) : OrderBook :=
  match side with
  | kBuy => { b with bids := removeQtyFromLevel true b.bids price qty dropOrder }
  | kSell => { b with asks := removeQtyFromLevel false b.asks price qty dropOrder }

/-! ### Looking up a level -/

/-- On a sorted side of any length both bisections end. `FindLevel` returns the one index with the
price, or the number of levels if there is none, `InsertionPoint` the number of better levels, and
the quantity displayed at the price is that of the level found. -/
theorem level_search_correct (isBid : Bool) (levels : List PriceLevel)
    (sorted : Sorted isBid levels) (price : Int) :
    (searchLevel isBid levels (fun l => l.price == price) price).isSome ∧
    (searchLevel isBid levels (fun _ => false) price).isSome ∧
    (∀ i (inside : i < levels.length),
      findLevel isBid levels price = i ↔ levels[i].price = price) ∧
    ((∀ l ∈ levels, l.price ≠ price) → findLevel isBid levels price = levels.length) ∧
    insertionPoint isBid levels price = levels.countP (fun l => sortsBefore isBid l.price price) ∧
    levelAt levels price = levels[findLevel isBid levels price]? ∧
    ∀ b : OrderBook, b.levels isBid = levels →
      b.displayedQtyAt isBid price =
        (levels[findLevel isBid levels price]?).elim 0 PriceLevel.totalQuantity := by
  have scanned := levelAt_eq_findLevel sorted price
  refine ⟨Bisect.search_isSome _ _ _, Bisect.search_isSome _ _ _,
    fun i inside => findLevel_eq_iff sorted price inside, findLevel_absent sorted,
    insertionPoint_eq_countP sorted price, scanned, ?_⟩
  rintro b rfl
  rw [displayedQtyAt, scanned]
  cases (b.levels isBid)[findLevel isBid (b.levels isBid) price]? <;> rfl

private def threeBids : List PriceLevel := [⟨102, 5, 1⟩, ⟨101, 7, 2⟩, ⟨99, 4, 1⟩]

/-- The last of three bids, and the place of a price between two of them. -/
theorem three_bids_searched :
    findLevel kBuy threeBids 99 = 2 ∧ insertionPoint kBuy threeBids 100 = 2 := by
  have sorted : Sorted kBuy threeBids := by simp [Sorted, threeBids, sortsBefore]
  obtain ⟨-, -, found, -⟩ := level_search_correct kBuy threeBids sorted 99
  obtain ⟨-, -, -, -, point, -⟩ := level_search_correct kBuy threeBids sorted 100
  exact ⟨(found 2 (by decide)).mpr rfl, point.trans (by decide)⟩

/-! ### Event handlers -/

def seed (b : OrderBook) (ev : MarketEvent) : OrderBook :=
  -- the resting orders are forgotten: the snapshot carries only the touch
  let cleared := b.clear
  { cleared with
    expectedSeq := if ev.seqNo ≠ 0 then u64 (ev.seqNo + 1) else cleared.expectedSeq
    stale := false
    bids := if ev.bidQty > 0 ∧ cleared.tickOk ev.bidPrice then [⟨ev.bidPrice, ev.bidQty, 1⟩] else []
    asks := if ev.askQty > 0 ∧ cleared.tickOk ev.askPrice then [⟨ev.askPrice, ev.askQty, 1⟩] else [] }

def applyAdd (b : OrderBook) (ev : MarketEvent) : BookResult × OrderBook :=
  if !b.tickOk ev.price then (.tickViolation, b)
  else
    match b.table.insertOrder ⟨ev.orderNo, ev.price, ev.qty, ev.side, true⟩ with
    | (false, _) => (.full, b)
    -- a number already tracked is overwritten in the table and added to the levels again
    | (true, table) => (.ok, { b with table := table }.addQty ev.side ev.price ev.qty)

def applyModify (b : OrderBook) (ev : MarketEvent) : BookResult × OrderBook :=
  if !b.tickOk ev.price then (.tickViolation, b)
  else
    match b.table.findOrder ev.orderNo with
    | none => (.unknownOrder, b)
    | some i =>
      let order := b.table.record i
      let removed := b.removeQty order.side order.price order.qty true
      -- the exchange re-queues a modified order
      let updated := { removed with table := b.table.updateRecord i ev.price ev.qty }
      (.ok, updated.addQty order.side ev.price ev.qty)

def applyCancel (fuel : Nat) (b : OrderBook) (ev : MarketEvent) : Option (BookResult × OrderBook) :=
  match b.table.findOrder ev.orderNo with
  | none => some (.unknownOrder, b)
  | some i => do
    let order := b.table.record i
    let removed := b.removeQty order.side order.price order.qty true
    let table ← b.table.eraseOrder fuel ev.orderNo
    some (.ok, { removed with table := table })

/-- Reduce a single resting order by `traded`, removing it when fully consumed. Returns
whether the order was found. -/
def reduceResting (fuel : Nat) (b : OrderBook) (orderNo traded : Int) : Option (Bool × OrderBook) :=
  if orderNo = 0 then some (false, b)
  else
    match b.table.findOrder orderNo with
    | none => some (false, b)
    | some i =>
      let order := b.table.record i
      -- an over-fill takes what is left of the order, not what was traded
      let fully := decide (traded ≥ order.qty)
      let reduce := if fully then order.qty else traded
      let removed := b.removeQty order.side order.price reduce fully
      if fully then do
        let table ← b.table.eraseOrder fuel orderNo
        some (true, { removed with table := table })
      else
        let table := b.table.updateRecord i order.price (i32 (order.qty - reduce))
        some (true, { removed with table := table })

def applyTrade (fuel : Nat) (b : OrderBook) (ev : MarketEvent) :
    Option (BookResult × OrderBook) := do
  let (buyFound, b) ← b.reduceResting fuel ev.orderNo ev.qty
  -- both legs may name the same order
  let (sellFound, b) ← b.reduceResting fuel ev.orderNo2 ev.qty
  some (if buyFound || sellFound then .ok else .unknownOrder, b)

/-- The check of sequence numbers: whether a gap was seen, and the book after it. A
number of zero is not tracked. -/
def trackSeq (b : OrderBook) (ev : MarketEvent) : Bool × OrderBook :=
  if ev.seqNo ≠ 0 then
    if b.expectedSeq ≠ 0 ∧ ev.seqNo ≠ b.expectedSeq then
      (true, { b with
        gapCount := u64 (b.gapCount + 1), stale := true, expectedSeq := u64 (ev.seqNo + 1) })
    else (false, { b with expectedSeq := u64 (ev.seqNo + 1) })
  else (false, b)

def applyEvent (fuel : Nat) (b : OrderBook) (ev : MarketEvent) : Option (BookResult × OrderBook) :=
  let (gap, b) := b.trackSeq ev
  -- a snap quote can still re-seed after a gap
  if gap ∧ ev.msgType ≠ some .snapQuote then some (.gap, b)
  else
    match ev.msgType with
    | some .snapQuote => some (.seeded, b.seed ev)
    -- until a snapshot re-seeds a stale book, its order events are dropped
    | some .orderAdd => if b.stale then some (.staleDropped, b) else some (b.applyAdd ev)
    | some .orderModify => if b.stale then some (.staleDropped, b) else some (b.applyModify ev)
    | some .orderCancel => if b.stale then some (.staleDropped, b) else b.applyCancel fuel ev
    | some .trade => if b.stale then some (.staleDropped, b) else b.applyTrade fuel ev
    | _ => some (.ok, b)

/-! ### What an event can change -/

/-- The single changes that the handlers make to the orders and levels of a book. Every
invariant of the book is proved from these. -/
inductive Change (ev : MarketEvent) : OrderBook → OrderBook → Prop
  | idle (b : OrderBook) : Change ev b b
  | seed (b : OrderBook) (type : ev.msgType = some .snapQuote) : Change ev b (b.seed ev)
  | place (b : OrderBook) (table : OrderTable) (type : ev.msgType = some .orderAdd)
      (grid : b.tickOk ev.price = true) (absent : b.table.findOrder ev.orderNo = none)
      (stored : b.table.insertOrder ⟨ev.orderNo, ev.price, ev.qty, ev.side, true⟩ = (true, table)) :
      Change ev b ({ b with table := table }.addQty ev.side ev.price ev.qty)
  -- a duplicate add keeps the old contribution to the levels
  | overwrite (b : OrderBook) (i : Nat) (type : ev.msgType = some .orderAdd)
      (grid : b.tickOk ev.price = true) (found : b.table.findOrder ev.orderNo = some i) :
      Change ev b ({ b with
        table := b.table.setRecord i ⟨ev.orderNo, ev.price, ev.qty, ev.side, true⟩
        }.addQty ev.side ev.price ev.qty)
  | requeue (b : OrderBook) (i : Nat) (type : ev.msgType = some .orderModify)
      (grid : b.tickOk ev.price = true) (found : b.table.findOrder ev.orderNo = some i) :
      Change ev b ({ b.removeQty (b.table.record i).side (b.table.record i).price
          (b.table.record i).qty true with
        table := b.table.updateRecord i ev.price ev.qty }.addQty (b.table.record i).side ev.price ev.qty)
  | withdraw (b : OrderBook) (orderNo : Int) (i fuel : Nat) (table : OrderTable)
      (type : ev.msgType ≠ some .snapQuote) (found : b.table.findOrder orderNo = some i)
      (erased : b.table.eraseOrder fuel orderNo = some table) :
      Change ev b { b.removeQty (b.table.record i).side (b.table.record i).price
        (b.table.record i).qty true with table := table }
  | reduce (b : OrderBook) (orderNo : Int) (i : Nat) (type : ev.msgType = some .trade)
      (found : b.table.findOrder orderNo = some i) (partly : ev.qty < (b.table.record i).qty) :
      Change ev b { b.removeQty (b.table.record i).side (b.table.record i).price ev.qty false with
        table := b.table.updateRecord i (b.table.record i).price
          (i32 ((b.table.record i).qty - ev.qty)) }

section Changes

variable {b b' : OrderBook} {ev : MarketEvent} {fuel : Nat}

private theorem applyAdd_change (ok : b.table.Ok) (type : ev.msgType = some .orderAdd) :
    Change ev b (b.applyAdd ev).2 := by
  simp only [applyAdd]
  split
  · exact .idle b
  next grid =>
    have onTick : b.tickOk ev.price = true := by simpa using grid
    rcases ok.insertOrder_cases ⟨ev.orderNo, ev.price, ev.qty, ev.side, true⟩ with
      ⟨table, stored, _, _, _, absent, _⟩ | ⟨i, found, stored⟩ | ⟨stored, _, _⟩
    · rw [stored]
      exact .place b table type onTick absent stored
    · rw [stored]
      exact .overwrite b i type onTick found
    · rw [stored]
      exact .idle b

private theorem applyModify_change (type : ev.msgType = some .orderModify) :
    Change ev b (b.applyModify ev).2 := by
  simp only [applyModify]
  split
  · exact .idle b
  next grid =>
    have onTick : b.tickOk ev.price = true := by simpa using grid
    cases found : b.table.findOrder ev.orderNo with
    | none => exact .idle b
    | some i => exact .requeue b i type onTick found

private theorem applyCancel_change {result : BookResult} (type : ev.msgType = some .orderCancel)
    (returned : b.applyCancel fuel ev = some (result, b')) : Change ev b b' := by
  simp only [applyCancel] at returned
  cases found : b.table.findOrder ev.orderNo with
  | none =>
    simp only [found, Option.some.injEq, Prod.mk.injEq] at returned
    exact returned.2 ▸ .idle b
  | some i =>
    simp only [found, Option.bind_eq_bind, Option.bind_eq_some_iff, Option.some.injEq,
      Prod.mk.injEq] at returned
    obtain ⟨table, erased, _, rfl⟩ := returned
    exact .withdraw b ev.orderNo i fuel table (by simp [type]) found erased

theorem reduceResting_change {hit : Bool} {orderNo : Int}
    (type : ev.msgType = some .trade)
    (returned : b.reduceResting fuel orderNo ev.qty = some (hit, b')) : Change ev b b' := by
  simp only [reduceResting] at returned
  split at returned
  next zero =>
    simp only [Option.some.injEq, Prod.mk.injEq] at returned
    exact returned.2 ▸ .idle b
  cases found : b.table.findOrder orderNo with
  | none =>
    simp only [found, Option.some.injEq, Prod.mk.injEq] at returned
    exact returned.2 ▸ .idle b
  | some i =>
    simp only [found] at returned
    by_cases fully : ev.qty ≥ (b.table.record i).qty
    · simp only [fully, decide_true, if_true, Option.bind_eq_bind, Option.bind_eq_some_iff,
        Option.some.injEq, Prod.mk.injEq] at returned
      obtain ⟨table, erased, _, rfl⟩ := returned
      exact .withdraw b orderNo i fuel table (by simp [type]) found erased
    · simp only [fully, decide_false, Bool.false_eq_true, if_false, Option.some.injEq,
        Prod.mk.injEq] at returned
      exact returned.2 ▸ .reduce b orderNo i type found (by omega)

private theorem applyTrade_changes {result : BookResult} (type : ev.msgType = some .trade)
    (returned : b.applyTrade fuel ev = some (result, b')) :
    ∃ m, Change ev b m ∧ Change ev m b' := by
  simp only [applyTrade, Option.bind_eq_bind, Option.bind_eq_some_iff, Option.some.injEq,
    Prod.mk.injEq, Prod.exists] at returned
  obtain ⟨_, m, first, _, _, second, _, rfl⟩ := returned
  exact ⟨m, reduceResting_change type first, reduceResting_change type second⟩

@[simp] theorem trackSeq_table (b : OrderBook) (ev : MarketEvent) :
    (b.trackSeq ev).2.table = b.table := by
  simp only [trackSeq]
  split_ifs <;> rfl

/-- After the sequence check an event makes one change; a trade makes one for each of its
two resting orders. -/
theorem applyEvent_changes {result : BookResult} (ok : b.table.Ok)
    (returned : b.applyEvent fuel ev = some (result, b')) :
    ∃ m, Change ev (b.trackSeq ev).2 m ∧ Change ev m b' ∧ (m = b' ∨ ev.msgType = some .trade) := by
  have ok' : (b.trackSeq ev).2.table.Ok := by rwa [trackSeq_table]
  simp only [applyEvent] at returned
  -- from here on only the tracked book matters
  generalize (b.trackSeq ev).2 = tracked at ok' returned ⊢
  have done : Change ev tracked b' →
      ∃ m, Change ev tracked m ∧ Change ev m b' ∧ (m = b' ∨ ev.msgType = some .trade) :=
    fun change => ⟨b', change, .idle b', .inl rfl⟩
  split at returned
  next dropped =>
    cases returned
    exact done (.idle _)
  split at returned
  next type =>
    cases returned
    exact done (.seed _ type)
  next type =>
    split at returned
    · cases returned
      exact done (.idle _)
    · have after : (tracked.applyAdd ev).2 = b' := congrArg Prod.snd (Option.some.inj returned)
      exact done (after ▸ applyAdd_change ok' type)
  next type =>
    split at returned
    · cases returned
      exact done (.idle _)
    · have after : (tracked.applyModify ev).2 = b' := congrArg Prod.snd (Option.some.inj returned)
      exact done (after ▸ applyModify_change type)
  next type =>
    split at returned
    · cases returned
      exact done (.idle _)
    · exact done (applyCancel_change type returned)
  next type =>
    split at returned
    · cases returned
      exact done (.idle _)
    · obtain ⟨m, first, second⟩ := applyTrade_changes type returned
      exact ⟨m, first, second, .inr type⟩
  next =>
    cases returned
    exact done (.idle _)

/-- A trade that is not dropped reduces its two resting orders one after the other. -/
theorem applyEvent_trade_cases {result : BookResult} (type : ev.msgType = some .trade)
    (returned : b.applyEvent fuel ev = some (result, b')) :
    b' = (b.trackSeq ev).2 ∨ ∃ hit m hit',
      (b.trackSeq ev).2.reduceResting fuel ev.orderNo ev.qty = some (hit, m) ∧
      m.reduceResting fuel ev.orderNo2 ev.qty = some (hit', b') := by
  simp only [applyEvent, type] at returned
  split at returned
  · cases returned
    exact .inl rfl
  split at returned
  · cases returned
    exact .inl rfl
  · simp only [applyTrade, Option.bind_eq_bind, Option.bind_eq_some_iff, Option.some.injEq,
      Prod.mk.injEq, Prod.exists] at returned
    obtain ⟨hit, m, first, hit', _, second, _, rfl⟩ := returned
    exact .inr ⟨hit, m, hit', first, second⟩

end Changes

/-! ### Sequence numbers -/

section Sequence

variable {b b' : OrderBook} {ev : MarketEvent} {fuel : Nat} {result : BookResult}

/-- The number that the event is checked against is not met. -/
def SeqGap (b : OrderBook) (ev : MarketEvent) : Prop :=
  ev.seqNo ≠ 0 ∧ b.expectedSeq ≠ 0 ∧ ev.seqNo ≠ b.expectedSeq

theorem trackSeq_gap_iff (b : OrderBook) (ev : MarketEvent) :
    (b.trackSeq ev).1 = true ↔ b.SeqGap ev := by
  simp only [trackSeq, SeqGap]
  split_ifs <;> simp_all

theorem trackSeq_of_no_gap (met : ¬ b.SeqGap ev) :
    (b.trackSeq ev).2 =
      { b with expectedSeq := if ev.seqNo ≠ 0 then u64 (ev.seqNo + 1) else b.expectedSeq } := by
  simp only [trackSeq]
  by_cases numbered : ev.seqNo ≠ 0
  · have follows : ¬ (b.expectedSeq ≠ 0 ∧ ev.seqNo ≠ b.expectedSeq) :=
      fun gap => met ⟨numbered, gap⟩
    rw [if_pos numbered, if_neg follows, if_pos numbered]
  · rw [if_neg numbered, if_neg numbered]

/-- An event that a live book meets in order goes to its handler. -/
theorem applyEvent_orderAdd (met : ¬ b.SeqGap ev) (live : b.stale = false)
    (type : ev.msgType = some .orderAdd) (fuel : Nat) :
    b.applyEvent fuel ev = some ((b.trackSeq ev).2.applyAdd ev) := by
  have noGap := mt (trackSeq_gap_iff b ev).mp met
  simp only [applyEvent, type, noGap, trackSeq_of_no_gap met, live]
  rfl

theorem applyEvent_orderModify (met : ¬ b.SeqGap ev) (live : b.stale = false)
    (type : ev.msgType = some .orderModify) (fuel : Nat) :
    b.applyEvent fuel ev = some ((b.trackSeq ev).2.applyModify ev) := by
  have noGap := mt (trackSeq_gap_iff b ev).mp met
  simp only [applyEvent, type, noGap, trackSeq_of_no_gap met, live]
  rfl

theorem applyEvent_orderCancel (met : ¬ b.SeqGap ev) (live : b.stale = false)
    (type : ev.msgType = some .orderCancel) (fuel : Nat) :
    b.applyEvent fuel ev = (b.trackSeq ev).2.applyCancel fuel ev := by
  have noGap := mt (trackSeq_gap_iff b ev).mp met
  simp only [applyEvent, type, noGap, trackSeq_of_no_gap met, live]
  rfl

theorem applyEvent_trade (met : ¬ b.SeqGap ev) (live : b.stale = false)
    (type : ev.msgType = some .trade) (fuel : Nat) :
    b.applyEvent fuel ev = (b.trackSeq ev).2.applyTrade fuel ev := by
  have noGap := mt (trackSeq_gap_iff b ev).mp met
  simp only [applyEvent, type, noGap, trackSeq_of_no_gap met, live]
  rfl

/-- Level updates leave the sequence state alone. -/
private theorem addQty_sequence (b : OrderBook) (side : Side) (price qty : Int) :
    (b.addQty side price qty).gapCount = b.gapCount ∧
      (b.addQty side price qty).expectedSeq = b.expectedSeq ∧
      (b.addQty side price qty).stale = b.stale := by
  cases side <;> exact ⟨rfl, rfl, rfl⟩

private theorem removeQty_sequence (b : OrderBook) (side : Side) (price qty : Int) (drop : Bool) :
    (b.removeQty side price qty drop).gapCount = b.gapCount ∧
      (b.removeQty side price qty drop).expectedSeq = b.expectedSeq ∧
      (b.removeQty side price qty drop).stale = b.stale := by
  cases side <;> exact ⟨rfl, rfl, rfl⟩

theorem Change.sequence (change : Change ev b b') (type : ev.msgType ≠ some .snapQuote) :
    b'.gapCount = b.gapCount ∧ b'.expectedSeq = b.expectedSeq ∧ b'.stale = b.stale := by
  cases change with
  | idle => exact ⟨rfl, rfl, rfl⟩
  | seed snap => exact absurd snap type
  | place => exact addQty_sequence ..
  | overwrite => exact addQty_sequence ..
  | requeue =>
    simp only [addQty_sequence]
    exact removeQty_sequence ..
  | withdraw => exact removeQty_sequence ..
  | reduce => exact removeQty_sequence ..

theorem applyEvent_snapQuote (type : ev.msgType = some .snapQuote) :
    b.applyEvent fuel ev = some (.seeded, (b.trackSeq ev).2.seed ev) := by
  simp [applyEvent, type]

private theorem applyAdd_no_gap (b : OrderBook) (ev : MarketEvent) : (b.applyAdd ev).1 ≠ .gap := by
  simp only [applyAdd]
  split
  · simp
  · split <;> simp

private theorem applyModify_no_gap (b : OrderBook) (ev : MarketEvent) :
    (b.applyModify ev).1 ≠ .gap := by
  simp only [applyModify]
  split
  · simp
  · split <;> simp

private theorem applyCancel_no_gap (returned : b.applyCancel fuel ev = some (result, b')) :
    result ≠ .gap := by
  simp only [applyCancel] at returned
  split at returned
  · cases returned
    simp
  · simp only [Option.bind_eq_bind, Option.bind_eq_some_iff, Option.some.injEq,
      Prod.mk.injEq] at returned
    obtain ⟨_, _, rfl, _⟩ := returned
    simp

private theorem applyTrade_no_gap (returned : b.applyTrade fuel ev = some (result, b')) :
    result ≠ .gap := by
  simp only [applyTrade, Option.bind_eq_bind, Option.bind_eq_some_iff, Option.some.injEq,
    Prod.mk.injEq, Prod.exists] at returned
  obtain ⟨_, _, _, _, _, _, rfl, _⟩ := returned
  split <;> simp

/-- The result `gap` is only given for a gap, and never for a snapshot. -/
theorem applyEvent_gap_iff (returned : b.applyEvent fuel ev = some (result, b')) :
    result = .gap ↔ b.SeqGap ev ∧ ev.msgType ≠ some .snapQuote := by
  rw [← trackSeq_gap_iff]
  simp only [applyEvent] at returned
  split at returned
  next gap =>
    cases returned
    exact iff_of_true rfl gap
  next met =>
    refine iff_of_false ?_ met
    split at returned
    · cases returned
      simp
    · split at returned
      · cases returned
        simp
      · have after := congrArg Prod.fst (Option.some.inj returned)
        exact fun gap => applyAdd_no_gap _ ev (after.trans gap)
    · split at returned
      · cases returned
        simp
      · have after := congrArg Prod.fst (Option.some.inj returned)
        exact fun gap => applyModify_no_gap _ ev (after.trans gap)
    · split at returned
      · cases returned
        simp
      · exact applyCancel_no_gap returned
    · split at returned
      · cases returned
        simp
      · exact applyTrade_no_gap returned
    · cases returned
      simp

/-- Where the sequence state stands after an event. -/
theorem applyEvent_sequence (ok : b.table.Ok)
    (returned : b.applyEvent fuel ev = some (result, b')) :
    b'.gapCount = (b.trackSeq ev).2.gapCount ∧ b'.expectedSeq = (b.trackSeq ev).2.expectedSeq ∧
      b'.stale = if ev.msgType = some .snapQuote then false else (b.trackSeq ev).2.stale := by
  by_cases snap : ev.msgType = some .snapQuote
  · rw [applyEvent_snapQuote snap] at returned
    cases returned
    refine ⟨rfl, ?_, by rw [if_pos snap]; rfl⟩
    -- the seed stores the number that the check has stored already
    simp only [seed, clear, trackSeq]
    split_ifs <;> rfl
  · obtain ⟨m, first, second, _⟩ := applyEvent_changes ok returned
    obtain ⟨gaps, expected, stale⟩ := first.sequence snap
    obtain ⟨gaps', expected', stale'⟩ := second.sequence snap
    exact ⟨gaps'.trans gaps, expected'.trans expected, by rw [if_neg snap, stale', stale]⟩

/-- The book expects this number, or none in particular. -/
def Awaits (b : OrderBook) (seq : Nat) : Prop := b.expectedSeq = 0 ∨ b.expectedSeq = seq

theorem Awaits.met (awaits : b.Awaits ev.seqNo) : ¬ b.SeqGap ev := by
  rintro ⟨_, started, different⟩
  rcases awaits with zero | expected
  · exact started zero
  · exact different expected.symm

/-- After an event in order the book expects the number that follows. -/
theorem Awaits.next (awaits : b.Awaits ev.seqNo) (ok : b.table.Ok)
    (type : ev.msgType ≠ some .snapQuote)
    (returned : b.applyEvent fuel ev = some (result, b')) :
    b'.Awaits (u64 (ev.seqNo + 1)) ∧ b'.stale = b.stale := by
  obtain ⟨_, expected, stale⟩ := applyEvent_sequence ok returned
  rw [trackSeq_of_no_gap awaits.met] at expected stale
  rw [if_neg type] at stale
  refine ⟨?_, stale⟩
  rw [Awaits, expected]
  dsimp only
  split
  · exact .inr rfl
  next unnumbered =>
    -- the number 0 follows the largest one, which leaves nothing expected
    rcases awaits with zero | same
    · exact .inl zero
    · exact .inl (same.trans (Decidable.not_not.mp unnumbered))

end Sequence

/-! ### The book invariant -/

/-- What every book satisfies whatever events it was given. -/
structure Ok (b : OrderBook) : Prop where
  table : b.table.Ok
  side : ∀ side, SideOk b.tickSize side (b.levels side)

section Invariant

variable {b b' : OrderBook} {ev : MarketEvent} {fuel : Nat}

theorem tickOk_iff (b : OrderBook) (price : Int) :
    b.tickOk price = true ↔ (b.tickSize ≠ 0 → b.tickSize ∣ price) := by
  simp only [tickOk, Bool.or_eq_true, beq_iff_eq, Int.dvd_iff_tmod_eq_zero]
  tauto

theorem new_ok (token : Nat) (tickSize : Int) (capacity : Nat) :
    (new token tickSize capacity).Ok := by
  refine ⟨OrderTable.new_ok capacity, ?_⟩
  intro side
  cases side <;> exact sideOk_nil _ _

@[simp] theorem addQty_table (b : OrderBook) (side : Side) (price qty : Int) :
    (b.addQty side price qty).table = b.table := by cases side <;> rfl

@[simp] theorem addQty_tickSize (b : OrderBook) (side : Side) (price qty : Int) :
    (b.addQty side price qty).tickSize = b.tickSize := by cases side <;> rfl

@[simp] theorem removeQty_tickSize (b : OrderBook) (side : Side) (price qty : Int) (drop : Bool) :
    (b.removeQty side price qty drop).tickSize = b.tickSize := by cases side <;> rfl

/-- An order that moves to another level leaves the grid alone. -/
theorem requeue_tickSize (b : OrderBook) (table : OrderTable) (side : Side)
    (price qty price' qty' : Int) (drop : Bool) :
    ({ b.removeQty side price qty drop with table := table }.addQty side price' qty').tickSize =
      b.tickSize := by
  rw [addQty_tickSize]
  exact removeQty_tickSize ..

theorem addQty_levels (b : OrderBook) (side s : Side) (price qty : Int) :
    (b.addQty side price qty).levels s =
      if s = side then addQtyToLevel s (b.levels s) price qty else b.levels s := by
  cases side <;> cases s <;> rfl

theorem removeQty_levels (b : OrderBook) (side s : Side) (price qty : Int) (drop : Bool) :
    (b.removeQty side price qty drop).levels s =
      if s = side then removeQtyFromLevel s (b.levels s) price qty drop else b.levels s := by
  cases side <;> cases s <;> rfl

/-- The levels do not depend on the order table. -/
@[simp] theorem levels_table (b : OrderBook) (table : OrderTable) :
    ({ b with table := table } : OrderBook).levels = b.levels := by
  funext side
  cases side <;> rfl

theorem trackSeq_levels (b : OrderBook) (ev : MarketEvent) :
    (b.trackSeq ev).2.levels = b.levels := by
  funext side
  simp only [trackSeq]
  split_ifs <;> cases side <;> rfl

private theorem addQty_ok (ok : b.Ok) {table : OrderTable} (tableOk : table.Ok) {price : Int}
    (grid : b.tickOk price = true) (side : Side) (qty : Int) :
    ({ b with table := table }.addQty side price qty).Ok := by
  refine ⟨by rwa [addQty_table], ?_⟩
  intro s
  rw [addQty_levels, addQty_tickSize, levels_table]
  split
  · exact addQtyToLevel_sideOk (ok.side s) price qty ((b.tickOk_iff price).mp grid)
  · exact ok.side s

private theorem removeQty_ok (ok : b.Ok) {table : OrderTable} (tableOk : table.Ok) (side : Side)
    (price qty : Int) (drop : Bool) :
    ({ b.removeQty side price qty drop with table := table } : OrderBook).Ok := by
  refine ⟨tableOk, ?_⟩
  intro s
  rw [levels_table, removeQty_levels]
  split
  · exact (b.removeQty_tickSize side price qty drop) ▸
      removeQtyFromLevel_sideOk (ok.side s) price qty drop
  · exact (b.removeQty_tickSize side price qty drop) ▸ ok.side s

private theorem seed_ok (ok : b.Ok) (ev : MarketEvent) : (b.seed ev).Ok := by
  have quoted (side : Side) (price qty : Int) :
      SideOk b.tickSize side (if qty > 0 ∧ b.clear.tickOk price then [⟨price, qty, 1⟩] else []) := by
    split
    next kept => exact sideOk_singleton side ⟨Int.le_refl _, (b.clear.tickOk_iff price).mp kept.2⟩
    · exact sideOk_nil _ _
  refine ⟨ok.table.clear, ?_⟩
  intro side
  cases side
  · exact quoted kSell ev.askPrice ev.askQty
  · exact quoted kBuy ev.bidPrice ev.bidQty

theorem Change.ok (change : Change ev b b') (ok : b.Ok) : b'.Ok := by
  cases change with
  | idle => exact ok
  | seed => exact seed_ok ok ev
  | place table type grid absent stored =>
    exact addQty_ok ok (ok.table.insertOrder_new stored absent).1 grid ev.side ev.qty
  | overwrite i type grid found =>
    exact addQty_ok ok (ok.table.setRecord found _ rfl rfl).1 grid ev.side ev.qty
  | requeue i type grid found =>
    have tableOk := (ok.table.updateRecord found ev.price ev.qty).1
    -- the level that is left and the level that is joined, in this order
    have removed := removeQty_ok ok tableOk (b.table.record i).side (b.table.record i).price
      (b.table.record i).qty true
    refine addQty_ok removed tableOk ?_ (b.table.record i).side ev.qty
    rw [tickOk_iff] at grid ⊢
    rwa [removeQty_tickSize]
  | withdraw orderNo i fuel table type found erased =>
    exact removeQty_ok ok (ok.table.eraseOrder_cases erased).1 _ _ _ _
  | reduce orderNo i type found partly =>
    exact removeQty_ok ok (ok.table.updateRecord found _ _).1 _ _ _ _

theorem Ok.trackSeq (ok : b.Ok) (ev : MarketEvent) : (b.trackSeq ev).2.Ok := by
  simp only [OrderBook.trackSeq]
  split_ifs
  · exact ⟨ok.table, ok.side⟩
  · exact ⟨ok.table, ok.side⟩
  · exact ok

theorem applyEvent_ok {result : BookResult} (ok : b.Ok)
    (returned : b.applyEvent fuel ev = some (result, b')) : b'.Ok := by
  obtain ⟨m, first, second, _⟩ := applyEvent_changes ok.table returned
  exact second.ok (first.ok (ok.trackSeq ev))

end Invariant

/-! ### Runs -/

/-- Books reached from a fresh one by calls that return. -/
inductive Reachable (token : Nat) (tickSize : Int) (capacity : Nat) : OrderBook → Prop
  | fresh : Reachable token tickSize capacity (new token tickSize capacity)
  | event {b b' : OrderBook} {result : BookResult} (fuel : Nat) (ev : MarketEvent) :
      Reachable token tickSize capacity b → b.applyEvent fuel ev = some (result, b') →
      Reachable token tickSize capacity b'
  | cleared {b : OrderBook} : Reachable token tickSize capacity b →
      Reachable token tickSize capacity b.clear

theorem Change.tickSize_eq {b b' : OrderBook} {ev : MarketEvent} (change : Change ev b b') :
    b'.tickSize = b.tickSize := by
  cases change <;> simp [OrderBook.seed, OrderBook.clear]

theorem applyEvent_tickSize {b b' : OrderBook} {ev : MarketEvent} {fuel : Nat}
    {result : BookResult} (ok : b.Ok) (returned : b.applyEvent fuel ev = some (result, b')) :
    b'.tickSize = b.tickSize := by
  obtain ⟨m, first, second, _⟩ := applyEvent_changes ok.table returned
  -- no change touches the tick size, so one run has one grid
  rw [second.tickSize_eq, first.tickSize_eq, OrderBook.trackSeq]
  split_ifs <;> rfl

theorem Change.mask_eq {b b' : OrderBook} {ev : MarketEvent} (change : Change ev b b') :
    b'.table.mask = b.table.mask := by
  cases change with
  | idle => rfl
  | seed => rfl
  | place table type grid absent stored =>
    rw [addQty_table]
    exact (congrArg (fun answer => answer.2.mask) stored).symm.trans (b.table.insertOrder_mask _)
  | overwrite => rw [addQty_table]; rfl
  | requeue => rw [addQty_table]; rfl
  | withdraw orderNo i fuel table type found erased => exact OrderTable.eraseOrder_mask erased
  | reduce => rfl

/-- No event changes the size of the order table. -/
theorem applyEvent_mask {b b' : OrderBook} {ev : MarketEvent} {fuel : Nat}
    {result : BookResult} (ok : b.Ok) (returned : b.applyEvent fuel ev = some (result, b')) :
    b'.table.mask = b.table.mask := by
  obtain ⟨m, first, second, _⟩ := applyEvent_changes ok.table returned
  rw [second.mask_eq, first.mask_eq, trackSeq_table]

section Runs

variable {token capacity : Nat} {tickSize : Int} {b : OrderBook}

theorem Reachable.ok (reachable : Reachable token tickSize capacity b) :
    b.Ok ∧ b.tickSize = tickSize := by
  induction reachable with
  | fresh => exact ⟨new_ok token tickSize capacity, rfl⟩
  | event fuel ev _ returned ih =>
    exact ⟨applyEvent_ok ih.1 returned, (applyEvent_tickSize ih.1 returned).trans ih.2⟩
  | cleared _ ih =>
    refine ⟨⟨ih.1.table.clear, ?_⟩, ih.2⟩
    intro side
    cases side <;> exact sideOk_nil _ _

/-- Whatever the events, both sides stay strictly sorted, bounded, free of empty levels
and on the tick grid. -/
theorem reachable_sides_sorted (token capacity : Nat) (tickSize : Int) (b : OrderBook)
    (reachable : Reachable token tickSize capacity b) :
    b.bids.Pairwise (fun l m => l.price > m.price) ∧
    b.asks.Pairwise (fun l m => l.price < m.price) ∧
    b.bids.length ≤ 256 ∧ b.asks.length ≤ 256 ∧
    ∀ l ∈ b.bids ++ b.asks, 1 ≤ l.orderCount ∧ (tickSize ≠ 0 → tickSize ∣ l.price) := by
  obtain ⟨ok, rfl⟩ := reachable.ok
  obtain ⟨bidsSorted, bidsBounded, bidsEach⟩ := ok.side kBuy
  obtain ⟨asksSorted, asksBounded, asksEach⟩ := ok.side kSell
  refine ⟨?_, ?_, bidsBounded, asksBounded, ?_⟩
  · simpa [Sorted, sortsBefore, levels] using bidsSorted
  · simpa [Sorted, sortsBefore, levels] using asksSorted
  · intro l member
    rcases List.mem_append.mp member with bid | ask
    · exact ⟨(bidsEach l bid).used, (bidsEach l bid).onTick⟩
    · exact ⟨(asksEach l ask).used, (asksEach l ask).onTick⟩

/-- A duplicate add at a second price leaves two levels, still sorted. -/
theorem reachable_sides_sorted_duplicate :
    ∃ b, Reachable 7 5 4 b ∧ b.bids = [⟨105, 3, 1⟩, ⟨100, 10, 1⟩] ∧
      b.bids.Pairwise (fun l m => l.price > m.price) := by
  have placed : Reachable 7 5 4 _ := Reachable.event 0
    { type := 65, orderNo := 1, price := 100, qty := 10 } .fresh rfl
  have duplicate := placed.event 0 { type := 65, orderNo := 1, price := 105, qty := 3 } rfl
  exact ⟨_, duplicate, by decide +kernel, (reachable_sides_sorted 7 4 5 _ duplicate).1⟩

end Runs

/-! ### Replay -/

/-- The results of a list of events, one after the other, and the book after them. -/
def replay (fuel : Nat) (b : OrderBook) :
    List MarketEvent → Option (List BookResult × OrderBook)
  | [] => some ([], b)
  | ev :: rest => do
    let (result, next) ← b.applyEvent fuel ev
    let (results, last) ← replay fuel next rest
    some (result :: results, last)

theorem replay_concat {fuel : Nat} {b m b' : OrderBook} {evs : List MarketEvent}
    {results : List BookResult} {ev : MarketEvent} {result : BookResult}
    (before : b.replay fuel evs = some (results, m))
    (last : m.applyEvent fuel ev = some (result, b')) :
    b.replay fuel (evs ++ [ev]) = some (results ++ [result], b') := by
  induction evs generalizing b results with
  | nil =>
    cases before
    simp [replay, last]
  | cons first rest ih =>
    simp only [replay, Option.bind_eq_bind, Option.bind_eq_some_iff, Prod.exists] at before
    obtain ⟨answer, next, applied, answers, _, later, same⟩ := before
    cases same
    simp [replay, applied, ih later]

/-! ### Termination -/

/-- A trade of this size takes all of the order. -/
def Consumes (b : OrderBook) (orderNo traded : Int) : Prop :=
  orderNo ≠ 0 ∧ ∃ r, b.table.lookupOrder orderNo = some r ∧ r.qty ≤ traded

/-- The event erases an order while every slot of the table is occupied. The second leg
of a trade may meet an order that the first leg has reduced. -/
def ErasesFromFull (b : OrderBook) (ev : MarketEvent) : Prop :=
  b.table.Full ∧ (b.trackSeq ev).2.stale = false ∧
    ((ev.msgType = some .orderCancel ∧ ∃ r, b.table.lookupOrder ev.orderNo = some r) ∨
     (ev.msgType = some .trade ∧ (b.Consumes ev.orderNo ev.qty ∨
        (ev.orderNo2 ≠ 0 ∧ ∃ r, b.table.lookupOrder ev.orderNo2 = some r ∧
          (if ev.orderNo2 = ev.orderNo then i32 (r.qty - ev.qty) else r.qty) ≤ ev.qty))))

section Termination

variable {b b' : OrderBook} {ev : MarketEvent} {orderNo traded : Int}

theorem lookupOrder_eq_record {t : OrderTable} {orderNo : Int} {i : Nat}
    (found : t.findOrder orderNo = some i) : t.lookupOrder orderNo = some (t.record i) := by
  rw [OrderTable.lookupOrder, found, Option.map_some]

private theorem reduceResting_hangs (ok : b.table.Ok) (full : b.table.Full)
    (consumed : b.Consumes orderNo traded) (fuel : Nat) :
    b.reduceResting fuel orderNo traded = none := by
  obtain ⟨nonzero, r, looked, fully⟩ := consumed
  obtain ⟨i, found, rfl⟩ := Option.map_eq_some_iff.mp looked
  simp [reduceResting, nonzero, found, fully, ok.eraseOrder_full found full]

/-- With a free slot a reduction returns, says whether the order rests, and leaves a free
slot. -/
private theorem reduceResting_room (ok : b.table.Ok) (room : ¬ b.table.Full) (fuel : Nat)
    (lap : b.table.mask < fuel) (orderNo traded : Int) :
    ∃ hit b', b.reduceResting fuel orderNo traded = some (hit, b') ∧ b'.table.Ok ∧
      b'.table.mask = b.table.mask ∧ ¬ b'.table.Full ∧
      (orderNo ≠ 0 → b.table.findOrder orderNo ≠ none → hit = true) := by
  simp only [reduceResting]
  split
  next zero => exact ⟨_, _, rfl, ok, rfl, room, fun nonzero => absurd zero nonzero⟩
  split
  next none => exact ⟨_, _, rfl, ok, rfl, room, fun _ found => absurd none found⟩
  next i found =>
    split
    next fully =>
      obtain ⟨table, erased⟩ := ok.eraseOrder_returns room orderNo fuel lap
      obtain ⟨tableOk, mask, _⟩ := ok.eraseOrder_cases erased
      rw [erased]
      exact ⟨_, _, rfl, tableOk, mask, ok.eraseOrder_room room erased, fun _ _ => rfl⟩
    next partly =>
      obtain ⟨tableOk, full_iff, _⟩ := ok.updateRecord found (b.table.record i).price
        (i32 ((b.table.record i).qty - traded))
      exact ⟨_, _, rfl, tableOk, rfl, fun full => room (full_iff.mp full), fun _ _ => rfl⟩

/-- In a full table an order that is not consumed is reduced in place. -/
private theorem reduceResting_full (ok : b.table.Ok) (full : b.table.Full)
    (kept : ¬ b.Consumes orderNo traded) :
    ∃ hit b', (∀ fuel, b.reduceResting fuel orderNo traded = some (hit, b')) ∧ b'.table.Ok ∧
      b'.table.Full ∧ ∀ other, other ≠ 0 → b'.table.lookupOrder other =
        (b.table.lookupOrder other).map fun r =>
          if other = orderNo then { r with qty := i32 (r.qty - traded) } else r := by
  by_cases zero : orderNo = 0
  · refine ⟨false, b, fun fuel => by rw [reduceResting, if_pos zero], ok, full, ?_⟩
    intro other nonzero
    simp [zero, nonzero]
  cases found : b.table.findOrder orderNo with
  | none =>
    refine ⟨false, b, fun fuel => by simp only [reduceResting, if_neg zero, found], ok, full, ?_⟩
    intro other _
    by_cases same : other = orderNo
    · rw [same, (b.table.lookupOrder_none_iff orderNo).mpr found, Option.map_none]
    · simp [same]
  | some i =>
    have looked := lookupOrder_eq_record found
    have partly : ¬ traded ≥ (b.table.record i).qty :=
      fun fully => kept ⟨zero, _, looked, fully⟩
    obtain ⟨tableOk, full_iff, _⟩ := ok.updateRecord found (b.table.record i).price
      (i32 ((b.table.record i).qty - traded))
    have reduced (fuel : Nat) : b.reduceResting fuel orderNo traded = some (true,
        { b.removeQty (b.table.record i).side (b.table.record i).price traded false with
          table := b.table.updateRecord i (b.table.record i).price
            (i32 ((b.table.record i).qty - traded)) }) := by
      simp only [reduceResting, if_neg zero, found, partly, decide_false, Bool.false_eq_true,
        if_false]
    refine ⟨true, _, reduced, tableOk, full_iff.mpr full, ?_⟩
    intro other _
    rw [ok.updateRecord_lookup found]
    by_cases same : other = orderNo
    · rw [same, Function.update_self, looked, Option.map_some, if_pos rfl]
    · rw [Function.update_of_ne same]
      simp [same]

private theorem applyTrade_returns_iff (ok : b.table.Ok) :
    (∃ fuel result b', b.applyTrade fuel ev = some (result, b')) ↔
      ¬ (b.table.Full ∧ (b.Consumes ev.orderNo ev.qty ∨
        (ev.orderNo2 ≠ 0 ∧ ∃ r, b.table.lookupOrder ev.orderNo2 = some r ∧
          (if ev.orderNo2 = ev.orderNo then i32 (r.qty - ev.qty) else r.qty) ≤ ev.qty))) := by
  by_cases full : b.table.Full
  -- the first leg may hang already
  · by_cases consumed : b.Consumes ev.orderNo ev.qty
    · simp [applyTrade, reduceResting_hangs ok full consumed, full, consumed]
    · obtain ⟨hit, m, first, mOk, mFull, lookups⟩ := reduceResting_full ok full consumed
      -- the second leg sees the table the first leg left
      have second_iff : m.Consumes ev.orderNo2 ev.qty ↔
          (ev.orderNo2 ≠ 0 ∧ ∃ r, b.table.lookupOrder ev.orderNo2 = some r ∧
            (if ev.orderNo2 = ev.orderNo then i32 (r.qty - ev.qty) else r.qty) ≤ ev.qty) := by
        apply and_congr_right
        intro nonzero
        rw [lookups _ nonzero]
        cases b.table.lookupOrder ev.orderNo2 with
        | none => simp
        | some r => by_cases same : ev.orderNo2 = ev.orderNo <;> simp [same]
      rw [← second_iff]
      by_cases again : m.Consumes ev.orderNo2 ev.qty
      · simp [applyTrade, first, reduceResting_hangs mOk mFull again, full, again]
      · obtain ⟨_, _, second, _⟩ := reduceResting_full mOk mFull again
        simp [applyTrade, first, second, consumed, again]
  -- with a free slot one lap of fuel is enough for either leg
  · obtain ⟨hit, m, first, mOk, mask, mRoom, _⟩ :=
      reduceResting_room ok full (b.table.mask + 1) (Nat.lt_succ_self _) ev.orderNo ev.qty
    obtain ⟨hit', final, second, _⟩ := reduceResting_room mOk mRoom (b.table.mask + 1)
      (by omega) ev.orderNo2 ev.qty
    simp only [full, false_and, not_false_eq_true, iff_true]
    exact ⟨b.table.mask + 1, if hit || hit' then .ok else .unknownOrder, final,
      by simp [applyTrade, first, second]⟩

private theorem applyCancel_returns_iff (ok : b.table.Ok) :
    (∃ fuel result b', b.applyCancel fuel ev = some (result, b')) ↔
      ¬ (b.table.Full ∧ ∃ r, b.table.lookupOrder ev.orderNo = some r) := by
  cases found : b.table.findOrder ev.orderNo with
  | none => simp [applyCancel, found, (b.table.lookupOrder_none_iff ev.orderNo).mpr found]
  | some i =>
    by_cases full : b.table.Full
    · simp [applyCancel, found, ok.eraseOrder_full found full, full, lookupOrder_eq_record found]
    · obtain ⟨table, erased⟩ :=
        ok.eraseOrder_returns full ev.orderNo (b.table.mask + 1) (Nat.lt_succ_self _)
      simp only [full, false_and, not_false_eq_true, iff_true]
      exact ⟨b.table.mask + 1, .ok, _, by simp only [applyCancel, found, erased]; rfl⟩

theorem trackSeq_gap_stale (b : OrderBook) (ev : MarketEvent) (gap : (b.trackSeq ev).1 = true) :
    (b.trackSeq ev).2.stale = true := by
  revert gap
  simp only [trackSeq]
  split_ifs <;> simp

/-- An event is stuck exactly when it erases from a full table. -/
theorem applyEvent_returns_iff (ok : b.table.Ok) (ev : MarketEvent) :
    (∃ fuel result b', b.applyEvent fuel ev = some (result, b')) ↔ ¬ b.ErasesFromFull ev := by
  have ok' : (b.trackSeq ev).2.table.Ok := by rwa [trackSeq_table]
  have gapStale := b.trackSeq_gap_stale ev
  simp only [applyEvent, ErasesFromFull, Consumes]
  rw [← trackSeq_table b ev]
  generalize (b.trackSeq ev).2 = tracked at ok' gapStale ⊢
  generalize (b.trackSeq ev).1 = gap at gapStale ⊢
  cases fresh : tracked.stale with
  | true =>
    -- nothing but a snap quote is applied to a stale book
    simp only [Bool.true_eq_false, false_and, and_false, not_false_eq_true, iff_true]
    refine ⟨0, ?_⟩
    split_ifs
    · exact ⟨_, _, rfl⟩
    · split <;> exact ⟨_, _, rfl⟩
  | false =>
    -- a gap would have made the book stale
    have noGap : gap = false := by
      cases gap with
      | false => rfl
      | true => simp [gapStale rfl] at fresh
    cases ev.msgType with
    | none => simp [noGap]
    | some type =>
      cases type with
      | orderCancel => simpa [noGap] using applyCancel_returns_iff ok'
      | trade => simpa [noGap, Consumes] using applyTrade_returns_iff ok'
      | orderAdd => simpa [noGap] using ⟨_, _, rfl⟩
      | orderModify => simpa [noGap] using ⟨_, _, rfl⟩
      | _ => simp [noGap]

/-- A call of `apply_event` on a reachable book returns exactly when it does not erase an
order from a completely full table. -/
theorem applyEvent_terminates_iff (token capacity : Nat) (tickSize : Int) (b : OrderBook)
    (reachable : Reachable token tickSize capacity b) (ev : MarketEvent) :
    (∃ fuel result b', b.applyEvent fuel ev = some (result, b')) ↔ ¬ b.ErasesFromFull ev :=
  applyEvent_returns_iff reachable.ok.1.table ev

/-- A table of one slot that holds one order. -/
private theorem oneSlot_reachable : Reachable 7 5 1
    (new 7 5 1 |>.applyAdd { type := 65, orderNo := 1, price := 100, qty := 10 }).2 :=
  Reachable.event 0 { type := 65, orderNo := 1, price := 100, qty := 10 } .fresh rfl

theorem applyEvent_terminates_iff_modify :
    ∃ fuel result b', (new 7 5 1 |>.applyAdd
      { type := 65, orderNo := 1, price := 100, qty := 10 }).2.applyEvent fuel
      { type := 77, orderNo := 1, price := 105, qty := 10 } = some (result, b') := by
  refine (applyEvent_terminates_iff 7 1 5 _ oneSlot_reachable _).mpr ?_
  rintro ⟨_, _, ⟨cancel, _⟩ | ⟨trade, _⟩⟩
  · exact absurd cancel (by decide)
  · exact absurd trade (by decide)

/-- Cancelling the only order of a table of one slot never returns. -/
theorem cancel_in_full_table_hangs :
    ∃ b, Reachable 7 5 1 b ∧ ∀ fuel, b.applyEvent fuel { type := 88, orderNo := 1 } = none := by
  refine ⟨_, oneSlot_reachable, ?_⟩
  intro fuel
  have hangs : (new 7 5 1 |>.applyAdd
      { type := 65, orderNo := 1, price := 100, qty := 10 }).2.ErasesFromFull
      { type := 88, orderNo := 1 } :=
    ⟨by decide +kernel, by decide +kernel, .inl ⟨by decide, ⟨1, 100, 10, kBuy, true⟩, by decide +kernel⟩⟩
  by_contra returned
  obtain ⟨⟨result, b'⟩, returned⟩ := Option.ne_none_iff_exists'.mp returned
  exact (applyEvent_returns_iff oneSlot_reachable.ok.1.table _).mp ⟨fuel, result, b', returned⟩ hangs

end Termination

/-! ### Events that are taken -/

section Taken

variable {b : OrderBook} {ev : MarketEvent} {fuel : Nat}

/-- An add on the grid is taken by a live book that has a free slot. -/
theorem applyEvent_add_taken (ok : b.table.Ok) (type : ev.msgType = some .orderAdd)
    (met : ¬ b.SeqGap ev) (live : b.stale = false) (grid : b.tickOk ev.price = true)
    (free : ¬ b.table.Full) (fuel : Nat) :
    ∃ table, b.applyEvent fuel ev =
      some (.ok, { (b.trackSeq ev).2 with table := table }.addQty ev.side ev.price ev.qty) := by
  have stored : ∃ table, b.table.insertOrder ⟨ev.orderNo, ev.price, ev.qty, ev.side, true⟩ =
      (true, table) := by
    rcases ok.insertOrder_cases ⟨ev.orderNo, ev.price, ev.qty, ev.side, true⟩ with
      ⟨table, stored, _⟩ | ⟨i, _, stored⟩ | ⟨_, full, _⟩
    · exact ⟨table, stored⟩
    · exact ⟨_, stored⟩
    · exact absurd full free
  obtain ⟨table, stored⟩ := stored
  have grid' : (b.trackSeq ev).2.tickOk ev.price = true := by
    rw [trackSeq_of_no_gap met]
    exact grid
  rw [applyEvent_orderAdd met live type]
  simp only [applyAdd, grid', trackSeq_table, stored]
  exact ⟨table, rfl⟩

/-- An add off the grid only counts as an event. -/
theorem applyEvent_add_off_grid (type : ev.msgType = some .orderAdd) (met : ¬ b.SeqGap ev)
    (live : b.stale = false) (grid : b.tickOk ev.price = false) (fuel : Nat) :
    b.applyEvent fuel ev = some (.tickViolation, (b.trackSeq ev).2) := by
  have grid' : (b.trackSeq ev).2.tickOk ev.price = false := by
    rw [trackSeq_of_no_gap met]
    exact grid
  rw [applyEvent_orderAdd met live type]
  simp only [applyAdd, grid', Bool.not_false, if_true]

/-- A cancel is taken when the order is tracked. -/
theorem applyEvent_cancel_taken {i : Nat} {table : OrderTable}
    (type : ev.msgType = some .orderCancel) (met : ¬ b.SeqGap ev) (live : b.stale = false)
    (found : b.table.findOrder ev.orderNo = some i)
    (erased : b.table.eraseOrder fuel ev.orderNo = some table) :
    b.applyEvent fuel ev = some (.ok,
      { (b.trackSeq ev).2.removeQty (b.table.record i).side (b.table.record i).price
        (b.table.record i).qty true with table := table }) := by
  rw [applyEvent_orderCancel met live type]
  simp only [applyCancel, trackSeq_table, found, erased]
  rfl

/-- A trade is taken when it names one order and that order is tracked. -/
theorem applyEvent_trade_taken (ok : b.table.Ok) (room : ¬ b.table.Full)
    (lap : b.table.mask < fuel) (type : ev.msgType = some .trade) (met : ¬ b.SeqGap ev)
    (live : b.stale = false) {orderNo : Int} (nonzero : orderNo ≠ 0)
    (found : b.table.findOrder orderNo ≠ none)
    (legs : (ev.orderNo = orderNo ∧ ev.orderNo2 = 0) ∨
      (ev.orderNo = 0 ∧ ev.orderNo2 = orderNo)) :
    ∃ b', b.applyEvent fuel ev = some (.ok, b') := by
  rw [applyEvent_trade met live type]
  have ok' : (b.trackSeq ev).2.table.Ok := by rwa [trackSeq_table]
  rw [← trackSeq_table b ev] at room lap found
  generalize (b.trackSeq ev).2 = tracked at *
  obtain ⟨hit, b', reduced, _, _, _, rests⟩ :=
    reduceResting_room ok' room fuel lap orderNo ev.qty
  obtain rfl := rests nonzero found
  -- the number 0 stands for no order
  have skipped (m : OrderBook) : m.reduceResting fuel 0 ev.qty = some (false, m) := by
    rw [reduceResting, if_pos rfl]
  rcases legs with ⟨buy, none⟩ | ⟨none, sell⟩
  · exact ⟨b', by simp [applyTrade, buy, none, reduced, skipped]⟩
  · exact ⟨b', by simp [applyTrade, none, sell, reduced, skipped]⟩

/-- With a free slot, a lap of the table is enough for any event. -/
theorem applyEvent_returns_of_room (ok : b.table.Ok) (room : ¬ b.table.Full)
    (lap : b.table.mask < fuel) (ev : MarketEvent) :
    ∃ result b', b.applyEvent fuel ev = some (result, b') := by
  have ok' : (b.trackSeq ev).2.table.Ok := by rwa [trackSeq_table]
  rw [← trackSeq_table b ev] at room lap
  simp only [applyEvent]
  generalize (b.trackSeq ev).2 = tracked at *
  split
  · exact ⟨_, _, rfl⟩
  split
  · exact ⟨_, _, rfl⟩
  · split <;> exact ⟨_, _, rfl⟩
  · split <;> exact ⟨_, _, rfl⟩
  · split
    · exact ⟨_, _, rfl⟩
    simp only [applyCancel]
    split
    · exact ⟨_, _, rfl⟩
    · obtain ⟨table, erased⟩ := ok'.eraseOrder_returns room ev.orderNo fuel lap
      rw [erased]
      exact ⟨_, _, rfl⟩
  · split
    · exact ⟨_, _, rfl⟩
    obtain ⟨_, m, first, mOk, mask, mRoom, _⟩ :=
      reduceResting_room ok' room fuel lap ev.orderNo ev.qty
    obtain ⟨_, b', second, _⟩ :=
      reduceResting_room mOk mRoom fuel (mask ▸ lap) ev.orderNo2 ev.qty
    exact ⟨_, b', by simp [applyTrade, first, second]; rfl⟩
  · exact ⟨_, _, rfl⟩

end Taken

end OrderBook

end NseHft
