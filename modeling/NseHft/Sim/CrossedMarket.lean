import NseHft.Sim.MtbtGenerator

/-!
# Locked and crossed markets

`generate_mbo` lets the mid walk while the orders that it placed around earlier mids rest, and
nothing matches the two sides of its book. An order placed around the new mid can therefore meet
the resting ones of the other side. A book shows the orders of the stream that are on its own
grid, so what matters at a step is where these stand before it.
-/
namespace NseHft

open FixedWidth

/-! ### The book -/

namespace OrderBook

/-- The market is neither locked nor crossed. -/
def Uncrossed (b : OrderBook) : Prop :=
  ∀ bid ∈ b.bestBid, ∀ ask ∈ b.bestAsk, bid.price < ask.price

instance (b : OrderBook) : Decidable b.Uncrossed :=
  inferInstanceAs (Decidable (∀ bid ∈ b.bestBid, ∀ ask ∈ b.bestAsk, bid.price < ask.price))

/-- The book takes every prefix of the events, and the market is uncrossed after it. -/
def NeverCrossed (fuel : Nat) (b : OrderBook) (evs : List MarketEvent) : Prop :=
  ∀ pre, pre <+: evs → ∃ results b', b.replay fuel pre = some (results, b') ∧ b'.Uncrossed

section Uncrossed

variable {b m b' : OrderBook} {fuel : Nat} {evs : List MarketEvent} {ev : MarketEvent}
  {results : List BookResult} {result : BookResult}

/-- The best prices stand for all orders of their sides. -/
theorem Consistent.uncrossed_iff (c : b.Consistent) :
    b.Uncrossed ↔ ∀ bid ∈ b.table.tracked, ∀ ask ∈ b.table.tracked,
      bid.side = kBuy → ask.side = kSell → bid.price < ask.price := by
  obtain ⟨noBid, bestBid⟩ := (c.shows kBuy).best
  obtain ⟨noAsk, bestAsk⟩ := (c.shows kSell).best
  constructor
  · intro uncrossed bid isBid ask isAsk buy sell
    -- both sides have an order, so both have a best price
    obtain ⟨l, bidHead⟩ := Option.ne_none_iff_exists'.mp fun none => noBid.mp none bid isBid buy
    obtain ⟨l', askHead⟩ := Option.ne_none_iff_exists'.mp fun none => noAsk.mp none ask isAsk sell
    have apart : l.price < l'.price := uncrossed l bidHead l' askHead
    have below := (bestBid l bidHead).2 bid isBid buy
    have above := (bestAsk l' askHead).2 ask isAsk sell
    simp only [sortsBefore, if_true, Bool.false_eq_true, if_false, decide_eq_true_eq]
      at below above
    omega
  · intro apart l bidHead l' askHead
    obtain ⟨bid, isBid, buy, bidPrice⟩ := (bestBid l bidHead).1
    obtain ⟨ask, isAsk, sell, askPrice⟩ := (bestAsk l' askHead).1
    rw [← bidPrice, ← askPrice]
    exact apart bid isBid ask isAsk buy sell

theorem neverCrossed_nil_iff : b.NeverCrossed fuel [] ↔ b.Uncrossed := by
  simp [NeverCrossed, replay]

theorem NeverCrossed.last (never : b.NeverCrossed fuel evs)
    (replayed : b.replay fuel evs = some (results, b')) : b'.Uncrossed := by
  obtain ⟨_, reached, returned, uncrossed⟩ := never _ (List.prefix_refl _)
  rw [replayed] at returned
  cases returned
  exact uncrossed

/-- One more event is one more prefix. -/
theorem neverCrossed_concat_iff (before : b.replay fuel evs = some (results, m))
    (last : m.applyEvent fuel ev = some (result, b')) :
    b.NeverCrossed fuel (evs ++ [ev]) ↔ b.NeverCrossed fuel evs ∧ b'.Uncrossed := by
  have replayed := replay_concat before last
  constructor
  · intro never
    exact ⟨fun pre inside => never pre (inside.trans (List.prefix_append _ _)), never.last replayed⟩
  · rintro ⟨never, uncrossed⟩ pre inside
    rcases List.prefix_concat_iff.mp inside with rfl | shorter
    · exact ⟨_, _, replayed, uncrossed⟩
    · exact never pre shorter

end Uncrossed

end OrderBook

/-! ### The orders that a book accepts -/

namespace Mbo

variable {on : Int → Bool} {m m' : Mbo} {b b' : OrderBook} {ev : MarketEvent} {fuel i : Nat}

/-- The records of the orders whose price is accepted. -/
def accepted (on : Int → Bool) (live : List LiveOrder) : List OrderRecord :=
  (live.filter fun o => on o.price).map LiveOrder.record

theorem mem_accepted {live : List LiveOrder} {r : OrderRecord} :
    r ∈ accepted on live ↔ ∃ o ∈ live, on o.price = true ∧ o.record = r := by
  simp [accepted, and_assoc]

theorem accepted_perm (on : Int → Bool) {live live' : List LiveOrder} (perm : live.Perm live') :
    (accepted on live).Perm (accepted on live') := (perm.filter _).map _

theorem accepted_append (live live' : List LiveOrder) :
    accepted on (live ++ live') = accepted on live ++ accepted on live' := by
  simp [accepted]

theorem accepted_remains (o : LiveOrder) (tq : Int) : accepted on (remains o tq) =
    if on o.price then (remains o tq).map LiveOrder.record else [] := by
  rw [remains]
  split
  · simp [accepted]
  · by_cases grid : on o.price <;> simp [accepted, grid]

/-- A change of one order shows when the order is accepted. -/
theorem updateOrder_accepted (on : Int → Bool) {live rest : List LiveOrder} {o : LiveOrder}
    (unique : (live.map LiveOrder.no).Nodup) (perm : live.Perm (o :: rest))
    (f : OrderRecord → Option OrderRecord) :
    (updateOrder o.no f (accepted on live)).Perm
      ((if on o.price then (f o.record).toList else []) ++ accepted on rest) := by
  have numbers : ((o :: rest).map LiveOrder.no).Nodup :=
    (perm.map LiveOrder.no).nodup_iff.mp unique
  -- an order that the book does not have must not be found under another one's number
  have split := accepted_perm on perm
  refine (updateOrder_perm split).trans (.of_eq ?_)
  have others : ∀ r ∈ accepted on rest, r.orderNo ≠ o.no := by
    intro r member same
    obtain ⟨p, listed, _, rfl⟩ := mem_accepted.mp member
    exact (List.nodup_cons.mp numbers).1 (List.mem_map.mpr ⟨p, listed, same⟩)
  by_cases grid : on o.price = true
  · have here : accepted on (o :: rest) = o.record :: accepted on rest := by
      simp [accepted, grid]
    rw [here, if_pos grid]
    refine updateOrder_present ?_ rfl
    rw [List.map_cons, List.nodup_cons]
    refine ⟨?_, ?_⟩
    · rintro taken
      obtain ⟨r, member, same⟩ := List.mem_map.mp taken
      exact others r member same
    · rw [accepted, List.map_map]
      exact (List.nodup_cons.mp numbers).2.sublist (List.filter_sublist.map _)
  · have away : accepted on (o :: rest) = accepted on rest := by
      simp [accepted, grid]
    rw [away, if_neg grid, updateOrder_absent others, List.nil_append]

/-- A live book that waits for the generator's next event and shows the orders it accepts. -/
structure Shadows (on : Int → Bool) (m : Mbo) (b : OrderBook) : Prop where
  consistent : b.Consistent
  alive : b.stale = false
  awaits : b.Awaits m.gen.seq
  grid : b.tickOk = on
  mask : b.table.mask + 1 = kDefaultOrderCapacity
  tracked : b.table.tracked.Perm (accepted on m.live)

/-- The orders of a call are few enough for every capacity of a book. -/
def kFewOrders : Nat := 200

section Shadows

theorem Shadows.ok (shadows : Shadows on m b) : b.Ok :=
  ⟨shadows.consistent.table, fun side => (shadows.consistent.shows side).ok⟩

theorem Shadows.free (shadows : Shadows on m b) (few : m.live.length ≤ kFewOrders) :
    ¬ b.table.Full := by
  have capacity : kFewOrders < kDefaultOrderCapacity := by decide
  have fewer : (accepted on m.live).length ≤ m.live.length := by
    rw [accepted, List.length_map]
    exact List.length_filter_le _ _
  rw [shadows.ok.table.full_iff, shadows.tracked.length_eq, shadows.mask]
  omega

theorem Listed.accepted_sized (listed : m.Listed) :
    ∀ r ∈ accepted on m.live, r.orderNo ≠ 0 ∧ 0 < r.qty ∧ r.qty ≤ 40 := by
  intro r member
  obtain ⟨o, inside, _, rfl⟩ := mem_accepted.mp member
  exact ⟨Int.ne_of_gt (listed.numbered o inside).1, listed.sized o inside⟩

/-- Few orders of such quantities are within the capacities of the levels. -/
theorem Listed.within (listed : m.Listed) (few : m.live.length ≤ kFewOrders)
    (tracked : b.table.tracked.Perm (accepted on m.live)) : OrderBook.Within [] b := by
  have sized : ∀ r ∈ b.table.tracked, 0 < r.qty ∧ r.qty ≤ 40 := fun r member =>
    (listed.accepted_sized r (tracked.mem_iff.mp member)).2
  have length : b.table.tracked.length ≤ kFewOrders := by
    rw [tracked.length_eq, accepted, List.length_map]
    exact Nat.le_trans (List.length_filter_le _ _) few
  have total : (b.table.tracked.map OrderRecord.qty).sum ≤ b.table.tracked.length * 40 := by
    have each := List.sum_le_card_nsmul (b.table.tracked.map OrderRecord.qty) 40 (by
      intro qty member
      obtain ⟨r, inside, rfl⟩ := List.mem_map.mp member
      exact (sized r inside).2)
    simpa using each
  have capacity : kFewOrders = 200 := rfl
  apply OrderBook.within_of_few
  · exact fun r member => (sized r member).1
  · rw [List.nil_append, kMaxLevelsPerSide]
    omega
  · rw [List.nil_append]
    omega

/-- An event moves the book on with the generator, if it leaves the right orders. -/
theorem Shadows.event (shadows : Shadows on m b) (few : m.live.length ≤ kFewOrders)
    (lap : kDefaultOrderCapacity ≤ fuel) (listed : m'.Listed)
    (few' : m'.live.length ≤ kFewOrders) (admissible : b.Admissible ev)
    (type : ev.msgType ≠ some .snapQuote) (number : ev.seqNo = m.gen.seq)
    (next : m'.gen.seq = u64 (m.gen.seq + 1))
    (tracked : ∀ result b', b.applyEvent fuel ev = some (result, b') →
      b'.table.tracked.Perm (accepted on m'.live)) :
    ∃ result b', b.applyEvent fuel ev = some (result, b') ∧ Shadows on m' b' := by
  have room : b.table.mask < fuel := by
    have size := shadows.mask
    omega
  obtain ⟨result, b', returned⟩ := OrderBook.applyEvent_returns_of_room shadows.ok.table
    (shadows.free few) room ev
  have orders := tracked result b' returned
  have awaits : b.Awaits ev.seqNo := number ▸ shadows.awaits
  obtain ⟨awaits', stale⟩ := awaits.next shadows.ok.table type returned
  refine ⟨result, b', returned, ?_⟩
  constructor
  · exact OrderBook.consistent_iff.mpr (OrderBook.applyEvent_aggregates
      (OrderBook.consistent_iff.mp shadows.consistent) admissible returned
      (listed.within few' orders))
  · exact stale.trans shadows.alive
  · rw [next, ← number]
    exact awaits'
  · rw [← shadows.grid]
    funext price
    simp only [OrderBook.tickOk, OrderBook.applyEvent_tickSize shadows.ok returned]
  · rw [OrderBook.applyEvent_mask shadows.ok returned]
    exact shadows.mask
  · exact orders

theorem Shadows.follows (shadows : Shadows on m b) (listed : m.Listed)
    (few : m.live.length ≤ kFewOrders) (number : ev.seqNo = m.gen.seq)
    (grid : ev.msgType = some .orderAdd ∨ ev.msgType = some .orderModify → on ev.price = true)
    (absent : ev.msgType = some .orderAdd → b.table.findOrder ev.orderNo = none)
    (traded : ev.msgType = some .trade → 0 < ev.qty) : b.Follows ev where
  table := shadows.ok.table
  free := shadows.free few
  live := shadows.alive
  met := OrderBook.Awaits.met (number ▸ shadows.awaits)
  named r member := (listed.accepted_sized r (shadows.tracked.mem_iff.mp member)).1
  small r member := by
    have sized := (listed.accepted_sized r (shadows.tracked.mem_iff.mp member)).2
    simp only [FitsI32]
    omega
  grid type := by
    rw [shadows.grid]
    exact grid type
  absent := absent
  traded := traded

/-- The number that an order gets next is not tracked. -/
theorem Shadows.unused (shadows : Shadows on m b) (listed : m.Listed) :
    b.table.findOrder m.gen.nextOrder = none := by
  rw [shadows.ok.table.findOrder_none_iff]
  intro r member
  obtain ⟨o, inside, _, rfl⟩ := mem_accepted.mp (shadows.tracked.mem_iff.mp member)
  exact Int.ne_of_lt (listed.numbered o inside).2

theorem Shadows.add (shadows : Shadows on m b) (listed : m.Listed)
    (few : m.live.length < kFewOrders) (lap : kDefaultOrderCapacity ≤ fuel) (price : Int)
    (side : Side) (qty : QtyDraw) :
    ∃ result b', b.applyEvent fuel (m.addEvent price side qty) = some (result, b') ∧
      Shadows on (m.add price side qty) b' := by
  have absent := shadows.unused listed
  have positive : 0 < (m.addEvent price side qty).qty := by
    have least := qty.property.1
    simp only [addEvent]
    omega
  have live : accepted on (m.add price side qty).live = accepted on m.live ++
      accepted on [⟨m.gen.nextOrder, price, side, qty⟩] := accepted_append _ _
  refine shadows.event (Nat.le_of_lt few) lap (listed.add price side qty) ?_
    (.inl ⟨rfl, absent, positive⟩) (by simp) rfl rfl ?_
  · simp only [Mbo.add, List.length_append, List.length_singleton]
    omega
  intro result b' returned
  rw [live]
  by_cases grid : on price = true
  · have follows : b.Follows (m.addEvent price side qty) :=
      shadows.follows listed (Nat.le_of_lt few) rfl (fun _ => grid) (fun _ => absent) (by simp)
    have new : accepted on [⟨m.gen.nextOrder, price, side, qty⟩] =
        added (m.addEvent price side qty) := by
      simp [accepted, grid, added, LiveOrder.record, addEvent, MarketEvent.msgType]
    rw [new]
    exact (follows.tracked (by simp) returned).trans
      ((shadows.tracked.append_left _).trans List.perm_append_comm)
  · -- off the grid: the book counts the event and keeps its orders
    have none : accepted on [⟨m.gen.nextOrder, price, side, qty⟩] = [] := by
      simp [accepted, grid]
    have refused := OrderBook.applyEvent_add_off_grid (m.addEvent_msgType price side qty)
      (OrderBook.Awaits.met shadows.awaits) shadows.alive
      (by rw [shadows.grid]; exact Bool.eq_false_iff.mpr grid) fuel
    rw [refused] at returned
    cases returned
    rw [none, List.append_nil, OrderBook.trackSeq_table]
    exact shadows.tracked

theorem Shadows.cancelIdx (shadows : Shadows on m b) (listed : m.Listed)
    (few : m.live.length ≤ kFewOrders) (lap : kDefaultOrderCapacity ≤ fuel)
    (inside : i < m.live.length) :
    ∃ result b', b.applyEvent fuel (m.cancelEvent i) = some (result, b') ∧
      Shadows on (m.cancelIdx i) b' := by
  have shorter := cancelIdx_length inside
  refine shadows.event few lap (listed.cancelIdx inside) (by omega) (.inr (.inr (.inl rfl)))
    (by simp) rfl rfl ?_
  intro result b' returned
  have follows : b.Follows (m.cancelEvent i) :=
    shadows.follows listed few rfl (by simp) (by simp) (by simp)
  have update := updateOrder_accepted on listed.unique (getD_cons_eraseIdx_perm inside)
    fun _ => none
  rw [Option.toList_none, ite_self, List.nil_append] at update
  have moved : b'.table.tracked.Perm
      (updateOrder (m.live.getD i default).no (fun _ => none) b.table.tracked) :=
    follows.tracked (by simp) returned
  exact moved.trans ((updateOrder_perm shadows.tracked).trans
    (update.trans (accepted_perm on (swapPop_perm inside)).symm))

theorem Shadows.tradeIdx (shadows : Shadows on m b) (listed : m.Listed)
    (few : m.live.length ≤ kFewOrders) (lap : kDefaultOrderCapacity ≤ fuel)
    (inside : i < m.live.length) (drawn : QtyDraw) {o : LiveOrder}
    (here : m.live.getD i default = o) :
    ∃ result b', b.applyEvent fuel (m.tradeEvent o (min o.qty drawn)) = some (result, b') ∧
      Shadows on (m.tradeIdx i drawn) b' := by
  have shorter := tradeIdx_length inside drawn
  have positive : 0 < min o.qty drawn := by
    have sized := listed.sized o (here ▸ getD_mem inside)
    have least := drawn.property.1
    omega
  refine shadows.event few lap (listed.tradeIdx inside drawn) (by omega)
    (.inr (.inr (.inr ⟨rfl, positive⟩))) (by simp) rfl rfl ?_
  intro result b' returned
  have follows : b.Follows (m.tradeEvent o (min o.qty drawn)) :=
    shadows.follows listed few rfl (by simp) (by simp) (fun _ => positive)
  have changes := changed_tradeEvent m o (min o.qty drawn) follows.named
  have update := updateOrder_accepted on listed.unique
    (here ▸ getD_cons_eraseIdx_perm inside) (afterTrade (min o.qty drawn))
  rw [afterTrade_record, ← accepted_remains, ← accepted_append] at update
  have moved := follows.tracked (by simp) returned
  rw [changes] at moved
  exact moved.trans ((updateOrder_perm shadows.tracked).trans
    (update.trans (accepted_perm on (m.tradeIdx_live inside drawn here)).symm))

end Shadows

/-! ### Sides that keep apart -/

/-- The accepted prices at which orders of a side rest. -/
def prices (on : Int → Bool) (m : Mbo) (side : Side) : List Int :=
  (m.live.filter fun o => o.side = side ∧ on o.price = true).map LiveOrder.price

def bidAt (m : Mbo) (ticks : Int) : Int := m.gen.mid - m.gen.tick * ticks

def askAt (m : Mbo) (ticks : Int) : Int := m.gen.mid + m.gen.tick * ticks

/-- The accepted orders of the two sides do not meet. -/
def Apart (on : Int → Bool) (m : Mbo) : Prop :=
  ∀ bid ∈ m.prices on kBuy, ∀ ask ∈ m.prices on kSell, bid < ask

/-- Where orders these numbers of ticks from the mid are accepted, they meet neither the resting
orders of the other side nor each other. -/
structure Clears (on : Int → Bool) (m : Mbo) (depths : List Int) : Prop where
  bids : ∀ d ∈ depths, on (m.bidAt d) = true → ∀ ask ∈ m.prices on kSell, m.bidAt d < ask
  asks : ∀ d ∈ depths, on (m.askAt d) = true → ∀ bid ∈ m.prices on kBuy, bid < m.askAt d
  spread : ∀ d ∈ depths, on (m.bidAt d) = true → ∀ e ∈ depths, on (m.askAt e) = true →
    m.bidAt d < m.askAt e

section Apart

variable {price : Int} {side : Side}

theorem mem_prices : price ∈ m.prices on side ↔
    ∃ o ∈ m.live, o.side = side ∧ on o.price = true ∧ o.price = price := by
  simp [prices, and_assoc]

theorem Shadows.uncrossed_iff (shadows : Shadows on m b) : b.Uncrossed ↔ m.Apart on := by
  have shown (r : OrderRecord) : r ∈ b.table.tracked ↔
      ∃ o ∈ m.live, on o.price = true ∧ o.record = r :=
    shadows.tracked.mem_iff.trans mem_accepted
  rw [shadows.consistent.uncrossed_iff]
  constructor
  · intro apart bid isBid ask isAsk
    obtain ⟨o, listed, buy, grid, rfl⟩ := mem_prices.mp isBid
    obtain ⟨p, listed', sell, grid', rfl⟩ := mem_prices.mp isAsk
    exact apart o.record ((shown _).mpr ⟨o, listed, grid, rfl⟩)
      p.record ((shown _).mpr ⟨p, listed', grid', rfl⟩) buy sell
  · intro apart bid isBid ask isAsk buy sell
    obtain ⟨o, listed, grid, rfl⟩ := (shown bid).mp isBid
    obtain ⟨p, listed', grid', rfl⟩ := (shown ask).mp isAsk
    exact apart _ (mem_prices.mpr ⟨o, listed, buy, grid, rfl⟩)
      _ (mem_prices.mpr ⟨p, listed', sell, grid', rfl⟩)

/-- Sides stay apart when prices only disappear. -/
theorem Apart.anti (apart : m'.Apart on)
    (fewer : ∀ side, ∀ price ∈ m.prices on side, price ∈ m'.prices on side) : m.Apart on :=
  fun bid isBid ask isAsk => apart bid (fewer kBuy bid isBid) ask (fewer kSell ask isAsk)

theorem mem_prices_add {price' : Int} {side' : Side} {qty : Int} :
    price ∈ (m.add price' side' qty).prices on side ↔
      price ∈ m.prices on side ∨ (side' = side ∧ on price' = true ∧ price' = price) := by
  simp only [mem_prices, Mbo.add, List.mem_append, List.mem_singleton, or_and_right, exists_or,
    exists_eq_left]

theorem prices_cancelIdx (inside : i < m.live.length) :
    ∀ price ∈ (m.cancelIdx i).prices on side, price ∈ m.prices on side := by
  intro price member
  obtain ⟨o, listed, rest⟩ := mem_prices.mp member
  exact mem_prices.mpr ⟨o, List.mem_of_mem_eraseIdx ((swapPop_perm inside).mem_iff.mp listed), rest⟩

/-- What a trade leaves of an order rests where the order did. -/
theorem prices_tradeIdx (inside : i < m.live.length) (drawn : Int) :
    ∀ price ∈ (m.tradeIdx i drawn).prices on side, price ∈ m.prices on side := by
  intro price member
  obtain ⟨p, listed, here, grid, same⟩ := mem_prices.mp member
  -- the order that was hit may be gone; it never moves
  rcases List.mem_append.mp ((m.tradeIdx_live inside drawn rfl).mem_iff.mp listed) with left | rest
  · obtain ⟨rfl, _⟩ := mem_remains left
    exact mem_prices.mpr ⟨_, getD_mem inside, here, grid, same⟩
  · exact mem_prices.mpr ⟨p, List.mem_of_mem_eraseIdx rest, here, grid, same⟩

/-- Orders on either side at several depths, with their quantities. -/
def addDepths (m : Mbo) (pairs : List (Int × QtyDraw × QtyDraw)) : Mbo :=
  pairs.foldl (fun m pair => m.addBoth pair.1 pair.2.1 pair.2.2) m

theorem mem_prices_addDepths (on : Int → Bool) (m : Mbo) (pairs : List (Int × QtyDraw × QtyDraw))
    (price : Int) :
    (price ∈ (m.addDepths pairs).prices on kBuy ↔ price ∈ m.prices on kBuy ∨
      ∃ d ∈ pairs.map Prod.fst, on (m.bidAt d) = true ∧ m.bidAt d = price) ∧
    (price ∈ (m.addDepths pairs).prices on kSell ↔ price ∈ m.prices on kSell ∨
      ∃ d ∈ pairs.map Prod.fst, on (m.askAt d) = true ∧ m.askAt d = price) := by
  induction pairs generalizing m with
  | nil => simp [addDepths]
  | cons pair rest ih =>
    have bidAt (d : Int) : (m.addBoth pair.1 pair.2.1 pair.2.2).bidAt d = m.bidAt d := rfl
    have askAt (d : Int) : (m.addBoth pair.1 pair.2.1 pair.2.2).askAt d = m.askAt d := rfl
    have later := ih (m.addBoth pair.1 pair.2.1 pair.2.2)
    simp only [bidAt, askAt] at later
    rw [addDepths, List.foldl_cons]
    refine ⟨later.1.trans ?_, later.2.trans ?_⟩
    · simp [addBoth, mem_prices_add, Mbo.bidAt, or_assoc]
    · simp [addBoth, mem_prices_add, Mbo.askAt, or_assoc]

theorem apart_addDepths_iff (m : Mbo) (pairs : List (Int × QtyDraw × QtyDraw)) :
    (m.addDepths pairs).Apart on ↔ m.Apart on ∧ m.Clears on (pairs.map Prod.fst) := by
  have bids (price : Int) := (mem_prices_addDepths on m pairs price).1
  have asks (price : Int) := (mem_prices_addDepths on m pairs price).2
  constructor
  · intro apart
    have bid {d : Int} (listed : d ∈ pairs.map Prod.fst) (grid : on (m.bidAt d) = true) :=
      (bids _).mpr (.inr ⟨d, listed, grid, rfl⟩)
    have ask {d : Int} (listed : d ∈ pairs.map Prod.fst) (grid : on (m.askAt d) = true) :=
      (asks _).mpr (.inr ⟨d, listed, grid, rfl⟩)
    refine ⟨fun p isBid q isAsk => apart p ((bids p).mpr (.inl isBid)) q
      ((asks q).mpr (.inl isAsk)), ?_⟩
    constructor
    · intro d listed grid q isAsk
      exact apart _ (bid listed grid) q ((asks q).mpr (.inl isAsk))
    · intro d listed grid p isBid
      exact apart p ((bids p).mpr (.inl isBid)) _ (ask listed grid)
    · intro d listed grid e listed' grid'
      exact apart _ (bid listed grid) _ (ask listed' grid')
  · rintro ⟨apart, clears⟩ p isBid q isAsk
    rcases (bids p).mp isBid with old | ⟨d, listed, grid, rfl⟩
    · rcases (asks q).mp isAsk with old' | ⟨e, listed', grid', rfl⟩
      · exact apart p old q old'
      · exact clears.asks e listed' grid' p old
    · rcases (asks q).mp isAsk with old' | ⟨e, listed', grid', rfl⟩
      · exact clears.bids d listed grid q old'
      · exact clears.spread d listed grid e listed' grid'

end Apart

/-! ### Streams -/

/-- The book follows the stream so far, in which at most `n` orders rest. The market was never
crossed if and only if `q`. -/
structure Watched (fuel : Nat) (start : OrderBook) (n : Nat) (m : Mbo) (q : Prop) : Prop where
  listed : m.Listed
  few : m.live.length ≤ n
  taken : ∃ results b, start.replay fuel m.out = some (results, b) ∧ Shadows start.tickOk m b
  never_iff : start.NeverCrossed fuel m.out ↔ q

namespace Watched

variable {start : OrderBook} {n n' : Nat} {q q' : Prop}

theorem mono (watched : Watched fuel start n m q) (wider : n ≤ n') :
    Watched fuel start n' m q :=
  ⟨watched.listed, Nat.le_trans watched.few wider, watched.taken, watched.never_iff⟩

theorem congr (watched : Watched fuel start n m q) (same : q ↔ q') : Watched fuel start n m q' :=
  ⟨watched.listed, watched.few, watched.taken, watched.never_iff.trans same⟩

theorem apart (watched : Watched fuel start n m q) (holds : q) : m.Apart start.tickOk := by
  obtain ⟨results, b, replayed, shadows⟩ := watched.taken
  exact shadows.uncrossed_iff.mp ((watched.never_iff.mpr holds).last replayed)

/-- One event more, and one market more to look at. -/
theorem event (watched : Watched fuel start n m q) (listed : m'.Listed)
    (few : m'.live.length ≤ n') (out : m'.out = m.out ++ [ev])
    (taken : ∀ b, Shadows start.tickOk m b →
      ∃ result b', b.applyEvent fuel ev = some (result, b') ∧ Shadows start.tickOk m' b') :
    Watched fuel start n' m' (q ∧ m'.Apart start.tickOk) := by
  obtain ⟨results, b, before, shadows⟩ := watched.taken
  obtain ⟨result, b', returned, shadows'⟩ := taken b shadows
  refine ⟨listed, few, ⟨results ++ [result], b', ?_, shadows'⟩, ?_⟩
  · rw [out]
    exact OrderBook.replay_concat before returned
  · rw [out, OrderBook.neverCrossed_concat_iff before returned, watched.never_iff,
      shadows'.uncrossed_iff]

/-- An event that takes prices away cannot cross the market. -/
theorem fewer (watched : Watched fuel start n m q)
    (watched' : Watched fuel start n' m' (q ∧ m'.Apart start.tickOk))
    (fewer : ∀ side, ∀ price ∈ m'.prices start.tickOk side, price ∈ m.prices start.tickOk side) :
    Watched fuel start n' m' q :=
  watched'.congr ⟨And.left, fun holds => ⟨holds, (watched.apart holds).anti fewer⟩⟩

theorem add (watched : Watched fuel start n m q) (room : n < kFewOrders)
    (lap : kDefaultOrderCapacity ≤ fuel) (price : Int) (side : Side) (qty : QtyDraw) :
    Watched fuel start (n + 1) (m.add price side qty)
      (q ∧ (m.add price side qty).Apart start.tickOk) := by
  have few := watched.few
  refine watched.event (watched.listed.add price side qty) ?_ rfl fun b shadows =>
    shadows.add watched.listed (by omega) lap price side qty
  simp only [Mbo.add, List.length_append, List.length_singleton]
  omega

theorem cancelIdx (watched : Watched fuel start n m q) (room : n ≤ kFewOrders)
    (lap : kDefaultOrderCapacity ≤ fuel) (inside : i < m.live.length) :
    Watched fuel start n (m.cancelIdx i) q := by
  have few := watched.few
  have shorter := cancelIdx_length inside
  refine watched.fewer (watched.event (watched.listed.cancelIdx inside) (by omega) rfl
    fun b shadows => shadows.cancelIdx watched.listed (by omega) lap inside) ?_
  exact fun side => prices_cancelIdx inside

theorem tradeIdx (watched : Watched fuel start n m q) (room : n ≤ kFewOrders)
    (lap : kDefaultOrderCapacity ≤ fuel) (inside : i < m.live.length) (drawn : QtyDraw) :
    Watched fuel start n (m.tradeIdx i drawn) q := by
  have few := watched.few
  have shorter := tradeIdx_length inside drawn
  refine watched.fewer (watched.event (watched.listed.tradeIdx inside drawn) (by omega) rfl
    fun b shadows => shadows.tradeIdx watched.listed (by omega) lap inside drawn rfl) ?_
  exact fun side => prices_tradeIdx inside drawn

/-- The first of two orders is seen with both of them. -/
theorem addBoth (watched : Watched fuel start n m q) (room : n + 2 ≤ kFewOrders)
    (lap : kDefaultOrderCapacity ≤ fuel) (ticks : Int) (bidQty askQty : QtyDraw) :
    Watched fuel start (n + 2) (m.addBoth ticks bidQty askQty)
      (q ∧ (m.addBoth ticks bidQty askQty).Apart start.tickOk) := by
  have first := watched.add (by omega) lap (m.gen.mid - m.gen.tick * ticks) kBuy bidQty
  have second := first.add (by omega) lap (m.gen.mid + m.gen.tick * ticks) kSell askQty
  refine second.congr ⟨fun both => ⟨both.1.1, both.2⟩, fun both => ⟨⟨both.1, ?_⟩, both.2⟩⟩
  exact both.2.anti fun side price member => mem_prices_add.mpr (.inl member)

theorem addDepths (watched : Watched fuel start n m q) (lap : kDefaultOrderCapacity ≤ fuel)
    (pairs : List (Int × QtyDraw × QtyDraw)) (room : n + 2 * pairs.length ≤ kFewOrders) :
    Watched fuel start (n + 2 * pairs.length) (m.addDepths pairs)
      (q ∧ m.Clears start.tickOk (pairs.map Prod.fst)) := by
  -- it is enough to look at the sides once all orders are there
  have last : Watched fuel start (n + 2 * pairs.length) (m.addDepths pairs)
      (q ∧ (m.addDepths pairs).Apart start.tickOk) := by
    induction pairs generalizing m n q with
    | nil => exact watched.congr ⟨fun holds => ⟨holds, watched.apart holds⟩, And.left⟩
    | cons pair rest ih =>
      rw [List.length_cons] at room ⊢
      -- what is apart at the end was apart before the later orders came
      have one := watched.addBoth (by omega) lap pair.1 pair.2.1 pair.2.2
      have all := ih one (by omega)
      refine (all.mono (by omega)).congr ⟨fun both => ⟨both.1.1, both.2⟩, fun both =>
        ⟨⟨both.1, ?_⟩, both.2⟩⟩
      exact ((apart_addDepths_iff _ rest).mp both.2).1
  refine last.congr (and_congr_right fun holds => ?_)
  rw [apart_addDepths_iff]
  exact and_iff_right (watched.apart holds)

theorem thinned (start : OrderBook) (lap : kDefaultOrderCapacity ≤ fuel) (q : Prop) :
    Thinned (fun n m => Watched fuel start n m q) kFewOrders where
  tight watched few := ⟨watched.listed, few, watched.taken, watched.never_iff⟩
  cancelIdx room watched inside := watched.cancelIdx room lap inside
  tradeIdx room watched inside drawn := watched.tradeIdx room lap inside drawn

end Watched

end Mbo

namespace Mbo.Watched

variable {m : Mbo} {start : OrderBook} {fuel n : Nat} {q : Prop}

theorem walked (watched : Watched fuel start n m q) (draws : StepDraws) :
    Watched fuel start n (m.walked draws) q := by
  obtain ⟨⟨next_pos, numbered, unique, sized⟩, few, ⟨results, b, replayed, shadows⟩, never_iff⟩ :=
    watched
  rw [Mbo.walked]
  -- the walk touches the mid only, which neither the book nor the list knows
  split
  · exact ⟨⟨next_pos, numbered, unique, sized⟩, few, ⟨results, b, replayed, shadows.consistent,
      shadows.alive, shadows.awaits, shadows.grid, shadows.mask, shadows.tracked⟩, never_iff⟩
  · exact ⟨⟨next_pos, numbered, unique, sized⟩, few, ⟨results, b, replayed, shadows⟩, never_iff⟩

/-- A step adds around the mid, and then only takes away. -/
theorem step (watched : Watched fuel start 150 m q) (lap : kDefaultOrderCapacity ≤ fuel)
    (draws : StepDraws) : Watched fuel start 150 (m.step draws)
      (q ∧ (m.walked draws).Clears start.tickOk draws.depths) := by
  have capacity : kFewOrders = 200 := rfl
  -- the orders of the step as one list
  have added : Watched fuel start 154
      (if draws.deepRoll < 5 then ((m.walked draws).addBoth 1 draws.bidQty draws.askQty).addBoth 2
        draws.deepBidQty draws.deepAskQty else (m.walked draws).addBoth 1 draws.bidQty draws.askQty)
      (q ∧ (m.walked draws).Clears start.tickOk draws.depths) := by
    rw [StepDraws.depths]
    split
    · exact (watched.walked draws).addDepths lap
        [(1, draws.bidQty, draws.askQty), (2, draws.deepBidQty, draws.deepAskQty)] (by simp [capacity])
    · exact ((watched.walked draws).addDepths lap [(1, draws.bidQty, draws.askQty)]
        (by simp [capacity])).mono (by simp)
  exact (thinned start lap _).thin (by omega) added draws

end Mbo.Watched

/-- Before the first event. -/
theorem Mbo.watched_start (gen : MtbtGenerator) (first : 0 < gen.nextOrder) (token fuel : Nat)
    (tickSize : Int) :
    Watched fuel (OrderBook.new token tickSize kDefaultOrderCapacity) 0 { gen := gen } True := by
  have fresh : Shadows (OrderBook.new token tickSize kDefaultOrderCapacity).tickOk { gen := gen }
      (OrderBook.new token tickSize kDefaultOrderCapacity) := by
    constructor
    · exact OrderBook.Feed.fresh.consistent.1
    · rfl
    · exact .inl rfl
    · rfl
    · rfl
    · rw [OrderBook.new, OrderTable.tracked_new]
      rfl
  refine ⟨⟨first, by simp, by simp, by simp⟩, Nat.le_refl 0, ⟨_, _, rfl, fresh⟩, ?_⟩
  rw [OrderBook.neverCrossed_nil_iff, fresh.uncrossed_iff]
  exact iff_of_true (by simp [Apart, prices]) trivial

namespace MtbtGenerator

variable {gen : MtbtGenerator} {seed : Fin 3 → QtyDraw × QtyDraw}

theorem generateMbo_concat (steps : List StepDraws) (draws : StepDraws) :
    gen.generateMbo seed (steps ++ [draws]) = (gen.generateMbo seed steps).step draws := by
  rw [generateMbo, List.foldl_concat]
  rfl

/-- The depth that a stream starts with, as one list. -/
theorem generateMbo_nil : gen.generateMbo seed [] = Mbo.addDepths { gen := gen }
    [(1, seed 0), (2, seed 1), (3, seed 2)] := rfl

/-- Each step of a stream is watched in the state that the steps before it leave. -/
theorem generateMbo_watched (first : 0 < gen.nextOrder) {token fuel : Nat} {tickSize : Int}
    (lap : kDefaultOrderCapacity ≤ fuel) (steps : List StepDraws) :
    let start := OrderBook.new token tickSize kDefaultOrderCapacity
    Mbo.Watched fuel start 150 (gen.generateMbo seed steps)
      (Mbo.Clears start.tickOk { gen := gen } [1, 2, 3] ∧
        ∀ before draws, before ++ [draws] <+: steps →
          ((gen.generateMbo seed before).walked draws).Clears start.tickOk draws.depths) := by
  intro start
  -- on the steps from the last one back: the state before a step is the stream without it
  induction steps using List.reverseRecOn with
  | nil =>
    have started := Mbo.watched_start gen first token fuel tickSize
    have seeded := started.addDepths lap [(1, seed 0), (2, seed 1), (3, seed 2)]
      (by simp [Mbo.kFewOrders])
    rw [generateMbo_nil]
    refine (seeded.mono (by simp)).congr ?_
    simp [start]
  | append_singleton steps last ih =>
    rw [generateMbo_concat]
    refine (ih.step lap last).congr ?_
    rw [and_assoc]
    refine and_congr_right fun _ => ?_
    constructor
    · rintro ⟨earlier, now⟩ before draws inside
      rcases List.prefix_concat_iff.mp inside with whole | shorter
      · obtain ⟨rfl, rfl⟩ := List.append_singleton_inj.mp whole
        exact now
      · exact earlier before draws shorter
    · intro each
      exact ⟨fun before draws inside => each before draws (inside.trans (List.prefix_append _ _)),
        each steps last (List.prefix_refl _)⟩

end MtbtGenerator

/-- On a fresh book of any tick size a stream never locks or crosses the market exactly when the
depth it starts with is apart, and at every step the orders around the walked mid meet neither the
resting orders of the other side nor each other. -/
theorem mbo_never_crossed_iff (gen : MtbtGenerator) (first : 0 < gen.nextOrder)
    (seed : Fin 3 → QtyDraw × QtyDraw) (steps : List StepDraws) (token : Nat) (tickSize : Int)
    (fuel : Nat) (lap : kDefaultOrderCapacity ≤ fuel) :
    let start := OrderBook.new token tickSize kDefaultOrderCapacity
    start.NeverCrossed fuel (gen.generateMbo seed steps).out ↔
      Mbo.Clears start.tickOk { gen := gen } [1, 2, 3] ∧
      ∀ before draws, before ++ [draws] <+: steps →
        ((gen.generateMbo seed before).walked draws).Clears start.tickOk draws.depths :=
  (MtbtGenerator.generateMbo_watched first lap steps).never_iff

/-- A step that only adds around the mid, after the move of the mid that is drawn. -/
private def addStep (moveRoll : Fin 10) (coin : Fin 2) : StepDraws := .rolled moveRoll coin (Fin.last 9)

/-- While the mid rests, the market is apart. -/
theorem resting_mid_never_crossed :
    (OrderBook.new 7 5 kDefaultOrderCapacity).NeverCrossed kDefaultOrderCapacity
      (MtbtGenerator.generateMbo { token := 7, mid := 1000, tick := 5 }
        (fun _ => (tenLots, tenLots)) [addStep 9 0]).out := by
  refine (mbo_never_crossed_iff _ (by decide) _ _ 7 5 _ (Nat.le_refl _)).mpr
    ⟨⟨by decide, by decide, by decide⟩, ?_⟩
  intro before draws inside
  obtain ⟨rfl, rfl⟩ : before = [] ∧ draws = addStep 9 0 := by
    simpa [List.prefix_cons_iff, List.append_eq_singleton_iff] using inside
  exact ⟨by decide, by decide, by decide⟩

/-- Two moves up bring the bid to the asks of the start. -/
theorem two_up_moves_lock_market :
    let start := OrderBook.new 7 5 kDefaultOrderCapacity
    let gen : MtbtGenerator := { token := 7, mid := 1000, tick := 5 }
    let seed := fun _ => (tenLots, tenLots)
    let before := gen.generateMbo seed [addStep 0 0]
    (before.walked (addStep 0 0)).bidAt 1 = 1005 ∧
    before.prices start.tickOk kSell = [1005, 1010, 1015, 1010] ∧
    ¬ start.NeverCrossed kDefaultOrderCapacity
      (gen.generateMbo seed [addStep 0 0, addStep 0 0]).out := by
  intro start gen seed before
  refine ⟨by decide, by decide, ?_⟩
  rw [(MtbtGenerator.generateMbo_watched (by decide) (Nat.le_refl _) _).never_iff]
  rintro ⟨_, each⟩
  have last := (each [addStep 0 0] (addStep 0 0) (List.prefix_refl _)).bids 1 (by decide) (by decide)
    1005 (by decide)
  exact absurd last (by decide)

end NseHft
