import Mathlib.Data.List.Perm.Basic
import NseHft.OrderBook.Recovery

/-!
# Synthetic order-by-order stream

`generate_mbo` writes a stream of adds, cancels and trades and keeps its own list of the orders
that rest. The random draws of a call are its argument; a draw that a branch does not make is
never looked at. A book that is fed the stream takes every event, and at any time tracks the
orders of that list. Prices and order numbers count without wrapping.
-/
namespace NseHft

open FixedWidth

structure Mbo.LiveOrder where
  no : Int := 0
  price : Int := 0
  side : Side := kBuy
  qty : Int := 0
  deriving DecidableEq, Repr, Inhabited

structure MtbtGenerator where
  token : Nat
  mid : Int
  tick : Int
  seq : Nat := 1
  nextOrder : Int := 1
  nextTrade : Int := 1
  deriving DecidableEq, Repr

/-- The draws of the distribution of quantities. -/
abbrev QtyDraw := { qty : Int // 5 ≤ qty ∧ qty ≤ 40 }

/-- The draws of one step. `cancelAt` and `tradeAt` are raw numbers that are reduced to an index
of the list of orders. -/
structure StepDraws where
  moveRoll : Fin 10
  coin : Fin 2
  bidQty : QtyDraw
  askQty : QtyDraw
  deepRoll : Fin 10
  deepBidQty : QtyDraw
  deepAskQty : QtyDraw
  cancelRoll : Fin 10
  cancelAt : Nat
  tradeRoll : Fin 10
  tradeAt : Nat
  tradeQty : QtyDraw

/-- A call of `generate_mbo` under way: the generator, the orders that rest, and the events. -/
structure Mbo where
  gen : MtbtGenerator
  live : List Mbo.LiveOrder := []
  out : List MarketEvent := []

namespace Mbo

def addEvent (m : Mbo) (price : Int) (side : Side) (qty : Int) : MarketEvent :=
  { type := MtbtMsgType.orderAdd.code
    orderNo := m.gen.nextOrder
    side := side
    price := price
    qty := qty
    token := m.gen.token
    seqNo := m.gen.seq }

def add (m : Mbo) (price : Int) (side : Side) (qty : Int) : Mbo :=
  let e := m.addEvent price side qty
  { gen := { m.gen with nextOrder := m.gen.nextOrder + 1, seq := u64 (m.gen.seq + 1) }
    live := m.live ++ [⟨e.orderNo, price, side, qty⟩]
    out := m.out ++ [e] }

/-- The last order takes the place of the one at the index. -/
def swapPop (live : List LiveOrder) (i : Nat) : List LiveOrder :=
  (live.set i (live.getLastD default)).dropLast

def cancelEvent (m : Mbo) (i : Nat) : MarketEvent :=
  { type := MtbtMsgType.orderCancel.code
    side := kSell
    orderNo := (m.live.getD i default).no
    token := m.gen.token
    seqNo := m.gen.seq }

def cancelIdx (m : Mbo) (i : Nat) : Mbo :=
  { gen := { m.gen with seq := u64 (m.gen.seq + 1) }
    live := swapPop m.live i
    out := m.out ++ [m.cancelEvent i] }

/-- A trade against an order, on the leg of its side. -/
def tradeEvent (m : Mbo) (o : LiveOrder) (tq : Int) : MarketEvent :=
  { type := MtbtMsgType.trade.code
    side := kSell
    token := m.gen.token
    price := o.price
    qty := tq
    seqNo := m.gen.seq
    orderNo := if o.side = kBuy then o.no else 0
    orderNo2 := if o.side = kBuy then 0 else o.no
    tradeNo := m.gen.nextTrade }

/-- A trade against the order at an index, for at most what is left of it. -/
def tradeIdx (m : Mbo) (i : Nat) (drawn : Int) : Mbo :=
  let o := m.live.getD i default
  let tq := min o.qty drawn
  let left := { o with qty := o.qty - tq }
  { gen := { m.gen with seq := u64 (m.gen.seq + 1), nextTrade := m.gen.nextTrade + 1 }
    live := if left.qty ≤ 0 then swapPop (m.live.set i left) i else m.live.set i left
    out := m.out ++ [m.tradeEvent o tq] }

@[simp] theorem addEvent_msgType (m : Mbo) (price : Int) (side : Side) (qty : Int) :
    (m.addEvent price side qty).msgType = some .orderAdd := rfl

@[simp] theorem cancelEvent_msgType (m : Mbo) (i : Nat) :
    (m.cancelEvent i).msgType = some .orderCancel := rfl

@[simp] theorem tradeEvent_msgType (m : Mbo) (o : LiveOrder) (tq : Int) :
    (m.tradeEvent o tq).msgType = some .trade := rfl

/-- Random walk of the mid, with a floor. -/
def moveMid (m : Mbo) (coin : Fin 2) : Mbo :=
  let mid := m.gen.mid + if coin = 0 then m.gen.tick else -m.gen.tick
  { m with gen := { m.gen with mid := if mid < m.gen.tick * 10 then m.gen.tick * 10 else mid } }

/-- An order on either side, a number of ticks from the mid. -/
def addBoth (m : Mbo) (ticks : Int) (bidQty askQty : QtyDraw) : Mbo :=
  (m.add (m.gen.mid - m.gen.tick * ticks) kBuy bidQty).add (m.gen.mid + m.gen.tick * ticks) kSell
    askQty

/-- Cancels from the front while there are more than 150 orders. Every turn takes one order off,
so the number of orders bounds the turns. -/
def trim : Nat → Mbo → Mbo
  | 0, m => m
  | turns + 1, m => if m.live.length > 150 then trim turns (m.cancelIdx 0) else m

/-- The generator after the walk of the mid that a step starts with. -/
def walked (m : Mbo) (draws : StepDraws) : Mbo :=
  if draws.moveRoll < 4 then m.moveMid draws.coin else m

/-- What a step does once its orders are added. -/
def thin (m : Mbo) (draws : StepDraws) : Mbo :=
  let m := if m.live ≠ [] ∧ draws.cancelRoll < 4 then
    m.cancelIdx (draws.cancelAt % m.live.length) else m
  let m := if m.live ≠ [] ∧ draws.tradeRoll < 6 then
    m.tradeIdx (draws.tradeAt % m.live.length) draws.tradeQty else m
  trim m.live.length m

def step (m : Mbo) (draws : StepDraws) : Mbo :=
  let m := m.walked draws
  let m := m.addBoth 1 draws.bidQty draws.askQty
  let m := if draws.deepRoll < 5 then m.addBoth 2 draws.deepBidQty draws.deepAskQty else m
  m.thin draws

end Mbo

/-- The depths of the orders that a step adds. -/
def StepDraws.depths (draws : StepDraws) : List Int := if draws.deepRoll < 5 then [1, 2] else [1]

/-- One level of the depth that a stream starts with. -/
def Mbo.seedLevel (draws : Fin 3 → QtyDraw × QtyDraw) (m : Mbo) (k : Fin 3) : Mbo :=
  m.addBoth (k.val + 1) (draws k).1 (draws k).2

/-- The stream of one call, next to the generator and the orders at its end. -/
def MtbtGenerator.generateMbo (gen : MtbtGenerator) (seed : Fin 3 → QtyDraw × QtyDraw)
    (steps : List StepDraws) : Mbo :=
  steps.foldl Mbo.step ((List.finRange 3).foldl (Mbo.seedLevel seed) { gen := gen })

/-! ### The list of orders -/

namespace Mbo

variable {live : List LiveOrder} {i : Nat}

theorem getD_cons_eraseIdx_perm (inside : i < live.length) :
    live.Perm (live.getD i default :: live.eraseIdx i) := by
  rw [List.getD_eq_getElem _ _ inside]
  exact (List.getElem_cons_eraseIdx_perm inside).symm

theorem getD_mem (inside : i < live.length) : live.getD i default ∈ live := by
  rw [List.getD_eq_getElem _ _ inside]
  exact List.getElem_mem inside

theorem swapPop_perm (inside : i < live.length) : (swapPop live i).Perm (live.eraseIdx i) := by
  rcases List.eq_nil_or_concat' live with rfl | ⟨init, last, rfl⟩
  · simp at inside
  rw [List.length_append, List.length_singleton] at inside
  rw [swapPop, List.getLastD_concat]
  rcases Nat.lt_or_ge i init.length with early | late
  · rw [List.set_append_left _ _ early, List.dropLast_concat, List.eraseIdx_append_of_lt_length early]
    exact (List.set_perm_cons_eraseIdx early last).trans (List.perm_append_singleton _ _).symm
  · obtain rfl : i = init.length := by omega
    rw [List.set_append_right _ _ (Nat.le_refl _), List.eraseIdx_append_of_length_le (Nat.le_refl _)]
    simp

/-- What a trade leaves of an order. -/
def remains (o : LiveOrder) (tq : Int) : List LiveOrder :=
  if o.qty - tq ≤ 0 then [] else [{ o with qty := o.qty - tq }]

theorem tradeIdx_live (m : Mbo) {i : Nat} (inside : i < m.live.length) (drawn : Int) {o : LiveOrder}
    (here : m.live.getD i default = o) :
    (m.tradeIdx i drawn).live.Perm (remains o (min o.qty drawn) ++ m.live.eraseIdx i) := by
  simp only [tradeIdx, remains, here]
  split
  · have same (o : LiveOrder) : (m.live.set i o).eraseIdx i = m.live.eraseIdx i :=
      List.eraseIdx_set_eq
    rw [List.nil_append, ← same]
    exact swapPop_perm (by rwa [List.length_set])
  · exact List.set_perm_cons_eraseIdx inside _

end Mbo

/-! ### The book follows the generator -/

/-- The record that a book keeps of the order. -/
def Mbo.LiveOrder.record (o : Mbo.LiveOrder) : OrderRecord := ⟨o.no, o.price, o.qty, o.side, true⟩

def kDefaultOrderCapacity : Nat := 2 ^ 14

namespace Mbo

/-- The orders have numbers of their own that were given out, and quantities of the distribution
or less. -/
structure Listed (m : Mbo) : Prop where
  next_pos : 0 < m.gen.nextOrder
  numbered : ∀ o ∈ m.live, 0 < o.no ∧ o.no < m.gen.nextOrder
  unique : (m.live.map LiveOrder.no).Nodup
  sized : ∀ o ∈ m.live, 0 < o.qty ∧ o.qty ≤ 40

/-- The mid, too, is on the grid. -/
structure Sound (m : Mbo) : Prop extends Listed m where
  tick_pos : 0 < m.gen.tick
  grid : m.gen.tick ∣ m.gen.mid

/-- A live book that waits for the generator's next event and tracks its orders. -/
structure Mirrors (m : Mbo) (b : OrderBook) : Prop where
  ok : b.Ok
  alive : b.stale = false
  sequence : b.expectedSeq = 0 ∨ b.expectedSeq = m.gen.seq
  tickSize : b.tickSize = m.gen.tick
  mask : b.table.mask + 1 = kDefaultOrderCapacity
  tracked : b.table.tracked.Perm (m.live.map LiveOrder.record)

section Listed

variable {m : Mbo} {i : Nat}

theorem Listed.add (listed : m.Listed) (price : Int) (side : Side) (qty : QtyDraw) :
    (m.add price side qty).Listed := by
  have live : (m.add price side qty).live = m.live ++ [⟨m.gen.nextOrder, price, side, qty⟩] := rfl
  constructor
  · exact Int.lt_add_one_of_le (Int.le_of_lt listed.next_pos)
  · intro o member
    rcases List.mem_append.mp member with old | new
    · have numbered := listed.numbered o old
      exact ⟨numbered.1, Int.lt_add_one_of_le (Int.le_of_lt numbered.2)⟩
    · obtain rfl := List.mem_singleton.mp new
      exact ⟨listed.next_pos, Int.lt_succ _⟩
  · rw [live, List.map_append]
    refine List.nodup_append'.mpr ⟨listed.unique, List.nodup_singleton _, ?_⟩
    rw [List.map_singleton, List.disjoint_singleton]
    intro taken
    obtain ⟨o, member, same⟩ := List.mem_map.mp taken
    exact Int.ne_of_lt (listed.numbered o member).2 same
  · intro o member
    rcases List.mem_append.mp member with old | new
    · exact listed.sized o old
    · obtain rfl := List.mem_singleton.mp new
      have drawn := qty.property
      exact ⟨by dsimp only; omega, drawn.2⟩

theorem Listed.cancelIdx (listed : m.Listed) (inside : i < m.live.length) :
    (m.cancelIdx i).Listed := by
  have perm : (m.cancelIdx i).live.Perm (m.live.eraseIdx i) := swapPop_perm inside
  have kept : ∀ o ∈ (m.cancelIdx i).live, o ∈ m.live := by
    intro o member
    exact List.mem_of_mem_eraseIdx (perm.mem_iff.mp member)
  constructor
  · exact listed.next_pos
  · intro o member
    exact listed.numbered o (kept o member)
  · exact (perm.map LiveOrder.no).nodup_iff.mpr
      (listed.unique.sublist ((List.eraseIdx_sublist m.live i).map _))
  · intro o member
    exact listed.sized o (kept o member)

/-- What a trade leaves of its order keeps the number, the price and the side. -/
theorem mem_remains {o p : LiveOrder} {tq : Int} (left : p ∈ remains o tq) :
    p = { o with qty := o.qty - tq } ∧ 0 < p.qty := by
  rw [remains] at left
  split at left
  next => cases left
  next unfilled =>
    obtain rfl := List.mem_singleton.mp left
    exact ⟨rfl, Int.not_le.mp unfilled⟩

theorem remains_numbers (o : LiveOrder) (tq : Int) :
    ((remains o tq).map LiveOrder.no).Sublist [o.no] := by
  rw [remains]
  split
  · exact List.nil_sublist _
  · exact List.Sublist.refl _

theorem Listed.tradeIdx (listed : m.Listed) (inside : i < m.live.length) (drawn : QtyDraw) :
    (m.tradeIdx i drawn).Listed := by
  obtain ⟨o, here⟩ : ∃ o, m.live.getD i default = o := ⟨_, rfl⟩
  have member : o ∈ m.live := here ▸ getD_mem inside
  have least := drawn.property.1
  have sized := listed.sized o member
  have perm := m.tradeIdx_live inside drawn here
  have split := getD_cons_eraseIdx_perm inside
  rw [here] at split
  constructor
  · exact listed.next_pos
  · intro p kept
    rcases List.mem_append.mp (perm.mem_iff.mp kept) with left | rest
    · obtain ⟨rfl, _⟩ := mem_remains left
      exact listed.numbered o member
    · exact listed.numbered p (List.mem_of_mem_eraseIdx rest)
  · have numbers := (split.map LiveOrder.no).nodup_iff.mp listed.unique
    rw [(perm.map LiveOrder.no).nodup_iff, List.map_append]
    exact numbers.sublist ((remains_numbers o _).append (List.Sublist.refl _))
  · intro p kept
    rcases List.mem_append.mp (perm.mem_iff.mp kept) with left | rest
    · obtain ⟨rfl, positive⟩ := mem_remains left
      exact ⟨positive, by dsimp only; omega⟩
    · exact listed.sized p (List.mem_of_mem_eraseIdx rest)

end Listed

section Mirrors

variable {m m' : Mbo} {b b' : OrderBook} {ev : MarketEvent} {fuel i : Nat}

theorem Mirrors.free (mirrors : Mirrors m b) (few : m.live.length < kDefaultOrderCapacity) :
    ¬ b.table.Full := by
  rw [mirrors.ok.table.full_iff, mirrors.tracked.length_eq, List.length_map, mirrors.mask]
  exact Nat.ne_of_lt few

theorem Mirrors.lap (mirrors : Mirrors m b) (lap : kDefaultOrderCapacity ≤ fuel) :
    b.table.mask < fuel := by
  have size := mirrors.mask
  omega

theorem Mirrors.unique (mirrors : Mirrors m b) :
    ((m.live.map LiveOrder.record).map OrderRecord.orderNo).Nodup :=
  (mirrors.tracked.map OrderRecord.orderNo).nodup_iff.mp mirrors.ok.table.nodup

theorem Mirrors.found (mirrors : Mirrors m b) (inside : i < m.live.length) :
    ∃ j, b.table.findOrder (m.live.getD i default).no = some j := by
  apply Option.ne_none_iff_exists'.mp
  rw [Ne, mirrors.ok.table.findOrder_none_iff]
  intro absent
  exact absent _ (mirrors.tracked.mem_iff.mpr (List.mem_map_of_mem (getD_mem inside))) rfl

/-- Changing the order at an index leaves the others alone. -/
theorem Mirrors.updateOrder_at (mirrors : Mirrors m b) (inside : i < m.live.length)
    (f : OrderRecord → Option OrderRecord) :
    (updateOrder (m.live.getD i default).no f (m.live.map LiveOrder.record)).Perm
      ((f (m.live.getD i default).record).toList ++
        (m.live.eraseIdx i).map LiveOrder.record) := by
  have split := (getD_cons_eraseIdx_perm inside).map LiveOrder.record
  have unique := (split.map OrderRecord.orderNo).nodup_iff.mp mirrors.unique
  rw [List.map_cons] at split unique
  rw [← updateOrder_present unique rfl]
  exact updateOrder_perm split

theorem tradeEvent_legs (m : Mbo) (o : LiveOrder) (tq : Int) :
    ((m.tradeEvent o tq).orderNo = o.no ∧ (m.tradeEvent o tq).orderNo2 = 0) ∨
      ((m.tradeEvent o tq).orderNo = 0 ∧ (m.tradeEvent o tq).orderNo2 = o.no) := by
  by_cases bought : o.side = kBuy
  · exact .inl ⟨if_pos bought, if_pos bought⟩
  · exact .inr ⟨if_neg bought, if_neg bought⟩

/-- The leg that names no order changes nothing. -/
theorem changed_tradeEvent (m : Mbo) (o : LiveOrder) (tq : Int) {orders : List OrderRecord}
    (named : ∀ r ∈ orders, r.orderNo ≠ 0) :
    changed (m.tradeEvent o tq) orders = updateOrder o.no (afterTrade tq) orders := by
  have qty : (m.tradeEvent o tq).qty = tq := rfl
  simp only [changed, tradeEvent_msgType, qty]
  rcases m.tradeEvent_legs o tq with ⟨first, second⟩ | ⟨first, second⟩
  · rw [first, second, updateOrder_absent]
    exact forall_updateOrder named fun _ _ => afterTrade_named
  · rw [first, second, updateOrder_absent named]

theorem afterTrade_record (o : LiveOrder) (tq : Int) :
    (afterTrade tq o.record).toList = (remains o tq).map LiveOrder.record := by
  have same : o.record.qty = o.qty := rfl
  rw [afterTrade, remains]
  by_cases fully : tq ≥ o.record.qty
  · rw [if_pos fully, if_pos (by omega)]
    rfl
  · rw [if_neg fully, if_neg (by omega)]
    rfl

theorem Mirrors.changed_trade (mirrors : Mirrors m b) (sound : m.Sound)
    (inside : i < m.live.length) {o : LiveOrder} (here : m.live.getD i default = o) (tq : Int) :
    (changed (m.tradeEvent o tq) (m.live.map LiveOrder.record)).Perm
      ((remains o tq ++ m.live.eraseIdx i).map LiveOrder.record) := by
  have named : ∀ r ∈ m.live.map LiveOrder.record, r.orderNo ≠ 0 := by
    intro r member
    obtain ⟨o, listed, rfl⟩ := List.mem_map.mp member
    exact Int.ne_of_gt (sound.numbered o listed).1
  have update := mirrors.updateOrder_at inside (afterTrade tq)
  rw [here, afterTrade_record, ← List.map_append] at update
  rwa [changed_tradeEvent m o tq named]

theorem Mirrors.follows (mirrors : Mirrors m b) (sound : m.Sound)
    (few : m.live.length < kDefaultOrderCapacity) (number : ev.seqNo = m.gen.seq)
    (grid : ev.msgType = some .orderAdd ∨ ev.msgType = some .orderModify →
      m.gen.tick ∣ ev.price)
    (absent : ev.msgType = some .orderAdd → ev.orderNo = m.gen.nextOrder)
    (traded : ev.msgType = some .trade → 0 < ev.qty) : b.Follows ev where
  table := mirrors.ok.table
  free := mirrors.free few
  live := mirrors.alive
  met := OrderBook.Awaits.met (number ▸ mirrors.sequence)
  named r member := by
    obtain ⟨o, listed, rfl⟩ := List.mem_map.mp (mirrors.tracked.mem_iff.mp member)
    exact Int.ne_of_gt (sound.numbered o listed).1
  small r member := by
    obtain ⟨o, listed, rfl⟩ := List.mem_map.mp (mirrors.tracked.mem_iff.mp member)
    have sized := sound.sized o listed
    simp only [LiveOrder.record, FitsI32]
    omega
  grid type := by
    rw [OrderBook.tickOk_iff, mirrors.tickSize]
    exact fun _ => grid type
  absent type := by
    rw [mirrors.ok.table.findOrder_none_iff]
    intro r member
    obtain ⟨o, listed, rfl⟩ := List.mem_map.mp (mirrors.tracked.mem_iff.mp member)
    rw [absent type]
    exact Int.ne_of_lt (sound.numbered o listed).2
  traded := traded

/-- An event that the book takes moves it on with the generator. -/
theorem Mirrors.event (mirrors : Mirrors m b) (follows : b.Follows ev)
    (type : ev.msgType ≠ some .snapQuote) (number : ev.seqNo = m.gen.seq)
    (returned : b.applyEvent fuel ev = some (.ok, b'))
    (next : m'.gen.seq = u64 (m.gen.seq + 1)) (tick : m'.gen.tick = m.gen.tick)
    (orders : (added ev ++ changed ev (m.live.map LiveOrder.record)).Perm
      (m'.live.map LiveOrder.record)) : Mirrors m' b' := by
  have awaits : b.Awaits ev.seqNo := number ▸ mirrors.sequence
  obtain ⟨awaits', stale⟩ := awaits.next follows.table type returned
  constructor
  · exact OrderBook.applyEvent_ok mirrors.ok returned
  · exact stale.trans mirrors.alive
  · rw [next, ← number]
    exact awaits'
  · rw [OrderBook.applyEvent_tickSize mirrors.ok returned, mirrors.tickSize, tick]
  · rw [OrderBook.applyEvent_mask mirrors.ok returned]
    exact mirrors.mask
  · exact (follows.tracked type returned).trans
      (((changed_perm ev mirrors.tracked).append_left _).trans orders)

end Mirrors

/-- A book took all events so far and mirrors the generator. -/
structure Replayed (fuel : Nat) (start : OrderBook) (m : Mbo) : Prop where
  sound : m.Sound
  taken : ∃ b, start.replay fuel m.out = some (List.replicate m.out.length .ok, b) ∧ Mirrors m b

section Replayed

variable {m m' : Mbo} {start : OrderBook} {ev : MarketEvent} {fuel i : Nat}

theorem Replayed.event (replayed : Replayed fuel start m) (sound : m'.Sound)
    (out : m'.out = m.out ++ [ev])
    (taken : ∀ b, Mirrors m b → ∃ b', b.applyEvent fuel ev = some (.ok, b') ∧ Mirrors m' b') :
    Replayed fuel start m' := by
  obtain ⟨b, before, mirrors⟩ := replayed.taken
  obtain ⟨b', returned, mirrors'⟩ := taken b mirrors
  refine ⟨sound, b', ?_, mirrors'⟩
  rw [out, OrderBook.replay_concat before returned, List.length_append, List.length_singleton,
    List.replicate_succ']

/-- The walk of the mid aside, soundness is about the list of orders. -/
theorem Sound.of_listed (sound : m.Sound) (listed : m'.Listed) (tick : m'.gen.tick = m.gen.tick)
    (mid : m'.gen.mid = m.gen.mid) : m'.Sound where
  toListed := listed
  tick_pos := tick ▸ sound.tick_pos
  grid := tick ▸ mid ▸ sound.grid

theorem Replayed.add (replayed : Replayed fuel start m)
    (few : m.live.length < kDefaultOrderCapacity) {price : Int} (grid : m.gen.tick ∣ price)
    (side : Side) (qty : QtyDraw) : Replayed fuel start (m.add price side qty) := by
  have sound := replayed.sound
  have listed := sound.toListed.add price side qty
  refine replayed.event (sound.of_listed listed rfl rfl) rfl fun b mirrors => ?_
  have follows : b.Follows (m.addEvent price side qty) :=
    mirrors.follows sound few rfl (fun _ => grid) (fun _ => rfl) (by simp)
  obtain ⟨table, returned⟩ := OrderBook.applyEvent_add_taken follows.table rfl follows.met
    follows.live (follows.grid (.inl rfl)) follows.free fuel
  refine ⟨_, returned, mirrors.event follows (by simp) rfl returned rfl rfl ?_⟩
  have old : (m.add price side qty).live.map LiveOrder.record = m.live.map LiveOrder.record ++
      [⟨m.gen.nextOrder, price, qty, side, true⟩] := List.map_append
  rw [old]
  exact (List.perm_append_singleton _ _).symm

theorem Replayed.cancelIdx (replayed : Replayed fuel start m)
    (few : m.live.length < kDefaultOrderCapacity) (lap : kDefaultOrderCapacity ≤ fuel)
    (inside : i < m.live.length) : Replayed fuel start (m.cancelIdx i) := by
  have sound := replayed.sound
  have listed := sound.toListed.cancelIdx inside
  refine replayed.event (sound.of_listed listed rfl rfl) rfl fun b mirrors => ?_
  have follows : b.Follows (m.cancelEvent i) :=
    mirrors.follows sound few rfl (by simp) (by simp) (by simp)
  obtain ⟨j, found⟩ := mirrors.found inside
  obtain ⟨table, erased⟩ := follows.table.eraseOrder_returns follows.free
    (m.cancelEvent i).orderNo fuel (mirrors.lap lap)
  have returned := OrderBook.applyEvent_cancel_taken rfl follows.met follows.live found erased
  refine ⟨_, returned, mirrors.event follows (by simp) rfl returned rfl rfl ?_⟩
  exact (mirrors.updateOrder_at inside fun _ => none).trans
    ((swapPop_perm inside).map LiveOrder.record).symm

theorem Replayed.tradeIdx (replayed : Replayed fuel start m)
    (few : m.live.length < kDefaultOrderCapacity) (lap : kDefaultOrderCapacity ≤ fuel)
    (inside : i < m.live.length) (drawn : QtyDraw) :
    Replayed fuel start (m.tradeIdx i drawn) := by
  have sound := replayed.sound
  obtain ⟨o, here⟩ : ∃ o, m.live.getD i default = o := ⟨_, rfl⟩
  have member : o ∈ m.live := here ▸ getD_mem inside
  have numbered := sound.numbered o member
  have sized := sound.sized o member
  have least := drawn.property.1
  have perm := m.tradeIdx_live inside drawn here
  have out : (m.tradeIdx i drawn).out = m.out ++ [m.tradeEvent o (min o.qty drawn)] := by
    rw [← here]
    rfl
  have listed := sound.toListed.tradeIdx inside drawn
  refine replayed.event (sound.of_listed listed rfl rfl) out fun b mirrors => ?_
  have follows : b.Follows (m.tradeEvent o (min o.qty drawn)) :=
    mirrors.follows sound few rfl (by simp) (by simp)
      (fun _ => by simp only [tradeEvent]; omega)
  obtain ⟨j, found⟩ := mirrors.found inside
  rw [here] at found
  obtain ⟨b', returned⟩ := OrderBook.applyEvent_trade_taken follows.table follows.free
    (mirrors.lap lap) rfl follows.met follows.live (Int.ne_of_gt numbered.1) (by simp [found])
    (m.tradeEvent_legs o _)
  refine ⟨b', returned, mirrors.event follows (by simp) rfl returned rfl rfl ?_⟩
  exact (mirrors.changed_trade sound inside here _).trans (perm.map LiveOrder.record).symm

theorem Replayed.moveMid (replayed : Replayed fuel start m) (coin : Fin 2) :
    Replayed fuel start (m.moveMid coin) := by
  obtain ⟨sound, b, before, mirrors⟩ := replayed
  refine ⟨⟨⟨sound.next_pos, sound.numbered, sound.unique, sound.sized⟩, sound.tick_pos, ?_⟩, b, before,
    ⟨mirrors.ok, mirrors.alive, mirrors.sequence, mirrors.tickSize, mirrors.mask,
      mirrors.tracked⟩⟩
  have moved : m.gen.tick ∣ m.gen.mid + if coin = 0 then m.gen.tick else -m.gen.tick := by
    apply Int.dvd_add sound.grid
    split
    · exact Int.dvd_refl _
    · exact Int.dvd_neg.mpr (Int.dvd_refl _)
  simp only [Mbo.moveMid]
  generalize m.gen.mid + (if coin = 0 then m.gen.tick else -m.gen.tick) = mid at moved ⊢
  split
  · exact Int.dvd_mul_right _ _
  · exact moved

theorem cancelIdx_length (inside : i < m.live.length) :
    (m.cancelIdx i).live.length + 1 = m.live.length := by
  have perm := (swapPop_perm inside).length_eq
  rw [List.length_eraseIdx_of_lt inside] at perm
  simp only [Mbo.cancelIdx]
  omega

theorem tradeIdx_length (inside : i < m.live.length) (drawn : Int) :
    (m.tradeIdx i drawn).live.length ≤ m.live.length := by
  have length := (m.tradeIdx_live inside drawn rfl).length_eq
  rw [List.length_append, List.length_eraseIdx_of_lt inside, remains] at length
  split at length <;> simp only [List.length_nil, List.length_singleton] at length <;> omega

end Replayed

/-! ### Removing orders -/

/-- A property of streams in which at most so many orders rest, kept by cancels and trades. -/
structure Thinned (I : Nat → Mbo → Prop) (most : Nat) : Prop where
  tight : ∀ {n n' m}, I n m → m.live.length ≤ n' → I n' m
  cancelIdx : ∀ {n m i}, n ≤ most → I n m → i < m.live.length → I n (m.cancelIdx i)
  tradeIdx : ∀ {n m i}, n ≤ most → I n m → i < m.live.length → ∀ drawn : QtyDraw,
    I n (m.tradeIdx i drawn)

section Thinned

variable {I : Nat → Mbo → Prop} {most n : Nat} {m : Mbo}

theorem Thinned.trim (thinned : Thinned I most) (room : n ≤ most) (holds : I n m) {turns : Nat}
    (enough : m.live.length ≤ 150 + turns) : I 150 (Mbo.trim turns m) := by
  induction turns generalizing m with
  | zero => exact thinned.tight holds enough
  | succ turns ih =>
    rw [Mbo.trim]
    split
    next many =>
      have inside : 0 < m.live.length := by omega
      have shorter := cancelIdx_length inside
      exact ih (thinned.cancelIdx room holds inside) (by omega)
    next small => exact thinned.tight holds (by omega)

/-- The cancel and the trade of a step hit an order of the list, and the trimming leaves at most
150 of them. -/
theorem Thinned.thin (thinned : Thinned I most) (room : n ≤ most) (holds : I n m)
    (draws : StepDraws) : I 150 (m.thin draws) := by
  have index (k : Nat) {m : Mbo} (some : m.live ≠ []) : k % m.live.length < m.live.length :=
    Nat.mod_lt k (List.length_pos_of_ne_nil some)
  have ite {m m' : Mbo} {c : Prop} [Decidable c] (yes : c → I n m') (no : I n m) :
      I n (if c then m' else m) := by
    split
    next met => exact yes met
    next => exact no
  have cancelled := ite (c := _ ∧ draws.cancelRoll < 4)
    (fun both => thinned.cancelIdx room holds (index draws.cancelAt both.1)) holds
  have traded := ite (c := _ ∧ draws.tradeRoll < 6)
    (fun both => thinned.tradeIdx room cancelled (index draws.tradeAt both.1) draws.tradeQty)
    cancelled
  exact thinned.trim room traded (Nat.le_add_left _ _)

end Thinned

/-! ### Whole calls -/

/-- A replayed stream with a bound on the orders that rest. -/
structure Bounded (fuel : Nat) (start : OrderBook) (n : Nat) (m : Mbo) : Prop where
  replayed : Replayed fuel start m
  few : m.live.length ≤ n

namespace Bounded

variable {m m' : Mbo} {start : OrderBook} {fuel n : Nat}

theorem mono (bounded : Bounded fuel start n m) {n' : Nat} (wider : n ≤ n') :
    Bounded fuel start n' m :=
  ⟨bounded.replayed, Nat.le_trans bounded.few wider⟩

theorem ite {c : Prop} [Decidable c] (yes : c → Bounded fuel start n m')
    (no : Bounded fuel start n m) : Bounded fuel start n (if c then m' else m) := by
  split
  next holds => exact yes holds
  next => exact no

theorem addBoth (bounded : Bounded fuel start n m) (room : n + 2 ≤ kDefaultOrderCapacity)
    (ticks : Int) (bidQty askQty : QtyDraw) :
    Bounded fuel start (n + 2) (m.addBoth ticks bidQty askQty) := by
  obtain ⟨replayed, few⟩ := bounded
  have grid := replayed.sound.grid
  have off : m.gen.tick ∣ m.gen.tick * ticks := Int.dvd_mul_right _ _
  have one : (m.add (m.gen.mid - m.gen.tick * ticks) kBuy bidQty).live.length =
      m.live.length + 1 := by simp [Mbo.add]
  have first := replayed.add (by omega) (Int.dvd_sub grid off) kBuy bidQty
  have second := first.add (by omega) (Int.dvd_add grid off) kSell askQty
  refine ⟨second, ?_⟩
  simp only [Mbo.addBoth, Mbo.add, List.length_append, List.length_singleton]
  omega

theorem seedLevels (bounded : Bounded fuel start n m) (draws : Fin 3 → QtyDraw × QtyDraw)
    (ks : List (Fin 3)) (room : n + 2 * ks.length ≤ kDefaultOrderCapacity) :
    Bounded fuel start (n + 2 * ks.length) (ks.foldl (seedLevel draws) m) := by
  induction ks generalizing m n with
  | nil => exact bounded
  | cons k rest ih =>
    rw [List.length_cons] at room ⊢
    have level : Bounded fuel start (n + 2) (m.seedLevel draws k) :=
      bounded.addBoth (by omega) _ _ _
    exact (ih level (by omega)).mono (by omega)

theorem cancelIdx (bounded : Bounded fuel start n m) (room : n < kDefaultOrderCapacity)
    (lap : kDefaultOrderCapacity ≤ fuel) {i : Nat} (inside : i < m.live.length) :
    Bounded fuel start n (m.cancelIdx i) := by
  have few := bounded.few
  have shorter := cancelIdx_length inside
  exact ⟨bounded.replayed.cancelIdx (by omega) lap inside, by omega⟩

theorem tradeIdx (bounded : Bounded fuel start n m) (room : n < kDefaultOrderCapacity)
    (lap : kDefaultOrderCapacity ≤ fuel) {i : Nat} (inside : i < m.live.length)
    (drawn : QtyDraw) : Bounded fuel start n (m.tradeIdx i drawn) := by
  have few := bounded.few
  exact ⟨bounded.replayed.tradeIdx (by omega) lap inside drawn,
    Nat.le_trans (tradeIdx_length inside drawn) few⟩

theorem thinned (start : OrderBook) (lap : kDefaultOrderCapacity ≤ fuel) :
    Thinned (Bounded fuel start) 154 where
  tight bounded few := ⟨bounded.replayed, few⟩
  cancelIdx room bounded inside :=
    bounded.cancelIdx (Nat.lt_of_le_of_lt room (by decide)) lap inside
  tradeIdx room bounded inside drawn :=
    bounded.tradeIdx (Nat.lt_of_le_of_lt room (by decide)) lap inside drawn

/-- A step adds at most four orders, and then only takes away. -/
theorem step (bounded : Bounded fuel start 150 m) (lap : kDefaultOrderCapacity ≤ fuel)
    (draws : StepDraws) : Bounded fuel start 150 (m.step draws) := by
  have capacity : kDefaultOrderCapacity = 16384 := rfl
  have moved := bounded.ite (c := draws.moveRoll < 4)
    fun _ => ⟨bounded.replayed.moveMid draws.coin, bounded.few⟩
  have near := moved.addBoth (by omega) 1 draws.bidQty draws.askQty
  have deep := (near.mono (by omega)).ite (c := draws.deepRoll < 5)
    fun _ => near.addBoth (by omega) 2 draws.deepBidQty draws.deepAskQty
  exact (thinned start lap).thin (Nat.le_refl _) deep draws

theorem steps (bounded : Bounded fuel start 150 m) (lap : kDefaultOrderCapacity ≤ fuel)
    (draws : List StepDraws) : Bounded fuel start 150 (draws.foldl Mbo.step m) := by
  induction draws generalizing m with
  | nil => exact bounded
  | cons first rest ih => exact ih (bounded.step lap first)

end Bounded

/-- Before the first event. -/
theorem bounded_start (gen : MtbtGenerator) (tick : 0 < gen.tick) (grid : gen.tick ∣ gen.mid)
    (first : 0 < gen.nextOrder) (fuel : Nat) :
    Bounded fuel (OrderBook.new gen.token gen.tick kDefaultOrderCapacity) 0 { gen := gen } := by
  refine ⟨⟨⟨⟨first, by simp, by simp, by simp⟩, tick, grid⟩, _, rfl, ?_⟩, Nat.le_refl 0⟩
  constructor
  · exact OrderBook.new_ok _ _ _
  · rfl
  · exact .inl rfl
  · rfl
  · rfl
  · rw [OrderBook.new, OrderTable.tracked_new]
    rfl

end Mbo

/-- Whatever is drawn, a fresh book of the default capacity takes every event of a stream that
starts on its grid, and then tracks exactly the orders that the generator has left. -/
theorem generate_mbo_replays (token : Nat) (startMid tick : Int) (positive : 0 < tick)
    (grid : tick ∣ startMid) (seed : Fin 3 → QtyDraw × QtyDraw) (steps : List StepDraws)
    (fuel : Nat) (lap : kDefaultOrderCapacity ≤ fuel) :
    let call := MtbtGenerator.generateMbo { token := token, mid := startMid, tick := tick } seed steps
    ∃ b, (OrderBook.new token tick kDefaultOrderCapacity).replay fuel call.out =
        some (List.replicate call.out.length .ok, b) ∧
      b.table.tracked.Perm (call.live.map Mbo.LiveOrder.record) := by
  intro call
  have capacity : kDefaultOrderCapacity = 16384 := rfl
  have started := Mbo.bounded_start { token := token, mid := startMid, tick := tick } positive grid
    Int.one_pos fuel
  have seeded := started.seedLevels seed (List.finRange 3) (by simp [capacity])
  have done : Mbo.Bounded fuel _ 150 call := (seeded.mono (by simp)).steps lap steps
  obtain ⟨b, taken, mirrors⟩ := done.replayed.taken
  exact ⟨b, taken, mirrors.tracked⟩

private theorem lots_drawn : (5 ≤ (5 : Int) ∧ (5 : Int) ≤ 40) ∧ 5 ≤ (10 : Int) ∧ (10 : Int) ≤ 40 := by
  decide

def tenLots : QtyDraw := ⟨10, lots_drawn.2⟩

/-- A step with orders of ten lots and a trade of five, if it comes to one. -/
def StepDraws.rolled (moveRoll : Fin 10) (coin : Fin 2) (others : Fin 10) : StepDraws :=
  { moveRoll := moveRoll, coin := coin, bidQty := tenLots, askQty := tenLots
    deepRoll := others, deepBidQty := tenLots, deepAskQty := tenLots
    cancelRoll := others, cancelAt := 3
    tradeRoll := others, tradeAt := 7, tradeQty := ⟨5, lots_drawn.1⟩ }

/-- A step that moves the mid, adds on two levels, cancels and trades. -/
def busyStep : StepDraws := .rolled ⟨0, Nat.zero_lt_succ 9⟩ ⟨1, Nat.one_lt_two⟩ ⟨0, Nat.zero_lt_succ 9⟩

theorem busy_stream_replays :
    let call := MtbtGenerator.generateMbo { token := 7, mid := 1000, tick := 5 }
      (fun _ => (tenLots, tenLots)) [busyStep, busyStep]
    call.out.length = 18 ∧
    ∃ b, (OrderBook.new 7 5 kDefaultOrderCapacity).replay kDefaultOrderCapacity call.out =
        some (List.replicate call.out.length .ok, b) ∧
      b.table.tracked.Perm (call.live.map Mbo.LiveOrder.record) := by
  intro call
  exact ⟨by decide, generate_mbo_replays 7 1000 5 (by decide) (by decide)
    (fun _ => (tenLots, tenLots)) [busyStep, busyStep] kDefaultOrderCapacity (Nat.le_refl _)⟩

end NseHft
