import NseHft.FeedHandler.Redundancy
import NseHft.OrderBook.FailedEvents
import NseHft.OrderBook.Recovery
import NseHft.Pipeline.BookIsolation

/-!
# The exchange's book and ours

An exchange changes its orders and publishes each change on a stream, in packets that two sources
carry and may lose, repeat or deliver late. The book that the strategy reads is compared with the
orders at the exchange: it shows them as they were after the messages that came through, or it is
marked stale.
-/
namespace NseHft

open FixedWidth

/-! ### What the exchange publishes -/

namespace Exchange

variable {events : List MarketEvent} {ev : MarketEvent}

/-- The exchange after these events of a day that starts without orders. -/
def after (events : List MarketEvent) : Exchange := events.foldl Exchange.apply ⟨[], []⟩

theorem after_snoc : after (events ++ [ev]) = (after events).apply ev := List.foldl_concat ..

theorem changed_nil (ev : MarketEvent) : changed ev [] = [] := by
  simp only [changed]
  split <;> rfl

theorem after_old (events : List MarketEvent) : (after events).old = [] := by
  induction events using List.reverseRecOn with
  | nil => rfl
  | append_singleton events ev ih => rw [after_snoc, Exchange.apply, ih, changed_nil]

theorem after_orders (events : List MarketEvent) : (after events).orders = (after events).since := by
  rw [orders, after_old, List.nil_append]

/-- The orders are within the capacities of a book with this many slots for orders. -/
structure Fits (room : Nat) (ex : Exchange) : Prop where
  few : ex.orders.length < room
  prices : ∀ side, (livePrices side ex.orders).card ≤ kMaxLevelsPerSide
  sums : ∀ side price, FitsI32 (totalAt side price ex.orders)

end Exchange

namespace Stream

variable {s : Stream} {ev : MarketEvent} {k : Nat}

def messages (s : Stream) : List MarketEvent := s.packets.flatMap Packet.messages

/-- The number of the first message. -/
def first (s : Stream) : Nat := (s.packets.head?.map Packet.lo).getD 0

private theorem flatMap_numbered (p : Packet) (rest : List Packet)
    (chain : (p :: rest).IsChain fun p q => q.lo = p.hi) :
    ((p :: rest).flatMap Packet.messages).map MarketEvent.seqNo =
      List.range' p.lo ((p :: rest).flatMap Packet.messages).length := by
  induction rest generalizing p with
  | nil => simpa using p.numbered
  | cons q rest ih =>
    obtain ⟨next, tail⟩ := List.isChain_cons_cons.mp chain
    rw [List.flatMap_cons, List.map_append, ih q tail, p.numbered, next, p.hi_eq,
      List.length_append, List.range'_append_1]

/-- The messages of a stream are numbered through. -/
theorem messages_numbered (s : Stream) :
    s.messages.map MarketEvent.seqNo = List.range' s.first s.messages.length := by
  have chain := s.contiguous
  simp only [messages, first]
  cases packets : s.packets with
  | nil => rfl
  | cons p rest => exact flatMap_numbered p rest (packets ▸ chain)

theorem seqNo_eq (here : s.messages[k]? = some ev) : ev.seqNo = s.first + k := by
  have number := congrArg (fun numbers => numbers[k]?) s.messages_numbered
  obtain ⟨inside, _⟩ := List.getElem?_eq_some_iff.mp here
  simp only [List.getElem?_map, here, Option.map_some, List.getElem?_range', inside,
    Option.some.injEq, Nat.one_mul] at number
  exact number

theorem seqNo_lt (member : ev ∈ s.messages) : ev.seqNo + 1 < 2 ^ 64 := by
  obtain ⟨p, _, inPacket⟩ := List.mem_flatMap.mp member
  have inside := p.seqNo_mem inPacket
  have bound : p.hi < 2 ^ 64 := p.noWrap
  omega

/-- A message is where its number says. -/
theorem split_of_seqNo {seen : List MarketEvent} (through : seen <+: s.messages)
    (member : ev ∈ s.messages) (number : ev.seqNo = s.first + seen.length) :
    ∃ rest, s.messages = seen ++ ev :: rest := by
  obtain ⟨j, here⟩ := List.getElem?_of_mem member
  obtain rfl : j = seen.length := by
    have index := seqNo_eq here
    omega
  obtain ⟨rest, split⟩ := through
  rw [← split, List.getElem?_append_right (Nat.le_refl _), Nat.sub_self] at here
  cases rest with
  | nil => cases here
  | cons head rest =>
    obtain rfl := Option.some.inj here
    exact ⟨rest, split.symm⟩

/-- The stream carries a trading day of one token: what the exchange may send after what it has
sent, on the tick grid and within the capacities of the book that is to follow it. -/
structure Publishes (s : Stream) (token : Nat) (tick : Int) (room : Nat) : Prop where
  numbered : s.first ≠ 0
  own : ∀ ev ∈ s.messages, ev.token = token
  sent : ∀ before ev rest, s.messages = before ++ ev :: rest →
    (Exchange.after before).Sends ev ∧ (Exchange.after (before ++ [ev])).Fits room
  grid : ∀ ev ∈ s.messages, ev.msgType = some .orderAdd ∨ ev.msgType = some .orderModify →
    tick ≠ 0 → tick ∣ ev.price

theorem Publishes.type {token room : Nat} {tick : Int} (published : s.Publishes token tick room)
    (member : ev ∈ s.messages) : ev.msgType ≠ some .snapQuote := by
  obtain ⟨before, rest, split⟩ := List.append_of_mem member
  exact (published.sent before ev rest split).1.type

end Stream

/-! ### Following the stream -/

namespace OrderBook

variable {s : Stream} {token room fuel : Nat} {tick : Int} {seen events : List MarketEvent}
  {ev : MarketEvent} {b b' : OrderBook} {result : BookResult}

/-- A Snap Quote without a quantity seeds nothing. -/
theorem seedOrders_blank : seedOrders {} = [] := rfl

/-- The book has taken the messages `seen` and holds the orders that the exchange had after them. -/
structure Showing (s : Stream) (tick : Int) (room : Nat) (seen : List MarketEvent)
    (b : OrderBook) : Prop where
  mirrors : Mirrors {} (s.first + seen.length - 1) (Exchange.after seen) b
  ok : b.Ok
  expected : b.expectedSeq = if seen = [] then 0 else s.first + seen.length
  grid : b.tickSize = tick
  size : b.table.mask + 1 = room

theorem Showing.shows (showing : Showing s tick room seen b) (side : Side) :
    Shows tick side (b.levels side) (Exchange.after seen).orders := by
  have shown := showing.mirrors.aggregates.shows side
  rw [seedOrders_blank, List.nil_append, showing.grid] at shown
  rw [Exchange.after_orders]
  exact shown.perm showing.mirrors.tracked

/-- The next message moves the book on with the exchange. -/
theorem Showing.event (showing : Showing s tick room seen b)
    (published : s.Publishes token tick room) {rest : List MarketEvent}
    (split : s.messages = seen ++ ev :: rest)
    (returned : b.applyEvent fuel ev = some (result, b')) :
    Showing s tick room (seen ++ [ev]) b' := by
  obtain ⟨mirrors, ok, expected, tickSize, size⟩ := showing
  obtain ⟨sends, fits⟩ := published.sent seen ev rest split
  have member : ev ∈ s.messages := by
    rw [split]
    exact List.mem_append_right _ List.mem_cons_self
  have first := published.numbered
  have small := Stream.seqNo_lt member
  have here : ev.seqNo = s.first + seen.length := by
    apply Stream.seqNo_eq
    rw [split, List.getElem?_append_right (Nat.le_refl _), Nat.sub_self]
    rfl
  have number : ev.seqNo = u64 (s.first + seen.length - 1 + 1) := by
    rw [u64_eq_self _ (by omega)]
    omega
  have grid : ev.msgType = some .orderAdd ∨ ev.msgType = some .orderModify →
      b.tickOk ev.price = true := by
    intro type
    rw [tickOk_iff, tickSize]
    exact published.grid ev member type
  -- first what is tracked: that there is room follows from it
  have follows := mirrors.follows sends number grid
  have tracked : b'.table.tracked.Perm (Exchange.after (seen ++ [ev])).orders := by
    rw [Exchange.after_orders, Exchange.after_snoc]
    exact (follows.tracked sends.type returned).trans
      ((changed_perm ev mirrors.tracked).append_left _)
  have ok' := applyEvent_ok ok returned
  have size' : b'.table.mask + 1 = room := by rw [applyEvent_mask ok returned, size]
  have free : ¬ b'.table.Full := by
    rw [ok'.table.full_iff, tracked.length_eq, size']
    exact Nat.ne_of_lt fits.few
  have within : Within (seedOrders {}) b' := by
    rw [seedOrders_blank]
    constructor
    · intro side
      rw [List.nil_append, livePrices_perm tracked]
      exact fits.prices side
    · intro side price
      rw [List.nil_append, totalAt_perm tracked]
      exact fits.sums side price
  have next : s.first + (seen ++ [ev]).length - 1 = ev.seqNo := by
    rw [List.length_append, List.length_singleton]
    omega
  refine ⟨?_, ok', ?_, (applyEvent_tickSize ok returned).trans tickSize, size'⟩
  · rw [next, Exchange.after_snoc]
    exact mirrors.event sends number grid returned free within
  · obtain ⟨_, counter, _⟩ := applyEvent_sequence ok.table returned
    rw [counter, trackSeq_of_no_gap follows.met]
    simp only [ne_eq, List.append_eq_nil_iff, List.cons_ne_self, and_false, if_false,
      List.length_append, List.length_singleton]
    rw [if_pos (by omega), u64_eq_self _ (by omega), here]
    omega

/-- A message that is not the next one, once there has been one, makes the book stale. -/
theorem Showing.skipped (showing : Showing s tick room seen b) (started : seen ≠ [])
    (numbered : s.first ≠ 0) (type : ev.msgType ≠ some .snapQuote) (positive : ev.seqNo ≠ 0)
    (other : ev.seqNo ≠ s.first + seen.length)
    (returned : b.applyEvent fuel ev = some (result, b')) : b'.stale = true := by
  have expected := showing.expected
  rw [if_neg started] at expected
  have gap : b.SeqGap ev := ⟨positive, by omega, by omega⟩
  rw [applyEvent_seqGap gap type] at returned
  obtain rfl := (Prod.mk.inj (Option.some.inj returned)).2
  exact b.trackSeq_gap_stale ev ((trackSeq_gap_iff b ev).mpr gap)

/-- Without a snapshot a stale book stays stale. -/
theorem stale_after {slot : Option OrderBook} (stale : b.stale = true)
    (types : ∀ ev ∈ events, ev.msgType ≠ some .snapQuote)
    (returned : Machine.checkedAfter (Pipeline.applyTo fuel) (some b) events = some slot) :
    ∃ b', slot = some b' ∧ b'.stale = true := by
  induction events generalizing b with
  | nil => exact ⟨b, (Option.some.inj returned).symm, stale⟩
  | cons ev rest ih =>
    obtain ⟨here, others⟩ := List.forall_mem_cons.mp types
    obtain ⟨result, dropped, _⟩ := applyEvent_stale stale here fuel
    simp only [Machine.checkedAfter, Pipeline.applyTo, dropped, Option.map_some,
      Option.bind_some] at returned
    exact ih (trackSeq_keeps_stale stale ev) others returned

/-- Whatever messages of the stream come through, if the first of the day is the first to: the
book has followed them as long as they are the first ones in order, and is stale otherwise. -/
theorem Showing.after {slot : Option OrderBook} (showing : Showing s tick room seen b)
    (published : s.Publishes token tick room) (through : seen <+: s.messages)
    (members : ∀ ev ∈ events, ev ∈ s.messages)
    (start : seen = [] → ∀ ev ∈ events.head?, ev.seqNo = s.first)
    (returned : Machine.checkedAfter (Pipeline.applyTo fuel) (some b) events = some slot) :
    ∃ b', slot = some b' ∧
      (seen ++ events <+: s.messages ∧ Showing s tick room (seen ++ events) b' ∨
        ¬ seen ++ events <+: s.messages ∧ b'.stale = true) := by
  -- on the events still to come
  induction events generalizing seen b with
  | nil =>
    obtain rfl := Option.some.inj returned
    rw [List.append_nil]
    exact ⟨b, rfl, .inl ⟨through, showing⟩⟩
  | cons ev rest ih =>
    obtain ⟨member, others⟩ := List.forall_mem_cons.mp members
    simp only [Machine.checkedAfter, Pipeline.applyTo, Option.bind_eq_some_iff,
      Option.map_eq_some_iff] at returned
    obtain ⟨_, ⟨⟨result, b₁⟩, applied, rfl⟩, returned⟩ := returned
    by_cases next : ev.seqNo = s.first + seen.length
    · obtain ⟨later, split⟩ := Stream.split_of_seqNo through member next
      have longer : seen ++ [ev] <+: s.messages := ⟨later, by rw [split, List.append_assoc]; rfl⟩
      have followed := ih (showing.event published split applied) longer others
        (fun empty => absurd empty (by simp)) returned
      rwa [List.append_assoc, List.singleton_append] at followed
    · have started : seen ≠ [] := by
        rintro rfl
        exact next (start rfl ev rfl)
      have positive : ev.seqNo ≠ 0 := by
        obtain ⟨j, here⟩ := List.getElem?_of_mem member
        have index := Stream.seqNo_eq here
        have numbered := published.numbered
        omega
      have stale := showing.skipped started published.numbered (published.type member) positive
        next applied
      obtain ⟨b', same, still⟩ := stale_after stale
        (fun ev member => published.type (others ev member)) returned
      refine ⟨b', same, .inr ⟨?_, still⟩⟩
      rintro ⟨more, split⟩
      apply next
      apply Stream.seqNo_eq
      rw [← split, List.append_assoc, List.getElem?_append_right (Nat.le_refl _), Nat.sub_self]
      rfl

theorem new_showing (s : Stream) (token capacity : Nat) (tick : Int) :
    Showing s tick ((OrderTable.new capacity).mask + 1) [] (.new token tick capacity) := by
  have ok := OrderTable.new_ok capacity
  have none : (OrderBook.new token tick capacity).table.tracked = [] := OrderTable.tracked_new capacity
  refine ⟨⟨⟨ok, ?_, ?_, ?_⟩, ?_, by simp [Exchange.after], ?_, rfl, .inl rfl⟩, new_ok _ _ _, rfl, rfl,
    rfl⟩
  · intro side
    rw [seedOrders_blank, none]
    cases side <;> exact ⟨sideOk_nil _ _, fun price => rfl⟩
  · simp [seedOrders_blank, none]
  · intro side price
    rw [seedOrders_blank, none]
    exact (by decide : FitsI32 0)
  · rw [none]
    rfl
  · intro full
    have size := ok.full_iff.mp full
    rw [OrderTable.tracked_new] at size
    exact Nat.succ_ne_zero _ size.symm

end OrderBook

/-! ### From the sources to the book -/

namespace FeedHandler

/-- What is emitted was in a buffer that arrived. -/
theorem feedStream_mem {st : StreamStats} {out : List MarketEvent} {buffers : List (List UInt8)}
    {ev : MarketEvent} (member : ev ∈ (Machine.after feedStream (st, out) buffers).2) :
    ev ∈ out ∨ ∃ data ∈ buffers, ∃ hdr, parseHeader data = some hdr ∧ ev ∈ packetMessages data hdr := by
  induction buffers generalizing st out with
  | nil => exact .inl member
  | cons data rest ih =>
    rcases ih member with early | ⟨later, listed, found⟩
    · rcases List.mem_append.mp early with old | new
      · exact .inl old
      · right
        simp only [onStream] at new
        split at new
        · cases new
        next hdr header =>
          split at new
          · cases new
          · exact ⟨data, List.mem_cons_self, hdr, header, StreamStats.acceptAll_mem new⟩
    · exact .inr ⟨later, List.mem_cons_of_mem data listed, found⟩

theorem emitted_published {s : Stream} {packets : List (FeedSource × List UInt8)}
    (authentic : ∀ data ∈ ofStream s.id packets, ∃ p ∈ s.packets, data = p.data) (fh : FeedHandler) :
    ∀ ev ∈ (fh.run packets).2.filter (fun ev => ev.streamId = s.id), ev ∈ s.messages := by
  intro ev member
  have alone := (Prod.mk.inj (run_stream fh s.id packets)).2
  rw [alone] at member
  rcases feedStream_mem member with none | ⟨data, listed, hdr, header, inside⟩
  · cases none
  · obtain ⟨p, published, rfl⟩ := authentic data listed
    obtain rfl : hdr = p.hdr := Option.some.inj (header.symm.trans p.wellFormed.header)
    exact List.mem_flatMap.mpr ⟨p, published, inside⟩

end FeedHandler

/-- Whatever the two sources lose, repeat or deliver late, and whatever else arrives on other
streams: as long as the first message of the day is not missed, the book of a token is not stale
exactly when the messages that came through are the first ones the exchange published. It then
holds the orders that the exchange had after them, each level shows their sum and their number,
and the next event of any kind is taken in. -/
theorem book_shows_exchange (A : Arithmetic) (fuel token capacity : Nat) (tick : Int)
    (setup : Pipeline.Setup)
    (watched : setup.fresh.books.getBook token = some (.new token tick capacity)) (s : Stream)
    (published : s.Publishes token tick ((OrderTable.new capacity).mask + 1))
    (packets : List (FeedSource × List UInt8))
    (authentic : ∀ data ∈ FeedHandler.ofStream s.id packets, ∃ p ∈ s.packets, data = p.data)
    (calls : List Pipeline.Call)
    (fed : calls.filterMap Pipeline.Call.event = (({} : FeedHandler).run packets).2)
    (only : ∀ ev ∈ (({} : FeedHandler).run packets).2, ev.token = token → ev.streamId = s.id)
    (seen : List MarketEvent)
    (through : seen = (({} : FeedHandler).run packets).2.filter fun ev => ev.streamId = s.id)
    (start : ∀ ev ∈ seen.head?, ev.seqNo = s.first) (p : Pipeline)
    (returned : Machine.checkedAfter (Pipeline.perform A fuel) setup.fresh calls = some p) :
    ∃ b, p.books.getBook token = some b ∧
      (b.stale = false ↔ seen <+: s.messages) ∧
      (b.stale = false →
        b.table.tracked.Perm (Exchange.after seen).orders ∧
        (∀ side, Shows tick side (b.levels side) (Exchange.after seen).orders) ∧
        ∀ ev, ∃ fuel result b', b.applyEvent fuel ev = some (result, b')) := by
  have members := FeedHandler.emitted_published authentic {}
  rw [← through] at members
  -- the events of the token are those of the stream
  have own : (({} : FeedHandler).run packets).2.filter (fun ev => ev.token = token) = seen := by
    rw [through]
    apply List.filter_congr
    intro ev emitted
    by_cases onStream : ev.streamId = s.id
    · have listed : ev ∈ seen := by
        rw [through]
        exact List.mem_filter.mpr ⟨emitted, decide_eq_true onStream⟩
      simp [onStream, published.own ev (members ev listed)]
    · have other : ev.token ≠ token := fun same => onStream (only ev emitted same)
      simp [onStream, other]
  have book := Pipeline.performAll_book returned token
  rw [Pipeline.filterMap_eventFor, fed, own, watched] at book
  obtain ⟨b, found, outcome⟩ := (OrderBook.new_showing s token capacity tick).after published
    (List.nil_prefix) members (fun _ => start) book
  rw [List.nil_append] at outcome
  refine ⟨b, found, ?_⟩
  rcases outcome with ⟨followed, showing⟩ | ⟨lost, stale⟩
  · have alive : b.stale = false := showing.mirrors.live
    refine ⟨iff_of_true alive followed, fun _ => ⟨?_, showing.shows, fun ev => ?_⟩⟩
    · rw [Exchange.after_orders]
      exact showing.mirrors.tracked
    · exact (OrderBook.applyEvent_returns_iff showing.ok.table ev).mpr
        fun stuck => showing.mirrors.free stuck.1
  · refine ⟨iff_of_false (by simp [stale]) lost, fun alive => ?_⟩
    rw [stale] at alive
    cases alive

/-- An order to buy 10 of token 7 at 100, numbered 1 on stream 5. -/
private def addBytes : List UInt8 :=
  [5, 0, 1, 0, 0, 0, 0, 0, 0, 0, 1, 0, 0, 0, 0, 0, 0, 0, 0,
    65, 1, 0, 0, 0, 0, 0, 0, 0, 1, 10, 0, 0, 0, 7, 0, 0, 0, 100, 0, 0, 0, 0, 0, 0, 0]

/-- A trade of 4 with that order, numbered 2. -/
private def tradeBytes : List UInt8 :=
  [5, 0, 2, 0, 0, 0, 0, 0, 0, 0, 1, 0, 0, 0, 0, 0, 0, 0, 0,
    84, 1, 0, 0, 0, 0, 0, 0, 0, 9, 0, 0, 0, 0, 0, 0, 0, 7, 0, 0, 0, 100, 0, 0, 0, 0, 0, 0, 0,
    4, 0, 0, 0, 1, 0, 0, 0, 0, 0, 0, 0]

private theorem addBytes_wellFormed : WellFormed addBytes ⟨5, 1, 1, 0⟩ := ⟨by decide, by decide⟩

private theorem tradeBytes_wellFormed : WellFormed tradeBytes ⟨5, 2, 1, 0⟩ := ⟨by decide, by decide⟩

private theorem addPacket_noWrap : 1 + 1 < 2 ^ 64 := by decide

private theorem tradePacket_noWrap : 2 + 1 < 2 ^ 64 := by decide

private def addPacket : Packet := ⟨addBytes, ⟨5, 1, 1, 0⟩, addBytes_wellFormed, addPacket_noWrap⟩

private def tradePacket : Packet :=
  ⟨tradeBytes, ⟨5, 2, 1, 0⟩, tradeBytes_wellFormed, tradePacket_noWrap⟩

private theorem tradingDay_same : ∀ p ∈ [addPacket, tradePacket], p.hdr.streamId = 5 := by decide

private theorem tradingDay_contiguous :
    [addPacket, tradePacket].IsChain fun p q => q.lo = p.hi := by
  simp [addPacket, tradePacket, Packet.lo, Packet.hi]

private def tradingDay : Stream :=
  ⟨5, [addPacket, tradePacket], tradingDay_same, tradingDay_contiguous⟩

private def addOne : MarketEvent :=
  { type := 65, token := 7, price := 100, qty := 10, side := kBuy, orderNo := 1, streamId := 5, seqNo := 1 }

private def tradeOne : MarketEvent :=
  { type := 84, token := 7, price := 100, qty := 4, orderNo := 1, orderNo2 := 9, tradeNo := 1
    streamId := 5, seqNo := 2 }

private theorem tradingDay_messages : tradingDay.messages = [addOne, tradeOne] := by decide +kernel

private theorem fits_of_few {room : Nat} {ex : Exchange} (few : ex.orders.length < room)
    (levels : ex.orders.length ≤ kMaxLevelsPerSide) (positive : ∀ r ∈ ex.orders, 0 < r.qty)
    (small : (ex.orders.map OrderRecord.qty).sum < 2 ^ 31) : ex.Fits room :=
  ⟨few, fun _ => livePrices_card_le.trans levels, fun _ _ => fits_of_sum positive small⟩

private theorem tradingDay_published :
    tradingDay.Publishes 7 5 ((OrderTable.new 2).mask + 1) where
  numbered := by decide
  own := by
    rw [tradingDay_messages]
    decide
  sent := by
    rw [tradingDay_messages]
    intro before ev rest split
    rcases before with _ | ⟨first, _ | ⟨second, before⟩⟩
    · obtain ⟨rfl, _⟩ := List.cons.inj split
      exact ⟨.inl (by decide), fits_of_few (by decide) (by decide) (by decide) (by decide)⟩
    · obtain ⟨rfl, tail⟩ := List.cons.inj split
      obtain ⟨rfl, _⟩ := List.cons.inj tail
      exact ⟨.inr (.inr (.inr (by decide))),
        fits_of_few (by decide) (by decide) (by decide) (by decide)⟩
    · simp at split
  grid := by
    rw [tradingDay_messages]
    decide

private def viewSetup : Pipeline.Setup := .watching [(7, 5, 2)]

/-- The primary source loses the trade, the secondary repeats the add. -/
private def lossyArrivals : List (FeedSource × List UInt8) :=
  [(.primary, addBytes), (.secondary, addBytes), (.secondary, tradeBytes)]

private def viewCalls : List Pipeline.Call :=
  [.process Pipeline.stillClock addOne, .onFill {}, .process Pipeline.stillClock tradeOne]

private theorem lossyArrivals_events : (({} : FeedHandler).run lossyArrivals).2 = [addOne, tradeOne] := by
  decide +kernel

theorem lossy_day_shown :
    ∃ p b, Machine.checkedAfter (Pipeline.perform .wrapping 4) viewSetup.fresh viewCalls = some p ∧
      p.books.getBook 7 = some b ∧ b.stale = false ∧
      b.table.tracked.Perm [⟨1, 100, 6, kBuy, true⟩] := by
  obtain ⟨p, returned⟩ := Option.isSome_iff_exists.mp (by decide +kernel :
    (Machine.checkedAfter (Pipeline.perform .wrapping 4) viewSetup.fresh viewCalls).isSome = true)
  have watched : viewSetup.fresh.books.getBook 7 = some (.new 7 5 2) := by
    simp [viewSetup, Pipeline.Setup.watching, Pipeline.Setup.fresh, BookManager.watching, BookManager.addToken,
      BookManager.getBook, kMaxTokens]
  obtain ⟨b, found, alive, shown⟩ := book_shows_exchange .wrapping 4 7 2 5 viewSetup watched tradingDay
    tradingDay_published lossyArrivals (by decide +kernel) viewCalls
    (by rw [lossyArrivals_events]; rfl) (by rw [lossyArrivals_events]; decide) [addOne, tradeOne]
    (by rw [lossyArrivals_events]; rfl) (by decide) p returned
  have fresh := alive.mpr (by rw [tradingDay_messages])
  exact ⟨p, b, returned, found, fresh, (shown fresh).1⟩

end NseHft
