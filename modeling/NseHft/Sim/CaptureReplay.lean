import NseHft.FeedHandler.DecodePaths
import NseHft.FeedHandler.PacketBounds
import NseHft.Lib.HeaderFraming
import NseHft.Sim.BacktestEngine
import NseHft.Sim.Capture
import NseHft.Sim.MtbtGenerator

/-!
# Generated captures and their readers

`mtbt_gen` writes a generated stream to a file. `backtest` runs over such a file or over a stream
generated in memory, `mtbt_replay` hands the packets of a file to the feed handler. What is loaded
is not what was generated: the file names stream 1 where the generator leaves the number at zero,
and a cancel or a trade comes back as a buy where the generator leaves the side at sell. Neither
the simulator nor the pipeline reads these. A file that was cut off holds the records that came
through as a whole.
-/
namespace NseHft

open FixedWidth RecordLayout HeaderFraming

/-! ### The record loop -/

/-- The packet that the record loop reads next, and the rest of the file. -/
def nextRecord (f : List UInt8) : Option (List UInt8 × List UInt8) :=
  match readU32Le f with
  | none => none
  | some (len, rest) =>
    if len = 0 ∨ len > 1 <<< 20 then none
    else if rest.length < len then none
    else some (rest.take len, rest.drop len)

/-- The variables of `mtbt_replay`; its counters do not wrap. -/
structure MtbtReplay where
  feed : FeedHandler := {}
  packets : Nat := 0
  events : Nat := 0

def MtbtReplay.onRecord (r : MtbtReplay) (packet : List UInt8) : MtbtReplay :=
  let (feed, emitted) := r.feed.onPacket .primary packet
  { feed, packets := r.packets + 1, events := r.events + emitted.length }

/-- The record loop of `mtbt_replay`. -/
def MtbtReplay.replayRecords (r : MtbtReplay) (f : List UInt8) : MtbtReplay :=
  match _ : readU32Le f with
  | none => r
  | some (len, rest) =>
    if len = 0 ∨ len > 1 <<< 20 then r
    else if rest.length < len then r
    else replayRecords (r.onRecord (rest.take len)) (rest.drop len)
termination_by f.length
decreasing_by
  have shorter := readU32Le_length ‹readU32Le f = some (len, rest)›
  rw [List.length_drop]
  omega

@[simp] theorem onRecord_packets (r : MtbtReplay) (packet : List UInt8) :
    (r.onRecord packet).packets = r.packets + 1 := rfl

@[simp] theorem onRecord_events (r : MtbtReplay) (packet : List UInt8) :
    (r.onRecord packet).events = r.events + (r.feed.onPacket .primary packet).2.length := rfl

section Records

variable {f rest packet : List UInt8}

theorem loadRecords_stop (stop : nextRecord f = none) (parser : MtbtParser) :
    loadRecords parser f = [] := by
  rw [loadRecords]
  split
  next => rfl
  next len rest read =>
    simp only [nextRecord, read] at stop
    split_ifs at stop ⊢ <;> rfl

theorem replayRecords_stop (stop : nextRecord f = none) (r : MtbtReplay) :
    r.replayRecords f = r := by
  rw [MtbtReplay.replayRecords]
  split
  next => rfl
  next len rest read =>
    simp only [nextRecord, read] at stop
    split_ifs at stop ⊢ <;> rfl

theorem replayRecords_next (next : nextRecord f = some (packet, rest)) (r : MtbtReplay) :
    r.replayRecords f = (r.onRecord packet).replayRecords rest := by
  rw [MtbtReplay.replayRecords]
  split
  next none =>
    simp only [nextRecord, none] at next
    cases next
  next len behind read =>
    simp only [nextRecord, read] at next
    split_ifs at next ⊢
    obtain ⟨rfl, rfl⟩ := Prod.mk.inj (Option.some.inj next)
    rfl

theorem readU32Le_eq (long : 4 ≤ f.length) : readU32Le f = some (loadLe 4 f, f.drop 4) := by
  rcases f with _ | ⟨b₀, _ | ⟨b₁, _ | ⟨b₂, _ | ⟨b₃, f⟩⟩⟩⟩
  case cons.cons.cons.cons => simp [readU32Le, loadLe, List.range_succ]
  all_goals simp at long

theorem readU32Le_short (short : f.length < 4) : readU32Le f = none := by
  rcases f with _ | ⟨b₀, _ | ⟨b₁, _ | ⟨b₂, _ | ⟨b₃, f⟩⟩⟩⟩
  case cons.cons.cons.cons =>
    simp only [List.length_cons] at short
    omega
  all_goals rfl

/-- A record with its length in front. -/
def recordSize (f : List UInt8) : Nat := 4 + loadLe 4 f

theorem recordSize_append (front more : List UInt8) (enough : 4 ≤ front.length) :
    recordSize (front ++ more) = recordSize front := by
  rw [recordSize, loadLe_append 4 front more enough, recordSize]

def captureFormat : Format UInt8 where
  header := 4
  size := recordSize
  nonempty := Nat.zero_lt_succ 3
  inHeader := recordSize_append

/-- The loop stops at a record that was cut off. -/
theorem nextRecord_torn (torn : captureFormat.Torn f) : nextRecord f = none := by
  rcases torn with rfl | ⟨message, whole, ⟨rest, joined⟩, less⟩
  · rfl
  rcases Nat.lt_or_ge f.length 4 with short | long
  · rw [nextRecord, readU32Le_short short]
  · have announced : 4 + loadLe 4 f = message.length := by
      rw [← whole.length, ← joined]
      exact (recordSize_append f rest long).symm
    rw [nextRecord, readU32Le_eq long]
    simp only [List.length_drop]
    split_ifs
    · rfl
    · rfl
    · omega

end Records

/-! ### Recorded events -/

/-- The event as it comes back from a capture: under the stream number that the file names, and
with the side reset, which only an add carries. -/
def MarketEvent.recorded (ev : MarketEvent) : MarketEvent :=
  { ev with
    streamId := if ev.streamId = 0 then 1 else ev.streamId
    side := if ev.msgType = some .orderAdd then ev.side else kBuy }

section Events

variable {ev : MarketEvent}

/-- Of an add nothing is lost but the missing stream number, of the others the side as well. -/
theorem MarketEvent.recorded_cases (ev : MarketEvent) :
    ∃ stream, (stream = if ev.streamId = 0 then 1 else ev.streamId) ∧
      (ev.recorded = { ev with streamId := stream } ∨
        ev.msgType ≠ some .orderAdd ∧ ev.recorded = { ev with streamId := stream, side := kBuy }) := by
  refine ⟨_, rfl, ?_⟩
  by_cases add : ev.msgType = some .orderAdd
  · exact .inl (by rw [recorded, if_pos add])
  · exact .inr ⟨add, by rw [recorded, if_neg add]⟩

/-- Only the record of an add holds a side. -/
theorem encodeCapture_side (other : ev.msgType ≠ some .orderAdd) (side : Side) (out : List UInt8) :
    encodeCapture { ev with side := side } out = encodeCapture ev out := by
  have type : ({ ev with side := side } : MarketEvent).msgType = ev.msgType := rfl
  simp only [encodeCapture, type]
  cases kind : ev.msgType with
  | none => rfl
  | some m =>
    cases m with
    | orderAdd => exact absurd kind other
    | _ => rfl

theorem encodeCapture_recorded (ev : MarketEvent) (out : List UInt8) :
    encodeCapture ev.recorded out = encodeCapture ev out := by
  obtain ⟨stream, named, recorded⟩ := ev.recorded_cases
  have same : encodeCapture { ev with streamId := stream } out = encodeCapture ev out := by
    subst named
    by_cases zero : ev.streamId = 0
    · simp only [encodeCapture, zero, Nat.one_ne_zero, if_true, if_false, Int.natCast_one]
      rfl
    · simp only [if_neg zero]
  rcases recorded with recorded | ⟨other, recorded⟩
  · rw [recorded, same]
  · rw [recorded]
    exact (@encodeCapture_side { ev with streamId := stream } other kBuy out).trans same

theorem encodeCaptures_recorded (events : List MarketEvent) :
    encodeCaptures (events.map MarketEvent.recorded) = encodeCaptures events := by
  simp only [encodeCaptures, List.foldl_map, encodeCapture_recorded]

theorem capturePacket_length (event : ev.Capturable) :
    0 < (capturePacket ev).length ∧ (capturePacket ev).length ≤ 60 := by
  obtain ⟨length, _, small⟩ := messageFields_length event
  rw [capturePacket, List.length_append, packetHeader_length, length]
  omega

theorem encodeCapture_whole (event : ev.Capturable) : captureFormat.Whole (encodeCapture ev []) := by
  have small := (capturePacket_length event).2
  have record := encodeCapture_append event []
  rw [List.nil_append] at record
  have announced : loadLe 4 ((leBytes 4 (capturePacket ev).length ++ capturePacket ev).drop 0) =
      (capturePacket ev).length :=
    loadLe_of_reads_nat ⟨capturePacket ev, rfl⟩ (by omega)
  rw [List.drop_zero] at announced
  constructor
  · rw [record, List.length_append, leBytes_length]
    exact Nat.le_add_right 4 _
  · simp only [captureFormat, recordSize]
    rw [record, announced, List.length_append, leBytes_length]

theorem nextRecord_encodeCapture (event : ev.Capturable) (rest : List UInt8) :
    nextRecord (encodeCapture ev [] ++ rest) = some (capturePacket ev, rest) := by
  obtain ⟨positive, small⟩ := capturePacket_length event
  have read := readU32Le_leBytes (capturePacket ev).length (by omega) (capturePacket ev ++ rest)
  rw [encodeCapture_append event, List.nil_append, List.append_assoc, nextRecord, read]
  have admitted : ¬((capturePacket ev).length = 0 ∨ (capturePacket ev).length > 1 <<< 20) := by
    rw [Nat.one_shiftLeft]
    omega
  have whole : ¬(capturePacket ev ++ rest).length < (capturePacket ev).length := by
    rw [List.length_append]
    omega
  simp only [if_neg admitted, if_neg whole]
  rw [List.take_left, List.drop_left]

/-- Behind the records stands what the loop does not read. -/
theorem loadRecords_records {events : List MarketEvent}
    (capturable : ∀ ev ∈ events, ev.Capturable) {tail : List UInt8} (stop : nextRecord tail = none)
    (parser : MtbtParser) :
    loadRecords parser (encodeCaptures events ++ tail) = events := by
  rw [encodeCaptures_eq_flatMap]
  induction events generalizing parser with
  | nil => exact loadRecords_stop stop parser
  | cons ev rest ih =>
    obtain ⟨event, others⟩ := List.forall_mem_cons.mp capturable
    obtain ⟨next, first⟩ := loadRecords_encodeCapture event parser
      ((rest.flatMap fun ev => encodeCapture ev []) ++ tail)
    rw [List.flatMap_cons, List.append_assoc, first, ih others next]

/-- A packet of one event at or behind the expected number is handed on. -/
theorem onPacket_capturePacket (event : ev.Capturable) (noWrap : ev.seqNo + 1 < 2 ^ 64)
    (fh : FeedHandler) (new : fh.nextSeq ev.streamId ≤ ev.seqNo) (source : FeedSource) :
    (fh.onPacket source (capturePacket ev)).2 = [ev] ∧
      (fh.onPacket source (capturePacket ev)).1.malformed = fh.malformed ∧
      (fh.onPacket source (capturePacket ev)).1.nextSeq ev.streamId ≤ ev.seqNo + 1 := by
  have header := parseHeader_packetHeader event (messageFields ev).flatten
  rw [← capturePacket] at header
  obtain ⟨out, next, _⟩ := FeedHandler.onPacket_behind header noWrap new source
  have parsed := parsePacket_capturePacket event {}
  rw [parsePacket_events header] at parsed
  refine ⟨out.trans parsed, ?_, next⟩
  have one : (packetMessages (capturePacket ev) ⟨ev.streamId, ev.seqNo, 1, ev.ts⟩).length = 1 := by
    have few : (packetMessages (capturePacket ev) ⟨ev.streamId, ev.seqNo, 1, ev.ts⟩).length ≤ 1 :=
      messagesFrom_length_le ..
    have found := congrArg List.length parsed
    have kept := List.length_filter_le (fun ev : MarketEvent => ev.msgType ≠ some .heartbeat)
      (packetMessages (capturePacket ev) ⟨ev.streamId, ev.seqNo, 1, ev.ts⟩)
    rw [bookEvents, List.length_singleton] at found
    omega
  have inRange : ¬ev.streamId ≥ kMaxStreams := Nat.not_le.mpr event.streamId
  rw [packetMessages] at one
  simp only [FeedHandler.onPacket, header, if_neg inRange, messageLoop_eq, one, if_true]
  split <;> rfl

/-- Records of one stream with rising numbers are all counted. -/
theorem replayRecords_records {events : List MarketEvent}
    (capturable : ∀ ev ∈ events, ev.Capturable) {id : Nat} (same : ∀ ev ∈ events, ev.streamId = id)
    {lo : Nat} (numbered : events.map MarketEvent.seqNo = List.range' lo events.length)
    (noWrap : lo + events.length < 2 ^ 64) {tail : List UInt8} (stop : nextRecord tail = none)
    (r : MtbtReplay) (new : r.feed.nextSeq id ≤ lo) :
    let done := r.replayRecords (encodeCaptures events ++ tail)
    done.packets = r.packets + events.length ∧ done.events = r.events + events.length ∧
      done.feed.malformed = r.feed.malformed := by
  rw [encodeCaptures_eq_flatMap]
  induction events generalizing r lo with
  | nil =>
    rw [List.flatMap_nil, List.nil_append, replayRecords_stop stop]
    exact ⟨rfl, rfl, rfl⟩
  | cons ev rest ih =>
    obtain ⟨event, others⟩ := List.forall_mem_cons.mp capturable
    obtain ⟨here, elsewhere⟩ := List.forall_mem_cons.mp same
    rw [List.map_cons, List.length_cons, List.range'_succ, List.cons.injEq] at numbered
    rw [List.length_cons] at noWrap ⊢
    obtain ⟨number, later⟩ := numbered
    obtain ⟨out, malformed, next⟩ := onPacket_capturePacket event (by omega) r.feed
      (by rw [here, number]; exact new) .primary
    rw [here, number] at next
    obtain ⟨packets, counted, clean⟩ := ih others elsewhere later (by omega)
      (r.onRecord (capturePacket ev)) next
    rw [List.flatMap_cons, List.append_assoc,
      replayRecords_next (nextRecord_encodeCapture event _)]
    refine ⟨?_, ?_, clean.trans malformed⟩
    · rw [packets, onRecord_packets]
      omega
    · rw [counted, onRecord_events, out, List.length_singleton]
      omega

end Events

/-! ### What is generated fits the file -/

namespace Mbo

/-- Every event so far can be recorded and is numbered, and every order that rests has fields of
the types that a later event shows them in. `spent` bounds the events: a cancel takes an order off
the list. -/
structure Recordable (m : Mbo) : Prop where
  token : m.gen.token < 2 ^ 32
  stream : ∀ ev ∈ m.out, ev.streamId = 0
  events : ∀ ev ∈ m.out, ev.recorded.Capturable
  seq : m.gen.seq = m.out.length + 1
  numbered : m.out.map MarketEvent.seqNo = List.range' 1 m.out.length
  live : ∀ o ∈ m.live, FitsI64 o.no ∧ FitsI64 o.price ∧ 0 < o.qty ∧ o.qty ≤ 40
  spent : (m.out.length + m.live.length : Int) ≤ 2 * (m.gen.nextOrder - 1) + (m.gen.nextTrade - 1)
  orders : 1 ≤ m.gen.nextOrder
  trades : 1 ≤ m.gen.nextTrade

/-- The counters are far from the end of their types. -/
structure Early (m : Mbo) : Prop where
  orders : m.gen.nextOrder < 2 ^ 60
  trades : m.gen.nextTrade < 2 ^ 60

section Recordable

variable {m m' : Mbo} {ev : MarketEvent} {i : Nat}

theorem Recordable.length_lt (recordable : m.Recordable) (early : m.Early) :
    m.out.length + 2 < 2 ^ 64 := by
  have spent := recordable.spent
  have orders := early.orders
  have trades := early.trades
  omega

/-- An add, cancel or trade as the generator writes it: no stream, no time and no quote. -/
theorem capturable_of_unquoted
    (kind : ev.msgType = some .orderAdd ∨ ev.msgType = some .orderCancel ∨
      ev.msgType = some .trade ∨ ev.msgType = some .snapQuote)
    (canonical : ev.recorded.canonical = ev.recorded) (unnamed : ev.streamId = 0)
    (seqNo : ev.seqNo < 2 ^ 64) (token : ev.token < 2 ^ 32) (price : FitsI64 ev.price)
    (qty : FitsI32 ev.qty) (numbers : FitsI64 ev.orderNo ∧ FitsI64 ev.orderNo2 ∧ FitsI64 ev.tradeNo)
    (unset : ev.ts = 0 ∧ ev.bidPrice = 0 ∧ ev.bidQty = 0 ∧ ev.askPrice = 0 ∧ ev.askQty = 0) :
    ev.recorded.Capturable := by
  obtain ⟨orderNo, orderNo2, tradeNo⟩ := numbers
  obtain ⟨ts, bidPrice, bidQty, askPrice, askQty⟩ := unset
  have stream : ev.recorded.streamId = 1 := if_pos unnamed
  refine ⟨kind, canonical, ?_, ?_, seqNo, ?_, token, price, qty, orderNo, orderNo2, tradeNo, ?_, ?_,
    ?_, ?_⟩
  · rw [stream]
  · rw [stream]
    decide
  all_goals
    simp only [MarketEvent.recorded, ts, bidPrice, bidQty, askPrice, askQty]
    decide

/-- One more event. -/
theorem Recordable.event (recordable : m.Recordable) (early : m.Early)
    (out : m'.out = m.out ++ [ev]) (number : ev.seqNo = m.gen.seq) (unnamed : ev.streamId = 0)
    (event : ev.recorded.Capturable) (token : m'.gen.token = m.gen.token)
    (next : m'.gen.seq = u64 (m.gen.seq + 1))
    (live : ∀ o ∈ m'.live, FitsI64 o.no ∧ FitsI64 o.price ∧ 0 < o.qty ∧ o.qty ≤ 40)
    (spent : (m'.out.length + m'.live.length : Int) ≤
      2 * (m'.gen.nextOrder - 1) + (m'.gen.nextTrade - 1))
    (orders : 1 ≤ m'.gen.nextOrder) (trades : 1 ≤ m'.gen.nextTrade) : m'.Recordable := by
  have length := recordable.length_lt early
  have seq := recordable.seq
  refine ⟨?_, ?_, ?_, ?_, ?_, live, spent, orders, trades⟩
  · rw [token]
    exact recordable.token
  · rw [out]
    exact List.forall_mem_append.mpr ⟨recordable.stream, by simpa using unnamed⟩
  · rw [out]
    exact List.forall_mem_append.mpr ⟨recordable.events, by simpa using event⟩
  · rw [next, seq, out, List.length_append, List.length_singleton]
    exact u64_eq_self _ length
  · rw [out, List.map_append, List.length_append, List.length_singleton, recordable.numbered,
      List.range'_concat, List.map_singleton, number, seq, Nat.one_mul, Nat.add_comm]

theorem Recordable.add (recordable : m.Recordable) (early : m.Early) {price : Int}
    (fits : FitsI64 price) (side : Side) (qty : QtyDraw) : (m.add price side qty).Recordable := by
  have drawn := qty.property
  have number : FitsI64 m.gen.nextOrder := by
    have least := recordable.orders
    have most := early.orders
    simp only [FitsI64]
    omega
  have zero : FitsI64 0 := by decide
  have spent := recordable.spent
  have orders := recordable.orders
  have length := recordable.length_lt early
  have seq := recordable.seq
  refine recordable.event early rfl rfl rfl ?_ rfl rfl ?_ ?_ ?_ recordable.trades
  · refine capturable_of_unquoted (.inl rfl) rfl rfl ?_ recordable.token fits ?_
      ⟨number, zero, zero⟩ ⟨rfl, rfl, rfl, rfl, rfl⟩
    · simp only [addEvent]
      omega
    · simp only [addEvent, FitsI32]
      omega
  · refine List.forall_mem_append.mpr ⟨recordable.live, ?_⟩
    simp only [List.mem_singleton, forall_eq]
    exact ⟨number, fits, by omega, drawn.2⟩
  · simp only [Mbo.add, List.length_append, List.length_singleton]
    omega
  · simp only [Mbo.add]
    omega

theorem Recordable.cancelIdx (recordable : m.Recordable) (early : m.Early)
    (inside : i < m.live.length) : (m.cancelIdx i).Recordable := by
  have perm : (m.cancelIdx i).live.Perm (m.live.eraseIdx i) := swapPop_perm inside
  have zero : FitsI64 0 := by decide
  have none : FitsI32 0 := by decide
  have spent := recordable.spent
  have length := recordable.length_lt early
  have seq := recordable.seq
  have shorter := cancelIdx_length inside
  obtain ⟨number, _⟩ := recordable.live _ (getD_mem inside)
  refine recordable.event early rfl rfl rfl ?_ rfl rfl ?_ ?_ recordable.orders recordable.trades
  · refine capturable_of_unquoted (.inr (.inl rfl)) rfl rfl ?_ recordable.token zero none
      ⟨number, zero, zero⟩ ⟨rfl, rfl, rfl, rfl, rfl⟩
    simp only [cancelEvent]
    omega
  · intro o member
    exact recordable.live o (List.mem_of_mem_eraseIdx (perm.mem_iff.mp member))
  · have out : (m.cancelIdx i).out.length = m.out.length + 1 := by simp [Mbo.cancelIdx]
    have same : (m.cancelIdx i).gen.nextOrder = m.gen.nextOrder ∧
        (m.cancelIdx i).gen.nextTrade = m.gen.nextTrade := ⟨rfl, rfl⟩
    omega

theorem tradeEvent_capturable (m : Mbo) {o : LiveOrder} {tq : Int} (number : FitsI64 o.no)
    (price : FitsI64 o.price) (qty : FitsI32 tq) (tradeNo : FitsI64 m.gen.nextTrade)
    (seq : m.gen.seq < 2 ^ 64) (token : m.gen.token < 2 ^ 32) :
    (m.tradeEvent o tq).recorded.Capturable := by
  have zero : FitsI64 0 := by decide
  refine capturable_of_unquoted (.inr (.inr (.inl rfl))) rfl rfl seq token price qty
    ⟨?_, ?_, tradeNo⟩ ⟨rfl, rfl, rfl, rfl, rfl⟩
  · simp only [tradeEvent]
    split
    · exact number
    · exact zero
  · simp only [tradeEvent]
    split
    · exact zero
    · exact number

theorem Recordable.tradeIdx (recordable : m.Recordable) (early : m.Early)
    (inside : i < m.live.length) (drawn : QtyDraw) : (m.tradeIdx i drawn).Recordable := by
  obtain ⟨o, here⟩ : ∃ o, m.live.getD i default = o := ⟨_, rfl⟩
  have member : o ∈ m.live := here ▸ getD_mem inside
  obtain ⟨number, price, positive, small⟩ := recordable.live o member
  have least := drawn.property.1
  have perm := m.tradeIdx_live inside drawn here
  have shorter := tradeIdx_length inside (drawn : Int)
  have out : (m.tradeIdx i drawn).out = m.out ++ [m.tradeEvent o (min o.qty drawn)] := by
    rw [← here]
    rfl
  have tradeNo : FitsI64 m.gen.nextTrade := by
    have least := recordable.trades
    have most := early.trades
    simp only [FitsI64]
    omega
  have spent := recordable.spent
  have length := recordable.length_lt early
  have seq := recordable.seq
  have trades := recordable.trades
  have next : (m.tradeIdx i drawn).gen.nextTrade = m.gen.nextTrade + 1 := rfl
  have same : (m.tradeIdx i drawn).gen.nextOrder = m.gen.nextOrder := rfl
  refine recordable.event early out rfl rfl ?_ rfl rfl ?_ ?_ recordable.orders (by omega)
  · refine m.tradeEvent_capturable number price ?_ tradeNo (by omega) recordable.token
    simp only [FitsI32]
    omega
  · intro p kept
    rcases List.mem_append.mp (perm.mem_iff.mp kept) with left | rest
    · obtain ⟨rfl, more⟩ := mem_remains left
      exact ⟨number, price, more, by dsimp only; omega⟩
    · exact recordable.live p (List.mem_of_mem_eraseIdx rest)
  · rw [out, List.length_append, List.length_singleton]
    omega

end Recordable

/-- Bounds on the mid and on the numbers given out. -/
structure Within (tick reach orders trades : Int) (m : Mbo) : Prop where
  recordable : m.Recordable
  tick_eq : m.gen.tick = tick
  lower : -reach ≤ m.gen.mid
  upper : m.gen.mid ≤ reach
  orders_le : m.gen.nextOrder ≤ orders
  trades_le : m.gen.nextTrade ≤ trades

namespace Within

variable {tick reach orders trades : Int} {m m' : Mbo} {i : Nat}

theorem mono (within : Within tick reach orders trades m) {reach' orders' trades' : Int}
    (further : reach ≤ reach') (more : orders ≤ orders') (later : trades ≤ trades') :
    Within tick reach' orders' trades' m := by
  obtain ⟨recordable, tick_eq, lower, upper, orders_le, trades_le⟩ := within
  exact ⟨recordable, tick_eq, by omega, by omega, by omega, by omega⟩

theorem early (within : Within tick reach orders trades m) (few : orders < 2 ^ 60)
    (short : trades < 2 ^ 60) : m.Early :=
  ⟨Int.lt_of_le_of_lt within.orders_le few, Int.lt_of_le_of_lt within.trades_le short⟩

/-- The floor is reached from below only if the walk starts there. -/
theorem moveMid (within : Within tick reach orders trades m) (positive : 0 < tick)
    (floor : 10 * tick ≤ reach) (coin : Fin 2) :
    Within tick (reach + tick) orders trades (m.moveMid coin) := by
  obtain ⟨recordable, tick_eq, lower, upper, orders_le, trades_le⟩ := within
  have moved : m.gen.mid - tick ≤ m.gen.mid + (if coin = 0 then m.gen.tick else -m.gen.tick) ∧
      m.gen.mid + (if coin = 0 then m.gen.tick else -m.gen.tick) ≤ m.gen.mid + tick := by
    split <;> omega
  refine ⟨?_, tick_eq, ?_, ?_, orders_le, trades_le⟩
  · obtain ⟨token, stream, events, seq, numbered, live, spent, first, firstTrade⟩ := recordable
    exact ⟨token, stream, events, seq, numbered, live, spent, first, firstTrade⟩
  · simp only [Mbo.moveMid]
    split <;> omega
  · simp only [Mbo.moveMid]
    split <;> omega

theorem add (within : Within tick reach orders trades m) (few : orders < 2 ^ 60)
    (short : trades < 2 ^ 60) {price : Int} (fits : FitsI64 price) (side : Side) (qty : QtyDraw) :
    Within tick reach (orders + 1) trades (m.add price side qty) := by
  have recordable := within.recordable.add (within.early few short) fits side qty
  obtain ⟨_, tick_eq, lower, upper, orders_le, trades_le⟩ := within
  exact ⟨recordable, tick_eq, lower, upper, Int.add_le_add_right orders_le 1, trades_le⟩

theorem addBoth (within : Within tick reach orders trades m) (positive : 0 < tick)
    (room : reach + tick * 3 < 2 ^ 63) (few : orders + 2 < 2 ^ 60) (short : trades < 2 ^ 60)
    {ticks : Int} (near : 0 ≤ ticks ∧ ticks ≤ 3) (bidQty askQty : QtyDraw) :
    Within tick reach (orders + 2) trades (m.addBoth ticks bidQty askQty) := by
  have off : 0 ≤ tick * ticks ∧ tick * ticks ≤ tick * 3 :=
    ⟨Int.mul_nonneg (Int.le_of_lt positive) near.1,
      Int.mul_le_mul_of_nonneg_left near.2 (Int.le_of_lt positive)⟩
  have lower := within.lower
  have upper := within.upper
  have bid : FitsI64 (m.gen.mid - m.gen.tick * ticks) := by
    rw [within.tick_eq, FitsI64]
    omega
  have ask : FitsI64 (m.gen.mid + m.gen.tick * ticks) := by
    rw [within.tick_eq, FitsI64]
    omega
  have both := (within.add (by omega) short bid kBuy bidQty).add (by omega) short ask kSell askQty
  rw [Int.add_assoc] at both
  exact both

theorem cancelIdx (within : Within tick reach orders trades m) (few : orders < 2 ^ 60)
    (short : trades < 2 ^ 60) (inside : i < m.live.length) :
    Within tick reach orders trades (m.cancelIdx i) := by
  have recordable := within.recordable.cancelIdx (within.early few short) inside
  obtain ⟨_, tick_eq, lower, upper, orders_le, trades_le⟩ := within
  exact ⟨recordable, tick_eq, lower, upper, orders_le, trades_le⟩

theorem tradeIdx (within : Within tick reach orders trades m) (few : orders < 2 ^ 60)
    (short : trades < 2 ^ 60) (inside : i < m.live.length) (drawn : QtyDraw) :
    Within tick reach orders (trades + 1) (m.tradeIdx i drawn) := by
  have recordable := within.recordable.tradeIdx (within.early few short) inside drawn
  obtain ⟨_, tick_eq, lower, upper, orders_le, trades_le⟩ := within
  exact ⟨recordable, tick_eq, lower, upper, orders_le, Int.add_le_add_right trades_le 1⟩

theorem trim (within : Within tick reach orders trades m) (few : orders < 2 ^ 60)
    (short : trades < 2 ^ 60) (turns : Nat) : Within tick reach orders trades (Mbo.trim turns m) := by
  induction turns generalizing m with
  | zero => exact within
  | succ turns ih =>
    rw [Mbo.trim]
    split
    next many => exact ih (within.cancelIdx few short (Nat.zero_lt_of_lt many))
    next => exact within

/-- The second half of a step makes at most one trade. -/
theorem thin (within : Within tick reach orders trades m) (few : orders < 2 ^ 60)
    (short : trades + 1 < 2 ^ 60) (draws : StepDraws) :
    Within tick reach orders (trades + 1) (m.thin draws) := by
  have index (k : Nat) {m : Mbo} (some : m.live ≠ []) : k % m.live.length < m.live.length :=
    Nat.mod_lt k (List.length_pos_of_ne_nil some)
  have later {m : Mbo} (within : Within tick reach orders trades m) :
      Within tick reach orders (trades + 1) m :=
    within.mono (Int.le_refl _) (Int.le_refl _) (Int.le_add_one (Int.le_refl _))
  have cancelled : Within tick reach orders trades
      (if m.live ≠ [] ∧ draws.cancelRoll < 4 then m.cancelIdx (draws.cancelAt % m.live.length)
        else m) := by
    split
    next both => exact within.cancelIdx few (by omega) (index draws.cancelAt both.1)
    next => exact within
  rw [Mbo.thin]
  generalize (if m.live ≠ [] ∧ draws.cancelRoll < 4 then
    m.cancelIdx (draws.cancelAt % m.live.length) else m) = m' at cancelled ⊢
  apply trim _ few short
  split
  next both => exact cancelled.tradeIdx few (by omega) (index draws.tradeAt both.1) draws.tradeQty
  next => exact later cancelled

theorem seedLevels (within : Within tick reach orders trades m) (positive : 0 < tick)
    (room : reach + tick * 3 < 2 ^ 63) (short : trades < 2 ^ 60)
    (draws : Fin 3 → QtyDraw × QtyDraw) (ks : List (Fin 3))
    (few : orders + 2 * ks.length < 2 ^ 60) :
    Within tick reach (orders + 2 * ks.length) trades (ks.foldl (seedLevel draws) m) := by
  induction ks generalizing m orders with
  | nil => exact within.mono (Int.le_refl _) (by simp) (Int.le_refl _)
  | cons k rest ih =>
    rw [List.length_cons] at few ⊢
    have small := k.isLt
    have level : Within tick reach (orders + 2) trades (m.seedLevel draws k) :=
      within.addBoth positive room (by omega) short ⟨by omega, by omega⟩ _ _
    exact (ih level (by omega)).mono (Int.le_refl _) (by omega) (Int.le_refl _)

/-- A step moves the mid by a tick at most, and gives out four order numbers and one trade
number. -/
theorem step (within : Within tick reach orders trades m) (positive : 0 < tick)
    (floor : 10 * tick ≤ reach) (room : reach + tick * 4 < 2 ^ 63) (few : orders + 4 < 2 ^ 60)
    (short : trades + 1 < 2 ^ 60) (draws : StepDraws) :
    Within tick (reach + tick) (orders + 4) (trades + 1) (m.step draws) := by
  have moved : Within tick (reach + tick) orders trades (m.walked draws) := by
    rw [Mbo.walked]
    split
    · exact within.moveMid positive floor draws.coin
    · exact within.mono (by omega) (Int.le_refl _) (Int.le_refl _)
  have near : Within tick (reach + tick) (orders + 2) trades
      ((m.walked draws).addBoth 1 draws.bidQty draws.askQty) :=
    moved.addBoth positive (by omega) (by omega) (by omega) (by decide) _ _
  have deep : Within tick (reach + tick) (orders + 4) trades
      (if draws.deepRoll < 5 then
        ((m.walked draws).addBoth 1 draws.bidQty draws.askQty).addBoth 2 draws.deepBidQty
          draws.deepAskQty
      else (m.walked draws).addBoth 1 draws.bidQty draws.askQty) := by
    split
    · exact (near.addBoth positive (by omega) (by omega) (by omega) (by decide) _ _).mono
        (Int.le_refl _) (by omega) (Int.le_refl _)
    · exact near.mono (Int.le_refl _) (by omega) (Int.le_refl _)
  exact deep.thin (by omega) (by omega) draws

theorem steps (within : Within tick reach orders trades m) (positive : 0 < tick)
    (floor : 10 * tick ≤ reach) (draws : List StepDraws)
    (room : reach + tick * (draws.length + 3) < 2 ^ 63)
    (few : orders + 4 * draws.length < 2 ^ 60) (short : trades + draws.length < 2 ^ 60) :
    ∃ reach', Within tick reach' (orders + 4 * draws.length) (trades + draws.length)
      (draws.foldl Mbo.step m) := by
  induction draws generalizing m reach orders trades with
  | nil => exact ⟨reach, within.mono (Int.le_refl _) (by simp) (by simp)⟩
  | cons first rest ih =>
    rw [List.length_cons] at room few short ⊢
    have walk : tick * ((rest.length + 1 : Nat) + 3) = tick + tick * (rest.length + 3) := by
      rw [Int.natCast_add, Int.natCast_one]
      ring
    have ahead : 0 ≤ tick * rest.length :=
      Int.mul_nonneg (Int.le_of_lt positive) (Int.natCast_nonneg _)
    rw [walk] at room
    have behind : tick * ((rest.length : Int) + 3) = tick * rest.length + tick * 3 :=
      Int.mul_add ..
    have next := within.step positive floor (by omega) (by omega) (by omega) first
    obtain ⟨reach', done⟩ := ih next (by omega) (by omega) (by omega) (by omega)
    exact ⟨reach', done.mono (Int.le_refl _) (by omega) (by omega)⟩

end Within

theorem start_within {token : Nat} (startMid : Int) {tick : Int} (positive : 0 < tick)
    (typed : token < 2 ^ 32) :
    Within tick (|startMid| + 10 * tick) 1 1
      { gen := { token := token, mid := startMid, tick := tick } } := by
  have below := neg_abs_le startMid
  have above := le_abs_self startMid
  refine ⟨?_, rfl, by dsimp only; omega, by dsimp only; omega, Int.le_refl 1, Int.le_refl 1⟩
  constructor
  · exact typed
  · simp
  · simp
  · rfl
  · rfl
  · simp
  · simp
  · exact Int.le_refl 1
  · exact Int.le_refl 1

end Mbo

/-- Whatever is drawn, a call with few enough steps for its prices writes a file. -/
theorem generateMbo_recordable {token : Nat} {startMid tick : Int} (typed : token < 2 ^ 32)
    (positive : 0 < tick) (seed : Fin 3 → QtyDraw × QtyDraw) (steps : List StepDraws)
    (short : steps.length < 2 ^ 31) (room : |startMid| + tick * (steps.length + 13) < 2 ^ 63) :
    let call := MtbtGenerator.generateMbo { token := token, mid := startMid, tick := tick } seed steps
    call.Recordable ∧ call.Early := by
  intro call
  have ahead : 0 ≤ tick * steps.length :=
    Int.mul_nonneg (Int.le_of_lt positive) (Int.natCast_nonneg _)
  have split : tick * ((steps.length : Int) + 13) = tick * steps.length + tick * 13 := Int.mul_add ..
  have tail : tick * ((steps.length : Int) + 3) = tick * steps.length + tick * 3 := Int.mul_add ..
  have origin := abs_nonneg startMid
  have seeded := (Mbo.start_within startMid positive typed).seedLevels positive
    (by omega) (by decide) seed (List.finRange 3) (by simp)
  rw [List.length_finRange] at seeded
  obtain ⟨reach, done⟩ := seeded.steps positive (by omega) steps (by omega) (by omega) (by omega)
  exact ⟨done.recordable, done.early (by omega) (by omega)⟩

/-! ### The readers -/

section Side

variable {ev : MarketEvent}

/-- The book does not look at the side of a cancel or a trade: they name their orders. -/
theorem OrderBook.applyEvent_side (b : OrderBook) (fuel : Nat) (other : ev.msgType ≠ some .orderAdd)
    (side : Side) : b.applyEvent fuel { ev with side := side } = b.applyEvent fuel ev := by
  have type : ({ ev with side := side } : MarketEvent).msgType = ev.msgType := rfl
  have sequence : b.trackSeq { ev with side := side } = b.trackSeq ev := rfl
  simp only [applyEvent, type, sequence]
  split
  · rfl
  cases kind : ev.msgType with
  | none => rfl
  | some m =>
    cases m with
    | orderAdd => exact absurd kind other
    | _ => rfl

theorem Pipeline.process_side (A : Arithmetic) (fuel : Nat) (p : Pipeline) (clock : ClockReadings)
    (other : ev.msgType ≠ some .orderAdd) (side : Side) :
    p.process A fuel clock { ev with side := side } = p.process A fuel clock ev := by
  simp only [process, OrderBook.applyEvent_side _ fuel other side]

end Side

namespace Backtest

variable {A : Arithmetic} {args : BacktestArgs} {world : BacktestWorld}

/-- The mark and the simulator read neither the stream number nor the side. -/
theorem fillEvent_recorded (bt : Backtest) (ev : MarketEvent) :
    bt.fillEvent A args ev.recorded = bt.fillEvent A args ev := rfl

/-- The pipeline reads no stream number, and a side in an add only. -/
theorem processEvent_recorded (bt : Backtest) (ev : MarketEvent) :
    bt.processEvent A args world ev.recorded = bt.processEvent A args world ev := by
  obtain ⟨stream, _, recorded | ⟨other, recorded⟩⟩ := ev.recorded_cases
  · rw [recorded]
    rfl
  · have unnamed := Pipeline.process_side A world.fuel bt.pipe (world.clocks bt.eventIndex) other kBuy
    rw [recorded]
    simp only [processEvent]
    exact congrArg (· >>= _) unnamed

theorem runEvents_recorded (events : List MarketEvent) (bt : Backtest) :
    bt.runEvents A args world (events.map MarketEvent.recorded) = bt.runEvents A args world events := by
  induction events generalizing bt with
  | nil => rfl
  | cons ev rest ih =>
    rw [List.map_cons]
    simp only [runEvents, fillEvent_recorded, processEvent_recorded]
    split
    · rfl
    · exact ih _

end Backtest

/-- The records that came through as a whole. -/
structure WholeRecords (events : List MarketEvent) (file : List UInt8) (n : Nat) : Prop where
  few : n ≤ events.length
  inside : (encodeCaptures (events.take n)).length ≤ file.length
  cut : n < events.length → file.length < (encodeCaptures (events.take (n + 1))).length

theorem encodeCaptures_eq_flatten (events : List MarketEvent) :
    encodeCaptures events = (events.map fun ev => encodeCapture ev []).flatten := by
  rw [encodeCaptures_eq_flatMap, List.flatMap_def]

/-- What is on the disk of a capture: whole records, and a torn one at most. -/
theorem wholeRecords_of_prefix {events : List MarketEvent} {file : List UInt8}
    (capturable : ∀ ev ∈ events, ev.Capturable) (front : file <+: encodeCaptures events) :
    ∃ n tail, WholeRecords events file n ∧ file = encodeCaptures (events.take n) ++ tail ∧
      nextRecord tail = none := by
  have whole {events : List MarketEvent} (capturable : ∀ ev ∈ events, ev.Capturable) :
      ∀ record ∈ events.map fun ev => encodeCapture ev [], captureFormat.Whole record := by
    intro record member
    obtain ⟨ev, listed, rfl⟩ := List.mem_map.mp member
    exact encodeCapture_whole (capturable ev listed)
  have first (n : Nat) : ∀ ev ∈ events.take n, ev.Capturable :=
    fun ev member => capturable ev (List.mem_of_mem_take member)
  have onDisk : file <+: (events.map fun ev => encodeCapture ev []).flatten :=
    encodeCaptures_eq_flatten events ▸ front
  obtain ⟨count, arrived⟩ := (Format.carries_flatten (whole capturable)).arrived onDisk
  have received := arrived.receive
  obtain ⟨tail, split, _, torn⟩ := arrived
  rw [← List.map_take, ← encodeCaptures_eq_flatten] at split
  have same : events.take (min count events.length) = events.take count := by
    rw [List.take_eq_take_iff]
    omega
  refine ⟨min count events.length, tail, ⟨Nat.min_le_right _ _, ?_, ?_⟩, by rw [same]; exact split,
    nextRecord_torn torn⟩
  · rw [same, split, List.length_append]
    exact Nat.le_add_right _ _
  · intro more
    by_contra fits
    -- otherwise one record more would have been received
    have longer : encodeCaptures (events.take (min count events.length + 1)) <+: file := by
      apply List.prefix_of_prefix_length_le _ front (Nat.le_of_not_lt fits)
      rw [encodeCaptures_eq_flatten, encodeCaptures_eq_flatten, List.map_take]
      exact (List.take_prefix _ _).flatten
    obtain ⟨rest, joined⟩ := longer
    rw [encodeCaptures_eq_flatten] at joined
    rw [← joined, Format.receive_append (whole (first _))] at received
    have lengths := congrArg List.length received
    simp only [List.length_append, List.length_map, List.length_take] at lengths
    omega

/-- Whatever is drawn and wherever the writing of the file stopped: a backtest over the file gives
what it gives over the events in memory of the records that came through, and the feed handler of
`mtbt_replay` hands on each of them, without a malformed packet. -/
theorem capture_readers_agree (token : Nat) (startMid tick : Int) (typed : token < 2 ^ 32)
    (positive : 0 < tick) (seed : Fin 3 → QtyDraw × QtyDraw) (steps : List StepDraws)
    (short : steps.length < 2 ^ 31) (room : |startMid| + tick * (steps.length + 13) < 2 ^ 63)
    (file : List UInt8)
    (front : file <+: encodeCaptures (MtbtGenerator.generateMbo
      { token := token, mid := startMid, tick := tick } seed steps).out) :
    let events := (MtbtGenerator.generateMbo
      { token := token, mid := startMid, tick := tick } seed steps).out
    ∃ n, WholeRecords events file n ∧
      (∀ (A : Arithmetic) (args : BacktestArgs) (world : BacktestWorld),
        Backtest.runBacktest A args world (loadEvents events (some (some file))) =
          Backtest.runBacktest A args world (events.take n)) ∧
      (({} : MtbtReplay).replayRecords file).packets = n ∧
      (({} : MtbtReplay).replayRecords file).events = n ∧
      (({} : MtbtReplay).replayRecords file).feed.malformed = 0 := by
  intro events
  obtain ⟨recordable, early⟩ := generateMbo_recordable typed positive seed steps short room
  have length : events.length + 2 < 2 ^ 64 := recordable.length_lt early
  have capturable : ∀ ev ∈ events.map MarketEvent.recorded, ev.Capturable :=
    List.forall_mem_map.mpr recordable.events
  rw [← encodeCaptures_recorded] at front
  obtain ⟨n, tail, whole, split, stop⟩ := wholeRecords_of_prefix capturable front
  obtain ⟨few, inside, cut⟩ := whole
  simp only [← List.map_take, encodeCaptures_recorded, List.length_map] at few inside cut
  rw [← List.map_take] at split
  have capturable' : ∀ ev ∈ (events.take n).map MarketEvent.recorded, ev.Capturable := by
    rw [List.map_take]
    exact fun ev member => capturable ev (List.mem_of_mem_take member)
  have counted := @replayRecords_records _ capturable' 1
    (List.forall_mem_map.mpr fun ev member =>
      if_pos (recordable.stream ev (List.mem_of_mem_take member)))
    1 ?_ ?_ tail stop {} (Nat.zero_le 1)
  · simp only [← split, List.length_map, List.length_take, Nat.min_eq_left few, Nat.zero_add]
      at counted
    refine ⟨n, ⟨few, inside, cut⟩, fun A args world => ?_, counted⟩
    have loaded := loadRecords_records capturable' stop {}
    rw [← split] at loaded
    simp only [loadEvents, loaded, Backtest.runBacktest, Backtest.runEvents_recorded]
  · have parts : List.range' 1 events.length =
        List.range' 1 n ++ List.range' (1 + n) (events.length - n) := by
      rw [List.range'_append_1, Nat.add_sub_cancel' few]
    have numbers : (events.take n).map MarketEvent.seqNo = List.range' 1 n := by
      rw [List.map_take, recordable.numbered, parts, List.take_left' List.length_range']
    rw [List.map_map, List.length_map, List.length_take, Nat.min_eq_left few, ← numbers]
    rfl
  · rw [List.length_map, List.length_take]
    omega

/-- A file that ends within its seventh record, of 49 bytes each. -/
theorem torn_capture_replays :
    let events := (MtbtGenerator.generateMbo { token := 7, mid := 1000, tick := 5 }
      (fun _ => (tenLots, tenLots)) [busyStep]).out
    let file := (encodeCaptures events).take 320
    events.length = 12 ∧ (({} : MtbtReplay).replayRecords file).events = 6 ∧
      ∀ (A : Arithmetic) (args : BacktestArgs) (world : BacktestWorld),
        Backtest.runBacktest A args world (loadEvents events (some (some file))) =
          Backtest.runBacktest A args world (events.take 6) := by
  intro events file
  obtain ⟨n, whole, same, _, counted, _⟩ := capture_readers_agree 7 1000 5 (by decide) (by decide)
    (fun _ => (tenLots, tenLots)) [busyStep] (by decide) (by decide) file (List.take_prefix _ _)
  have sizes : ∀ k < 13, (encodeCaptures (events.take k)).length ≤ file.length →
      (k < events.length → file.length < (encodeCaptures (events.take (k + 1))).length) →
      k = 6 := by
    decide +kernel
  have count : events.length = 12 := by decide
  obtain rfl : n = 6 := sizes n (Nat.lt_succ_of_le (count ▸ whole.few)) whole.inside whole.cut
  exact ⟨count, counted, same⟩

end NseHft
