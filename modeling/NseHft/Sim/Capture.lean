import NseHft.Common.WireFields

/-!
# Captures of market data

A capture file is a sequence of packets with their lengths in front. The generator writes one
packet for each event, the loader of the backtest runs the packet parser over them. A file is
the list of the bytes that are still to be read.
-/
namespace NseHft

open FixedWidth RecordLayout

/-! ### Writing -/

def putLe (width : Nat) (v : Int) (b : List UInt8) : List UInt8 := b ++ leBytes width v

/-- Appends the record of one event; other types than the four are left out. -/
def encodeCapture (ev : MarketEvent) (out : List UInt8) : List UInt8 :=
  let pkt := []
    |> putLe 2 (if ev.streamId = 0 then 1 else ev.streamId)
    |> putLe 8 ev.seqNo
    |> putLe 1 1
    |> putLe 8 ev.ts
  let message := match ev.msgType with
    | some .snapQuote => some (pkt ++ [81]
        |> putLe 4 ev.token
        |> putLe 8 ev.bidPrice
        |> putLe 4 ev.bidQty
        |> putLe 8 ev.askPrice
        |> putLe 4 ev.askQty)
    | some .trade => some (pkt ++ [84]
        |> putLe 8 ev.orderNo
        |> putLe 8 ev.orderNo2
        |> putLe 4 ev.token
        |> putLe 8 ev.price
        |> putLe 4 ev.qty
        |> putLe 8 ev.tradeNo)
    | some .orderAdd => some (pkt ++ [65]
        |> putLe 8 ev.orderNo
        |> putLe 1 (if ev.side = kBuy then 1 else 2)
        |> putLe 4 ev.qty
        |> putLe 4 ev.token
        |> putLe 8 ev.price)
    | some .orderCancel => some (pkt ++ [88]
        |> putLe 8 ev.orderNo
        |> putLe 4 ev.token)
    | _ => none
  match message with
  | some pkt => putLe 4 pkt.length out ++ pkt
  | none => out

/-! ### Loading -/

/-- The integer and the rest of the file. -/
def readU32Le : List UInt8 → Option (Nat × List UInt8)
  | b₀ :: b₁ :: b₂ :: b₃ :: f =>
    some (b₀.toNat ||| b₁.toNat <<< 8 ||| b₂.toNat <<< 16 ||| b₃.toNat <<< 24, f)
  | _ => none

theorem readU32Le_length {f rest : List UInt8} {len : Nat} (read : readU32Le f = some (len, rest)) :
    rest.length < f.length := by
  unfold readU32Le at read
  split at read
  · cases read
    simp only [List.length_cons]
    omega
  · cases read

/-- The record loop of `load_events`. -/
def loadRecords (parser : MtbtParser) (f : List UInt8) : List MarketEvent :=
  match _ : readU32Le f with
  | none => []
  | some (len, rest) =>
    if len = 0 ∨ len > 1 <<< 20 then []
    -- a short read
    else if rest.length < len then []
    else
      let (parser, out) := parser.parsePacket (rest.take len)
      out ++ loadRecords parser (rest.drop len)
termination_by f.length
decreasing_by
  have shorter := readU32Le_length ‹readU32Le f = some (len, rest)›
  rw [List.length_drop]
  omega

/-- No path gives the synthetic session, a path that cannot be opened no events. -/
def loadEvents (synthetic : List MarketEvent) : Option (Option (List UInt8)) → List MarketEvent
  | none => synthetic
  | some none => []
  | some (some f) => loadRecords {} f

/-! ### Events that a capture can hold -/

/-- The event with the fields reset that its message does not carry. -/
def MarketEvent.canonical (ev : MarketEvent) : MarketEvent :=
  let out : MarketEvent :=
    { type := ev.type, streamId := ev.streamId, seqNo := ev.seqNo, ts := ev.ts }
  match ev.msgType with
  | some .orderAdd => { out with
      orderNo := ev.orderNo, side := ev.side, qty := ev.qty, token := ev.token, price := ev.price }
  | some .orderCancel => { out with orderNo := ev.orderNo, token := ev.token }
  | some .trade => { out with
      orderNo := ev.orderNo, orderNo2 := ev.orderNo2, token := ev.token, price := ev.price
      qty := ev.qty, tradeNo := ev.tradeNo }
  | some .snapQuote => { out with
      token := ev.token, bidPrice := ev.bidPrice, bidQty := ev.bidQty, askPrice := ev.askPrice
      askQty := ev.askQty }
  | _ => out

/-- An add, cancel, trade or snap quote in canonical form, with its fields in the ranges of
their types and a stream that is named. -/
structure MarketEvent.Capturable (ev : MarketEvent) : Prop where
  kind : ev.msgType = some .orderAdd ∨ ev.msgType = some .orderCancel ∨
    ev.msgType = some .trade ∨ ev.msgType = some .snapQuote
  canonical : ev.canonical = ev
  named : 1 ≤ ev.streamId
  streamId : ev.streamId < 65536
  seqNo : ev.seqNo < 2 ^ 64
  ts : ev.ts < 2 ^ 64
  token : ev.token < 2 ^ 32
  price : FitsI64 ev.price
  qty : FitsI32 ev.qty
  orderNo : FitsI64 ev.orderNo
  orderNo2 : FitsI64 ev.orderNo2
  tradeNo : FitsI64 ev.tradeNo
  bidPrice : FitsI64 ev.bidPrice
  bidQty : FitsI32 ev.bidQty
  askPrice : FitsI64 ev.askPrice
  askQty : FitsI32 ev.askQty

/-! ### One record -/

def packetHeader (ev : MarketEvent) : List (List UInt8) :=
  [leBytes 2 ev.streamId, leBytes 8 ev.seqNo, leBytes 1 1, leBytes 8 ev.ts]

def messageFields (ev : MarketEvent) : List (List UInt8) :=
  match ev.msgType with
  | some .orderAdd =>
    [[65], leBytes 8 ev.orderNo, leBytes 1 (if ev.side = kBuy then 1 else 2), leBytes 4 ev.qty,
      leBytes 4 ev.token, leBytes 8 ev.price]
  | some .orderCancel => [[88], leBytes 8 ev.orderNo, leBytes 4 ev.token]
  | some .trade =>
    [[84], leBytes 8 ev.orderNo, leBytes 8 ev.orderNo2, leBytes 4 ev.token, leBytes 8 ev.price,
      leBytes 4 ev.qty, leBytes 8 ev.tradeNo]
  | some .snapQuote =>
    [[81], leBytes 4 ev.token, leBytes 8 ev.bidPrice, leBytes 4 ev.bidQty, leBytes 8 ev.askPrice,
      leBytes 4 ev.askQty]
  | _ => []

/-- The packet of an event, field behind field. -/
def capturePacket (ev : MarketEvent) : List UInt8 :=
  (packetHeader ev).flatten ++ (messageFields ev).flatten

section Record

variable {ev : MarketEvent}

theorem encodeCapture_append (event : ev.Capturable) (out : List UInt8) :
    encodeCapture ev out = out ++ leBytes 4 (capturePacket ev).length ++ capturePacket ev := by
  have named : ev.streamId ≠ 0 := Nat.one_le_iff_ne_zero.mp event.named
  rcases event.kind with kind | kind | kind | kind <;>
    simp [encodeCapture, putLe, capturePacket, packetHeader, messageFields, kind, named]

theorem packetHeader_length : (packetHeader ev).flatten.length = 19 := by
  simp [packetHeader]

theorem messageFields_length (event : ev.Capturable) :
    (messageFields ev).flatten.length = messageSize ev.type ∧
      0 < messageSize ev.type ∧ messageSize ev.type ≤ 41 := by
  have kind := event.kind
  simp only [MarketEvent.msgType] at kind
  rcases kind with kind | kind | kind | kind <;>
    simp [messageFields, messageSize, MarketEvent.msgType, kind]

theorem parseHeader_packetHeader (event : ev.Capturable) (body : List UInt8) :
    parseHeader ((packetHeader ev).flatten ++ body) =
      some { streamId := ev.streamId, seqNo := ev.seqNo, msgCount := 1, timestamp := ev.ts } := by
  have long : ¬((packetHeader ev).flatten ++ body).length < kMtbtHeaderSize := by
    rw [List.length_append, packetHeader_length, kMtbtHeaderSize]
    omega
  have field {p : Nat} {bytes : List UInt8} (reads : Reads (packetHeader ev).flatten p bytes)
      (inside : p ≤ 19) : Reads ((packetHeader ev).flatten ++ body) p bytes :=
    reads.append (packetHeader_length ▸ inside) body
  have stream : loadLe 2 (((packetHeader ev).flatten ++ body).drop 0) = ev.streamId :=
    loadLe_of_reads_nat (field (reads_field 0 rfl rfl) (by decide)) event.streamId
  rw [parseHeader, if_neg long, Option.some.injEq, MtbtHeader.mk.injEq]
  exact ⟨stream,
    loadLe_of_reads_nat (field (p := 2) (reads_field 1 rfl rfl) (by decide)) event.seqNo,
    loadLe_of_reads (field (p := 10) (reads_field 2 rfl rfl) (by decide)),
    loadLe_of_reads_nat (field (p := 11) (reads_field 3 rfl rfl) (by decide)) event.ts⟩

/-- The message of an event is decoded to the event. -/
theorem parseMessage_messageFields (event : ev.Capturable) :
    parseMessage (messageFields ev).flatten ev.streamId ev.seqNo ev.ts =
      some (ev, messageSize ev.type) := by
  obtain ⟨length, known, -⟩ := messageFields_length event
  have complete : ¬(messageSize ev.type = 0 ∨
      (messageFields ev).flatten.length < messageSize ev.type) := by omega
  obtain ⟨rest, cons⟩ : ∃ rest, (messageFields ev).flatten = ev.type :: rest := by
    rcases event.kind with kind | kind | kind | kind <;>
      exact ⟨(messageFields ev).tail.flatten, by
        simp [messageFields, kind, ← MtbtMsgType.code_of_ofByte kind, MtbtMsgType.code]⟩
  rw [cons, parseMessage]
  simp only [← cons, if_neg complete]
  -- what is left are the fields of the type, one by one
  rcases event.kind with kind | kind | kind | kind
  all_goals
    have byte : MtbtMsgType.ofByte ev.type = _ := kind
    have type := MtbtMsgType.code_of_ofByte byte
    simp only [byte, Option.some.injEq, Prod.mk.injEq, and_true]
    refine Eq.trans ?_ event.canonical
    simp only [MarketEvent.canonical, kind, MarketEvent.mk.injEq, true_and, and_true]
  · have fields : messageFields ev = [[ev.type], leBytes 8 ev.orderNo,
        leBytes 1 (if ev.side = kBuy then 1 else 2), leBytes 4 ev.qty, leBytes 4 ev.token,
        leBytes 8 ev.price] := by
      simp only [messageFields, kind, ← type, MtbtMsgType.code]
    rw [fields]
    exact ⟨loadLe_of_reads_nat (reads_field 4 rfl rfl) event.token,
      loadLeI64_of_reads (reads_field 5 rfl rfl) event.price,
      loadLeI32_of_reads (reads_field 3 rfl rfl) event.qty,
      decodeSide_of_reads (reads_field 2 rfl rfl) (by decide),
      loadLeI64_of_reads (reads_field 1 rfl rfl) event.orderNo⟩
  · have fields : messageFields ev = [[ev.type], leBytes 8 ev.orderNo, leBytes 4 ev.token] := by
      simp only [messageFields, kind, ← type, MtbtMsgType.code]
    rw [fields]
    exact ⟨loadLe_of_reads_nat (reads_field 2 rfl rfl) event.token,
      loadLeI64_of_reads (reads_field 1 rfl rfl) event.orderNo⟩
  · have fields : messageFields ev = [[ev.type], leBytes 8 ev.orderNo, leBytes 8 ev.orderNo2,
        leBytes 4 ev.token, leBytes 8 ev.price, leBytes 4 ev.qty, leBytes 8 ev.tradeNo] := by
      simp only [messageFields, kind, ← type, MtbtMsgType.code]
    rw [fields]
    exact ⟨loadLe_of_reads_nat (reads_field 3 rfl rfl) event.token,
      loadLeI64_of_reads (reads_field 4 rfl rfl) event.price,
      loadLeI32_of_reads (reads_field 5 rfl rfl) event.qty,
      loadLeI64_of_reads (reads_field 1 rfl rfl) event.orderNo,
      loadLeI64_of_reads (reads_field 2 rfl rfl) event.orderNo2,
      loadLeI64_of_reads (reads_field 6 rfl rfl) event.tradeNo⟩
  · have fields : messageFields ev = [[ev.type], leBytes 4 ev.token, leBytes 8 ev.bidPrice,
        leBytes 4 ev.bidQty, leBytes 8 ev.askPrice, leBytes 4 ev.askQty] := by
      simp only [messageFields, kind, ← type, MtbtMsgType.code]
    rw [fields]
    exact ⟨loadLe_of_reads_nat (reads_field 1 rfl rfl) event.token,
      loadLeI64_of_reads (reads_field 2 rfl rfl) event.bidPrice,
      loadLeI32_of_reads (reads_field 3 rfl rfl) event.bidQty,
      loadLeI64_of_reads (reads_field 4 rfl rfl) event.askPrice,
      loadLeI32_of_reads (reads_field 5 rfl rfl) event.askQty⟩

theorem parsePacket_capturePacket (event : ev.Capturable) (parser : MtbtParser) :
    (parser.parsePacket (capturePacket ev)).2 = [ev] := by
  have seq : u64 (ev.seqNo + 0) = ev.seqNo := u64_eq_self _ event.seqNo
  have behind : (capturePacket ev).drop kMtbtHeaderSize = (messageFields ev).flatten :=
    List.drop_left' packetHeader_length
  have bookEvent : ev.msgType ≠ some .heartbeat := by
    rcases event.kind with kind | kind | kind | kind <;> simp [kind]
  have header := parseHeader_packetHeader event (messageFields ev).flatten
  rw [← capturePacket] at header
  simp only [MtbtParser.parsePacket, header]
  rw [packetLoop_events, messagesFrom]
  simp only [behind, seq, parseMessage_messageFields event, messagesFrom]
  rw [bookEvents, List.filter_cons_of_pos (by simpa using bookEvent), List.filter_nil]

/-- The length that stands in front of a packet. -/
theorem readU32Le_leBytes (n : Nat) (fits : n < 2 ^ 32) (rest : List UInt8) :
    readU32Le (leBytes 4 n ++ rest) = some (n, rest) := by
  obtain ⟨b₀, b₁, b₂, b₃, bytes⟩ : ∃ b₀ b₁ b₂ b₃, leBytes 4 n = [b₀, b₁, b₂, b₃] :=
    ⟨_, _, _, _, rfl⟩
  have value : loadLe 4 ((leBytes 4 n ++ rest).drop 0) = n :=
    loadLe_of_reads_nat ⟨rest, rfl⟩ fits
  rw [bytes] at value ⊢
  simpa [readU32Le, loadLe, List.range_succ] using value

/-- One turn of the record loop reads one event back. -/
theorem loadRecords_encodeCapture (event : ev.Capturable) (parser : MtbtParser)
    (rest : List UInt8) : ∃ parser' : MtbtParser,
    loadRecords parser (encodeCapture ev [] ++ rest) = ev :: loadRecords parser' rest := by
  obtain ⟨length, known, small⟩ := messageFields_length event
  have size : (capturePacket ev).length = 19 + messageSize ev.type := by
    rw [capturePacket, List.length_append, packetHeader_length, length]
  have admitted : ¬((capturePacket ev).length = 0 ∨ (capturePacket ev).length > 1 <<< 20) := by
    simp only [size, Nat.one_shiftLeft]
    omega
  have whole : ¬(capturePacket ev ++ rest).length < (capturePacket ev).length := by
    rw [List.length_append]
    omega
  have read := readU32Le_leBytes (capturePacket ev).length (by omega) (capturePacket ev ++ rest)
  rw [encodeCapture_append event, List.nil_append, List.append_assoc, loadRecords]
  refine ⟨(parser.parsePacket (capturePacket ev)).1, ?_⟩
  split
  next missing =>
    rw [read] at missing
    cases missing
  next found =>
    rw [read] at found
    cases found
    rw [if_neg admitted, if_neg whole, List.take_left, List.drop_left]
    simp only [parsePacket_capturePacket event, List.singleton_append]

end Record

/-! ### Whole captures -/

/-- The records of the events, appended to one vector. -/
def encodeCaptures (events : List MarketEvent) : List UInt8 :=
  events.foldl (fun out ev => encodeCapture ev out) []

theorem encodeCaptures_eq_flatMap (events : List MarketEvent) :
    encodeCaptures events = events.flatMap fun ev => encodeCapture ev [] := by
  have record (ev : MarketEvent) (out : List UInt8) :
      encodeCapture ev out = out ++ encodeCapture ev [] := by
    simp only [encodeCapture]
    split <;> simp [putLe]
  have behind (out : List UInt8) : events.foldl (fun out ev => encodeCapture ev out) out =
      out ++ events.flatMap fun ev => encodeCapture ev [] := by
    induction events generalizing out with
    | nil => simp
    | cons ev rest ih => rw [List.foldl_cons, ih, record, List.flatMap_cons, List.append_assoc]
  exact behind []

theorem loadRecords_encodeCaptures (events : List MarketEvent) (parser : MtbtParser)
    (capturable : ∀ ev ∈ events, ev.Capturable) :
    loadRecords parser (encodeCaptures events) = events := by
  rw [encodeCaptures_eq_flatMap]
  induction events generalizing parser with
  | nil =>
    rw [List.flatMap_nil, loadRecords]
    rfl
  | cons ev rest ih =>
    obtain ⟨event, others⟩ := List.forall_mem_cons.mp capturable
    obtain ⟨next, first⟩ := loadRecords_encodeCapture event parser
      (rest.flatMap fun ev => encodeCapture ev [])
    rw [List.flatMap_cons, first, ih next others]

/-- What was written event by event is loaded as the same events in the same order. -/
theorem capture_round_trip (events : List MarketEvent) (capturable : ∀ ev ∈ events, ev.Capturable)
    (synthetic : List MarketEvent) :
    loadEvents synthetic (some (some (encodeCaptures events))) = events :=
  loadRecords_encodeCaptures events {} capturable

/-- A sell at a negative price and a snap quote, with extreme fields. -/
private def sampleEvents : List MarketEvent :=
  [{ ts := 2 ^ 64 - 1, token := 2 ^ 32 - 1, price := -5, qty := -1, side := kSell, type := 65
     orderNo := -2 ^ 63, streamId := 65535, seqNo := 7 },
   { token := 9, type := 81, streamId := 1, seqNo := 2 ^ 64 - 1, bidPrice := 2 ^ 63 - 1
     bidQty := -2 ^ 31, askPrice := -1, askQty := 3 }]

theorem sample_events_round_trip :
    loadEvents [] (some (some (encodeCaptures sampleEvents))) = sampleEvents := by
  apply capture_round_trip
  intro ev member
  simp only [sampleEvents, List.mem_cons, List.not_mem_nil, or_false] at member
  rcases member with rfl | rfl
  · constructor <;> decide
  · constructor <;> decide

end NseHft
