import Mathlib.Data.List.Forall2
import NseHft.FeedHandler.MtbtParser
import NseHft.Lib.Framing

/-!
# Bounds of the packet parser

The parser once more at the level of indices into its buffer, where a read behind the end and
a remaining length below zero are faults. There is no fault for any bytes, and what is emitted
are the messages that stand complete at the start of the packet's body.
-/
namespace NseHft

open FixedWidth Framing

/-! ### The parser with checked accesses -/

/-- `load_le` at an index of the buffer; `none` when it reads behind the end. -/
def loadAt (data : List UInt8) (width off : Nat) : Option Nat :=
  (List.range width).foldlM
    (fun v i => data[off + i]?.map fun byte => v ||| byte.toNat <<< (8 * i)) 0

/-- `parse_header`; the outer `none` is a fault. -/
def parseHeaderAt (data : List UInt8) : Option (Option MtbtHeader) :=
  if data.length < kMtbtHeaderSize then some none
  else do
    let streamId ← loadAt data 2 0
    let seqNo ← loadAt data 8 2
    let msgCount ← loadAt data 1 10
    let timestamp ← loadAt data 8 11
    some (some { streamId, seqNo, msgCount, timestamp })

/-- `parse_message` on the `len` bytes from index `off` on; the outer `none` is a fault. -/
def parseMessageAt (data : List UInt8) (off len streamId seqNo ts : Nat) :
    Option (Option (MarketEvent × Nat)) :=
  if len < 1 then some none
  else do
    let type ← data[off]?
    let need := messageSize type
    if need = 0 ∨ len < need then some none
    else
      let out : MarketEvent := { type := type, streamId := streamId, seqNo := seqNo, ts := ts }
      match MtbtMsgType.ofByte type with
      | some .orderAdd =>
        let orderNo ← loadAt data 8 (off + 1)
        let side ← loadAt data 1 (off + 9)
        let qty ← loadAt data 4 (off + 10)
        let token ← loadAt data 4 (off + 14)
        let price ← loadAt data 8 (off + 18)
        some (some ({ out with
          orderNo := i64 orderNo, side := decodeSide side, qty := i32 qty, token := token
          price := i64 price }, need))
      | some .orderModify =>
        let orderNo ← loadAt data 8 (off + 1)
        let qty ← loadAt data 4 (off + 9)
        let token ← loadAt data 4 (off + 13)
        let price ← loadAt data 8 (off + 17)
        some (some ({ out with
          orderNo := i64 orderNo, qty := i32 qty, token := token, price := i64 price }, need))
      | some .orderCancel =>
        let orderNo ← loadAt data 8 (off + 1)
        let token ← loadAt data 4 (off + 9)
        some (some ({ out with orderNo := i64 orderNo, token := token }, need))
      | some .trade =>
        let orderNo ← loadAt data 8 (off + 1)
        let orderNo2 ← loadAt data 8 (off + 9)
        let token ← loadAt data 4 (off + 17)
        let price ← loadAt data 8 (off + 21)
        let qty ← loadAt data 4 (off + 29)
        let tradeNo ← loadAt data 8 (off + 33)
        some (some ({ out with
          orderNo := i64 orderNo, orderNo2 := i64 orderNo2, token := token, price := i64 price
          qty := i32 qty, tradeNo := i64 tradeNo }, need))
      | some .snapQuote =>
        let token ← loadAt data 4 (off + 1)
        let bidPrice ← loadAt data 8 (off + 5)
        let bidQty ← loadAt data 4 (off + 13)
        let askPrice ← loadAt data 8 (off + 17)
        let askQty ← loadAt data 4 (off + 25)
        some (some ({ out with
          token := token, bidPrice := i64 bidPrice, bidQty := i32 bidQty, askPrice := i64 askPrice
          askQty := i32 askQty }, need))
      | some .heartbeat => some (some (out, need))
      | _ => some none

namespace MtbtParser

def packetLoopAt (data : List UInt8) (hdr : MtbtHeader) :
    Nat → Nat → Nat → MtbtParser → Option (MtbtParser × List MarketEvent)
  | 0, _, _, parser => some (parser, [])
  | n + 1, i, off, parser =>
    -- `len - off` is unsigned and would wrap
    if data.length < off then none
    else do
      let message ← parseMessageAt data off (data.length - off) hdr.streamId (u64 (hdr.seqNo + i))
        hdr.timestamp
      match message with
      | none => some ({ parser with malformed := u64 (parser.malformed + 1) }, [])
      | some (ev, consumed) =>
        let out := if ev.msgType ≠ some .heartbeat then [ev] else []
        let parser := { parser with parsed := u64 (parser.parsed + 1) }
        let (parser, rest) ← packetLoopAt data hdr n (i + 1) (off + consumed) parser
        some (parser, out ++ rest)

def parsePacketAt (parser : MtbtParser) (data : List UInt8) :
    Option (MtbtParser × List MarketEvent) := do
  let header ← parseHeaderAt data
  match header with
  | none => some ({ parser with malformed := u64 (parser.malformed + 1) }, [])
  | some hdr => packetLoopAt data hdr hdr.msgCount 0 kMtbtHeaderSize parser

end MtbtParser

/-! ### No access is outside -/

theorem loadAt_eq {data : List UInt8} {width off : Nat} (inside : off + width ≤ data.length) :
    loadAt data width off = some (loadLe width (data.drop off)) := by
  induction width with
  | zero => rfl
  | succ width ih =>
    have here : off + width < data.length := inside
    have last : loadAt data (width + 1) off = (loadAt data width off).bind fun v =>
        data[off + width]?.map fun byte => v ||| byte.toNat <<< (8 * width) := by
      rw [loadAt, List.range_succ, List.foldlM_append, ← loadAt]
      simp
    rw [last, ih (by omega), List.getElem?_eq_getElem here, loadLe, loadLe, List.range_succ,
      List.foldl_append]
    simp [here]

theorem parseHeaderAt_eq (data : List UInt8) : parseHeaderAt data = some (parseHeader data) := by
  rw [parseHeaderAt, parseHeader]
  split
  · rfl
  next long =>
    rw [kMtbtHeaderSize, Nat.not_lt] at long
    rw [loadAt_eq (by omega), loadAt_eq (by omega), loadAt_eq (by omega), loadAt_eq (by omega)]
    rfl

/-- Sizes by message type; open interest is not decoded. -/
def MtbtMsgType.wireSize : MtbtMsgType → Nat
  | orderAdd => 26
  | orderModify => 25
  | orderCancel => 13
  | trade => 41
  | openInterest => 0
  | snapQuote => 29
  | heartbeat => 1

theorem messageSize_of_ofByte {type : UInt8} {t : MtbtMsgType}
    (kind : MtbtMsgType.ofByte type = some t) : messageSize type = t.wireSize := by
  rw [messageSize, kind]
  cases t <;> rfl

theorem parseMessageAt_eq {data : List UInt8} {off : Nat} (inside : off ≤ data.length)
    (streamId seqNo ts : Nat) :
    parseMessageAt data off (data.length - off) streamId seqNo ts =
      some (parseMessage (data.drop off) streamId seqNo ts) := by
  have length := List.length_drop (i := off) (l := data)
  cases rest : data.drop off with
  | nil =>
    rw [rest, List.length_nil] at length
    rw [parseMessageAt, if_pos (by omega), parseMessage]
  | cons type tail =>
    have first : data[off]? = some type := by
      rw [← List.head?_drop, rest]
      rfl
    rw [rest] at length
    rw [parseMessageAt, if_neg (by simp only [List.length_cons] at length; omega), first, ← length]
    simp only [parseMessage, Option.bind_eq_bind, Option.bind_some]
    split
    · rfl
    next complete =>
      have fits : messageSize type ≤ (type :: tail).length := by omega
      -- every field lies inside the message
      have load {width k : Nat} (field : k + width ≤ messageSize type) :
          loadAt data width (off + k) = some (loadLe width ((type :: tail).drop k)) := by
        rw [loadAt_eq (by omega), ← rest, List.drop_drop]
      cases kind : MtbtMsgType.ofByte type with
      | none => rfl
      | some t =>
        have size := messageSize_of_ofByte kind
        cases t with
        | heartbeat | openInterest => rfl
        | orderAdd | orderModify | orderCancel | trade | snapQuote =>
          dsimp only [MtbtMsgType.wireSize] at size
          simp (disch := omega) only [load, Option.bind_some]
          rfl

theorem packetLoopAt_eq {data : List UInt8} (hdr : MtbtHeader) (n i : Nat) {off : Nat}
    (inside : off ≤ data.length) (parser : MtbtParser) :
    parser.packetLoopAt data hdr n i off = some (parser.packetLoop data hdr n i off) := by
  induction n generalizing i off parser with
  | zero => rfl
  | succ n ih =>
    rw [MtbtParser.packetLoopAt, if_neg (by omega), parseMessageAt_eq inside, MtbtParser.packetLoop]
    cases parsed : parseMessage (data.drop off) hdr.streamId (u64 (hdr.seqNo + i)) hdr.timestamp with
    | none => rfl
    | some decoded =>
      -- a decoded message ends inside the buffer
      obtain ⟨_, _, _, _, _, _, consumed⟩ := parseMessage_some parsed
      rw [List.length_drop] at consumed
      simp only [Option.bind_eq_bind, Option.bind_some, ih (i + 1) (by omega : off + decoded.2 ≤ _)]

theorem parsePacketAt_eq (parser : MtbtParser) (data : List UInt8) :
    parser.parsePacketAt data = some (parser.parsePacket data) := by
  rw [MtbtParser.parsePacketAt, parseHeaderAt_eq, MtbtParser.parsePacket]
  cases header : parseHeader data with
  | none => rfl
  | some hdr => exact packetLoopAt_eq hdr hdr.msgCount 0 (parseHeader_length header) parser

/-! ### What is emitted -/

theorem loadLe_append (width : Nat) (p more : List UInt8) (enough : width ≤ p.length) :
    loadLe width (p ++ more) = loadLe width p := by
  induction width with
  | zero => rfl
  | succ width ih =>
    have same : (p ++ more).getD width 0 = p.getD width 0 := by
      rw [List.getD_eq_getElem?_getD, List.getD_eq_getElem?_getD, List.getElem?_append_left enough]
    have before := ih (by omega)
    rw [loadLe, loadLe] at before ⊢
    rw [List.range_succ, List.foldl_append, List.foldl_append, before]
    simp only [List.foldl_cons, List.foldl_nil, same]

/-- A whole message is decoded from its own bytes. -/
theorem parseMessage_complete {part : List UInt8} (complete : Complete messageSize part)
    (streamId seqNo ts : Nat) :
    ∃ ev, ∀ more, parseMessage (part ++ more) streamId seqNo ts = some (ev, part.length) := by
  obtain ⟨type, rest, rfl, known, length⟩ := complete
  have whole (more : List UInt8) : ¬(messageSize type = 0 ∨
      (type :: (rest ++ more)).length < messageSize type) := by
    rw [← List.cons_append, List.length_append, length]
    omega
  have load {width k : Nat} (field : k + width ≤ messageSize type) (more : List UInt8) :
      loadLe width ((type :: (rest ++ more)).drop k) = loadLe width ((type :: rest).drop k) := by
    rw [← List.cons_append, List.drop_append_of_le_length (by omega)]
    exact loadLe_append _ _ _ (by rw [List.length_drop]; omega)
  simp only [List.cons_append, parseMessage, if_neg (whole _), length]
  cases kind : MtbtMsgType.ofByte type with
  | none => exact absurd (by rw [messageSize, kind]) known
  | some t =>
    have size := messageSize_of_ofByte kind
    cases t with
    | heartbeat => exact ⟨_, fun _ => rfl⟩
    | openInterest => exact absurd size known
    | orderAdd | orderModify | orderCancel | trade | snapQuote =>
      dsimp only [MtbtMsgType.wireSize] at size
      simp (disch := omega) only [loadLeI64, loadLeI32, load]
      exact ⟨_, fun _ => rfl⟩

/-- A message that is not whole, or of no known type, ends the packet. -/
theorem parseMessage_incomplete {type : UInt8} {rest : List UInt8}
    (incomplete : messageSize type = 0 ∨ (type :: rest).length < messageSize type)
    (streamId seqNo ts : Nat) : parseMessage (type :: rest) streamId seqNo ts = none := by
  simp only [parseMessage, if_pos incomplete]

/-- The entry is a message and its index, decoded with the number that goes with the index. -/
def DecodesTo (hdr : MtbtHeader) (entry : List UInt8 × Nat) (ev : MarketEvent) : Prop :=
  parseMessage entry.1 hdr.streamId (u64 (hdr.seqNo + entry.2)) hdr.timestamp =
      some (ev, entry.1.length) ∧
    ev.seqNo = u64 (hdr.seqNo + entry.2)

/-- The messages of a packet are its frames, decoded one by one. -/
theorem messagesFrom_frames (data : List UInt8) (hdr : MtbtHeader) (n i off : Nat) :
    List.Forall₂ (DecodesTo hdr) ((frames messageSize n (data.drop off)).zipIdx i)
      (messagesFrom data hdr n i off) := by
  induction n generalizing i off with
  | zero => exact .nil
  | succ n ih =>
    rw [messagesFrom]
    cases body : data.drop off with
    | nil => exact .nil
    | cons type tail =>
      by_cases incomplete : messageSize type = 0 ∨ (type :: tail).length < messageSize type
      · rw [frames, parseMessage_incomplete incomplete]
        simp only [if_pos incomplete]
        exact .nil
      · -- the first frame, and the rest of the packet behind it
        obtain ⟨_, _, complete⟩ := @frames_splits _ messageSize 1 (type :: tail)
        simp only [frames, if_neg incomplete, List.forall_mem_singleton] at complete
        obtain ⟨ev, decoded⟩ := parseMessage_complete complete hdr.streamId (u64 (hdr.seqNo + i))
          hdr.timestamp
        have here := decoded ((type :: tail).drop (messageSize type))
        rw [List.take_append_drop] at here
        have length : ((type :: tail).take (messageSize type)).length = messageSize type := by
          rw [List.length_take]
          omega
        rw [frames, here, length]
        simp only [if_neg incomplete, List.zipIdx_cons]
        rw [← body, List.drop_drop, body]
        refine .cons ⟨?_, (parseMessage_some here).1⟩ (ih (i + 1) _)
        have alone := decoded []
        rwa [List.append_nil] at alone

/-- For every byte string the parser reads inside it and no remaining length wraps. It emits
the book events among the messages that stand complete behind the header, at most as many as
announced, the `i`-th with the number of the packet plus `i`; and it counts one malformed
packet if the header is short or a message is missing. -/
theorem parse_packet_exact (parser : MtbtParser) (data : List UInt8) :
    parser.parsePacketAt data = some (parser.parsePacket data) ∧
    match parseHeader data with
    | none =>
      data.length < 19 ∧
        parser.parsePacket data = ({ parser with malformed := u64 (parser.malformed + 1) }, [])
    | some hdr =>
      19 ≤ data.length ∧ ∃ parts msgs,
        LongestSplit messageSize (data.drop 19) hdr.msgCount parts ∧
        List.Forall₂ (DecodesTo hdr) parts.zipIdx msgs ∧
        (parser.parsePacket data).2 = msgs.filter (fun ev => ev.msgType ≠ some .heartbeat) ∧
        (parser.parsePacket data).1.malformed =
          if parts.length < hdr.msgCount then u64 (parser.malformed + 1) else parser.malformed := by
  refine ⟨parsePacketAt_eq parser data, ?_⟩
  cases header : parseHeader data with
  | none => exact ⟨parseHeader_eq_none_iff.mp header, by rw [MtbtParser.parsePacket, header]⟩
  | some hdr =>
    have decoded := messagesFrom_frames data hdr hdr.msgCount 0 kMtbtHeaderSize
    refine ⟨parseHeader_length header, _, _, frames_longest hdr.msgCount _, decoded, ?_, ?_⟩
    · rw [MtbtParser.parsePacket, header]
      exact packetLoop_events ..
    · have same := decoded.length_eq
      rw [List.length_zipIdx] at same
      rw [MtbtParser.parsePacket, header]
      exact same ▸ packetLoop_malformed ..

end NseHft
