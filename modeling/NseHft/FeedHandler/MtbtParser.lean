import NseHft.Common.Types
import NseHft.Lib.FixedWidth

/-!
# MTBT parser

Packets are byte lists. A pointer into a packet is the list of the bytes from there on,
so the bytes available behind it are its length.
-/
namespace NseHft

open FixedWidth

/-- Little-endian load of an unsigned integer of `width` bytes. -/
def loadLe (width : Nat) (p : List UInt8) : Nat :=
  (List.range width).foldl (fun v i => v ||| (p.getD i 0).toNat <<< (8 * i)) 0

theorem loadLe_lt (width : Nat) (p : List UInt8) : loadLe width p < 2 ^ (8 * width) := by
  unfold loadLe
  induction width with
  | zero => exact Nat.one_pos
  | succ w ih =>
    rw [List.range_succ, List.foldl_append, List.foldl_cons, List.foldl_nil]
    apply Nat.or_lt_two_pow
    · exact Nat.lt_of_lt_of_le ih (Nat.pow_le_pow_right (by decide) (by omega))
    · rw [Nat.shiftLeft_eq, Nat.mul_succ, Nat.add_comm, Nat.pow_add]
      exact Nat.mul_lt_mul_of_pos_right (UInt8.toNat_lt _) (Nat.two_pow_pos _)

def loadLeI32 (p : List UInt8) : Int := i32 (loadLe 4 p)

def loadLeI64 (p : List UInt8) : Int := i64 (loadLe 8 p)

def kMtbtHeaderSize : Nat := 19

structure MtbtHeader where
  streamId : Nat
  seqNo : Nat
  msgCount : Nat
  timestamp : Nat
  deriving DecidableEq, Repr

/-- Sizes on the wire including the type tag; 0 for an unknown type. -/
def messageSize (type : UInt8) : Nat :=
  match MtbtMsgType.ofByte type with
  | some .orderAdd => 26
  | some .orderModify => 25
  | some .orderCancel => 13
  | some .trade => 41
  | some .snapQuote => 29
  | some .heartbeat => 1
  | _ => 0

/-- Buy/sell indicator on the wire: 1 = buy, 2 = sell. -/
def decodeSide (indicator : Nat) : Side := if indicator == 1 then kBuy else kSell

/-- `none` if the buffer is too short for a header. -/
def parseHeader (data : List UInt8) : Option MtbtHeader :=
  if data.length < kMtbtHeaderSize then none
  else some {
    streamId := loadLe 2 data
    seqNo := loadLe 8 (data.drop 2)
    msgCount := loadLe 1 (data.drop 10)
    timestamp := loadLe 8 (data.drop 11) }

theorem parseHeader_eq_none_iff {data : List UInt8} :
    parseHeader data = none ↔ data.length < kMtbtHeaderSize := by
  rw [parseHeader]
  split <;> simp [*]

theorem parseHeader_length {data : List UInt8} {hdr : MtbtHeader}
    (header : parseHeader data = some hdr) : kMtbtHeaderSize ≤ data.length := by
  rw [← Nat.not_lt, ← parseHeader_eq_none_iff, header]
  exact nofun

theorem parseHeader_streamId_lt {data : List UInt8} {hdr : MtbtHeader}
    (header : parseHeader data = some hdr) : hdr.streamId < 65536 := by
  simp only [parseHeader] at header
  split at header
  · cases header
  · rw [← Option.some.inj header]
    exact loadLe_lt 2 data

/-- Decodes the message at the front of `data` and returns it with the number of bytes
consumed; `none` for the return value 0 of a truncated or unknown message. -/
def parseMessage (data : List UInt8) (streamId seqNo ts : Nat) : Option (MarketEvent × Nat) :=
  match data with
  | [] => none
  | type :: _ =>
    let need := messageSize type
    if need = 0 ∨ data.length < need then none
    else
      -- the fields that a message does not carry stay reset
      let out : MarketEvent := { type := type, streamId := streamId, seqNo := seqNo, ts := ts }
      match MtbtMsgType.ofByte type with
      | some .orderAdd => some ({ out with
          orderNo := loadLeI64 (data.drop 1)
          side := decodeSide (loadLe 1 (data.drop 9))
          qty := loadLeI32 (data.drop 10)
          token := loadLe 4 (data.drop 14)
          price := loadLeI64 (data.drop 18) }, need)
      | some .orderModify => some ({ out with
          orderNo := loadLeI64 (data.drop 1)
          qty := loadLeI32 (data.drop 9)
          token := loadLe 4 (data.drop 13)
          price := loadLeI64 (data.drop 17) }, need)
      | some .orderCancel => some ({ out with
          orderNo := loadLeI64 (data.drop 1)
          token := loadLe 4 (data.drop 9) }, need)
      | some .trade => some ({ out with
          orderNo := loadLeI64 (data.drop 1)
          orderNo2 := loadLeI64 (data.drop 9)
          token := loadLe 4 (data.drop 17)
          price := loadLeI64 (data.drop 21)
          qty := loadLeI32 (data.drop 29)
          tradeNo := loadLeI64 (data.drop 33) }, need)
      | some .snapQuote => some ({ out with
          token := loadLe 4 (data.drop 1)
          bidPrice := loadLeI64 (data.drop 5)
          bidQty := loadLeI32 (data.drop 13)
          askPrice := loadLeI64 (data.drop 17)
          askQty := loadLeI32 (data.drop 25) }, need)
      | some .heartbeat => some (out, need)
      | _ => none

/-- A decoded message carries the sequence number it was given, and was complete. -/
theorem parseMessage_some {data : List UInt8} {streamId seqNo ts : Nat} {ev : MarketEvent}
    {consumed : Nat} (parsed : parseMessage data streamId seqNo ts = some (ev, consumed)) :
    ev.seqNo = seqNo ∧ ev.streamId = streamId ∧ ev.ts = ts ∧ data.head? = some ev.type ∧
      consumed = messageSize ev.type ∧ 0 < consumed ∧ consumed ≤ data.length := by
  cases data with
  | nil => cases parsed
  | cons type rest =>
    simp only [parseMessage] at parsed
    split at parsed
    · cases parsed
    next complete =>
      split at parsed <;> cases parsed <;>
        exact ⟨rfl, rfl, rfl, rfl, rfl, by omega, by omega⟩

/-! ### The messages of a packet -/

/-- The complete messages from byte `off` on, at most `n`, numbered from `i`. -/
def messagesFrom (data : List UInt8) (hdr : MtbtHeader) : Nat → Nat → Nat → List MarketEvent
  | 0, _, _ => []
  | n + 1, i, off =>
    match parseMessage (data.drop off) hdr.streamId (u64 (hdr.seqNo + i)) hdr.timestamp with
    | none => []
    | some (ev, consumed) => ev :: messagesFrom data hdr n (i + 1) (off + consumed)

def packetMessages (data : List UInt8) (hdr : MtbtHeader) : List MarketEvent :=
  messagesFrom data hdr hdr.msgCount 0 kMtbtHeaderSize

/-- The messages of a packet are numbered from its sequence number on. -/
theorem messagesFrom_seqNo (data : List UInt8) (hdr : MtbtHeader) (n i off : Nat) :
    (messagesFrom data hdr n i off).map MarketEvent.seqNo =
      (List.range' i (messagesFrom data hdr n i off).length).map fun j => u64 (hdr.seqNo + j) := by
  induction n generalizing i off with
  | zero => rfl
  | succ n ih =>
    simp only [messagesFrom]
    split
    · rfl
    next ev consumed parsed =>
      rw [List.map_cons, ih, (parseMessage_some parsed).1]
      rfl

theorem messagesFrom_length_le (data : List UInt8) (hdr : MtbtHeader) (n i off : Nat) :
    (messagesFrom data hdr n i off).length ≤ n := by
  induction n generalizing i off with
  | zero => exact Nat.le_refl 0
  | succ n ih =>
    simp only [messagesFrom]
    split
    · exact Nat.zero_le (n + 1)
    next => exact Nat.succ_le_succ (ih _ _)

/-- Below the wrap-around the numbers of a packet are consecutive. -/
theorem packetMessages_numbered (data : List UInt8) (hdr : MtbtHeader)
    (noWrap : hdr.seqNo + hdr.msgCount < 2 ^ 64) :
    (packetMessages data hdr).map MarketEvent.seqNo =
      List.range' hdr.seqNo (packetMessages data hdr).length := by
  have few : (packetMessages data hdr).length ≤ hdr.msgCount := messagesFrom_length_le ..
  rw [packetMessages, messagesFrom_seqNo, ← packetMessages, List.range'_eq_map_range,
    List.range'_eq_map_range, List.map_map]
  apply List.map_congr_left
  intro j member
  rw [List.mem_range] at member
  simp only [Function.comp_apply]
  rw [u64_eq_self _ (by omega)]
  omega

/-- The counters of the parser object. -/
structure MtbtParser where
  parsed : Nat := 0
  malformed : Nat := 0
  deriving DecidableEq, Repr

namespace MtbtParser

/-- `n` messages are left, the next one has index `i` and starts at byte `off`. Returns the
counters and the events handed to `emit`, whose number the source returns. -/
def packetLoop (data : List UInt8) (hdr : MtbtHeader) :
    Nat → Nat → Nat → MtbtParser → MtbtParser × List MarketEvent
  | 0, _, _, parser => (parser, [])
  | n + 1, i, off, parser =>
    match parseMessage (data.drop off) hdr.streamId (u64 (hdr.seqNo + i)) hdr.timestamp with
    | none => ({ parser with malformed := u64 (parser.malformed + 1) }, [])
    | some (ev, consumed) =>
      -- heartbeats are not book events
      let out := if ev.msgType ≠ some .heartbeat then [ev] else []
      let parser := { parser with parsed := u64 (parser.parsed + 1) }
      let (parser, rest) := packetLoop data hdr n (i + 1) (off + consumed) parser
      (parser, out ++ rest)

def parsePacket (parser : MtbtParser) (data : List UInt8) : MtbtParser × List MarketEvent :=
  match parseHeader data with
  | none => ({ parser with malformed := u64 (parser.malformed + 1) }, [])
  | some hdr => packetLoop data hdr hdr.msgCount 0 kMtbtHeaderSize parser

end MtbtParser

/-- The events that are handed on: all but the heartbeats. -/
def bookEvents (msgs : List MarketEvent) : List MarketEvent :=
  msgs.filter fun ev => ev.msgType ≠ some .heartbeat

theorem packetLoop_events (data : List UInt8) (hdr : MtbtHeader) (n i off : Nat)
    (parser : MtbtParser) :
    (parser.packetLoop data hdr n i off).2 = bookEvents (messagesFrom data hdr n i off) := by
  induction n generalizing i off parser with
  | zero => rfl
  | succ n ih =>
    simp only [MtbtParser.packetLoop, messagesFrom]
    split
    · rfl
    next ev consumed parsed =>
      dsimp only
      rw [ih, bookEvents, bookEvents, List.filter_cons]
      by_cases heartbeat : ev.msgType = some .heartbeat <;> simp [heartbeat]

/-- One message is counted as malformed when not all that are announced are complete. -/
theorem packetLoop_malformed (data : List UInt8) (hdr : MtbtHeader) (n i off : Nat)
    (parser : MtbtParser) :
    (parser.packetLoop data hdr n i off).1.malformed =
      if (messagesFrom data hdr n i off).length < n then u64 (parser.malformed + 1)
      else parser.malformed := by
  induction n generalizing i off parser with
  | zero => rfl
  | succ n ih =>
    cases parsed : parseMessage (data.drop off) hdr.streamId (u64 (hdr.seqNo + i)) hdr.timestamp with
    | none => simp [MtbtParser.packetLoop, messagesFrom, parsed]
    | some decoded =>
      simp only [MtbtParser.packetLoop, messagesFrom, parsed, ih, List.length_cons,
        Nat.add_lt_add_iff_right]

/-- A packet that consists of a header and all the messages it announces. -/
structure WellFormed (data : List UInt8) (hdr : MtbtHeader) : Prop where
  header : parseHeader data = some hdr
  complete : (packetMessages data hdr).length = hdr.msgCount

/-- A well-formed packet whose sequence numbers do not wrap. -/
structure Packet where
  data : List UInt8
  hdr : MtbtHeader
  wellFormed : WellFormed data hdr
  noWrap : hdr.seqNo + hdr.msgCount < 2 ^ 64

namespace Packet

def messages (p : Packet) : List MarketEvent := packetMessages p.data p.hdr

/-- Sequence number of the first message. -/
def lo (p : Packet) : Nat := p.hdr.seqNo

/-- One past the last sequence number. -/
def hi (p : Packet) : Nat := p.hdr.seqNo + p.hdr.msgCount

/-- The messages that are handed on. -/
def payload (p : Packet) : List MarketEvent :=
  p.messages.filter fun ev => ev.msgType ≠ some .heartbeat

theorem hi_eq (p : Packet) : p.hi = p.lo + p.messages.length := by
  rw [messages, p.wellFormed.complete]
  rfl

theorem numbered (p : Packet) :
    p.messages.map MarketEvent.seqNo = List.range' p.lo p.messages.length :=
  packetMessages_numbered p.data p.hdr p.noWrap

theorem streamId_lt (p : Packet) : p.hdr.streamId < 65536 :=
  parseHeader_streamId_lt p.wellFormed.header

end Packet

end NseHft
