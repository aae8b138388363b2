import Mathlib.Logic.Function.Basic
import NseHft.FeedHandler.MtbtParser

/-!
# Dual-source feed handler

Both sources carry the same packets; the handler deduplicates by the sequence number of
each stream. The events handed to the `emit` callback are returned in order; their number
is the return value of `on_packet`.
-/
namespace NseHft

open FixedWidth

def kMaxStreams : Nat := 65536

inductive FeedSource where
  | primary
  | secondary
  deriving DecidableEq, Repr

structure StreamStats where
  nextSeq : Nat := 0
  packets : Nat := 0
  messages : Nat := 0
  duplicates : Nat := 0
  gaps : Nat := 0
  lastGapLo : Nat := 0
  lastGapHi : Nat := 0
  needsRetransmit : Bool := false
  deriving DecidableEq, Repr

namespace StreamStats

/-- The loop body for a decoded message: what becomes of the statistics, and what is
emitted. -/
def accept (st : StreamStats) (seq : Nat) (ev : MarketEvent) : StreamStats × List MarketEvent :=
  if st.nextSeq ≠ 0 ∧ seq < st.nextSeq then
    ({ st with duplicates := u64 (st.duplicates + 1) }, [])
  else
    let st := if st.nextSeq ≠ 0 ∧ seq > st.nextSeq then
        { st with
          gaps := u64 (st.gaps + 1), lastGapLo := st.nextSeq, lastGapHi := seq,
          needsRetransmit := true }
      else st
    let st := { st with nextSeq := u64 (seq + 1) }
    if ev.msgType ≠ some .heartbeat then
      ({ st with messages := u64 (st.messages + 1) }, [ev])
    else (st, [])

/-- The loop body over a list of decoded messages. -/
def acceptAll : StreamStats → List MarketEvent → StreamStats × List MarketEvent
  | st, [] => (st, [])
  | st, ev :: rest =>
    let first := st.accept ev.seqNo ev
    let others := first.1.acceptAll rest
    (others.1, first.2 ++ others.2)

end StreamStats

structure FeedHandler where
  streams : Nat → StreamStats := fun _ => {}
  malformed : Nat := 0

namespace FeedHandler

/-- `n` messages are left, the next one has index `i` and starts at byte `off`. Returns the
statistics, the malformed counter and the emitted events. -/
def messageLoop (data : List UInt8) (hdr : MtbtHeader) :
    Nat → Nat → Nat → StreamStats → Nat → StreamStats × Nat × List MarketEvent
  | 0, _, _, st, malformed => (st, malformed, [])
  | n + 1, i, off, st, malformed =>
    let seq := u64 (hdr.seqNo + i)
    match parseMessage (data.drop off) hdr.streamId seq hdr.timestamp with
    -- an undecodable message ends the packet; its length is not known
    | none => (st, u64 (malformed + 1), [])
    | some (ev, consumed) =>
      let (st, out) := st.accept seq ev
      let (st, malformed, rest) := messageLoop data hdr n (i + 1) (off + consumed) st malformed
      (st, malformed, out ++ rest)

def onPacket (fh : FeedHandler) (_source : FeedSource) (data : List UInt8) :
    FeedHandler × List MarketEvent :=
  match parseHeader data with
  | none => ({ fh with malformed := u64 (fh.malformed + 1) }, [])
  | some hdr =>
    if hdr.streamId ≥ kMaxStreams then ({ fh with malformed := u64 (fh.malformed + 1) }, [])
    else
      let st := fh.streams hdr.streamId
      let packetHi := u64 (hdr.seqNo + hdr.msgCount)
      -- the whole packet was already consumed from the other source
      if st.nextSeq ≠ 0 ∧ packetHi ≤ st.nextSeq then
        let st := { st with duplicates := u64 (st.duplicates + hdr.msgCount) }
        ({ fh with streams := Function.update fh.streams hdr.streamId st }, [])
      else
        let st := { st with packets := u64 (st.packets + 1) }
        let (st, malformed, out) := messageLoop data hdr hdr.msgCount 0 kMtbtHeaderSize st fh.malformed
        ({ streams := Function.update fh.streams hdr.streamId st, malformed := malformed }, out)

end FeedHandler

/-! ### The loop over a packet -/

theorem messageLoop_eq (data : List UInt8) (hdr : MtbtHeader) (n i off : Nat) (st : StreamStats)
    (malformed : Nat) :
    FeedHandler.messageLoop data hdr n i off st malformed =
      ((st.acceptAll (messagesFrom data hdr n i off)).1,
        if (messagesFrom data hdr n i off).length = n then malformed else u64 (malformed + 1),
        (st.acceptAll (messagesFrom data hdr n i off)).2) := by
  induction n generalizing i off st with
  | zero => rfl
  | succ n ih =>
    cases parsed : parseMessage (data.drop off) hdr.streamId (u64 (hdr.seqNo + i)) hdr.timestamp with
    | none =>
      have none : messagesFrom data hdr (n + 1) i off = [] := by simp only [messagesFrom, parsed]
      rw [none]
      simp [FeedHandler.messageLoop, parsed, StreamStats.acceptAll]
    | some decoded =>
      have cons : messagesFrom data hdr (n + 1) i off =
          decoded.1 :: messagesFrom data hdr n (i + 1) (off + decoded.2) := by
        simp only [messagesFrom, parsed]
      rw [cons]
      simp [FeedHandler.messageLoop, parsed, StreamStats.acceptAll, ih, (parseMessage_some parsed).1]

/-! ### Accepting numbered messages -/

namespace StreamStats

variable {st : StreamStats} {msgs : List MarketEvent}

theorem accept_fresh (seq : Nat) (ev : MarketEvent) (new : st.nextSeq ≤ seq) :
    (st.accept seq ev).1.nextSeq = u64 (seq + 1) ∧
      (st.accept seq ev).2 = [ev].filter fun ev => ev.msgType ≠ some .heartbeat := by
  have notSeen : ¬ (st.nextSeq ≠ 0 ∧ seq < st.nextSeq) := by omega
  simp only [accept, if_neg notSeen]
  by_cases heartbeat : ev.msgType = some .heartbeat <;> simp [heartbeat]

/-- New consecutive messages are all taken, and all but the heartbeats emitted. -/
theorem acceptAll_fresh (st : StreamStats) (msgs : List MarketEvent) (lo : Nat)
    (numbered : msgs.map MarketEvent.seqNo = List.range' lo msgs.length)
    (small : lo + msgs.length < 2 ^ 64) (new : st.nextSeq ≤ lo) :
    (st.acceptAll msgs).1.nextSeq = (if msgs = [] then st.nextSeq else lo + msgs.length) ∧
      (st.acceptAll msgs).2 = msgs.filter fun ev => ev.msgType ≠ some .heartbeat := by
  induction msgs generalizing st lo with
  | nil => exact ⟨rfl, rfl⟩
  | cons ev rest ih =>
    rw [List.length_cons] at small numbered
    rw [List.map_cons, List.range'_succ, List.cons.injEq] at numbered
    obtain ⟨first, others⟩ := numbered
    obtain ⟨next, out⟩ := accept_fresh ev.seqNo ev (first ▸ new)
    -- below the wrap-around the counter is the number itself
    rw [first, u64_eq_self _ (by omega)] at next
    rw [first] at out
    -- the rest starts at the number the first message leaves expected
    obtain ⟨next', out'⟩ := ih (st.accept lo ev).1 (lo + 1) others (by omega) (by omega)
    simp only [acceptAll, first, next', out', out, next, List.length_cons, if_neg (List.cons_ne_nil ev rest)]
    constructor
    · split_ifs with last
      · rw [last, List.length_nil]
      · omega
    · rw [← List.filter_append, List.singleton_append]

end StreamStats

/-! ### Well-formed packets -/

namespace FeedHandler

/-- The number the handler expects next on a stream, 0 before the first message. -/
def nextSeq (fh : FeedHandler) (streamId : Nat) : Nat := (fh.streams streamId).nextSeq

theorem onPacket_eq (fh : FeedHandler) (source : FeedSource) (p : Packet) :
    fh.onPacket source p.data =
      let st := fh.streams p.hdr.streamId
      if st.nextSeq ≠ 0 ∧ p.hi ≤ st.nextSeq then
        let st := { st with duplicates := u64 (st.duplicates + p.hdr.msgCount) }
        ({ fh with streams := Function.update fh.streams p.hdr.streamId st }, [])
      else
        let st := { st with packets := u64 (st.packets + 1) }
        ({ fh with streams := Function.update fh.streams p.hdr.streamId (st.acceptAll p.messages).1 },
          (st.acceptAll p.messages).2) := by
  have inRange : ¬ p.hdr.streamId ≥ kMaxStreams := Nat.not_le.mpr p.streamId_lt
  have complete : (messagesFrom p.data p.hdr p.hdr.msgCount 0 kMtbtHeaderSize).length =
      p.hdr.msgCount := p.wellFormed.complete
  simp only [onPacket, p.wellFormed.header, if_neg inRange, u64_eq_self _ p.noWrap, messageLoop_eq,
    if_pos complete]
  rfl

/-- A packet that starts at or after the expected number is taken as a whole. -/
theorem onPacket_fresh (fh : FeedHandler) (source : FeedSource) (p : Packet)
    (new : fh.nextSeq p.hdr.streamId ≤ p.lo) :
    (fh.onPacket source p.data).2 = p.payload ∧
      (fh.onPacket source p.data).1.nextSeq p.hdr.streamId =
        if p.messages = [] then fh.nextSeq p.hdr.streamId else p.hi := by
  have hi := p.hi_eq
  rw [onPacket_eq]
  dsimp only
  split
  next seen =>
    -- only an empty packet is both new and already covered
    have covered : p.hi ≤ fh.nextSeq p.hdr.streamId := seen.2
    have empty : p.messages = [] := List.eq_nil_of_length_eq_zero (by omega)
    simp [nextSeq, Packet.payload, empty]
  · have bound : p.lo + p.messages.length < 2 ^ 64 := hi ▸ p.noWrap
    obtain ⟨next, out⟩ := StreamStats.acceptAll_fresh
      { fh.streams p.hdr.streamId with packets := u64 ((fh.streams p.hdr.streamId).packets + 1) }
      p.messages p.lo p.numbered bound new
    refine ⟨out, ?_⟩
    simp only [nextSeq, Function.update_self]
    rw [hi]
    exact next

/-- A packet below the expected number is dropped as a whole. -/
theorem onPacket_seen (fh : FeedHandler) (source : FeedSource) (p : Packet)
    (started : fh.nextSeq p.hdr.streamId ≠ 0) (seen : p.hi ≤ fh.nextSeq p.hdr.streamId) :
    (fh.onPacket source p.data).2 = [] ∧
      (fh.onPacket source p.data).1.nextSeq p.hdr.streamId = fh.nextSeq p.hdr.streamId := by
  have covered : (fh.streams p.hdr.streamId).nextSeq ≠ 0 ∧
      p.hi ≤ (fh.streams p.hdr.streamId).nextSeq := ⟨started, seen⟩
  rw [onPacket_eq]
  dsimp only
  rw [if_pos covered]
  simp [nextSeq]

end FeedHandler

end NseHft
