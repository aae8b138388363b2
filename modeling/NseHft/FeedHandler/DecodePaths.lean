import NseHft.FeedHandler.Sequencing

/-!
# Live decoding and decoding for the backtest

The replay tool runs the feed handler over its packets, the backtest the packet parser alone.
On packets that follow each other on each stream the two emit the same events, whatever bytes
stand behind the headers.
-/
namespace NseHft

open FixedWidth

/-- `parse_packet` on one buffer after the other: what a backtest is fed with. -/
def MtbtParser.parsePackets : MtbtParser → List (List UInt8) → List MarketEvent
  | _, [] => []
  | parser, data :: rest =>
    let (parser, out) := parser.parsePacket data
    out ++ parser.parsePackets rest

/-- The headers of the buffers that have one. -/
def headers (packets : List (FeedSource × List UInt8)) : List MtbtHeader :=
  packets.filterMap fun packet => parseHeader packet.2

/-- On each stream a packet starts at or behind the end of the one before, gaps included. -/
structure InSequence (packets : List (FeedSource × List UInt8)) : Prop where
  ordered : ∀ id, ((headers packets).filter fun hdr => hdr.streamId = id).IsChain
    fun earlier later => earlier.seqNo + earlier.msgCount ≤ later.seqNo
  noWrap : ∀ hdr ∈ headers packets, hdr.seqNo + hdr.msgCount < 2 ^ 64

/-- Not only neighbours: every later packet of the stream starts behind the earlier one. -/
private theorem InSequence.pairwise {packets : List (FeedSource × List UInt8)}
    (sequence : InSequence packets) :
    (headers packets).Pairwise fun earlier later =>
      earlier.streamId = later.streamId → earlier.seqNo + earlier.msgCount ≤ later.seqNo := by
  apply List.pairwise_iff_forall_sublist.mpr
  intro earlier later both same
  let Before (a b : MtbtHeader) : Prop := a.seqNo + a.msgCount ≤ b.seqNo
  have before_trans : ∀ {a b c : MtbtHeader}, Before a b → Before b c → Before a c := by
    intro a b c ab bc
    exact Nat.le_trans ab (Nat.le_trans (Nat.le_add_right b.seqNo b.msgCount) bc)
  have _ : Trans Before Before Before := ⟨before_trans⟩
  have chain : ((headers packets).filter fun hdr => hdr.streamId = later.streamId).IsChain Before :=
    sequence.ordered later.streamId
  have onStream := both.filter fun hdr => decide (hdr.streamId = later.streamId)
  have kept : [earlier, later].filter (fun hdr => hdr.streamId = later.streamId) =
      [earlier, later] := by
    simp [same]
  rw [kept] at onStream
  exact List.pairwise_iff_forall_sublist.mp (List.isChain_iff_pairwise.mp chain) onStream

theorem parsePacket_events {data : List UInt8} {hdr : MtbtHeader}
    (header : parseHeader data = some hdr) (parser : MtbtParser) :
    (parser.parsePacket data).2 = bookEvents (packetMessages data hdr) := by
  simp only [MtbtParser.parsePacket, header]
  exact packetLoop_events ..

namespace FeedHandler

/-- A packet at or behind the expected number, whole or cut short: the handler emits what the
parser does, and expects at most the number behind the packet. -/
theorem onPacket_behind {fh : FeedHandler} {data : List UInt8} {hdr : MtbtHeader}
    (header : parseHeader data = some hdr) (noWrap : hdr.seqNo + hdr.msgCount < 2 ^ 64)
    (new : fh.nextSeq hdr.streamId ≤ hdr.seqNo) (source : FeedSource) :
    (fh.onPacket source data).2 = bookEvents (packetMessages data hdr) ∧
      (fh.onPacket source data).1.nextSeq hdr.streamId ≤ hdr.seqNo + hdr.msgCount ∧
      ∀ id, id ≠ hdr.streamId → (fh.onPacket source data).1.nextSeq id = fh.nextSeq id := by
  have inRange : ¬hdr.streamId ≥ kMaxStreams :=
    Nat.not_le.mpr (parseHeader_streamId_lt header)
  have few : (packetMessages data hdr).length ≤ hdr.msgCount := messagesFrom_length_le ..
  simp only [onPacket, header, if_neg inRange, u64_eq_self _ noWrap, messageLoop_eq]
  split
  next covered =>
    -- only an empty packet is both new and already covered
    have expected : hdr.seqNo + hdr.msgCount ≤ fh.nextSeq hdr.streamId := covered.2
    have empty : packetMessages data hdr = [] := List.eq_nil_of_length_eq_zero (by omega)
    refine ⟨by rw [empty]; rfl, ?_, ?_⟩
    · simp only [nextSeq, Function.update_self]
      exact Nat.le_trans new (Nat.le_add_right _ _)
    · intro id other
      simp only [nextSeq, Function.update_of_ne other]
  · obtain ⟨next, out⟩ := StreamStats.acceptAll_fresh
      { fh.streams hdr.streamId with packets := u64 ((fh.streams hdr.streamId).packets + 1) }
      (packetMessages data hdr) hdr.seqNo (packetMessages_numbered data hdr noWrap) (by omega) new
    refine ⟨out, ?_, ?_⟩
    · simp only [nextSeq, Function.update_self]
      rw [← packetMessages, next]
      split
      · exact Nat.le_trans new (Nat.le_add_right _ _)
      · omega
    · intro id other
      simp only [nextSeq, Function.update_of_ne other]

/-- The handler keeps up with the parser while no packet starts before what it expects. -/
theorem run_eq_parsePackets (packets : List (FeedSource × List UInt8)) (fh : FeedHandler)
    (parser : MtbtParser)
    (ordered : (headers packets).Pairwise fun earlier later =>
      earlier.streamId = later.streamId → earlier.seqNo + earlier.msgCount ≤ later.seqNo)
    (noWrap : ∀ hdr ∈ headers packets, hdr.seqNo + hdr.msgCount < 2 ^ 64)
    (new : ∀ hdr ∈ headers packets, fh.nextSeq hdr.streamId ≤ hdr.seqNo) :
    (fh.run packets).2 = parser.parsePackets (packets.map Prod.snd) := by
  induction packets generalizing fh parser with
  | nil => rfl
  | cons packet rest ih =>
    obtain ⟨source, data⟩ := packet
    rw [List.map_cons, MtbtParser.parsePackets]
    simp only [run]
    cases header : parseHeader data with
    | none =>
      have skipped : headers ((source, data) :: rest) = headers rest := by simp [headers, header]
      rw [skipped] at ordered noWrap new
      simp only [onPacket, MtbtParser.parsePacket, header]
      exact congrArg _ (ih _ _ ordered noWrap new)
    | some hdr =>
      have first : headers ((source, data) :: rest) = hdr :: headers rest := by
        simp [headers, header]
      rw [first] at ordered noWrap new
      obtain ⟨before, ordered⟩ := List.pairwise_cons.mp ordered
      obtain ⟨here, noWrap⟩ := List.forall_mem_cons.mp noWrap
      obtain ⟨expected, new⟩ := List.forall_mem_cons.mp new
      obtain ⟨out, next, others⟩ := onPacket_behind header here expected source
      rw [out, parsePacket_events header]
      congr 1
      apply ih _ _ ordered noWrap
      intro later member
      by_cases same : later.streamId = hdr.streamId
      · rw [same]
        exact Nat.le_trans next (before later member same.symm)
      · rw [others _ same]
        exact new later member

end FeedHandler

/-- A fresh feed handler and a fresh parser emit the same events in the same order. -/
theorem decode_paths_agree (packets : List (FeedSource × List UInt8))
    (sequence : InSequence packets) :
    (({} : FeedHandler).run packets).2 =
      ({} : MtbtParser).parsePackets (packets.map Prod.snd) := by
  apply FeedHandler.run_eq_parsePackets packets {} {} sequence.pairwise sequence.noWrap
  intro hdr _
  exact Nat.zero_le hdr.seqNo

/-- Stream 5: a cancel numbered 1; a short header; behind a gap a heartbeat numbered 4, a cancel
and an unknown message, of which the packet announces three. -/
private def gappedFeed : List (FeedSource × List UInt8) :=
  [(.primary, [5, 0, 1, 0, 0, 0, 0, 0, 0, 0, 1, 0, 0, 0, 0, 0, 0, 0, 0,
      88, 9, 0, 0, 0, 0, 0, 0, 0, 7, 0, 0, 0]),
    (.secondary, [5, 0, 2]),
    (.secondary, [5, 0, 4, 0, 0, 0, 0, 0, 0, 0, 3, 0, 0, 0, 0, 0, 0, 0, 0,
      72, 88, 9, 0, 0, 0, 0, 0, 0, 0, 7, 0, 0, 0, 255])]

private theorem gappedFeed_headers : headers gappedFeed = [⟨5, 1, 1, 0⟩, ⟨5, 4, 3, 0⟩] := by
  decide +kernel

private theorem gappedFeed_sequence : InSequence gappedFeed where
  ordered id := by
    rw [gappedFeed_headers]
    by_cases five : id = 5
    · subst five
      decide
    · simp [Ne.symm five]
  noWrap := by
    rw [gappedFeed_headers]
    decide

theorem gapped_feed_agrees :
    ((({} : FeedHandler).run gappedFeed).2.map MarketEvent.seqNo) = [1, 5] ∧
      (({} : FeedHandler).run gappedFeed).2 =
        ({} : MtbtParser).parsePackets (gappedFeed.map Prod.snd) :=
  ⟨by decide +kernel, decode_paths_agree gappedFeed gappedFeed_sequence⟩

end NseHft
