import Mathlib.Data.List.Chain
import NseHft.FeedHandler.FeedHandler

/-!
# Two sources of one stream

Each source delivers a subsequence of the stream. The handler moves its expected number
forward over whatever it has not seen yet, so a packet that first arrives behind a later
one is taken for a copy: its messages are lost although a source delivered them.
-/
namespace NseHft

/-- The packets of one stream, in order and without holes. -/
structure Stream where
  id : Nat
  packets : List Packet
  same : ∀ p ∈ packets, p.hdr.streamId = id
  contiguous : packets.IsChain fun p q => q.lo = p.hi

namespace Stream

def packet (s : Stream) (i : Fin s.packets.length) : Packet := s.packets.get i

section Order

variable {s : Stream} {i j : Fin s.packets.length}

theorem packet_streamId (s : Stream) (i : Fin s.packets.length) :
    (s.packet i).hdr.streamId = s.id := s.same _ (List.getElem_mem i.isLt)

/-- An earlier packet ends before a later one starts. -/
theorem hi_le_lo (earlier : i < j) : (s.packet i).hi ≤ (s.packet j).lo := by
  let Before (p q : Packet) : Prop := p.hi ≤ q.lo
  have before_trans : ∀ {p q r : Packet}, Before p q → Before q r → Before p r := by
    intro p q r pq qr
    have width := q.hi_eq
    exact Nat.le_trans pq (Nat.le_trans (by omega) qr)
  have _ : Trans Before Before Before := ⟨before_trans⟩
  have chain : s.packets.IsChain Before := s.contiguous.imp fun _ _ next => Nat.le_of_eq next.symm
  have ordered := List.isChain_iff_pairwise.mp chain
  exact List.pairwise_iff_getElem.mp ordered i j i.isLt j.isLt earlier

theorem hi_mono (earlier : i ≤ j) : (s.packet i).hi ≤ (s.packet j).hi := by
  rcases Nat.lt_or_eq_of_le earlier with before | same
  · have width := (s.packet j).hi_eq
    exact Nat.le_trans (hi_le_lo before) (by omega)
  · rw [Fin.ext same]

end Order

end Stream

/-- A message of a packet has a number of that packet. -/
theorem Packet.seqNo_mem (p : Packet) {ev : MarketEvent} (member : ev ∈ p.messages) :
    p.lo ≤ ev.seqNo ∧ ev.seqNo < p.hi := by
  have listed : ev.seqNo ∈ p.messages.map MarketEvent.seqNo := List.mem_map_of_mem member
  rw [p.numbered, List.mem_range'_1] at listed
  rw [p.hi_eq]
  exact listed

theorem Packet.mem_messages {p : Packet} {ev : MarketEvent} (member : ev ∈ p.payload) :
    ev ∈ p.messages := List.mem_of_mem_filter member

theorem Stream.payload_disjoint {s : Stream} {i j : Fin s.packets.length} {ev : MarketEvent}
    (first : ev ∈ (s.packet i).payload) (second : ev ∈ (s.packet j).payload) : i = j := by
  have here := (s.packet i).seqNo_mem (Packet.mem_messages first)
  have there := (s.packet j).seqNo_mem (Packet.mem_messages second)
  by_contra different
  rcases Nat.lt_or_gt_of_ne (Fin.val_ne_of_ne different) with before | after
  · have := Stream.hi_le_lo (s := s) (i := i) (j := j) before
    omega
  · have := Stream.hi_le_lo (s := s) (i := j) (j := i) after
    omega

/-- Arrival of the packets of both sources at the handler: each source in order, and no
packet lost by both. -/
structure Delivery (s : Stream) where
  arrivals : List (FeedSource × Fin s.packets.length)
  inOrder : ∀ source, ((arrivals.filter fun a => a.1 = source).map Prod.snd).Pairwise (· < ·)
  covered : ∀ i, ∃ source, (source, i) ∈ arrivals

/-- Feeding buffers to the handler one after the other. -/
def FeedHandler.run : FeedHandler → List (FeedSource × List UInt8) → FeedHandler × List MarketEvent
  | fh, [] => (fh, [])
  | fh, (source, data) :: rest =>
    let first := fh.onPacket source data
    let others := first.1.run rest
    (others.1, first.2 ++ others.2)

section Run

variable {s : Stream}

abbrev Arrivals (s : Stream) := List (FeedSource × Fin s.packets.length)

/-- What is emitted for these arrivals. -/
def emitted (fh : FeedHandler) (arrivals : Arrivals s) : List MarketEvent :=
  (fh.run (arrivals.map fun a => (a.1, (s.packet a.2).data))).2

/-- A later packet with messages arrives before the first copy of packet `k`. -/
def Overtaken (k : Fin s.packets.length) : Arrivals s → Prop
  | [] => False
  | a :: rest => a.2 ≠ k ∧ ((k < a.2 ∧ (s.packet a.2).messages ≠ []) ∨ Overtaken k rest)

theorem emitted_cons (fh : FeedHandler) (a : FeedSource × Fin s.packets.length)
    (rest : Arrivals s) :
    emitted fh (a :: rest) = (fh.onPacket a.1 (s.packet a.2).data).2 ++
      emitted (fh.onPacket a.1 (s.packet a.2).data).1 rest := rfl

/-- The expected number is the end of a packet, or nothing has arrived yet. -/
def AtBoundary (s : Stream) (fh : FeedHandler) : Prop :=
  fh.nextSeq s.id = 0 ∨ ∃ i, (s.packet i).messages ≠ [] ∧ fh.nextSeq s.id = (s.packet i).hi

/-- Everything an arrival can do: the packet is new and taken as a whole, or it lies behind
the expected number and is dropped as a whole. -/
private theorem arrival_cases {fh : FeedHandler} (boundary : AtBoundary s fh) (source : FeedSource)
    (j : Fin s.packets.length) :
    AtBoundary s (fh.onPacket source (s.packet j).data).1 ∧
    ((fh.nextSeq s.id ≤ (s.packet j).lo ∧
        (fh.onPacket source (s.packet j).data).2 = (s.packet j).payload ∧
        (fh.onPacket source (s.packet j).data).1.nextSeq s.id =
          if (s.packet j).messages = [] then fh.nextSeq s.id else (s.packet j).hi) ∨
      (fh.nextSeq s.id ≠ 0 ∧ (s.packet j).hi ≤ fh.nextSeq s.id ∧
        (fh.onPacket source (s.packet j).data).2 = [] ∧
        (fh.onPacket source (s.packet j).data).1.nextSeq s.id = fh.nextSeq s.id)) := by
  have id := s.packet_streamId j
  have sides : fh.nextSeq s.id ≤ (s.packet j).lo ∨
      (fh.nextSeq s.id ≠ 0 ∧ (s.packet j).hi ≤ fh.nextSeq s.id) := by
    -- the packets do not overlap, so the expected number is never inside one
    rcases boundary with zero | ⟨i, some, equal⟩
    · exact .inl (by omega)
    · have width := (s.packet i).hi_eq
      have positive := List.length_pos_iff.mpr some
      rcases Nat.lt_or_ge i j with before | after
      · exact .inl (equal ▸ Stream.hi_le_lo before)
      · exact .inr ⟨by omega, equal ▸ Stream.hi_mono after⟩
  rcases sides with new | ⟨started, seen⟩
  · obtain ⟨out, next⟩ := fh.onPacket_fresh source (s.packet j) (id ▸ new)
    rw [id] at next
    refine ⟨?_, .inl ⟨new, out, next⟩⟩
    by_cases empty : (s.packet j).messages = []
    · rw [if_pos empty] at next
      rwa [AtBoundary, next]
    · exact .inr ⟨j, empty, by rw [next, if_neg empty]⟩
  · obtain ⟨out, next⟩ := fh.onPacket_seen source (s.packet j) (id ▸ started) (id ▸ seen)
    rw [id] at next
    exact ⟨by rwa [AtBoundary, next], .inr ⟨started, seen, out, next⟩⟩

variable {k : Fin s.packets.length} {m : MarketEvent}

/-- Once the handler expects a number behind packet `k`, its messages are never emitted. -/
private theorem not_emitted_of_passed (member : m ∈ (s.packet k).payload) (fh : FeedHandler)
    (boundary : AtBoundary s fh) (passed : (s.packet k).hi ≤ fh.nextSeq s.id)
    (arrivals : Arrivals s) : m ∉ emitted fh arrivals := by
  have inside := (s.packet k).seqNo_mem (Packet.mem_messages member)
  induction arrivals generalizing fh with
  | nil => exact List.not_mem_nil
  | cons a rest ih =>
    obtain ⟨boundary', cases⟩ := arrival_cases boundary a.1 a.2
    have width := (s.packet a.2).hi_eq
    rw [emitted_cons, List.mem_append, not_or]
    rcases cases with ⟨new, out, next⟩ | ⟨_, _, out, next⟩
    · constructor
      · -- another packet: this one starts too early to be new
        rw [out]
        intro there
        rw [← Stream.payload_disjoint member there] at new
        omega
      · apply ih _ boundary'
        rw [next]
        split <;> omega
    · exact ⟨by simp [out], ih _ boundary' (by omega)⟩

/-- Packet `k` is passed when a later packet that carries messages arrives. -/
private theorem passed_of_later {fh : FeedHandler} {source : FeedSource}
    {j : Fin s.packets.length} (boundary : AtBoundary s fh) (after : k < j)
    (carries : (s.packet j).messages ≠ []) :
    (s.packet k).hi ≤ (fh.onPacket source (s.packet j).data).1.nextSeq s.id := by
  have behind : (s.packet k).hi ≤ (s.packet j).lo := Stream.hi_le_lo after
  have width := (s.packet j).hi_eq
  rcases (arrival_cases boundary source j).2 with ⟨_, _, next⟩ | ⟨_, seen, _, next⟩
  · rw [next, if_neg carries]
    omega
  · omega

/-- No other arrival passes it. -/
private theorem pending_of_not_later {fh : FeedHandler} {source : FeedSource}
    {j : Fin s.packets.length} (boundary : AtBoundary s fh)
    (pending : fh.nextSeq s.id ≤ (s.packet k).lo) (other : j ≠ k)
    (harmless : ¬(k < j ∧ (s.packet j).messages ≠ [])) :
    (fh.onPacket source (s.packet j).data).1.nextSeq s.id ≤ (s.packet k).lo := by
  rcases (arrival_cases boundary source j).2 with ⟨_, _, next⟩ | ⟨_, _, _, next⟩
  · rw [next]
    split
    · exact pending
    next carries =>
      have notAfter : ¬ k < j := fun after => harmless ⟨after, carries⟩
      have before : j < k := by omega
      exact Stream.hi_le_lo before
  · exact next ▸ pending

private theorem arrives_cons_away {a : FeedSource × Fin s.packets.length} {rest : Arrivals s}
    (other : a.2 ≠ k) :
    (∃ source, (source, k) ∈ a :: rest) ↔ ∃ source, (source, k) ∈ rest := by
  constructor
  · rintro ⟨source, member⟩
    rcases List.mem_cons.mp member with equal | member
    · exact absurd (congrArg Prod.snd equal).symm other
    · exact ⟨source, member⟩
  · rintro ⟨source, member⟩
    exact ⟨source, List.mem_cons_of_mem a member⟩

/-- As long as packet `k` is not passed, its messages are emitted exactly when it arrives
without being overtaken. -/
private theorem emitted_iff_of_pending (member : m ∈ (s.packet k).payload) (fh : FeedHandler)
    (boundary : AtBoundary s fh) (pending : fh.nextSeq s.id ≤ (s.packet k).lo)
    (arrivals : Arrivals s) :
    m ∈ emitted fh arrivals ↔ (∃ source, (source, k) ∈ arrivals) ∧ ¬ Overtaken k arrivals := by
  have inside := (s.packet k).seqNo_mem (Packet.mem_messages member)
  -- on the arrivals, as long as the packet can still come in time
  induction arrivals generalizing fh with
  | nil => simp [emitted, FeedHandler.run]
  | cons a rest ih =>
    obtain ⟨boundary', cases⟩ := arrival_cases boundary a.1 a.2
    have width := (s.packet a.2).hi_eq
    rw [emitted_cons, List.mem_append]
    by_cases here : a.2 = k
    · -- the first copy of the packet itself
      have taken : m ∈ (fh.onPacket a.1 (s.packet a.2).data).2 := by
        rcases cases with ⟨_, out, _⟩ | ⟨_, seen, _, _⟩
        · rwa [out, here]
        · rw [here] at seen
          omega
      have arrives : ∃ source, (source, k) ∈ a :: rest :=
        ⟨a.1, List.mem_cons.mpr (.inl (Prod.ext rfl here.symm))⟩
      have safe : ¬ Overtaken k (a :: rest) := fun overtaken => overtaken.1 here
      exact iff_of_true (.inl taken) ⟨arrives, safe⟩
    · -- another packet: it may pass this one, but emits none of its messages
      have elsewhere : m ∉ (fh.onPacket a.1 (s.packet a.2).data).2 := by
        rcases cases with ⟨_, out, _⟩ | ⟨_, _, out, _⟩ <;> rw [out]
        · exact fun there => here (Stream.payload_disjoint member there).symm
        · exact List.not_mem_nil
      rw [arrives_cons_away here]
      by_cases overtakes : k < a.2 ∧ (s.packet a.2).messages ≠ []
      · have lost := not_emitted_of_passed member _ boundary'
          (passed_of_later boundary overtakes.1 overtakes.2) rest
        simp [elsewhere, lost, Overtaken, here, overtakes]
      · have pending' := ih _ boundary' (pending_of_not_later boundary pending here overtakes)
        simp [elsewhere, Overtaken, here, overtakes, pending']

/-- A delivered message is emitted exactly when its packet is not overtaken. -/
theorem Delivery.emitted_iff (d : Delivery s) (member : m ∈ (s.packet k).payload) :
    m ∈ emitted {} d.arrivals ↔ ¬ Overtaken k d.arrivals := by
  rw [emitted_iff_of_pending member {} (.inl rfl) (Nat.zero_le _)]
  exact and_iff_right (d.covered k)

/-- Number of the first message that is delivered at all. -/
def Delivery.firstSeq (d : Delivery s) : Option Nat :=
  (d.arrivals.find? fun a => (s.packet a.2).messages ≠ []).map fun a => (s.packet a.2).lo

end Run

/-- Redundancy loses nothing exactly when no packet with messages to hand on first arrives
behind a later packet that carries messages. -/
theorem redundancy_complete_iff (s : Stream) (d : Delivery s) :
    (∀ k, ∀ m ∈ (s.packet k).payload, (∃ first ∈ d.firstSeq, first ≤ m.seqNo) →
      m ∈ emitted {} d.arrivals) ↔
    ∀ k, (∃ m ∈ (s.packet k).payload, ∃ first ∈ d.firstSeq, first ≤ m.seqNo) →
      ¬ Overtaken k d.arrivals := by
  constructor
  · rintro complete k ⟨m, member, started⟩
    exact (d.emitted_iff member).mp (complete k m member started)
  · intro inTime k m member started
    exact (d.emitted_iff member).mpr (inTime k ⟨m, member, started⟩)

/-- A packet on stream 5 with one order cancel for token 7. -/
private def cancelBytes (seqNo : UInt8) : List UInt8 :=
  [5, 0, seqNo, 0, 0, 0, 0, 0, 0, 0, 1, 0, 0, 0, 0, 0, 0, 0, 0,
    88, seqNo, 0, 0, 0, 0, 0, 0, 0, 7, 0, 0, 0]

private def cancelPacket1 : Packet :=
  ⟨cancelBytes 1, ⟨5, 1, 1, 0⟩, ⟨by decide, by decide⟩, by decide⟩

private def cancelPacket2 : Packet :=
  ⟨cancelBytes 2, ⟨5, 2, 1, 0⟩, ⟨by decide, by decide⟩, by decide⟩

private def cancelPacket3 : Packet :=
  ⟨cancelBytes 3, ⟨5, 3, 1, 0⟩, ⟨by decide, by decide⟩, by decide⟩

private def threeCancels : Stream where
  id := 5
  packets := [cancelPacket1, cancelPacket2, cancelPacket3]
  same := by decide
  contiguous := by simp [cancelPacket1, cancelPacket2, cancelPacket3, Packet.lo, Packet.hi]

/-- The primary source loses the second packet; the secondary source delivers everything,
but only after the primary has delivered the third. -/
private def laggingSecondary : Delivery threeCancels where
  arrivals := [(.primary, ⟨0, by decide⟩), (.primary, ⟨2, by decide⟩),
    (.secondary, ⟨0, by decide⟩), (.secondary, ⟨1, by decide⟩), (.secondary, ⟨2, by decide⟩)]
  inOrder := by intro source; cases source <;> decide
  covered := by intro i; exact ⟨.secondary, by revert i; decide⟩

theorem lagging_source_loses_message :
    ∃ s : Stream, ∃ d : Delivery s, ∃ k, ∃ m ∈ (s.packet k).payload,
      (∃ first ∈ d.firstSeq, first ≤ m.seqNo) ∧ m ∉ emitted {} d.arrivals := by
  refine ⟨threeCancels, laggingSecondary, ⟨1, by decide⟩,
    { type := 88, streamId := 5, seqNo := 2, orderNo := 2, token := 7 }, by decide +kernel,
    ⟨1, by decide +kernel, by decide⟩, by decide +kernel⟩

end NseHft
