import NseHft.FeedHandler.Redundancy

/-!
# Sequence numbers of a stream

Whatever buffers arrive, in whatever order, the handler moves forward along the numbers of a
stream: what it accepts and what it emits is strictly increasing, and its gap counter counts
the jumps.
-/
namespace NseHft

open FixedWidth

/-- How often a number exceeds the one before it by more than one. -/
def jumps : List Nat → Nat
  | first :: second :: rest => (if first + 1 < second then 1 else 0) + jumps (second :: rest)
  | _ => 0

theorem jumps_concat (earlier : List Nat) (last seq : Nat) :
    jumps (earlier ++ [last] ++ [seq]) =
      jumps (earlier ++ [last]) + if last + 1 < seq then 1 else 0 := by
  induction earlier with
  | nil => simp [jumps]
  | cons first rest ih =>
    cases rest with
    | nil => simp [jumps]
    | cons second rest =>
      simp only [List.cons_append, jumps] at ih ⊢
      omega

namespace StreamStats

/-- The message is taken for a copy of one that was accepted before. -/
def Seen (st : StreamStats) (seq : Nat) : Prop := st.nextSeq ≠ 0 ∧ seq < st.nextSeq

instance (st : StreamStats) (seq : Nat) : Decidable (st.Seen seq) :=
  inferInstanceAs (Decidable (_ ∧ _))

/-- The numbers of the messages that pass the duplicate check, heartbeats included. -/
def accepted : StreamStats → List MarketEvent → List Nat
  | _, [] => []
  | st, ev :: rest =>
    (if st.Seen ev.seqNo then [] else [ev.seqNo]) ++ (st.accept ev.seqNo ev).1.accepted rest

/-- The statistics of a stream agree with the numbers accepted and emitted on it so far. -/
structure Sequenced (st : StreamStats) (accepted emitted : List Nat) : Prop where
  next : (accepted = [] ∧ st.nextSeq = 0) ∨
    ∃ earlier last, accepted = earlier ++ [last] ∧ st.nextSeq = last + 1
  below : ∀ seq ∈ accepted, seq < st.nextSeq
  increasing : accepted.Pairwise (· < ·)
  sublist : emitted.Sublist accepted
  counted : st.gaps = jumps accepted
  small : st.nextSeq < 2 ^ 64
  fewer : st.gaps ≤ st.nextSeq

variable {st : StreamStats} {numbers emitted : List Nat} {ev : MarketEvent} {seq : Nat}

/-- Only the expected number and the gap counter matter. -/
theorem Sequenced.congr {st' : StreamStats} (sequenced : st.Sequenced numbers emitted)
    (next : st'.nextSeq = st.nextSeq) (gaps : st'.gaps = st.gaps) :
    st'.Sequenced numbers emitted := by
  obtain ⟨ends, below, increasing, sublist, counted, small, fewer⟩ := sequenced
  rw [← next] at ends below small fewer
  rw [← gaps] at counted fewer
  exact ⟨ends, below, increasing, sublist, counted, small, fewer⟩

theorem accept_seen (seen : st.Seen seq) :
    st.accept seq ev = ({ st with duplicates := u64 (st.duplicates + 1) }, []) :=
  if_pos seen

theorem accept_taken (new : ¬st.Seen seq) :
    (st.accept seq ev).1.nextSeq = u64 (seq + 1) ∧
      (st.accept seq ev).1.gaps =
        (if st.nextSeq ≠ 0 ∧ seq > st.nextSeq then u64 (st.gaps + 1) else st.gaps) ∧
      (st.accept seq ev).2 = if ev.msgType ≠ some .heartbeat then [ev] else [] := by
  simp only [Seen] at new
  rw [accept, if_neg new]
  dsimp only
  split_ifs <;> exact ⟨rfl, rfl, rfl⟩

/-- What the loop body does to a stream that agrees with its history. -/
theorem Sequenced.accept (sequenced : st.Sequenced numbers emitted)
    (noWrap : ev.seqNo + 1 < 2 ^ 64) :
    (st.accept ev.seqNo ev).1.Sequenced
      (numbers ++ if st.Seen ev.seqNo then [] else [ev.seqNo])
      (emitted ++ (st.accept ev.seqNo ev).2.map MarketEvent.seqNo) := by
  by_cases seen : st.Seen ev.seqNo
  · rw [accept_seen seen, if_pos seen, List.map_nil, List.append_nil, List.append_nil]
    exact sequenced.congr rfl rfl
  · obtain ⟨next, gaps, out⟩ := @accept_taken st ev ev.seqNo seen
    rw [u64_eq_self _ noWrap] at next
    have ahead : st.nextSeq ≤ ev.seqNo := by
      simp only [Seen] at seen
      omega
    -- the counter cannot wrap: there are fewer gaps than numbers
    have fewer := sequenced.fewer
    have exact_gaps : u64 (st.gaps + 1) = st.gaps + 1 := u64_eq_self _ (by omega)
    rw [if_neg seen]
    refine ⟨.inr ⟨numbers, ev.seqNo, rfl, next⟩, ?_, ?_, ?_, ?_, by omega, ?_⟩
    · -- every number is below the one expected next
      intro seq member
      rcases List.mem_append.mp member with old | new
      · have := sequenced.below seq old
        omega
      · rw [List.mem_singleton.mp new]
        omega
    · -- what is accepted lies ahead of everything before
      rw [List.pairwise_append]
      refine ⟨sequenced.increasing, List.pairwise_singleton _ _, ?_⟩
      intro old member new last
      rw [List.mem_singleton.mp last]
      exact Nat.lt_of_lt_of_le (sequenced.below old member) ahead
    · -- a heartbeat is accepted and not emitted
      rw [out]
      apply sequenced.sublist.append
      split_ifs
      · exact List.Sublist.refl _
      · exact List.nil_sublist _
    · -- the first number of a stream is no jump
      rw [gaps, sequenced.counted]
      rcases sequenced.next with ⟨rfl, unstarted⟩ | ⟨earlier, last, rfl, expected⟩
      · simp [unstarted, jumps]
      · rw [jumps_concat, ← sequenced.counted, exact_gaps]
        split_ifs <;> omega
    · rw [gaps, next, exact_gaps]
      split_ifs <;> omega

/-- The loop over a packet's messages. -/
theorem Sequenced.acceptAll (sequenced : st.Sequenced numbers emitted) (msgs : List MarketEvent)
    (noWrap : ∀ ev ∈ msgs, ev.seqNo + 1 < 2 ^ 64) :
    (st.acceptAll msgs).1.Sequenced (numbers ++ st.accepted msgs)
      (emitted ++ (st.acceptAll msgs).2.map MarketEvent.seqNo) := by
  induction msgs generalizing st numbers emitted with
  | nil => simpa [StreamStats.acceptAll, accepted] using sequenced
  | cons ev rest ih =>
    obtain ⟨first, others⟩ := List.forall_mem_cons.mp noWrap
    have next := ih (sequenced.accept first) others
    simpa only [StreamStats.acceptAll, accepted, List.map_append, List.append_assoc] using next

end StreamStats

/-! ### Whole packets -/

theorem messagesFrom_streamId (data : List UInt8) (hdr : MtbtHeader) (n i off : Nat) :
    ∀ ev ∈ messagesFrom data hdr n i off, ev.streamId = hdr.streamId := by
  induction n generalizing i off with
  | zero => simp [messagesFrom]
  | succ n ih =>
    simp only [messagesFrom]
    split
    · simp
    next ev consumed parsed =>
      rw [List.forall_mem_cons]
      exact ⟨(parseMessage_some parsed).2.1, ih (i + 1) (off + consumed)⟩

theorem messagesFrom_seqNo_lt (data : List UInt8) (hdr : MtbtHeader) (n i off : Nat)
    (noWrap : hdr.seqNo + (i + n) < 2 ^ 64) :
    ∀ ev ∈ messagesFrom data hdr n i off, ev.seqNo + 1 < 2 ^ 64 := by
  induction n generalizing i off with
  | zero => simp [messagesFrom]
  | succ n ih =>
    simp only [messagesFrom]
    split
    · simp
    next ev consumed parsed =>
      rw [List.forall_mem_cons]
      refine ⟨?_, ih (i + 1) (off + consumed) (by omega)⟩
      rw [(parseMessage_some parsed).1, u64_eq_self _ (by omega)]
      omega

theorem StreamStats.acceptAll_mem {st : StreamStats} {msgs : List MarketEvent} {ev : MarketEvent}
    (member : ev ∈ (st.acceptAll msgs).2) : ev ∈ msgs := by
  induction msgs generalizing st with
  | nil => cases member
  | cons first rest ih =>
    rcases List.mem_append.mp member with here | later
    · simp only [accept] at here
      split_ifs at here <;> simp_all
    · exact List.mem_cons_of_mem first (ih later)

namespace FeedHandler

/-- The numbers that a stream accepts from a buffer. -/
def acceptedFrom (fh : FeedHandler) (id : Nat) (data : List UInt8) : List Nat :=
  match parseHeader data with
  | none => []
  | some hdr =>
    let st := fh.streams hdr.streamId
    if hdr.streamId ≠ id ∨ hdr.streamId ≥ kMaxStreams ∨
        (st.nextSeq ≠ 0 ∧ u64 (hdr.seqNo + hdr.msgCount) ≤ st.nextSeq) then []
    else ({ st with packets := u64 (st.packets + 1) } : StreamStats).accepted
      (packetMessages data hdr)

/-- The numbers that a stream accepts from buffers that arrive one after the other. -/
def accepted (id : Nat) : FeedHandler → List (FeedSource × List UInt8) → List Nat
  | _, [] => []
  | fh, (source, data) :: rest =>
    fh.acceptedFrom id data ++ accepted id (fh.onPacket source data).1 rest

/-- The numbers of the events that belong to a stream. -/
def numbersOn (id : Nat) (events : List MarketEvent) : List Nat :=
  (events.filter fun ev => ev.streamId = id).map MarketEvent.seqNo

/-- No sequence number of the buffer reaches the end of the 64-bit range. -/
def NoWrap (data : List UInt8) : Prop :=
  ∀ hdr ∈ parseHeader data, hdr.seqNo + hdr.msgCount < 2 ^ 64

instance (data : List UInt8) : Decidable (NoWrap data) :=
  inferInstanceAs (Decidable (∀ hdr ∈ parseHeader data, _))

variable {fh : FeedHandler} {id : Nat} {numbers emitted : List Nat}

theorem numbersOn_same {events : List MarketEvent} (same : ∀ ev ∈ events, ev.streamId = id) :
    numbersOn id events = events.map MarketEvent.seqNo := by
  rw [numbersOn, List.filter_eq_self.mpr]
  simpa using same

theorem numbersOn_other {events : List MarketEvent} {other : Nat}
    (same : ∀ ev ∈ events, ev.streamId = other) (differs : other ≠ id) :
    numbersOn id events = [] := by
  rw [numbersOn, List.filter_eq_nil_iff.mpr, List.map_nil]
  intro ev member
  simp [same ev member, differs]

/-- What a buffer does to a stream: nothing but counting copies, or the loop body over some
messages of the stream. -/
theorem onPacket_stream (fh : FeedHandler) (id : Nat) (source : FeedSource) (data : List UInt8)
    (noWrap : NoWrap data) :
    ((∃ duplicates, (fh.onPacket source data).1.streams id =
        { fh.streams id with duplicates := duplicates }) ∧
      fh.acceptedFrom id data = [] ∧ numbersOn id (fh.onPacket source data).2 = []) ∨
    ∃ (packets : Nat) (msgs : List MarketEvent), (∀ ev ∈ msgs, ev.seqNo + 1 < 2 ^ 64) ∧
      let st : StreamStats := { fh.streams id with packets := packets }
      (fh.onPacket source data).1.streams id = (st.acceptAll msgs).1 ∧
      fh.acceptedFrom id data = st.accepted msgs ∧
      numbersOn id (fh.onPacket source data).2 = (st.acceptAll msgs).2.map MarketEvent.seqNo := by
  unfold onPacket acceptedFrom
  cases header : parseHeader data with
  | none => exact .inl ⟨⟨_, rfl⟩, rfl, rfl⟩
  | some hdr =>
    have small := noWrap hdr header
    by_cases outside : hdr.streamId ≥ kMaxStreams
    · dsimp only
      rw [if_pos outside, if_pos (.inr (.inl outside))]
      exact .inl ⟨⟨_, rfl⟩, rfl, rfl⟩
    by_cases covered : (fh.streams hdr.streamId).nextSeq ≠ 0 ∧
        u64 (hdr.seqNo + hdr.msgCount) ≤ (fh.streams hdr.streamId).nextSeq
    · -- the packet was seen: only the duplicate counter moves
      dsimp only
      rw [if_neg outside, if_pos covered, if_pos (.inr (.inr covered))]
      refine .inl ⟨?_, rfl, rfl⟩
      by_cases here : hdr.streamId = id
      · subst here
        exact ⟨_, Function.update_self ..⟩
      · exact ⟨_, Function.update_of_ne (Ne.symm here) ..⟩
    · dsimp only
      rw [if_neg outside, if_neg covered]
      simp only [messageLoop_eq]
      have stamped := messagesFrom_streamId data hdr hdr.msgCount 0 kMtbtHeaderSize
      by_cases here : hdr.streamId = id
      · -- a packet of this stream that brings something new
        subst here
        have read : ¬(hdr.streamId ≠ hdr.streamId ∨ hdr.streamId ≥ kMaxStreams ∨
            ((fh.streams hdr.streamId).nextSeq ≠ 0 ∧
              u64 (hdr.seqNo + hdr.msgCount) ≤ (fh.streams hdr.streamId).nextSeq)) := by
          rintro (differs | large | seen)
          · exact differs rfl
          · exact outside large
          · exact covered seen
        rw [Function.update_self, if_neg read, numbersOn_same fun ev member =>
          stamped ev (StreamStats.acceptAll_mem member)]
        exact .inr ⟨_, _, messagesFrom_seqNo_lt data hdr hdr.msgCount 0 kMtbtHeaderSize (by omega),
          rfl, rfl, rfl⟩
      · -- a packet of another stream
        rw [Function.update_of_ne (Ne.symm here), if_pos (.inl here), numbersOn_other (fun ev member =>
          stamped ev (StreamStats.acceptAll_mem member)) here]
        exact .inl ⟨⟨_, rfl⟩, rfl, rfl⟩

theorem onPacket_sequenced (sequenced : (fh.streams id).Sequenced numbers emitted)
    (source : FeedSource) (data : List UInt8) (noWrap : NoWrap data) :
    ((fh.onPacket source data).1.streams id).Sequenced (numbers ++ fh.acceptedFrom id data)
      (emitted ++ numbersOn id (fh.onPacket source data).2) := by
  rcases onPacket_stream fh id source data noWrap with
    ⟨⟨_, same⟩, nothing, silent⟩ | ⟨packets, msgs, small, same, accepts, emits⟩
  · rw [same, nothing, silent, List.append_nil, List.append_nil]
    exact sequenced.congr rfl rfl
  · rw [same, accepts, emits]
    have counted : ({ fh.streams id with packets := packets } : StreamStats).Sequenced numbers
        emitted := sequenced.congr rfl rfl
    exact counted.acceptAll msgs small

theorem run_sequenced (sequenced : (fh.streams id).Sequenced numbers emitted)
    (packets : List (FeedSource × List UInt8)) (noWrap : ∀ p ∈ packets, NoWrap p.2) :
    ((fh.run packets).1.streams id).Sequenced (numbers ++ accepted id fh packets)
      (emitted ++ numbersOn id (fh.run packets).2) := by
  induction packets generalizing fh numbers emitted with
  | nil => simpa [run, accepted, numbersOn] using sequenced
  | cons packet rest ih =>
    obtain ⟨first, others⟩ := List.forall_mem_cons.mp noWrap
    have next := ih (onPacket_sequenced sequenced packet.1 packet.2 first) others
    simpa only [run, accepted, numbersOn, List.filter_append, List.map_append,
      List.append_assoc] using next

theorem fresh_sequenced (id : Nat) :
    (({} : FeedHandler).streams id).Sequenced [] [] :=
  ⟨.inl ⟨rfl, rfl⟩, by simp, .nil, .slnil, rfl, Nat.two_pow_pos 64, Nat.le_refl _⟩

theorem run_append (fh : FeedHandler) (earlier later : List (FeedSource × List UInt8)) :
    (fh.run (earlier ++ later)).1 = ((fh.run earlier).1.run later).1 := by
  induction earlier generalizing fh with
  | nil => rfl
  | cons packet rest ih => exact ih (fh.onPacket packet.1 packet.2).1

/-- A history that goes on ends at a number that is no smaller. -/
theorem nextSeq_le {st st' : StreamStats} {more emitted' : List Nat}
    (before : st.Sequenced numbers emitted) (after : st'.Sequenced (numbers ++ more) emitted') :
    st.nextSeq ≤ st'.nextSeq := by
  rcases before.next with ⟨_, unstarted⟩ | ⟨earlier, last, rfl, expected⟩
  · omega
  · have := after.below last (by simp)
    omega

/-- The numbers a stream accepts and those it emits are strictly increasing, so nothing is
emitted twice or out of order; the expected number never goes back, and the gap counter is
the number of jumps between accepted messages. -/
theorem stream_sequenced (packets : List (FeedSource × List UInt8))
    (noWrap : ∀ p ∈ packets, NoWrap p.2) (id : Nat) :
    (numbersOn id (({} : FeedHandler).run packets).2).Pairwise (· < ·) ∧
      (∀ earlier later, packets = earlier ++ later →
        (({} : FeedHandler).run earlier).1.nextSeq id ≤
          (({} : FeedHandler).run packets).1.nextSeq id) ∧
      ((({} : FeedHandler).run packets).1.streams id).gaps = jumps (accepted id {} packets) := by
  have sequenced := run_sequenced (fresh_sequenced id) packets noWrap
  refine ⟨sequenced.increasing.sublist sequenced.sublist, ?_, sequenced.counted⟩
  rintro earlier later rfl
  obtain ⟨first, second⟩ := List.forall_mem_append.mp noWrap
  have before := run_sequenced (fresh_sequenced id) earlier first
  rw [nextSeq, nextSeq, run_append]
  exact nextSeq_le before (run_sequenced before later second)

/-- Stream 5: a cancel numbered 1, its copy, a buffer cut short, and a packet with a heartbeat
numbered 4 in front of a cancel. -/
private def mixedFeed : List (FeedSource × List UInt8) :=
  [(.primary, [5, 0, 1, 0, 0, 0, 0, 0, 0, 0, 1, 0, 0, 0, 0, 0, 0, 0, 0,
      88, 9, 0, 0, 0, 0, 0, 0, 0, 7, 0, 0, 0]),
    (.secondary, [5, 0, 1, 0, 0, 0, 0, 0, 0, 0, 1, 0, 0, 0, 0, 0, 0, 0, 0,
      88, 9, 0, 0, 0, 0, 0, 0, 0, 7, 0, 0, 0]),
    (.primary, [5, 0, 2]),
    (.secondary, [5, 0, 4, 0, 0, 0, 0, 0, 0, 0, 2, 0, 0, 0, 0, 0, 0, 0, 0,
      72, 88, 9, 0, 0, 0, 0, 0, 0, 0, 7, 0, 0, 0])]

theorem mixed_feed_sequenced :
    (∀ p ∈ mixedFeed, NoWrap p.2) ∧ numbersOn 5 (({} : FeedHandler).run mixedFeed).2 = [1, 5] ∧
      accepted 5 {} mixedFeed = [1, 4, 5] ∧
      ((({} : FeedHandler).run mixedFeed).1.streams 5).gaps = jumps (accepted 5 {} mixedFeed) :=
  ⟨by decide +kernel, by decide +kernel, by decide +kernel,
    (stream_sequenced mixedFeed (by decide +kernel) 5).2.2⟩

end FeedHandler

end NseHft
