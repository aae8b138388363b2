import NseHft.FeedHandler.Redundancy
import NseHft.OrderBook.BookManager

/-!
# From the feed to the books

The feed handler numbers the messages of a stream, the books check that the numbers they
see follow each other. A book only sees the messages of its own token, so it reports a
gap whenever anything else, a heartbeat included, was sent in between.
-/
namespace NseHft

open FixedWidth

/-- Routing the emitted events one after the other: the result of each with the books
after it. -/
def routeAll (fuel : Nat) : BookManager → List MarketEvent → Option (List (BookResult × BookManager))
  | _, [] => some []
  | bm, ev :: rest => do
    let (result, bm) ← bm.route fuel ev
    let log ← routeAll fuel bm rest
    some ((result, bm) :: log)

/-- No book has noticed a gap. -/
def Undisturbed (bm : BookManager) : Prop :=
  ∀ token book, bm.getBook token = some book → book.gapCount = 0 ∧ book.stale = false

/-- The numbered messages of a token among these events. -/
def numberedFor (token : Nat) (events : List MarketEvent) : List MarketEvent :=
  events.filter fun ev => ev.token = token ∧ ev.seqNo ≠ 0

/-- Sequence numbers without a hole. -/
def Consecutive (events : List MarketEvent) : Prop :=
  events.IsChain fun ev next => next.seqNo = ev.seqNo + 1

/-- The events go on from the number a book expects, if it expects one. -/
def Follows (expectedSeq : Nat) (events : List MarketEvent) : Prop :=
  (∀ first ∈ events.head?, expectedSeq = 0 ∨ first.seqNo = expectedSeq) ∧ Consecutive events

theorem follows_cons (expectedSeq : Nat) (ev : MarketEvent) (rest : List MarketEvent) :
    Follows expectedSeq (ev :: rest) ↔
      (expectedSeq = 0 ∨ ev.seqNo = expectedSeq) ∧ Follows (ev.seqNo + 1) rest := by
  cases rest with
  | nil => simp [Follows, Consecutive]
  | cons next rest => simp [Follows, Consecutive, List.isChain_cons_cons]

theorem numberedFor_cons_here {ev : MarketEvent} {rest : List MarketEvent}
    (numbered : ev.seqNo ≠ 0) :
    numberedFor ev.token (ev :: rest) = ev :: numberedFor ev.token rest := by
  simp [numberedFor, numbered]

theorem numberedFor_cons_unnumbered {ev : MarketEvent} {rest : List MarketEvent} {token : Nat}
    (zero : ev.seqNo = 0) : numberedFor token (ev :: rest) = numberedFor token rest := by
  simp [numberedFor, zero]

theorem numberedFor_cons_away {ev : MarketEvent} {rest : List MarketEvent} {token : Nat}
    (other : token ≠ ev.token) : numberedFor token (ev :: rest) = numberedFor token rest := by
  simp [numberedFor, Ne.symm other]

/-- For every watched token the numbered messages go on from the number its book expects. -/
def BooksFollow (bm : BookManager) (events : List MarketEvent) : Prop :=
  ∀ token book, bm.getBook token = some book →
    Follows book.expectedSeq (numberedFor token events)

section Routing

variable {bm bm' : BookManager} {ev : MarketEvent} {fuel : Nat} {result : BookResult}
  {book book' : OrderBook}

/-- What an event that meets the expected number does to the sequence state. -/
private theorem applyEvent_met (ok : book.Ok)
    (clean : book.gapCount = 0 ∧ book.stale = false)
    (returned : book.applyEvent fuel ev = some (result, book')) (met : ¬ book.SeqGap ev) :
    result ≠ .gap ∧ book'.gapCount = 0 ∧ book'.stale = false ∧
      book'.expectedSeq = if ev.seqNo ≠ 0 then u64 (ev.seqNo + 1) else book.expectedSeq := by
  obtain ⟨gaps, expected, stale⟩ := OrderBook.applyEvent_sequence ok.table returned
  rw [OrderBook.trackSeq_of_no_gap met] at gaps expected stale
  refine ⟨?_, gaps.trans clean.1, ?_, expected⟩
  · rw [ne_eq, OrderBook.applyEvent_gap_iff returned]
    exact fun gap => met gap.1
  · rw [stale]
    split
    · rfl
    · exact clean.2

/-- A missed number shows in the result or in the gap counter. -/
private theorem applyEvent_missed (ok : book.Ok) (clean : book.gapCount = 0)
    (returned : book.applyEvent fuel ev = some (result, book')) (missed : book.SeqGap ev) :
    book'.gapCount ≠ 0 := by
  obtain ⟨gaps, _⟩ := OrderBook.applyEvent_sequence ok.table returned
  have condition : book.expectedSeq ≠ 0 ∧ ev.seqNo ≠ book.expectedSeq := missed.2
  rw [gaps, OrderBook.trackSeq, if_pos missed.1, if_pos condition, clean]
  exact (by decide : u64 (0 + 1) ≠ 0)

/-- A met number moves the expectation from the event to the rest. -/
private theorem follows_met (small : ev.seqNo + 1 < 2 ^ 64) (met : ¬ book.SeqGap ev)
    (expected : book'.expectedSeq = if ev.seqNo ≠ 0 then u64 (ev.seqNo + 1) else book.expectedSeq)
    (rest : List MarketEvent) :
    Follows book'.expectedSeq (numberedFor ev.token rest) ↔
      Follows book.expectedSeq (numberedFor ev.token (ev :: rest)) := by
  rw [expected]
  split
  next numbered =>
    have next : book.expectedSeq = 0 ∨ ev.seqNo = book.expectedSeq := by
      by_contra neither
      push Not at neither
      exact met ⟨numbered, neither⟩
    rw [numberedFor_cons_here numbered, follows_cons, u64_eq_self _ small]
    exact (and_iff_right next).symm
  next unnumbered => rw [numberedFor_cons_unnumbered (by simpa using unnumbered)]

/-- The books of the other tokens expect what they expected before. -/
private theorem booksFollow_congr {rest : List MarketEvent}
    (others : ∀ token, token ≠ ev.token → bm'.getBook token = bm.getBook token)
    (here : (∀ book, bm'.getBook ev.token = some book →
        Follows book.expectedSeq (numberedFor ev.token rest)) ↔
      ∀ book, bm.getBook ev.token = some book →
        Follows book.expectedSeq (numberedFor ev.token (ev :: rest))) :
    BooksFollow bm' rest ↔ BooksFollow bm (ev :: rest) := by
  constructor
  · intro follow token book found
    by_cases same : token = ev.token
    · subst same
      exact here.mp (follow _) book found
    · rw [numberedFor_cons_away same]
      exact follow token book (others token same ▸ found)
  · intro follow token book found
    by_cases same : token = ev.token
    · subst same
      exact here.mpr (follow _) book found
    · rw [← numberedFor_cons_away same]
      exact follow token book (others token same ▸ found)

/-- One event: either it is met, nothing is noticed and the rest has to follow; or it is
missed, its book notices, and the events did not follow. -/
private theorem route_step (small : ev.seqNo + 1 < 2 ^ 64) (ok : bm.Ok) (clean : Undisturbed bm)
    (routed : bm.route fuel ev = some (result, bm')) (rest : List MarketEvent) :
    (result ≠ .gap ∧ Undisturbed bm' ∧ (BooksFollow bm' rest ↔ BooksFollow bm (ev :: rest))) ∨
      (¬ Undisturbed bm' ∧ ¬ BooksFollow bm (ev :: rest)) := by
  rcases BookManager.route_cases routed with
    ⟨unwatched, rfl, rfl⟩ | ⟨book, book', before, applied, after, others⟩
  · -- skipped: no book sees the event
    refine .inl ⟨by simp, clean, booksFollow_congr (fun _ _ => rfl) ?_⟩
    simp [unwatched]
  · by_cases missed : book.SeqGap ev
    · right
      constructor
      · intro clean'
        exact applyEvent_missed (ok _ _ before) (clean _ _ before).1 applied missed
          (clean' _ _ after).1
      · intro follow
        have here := follow _ _ before
        rw [numberedFor_cons_here missed.1, follows_cons] at here
        exact here.1.elim missed.2.1 missed.2.2
    · obtain ⟨noGap, gaps, fresh, expected⟩ :=
        applyEvent_met (ok _ _ before) (clean _ _ before) applied missed
      refine .inl ⟨noGap, ?_, booksFollow_congr others ?_⟩
      · intro token other found
        by_cases here : token = ev.token
        · rw [here, after] at found
          exact Option.some.inj found ▸ ⟨gaps, fresh⟩
        · exact clean token other (others token here ▸ found)
      · simpa [before, after] using follows_met small missed expected rest

/-- The books notice no gap exactly when for each of them the numbered messages go on from
the number it expects. -/
theorem routeAll_undisturbed_iff (events : List MarketEvent)
    (small : ∀ ev ∈ events, ev.seqNo + 1 < 2 ^ 64) (bm : BookManager) (ok : bm.Ok)
    (clean : Undisturbed bm) (log : List (BookResult × BookManager))
    (returned : routeAll fuel bm events = some log) :
    (∀ entry ∈ log, entry.1 ≠ .gap ∧ Undisturbed entry.2) ↔ BooksFollow bm events := by
  induction events generalizing bm log with
  | nil =>
    cases returned
    simp [BooksFollow, numberedFor, Follows, Consecutive]
  | cons ev rest ih =>
    simp only [routeAll, Option.bind_eq_bind, Option.bind_eq_some_iff, Option.some.injEq,
      Prod.exists] at returned
    obtain ⟨result, bm', routed, log', remaining, rfl⟩ := returned
    rw [List.forall_mem_cons] at small ⊢
    -- the invariant of the induction is that no book has noticed anything so far
    rcases route_step small.1 ok clean routed rest with ⟨noGap, clean', follow⟩ | ⟨noticed, breaks⟩
    · rw [ih small.2 bm' (bm.route_ok ok routed) clean' log' remaining, follow]
      exact and_iff_right ⟨noGap, clean'⟩
    · exact iff_of_false (fun all => noticed all.1.2) breaks

end Routing

/-- A stream that arrives in order is handed on completely. -/
theorem run_in_order (id : Nat) (deliveries : List (FeedSource × Packet))
    (same : ∀ d ∈ deliveries, d.2.hdr.streamId = id)
    (contiguous : (deliveries.map Prod.snd).IsChain fun p q => q.lo = p.hi) (fh : FeedHandler)
    (start : ∀ d ∈ deliveries.head?, fh.nextSeq id ≤ d.2.lo) :
    (fh.run (deliveries.map fun d => (d.1, d.2.data))).2 =
      (deliveries.map Prod.snd).flatMap Packet.payload := by
  induction deliveries generalizing fh with
  | nil => rfl
  | cons d rest ih =>
    have here : d.2.hdr.streamId = id := same d (List.mem_cons_self)
    obtain ⟨out, next⟩ := fh.onPacket_fresh d.1 d.2 (here ▸ start d rfl)
    rw [here] at next
    simp only [List.map_cons, FeedHandler.run, List.flatMap_cons, out]
    rw [ih (fun d member => same d (List.mem_cons_of_mem _ member)) contiguous.tail]
    -- the next packet starts where this one ends
    intro following head
    cases rest with
    | nil => cases head
    | cons e rest =>
      cases head
      rw [List.map_cons, List.map_cons, List.isChain_cons_cons] at contiguous
      have width := d.2.hi_eq
      have before := start d rfl
      rw [next, contiguous.1]
      split <;> omega

/-- A gap-free stream disturbs no watched book exactly when the numbered messages of each
watched token are consecutive in the stream. -/
theorem books_undisturbed_iff_consecutive (tokens : List (Nat × Int × Nat)) (s : Stream)
    (deliveries : List (FeedSource × Packet)) (inOrder : deliveries.map Prod.snd = s.packets)
    (fuel : Nat) (log : List (BookResult × BookManager))
    (returned : routeAll fuel (.watching tokens)
      (FeedHandler.run {} (deliveries.map fun d => (d.1, d.2.data))).2 = some log) :
    (∀ entry ∈ log, entry.1 ≠ .gap ∧ ∀ token book, entry.2.getBook token = some book →
      book.gapCount = 0 ∧ book.stale = false) ↔
    ∀ token book, (BookManager.watching tokens).getBook token = some book →
      Consecutive (numberedFor token (s.packets.flatMap Packet.payload)) := by
  have same : ∀ d ∈ deliveries, d.2.hdr.streamId = s.id := fun d member =>
    s.same _ (inOrder ▸ List.mem_map_of_mem member)
  have untouched := BookManager.watching_untouched tokens
  rw [run_in_order s.id deliveries same (inOrder ▸ s.contiguous) {} (fun _ _ => Nat.zero_le _),
    inOrder] at returned
  have small : ∀ ev ∈ s.packets.flatMap Packet.payload, ev.seqNo + 1 < 2 ^ 64 := by
    intro ev member
    obtain ⟨p, _, inPacket⟩ := List.mem_flatMap.mp member
    have bound : p.hi < 2 ^ 64 := p.noWrap
    have inside := p.seqNo_mem (Packet.mem_messages inPacket)
    omega
  have iff := routeAll_undisturbed_iff _ small (.watching tokens)
    (fun token book found => (untouched token book found).ok)
    (fun token book found => ⟨(untouched token book found).gapCount, (untouched token book found).fresh⟩)
    log returned
  -- a fresh book expects no number, so only the order of its messages counts
  refine iff.trans (forall₃_congr fun token book found => ?_)
  simp [Follows, (untouched token book found).expectedSeq]

/-- A packet on stream 5 that starts at number 1. -/
private def packetBytes (count : UInt8) (messages : List UInt8) : List UInt8 :=
  [5, 0, 1, 0, 0, 0, 0, 0, 0, 0, count, 0, 0, 0, 0, 0, 0, 0, 0] ++ messages

/-- An order cancel for token 7. -/
private def cancelFor7 (orderNo : UInt8) : List UInt8 :=
  [88, orderNo, 0, 0, 0, 0, 0, 0, 0, 7, 0, 0, 0]

private def twoCancels : Packet :=
  ⟨packetBytes 2 (cancelFor7 1 ++ cancelFor7 2), ⟨5, 1, 2, 0⟩, ⟨by decide, by decide⟩, by decide⟩

/-- The same messages with a heartbeat in between. -/
private def heartbeatBetween : Packet :=
  ⟨packetBytes 3 (cancelFor7 1 ++ [72] ++ cancelFor7 2), ⟨5, 1, 3, 0⟩, ⟨by decide, by decide⟩,
    by decide⟩

private def onePacket (p : Packet) (id : p.hdr.streamId = 5) : Stream :=
  ⟨5, [p], by simpa using id, List.isChain_singleton p⟩

theorem books_undisturbed_iff_consecutive_two_cancels :
    ∃ log, routeAll 0 (.watching [(7, 5, 4)])
        (FeedHandler.run {} [(.primary, twoCancels.data)]).2 = some log ∧ log.length = 2 ∧
      ∀ entry ∈ log, entry.1 ≠ .gap ∧ ∀ token book, entry.2.getBook token = some book →
        book.gapCount = 0 ∧ book.stale = false := by
  refine ⟨_, rfl, rfl, ?_⟩
  refine (books_undisturbed_iff_consecutive [(7, 5, 4)] (onePacket twoCancels rfl)
    [(.primary, twoCancels)] rfl 0 _ rfl).mpr ?_
  intro token book _
  have events : (onePacket twoCancels rfl).packets.flatMap Packet.payload =
      [{ type := 88, streamId := 5, seqNo := 1, orderNo := 1, token := 7 },
        { type := 88, streamId := 5, seqNo := 2, orderNo := 2, token := 7 }] := by decide +kernel
  rw [events]
  by_cases here : 7 = token <;> simp [Consecutive, numberedFor, here]

/-- One token and one heartbeat: the book reports a gap on a stream without any. -/
theorem heartbeat_disturbs_book :
    ∃ (s : Stream) (log : List (BookResult × BookManager)),
      routeAll 0 (.watching [(7, 5, 4)])
        (FeedHandler.run {} (s.packets.map fun p => (.primary, p.data))).2 = some log ∧
      ∃ entry ∈ log, entry.1 = .gap ∧ ∃ book, entry.2.getBook 7 = some book ∧
        book.gapCount = 1 ∧ book.stale = true := by
  refine ⟨onePacket heartbeatBetween rfl, _, rfl, ?_⟩
  exact ⟨_, List.mem_cons_of_mem _ List.mem_cons_self, rfl, _, rfl, rfl, rfl⟩

end NseHft
