import NseHft.FeedHandler.Sequencing
import NseHft.Lib.Machine
import NseHft.Pipeline.Accounting

/-!
# Streams and tokens apart

The feed handler keeps one record for each stream and the pipeline one book for each token. A
packet only reaches the record of its stream and an event only the book of its token, so what
else comes in, well-formed or not, has no part in what a book shows.
-/
namespace NseHft

open FixedWidth

/-! ### Streams -/

namespace FeedHandler

/-- The stream whose record a buffer reaches. -/
def streamOf (data : List UInt8) : Option Nat :=
  match parseHeader data with
  | none => none
  | some hdr => if hdr.streamId ≥ kMaxStreams then none else some hdr.streamId

/-- What a buffer does to the record of its stream, and what is emitted. -/
def onStream (st : StreamStats) (data : List UInt8) : StreamStats × List MarketEvent :=
  match parseHeader data with
  | none => (st, [])
  | some hdr =>
    if st.nextSeq ≠ 0 ∧ u64 (hdr.seqNo + hdr.msgCount) ≤ st.nextSeq then
      ({ st with duplicates := u64 (st.duplicates + hdr.msgCount) }, [])
    else
      ({ st with packets := u64 (st.packets + 1) } : StreamStats).acceptAll
        (packetMessages data hdr)

variable {fh : FeedHandler} {id : Nat} {source : FeedSource} {data : List UInt8}

/-- A buffer of another stream, or of none, does not reach the record and emits nothing on the
stream. -/
theorem onPacket_away (other : streamOf data ≠ some id) :
    (fh.onPacket source data).1.streams id = fh.streams id ∧
      (fh.onPacket source data).2.filter (fun ev => ev.streamId = id) = [] := by
  simp only [streamOf] at other
  simp only [onPacket]
  split
  · exact ⟨rfl, rfl⟩
  next hdr header =>
    simp only [header] at other
    split
    · exact ⟨rfl, rfl⟩
    next inside =>
      have differs : id ≠ hdr.streamId := by
        rintro rfl
        exact other (if_neg inside)
      split
      · exact ⟨Function.update_of_ne differs _ _, rfl⟩
      · simp only [messageLoop_eq]
        refine ⟨Function.update_of_ne differs _ _, List.filter_eq_nil_iff.mpr ?_⟩
        intro ev member
        have stamped := messagesFrom_streamId data hdr hdr.msgCount 0 kMtbtHeaderSize ev
          (StreamStats.acceptAll_mem member)
        simp [stamped, Ne.symm differs]

theorem onPacket_here (same : streamOf data = some id) :
    (fh.onPacket source data).1.streams id = (onStream (fh.streams id) data).1 ∧
      (fh.onPacket source data).2 = (onStream (fh.streams id) data).2 ∧
      ∀ ev ∈ (onStream (fh.streams id) data).2, ev.streamId = id := by
  cases header : parseHeader data with
  | none => simp [streamOf, header] at same
  | some hdr =>
    by_cases outside : hdr.streamId ≥ kMaxStreams
    · simp [streamOf, header, outside] at same
    · obtain rfl : hdr.streamId = id := by simpa [streamOf, header, outside] using same
      simp only [onPacket, onStream, header, if_neg outside]
      split
      · simp
      · simp only [messageLoop_eq, Function.update_self]
        refine ⟨rfl, rfl, fun ev member => ?_⟩
        exact messagesFrom_streamId data hdr hdr.msgCount 0 kMtbtHeaderSize ev
          (StreamStats.acceptAll_mem member)

/-- The record of a stream and what has been emitted on it. -/
abbrev OnStream := StreamStats × List MarketEvent

def feed (s : FeedHandler × List MarketEvent) (p : FeedSource × List UInt8) :
    Unit × (FeedHandler × List MarketEvent) :=
  ((), (s.1.onPacket p.1 p.2).1, s.2 ++ (s.1.onPacket p.1 p.2).2)

def feedStream (s : OnStream) (data : List UInt8) : Unit × OnStream :=
  ((), (onStream s.1 data).1, s.2 ++ (onStream s.1 data).2)

theorem run_eq_after (out : List MarketEvent) (packets : List (FeedSource × List UInt8)) :
    Machine.after feed (fh, out) packets = ((fh.run packets).1, out ++ (fh.run packets).2) := by
  induction packets generalizing fh out with
  | nil => exact Prod.ext rfl (List.append_nil out).symm
  | cons p rest ih =>
    rw [Machine.after, feed, ih]
    simp only [run, List.append_assoc]

/-- The buffers that reach a stream, from whichever source. -/
def ofStream (id : Nat) (packets : List (FeedSource × List UInt8)) : List (List UInt8) :=
  packets.filterMap fun p => if streamOf p.2 = some id then some p.2 else none

/-- Among all others a stream counts and emits what it would alone. -/
theorem run_stream (fh : FeedHandler) (id : Nat) (packets : List (FeedSource × List UInt8)) :
    ((fh.run packets).1.streams id, (fh.run packets).2.filter fun ev => ev.streamId = id) =
      Machine.after feedStream (fh.streams id, []) (ofStream id packets) := by
  have whole : Machine.after feed (fh, []) packets = fh.run packets := run_eq_after [] packets
  rw [ofStream, ← whole]
  apply Machine.after_part _ fun s : FeedHandler × List MarketEvent =>
    ((s.1.streams id, s.2.filter fun ev => ev.streamId = id) : OnStream)
  · intro s p data sight
    split at sight
    next same =>
      obtain rfl := Option.some.inj sight
      obtain ⟨record, out, stamped⟩ := @onPacket_here s.1 id p.1 p.2 same
      have kept : (onStream (s.1.streams id) p.2).2.filter (fun ev => ev.streamId = id) =
          (onStream (s.1.streams id) p.2).2 := List.filter_eq_self.mpr (by simpa using stamped)
      simp only [feed, feedStream, record, List.filter_append, out, kept]
    · cases sight
  · intro s p sight
    split at sight
    · cases sight
    next other =>
      obtain ⟨record, silent⟩ := @onPacket_away s.1 id p.1 p.2 other
      simp only [feed, record, List.filter_append, silent, List.append_nil]

end FeedHandler

/-! ### Tokens -/

namespace Pipeline

variable (A : Arithmetic) (fuel : Nat)

inductive Call where
  | setNow (istNs : Nat)
  | process (clock : ClockReadings) (ev : MarketEvent)
  | onFill (fill : FillReport)

/-- A call and what it sends; `none` when the book does not return. -/
def perform (p : Pipeline) : Call → Option (List SentOrder × Pipeline)
  | .setNow istNs => some ([], p.setNow istNs)
  | .process clock ev => p.process A fuel clock ev
  | .onFill fill => some ([], p.onFill A fill)

def Call.event : Call → Option MarketEvent
  | .process _ ev => some ev
  | _ => none

/-- An event in a slot of the book table. -/
def applyTo (slot : Option OrderBook) (ev : MarketEvent) : Option (Unit × Option OrderBook) :=
  match slot with
  | none => some ((), none)
  | some book => (book.applyEvent fuel ev).map fun r => ((), some r.2)

/-- The event of the token that a call processes. -/
def Call.eventFor (token : Nat) : Call → Option MarketEvent
  | .process _ ev => if ev.token = token then some ev else none
  | _ => none

variable {A fuel} {p : Pipeline} {token : Nat} {r : List SentOrder × Pipeline}

theorem process_book {clock : ClockReadings} {ev : MarketEvent}
    (returned : p.process A fuel clock ev = some r) :
    (∃ answer, applyTo fuel (p.books.getBook ev.token) ev = some (answer, r.2.books.getBook ev.token)) ∧
      ∀ t, t ≠ ev.token → r.2.books.getBook t = p.books.getBook t := by
  obtain ⟨sent, p'⟩ := r
  rcases process_books returned with ⟨unwatched, same⟩ | ⟨book, result, book', found, applied, books⟩
  · refine ⟨⟨(), ?_⟩, fun t _ => congrArg (fun bm => bm.getBook t) same⟩
    simp only [same, unwatched, applyTo]
  · refine ⟨⟨(), ?_⟩, fun t other => ?_⟩
    · simp only [found, applyTo, applied, books ev.token, if_true, Option.map_some]
    · simp only [books t, if_neg other]

/-- What a book shows is made of the events of its token alone. -/
theorem performAll_book {p' : Pipeline} {calls : List Call}
    (returned : Machine.checkedAfter (perform A fuel) p calls = some p') (token : Nat) :
    Machine.checkedAfter (applyTo fuel) (p.books.getBook token)
      (calls.filterMap (Call.eventFor token)) = some (p'.books.getBook token) := by
  apply Machine.checkedAfter_part _ (fun p : Pipeline => p.books.getBook token) _ _ returned
  · intro p call ev r sight answered
    cases call with
    | process clock ev' =>
      simp only [Call.eventFor] at sight
      split at sight
      next same =>
        obtain rfl := Option.some.inj sight
        exact same ▸ (process_book answered).1
      · cases sight
    | setNow istNs => cases sight
    | onFill fill => cases sight
  · intro p call r sight answered
    cases call with
    | process clock ev =>
      simp only [Call.eventFor] at sight
      split at sight
      · cases sight
      next other => exact (process_book answered).2 token (Ne.symm other)
    | setNow istNs =>
      obtain rfl := Option.some.inj answered
      rfl
    | onFill fill =>
      obtain rfl := Option.some.inj answered
      rfl

theorem filterMap_eventFor (token : Nat) (calls : List Call) :
    calls.filterMap (Call.eventFor token) =
      (calls.filterMap Call.event).filter fun ev => ev.token = token := by
  rw [List.filter_filterMap]
  congr 1
  funext call
  cases call with
  | process clock ev => simp only [Call.eventFor, Call.event, Option.filter_some, decide_eq_true_eq]
  | setNow istNs => rfl
  | onFill fill => rfl

end Pipeline

/-- Two sessions whose packets agree on one stream, and that take in what their feed handlers emit:
a token that is only ever reported on that stream has the same book in both, whatever packets the
other streams carry, and whatever the setup is otherwise and fills and clocks do. -/
theorem book_isolated (A : Arithmetic) (fuel id token : Nat) (s s' : Pipeline.Setup)
    (packets packets' : List (FeedSource × List UInt8)) (calls calls' : List Pipeline.Call)
    (p p' : Pipeline)
    (watched : s.fresh.books.getBook token = s'.fresh.books.getBook token)
    (agree : FeedHandler.ofStream id packets = FeedHandler.ofStream id packets')
    (fed : calls.filterMap Pipeline.Call.event = (({} : FeedHandler).run packets).2)
    (fed' : calls'.filterMap Pipeline.Call.event = (({} : FeedHandler).run packets').2)
    (only : ∀ ev ∈ (({} : FeedHandler).run packets).2, ev.token = token → ev.streamId = id)
    (only' : ∀ ev ∈ (({} : FeedHandler).run packets').2, ev.token = token → ev.streamId = id)
    (returned : Machine.checkedAfter (Pipeline.perform A fuel) s.fresh calls = some p)
    (returned' : Machine.checkedAfter (Pipeline.perform A fuel) s'.fresh calls' = some p') :
    p.books.getBook token = p'.books.getBook token := by
  have onStream {packets : List (FeedSource × List UInt8)}
      (only : ∀ ev ∈ (({} : FeedHandler).run packets).2, ev.token = token → ev.streamId = id) :
      (({} : FeedHandler).run packets).2.filter (fun ev => ev.token = token) =
        ((({} : FeedHandler).run packets).2.filter fun ev => ev.streamId = id).filter
          fun ev => ev.token = token := by
    rw [List.filter_filter]
    apply List.filter_congr
    intro ev member
    by_cases same : ev.token = token
    · simp [same, only ev member same]
    · simp [same]
  have emitted : (({} : FeedHandler).run packets).2.filter (fun ev => ev.streamId = id) =
      (({} : FeedHandler).run packets').2.filter fun ev => ev.streamId = id := by
    have left := FeedHandler.run_stream {} id packets
    have right := FeedHandler.run_stream {} id packets'
    rw [agree, ← right] at left
    exact (Prod.mk.inj left).2
  have book := Pipeline.performAll_book returned token
  have book' := Pipeline.performAll_book returned' token
  rw [Pipeline.filterMap_eventFor, fed, onStream only, emitted, ← onStream only', ← fed',
    ← Pipeline.filterMap_eventFor, watched, book'] at book
  exact (Option.some.inj book).symm

/-- A cancel of order 9 of a token, numbered 1 on a stream. -/
private def cancelOn (id token : UInt8) : List UInt8 :=
  [id, 0, 1, 0, 0, 0, 0, 0, 0, 0, 1, 0, 0, 0, 0, 0, 0, 0, 0, 88, 9, 0, 0, 0, 0, 0, 0, 0, token, 0, 0, 0]

/-- The events that are emitted for some packets, processed one after the other. -/
private def emittedCalls (packets : List (FeedSource × List UInt8)) : List Pipeline.Call :=
  (({} : FeedHandler).run packets).2.map (.process Pipeline.stillClock)

private theorem emittedCalls_events (packets : List (FeedSource × List UInt8)) :
    (emittedCalls packets).filterMap Pipeline.Call.event = (({} : FeedHandler).run packets).2 := by
  rw [emittedCalls, List.filterMap_map]
  exact List.filterMap_some

private def quietPackets : List (FeedSource × List UInt8) := [(.primary, cancelOn 5 7)]

/-- A buffer cut short, a cancel of another token on another stream, and the same cancel. -/
private def busyPackets : List (FeedSource × List UInt8) :=
  [(.primary, [5, 0, 2]), (.secondary, cancelOn 6 9), (.secondary, cancelOn 5 7)]

theorem book_seven_isolated :
    ((Machine.checkedAfter (Pipeline.perform .wrapping 4) (Pipeline.Setup.watching [(7, 5, 2)]).fresh
        (emittedCalls quietPackets)).bind fun p => p.books.getBook 7) =
      (Machine.checkedAfter (Pipeline.perform .wrapping 4) (Pipeline.Setup.watching [(9, 5, 2), (7, 5, 2)]).fresh
        (emittedCalls busyPackets)).bind fun p => p.books.getBook 7 := by
  obtain ⟨p, returned⟩ := Option.isSome_iff_exists.mp (by decide +kernel :
    (Machine.checkedAfter (Pipeline.perform .wrapping 4) (Pipeline.Setup.watching [(7, 5, 2)]).fresh
      (emittedCalls quietPackets)).isSome = true)
  obtain ⟨p', returned'⟩ := Option.isSome_iff_exists.mp (by decide +kernel :
    (Machine.checkedAfter (Pipeline.perform .wrapping 4) (Pipeline.Setup.watching [(9, 5, 2), (7, 5, 2)]).fresh
      (emittedCalls busyPackets)).isSome = true)
  have same : (Pipeline.Setup.watching [(7, 5, 2)]).fresh.books.getBook 7 =
      (Pipeline.Setup.watching [(9, 5, 2), (7, 5, 2)]).fresh.books.getBook 7 := by
    simp [Pipeline.Setup.watching, Pipeline.Setup.fresh, BookManager.watching, BookManager.addToken,
      BookManager.getBook, kMaxTokens]
  rw [returned, returned']
  exact book_isolated .wrapping 4 5 7 _ _ quietPackets busyPackets _ _ p p' same (by decide +kernel)
    (emittedCalls_events _) (emittedCalls_events _) (by decide +kernel) (by decide +kernel) returned returned'

end NseHft
