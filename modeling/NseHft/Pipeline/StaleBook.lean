import NseHft.OrderBook.FailedEvents
import NseHft.Pipeline.Pipeline

/-!
# Trading on a stale book

`process` drops the result of `apply_event` and nobody asks the book whether it is stale. What
keeps orders from going out on a stale book is that the strategy has none due, or a kill
switch.
-/
namespace NseHft.Pipeline

open FixedWidth

/-- An event that leaves its book stale leaves the strategy with the orders that were due
before. -/
theorem offered_stale {A : Arithmetic} {p : Pipeline} {fuel : Nat} {clock : ClockReadings}
    {ev : MarketEvent} {book book' : OrderBook} {result : BookResult}
    (found : p.books.getBook ev.token = some book) (after : book.StaleAfter ev)
    (applied : book.applyEvent fuel ev = some (result, book')) :
    p.offered A fuel clock ev = p.strat.dueOrders A (p.strat.now clock.quote) ev.token book := by
  obtain ⟨bids, asks, _⟩ := after.sameContent applied
  rw [offered_eq found applied]
  apply MarketMaking.dueOrders_congr
  · rw [OrderBook.bestBid, OrderBook.bestBid, bids]
  · rw [OrderBook.bestAsk, OrderBook.bestAsk, asks]

/-- In every run, no order goes out for a book that is stale after the event, if the event
does not leave the book stale, or the strategy has nothing due on the book as it stands before
the call, or the kill switch is on. -/
theorem stale_book_untraded (A : Arithmetic) (s : Setup) (p p' : Pipeline) (fuel : Nat)
    (clock : ClockReadings) (ev : MarketEvent) (sent : List SentOrder) (book : OrderBook)
    (run : Run A s p) (watched : p.books.getBook ev.token = some book)
    (guarded : book.StaleAfter ev →
      p.strat.dueOrders A (p.strat.now clock.quote) ev.token book = [] ∨
        p.risk.killSwitchActive = true)
    (returned : p.process A fuel clock ev = some (sent, p')) :
    ∀ after, p'.books.getBook ev.token = some after → after.stale = true → sent.length = 0 := by
  intro after present stale
  rcases process_cases returned with
    ⟨unwatched, _, _, _, _⟩ | ⟨result, before, after', q, found, applied, found', loop, strat, risk, _⟩
  · rw [unwatched] at watched
    cases watched
  obtain rfl : before = book := Option.some.inj (found.symm.trans watched)
  obtain rfl : after = after' := Option.some.inj (present.symm.trans found')
  have waiting := (OrderBook.applyEvent_stale_iff (run.books_ok _ _ found).table applied).mp stale
  rw [List.length_eq_zero_iff, (Prod.mk.inj loop).1]
  rcases guarded waiting with nothing | killed
  · have pending : q.strat.pending = [] := by
      rw [strat, MarketMaking.onBookUpdate_pending, ← offered_eq found applied,
        offered_stale found waiting applied, nothing]
    rw [pending]
    rfl
  · refine (sendOrders_killed ?_).1
    rw [risk, referenced, RiskManager.updateReference_killSwitchActive, killed]

/-- A message two numbers after the snapshot. -/
private def gap : MarketEvent :=
  { token := 7, type := MtbtMsgType.orderCancel.code, orderNo := 5, seqNo := 3 }

/-- Quoted at 10:00 IST. -/
private def quoted : Pipeline := (atTen.processed (touch 7 1 10000)).2

private theorem quoted_run : Run .wrapping (.watching [(7, 1, 4)]) quoted :=
  .process (Run.setNow 36000000000000 .fresh) (processed_eq (by decide +kernel))

private def bookOfSeven (p : Pipeline) : OrderBook := (p.books.getBook 7).getD (.new 7 1 4)

private theorem bookOfSeven_eq {p : Pipeline} (watched : (p.books.getBook 7).isSome = true) :
    p.books.getBook 7 = some (bookOfSeven p) := by
  obtain ⟨book, same⟩ := Option.isSome_iff_exists.mp watched
  rw [bookOfSeven, same]
  rfl

/-- Within their time to live the quotes stand, so nothing is due when the gap shows. -/
theorem stale_book_untraded_standing :
    (bookOfSeven (quoted.processed gap).2).stale = true ∧ (quoted.processed gap).1.length = 0 := by
  have stale : (bookOfSeven (quoted.processed gap).2).stale = true := by decide +kernel
  have standing : quoted.strat.dueOrders .wrapping (quoted.strat.now 0) 7 (bookOfSeven quoted) = [] := by
    decide +kernel
  exact ⟨stale, stale_book_untraded .wrapping _ quoted _ 8 stillClock gap _ (bookOfSeven quoted)
    quoted_run (bookOfSeven_eq (by decide +kernel)) (fun _ => .inl standing)
    (processed_eq (by decide +kernel)) _ (bookOfSeven_eq (by decide +kernel)) stale⟩

/-- A millisecond later the quotes have expired, and both sides are quoted anew on the book
that has just missed an update. -/
theorem stale_book_traded :
    ∃ p p' sent book, Run .wrapping (.watching [(7, 1, 4)]) p ∧
      p.process .wrapping 8 stillClock gap = some (sent, p') ∧
      p'.books.getBook gap.token = some book ∧ book.stale = true ∧ sent.length = 2 :=
  ⟨quoted.setNow 36000001000000, _, _, _, .setNow _ quoted_run, processed_eq (by decide +kernel),
    bookOfSeven_eq (by decide +kernel), by decide +kernel, by decide +kernel⟩

end NseHft.Pipeline
