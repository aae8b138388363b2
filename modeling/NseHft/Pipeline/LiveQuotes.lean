import NseHft.FeedHandler.MtbtParser
import NseHft.Pipeline.Pipeline
import NseHft.Risk.PositionLimit

/-!
# Live orders and quotes

The strategy keeps one quote per token and side and lists the ids it withdraws. `process`
sends the new orders and drops that list, so a withdrawn quote stays live in the order manager
next to the one that replaces it. Strategy and order manager stay in step over the runs in
which no quote is withdrawn and no fill report reopens an order that has ended.
-/
namespace NseHft.Pipeline

open FixedWidth

/-- A pipeline, the orders it sent with what is not yet filled of them, and the messages it
encoded. -/
structure Trading where
  pipeline : Pipeline
  working : List WorkingOrder
  wire : List (List UInt8)

namespace Trading

/-- The message is a cancel request for the order. -/
def isCancelOf (clordid : Int) (message : List UInt8) : Bool :=
  ((loadLe 2 message : Nat) : Int) == kTcCancelOrder &&
    loadLeI64 (message.drop (kNnfHeaderSize + 12)) == clordid

/-- The slot holds a live order for which no cancel has been encoded. -/
def LiveUncancelled (t : Trading) (slot : Nat) : Prop :=
  (t.pipeline.om.table slot).state.live = true ∧
    ∀ message ∈ t.wire,
      isCancelOf (t.pipeline.om.table slot).order.clientOrderId message = false

/-- At most one such order for each token and side. -/
def OneLivePerSide (t : Trading) : Prop :=
  ∀ i j, t.LiveUncancelled i → t.LiveUncancelled j →
    (t.pipeline.om.table i).order.token = (t.pipeline.om.table j).order.token →
    (t.pipeline.om.table i).order.side = (t.pipeline.om.table j).order.side → i = j

/-- Every withdrawn quote has its cancel. -/
def WithdrawalsCancelled (t : Trading) : Prop :=
  ∀ clordid ∈ t.pipeline.strat.cancels, ∃ message ∈ t.wire, isCancelOf clordid message = true

/-- Interleavings of calls from a fresh pipeline. Every fill belongs to an order that was sent
and takes at most what remains of it; the remaining quantity it reports is not restricted.
`quoting` restricts the calls of `process`, given the book after the event, and `filling` the
fill reports. -/
inductive Run (A : Arithmetic) (s : Setup)
    (quoting : Pipeline → ClockReadings → MarketEvent → OrderBook → Prop)
    (filling : Pipeline → FillReport → Prop) : Trading → Prop
  | fresh : Run A s quoting filling ⟨s.fresh, [], []⟩
  | setNow {t : Trading} (istNs : Nat) : Run A s quoting filling t →
      Run A s quoting filling { t with pipeline := t.pipeline.setNow istNs }
  | process {t : Trading} {p : Pipeline} {fuel : Nat} {clock : ClockReadings} {ev : MarketEvent}
      {sent : List SentOrder} : Run A s quoting filling t →
      t.pipeline.process A fuel clock ev = some (sent, p) →
      (∀ book, p.books.getBook ev.token = some book → quoting t.pipeline clock ev book) →
      Run A s quoting filling ⟨p, t.working ++ sent.map fun x => ⟨x.order, x.order.qty⟩,
        t.wire ++ sent.map SentOrder.message⟩
  | fill {t : Trading} {pre post : List WorkingOrder} {w : WorkingOrder} (fill : FillReport) :
      Run A s quoting filling t → t.working = pre ++ w :: post →
      fill.clientOrderId = w.order.clientOrderId → fill.token = w.order.token →
      fill.side = w.order.side → 0 ≤ fill.fillQty → fill.fillQty ≤ w.remaining →
      filling t.pipeline fill →
      Run A s quoting filling ⟨t.pipeline.onFill A fill,
        pre ++ { w with remaining := w.remaining - fill.fillQty } :: post, t.wire⟩

/-- The call withdraws no quote. -/
def KeepsQuotes (A : Arithmetic) (p : Pipeline) (clock : ClockReadings) (ev : MarketEvent)
    (book : OrderBook) : Prop :=
  ∀ side, p.strat.withdraws A (p.strat.now clock.quote) ev.token book side = false

/-- The report reopens no order that has ended. -/
def KeepsClosed (A : Arithmetic) (p : Pipeline) (fill : FillReport) : Prop :=
  ¬p.om.Reopens A fill

end Trading

/-- Strategy and order manager agree: a live order sits in the slot of its id and is the
active quote of its token and side, and no withdrawal is outstanding. -/
structure InStep (p : Pipeline) : Prop where
  positive : 1 ≤ p.strat.nextClordid
  indexed : ∀ slot, (p.om.table slot).state.live = true →
    slot = OrderManager.index (p.om.table slot).order.clientOrderId
  quoted : ∀ slot, (p.om.table slot).state.live = true →
    let o := (p.om.table slot).order
    ((p.strat.quotes o.token).side o.side).active = true ∧
      ((p.strat.quotes o.token).side o.side).clordid = o.clientOrderId
  cancels : p.strat.cancels = []

section InStep

variable {A : Arithmetic} {p p' : Pipeline}

theorem fresh_inStep (s : Setup) : InStep s.fresh :=
  ⟨Int.le_refl 1, fun _ live => Bool.noConfusion live, fun _ live => Bool.noConfusion live, rfl⟩

/-- What a call leaves in a slot was there before, or is an order the strategy has just
emitted, in the slot of its id. -/
theorem process_slot {fuel : Nat} {clock : ClockReadings} {ev : MarketEvent}
    {sent : List SentOrder} (positive : 1 ≤ p.strat.nextClordid)
    (returned : p.process A fuel clock ev = some (sent, p')) (slot : Nat) :
    p'.om.table slot = p.om.table slot ∨
      ∃ book, p'.books.getBook ev.token = some book ∧
        (p'.om.table slot).order ∈ (p.strat.onBookUpdate A clock.quote ev.token book).pending ∧
        slot = OrderManager.index (p'.om.table slot).order.clientOrderId := by
  rcases process_cases returned with
    ⟨_, _, _, _, om⟩ | ⟨_, _, book, q, _, _, found, loop, strat, _, om⟩
  · exact .inl (by rw [om])
  · have named : ∀ o ∈ q.strat.pending, o.clientOrderId ≠ 0 := strat ▸ named_of_one_le positive
    have after : p'.om = _ := congrArg (fun outcome => outcome.2.om) loop
    rw [after]
    rcases @sendOrders_slot A q clock 0 _ named slot with same | ⟨o, member, here, stored⟩
    · exact .inl (by rw [same, om])
    · refine .inr ⟨book, found, ?_, ?_⟩
      · rw [stored]
        exact strat ▸ member
      · rw [stored]
        exact here

theorem process_inStep {fuel : Nat} {clock : ClockReadings} {ev : MarketEvent}
    {sent : List SentOrder} (inStep : InStep p)
    (returned : p.process A fuel clock ev = some (sent, p'))
    (kept : ∀ book, p'.books.getBook ev.token = some book →
      Trading.KeepsQuotes A p clock ev book) : InStep p' := by
  -- every slot is an older one or holds an order just emitted; the strategy has quoted both
  have origin := process_slot inStep.positive returned
  refine ⟨Int.le_trans inStep.positive (process_nextClordid returned), ?_, ?_, ?_⟩
  · intro slot live
    rcases origin slot with same | ⟨_, _, _, here⟩
    · rw [same] at live ⊢
      exact inStep.indexed slot live
    · exact here
  · intro slot live
    dsimp only
    rcases process_strat returned with ⟨unwatched, strat⟩ | ⟨book, found, strat⟩
    · rcases origin slot with same | ⟨_, watched, _⟩
      · rw [same] at live ⊢
        exact strat ▸ inStep.quoted slot live
      · rw [unwatched] at watched
        cases watched
    · rw [strat]
      rcases origin slot with same | ⟨other, watched, member, _⟩
      · -- an older order: its quote is still the active one
        rw [same] at live ⊢
        have before := inStep.quoted slot live
        rw [MarketMaking.onBookUpdate_active_steady (kept book found) before.1]
        exact before
      · obtain rfl := Option.some.inj (found.symm.trans watched)
        exact MarketMaking.onBookUpdate_quoted member
  · rcases process_strat returned with ⟨_, strat⟩ | ⟨book, found, strat⟩
    · exact strat ▸ inStep.cancels
    · rw [strat]
      exact MarketMaking.onBookUpdate_cancels_steady (kept book found)

theorem onFill_inStep (inStep : InStep p) (fill : FillReport)
    (closed : Trading.KeepsClosed A p fill) : InStep (p.onFill A fill) := by
  refine ⟨?_, ?_, ?_, ?_⟩
  · rw [onFill_nextClordid]
    exact inStep.positive
  · intro slot live
    obtain ⟨before, order, _⟩ := OrderManager.onFill_live closed slot live
    change slot = OrderManager.index ((p.om.onFill A fill).2.table slot).order.clientOrderId
    rw [order]
    exact inStep.indexed slot before
  · intro slot live
    obtain ⟨before, order, remains⟩ := OrderManager.onFill_live closed slot live
    have quote := inStep.quoted slot before
    have kept : ((p.strat.onFill A fill).quotes (p.om.table slot).order.token).side
        (p.om.table slot).order.side =
          (p.strat.quotes (p.om.table slot).order.token).side (p.om.table slot).order.side := by
      rcases @MarketMaking.onFill_quote A p.strat fill _ _ with same | ⟨named, nothing⟩
      · exact same
      · -- the report ends the quote, so it has ended the order as well
        have id := quote.2.symm.trans named
        exact absurd nothing (remains (id ▸ inStep.indexed slot before) id)
    simp only [onFill]
    rw [order, kept]
    exact quote
  · simp only [onFill, MarketMaking.onFill]
    split <;> exact inStep.cancels

end InStep

namespace Trading

variable {A : Arithmetic} {s : Setup} {t : Trading}

theorem Run.inStep (run : Run A s (KeepsQuotes A) (KeepsClosed A) t) : InStep t.pipeline := by
  induction run with
  | fresh => exact fresh_inStep s
  | setNow _ _ ih => exact ⟨ih.positive, ih.indexed, ih.quoted, ih.cancels⟩
  | process _ returned kept ih => exact process_inStep ih returned kept
  | fill fill _ _ _ _ _ _ _ closed ih => exact onFill_inStep ih fill closed

/-- In every run that withdraws no quote and reopens no order, at most one order is live for
each token and side, and there is no withdrawal without a cancel. -/
theorem one_live_quote_per_side (A : Arithmetic) (s : Setup) (t : Trading)
    (run : Run A s (KeepsQuotes A) (KeepsClosed A) t) :
    t.OneLivePerSide ∧ t.WithdrawalsCancelled := by
  have inStep := run.inStep
  constructor
  · intro i j ⟨liveI, _⟩ ⟨liveJ, _⟩ token side
    -- both are the active quote of one side, so they have one id and one slot
    have quoteI := (inStep.quoted i liveI).2
    have quoteJ := (inStep.quoted j liveJ).2
    rw [token, side, quoteJ] at quoteI
    rw [inStep.indexed i liveI, inStep.indexed j liveJ, quoteI]
  · intro clordid member
    rw [inStep.cancels] at member
    cases member

private def desk : Setup := .watching [(7, 1, 4)]

private def tick (t : Trading) (ev : MarketEvent) : Trading :=
  let (sent, p) := t.pipeline.processed ev
  ⟨p, t.working ++ sent.map fun x => ⟨x.order, x.order.qty⟩, t.wire ++ sent.map SentOrder.message⟩

private theorem tick_run {quoting : Pipeline → ClockReadings → MarketEvent → OrderBook → Prop}
    {filling : Pipeline → FillReport → Prop} {ev : MarketEvent} {book : OrderBook}
    (run : Run .wrapping desk quoting filling t)
    (returns : (t.pipeline.process .wrapping 8 stillClock ev).isSome = true)
    (found : (tick t ev).pipeline.books.getBook ev.token = some book)
    (guarded : quoting t.pipeline stillClock ev book) :
    Run .wrapping desk quoting filling (tick t ev) := by
  refine run.process (processed_eq returns) fun other present => ?_
  obtain rfl := Option.some.inj (found.symm.trans present)
  exact guarded

private def bookOf (t : Trading) : OrderBook := (t.pipeline.books.getBook 7).getD (.new 7 1 4)

private theorem bookOf_eq (watched : (t.pipeline.books.getBook 7).isSome = true) :
    t.pipeline.books.getBook 7 = some (bookOf t) := by
  obtain ⟨book, same⟩ := Option.isSome_iff_exists.mp watched
  rw [bookOf, same]
  rfl

private def tenAm : Trading := ⟨atTen, [], []⟩

/-- Both sides quoted, with the ids 1 and 2. -/
private def bothSides : Trading := tick tenAm (touch 7 1 10000)

private theorem bothSides_run {quoting : Pipeline → ClockReadings → MarketEvent → OrderBook → Prop}
    {filling : Pipeline → FillReport → Prop}
    (guarded : quoting tenAm.pipeline stillClock (touch 7 1 10000) (bookOf bothSides)) :
    Run .wrapping desk quoting filling bothSides :=
  tick_run (Run.setNow 36000000000000 .fresh) (by decide +kernel)
    (bookOf_eq (by decide +kernel)) guarded

private def firstBid : Order :=
  { clientOrderId := 1, token := 7, segment := kSegmentCm, price := 9999, qty := 1
    createdAt := 36000000000000 }

private def firstAsk : Order :=
  { firstBid with clientOrderId := 2, price := 10003, side := kSell }

private def bidFilled : FillReport :=
  { clientOrderId := 1, token := 7, fillPrice := 9999, fillQty := 1 }

private def bidTaken : Trading :=
  ⟨bothSides.pipeline.onFill .wrapping bidFilled, [⟨firstBid, 0⟩, ⟨firstAsk, 1⟩], bothSides.wire⟩

/-- The bid is filled and quoted again under the id 3, while the ask stands. -/
theorem one_live_quote_per_side_requoted :
    ∃ t, Run .wrapping desk (KeepsQuotes .wrapping) (KeepsClosed .wrapping) t ∧
      (t.pipeline.om.table 1).state = .filled ∧ (t.pipeline.om.table 2).state = .pendingNew ∧
      (t.pipeline.om.table 3).state = .pendingNew ∧ t.OneLivePerSide ∧ t.WithdrawalsCancelled := by
  have quoted : Run .wrapping desk (KeepsQuotes .wrapping) (KeepsClosed .wrapping) bothSides :=
    bothSides_run (by unfold KeepsQuotes; decide +kernel)
  have working : bothSides.working = [] ++ ⟨firstBid, 1⟩ :: [⟨firstAsk, 1⟩] := by decide +kernel
  have filled : Run .wrapping desk _ _ bidTaken :=
    quoted.fill bidFilled working rfl rfl rfl (by decide) (by decide)
      fun ⟨_, _, _, _, remains⟩ => remains rfl
  have requoted : Run .wrapping desk _ _ (tick bidTaken (touch 7 2 10000)) :=
    tick_run filled (by decide +kernel) (bookOf_eq (by decide +kernel))
      (by unfold KeepsQuotes; decide +kernel)
  exact ⟨_, requoted, by decide +kernel, by decide +kernel, by decide +kernel,
    one_live_quote_per_side .wrapping desk _ requoted⟩

/-- The market moves by a tick, both quotes are replaced, and the two bids are live. -/
theorem replaced_quotes_stay_live :
    ∃ t, Run .wrapping desk (fun _ _ _ _ => True) (fun _ _ => True) t ∧
      ¬t.OneLivePerSide ∧ ¬t.WithdrawalsCancelled := by
  have quoted : Run .wrapping desk (fun _ _ _ _ => True) (fun _ _ => True) bothSides :=
    bothSides_run trivial
  have moved : Run .wrapping desk _ _ (tick bothSides (touch 7 2 10001)) :=
    tick_run quoted (by decide +kernel) (bookOf_eq (by decide +kernel)) trivial
  refine ⟨_, moved, fun single => ?_, fun cancelled => ?_⟩
  · have live : ∀ slot ∈ [1, 3], LiveUncancelled (tick bothSides (touch 7 2 10001)) slot := by
      unfold LiveUncancelled
      decide +kernel
    have same := single 1 3 (live 1 (by decide)) (live 3 (by decide)) (by decide +kernel)
      (by decide +kernel)
    cases same
  · revert cancelled
    unfold WithdrawalsCancelled
    decide +kernel

end Trading

end NseHft.Pipeline
