import NseHft.Pipeline.Pipeline
import NseHft.Risk.PositionLimit
import NseHft.Sim.FeeModel
import NseHft.Sim.FillSimulator

/-!
# Backtest engine

The tick-to-trade pipeline over a list of events, with the simulator in the place of the
exchange; metrics and latencies are left out. After every event the engine registers the
pipeline's list of sent orders with their full quantity. An event that sends nothing leaves
that list as it was, so an order that has been filled can come back.
-/
namespace NseHft

open FixedWidth

/-- The arguments of `run_backtest` besides the events. -/
structure BacktestArgs where
  mmCfg : MarketMakingConfig
  token : Nat
  mid : Int
  tick : Int
  fees : FeeModel := {}

/-- What a run finds: the wall clock at its start and while it processes the event with a
given index, the memory that is not initialised, and the bound on the book's loops. -/
structure BacktestWorld where
  startNs : Nat
  clocks : Nat → ClockReadings
  memory : Nat → Order
  buffer : Vector UInt8 kNnfMaxMsg
  fuel : Nat

/-- What `run_backtest` returns. Its three latency percentiles are measured and left out. -/
structure BtResult where
  ordersSent : Nat
  ordersRejected : Nat
  fills : Nat
  position : Int
  grossPnlInr : Int
  feesInr : Int
  pnlInr : Int
  deriving DecidableEq, Repr

/-- The variables of the event loop. The source does not keep the last two, all orders sent
and all fills reported. -/
structure Backtest where
  pipe : Pipeline
  fillsim : FillSimulator := {}
  cashPaisa : Int := 0
  feesPaisa : Int := 0
  position : Int := 0
  mark : Int
  makerFills : Nat := 0
  eventIndex : Nat := 0
  sent : List Order := []
  reports : List FillReport := []

namespace Backtest

variable (A : Arithmetic) (args : BacktestArgs) (world : BacktestWorld)

def symbols : SymbolMaster :=
  ({} : SymbolMaster).put
    { token := args.token
      segment := kSegmentCm
      lotSize := 1
      tickSize := args.tick
      prevClose := args.mid
      circuitPctX100 := 2000 }

def setup : Pipeline.Setup :=
  { tokens := [(args.token, args.tick, 2 ^ 14)]
    symbols := some (symbols args)
    quoting := args.mmCfg
    riskSymbols := some (symbols args)
    limits :=
      { maxOrdersPerSec := 1000000000, maxTokenPositionLots := 1000000, priceSanityPct := 50 }
    memory := world.memory
    buffer := world.buffer }

def start : Backtest :=
  { pipe := (setup args world).fresh.setNow (istTimeOfDayNs world.startNs 10 0 0)
    mark := args.mid }

/-- What the engine does with a report. -/
def onFill (bt : Backtest) (f : FillReport) : Backtest :=
  let notional := A.i64 (f.fillQty * f.fillPrice)
  let bought := f.side = kBuy
  { bt with
    pipe := bt.pipe.onFill A f
    cashPaisa := A.i64 (if bought then bt.cashPaisa - notional else bt.cashPaisa + notional)
    position := A.i64 (if bought then bt.position + f.fillQty else bt.position - f.fillQty)
    feesPaisa := A.i64 (bt.feesPaisa + args.fees.costPaise A f.side f.fillPrice f.fillQty)
    makerFills := bt.makerFills + 1
    reports := bt.reports ++ [f] }

/-- The first half of an iteration: the mark, and the fills of the event. -/
def fillEvent (bt : Backtest) (ev : MarketEvent) : Backtest :=
  let mark := match ev.msgType with
    | some .snapQuote => (A.i64 (ev.bidPrice + ev.askPrice)).tdiv 2
    | some .trade => ev.price
    | _ => bt.mark
  let (reports, fillsim) := bt.fillsim.onEvent A ev
  reports.foldl (onFill A args) { bt with mark := mark, fillsim := fillsim }

/-- The second half: the pipeline, then its sent orders go to the simulator. `none` when the
book does not return. -/
def processEvent (bt : Backtest) (ev : MarketEvent) : Option Backtest := do
  let (sent, pipe) ← bt.pipe.process A world.fuel (world.clocks bt.eventIndex) ev
  let queueAhead (o : Order) : Int :=
    match pipe.books.getBook args.token with
    | some book => book.displayedQtyAt o.side o.price
    | none => 0
  -- what an earlier call has sent is registered again, as if it were new
  let fillsim := pipe.sentOrders.foldl (fun sim o => sim.registerOrder o (queueAhead o)) bt.fillsim
  some { bt with
    pipe := pipe
    fillsim := fillsim
    eventIndex := bt.eventIndex + 1
    sent := bt.sent ++ sent.map SentOrder.order }

/-- The event loop: where it ends, and whether it has come to the end of the events. -/
def runEvents (bt : Backtest) : List MarketEvent → Backtest × Bool
  | [] => (bt, true)
  | ev :: rest =>
    let bt := bt.fillEvent A args ev
    match bt.processEvent A args world ev with
    | none => (bt, false)
    | some bt => runEvents bt rest

def result (bt : Backtest) : BtResult :=
  let gross := A.i64 (bt.cashPaisa + A.i64 (bt.position * bt.mark))
  { ordersSent := bt.pipe.stats.ordersSent
    ordersRejected := bt.pipe.stats.ordersRejected
    fills := bt.makerFills
    position := bt.position
    grossPnlInr := gross.tdiv 100
    feesInr := bt.feesPaisa.tdiv 100
    pnlInr := (A.i64 (gross - bt.feesPaisa)).tdiv 100 }

def runBacktest (events : List MarketEvent) : Option BtResult :=
  let (bt, returned) := (start args world).runEvents A args world events
  if returned then some (bt.result A) else none

/-- Before the pipeline takes in an event, the strategy has orders due on the routed book, or
nothing of what the pipeline's list shows is filled. -/
def Renews (bt : Backtest) (ev : MarketEvent) : Prop :=
  bt.pipe.offered A world.fuel (world.clocks bt.eventIndex) ev ≠ [] ∨
    ∀ o ∈ bt.pipe.sentOrders, filledQty o.clientOrderId bt.reports = 0

instance (bt : Backtest) (ev : MarketEvent) : Decidable (bt.Renews A world ev) :=
  inferInstanceAs (Decidable (_ ∨ _))

/-- No order is registered again once something of it is filled. -/
def NoneRevived (bt : Backtest) : List MarketEvent → Prop
  | [] => True
  | ev :: rest =>
    (bt.fillEvent A args ev).Renews A world ev ∧
      match (bt.fillEvent A args ev).processEvent A args world ev with
      | none => True
      | some next => NoneRevived next rest

instance : ∀ (bt : Backtest) (events : List MarketEvent),
    Decidable (bt.NoneRevived A args world events)
  | _, [] => .isTrue trivial
  | bt, ev :: rest =>
    match step : (bt.fillEvent A args ev).processEvent A args world ev with
    | none =>
      decidable_of_iff ((bt.fillEvent A args ev).Renews A world ev)
        (by simp only [NoneRevived, step, and_true])
    | some next =>
      have := instDecidableNoneRevived next rest
      decidable_of_iff
        ((bt.fillEvent A args ev).Renews A world ev ∧ next.NoneRevived A args world rest)
        (by simp only [NoneRevived, step])

section Accounts

variable {A args world} {bt bt' : Backtest} {ev : MarketEvent}

/-- All that taking in a list of reports does to orders and fills. -/
structure TakesIn (bt bt' : Backtest) (reports : List FillReport) : Prop where
  reports_eq : bt'.reports = bt.reports ++ reports
  sent_eq : bt'.sent = bt.sent
  fillsim_eq : bt'.fillsim = bt.fillsim
  last_eq : bt'.pipe.sentOrders = bt.pipe.sentOrders
  next_eq : bt'.pipe.strat.nextClordid = bt.pipe.strat.nextClordid

theorem foldl_onFill (reports : List FillReport) :
    TakesIn bt (reports.foldl (onFill A args) bt) reports := by
  induction reports generalizing bt with
  | nil => exact ⟨(List.append_nil _).symm, rfl, rfl, rfl, rfl⟩
  | cons f rest ih =>
    have later := @ih (bt.onFill A args f)
    constructor
    · rw [List.foldl_cons, later.reports_eq, onFill, List.append_assoc]
      rfl
    · exact later.sent_eq
    · exact later.fillsim_eq
    · exact later.last_eq
    · exact later.next_eq.trans (Pipeline.onFill_nextClordid f)

/-- The fills are backed by the orders sent. The pipeline's list holds orders that were sent,
and the ids still to come are new. -/
structure Accounted (bt : Backtest) : Prop where
  backed : Backed bt.sent bt.reports bt.fillsim
  last : ∀ o ∈ bt.pipe.sentOrders, o ∈ bt.sent
  below : ∀ o ∈ bt.sent, o.clientOrderId < bt.pipe.strat.nextClordid
  positive : 1 ≤ bt.pipe.strat.nextClordid

theorem start_accounted : Accounted (start args world) := by
  constructor
  · exact Backed.start
  · exact fun _ member => nomatch member
  · exact fun _ member => nomatch member
  · exact Int.le_refl 1

theorem fillEvent_takesIn (ev : MarketEvent) :
    TakesIn { bt with fillsim := (bt.fillsim.onEvent A ev).2 } (bt.fillEvent A args ev)
      (bt.fillsim.onEvent A ev).1 := by
  constructor
  · exact (foldl_onFill _).reports_eq
  · exact (foldl_onFill _).sent_eq
  · exact (foldl_onFill _).fillsim_eq
  · exact (foldl_onFill _).last_eq
  · exact (foldl_onFill _).next_eq

theorem fillEvent_accounted (accounted : Accounted bt) (ev : MarketEvent) :
    Accounted (bt.fillEvent .wrapping args ev) := by
  have takes := @fillEvent_takesIn .wrapping args bt ev
  constructor
  · rw [takes.reports_eq, takes.sent_eq, takes.fillsim_eq]
    exact accounted.backed.onEvent ev
  · rw [takes.last_eq, takes.sent_eq]
    exact accounted.last
  · rw [takes.sent_eq, takes.next_eq]
    exact accounted.below
  · rw [takes.next_eq]
    exact accounted.positive

/-- The pipeline's part of an iteration keeps the account as long as it brings no filled order
back. -/
theorem processEvent_accounted (accounted : Accounted bt)
    (processed : bt.processEvent .wrapping args world ev = some bt')
    (renews : bt.Renews .wrapping world ev) : Accounted bt' := by
  simp only [processEvent, Option.bind_eq_bind, Option.bind_eq_some_iff, Prod.exists] at processed
  obtain ⟨sent, pipe, returned, rest⟩ := processed
  obtain rfl := Option.some.inj rest
  obtain ⟨ordered, new⟩ := Pipeline.process_sent accounted.positive returned
  -- what the call lists was sent before or is sent now
  have listed : ∀ o ∈ pipe.sentOrders, o ∈ bt.sent ++ sent.map SentOrder.order := by
    intro o member
    rcases Pipeline.process_sentOrders returned o member with before | now
    · exact List.mem_append_left _ (accounted.last o before)
    · exact List.mem_append_right _ now
  have fresh : ∀ o ∈ bt.sent, ∀ o' ∈ sent.map SentOrder.order, o.clientOrderId ≠ o'.clientOrderId := by
    intro o old o' member same
    have below := accounted.below o old
    have above := (new o' member).1.1
    omega
  -- an order of this call has an id that no report has named
  have unfilled : ∀ o ∈ pipe.sentOrders, filledQty o.clientOrderId bt.reports = 0 := by
    rcases Pipeline.process_lastSent returned with ⟨_, now⟩ | ⟨nothing, _, kept⟩
    · intro o member
      apply filledQty_eq_zero
      intro f reported same
      obtain ⟨old, sentBefore, named⟩ := accounted.backed.known f reported
      exact fresh old sentBefore o (now ▸ member) (named.trans same)
    · rw [kept]
      exact renews.resolve_left fun due => due nothing
  have backed : Backed (bt.sent ++ sent.map SentOrder.order) bt.reports bt.fillsim := by
    apply accounted.backed.send
    · exact (List.pairwise_map.mpr ordered).imp Int.ne_of_lt
    · exact fresh
    · intro o member
      rw [(new o member).2.1]
      exact i32_fits _
    · intro o member
      obtain ⟨risk, wallClock, approved⟩ := (new o member).2.2
      exact Int.le_of_lt (RiskManager.check_approved_qty approved)
  have grows := Pipeline.process_nextClordid returned
  constructor
  · exact backed.registerOrders listed unfilled _
  · exact listed
  · intro o member
    rcases List.mem_append.mp member with old | now
    · exact Int.lt_of_lt_of_le (accounted.below o old) grows
    · exact (new o now).1.2
  · exact Int.le_trans accounted.positive grows

theorem runEvents_accounted (accounted : Accounted bt) (events : List MarketEvent)
    (noneRevived : bt.NoneRevived .wrapping args world events) :
    Accounted (bt.runEvents .wrapping args world events).1 := by
  -- along the loop; where the book does not return, the fills of that event still count
  induction events generalizing bt with
  | nil => exact accounted
  | cons ev rest ih =>
    have filled := @fillEvent_accounted args bt accounted ev
    simp only [runEvents]
    obtain ⟨renews, later⟩ := noneRevived
    split
    next => exact filled
    next next processed =>
      rw [processed] at later
      apply ih _ later
      exact processEvent_accounted filled processed renews

end Accounts

/-- In every backtest that brings no filled order back, every report is for an order that was
sent, and no order is filled beyond its quantity. -/
theorem fills_within_orders (args : BacktestArgs) (world : BacktestWorld)
    (events : List MarketEvent)
    (noneRevived : (start args world).NoneRevived .wrapping args world events) :
    let bt := ((start args world).runEvents .wrapping args world events).1
    (∀ f ∈ bt.reports, ∃ o ∈ bt.sent, o.clientOrderId = f.clientOrderId) ∧
      ∀ o ∈ bt.sent, filledQty o.clientOrderId bt.reports ≤ o.qty := by
  have accounted := runEvents_accounted start_accounted events noneRevived
  exact ⟨accounted.backed.known, accounted.backed.covered⟩

/-- One token in single lots, up to a position of so many. -/
def oneLot (maxPositionLots : Int) : BacktestArgs :=
  { mmCfg := { maxPositionLots := maxPositionLots }, token := 7, mid := 10000, tick := 1 }

def blankWorld : BacktestWorld :=
  { startNs := 0
    clocks := fun _ => Pipeline.stillClock
    memory := fun _ => {}
    buffer := .replicate _ 0
    fuel := 1 }

/-- A market two ticks wide, then two trades of one share at our bid. -/
def twoTrades : List MarketEvent :=
  let trade : MarketEvent :=
    { type := MtbtMsgType.trade.code, token := 7, price := 9999, qty := 1 }
  [{ type := MtbtMsgType.snapQuote.code, token := 7, bidPrice := 10000, bidQty := 5,
     askPrice := 10002, askQty := 5 }, trade, trade]

/-- With room for ten lots each trade fills an order of its own: the strategy quotes a new bid
as soon as the last one is filled. -/
theorem fills_within_orders_requoted :
    let bt := ((start (oneLot 10) blankWorld).runEvents .wrapping (oneLot 10) blankWorld
      twoTrades).1
    bt.reports.map FillReport.clientOrderId = [1, 3] ∧
      ∀ o ∈ bt.sent, filledQty o.clientOrderId bt.reports ≤ o.qty :=
  ⟨by decide +kernel, (fills_within_orders (oneLot 10) blankWorld twoTrades (by decide +kernel)).2⟩

/-- With room for one lot the first trade ends the bidding, so nothing new is sent; the filled
bid of one share is registered again and the second trade fills it once more. -/
theorem filled_bid_filled_again :
    let bt := ((start (oneLot 1) blankWorld).runEvents .wrapping (oneLot 1) blankWorld
      twoTrades).1
    (∃ o ∈ bt.sent, o.qty = 1 ∧ filledQty o.clientOrderId bt.reports = 2) ∧
      (runBacktest .wrapping (oneLot 1) blankWorld twoTrades).map BtResult.position = some 2 := by
  decide +kernel

end Backtest

end NseHft
