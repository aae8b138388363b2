import NseHft.Irage.ConnectImpl
import NseHft.Strategy.QuotingMath

/-!
# Market maker on the platform

The strategy's callbacks over the order entry platform. All orders are sent from
`onMarketData`, one pass over the configured symbols; a pass reads ticks, inventory, limits and
parameters and changes only orders, so what it quotes for a symbol does not depend on the
symbols before it.
-/
namespace NseHft.Irage

open FixedWidth
open ConnectImpl (key)

def kMaxSymbols : Nat := 16

def kMaxConsecutiveRejects : Int := 3

structure SymState where
  id : Int := 0
  tickSize : Int := 1
  lotSize : Int := 1
  rejectsBuy : Int := 0
  rejectsSell : Int := 0
  lastMid : Int := 0
  lastBidQuote : Int := 0
  lastAskQuote : Int := 0
  tickSize_pos : 0 < tickSize := by decide
  lotSize_pos : 0 < lotSize := by decide
  deriving DecidableEq, Repr

structure Strat1 where
  maxSpreadTicks : Int := 3
  invSkewTicks : Int := 2
  flowSkewTicks : Int := 1
  quoteLots : Int := 1
  precloseIstSod : Int := 15 * 3600 + 25 * 60
  syms : List SymState := []
  cashPaise : Int := 0
  fills : Int := 0
  ordersSent : Int := 0
  killed : Bool := false
  metricsPath : String := ""
  deriving DecidableEq, Repr

/-- The strategy together with the platform it runs on. -/
structure Session where
  impl : ConnectImpl
  strat : Strat1 := {}

def atLeastOne (z : Int) : Int := if z ≤ 0 then 1 else z

theorem atLeastOne_pos (z : Int) : 0 < atLeastOne z := by
  rw [atLeastOne]
  split <;> omega

def symbolOf (impl : ConnectImpl) (id : Int) : Except String SymState :=
  match impl.symInfo id with
  | none => .error "Symbol not found in syminfo"
  | some info =>
    .ok
      { id
        tickSize := atLeastOne info.tickSize
        lotSize := atLeastOne info.lotSize
        tickSize_pos := atLeastOne_pos _
        lotSize_pos := atLeastOne_pos _ }

/-- Entry 16 of the configuration is the number of symbols, their ids start at entry 751. -/
def initializeStrat (impl : ConnectImpl) (configMap : Int → Int) : Except String Session := do
  let symCount := (min (configMap 16) kMaxSymbols).toNat
  let syms ← (List.range symCount).mapM fun i : Nat => symbolOf impl (configMap (751 + i))
  -- an empty path switches the metrics off
  let metricsPath := (impl.readGConfig "MetricsJsonlPath").getD ""
  return { impl := { impl with inited := true }, strat := { syms, metricsPath } }

/-- A session starts with its symbols and its metrics, everything else is at its default. -/
theorem initializeStrat_ok {impl : ConnectImpl} {configMap : Int → Int} {st : Session}
    (started : initializeStrat impl configMap = .ok st) :
    ∃ syms metricsPath, st = { impl := { impl with inited := true }, strat := { syms, metricsPath } } := by
  simp only [initializeStrat, bind, Except.bind, pure, Except.pure] at started
  split at started
  · cases started
  · cases started
    exact ⟨_, _, rfl⟩

namespace Session

variable (A : Arithmetic) (st : Session)

/-- Seconds since midnight in India; the platform's clock is UTC. -/
def istSecondsOfDay : Int := (st.impl.seconds + 19800).tmod 86400

/-- A smaller move than a tick is not worth a replacement. -/
def quoteFor (s : SymState) (side : OrdSide) (price qty : Int) : Quote :=
  { symId := s.id, price, qty, side, index := 0, minPriceChange := s.tickSize }

def quoteSide (s : SymState) (side : OrdSide) (price qty : Int) : Bool × Session :=
  let answer := st.impl.sendOrder A (quoteFor s side price qty) false
  if answer.1 then
    (true,
      { impl := answer.2
        strat := { st.strat with ordersSent := A.i64 (st.strat.ordersSent + 1) } })
  else if answer.2.lastError ≠ .noAck ∧ answer.2.lastError ≠ .sameOrd then
    (false,
      { st with impl := answer.2.logMsg ("sendOrder failed: " ++ answer.2.lastError.name) })
  else (false, { st with impl := answer.2 })

def cancelSide (s : SymState) (side : OrdSide) : Session :=
  if st.impl.getStandingOrder s.id side 0 then
    { st with impl := (st.impl.sendOrder A { symId := s.id, side } false).2 }
  else st

def cancelSides (s : SymState) : Session := (st.cancelSide A s .buy).cancelSide A s .sell

def cancelAll : Session := st.strat.syms.foldl (cancelSides A) st

/-- The truncated product of `totalOps` and 0.8 is `4 * totalOps / 5` for every positive `int`. -/
def opsOk : Bool :=
  decide (st.impl.totalOps ≤ 0) || decide (st.impl.opsConsumed < (4 * st.impl.totalOps).tdiv 5)

def maxPosUnits (s : SymState) : Int := A.i64 (st.impl.getMaxInventory s.id * s.lotSize)

/-- The quote pair of the shared quoting math, before the daily price range is applied. -/
def desired (s : SymState) : Quoting.DesiredQuotes :=
  let t := st.impl.getMtick s.id
  Quoting.desiredQuotes A t.bid t.ask s.tickSize t.bidSize t.askSize (st.impl.getInventory s.id)
    (st.maxPosUnits A s) st.strat.invSkewTicks st.strat.flowSkewTicks

/-- The lowest price on the grid that is not below `dprLo`. -/
def snapUp (dprLo tickSize : Int) : Int :=
  A.i32 ((A.i32 (A.i32 (dprLo + tickSize) - 1)).tdiv tickSize * tickSize)

/-- The highest price on the grid that is not above `dprHi`. -/
def snapDown (dprHi tickSize : Int) : Int := A.i32 (dprHi.tdiv tickSize * tickSize)

/-- Prices of a symbol in one pass, and whether each side may be quoted. -/
structure Decision where
  bidPx : Int
  askPx : Int
  bidOk : Bool
  askOk : Bool
  deriving DecidableEq, Repr

/-- The platform states a daily price range for the symbol. -/
def Ranged (s : SymState) : Prop :=
  0 < st.impl.getDprHigh s.id ∧ st.impl.getDprLow s.id < st.impl.getDprHigh s.id

instance (s : SymState) : Decidable (st.Ranged s) := inferInstanceAs (Decidable (_ ∧ _))

/-- Clamp to the price range, then the gates of range, position and rejects. -/
def decideQuotes (s : SymState) : Decision :=
  let dq := st.desired A s
  let position := st.impl.getInventory s.id
  let maxPos := st.maxPosUnits A s
  let dprLo := st.impl.getDprLow s.id
  let dprHi := st.impl.getDprHigh s.id
  let bidPx := A.i32 dq.bidPrice
  let askPx := A.i32 dq.askPrice
  let bidPx := if st.Ranged s ∧ bidPx < dprLo then snapUp A dprLo s.tickSize else bidPx
  let askPx := if st.Ranged s ∧ askPx > dprHi then snapDown A dprHi s.tickSize else askPx
  { bidPx
    askPx
    bidOk := decide (¬(st.Ranged s ∧ bidPx > dprHi) ∧ ¬(maxPos > 0 ∧ position ≥ maxPos) ∧
      ¬s.rejectsBuy ≥ kMaxConsecutiveRejects)
    askOk := decide (¬(st.Ranged s ∧ askPx < dprLo) ∧
      ¬(maxPos > 0 ∧ position ≤ A.i64 (-maxPos)) ∧ ¬s.rejectsSell ≥ kMaxConsecutiveRejects) }

/-- One side of a symbol: quote it, withdraw it, or leave it for lack of operations. The second
result is the price shown as the side's quote. -/
def requote (opsOk : Bool) (s : SymState) (side : OrdSide) (ok : Bool) (price qty shown : Int) :
    Session × Int :=
  if ok && opsOk then
    let answer := st.quoteSide A s side price qty
    (answer.2, if answer.1 then price else shown)
  else if !ok then (st.cancelSide A s side, 0)
  else (st, shown)

/-- The quotes of a symbol whose tick can be quoted into. -/
def quoteSymbol (opsOk : Bool) (s : SymState) : Session × SymState :=
  let d := st.decideQuotes A s
  let qty := A.i32 (st.strat.quoteLots * s.lotSize)
  let bid := st.requote A opsOk s .buy d.bidOk d.bidPx qty s.lastBidQuote
  let ask := bid.1.requote A opsOk s .sell d.askOk d.askPx qty s.lastAskQuote
  (ask.1, { s with lastBidQuote := bid.2, lastAskQuote := ask.2 })

def markMid (s : SymState) : SymState :=
  let t := st.impl.getMtick s.id
  { s with lastMid := (A.i32 (t.bid + t.ask)).tdiv 2 }

def onSymbol (opsOk : Bool) (s : SymState) : Session × SymState :=
  let t := st.impl.getMtick s.id
  -- a fake tick after a packet drop, or a one-sided book
  if t.bidSize ≤ 0 ∨ t.askSize ≤ 0 then (st.cancelSides A s, s)
  else if A.i32 (t.ask - t.bid) > A.i32 (st.strat.maxSpreadTicks * s.tickSize) then
    (st.cancelSides A s, st.markMid A s)
  else st.quoteSymbol A opsOk (st.markMid A s)

def onSymbols (opsOk : Bool) : Session → List SymState → Session × List SymState
  | st, [] => (st, [])
  | st, s :: rest =>
    let here := st.onSymbol A opsOk s
    let later := onSymbols opsOk here.1 rest
    (later.1, here.2 :: later.2)

/-- The pass over the configured symbols. -/
def quoteAll : Session :=
  let pass := onSymbols A st.opsOk st st.strat.syms
  { pass.1 with strat := { pass.1.strat with syms := pass.2 } }

def onMarketData : Int × Session :=
  if !st.impl.isRunning then (1, st)
  else if st.strat.killed then (1, st.cancelAll A)
  else if st.istSecondsOfDay ≥ st.strat.precloseIstSod then (0, st.cancelAll A)
  else (0, st.quoteAll A)

/-! ## Responses and parameters -/

/-- Change the first symbol with this id. -/
def updateSym (id : Int) (f : SymState → SymState) : List SymState → List SymState
  | [] => []
  | s :: rest => if s.id = id then f s :: rest else s :: updateSym id f rest

/-- Apply `f` to the reject count of a side. -/
def mapRejects (f : Int → Int) (side : OrdSide) (s : SymState) : SymState :=
  match side with
  | .buy => { s with rejectsBuy := f s.rejectsBuy }
  | .sell => { s with rejectsSell := f s.rejectsSell }

/-- Apply `f` to the reject count that a report is about. -/
def countRejects (f : Int → Int) (e : ExecReport) : Session :=
  { st with strat := { st.strat with
      syms := updateSym e.securityId (mapRejects f e.orderSide) st.strat.syms } }

def onAck (e : ExecReport) : Session := st.countRejects (fun _ => 0) e

def onExec (e : ExecReport) : Session :=
  let notional := A.i64 (e.fillQty * e.price)
  let cash := match e.orderSide with
    | .buy => A.i64 (st.strat.cashPaise - notional)
    | .sell => A.i64 (st.strat.cashPaise + notional)
  countRejects
    { st with strat := { st.strat with fills := A.i64 (st.strat.fills + 1), cashPaise := cash } }
    (fun _ => 0) e

def onRej (e : ExecReport) : Session :=
  if st.strat.syms.any (fun s => s.id = e.securityId) then
    let st := st.countRejects (fun rejects => A.i32 (rejects + 1)) e
    { st with impl := st.impl.logMsg ("REJ sym=" ++ toString e.securityId ++ " side=" ++
        toString e.orderSide.code ++ " code=" ++ toString e.rejCode) }
  else st

/-- One entry of a parameter update: the number of a field of the operator's screen and the
value entered there. -/
def updateParam (strat : Strat1) (entry : Int × Int) : Strat1 :=
  match entry.1 with
  | 9800 => { strat with maxSpreadTicks := entry.2 }
  | 9801 => { strat with invSkewTicks := entry.2 }
  | 9802 => { strat with flowSkewTicks := entry.2 }
  | 9803 => { strat with quoteLots := entry.2 }
  | 9804 => { strat with killed := decide (entry.2 ≠ 0) }
  | _ => strat

def update (updateMap : List (Int × Int)) : Session :=
  { st with strat := updateMap.foldl updateParam st.strat }

/-- What a call does, by the platform's mode, the kill switch and the clock. -/
theorem onMarketData_cases :
    (st.impl.isRunning = false ∧ st.onMarketData A = (1, st)) ∨
    (st.impl.isRunning = true ∧ st.strat.killed = true ∧
      st.onMarketData A = (1, st.cancelAll A)) ∨
    (st.impl.isRunning = true ∧ st.strat.killed = false ∧
      st.strat.precloseIstSod ≤ st.istSecondsOfDay ∧ st.onMarketData A = (0, st.cancelAll A)) ∨
    (st.impl.isRunning = true ∧ st.strat.killed = false ∧
      st.istSecondsOfDay < st.strat.precloseIstSod ∧
      st.onMarketData A = (0, st.quoteAll A)) := by
  rw [onMarketData]
  split_ifs with stopped killed late <;> simp_all

/-! ## What sending changes -/

/-- `st'` differs from `st` at most in the orders of the first quoting level and in what the
platform and the strategy record about messages. -/
structure Sends (st st' : Session) : Prop where
  strat : st'.strat = { st.strat with ordersSent := st'.strat.ordersSent }
  impl : st'.impl =
    { st.impl with
      orders := st'.impl.orders, sent := st'.impl.sent, calls := st'.impl.calls
      lastError := st'.impl.lastError, log := st'.impl.log }
  orders : ∀ id side index, index ≠ 0 → st'.impl.slot id side index = st.impl.slot id side index

theorem Sends.refl : Sends st st := ⟨rfl, rfl, fun _ _ _ _ => rfl⟩

variable {A st} {st' st'' : Session}

theorem Sends.trans (first : Sends st st') (second : Sends st' st'') : Sends st st'' where
  strat := by rw [second.strat, first.strat]
  impl := by rw [second.impl, first.impl]
  orders id side index upper :=
    (second.orders id side index upper).trans (first.orders id side index upper)

theorem sendOrder_sends (q : Quote) (level : q.index = 0) (sent : Int) :
    Sends st
      { impl := (st.impl.sendOrder A q false).2
        strat := { st.strat with ordersSent := sent } } := by
  rcases @ConnectImpl.sendOrder_cases A st.impl q false with
    ⟨error, _, refused⟩ | ⟨type, order, _, accepted⟩
  · rw [refused]
    exact ⟨rfl, rfl, fun _ _ _ _ => rfl⟩
  · rw [accepted]
    refine ⟨rfl, rfl, fun id side index upper => Function.update_of_ne ?_ _ _⟩
    intro same
    exact upper ((ConnectImpl.key_inj same).2.2.trans level)

theorem quoteSide_sends (s : SymState) (side : OrdSide) (price qty : Int) :
    Sends st (st.quoteSide A s side price qty).2 := by
  rw [quoteSide]
  extract_lets answer
  have sends (sent : Int) := @sendOrder_sends A st (quoteFor s side price qty) rfl sent
  split_ifs
  · exact sends _
  · exact (sends st.strat.ordersSent).trans ⟨rfl, rfl, fun _ _ _ _ => rfl⟩
  · exact sends st.strat.ordersSent

theorem cancelSide_sends (s : SymState) (side : OrdSide) : Sends st (st.cancelSide A s side) := by
  rw [cancelSide]
  split
  · exact sendOrder_sends _ rfl st.strat.ordersSent
  · exact .refl st

theorem cancelSides_sends (s : SymState) : Sends st (st.cancelSides A s) :=
  (cancelSide_sends s .buy).trans (cancelSide_sends s .sell)

theorem requote_sends (opsOk : Bool) (s : SymState) (side : OrdSide) (ok : Bool)
    (price qty shown : Int) : Sends st (st.requote A opsOk s side ok price qty shown).1 := by
  rw [requote]
  split_ifs
  · exact quoteSide_sends s side price qty
  · exact cancelSide_sends s side
  · exact .refl st

theorem onSymbol_sends (opsOk : Bool) (s : SymState) : Sends st (st.onSymbol A opsOk s).1 := by
  rw [onSymbol]
  split_ifs
  · exact cancelSides_sends s
  · exact cancelSides_sends s
  · exact (requote_sends ..).trans (requote_sends ..)

/-- A pass changes only what is shown of a symbol. -/
theorem onSymbol_symbol (opsOk : Bool) (s : SymState) :
    ∃ mid bid ask, (st.onSymbol A opsOk s).2 =
      { s with lastMid := mid, lastBidQuote := bid, lastAskQuote := ask } := by
  rw [onSymbol]
  split_ifs <;> exact ⟨_, _, _, rfl⟩

theorem onSymbols_map {β : Type*} {f : SymState → β} (opsOk : Bool) (symbols : List SymState)
    (same : ∀ s mid bid ask,
      f { s with lastMid := mid, lastBidQuote := bid, lastAskQuote := ask } = f s) :
    (onSymbols A opsOk st symbols).2.map f = symbols.map f := by
  induction symbols generalizing st with
  | nil => rfl
  | cons s rest ih =>
    obtain ⟨mid, bid, ask, shown⟩ := @onSymbol_symbol A st opsOk s
    rw [onSymbols, List.map_cons, List.map_cons, shown, same, ih]

theorem onSymbols_sends (opsOk : Bool) (symbols : List SymState) :
    Sends st (onSymbols A opsOk st symbols).1 := by
  induction symbols generalizing st with
  | nil => exact .refl st
  | cons s rest ih => exact (onSymbol_sends opsOk s).trans ih

theorem foldl_cancelSides_sends (symbols : List SymState) :
    Sends st (symbols.foldl (cancelSides A) st) := by
  induction symbols generalizing st with
  | nil => exact .refl st
  | cons s rest ih => exact (cancelSides_sends s).trans ih

theorem cancelAll_sends : Sends st (st.cancelAll A) := foldl_cancelSides_sends st.strat.syms

/-- What is quoted for a symbol does not depend on the orders. -/
theorem Sends.decideQuotes (sends : Sends st st') (s : SymState) :
    st'.decideQuotes A s = st.decideQuotes A s := by
  obtain ⟨impl', strat'⟩ := st'
  have strat := sends.strat
  have impl := sends.impl
  dsimp only at strat impl
  rw [strat, impl]
  rfl

end Session

/-! ## A platform to look at -/

/-- Contracts of tick 5 and lot 15, at 10:00. -/
def contracts : ConnectImpl := { symInfo := fun _ => some ⟨5, 15⟩, seconds := 10 * 3600 - 19800 }

/-- The first symbols from 46483 on. -/
def configured (n : Nat) : Int → Int := Function.update (fun i => 45732 + i) 16 n

/-- The first of them quoted and running, with a daily price range and room for ten lots. -/
def limited (dprLo dprHi units bid ask : Int) : ConnectImpl :=
  { contracts with
    maxInv := Function.update (fun _ => none) 46483 (some 10)
    dpr := Function.update (fun _ => none) 46483 (some (dprLo, dprHi))
    inventory := Function.update (fun _ => none) 46483 (some units)
    ticks := Function.update (fun _ => {}) 46483 ⟨bid, ask, 100, 100⟩
    isRunning := true }

private theorem tick_pos : 0 < (5 : Int) := by decide

private theorem lot_pos : 0 < (15 : Int) := by decide

def oneSymbol : SymState :=
  { id := 46483, tickSize := 5, lotSize := 15, tickSize_pos := tick_pos, lotSize_pos := lot_pos }

end NseHft.Irage
