import NseHft.Irage.KillSwitch

/-!
# Blotter and metrics

The blotter shows a profit for each symbol, the metrics one for the whole portfolio. Cash is kept
in one counter for all symbols. The metrics add it to the value of the positions once, the blotter
adds all of it to the position of every symbol.
-/
namespace NseHft.Irage

open FixedWidth

/-- The fields of the blotter that the strategy fills in. -/
inductive UiFlid where
  | position
  | bidQuote
  | askQuote
  | fills
  | pnlPaise
  deriving DecidableEq, Repr

def UiFlid.code : UiFlid → Int
  | position => 9810
  | bidQuote => 9811
  | askQuote => 9812
  | fills => 9813
  | pnlPaise => 9814

namespace Session

variable (A : Arithmetic) (st : Session)

def findSym (id : Int) : Option SymState := st.strat.syms.find? fun s => s.id = id

/-- What is shown of a symbol, in the order in which it is written; nothing of an unknown one. -/
def uiFields (id : Int) : List (UiFlid × Int) :=
  match st.findSym id with
  | none => []
  | some s =>
    let position := st.impl.getInventory id
    -- the cash of all symbols together
    let pnl := A.i64 (st.strat.cashPaise + A.i64 (position * s.lastMid))
    [(.position, position), (.bidQuote, s.lastBidQuote), (.askQuote, s.lastAskQuote),
      (.fills, st.strat.fills), (.pnlPaise, pnl)]

def uiEntry (field : UiFlid × Int) : String :=
  toString field.1.code ++ "=" ++ toString field.2 ++ "^"

def getUIData (id : Int) (oss : String) : String :=
  oss ++ String.join ((st.uiFields A id).map uiEntry)

/-- The inventory over all symbols; the loop of `onTimerUpdate` sums it together with
`markValue`. -/
def totalPosition : Int :=
  st.strat.syms.foldl (fun position s => A.i64 (position + st.impl.getInventory s.id)) 0

/-- The inventory over all symbols at the last mid prices. -/
def markValue : Int :=
  st.strat.syms.foldl
    (fun markValue s => A.i64 (markValue + A.i64 (st.impl.getInventory s.id * s.lastMid))) 0

/-- The profit of the portfolio in paise. -/
def portfolioPnl : Int := A.i64 (st.strat.cashPaise + st.markValue A)

/-- The line that is appended to the metrics, if they are switched on and the file opens. -/
def onTimerUpdate (opens : Bool) : Option String :=
  if st.strat.metricsPath.isEmpty then none
  else
    -- whole rupees, toward zero
    let pnlInr := (st.portfolioPnl A).tdiv 100
    if !opens then none
    else
      some ("\x7b\"t\":" ++ toString st.impl.seconds ++ ",\"events\":0" ++
        ",\"orders_sent\":" ++ toString st.strat.ordersSent ++ ",\"orders_rejected\":0" ++
        ",\"fills\":" ++ toString st.strat.fills ++
        ",\"position\":" ++ toString (st.totalPosition A) ++ ",\"pnl_inr\":" ++ toString pnlInr ++
        ",\"lat_p50\":0,\"lat_p99\":0,\"lat_p999\":0\x7d\n")

/-- The sum of a field over what the blotter shows of the configured symbols. -/
def uiSum (flid : UiFlid) : Int :=
  (st.strat.syms.filterMap fun s => (st.uiFields A s.id).lookup flid).sum

/-! ### Cash over a run -/

/-- What a report of an execution pays in. -/
def proceeds : Event → Int
  | .report .exec e =>
    match e.orderSide with
    | .buy => -(e.fillQty * e.price)
    | .sell => e.fillQty * e.price
  | _ => 0

def netCash (events : List Event) : Int := (events.map proceeds).sum

/-- Between the two sessions an amount is paid in, and the symbols are the same. -/
structure Pays (paise : Int) (st st' : Session) : Prop where
  ids : st'.strat.syms.map SymState.id = st.strat.syms.map SymState.id
  cash : st'.strat.cashPaise = i64 (st.strat.cashPaise + paise)

variable {A st} {st' st'' : Session}

theorem Pays.trans {paise paise' : Int} (first : Pays paise st st') (second : Pays paise' st' st'') :
    Pays (paise + paise') st st'' where
  ids := second.ids.trans first.ids
  cash := by rw [second.cash, first.cash, i64_i64_add, Int.add_assoc]

theorem Pays.nothing (fits : FitsI64 st.strat.cashPaise)
    (ids : st'.strat.syms.map SymState.id = st.strat.syms.map SymState.id)
    (same : st'.strat.cashPaise = st.strat.cashPaise) : Pays 0 st st' :=
  ⟨ids, by rw [same, Int.add_zero, i64_eq_self _ fits]⟩

theorem onMarketData_pays (fits : FitsI64 st.strat.cashPaise) :
    Pays 0 st (st.onMarketData A).2 := by
  have swept := (@cancelAll_sends A st).strat
  rcases @onMarketData_cases A st with
    ⟨_, call⟩ | ⟨_, _, call⟩ | ⟨_, _, _, call⟩ | ⟨_, _, _, call⟩ <;> rw [call]
  · exact .nothing fits rfl rfl
  · exact .nothing fits (by rw [swept]) (by rw [swept])
  · exact .nothing fits (by rw [swept]) (by rw [swept])
  · have pass := (@onSymbols_sends A st st.opsOk st.strat.syms).strat
    refine .nothing fits (onSymbols_map st.opsOk st.strat.syms fun _ _ _ _ => rfl) ?_
    simp only [quoteAll]
    rw [pass]

theorem updateSym_ids (id : Int) {f : SymState → SymState} (same : ∀ s, (f s).id = s.id)
    (symbols : List SymState) :
    (updateSym id f symbols).map SymState.id = symbols.map SymState.id := by
  induction symbols with
  | nil => rfl
  | cons s rest ih =>
    rw [updateSym]
    split
    · rw [List.map_cons, List.map_cons, same]
    · rw [List.map_cons, List.map_cons, ih]

theorem countRejects_ids (f : Int → Int) (e : ExecReport) :
    (st.countRejects f e).strat.syms.map SymState.id = st.strat.syms.map SymState.id := by
  apply updateSym_ids
  intro s
  cases e.orderSide <;> rfl

theorem onExec_pays (e : ExecReport) :
    Pays (proceeds (.report .exec e)) st (st.onExec .wrapping e) := by
  refine ⟨countRejects_ids _ e, ?_⟩
  simp only [onExec, countRejects, proceeds, Arithmetic.wrapping]
  cases e.orderSide with
  | buy => exact Int.sub_bmod_bmod
  | sell => exact i64_add_i64 _ _

theorem onReport_pays (fits : FitsI64 st.strat.cashPaise) (kind : ReportKind) (e : ExecReport) :
    Pays (proceeds (.report kind e)) st (st.onReport .wrapping e kind) := by
  have onRej : Pays 0 st (st.onRej .wrapping e) := by
    rw [Session.onRej]
    split
    · exact .nothing fits (countRejects_ids _ e) rfl
    · exact .nothing fits rfl rfl
  cases kind with
  | exec => exact onExec_pays e
  | ack => exact .nothing fits (countRejects_ids _ e) rfl
  | cxl => exact .nothing fits rfl rfl
  | rej | rplRej | lighteningRej => exact onRej

theorem step_pays (fits : FitsI64 st.strat.cashPaise) (event : Event) :
    Pays (proceeds event) st (step .wrapping st event).2 := by
  cases event with
  | marketData => exact onMarketData_pays fits
  | report kind e => exact onReport_pays fits kind e
  | update updateMap =>
    obtain ⟨_, _, _, _, _, updated⟩ := foldl_updateParam_frame updateMap st.strat
    refine .nothing fits ?_ ?_ <;> simp only [step, Session.update, updated]
  | _ => exact .nothing fits rfl rfl

theorem run_pays (fits : FitsI64 st.strat.cashPaise) (events : List Event) :
    Pays (netCash events) st (st.run .wrapping events) := by
  induction events generalizing st with
  | nil => exact .nothing fits rfl rfl
  | cons event rest ih =>
    -- the counter is in its range again, as the next step needs it
    have now := step_pays fits event
    exact now.trans (ih (now.cash ▸ i64_fits _))

/-! ### The two reports -/

/-- The exact value of a position at the last mid price. -/
def marked (st : Session) (s : SymState) : Int := st.impl.getInventory s.id * s.lastMid

theorem findSym_eq (distinct : (st.strat.syms.map SymState.id).Nodup) {s : SymState}
    (member : s ∈ st.strat.syms) : st.findSym s.id = some s := by
  rw [findSym]
  generalize st.strat.syms = symbols at distinct member
  induction symbols with
  | nil => cases member
  | cons first rest ih =>
    rw [List.map_cons, List.nodup_cons] at distinct
    rcases List.mem_cons.mp member with rfl | later
    · simp
    · have other : first.id ≠ s.id := fun same =>
        distinct.1 (same ▸ List.mem_map_of_mem later)
      rw [List.find?_cons_of_neg (by simpa using other)]
      exact ih distinct.2 later

theorem uiSum_pnl (distinct : (st.strat.syms.map SymState.id).Nodup) :
    st.uiSum .wrapping .pnlPaise =
      (st.strat.syms.map fun s => i64 (st.strat.cashPaise + st.marked s)).sum := by
  rw [uiSum, ← List.filterMap_eq_map]
  congr 1
  apply List.filterMap_congr
  intro s member
  simp only [uiFields, findSym_eq distinct member, Function.comp_apply]
  exact congrArg some (i64_add_i64 _ _)

theorem portfolioPnl_eq (st : Session) :
    st.portfolioPnl .wrapping = i64 (st.strat.cashPaise + (st.strat.syms.map st.marked).sum) := by
  have total : st.markValue .wrapping = i64 (st.strat.syms.map st.marked).sum := by
    have sum := foldl_i64 st.marked st.strat.syms 0
    rw [Int.zero_add] at sum
    rw [← sum, markValue]
    simp only [Arithmetic.wrapping, i64_add_i64]
    rfl
  rw [portfolioPnl, total]
  exact i64_add_i64 _ _

/-- How often the values of the symbols go around, less the laps of the portfolio's value. -/
def lostLaps (st : Session) : Int :=
  (st.strat.syms.map fun s => laps (st.strat.cashPaise + st.marked s)).sum -
    laps (st.strat.cashPaise + (st.strat.syms.map st.marked).sum)

/-- The exact values of both reports are 64-bit numbers. -/
structure Representable (st : Session) : Prop where
  shown : ∀ s ∈ st.strat.syms, FitsI64 (st.strat.cashPaise + st.marked s)
  total : FitsI64 (st.strat.cashPaise + (st.strat.syms.map st.marked).sum)

theorem Representable.lostLaps_eq (representable : st.Representable) : st.lostLaps = 0 := by
  have none : ∀ s ∈ st.strat.syms, laps (st.strat.cashPaise + st.marked s) = 0 :=
    fun s member => laps_eq_zero (representable.shown s member)
  rw [lostLaps, laps_eq_zero representable.total, List.map_congr_left none]
  simp

/-- The blotter counts the cash once for every symbol. -/
theorem uiSum_pnl_eq (distinct : (st.strat.syms.map SymState.id).Nodup) :
    st.uiSum .wrapping .pnlPaise + 2 ^ 64 * st.lostLaps =
      st.portfolioPnl .wrapping + (st.strat.syms.length - 1) * st.strat.cashPaise := by
  rw [uiSum_pnl distinct, sum_i64_add, portfolioPnl_eq, i64_eq_sub_laps, lostLaps, Int.sub_mul,
    Int.one_mul]
  omega

/-- After any events the profits shown add up to that of the portfolio exactly if the cash that
is counted again for every further symbol is lost in laps. Without overflow this leaves a single
symbol, or no cash. -/
theorem ui_pnl_adds_up_iff (impl : ConnectImpl) (configMap : Int → Int) (start : Session)
    (started : initializeStrat impl configMap = .ok start)
    (distinct : (start.strat.syms.map SymState.id).Nodup) (events : List Event) :
    let st := start.run .wrapping events
    st.strat.cashPaise = i64 (netCash events) ∧
    (st.uiSum .wrapping .pnlPaise = st.portfolioPnl .wrapping ↔
      ((start.strat.syms.length : Int) - 1) * st.strat.cashPaise = 2 ^ 64 * st.lostLaps) ∧
    (st.Representable →
      (st.uiSum .wrapping .pnlPaise = st.portfolioPnl .wrapping ↔
        start.strat.syms.length = 1 ∨ st.strat.cashPaise = 0)) := by
  intro st
  have opening : start.strat.cashPaise = 0 := by
    obtain ⟨syms, metricsPath, rfl⟩ := initializeStrat_ok started
    rfl
  have pays : Pays (netCash events) start st := run_pays (by rw [opening]; decide) events
  have symbols : st.strat.syms.length = start.strat.syms.length := by
    simpa using congrArg List.length pays.ids
  -- the symbols are still those of the configuration
  have sum := uiSum_pnl_eq (pays.ids ▸ distinct)
  rw [symbols] at sum
  have counted : st.uiSum .wrapping .pnlPaise = st.portfolioPnl .wrapping ↔
      ((start.strat.syms.length : Int) - 1) * st.strat.cashPaise = 2 ^ 64 * st.lostLaps := by
    omega
  refine ⟨by rw [pays.cash, opening, Int.zero_add], counted, fun representable => ?_⟩
  rw [counted, representable.lostLaps_eq, Int.mul_zero, Int.mul_eq_zero]
  omega

/-- The first symbol is quoted, its ask of 15 is taken, and the platform counts the position. -/
private def oneSale : List Event :=
  [.setRunning true, .setMtick 46483 ⟨7200, 7210, 100, 100⟩, .marketData,
    .report .exec { securityId := 46483, price := 7215, orderSide := .sell, fillQty := 15 },
    .setInventory 46483 (-15)]

theorem single_symbol_adds_up :
    ∃ start, initializeStrat contracts (configured 1) = .ok start ∧
      (start.run .wrapping oneSale).uiSum .wrapping .pnlPaise =
        (start.run .wrapping oneSale).portfolioPnl .wrapping := by
  refine ⟨_, rfl, ?_⟩
  exact ((ui_pnl_adds_up_iff contracts (configured 1) _ rfl (by decide) oneSale).2.1).mpr
    (by decide +kernel)

/-- With a second symbol that never trades, the blotter shows the cash of 108225 again. -/
theorem idle_symbol_shows_cash :
    ∃ start, initializeStrat contracts (configured 2) = .ok start ∧
      (start.run .wrapping oneSale).uiSum .wrapping .pnlPaise = 150 + 108225 ∧
      (start.run .wrapping oneSale).portfolioPnl .wrapping = 150 :=
  ⟨_, rfl, by decide +kernel, by decide +kernel⟩

end Session

end NseHft.Irage
