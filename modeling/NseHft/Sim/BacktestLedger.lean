import NseHft.Pipeline.Accounting
import NseHft.Risk.DailyPnl
import NseHft.Sim.BacktestEngine
import NseHft.Strategy.InventoryCap

/-!
# The books of a backtest

A fill is entered four times: by the strategy and the risk manager as a position, by the risk
manager as cash, and by the engine as position, cash and fees. Each adds up in its own width. In
every run they all show the fills reported, as far as their width can.
-/
namespace NseHft

open FixedWidth

/-! ### What the simulator reports -/

namespace FillSimulator

variable {sim : FillSimulator} {token : Nat}

/-- All active quotes are for one token, which the tables have. -/
def OneToken (token : Nat) (sim : FillSimulator) : Prop :=
  ∀ side t, (sim.quote side t).active = true →
    (sim.quote side t).token = token ∧ token < kSimMaxTokens

/-- A fill of that token, of a quantity that fits. -/
structure Sound (token : Nat) (f : FillReport) : Prop where
  token_eq : f.token = token
  inside : token < kSimMaxTokens
  positive : 0 < f.fillQty
  small : f.fillQty < 2 ^ 31

theorem matchAgainst_fills (A : Arithmetic) (side : Side) (t : Nat) (tradeQty : Int) :
    (sim.matchAgainst A side t tradeQty).2.fills =
      sim.fills + (sim.matchAgainst A side t tradeQty).1.length := by
  have kept (q : SimQuote) : (sim.setQuote side t q).fills = sim.fills := by cases side <;> rfl
  simp only [matchAgainst]
  split
  · exact kept _
  · split
    · exact kept _
    · rfl

theorem matchAgainst_oneToken (one : OneToken token sim) (side : Side) (t : Nat) (tradeQty : Int)
    (active : (sim.quote side t).active = true) :
    (∀ f ∈ (sim.matchAgainst .wrapping side t tradeQty).1, Sound token f) ∧
      OneToken token (sim.matchAgainst .wrapping side t tradeQty).2 := by
  obtain ⟨q, writes, matched⟩ := @sim.matchAgainst_matched .wrapping side t tradeQty
  have here := one side t active
  generalize (sim.matchAgainst .wrapping side t tradeQty).1 = reports at matched
  have requoted (same : q.token = (sim.quote side t).token) :
      OneToken token (sim.matchAgainst .wrapping side t tradeQty).2 :=
    writes.all (P := fun _ _ q => q.active = true → q.token = token ∧ token < kSimMaxTokens)
      (fun _ => ⟨same.trans here.1, here.2⟩) fun s t' _ => one s t'
  cases matched with
  | absorbed => exact ⟨by simp, requoted rfl⟩
  | filled fillQty tradeNo taken positive =>
    refine ⟨List.forall_mem_singleton.mpr ⟨here.1, here.2, positive, ?_⟩, requoted rfl⟩
    have upper := (i32_fits (tradeQty - min (sim.quote side t).queueAhead tradeQty)).2
    have part : fillQty ≤ i32 (tradeQty - min (sim.quote side t).queueAhead tradeQty) :=
      taken ▸ Int.min_le_right _ _
    exact Int.lt_of_le_of_lt part upper

/-- What a trade does, on one side: sound fills, all counted, and quotes for the token only. -/
theorem onTrade_oneToken (one : OneToken token sim) (ev : MarketEvent) (side : Side) :
    (∀ f ∈ (sim.onTrade .wrapping ev side).1, Sound token f) ∧
      OneToken token (sim.onTrade .wrapping ev side).2 ∧
      (sim.onTrade .wrapping ev side).2.fills =
        sim.fills + (sim.onTrade .wrapping ev side).1.length := by
  simp only [onTrade]
  split
  next hit =>
    have active := (Bool.and_eq_true_iff.mp hit).1
    obtain ⟨sound, kept⟩ := matchAgainst_oneToken one side ev.token ev.qty active
    exact ⟨sound, kept, matchAgainst_fills .wrapping side ev.token ev.qty⟩
  · exact ⟨by simp, one, rfl⟩

theorem onEvent_oneToken (one : OneToken token sim) (ev : MarketEvent) :
    (∀ f ∈ (sim.onEvent .wrapping ev).1, Sound token f) ∧
      OneToken token (sim.onEvent .wrapping ev).2 ∧
      (sim.onEvent .wrapping ev).2.fills = sim.fills + (sim.onEvent .wrapping ev).1.length := by
  simp only [onEvent]
  split
  · exact ⟨by simp, one, rfl⟩
  split
  · exact ⟨by simp, one, rfl⟩
  · obtain ⟨bought, between, first⟩ := onTrade_oneToken one ev kBuy
    obtain ⟨sold, after, second⟩ := onTrade_oneToken between ev kSell
    refine ⟨List.forall_mem_append.mpr ⟨bought, sold⟩, after, ?_⟩
    dsimp only
    rw [second, first, List.length_append, Nat.add_assoc]

theorem registerOrder_oneToken (one : OneToken token sim) {o : Order} (same : o.token = token)
    (queueAhead : Int) : OneToken token (sim.registerOrder o queueAhead) ∧
      (sim.registerOrder o queueAhead).fills = sim.fills := by
  simp only [registerOrder]
  split
  · exact ⟨one, rfl⟩
  next inside =>
    refine ⟨?_, by cases o.side <;> rfl⟩
    apply (setQuote_writes sim o.side o.token _).all
      (P := fun _ _ q => q.active = true → q.token = token ∧ token < kSimMaxTokens)
    · exact fun _ => ⟨same, same ▸ Nat.lt_of_not_le inside⟩
    · exact fun s t _ => one s t

theorem registerOrders_oneToken (one : OneToken token sim) {orders : List Order}
    (same : ∀ o ∈ orders, o.token = token) (queueAhead : Order → Int) :
    OneToken token (orders.foldl (fun sim o => sim.registerOrder o (queueAhead o)) sim) ∧
      (orders.foldl (fun sim o => sim.registerOrder o (queueAhead o)) sim).fills = sim.fills := by
  induction orders generalizing sim with
  | nil => exact ⟨one, rfl⟩
  | cons o rest ih =>
    obtain ⟨here, others⟩ := List.forall_mem_cons.mp same
    obtain ⟨kept, count⟩ := registerOrder_oneToken one here (queueAhead o)
    obtain ⟨all, counts⟩ := ih kept others
    exact ⟨all, counts.trans count⟩

end FillSimulator

/-! ### The books -/

namespace RiskManager

/-- The cash after a fill, as a 64-bit sum. -/
theorem onFill_cashflow (rm : RiskManager) (fill : FillReport) (inRange : fill.token < kSymbolTableSize)
    (positive : 0 < fill.fillQty) (small : fill.fillQty < 2 ^ 31) :
    (rm.onFill .wrapping fill).cashflowPaisa =
      i64 (rm.cashflowPaisa - Ledger.signedQty fill * fill.fillPrice) := by
  have signed : (if fill.side = kBuy then fill.fillQty else i32 (-fill.fillQty)) =
      Ledger.signedQty fill := by
    rw [Ledger.signedQty]
    split
    · rfl
    · exact i32_eq_self _ (by simp only [FitsI32]; omega)
  have negated : i64 (-Ledger.signedQty fill) = -Ledger.signedQty fill := by
    apply i64_eq_self
    simp only [Ledger.signedQty, FitsI64]
    split <;> omega
  simp only [onFill, if_neg (Nat.not_le.mpr inRange), recomputePnl, Arithmetic.wrapping, signed,
    negated, i64_add_i64]
  rw [Int.neg_mul, ← Int.sub_eq_add_neg]

end RiskManager

namespace Backtest

open FillSimulator (OneToken Sound)

variable {args : BacktestArgs} {world : BacktestWorld} {bt bt' : Backtest} {ev : MarketEvent}

/-- What the fees of a list of reports add up to. -/
def feesOf (args : BacktestArgs) (reports : List FillReport) : Int :=
  (reports.map fun f => args.fees.costPaise .wrapping f.side f.fillPrice f.fillQty).sum

/-- All books show the reports. -/
structure Entered (args : BacktestArgs) (bt : Backtest) : Prop where
  strat : ∀ t, bt.pipe.strat.position t = i32 ((Ledger.after bt.reports).position t)
  risk : ∀ t, bt.pipe.risk.position t = i32 ((Ledger.after bt.reports).position t)
  cashflow : bt.pipe.risk.cashflowPaisa = i64 (Ledger.after bt.reports).cash
  cash : bt.cashPaisa = i64 (Ledger.after bt.reports).cash
  position : bt.position = i64 ((Ledger.after bt.reports).position args.token)
  fees : bt.feesPaisa = i64 (feesOf args bt.reports)
  fills : bt.makerFills = bt.reports.length

theorem onFill_entered (entered : Entered args bt) {f : FillReport} (sound : Sound args.token f) :
    Entered args (bt.onFill .wrapping args f) := by
  have inside : f.token < kSymbolTableSize := sound.token_eq ▸ sound.inside
  have record : Ledger.after (bt.reports ++ [f]) = (Ledger.after bt.reports).record f :=
    Ledger.after_concat _ _
  have here : f.token = args.token := sound.token_eq
  have moved (t : Nat) (z : Int) (same : z = i32 ((Ledger.after bt.reports).position t)) :
      (if t = f.token then i32 (z + Ledger.signedQty f) else z) =
        i32 (((Ledger.after bt.reports).record f).position t) := by
    simp only [Ledger.record, Function.update_apply, same]
    split
    next same => rw [same, i32, i32, Int.bmod_add_bmod, i32]
    · rfl
  refine ⟨fun t => ?_, fun t => ?_, ?_, ?_, ?_, ?_, ?_⟩
  · rw [onFill, record, ← moved t _ (entered.strat t)]
    have position := MarketMaking.History.onFill_position bt.pipe.strat f t
    have watched : f.token < kMaxTokens := inside
    simpa only [Pipeline.onFill, watched, true_and, Ledger.signedQty] using position
  · rw [onFill, record, ← moved t _ (entered.risk t)]
    have position := bt.pipe.risk.onFill_position f
    rw [if_neg (Nat.not_le.mpr inside)] at position
    simp only [Pipeline.onFill, position, Function.update_apply]
    split
    next same => rw [same]
    · rfl
  · have cash := bt.pipe.risk.onFill_cashflow f inside sound.positive sound.small
    rw [onFill, record]
    simp only [Pipeline.onFill, cash, entered.cashflow, Ledger.record, Int.sub_eq_add_neg, i64_i64_add]
  · rw [onFill, record]
    simp only [entered.cash, Ledger.record, Ledger.signedQty, Arithmetic.wrapping]
    split
    · simp only [i64, Int.bmod_sub_bmod, Int.sub_bmod_bmod]
    · rw [i64_i64_add, i64_add_i64, Int.neg_mul, Int.sub_neg]
  · rw [onFill, record]
    simp only [entered.position, Ledger.record, Ledger.signedQty, Arithmetic.wrapping, here,
      Function.update_self]
    split
    · exact i64_i64_add _ _
    · rw [Int.sub_eq_add_neg, i64_i64_add]
  · rw [onFill]
    simp only [entered.fees, feesOf, Arithmetic.wrapping, i64_i64_add, List.map_append,
      List.sum_append, List.map_singleton, List.sum_singleton]
  · rw [onFill, List.length_append, ← entered.fills]
    rfl

theorem foldl_onFill_entered (entered : Entered args bt) (reports : List FillReport)
    (sound : ∀ f ∈ reports, Sound args.token f) :
    Entered args (reports.foldl (onFill .wrapping args) bt) := by
  induction reports generalizing bt with
  | nil => exact entered
  | cons f rest ih =>
    obtain ⟨here, others⟩ := List.forall_mem_cons.mp sound
    exact ih (onFill_entered entered here) others

/-- The books show the reports, all of them for the one token that is watched, and the counters
of simulator, engine and pipeline agree on how many fills and orders there were. -/
structure Reconciled (args : BacktestArgs) (bt : Backtest) : Prop where
  entered : Entered args bt
  positive : 1 ≤ bt.pipe.strat.nextClordid
  watched : ∀ t, bt.pipe.books.getBook t ≠ none → t = args.token
  listed : ∀ o ∈ bt.pipe.sentOrders, o.token = args.token
  quotes : OneToken args.token bt.fillsim
  reports : ∀ f ∈ bt.reports, f.token = args.token
  filled : bt.fillsim.fills = bt.reports.length
  counted : Pipeline.Counted bt.pipe.stats bt.sent.length

theorem start_reconciled : Reconciled args (start args world) := by
  refine ⟨⟨fun _ => rfl, fun _ => rfl, rfl, rfl, rfl, rfl, rfl⟩, Int.le_refl 1, ?_,
    List.forall_mem_nil _, ?_, List.forall_mem_nil _, rfl, rfl, rfl, Nat.le_refl 0⟩
  · intro t watched
    by_contra other
    apply watched
    simp only [start, Pipeline.setNow, Pipeline.Setup.fresh, setup, BookManager.watching,
      List.foldl_cons, List.foldl_nil, BookManager.addToken, BookManager.getBook]
    split
    · rfl
    · split
      · rfl
      · exact Function.update_of_ne other (some _) fun _ => none
  · intro side t active
    cases side <;> cases active

theorem foldl_onFill_stats (reports : List FillReport) :
    (reports.foldl (onFill .wrapping args) bt).pipe.stats = bt.pipe.stats ∧
      (reports.foldl (onFill .wrapping args) bt).pipe.books = bt.pipe.books := by
  induction reports generalizing bt with
  | nil => exact ⟨rfl, rfl⟩
  | cons f rest ih => exact ih

theorem fillEvent_reconciled (kept : Reconciled args bt) (ev : MarketEvent) :
    Reconciled args (bt.fillEvent .wrapping args ev) := by
  obtain ⟨sound, quotes, count⟩ := FillSimulator.onEvent_oneToken kept.quotes ev
  have takes := @fillEvent_takesIn .wrapping args bt ev
  have unchanged : (bt.fillEvent .wrapping args ev).pipe.stats = bt.pipe.stats ∧
      (bt.fillEvent .wrapping args ev).pipe.books = bt.pipe.books := foldl_onFill_stats _
  constructor
  · apply foldl_onFill_entered _ _ sound
    obtain ⟨strat, risk, cashflow, cash, position, fees, fills⟩ := kept.entered
    exact ⟨strat, risk, cashflow, cash, position, fees, fills⟩
  · rw [takes.next_eq]
    exact kept.positive
  · rw [unchanged.2]
    exact kept.watched
  · rw [takes.last_eq]
    exact kept.listed
  · rw [takes.fillsim_eq]
    exact quotes
  · rw [takes.reports_eq]
    exact List.forall_mem_append.mpr ⟨kept.reports, fun f member => (sound f member).token_eq⟩
  · rw [takes.fillsim_eq, takes.reports_eq, List.length_append, ← kept.filled]
    exact count
  · rw [unchanged.1, takes.sent_eq]
    exact kept.counted

theorem processEvent_reconciled (kept : Reconciled args bt)
    (processed : bt.processEvent .wrapping args world ev = some bt') : Reconciled args bt' := by
  simp only [processEvent, Option.bind_eq_bind, Option.bind_eq_some_iff, Prod.exists] at processed
  obtain ⟨sent, pipe, returned, rest⟩ := processed
  obtain rfl := Option.some.inj rest
  have unmoved := Pipeline.process_unmoved returned
  have ours : ∀ o ∈ pipe.sentOrders, o.token = args.token := by
    intro o member
    rcases Pipeline.process_sentOrders returned o member with before | now
    · exact kept.listed o before
    · obtain ⟨same, watched⟩ := Pipeline.process_token kept.positive returned o now
      exact same.trans (kept.watched _ watched)
  have registered := FillSimulator.registerOrders_oneToken kept.quotes ours
  constructor
  · obtain ⟨strat, risk, cashflow, cash, position, fees, fills⟩ := kept.entered
    refine ⟨?_, ?_, ?_, cash, position, fees, fills⟩
    · rw [unmoved.strat]
      exact strat
    · rw [unmoved.risk]
      exact risk
    · rw [unmoved.cash]
      exact cashflow
  · exact Int.le_trans kept.positive (Pipeline.process_nextClordid returned)
  · exact fun t watched => kept.watched t (Pipeline.process_watched returned t watched)
  · exact ours
  · exact (registered _).1
  · exact kept.reports
  · exact (registered _).2.trans kept.filled
  · rw [List.length_append, List.length_map]
    exact Pipeline.process_counted returned kept.counted

theorem runEvents_reconciled (kept : Reconciled args bt) (events : List MarketEvent) :
    Reconciled args (bt.runEvents .wrapping args world events).1 := by
  induction events generalizing bt with
  | nil => exact kept
  | cons ev rest ih =>
    have filled := fillEvent_reconciled kept ev
    simp only [runEvents]
    split
    next => exact filled
    next next processed => exact ih (processEvent_reconciled filled processed)

/-- Profit before and after fees is cut to rupees apart, so the three figures are off by at most
one. -/
theorem tdiv_sub_close (gross fees : Int) :
    |(gross - fees).tdiv 100 - (gross.tdiv 100 - fees.tdiv 100)| ≤ 1 := by
  have cut (z : Int) : (0 ≤ z → 100 * z.tdiv 100 ≤ z ∧ z < 100 * z.tdiv 100 + 100) ∧
      (z ≤ 0 → z ≤ 100 * z.tdiv 100 ∧ 100 * z.tdiv 100 < z + 100) := by
    refine ⟨fun nonneg => ?_, fun nonpos => ?_⟩
    · rw [Int.tdiv_eq_ediv_of_nonneg nonneg]
      omega
    · have flipped : z.tdiv 100 = -((-z) / 100) := by
        rw [← Int.tdiv_eq_ediv_of_nonneg (by omega), Int.neg_tdiv, Int.neg_neg]
      omega
  have net := cut (gross - fees)
  have before := cut gross
  have cost := cut fees
  rw [abs_le]
  omega

/-- However a backtest runs, the four books of its fills agree: position of strategy, risk manager
and engine, and cash of risk manager and engine, each show the exact sum over the fills reported
up to the wrap of its own width. All fills are for the one token, the simulator's and the engine's
counts are their number, the orders sent are those counted, every generated order was approved or
rejected, and as long as the net profit does not wrap it differs from gross profit less fees by at
most one rupee. -/
theorem books_reconcile (args : BacktestArgs) (world : BacktestWorld) (events : List MarketEvent) :
    let bt := ((start args world).runEvents .wrapping args world events).1
    let ledger := Ledger.after bt.reports
    (∀ f ∈ bt.reports, f.token = args.token) ∧
    (∀ t, bt.pipe.strat.position t = i32 (ledger.position t) ∧
      bt.pipe.risk.position t = i32 (ledger.position t)) ∧
    bt.position = i64 (ledger.position args.token) ∧
    bt.cashPaisa = i64 ledger.cash ∧ bt.pipe.risk.cashflowPaisa = i64 ledger.cash ∧
    bt.feesPaisa = i64 (feesOf args bt.reports) ∧
    bt.makerFills = bt.reports.length ∧ bt.fillsim.fills = bt.reports.length ∧
    bt.pipe.stats.ordersSent = bt.sent.length ∧
    bt.pipe.stats.ordersGenerated = bt.pipe.stats.ordersApproved + bt.pipe.stats.ordersRejected ∧
    bt.pipe.stats.ordersSent ≤ bt.pipe.stats.ordersApproved ∧
    (FitsI64 (i64 (bt.cashPaisa + bt.position * bt.mark) - bt.feesPaisa) →
      |(bt.result .wrapping).pnlInr -
        ((bt.result .wrapping).grossPnlInr - (bt.result .wrapping).feesInr)| ≤ 1) := by
  obtain ⟨entered, _, _, _, _, reports, filled, counted⟩ :=
    runEvents_reconciled (@start_reconciled args world) events
  intro bt ledger
  refine ⟨reports, fun t => ⟨entered.strat t, entered.risk t⟩, entered.position, entered.cash,
    entered.cashflow, entered.fees, entered.fills, filled, counted.sent_eq, counted.generated,
    counted.sent_le, fun fits => ?_⟩
  have net : (bt.result .wrapping).pnlInr =
      (i64 (bt.cashPaisa + bt.position * bt.mark) - bt.feesPaisa).tdiv 100 := by
    simp only [result, Arithmetic.wrapping, i64_add_i64]
    rw [i64_eq_self _ fits]
  have gross : (bt.result .wrapping).grossPnlInr =
      (i64 (bt.cashPaisa + bt.position * bt.mark)).tdiv 100 := by
    simp only [result, Arithmetic.wrapping, i64_add_i64]
  rw [net, gross]
  exact tdiv_sub_close _ _

end Backtest

end NseHft
