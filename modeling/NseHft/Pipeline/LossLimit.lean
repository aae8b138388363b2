import NseHft.Pipeline.BookIsolation
import NseHft.Risk.DailyPnl

/-!
# The loss limit stops trading

Every fill marks the profit of the day: all the cash that has moved, and the position of the token
just filled. The first mark below the limit sets a switch that nothing resets, and from then on the
pipeline sends no order. As long as nothing overflows, the switch is that of the exact ledger.
-/
namespace NseHft

open FixedWidth

/-! ### Marks -/

namespace Ledger

/-- The profit that a fill is marked with, in rupees. The positions in other tokens are left out. -/
def markAt (l : Ledger) (fill : FillReport) : Int :=
  (l.cash + l.position fill.token * fill.fillPrice).tdiv 100

/-- One of the fills left a mark below the limit. -/
def Breached (limit : Int) (fills : List FillReport) : Prop :=
  ∃ before fill, before ++ [fill] <+: fills ∧ (after (before ++ [fill])).markAt fill < -limit

/-- The machine books the fill without overflow: its signed quantity and the position are
32-bit integers, and the money it moves, the cash, the value of the position and the mark are
64-bit ones. -/
structure Books (l : Ledger) (fill : FillReport) : Prop where
  qty : FitsI32 (signedQty fill)
  position : FitsI32 ((l.record fill).position fill.token)
  moved : FitsI64 (-signedQty fill * fill.fillPrice)
  cash : FitsI64 (l.record fill).cash
  value : FitsI64 ((l.record fill).position fill.token * fill.fillPrice)
  mark : FitsI64 ((l.record fill).cash + (l.record fill).position fill.token * fill.fillPrice)

/-- None of the fills overflows anything when it is booked. -/
def NoOverflow (fills : List FillReport) : Prop :=
  ∀ before fill, before ++ [fill] <+: fills → (after before).Books fill

variable {limit : Int} {fills : List FillReport} {fill : FillReport}

theorem not_breached_nil : ¬ Breached limit [] := by
  rintro ⟨before, fill, early, _⟩
  simpa using List.prefix_nil.mp early

theorem breached_concat_iff :
    Breached limit (fills ++ [fill]) ↔
      (after (fills ++ [fill])).markAt fill < -limit ∨ Breached limit fills := by
  constructor
  · rintro ⟨before, last, early, below⟩
    rcases List.prefix_concat_iff.mp early with whole | earlier
    · obtain ⟨rfl, same⟩ := List.append_inj' whole rfl
      obtain rfl := List.singleton_inj.mp same
      exact .inl below
    · exact .inr ⟨before, last, earlier, below⟩
  · rintro (below | ⟨before, last, early, below⟩)
    · exact ⟨fills, fill, List.prefix_refl _, below⟩
    · exact ⟨before, last, early.trans (List.prefix_append _ _), below⟩

end Ledger

open Ledger (Breached)

/-! ### The switch -/

namespace RiskManager

variable {A : Arithmetic} {rm : RiskManager} {cfg : RiskConfig} {fills : List FillReport}

/-- Without overflow the machine's integers are the exact ones. -/
theorem onFill_wrapping {l : Ledger} {fill : FillReport} (position : rm.position = l.position)
    (cash : rm.cashflowPaisa = l.cash) (books : l.Books fill)
    (limit : FitsI64 (-rm.cfg.maxDailyLossInr)) : rm.onFill .wrapping fill = rm.onFill .exact fill := by
  obtain ⟨qty, held, moved, money, value, mark⟩ := books
  simp only [Ledger.record, Function.update_self, ← position, ← cash] at held money value mark
  have signed : (if fill.side = kBuy then fill.fillQty else i32 (-fill.fillQty)) =
      Ledger.signedQty fill := by
    simp only [Ledger.signedQty] at qty ⊢
    split at qty
    next buy => rw [if_pos buy, if_pos buy]
    next sell => rw [if_neg sell, if_neg sell, i32_eq_self _ qty]
  have unsigned : (if fill.side = kBuy then fill.fillQty else -fill.fillQty) =
      Ledger.signedQty fill := rfl
  have negated : FitsI64 (-Ledger.signedQty fill) := by
    simp only [FitsI32] at qty
    simp only [FitsI64]
    omega
  have cash' : rm.cashflowPaisa + -Ledger.signedQty fill * fill.fillPrice =
      rm.cashflowPaisa - Ledger.signedQty fill * fill.fillPrice := by
    rw [Int.neg_mul, ← Int.sub_eq_add_neg]
  simp only [onFill, recomputePnl, Arithmetic.wrapping, Arithmetic.exact, id, signed, unsigned,
    i32_eq_self _ qty, i32_eq_self _ held, i64_eq_self _ negated, i64_eq_self _ moved, cash',
    i64_eq_self _ money, Function.update_self, i64_eq_self _ value, i64_eq_self _ mark,
    i64_eq_self _ limit]

/-- The risk manager has taken in these fills, and its switch remembers their marks. -/
structure Tallied (cfg : RiskConfig) (fills : List FillReport) (rm : RiskManager) : Prop where
  cfg_eq : rm.cfg = cfg
  position : rm.position = (Ledger.after fills).position
  cash : rm.cashflowPaisa = (Ledger.after fills).cash
  latch : rm.dailyLossKill = true ↔ Breached cfg.maxDailyLossInr fills

theorem Tallied.onFill (tallied : Tallied cfg fills rm) {fill : FillReport}
    (inRange : fill.token < kSymbolTableSize) (books : (Ledger.after fills).Books fill)
    (limit : FitsI64 (-cfg.maxDailyLossInr)) :
    Tallied cfg (fills ++ [fill]) (rm.onFill .wrapping fill) := by
  obtain ⟨cfg_eq, position, cash, latch⟩ := tallied
  rw [onFill_wrapping position cash books (cfg_eq ▸ limit)]
  obtain ⟨cfg', position', cash', mark, kill⟩ := onFill_exact rm fill inRange
  have positions : (rm.onFill .exact fill).position = (Ledger.after (fills ++ [fill])).position := by
    rw [position', position, Ledger.after_concat]
    rfl
  have money : (rm.onFill .exact fill).cashflowPaisa = (Ledger.after (fills ++ [fill])).cash := by
    rw [cash', cash, Ledger.after_concat]
    rfl
  refine ⟨cfg'.trans cfg_eq, positions, money, ?_⟩
  rw [kill, latch, mark, positions, money, cfg_eq, Ledger.breached_concat_iff]
  rfl

theorem Tallied.check (tallied : Tallied cfg fills rm) (wallClock : Nat) (o : Order) :
    Tallied cfg fills (rm.check A wallClock o).2 := by
  obtain ⟨position, same, _⟩ := check_frame (A := A) rm wallClock o
  refine ⟨same.trans tallied.cfg_eq, position.trans tallied.position,
    (check_cashflow wallClock o).trans tallied.cash, ?_⟩
  rw [(check_switches rm wallClock o).2]
  exact tallied.latch

theorem Tallied.updateReference (tallied : Tallied cfg fills rm) (token : Nat) (bid ask : Int) :
    Tallied cfg fills (rm.updateReference token bid ask) := by
  obtain ⟨cfg_eq, position, cash, latch⟩ := tallied
  unfold RiskManager.updateReference
  split <;> exact ⟨cfg_eq, position, cash, latch⟩

theorem new_tallied (symbols : Option SymbolMaster) (cfg : RiskConfig) :
    Tallied cfg [] (RiskManager.new symbols cfg) :=
  ⟨rfl, rfl, rfl, iff_of_false Bool.false_ne_true Ledger.not_breached_nil⟩

end RiskManager

/-! ### The pipeline -/

namespace Pipeline

open RiskManager (Tallied)

variable {A : Arithmetic} {p p' : Pipeline} {fuel i : Nat} {clock : ClockReadings} {ev : MarketEvent}
  {sent : List SentOrder} {orders : List Order} {cfg : RiskConfig} {fills : List FillReport}

theorem sendOrders_tallied (tallied : Tallied cfg fills p.risk) :
    Tallied cfg fills (p.sendOrders A clock i orders).2.risk := by
  induction orders generalizing p i with
  | nil => exact tallied
  | cons o rest ih =>
    have here : Tallied cfg fills (p.sendOrder A clock i o).2.risk := by
      rw [sendOrder_risk]
      exact tallied.check _ _
    exact ih here

/-- An event is no fill. -/
theorem process_tallied (tallied : Tallied cfg fills p.risk)
    (returned : p.process A fuel clock ev = some (sent, p')) : Tallied cfg fills p'.risk := by
  rcases process_steps returned with ⟨_, _, rfl⟩ | ⟨_, _, book', _, _, ⟨_, rfl, _⟩ | ⟨loop, _⟩⟩
  · exact tallied
  · exact tallied.updateReference _ _ _
  · rw [(Prod.mk.inj loop).2]
    exact sendOrders_tallied (tallied.updateReference _ _ _)

theorem process_latched (latched : p.risk.killSwitchActive = true)
    (returned : p.process A fuel clock ev = some (sent, p')) :
    sent = [] ∧ p'.stats.ordersApproved = p.stats.ordersApproved := by
  rcases process_steps returned with ⟨_, rfl, rfl⟩ | ⟨_, _, book', _, _, ⟨rfl, rfl, _⟩ | ⟨loop, _⟩⟩
  · exact ⟨rfl, rfl⟩
  · exact ⟨rfl, rfl⟩
  · obtain ⟨rfl, rfl⟩ := Prod.mk.inj loop
    apply sendOrders_killed
    exact (RiskManager.updateReference_killSwitchActive _ _ _ _).trans latched

/-- The fill that a call reports. Risk ignores the fills of tokens beyond its tables. -/
def Call.fill : Call → Option FillReport
  | .onFill fill => if fill.token < kSymbolTableSize then some fill else none
  | _ => none

theorem performAll_tallied {calls : List Call} (limit : FitsI64 (-cfg.maxDailyLossInr))
    (tallied : Tallied cfg fills p.risk)
    (booked : Ledger.NoOverflow (fills ++ calls.filterMap Call.fill))
    (returned : Machine.checkedAfter (perform .wrapping fuel) p calls = some p') :
    Tallied cfg (fills ++ calls.filterMap Call.fill) p'.risk := by
  induction calls generalizing p fills with
  | nil =>
    obtain rfl := Option.some.inj returned
    simpa using tallied
  | cons call rest ih =>
    obtain ⟨⟨sent, q⟩, answered, later⟩ := Option.bind_eq_some_iff.mp returned
    cases call with
    | setNow istNs =>
      obtain ⟨_, rfl⟩ := Prod.mk.inj (Option.some.inj answered)
      have clocked : Tallied cfg fills (p.setNow istNs).risk :=
        ⟨tallied.cfg_eq, tallied.position, tallied.cash, tallied.latch⟩
      exact ih clocked booked later
    | process clock ev => exact ih (process_tallied tallied answered) booked later
    | onFill fill =>
      obtain ⟨_, rfl⟩ := Prod.mk.inj (Option.some.inj answered)
      by_cases inRange : fill.token < kSymbolTableSize
      · have head : (Call.onFill fill :: rest).filterMap Call.fill =
            fill :: rest.filterMap Call.fill := by simp [Call.fill, inRange]
        have split : fills ++ fill :: rest.filterMap Call.fill =
            (fills ++ [fill]) ++ rest.filterMap Call.fill := by simp
        rw [head, split] at booked ⊢
        have books := booked fills fill (List.prefix_append _ _)
        exact ih (tallied.onFill inRange books limit) booked later
      · have head : (Call.onFill fill :: rest).filterMap Call.fill = rest.filterMap Call.fill := by
          simp [Call.fill, inRange]
        have same : (p.onFill .wrapping fill).risk = p.risk := if_pos (Nat.le_of_not_lt inRange)
        rw [head] at booked ⊢
        exact ih (same ▸ tallied) booked later

/-- After any session without overflow the switch is set exactly when one of its fills left cash
and the position in its own token worth less than the limit, and then no event makes the pipeline
send or even approve an order any more. -/
theorem loss_limit_stops_trading (fuel : Nat) (s : Setup) (calls : List Call) (p : Pipeline)
    (limit : FitsI64 (-s.limits.maxDailyLossInr))
    (booked : Ledger.NoOverflow (calls.filterMap Call.fill))
    (returned : Machine.checkedAfter (perform .wrapping fuel) s.fresh calls = some p) :
    (p.risk.dailyLossKill = true ↔
      Breached s.limits.maxDailyLossInr (calls.filterMap Call.fill)) ∧
    (Breached s.limits.maxDailyLossInr (calls.filterMap Call.fill) →
      ∀ clock ev sent p', p.process .wrapping fuel clock ev = some (sent, p') →
        sent = [] ∧ p'.stats.ordersApproved = p.stats.ordersApproved) := by
  have tallied : Tallied s.limits ([] ++ calls.filterMap Call.fill) p.risk :=
    performAll_tallied limit (RiskManager.new_tallied s.riskSymbols s.limits) booked returned
  rw [List.nil_append] at tallied
  refine ⟨tallied.latch, ?_⟩
  intro breached clock ev sent p' processed
  have killed : p.risk.killSwitchActive = true := by
    rw [RiskManager.killSwitchActive, tallied.latch.mpr breached, Bool.or_true]
  exact process_latched killed processed

private def lossSetup : Setup :=
  { Setup.watching [(7, 5, 2)] with limits := { maxDailyLossInr := 50 } }

private def buyTwoTokens : List Call :=
  [.onFill { token := 1, fillPrice := 10000, fillQty := 1 },
    .onFill { token := 2, fillPrice := 100, fillQty := 1 }]

private theorem buyTwoTokens_booked : Ledger.NoOverflow (buyTwoTokens.filterMap Call.fill) := by
  intro before fill early
  have few := early.length_le
  rcases before with _ | ⟨first, _ | ⟨second, before⟩⟩
  · obtain ⟨rest, split⟩ := early
    obtain ⟨rfl, _⟩ := List.cons.inj split
    exact ⟨by decide, by decide, by decide, by decide, by decide, by decide⟩
  · obtain ⟨rest, split⟩ := early
    obtain ⟨rfl, tail⟩ := List.cons.inj split
    obtain ⟨rfl, _⟩ := List.cons.inj tail
    exact ⟨by decide, by decide, by decide, by decide, by decide, by decide⟩
  · simp [buyTwoTokens, Call.fill, kSymbolTableSize] at few

/-- Two tokens bought and nothing lost: the second mark leaves out what the first one is worth. -/
theorem second_token_stops_trading :
    ∃ p, Machine.checkedAfter (perform .wrapping 4) lossSetup.fresh buyTwoTokens = some p ∧
      p.risk.dailyLossKill = true ∧
      ∀ clock ev sent p', p.process .wrapping 4 clock ev = some (sent, p') → sent = [] := by
  obtain ⟨switch, stopped⟩ := loss_limit_stops_trading 4 lossSetup buyTwoTokens _ (by decide)
    buyTwoTokens_booked rfl
  have breached : Breached lossSetup.limits.maxDailyLossInr (buyTwoTokens.filterMap Call.fill) :=
    ⟨[{ token := 1, fillPrice := 10000, fillQty := 1 }], { token := 2, fillPrice := 100, fillQty := 1 },
      List.prefix_refl _, by decide⟩
  refine ⟨_, rfl, switch.mpr breached, ?_⟩
  intro clock ev sent p' processed
  exact (stopped breached clock ev sent p' processed).1

end Pipeline

end NseHft
