import Mathlib.Data.Rat.Defs
import NseHft.Common.TimeUtils
import NseHft.Session.SymbolMaster

/-!
# Pre-trade risk manager

Every order passes `check`. The functions take the arithmetic they are read over. The rate
bucket holds rationals where the source has doubles; the wall clock is an argument, read
only when no simulated time is set.
-/
namespace NseHft

open FixedWidth

inductive RejectReason where
  | approved
  | killSwitch
  | outsideMarketHours
  | orderTooLarge
  | lotSizeMismatch
  | priceBandBreach
  | priceSanity
  | positionLimit
  | rateLimitExceeded
  deriving DecidableEq, Repr

structure RiskConfig where
  maxOrdersPerSec : Int := 1000
  maxOrderQty : Int := 10000
  maxTokenPositionLots : Int := 100
  maxCmNotionalInr : Int := 1000000000
  maxDailyLossInr : Int := 100000
  allowPreopen : Bool := false
  priceSanityPct : Int := 2
  deriving DecidableEq, Repr

structure RiskManager where
  symbols : Option SymbolMaster
  cfg : RiskConfig
  position : Nat → Int := fun _ => 0
  refBid : Nat → Int := fun _ => 0
  refAsk : Nat → Int := fun _ => 0
  tokens : ℚ
  lastRefillNs : Nat := 0
  killSwitch : Bool := false
  dailyLossKill : Bool := false
  cashflowPaisa : Int := 0
  markPnlInr : Int := 0
  simNowNs : Nat := 0

namespace RiskManager

variable (A : Arithmetic)

def new (symbols : Option SymbolMaster) (cfg : RiskConfig) : RiskManager :=
  { symbols := symbols, cfg := cfg, tokens := cfg.maxOrdersPerSec }

def setNow (rm : RiskManager) (istNs : Nat) : RiskManager := { rm with simNowNs := istNs }

def updateReference (rm : RiskManager) (token : Nat) (bid ask : Int) : RiskManager :=
  if token < kSymbolTableSize then
    { rm with
      refBid := Function.update rm.refBid token bid
      refAsk := Function.update rm.refAsk token ask }
  else rm

def setKillSwitch (rm : RiskManager) (on : Bool) : RiskManager := { rm with killSwitch := on }

def killSwitchActive (rm : RiskManager) : Bool := rm.killSwitch || rm.dailyLossKill

/-- The public reader; the gates index the table directly. -/
def positionOf (rm : RiskManager) (token : Nat) : Int :=
  if token < kSymbolTableSize then rm.position token else 0

def dailyPnlInr (rm : RiskManager) : Int := rm.markPnlInr

def lotSize (rm : RiskManager) (token : Nat) : Int :=
  match rm.symbols with
  | some symbols => symbols.getLotSize token
  | none => 0

def priceSane (rm : RiskManager) (o : Order) : Bool :=
  -- against the opposite touch; without a reference every price is sane
  let ref := if o.side = kBuy then rm.refAsk o.token else rm.refBid o.token
  if ref ≤ 0 then true
  else
    let diff := if o.price > ref then A.i64 (o.price - ref) else A.i64 (ref - o.price)
    decide (A.i64 (diff * 100) ≤ A.i64 (ref * rm.cfg.priceSanityPct))

def positionOk (rm : RiskManager) (o : Order) (lot : Int) : Bool :=
  let signedQty := if o.side = kBuy then o.qty else A.i32 (-o.qty)
  let projected := A.i64 (rm.position o.token + signedQty)
  let l := if lot > 0 then lot else 1
  -- whole lots only: a remainder below one lot is cut off
  let lots := projected.tdiv l
  let lots := if lots < 0 then A.i64 (-lots) else lots
  if lots > rm.cfg.maxTokenPositionLots then false
  -- notional guard on this order in the cash market
  else if o.segment = kSegmentCm ∧ (A.i64 (o.qty * o.price)).tdiv 100 > rm.cfg.maxCmNotionalInr then
    false
  else true

def consumeRateToken (rm : RiskManager) (now : Nat) : Bool × RiskManager :=
  let ratePerNs : ℚ := rm.cfg.maxOrdersPerSec / kNsPerSecond
  -- the first call only starts the clock of the bucket
  let rm := if rm.lastRefillNs = 0 then { rm with lastRefillNs := now } else rm
  let rm :=
    if now > rm.lastRefillNs then
      let tokens := rm.tokens + (now - rm.lastRefillNs : Nat) * ratePerNs
      let cap : ℚ := rm.cfg.maxOrdersPerSec
      { rm with tokens := if tokens > cap then cap else tokens, lastRefillNs := now }
    else rm
  if rm.tokens ≥ 1 then (true, { rm with tokens := rm.tokens - 1 }) else (false, rm)

/-- The first failing reason before the rate limiter, if any. -/
def gate (rm : RiskManager) (now : Nat) (o : Order) : Option RejectReason :=
  let lot := rm.lotSize o.token
  if rm.killSwitch || rm.dailyLossKill then some .killSwitch
  else if !isWithinMarketHours now && !(rm.cfg.allowPreopen && isPreopen now) then
    some .outsideMarketHours
  else if o.qty ≤ 0 ∨ o.qty > rm.cfg.maxOrderQty then some .orderTooLarge
  else if o.segment = kSegmentFo ∧ lot > 0 ∧ o.qty.tmod lot ≠ 0 then some .lotSizeMismatch
  else if ∃ band ∈ priceBand A.i64 rm.symbols o.token, o.price < band.1 ∨ o.price > band.2 then
    some .priceBandBreach
  else if !rm.priceSane A o then some .priceSanity
  else if !rm.positionOk A o lot then some .positionLimit
  else none

/-- What an order satisfies that passes every gate. -/
structure Passes (rm : RiskManager) (now : Nat) (o : Order) : Prop where
  alive : (rm.killSwitch || rm.dailyLossKill) = false
  hours : isWithinMarketHours now = true ∨ rm.cfg.allowPreopen = true ∧ isPreopen now = true
  size : 0 < o.qty ∧ o.qty ≤ rm.cfg.maxOrderQty
  lot : o.segment = kSegmentFo → 0 < rm.lotSize o.token → o.qty.tmod (rm.lotSize o.token) = 0
  band : ∀ band ∈ priceBand A.i64 rm.symbols o.token, band.1 ≤ o.price ∧ o.price ≤ band.2
  sane : rm.priceSane A o = true
  position : rm.positionOk A o (rm.lotSize o.token) = true

/-- The single pre-trade gate; `wallClock` is what `ist_now_ns` reads. -/
def check (rm : RiskManager) (wallClock : Nat) (o : Order) : RejectReason × RiskManager :=
  let now := if rm.simNowNs ≠ 0 then rm.simNowNs else wallClock
  match rm.gate A now o with
  | some reason => (reason, rm)
  | none =>
    match rm.consumeRateToken now with
    | (true, rm) => (.approved, rm)
    | (false, rm) => (.rateLimitExceeded, rm)

def recomputePnl (rm : RiskManager) (token : Nat) (markPaisa : Int) : RiskManager :=
  let posValuePaisa := A.i64 (rm.position token * markPaisa)
  let pnlPaisa := A.i64 (rm.cashflowPaisa + posValuePaisa)
  let markPnlInr := pnlPaisa.tdiv 100
  { rm with
    markPnlInr := markPnlInr
    -- the switch latches: a recovery does not reset it
    dailyLossKill := if markPnlInr < A.i64 (-rm.cfg.maxDailyLossInr) then true else rm.dailyLossKill }

def onFill (rm : RiskManager) (fill : FillReport) : RiskManager :=
  if fill.token ≥ kSymbolTableSize then rm
  else
    let signedQty := if fill.side = kBuy then fill.fillQty else A.i32 (-fill.fillQty)
    let rm := { rm with
      position := Function.update rm.position fill.token
        (A.i32 (rm.position fill.token + A.i32 signedQty))
      -- buys spend cash, sells receive cash
      cashflowPaisa := A.i64 (rm.cashflowPaisa + A.i64 (A.i64 (-signedQty) * fill.fillPrice)) }
    rm.recomputePnl A fill.token fill.fillPrice

variable {A}

private theorem reject_eq_none_iff {c : Prop} [Decidable c] {reason : RejectReason}
    {later : Option RejectReason} :
    (if c then some reason else later) = none ↔ ¬c ∧ later = none := by
  split <;> simp [*]

theorem gate_eq_none_iff {rm : RiskManager} {now : Nat} {o : Order} :
    rm.gate A now o = none ↔ rm.Passes A now o := by
  simp only [gate, reject_eq_none_iff, and_true]
  constructor
  · rintro ⟨killed, closed, size, lot, band, sane, position⟩
    refine ⟨by simpa using killed, ?_, by omega, ?_, ?_, by simpa using sane, by simpa using position⟩
    · simpa [Decidable.or_iff_not_imp_left] using closed
    · intro futures listed
      by_contra odd
      exact lot ⟨futures, listed, odd⟩
    · intro range known
      by_contra outside
      exact band ⟨range, known, by omega⟩
  · rintro ⟨alive, hours, size, lot, band, sane, position⟩
    refine ⟨by simp [alive], ?_, by omega, ?_, ?_, by simp [sane], by simp [position]⟩
    · simpa [Decidable.or_iff_not_imp_left] using hours
    · exact fun odd => odd.2.2 (lot odd.1 odd.2.1)
    · rintro ⟨range, known, outside⟩
      have := band range known
      omega

/-- A check only takes from the rate limiter. -/
theorem check_switches (rm : RiskManager) (wallClock : Nat) (o : Order) :
    (rm.check A wallClock o).2.killSwitch = rm.killSwitch ∧
      (rm.check A wallClock o).2.dailyLossKill = rm.dailyLossKill := by
  simp only [check]
  generalize (if rm.simNowNs ≠ 0 then rm.simNowNs else wallClock) = now
  have frame : (rm.consumeRateToken now).2.killSwitch = rm.killSwitch ∧
      (rm.consumeRateToken now).2.dailyLossKill = rm.dailyLossKill := by
    simp only [consumeRateToken]
    split_ifs <;> exact ⟨rfl, rfl⟩
  split
  · exact ⟨rfl, rfl⟩
  · split
    next equal => rwa [equal] at frame
    next equal => rwa [equal] at frame

theorem check_killSwitchActive (rm : RiskManager) (wallClock : Nat) (o : Order) :
    (rm.check A wallClock o).2.killSwitchActive = rm.killSwitchActive := by
  obtain ⟨manual, latch⟩ := check_switches (A := A) rm wallClock o
  rw [killSwitchActive, killSwitchActive, manual, latch]

/-- A switch that is on rejects every order. -/
theorem check_killed {rm : RiskManager} (killed : rm.killSwitchActive = true) (wallClock : Nat)
    (o : Order) : (rm.check A wallClock o).1 = .killSwitch := by
  have on : (rm.killSwitch || rm.dailyLossKill) = true := killed
  simp [check, gate, on]

theorem updateReference_killSwitchActive (rm : RiskManager) (token : Nat) (bid ask : Int) :
    (rm.updateReference token bid ask).killSwitchActive = rm.killSwitchActive := by
  simp only [updateReference]
  split <;> rfl

end RiskManager

end NseHft
