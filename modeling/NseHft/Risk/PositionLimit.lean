import Mathlib.Algebra.Order.BigOperators.Group.List
import Mathlib.Algebra.Order.Group.Abs
import Mathlib.Algebra.Order.Group.Int
import NseHft.Risk.DailyPnl

/-!
# Position limit

`check` projects the filled position and the order at hand, in whole lots. Orders that were
approved earlier and are still unfilled do not count, so the limit only holds over runs in
which the approvals also stay within it together with everything still working.
-/
namespace NseHft

open FixedWidth

/-- An approved order and what of it is not yet filled. -/
structure WorkingOrder where
  order : Order
  remaining : Int
  deriving DecidableEq

/-- The risk manager with the orders it has approved. -/
structure Desk where
  rm : RiskManager
  working : List WorkingOrder

namespace Desk

/-- Unfilled quantity of the working orders on one side of a token. -/
def openQty (side : Side) (token : Nat) (working : List WorkingOrder) : Int :=
  ((working.filter fun w => w.order.side = side ∧ w.order.token = token).map
    WorkingOrder.remaining).sum

def check (s : Desk) (wallClock : Nat) (o : Order) : Desk :=
  let (reason, rm) := s.rm.check .wrapping wallClock o
  ⟨rm, if reason = .approved then ⟨o, o.qty⟩ :: s.working else s.working⟩

/-- The net position that the configuration allows in a token. -/
def limit (cfg : RiskConfig) (symbols : Option SymbolMaster) (token : Nat) : Int :=
  let lot := ((symbols.map fun sm => sm.getLotSize token).getD 0)
  cfg.maxTokenPositionLots * if lot > 0 then lot else 1

/-- The order fits the limit together with the position and all that is working on its side;
or the limit is beyond the range of a position. -/
def FitsExposure (s : Desk) (o : Order) : Prop :=
  let limit := limit s.rm.cfg s.rm.symbols o.token
  2 ^ 31 ≤ limit ∨
    if o.side = kBuy then s.rm.position o.token + openQty kBuy o.token s.working + o.qty ≤ limit
    else -limit ≤ s.rm.position o.token - openQty kSell o.token s.working - o.qty

/-- Interleavings of checks and fills from a fresh risk manager, with clock, reference and
kill switch updates in between. Every fill belongs to an approved order and takes at most
what remains of it. `guard` restricts which orders are approved in which state. -/
inductive Run (guard : Desk → Order → Prop) (symbols : Option SymbolMaster) (cfg : RiskConfig) :
    Desk → Prop
  | start : Run guard symbols cfg ⟨.new symbols cfg, []⟩
  | check {s : Desk} (wallClock : Nat) (o : Order) : Run guard symbols cfg s →
      ((s.rm.check .wrapping wallClock o).1 = .approved → guard s o) →
      Run guard symbols cfg (s.check wallClock o)
  | fill {s : Desk} {pre post : List WorkingOrder} {w : WorkingOrder} (fill : FillReport) :
      Run guard symbols cfg s → s.working = pre ++ w :: post →
      fill.token = w.order.token → fill.side = w.order.side →
      0 ≤ fill.fillQty → fill.fillQty ≤ w.remaining →
      Run guard symbols cfg ⟨s.rm.onFill .wrapping fill,
        pre ++ { w with remaining := w.remaining - fill.fillQty } :: post⟩
  | setNow {s : Desk} (istNs : Nat) : Run guard symbols cfg s →
      Run guard symbols cfg { s with rm := s.rm.setNow istNs }
  | updateReference {s : Desk} (token : Nat) (bid ask : Int) : Run guard symbols cfg s →
      Run guard symbols cfg { s with rm := s.rm.updateReference token bid ask }
  | setKillSwitch {s : Desk} (on : Bool) : Run guard symbols cfg s →
      Run guard symbols cfg { s with rm := s.rm.setKillSwitch on }

end Desk

namespace RiskManager

variable {A : Arithmetic} {rm : RiskManager}

theorem consumeRateToken_frame (rm : RiskManager) (now : Nat) :
    (rm.consumeRateToken now).2.position = rm.position ∧
      (rm.consumeRateToken now).2.cfg = rm.cfg ∧
      (rm.consumeRateToken now).2.symbols = rm.symbols := by
  simp only [consumeRateToken]
  split_ifs <;> exact ⟨rfl, rfl, rfl⟩

/-- A check consumes at most a rate token. -/
theorem check_frame (rm : RiskManager) (wallClock : Nat) (o : Order) :
    (rm.check A wallClock o).2.position = rm.position ∧
      (rm.check A wallClock o).2.cfg = rm.cfg ∧
      (rm.check A wallClock o).2.symbols = rm.symbols := by
  simp only [check]
  generalize (if rm.simNowNs ≠ 0 then rm.simNowNs else wallClock) = now
  have frame := rm.consumeRateToken_frame now
  split
  · exact ⟨rfl, rfl, rfl⟩
  · split
    next equal => rwa [equal] at frame
    next equal => rwa [equal] at frame

theorem gate_ne_approved (now : Nat) (o : Order) : rm.gate A now o ≠ some .approved := by
  simp only [gate]
  split_ifs <;> simp

/-- Approval means that no gate objects and that a rate token is left. -/
theorem check_approved_iff (wallClock : Nat) (o : Order) :
    (rm.check A wallClock o).1 = .approved ↔
      rm.gate A (if rm.simNowNs ≠ 0 then rm.simNowNs else wallClock) o = none ∧
      (rm.consumeRateToken (if rm.simNowNs ≠ 0 then rm.simNowNs else wallClock)).1 = true := by
  simp only [check]
  generalize (if rm.simNowNs ≠ 0 then rm.simNowNs else wallClock) = now
  have objection := @gate_ne_approved A rm now o
  split
  next reason failed =>
    rw [failed] at objection
    simp [failed, show reason ≠ .approved from fun equal => objection (equal ▸ rfl)]
  next passed => split <;> simp_all

theorem check_approved_qty {wallClock : Nat} {o : Order}
    (approved : (rm.check A wallClock o).1 = .approved) : 0 < o.qty :=
  (gate_eq_none_iff.mp ((check_approved_iff wallClock o).mp approved).1).size.1

/-- The position after a fill, as a 32-bit sum. -/
theorem onFill_position (rm : RiskManager) (fill : FillReport) :
    (rm.onFill .wrapping fill).position = if fill.token ≥ kSymbolTableSize then rm.position else
      Function.update rm.position fill.token
        (i32 (rm.position fill.token + Ledger.signedQty fill)) := by
  simp only [onFill]
  split
  · rfl
  · simp only [recomputePnl, Arithmetic.wrapping, Ledger.signedQty]
    congr 1
    split
    · exact Int.add_bmod_bmod
    · simp only [i32, Int.bmod_bmod, Int.add_bmod_bmod]

end RiskManager

namespace Desk

section Exposure

variable {side : Side} {token : Nat} {pre post : List WorkingOrder} {w : WorkingOrder}

theorem openQty_append (xs ys : List WorkingOrder) :
    openQty side token (xs ++ ys) = openQty side token xs + openQty side token ys := by
  simp [openQty]

theorem openQty_cons (w : WorkingOrder) (xs : List WorkingOrder) :
    openQty side token (w :: xs) =
      (if w.order.side = side ∧ w.order.token = token then w.remaining else 0) +
        openQty side token xs := by
  by_cases here : w.order.side = side ∧ w.order.token = token <;> simp [openQty, here]

theorem openQty_nonneg {working : List WorkingOrder} (nonneg : ∀ w ∈ working, 0 ≤ w.remaining) :
    0 ≤ openQty side token working := by
  apply List.sum_nonneg
  intro qty member
  obtain ⟨w, inFilter, rfl⟩ := List.mem_map.mp member
  exact nonneg w (List.mem_of_mem_filter inFilter)

/-- A fill takes its quantity off the side and token it belongs to. -/
theorem openQty_fill (qty : Int) :
    openQty side token (pre ++ { w with remaining := w.remaining - qty } :: post) =
      openQty side token (pre ++ w :: post) -
        if w.order.side = side ∧ w.order.token = token then qty else 0 := by
  rw [openQty_append, openQty_append, openQty_cons, openQty_cons]
  dsimp only
  split_ifs <;> omega

end Exposure

/-- Position and working orders of every token are within its limit, unless the limit is
beyond the range of a position. -/
structure Bounded (symbols : Option SymbolMaster) (cfg : RiskConfig) (s : Desk) : Prop where
  symbols_eq : s.rm.symbols = symbols
  cfg_eq : s.rm.cfg = cfg
  nonneg : ∀ w ∈ s.working, 0 ≤ w.remaining
  fits : ∀ token, FitsI32 (s.rm.position token)
  exposure : ∀ token, limit cfg symbols token < 2 ^ 31 →
    s.rm.position token + openQty kBuy token s.working ≤ limit cfg symbols token ∧
    -limit cfg symbols token ≤ s.rm.position token - openQty kSell token s.working

section Invariant

variable {symbols : Option SymbolMaster} {cfg : RiskConfig} {s : Desk}

theorem limit_nonneg (lots : 0 ≤ cfg.maxTokenPositionLots) (token : Nat) :
    0 ≤ limit cfg symbols token := by
  simp only [limit]
  apply Int.mul_nonneg lots
  split <;> omega

private theorem start_bounded (lots : 0 ≤ cfg.maxTokenPositionLots) :
    Bounded symbols cfg ⟨.new symbols cfg, []⟩ := by
  refine ⟨rfl, rfl, by simp, fun _ => (by decide : FitsI32 0), fun token _ => ?_⟩
  have bound := @limit_nonneg symbols cfg lots token
  simp only [RiskManager.new, openQty, List.filter_nil, List.map_nil, List.sum_nil]
  omega

private theorem check_bounded (bounded : Bounded symbols cfg s) (wallClock : Nat) (o : Order)
    (guarded : (s.rm.check .wrapping wallClock o).1 = .approved → s.FitsExposure o) :
    Bounded symbols cfg (s.check wallClock o) := by
  obtain ⟨position, cfg_eq, symbols_eq⟩ := @RiskManager.check_frame .wrapping s.rm wallClock o
  by_cases approved : (s.rm.check .wrapping wallClock o).1 = .approved
  -- the approved order is working from now on, so its guard has to pay for it
  · have qty := RiskManager.check_approved_qty approved
    have fit := guarded approved
    simp only [check, if_pos approved]
    refine ⟨symbols_eq.trans bounded.symbols_eq, cfg_eq.trans bounded.cfg_eq, ?_, ?_, ?_⟩
    · exact List.forall_mem_cons.mpr ⟨le_of_lt qty, bounded.nonneg⟩
    · rw [position]
      exact bounded.fits
    · intro token small
      obtain ⟨buys, sells⟩ := bounded.exposure token small
      rw [position, openQty_cons, openQty_cons]
      simp only [FitsExposure, bounded.cfg_eq, bounded.symbols_eq] at fit
      -- the other tokens are not affected
      by_cases here : o.token = token
      · subst here
        cases side : o.side <;> simp [side] at fit ⊢ <;> omega
      · simp only [here, and_false, if_false]
        omega
  · simp only [check, if_neg approved]
    exact ⟨symbols_eq.trans bounded.symbols_eq, cfg_eq.trans bounded.cfg_eq, bounded.nonneg,
      position ▸ bounded.fits, position ▸ bounded.exposure⟩

private theorem onFill_frame (rm : RiskManager) (fill : FillReport) :
    (rm.onFill .wrapping fill).cfg = rm.cfg ∧ (rm.onFill .wrapping fill).symbols = rm.symbols := by
  simp only [RiskManager.onFill]
  split <;> exact ⟨rfl, rfl⟩

private theorem fill_bounded {pre post : List WorkingOrder} {w : WorkingOrder}
    (bounded : Bounded symbols cfg s) (fill : FillReport) (member : s.working = pre ++ w :: post)
    (token : fill.token = w.order.token) (side : fill.side = w.order.side)
    (nonneg : 0 ≤ fill.fillQty) (enough : fill.fillQty ≤ w.remaining) :
    Bounded symbols cfg ⟨s.rm.onFill .wrapping fill,
      pre ++ { w with remaining := w.remaining - fill.fillQty } :: post⟩ := by
  obtain ⟨cfg_eq, symbols_eq⟩ := onFill_frame s.rm fill
  have position := s.rm.onFill_position fill
  have remaining : ∀ w' ∈ pre ++ { w with remaining := w.remaining - fill.fillQty } :: post,
      0 ≤ w'.remaining := by
    have old := bounded.nonneg
    rw [member, List.forall_mem_append, List.forall_mem_cons] at old
    rw [List.forall_mem_append, List.forall_mem_cons]
    exact ⟨old.1, by dsimp only; omega, old.2.2⟩
  refine ⟨symbols_eq.trans bounded.symbols_eq, cfg_eq.trans bounded.cfg_eq, remaining, ?_, ?_⟩
  · intro t
    rw [position]
    split
    · exact bounded.fits t
    · rw [Function.update_apply]
      split
      · exact i32_fits _
      · exact bounded.fits t
  · intro t small
    obtain ⟨buys, sells⟩ := bounded.exposure t small
    have buysLeft : 0 ≤ openQty kBuy t _ := openQty_nonneg remaining
    have sellsLeft : 0 ≤ openQty kSell t _ := openQty_nonneg remaining
    rw [openQty_fill, ← member] at buysLeft sellsLeft
    rw [openQty_fill, openQty_fill, ← member, position]
    rw [← side, ← token] at buysLeft sellsLeft ⊢
    by_cases outside : fill.token ≥ kSymbolTableSize
    · rw [if_pos outside]
      split_ifs <;> omega
    rw [if_neg outside]
    by_cases here : t = fill.token
    · -- what the position gains or loses was counted as working
      subst here
      rw [Function.update_self]
      -- the sum stays within the limit and hence does not wrap
      have signed : i32 (s.rm.position fill.token + Ledger.signedQty fill) =
          s.rm.position fill.token + Ledger.signedQty fill := by
        apply i32_eq_self
        simp only [FitsI32, Ledger.signedQty]
        cases buy : fill.side <;> simp [buy] at buysLeft sellsLeft ⊢ <;> omega
      rw [signed, Ledger.signedQty]
      cases buy : fill.side <;> simp [buy] at buysLeft sellsLeft ⊢ <;> omega
    · rw [Function.update_of_ne here]
      simp only [Ne.symm here, and_false, if_false]
      omega

theorem Run.bounded (lots : 0 ≤ cfg.maxTokenPositionLots)
    (run : Run FitsExposure symbols cfg s) : Bounded symbols cfg s := by
  induction run with
  | start => exact start_bounded lots
  | check wallClock o _ guarded ih => exact check_bounded ih wallClock o guarded
  | fill fill _ member token side nonneg enough ih =>
    exact fill_bounded ih fill member token side nonneg enough
  | setNow _ _ ih => exact ⟨ih.symbols_eq, ih.cfg_eq, ih.nonneg, ih.fits, ih.exposure⟩
  | updateReference token bid ask _ ih =>
    simp only [RiskManager.updateReference]
    split <;> exact ⟨ih.symbols_eq, ih.cfg_eq, ih.nonneg, ih.fits, ih.exposure⟩
  | setKillSwitch _ _ ih => exact ⟨ih.symbols_eq, ih.cfg_eq, ih.nonneg, ih.fits, ih.exposure⟩

end Invariant

/-- The net position stays within the limit in every run whose approvals fit it together
with the orders that are still working. -/
theorem position_within_limit (symbols : Option SymbolMaster) (cfg : RiskConfig) (s : Desk)
    (lots : 0 ≤ cfg.maxTokenPositionLots) (run : Run FitsExposure symbols cfg s) (token : Nat) :
    |s.rm.positionOf token| ≤ limit cfg symbols token := by
  have bounded := run.bounded lots
  have bound := @limit_nonneg symbols cfg lots token
  have buys : 0 ≤ openQty kBuy token s.working := openQty_nonneg bounded.nonneg
  have sells : 0 ≤ openQty kSell token s.working := openQty_nonneg bounded.nonneg
  have fits := bounded.fits token
  have exposure := bounded.exposure token
  rw [abs_le, RiskManager.positionOf]
  simp only [FitsI32] at fits
  split
  -- beyond the range of a position the limit holds by the type alone
  · by_cases small : limit cfg symbols token < 2 ^ 31
    · have := exposure small
      omega
    · omega
  · omega

private def oneShare : Order := { token := 7, segment := kSegmentCm, price := 100, qty := 1 }

private def oneLot : RiskConfig := { maxTokenPositionLots := 1 }

/-- A fresh desk at 10:00 IST. -/
private def tenOClock : Desk := ⟨(RiskManager.new none oneLot).setNow 36000000000000, []⟩

private theorem tenOClock_run (guard : Desk → Order → Prop) : Run guard none oneLot tenOClock :=
  Run.setNow 36000000000000 .start

private def oneShareFill : FillReport := { token := 7, fillQty := 1, fillPrice := 100 }

/-- The first share is approved within the limit of one, and filled. -/
theorem position_within_limit_one_fill :
    ∃ s, Run FitsExposure none oneLot s ∧ s.rm.positionOf 7 = 1 ∧
      |s.rm.positionOf 7| ≤ limit oneLot none 7 := by
  have approved := (tenOClock_run FitsExposure).check 0 oneShare fun _ => .inr (by decide)
  have working : (tenOClock.check 0 oneShare).working = [] ++ ⟨oneShare, 1⟩ :: [] := by
    decide +kernel
  have filled := approved.fill oneShareFill working rfl rfl (by decide) (by decide)
  exact ⟨_, filled, by decide +kernel, position_within_limit none oneLot _ (by decide) filled 7⟩

/-- Two orders of one share are approved before either is filled. -/
theorem position_exceeds_limit :
    ∃ s, Run (fun _ _ => True) none oneLot s ∧ |s.rm.positionOf 7| > limit oneLot none 7 := by
  have first := (tenOClock_run fun _ _ => True).check 0 oneShare fun _ => trivial
  have both := first.check 0 oneShare fun _ => trivial
  have working : ((tenOClock.check 0 oneShare).check 0 oneShare).working =
      [] ++ ⟨oneShare, 1⟩ :: [⟨oneShare, 1⟩] := by decide +kernel
  have filled := both.fill oneShareFill working rfl rfl (by decide) (by decide)
  have left : [] ++ { order := oneShare, remaining := 1 - 1 } :: [⟨oneShare, 1⟩] =
      [⟨oneShare, 0⟩] ++ (⟨oneShare, 1⟩ : WorkingOrder) :: [] := rfl
  have again := filled.fill oneShareFill left rfl rfl (by decide) (by decide)
  exact ⟨_, again, by decide +kernel⟩

end Desk

end NseHft
