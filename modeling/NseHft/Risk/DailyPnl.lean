import Mathlib.Algebra.BigOperators.Group.Finset.Basic
import Mathlib.Data.List.Infix
import NseHft.Risk.RiskManager

/-!
# Daily profit and loss

What the daily PnL should be: all cash moved by fills plus every position at the last
price it traded at. The risk manager accumulates the cash of all tokens but marks only the
token of the fill at hand.
-/
namespace NseHft

open FixedWidth

/-- The book-keeping that fills imply, over exact integers. -/
structure Ledger where
  cash : Int := 0
  position : Nat → Int := fun _ => 0
  lastPrice : Nat → Int := fun _ => 0

namespace Ledger

def signedQty (fill : FillReport) : Int := if fill.side = kBuy then fill.fillQty else -fill.fillQty

def record (l : Ledger) (fill : FillReport) : Ledger where
  cash := l.cash - signedQty fill * fill.fillPrice
  position := Function.update l.position fill.token (l.position fill.token + signedQty fill)
  lastPrice := Function.update l.lastPrice fill.token fill.fillPrice

def after (fills : List FillReport) : Ledger := fills.foldl record {}

/-- Value of a set of positions at their last prices. -/
def marked (l : Ledger) (tokens : Finset Nat) : Int :=
  ∑ t ∈ tokens, l.position t * l.lastPrice t

def value (l : Ledger) : Int := l.cash + l.marked (Finset.range kSymbolTableSize)

/-- Value of the positions in all tokens but one. -/
def others (l : Ledger) (token : Nat) : Int := l.marked ((Finset.range kSymbolTableSize).erase token)

theorem value_eq (l : Ledger) {token : Nat} (inRange : token < kSymbolTableSize) :
    l.value = l.cash + l.position token * l.lastPrice token + l.others token := by
  rw [value, others, marked, marked,
    ← Finset.add_sum_erase _ _ (Finset.mem_range.mpr inRange), add_assoc]

/-- Flat positions do not count. -/
theorem others_of_flat (l : Ledger) (token : Nat) (flat : ∀ t, t ≠ token → l.position t = 0) :
    l.others token = 0 := by
  rw [others, marked]
  refine Finset.sum_eq_zero fun t member => ?_
  rw [flat t (Finset.ne_of_mem_erase member), Int.zero_mul]

theorem after_concat (fills : List FillReport) (fill : FillReport) :
    after (fills ++ [fill]) = (after fills).record fill := by
  simp only [after, List.foldl_append, List.foldl_cons, List.foldl_nil]

end Ledger

section Pnl

variable (symbols : Option SymbolMaster) (cfg : RiskConfig)

/-- The risk manager after a list of fills, over exact integers. -/
def riskAfter (fills : List FillReport) : RiskManager :=
  fills.foldl (RiskManager.onFill .exact) (.new symbols cfg)

theorem riskAfter_concat (fills : List FillReport) (fill : FillReport) :
    riskAfter symbols cfg (fills ++ [fill]) =
      (riskAfter symbols cfg fills).onFill .exact fill := by
  simp only [riskAfter, List.foldl_append, List.foldl_cons, List.foldl_nil]

variable {symbols cfg}

/-- What a fill of a valid token does. -/
theorem onFill_exact (rm : RiskManager) (fill : FillReport) (inRange : fill.token < kSymbolTableSize) :
    let rm' := rm.onFill .exact fill
    rm'.cfg = rm.cfg ∧
    rm'.position = Function.update rm.position fill.token
      (rm.position fill.token + Ledger.signedQty fill) ∧
    rm'.cashflowPaisa = rm.cashflowPaisa - Ledger.signedQty fill * fill.fillPrice ∧
    rm'.markPnlInr = (rm'.cashflowPaisa + rm'.position fill.token * fill.fillPrice).tdiv 100 ∧
    (rm'.dailyLossKill = true ↔
      rm'.markPnlInr < -rm.cfg.maxDailyLossInr ∨ rm.dailyLossKill = true) := by
  have valid : ¬ fill.token ≥ kSymbolTableSize := Nat.not_le.mpr inRange
  simp only [RiskManager.onFill, if_neg valid, RiskManager.recomputePnl, Arithmetic.exact, id,
    Ledger.signedQty, true_and]
  refine ⟨?_, ?_⟩
  · rw [Int.neg_mul, ← Int.sub_eq_add_neg]
  · split <;> simp_all

/-- The risk manager keeps cash and positions as the ledger does. -/
theorem riskAfter_refines (fills : List FillReport)
    (inRange : ∀ f ∈ fills, f.token < kSymbolTableSize) :
    (riskAfter symbols cfg fills).cfg = cfg ∧
    (riskAfter symbols cfg fills).position = (Ledger.after fills).position ∧
    (riskAfter symbols cfg fills).cashflowPaisa = (Ledger.after fills).cash := by
  induction fills using List.reverseRecOn with
  | nil => exact ⟨rfl, rfl, rfl⟩
  | append_singleton fills fill ih =>
    rw [List.forall_mem_append] at inRange
    obtain ⟨sameCfg, positions, cash⟩ := ih inRange.1
    obtain ⟨cfg', positions', cash', _, _⟩ :=
      onFill_exact (riskAfter symbols cfg fills) fill (inRange.2 fill (List.mem_singleton_self _))
    rw [riskAfter_concat, Ledger.after_concat]
    exact ⟨cfg'.trans sameCfg, by rw [positions', positions]; rfl, by rw [cash', cash]; rfl⟩

/-- The mark after a fill: all cash, but only the position of that token. -/
private theorem mark_concat (fills : List FillReport) (fill : FillReport)
    (inRange : ∀ f ∈ fills ++ [fill], f.token < kSymbolTableSize) :
    (riskAfter symbols cfg (fills ++ [fill])).dailyPnlInr =
      ((Ledger.after (fills ++ [fill])).cash + (Ledger.after (fills ++ [fill])).position fill.token *
        (Ledger.after (fills ++ [fill])).lastPrice fill.token).tdiv 100 := by
  obtain ⟨_, positions, cash⟩ := @riskAfter_refines symbols cfg _ inRange
  obtain ⟨_, _, _, mark, _⟩ := onFill_exact (riskAfter symbols cfg fills) fill
    (inRange fill (by simp))
  have last : (Ledger.after (fills ++ [fill])).lastPrice fill.token = fill.fillPrice := by
    rw [Ledger.after_concat]
    simp [Ledger.record]
  rw [← riskAfter_concat] at mark
  rw [RiskManager.dailyPnlInr, mark, positions, cash, last]

/-- The kill switch remembers every mark below the threshold. -/
private theorem kill_iff (fills : List FillReport)
    (inRange : ∀ f ∈ fills, f.token < kSymbolTableSize) :
    (riskAfter symbols cfg fills).dailyLossKill = true ↔
      ∃ pre, pre <+: fills ∧ pre ≠ [] ∧
        (riskAfter symbols cfg pre).dailyPnlInr < -cfg.maxDailyLossInr := by
  induction fills using List.reverseRecOn with
  | nil => simp [riskAfter, RiskManager.new]
  | append_singleton fills fill ih =>
    rw [List.forall_mem_append] at inRange
    obtain ⟨_, _, _, _, kill⟩ := onFill_exact (riskAfter symbols cfg fills) fill
      (inRange.2 fill (List.mem_singleton_self _))
    rw [← riskAfter_concat, (riskAfter_refines fills inRange.1).1, ih inRange.1] at kill
    rw [kill]
    constructor
    · rintro (below | ⟨pre, isPrefix, nonempty, below⟩)
      · exact ⟨_, List.prefix_refl _, by simp, below⟩
      · exact ⟨pre, isPrefix.trans (List.prefix_append _ _), nonempty, below⟩
    · rintro ⟨pre, isPrefix, nonempty, below⟩
      -- either the mark of the last fill or an earlier one
      rcases List.prefix_concat_iff.mp isPrefix with rfl | earlier
      · exact .inl below
      · exact .inr ⟨pre, earlier, nonempty, below⟩

end Pnl

/-- The daily PnL and its kill switch are right after every fill exactly when after every
fill the positions in the other tokens, at their last prices, do not change the truncated
hundredth. -/
theorem daily_pnl_accurate_iff (symbols : Option SymbolMaster) (cfg : RiskConfig)
    (fills : List FillReport) (inRange : ∀ f ∈ fills, f.token < 65536) :
    (∀ pre, pre <+: fills → pre ≠ [] →
      (riskAfter symbols cfg pre).dailyPnlInr = (Ledger.after pre).value.tdiv 100 ∧
      ((riskAfter symbols cfg pre).dailyLossKill = true ↔
        ∃ earlier, earlier <+: pre ∧ earlier ≠ [] ∧
          (Ledger.after earlier).value.tdiv 100 < -cfg.maxDailyLossInr)) ↔
    ∀ pre fill, pre ++ [fill] <+: fills →
      let l := Ledger.after (pre ++ [fill])
      (l.cash + l.position fill.token * l.lastPrice fill.token + l.others fill.token).tdiv 100 =
        (l.cash + l.position fill.token * l.lastPrice fill.token).tdiv 100 := by
  have prefixRange {pre : List FillReport} (isPrefix : pre <+: fills) :
      ∀ f ∈ pre, f.token < kSymbolTableSize := fun f member => inRange f (isPrefix.subset member)
  constructor
  · intro accurate pre fill isPrefix l
    have range := prefixRange isPrefix
    have mark := (accurate _ isPrefix (by simp)).1
    rw [mark_concat pre fill range, Ledger.value_eq _ (range fill (by simp))] at mark
    exact mark.symm
  · intro negligible
    have marks {pre : List FillReport} (isPrefix : pre <+: fills) (nonempty : pre ≠ []) :
        (riskAfter symbols cfg pre).dailyPnlInr = (Ledger.after pre).value.tdiv 100 := by
      obtain ⟨init, fill, rfl⟩ := (List.eq_nil_or_concat' pre).resolve_left nonempty
      have range := prefixRange isPrefix
      rw [mark_concat init fill range, Ledger.value_eq _ (range fill (by simp))]
      exact (negligible init fill isPrefix).symm
    intro pre isPrefix nonempty
    refine ⟨marks isPrefix nonempty, ?_⟩
    rw [kill_iff pre (prefixRange isPrefix)]
    -- the switch compares the marks, and all of them are right
    refine exists_congr fun earlier => and_congr_right fun within => and_congr_right fun some => ?_
    rw [marks (within.trans isPrefix) some]

/-- One position: bought 10 at 100. -/
theorem daily_pnl_accurate_iff_one_token :
    (riskAfter none {} [{ token := 7, fillPrice := 100, fillQty := 10 }]).dailyPnlInr =
      (Ledger.after [{ token := 7, fillPrice := 100, fillQty := 10 }]).value.tdiv 100 := by
  refine ((daily_pnl_accurate_iff none {} [{ token := 7, fillPrice := 100, fillQty := 10 }]
    (by decide)).mpr ?_ _ (List.prefix_refl _) (by simp)).1
  intro pre fill isPrefix l
  have parts : pre = [] ∧ fill = { token := 7, fillPrice := 100, fillQty := 10 } := by
    obtain ⟨rest, equal⟩ := isPrefix
    cases pre with
    | nil => simpa using (List.cons.inj equal).1
    | cons first pre => simp at equal
  obtain ⟨rfl, rfl⟩ := parts
  have flat : l.others 7 = 0 := by
    apply Ledger.others_of_flat
    intro t other
    exact Function.update_of_ne other _ _
  rw [flat, Int.add_zero]

private def twoTokens : List FillReport :=
  [{ token := 1, fillPrice := 10000, fillQty := 1 }, { token := 2, fillPrice := 100, fillQty := 1 }]

/-- Two tokens bought and nothing lost: the second fill shows a loss of 100 rupees, and trips
the kill switch when 50 are allowed. -/
theorem second_token_shows_loss :
    (riskAfter none { maxDailyLossInr := 50 } twoTokens).dailyPnlInr = -100 ∧
    (riskAfter none { maxDailyLossInr := 50 } twoTokens).dailyLossKill = true ∧
    (Ledger.after twoTokens).value.tdiv 100 = 0 ∧
    (Ledger.after (twoTokens.take 1)).value.tdiv 100 = 0 := by
  refine ⟨by decide, by decide, ?_, ?_⟩
  · have first : (Ledger.after twoTokens).others 2 = 10000 := by
      rw [Ledger.others, Ledger.marked, Finset.sum_eq_single 1]
      · decide
      · intro t member other
        have flat : (Ledger.after twoTokens).position t = 0 := by
          have second := Finset.ne_of_mem_erase member
          simp [Ledger.after, twoTokens, Ledger.record, Function.update_of_ne, other, second]
        rw [flat, Int.zero_mul]
      · exact fun absent => absurd (by simp [kSymbolTableSize]) absent
    rw [@Ledger.value_eq _ 2 (by decide), first]
    decide
  · have flat : (Ledger.after (twoTokens.take 1)).others 1 = 0 := by
      apply Ledger.others_of_flat
      intro t other
      exact Function.update_of_ne other _ _
    rw [@Ledger.value_eq _ 1 (by decide), flat]
    decide

end NseHft
