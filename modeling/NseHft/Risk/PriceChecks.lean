import NseHft.Risk.PositionLimit

/-!
# Exactness of the price checks

What an approved price satisfies over the integers. The circuit band and the sanity check are
computed with 64-bit products; an order can pass because one of them went around.
-/
namespace NseHft

open FixedWidth

/-- The width of the circuit band on either side of the previous close, rounded down. -/
def Instrument.bandWidth (inst : Instrument) : Int := inst.prevClose * inst.circuitPctX100 / 10000

/-- A band is defined for the instrument. -/
def Instrument.Banded (inst : Instrument) : Prop := 0 < inst.prevClose ∧ inst.circuitPctX100 ≠ 0

/-- The lower edge of the band before it is reduced to 64 bits, from the machine's product. -/
def Instrument.lowerEdge (inst : Instrument) : Int :=
  inst.prevClose - (i64 (inst.prevClose * inst.circuitPctX100)).tdiv 10000

namespace RiskManager

def instrument (rm : RiskManager) (token : Nat) : Option Instrument :=
  rm.symbols.bind fun symbols => symbols.get token

/-- The touch that an order is compared with. -/
def reference (rm : RiskManager) (o : Order) : Int :=
  if o.side = kBuy then rm.refAsk o.token else rm.refBid o.token

/-- The price is within the band and within the tolerance around the reference. -/
structure PriceExact (rm : RiskManager) (o : Order) : Prop where
  band : ∀ inst ∈ rm.instrument o.token, inst.Banded →
    inst.prevClose - inst.bandWidth ≤ o.price ∧ o.price ≤ inst.prevClose + inst.bandWidth
  sane : 0 < rm.reference o →
    ((o.price - rm.reference o).natAbs : Int) * 100 ≤ rm.reference o * rm.cfg.priceSanityPct

/-- The products are still in order where they have gone around: the lower edge does not
overflow, or the price is above it all the same, and the distance from the reference has not
gone around more often than the tolerance. -/
structure PriceUnwrapped (rm : RiskManager) (o : Order) : Prop where
  band : ∀ inst ∈ rm.instrument o.token, inst.Banded →
    inst.lowerEdge < 2 ^ 63 ∨ inst.prevClose - inst.bandWidth ≤ o.price
  sane : 0 < rm.reference o →
    laps (((o.price - rm.reference o).natAbs : Int) * 100) ≤
      laps (rm.reference o * rm.cfg.priceSanityPct)

variable {rm : RiskManager} {o : Order}

/-! ### The circuit band -/

/-- Whether or not the product goes around, its quotient is at most the width of the band, and
small. -/
private theorem quotient_le {close pct : Int} (positive : 0 < close) (nonneg : 0 ≤ pct) :
    ((i64 (close * pct)).tdiv 10000).natAbs ≤ close * pct / 10000 ∧
      ((i64 (close * pct)).tdiv 10000).natAbs < 2 ^ 50 := by
  have product := Int.mul_nonneg (Int.le_of_lt positive) nonneg
  have fits := i64_fits (close * pct)
  have size : ((i64 (close * pct)).tdiv 10000).natAbs = (i64 (close * pct)).natAbs / 10000 :=
    Int.natAbs_tdiv _ _
  rw [size]
  by_cases inside : close * pct < 2 ^ 63
  · rw [i64_eq_self _ ⟨by omega, inside⟩]
    omega
  -- it went around, and the width is at least the largest quotient
  · simp only [FitsI64] at fits
    omega

/-- Reduction to 64 bits of a value that exceeds the range by less than itself. -/
private theorem i64_cases {z : Int} (low : -2 ^ 63 ≤ z) (high : z < 2 ^ 64) :
    z < 2 ^ 63 ∧ i64 z = z ∨ 2 ^ 63 ≤ z ∧ i64 z = z - 2 ^ 64 := by
  simp only [i64_eq_sub_laps, laps]
  omega

/-- A price that the machine's band admits is in the exact band unless the lower edge has
overflowed and become negative. -/
theorem band_exact_iff {inst : Instrument} {price : Int} (banded : inst.Banded)
    (fits : FitsI64 inst.prevClose)
    (low : i64 inst.lowerEdge ≤ price)
    (high : price ≤ i64 (inst.prevClose +
      (i64 (inst.prevClose * inst.circuitPctX100)).tdiv 10000)) :
    (inst.prevClose - inst.bandWidth ≤ price ∧ price ≤ inst.prevClose + inst.bandWidth) ↔
      inst.lowerEdge < 2 ^ 63 ∨ inst.prevClose - inst.bandWidth ≤ price := by
  have quotient := quotient_le banded.1 (Int.natCast_nonneg inst.circuitPctX100)
  have positive := banded.1
  simp only [Instrument.lowerEdge, Instrument.bandWidth, FitsI64] at *
  generalize (i64 (inst.prevClose * inst.circuitPctX100)).tdiv 10000 = d at *
  -- the machine's quotient is within the width, so that only an edge that overflows matters
  have lower := @i64_cases (inst.prevClose - d) (by omega) (by omega)
  have upper := @i64_cases (inst.prevClose + d) (by omega) (by omega)
  omega

/-! ### The sanity check -/

/-- The distance may go around before it is scaled. -/
theorem distance_mul_eq (price ref : Int) :
    i64 ((if price > ref then i64 (price - ref) else i64 (ref - price)) * 100) =
      i64 (((price - ref).natAbs : Int) * 100) := by
  have distance : (if price > ref then i64 (price - ref) else i64 (ref - price)) =
      i64 ((price - ref).natAbs : Int) := by
    split
    · congr 1
      omega
    · congr 1
      omega
  rw [distance]
  exact Int.bmod_mul_bmod

theorem sane_exact_iff (positive : 0 < rm.reference o) (sane : rm.priceSane .wrapping o = true) :
    ((o.price - rm.reference o).natAbs : Int) * 100 ≤ rm.reference o * rm.cfg.priceSanityPct ↔
      laps (((o.price - rm.reference o).natAbs : Int) * 100) ≤
        laps (rm.reference o * rm.cfg.priceSanityPct) := by
  apply le_iff_laps_le
  simp only [priceSane] at sane
  rw [← reference, if_neg (by omega), decide_eq_true_eq] at sane
  rw [← distance_mul_eq]
  exact sane

/-! ### Approved orders -/

theorem priceBand_banded {symbols : Option SymbolMaster} {token : Nat} {inst : Instrument}
    (listed : inst ∈ symbols.bind fun symbols => symbols.get token) (banded : inst.Banded) :
    priceBand i64 symbols token =
      some (i64 inst.lowerEdge, i64 (inst.prevClose +
        (i64 (inst.prevClose * inst.circuitPctX100)).tdiv 10000)) := by
  have positive := banded.1
  have pct := banded.2
  rw [Option.mem_def] at listed
  rw [priceBand, listed]
  exact if_neg (by omega)

/-- An approved price is exact if and only if no product that decided on it went around to the
wrong side. -/
theorem price_checks_exact_iff (rm : RiskManager) (wallClock : Nat) (o : Order)
    (closeFits : ∀ inst ∈ rm.instrument o.token, FitsI64 inst.prevClose)
    (approved : (rm.check .wrapping wallClock o).1 = .approved) :
    rm.PriceExact o ↔ rm.PriceUnwrapped o := by
  have passes := gate_eq_none_iff.mp ((check_approved_iff wallClock o).mp approved).1
  have band (inst : Instrument) (listed : inst ∈ rm.instrument o.token) (banded : inst.Banded) :=
    have admitted := passes.band _ (priceBand_banded listed banded)
    band_exact_iff banded (closeFits inst listed) admitted.1 admitted.2
  have sane (positive : 0 < rm.reference o) := sane_exact_iff positive passes.sane
  constructor
  · intro exact
    exact ⟨fun inst listed banded => (band inst listed banded).mp (exact.band inst listed banded),
      fun positive => (sane positive).mp (exact.sane positive)⟩
  · intro unwrapped
    exact ⟨fun inst listed banded => (band inst listed banded).mpr (unwrapped.band inst listed banded),
      fun positive => (sane positive).mpr (unwrapped.sane positive)⟩

private def banded (prevClose : Int) (pct : Nat) : SymbolMaster :=
  SymbolMaster.put {} { token := 7, prevClose := prevClose, circuitPctX100 := pct }

/-- A risk manager at 10:00 IST with a reference for token 7. -/
private def referenced (symbols : Option SymbolMaster) (touch : Int) : RiskManager :=
  ((RiskManager.new symbols {}).setNow 36000000000000).updateReference 7 touch touch

private def futureAt (price : Int) : Order :=
  { token := 7, segment := kSegmentFo, price := price, qty := 1 }

/-- An order within a band of 20 % and near the market. -/
theorem ordinary_price_exact :
    (referenced (some (banded 100000 2000)) 100500).PriceExact (futureAt 100000) := by
  apply (price_checks_exact_iff _ 0 _ ?_ (by decide +kernel)).mpr
  · refine ⟨?_, fun _ => by decide +kernel⟩
    rintro inst ⟨⟩ -
    exact .inl (by decide +kernel)
  · rintro inst ⟨⟩
    decide

/-- A price far above the market is approved because a hundred times its distance goes around to
84. A negative price is approved in a band that starts at zero, because the lower edge overflows
(the product of a close of `2^63 - 1` and 10000 goes around to -10000). -/
theorem wrapped_prices_approved :
    let far := futureAt 184467440737105517
    let negative := futureAt (-1)
    let near := referenced none 10000
    let wide := referenced (some (banded (2 ^ 63 - 1) 10000)) 0
    (near.check .wrapping 0 far).1 = .approved ∧
      near.reference far * near.cfg.priceSanityPct < (far.price - near.reference far) * 100 ∧
    (wide.check .wrapping 0 negative).1 = .approved ∧
      ∃ inst ∈ wide.instrument negative.token, inst.Banded ∧
        negative.price < inst.prevClose - inst.bandWidth := by
  refine ⟨by decide +kernel, by decide +kernel, by decide +kernel, _, rfl, ?_, ?_⟩
  · exact ⟨by decide, by decide⟩
  · decide +kernel

end RiskManager

end NseHft
