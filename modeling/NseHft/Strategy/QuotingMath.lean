import NseHft.Lib.FixedWidth

/-!
# Quoting math

Desired quotes from the touch, shifted by inventory and order-flow skew. Prices are paise,
skews are ticks.
-/
namespace NseHft.Quoting

open FixedWidth

variable (A : Arithmetic)

def clampTicks (v lim : Int) : Int :=
  if v > lim then lim else if v < A.i32 (-lim) then A.i32 (-lim) else v

/-- Lean against the position so that the quotes flatten it. -/
def inventorySkewTicks (positionUnits maxPositionUnits maxSkewTicks : Int) : Int :=
  if maxSkewTicks ≤ 0 ∨ maxPositionUnits ≤ 0 then 0
  else
    clampTicks A (A.i32 ((A.i64 (positionUnits * maxSkewTicks)).tdiv maxPositionUnits)) maxSkewTicks

/-- Lean with the pressure at the top of the book. -/
def flowSkewTicks (bidQty askQty maxSkewTicks : Int) : Int :=
  if maxSkewTicks ≤ 0 then 0
  else
    let denom := A.i64 (bidQty + askQty)
    if denom ≤ 0 then 0
    else
      clampTicks A (A.i32 ((A.i64 (A.i64 (bidQty - askQty) * maxSkewTicks)).tdiv denom)) maxSkewTicks

structure DesiredQuotes where
  bidPrice : Int
  askPrice : Int
  deriving DecidableEq, Repr

def desiredQuotes (bestBid bestAsk tick bidQty askQty positionUnits maxPositionUnits
    maxInvSkewTicks maxFlowSkewTicks : Int) : DesiredQuotes :=
  let inv := inventorySkewTicks A positionUnits maxPositionUnits maxInvSkewTicks
  let flow := flowSkewTicks A bidQty askQty maxFlowSkewTicks
  let shift := A.i64 (A.i32 (flow - inv) * tick)
  { bidPrice := A.i64 (A.i64 (bestBid - tick) + shift)
    askPrice := A.i64 (A.i64 (bestAsk + tick) + shift) }

/-- The skews move both quotes by the same number of ticks. -/
theorem desiredQuotes_eq (bestBid bestAsk tick bidQty askQty positionUnits maxPositionUnits
    maxInvSkewTicks maxFlowSkewTicks : Int) (bid : FitsI32 bestBid) (ask : FitsI32 bestAsk)
    (grid : FitsI32 tick) :
    ∃ ticks, desiredQuotes .wrapping bestBid bestAsk tick bidQty askQty positionUnits
      maxPositionUnits maxInvSkewTicks maxFlowSkewTicks =
        ⟨bestBid - tick + ticks * tick, bestAsk + tick + ticks * tick⟩ := by
  simp only [desiredQuotes, Arithmetic.wrapping]
  generalize flowSkewTicks _ _ _ _ - inventorySkewTicks _ _ _ _ = ticks
  refine ⟨FixedWidth.i32 ticks, ?_⟩
  have bounds := mul_bounds (i32_fits ticks) grid
  generalize FixedWidth.i32 ticks * tick = shift at bounds
  simp only [FitsI32] at bid ask grid
  have exact (z : Int) (inside : -2 ^ 63 ≤ z) (below : z < 2 ^ 63) : FixedWidth.i64 z = z :=
    i64_eq_self z ⟨inside, below⟩
  rw [exact shift (by omega) (by omega), exact (bestBid - tick) (by omega) (by omega),
    exact (bestAsk + tick) (by omega) (by omega), exact _ (by omega) (by omega),
    exact _ (by omega) (by omega)]

/-! ### Skews as quotients -/

section Skew

variable {cap z : Int}

/-- A share of a cap is at most the cap. -/
private theorem tdiv_within {part whole cap : Int} (positive : 0 < whole) (low : -whole ≤ part)
    (high : part ≤ whole) (nonneg : 0 ≤ cap) :
    -cap ≤ (part * cap).tdiv whole ∧ (part * cap).tdiv whole ≤ cap := by
  have size : ((part * cap).tdiv whole).natAbs ≤ cap.natAbs := by
    rw [Int.natAbs_tdiv, Int.natAbs_mul]
    apply Nat.div_le_of_le_mul
    exact Nat.mul_le_mul_right _ (by omega)
  omega

private theorem pressure_within {bidQty askQty cap : Int} (bid : 0 ≤ bidQty) (ask : 0 ≤ askQty)
    (nonneg : 0 ≤ cap) :
    -cap ≤ ((bidQty - askQty) * cap).tdiv (bidQty + askQty) ∧
      ((bidQty - askQty) * cap).tdiv (bidQty + askQty) ≤ cap := by
  by_cases empty : bidQty + askQty = 0
  · rw [empty, Int.tdiv_zero]
    omega
  · exact tdiv_within (by omega) (by omega) (by omega) nonneg

/-- The quotient cut to the cap before it is made an `int`: what the skews are meant to be. -/
def cappedSkew (cap z : Int) : Int := max (-cap) (min cap z)

theorem cappedSkew_neg (positive : 0 < cap) (z : Int) : cappedSkew cap (-z) = -cappedSkew cap z := by
  simp only [cappedSkew]
  omega

theorem cappedSkew_mono {z' : Int} (ordered : z ≤ z') : cappedSkew cap z ≤ cappedSkew cap z' := by
  simp only [cappedSkew]
  omega

theorem clampTicks_eq (positive : 0 < cap) (fits : FitsI32 cap) (v : Int) :
    clampTicks .wrapping v cap = cappedSkew cap v := by
  have negated : FixedWidth.i32 (-cap) = -cap := by
    apply i32_eq_self
    simp only [FitsI32] at fits ⊢
    omega
  simp only [clampTicks, cappedSkew, Arithmetic.wrapping, negated]
  split_ifs <;> omega

/-- The conversion to `int` keeps a quotient, or at least leaves it beyond the cap on its side. -/
def NarrowsWithin (cap z : Int) : Prop :=
  FitsI32 z ∨ (0 < z ∧ cap ≤ FixedWidth.i32 z) ∨ (z < 0 ∧ FixedWidth.i32 z ≤ -cap)

instance (cap z : Int) : Decidable (NarrowsWithin cap z) := inferInstanceAs (Decidable (_ ∨ _))

theorem cappedSkew_narrowed_iff (positive : 0 < cap) (fits : FitsI32 cap) :
    cappedSkew cap (FixedWidth.i32 z) = cappedSkew cap z ↔ NarrowsWithin cap z := by
  by_cases kept : FitsI32 z
  · simp [NarrowsWithin, kept, i32_eq_self z kept]
  · have narrowed := i32_fits z
    simp only [NarrowsWithin, kept, false_or, cappedSkew]
    generalize FixedWidth.i32 z = v at narrowed ⊢
    -- the quotient itself is beyond every cap
    simp only [FitsI32] at fits kept narrowed
    omega

theorem inventorySkewTicks_wrapping {position maxPosition : Int} (limited : 0 < maxPosition)
    (positive : 0 < cap) (fits : FitsI32 cap) (noOverflow : FitsI64 (position * cap)) :
    inventorySkewTicks .wrapping position maxPosition cap =
      cappedSkew cap (FixedWidth.i32 ((position * cap).tdiv maxPosition)) := by
  rw [inventorySkewTicks, if_neg (by omega), clampTicks_eq positive fits]
  simp only [Arithmetic.wrapping]
  rw [i64_eq_self _ noOverflow]

/-- Only the smallest `int` is not negated with the quotient. -/
theorem cappedSkew_narrowed_neg_iff (positive : 0 < cap) (fits : FitsI32 cap) :
    cappedSkew cap (FixedWidth.i32 (-z)) = -cappedSkew cap (FixedWidth.i32 z) ↔
      FixedWidth.i32 z ≠ -2 ^ 31 := by
  have low := i32_fits z
  have negated : FixedWidth.i32 (-z) = FixedWidth.i32 (-FixedWidth.i32 z) := by
    simp only [FixedWidth.i32, ← Int.zero_sub, Int.sub_bmod_bmod]
  rw [negated]
  generalize FixedWidth.i32 z = v at low ⊢
  simp only [FitsI32] at fits low
  by_cases smallest : v = -2 ^ 31
  · subst smallest
    have stuck : FixedWidth.i32 (- -2 ^ 31) = -2 ^ 31 := by decide
    simp only [stuck, cappedSkew]
    omega
  · rw [i32_eq_self (-v) ⟨by omega, by omega⟩, cappedSkew_neg positive]
    exact iff_of_true rfl smallest

theorem flowSkewTicks_wrapping {bidQty askQty : Int} (bid : 0 ≤ bidQty) (ask : 0 ≤ askQty)
    (sized : 0 < bidQty + askQty) (positive : 0 < cap) (fits : FitsI32 cap)
    (noOverflow : FitsI64 (bidQty + askQty) ∧ FitsI64 ((bidQty - askQty) * cap)) :
    flowSkewTicks .wrapping bidQty askQty cap =
      ((bidQty - askQty) * cap).tdiv (bidQty + askQty) := by
  obtain ⟨low, high⟩ := pressure_within bid ask (Int.le_of_lt positive)
  -- the difference is within the sum, and the quotient within the cap
  have difference : FixedWidth.i64 (bidQty - askQty) = bidQty - askQty := by
    apply i64_eq_self
    have sum := noOverflow.1
    simp only [FitsI64] at sum ⊢
    omega
  have narrowed : FixedWidth.i32 (((bidQty - askQty) * cap).tdiv (bidQty + askQty)) =
      ((bidQty - askQty) * cap).tdiv (bidQty + askQty) := by
    apply i32_eq_self
    simp only [FitsI32] at fits ⊢
    omega
  rw [flowSkewTicks, if_neg (by omega)]
  simp only [clampTicks_eq positive fits]
  simp only [Arithmetic.wrapping, difference, i64_eq_self _ noOverflow.1,
    i64_eq_self _ noOverflow.2, narrowed]
  rw [if_neg (by omega), cappedSkew]
  omega

/-- The inventory skew is the capped quotient exactly if the quotient survives its conversion to
`int`, and odd and monotone where it is. The flow skew is the quotient on every book. -/
theorem skews_exact_iff (maxPosition cap : Int) (limited : 0 < maxPosition) (positive : 0 < cap)
    (fits : FitsI32 cap) :
    let skew := fun position => inventorySkewTicks .wrapping position maxPosition cap
    let share := fun position => (position * cap).tdiv maxPosition
    let flow := fun bidQty askQty => flowSkewTicks .wrapping bidQty askQty cap
    (∀ position, FitsI64 (position * cap) →
      (skew position = cappedSkew cap (share position) ↔ NarrowsWithin cap (share position)) ∧
      -cap ≤ skew position ∧ skew position ≤ cap) ∧
    (∀ position, FitsI64 (position * cap) → FitsI64 (-position * cap) →
      (skew (-position) = -skew position ↔ FixedWidth.i32 (share position) ≠ -2 ^ 31)) ∧
    (∀ position position', FitsI64 (position * cap) → FitsI64 (position' * cap) →
      NarrowsWithin cap (share position) → NarrowsWithin cap (share position') →
      position ≤ position' → skew position ≤ skew position') ∧
    (∀ bidQty askQty, 0 ≤ bidQty → 0 ≤ askQty → 0 < bidQty + askQty →
      FitsI64 (bidQty + askQty) → FitsI64 ((bidQty - askQty) * cap) →
      flow bidQty askQty = ((bidQty - askQty) * cap).tdiv (bidQty + askQty) ∧
      -cap ≤ flow bidQty askQty ∧ flow bidQty askQty ≤ cap ∧
      (FitsI64 ((askQty - bidQty) * cap) → flow askQty bidQty = -flow bidQty askQty)) := by
  intro skew share flow
  have capped {position : Int} (noOverflow : FitsI64 (position * cap)) :
      skew position = cappedSkew cap (FixedWidth.i32 (share position)) :=
    inventorySkewTicks_wrapping limited positive fits noOverflow
  refine ⟨?_, ?_, ?_, ?_⟩
  · intro position noOverflow
    rw [capped noOverflow]
    refine ⟨cappedSkew_narrowed_iff positive fits, ?_, ?_⟩ <;> simp only [cappedSkew] <;> omega
  · intro position noOverflow noOverflow'
    have negated : share (-position) = -share position := by
      simp only [share, Int.neg_mul, Int.neg_tdiv]
    rw [capped noOverflow, capped noOverflow', negated]
    exact cappedSkew_narrowed_neg_iff positive fits
  · intro position position' noOverflow noOverflow' narrows narrows' ordered
    rw [capped noOverflow, capped noOverflow', (cappedSkew_narrowed_iff positive fits).mpr narrows,
      (cappedSkew_narrowed_iff positive fits).mpr narrows']
    apply cappedSkew_mono
    apply Int.tdiv_le_tdiv limited
    exact Int.mul_le_mul_of_nonneg_right ordered (Int.le_of_lt positive)
  · intro bidQty askQty bid ask sized sum product
    have exact : flow bidQty askQty = _ :=
      flowSkewTicks_wrapping bid ask sized positive fits ⟨sum, product⟩
    obtain ⟨low, high⟩ := pressure_within bid ask (Int.le_of_lt positive)
    rw [exact]
    refine ⟨rfl, low, high, fun product' => ?_⟩
    have swapped : flow askQty bidQty = _ :=
      flowSkewTicks_wrapping ask bid (Int.add_comm bidQty askQty ▸ sized) positive fits
        ⟨Int.add_comm bidQty askQty ▸ sum, product'⟩
    rw [swapped, Int.add_comm askQty bidQty, ← Int.neg_tdiv, ← Int.neg_mul, Int.neg_sub]

/-- Half the limit gives half the cap. -/
theorem half_position_skewed : inventorySkewTicks .wrapping 25 50 4 = cappedSkew 4 2 :=
  ((skews_exact_iff 50 4 (by decide) (by decide) (by decide)).1 25 (by decide)).1.mpr (by decide)

/-- A position of `2^31` times its limit is skewed the wrong way, like its opposite. -/
theorem narrowed_skew_leans_into_position :
    inventorySkewTicks .wrapping 2147483648 1 1 = -1 ∧
      inventorySkewTicks .wrapping (-2147483648) 1 1 = -1 ∧
      cappedSkew 1 ((2147483648 * 1 : Int).tdiv 1) = 1 := by decide +kernel

end Skew

/-! ### Passive quotes -/

section Passive

/-- The bounds within which `desired_quotes` does not overflow: the caps add up to an `int`, the
sizes at the touch and the two products that are divided are 64-bit integers, and so are the
prices that the largest shift could lead to. -/
structure InRange (bestBid bestAsk tick bidQty askQty maxPosition invCap flowCap : Int) : Prop where
  caps : invCap + flowCap < 2 ^ 31
  sizes : bidQty + askQty < 2 ^ 63
  pressure : (bidQty + askQty) * flowCap < 2 ^ 63
  inventory : maxPosition * invCap < 2 ^ 63
  low : -2 ^ 63 ≤ bestBid - (1 + invCap + flowCap) * tick
  high : bestAsk + (1 + invCap + flowCap) * tick < 2 ^ 63

/-- The product of a cap with a part is no larger than with the whole. -/
private theorem product_fits {part whole cap : Int} (low : -whole ≤ part) (high : part ≤ whole)
    (nonneg : 0 ≤ cap) (fits : whole * cap < 2 ^ 63) : FitsI64 (part * cap) := by
  have above := Int.mul_le_mul_of_nonneg_right high nonneg
  have below := Int.mul_le_mul_of_nonneg_right low nonneg
  rw [Int.neg_mul] at below
  exact ⟨by omega, by omega⟩

/-- Within the position limits the inventory skew is the plain quotient. -/
theorem inventorySkewTicks_within {position maxPosition cap : Int} (limited : 0 < maxPosition)
    (short : -maxPosition ≤ position) (long : position ≤ maxPosition) (nonneg : 0 ≤ cap)
    (small : cap < 2 ^ 31) (noOverflow : maxPosition * cap < 2 ^ 63) :
    inventorySkewTicks .wrapping position maxPosition cap = (position * cap).tdiv maxPosition := by
  obtain ⟨above, below⟩ := tdiv_within limited short long nonneg
  rcases Int.le_iff_lt_or_eq.mp nonneg with skewed | rfl
  · rw [inventorySkewTicks_wrapping limited skewed ⟨by omega, small⟩
      (product_fits short long nonneg noOverflow), i32_eq_self _ ⟨by omega, by omega⟩, cappedSkew]
    omega
  · simp [inventorySkewTicks]

/-- The flow skew of a book is the plain quotient, none for a book without quantity. -/
theorem flowSkewTicks_within {bidQty askQty cap : Int} (bid : 0 ≤ bidQty) (ask : 0 ≤ askQty)
    (nonneg : 0 ≤ cap) (small : cap < 2 ^ 31) (sizes : bidQty + askQty < 2 ^ 63)
    (noOverflow : (bidQty + askQty) * cap < 2 ^ 63) :
    flowSkewTicks .wrapping bidQty askQty cap = ((bidQty - askQty) * cap).tdiv (bidQty + askQty) := by
  rcases Int.le_iff_lt_or_eq.mp nonneg with skewed | rfl
  · by_cases sized : 0 < bidQty + askQty
    · exact flowSkewTicks_wrapping bid ask sized skewed ⟨by omega, small⟩
        ⟨⟨by omega, sizes⟩, product_fits (by omega) (by omega) nonneg noOverflow⟩
    · obtain ⟨rfl, rfl⟩ : bidQty = 0 ∧ askQty = 0 := ⟨by omega, by omega⟩
      simp [flowSkewTicks, Arithmetic.wrapping, FixedWidth.i64]
  · simp [flowSkewTicks]

/-- In range the quotes are the touch, one tick back and shifted by the skews. -/
theorem desiredQuotes_inRange {bestBid bestAsk tick bidQty askQty position maxPosition invCap
    flowCap : Int} (positive : 0 < tick) (uncrossed : bestBid < bestAsk) (bidNonneg : 0 ≤ bidQty)
    (askNonneg : 0 ≤ askQty) (limited : 0 < maxPosition) (short : -maxPosition ≤ position)
    (long : position ≤ maxPosition) (invNonneg : 0 ≤ invCap) (flowNonneg : 0 ≤ flowCap)
    (range : InRange bestBid bestAsk tick bidQty askQty maxPosition invCap flowCap) :
    let ticks := ((bidQty - askQty) * flowCap).tdiv (bidQty + askQty) -
      (position * invCap).tdiv maxPosition
    ticks ≤ invCap + flowCap ∧ -(invCap + flowCap) ≤ ticks ∧
      desiredQuotes .wrapping bestBid bestAsk tick bidQty askQty position maxPosition invCap flowCap =
        ⟨bestBid - tick + ticks * tick, bestAsk + tick + ticks * tick⟩ := by
  intro ticks
  obtain ⟨caps, sizes, pressure, inventory, low, high⟩ := range
  obtain ⟨invLow, invHigh⟩ := tdiv_within limited short long invNonneg
  obtain ⟨flowLow, flowHigh⟩ := pressure_within bidNonneg askNonneg flowNonneg
  have above : ticks ≤ invCap + flowCap := by omega
  have below : -(invCap + flowCap) ≤ ticks := by omega
  refine ⟨above, below, ?_⟩
  -- the shift is at most that of the caps
  have up := Int.mul_le_mul_of_nonneg_right above (Int.le_of_lt positive)
  have down := Int.mul_le_mul_of_nonneg_right below (Int.le_of_lt positive)
  have whole : (1 + invCap + flowCap) * tick = tick + (invCap + flowCap) * tick := by
    rw [Int.add_assoc, Int.add_mul, Int.one_mul]
  have room : 0 ≤ (invCap + flowCap) * tick := Int.mul_nonneg (by omega) (by omega)
  rw [Int.neg_mul] at down
  rw [whole] at low high
  simp only [desiredQuotes]
  rw [inventorySkewTicks_within limited short long invNonneg (by omega) inventory,
    flowSkewTicks_within bidNonneg askNonneg flowNonneg (by omega) sizes pressure]
  simp only [Arithmetic.wrapping]
  rw [show FixedWidth.i32 (_ - _) = ticks from i32_eq_self ticks ⟨by omega, by omega⟩]
  generalize (invCap + flowCap) * tick = most at *
  generalize ticks * tick = shift at *
  rw [i64_eq_self shift ⟨by omega, by omega⟩, i64_eq_self (bestBid - tick) ⟨by omega, by omega⟩,
    i64_eq_self (bestAsk + tick) ⟨by omega, by omega⟩, i64_eq_self _ ⟨by omega, by omega⟩,
    i64_eq_self _ ⟨by omega, by omega⟩]

/-- Quotes shifted by `ticks` stay on their sides of a touch exactly if the shift is at most the
spread. -/
theorem shifted_passive_iff {bestBid bestAsk tick : Int} (positive : 0 < tick)
    (bidGrid : tick ∣ bestBid) (askGrid : tick ∣ bestAsk) (ticks : Int) :
    (bestBid - tick + ticks * tick < bestAsk ∧ bestBid < bestAsk + tick + ticks * tick) ↔
      -((bestAsk - bestBid) / tick) ≤ ticks ∧ ticks ≤ (bestAsk - bestBid) / tick := by
  obtain ⟨spread, apart⟩ := Int.dvd_sub askGrid bidGrid
  rw [apart, Int.mul_ediv_cancel_left _ (by omega)]
  have below : bestBid - tick + ticks * tick < bestAsk ↔ tick * (ticks - 1) < tick * spread := by
    rw [Int.mul_sub, Int.mul_comm tick ticks]
    omega
  have above : bestBid < bestAsk + tick + ticks * tick ↔ tick * -spread < tick * (ticks + 1) := by
    rw [Int.mul_neg, Int.mul_add, Int.mul_comm tick ticks]
    omega
  rw [below, above, Int.mul_lt_mul_left positive, Int.mul_lt_mul_left positive]
  omega

/-- In range the quotes take no liquidity exactly if the two skews differ by at most the spread,
which they do whenever their caps add up to at most the spread. -/
theorem quotes_passive_iff (bestBid bestAsk tick bidQty askQty position maxPosition invCap
    flowCap : Int) (positive : 0 < tick) (uncrossed : bestBid < bestAsk) (bidGrid : tick ∣ bestBid)
    (askGrid : tick ∣ bestAsk) (bidNonneg : 0 ≤ bidQty) (askNonneg : 0 ≤ askQty)
    (limited : 0 < maxPosition) (short : -maxPosition ≤ position)
    (long : position ≤ maxPosition) (invNonneg : 0 ≤ invCap) (flowNonneg : 0 ≤ flowCap)
    (range : InRange bestBid bestAsk tick bidQty askQty maxPosition invCap flowCap) :
    let quotes := desiredQuotes .wrapping bestBid bestAsk tick bidQty askQty position maxPosition
      invCap flowCap
    let spread := (bestAsk - bestBid) / tick
    let flow := ((bidQty - askQty) * flowCap).tdiv (bidQty + askQty)
    let inv := (position * invCap).tdiv maxPosition
    ((quotes.bidPrice < bestAsk ∧ bestBid < quotes.askPrice) ↔
      -spread ≤ flow - inv ∧ flow - inv ≤ spread) ∧
    (invCap + flowCap ≤ spread → quotes.bidPrice < bestAsk ∧ bestBid < quotes.askPrice) := by
  intro quotes spread flow inv
  obtain ⟨above, below, priced⟩ := desiredQuotes_inRange positive uncrossed bidNonneg askNonneg
    limited short long invNonneg flowNonneg range
  have passive := shifted_passive_iff positive bidGrid askGrid (flow - inv)
  rw [show quotes = _ from priced]
  refine ⟨passive, fun capped => passive.mpr ?_⟩
  omega

/-- A spread of two ticks and caps of one tick each. -/
theorem narrow_skews_passive :
    let quotes := desiredQuotes .wrapping 100 102 1 30 10 5 5 1 1
    quotes.bidPrice < 102 ∧ 100 < quotes.askPrice :=
  (quotes_passive_iff 100 102 1 30 10 5 5 1 1 (by decide) (by decide) (by decide) (by decide)
    (by decide) (by decide) (by decide) (by decide) (by decide) (by decide) (by decide)
    ⟨by decide, by decide, by decide, by decide, by decide, by decide⟩).2 (by decide)

/-- At the position limit with an inventory cap of two ticks, the ask of a one tick market is
at the best bid. -/
theorem skewed_ask_hits_bid :
    (desiredQuotes .wrapping 100 101 1 10 10 50 50 2 0).askPrice = 100 := by decide +kernel

end Passive

end NseHft.Quoting
