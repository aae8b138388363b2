import NseHft.Common.Types
import NseHft.Lib.FixedWidth

/-!
# Fee model

Transaction costs of a fill in paise, with rates in hundredths of a basis point. Each charge is
cut off to whole paise on its own.
-/
namespace NseHft

open FixedWidth

structure FeeModel where
  txnBp100 : Int := 19
  sebiBp100 : Int := 1
  sttSellBp100 : Int := 200
  stampBuyBp100 : Int := 20
  gstPct : Int := 18
  makerRebateBp100 : Int := 0
  deriving DecidableEq, Repr

namespace FeeModel

variable (A : Arithmetic)

/-- A rate of the notional; division rounds towards zero. -/
def charge (notional rate : Int) : Int := (A.i64 (notional * rate)).tdiv 1000000

/-- Positive is a cost, negative a net credit. -/
def costPaise (fees : FeeModel) (side : Side) (price qty : Int) : Int :=
  let notional := A.i64 (price * qty)
  let txn := charge A notional fees.txnBp100
  let sebi := charge A notional fees.sebiBp100
  -- tax is due on the exchange's charges, not on the statutory ones
  let gst := (A.i64 (A.i64 (txn + sebi) * fees.gstPct)).tdiv 100
  let stt := if side = kSell then charge A notional fees.sttSellBp100 else 0
  let stamp := if side = kBuy then charge A notional fees.stampBuyBp100 else 0
  let rebate := charge A notional fees.makerRebateBp100
  A.i64 (A.i64 (A.i64 (A.i64 (A.i64 (txn + sebi) + gst) + stt) + stamp) - rebate)

/-! ### Splitting a fill -/

section Splitting

/-- The rate of the statutory charge that a side pays. -/
def statutoryBp100 (fees : FeeModel) : Side → Int
  | kBuy => fees.stampBuyBp100
  | kSell => fees.sttSellBp100

/-- The exchange's charges, on which tax is due. -/
def exchangeCharge (fees : FeeModel) (notional : Int) : Int :=
  charge .exact notional fees.txnBp100 + charge .exact notional fees.sebiBp100

theorem costPaise_exact (fees : FeeModel) (side : Side) (price qty : Int) :
    fees.costPaise .exact side price qty =
      fees.exchangeCharge (price * qty) + (fees.exchangeCharge (price * qty) * fees.gstPct).tdiv 100 +
        charge .exact (price * qty) (fees.statutoryBp100 side) -
        charge .exact (price * qty) fees.makerRebateBp100 := by
  cases side <;>
    simp [costPaise, exchangeCharge, statutoryBp100, Arithmetic.exact]

/-- No rate is negative, there is no rebate, and the tax is at most what it is levied on. -/
structure Plain (fees : FeeModel) : Prop where
  txn : 0 ≤ fees.txnBp100
  sebi : 0 ≤ fees.sebiBp100
  stt : 0 ≤ fees.sttSellBp100
  stamp : 0 ≤ fees.stampBuyBp100
  noRebate : fees.makerRebateBp100 = 0
  gstNonneg : 0 ≤ fees.gstPct
  gstAtMost : fees.gstPct ≤ 100

instance (fees : FeeModel) : Decidable fees.Plain :=
  decidable_of_iff
    (0 ≤ fees.txnBp100 ∧ 0 ≤ fees.sebiBp100 ∧ 0 ≤ fees.sttSellBp100 ∧ 0 ≤ fees.stampBuyBp100 ∧
      fees.makerRebateBp100 = 0 ∧ 0 ≤ fees.gstPct ∧ fees.gstPct ≤ 100)
    ⟨fun ⟨txn, sebi, stt, stamp, noRebate, nonneg, atMost⟩ =>
      ⟨txn, sebi, stt, stamp, noRebate, nonneg, atMost⟩,
      fun plain => ⟨plain.txn, plain.sebi, plain.stt, plain.stamp, plain.noRebate, plain.gstNonneg,
        plain.gstAtMost⟩⟩

variable {fees : FeeModel} {x y rate : Int}

theorem Plain.statutory_nonneg (plain : fees.Plain) (side : Side) :
    0 ≤ fees.statutoryBp100 side := by
  match side with
  | kBuy => exact plain.stamp
  | kSell => exact plain.stt

theorem charge_nonneg (nonneg : 0 ≤ x) (rated : 0 ≤ rate) : 0 ≤ charge .exact x rate :=
  Int.tdiv_nonneg (Int.mul_nonneg nonneg rated) (by decide)

/-- Rounding off once loses less than rounding off twice, by at most one paisa. -/
theorem charge_add (left : 0 ≤ x) (right : 0 ≤ y) (rated : 0 ≤ rate) :
    charge .exact x rate + charge .exact y rate ≤ charge .exact (x + y) rate ∧
      charge .exact (x + y) rate ≤ charge .exact x rate + charge .exact y rate + 1 := by
  have first := Int.mul_nonneg left rated
  have second := Int.mul_nonneg right rated
  simp only [charge, Arithmetic.exact, id, Int.add_mul]
  rw [Int.tdiv_eq_ediv_of_nonneg first, Int.tdiv_eq_ediv_of_nonneg second,
    Int.tdiv_eq_ediv_of_nonneg (by omega)]
  omega

theorem Plain.exchangeCharge_nonneg (plain : fees.Plain) (nonneg : 0 ≤ x) :
    0 ≤ fees.exchangeCharge x :=
  Int.add_nonneg (charge_nonneg nonneg plain.txn) (charge_nonneg nonneg plain.sebi)

theorem Plain.exchangeCharge_add (plain : fees.Plain) (left : 0 ≤ x) (right : 0 ≤ y) :
    fees.exchangeCharge x + fees.exchangeCharge y ≤ fees.exchangeCharge (x + y) ∧
      fees.exchangeCharge (x + y) ≤ fees.exchangeCharge x + fees.exchangeCharge y + 2 := by
  have txn := charge_add left right plain.txn
  have sebi := charge_add left right plain.sebi
  simp only [exchangeCharge]
  omega

/-- The tax on a charge that exceeds the sum of two others by at most two paise. -/
theorem Plain.gst_add (plain : fees.Plain) {whole : Int} (left : 0 ≤ x) (right : 0 ≤ y)
    (low : x + y ≤ whole) (high : whole ≤ x + y + 2) :
    (x * fees.gstPct).tdiv 100 + (y * fees.gstPct).tdiv 100 ≤ (whole * fees.gstPct).tdiv 100 ∧
      (whole * fees.gstPct).tdiv 100 ≤
        (x * fees.gstPct).tdiv 100 + (y * fees.gstPct).tdiv 100 + 3 := by
  have nonneg := plain.gstNonneg
  have atMost := plain.gstAtMost
  obtain ⟨extra, rfl⟩ : ∃ extra, whole = x + y + extra := ⟨whole - (x + y), by omega⟩
  have first := Int.mul_nonneg left nonneg
  have second := Int.mul_nonneg right nonneg
  -- the tax on the difference is at most the difference
  have extraLow : 0 ≤ extra * fees.gstPct := Int.mul_nonneg (by omega) nonneg
  have extraHigh : extra * fees.gstPct ≤ 2 * 100 :=
    Int.mul_le_mul (by omega) atMost nonneg (by decide)
  simp only [Int.add_mul]
  rw [Int.tdiv_eq_ediv_of_nonneg first, Int.tdiv_eq_ediv_of_nonneg second,
    Int.tdiv_eq_ediv_of_nonneg (by omega)]
  omega

theorem Plain.costPaise_nonneg (plain : fees.Plain) (side : Side) {price qty : Int}
    (priced : 0 ≤ price) (nonneg : 0 ≤ qty) : 0 ≤ fees.costPaise .exact side price qty := by
  have notional := Int.mul_nonneg priced nonneg
  have exchange := plain.exchangeCharge_nonneg notional
  have gst : 0 ≤ (fees.exchangeCharge (price * qty) * fees.gstPct).tdiv 100 :=
    Int.tdiv_nonneg (Int.mul_nonneg exchange plain.gstNonneg) (by decide)
  have statutory := charge_nonneg notional (plain.statutory_nonneg side)
  have rebate : charge .exact (price * qty) fees.makerRebateBp100 = 0 := by
    simp [charge, plain.noRebate, Arithmetic.exact]
  rw [costPaise_exact]
  omega

/-- A fill costs at least what its two parts cost, and at most six paise more: one for each of
the three charges and three for the tax. Costs are not negative and grow with the quantity. -/
theorem split_fill_costs (A : Arithmetic) (fees : FeeModel) (plain : fees.Plain) (side : Side)
    (price a b : Int) (priced : 0 ≤ price) (left : 0 ≤ a) (right : 0 ≤ b)
    (noOverflow : ∀ qty ∈ [a, b, a + b],
      fees.costPaise A side price qty = fees.costPaise .exact side price qty) :
    fees.costPaise A side price a + fees.costPaise A side price b ≤
        fees.costPaise A side price (a + b) ∧
      fees.costPaise A side price (a + b) ≤
        fees.costPaise A side price a + fees.costPaise A side price b + 6 ∧
      0 ≤ fees.costPaise A side price a ∧
      fees.costPaise A side price a ≤ fees.costPaise A side price (a + b) := by
  rw [noOverflow a (by simp), noOverflow b (by simp), noOverflow (a + b) (by simp)]
  have first := Int.mul_nonneg priced left
  have second := Int.mul_nonneg priced right
  have exchange := plain.exchangeCharge_add first second
  have gst := plain.gst_add (plain.exchangeCharge_nonneg first)
    (plain.exchangeCharge_nonneg second) exchange.1 exchange.2
  have statutory := charge_add first second (plain.statutory_nonneg side)
  have rebate (notional : Int) : charge .exact notional fees.makerRebateBp100 = 0 := by
    simp [charge, plain.noRebate, Arithmetic.exact]
  have nonnegA := plain.costPaise_nonneg side priced left
  have nonnegB := plain.costPaise_nonneg side priced right
  rw [costPaise_exact] at nonnegA nonnegB
  simp only [costPaise_exact, rebate, Int.mul_add] at nonnegA nonnegB ⊢
  omega

/-- A sale of 75 at 22000.50 rupees in two parts. -/
theorem split_sale_costs :
    let fees : FeeModel := {}
    fees.costPaise .wrapping kSell 2200050 25 + fees.costPaise .wrapping kSell 2200050 50 ≤
      fees.costPaise .wrapping kSell 2200050 75 :=
  (split_fill_costs .wrapping {} (by decide) kSell 2200050 25 50 (by decide) (by decide) (by decide)
    (by decide +kernel)).1

end Splitting

end FeeModel

end NseHft
