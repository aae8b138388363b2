import Mathlib.Algebra.Order.Ring.Int

/-! Fixed-width machine integers as residues: unsigned values in `[0, 2^w)`, signed
values in `[-2^(w-1), 2^(w-1))`. -/
namespace FixedWidth

/-- Result of an unsigned 64-bit operation whose exact value is `n`. -/
def u64 (n : Nat) : Nat := n % 2 ^ 64

/-- Unsigned 64-bit subtraction. -/
def u64Sub (a b : Nat) : Nat := u64 (a + (2 ^ 64 - b))

/-- Result of a conversion to a signed 16-bit integer. -/
def i16 (z : Int) : Int := z.bmod (2 ^ 16)

/-- Result of a signed 32-bit operation whose exact value is `z`. -/
def i32 (z : Int) : Int := z.bmod (2 ^ 32)

/-- Result of a signed 64-bit operation whose exact value is `z`. -/
def i64 (z : Int) : Int := z.bmod (2 ^ 64)

/-- `z` is representable as a signed 16-bit integer. -/
def FitsI16 (z : Int) : Prop := -2 ^ 15 ≤ z ∧ z < 2 ^ 15

instance (z : Int) : Decidable (FitsI16 z) := inferInstanceAs (Decidable (_ ∧ _))

/-- `z` is representable as a signed 32-bit integer. -/
def FitsI32 (z : Int) : Prop := -2 ^ 31 ≤ z ∧ z < 2 ^ 31

instance (z : Int) : Decidable (FitsI32 z) := inferInstanceAs (Decidable (_ ∧ _))

/-- `z` is representable as a signed 64-bit integer. -/
def FitsI64 (z : Int) : Prop := -2 ^ 63 ≤ z ∧ z < 2 ^ 63

instance (z : Int) : Decidable (FitsI64 z) := inferInstanceAs (Decidable (_ ∧ _))

/-- How signed results are reduced: a model that takes one can be read over the machine's
integers or over the exact ones. -/
structure Arithmetic where
  i32 : Int → Int
  i64 : Int → Int

/-- No overflow. -/
def Arithmetic.exact : Arithmetic := ⟨id, id⟩

/-- Two's complement. -/
def Arithmetic.wrapping : Arithmetic := ⟨FixedWidth.i32, FixedWidth.i64⟩

theorem u64_eq_self (n : Nat) (small : n < 2 ^ 64) : u64 n = n := Nat.mod_eq_of_lt small

/-! A counter that is only kept modulo `2^64`. -/

theorem u64_succ (n : Nat) : u64 (u64 n + 1) = u64 (n + 1) := by
  simp only [u64]
  omega

/-- The distance of two counters is exact as long as it is representable. -/
theorem u64Sub_eq (a b : Nat) (ordered : b ≤ a) (close : a - b < 2 ^ 64) :
    u64Sub (u64 a) (u64 b) = a - b := by
  simp only [u64Sub, u64]
  omega

theorem u64_eq_iff (a b : Nat) (ordered : b ≤ a) (close : a - b < 2 ^ 64) :
    u64 b = u64 a ↔ b = a := by
  simp only [u64]
  omega

/-- Masking a counter selects the same slot as the exact counter. -/
theorem u64_mask (n k : Nat) (fits : k ≤ 64) : u64 n &&& (2 ^ k - 1) = n % 2 ^ k := by
  rw [Nat.and_two_pow_sub_one_eq_mod, u64, Nat.mod_mod_of_dvd _ (Nat.pow_dvd_pow 2 fits)]

theorem i32_fits (z : Int) : FitsI32 (i32 z) := by
  have lower := @Int.le_bmod z (2 ^ 32) (by decide)
  have upper := @Int.bmod_lt z (2 ^ 32) (by decide)
  simp only [i32, FitsI32]
  omega

theorem i32_eq_self (z : Int) (fits : FitsI32 z) : i32 z = z := by
  simp only [FitsI32] at fits
  exact Int.bmod_eq_of_le (by omega) (by omega)

theorem i32_eq_self_iff (z : Int) : i32 z = z ↔ FitsI32 z :=
  ⟨fun same => same ▸ i32_fits z, i32_eq_self z⟩

theorem i64_eq_self (z : Int) (fits : FitsI64 z) : i64 z = z := by
  simp only [FitsI64] at fits
  exact Int.bmod_eq_of_le (by omega) (by omega)

/-- How often an exact value has gone around the signed 64-bit range. -/
def laps (z : Int) : Int := (z + 2 ^ 63) / 2 ^ 64

theorem i64_eq_sub_laps (z : Int) : i64 z = z - 2 ^ 64 * laps z := by
  simp only [i64, laps, Int.bmod_def]
  split <;> omega

theorem laps_eq_zero {z : Int} (fits : FitsI64 z) : laps z = 0 := by
  simp only [FitsI64] at fits
  simp only [laps]
  omega

theorem i64_fits (z : Int) : FitsI64 (i64 z) := by
  have lower := @Int.le_bmod z (2 ^ 64) (by decide)
  have upper := @Int.bmod_lt z (2 ^ 64) (by decide)
  simp only [i64, FitsI64]
  omega

/-- Values whose residues are in order are in order themselves exactly if the smaller residue has
not gone around more often. -/
theorem le_iff_laps_le {x y : Int} (residues : i64 x ≤ i64 y) : x ≤ y ↔ laps x ≤ laps y := by
  have fits := i64_fits x
  have fits' := i64_fits y
  simp only [FitsI64, i64_eq_sub_laps] at residues fits fits'
  omega

/-- A product of 32-bit values stays well inside 64 bits. -/
theorem mul_bounds {a b : Int} (fits : FitsI32 a) (fits' : FitsI32 b) :
    -2 ^ 62 ≤ a * b ∧ a * b ≤ 2 ^ 62 := by
  simp only [FitsI32] at fits fits'
  have small : a.natAbs * b.natAbs ≤ 2 ^ 31 * 2 ^ 31 := Nat.mul_le_mul (by omega) (by omega)
  rw [← Int.natAbs_mul] at small
  omega

theorem i32_add_i32 (a b : Int) : i32 (a + i32 b) = i32 (a + b) := Int.add_bmod_bmod

theorem i64_add_i64 (a b : Int) : i64 (a + i64 b) = i64 (a + b) := Int.add_bmod_bmod

theorem i64_i64_add (a b : Int) : i64 (i64 a + b) = i64 (a + b) := Int.bmod_add_bmod

/-- A sum that goes around on the way is the residue of the exact sum. -/
theorem foldl_i64 {α : Type} (f : α → Int) (xs : List α) (z : Int) :
    xs.foldl (fun sum x => i64 (sum + f x)) (i64 z) = i64 (z + (xs.map f).sum) := by
  induction xs generalizing z with
  | nil => simp
  | cons x xs ih =>
    rw [List.foldl_cons, i64_i64_add, ih, List.map_cons, List.sum_cons, Int.add_assoc]

/-- The residues of values that share a term: the term counts for each of them, and every lap is
lost. -/
theorem sum_i64_add {α : Type} (shared : Int) (f : α → Int) (xs : List α) :
    (xs.map fun x => i64 (shared + f x)).sum =
      xs.length * shared + (xs.map f).sum - 2 ^ 64 * (xs.map fun x => laps (shared + f x)).sum := by
  induction xs with
  | nil => simp
  | cons x xs ih =>
    have first := i64_eq_sub_laps (shared + f x)
    simp only [List.map_cons, List.sum_cons, List.length_cons, ih, Int.natCast_add, Int.natCast_one,
      Int.add_mul, Int.one_mul]
    omega

/-! The two's complement of a number, read as a signed integer again. -/

theorem i16_residue (z : Int) (fits : FitsI16 z) : i16 ((z % 2 ^ 16).toNat : Int) = z := by
  simp only [FitsI16] at fits
  rw [Int.toNat_of_nonneg (Int.emod_nonneg z (by decide)), i16]
  exact (Int.emod_bmod z (2 ^ 16)).trans (Int.bmod_eq_of_le (by omega) (by omega))

theorem i32_residue (z : Int) (fits : FitsI32 z) : i32 ((z % 2 ^ 32).toNat : Int) = z := by
  rw [Int.toNat_of_nonneg (Int.emod_nonneg z (by decide)), i32]
  exact (Int.emod_bmod z (2 ^ 32)).trans (i32_eq_self z fits)

theorem i64_residue (z : Int) (fits : FitsI64 z) : i64 ((z % 2 ^ 64).toNat : Int) = z := by
  rw [Int.toNat_of_nonneg (Int.emod_nonneg z (by decide)), i64]
  exact (Int.emod_bmod z (2 ^ 64)).trans (i64_eq_self z fits)

end FixedWidth
