import Mathlib.Data.Nat.Digits.Lemmas

/-! Fixed-width little-endian integers as lists of bytes. -/
namespace LittleEndian

/-- The number that the bytes stand for, the least significant first. -/
def value (bytes : List UInt8) : Nat := Nat.ofDigits 256 (bytes.map UInt8.toNat)

/-- The byte of weight `256 ^ i`. -/
def byte (n i : Nat) : UInt8 := UInt8.ofNat (n / 256 ^ i)

/-- The lowest `width` bytes of a number. -/
def bytes (width n : Nat) : List UInt8 := (List.range width).map (byte n)

theorem value_concat (front : List UInt8) (last : UInt8) :
    value (front ++ [last]) = value front + 256 ^ front.length * last.toNat := by
  rw [value, value, List.map_append, Nat.ofDigits_append, List.length_map, List.map_singleton,
    Nat.ofDigits_singleton]

@[simp] theorem length_bytes (width n : Nat) : (bytes width n).length = width := by
  rw [bytes, List.length_map, List.length_range]

/-- Reading what was written keeps the lowest bytes. -/
theorem value_bytes (width n : Nat) : value (bytes width n) = n % 256 ^ width := by
  induction width with
  | zero => simp [value, bytes, Nat.mod_one]
  | succ width ih =>
    have last : bytes (width + 1) n = bytes width n ++ [byte n width] := by
      rw [bytes, List.range_succ, List.map_append]
      rfl
    have digit : (byte n width).toNat = n / 256 ^ width % 256 := by
      rw [byte, UInt8.toNat_ofNat']
    rw [last, value_concat, ih, length_bytes, digit, Nat.mod_pow_succ]

end LittleEndian
