import Mathlib.Data.List.GetD
import Mathlib.Tactic.Positivity
import Mathlib.Tactic.Ring
import NseHft.FeedHandler.MtbtParser
import NseHft.Lib.LittleEndian
import NseHft.Lib.RecordLayout
import NseHft.OrderManager.NnfEncoder

/-!
# Fields on the wire

What the stores of the encoders leave in a buffer, the loads of the parser read again.
-/
namespace NseHft

open FixedWidth RecordLayout

/-- The signed 16-bit load. -/
def loadLeI16 (p : List UInt8) : Int := i16 (loadLe 2 p)

theorem loadLe_eq_value (width : Nat) (p : List UInt8) (enough : width ≤ p.length) :
    loadLe width p = LittleEndian.value (p.take width) := by
  induction width with
  | zero => rfl
  | succ width ih =>
    have inside : width < p.length := enough
    have step : loadLe (width + 1) p = loadLe width p ||| p[width].toNat <<< (8 * width) := by
      rw [loadLe, List.range_succ, List.foldl_append, List.foldl_cons, List.foldl_nil,
        List.getD_eq_getElem _ _ inside]
      rfl
    have weight : 2 ^ (8 * width) = 256 ^ width := by rw [Nat.pow_mul]
    rw [step, Nat.or_comm, ← Nat.shiftLeft_add_eq_or_of_lt (loadLe_lt width p), Nat.shiftLeft_eq,
      weight, ih (by omega), List.take_succ_eq_append_getElem inside, LittleEndian.value_concat,
      List.length_take, Nat.min_eq_left (by omega)]
    ring

theorem leBytes_eq_bytes (width : Nat) (value : Int) :
    leBytes width value = LittleEndian.bytes width (value % 2 ^ (8 * width)).toNat := by
  apply List.map_congr_left
  intro i _
  have weight : 2 ^ (8 * i) = 256 ^ i := by rw [Nat.pow_mul]
  apply UInt8.toNat_inj.mp
  rw [LittleEndian.byte, UInt8.toNat_ofNat', UInt8.toNat_ofNat',
    show 255 = 2 ^ 8 - 1 from rfl, Nat.and_two_pow_sub_one_eq_mod, Nat.shiftRight_eq_div_pow, weight,
    Nat.mod_mod]

@[simp] theorem leBytes_length (width : Nat) (value : Int) : (leBytes width value).length = width := by
  rw [leBytes_eq_bytes, LittleEndian.length_bytes]

section Reads

variable {record : List UInt8} {p : Nat} {value : Int}

/-- A load at the place of a stored integer gives its residue. -/
theorem loadLe_of_reads {width : Nat} (reads : Reads record p (leBytes width value)) :
    loadLe width (record.drop p) = (value % 2 ^ (8 * width)).toNat := by
  obtain ⟨rest, equal⟩ := reads
  have small : (value % 2 ^ (8 * width)).toNat < 256 ^ width := by
    have positive : (0 : Int) < 2 ^ (8 * width) := by positivity
    have upper := Int.emod_lt_of_pos value positive
    have weight : ((256 ^ width : Nat) : Int) = 2 ^ (8 * width) := by
      rw [Int.pow_mul]
      norm_cast
    omega
  rw [equal, loadLe_eq_value _ _ (by simp), List.take_left' (leBytes_length width value),
    leBytes_eq_bytes, LittleEndian.value_bytes, Nat.mod_eq_of_lt small]

theorem loadLe_of_reads_nat {width n : Nat} (reads : Reads record p (leBytes width n))
    (fits : n < 2 ^ (8 * width)) : loadLe width (record.drop p) = n := by
  rw [loadLe_of_reads reads]
  have exactly : (n : Int) % 2 ^ (8 * width) = n :=
    Int.emod_eq_of_lt (by omega) (by exact_mod_cast fits)
  rw [exactly, Int.toNat_natCast]

theorem loadLeI16_of_reads (reads : Reads record p (leBytes 2 value)) (fits : FitsI16 value) :
    loadLeI16 (record.drop p) = value := by
  rw [loadLeI16, loadLe_of_reads reads]
  exact i16_residue value fits

theorem loadLeI32_of_reads (reads : Reads record p (leBytes 4 value)) (fits : FitsI32 value) :
    loadLeI32 (record.drop p) = value := by
  rw [loadLeI32, loadLe_of_reads reads]
  exact i32_residue value fits

theorem loadLeI64_of_reads (reads : Reads record p (leBytes 8 value)) (fits : FitsI64 value) :
    loadLeI64 (record.drop p) = value := by
  rw [loadLeI64, loadLe_of_reads reads]
  exact i64_residue value fits

theorem loadLe_of_reads_byte {byte : UInt8} (reads : Reads record p [byte]) :
    loadLe 1 (record.drop p) = byte.toNat := by
  obtain ⟨rest, equal⟩ := reads
  rw [equal]
  simp [loadLe]

theorem decodeSide_of_reads {width : Nat} {side : Side}
    (reads : Reads record p (leBytes width (if side = kBuy then 1 else 2))) (wide : 0 < width) :
    decodeSide (loadLe width (record.drop p)) = side := by
  have room : 2 ^ (8 * 1) ≤ 2 ^ (8 * width) :=
    Nat.pow_le_pow_right (by decide) (Nat.mul_le_mul_left 8 wide)
  have code : (if side = kBuy then 1 else 2 : Int) = ((if side = kBuy then 1 else 2 : Nat) : Int) := by
    cases side <;> rfl
  rw [code] at reads
  rw [loadLe_of_reads_nat reads (by cases side <;> simp <;> omega)]
  cases side <;> rfl

end Reads

end NseHft
