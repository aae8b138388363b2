import NseHft.Common.TimeUtils
import NseHft.Common.Types

/-!
# NNF encoder

Messages are written into a caller's buffer, a byte list. A pointer is an offset into it; a
store beyond its end is dropped. An encoder returns the message length and the buffer.
-/
namespace NseHft

abbrev Buffer := List UInt8

def kTcNewOrder : Int := 2073
def kTcModifyOrder : Int := 2074
def kTcCancelOrder : Int := 2075
def kTcHeartbeat : Int := 23
def kTcSignOn : Int := 2300
def kTcSignOff : Int := 2320

def kHdrTransCode : Nat := 0
def kHdrLogTime : Nat := 2
def kHdrAlphaChar : Nat := 6
def kHdrTraderId : Nat := 8
def kHdrErrorCode : Nat := 12
def kHdrTimestamp : Nat := 14
def kHdrTimestamp2 : Nat := 22
def kHdrMsgLength : Nat := 30
def kNnfHeaderSize : Nat := 32

def kNnfMaxMsg : Nat := 256

/-- The bytes of `bytes` at `p`, one after the other. -/
def copyBytes (bytes : List UInt8) (p : Nat) (buf : Buffer) : Buffer :=
  match bytes with
  | [] => buf
  | byte :: rest => copyBytes rest (p + 1) (buf.set p byte)

/-- Little-endian bytes of an integer of `width` bytes, in two's complement. -/
def leBytes (width : Nat) (value : Int) : List UInt8 :=
  let u := (value % 2 ^ (8 * width)).toNat
  (List.range width).map fun i => UInt8.ofNat ((u >>> (8 * i)) &&& 255)

def storeLe (width p : Nat) (value : Int) (buf : Buffer) : Buffer :=
  copyBytes (leBytes width value) p buf

def nnfOrderTypeChar : OrderType → UInt8
  | .limit => 76           -- 'L'
  | .market => 77          -- 'M'
  | .stopLoss => 83        -- 'S'
  | .stopLossMarket => 81  -- 'Q'

structure NnfEncoder where
  traderId : Int := 0
  branchId : Int := 0
  alpha : UInt8 × UInt8 := (32, 32)
  participant : Vector UInt8 12 := .replicate 12 32
  deriving DecidableEq, Repr

namespace NnfEncoder

def setAlphaChar (enc : NnfEncoder) (a b : UInt8) : NnfEncoder := { enc with alpha := (a, b) }

/-- Two decimal digits. -/
def two (v : Nat) : List UInt8 := [UInt8.ofNat (48 + v / 10 % 10), UInt8.ofNat (48 + v % 10)]

/-- HHMMSSss, with hundredths of a second. -/
def encodeTimestamp (istNs : Nat) : List UInt8 :=
  let tod := istNs % kNsPerDay
  let hh := tod / (3600 * kNsPerSecond)
  let mm := tod / (60 * kNsPerSecond) % 60
  let ss := tod / kNsPerSecond % 60
  let hundredths := tod % kNsPerSecond / 10000000
  two hh ++ two mm ++ two ss ++ two hundredths

def writeHeader (enc : NnfEncoder) (tc : Int) (nowIst len : Nat) (buf : Buffer) : Buffer :=
  buf
  |> storeLe 2 kHdrTransCode tc
  |> storeLe 4 kHdrLogTime 0
  |> copyBytes [enc.alpha.1, enc.alpha.2] kHdrAlphaChar
  |> storeLe 4 kHdrTraderId enc.traderId
  |> storeLe 2 kHdrErrorCode 0
  |> copyBytes (encodeTimestamp nowIst) kHdrTimestamp
  |> copyBytes (List.replicate 8 0) kHdrTimestamp2
  |> storeLe 2 kHdrMsgLength len

def encodeNewOrder (enc : NnfEncoder) (buf : Buffer) (o : Order) (nowIst : Nat)
    (openClose : UInt8) : Nat × Buffer :=
  let total := kNnfHeaderSize + 48
  if total > kNnfMaxMsg then (0, buf)
  else
    let b := kNnfHeaderSize
    (total, enc.writeHeader kTcNewOrder nowIst total buf
      |> storeLe 4 (b + 0) o.token
      |> storeLe 2 (b + 4) (if o.side = kBuy then 1 else 2)
      |> storeLe 4 (b + 6) o.qty
      |> storeLe 4 (b + 10) o.disclosedQty
      |> storeLe 8 (b + 14) o.price
      |> copyBytes [nnfOrderTypeChar o.orderType] (b + 22)
      |> storeLe 2 (b + 23) o.validity.code
      |> storeLe 8 (b + 25) o.clientOrderId
      |> copyBytes enc.participant.toList (b + 33)
      |> storeLe 2 (b + 45) enc.branchId
      |> copyBytes [openClose] (b + 47))

def encodeModify (enc : NnfEncoder) (buf : Buffer) (o : Order) (nowIst : Nat) : Nat × Buffer :=
  let total := kNnfHeaderSize + 36
  let b := kNnfHeaderSize
  (total, enc.writeHeader kTcModifyOrder nowIst total buf
    |> storeLe 8 (b + 0) o.exchangeOrderNo
    |> storeLe 4 (b + 8) o.token
    |> storeLe 8 (b + 12) o.price
    |> storeLe 4 (b + 20) o.qty
    |> storeLe 4 (b + 24) o.disclosedQty
    |> storeLe 8 (b + 28) o.clientOrderId)

def encodeCancel (enc : NnfEncoder) (buf : Buffer) (exchangeOrderNo : Int) (token : Nat)
    (clordid : Int) (nowIst : Nat) : Nat × Buffer :=
  let total := kNnfHeaderSize + 20
  let b := kNnfHeaderSize
  (total, enc.writeHeader kTcCancelOrder nowIst total buf
    |> storeLe 8 (b + 0) exchangeOrderNo
    |> storeLe 4 (b + 8) token
    |> storeLe 8 (b + 12) clordid)

/-- A header only. -/
def encodeHeartbeat (enc : NnfEncoder) (buf : Buffer) (nowIst : Nat) : Nat × Buffer :=
  (kNnfHeaderSize, enc.writeHeader kTcHeartbeat nowIst kNnfHeaderSize buf)

/-- The password, cut to the body and padded with zeros. -/
def encodeSignOn (enc : NnfEncoder) (buf : Buffer) (password : Option (List UInt8))
    (nowIst : Nat) : Nat × Buffer :=
  let body := 32
  let total := kNnfHeaderSize + body
  (total, enc.writeHeader kTcSignOn nowIst total buf
    |> copyBytes (List.replicate body 0) kNnfHeaderSize
    |> copyBytes ((password.getD []).take body) kNnfHeaderSize)

def encodeSignOff (enc : NnfEncoder) (buf : Buffer) (nowIst : Nat) : Nat × Buffer :=
  (kNnfHeaderSize, enc.writeHeader kTcSignOff nowIst kNnfHeaderSize buf)

@[simp] theorem encodeNewOrder_length (enc : NnfEncoder) (buf : Buffer) (o : Order)
    (nowIst : Nat) (openClose : UInt8) : (enc.encodeNewOrder buf o nowIst openClose).1 = 80 := rfl

/-! ### The time stamp -/

section Timestamp

/-- The number that two decimal digits show. -/
def twoAt (bytes : List UInt8) (p : Nat) : Nat :=
  10 * ((bytes.getD p 0).toNat - 48) + ((bytes.getD (p + 1) 0).toNat - 48)

/-- Hundredths of a second since midnight. -/
def hundredthsOfDay (istNs : Nat) : Nat := istNs % kNsPerDay / 10000000

theorem hundredthsOfDay_lt (istNs : Nat) : hundredthsOfDay istNs < 24 * 360000 := by
  simp only [hundredthsOfDay, kNsPerDay, kNsPerSecond]
  omega

/-- The four fields are the digits of one count of hundredths in a mixed radix. -/
theorem encodeTimestamp_eq (istNs : Nat) :
    encodeTimestamp istNs =
      two (hundredthsOfDay istNs / 360000) ++ (two (hundredthsOfDay istNs / 6000 % 60) ++
        (two (hundredthsOfDay istNs / 100 % 60) ++ two (hundredthsOfDay istNs % 100))) := by
  simp only [encodeTimestamp, hundredthsOfDay, kNsPerDay, kNsPerSecond]
  generalize istNs % (86400 * 1000000000) = tod
  rw [show tod / 10000000 / 360000 = tod / (3600 * 1000000000) by omega,
    show tod / 10000000 / 6000 % 60 = tod / (60 * 1000000000) % 60 by omega,
    show tod / 10000000 / 100 % 60 = tod / 1000000000 % 60 by omega,
    show tod / 10000000 % 100 = tod % 1000000000 / 10000000 by omega]
  simp only [List.append_assoc]

private theorem digit_toNat (d : Nat) : (UInt8.ofNat (48 + d % 10)).toNat = 48 + d % 10 := by
  rw [UInt8.toNat_ofNat']
  omega

theorem two_isDigit (v : Nat) : ∀ byte ∈ two v, 48 ≤ byte.toNat ∧ byte.toNat ≤ 57 := by
  intro byte member
  simp only [two, List.mem_cons, List.not_mem_nil, or_false] at member
  rcases member with rfl | rfl <;> rw [digit_toNat] <;> omega

/-- Fields of two digits are compared as numbers, the first one before the rest. -/
theorem two_append_lt_iff {v w : Nat} (small : v < 100) (small' : w < 100)
    (rest rest' : List UInt8) :
    two v ++ rest < two w ++ rest' ↔ v < w ∨ v = w ∧ rest < rest' := by
  have equal (d e : Nat) :
      UInt8.ofNat (48 + d % 10) = UInt8.ofNat (48 + e % 10) ↔ d % 10 = e % 10 := by
    rw [← UInt8.toNat_inj, digit_toNat, digit_toNat]
    omega
  simp only [two, List.cons_append, List.nil_append, List.cons_lt_cons_iff,
    UInt8.lt_iff_toNat_lt, digit_toNat, equal]
  by_cases later : rest < rest' <;> simp only [later, and_true, and_false, or_false] <;> omega

theorem encodeTimestamp_lt_iff (t t' : Nat) :
    encodeTimestamp t < encodeTimestamp t' ↔ hundredthsOfDay t < hundredthsOfDay t' := by
  have bound := hundredthsOfDay_lt t
  have bound' := hundredthsOfDay_lt t'
  rw [encodeTimestamp_eq, encodeTimestamp_eq]
  generalize hundredthsOfDay t = n at bound
  generalize hundredthsOfDay t' = n' at bound'
  rw [← List.append_nil (two (n % 100)), ← List.append_nil (two (n' % 100)),
    two_append_lt_iff (by omega) (by omega), two_append_lt_iff (by omega) (by omega),
    two_append_lt_iff (by omega) (by omega), two_append_lt_iff (by omega) (by omega)]
  have irreflexive : ¬ ([] : List UInt8) < [] := List.not_lt_nil []
  simp only [irreflexive, and_false, or_false]
  omega

/-- The time stamp is eight digits that show the hundredths of the day as a time, and on one day
the stamps are ordered like the instants. -/
theorem timestamp_decodes (t : Nat) :
    (encodeTimestamp t).length = 8 ∧
    (∀ byte ∈ encodeTimestamp t, 48 ≤ byte.toNat ∧ byte.toNat ≤ 57) ∧
    twoAt (encodeTimestamp t) 0 < 24 ∧ twoAt (encodeTimestamp t) 2 < 60 ∧
    twoAt (encodeTimestamp t) 4 < 60 ∧
    ((twoAt (encodeTimestamp t) 0 * 60 + twoAt (encodeTimestamp t) 2) * 60 +
        twoAt (encodeTimestamp t) 4) * 100 + twoAt (encodeTimestamp t) 6 =
      t % kNsPerDay / 10000000 ∧
    ∀ t', t / kNsPerDay = t' / kNsPerDay →
      (encodeTimestamp t < encodeTimestamp t' ↔ t / 10000000 < t' / 10000000) := by
  have bound := hundredthsOfDay_lt t
  have ordered (t' : Nat) (sameDay : t / kNsPerDay = t' / kNsPerDay) :
      encodeTimestamp t < encodeTimestamp t' ↔ t / 10000000 < t' / 10000000 := by
    rw [encodeTimestamp_lt_iff]
    -- a day is a whole number of hundredths
    simp only [hundredthsOfDay, kNsPerDay, kNsPerSecond] at sameDay ⊢
    omega
  have written := encodeTimestamp_eq t
  generalize encodeTimestamp t = stamp at written ordered ⊢
  have digits : ∀ byte ∈ stamp, 48 ≤ byte.toNat ∧ byte.toNat ≤ 57 := by
    intro byte member
    rw [written] at member
    simp only [List.mem_append] at member
    rcases member with member | member | member | member
    all_goals exact two_isDigit _ byte member
  have count : t % kNsPerDay / 10000000 = hundredthsOfDay t := rfl
  rw [count]
  generalize hundredthsOfDay t = n at bound written
  have fields : twoAt stamp 0 = n / 360000 ∧ twoAt stamp 2 = n / 6000 % 60 ∧
      twoAt stamp 4 = n / 100 % 60 ∧ twoAt stamp 6 = n % 100 := by
    simp only [twoAt, written, two, List.cons_append, List.nil_append, List.getD_cons_zero,
      List.getD_cons_succ, digit_toNat]
    omega
  refine ⟨by rw [written]; rfl, digits, ?_, ?_, ?_, ?_, ordered⟩ <;> omega

/-- Ten milliseconds before and at 09:15. -/
theorem market_open_stamps_ordered :
    encodeTimestamp (33299990000000) < encodeTimestamp (33300000000000) :=
  ((timestamp_decodes 33299990000000).2.2.2.2.2.2 33300000000000 (by decide)).mpr (by decide)

end Timestamp

end NnfEncoder

end NseHft
