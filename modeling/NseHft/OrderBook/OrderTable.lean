import Mathlib.Logic.Function.Basic
import NseHft.Common.Types
import NseHft.Lib.BackwardShift
import NseHft.Lib.FixedWidth

/-!
# Order table

Pre-allocated open-addressing table from order number to resting order. The table is
an instance of linear probing with backward-shift deletion; over any run it behaves
as a finite map, as long as nothing is erased from a completely full table.
-/
namespace NseHft

open Execution FixedWidth LinearProbing

structure OrderRecord where
  orderNo : Int := 0
  price : Int := 0
  qty : Int := 0
  side : Side := kBuy
  occupied : Bool := false
  deriving DecidableEq, Repr, Inhabited

/-- Doubling from one until `v` is reached; `v` doublings are more than enough. -/
def roundUpPow2 (v : Nat) : Nat :=
  (iterate (fun p => if p < v then .inl (p * 2) else .inr p) (v + 1) 1).getD 0

theorem roundUpPow2_spec (v : Nat) : ∃ bits, roundUpPow2 v = 2 ^ bits ∧ v ≤ roundUpPow2 v := by
  obtain ⟨p, returned, ⟨bits, power⟩, reached⟩ := iterate_total
    (fun p => if p < v then .inl (p * 2) else .inr p)
    (fun p => ∃ bits, p = 2 ^ bits) (fun p => (∃ bits, p = 2 ^ bits) ∧ v ≤ p) (fun p => v - p)
    (by
      rintro p next ⟨bits, power⟩ taken
      have positive : 0 < p := power ▸ Nat.two_pow_pos bits
      split at taken
      next smaller =>
        cases taken
        exact ⟨⟨bits + 1, by rw [power, Nat.pow_succ]⟩, by omega⟩
      · cases taken)
    (by
      rintro p result power taken
      split at taken
      · cases taken
      next larger =>
        cases taken
        exact ⟨power, by omega⟩)
    (v + 1) 1 ⟨0, rfl⟩ (by omega)
  refine ⟨bits, ?_, ?_⟩ <;> rw [roundUpPow2, returned, Option.getD_some]
  · exact power
  · exact reached

/-- Fibonacci hashing of the 64-bit order number. -/
def hash (mask : Nat) (orderNo : Int) : Nat :=
  (u64 ((orderNo % 2 ^ 64).toNat * 0x9E3779B97F4A7C15) >>> 40) &&& mask

def orderScheme (mask : Nat) : Scheme OrderRecord Int where
  mask := mask
  occupied := OrderRecord.occupied
  key := OrderRecord.orderNo
  home := hash mask
  clear := fun r => { r with occupied := false }

structure OrderTable where
  mask : Nat
  orders : List OrderRecord
  deriving DecidableEq, Repr

namespace OrderTable

/-- `order_capacity` rounded up, all slots unoccupied. -/
def new (capacity : Nat) : OrderTable :=
  ⟨roundUpPow2 capacity - 1, List.replicate (roundUpPow2 capacity) {}⟩

/-- Index of the slot that holds `orderNo`; stands for the returned pointer. -/
def findOrder (t : OrderTable) (orderNo : Int) : Option Nat :=
  find (orderScheme t.mask) t.orders orderNo

/-- The record a pointer into the table refers to. -/
def record (t : OrderTable) (i : Nat) : OrderRecord := slot t.orders i

def setRecord (t : OrderTable) (i : Nat) (rec : OrderRecord) : OrderTable :=
  { t with orders := t.orders.set i rec }

/-- Writes price and quantity through a found pointer. -/
def updateRecord (t : OrderTable) (i : Nat) (price qty : Int) : OrderTable :=
  t.setRecord i { t.record i with price := price, qty := qty }

/-- A duplicate add overwrites; `false` when the table is full. -/
def insertOrder (t : OrderTable) (rec : OrderRecord) : Bool × OrderTable :=
  match insert (orderScheme t.mask) t.orders { rec with occupied := true } with
  | some orders => (true, { t with orders := orders })
  | none => (false, t)

/-- `none` when the backward-shift loop has not ended after `fuel` iterations. -/
def eraseOrder (fuel : Nat) (t : OrderTable) (orderNo : Int) : Option OrderTable :=
  (erase (orderScheme t.mask) fuel t.orders orderNo).map fun orders => { t with orders := orders }

/-- Marks every slot unoccupied, as `OrderBook::clear` does. -/
def clear (t : OrderTable) : OrderTable :=
  { t with orders := t.orders.map fun r => { r with occupied := false } }

/-- The orders currently stored. -/
def tracked (t : OrderTable) : List OrderRecord := records (orderScheme t.mask) t.orders

/-- Every slot is occupied. -/
def Full (t : OrderTable) : Prop := LinearProbing.Full (orderScheme t.mask) t.orders

instance (t : OrderTable) : Decidable t.Full :=
  inferInstanceAs (Decidable (LinearProbing.Full (orderScheme t.mask) t.orders))

/-- What every table reached by the operations satisfies. -/
structure Ok (t : OrderTable) : Prop where
  lawful : (orderScheme t.mask).Lawful
  valid : Valid (orderScheme t.mask) t.orders

theorem new_ok (capacity : Nat) : (new capacity).Ok := by
  obtain ⟨bits, power, _⟩ := roundUpPow2_spec capacity
  have positive : 0 < roundUpPow2 capacity := power ▸ Nat.two_pow_pos bits
  have size : roundUpPow2 capacity - 1 + 1 = roundUpPow2 capacity := by omega
  refine ⟨⟨⟨bits, ?_⟩, fun k => Nat.and_le_right, fun r => rfl⟩, valid_of_free ?_ ?_⟩
  · exact size.trans power
  · exact (List.length_replicate).trans size.symm
  · intro r member
    rw [(List.mem_replicate.mp member).2]
    rfl

private theorem tracked_of_free (t : OrderTable) (free : ∀ r ∈ t.orders, r.occupied = false) :
    t.tracked = [] := by
  simp only [tracked, records, List.filter_eq_nil_iff]
  intro r member
  simp [orderScheme, free r member]

theorem tracked_new (capacity : Nat) : (new capacity).tracked = [] := by
  apply tracked_of_free
  intro r member
  rw [(List.mem_replicate.mp member).2]

private theorem clear_free (t : OrderTable) : ∀ r ∈ t.clear.orders, r.occupied = false := by
  simp [clear]

theorem tracked_clear (t : OrderTable) : t.clear.tracked = [] := tracked_of_free _ (clear_free t)

theorem Ok.clear {t : OrderTable} (ok : t.Ok) : t.clear.Ok :=
  ⟨ok.lawful, valid_of_free ((List.length_map _).trans ok.valid.size) t.clear_free⟩

section Operations

variable {t : OrderTable}

theorem Ok.nodup (ok : t.Ok) : (t.tracked.map OrderRecord.orderNo).Nodup := ok.valid.keys_nodup

theorem Ok.occupied {rec : OrderRecord} (member : rec ∈ t.tracked) : rec.occupied = true :=
  (List.mem_filter.mp member).2

/-- A found pointer refers to a tracked order, and to the only one of that number. -/
theorem Ok.findOrder_some (ok : t.Ok) {orderNo : Int} {i : Nat}
    (found : t.findOrder orderNo = some i) :
    i < t.orders.length ∧ (t.record i).orderNo = orderNo ∧ (t.record i).occupied = true ∧
      t.tracked.Perm (t.record i :: others (orderScheme t.mask) t.orders i) := by
  obtain ⟨bound, here, same⟩ := (find_eq_some_iff ok.lawful ok.valid orderNo i).mp found
  have inside : i < t.orders.length := by rw [ok.valid.size]; exact Nat.lt_succ_of_le bound
  exact ⟨inside, same, here, records_of_occ i inside here⟩

theorem Ok.findOrder_none_iff (ok : t.Ok) (orderNo : Int) :
    t.findOrder orderNo = none ↔ ∀ r ∈ t.tracked, r.orderNo ≠ orderNo := by
  have := lookup_eq_none_iff ok.lawful ok.valid orderNo
  rw [lookup, Option.map_eq_none_iff] at this
  exact this

theorem Ok.setRecord (ok : t.Ok) {orderNo : Int} {i : Nat} (found : t.findOrder orderNo = some i)
    (rec : OrderRecord) (occupied : rec.occupied = true) (same : rec.orderNo = orderNo) :
    (t.setRecord i rec).Ok ∧
      (t.setRecord i rec).tracked.Perm (rec :: others (orderScheme t.mask) t.orders i) := by
  obtain ⟨bound, here, key⟩ := (find_eq_some_iff ok.lawful ok.valid orderNo i).mp found
  have inside : i < t.orders.length := by rw [ok.valid.size]; exact Nat.lt_succ_of_le bound
  exact ⟨⟨ok.lawful, ok.valid.overwrite i bound here rec occupied (same.trans key.symm)⟩,
    records_set_occ i inside rec occupied⟩

/-- Everything an insertion can do. -/
theorem Ok.insertOrder_cases (ok : t.Ok) (rec : OrderRecord) :
    (∃ t', t.insertOrder rec = (true, t') ∧ t'.Ok ∧ t'.mask = t.mask ∧ ¬ t.Full ∧
      t.findOrder rec.orderNo = none ∧
      t'.tracked.Perm ({ rec with occupied := true } :: t.tracked)) ∨
    (∃ i, t.findOrder rec.orderNo = some i ∧
      t.insertOrder rec = (true, t.setRecord i { rec with occupied := true })) ∨
    (t.insertOrder rec = (false, t) ∧ t.Full ∧ t.findOrder rec.orderNo = none) := by
  unfold OrderTable.insertOrder
  rcases insert_cases ok.lawful ok.valid { rec with occupied := true } rfl with
    ⟨orders, stored, valid, room, absent, perm⟩ | ⟨i, stored, _, found⟩ | ⟨stored, full, absent⟩
  · left
    rw [stored]
    exact ⟨_, rfl, ⟨ok.lawful, valid⟩, rfl, room, (ok.findOrder_none_iff _).mpr absent, perm⟩
  · right; left
    rw [stored]
    exact ⟨i, found, rfl⟩
  · right; right
    rw [stored]
    exact ⟨rfl, full, (ok.findOrder_none_iff _).mpr absent⟩

theorem insertOrder_mask (t : OrderTable) (rec : OrderRecord) :
    (t.insertOrder rec).2.mask = t.mask := by
  simp only [OrderTable.insertOrder]
  split <;> rfl

theorem eraseOrder_mask {fuel : Nat} {orderNo : Int} {t' : OrderTable}
    (returned : t.eraseOrder fuel orderNo = some t') : t'.mask = t.mask := by
  simp only [OrderTable.eraseOrder, Option.map_eq_some_iff] at returned
  obtain ⟨orders, _, rfl⟩ := returned
  rfl

theorem Ok.full_iff (ok : t.Ok) : t.Full ↔ t.tracked.length = t.mask + 1 := by
  have size : t.orders.length = t.mask + 1 := ok.valid.size
  rw [← size, tracked, records, List.length_filter_eq_length_iff]
  rfl

/-- A stored new number is added to the tracked orders. -/
theorem Ok.insertOrder_new (ok : t.Ok) {rec : OrderRecord} {t' : OrderTable}
    (stored : t.insertOrder rec = (true, t')) (absent : t.findOrder rec.orderNo = none) :
    t'.Ok ∧ t'.tracked.Perm ({ rec with occupied := true } :: t.tracked) := by
  rcases ok.insertOrder_cases rec with
    ⟨_, other, tableOk, _, _, _, perm⟩ | ⟨i, found, _⟩ | ⟨other, _⟩
  · rw [stored] at other
    cases other
    exact ⟨tableOk, perm⟩
  · rw [absent] at found
    cases found
  · rw [stored] at other
    cases other

/-- Everything a returning erase can have done. -/
theorem Ok.eraseOrder_cases (ok : t.Ok) {fuel : Nat} {orderNo : Int} {t' : OrderTable}
    (returned : t.eraseOrder fuel orderNo = some t') :
    t'.Ok ∧ t'.mask = t.mask ∧ ((t.findOrder orderNo = none ∧ t' = t) ∨
      ∃ i, t.findOrder orderNo = some i ∧ ¬ t.Full ∧ t.tracked.Perm (t.record i :: t'.tracked)) := by
  simp only [OrderTable.eraseOrder, Option.map_eq_some_iff] at returned
  obtain ⟨orders, erased, rfl⟩ := returned
  rcases erase_cases ok.lawful ok.valid orderNo fuel orders erased with
    ⟨absent, rfl⟩ | ⟨i, found, room, valid, perm⟩
  · exact ⟨ok, rfl, .inl ⟨absent, rfl⟩⟩
  · exact ⟨⟨ok.lawful, valid⟩, rfl, .inr ⟨i, found, room, perm⟩⟩

/-- Changing price and quantity in place. -/
theorem Ok.updateRecord (ok : t.Ok) {orderNo : Int} {i : Nat}
    (found : t.findOrder orderNo = some i) (price qty : Int) :
    (t.updateRecord i price qty).Ok ∧ ((t.updateRecord i price qty).Full ↔ t.Full) ∧
      (t.updateRecord i price qty).tracked.Perm
        ({ t.record i with price := price, qty := qty } ::
          others (orderScheme t.mask) t.orders i) := by
  obtain ⟨_, key, occupied, before⟩ := ok.findOrder_some found
  -- number and flag of the record stay, so the slot may be overwritten
  have stillOccupied :
      ({ t.record i with price := price, qty := qty } : OrderRecord).occupied = true := occupied
  obtain ⟨ok', after⟩ := ok.setRecord found _ stillOccupied key
  refine ⟨ok', ?_, after⟩
  -- the number of tracked orders stays
  have count : (t.updateRecord i price qty).tracked.length = t.tracked.length :=
    after.length_eq.trans before.length_eq.symm
  have full_iff' : (t.updateRecord i price qty).Full ↔
      (t.updateRecord i price qty).tracked.length = t.mask + 1 := Ok.full_iff ok'
  rw [full_iff', count, ok.full_iff]

/-- Erasing never fills the table. -/
theorem Ok.eraseOrder_room (ok : t.Ok) (room : ¬ t.Full) {fuel : Nat} {orderNo : Int}
    {t' : OrderTable} (returned : t.eraseOrder fuel orderNo = some t') : ¬ t'.Full := by
  obtain ⟨ok', mask, cases⟩ := ok.eraseOrder_cases returned
  rcases cases with ⟨_, rfl⟩ | ⟨i, _, _, perm⟩
  · exact room
  · -- one order fewer in the same number of slots
    have bound : t.tracked.length ≤ t.orders.length := List.length_filter_le _ _
    have size : t.orders.length = t.mask + 1 := ok.valid.size
    have fewer := perm.length_eq
    rw [List.length_cons] at fewer
    rw [ok'.full_iff, mask]
    omega

/-- One lap around the table is enough when a slot is free. -/
theorem Ok.eraseOrder_returns (ok : t.Ok) (room : ¬ t.Full) (orderNo : Int) (fuel : Nat)
    (lap : t.mask < fuel) : ∃ t', t.eraseOrder fuel orderNo = some t' := by
  simp only [OrderTable.eraseOrder, Option.map_eq_some_iff]
  cases found : t.findOrder orderNo with
  | none => exact ⟨_, t.orders, erase_absent fuel orderNo found, rfl⟩
  | some i =>
    obtain ⟨orders, erased, _⟩ :=
      erase_present ok.lawful ok.valid orderNo i found room fuel lap
    exact ⟨_, orders, erased, rfl⟩

theorem Ok.eraseOrder_full (ok : t.Ok) {orderNo : Int} {i : Nat}
    (found : t.findOrder orderNo = some i) (full : t.Full) (fuel : Nat) :
    t.eraseOrder fuel orderNo = none := by
  rw [OrderTable.eraseOrder, erase_full ok.valid orderNo i found full, Option.map_none]

end Operations

/-! ### The table as a finite map -/

/-- The record a probe for `orderNo` leads to. -/
def lookupOrder (t : OrderTable) (orderNo : Int) : Option OrderRecord :=
  (t.findOrder orderNo).map t.record

/-- Runs of the table operations from an empty table, each next to the map it should
implement: a refused insert changes nothing, an erase needs a free slot, and records
are updated in place through a found pointer. -/
inductive Run (capacity : Nat) : OrderTable → (Int → Option OrderRecord) → Prop
  | empty : Run capacity (new capacity) (fun _ => none)
  | insert {t m} (rec : OrderRecord) : Run capacity t m →
      Run capacity (t.insertOrder rec).2
        (if (t.insertOrder rec).1 then
          Function.update m rec.orderNo (some { rec with occupied := true }) else m)
  | erase {t t' m} (fuel : Nat) (orderNo : Int) : Run capacity t m → ¬ t.Full →
      t.eraseOrder fuel orderNo = some t' → Run capacity t' (Function.update m orderNo none)
  | update {t m i} (orderNo price qty : Int) : Run capacity t m →
      t.findOrder orderNo = some i →
      Run capacity (t.updateRecord i price qty)
        (Function.update m orderNo
          ((m orderNo).map fun r => { r with price := price, qty := qty }))

section Refinement

variable {t t' : OrderTable}

theorem Ok.lookupOrder_some_iff (ok : t.Ok) (orderNo : Int) (r : OrderRecord) :
    t.lookupOrder orderNo = some r ↔ r ∈ t.tracked ∧ r.orderNo = orderNo :=
  lookup_eq_some_iff ok.lawful ok.valid orderNo r

theorem lookupOrder_none_iff (t : OrderTable) (orderNo : Int) :
    t.lookupOrder orderNo = none ↔ t.findOrder orderNo = none := Option.map_eq_none_iff

/-- Lookups only depend on the tracked orders with that number. -/
private theorem lookupOrder_congr (ok : t.Ok) (ok' : t'.Ok) (orderNo : Int)
    (same : ∀ r : OrderRecord, r.orderNo = orderNo → (r ∈ t'.tracked ↔ r ∈ t.tracked)) :
    t'.lookupOrder orderNo = t.lookupOrder orderNo := by
  apply Option.ext
  intro r
  rw [ok.lookupOrder_some_iff, ok'.lookupOrder_some_iff]
  constructor
  · rintro ⟨member, equal⟩
    exact ⟨(same r equal).mp member, equal⟩
  · rintro ⟨member, equal⟩
    exact ⟨(same r equal).mpr member, equal⟩

/-- The other orders have other numbers. -/
private theorem Ok.others_absent (ok : t.Ok) {r : OrderRecord} {others : List OrderRecord}
    (perm : t.tracked.Perm (r :: others)) : ∀ o ∈ others, o.orderNo ≠ r.orderNo := by
  have nodup := (perm.map OrderRecord.orderNo).nodup_iff.mp ok.nodup
  rw [List.map_cons, List.nodup_cons] at nodup
  intro o member same
  exact nodup.1 (List.mem_map.mpr ⟨o, member, same⟩)

/-- Tables that differ in the order of one number: gone, new or replaced. -/
private theorem lookupOrder_replace (ok : t.Ok) (ok' : t'.Ok) {orderNo : Int}
    {others : List OrderRecord} {x y : Option OrderRecord}
    (before : t.tracked.Perm (x.toList ++ others)) (after : t'.tracked.Perm (y.toList ++ others))
    (oldNumber : ∀ r ∈ x, r.orderNo = orderNo) (newNumber : ∀ r ∈ y, r.orderNo = orderNo)
    (absent : ∀ r ∈ others, r.orderNo ≠ orderNo) :
    t'.lookupOrder = Function.update t.lookupOrder orderNo y := by
  funext k
  by_cases equal : k = orderNo
  · rw [equal, Function.update_self]
    cases y with
    | none =>
      rw [lookupOrder_none_iff, ok'.findOrder_none_iff]
      intro r member
      exact absent r (after.mem_iff.mp member)
    | some r =>
      rw [ok'.lookupOrder_some_iff]
      exact ⟨after.mem_iff.mpr List.mem_cons_self, newNumber r rfl⟩
  · -- an order of another number is neither the old nor the new one
    rw [Function.update_of_ne equal]
    apply lookupOrder_congr ok ok'
    intro r number
    have notOld : r ∉ x.toList := fun member =>
      equal (number.symm.trans (oldNumber r (Option.mem_toList.mp member)))
    have notNew : r ∉ y.toList := fun member =>
      equal (number.symm.trans (newNumber r (Option.mem_toList.mp member)))
    rw [after.mem_iff, before.mem_iff, List.mem_append, List.mem_append]
    simp only [notNew, notOld, false_or]

private theorem Ok.setRecord_lookup (ok : t.Ok) {orderNo : Int} {i : Nat}
    (found : t.findOrder orderNo = some i) (rec : OrderRecord) (occupied : rec.occupied = true)
    (same : rec.orderNo = orderNo) :
    (t.setRecord i rec).lookupOrder = Function.update t.lookupOrder orderNo (some rec) := by
  obtain ⟨ok', after⟩ := ok.setRecord found rec occupied same
  obtain ⟨_, key, _, before⟩ := ok.findOrder_some found
  have absent := ok.others_absent before
  rw [key] at absent
  apply lookupOrder_replace (x := some (t.record i)) (y := some rec) ok ok' before after
  · rintro r ⟨⟩
    exact key
  · rintro r ⟨⟩
    exact same
  · exact absent

theorem Ok.updateRecord_lookup (ok : t.Ok) {orderNo : Int} {i : Nat}
    (found : t.findOrder orderNo = some i) (price qty : Int) :
    (t.updateRecord i price qty).lookupOrder = Function.update t.lookupOrder orderNo
      (some { t.record i with price := price, qty := qty }) := by
  obtain ⟨_, key, occupied, _⟩ := ok.findOrder_some found
  have stillOccupied :
      ({ t.record i with price := price, qty := qty } : OrderRecord).occupied = true := occupied
  exact ok.setRecord_lookup found _ stillOccupied key

private theorem Ok.insertOrder_lookup (ok : t.Ok) (rec : OrderRecord) :
    (t.insertOrder rec).2.Ok ∧ (t.insertOrder rec).2.lookupOrder =
      if (t.insertOrder rec).1 then
        Function.update t.lookupOrder rec.orderNo (some { rec with occupied := true })
      else t.lookupOrder := by
  rcases ok.insertOrder_cases rec with
    ⟨t', stored, ok', _, _, absent, perm⟩ | ⟨i, found, stored⟩ | ⟨stored, _, _⟩
  · rw [stored, if_pos rfl]
    refine ⟨ok', ?_⟩
    apply lookupOrder_replace (x := none) (y := some { rec with occupied := true }) ok ok'
      (.refl _) perm
    · rintro r ⟨⟩
    · rintro r ⟨⟩
      rfl
    · exact (ok.findOrder_none_iff _).mp absent
  · rw [stored, if_pos rfl]
    have occupied : ({ rec with occupied := true } : OrderRecord).occupied = true := rfl
    exact ⟨(ok.setRecord found _ occupied rfl).1, ok.setRecord_lookup found _ occupied rfl⟩
  · rw [stored]
    exact ⟨ok, rfl⟩

private theorem Ok.eraseOrder_lookup (ok : t.Ok) {fuel : Nat} {orderNo : Int}
    (returned : t.eraseOrder fuel orderNo = some t') :
    t'.Ok ∧ t'.lookupOrder = Function.update t.lookupOrder orderNo none := by
  obtain ⟨ok', _, cases⟩ := ok.eraseOrder_cases returned
  refine ⟨ok', ?_⟩
  rcases cases with ⟨absent, rfl⟩ | ⟨i, found, _, perm⟩
  · rw [← lookupOrder_none_iff] at absent
    rw [← absent, Function.update_eq_self]
  · obtain ⟨_, key, _, _⟩ := ok.findOrder_some found
    have absent := ok.others_absent perm
    rw [key] at absent
    apply lookupOrder_replace (x := some (t.record i)) (y := none) ok ok' perm (.refl _)
    · rintro r ⟨⟩
      exact key
    · rintro r ⟨⟩
    · exact absent

/-- Every run keeps the table invariant and computes the map. -/
theorem Run.refines {capacity : Nat} {m : Int → Option OrderRecord} (run : Run capacity t m) :
    t.Ok ∧ t.lookupOrder = m := by
  induction run with
  | empty =>
    refine ⟨new_ok capacity, ?_⟩
    funext k
    rw [lookupOrder_none_iff, (new_ok capacity).findOrder_none_iff, tracked_new]
    simp
  | insert rec _ ih =>
    obtain ⟨ok, rfl⟩ := ih
    exact ok.insertOrder_lookup rec
  | erase fuel orderNo _ _ returned ih =>
    obtain ⟨ok, rfl⟩ := ih
    exact ok.eraseOrder_lookup returned
  | @update t m i orderNo price qty _ found ih =>
    obtain ⟨ok, rfl⟩ := ih
    -- the map holds what the pointer refers to
    have here : t.lookupOrder orderNo = some (t.record i) := by rw [lookupOrder, found]; rfl
    rw [here]
    exact ⟨(ok.updateRecord found price qty).1, ok.updateRecord_lookup found price qty⟩

/-- The order table refines a finite map: over every run no number is stored twice, a
probe finds exactly the record of the map, an insert is refused exactly for a new
number in a full table, and an erase with a free slot returns. -/
theorem order_table_refines_map (capacity : Nat) (t : OrderTable) (m : Int → Option OrderRecord)
    (run : Run capacity t m) :
    (t.tracked.map OrderRecord.orderNo).Nodup ∧
    (∀ orderNo, (t.findOrder orderNo).map t.record = m orderNo) ∧
    (∀ rec, (t.insertOrder rec).1 = false ↔ m rec.orderNo = none ∧ t.Full) ∧
    (¬ t.Full → ∀ orderNo, ∃ fuel t', t.eraseOrder fuel orderNo = some t') := by
  obtain ⟨ok, rfl⟩ := run.refines
  refine ⟨ok.nodup, fun _ => rfl, ?_, ?_⟩
  · intro rec
    rw [lookupOrder_none_iff]
    -- a known number is overwritten even if the table is full
    rcases ok.insertOrder_cases rec with
      ⟨t', stored, _, _, room, _, _⟩ | ⟨i, found, stored⟩ | ⟨stored, full, absent⟩
    · simp [stored, room]
    · simp [stored, found]
    · simp [stored, full, absent]
  · intro room orderNo
    exact ⟨t.mask + 1, ok.eraseOrder_returns room orderNo _ (Nat.lt_succ_self _)⟩

/-- Orders 1 and 3 share a home slot; erasing the first moves the second, which keeps the
quantity it was updated to. -/
theorem order_table_refines_map_collision :
    ∃ t m, Run 4 t m ∧ (t.findOrder 1).map t.record = none ∧
      (t.findOrder 3).map t.record = some ⟨3, 101, 7, kSell, true⟩ := by
  have inserted := (@Run.empty 4).insert ⟨1, 100, 10, kBuy, false⟩
    |>.insert ⟨3, 101, 20, kSell, false⟩
  have updated := inserted.update (i := 2) 3 101 7 (by decide +kernel)
  have erased := updated.erase 4 1 (by decide +kernel) rfl
  have refines := (order_table_refines_map 4 _ _ erased).2.1
  refine ⟨_, _, erased, ?_, ?_⟩
  · rw [refines, Function.update_self]
  · rw [refines, Function.update_of_ne (by decide), Function.update_self]
    decide +kernel

end Refinement

end OrderTable

end NseHft
