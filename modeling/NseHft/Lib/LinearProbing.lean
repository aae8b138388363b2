import Mathlib.Algebra.Order.Ring.Int
import Mathlib.Data.List.Perm.Basic
import Mathlib.Data.List.Nodup
import Mathlib.Tactic.SplitIfs
import NseHft.Lib.Execution

/-!
# Linear probing with backward-shift deletion

An open-addressing table over a power-of-two ring of slots. A record with key `k`
sits on the probe path that starts at `home k`, and no slot of that path before the
record is free. Deletion closes the hole it makes by moving later records back, so
that no probe path is ever interrupted. The deletion loop itself has no bound: it
ends exactly when the ring has a free slot.
-/
namespace LinearProbing

open Execution

variable {σ K : Type}

/-- How slots hold records. The ring has `mask + 1` slots. -/
structure Scheme (σ K : Type) where
  mask : Nat
  occupied : σ → Bool
  key : σ → K
  home : K → Nat
  clear : σ → σ

/-- What the operations rely on: the ring size is a power of two, so indices wrap
by masking, and clearing a slot frees it and nothing else. -/
structure Scheme.Lawful (S : Scheme σ K) : Prop where
  pow2 : ∃ bits, S.mask + 1 = 2 ^ bits
  home_le : ∀ k, S.home k ≤ S.mask
  clear_free : ∀ r, S.occupied (S.clear r) = false

/-! ### Circular indices -/

namespace Scheme

/-- The index after `i` on the ring. -/
def next (S : Scheme σ K) (i : Nat) : Nat := (i + 1) &&& S.mask

/-- Number of steps forward from `i` to `j` on the ring. -/
def dist (S : Scheme σ K) (i j : Nat) : Nat := if i ≤ j then j - i else j + (S.mask + 1) - i

theorem Lawful.next_eq {S : Scheme σ K} (lawful : S.Lawful) (i : Nat) (bound : i ≤ S.mask) :
    S.next i = if i = S.mask then 0 else i + 1 := by
  obtain ⟨bits, size⟩ := lawful.pow2
  have wraps : S.next i = (i + 1) % (S.mask + 1) := by
    rw [size, ← Nat.and_two_pow_sub_one_eq_mod, ← size]
    rfl
  rw [wraps]
  split
  next last => rw [last, Nat.mod_self]
  next inner => exact Nat.mod_eq_of_lt (by omega)

theorem next_le (S : Scheme σ K) (i : Nat) : S.next i ≤ S.mask := Nat.and_le_right

theorem dist_self (S : Scheme σ K) (i : Nat) : S.dist i i = 0 := by simp [dist]

theorem dist_le (S : Scheme σ K) (i j : Nat) (hj : j ≤ S.mask) : S.dist i j ≤ S.mask := by
  unfold dist; split <;> omega

theorem dist_inj (S : Scheme σ K) (a i j : Nat) (ha : a ≤ S.mask) (hi : i ≤ S.mask)
    (hj : j ≤ S.mask) (same : S.dist a i = S.dist a j) : i = j := by
  unfold dist at same; split_ifs at same <;> omega

/-- The way to `c` by `b` is the way to `c`, unless it goes around the ring. -/
theorem dist_add (S : Scheme σ K) (a b c : Nat) (ha : a ≤ S.mask) (hb : b ≤ S.mask)
    (inside : S.dist a b + S.dist b c ≤ S.mask) : S.dist a c = S.dist a b + S.dist b c := by
  unfold dist at inside ⊢
  split_ifs at inside ⊢ <;> omega

/-- A way that passes `b` before it comes to `c` is the way by `b`. -/
theorem dist_by (S : Scheme σ K) (a b c : Nat) (ha : a ≤ S.mask) (hb : b ≤ S.mask)
    (hc : c ≤ S.mask) (passes : S.dist a b < S.dist a c) :
    S.dist a c = S.dist a b + S.dist b c := by
  unfold dist at passes ⊢
  split_ifs at passes ⊢ <;> omega

/-- Walking one slot further lengthens the distance by one, until it wraps to the start. -/
theorem Lawful.dist_next {S : Scheme σ K} (lawful : S.Lawful) (a i : Nat) (ha : a ≤ S.mask)
    (hi : i ≤ S.mask) (inner : S.dist a i < S.mask) : S.dist a (S.next i) = S.dist a i + 1 := by
  rw [lawful.next_eq i hi]
  unfold dist at inner ⊢
  split_ifs at inner ⊢ <;> omega

/-- Walking one slot further shortens the distance to every other slot by one. -/
theorem Lawful.next_dist {S : Scheme σ K} (lawful : S.Lawful) (i c : Nat) (hi : i ≤ S.mask)
    (hc : c ≤ S.mask) (different : i ≠ c) : S.dist (S.next i) c + 1 = S.dist i c := by
  rw [lawful.next_eq i hi]
  unfold dist
  split_ifs <;> omega

end Scheme

/-- Contents of slot `i`. -/
def slot [Inhabited σ] (xs : List σ) (i : Nat) : σ := xs.getD i default

section Slots

variable [Inhabited σ]

@[simp] theorem slot_set_self (xs : List σ) (i : Nat) (r : σ) (bound : i < xs.length) :
    slot (xs.set i r) i = r := by
  simp [slot, List.getD_eq_getElem?_getD, bound]

@[simp] theorem slot_set_ne (xs : List σ) (i j : Nat) (r : σ) (different : i ≠ j) :
    slot (xs.set i r) j = slot xs j := by
  simp [slot, List.getD_eq_getElem?_getD, different]

theorem slot_eq_getElem (xs : List σ) (i : Nat) (bound : i < xs.length) :
    slot xs i = xs[i] := by
  simp [slot, List.getD_eq_getElem?_getD, bound]

theorem slot_mem (xs : List σ) (i : Nat) (bound : i < xs.length) : slot xs i ∈ xs := by
  rw [slot_eq_getElem xs i bound]
  exact List.getElem_mem bound

end Slots

/-! ### Records and the table invariant -/

/-- The stored records, in slot order. -/
def records (S : Scheme σ K) (xs : List σ) : List σ := xs.filter S.occupied

/-- All slots are occupied. -/
def Full (S : Scheme σ K) (xs : List σ) : Prop := ∀ r ∈ xs, S.occupied r = true

instance (S : Scheme σ K) (xs : List σ) : Decidable (Full S xs) :=
  inferInstanceAs (Decidable (∀ r ∈ xs, S.occupied r = true))

section Invariant

variable [Inhabited σ] (S : Scheme σ K) (xs : List σ)

/-- Slot `i` holds a record. -/
def Occ (i : Nat) : Prop := S.occupied (slot xs i) = true

/-- The probe path of the record in slot `i` passes slot `p` before it. -/
def OnPath (i p : Nat) : Prop :=
  S.dist (S.home (S.key (slot xs i))) p < S.dist (S.home (S.key (slot xs i))) i

/-- Right size, unbroken probe paths, no key stored twice. -/
structure Valid : Prop where
  size : xs.length = S.mask + 1
  chained : ∀ i ≤ S.mask, Occ S xs i → ∀ p ≤ S.mask, OnPath S xs i p → Occ S xs p
  unique : ∀ i ≤ S.mask, ∀ j ≤ S.mask, Occ S xs i → Occ S xs j →
    S.key (slot xs i) = S.key (slot xs j) → i = j

end Invariant

section Records

variable [Inhabited σ] {S : Scheme σ K} {xs : List σ}

theorem full_iff (size : xs.length = S.mask + 1) : Full S xs ↔ ∀ i ≤ S.mask, Occ S xs i := by
  constructor
  · intro all i bound
    exact all _ (slot_mem xs i (by omega))
  · intro all r member
    obtain ⟨i, bound, rfl⟩ := List.mem_iff_getElem.mp member
    rw [← slot_eq_getElem xs i bound]
    exact all i (by omega)

theorem mem_records (size : xs.length = S.mask + 1) (r : σ) :
    r ∈ records S xs ↔ ∃ i ≤ S.mask, Occ S xs i ∧ slot xs i = r := by
  simp only [records, List.mem_filter, Occ]
  constructor
  · rintro ⟨member, occupied⟩
    obtain ⟨i, bound, equal⟩ := List.mem_iff_getElem.mp member
    refine ⟨i, by omega, ?_, ?_⟩ <;> simp only [slot_eq_getElem xs i bound, equal, occupied]
  · rintro ⟨i, bound, occupied, rfl⟩
    exact ⟨slot_mem xs i (by omega), occupied⟩

/-- No key is stored twice. -/
theorem Valid.keys_nodup (valid : Valid S xs) : ((records S xs).map S.key).Nodup := by
  unfold records
  rw [List.Nodup, List.pairwise_map, List.pairwise_filter, List.pairwise_iff_getElem]
  intro i j hi hj before oi oj same
  rw [← slot_eq_getElem xs i hi] at oi same
  rw [← slot_eq_getElem xs j hj] at oj same
  have size := valid.size
  have equal := valid.unique i (by omega) j (by omega) oi oj same
  omega

theorem valid_of_free (size : xs.length = S.mask + 1)
    (free : ∀ r ∈ xs, S.occupied r = false) : Valid S xs := by
  have vacant : ∀ i ≤ S.mask, ¬ Occ S xs i := by
    intro i bound occupied
    have absent := free _ (slot_mem xs i (by omega))
    simp only [Occ, absent, Bool.false_eq_true] at occupied
  exact ⟨size, fun i hi oi => absurd oi (vacant i hi), fun i hi _ _ oi => absurd oi (vacant i hi)⟩

/-- Everything but slot `i`. -/
def others (S : Scheme σ K) (xs : List σ) (i : Nat) : List σ := records S (xs.eraseIdx i)

theorem records_split (i : Nat) (bound : i < xs.length) :
    (records S xs).Perm ([slot xs i].filter S.occupied ++ others S xs i) := by
  rw [others, records, records, ← List.filter_append, slot_eq_getElem xs i bound]
  exact (List.getElem_cons_eraseIdx_perm bound).symm.filter _

omit [Inhabited σ] in
theorem records_set_split (i : Nat) (bound : i < xs.length) (r : σ) :
    (records S (xs.set i r)).Perm ([r].filter S.occupied ++ others S xs i) := by
  rw [others, records, records, ← List.filter_append]
  exact (List.set_perm_cons_eraseIdx bound r).filter _

/-- A record in slot `i`, and everything else. -/
theorem records_of_occ (i : Nat) (bound : i < xs.length) (occupied : Occ S xs i) :
    (records S xs).Perm (slot xs i :: others S xs i) := by
  have split := records_split (S := S) i bound
  rw [List.filter_cons_of_pos occupied] at split
  exact split

omit [Inhabited σ] in
/-- Overwriting slot `i` by a record. -/
theorem records_set_occ (i : Nat) (bound : i < xs.length) (r : σ) (occupied : S.occupied r = true) :
    (records S (xs.set i r)).Perm (r :: others S xs i) := by
  have split := records_set_split (S := S) i bound r
  rw [List.filter_cons_of_pos occupied] at split
  exact split

/-- A free slot contributes no record. -/
theorem others_of_free (i : Nat) (bound : i < xs.length) (free : ¬ Occ S xs i) :
    (records S xs).Perm (others S xs i) := by
  have split := records_split (S := S) i bound
  rw [List.filter_cons_of_neg free] at split
  exact split

/-- Overwriting a record by one with the same key keeps the invariant. -/
theorem Valid.overwrite (valid : Valid S xs) (i : Nat) (bound : i ≤ S.mask) (here : Occ S xs i)
    (r : σ) (occupied : S.occupied r = true) (same : S.key r = S.key (slot xs i)) :
    Valid S (xs.set i r) := by
  have inside : i < xs.length := by have := valid.size; omega
  have occ (j : Nat) : Occ S (xs.set i r) j ↔ Occ S xs j := by
    by_cases equal : i = j
    · subst equal
      simp only [Occ, slot_set_self xs i r inside, occupied, true_iff]
      exact here
    · simp only [Occ, slot_set_ne xs i j r equal]
  -- occupancy and keys are all the invariant looks at, and neither changes
  have key (j : Nat) : S.key (slot (xs.set i r) j) = S.key (slot xs j) := by
    by_cases equal : i = j
    · subst equal
      rw [slot_set_self xs i r inside, same]
    · rw [slot_set_ne xs i j r equal]
  refine ⟨by rw [List.length_set, valid.size], ?_, ?_⟩
  · intro j hj oj p hp path
    rw [OnPath, key] at path
    exact (occ p).mpr (valid.chained j hj ((occ j).mp oj) p hp path)
  · intro j hj l hl oj ol keys
    rw [key, key] at keys
    exact valid.unique j hj l hl ((occ j).mp oj) ((occ l).mp ol) keys

end Records

/-! ### Probing -/

/-- Where a probe for a key ends. -/
inductive Probe where
  | free (i : Nat)
  | hit (i : Nat)
  | exhausted
  deriving DecidableEq, Repr

section Probing

variable [Inhabited σ] [DecidableEq K]

/-- Visit at most `count` slots from `i` on. -/
def walk (S : Scheme σ K) (xs : List σ) (k : K) : Nat → Nat → Probe
  | 0, _ => .exhausted
  | count + 1, i =>
    if S.occupied (slot xs i) then
      if S.key (slot xs i) = k then .hit i else walk S xs k count (S.next i)
    else .free i

/-- One lap from the home slot of `k`. -/
def probe (S : Scheme σ K) (xs : List σ) (k : K) : Probe :=
  walk S xs k (S.mask + 1) (S.home k)

/-- Slot holding key `k`. -/
def find (S : Scheme σ K) (xs : List σ) (k : K) : Option Nat :=
  match probe S xs k with
  | .hit i => some i
  | _ => none

/-- Store `r` under its key, replacing a record with the same key; `none` when the
table has no room. -/
def insert (S : Scheme σ K) (xs : List σ) (r : σ) : Option (List σ) :=
  match probe S xs (S.key r) with
  | .free i => some (xs.set i r)
  | .hit i => some (xs.set i r)
  | .exhausted => none

/-- The outcome of a probe, with everything it tells about the table. -/
inductive ProbeSpec (S : Scheme σ K) (xs : List σ) (k : K) : Probe → Prop
  | free (i : Nat) (bound : i ≤ S.mask) (vacant : ¬ Occ S xs i)
      (path : ∀ p ≤ S.mask, S.dist (S.home k) p < S.dist (S.home k) i → Occ S xs p)
      (absent : ∀ r ∈ records S xs, S.key r ≠ k) : ProbeSpec S xs k (.free i)
  | hit (i : Nat) (bound : i ≤ S.mask) (here : Occ S xs i)
      (same : S.key (slot xs i) = k) : ProbeSpec S xs k (.hit i)
  | exhausted (full : Full S xs) (absent : ∀ r ∈ records S xs, S.key r ≠ k) :
      ProbeSpec S xs k .exhausted

/-- The slots already visited are occupied by other keys. -/
private def Visited (S : Scheme σ K) (xs : List σ) (k : K) (count : Nat) : Prop :=
  ∀ p ≤ S.mask, S.dist (S.home k) p + count < S.mask + 1 → Occ S xs p ∧ S.key (slot xs p) ≠ k

omit [DecidableEq K] in
private theorem absent_of_path {S : Scheme σ K} {xs : List σ} (valid : Valid S xs) (k : K)
    (i : Nat) (bound : i ≤ S.mask) (vacant : ¬ Occ S xs i) (lawful : S.Lawful)
    (visited : ∀ p ≤ S.mask, S.dist (S.home k) p < S.dist (S.home k) i →
      Occ S xs p ∧ S.key (slot xs p) ≠ k) : ∀ r ∈ records S xs, S.key r ≠ k := by
  intro r member same
  obtain ⟨j, hj, oj, rfl⟩ := (mem_records valid.size r).mp member
  rcases Nat.lt_trichotomy (S.dist (S.home k) j) (S.dist (S.home k) i) with before | equal | after
  · exact (visited j hj before).2 same
  · have := S.dist_inj (S.home k) j i (lawful.home_le k) hj bound equal
    exact vacant (this ▸ oj)
  · -- the record of `k` lies behind the free slot, against the invariant
    exact vacant (valid.chained j hj oj i bound (by rw [OnPath, same]; exact after))

private theorem walk_spec {S : Scheme σ K} {xs : List σ} (lawful : S.Lawful)
    (valid : Valid S xs) (k : K) (count i : Nat) (bound : i ≤ S.mask)
    (steps : 0 < count → S.dist (S.home k) i + count = S.mask + 1)
    (visited : Visited S xs k count) : ProbeSpec S xs k (walk S xs k count i) := by
  induction count generalizing i with
  | zero =>
    -- a whole lap without a hit or a free slot: every slot has been visited
    have seen (p : Nat) (hp : p ≤ S.mask) := visited p hp (by have := S.dist_le (S.home k) p hp; omega)
    refine .exhausted ((full_iff valid.size).mpr fun p hp => (seen p hp).1) ?_
    intro r member
    obtain ⟨p, hp, _, rfl⟩ := (mem_records valid.size r).mp member
    exact (seen p hp).2
  | succ count ih =>
    have position := steps (by omega)
    simp only [walk]
    split
    next occupied =>
      split
      next same => exact .hit i bound occupied same
      next other =>
        -- slot `i` joins the visited ones
        refine ih (S.next i) (S.next_le i) ?_ ?_
        · intro more
          rw [lawful.dist_next _ i (lawful.home_le k) bound (by omega)]
          omega
        · intro p hp near
          by_cases last : S.dist (S.home k) p = S.dist (S.home k) i
          · have equal := S.dist_inj _ p i (lawful.home_le k) hp bound last
            subst equal
            exact ⟨occupied, other⟩
          · exact visited p hp (by omega)
    next vacant =>
      have before (p : Nat) (hp : p ≤ S.mask) (near : S.dist (S.home k) p < S.dist (S.home k) i) :=
        visited p hp (by omega)
      exact .free i bound vacant (fun p hp near => (before p hp near).1)
        (absent_of_path valid k i bound vacant lawful before)

theorem probe_spec {S : Scheme σ K} {xs : List σ} (lawful : S.Lawful) (valid : Valid S xs)
    (k : K) : ProbeSpec S xs k (probe S xs k) := by
  refine walk_spec lawful valid k (S.mask + 1) (S.home k) (lawful.home_le k) ?_ ?_
  · intro _
    rw [S.dist_self]
    omega
  · intro p _ near
    omega

/-- A probe finds `k` exactly where it is stored. -/
theorem find_eq_some_iff {S : Scheme σ K} {xs : List σ} (lawful : S.Lawful) (valid : Valid S xs)
    (k : K) (i : Nat) :
    find S xs k = some i ↔ i ≤ S.mask ∧ Occ S xs i ∧ S.key (slot xs i) = k := by
  have spec := probe_spec lawful valid k
  unfold find
  generalize probe S xs k = outcome at spec ⊢
  cases spec with
  | free j _ _ _ absent =>
    simp only [reduceCtorEq, false_iff]
    rintro ⟨bound, occupied, same⟩
    exact absent _ ((mem_records valid.size _).mpr ⟨i, bound, occupied, rfl⟩) same
  | hit j bound here same =>
    simp only [Option.some.injEq]
    constructor
    · rintro rfl
      exact ⟨bound, here, same⟩
    · rintro ⟨hi, occupied, equal⟩
      exact valid.unique j bound i hi here occupied (same.trans equal.symm)
  | exhausted _ absent =>
    simp only [reduceCtorEq, false_iff]
    rintro ⟨bound, occupied, same⟩
    exact absent _ ((mem_records valid.size _).mpr ⟨i, bound, occupied, rfl⟩) same

/-- The record stored under `k`. -/
def lookup (S : Scheme σ K) (xs : List σ) (k : K) : Option σ := (find S xs k).map (slot xs)

theorem lookup_eq_some_iff {S : Scheme σ K} {xs : List σ} (lawful : S.Lawful)
    (valid : Valid S xs) (k : K) (r : σ) :
    lookup S xs k = some r ↔ r ∈ records S xs ∧ S.key r = k := by
  simp only [lookup, Option.map_eq_some_iff, find_eq_some_iff lawful valid,
    mem_records valid.size]
  constructor
  · rintro ⟨i, ⟨bound, occupied, same⟩, rfl⟩
    exact ⟨⟨i, bound, occupied, rfl⟩, same⟩
  · rintro ⟨⟨i, bound, occupied, rfl⟩, same⟩
    exact ⟨i, ⟨bound, occupied, same⟩, rfl⟩

theorem lookup_eq_none_iff {S : Scheme σ K} {xs : List σ} (lawful : S.Lawful)
    (valid : Valid S xs) (k : K) :
    lookup S xs k = none ↔ ∀ r ∈ records S xs, S.key r ≠ k := by
  rw [Option.eq_none_iff_forall_ne_some]
  constructor
  · intro none r member same
    exact none r ((lookup_eq_some_iff lawful valid k r).mpr ⟨member, same⟩)
  · intro absent r found
    obtain ⟨member, same⟩ := (lookup_eq_some_iff lawful valid k r).mp found
    exact absent r member same

omit [DecidableEq K] in
/-- Storing a new key in the free slot its probe path ends at keeps the invariant. -/
private theorem Valid.fill {S : Scheme σ K} {xs : List σ} (valid : Valid S xs) (r : σ)
    (occupied : S.occupied r = true) (i : Nat) (bound : i ≤ S.mask)
    (path : ∀ p ≤ S.mask, S.dist (S.home (S.key r)) p < S.dist (S.home (S.key r)) i → Occ S xs p)
    (absent : ∀ s ∈ records S xs, S.key s ≠ S.key r) : Valid S (xs.set i r) := by
  have size := valid.size
  have here : slot (xs.set i r) i = r := slot_set_self xs i r (by omega)
  have away (j : Nat) (different : i ≠ j) : slot (xs.set i r) j = slot xs j :=
    slot_set_ne xs i j r different
  refine ⟨by rw [List.length_set, size], ?_, ?_⟩
  · intro j hj oj p hp before
    -- the filled slot can only close paths; the new record has its own from the probe
    by_cases target : i = p
    · rw [← target, Occ, here]
      exact occupied
    · rw [Occ, away p target]
      by_cases same : i = j
      · rw [← same, OnPath, here] at before
        exact path p hp before
      · rw [OnPath, away j same] at before
        rw [Occ, away j same] at oj
        exact valid.chained j hj oj p hp before
  · have fresh (j : Nat) (hj : j ≤ S.mask) (different : i ≠ j) (oj : Occ S (xs.set i r) j) :
        S.key (slot (xs.set i r) j) ≠ S.key r := by
      rw [Occ, away j different] at oj
      rw [away j different]
      exact absent _ ((mem_records size _).mpr ⟨j, hj, oj, rfl⟩)
    intro j hj l hl oj ol same
    -- two slots with one key: neither is the new one, whose key was absent
    by_cases ij : i = j <;> by_cases il : i = l
    · omega
    · rw [← ij, here] at same
      exact absurd same.symm (fresh l hl il ol)
    · rw [← il, here] at same
      exact absurd same (fresh j hj ij oj)
    · rw [Occ, away j ij] at oj
      rw [Occ, away l il] at ol
      rw [away j ij, away l il] at same
      exact valid.unique j hj l hl oj ol same

/-- Everything an insertion can do: store in a free slot, overwrite the record with
the same key, or refuse because every slot is taken by another key. -/
theorem insert_cases {S : Scheme σ K} {xs : List σ} (lawful : S.Lawful) (valid : Valid S xs)
    (r : σ) (occupied : S.occupied r = true) :
    (∃ ys, insert S xs r = some ys ∧ Valid S ys ∧ ¬ Full S xs ∧
      (∀ s ∈ records S xs, S.key s ≠ S.key r) ∧ (records S ys).Perm (r :: records S xs)) ∨
    (∃ i, insert S xs r = some (xs.set i r) ∧ Valid S (xs.set i r) ∧
      find S xs (S.key r) = some i) ∨
    (insert S xs r = none ∧ Full S xs ∧ ∀ s ∈ records S xs, S.key s ≠ S.key r) := by
  have size := valid.size
  have spec := probe_spec lawful valid (S.key r)
  unfold insert find
  generalize probe S xs (S.key r) = outcome at spec ⊢
  cases spec with
  | free i bound vacant path absent =>
    refine .inl ⟨_, rfl, valid.fill r occupied i bound path absent, ?_, absent, ?_⟩
    · exact fun full => vacant ((full_iff size).mp full i bound)
    · exact (records_set_occ i (by omega) r occupied).trans
        ((others_of_free i (by omega) vacant).symm.cons r)
  | hit i bound here same =>
    exact .inr (.inl ⟨i, rfl, valid.overwrite i bound here r occupied same.symm, rfl⟩)
  | exhausted full absent => exact .inr (.inr ⟨rfl, full, absent⟩)

end Probing

end LinearProbing
