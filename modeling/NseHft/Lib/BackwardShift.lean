import NseHft.Lib.LinearProbing

/-!
# Backward-shift deletion

After a record is removed, every later record of the same run of occupied slots
whose probe path crosses the hole is moved into it, and the hole moves on to where
that record was. `Hole` is the loop invariant: the table is as good as valid, except
for the slot that is about to be vacated.
-/
namespace LinearProbing

open Execution

variable {σ K : Type} [Inhabited σ]

/-- State of the deletion loop. -/
structure Shift (σ : Type) where
  slots : List σ
  hole : Nat
  next : Nat

/-- The record in slot `next`, with home slot `home`, may move back into `hole`: its
home is not strictly after `hole` and up to `next` in probe order. -/
def canMove (hole next home : Nat) : Bool :=
  if hole ≤ next then !(decide (hole < home) && decide (home ≤ next))
  else !(decide (hole < home) || decide (home ≤ next))

/-- One iteration; the loop leaves at a free slot and frees the hole. -/
def shiftStep (S : Scheme σ K) (s : Shift σ) : Shift σ ⊕ List σ :=
  if S.occupied (slot s.slots s.next) then
    if canMove s.hole s.next (S.home (S.key (slot s.slots s.next))) then
      .inl ⟨s.slots.set s.hole (slot s.slots s.next), s.next, S.next s.next⟩
    else .inl ⟨s.slots, s.hole, S.next s.next⟩
  else .inr (s.slots.set s.hole (S.clear (slot s.slots s.hole)))

/-- Delete the record stored under `k`, if there is one. `none` means that the loop
has not ended within `fuel` iterations. -/
def erase [DecidableEq K] (S : Scheme σ K) (fuel : Nat) (xs : List σ) (k : K) : Option (List σ) :=
  match find S xs k with
  | none => some xs
  | some i => iterate (shiftStep S) fuel ⟨xs, i, S.next i⟩

section Loop

variable {S : Scheme σ K}

omit [Inhabited σ] in
/-- A record that may not move has a home strictly after the hole. -/
private theorem dist_of_not_canMove (hole next home : Nat) (hh : hole ≤ S.mask)
    (hm : home ≤ S.mask) (stuck : canMove hole next home = false) :
    S.dist home next < S.dist hole next := by
  unfold canMove at stuck
  unfold Scheme.dist
  split_ifs at stuck ⊢ <;> simp at stuck <;> omega

omit [Inhabited σ] in
/-- The probe path of a record that may move passes the hole. -/
private theorem dist_of_canMove (hole next home : Nat) (hh : hole ≤ S.mask)
    (hm : home ≤ S.mask) (different : hole ≠ next)
    (moves : canMove hole next home = true) : S.dist home hole < S.dist home next := by
  unfold canMove at moves
  unfold Scheme.dist
  split_ifs at moves ⊢ <;> simp at moves <;> omega

/-- Loop invariant, for a free slot `vacant` and the records `rest` that must remain.
Records between the hole and `next` cannot move back any further. -/
structure Hole (S : Scheme σ K) (vacant : Nat) (rest : List σ) (s : Shift σ) : Prop where
  size : s.slots.length = S.mask + 1
  hole_le : s.hole ≤ S.mask
  next_le : s.next ≤ S.mask
  apart : s.hole ≠ s.next
  vacant_le : vacant ≤ S.mask
  free : ¬ Occ S s.slots vacant
  filled : Occ S s.slots s.hole
  between : ∀ p ≤ S.mask, p ≠ s.hole → S.dist s.hole p < S.dist s.hole s.next →
    Occ S s.slots p ∧ S.dist (S.home (S.key (slot s.slots p))) p < S.dist s.hole p
  chained : ∀ i ≤ S.mask, i ≠ s.hole → Occ S s.slots i →
    ∀ p ≤ S.mask, OnPath S s.slots i p → Occ S s.slots p
  unique : ∀ i ≤ S.mask, ∀ j ≤ S.mask, i ≠ s.hole → j ≠ s.hole → Occ S s.slots i →
    Occ S s.slots j → S.key (slot s.slots i) = S.key (slot s.slots j) → i = j
  rest_perm : (others S s.slots s.hole).Perm rest

/-- The slot after `next` is not the hole: the walk would have met the free slot. -/
private theorem Hole.next_apart {vacant : Nat} {rest : List σ} {s : Shift σ}
    (lawful : S.Lawful) (inv : Hole S vacant rest s) (occupied : Occ S s.slots s.next) :
    S.dist s.hole (S.next s.next) = S.dist s.hole s.next + 1 ∧ s.hole ≠ S.next s.next := by
  have away : vacant ≠ s.hole := fun equal => inv.free (equal ▸ inv.filled)
  have notNext : vacant ≠ s.next := fun equal => inv.free (equal ▸ occupied)
  have ahead : S.dist s.hole s.next < S.dist s.hole vacant := by
    -- all slots up to `next` are occupied, so the free one lies beyond
    rcases Nat.lt_trichotomy (S.dist s.hole vacant) (S.dist s.hole s.next) with before | same | after
    · exact absurd (inv.between vacant inv.vacant_le away before).1 inv.free
    · exact absurd (S.dist_inj _ _ _ inv.hole_le inv.vacant_le inv.next_le same) notNext
    · exact after
  have lap := S.dist_le s.hole vacant inv.vacant_le
  have further := lawful.dist_next s.hole s.next inv.hole_le inv.next_le (by omega)
  refine ⟨further, fun equal => ?_⟩
  rw [← equal, S.dist_self] at further
  omega

/-- A record that stays where it is joins those between the hole and `next`. -/
private theorem Hole.skip {vacant : Nat} {rest : List σ} {s : Shift σ} (lawful : S.Lawful)
    (inv : Hole S vacant rest s) (occupied : Occ S s.slots s.next)
    (stuck : canMove s.hole s.next (S.home (S.key (slot s.slots s.next))) = false) :
    Hole S vacant rest ⟨s.slots, s.hole, S.next s.next⟩ := by
  obtain ⟨further, apart⟩ := inv.next_apart lawful occupied
  refine { inv with next_le := S.next_le _, apart := apart, between := ?_ }
  intro p hp away near
  dsimp only at near
  by_cases last : S.dist s.hole p = S.dist s.hole s.next
  · have equal := S.dist_inj _ _ _ inv.hole_le hp inv.next_le last
    subst equal
    exact ⟨occupied, dist_of_not_canMove _ _ _ inv.hole_le (lawful.home_le _) stuck⟩
  · exact inv.between p hp away (by omega)

/-- Moving a record into the hole only changes which slot is left out. -/
private theorem others_move {xs : List σ} {hole next : Nat} (inside : hole < xs.length)
    (target : next < xs.length) (apart : hole ≠ next) :
    (others S (xs.set hole (slot xs next)) next).Perm (others S xs hole) := by
  -- taken out of `next` and put into `hole`, the record cancels on both sides
  have target' : next < (xs.set hole (slot xs next)).length := by rwa [List.length_set]
  have stored := List.set_perm_cons_eraseIdx inside (slot xs next)
  have taken := List.getElem_cons_eraseIdx_perm target'
  rw [← slot_eq_getElem _ _ target', slot_set_ne _ _ _ _ apart] at taken
  exact (taken.trans stored).cons_inv.filter _

/-- After the move the same slots are occupied. -/
private theorem Hole.moved_occ {vacant : Nat} {rest : List σ} {s : Shift σ}
    (inv : Hole S vacant rest s) (occupied : Occ S s.slots s.next) (j : Nat) :
    Occ S (s.slots.set s.hole (slot s.slots s.next)) j ↔ Occ S s.slots j := by
  have size := inv.size
  have bound := inv.hole_le
  by_cases equal : s.hole = j
  · subst equal
    simp only [Occ, slot_set_self _ _ _ (show s.hole < s.slots.length by omega)]
    exact ⟨fun _ => inv.filled, fun _ => occupied⟩
  · simp only [Occ, slot_set_ne _ _ _ _ equal]

/-- The new hole is one step behind the new `next`. -/
private theorem Hole.next_alone {vacant : Nat} {rest : List σ} {s : Shift σ} (lawful : S.Lawful)
    (inv : Hole S vacant rest s) (occupied : Occ S s.slots s.next) :
    S.dist s.next (S.next s.next) = 1 := by
  obtain ⟨further, _⟩ := inv.next_apart lawful occupied
  have lap := S.dist_le s.hole (S.next s.next) (S.next_le _)
  rw [lawful.dist_next s.next s.next inv.next_le inv.next_le (by rw [S.dist_self]; omega),
    S.dist_self]

/-- A record moved into the hole keeps its path, and its old slot is the new hole. -/
private theorem Hole.move {vacant : Nat} {rest : List σ} {s : Shift σ} (lawful : S.Lawful)
    (inv : Hole S vacant rest s) (occupied : Occ S s.slots s.next)
    (moves : canMove s.hole s.next (S.home (S.key (slot s.slots s.next))) = true) :
    Hole S vacant rest ⟨s.slots.set s.hole (slot s.slots s.next), s.next, S.next s.next⟩ := by
  have size := inv.size
  have bound := inv.hole_le
  have inside : s.hole < s.slots.length := by omega
  have shortcut := dist_of_canMove _ _ _ inv.hole_le (lawful.home_le _) inv.apart moves
  have here : slot (s.slots.set s.hole (slot s.slots s.next)) s.hole = slot s.slots s.next :=
    slot_set_self _ _ _ inside
  have away (j : Nat) (different : s.hole ≠ j) :
      slot (s.slots.set s.hole (slot s.slots s.next)) j = slot s.slots j :=
    slot_set_ne _ _ _ _ different
  have occ := inv.moved_occ occupied
  have alone := inv.next_alone lawful occupied
  refine ⟨by rw [List.length_set, size], inv.next_le, S.next_le _, ?_, inv.vacant_le,
    fun now => inv.free ((occ vacant).mp now), (occ s.next).mpr occupied, ?_, ?_, ?_, ?_⟩
  · -- the new hole and the new `next` differ
    intro equal
    dsimp only at equal
    rw [← equal, S.dist_self] at alone
    omega
  · -- nothing lies between them yet
    intro p hp different near
    dsimp only at different near
    have same := S.dist_inj s.next p s.next inv.next_le hp inv.next_le
      (by rw [S.dist_self]; omega)
    exact absurd same different
  · intro i hi different oi p hp path
    dsimp only at different oi path ⊢
    rw [occ] at oi ⊢
    by_cases target : s.hole = i
    · -- the moved record: its path to the hole is a part of its path to `next`
      subst target
      rw [OnPath, here] at path
      exact inv.chained s.next inv.next_le (Ne.symm inv.apart) occupied p hp
        (by rw [OnPath]; omega)
    · rw [OnPath, away i target] at path
      exact inv.chained i hi (Ne.symm target) oi p hp path
  · intro i hi j hj di dj oi oj same
    dsimp only at di dj oi oj same
    rw [occ] at oi oj
    -- the record in the hole stands for the one that was in `next`
    by_cases hi' : s.hole = i <;> by_cases hj' : s.hole = j
    · omega
    · subst hi'
      rw [here, away j hj'] at same
      exact absurd (inv.unique s.next inv.next_le j hj (Ne.symm inv.apart) (Ne.symm hj') occupied
        oj same).symm dj
    · subst hj'
      rw [here, away i hi'] at same
      exact absurd (inv.unique i hi s.next inv.next_le (Ne.symm hi') (Ne.symm inv.apart) oi
        occupied same) di
    · rw [away i hi', away j hj'] at same
      exact inv.unique i hi j hj (Ne.symm hi') (Ne.symm hj') oi oj same
  · have target : s.next < s.slots.length := Nat.lt_of_le_of_lt inv.next_le (by omega)
    exact (others_move inside target inv.apart).trans inv.rest_perm

/-- When the loop ends, no probe path crosses the hole: such a record would have been moved,
or its path would cross the free slot that ends the loop as well. -/
private theorem Hole.off_path {vacant : Nat} {rest : List σ} {s : Shift σ} (lawful : S.Lawful)
    (inv : Hole S vacant rest s) (stop : ¬ Occ S s.slots s.next) {i : Nat} (hi : i ≤ S.mask)
    (away : i ≠ s.hole) (occupied : Occ S s.slots i) : ¬ OnPath S s.slots i s.hole := by
  intro path
  have home := lawful.home_le (S.key (slot s.slots i))
  have way := S.dist_by _ _ _ home inv.hole_le hi path
  by_cases inner : S.dist s.hole i < S.dist s.hole s.next
  · -- between hole and `next`: its home is after the hole
    have stuck := (inv.between i hi away inner).2
    omega
  · -- beyond `next`: its path would pass the free slot
    have ne : i ≠ s.next := fun equal => stop (equal ▸ occupied)
    have beyond : S.dist s.hole i ≠ S.dist s.hole s.next :=
      fun same => ne (S.dist_inj _ _ _ inv.hole_le hi inv.next_le same)
    have lap := S.dist_le (S.home (S.key (slot s.slots i))) i hi
    refine stop (inv.chained i hi away occupied s.next inv.next_le ?_)
    rw [OnPath, S.dist_add _ s.hole s.next home inv.hole_le (by omega)]
    omega

/-- At a free slot, freeing the hole restores the invariant of the table. -/
private theorem Hole.close {vacant : Nat} {rest : List σ} {s : Shift σ} (lawful : S.Lawful)
    (inv : Hole S vacant rest s) (stop : ¬ Occ S s.slots s.next) :
    Valid S (s.slots.set s.hole (S.clear (slot s.slots s.hole))) ∧
      (records S (s.slots.set s.hole (S.clear (slot s.slots s.hole)))).Perm rest := by
  have size := inv.size
  have bound := inv.hole_le
  have inside : s.hole < s.slots.length := by omega
  have freed : ¬ Occ S (s.slots.set s.hole (S.clear (slot s.slots s.hole))) s.hole := by
    simp [Occ, slot_set_self _ _ _ inside, lawful.clear_free]
  have away (j : Nat) (different : s.hole ≠ j) :
      slot (s.slots.set s.hole (S.clear (slot s.slots s.hole))) j = slot s.slots j :=
    slot_set_ne _ _ _ _ different
  have still (j : Nat) (oj : Occ S (s.slots.set s.hole (S.clear (slot s.slots s.hole))) j) :
      s.hole ≠ j ∧ Occ S s.slots j := by
    have different : s.hole ≠ j := fun equal => freed (equal ▸ oj)
    rw [Occ, away j different] at oj
    exact ⟨different, oj⟩
  refine ⟨⟨by rw [List.length_set, size], ?_, ?_⟩, ?_⟩
  · intro i hi oi p hp path
    obtain ⟨di, oi⟩ := still i oi
    rw [OnPath, away i di] at path
    have passed := inv.chained i hi (Ne.symm di) oi p hp path
    by_cases target : s.hole = p
    · exact absurd (target ▸ path) (inv.off_path lawful stop hi (Ne.symm di) oi)
    · rw [Occ, away p target]
      exact passed
  · intro i hi j hj oi oj same
    obtain ⟨di, oi⟩ := still i oi
    obtain ⟨dj, oj⟩ := still j oj
    rw [away i di, away j dj] at same
    exact inv.unique i hi j hj (Ne.symm di) (Ne.symm dj) oi oj same
  · refine (records_set_split s.hole inside _).trans ?_
    simpa only [List.filter_cons, lawful.clear_free, Bool.false_eq_true, if_false, List.filter_nil,
      List.nil_append] using inv.rest_perm

/-- One iteration keeps the invariant and comes closer to the free slot. -/
private theorem Hole.step {vacant : Nat} {rest : List σ} {s t : Shift σ} (lawful : S.Lawful)
    (inv : Hole S vacant rest s) (taken : shiftStep S s = .inl t) :
    Hole S vacant rest t ∧ S.dist t.next vacant < S.dist s.next vacant := by
  unfold shiftStep at taken
  split at taken
  next occupied =>
    -- the variant is the way to the free slot
    have closer : S.dist (S.next s.next) vacant < S.dist s.next vacant := by
      have := lawful.next_dist s.next vacant inv.next_le inv.vacant_le
        (fun equal => inv.free (equal ▸ occupied))
      omega
    split at taken
    next moves => cases taken; exact ⟨inv.move lawful occupied moves, closer⟩
    next stuck => cases taken; exact ⟨inv.skip lawful occupied (by simpa using stuck), closer⟩
  · cases taken

private theorem Hole.finish {vacant : Nat} {rest ys : List σ} {s : Shift σ} (lawful : S.Lawful)
    (inv : Hole S vacant rest s) (taken : shiftStep S s = .inr ys) :
    Valid S ys ∧ (records S ys).Perm rest := by
  unfold shiftStep at taken
  split at taken
  · split at taken <;> cases taken
  next vacant => cases taken; exact inv.close lawful vacant

private theorem hole_of_valid {xs : List σ} (lawful : S.Lawful) (valid : Valid S xs) (i : Nat)
    (bound : i ≤ S.mask) (here : Occ S xs i) (vacant : Nat) (inside : vacant ≤ S.mask)
    (free : ¬ Occ S xs vacant) : Hole S vacant (others S xs i) ⟨xs, i, S.next i⟩ := by
  -- one slot is occupied and another is free
  have larger : 0 < S.mask := by
    have different : vacant ≠ i := fun equal => free (equal ▸ here)
    omega
  have one : S.dist i (S.next i) = 1 := by
    rw [lawful.dist_next i i bound bound (by rw [S.dist_self]; exact larger), S.dist_self]
  refine ⟨valid.size, bound, S.next_le i, ?_, inside, free, here, ?_, ?_, ?_, .refl _⟩
  · intro equal
    dsimp only at equal
    rw [← equal, S.dist_self] at one
    omega
  · intro p hp away near
    dsimp only at away near
    exact absurd (S.dist_inj i p i bound hp bound (by rw [S.dist_self]; omega)) away
  · exact fun j hj _ oj p hp path => valid.chained j hj oj p hp path
  · exact fun j hj l hl _ _ oj ol same => valid.unique j hj l hl oj ol same

/-- In a full ring the loop never meets a free slot. -/
private theorem shift_diverges (fuel : Nat) (s : Shift σ) (size : s.slots.length = S.mask + 1)
    (next : s.next ≤ S.mask) (full : Full S s.slots) : iterate (shiftStep S) fuel s = none := by
  refine iterate_diverges (shiftStep S)
    (fun s => s.slots.length = S.mask + 1 ∧ s.next ≤ S.mask ∧ Full S s.slots) ?_ fuel s
    ⟨size, next, full⟩
  rintro s ⟨size, next, full⟩
  -- no slot is ever freed inside the loop, so the invariant is that all are occupied
  have occupied : S.occupied (slot s.slots s.next) = true :=
    full _ (slot_mem _ _ (by omega))
  unfold shiftStep
  rw [if_pos occupied]
  split
  · refine ⟨_, rfl, by rw [List.length_set, size], S.next_le _, ?_⟩
    intro r member
    rcases List.mem_or_eq_of_mem_set member with old | rfl
    · exact full r old
    · exact occupied
  · exact ⟨_, rfl, size, S.next_le _, full⟩

end Loop

section Erase

variable [DecidableEq K] {S : Scheme σ K} {xs : List σ}

theorem erase_absent (fuel : Nat) (k : K) (absent : find S xs k = none) :
    erase S fuel xs k = some xs := by
  rw [erase, absent]

/-- With a free slot, deletion ends within one lap, keeps the invariant and removes
exactly the record of `k`. -/
theorem erase_present (lawful : S.Lawful) (valid : Valid S xs) (k : K) (i : Nat)
    (found : find S xs k = some i) (room : ¬ Full S xs) (fuel : Nat) (lap : S.mask < fuel) :
    ∃ ys, erase S fuel xs k = some ys ∧ Valid S ys ∧
      (records S xs).Perm (slot xs i :: records S ys) := by
  obtain ⟨bound, here, _⟩ := (find_eq_some_iff lawful valid k i).mp found
  rw [full_iff valid.size] at room
  push Not at room
  obtain ⟨vacant, inside, free⟩ := room
  have size := valid.size
  obtain ⟨ys, returned, kept, perm⟩ := iterate_total (shiftStep S)
    (Hole S vacant (others S xs i)) (fun ys => Valid S ys ∧ (records S ys).Perm (others S xs i))
    (fun s => S.dist s.next vacant) (fun s t inv taken => inv.step lawful taken)
    (fun s ys inv taken => inv.finish lawful taken) fuel ⟨xs, i, S.next i⟩
    (hole_of_valid lawful valid i bound here vacant inside free)
    (by have := S.dist_le (S.next i) vacant inside; dsimp only; omega)
  refine ⟨ys, ?_, kept, (records_of_occ i (by omega) here).trans (perm.symm.cons _)⟩
  rw [erase, found]
  exact returned

/-- Deleting a stored key from a full table never returns. -/
theorem erase_full (valid : Valid S xs) (k : K) (i : Nat)
    (found : find S xs k = some i) (full : Full S xs) (fuel : Nat) :
    erase S fuel xs k = none := by
  rw [erase, found]
  exact shift_diverges fuel ⟨xs, i, S.next i⟩ valid.size (S.next_le i) full

/-- Everything a returning deletion can have done. -/
theorem erase_cases (lawful : S.Lawful) (valid : Valid S xs) (k : K) (fuel : Nat) (ys : List σ)
    (returned : erase S fuel xs k = some ys) :
    (find S xs k = none ∧ ys = xs) ∨
    (∃ i, find S xs k = some i ∧ ¬ Full S xs ∧ Valid S ys ∧
      (records S xs).Perm (slot xs i :: records S ys)) := by
  cases found : find S xs k with
  | none =>
    rw [erase_absent fuel k found, Option.some.injEq] at returned
    exact .inl ⟨rfl, returned.symm⟩
  | some i =>
    have room : ¬ Full S xs := fun full => by
      rw [erase_full valid k i found full fuel] at returned
      cases returned
    obtain ⟨zs, ended, kept, perm⟩ :=
      erase_present lawful valid k i found room (max fuel (S.mask + 1)) (by omega)
    -- a larger bound gives the same result
    have same : erase S (max fuel (S.mask + 1)) xs k = some ys := by
      rw [erase, found] at returned ⊢
      exact iterate_more _ fuel _ _ ys returned (Nat.le_max_left _ _)
    rw [same, Option.some.injEq] at ended
    subst ended
    exact .inr ⟨i, rfl, room, kept, perm⟩

end Erase

end LinearProbing
