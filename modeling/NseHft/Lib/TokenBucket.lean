import Mathlib.Algebra.Order.Field.Basic
import Mathlib.Tactic.Linarith

/-! Token buckets: a level that is refilled continuously up to a cap and lowered by one for
each success. The first attempt starts the clock. -/
namespace TokenBucket

structure Bucket (𝕜 : Type) where
  level : 𝕜
  stamp : Option Nat

/-- How many of the times lie in the window of this width that opens at `start`. -/
def inWindow (start width : Nat) (times : List Nat) : Nat :=
  times.countP fun t => start ≤ t ∧ t < start + width

theorem inWindow_append (start width : Nat) (first second : List Nat) :
    inWindow start width (first ++ second) =
      inWindow start width first + inWindow start width second := List.countP_append

section Attempts

variable {𝕜 : Type} [Field 𝕜] [LinearOrder 𝕜] (rate cap : 𝕜)

/-- The level after the refill at time `now`. -/
def levelAt (b : Bucket 𝕜) (now : Nat) : 𝕜 :=
  match b.stamp with
  | none => b.level
  | some last => min cap (b.level + (now - last : Nat) * rate)

def attempt (b : Bucket 𝕜) (now : Nat) : Bool × Bucket 𝕜 :=
  if 1 ≤ levelAt rate cap b now then (true, ⟨levelAt rate cap b now - 1, some now⟩)
  else (false, ⟨levelAt rate cap b now, some now⟩)

/-- The time of an attempt, if it succeeds. -/
def grant (b : Bucket 𝕜) (now : Nat) : List Nat :=
  if (attempt rate cap b now).1 then [now] else []

/-- The times of the attempts that succeed. -/
def successes : Bucket 𝕜 → List Nat → List Nat
  | _, [] => []
  | b, now :: rest => grant rate cap b now ++ successes (attempt rate cap b now).2 rest

theorem attempt_stamp (b : Bucket 𝕜) (now : Nat) : (attempt rate cap b now).2.stamp = some now := by
  unfold attempt
  split <;> rfl

theorem grant_mem {b : Bucket 𝕜} {now t : Nat} (member : t ∈ grant rate cap b now) : t = now := by
  unfold grant at member
  split at member
  · exact List.mem_singleton.mp member
  · cases member

theorem successes_mem {b : Bucket 𝕜} {times : List Nat} {t : Nat}
    (member : t ∈ successes rate cap b times) : t ∈ times := by
  induction times generalizing b with
  | nil => cases member
  | cons now rest ih =>
    rcases List.mem_append.mp member with here | later
    · rw [grant_mem rate cap here]
      exact List.mem_cons_self
    · exact List.mem_cons_of_mem now (ih later)

theorem levelAt_le (b : Bucket 𝕜) (filled : b.level ≤ cap) (now : Nat) :
    levelAt rate cap b now ≤ cap := by
  unfold levelAt
  split
  · exact filled
  · exact min_le_left _ _

/-- An attempt depends on the bucket only through its level at that time. -/
theorem attempt_congr {b b' : Bucket 𝕜} {now : Nat}
    (same : levelAt rate cap b now = levelAt rate cap b' now) :
    attempt rate cap b now = attempt rate cap b' now := by
  simp only [attempt, same]

/-- An attempt begins with the refill. -/
theorem successes_refilled {b : Bucket 𝕜} (now : Nat) (rest : List Nat) (filled : b.level ≤ cap) :
    successes rate cap b (now :: rest) =
      successes rate cap ⟨levelAt rate cap b now, some now⟩ (now :: rest) := by
  have unchanged : levelAt rate cap ⟨levelAt rate cap b now, some now⟩ now =
      levelAt rate cap b now := by
    rw [levelAt]
    simp [levelAt_le rate cap b filled now]
  rw [successes, successes, grant, grant, attempt_congr rate cap unchanged]

/-- From `last` on every attempt has the same outcome on both buckets. -/
def Alike (rate cap : 𝕜) (last : Nat) (b b' : Bucket 𝕜) : Prop :=
  cap < 1 ∨ ∀ now, last ≤ now → levelAt rate cap b now = levelAt rate cap b' now

theorem Alike.attempt {b b' : Bucket 𝕜} {last now : Nat} (alike : Alike rate cap last b b')
    (filled : b.level ≤ cap) (filled' : b'.level ≤ cap) (past : last ≤ now) :
    (attempt rate cap b now).1 = (TokenBucket.attempt rate cap b' now).1 ∧
      Alike rate cap now (TokenBucket.attempt rate cap b now).2
        (TokenBucket.attempt rate cap b' now).2 := by
  rcases alike with small | same
  · -- below a cap of one nothing ever succeeds
    have fails (x : Bucket 𝕜) (filled : x.level ≤ cap) :
        (TokenBucket.attempt rate cap x now).1 = false := by
      have short : ¬1 ≤ levelAt rate cap x now :=
        not_le.mpr ((levelAt_le rate cap x filled now).trans_lt small)
      rw [TokenBucket.attempt, if_neg short]
    exact ⟨(fails b filled).trans (fails b' filled').symm, .inl small⟩
  · rw [attempt_congr rate cap (same now past)]
    exact ⟨rfl, .inr fun _ _ => rfl⟩

end Attempts

variable {𝕜 : Type} [Field 𝕜] [LinearOrder 𝕜] [IsStrictOrderedRing 𝕜] {rate cap : 𝕜}
  {b : Bucket 𝕜}

/-! ### Successes in a window -/

section Windows

/-- The level is never negative and never above the cap. -/
def Filled (cap : 𝕜) (b : Bucket 𝕜) : Prop := 0 ≤ b.level ∧ b.level ≤ cap

theorem refill_nonneg (steady : 0 ≤ rate) (elapsed : Nat) : 0 ≤ (elapsed : 𝕜) * rate :=
  mul_nonneg (Nat.cast_nonneg _) steady

theorem levelAt_nonneg (steady : 0 ≤ rate) (filled : Filled cap b) (now : Nat) :
    0 ≤ levelAt rate cap b now := by
  unfold levelAt
  split
  · exact filled.1
  · exact le_min (filled.1.trans filled.2) (add_nonneg filled.1 (refill_nonneg steady _))

theorem attempt_level_le (filled : b.level ≤ cap) (now : Nat) :
    (attempt rate cap b now).2.level ≤ cap := by
  have upper := levelAt_le rate cap b filled now
  unfold attempt
  split
  · exact (sub_le_self _ zero_le_one).trans upper
  · exact upper

theorem attempt_filled (steady : 0 ≤ rate) (filled : Filled cap b) (now : Nat) :
    Filled cap (attempt rate cap b now).2 := by
  refine ⟨?_, attempt_level_le filled.2 now⟩
  unfold attempt
  split
  next enough => exact sub_nonneg.mpr enough
  next => exact levelAt_nonneg steady filled now

/-- A success is paid for by the level. -/
theorem grant_paid (start width : Nat) (b : Bucket 𝕜) (now : Nat) :
    (inWindow start width (grant rate cap b now) : 𝕜) + (attempt rate cap b now).2.level ≤
      levelAt rate cap b now := by
  unfold grant attempt
  split
  · have one : inWindow start width [now] ≤ 1 := List.countP_le_length
    have one' : (inWindow start width [now] : 𝕜) ≤ 1 := by exact_mod_cast one
    simp only [if_true]
    linarith
  · simp [inWindow]

/-- Successes up to the end of the window are paid for by the level and the refill. -/
theorem successes_le (steady : 0 ≤ rate) (start width : Nat) (times : List Nat) (last : Nat)
    (filled : Filled cap b) (stamp : b.stamp = some last) (sorted : times.Pairwise (· ≤ ·))
    (ahead : ∀ t ∈ times, last ≤ t) :
    (inWindow start width (successes rate cap b times) : 𝕜) ≤
      b.level + (start + width - 1 - last : Nat) * rate := by
  have reserve := add_nonneg filled.1 (refill_nonneg steady (start + width - 1 - last))
  induction times generalizing b last with
  | nil => simpa [successes, inWindow] using reserve
  | cons now rest ih =>
    obtain ⟨follows, sortedRest⟩ := List.pairwise_cons.mp sorted
    have reached := ahead now List.mem_cons_self
    by_cases closed : start + width ≤ now
    · -- the window has closed, so nothing is counted any more
      have none : inWindow start width (successes rate cap b (now :: rest)) = 0 := by
        refine List.countP_eq_zero.mpr fun t member => ?_
        have late : now ≤ t := by
          rcases List.mem_cons.mp (successes_mem rate cap member) with rfl | later
          · exact Nat.le_refl _
          · exact follows t later
        simp only [decide_eq_true_eq]
        omega
      rw [none, Nat.cast_zero]
      exact reserve
    · -- this attempt takes from the level, the later ones from what it leaves and the refill
      have next := attempt_filled steady filled now
      have rest_le := ih now next (attempt_stamp rate cap b now) sortedRest follows
        (add_nonneg next.1 (refill_nonneg steady _))
      have paid := @grant_paid 𝕜 _ _ _ rate cap start width b now
      have refilled : levelAt rate cap b now ≤ b.level + (now - last : Nat) * rate := by
        rw [levelAt, stamp]
        exact min_le_right _ _
      have elapsed : ((start + width - 1 - last : Nat) : 𝕜) =
          (now - last : Nat) + (start + width - 1 - now : Nat) := by
        rw [← Nat.cast_add]
        congr 1
        omega
      rw [successes, inWindow_append, Nat.cast_add, elapsed, add_mul]
      linarith

/-- In any window there are at most as many successes as fit the cap and one refill. -/
theorem inWindow_successes_le (steady : 0 ≤ rate) (start width : Nat) (times : List Nat)
    (filled : Filled cap b) (sorted : times.Pairwise (· ≤ ·)) :
    (inWindow start width (successes rate cap b times) : 𝕜) ≤ cap + (width - 1 : Nat) * rate := by
  induction times generalizing b with
  | nil =>
    simpa [successes, inWindow] using
      add_nonneg (filled.1.trans filled.2) (refill_nonneg steady (width - 1))
  | cons now rest ih =>
    obtain ⟨follows, sortedRest⟩ := List.pairwise_cons.mp sorted
    have next := attempt_filled steady filled now
    rw [successes, inWindow_append, Nat.cast_add]
    by_cases early : now < start
    · -- before the window opens nothing counts
      have skipped : inWindow start width (grant rate cap b now) = 0 := by
        refine List.countP_eq_zero.mpr fun t member => ?_
        rw [grant_mem rate cap member]
        simp only [decide_eq_true_eq]
        omega
      rw [skipped, Nat.cast_zero, zero_add]
      exact ih next sortedRest
    · -- from the first attempt in the window on, the level pays
      have rest_le := successes_le steady start width rest now next
        (attempt_stamp rate cap b now) sortedRest follows
      have paid := @grant_paid 𝕜 _ _ _ rate cap start width b now
      have upper := levelAt_le rate cap b filled.2 now
      have shorter : ((start + width - 1 - now : Nat) : 𝕜) * rate ≤ (width - 1 : Nat) * rate :=
        mul_le_mul_of_nonneg_right (Nat.cast_le.mpr (by omega)) steady
      linarith

end Windows

/-! ### Bursts -/

section Bursts

private theorem successes_burst (count now : Nat) (level : 𝕜) (rest : List Nat) (filled : level ≤ cap)
    (enough : (count : 𝕜) ≤ level) :
    successes rate cap ⟨level, some now⟩ (List.replicate count now ++ rest) =
      List.replicate count now ++ successes rate cap ⟨level - count, some now⟩ rest := by
  induction count generalizing level with
  | zero => simp
  | succ count ih =>
    rw [Nat.cast_succ] at enough
    have counted : (0 : 𝕜) ≤ count := Nat.cast_nonneg _
    -- at one instant nothing is refilled in between
    have unchanged : levelAt rate cap ⟨level, some now⟩ now = level := by
      simp [levelAt, filled]
    have success : attempt rate cap ⟨level, some now⟩ now = (true, ⟨level - 1, some now⟩) := by
      rw [attempt, unchanged, if_pos (by linarith)]
    have left : level - 1 - count = level - (count + 1) := by linarith
    rw [List.replicate_succ, List.cons_append, successes, grant, success, if_pos rfl,
      ih (level - 1) (by linarith) (by linarith), List.singleton_append, List.cons_append,
      Nat.cast_succ, left]

/-- Attempts at one instant succeed as long as the level lasts. -/
theorem successes_replicate (count now : Nat) (rest : List Nat) (some : 0 < count)
    (filled : b.level ≤ cap) (enough : (count : 𝕜) ≤ levelAt rate cap b now) :
    successes rate cap b (List.replicate count now ++ rest) =
      List.replicate count now ++
        successes rate cap ⟨levelAt rate cap b now - count, .some now⟩ rest := by
  rw [← successes_burst count now _ rest (levelAt_le rate cap b filled now) enough]
  obtain ⟨count, rfl⟩ : ∃ n, count = n + 1 := ⟨count - 1, by omega⟩
  rw [List.replicate_succ, List.cons_append]
  exact successes_refilled rate cap now _ filled

end Bursts

/-! ### Buckets that answer alike -/

section Alike

/-- Refilling in two steps gives the same level as refilling in one. -/
theorem levelAt_refill (steady : 0 ≤ rate) {last now later : Nat} (stamp : b.stamp = some last)
    (past : last ≤ now) (next : now ≤ later) :
    levelAt rate cap ⟨levelAt rate cap b now, some now⟩ later = levelAt rate cap b later := by
  have elapsed : ((later - last : Nat) : 𝕜) = (now - last : Nat) + (later - now : Nat) := by
    rw [← Nat.cast_add]
    congr 1
    omega
  have refill : 0 ≤ ((later - now : Nat) : 𝕜) * rate := refill_nonneg steady _
  simp only [levelAt, stamp]
  rw [elapsed, add_mul, ← add_assoc]
  -- either the cap is reached at once, or it cuts both alike
  rcases le_total cap (b.level + (now - last : Nat) * rate) with full | below
  · rw [min_eq_left full, min_eq_left (by linarith), min_eq_left (by linarith)]
  · rw [min_eq_right below]

/-- A failed attempt only refills. -/
theorem alike_of_failed (steady : cap < 1 ∨ 0 ≤ rate) {now : Nat}
    (full : b.stamp = none → b.level = cap) (past : ∀ last ∈ b.stamp, last ≤ now)
    (failed : (attempt rate cap b now).1 = false) :
    Alike rate cap now b (attempt rate cap b now).2 := by
  rcases steady with small | steady
  · exact .inl small
  have short : ¬1 ≤ levelAt rate cap b now := by
    intro enough
    rw [attempt, if_pos enough] at failed
    cases failed
  rw [attempt, if_neg short]
  cases stamp : b.stamp with
  | none =>
    -- a bucket that was never tried is full
    left
    rw [levelAt, stamp, full stamp] at short
    exact not_le.mp short
  | some last =>
    right
    intro later next
    exact (levelAt_refill steady stamp (past last (by rw [stamp]; rfl)) next).symm

end Alike

end TokenBucket
