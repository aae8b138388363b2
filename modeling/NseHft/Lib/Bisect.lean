import Mathlib.Data.List.Basic
import Mathlib.Tactic.SplitIfs
import NseHft.Lib.Execution

/-! Binary search on a list whose elements before some point satisfy a predicate and
whose later elements do not. -/
namespace Bisect

open Execution

variable {α : Type} [Inhabited α]

/-- A search ends at an element it was looking for, or at an empty interval. -/
inductive Outcome where
  | found (i : Nat)
  | stop (lo : Nat)
  deriving DecidableEq, Repr

/-- One iteration on the half-open interval `[lo, hi)`. -/
def step (hit before : α → Bool) (xs : List α) (range : Nat × Nat) : (Nat × Nat) ⊕ Outcome :=
  if range.1 < range.2 then
    if hit (xs.getD ((range.1 + range.2) / 2) default) then .inr (.found ((range.1 + range.2) / 2))
    else if before (xs.getD ((range.1 + range.2) / 2) default) then
      .inl ((range.1 + range.2) / 2 + 1, range.2)
    else .inl (range.1, (range.1 + range.2) / 2)
  else .inr (.stop range.1)

def search (hit before : α → Bool) (xs : List α) : Option Outcome :=
  iterate (step hit before xs) (xs.length + 1) (0, xs.length)

/-- `before` holds of exactly the first `n` elements. -/
structure Partitioned (before : α → Bool) (xs : List α) (n : Nat) : Prop where
  le_length : n ≤ xs.length
  below : ∀ i < n, before (xs.getD i default) = true
  above : ∀ i < xs.length, n ≤ i → before (xs.getD i default) = false

/-- What is searched for can only be the first element after the partition point. -/
def HitsAt (hit : α → Bool) (xs : List α) (n : Nat) : Prop :=
  ∀ i < xs.length, hit (xs.getD i default) = true → i = n

/-- The interval always contains the partition point. -/
private structure Around (hit : α → Bool) (xs : List α) (n : Nat) (range : Nat × Nat) : Prop where
  lower : range.1 ≤ n
  upper : n ≤ range.2
  inside : range.2 ≤ xs.length
  reach : n < xs.length → hit (xs.getD n default) = true → n < range.2

/-- Every iteration shortens the interval, whatever the list holds. -/
private theorem step_shortens {hit before : α → Bool} {xs : List α} {range next : Nat × Nat}
    (taken : step hit before xs range = .inl next) : next.2 - next.1 < range.2 - range.1 := by
  unfold step at taken
  split at taken
  next nonempty =>
    split at taken
    · cases taken
    · split at taken
      · cases taken
        dsimp only
        omega
      · cases taken
        dsimp only
        omega
  · cases taken

/-- The search ends on every list, in order or not. -/
theorem search_isSome (hit before : α → Bool) (xs : List α) : (search hit before xs).isSome := by
  obtain ⟨outcome, returned, -⟩ := iterate_total (step hit before xs) (fun _ => True)
    (fun _ => True) (fun range => range.2 - range.1)
    (fun _ _ _ taken => ⟨trivial, step_shortens taken⟩) (fun _ _ _ _ => trivial)
    (xs.length + 1) (0, xs.length) trivial (Nat.lt_succ_self _)
  rw [search, returned]
  rfl

private theorem step_around {hit before : α → Bool} {xs : List α} {n : Nat}
    (parts : Partitioned before xs n) (range next : Nat × Nat)
    (around : Around hit xs n range) (taken : step hit before xs range = .inl next) :
    Around hit xs n next := by
  obtain ⟨lower, upper, inside, reach⟩ := around
  unfold step at taken
  split at taken
  next nonempty =>
    split at taken
    · cases taken
    next missed =>
      split at taken
      next earlier =>
        cases taken
        have : (range.1 + range.2) / 2 < n := by
          by_contra later
          have := parts.above ((range.1 + range.2) / 2) (by omega) (by omega)
          exact absurd earlier (by rw [this]; exact Bool.false_ne_true)
        exact ⟨by dsimp only; omega, upper, inside, reach⟩
      next later =>
        cases taken
        have : n ≤ (range.1 + range.2) / 2 := by
          by_contra earlier
          exact later (parts.below ((range.1 + range.2) / 2) (by omega))
        refine ⟨lower, this, by dsimp only; omega, ?_⟩
        intro bound sought
        -- the element sought is not the midpoint, which was just compared
        have : n ≠ (range.1 + range.2) / 2 := fun equal => missed (equal ▸ sought)
        dsimp only
        omega
  · cases taken

private theorem step_finish {hit before : α → Bool} {xs : List α} {n : Nat}
    (hits : HitsAt hit xs n) (range : Nat × Nat) (outcome : Outcome)
    (around : Around hit xs n range) (taken : step hit before xs range = .inr outcome) :
    outcome = if n < xs.length ∧ hit (xs.getD n default) = true then .found n else .stop n := by
  obtain ⟨lower, upper, inside, reach⟩ := around
  unfold step at taken
  split at taken
  next nonempty =>
    split at taken
    next sought =>
      cases taken
      have equal := hits ((range.1 + range.2) / 2) (by omega) sought
      rw [equal] at sought ⊢
      rw [if_pos ⟨by omega, sought⟩]
    · split at taken <;> cases taken
  next empty =>
    cases taken
    rw [if_neg (fun found => absurd (reach found.1 found.2) (by omega)), show range.1 = n by omega]

/-- The search ends, at the element sought if there is one and else at the partition
point. -/
theorem search_spec {hit before : α → Bool} {xs : List α} {n : Nat}
    (parts : Partitioned before xs n) (hits : HitsAt hit xs n) :
    search hit before xs =
      some (if n < xs.length ∧ hit (xs.getD n default) = true then .found n else .stop n) := by
  obtain ⟨outcome, returned, equal⟩ := iterate_total (step hit before xs) (Around hit xs n)
    (fun outcome => outcome =
      if n < xs.length ∧ hit (xs.getD n default) = true then .found n else .stop n)
    (fun range => range.2 - range.1)
    (fun range next around taken => ⟨step_around parts range next around taken, step_shortens taken⟩)
    (fun range outcome => step_finish hits range outcome)
    (xs.length + 1) (0, xs.length)
    ⟨Nat.zero_le n, parts.le_length, Nat.le_refl _, fun bound _ => bound⟩ (by dsimp only; omega)
  rw [search, returned, equal]

end Bisect
