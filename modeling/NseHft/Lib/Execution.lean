import Mathlib.Data.List.Basic

/-! Loops of a step function: the rules for invariants, termination and divergence. -/
namespace Execution

variable {σ ρ : Type}

/-- A `while` loop with a bound on its iterations: the step either continues with a
new state or leaves the loop with a result. `none` means the bound ran out. -/
def iterate (step : σ → σ ⊕ ρ) : Nat → σ → Option ρ
  | 0, _ => none
  | fuel + 1, s =>
    match step s with
    | .inl next => iterate step fuel next
    | .inr result => some result

/-- A larger bound does not change the result. -/
theorem iterate_more (step : σ → σ ⊕ ρ) (fuel more : Nat) (s : σ) (result : ρ)
    (returned : iterate step fuel s = some result) (enough : fuel ≤ more) :
    iterate step more s = some result := by
  induction fuel generalizing more s with
  | zero => simp [iterate] at returned
  | succ fuel ih =>
    obtain ⟨more, rfl⟩ : ∃ m, more = m + 1 := ⟨more - 1, by omega⟩
    simp only [iterate] at returned ⊢
    split at returned
    next next continues => exact ih more next returned (by omega)
    next leaves => exact returned

/-- Total correctness: an invariant together with a variant that every iteration lowers. -/
theorem iterate_total (step : σ → σ ⊕ ρ) (I : σ → Prop) (Q : ρ → Prop) (variant : σ → Nat)
    (advance : ∀ s next, I s → step s = .inl next → I next ∧ variant next < variant s)
    (finish : ∀ s result, I s → step s = .inr result → Q result)
    (fuel : Nat) (s : σ) (initial : I s) (enough : variant s < fuel) :
    ∃ result, iterate step fuel s = some result ∧ Q result := by
  induction fuel generalizing s with
  | zero => omega
  | succ fuel ih =>
    simp only [iterate]
    cases taken : step s with
    | inl next =>
      obtain ⟨kept, lower⟩ := advance s next initial taken
      exact ih next kept (by omega)
    | inr result => exact ⟨result, rfl, finish s result initial taken⟩

/-- Divergence: an invariant under which the loop always continues. -/
theorem iterate_diverges (step : σ → σ ⊕ ρ) (I : σ → Prop)
    (continues : ∀ s, I s → ∃ next, step s = .inl next ∧ I next)
    (fuel : Nat) (s : σ) (initial : I s) : iterate step fuel s = none := by
  induction fuel generalizing s with
  | zero => rfl
  | succ fuel ih =>
    obtain ⟨next, taken, kept⟩ := continues s initial
    simp only [iterate, taken]
    exact ih next kept

end Execution
