import Mathlib.Data.List.Basic

/-! The bounded first-in first-out queue, as a specification. -/
namespace BoundedFifo

variable {α : Type} {capacity : Nat} {contents ins outs : List α}

/-- The queue holds `contents` after `ins` went in and `outs` came out. -/
inductive Run (capacity : Nat) : List α → List α → List α → Prop
  | empty : Run capacity [] [] []
  | enqueue {contents ins outs : List α} (value : α) : Run capacity contents ins outs →
      contents.length < capacity → Run capacity (contents ++ [value]) (ins ++ [value]) outs
  | dequeue {contents ins outs : List α} {value : α} : Run capacity (value :: contents) ins outs →
      Run capacity contents ins (outs ++ [value])

/-- What went in has come out in order, up to the contents. -/
theorem Run.history (run : Run capacity contents ins outs) : ins = outs ++ contents := by
  induction run with
  | empty => rfl
  | enqueue value _ _ ih => rw [ih, List.append_assoc]
  | dequeue _ ih => rw [ih, List.append_assoc, List.singleton_append]

theorem Run.bounded (run : Run capacity contents ins outs) : contents.length ≤ capacity := by
  induction run with
  | empty => exact Nat.zero_le _
  | enqueue value _ room _ =>
    rw [List.length_append, List.length_singleton]
    exact room
  | dequeue _ ih =>
    rw [List.length_cons] at ih
    omega

end BoundedFifo
