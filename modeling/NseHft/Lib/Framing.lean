import Mathlib.Data.List.Basic
import Mathlib.Data.List.Infix

/-! Streams of self-delimiting frames: the first element of a frame determines how long the
frame is, and 0 means that it starts none. -/
namespace Framing

variable {α : Type} (size : α → Nat)

/-- A whole frame and nothing else. -/
def Complete (part : List α) : Prop :=
  ∃ first rest, part = first :: rest ∧ size first ≠ 0 ∧ part.length = size first

/-- At most `n` whole frames from the start of the stream. -/
structure Splits (stream : List α) (n : Nat) (parts : List (List α)) : Prop where
  front : parts.flatten <+: stream
  few : parts.length ≤ n
  complete : ∀ part ∈ parts, Complete size part

/-- No other such frames go further. -/
structure LongestSplit (stream : List α) (n : Nat) (parts : List (List α)) : Prop
    extends Splits size stream n parts where
  longest : ∀ other, Splits size stream n other → other <+: parts

/-- The frames of a stream, as far as they are whole and at most `n` of them. -/
def frames : Nat → List α → List (List α)
  | 0, _ => []
  | _ + 1, [] => []
  | n + 1, first :: rest =>
    let need := size first
    if need = 0 ∨ (first :: rest).length < need then []
    else (first :: rest).take need :: frames n ((first :: rest).drop need)

variable {size}

/-- A stream that starts with a whole frame. -/
theorem frames_cons {part : List α} (complete : Complete size part) (n : Nat) (more : List α) :
    frames size (n + 1) (part ++ more) = part :: frames size n more := by
  obtain ⟨first, rest, rfl, known, length⟩ := complete
  have enough : ¬(size first = 0 ∨ (first :: (rest ++ more)).length < size first) := by
    rw [List.cons_append.symm, List.length_append, length]
    omega
  rw [List.cons_append, frames]
  simp only [if_neg enough]
  rw [← List.cons_append, List.take_left' length, List.drop_left' length]

theorem splits_nil (stream : List α) (n : Nat) : Splits size stream n [] where
  front := List.nil_prefix
  few := Nat.zero_le n
  complete _ member := (List.not_mem_nil member).elim

theorem frames_splits (n : Nat) (stream : List α) : Splits size stream n (frames size n stream) := by
  induction n generalizing stream with
  | zero => exact splits_nil stream 0
  | succ n ih =>
    cases stream with
    | nil => exact splits_nil [] (n + 1)
    | cons first rest =>
      rw [frames]
      split
      · exact splits_nil _ (n + 1)
      next whole =>
        simp only [not_or, Nat.not_lt] at whole
        obtain ⟨front, few, complete⟩ := ih ((first :: rest).drop (size first))
        refine ⟨?_, Nat.succ_le_succ few, List.forall_mem_cons.mpr ⟨?_, complete⟩⟩
        · rw [List.flatten_cons]
          obtain ⟨more, joined⟩ := front
          exact ⟨more, by rw [List.append_assoc, joined, List.take_append_drop]⟩
        · -- the head survives because the frame is not empty
          obtain ⟨k, need⟩ := Nat.exists_eq_succ_of_ne_zero whole.1
          refine ⟨first, rest.take k, ?_, whole.1, ?_⟩
          · rw [need, List.take_succ_cons]
          · rw [List.length_take, Nat.min_eq_left whole.2]

/-- Whole frames at the start of a stream are the ones that are found. -/
theorem prefix_frames (n : Nat) (stream : List α) (parts : List (List α))
    (splits : Splits size stream n parts) : parts <+: frames size n stream := by
  induction n generalizing stream parts with
  | zero =>
    rw [List.length_eq_zero_iff.mp (Nat.le_zero.mp splits.few)]
    exact List.nil_prefix
  | succ n ih =>
    cases parts with
    | nil => exact List.nil_prefix
    | cons part rest =>
      obtain ⟨⟨more, joined⟩, few, complete⟩ := splits
      obtain ⟨here, others⟩ := List.forall_mem_cons.mp complete
      rw [List.flatten_cons, List.append_assoc] at joined
      rw [← joined, frames_cons here]
      exact (List.prefix_cons_inj part).mpr
        (ih _ _ ⟨⟨more, rfl⟩, Nat.le_of_succ_le_succ few, others⟩)

theorem frames_longest (n : Nat) (stream : List α) :
    LongestSplit size stream n (frames size n stream) :=
  ⟨frames_splits n stream, fun other splits => prefix_frames n stream other splits⟩

end Framing
