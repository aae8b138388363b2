import Mathlib.Algebra.Order.Ring.Int
import Mathlib.Data.List.Basic

/-! Text as C and C++ read it: delimited pieces of a stream, and decimal numbers after the rules
of the `strtol` family for a `long` of 64 bits. -/
namespace CText

/-- The codes of a text of plain characters. -/
def ascii (s : String) : List UInt8 := s.toList.map fun c => c.toNat.toUInt8

/-- The string in a character array, up to the first zero. -/
def cString (bytes : List UInt8) : List UInt8 := bytes.takeWhile fun c => c ≠ 0

/-! ### Streams -/

/-- One `getline`: the text up to the delimiter, and what follows the delimiter. It fails only
when nothing is left to read. -/
def getline (delim : UInt8) : List UInt8 → Option (List UInt8 × List UInt8)
  | [] => none
  | c :: rest => some ((c :: rest).takeWhile (fun c => c ≠ delim),
      ((c :: rest).dropWhile (fun c => c ≠ delim)).drop 1)

/-- What `getline` yields when it is repeated until it fails. Nothing is yielded behind a last
delimiter. -/
def pieces (delim : UInt8) : List UInt8 → List (List UInt8)
  | [] => []
  | c :: rest =>
    if c = delim then [] :: pieces delim rest
    else
      match pieces delim rest with
      | [] => [[c]]
      | piece :: more => (c :: piece) :: more

/-- The pieces are what a loop over `getline` sees. -/
theorem pieces_eq_getline (delim : UInt8) (text : List UInt8) :
    pieces delim text =
      match getline delim text with
      | none => []
      | some (piece, rest) => piece :: pieces delim rest := by
  induction text with
  | nil => rfl
  | cons c rest ih =>
    rw [pieces]
    by_cases here : c = delim
    · simp [getline, here]
    · rw [if_neg here, ih]
      cases rest with
      | nil => simp [getline, here, pieces]
      | cons d rest => simp [getline, here]

/-- `while (getline(in, piece))` around a loop body. Every turn reads at least one character, so
the length of the text bounds the turns. -/
def whileGetline {σ : Type} (delim : UInt8) (body : σ → List UInt8 → σ) :
    Nat → σ → List UInt8 → σ
  | 0, s, _ => s
  | turns + 1, s, text =>
    match getline delim text with
    | none => s
    | some (piece, rest) => whileGetline delim body turns (body s piece) rest

theorem getline_shorter {delim : UInt8} {text piece rest : List UInt8}
    (read : getline delim text = some (piece, rest)) : rest.length < text.length := by
  cases text with
  | nil => cases read
  | cons c tail =>
    simp only [getline, Option.some.injEq, Prod.mk.injEq] at read
    rw [← read.2, List.length_drop]
    have shorter := ((c :: tail).dropWhile_suffix fun c => decide (c ≠ delim)).length_le
    simp only [List.length_cons] at shorter ⊢
    omega

/-- The loop runs its body on the pieces, one after the other. -/
theorem whileGetline_eq_foldl {σ : Type} (delim : UInt8) (body : σ → List UInt8 → σ) (s : σ)
    {text : List UInt8} {turns : Nat} (enough : text.length ≤ turns) :
    whileGetline delim body turns s text = (pieces delim text).foldl body s := by
  induction turns generalizing s text with
  | zero =>
    obtain rfl := List.length_eq_zero_iff.mp (Nat.le_zero.mp enough)
    rfl
  | succ turns ih =>
    rw [whileGetline, pieces_eq_getline]
    cases read : getline delim text with
    | none => rfl
    | some answer =>
      obtain ⟨piece, rest⟩ := answer
      have shorter := getline_shorter read
      exact ih (body s piece) (by omega)

/-! ### Numbers -/

/-- White space of the C locale. -/
def isSpace (c : UInt8) : Bool := c = 32 ∨ (9 ≤ c ∧ c ≤ 13)

def isDigit (c : UInt8) : Bool := 48 ≤ c ∧ c ≤ 57

/-- The value of the digits at the front. -/
def leadingDigits (s : List UInt8) : Nat :=
  (s.takeWhile isDigit).foldl (fun n c => 10 * n + (c.toNat - 48)) 0

/-- The number at the front of a text: whether it has a minus sign, and its magnitude. Without
digits it is 0. -/
def subject (s : List UInt8) : Bool × Nat :=
  match s.dropWhile isSpace with
  | 45 :: rest => (true, leadingDigits rest)
  | 43 :: rest => (false, leadingDigits rest)
  | rest => (false, leadingDigits rest)

/-- An unsigned number saturates at the top; a minus sign negates it in the unsigned type. -/
def strtoul (s : List UInt8) : Nat :=
  let (negative, n) := subject s
  if n ≥ 2 ^ 64 then 2 ^ 64 - 1 else if negative then (2 ^ 64 - n) % 2 ^ 64 else n

/-- A signed number saturates at both ends. -/
def strtol (s : List UInt8) : Int :=
  let (negative, n) := subject s
  if negative then max (-n) (-2 ^ 63) else min n (2 ^ 63 - 1)

example : (strtoul (ascii " +2885x"), strtoul (ascii "-1"), strtol (ascii "-7"), strtol []) =
    (2885, 2 ^ 64 - 1, -7, 0) := by decide +kernel

end CText
