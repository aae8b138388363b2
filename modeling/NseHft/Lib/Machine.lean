import Mathlib.Data.List.Basic

/-! Machines that answer calls: the state after a list of calls and the answers given, what
every call keeps, and two runs side by side. -/
namespace Machine

variable {σ τ ι ο : Type}

/-- The state after a list of calls. -/
def after (step : σ → ι → ο × σ) : σ → List ι → σ
  | s, [] => s
  | s, call :: rest => after step (step s call).2 rest

/-- The answers to a list of calls. -/
def answers (step : σ → ι → ο × σ) : σ → List ι → List ο
  | _, [] => []
  | s, call :: rest => (step s call).1 :: answers step (step s call).2 rest

theorem after_append (step : σ → ι → ο × σ) (s : σ) (first second : List ι) :
    after step s (first ++ second) = after step (after step s first) second := by
  induction first generalizing s with
  | nil => rfl
  | cons call rest ih => exact ih (step s call).2

theorem answers_append (step : σ → ι → ο × σ) (s : σ) (first second : List ι) :
    answers step s (first ++ second) = answers step s first ++ answers step (after step s first) second := by
  induction first generalizing s with
  | nil => rfl
  | cons call rest ih => exact congrArg _ (ih (step s call).2)

/-- What every call keeps holds after any list of calls. -/
theorem after_invariant (step : σ → ι → ο × σ) (I : σ → Prop)
    (kept : ∀ s call, I s → I (step s call).2) (s : σ) (initial : I s) (calls : List ι) :
    I (after step s calls) := by
  induction calls generalizing s with
  | nil => exact initial
  | cons call rest ih => exact ih (step s call).2 (kept s call initial)

/-- A property that only some calls can end holds after any list of calls, or one of them
ended it. -/
theorem after_until (step : σ → ι → ο × σ) (P : σ → Prop) (Ends : σ → ι → Prop)
    (kept : ∀ s call, P s → P (step s call).2 ∨ Ends s call)
    (s : σ) (initial : P s) (calls : List ι) :
    P (after step s calls) ∨
      ∃ before call rest, calls = before ++ call :: rest ∧
        P (after step s before) ∧ Ends (after step s before) call := by
  induction calls generalizing s with
  | nil => exact .inl initial
  | cons call rest ih =>
    rcases kept s call initial with holds | ends
    · rcases ih (step s call).2 holds with still | ⟨before, last, remaining, split, held, ended⟩
      · exact .inl still
      · exact .inr ⟨call :: before, last, remaining, by rw [split]; rfl, held, ended⟩
    · exact .inr ⟨[], call, rest, rfl, initial, ends⟩

/-! ### Calls that may fault -/

/-- The state after a list of calls of which none faults. -/
def checkedAfter (checked : σ → ι → Option (ο × σ)) : σ → List ι → Option σ
  | s, [] => some s
  | s, call :: rest => (checked s call).bind fun answer => checkedAfter checked answer.2 rest

/-- A machine that faults on some calls and otherwise answers as another one runs through
exactly if no call faults in the state that the calls before it lead to. -/
theorem checkedAfter_isSome_iff {step : σ → ι → ο × σ} {checked : σ → ι → Option (ο × σ)}
    {Faults : σ → ι → Prop} (fault : ∀ s call, Faults s call → checked s call = none)
    (agree : ∀ s call, ¬ Faults s call → checked s call = some (step s call))
    (s : σ) (calls : List ι) :
    (checkedAfter checked s calls).isSome ↔
      ∀ before call rest, calls = before ++ call :: rest → ¬ Faults (after step s before) call := by
  induction calls generalizing s with
  | nil => simp [checkedAfter]
  | cons first calls ih =>
    rw [checkedAfter]
    by_cases faults : Faults s first
    · rw [fault s first faults]
      refine iff_of_false (by simp) fun safe => ?_
      exact safe [] first calls rfl faults
    · rw [agree s first faults, Option.bind_some, ih]
      constructor
      · intro safe before call rest split
        cases before with
        | nil =>
          cases split
          exact faults
        | cons _ before =>
          cases split
          exact safe before call rest rfl
      · intro safe before call rest split
        exact safe (first :: before) call rest (by rw [split]; rfl)

/-! ### Parts that do not look at each other -/

section Parts

variable {π κ ο' : Type} (view : ι → Option κ) (part : σ → π)

/-- A part of the state that sees some of the calls, on which it acts as a machine by itself, and
that all others leave alone, is after a run what the calls it sees make of it. -/
theorem after_part {step : σ → ι → ο × σ} {own : π → κ → ο' × π}
    (seen : ∀ s call k, view call = some k → part (step s call).2 = (own (part s) k).2)
    (unseen : ∀ s call, view call = none → part (step s call).2 = part s) (s : σ) (calls : List ι) :
    part (after step s calls) = after own (part s) (calls.filterMap view) := by
  induction calls generalizing s with
  | nil => rfl
  | cons call rest ih =>
    rw [after, ih]
    cases sight : view call with
    | none => rw [List.filterMap_cons_none sight, unseen s call sight]
    | some k => rw [List.filterMap_cons_some sight, seen s call k sight, after]

theorem checkedAfter_part {checked : σ → ι → Option (ο × σ)} {own : π → κ → Option (ο' × π)}
    (seen : ∀ s call k r, view call = some k → checked s call = some r →
      ∃ answer, own (part s) k = some (answer, part r.2))
    (unseen : ∀ s call r, view call = none → checked s call = some r → part r.2 = part s)
    {s s' : σ} {calls : List ι} (returned : checkedAfter checked s calls = some s') :
    checkedAfter own (part s) (calls.filterMap view) = some (part s') := by
  induction calls generalizing s with
  | nil =>
    obtain rfl := Option.some.inj returned
    rfl
  | cons call rest ih =>
    obtain ⟨r, answered, later⟩ := Option.bind_eq_some_iff.mp returned
    cases sight : view call with
    | none =>
      rw [List.filterMap_cons_none sight, ← unseen s call r sight answered]
      exact ih later
    | some k =>
      obtain ⟨answer, own⟩ := seen s call k r sight answered
      rw [List.filterMap_cons_some sight, checkedAfter, own]
      exact ih later

end Parts

/-! ### Every point of a run -/

/-- Where a step keeps a property exactly if it meets a condition, the property holds at every
point of a run exactly if every step meets its condition where it is made. -/
theorem foldl_prefixes_iff {f : σ → ι → σ} {I Good : σ → Prop} {Meets : σ → ι → Prop}
    {P : ι → Prop} (kept : ∀ s i, P i → I s → I (f s i))
    (step : ∀ s i, P i → I s → Good s → (Good (f s i) ↔ Meets s i)) {s : σ} (initial : I s)
    (good : Good s) {run : List ι} (each : ∀ i ∈ run, P i) :
    (∀ pre, pre <+: run → Good (pre.foldl f s)) ↔
      ∀ pre i, pre ++ [i] <+: run → Meets (pre.foldl f s) i := by
  induction run generalizing s with
  | nil => simp [good]
  | cons first rest ih =>
    obtain ⟨now, later⟩ := List.forall_mem_cons.mp each
    constructor
    · intro always
      have next : Good (f s first) := always [first] (List.prefix_append [first] rest)
      have tail := (ih (kept s first now initial) next later).mp fun pre inside =>
        always (first :: pre) (List.cons_prefix_cons.mpr ⟨rfl, inside⟩)
      intro pre i inside
      cases pre with
      | nil =>
        obtain ⟨rfl, _⟩ := List.cons_prefix_cons.mp inside
        exact (step s i now initial good).mp next
      | cons _ pre =>
        obtain ⟨rfl, inner⟩ := List.cons_prefix_cons.mp inside
        exact tail pre i inner
    · intro met
      have next : Good (f s first) :=
        (step s first now initial good).mpr (met [] first (List.prefix_append [first] rest))
      have tail := (ih (kept s first now initial) next later).mpr fun pre i inside =>
        met (first :: pre) i (List.cons_prefix_cons.mpr ⟨rfl, inside⟩)
      intro pre inside
      cases pre with
      | nil => exact good
      | cons _ pre =>
        obtain ⟨rfl, inner⟩ := List.cons_prefix_cons.mp inside
        exact tail pre inner

end Machine
