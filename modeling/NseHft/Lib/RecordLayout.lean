import Mathlib.Data.List.Basic

/-! Records that are written into a buffer field by field, each field behind the one before,
and read back at the fields' positions. -/
namespace RecordLayout

variable {α : Type}

/-- The elements of a field over those of the buffer, from position `p` on. -/
def overwrite : List α → Nat → List α → List α
  | [], _, buf => buf
  | x :: rest, p, buf => overwrite rest (p + 1) (buf.set p x)

/-- Fields one behind the other, from position `p` on. -/
def storeAll : List (List α) → Nat → List α → List α
  | [], _, buf => buf
  | field :: rest, p, buf => storeAll rest (p + field.length) (overwrite field p buf)

/-- From position `p` on, the record begins with the field. -/
def Reads (record : List α) (p : Nat) (field : List α) : Prop :=
  ∃ rest, record.drop p = field ++ rest

theorem overwrite_append (field front back : List α) (room : field.length ≤ back.length) :
    overwrite field front.length (front ++ back) = front ++ field ++ back.drop field.length := by
  induction field generalizing front back with
  | nil => simp [overwrite]
  | cons x rest ih =>
    cases back with
    | nil => cases room
    | cons old back =>
      have stored : (front ++ old :: back).set front.length x = (front ++ [x]) ++ back := by
        simp [List.set_append_right]
      have next : front.length + 1 = (front ++ [x]).length := by simp
      rw [overwrite, stored, next, ih _ _ (Nat.le_of_succ_le_succ room)]
      simp

theorem overwrite_set (field : List α) (p q : Nat) (before : q < p) (x : α) (buf : List α) :
    (overwrite field p buf).set q x = overwrite field p (buf.set q x) := by
  induction field generalizing p buf with
  | nil => rfl
  | cons y rest ih =>
    rw [overwrite, overwrite, ih (p + 1) (by omega), List.set_comm _ _ (by omega)]

/-- The second of two fields at one place hides the start of the first. -/
theorem overwrite_overwrite (second first : List α) (p : Nat) (buf : List α)
    (covered : second.length ≤ first.length) :
    overwrite second p (overwrite first p buf) = overwrite (second ++ first.drop second.length) p buf := by
  induction second generalizing first p buf with
  | nil => rfl
  | cons x rest ih =>
    cases first with
    | nil => cases covered
    | cons y first =>
      rw [overwrite, overwrite, overwrite_set _ _ _ (Nat.lt_succ_self p), List.set_set,
        ih first (p + 1) _ (Nat.le_of_succ_le_succ covered)]
      rfl

/-- A record overwrites as many elements as it has, and nothing else. -/
theorem storeAll_append (fields : List (List α)) (front back : List α)
    (room : fields.flatten.length ≤ back.length) :
    storeAll fields front.length (front ++ back) =
      front ++ fields.flatten ++ back.drop fields.flatten.length := by
  induction fields generalizing front back with
  | nil => simp [storeAll]
  | cons field rest ih =>
    rw [List.flatten_cons, List.length_append] at room
    have next : front.length + field.length = (front ++ field).length := by simp
    rw [storeAll, overwrite_append field front back (by omega), next,
      ih _ _ (by rw [List.length_drop]; omega), List.drop_drop]
    simp

theorem storeAll_zero (fields : List (List α)) (buf : List α)
    (room : fields.flatten.length ≤ buf.length) :
    storeAll fields 0 buf = fields.flatten ++ buf.drop fields.flatten.length :=
  storeAll_append fields [] buf room

/-- The field with index `i` stands behind the fields before it. -/
theorem reads_field {fields : List (List α)} {field : List α} (i : Nat)
    (here : fields[i]? = some field) {p : Nat} (offset : (fields.take i).flatten.length = p) :
    Reads fields.flatten p field := by
  obtain ⟨inside, rfl⟩ := List.getElem?_eq_some_iff.mp here
  refine ⟨(fields.drop (i + 1)).flatten, ?_⟩
  have split : fields.flatten = (fields.take i).flatten ++ (fields.drop i).flatten := by
    rw [← List.flatten_append, List.take_append_drop]
  rw [split, List.drop_left' offset, List.drop_eq_getElem_cons inside, List.flatten_cons]

theorem Reads.append {record field : List α} {p : Nat} (reads : Reads record p field)
    (inside : p ≤ record.length) (more : List α) : Reads (record ++ more) p field := by
  obtain ⟨rest, equal⟩ := reads
  exact ⟨rest ++ more, by rw [List.drop_append_of_le_length inside, equal, List.append_assoc]⟩

end RecordLayout
