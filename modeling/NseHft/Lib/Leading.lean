import Mathlib.Data.Finset.Card
import Mathlib.Order.Defs.Unbundled

/-!
# The leading elements of a set

A list that shows the first `k` elements of a finite set, as a display of bounded depth
does. Removing an element can leave a place that an element not shown should fill, so the
part of the invariant that removal keeps is stated on its own.
-/
namespace Leading

variable {α : Type*}

/-- A sorted list of elements that come before all the elements left out. -/
structure Heads (before : α → α → Prop) (shown : List α) (all : Finset α) : Prop where
  sorted : shown.Pairwise before
  sound : ∀ x ∈ shown, x ∈ all
  behind : ∀ x ∈ all, x ∉ shown → ∀ y ∈ shown, before y x

/-- The first `k` elements, or all of them if there are no more. -/
structure Leads (before : α → α → Prop) (k : Nat) (shown : List α) (all : Finset α) : Prop
    extends Heads before shown all where
  bounded : shown.length ≤ k
  complete : ∀ x ∈ all, x ∉ shown → shown.length = k

variable {before : α → α → Prop} {k : Nat} {shown pre post : List α} {all : Finset α} {x : α}

theorem pairwise_insert (sorted : (pre ++ post).Pairwise before) (left : ∀ y ∈ pre, before y x)
    (right : ∀ y ∈ post, before x y) : (pre ++ x :: post).Pairwise before := by
  obtain ⟨first, second, across⟩ := List.pairwise_append.mp sorted
  refine List.pairwise_append.mpr ⟨first, List.pairwise_cons.mpr ⟨right, second⟩, ?_⟩
  intro y hy z hz
  rcases List.mem_cons.mp hz with rfl | later
  · exact left y hy
  · exact across y hy z later

theorem nodup_of_sorted [Std.Irrefl before] (sorted : shown.Pairwise before) : shown.Nodup := by
  refine sorted.imp ?_
  rintro a b earlier rfl
  exact Std.Irrefl.irrefl a earlier

private theorem mem_middle (y : α) : y ∈ pre ++ x :: post ↔ y = x ∨ y ∈ pre ++ post := by
  simp only [List.mem_append, List.mem_cons]
  tauto

/-- The last element shown may be left out. -/
theorem Heads.init (heads : Heads before (shown ++ [x]) all) : Heads before shown all := by
  obtain ⟨sorted, _, across⟩ := List.pairwise_append.mp heads.sorted
  refine ⟨sorted, fun y member => heads.sound y (List.mem_append_left _ member), ?_⟩
  intro y member hidden z inside
  -- the element left out comes after all the others
  by_cases last : y = x
  · exact across z inside y (by simp [last])
  · exact heads.behind y member (by simp [hidden, last]) z (List.mem_append_left _ inside)

/-- Elements that are not shown may leave the set. -/
theorem Heads.subset {all' : Finset α} (heads : Heads before shown all) (less : all' ⊆ all)
    (kept : ∀ x ∈ shown, x ∈ all') : Heads before shown all' :=
  ⟨heads.sorted, kept, fun x member => heads.behind x (less member)⟩

/-- A shown element leaves the set, and the list with it. -/
theorem Heads.remove {all' : Finset α} (heads : Heads before (pre ++ x :: post) all)
    (less : all' ⊆ all) (gone : x ∉ all') (kept : ∀ y ∈ pre ++ post, y ∈ all') :
    Heads before (pre ++ post) all' := by
  refine ⟨heads.sorted.sublist ((List.Sublist.refl _).append (List.sublist_cons_self _ _)), kept, ?_⟩
  intro y member hidden z inside
  refine heads.behind y (less member) ?_ z ((mem_middle z).mpr (.inr inside))
  rw [mem_middle, not_or]
  exact ⟨fun equal => gone (equal ▸ member), hidden⟩

section Insertion

variable [DecidableEq α]

/-- An element that comes before the ones left out joins the list at its place. -/
theorem Heads.insert (heads : Heads before (pre ++ post) all) (left : ∀ y ∈ pre, before y x)
    (right : ∀ y ∈ post, before x y) (first : ∀ y ∈ all, y ∉ pre ++ post → before x y) :
    Heads before (pre ++ x :: post) (insert x all) := by
  refine ⟨pairwise_insert heads.sorted left right, ?_, ?_⟩
  · intro y member
    rcases (mem_middle y).mp member with rfl | old
    · exact Finset.mem_insert_self _ _
    · exact Finset.mem_insert_of_mem (heads.sound y old)
  · intro y member hidden z inside
    -- what is hidden now was hidden before
    rw [mem_middle, not_or] at hidden
    have old := Finset.mem_of_mem_insert_of_ne member hidden.1
    rcases (mem_middle z).mp inside with rfl | other
    · exact first y old hidden.2
    · exact heads.behind y old hidden.2 z other

/-- With room left everything is shown, and so is a new element. -/
theorem Leads.insert_room (leads : Leads before k (pre ++ post) all)
    (room : (pre ++ post).length < k) (left : ∀ y ∈ pre, before y x)
    (right : ∀ y ∈ post, before x y) : Leads before k (pre ++ x :: post) (insert x all) := by
  have everything (y : α) (member : y ∈ all) : y ∈ pre ++ post := by
    by_contra hidden
    have full := leads.complete y member hidden
    omega
  refine ⟨leads.toHeads.insert left right fun y member hidden =>
    absurd (everything y member) hidden, ?_, ?_⟩
  · rw [List.length_append, List.length_cons]
    rw [List.length_append] at room
    omega
  · intro y member hidden
    rw [mem_middle, not_or] at hidden
    exact absurd (everything y (Finset.mem_of_mem_insert_of_ne member hidden.1)) hidden.2

/-- Behind a full list a new element is not shown. -/
theorem Leads.insert_behind (leads : Leads before k shown all) (full : shown.length = k)
    (left : ∀ y ∈ shown, before y x) : Leads before k shown (insert x all) := by
  refine ⟨⟨leads.sorted, fun y member => Finset.mem_insert_of_mem (leads.sound y member), ?_⟩,
    leads.bounded, fun _ _ _ => full⟩
  intro y member hidden
  rcases Finset.mem_insert.mp member with rfl | old
  · exact left
  · exact leads.behind y old hidden

/-- Before the end of a full list a new element pushes the last one out. -/
theorem Leads.insert_full [IsTrans α before] (leads : Leads before k (pre ++ post) all)
    (full : (pre ++ post).length = k) (inside : pre.length < k) (left : ∀ y ∈ pre, before y x)
    (right : ∀ y ∈ post, before x y) :
    Leads before k ((pre ++ x :: post).take k) (insert x all) := by
  rcases List.eq_nil_or_concat post with rfl | ⟨kept, last, rfl⟩
  · rw [List.append_nil] at full
    omega
  rw [List.concat_eq_append] at *
  -- what was left out comes after the last element, and so after the new one
  have joined : Heads before (pre ++ x :: (kept ++ [last])) (Insert.insert x all) := by
    refine leads.toHeads.insert left right fun y member hidden => ?_
    exact IsTrans.trans _ _ _ (right last (by simp)) (leads.behind y member hidden last (by simp))
  have split : pre ++ x :: (kept ++ [last]) = (pre ++ x :: kept) ++ [last] := by simp
  have length : (pre ++ x :: kept).length = k := by
    simp only [List.length_append, List.length_cons, List.length_nil] at full ⊢
    omega
  rw [split] at joined ⊢
  rw [List.take_left' length]
  exact ⟨joined.init, length.le, fun _ _ _ => length⟩

end Insertion

/-- As many elements as there are, at most `k`. -/
theorem Leads.length_eq [DecidableEq α] [Std.Irrefl before] (leads : Leads before k shown all) :
    shown.length = min k all.card := by
  have card : shown.toFinset.card = shown.length :=
    List.toFinset_card_of_nodup (nodup_of_sorted leads.sorted)
  have subset : shown.toFinset ⊆ all := fun x member => leads.sound x (List.mem_toFinset.mp member)
  have most := Finset.card_le_card subset
  have bounded := leads.bounded
  -- something hidden means that the list is full
  by_cases everything : all ⊆ shown.toFinset
  · have least := Finset.card_le_card everything
    omega
  · obtain ⟨x, member, hidden⟩ := Finset.not_subset.mp everything
    have full := leads.complete x member (by simpa using hidden)
    omega

/-- Of all elements in order, a leading list is the first part. -/
theorem Leads.eq_take [DecidableEq α] [IsTrans α before] [Std.Irrefl before] {ordered : List α}
    (leads : Leads before k shown all) (sorted : ordered.Pairwise before)
    (same : ∀ x, x ∈ ordered ↔ x ∈ all) : shown = ordered.take k := by
  have asymm (x y : α) (first : before x y) (second : before y x) : x = y :=
    absurd (IsTrans.trans _ _ _ first second) (Std.Irrefl.irrefl x)
  -- the elements shown come first and the others behind them
  have parts : (shown ++ ordered.filter (· ∉ shown)).Pairwise before := by
    refine List.pairwise_append.mpr ⟨leads.sorted, sorted.filter _, ?_⟩
    intro y inside x left
    obtain ⟨member, hidden⟩ := List.mem_filter.mp left
    exact leads.behind x ((same x).mp member) (by simpa using hidden) y inside
  have split : ordered = shown ++ ordered.filter (· ∉ shown) := by
    refine List.Perm.eq_of_pairwise (fun x y _ _ => asymm x y) sorted parts ?_
    refine (List.perm_ext_iff_of_nodup (nodup_of_sorted sorted) (nodup_of_sorted parts)).mpr ?_
    intro x
    have sound := leads.sound x
    rw [← same] at sound
    simp only [List.mem_append, List.mem_filter, decide_eq_true_eq]
    tauto
  rw [split]
  -- nothing is left out, or the list is full
  cases rest : ordered.filter (· ∉ shown) with
  | nil => rw [List.append_nil, List.take_of_length_le leads.bounded]
  | cons x left =>
    obtain ⟨member, hidden⟩ := List.mem_filter.mp (rest ▸ List.mem_cons_self : x ∈ _)
    rw [List.take_left' (leads.complete x ((same x).mp member) (by simpa using hidden))]

end Leading
