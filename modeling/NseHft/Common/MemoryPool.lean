import Mathlib.Data.List.Perm.Subperm
import Mathlib.Logic.Function.Basic
import NseHft.Lib.FixedWidth
import NseHft.Lib.LinkedPath
import NseHft.Lib.Machine

/-!
# Memory pool

The free slots are threaded onto a list whose links lie in the slots themselves; a slot in use
holds an object in the same place. A pointer is the index of a slot. Reading the link of a slot
that holds an object gives whatever the bits of the object look like as a pointer.
-/
namespace NseHft

open FixedWidth LinkedPath

/-- The union: a link of the free list, or an object. -/
inductive Slot (α : Type)
  | link (next : Option Nat)
  | object (value : α)

structure MemoryPool (α : Type) where
  capacity : Nat
  storage : Nat → Slot α
  freeHead : Option Nat := none
  freeCount : Nat
  exhaustionCount : Nat := 0

namespace MemoryPool

variable {α : Type} (bits : α → Option Nat)

/-- One pass of the constructor's loop. -/
def thread (pool : MemoryPool α) (i : Nat) : MemoryPool α :=
  { pool with
    storage := Function.update pool.storage i (.link pool.freeHead)
    freeHead := some i }

def new (capacity : Nat) (memory : Nat → Slot α) : MemoryPool α :=
  (List.range capacity).foldl thread
    { capacity := capacity, storage := memory, freeCount := capacity }

/-- What `slot->next` reads. -/
def next (pool : MemoryPool α) (i : Nat) : Option Nat :=
  match pool.storage i with
  | .link next => next
  | .object value => bits value

/-- `none` is the null pointer of an exhausted pool. -/
def allocate (pool : MemoryPool α) (value : α) : Option Nat × MemoryPool α :=
  match pool.freeHead with
  | none => (none, { pool with exhaustionCount := u64 (pool.exhaustionCount + 1) })
  | some i =>
    (some i, { pool with
      storage := Function.update pool.storage i (.object value)
      freeHead := pool.next bits i
      freeCount := u64Sub pool.freeCount 1 })

/-- Nothing tells whether the slot is in use. -/
def deallocate (pool : MemoryPool α) : Option Nat → MemoryPool α
  | none => pool
  | some i =>
    { pool with
      storage := Function.update pool.storage i (.link pool.freeHead)
      freeHead := some i
      freeCount := u64 (pool.freeCount + 1) }

/-- The owner of an object writes to it. -/
def assign (pool : MemoryPool α) (i : Nat) (value : α) : MemoryPool α :=
  { pool with storage := Function.update pool.storage i (.object value) }

def available (pool : MemoryPool α) : Nat := pool.freeCount

def inUse (pool : MemoryPool α) : Nat := u64Sub pool.capacity pool.freeCount

/-! ### Users of a pool -/

inductive Call (α : Type)
  | allocate (value : α)
  | deallocate (ptr : Option Nat)
  | assign (ptr : Nat) (value : α)

/-- The pool and what its users hold: the objects they have got and not given back. -/
structure Use (α : Type) where
  pool : MemoryPool α
  heap : Nat → Option α := fun _ => none

/-- A call, with the pointer it returns. -/
def Use.step (use : Use α) : Call α → Option Nat × Use α
  | .allocate value =>
    let (ptr, pool) := use.pool.allocate bits value
    (ptr, { pool := pool
            heap := match ptr with
              | none => use.heap
              | some i => Function.update use.heap i (some value) })
  | .deallocate ptr =>
    (none, { pool := use.pool.deallocate ptr
             heap := match ptr with
              | none => use.heap
              | some i => Function.update use.heap i none })
  | .assign ptr value =>
    (none, { pool := use.pool.assign ptr value
             heap := Function.update use.heap ptr (some value) })

/-- Users give back and write to what they hold, or give back the null pointer. -/
def Use.Legal (use : Use α) : Call α → Prop
  | .allocate _ => True
  | .deallocate none => True
  | .deallocate (some i) => (use.heap i).isSome
  | .assign i _ => (use.heap i).isSome

instance (use : Use α) : (call : Call α) → Decidable (use.Legal call)
  | .allocate _ => .isTrue trivial
  | .deallocate none => .isTrue trivial
  | .deallocate (some i) => inferInstanceAs (Decidable ((use.heap i).isSome = true))
  | .assign i _ => inferInstanceAs (Decidable ((use.heap i).isSome = true))

def Use.after (use : Use α) (calls : List (Call α)) : Use α := Machine.after (Use.step bits) use calls

/-- Every call is legal where it is made. -/
def Use.LegalRun (use : Use α) : List (Call α) → Prop
  | [] => True
  | call :: rest => use.Legal call ∧ (use.step bits call).2.LegalRun rest

instance decidableLegalRun : (use : Use α) → (calls : List (Call α)) →
    Decidable (use.LegalRun bits calls)
  | _, [] => .isTrue trivial
  | use, call :: rest =>
    have := decidableLegalRun (use.step bits call).2 rest
    inferInstanceAs (Decidable (use.Legal call ∧ (use.step bits call).2.LegalRun bits rest))

/-- How many objects are held. -/
def Use.live (use : Use α) : Nat := (List.range use.pool.capacity).countP fun i => (use.heap i).isSome

/-! ### The free list -/

/-- These are the free slots, in the order of the free list. -/
structure Use.Threads (use : Use α) (free : List Nat) : Prop where
  path : Path (use.pool.next bits) use.pool.freeHead free none
  nodup : free.Nodup
  free_iff : ∀ i, i ∈ free ↔ i < use.pool.capacity ∧ use.heap i = none
  objects : ∀ i value, use.heap i = some value →
    i < use.pool.capacity ∧ use.pool.storage i = .object value
  count : use.pool.freeCount = free.length

section Steps

variable {bits} {use : Use α} {free : List Nat}

/-- Free slots and objects make up the storage. -/
theorem Use.Threads.free_add_live (threads : use.Threads bits free) :
    free.length + use.live = use.pool.capacity := by
  have perm : free.Perm ((List.range use.pool.capacity).filter fun i => (use.heap i).isNone) := by
    rw [List.perm_ext_iff_of_nodup threads.nodup (List.nodup_range.filter _)]
    intro i
    rw [threads.free_iff, List.mem_filter, List.mem_range, Option.isNone_iff_eq_none]
  have split := List.length_eq_countP_add_countP (fun i => (use.heap i).isSome)
    (l := List.range use.pool.capacity)
  rw [List.length_range] at split
  have others : (List.range use.pool.capacity).countP (fun i => ¬(use.heap i).isSome = true) =
      free.length := by
    rw [perm.length_eq, ← List.countP_eq_length_filter]
    congr 1
    funext i
    cases use.heap i <;> rfl
  rw [others] at split
  rw [Use.live]
  omega

theorem next_update_of_ne (pool : MemoryPool α) (slot : Slot α) {i j : Nat} (other : j ≠ i) :
    MemoryPool.next bits { pool with storage := Function.update pool.storage i slot } j =
      pool.next bits j := by
  simp only [MemoryPool.next, Function.update_of_ne other]

/-- The loop of the constructor pushes one slot after the other. -/
theorem foldl_thread (pool : MemoryPool α) (empty : pool.freeHead = none) (n : Nat) :
    Path (((List.range n).foldl thread pool).next bits) ((List.range n).foldl thread pool).freeHead
        (List.range n).reverse none ∧
      ((List.range n).foldl thread pool).capacity = pool.capacity ∧
      ((List.range n).foldl thread pool).freeCount = pool.freeCount := by
  induction n with
  | zero => exact ⟨empty, rfl, rfl⟩
  | succ n ih =>
    obtain ⟨path, capacity, count⟩ := ih
    rw [List.range_succ, List.foldl_append, List.reverse_append]
    refine ⟨⟨rfl, ?_⟩, capacity, count⟩
    have written : (thread ((List.range n).foldl thread pool) n).next bits n =
        ((List.range n).foldl thread pool).freeHead := by
      simp only [thread, MemoryPool.next, Function.update_self]
    rw [List.foldl_cons, List.foldl_nil, written]
    refine path.congr fun i member => next_update_of_ne _ _ ?_
    rw [List.mem_reverse, List.mem_range] at member
    omega

theorem new_threads (capacity : Nat) (memory : Nat → Slot α) :
    ({ pool := new capacity memory } : Use α).Threads bits (List.range capacity).reverse := by
  obtain ⟨path, same, count⟩ := @foldl_thread α bits
    { capacity := capacity, storage := memory, freeCount := capacity } rfl capacity
  refine ⟨path, (List.reverse_perm _).nodup_iff.mpr List.nodup_range, ?_, nofun, ?_⟩
  · intro i
    rw [List.mem_reverse, List.mem_range]
    exact (and_iff_left rfl).symm.trans (by rw [new, same])
  · rw [List.length_reverse, List.length_range]
    exact count

/-- One slot gets a new content and the free list is the given one: what has to be checked is the
way through the list and where the slot is. -/
theorem Use.Threads.rewire (threads : use.Threads bits free) {i : Nat}
    (inside : i < use.pool.capacity) {slot : Slot α} {held : Option α}
    (agrees : ∀ value, held = some value → slot = .object value) {head : Option Nat}
    {free' : List Nat} {count : Nat}
    (path : Path (MemoryPool.next bits
      { use.pool with storage := Function.update use.pool.storage i slot }) head free' none)
    (nodup : free'.Nodup) (others : ∀ j, j ≠ i → (j ∈ free' ↔ j ∈ free))
    (here : i ∈ free' ↔ held = none) (counted : count = free'.length) :
    ({ pool := { use.pool with
        storage := Function.update use.pool.storage i slot, freeHead := head, freeCount := count }
       heap := Function.update use.heap i held } : Use α).Threads bits free' := by
  refine ⟨path, nodup, ?_, ?_, counted⟩
  · intro j
    dsimp only
    by_cases same : j = i
    · rw [same, Function.update_self, here]
      exact (and_iff_right inside).symm
    · rw [Function.update_of_ne same, others j same, threads.free_iff]
  · intro j value holds
    dsimp only at holds ⊢
    by_cases same : j = i
    · rw [same, Function.update_self] at holds
      rw [same, Function.update_self]
      exact ⟨inside, agrees value holds⟩
    · rw [Function.update_of_ne same] at holds ⊢
      exact threads.objects j value holds

/-- A slot that is taken is the first of the free list. -/
theorem Use.Threads.allocate (threads : use.Threads bits free) (small : use.pool.capacity < 2 ^ 64)
    (value : α) :
    (free = [] ∧ (use.step bits (.allocate value)).1 = none ∧
      (use.step bits (.allocate value)).2.Threads bits []) ∨
    ∃ i rest, free = i :: rest ∧ (use.step bits (.allocate value)).1 = some i ∧
      (use.step bits (.allocate value)).2.Threads bits rest := by
  have total := threads.free_add_live
  have path := threads.path
  cases free with
  | nil =>
    have empty : use.pool.freeHead = none := path
    simp only [Use.step, MemoryPool.allocate, empty]
    exact .inl ⟨trivial, trivial, rfl, .nil, threads.free_iff, threads.objects, threads.count⟩
  | cons i rest =>
    obtain ⟨head, tail⟩ := path
    obtain ⟨fresh, nodup⟩ := List.nodup_cons.mp threads.nodup
    have inside := ((threads.free_iff i).mp List.mem_cons_self).1
    have counted : u64Sub use.pool.freeCount 1 = rest.length := by
      rw [List.length_cons] at total
      simp only [threads.count, List.length_cons, u64Sub, u64]
      omega
    simp only [Use.step, MemoryPool.allocate, head]
    refine .inr ⟨i, rest, rfl, rfl, threads.rewire inside ?_ ?_ nodup ?_ ?_ counted⟩
    · intro held holds
      rw [Option.some.inj holds]
    · exact tail.congr fun j member =>
        next_update_of_ne use.pool _ (ne_of_mem_of_not_mem member fresh)
    · intro j other
      rw [List.mem_cons, or_iff_right other]
    · exact iff_of_false fresh (by simp)

/-- What is held is not on the free list. -/
theorem Use.Threads.held (threads : use.Threads bits free) {i : Nat} (held : (use.heap i).isSome) :
    i < use.pool.capacity ∧ i ∉ free := by
  obtain ⟨value, holds⟩ := Option.isSome_iff_exists.mp held
  refine ⟨(threads.objects i value holds).1, ?_⟩
  rw [threads.free_iff, holds]
  rintro ⟨_, absent⟩
  cases absent

/-- A slot that is given back becomes the first of the free list. -/
theorem Use.Threads.deallocate (threads : use.Threads bits free)
    (small : use.pool.capacity < 2 ^ 64) {i : Nat} (held : (use.heap i).isSome) :
    (use.step bits (.deallocate (some i))).2.Threads bits (i :: free) := by
  have total := threads.free_add_live
  obtain ⟨inside, fresh⟩ := threads.held held
  have some_live : 0 < use.live := List.countP_pos_iff.mpr ⟨i, List.mem_range.mpr inside, held⟩
  have counted : u64 (use.pool.freeCount + 1) = (i :: free).length := by
    rw [List.length_cons, threads.count, u64_eq_self _ (by omega)]
  refine threads.rewire inside ?_ ⟨rfl, ?_⟩ (List.nodup_cons.mpr ⟨fresh, threads.nodup⟩) ?_ ?_ counted
  · intro value holds
    cases holds
  · have written : MemoryPool.next bits { use.pool with
        storage := Function.update use.pool.storage i (.link use.pool.freeHead) } i =
          use.pool.freeHead := by
      simp only [MemoryPool.next, Function.update_self]
    rw [written]
    exact threads.path.congr fun j member =>
      next_update_of_ne use.pool _ (ne_of_mem_of_not_mem member fresh)
  · intro j other
    rw [List.mem_cons, or_iff_right other]
  · exact iff_of_true List.mem_cons_self rfl

/-- A write to an object stays out of the free list. -/
theorem Use.Threads.assign (threads : use.Threads bits free) {i : Nat} (held : (use.heap i).isSome)
    (value : α) : (use.step bits (.assign i value)).2.Threads bits free := by
  obtain ⟨inside, taken⟩ := threads.held held
  refine threads.rewire inside ?_ ?_ threads.nodup (fun _ _ => Iff.rfl) ?_ threads.count
  · intro now holds
    rw [Option.some.inj holds]
  · exact threads.path.congr fun j member =>
      next_update_of_ne use.pool _ (ne_of_mem_of_not_mem member taken)
  · exact iff_of_false taken nofun

theorem step_capacity (call : Call α) :
    (use.step bits call).2.pool.capacity = use.pool.capacity := by
  cases call with
  | allocate value =>
    simp only [Use.step, MemoryPool.allocate]
    cases use.pool.freeHead <;> rfl
  | deallocate ptr => cases ptr <;> rfl
  | assign => rfl

theorem step_threads (small : use.pool.capacity < 2 ^ 64) (threads : use.Threads bits free)
    (call : Call α) (legal : use.Legal call) :
    ∃ free', (use.step bits call).2.Threads bits free' := by
  cases call with
  | allocate value =>
    rcases threads.allocate small value with ⟨_, _, next⟩ | ⟨_, rest, _, _, next⟩
    · exact ⟨[], next⟩
    · exact ⟨rest, next⟩
  | deallocate ptr =>
    cases ptr with
    | none => exact ⟨free, threads⟩
    | some i => exact ⟨i :: free, threads.deallocate small legal⟩
  | assign i value => exact ⟨free, threads.assign legal value⟩

theorem after_threads (small : use.pool.capacity < 2 ^ 64) (threads : use.Threads bits free)
    (calls : List (Call α)) (legal : use.LegalRun bits calls) :
    (use.after bits calls).pool.capacity = use.pool.capacity ∧
      ∃ free', (use.after bits calls).Threads bits free' := by
  induction calls generalizing use free with
  | nil => exact ⟨rfl, free, threads⟩
  | cons call rest ih =>
    obtain ⟨now, later⟩ := legal
    have capacity := @step_capacity α bits use call
    obtain ⟨free', next⟩ := step_threads small threads call now
    obtain ⟨same, last⟩ := ih (capacity ▸ small) next later
    exact ⟨same.trans capacity, last⟩

theorem run_threads (capacity : Nat) (small : capacity < 2 ^ 64) (memory : Nat → Slot α)
    (calls : List (Call α)) (legal : ({ pool := new capacity memory } : Use α).LegalRun bits calls) :
    (({ pool := new capacity memory } : Use α).after bits calls).pool.capacity = capacity ∧
      ∃ free, (({ pool := new capacity memory } : Use α).after bits calls).Threads bits free := by
  have fresh : (new capacity memory).capacity = capacity :=
    (@foldl_thread α bits { capacity := capacity, storage := memory, freeCount := capacity } rfl
      capacity).2.1
  obtain ⟨same, threads⟩ :=
    after_threads (fresh.symm ▸ small) (new_threads capacity memory) calls legal
  exact ⟨same.trans fresh, threads⟩

end Steps

/-- Along every run in which users only give back and write to what they hold, the pool is an
allocator: it hands out a slot of its storage that nobody holds, or the null pointer exactly
when every slot is held, whatever the users write; their objects keep what was last written to
them, and the counters show how many are held. -/
theorem pool_refines_heap (capacity : Nat) (small : capacity < 2 ^ 64) (memory : Nat → Slot α)
    (calls : List (Call α)) (legal : ({ pool := new capacity memory } : Use α).LegalRun bits calls) :
    let use := ({ pool := new capacity memory } : Use α).after bits calls
    (∀ value i, (use.pool.allocate bits value).1 = some i → i < capacity ∧ use.heap i = none) ∧
      (∀ value, (use.pool.allocate bits value).1 = none ↔ use.live = capacity) ∧
      (∀ i value, use.heap i = some value → i < capacity ∧ use.pool.storage i = .object value) ∧
      use.pool.available = capacity - use.live ∧ use.pool.inUse = use.live := by
  obtain ⟨same, free, threads⟩ := run_threads capacity small memory calls legal
  generalize ({ pool := new capacity memory } : Use α).after bits calls = use at same threads
  have total := threads.free_add_live
  rw [same] at total
  have answers (value : α) := threads.allocate (same.symm ▸ small) value
  refine ⟨?_, ?_, ?_, ?_, ?_⟩
  · intro value i given
    rcases answers value with ⟨_, exhausted, _⟩ | ⟨j, rest, first, taken, _⟩
    · exact absurd (exhausted.symm.trans given) nofun
    · obtain rfl := Option.some.inj (taken.symm.trans given)
      have inside := (threads.free_iff j).mp (first ▸ List.mem_cons_self)
      exact ⟨same ▸ inside.1, inside.2⟩
  · intro value
    rcases answers value with ⟨empty, exhausted, _⟩ | ⟨j, rest, first, taken, _⟩
    · rw [empty, List.length_nil] at total
      exact iff_of_true exhausted (by omega)
    · rw [first, List.length_cons] at total
      exact iff_of_false (fun given => nomatch taken.symm.trans given) (by omega)
  · intro i value holds
    exact same ▸ threads.objects i value holds
  · rw [available, threads.count]
    omega
  · rw [inUse, threads.count, same]
    simp only [u64Sub, u64]
    omega

/-- A pool of two slots: both are taken, the first object is changed, and its slot given back
and taken again. -/
theorem two_slots_reused :
    let calls : List (Call Nat) :=
      [.allocate 10, .allocate 11, .assign 1 12, .deallocate (some 1), .allocate 13]
    let use := ({ pool := new 2 fun _ => .link none } : Use Nat).after (fun _ => none) calls
    use.heap 1 = some 13 ∧ (use.pool.allocate (fun _ => none) 14).1 = none ∧ use.live = 2 := by
  have result := pool_refines_heap (fun _ => none) 2 (by decide) (fun _ => .link none)
    [.allocate 10, .allocate 11, .assign 1 12, .deallocate (some 1), .allocate 13] (by decide)
  exact ⟨by decide, (result.2.1 14).mpr (by decide), by decide⟩

/-! ### Giving back what is not held -/

section DoubleFree

variable {bits} {use : Use α} {nodes : List Nat} {last : Option Nat}

theorem step_allocate {node : Nat} (head : use.pool.freeHead = some node) (value : α) :
    use.step bits (.allocate value) =
      (some node, { pool := { use.pool with
                      storage := Function.update use.pool.storage node (.object value)
                      freeHead := use.pool.next bits node
                      freeCount := u64Sub use.pool.freeCount 1 }
                    heap := Function.update use.heap node (some value) }) := by
  simp only [Use.step, MemoryPool.allocate, head]

/-- Allocations follow the links as long as these lead to different slots. -/
theorem answers_along (path : Path (use.pool.next bits) use.pool.freeHead nodes last)
    (nodup : nodes.Nodup) (values : List α) (length : values.length = nodes.length) :
    Machine.answers (Use.step bits) use (values.map .allocate) = nodes.map some ∧
      (use.after bits (values.map .allocate)).pool.freeHead = last := by
  induction nodes generalizing use values with
  | nil =>
    rw [List.length_eq_zero_iff.mp length]
    exact ⟨rfl, path⟩
  | cons node rest ih =>
    obtain ⟨value, others, rfl⟩ := List.exists_cons_of_length_eq_add_one length
    obtain ⟨head, tail⟩ := path
    obtain ⟨fresh, nodup⟩ := List.nodup_cons.mp nodup
    have next : Path ((use.step bits (.allocate value)).2.pool.next bits)
        (use.step bits (.allocate value)).2.pool.freeHead rest last := by
      rw [step_allocate head]
      exact tail.congr fun j member =>
        next_update_of_ne use.pool _ (ne_of_mem_of_not_mem member fresh)
    obtain ⟨answers, end_⟩ := ih next nodup others (Nat.succ.inj length)
    refine ⟨?_, end_⟩
    rw [List.map_cons, Machine.answers, answers, step_allocate head]
    rfl

end DoubleFree

/-- A slot that is given back twice is handed out twice: after any legal run, if a slot that
nobody holds is given back, then the next allocation returns it and a later one, at most as many
calls on as there are slots, returns it again, with nothing given back in between. -/
theorem double_free_shares (capacity : Nat) (small : capacity < 2 ^ 64) (memory : Nat → Slot α)
    (calls : List (Call α)) (legal : ({ pool := new capacity memory } : Use α).LegalRun bits calls)
    (i : Nat) (inside : i < capacity)
    (unheld : (({ pool := new capacity memory } : Use α).after bits calls).heap i = none) :
    let use := ({ pool := new capacity memory } : Use α).after bits calls
    ∃ n < capacity, ∀ values : List α, values.length = n + 2 →
      let answers := Machine.answers (Use.step bits) (use.step bits (.deallocate (some i))).2
        (values.map .allocate)
      answers[0]? = some (some i) ∧ answers[n + 1]? = some (some i) := by
  obtain ⟨same, free, threads⟩ := run_threads capacity small memory calls legal
  generalize ({ pool := new capacity memory } : Use α).after bits calls = use at same threads unheld
  have total := threads.free_add_live
  obtain ⟨before, behind, split⟩ := List.append_of_mem ((threads.free_iff i).mpr ⟨same ▸ inside, unheld⟩)
  subst split
  obtain ⟨between, front, back⟩ := (path_append_iff _ _).mp threads.path
  obtain rfl : between = some i := back.1
  have apart : i ∉ before := by
    have nodup := threads.nodup
    rw [List.nodup_append] at nodup
    exact fun member => nodup.2.2 i member i List.mem_cons_self rfl
  have nodup : (i :: before).Nodup :=
    List.nodup_cons.mpr ⟨apart, (List.nodup_append.mp threads.nodup).1⟩
  -- the slot now comes before the slots that led to it, so the links form a circle
  have circle : Path ((use.step bits (.deallocate (some i))).2.pool.next bits)
      (use.step bits (.deallocate (some i))).2.pool.freeHead (i :: before) (some i) := by
    have written : (use.step bits (.deallocate (some i))).2.pool.next bits i = use.pool.freeHead := by
      simp only [Use.step, MemoryPool.deallocate, MemoryPool.next, Function.update_self]
    refine ⟨rfl, ?_⟩
    rw [written]
    exact front.congr fun j member =>
      next_update_of_ne use.pool _ (ne_of_mem_of_not_mem member apart)
  refine ⟨before.length, ?_, ?_⟩
  · rw [List.length_append, List.length_cons] at total
    omega
  · intro values length
    obtain ⟨round, again, cut, count⟩ : ∃ round again : List α, values = round ++ again ∧
        round.length = (i :: before).length :=
      ⟨values.take (before.length + 1), values.drop (before.length + 1),
        (List.take_append_drop _ _).symm, by rw [List.length_take, List.length_cons]; omega⟩
    obtain ⟨answers, head⟩ := answers_along circle nodup round count
    have one : again.length = 1 := by
      rw [cut, List.length_append, count, List.length_cons] at length
      omega
    obtain ⟨value, rfl⟩ := List.length_eq_one_iff.mp one
    have twice : (Use.step bits ((use.step bits (.deallocate (some i))).2.after bits
        (round.map .allocate)) (.allocate value)).1 = some i := by
      rw [step_allocate head]
    rw [cut, List.map_append, Machine.answers_append, answers]
    refine ⟨rfl, ?_⟩
    rw [List.getElem?_append_right (by simp)]
    simp only [List.length_map, List.length_cons, Nat.sub_self, List.map_cons, List.map_nil,
      Machine.answers, List.getElem?_cons_zero, Option.some.injEq]
    exact twice

/-- In a pool of two slots the slot 1 is given back once too often. -/
theorem slot_handed_out_twice :
    ∃ n < 2, ∀ values : List Nat, values.length = n + 2 →
      (Machine.answers (Use.step fun _ => none)
        ((({ pool := new 2 fun _ => .link none } : Use Nat).after (fun _ => none)
          [.allocate 10, .deallocate (some 1)]).step (fun _ => none) (.deallocate (some 1))).2
        (values.map .allocate))[n + 1]? = some (some 1) := by
  obtain ⟨n, few, shared⟩ := double_free_shares (fun _ => none) 2 (by decide) (fun _ => .link none)
    [.allocate 10, .deallocate (some 1)] (by decide) 1 (by decide) (by decide)
  exact ⟨n, few, fun values length => (shared values length).2⟩

end MemoryPool

end NseHft
