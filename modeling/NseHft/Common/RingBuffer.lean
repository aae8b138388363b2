import Mathlib.Data.Nat.ModEq
import NseHft.Lib.BoundedFifo
import NseHft.Lib.FixedWidth

/-!
# SPSC ring buffer

One producer and one consumer share the indices and the slots. Each access to shared memory
is a step of its own, so between the accesses of one side the other may take any number of
steps.
-/
namespace NseHft

open FixedWidth

/-- The template argument: a power of two, at least 2, that is a machine size. -/
structure Capacity where
  log : Nat
  atLeastTwo : 1 ≤ log
  fits : log < 64

def Capacity.slots (c : Capacity) : Nat := 2 ^ c.log

def Capacity.kMask (c : Capacity) : Nat := c.slots - 1

namespace RingBuffer

/-- How far a call of `push` has come, with its local variables. -/
inductive PushState (α : Type)
  | idle
  | loadedTail (value : α) (tail : Nat)
  | foundRoom (value : α) (tail : Nat)
  | wroteSlot (value : α) (tail : Nat)

/-- How far a call of `pop` has come, with its local variables. -/
inductive PopState (α : Type)
  | idle
  | loadedHead (head : Nat)
  | foundItem (head : Nat)
  | readSlot (head : Nat) (out : α)

end RingBuffer

open RingBuffer

/-- The shared variables, both threads, and what has been pushed and popped so far. -/
structure RingBuffer (α : Type) where
  head : Nat := 0
  tail : Nat := 0
  buffer : Nat → α
  producer : PushState α := .idle
  consumer : PopState α := .idle
  pushed : List α := []
  popped : List α := []

namespace RingBuffer

variable {α : Type} (c : Capacity)

/-- The next access of the producer; `value` is the argument if a call starts. The result is
there once the call has returned. -/
def pushStep (value : α) (s : RingBuffer α) : Option Bool × RingBuffer α :=
  match s.producer with
  | .idle => (none, { s with producer := .loadedTail value s.tail })
  | .loadedTail value tail =>
    let next := u64 (tail + 1)
    if u64Sub next s.head > c.slots then (some false, { s with producer := .idle })
    else (none, { s with producer := .foundRoom value tail })
  | .foundRoom value tail =>
    (none, { s with
      buffer := Function.update s.buffer (tail &&& c.kMask) value
      producer := .wroteSlot value tail })
  | .wroteSlot value tail =>
    (some true, { s with
      tail := u64 (tail + 1), producer := .idle, pushed := s.pushed ++ [value] })

/-- The next access of the consumer. A call that has returned gives the element, if any. -/
def popStep (s : RingBuffer α) : Option (Option α) × RingBuffer α :=
  match s.consumer with
  | .idle => (none, { s with consumer := .loadedHead s.head })
  | .loadedHead head =>
    if head = s.tail then (some none, { s with consumer := .idle })
    else (none, { s with consumer := .foundItem head })
  | .foundItem head => (none, { s with consumer := .readSlot head (s.buffer (head &&& c.kMask)) })
  | .readSlot head out =>
    (some (some out), { s with
      head := u64 (head + 1), consumer := .idle, popped := s.popped ++ [out] })

/-- Any interleaving of the two threads, from an empty buffer with arbitrary memory. -/
inductive Reachable (c : Capacity) : RingBuffer α → Prop
  | empty (memory : Nat → α) : Reachable c { buffer := memory }
  | push {s : RingBuffer α} (value : α) : Reachable c s → Reachable c (pushStep c value s).2
  | pop {s : RingBuffer α} : Reachable c s → Reachable c (popStep c s).2

/-! ### Invariant -/

section Invariant

variable {c} {s : RingBuffer α} {contents : List α}

/-- What the producer may rely on. Its copy of the tail is current, and the room it has seen
cannot go away. -/
def ProducerOk (c : Capacity) (s : RingBuffer α) (contents : List α) : Prop :=
  match s.producer with
  | .idle => True
  | .loadedTail _ tail => tail = s.tail
  | .foundRoom _ tail => tail = s.tail ∧ contents.length < c.slots
  | .wroteSlot value tail =>
    tail = s.tail ∧ contents.length < c.slots ∧ s.buffer (s.pushed.length % c.slots) = value

/-- What the consumer may rely on. -/
def ConsumerOk (s : RingBuffer α) (contents : List α) : Prop :=
  match s.consumer with
  | .idle => True
  | .loadedHead head => head = s.head
  | .foundItem head => head = s.head ∧ contents ≠ []
  | .readSlot head out => head = s.head ∧ contents.head? = some out

/-- The buffer represents a queue with these contents. -/
structure Represents (c : Capacity) (s : RingBuffer α) (contents : List α) : Prop where
  run : BoundedFifo.Run c.slots contents s.pushed s.popped
  tail : s.tail = u64 s.pushed.length
  head : s.head = u64 s.popped.length
  unread : ∀ i (inside : i < contents.length),
    s.buffer ((s.popped.length + i) % c.slots) = contents[i]
  producer : ProducerOk c s contents
  consumer : ConsumerOk s contents

theorem slots_le (c : Capacity) : c.slots ≤ 2 ^ 63 :=
  Nat.pow_le_pow_right (by decide) (Nat.le_of_lt_succ c.fits)

theorem mask_eq (c : Capacity) (n : Nat) : u64 n &&& c.kMask = n % c.slots :=
  u64_mask n c.log (Nat.le_of_lt c.fits)

/-- Elements that are less than a lap apart are in different slots. -/
theorem mod_ne_of_close {a i j slots : Nat} (before : i < j) (close : j < slots) :
    (a + i) % slots ≠ (a + j) % slots := by
  intro shared
  have modEq : a + i ≡ a + j [MOD slots] := shared
  have lap := (Nat.modEq_iff_dvd' (by omega)).mp modEq
  have := Nat.le_of_dvd (by omega) lap
  omega

theorem Represents.pushed_length (rep : Represents c s contents) :
    s.pushed.length = s.popped.length + contents.length := by
  rw [rep.run.history, List.length_append]

/-- The producer's test sees the number of unread elements, however the counters wrapped. -/
theorem Represents.room_iff (rep : Represents c s contents) :
    u64Sub (u64 (s.tail + 1)) s.head > c.slots ↔ contents.length = c.slots := by
  have bounded := rep.run.bounded
  have length := rep.pushed_length
  have small := slots_le c
  rw [rep.tail, rep.head, u64_succ, u64Sub_eq _ _ (by omega) (by omega)]
  omega

theorem Represents.empty_iff (rep : Represents c s contents) :
    s.head = s.tail ↔ contents = [] := by
  have bounded := rep.run.bounded
  have length := rep.pushed_length
  have small := slots_le c
  rw [rep.tail, rep.head, u64_eq_iff _ _ (by omega) (by omega), ← List.length_eq_zero_iff]
  omega

theorem empty_represents (c : Capacity) (memory : Nat → α) :
    Represents c { buffer := memory } [] :=
  ⟨.empty, rfl, rfl, by simp, trivial, trivial⟩

/-- What the consumer has seen stays true when an element is added at the end. -/
private theorem ConsumerOk.enqueue {s' : RingBuffer α} (ok : ConsumerOk s contents)
    (phase : s'.consumer = s.consumer) (head : s'.head = s.head) (value : α) :
    ConsumerOk s' (contents ++ [value]) := by
  unfold ConsumerOk at ok ⊢
  rw [phase, head]
  cases stage : s.consumer with
  | idle => trivial
  | loadedHead position =>
    rw [stage] at ok
    exact ok
  | foundItem position =>
    rw [stage] at ok
    exact ⟨ok.1, by simp⟩
  | readSlot position out =>
    rw [stage] at ok
    exact ⟨ok.1, by rw [List.head?_append, ok.2]; rfl⟩

/-- The room that the producer has seen stays when the first element goes. -/
private theorem ProducerOk.dequeue {s' : RingBuffer α} {first : α}
    (ok : ProducerOk c s (first :: contents)) (phase : s'.producer = s.producer)
    (tail : s'.tail = s.tail) (buffer : s'.buffer = s.buffer) (pushed : s'.pushed = s.pushed) :
    ProducerOk c s' contents := by
  unfold ProducerOk at ok ⊢
  rw [List.length_cons] at ok
  rw [phase, tail, buffer, pushed]
  cases stage : s.producer with
  | idle => trivial
  | loadedTail value position =>
    rw [stage] at ok
    exact ok
  | foundRoom value position =>
    rw [stage] at ok
    exact ⟨ok.1, by omega⟩
  | wroteSlot value position =>
    rw [stage] at ok
    exact ⟨ok.1, by omega, ok.2.2⟩

theorem pushStep_represents (rep : Represents c s contents) (value : α) :
    ∃ contents', Represents c (pushStep c value s).2 contents' := by
  have producer := rep.producer
  unfold ProducerOk at producer
  unfold pushStep
  split
  next => exact ⟨contents, rep.run, rep.tail, rep.head, rep.unread, rfl, rep.consumer⟩
  next value tail phase =>
    rw [phase] at producer
    dsimp only
    split
    · -- the call gives up and is idle again
      exact ⟨contents, rep.run, rep.tail, rep.head, rep.unread, trivial, rep.consumer⟩
    next room =>
      have bounded := rep.run.bounded
      have notFull : contents.length ≠ c.slots := by
        rw [producer, rep.room_iff] at room
        exact room
      exact ⟨contents, rep.run, rep.tail, rep.head, rep.unread, ⟨producer, by omega⟩,
        rep.consumer⟩
  next value tail phase =>
    rw [phase] at producer
    obtain ⟨current, room⟩ := producer
    have slot : tail &&& c.kMask = s.pushed.length % c.slots := by
      rw [current, rep.tail, mask_eq]
    refine ⟨contents, rep.run, rep.tail, rep.head, ?_, ⟨current, room, ?_⟩, rep.consumer⟩
    · -- the slot that is written holds no unread element
      intro i inside
      have free : (s.popped.length + i) % c.slots ≠ tail &&& c.kMask := by
        rw [slot, rep.pushed_length]
        exact mod_ne_of_close inside room
      exact (Function.update_of_ne free _ _).trans (rep.unread i inside)
    · rw [← slot]
      exact Function.update_self _ _ _
  next value tail phase =>
    rw [phase] at producer
    obtain ⟨current, room, written⟩ := producer
    -- the store to the tail publishes the element
    refine ⟨contents ++ [value], .enqueue value rep.run room, ?_, rep.head, ?_, trivial,
      rep.consumer.enqueue rfl rfl value⟩
    · simp only [current, rep.tail, u64_succ, List.length_append, List.length_singleton]
    · intro i inside
      rw [List.length_append, List.length_singleton] at inside
      -- the element written before the store is the last one now
      by_cases old : i < contents.length
      · rw [List.getElem_append_left old]
        exact rep.unread i old
      · have last : i = contents.length := by omega
        subst last
        rw [List.getElem_concat_length rfl, ← rep.pushed_length]
        exact written

theorem popStep_represents (rep : Represents c s contents) :
    ∃ contents', Represents c (popStep c s).2 contents' := by
  have consumer := rep.consumer
  unfold ConsumerOk at consumer
  unfold popStep
  split
  next => exact ⟨contents, rep.run, rep.tail, rep.head, rep.unread, rep.producer, rfl⟩
  next head phase =>
    rw [phase] at consumer
    split
    · exact ⟨contents, rep.run, rep.tail, rep.head, rep.unread, rep.producer, trivial⟩
    next differs =>
      have some : contents ≠ [] := by
        rw [consumer, rep.empty_iff] at differs
        exact differs
      exact ⟨contents, rep.run, rep.tail, rep.head, rep.unread, rep.producer, consumer, some⟩
  next head phase =>
    rw [phase] at consumer
    obtain ⟨current, some⟩ := consumer
    refine ⟨contents, rep.run, rep.tail, rep.head, rep.unread, rep.producer, current, ?_⟩
    -- the slot at the head holds the oldest unread element
    have first := rep.unread 0 (List.length_pos_iff.mpr some)
    rw [current, rep.head, mask_eq, List.head?_eq_getElem?, List.getElem?_eq_getElem
      (List.length_pos_iff.mpr some), ← first, Nat.add_zero]
  next head out phase =>
    rw [phase] at consumer
    obtain ⟨current, front⟩ := consumer
    obtain ⟨rest, rfl⟩ : ∃ rest, contents = out :: rest := by
      cases contents with
      | nil => cases front
      | cons first rest =>
        cases front
        exact ⟨rest, rfl⟩
    -- the store to the head gives the slot back
    refine ⟨rest, .dequeue rep.run, rep.tail, ?_, ?_, rep.producer.dequeue rfl rfl rfl rfl,
      trivial⟩
    · simp only [current, rep.head, u64_succ, List.length_append, List.length_singleton]
    · intro i inside
      have shifted := rep.unread (i + 1) (by rw [List.length_cons]; omega)
      rw [List.getElem_cons_succ] at shifted
      rw [← shifted, List.length_append, List.length_singleton, Nat.add_right_comm,
        Nat.add_assoc]

theorem Reachable.represents (reachable : Reachable c s) : ∃ contents, Represents c s contents := by
  induction reachable with
  | empty memory => exact ⟨[], empty_represents c memory⟩
  | push value _ ih =>
    obtain ⟨_, rep⟩ := ih
    exact pushStep_represents rep value
  | pop _ ih =>
    obtain ⟨_, rep⟩ := ih
    exact popStep_represents rep

/-- A push fails in the step that reads the head, of a full buffer. -/
theorem Represents.full_of_push_fails (rep : Represents c s contents) {value : α}
    (failed : (pushStep c value s).1 = some false) : contents.length = c.slots := by
  have producer := rep.producer
  unfold ProducerOk at producer
  unfold pushStep at failed
  split at failed
  next => cases failed
  next value tail phase =>
    rw [phase] at producer
    dsimp only at failed
    split at failed
    next full =>
      have bounded := rep.run.bounded
      rw [producer, rep.room_iff] at full
      omega
    next => cases failed
  next => cases failed
  next => cases failed

/-- A pop fails in the step that reads the tail, of an empty buffer. -/
theorem Represents.empty_of_pop_fails (rep : Represents c s contents)
    (failed : (popStep c s).1 = some none) : contents = [] := by
  have consumer := rep.consumer
  unfold ConsumerOk at consumer
  unfold popStep at failed
  split at failed
  next => cases failed
  next head phase =>
    rw [phase] at consumer
    split at failed
    next same =>
      rw [consumer, rep.empty_iff] at same
      exact same
    next => cases failed
  next => cases failed
  next => cases failed

end Invariant

/-- In every interleaving the ring buffer is a bounded FIFO: what was popped is a prefix of
what was pushed, at most the capacity is in flight, a push fails only when it reads the head
of a full buffer and a pop only when it reads the tail of an empty one. -/
theorem ring_buffer_refines_fifo (c : Capacity) (s : RingBuffer α) (reachable : Reachable c s) :
    (∃ contents, BoundedFifo.Run c.slots contents s.pushed s.popped) ∧
      s.popped <+: s.pushed ∧ s.pushed.length - s.popped.length ≤ c.slots ∧
      (∀ value, (pushStep c value s).1 = some false →
        s.pushed.length - s.popped.length = c.slots) ∧
      ((popStep c s).1 = some none → s.pushed.length - s.popped.length = 0) := by
  obtain ⟨contents, rep⟩ := reachable.represents
  have history := rep.run.history
  have bounded := rep.run.bounded
  have length := rep.pushed_length
  refine ⟨⟨contents, rep.run⟩, ⟨contents, history.symm⟩, by omega, ?_, ?_⟩
  · intro value failed
    have full := rep.full_of_push_fails failed
    omega
  · intro failed
    have nothing := rep.empty_of_pop_fails failed
    rw [length, nothing, List.length_nil]
    omega

private def twoSlots : Capacity := ⟨1, by decide, by decide⟩

/-- A pop that starts while the push is under way waits for the stored tail. -/
theorem ring_buffer_interleaved :
    ∃ s : RingBuffer Nat, Reachable twoSlots s ∧ s.pushed = [7] ∧ s.popped = [7] ∧
      s.popped <+: s.pushed := by
  have pushing : Reachable twoSlots _ := .pop (.push 7 (.push 7 (.push 7 (.empty fun _ => 0))))
  have both := Reachable.pop (.pop (.pop (.push 7 pushing)))
  exact ⟨_, both, rfl, rfl, (ring_buffer_refines_fifo twoSlots _ both).2.1⟩

/-! ### Looking at the size -/

/-- `size()` loads both counters, here in the states `atTail` and `atHead`; the language leaves
open which load comes first. -/
def size (atTail atHead : RingBuffer α) : Nat := u64Sub atTail.tail atHead.head

def isEmpty (atTail atHead : RingBuffer α) : Bool := size atTail atHead == 0

/-- What may happen while the producer's thread is in a call of `size()`. -/
inductive ConsumerRuns (c : Capacity) (s : RingBuffer α) : RingBuffer α → Prop
  | none : ConsumerRuns c s s
  | pop {s' : RingBuffer α} : ConsumerRuns c s s' → ConsumerRuns c s (popStep c s').2

/-- What may happen while the consumer's thread is in a call of `size()`. -/
inductive ProducerRuns (c : Capacity) (s : RingBuffer α) : RingBuffer α → Prop
  | none : ProducerRuns c s s
  | push {s' : RingBuffer α} (value : α) :
      ProducerRuns c s s' → ProducerRuns c s (pushStep c value s').2

section Size

variable {c} {s s' : RingBuffer α}

theorem popStep_tail : (popStep c s).2.tail = s.tail := by
  unfold popStep
  split
  · rfl
  · split <;> rfl
  · rfl
  · rfl

theorem pushStep_head (value : α) : (pushStep c value s).2.head = s.head := by
  unfold pushStep
  split
  · rfl
  · dsimp only
    split <;> rfl
  · rfl
  · rfl

theorem ConsumerRuns.kept (runs : ConsumerRuns c s s') (reachable : Reachable c s) :
    Reachable c s' ∧ s'.tail = s.tail := by
  induction runs with
  | none => exact ⟨reachable, rfl⟩
  | pop _ ih => exact ⟨.pop ih.1, popStep_tail.trans ih.2⟩

theorem ProducerRuns.kept (runs : ProducerRuns c s s') (reachable : Reachable c s) :
    Reachable c s' ∧ s'.head = s.head := by
  induction runs with
  | none => exact ⟨reachable, rfl⟩
  | push value _ ih => exact ⟨.push value ih.1, (pushStep_head value).trans ih.2⟩

/-- Both counters of one state give the number of elements in it. -/
theorem Reachable.size_eq (reachable : Reachable c s) :
    size s s = s.pushed.length - s.popped.length ∧ size s s ≤ c.slots := by
  obtain ⟨contents, rep⟩ := reachable.represents
  have length := rep.pushed_length
  have bounded := rep.run.bounded
  have small := slots_le c
  rw [size, rep.tail, rep.head, u64Sub_eq _ _ (by omega) (by omega)]
  omega

end Size

/-- From either side `size()` returns the exact number of elements at one instant of the call,
whatever the other thread does between the two loads and whichever load comes first; so it never
exceeds the capacity, and `empty()` is true only if the buffer was empty at that instant. -/
theorem size_linearizable (c : Capacity) (s s' : RingBuffer α) (reachable : Reachable c s)
    (between : ConsumerRuns c s s' ∨ ProducerRuns c s s') :
    ∃ first second : RingBuffer α, (first = s ∨ first = s') ∧ (second = s ∨ second = s') ∧
      size s s' = first.pushed.length - first.popped.length ∧
      size s' s = second.pushed.length - second.popped.length ∧
      size s s' ≤ c.slots ∧ size s' s ≤ c.slots ∧
      (isEmpty s s' = true ↔ first.popped = first.pushed) ∧
      (isEmpty s' s = true ↔ second.popped = second.pushed) := by
  have empty {x : RingBuffer α} (reached : Reachable c x) :
      x.pushed.length - x.popped.length = 0 ↔ x.popped = x.pushed := by
    obtain ⟨contents, rep⟩ := reached.represents
    have length := rep.pushed_length
    constructor
    · intro zero
      have nothing : contents = [] := List.length_eq_zero_iff.mp (by omega)
      rw [rep.run.history, nothing, List.append_nil]
    · intro same
      rw [same, Nat.sub_self]
  obtain ⟨here, bound⟩ := reachable.size_eq
  rcases between with runs | runs
  · -- the producer's own counter stands still, so the call sees the state of the other load
    obtain ⟨reached, tail⟩ := runs.kept reachable
    obtain ⟨there, bound'⟩ := reached.size_eq
    have late : size s s' = size s' s' := by rw [size, size, tail]
    have early : size s' s = size s s := by rw [size, size, tail]
    refine ⟨s', s, .inr rfl, .inl rfl, late.trans there, early.trans here, late ▸ bound',
      early ▸ bound, ?_, ?_⟩
    · rw [isEmpty, beq_iff_eq, late, there, empty reached]
    · rw [isEmpty, beq_iff_eq, early, here, empty reachable]
  · obtain ⟨reached, head⟩ := runs.kept reachable
    obtain ⟨there, bound'⟩ := reached.size_eq
    have early : size s s' = size s s := by rw [size, size, head]
    have late : size s' s = size s' s' := by rw [size, size, head]
    refine ⟨s, s', .inl rfl, .inr rfl, early.trans here, late.trans there, early ▸ bound,
      late ▸ bound', ?_, ?_⟩
    · rw [isEmpty, beq_iff_eq, early, here, empty reachable]
    · rw [isEmpty, beq_iff_eq, late, there, empty reached]

/-- The consumer takes the only element between the producer's two loads. -/
theorem size_while_popping :
    ∃ s s' : RingBuffer Nat, Reachable twoSlots s ∧ s.pushed = [7] ∧ s'.popped = [7] ∧
      size s s' ≤ twoSlots.slots := by
  have pushed : Reachable twoSlots _ :=
    .push 7 (.push 7 (.push 7 (.push 7 (.empty fun _ => 0))))
  obtain ⟨_, _, _, _, _, _, bound, _⟩ :=
    size_linearizable twoSlots _ _ pushed (.inl (.pop (.pop (.pop (.pop .none)))))
  exact ⟨_, _, pushed, rfl, rfl, bound⟩

end RingBuffer

end NseHft
