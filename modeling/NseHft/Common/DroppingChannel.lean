import NseHft.Common.RingBuffer

/-!
# A producer that drops

The ring buffer as the market-data gateway and the logger use it: the producer pushes its
values one after the other, and a value that finds no room is counted and given up. Values
that are handed over and not settled yet form the backlog; the first of them may be under way.
-/
namespace NseHft

open FixedWidth

/-- `1U << 16`, the capacity of the event queue and of the logger's ring. -/
def Capacity.ring64K : Capacity := ⟨16, by decide, by decide⟩

namespace RingBuffer

variable {α : Type} {c : Capacity} {s : RingBuffer α} {value : α}

/-- A call of `push` that is under way has this argument. -/
def Pushing (s : RingBuffer α) (value : α) : Prop :=
  match s.producer with
  | .idle => True
  | .loadedTail v _ | .foundRoom v _ | .wroteSlot v _ => v = value

/-- What an access of the producer does to the elements pushed: a call that returns true has
added its argument, and no other access adds any. -/
theorem pushStep_effect (pushing : s.Pushing value) :
    ((pushStep c value s).1 = none ∧ (pushStep c value s).2.Pushing value ∧
      (pushStep c value s).2.pushed = s.pushed) ∨
    ((pushStep c value s).1 = some true ∧ (pushStep c value s).2.producer = .idle ∧
      (pushStep c value s).2.pushed = s.pushed ++ [value]) ∨
    ((pushStep c value s).1 = some false ∧ (pushStep c value s).2.producer = .idle ∧
      (pushStep c value s).2.pushed = s.pushed) := by
  unfold Pushing at pushing
  unfold pushStep
  cases phase : s.producer with
  | idle => exact .inl ⟨rfl, rfl, rfl⟩
  | loadedTail v tail =>
    rw [phase] at pushing
    dsimp only
    split
    · exact .inr (.inr ⟨rfl, rfl, rfl⟩)
    · exact .inl ⟨rfl, pushing, rfl⟩
  | foundRoom v tail =>
    rw [phase] at pushing
    exact .inl ⟨rfl, pushing, rfl⟩
  | wroteSlot v tail =>
    rw [phase] at pushing
    exact .inr (.inl ⟨rfl, rfl, by rw [← pushing]⟩)

theorem pushStep_popped : (pushStep c value s).2.popped = s.popped := by
  unfold pushStep
  split
  · rfl
  · dsimp only
    split <;> rfl
  · rfl
  · rfl

/-- How many accesses a call of `push` still makes at most. -/
def PushState.left : PushState α → Nat
  | .idle => 4
  | .loadedTail .. => 3
  | .foundRoom .. => 2
  | .wroteSlot .. => 1

/-- An access that does not end the call leaves one access less. -/
theorem pushStep_left (goesOn : (pushStep c value s).1 = none) :
    (pushStep c value s).2.producer.left < s.producer.left := by
  unfold pushStep at goesOn ⊢
  cases phase : s.producer with
  | idle => exact (by decide : 3 < 4)
  | loadedTail v tail =>
    rw [phase] at goesOn
    dsimp only at goesOn ⊢
    split
    next full => simp [full] at goesOn
    next => exact (by decide : 2 < 3)
  | foundRoom v tail => exact (by decide : 1 < 2)
  | wroteSlot v tail =>
    rw [phase] at goesOn
    cases goesOn

/-- The consumer does not touch what the producer holds or has pushed. -/
theorem popStep_frame :
    (popStep c s).2.producer = s.producer ∧ (popStep c s).2.pushed = s.pushed := by
  unfold popStep
  split
  next => exact ⟨rfl, rfl⟩
  next =>
    split
    · exact ⟨rfl, rfl⟩
    · exact ⟨rfl, rfl⟩
  next => exact ⟨rfl, rfl⟩
  next => exact ⟨rfl, rfl⟩

/-- What an access of the consumer does to the elements popped: a call that returns an element
has added it, and no other access adds any. -/
theorem popStep_effect :
    ((popStep c s).1 = none ∧ (popStep c s).2.popped = s.popped) ∨
    ((popStep c s).1 = some none ∧ (popStep c s).2.popped = s.popped ∧
      (popStep c s).2.consumer = .idle) ∨
    ∃ out, (popStep c s).1 = some (some out) ∧ (popStep c s).2.popped = s.popped ++ [out] ∧
      (popStep c s).2.consumer = .idle := by
  unfold popStep
  cases s.consumer with
  | idle => exact .inl ⟨rfl, rfl⟩
  | loadedHead head =>
    dsimp only
    split
    · exact .inr (.inl ⟨rfl, rfl, rfl⟩)
    · exact .inl ⟨rfl, rfl⟩
  | foundItem head => exact .inl ⟨rfl, rfl⟩
  | readSlot head out => exact .inr (.inr ⟨out, rfl, rfl, rfl⟩)

/-- How many accesses a call of `pop` has made. -/
def PopState.made : PopState α → Nat
  | .idle => 0
  | .loadedHead .. => 1
  | .foundItem .. => 2
  | .readSlot .. => 3

/-- How many accesses of the consumer empty the buffer and find it empty, if nothing is pushed
meanwhile. -/
def popsLeft (s : RingBuffer α) : Nat :=
  4 * (s.pushed.length - s.popped.length) + 2 - s.consumer.made

/-- An access of the consumer leaves less to do, or it has found the buffer empty. -/
theorem Represents.popStep_left {contents : List α} (rep : Represents c s contents) :
    (popStep c s).2.popsLeft < s.popsLeft ∨
      ((popStep c s).1 = some none ∧ s.popped = s.pushed ∧ 0 < s.popsLeft) := by
  have length := rep.pushed_length
  have consumer := rep.consumer
  have empty := rep.empty_of_pop_fails
  have history := rep.run.history
  unfold ConsumerOk at consumer
  unfold popStep at empty ⊢
  cases phase : s.consumer with
  | idle =>
    refine .inl ?_
    simp only [popsLeft, phase, PopState.made]
    omega
  | loadedHead head =>
    rw [phase] at empty
    dsimp only at empty ⊢
    split
    next same =>
      rw [if_pos same] at empty
      refine .inr ⟨rfl, ?_, ?_⟩
      · rw [history, empty rfl, List.append_nil]
      · simp only [popsLeft, phase, PopState.made]
        omega
    next differs =>
      refine .inl ?_
      simp only [popsLeft, phase, PopState.made]
      omega
  | foundItem head =>
    rw [phase] at consumer
    have some := List.length_pos_iff.mpr consumer.2
    refine .inl ?_
    simp only [popsLeft, phase, PopState.made]
    omega
  | readSlot head out =>
    rw [phase] at consumer
    have some : 0 < contents.length := by
      cases contents with
      | nil => cases consumer.2
      | cons => exact Nat.succ_pos _
    refine .inl ?_
    simp only [popsLeft, phase, PopState.made, List.length_append, List.length_singleton]
    omega

end RingBuffer

/-- The ring, the values that wait for the producer and its drop counter. The source does not
keep the last field, all values handed over so far. -/
structure Channel (α : Type) where
  ring : RingBuffer α
  backlog : List α := []
  dropped : Nat := 0
  offered : List α := []

namespace Channel

variable {α : Type} (c : Capacity)

/-- An empty channel over arbitrary memory. -/
def new (memory : Nat → α) : Channel α := { ring := { buffer := memory } }

def offer (ch : Channel α) (values : List α) : Channel α :=
  { ch with backlog := ch.backlog ++ values, offered := ch.offered ++ values }

/-- The next access of the producer, to push the first value of the backlog. -/
def pushStep (ch : Channel α) : Channel α :=
  match ch.backlog with
  | [] => ch
  | value :: rest =>
    let (returned, ring) := RingBuffer.pushStep c value ch.ring
    { ch with
      ring := ring
      backlog := if returned = none then value :: rest else rest
      dropped := if returned = some false then u64 (ch.dropped + 1) else ch.dropped }

/-- The next access of the consumer, with what it returns. -/
def popStep (ch : Channel α) : Option (Option α) × Channel α :=
  ((RingBuffer.popStep c ch.ring).1, { ch with ring := (RingBuffer.popStep c ch.ring).2 })

/-- A call of `push` that is under way is for the first value of the backlog. -/
def UnderWay (ch : Channel α) : Prop :=
  ch.ring.producer = .idle ∨ ∃ value rest, ch.backlog = value :: rest ∧ ch.ring.Pushing value

/-- The values before the backlog are settled: the ones pushed are among them in their order,
and all others were counted. -/
structure Conserves (ch : Channel α) : Prop where
  represents : ∃ contents, RingBuffer.Represents c ch.ring contents
  underWay : ch.UnderWay
  settled : ∃ settled, ch.offered = settled ++ ch.backlog ∧ ch.ring.pushed.Sublist settled ∧
    ch.dropped = u64 (settled.length - ch.ring.pushed.length)

section Steps

variable {c} {ch : Channel α}

theorem new_conserves (memory : Nat → α) : Conserves c (new memory) :=
  ⟨⟨[], RingBuffer.empty_represents c memory⟩, .inl rfl, [], rfl, .slnil, rfl⟩

theorem offer_conserves (conserves : Conserves c ch) (values : List α) :
    Conserves c (ch.offer values) := by
  obtain ⟨represents, underWay, settled, offered, pushed, dropped⟩ := conserves
  refine ⟨represents, ?_, settled, ?_, pushed, dropped⟩
  · rcases underWay with idle | ⟨value, rest, backlog, pushing⟩
    · exact .inl idle
    · exact .inr ⟨value, rest ++ values, by rw [offer, backlog, List.cons_append], pushing⟩
  · rw [offer, offered, List.append_assoc]

/-- The first value is what the producer pushes, if anything. -/
private theorem pushing_first {value : α} {rest : List α} (underWay : ch.UnderWay)
    (backlog : ch.backlog = value :: rest) : ch.ring.Pushing value := by
  rcases underWay with idle | ⟨first, others, first_eq, pushing⟩
  · rw [RingBuffer.Pushing, idle]
    trivial
  · rw [backlog] at first_eq
    obtain ⟨rfl, _⟩ := List.cons.inj first_eq
    exact pushing

/-- One more value is settled without being pushed. -/
private theorem dropped_succ {settled pushed : List α} (value : α) (part : pushed.Sublist settled) :
    u64 (u64 (settled.length - pushed.length) + 1) =
      u64 ((settled ++ [value]).length - pushed.length) := by
  have fewer := part.length_le
  rw [u64_succ, List.length_append, List.length_singleton]
  congr 1
  omega

theorem pushStep_cons {value : α} {rest : List α} (backlog : ch.backlog = value :: rest) :
    ch.pushStep c =
      { ch with
        ring := (RingBuffer.pushStep c value ch.ring).2
        backlog := if (RingBuffer.pushStep c value ch.ring).1 = none then value :: rest else rest
        dropped := if (RingBuffer.pushStep c value ch.ring).1 = some false then u64 (ch.dropped + 1)
          else ch.dropped } := by
  rw [pushStep, backlog]

/-- What an access of the producer does: the call goes on, the value is in the ring, or the value
is given up. -/
theorem pushStep_cases (underWay : ch.UnderWay) {value : α} {rest : List α}
    (backlog : ch.backlog = value :: rest) :
    ((ch.pushStep c).backlog = value :: rest ∧ (ch.pushStep c).ring.Pushing value ∧
      (ch.pushStep c).ring.producer.left < ch.ring.producer.left ∧
      (ch.pushStep c).ring.pushed = ch.ring.pushed ∧ (ch.pushStep c).dropped = ch.dropped) ∨
    ((ch.pushStep c).backlog = rest ∧ (ch.pushStep c).ring.producer = .idle ∧
      (ch.pushStep c).ring.pushed = ch.ring.pushed ++ [value] ∧
      (ch.pushStep c).dropped = ch.dropped) ∨
    ((ch.pushStep c).backlog = rest ∧ (ch.pushStep c).ring.producer = .idle ∧
      (ch.pushStep c).ring.pushed = ch.ring.pushed ∧
      (ch.pushStep c).dropped = u64 (ch.dropped + 1)) := by
  rw [pushStep_cons backlog]
  rcases @RingBuffer.pushStep_effect α c _ _ (pushing_first underWay backlog) with
    ⟨returned, pushing, same⟩ | ⟨returned, idle, added⟩ | ⟨returned, idle, same⟩
  · have left := RingBuffer.pushStep_left returned
    rw [returned]
    exact .inl ⟨rfl, pushing, left, same, rfl⟩
  · rw [returned]
    exact .inr (.inl ⟨rfl, idle, added, rfl⟩)
  · rw [returned]
    exact .inr (.inr ⟨rfl, idle, same, rfl⟩)

theorem pushStep_offered : (ch.pushStep c).offered = ch.offered := by
  unfold pushStep
  split <;> rfl

theorem pushStep_popped : (ch.pushStep c).ring.popped = ch.ring.popped := by
  unfold pushStep
  split
  · rfl
  · exact RingBuffer.pushStep_popped

theorem pushStep_represents (conserves : Conserves c ch) :
    ∃ contents, RingBuffer.Represents c (ch.pushStep c).ring contents := by
  obtain ⟨contents, rep⟩ := conserves.represents
  unfold pushStep
  split
  · exact ⟨contents, rep⟩
  · exact RingBuffer.pushStep_represents rep _

theorem pushStep_conserves (conserves : Conserves c ch) : Conserves c (ch.pushStep c) := by
  cases backlog : ch.backlog with
  | nil =>
    rw [pushStep, backlog]
    exact conserves
  | cons value rest =>
    have ring := pushStep_represents conserves
    obtain ⟨_, underWay, settled, offered, part, dropped⟩ := conserves
    have offered' : ch.offered = (settled ++ [value]) ++ rest := by
      rw [offered, backlog, List.append_assoc, List.singleton_append]
    rw [← @pushStep_offered α c ch] at offered offered'
    rcases @pushStep_cases α c ch underWay value rest backlog with
      ⟨waits, pushing, _, same, kept⟩ | ⟨gone, idle, added, kept⟩ | ⟨gone, idle, same, counted⟩
    · -- the call goes on
      refine ⟨ring, .inr ⟨value, rest, waits, pushing⟩, settled, ?_, ?_, ?_⟩
      · rw [waits, ← backlog]
        exact offered
      · rw [same]
        exact part
      · rw [kept, same]
        exact dropped
    · -- the value is in the ring
      refine ⟨ring, .inl idle, settled ++ [value], ?_, ?_, ?_⟩
      · rw [gone]
        exact offered'
      · rw [added]
        exact part.append (List.Sublist.refl _)
      · rw [kept, added, List.length_append, List.length_append, Nat.add_sub_add_right]
        exact dropped
    · -- the value found no room
      refine ⟨ring, .inl idle, settled ++ [value], ?_, ?_, ?_⟩
      · rw [gone]
        exact offered'
      · rw [same]
        exact part.trans (List.sublist_append_left _ _)
      · rw [counted, same, ← dropped_succ value part, ← dropped]

theorem popStep_conserves (conserves : Conserves c ch) : Conserves c (ch.popStep c).2 := by
  obtain ⟨⟨contents, rep⟩, underWay, settled, offered, part, dropped⟩ := conserves
  obtain ⟨producer, pushed⟩ := @RingBuffer.popStep_frame α c ch.ring
  refine ⟨RingBuffer.popStep_represents rep, ?_, settled, offered, ?_, ?_⟩
  · rcases underWay with idle | ⟨value, rest, backlog, pushing⟩
    · exact .inl (producer.trans idle)
    · refine .inr ⟨value, rest, backlog, ?_⟩
      rw [RingBuffer.Pushing, popStep, producer]
      exact pushing
  · rw [popStep, pushed]
    exact part
  · rw [popStep, pushed]
    exact dropped

end Steps

/-! ### What a conserving channel has done -/

section Consequences

variable {c} {ch : Channel α}

theorem Conserves.popped_prefix (conserves : Conserves c ch) :
    ch.ring.popped <+: ch.ring.pushed := by
  obtain ⟨contents, rep⟩ := conserves.represents
  exact ⟨contents, rep.run.history.symm⟩

theorem Conserves.pushed_sublist (conserves : Conserves c ch) :
    ch.ring.pushed.Sublist ch.offered := by
  obtain ⟨settled, offered, part, _⟩ := conserves.settled
  rw [offered]
  exact part.trans (List.sublist_append_left _ _)

/-- Every value handed over is pushed, counted as dropped or waiting. -/
theorem Conserves.count (conserves : Conserves c ch) :
    u64 (ch.ring.pushed.length + ch.dropped + ch.backlog.length) = u64 ch.offered.length := by
  obtain ⟨settled, offered, part, dropped⟩ := conserves.settled
  have fewer := part.length_le
  rw [offered, dropped, List.length_append]
  simp only [u64]
  omega

/-- As long as nothing was dropped the values come out as they were handed over. -/
theorem Conserves.pushed_prefix (conserves : Conserves c ch) (none : ch.dropped = 0)
    (few : ch.offered.length < 2 ^ 64) : ch.ring.pushed <+: ch.offered := by
  obtain ⟨settled, offered, part, dropped⟩ := conserves.settled
  have fewer := part.length_le
  rw [offered, List.length_append] at few
  rw [none, u64_eq_self _ (by omega)] at dropped
  rw [offered, part.eq_of_length (by omega)]
  exact List.prefix_append _ _

/-- The producer gives a value up only when the ring is full. -/
theorem Conserves.full_of_dropped (conserves : Conserves c ch)
    (drops : (ch.pushStep c).dropped ≠ ch.dropped) :
    ch.ring.pushed.length - ch.ring.popped.length = c.slots := by
  obtain ⟨contents, rep⟩ := conserves.represents
  have length := rep.pushed_length
  cases backlog : ch.backlog with
  | nil =>
    rw [pushStep, backlog] at drops
    exact absurd rfl drops
  | cons value rest =>
    rw [pushStep_cons backlog] at drops
    have failed : (RingBuffer.pushStep c value ch.ring).1 = some false := by
      by_contra other
      exact drops (if_neg other)
    have full := rep.full_of_push_fails failed
    omega

end Consequences

/-! ### The producer never waits -/

section Progress

variable {c} {ch : Channel α}

/-- How many accesses it takes at most to settle the backlog. -/
def accessesLeft (ch : Channel α) : Nat :=
  match ch.backlog with
  | [] => 0
  | _ :: rest => ch.ring.producer.left + 4 * rest.length

theorem accessesLeft_idle (idle : ch.ring.producer = .idle) :
    ch.accessesLeft = 4 * ch.backlog.length := by
  unfold accessesLeft
  cases backlog : ch.backlog with
  | nil => rfl
  | cons value rest =>
    rw [idle, List.length_cons]
    simp only [RingBuffer.PushState.left]
    omega

theorem pushStep_accessesLeft (conserves : Conserves c ch) (some : ch.backlog ≠ []) :
    (ch.pushStep c).accessesLeft < ch.accessesLeft := by
  obtain ⟨value, rest, backlog⟩ := List.exists_cons_of_ne_nil some
  have before : ch.accessesLeft = ch.ring.producer.left + 4 * rest.length := by
    rw [accessesLeft, backlog]
  have left : 0 < ch.ring.producer.left := by
    cases ch.ring.producer <;> exact Nat.succ_pos _
  rcases @pushStep_cases α c ch conserves.underWay value rest backlog with
    ⟨waits, _, fewer, _⟩ | ⟨gone, idle, _⟩ | ⟨gone, idle, _⟩
  · rw [before, accessesLeft, waits]
    exact Nat.add_lt_add_right fewer _
  · rw [before, accessesLeft_idle idle, gone]
    exact Nat.lt_add_of_pos_left left
  · rw [before, accessesLeft_idle idle, gone]
    exact Nat.lt_add_of_pos_left left

theorem popStep_accessesLeft : (ch.popStep c).2.accessesLeft = ch.accessesLeft := by
  obtain ⟨producer, _⟩ := @RingBuffer.popStep_frame α c ch.ring
  unfold accessesLeft popStep
  dsimp only
  rw [producer]

/-- Nothing is under way without a backlog. -/
theorem Conserves.idle (conserves : Conserves c ch) (empty : ch.backlog = []) :
    ch.ring.producer = .idle := by
  rcases conserves.underWay with idle | ⟨value, rest, backlog, _⟩
  · exact idle
  · rw [empty] at backlog
    cases backlog

end Progress

end Channel

end NseHft
