import Mathlib.Data.List.Basic
import Mathlib.Data.List.Infix

/-! Streams of messages that carry their length in a header: how a receiver cuts the stream
into messages, and what it makes of a stream that ends within one. -/
namespace HeaderFraming

variable {α : Type}

/-- Where the length stands: it is read from the header, so from any list that has one. -/
structure Format (α : Type) where
  header : Nat
  size : List α → Nat
  nonempty : 0 < header
  inHeader : ∀ front more, header ≤ front.length → size (front ++ more) = size front

namespace Format

variable {f : Format α}

/-- A message as long as its header says. -/
structure Whole (f : Format α) (message : List α) : Prop where
  header : f.header ≤ message.length
  length : f.size message = message.length

/-- What is left of a message after less than all of it has come through. -/
def Torn (f : Format α) (tail : List α) : Prop :=
  tail = [] ∨ ∃ message, f.Whole message ∧ tail <+: message ∧ tail.length < message.length

/-- Whole messages and then a torn one. -/
def Carries (f : Format α) (stream : List α) (messages : List (List α)) : Prop :=
  ∃ tail, stream = messages.flatten ++ tail ∧ (∀ message ∈ messages, f.Whole message) ∧ f.Torn tail

/-- The messages of a stream, as far as they are whole and at most `n` of them. -/
def messages (f : Format α) : Nat → List α → List (List α)
  | 0, _ => []
  | n + 1, stream =>
    if stream.length < f.header then []
    else if f.size stream < f.header ∨ stream.length < f.size stream then []
    else stream.take (f.size stream) :: f.messages n (stream.drop (f.size stream))

/-- A message is not empty, so there are no more of them than the stream has elements. -/
def receive (f : Format α) (stream : List α) : List (List α) := f.messages stream.length stream

theorem Whole.size_append {message : List α} (whole : f.Whole message) (more : List α) :
    f.size (message ++ more) = message.length := by
  rw [f.inHeader message more whole.header, whole.length]

theorem messages_whole {message : List α} (whole : f.Whole message) (n : Nat) (more : List α) :
    f.messages (n + 1) (message ++ more) = message :: f.messages n more := by
  have header := whole.header
  rw [messages, whole.size_append, if_neg (by rw [List.length_append]; omega),
    if_neg (by rw [List.length_append]; omega), List.take_left' rfl, List.drop_left' rfl]

theorem messages_torn {tail : List α} (torn : f.Torn tail) (n : Nat) : f.messages n tail = [] := by
  cases n with
  | zero => rfl
  | succ n =>
    rw [messages]
    by_cases short : tail.length < f.header
    · rw [if_pos short]
    · rw [if_neg short]
      rcases torn with rfl | ⟨message, whole, ⟨rest, joined⟩, less⟩
      · exact absurd f.nonempty short
      · have announced : f.size tail = message.length := by
          rw [← f.inHeader tail rest (Nat.le_of_not_lt short), joined, whole.length]
        rw [if_pos (.inr (by omega))]

theorem messages_append {parts : List (List α)} (whole : ∀ message ∈ parts, f.Whole message)
    (n : Nat) (enough : parts.length ≤ n) (more : List α) :
    f.messages n (parts.flatten ++ more) = parts ++ f.messages (n - parts.length) more := by
  induction parts generalizing n with
  | nil => rfl
  | cons message rest ih =>
    obtain ⟨here, others⟩ := List.forall_mem_cons.mp whole
    obtain ⟨n, rfl⟩ : ∃ k, n = k + 1 := ⟨n - 1, by rw [List.length_cons] at enough; omega⟩
    rw [List.flatten_cons, List.append_assoc, messages_whole here,
      ih others n (Nat.le_of_succ_le_succ enough), List.length_cons, Nat.add_sub_add_right]
    rfl

theorem length_le_flatten {parts : List (List α)} (whole : ∀ message ∈ parts, f.Whole message) :
    parts.length ≤ parts.flatten.length := by
  induction parts with
  | nil => exact Nat.le_refl 0
  | cons message rest ih =>
    obtain ⟨here, others⟩ := List.forall_mem_cons.mp whole
    have positive := f.nonempty
    have header := here.header
    have tail := ih others
    rw [List.flatten_cons, List.length_append, List.length_cons]
    omega

/-- Whole messages at the start of a stream are received first. -/
theorem receive_append {parts : List (List α)} (whole : ∀ message ∈ parts, f.Whole message)
    (more : List α) :
    f.receive (parts.flatten ++ more) =
      parts ++ f.messages ((parts.flatten ++ more).length - parts.length) more := by
  apply messages_append whole
  have counted := length_le_flatten whole
  rw [List.length_append]
  omega

/-- The receiver finds exactly the whole messages. -/
theorem Carries.receive {stream : List α} {parts : List (List α)} (carries : f.Carries stream parts) :
    f.receive stream = parts := by
  obtain ⟨tail, rfl, whole, torn⟩ := carries
  rw [receive_append whole, messages_torn torn, List.append_nil]

/-- Behind the header of a torn message anything passes for the rest of it. -/
theorem Whole.splice {message part other : List α} (whole : f.Whole message)
    (front : part <+: message) (header : f.header ≤ part.length)
    (length : part.length + other.length = message.length) : f.Whole (part ++ other) where
  header := by rw [List.length_append]; omega
  length := by
    obtain ⟨rest, joined⟩ := front
    rw [f.inHeader part other header, ← f.inHeader part rest header, joined, whole.length,
      List.length_append, length]

theorem Carries.nil : f.Carries [] [] := ⟨[], rfl, by simp, .inl rfl⟩

theorem carries_flatten {parts : List (List α)} (whole : ∀ message ∈ parts, f.Whole message) :
    f.Carries parts.flatten parts :=
  ⟨[], by rw [List.append_nil], whole, .inl rfl⟩

/-- What has arrived of a stream carries the first messages of it. -/
theorem Carries.arrived {stream arrived : List α} {parts : List (List α)}
    (carries : f.Carries stream parts) (front : arrived <+: stream) :
    ∃ count, f.Carries arrived (parts.take count) := by
  obtain ⟨tail, rfl, whole, torn⟩ := carries
  induction parts generalizing arrived with
  | nil =>
    refine ⟨0, arrived, rfl, by simp, ?_⟩
    rcases torn with rfl | ⟨message, complete, inside, less⟩
    · exact .inl (List.prefix_nil.mp front)
    · exact .inr ⟨message, complete, front.trans inside, Nat.lt_of_le_of_lt front.length_le less⟩
  | cons message rest ih =>
    obtain ⟨here, others⟩ := List.forall_mem_cons.mp whole
    rw [List.flatten_cons, List.append_assoc] at front
    rcases List.prefix_or_prefix_of_prefix front (List.prefix_append message _) with
      part | ⟨more, rfl⟩
    · rcases Nat.lt_or_ge arrived.length message.length with less | complete
      · refine ⟨0, arrived, rfl, by simp, ?_⟩
        exact .inr ⟨message, here, part, less⟩
      · -- the message has just arrived as a whole
        have equal : arrived = message := part.eq_of_length_le complete
        refine ⟨1, [], ?_, ?_, .inl rfl⟩
        · simp [equal]
        · simpa using here
    · obtain ⟨count, rest', joined, complete, torn'⟩ :=
        ih ((List.prefix_append_right_inj message).mp front) others
      refine ⟨count + 1, rest', ?_, ?_, torn'⟩
      · rw [joined, List.take_succ_cons, List.flatten_cons, List.append_assoc]
      · rw [List.take_succ_cons]
        exact List.forall_mem_cons.mpr ⟨here, complete⟩

end Format

end HeaderFraming
