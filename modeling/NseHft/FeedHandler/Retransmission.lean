import NseHft.FeedHandler.Sequencing
import NseHft.Lib.Machine

/-!
# Ranges to be sent again

A stream keeps the range of its most recent gap and a flag that asks for it, until the flag is
cleared. Which numbers are missing is read off the numbers that were accepted: those between two
of them. One range is enough for one gap; a second gap replaces it.
-/
namespace NseHft

open FixedWidth

/-- `n` was passed over after the numbers `earlier` were accepted: among these and the numbers
accepted `later` there is a smaller one, later a greater one, and `n` is new and not accepted. -/
def SkippedSince (earlier later : List Nat) (n : Nat) : Prop :=
  (∃ a ∈ earlier ++ later, a < n) ∧ (∃ b ∈ later, n < b) ∧ n ∉ later ∧ ∀ a ∈ earlier, a < n

/-- The jumps that the numbers accepted `later` make, the first of them from the last of the
`earlier` ones. -/
def jumpsSince (earlier later : List Nat) : Nat := jumps (earlier.getLast?.toList ++ later)

theorem jumps_append (earlier later : List Nat) :
    jumps (earlier ++ later) = jumps earlier + jumpsSince earlier later := by
  induction earlier with
  | nil => simp [jumpsSince, jumps]
  | cons first rest ih =>
    cases rest with
    | nil => simp [jumpsSince, jumps]
    | cons second rest =>
      have same : jumpsSince (first :: second :: rest) later = jumpsSince (second :: rest) later := by
        rw [jumpsSince, jumpsSince, List.getLast?_cons_cons]
      rw [same]
      simp only [List.cons_append, jumps] at ih ⊢
      omega

namespace StreamStats

variable {st st' : StreamStats} {earlier later emitted : List Nat} {seq n gaps : Nat}
  {ev : MarketEvent}

/-- What is passed over lies behind the expected number. -/
theorem Sequenced.skipped_lt (sequenced : st.Sequenced (earlier ++ later) emitted)
    (skipped : SkippedSince earlier later n) : n < st.nextSeq := by
  obtain ⟨_, ⟨b, member, above⟩, _⟩ := skipped
  exact Nat.lt_trans above (sequenced.below b (List.mem_append_right _ member))

/-- Another accepted number passes over those from the expected number on. -/
theorem Sequenced.skipped_snoc (sequenced : st.Sequenced (earlier ++ later) emitted)
    (ahead : st.nextSeq ≤ seq) (n : Nat) :
    SkippedSince earlier (later ++ [seq]) n ↔
      SkippedSince earlier later n ∨ (st.nextSeq ≠ 0 ∧ st.nextSeq ≤ n ∧ n < seq) := by
  constructor
  · rintro ⟨⟨a, member, low⟩, ⟨b, reached, high⟩, absent, beyond⟩
    simp only [List.mem_append, List.mem_singleton, not_or] at member reached absent
    by_cases inner : ∃ b ∈ later, n < b
    · obtain ⟨c, within, above⟩ := inner
      have := sequenced.below c (List.mem_append_right _ within)
      refine .inl ⟨⟨a, ?_, low⟩, ⟨c, within, above⟩, absent.1, beyond⟩
      rw [List.mem_append]
      rcases member with old | new | last
      · exact .inl old
      · exact .inr new
      · omega
    · -- nothing accepted before is greater, so the new number is the first beyond `n`
      have below : n < seq := by
        rcases reached with within | rfl
        · exact absurd ⟨b, within, high⟩ inner
        · exact high
      rcases sequenced.next with ⟨none, _⟩ | ⟨front, last, ends, expected⟩
      · obtain ⟨rfl, rfl⟩ := List.append_eq_nil_iff.mp none
        simp only [List.not_mem_nil, false_or] at member
        omega
      · have final : last ∈ earlier ++ later := by simp [ends]
        rcases List.mem_append.mp final with old | new
        · have := beyond last old
          exact .inr ⟨by omega, by omega, below⟩
        · have reached : ¬n < last := fun above => inner ⟨last, new, above⟩
          have differs : n ≠ last := fun same => absent.1 (same ▸ new)
          exact .inr ⟨by omega, by omega, below⟩
  · rintro (skipped | ⟨started, low, high⟩)
    · have behind := sequenced.skipped_lt skipped
      obtain ⟨⟨a, member, below⟩, ⟨b, reached, above⟩, absent, beyond⟩ := skipped
      refine ⟨⟨a, by simp only [List.mem_append] at member ⊢; tauto, below⟩,
        ⟨b, List.mem_append_left _ reached, above⟩, ?_, beyond⟩
      rw [List.mem_append, List.mem_singleton, not_or]
      exact ⟨absent, by omega⟩
    · rcases sequenced.next with ⟨_, unstarted⟩ | ⟨front, last, ends, expected⟩
      · exact absurd unstarted started
      · have final : last ∈ earlier ++ later := by simp [ends]
        refine ⟨⟨last, by simp only [List.mem_append] at final ⊢; tauto, by omega⟩,
          ⟨seq, by simp, high⟩, ?_, ?_⟩
        · rw [List.mem_append, List.mem_singleton, not_or]
          refine ⟨fun member => ?_, by omega⟩
          have := sequenced.below n (List.mem_append_right _ member)
          omega
        · intro a member
          have := sequenced.below a (List.mem_append_left _ member)
          omega

/-- What the range and the flag of a stream say about the numbers passed over since its gap
counter stood at `gaps`. -/
inductive Recorded (earlier later : List Nat) (gaps : Nat) (st : StreamStats) : Prop
  | none (count : st.gaps = gaps) (idle : st.needsRetransmit = false)
      (whole : ∀ n, ¬ SkippedSince earlier later n) : Recorded earlier later gaps st
  | one (count : st.gaps = gaps + 1) (asked : st.needsRetransmit = true)
      (nonempty : st.lastGapLo < st.lastGapHi)
      (range : ∀ n, SkippedSince earlier later n ↔ st.lastGapLo ≤ n ∧ n < st.lastGapHi) :
      Recorded earlier later gaps st
  -- the range of an earlier gap is lost
  | more (count : gaps + 2 ≤ st.gaps) (asked : st.needsRetransmit = true)
      (lost : ∃ n, SkippedSince earlier later n ∧ n < st.lastGapLo) :
      Recorded earlier later gaps st

/-- The fields that say something about gaps. -/
theorem Recorded.congr (recorded : Recorded earlier later gaps st) (count : st'.gaps = st.gaps)
    (flag : st'.needsRetransmit = st.needsRetransmit) (lo : st'.lastGapLo = st.lastGapLo)
    (hi : st'.lastGapHi = st.lastGapHi) : Recorded earlier later gaps st' := by
  cases recorded with
  | none same idle whole => exact .none (count.trans same) (flag.trans idle) whole
  | one same asked nonempty range =>
    exact .one (count.trans same) (flag.trans asked) (by rwa [lo, hi]) (by rwa [lo, hi])
  | more same asked lost => exact .more (count ▸ same) (flag.trans asked) (by rwa [lo])

theorem accept_gap (gap : st.nextSeq ≠ 0 ∧ st.nextSeq < seq) :
    (st.accept seq ev).1.lastGapLo = st.nextSeq ∧ (st.accept seq ev).1.lastGapHi = seq ∧
      (st.accept seq ev).1.needsRetransmit = true := by
  have unseen : ¬(st.nextSeq ≠ 0 ∧ seq < st.nextSeq) := by omega
  rw [accept, if_neg unseen, if_pos gap]
  dsimp only
  split_ifs <;> exact ⟨rfl, rfl, rfl⟩

theorem accept_no_gap (unseen : ¬st.Seen seq) (follows : ¬(st.nextSeq ≠ 0 ∧ st.nextSeq < seq)) :
    (st.accept seq ev).1.lastGapLo = st.lastGapLo ∧ (st.accept seq ev).1.lastGapHi = st.lastGapHi ∧
      (st.accept seq ev).1.needsRetransmit = st.needsRetransmit := by
  simp only [Seen] at unseen
  rw [accept, if_neg unseen, if_neg follows]
  dsimp only
  split_ifs <;> exact ⟨rfl, rfl, rfl⟩

theorem Recorded.accept (recorded : Recorded earlier later gaps st)
    (sequenced : st.Sequenced (earlier ++ later) emitted) (noWrap : ev.seqNo + 1 < 2 ^ 64) :
    Recorded earlier (later ++ if st.Seen ev.seqNo then [] else [ev.seqNo]) gaps
      (st.accept ev.seqNo ev).1 := by
  by_cases seen : st.Seen ev.seqNo
  · rw [accept_seen seen, if_pos seen, List.append_nil]
    exact recorded.congr rfl rfl rfl rfl
  have ahead : st.nextSeq ≤ ev.seqNo := by
    simp only [Seen] at seen
    omega
  have skips := sequenced.skipped_snoc ahead
  have counts := (@accept_taken st ev ev.seqNo seen).2.1
  rw [if_neg seen]
  by_cases gap : st.nextSeq ≠ 0 ∧ st.nextSeq < ev.seqNo
  · obtain ⟨lo, hi, asked⟩ := @accept_gap st ev.seqNo ev gap
    have fewer := sequenced.fewer
    rw [if_pos gap, u64_eq_self _ (by omega)] at counts
    -- the new range starts behind everything that was passed over before
    have lost (n : Nat) (skipped : SkippedSince earlier later n) :
        ∃ n, SkippedSince earlier (later ++ [ev.seqNo]) n ∧
          n < (st.accept ev.seqNo ev).1.lastGapLo :=
      ⟨n, (skips n).mpr (.inl skipped), lo ▸ sequenced.skipped_lt skipped⟩
    cases recorded with
    | none count idle whole =>
      refine .one (by rw [counts, count]) asked (by rw [lo, hi]; exact gap.2) fun n => ?_
      rw [skips, lo, hi]
      exact ⟨fun either => (either.resolve_left (whole n)).2, fun inside => .inr ⟨gap.1, inside⟩⟩
    | one count _ nonempty range =>
      exact .more (by omega) asked (lost _ ((range _).mpr ⟨Nat.le_refl _, nonempty⟩))
    | more count _ older =>
      obtain ⟨n, skipped, _⟩ := older
      exact .more (by omega) asked (lost n skipped)
  · obtain ⟨lo, hi, flag⟩ := @accept_no_gap st ev.seqNo ev seen gap
    rw [if_neg gap] at counts
    -- nothing is passed over
    have same (n : Nat) : SkippedSince earlier (later ++ [ev.seqNo]) n ↔
        SkippedSince earlier later n := by
      rw [skips]
      exact or_iff_left fun inside => gap ⟨inside.1, by omega⟩
    refine Recorded.congr ?_ counts flag lo hi
    cases recorded with
    | none count idle whole => exact .none count idle fun n skipped => whole n ((same n).mp skipped)
    | one count asked nonempty range =>
      exact .one count asked nonempty fun n => (same n).trans (range n)
    | more count asked lost =>
      obtain ⟨n, skipped, below⟩ := lost
      exact .more count asked ⟨n, (same n).mpr skipped, below⟩

theorem Recorded.acceptAll (recorded : Recorded earlier later gaps st)
    (sequenced : st.Sequenced (earlier ++ later) emitted) (msgs : List MarketEvent)
    (noWrap : ∀ ev ∈ msgs, ev.seqNo + 1 < 2 ^ 64) :
    Recorded earlier (later ++ st.accepted msgs) gaps (st.acceptAll msgs).1 := by
  induction msgs generalizing st later emitted with
  | nil => simpa [StreamStats.acceptAll, accepted] using recorded
  | cons ev rest ih =>
    obtain ⟨first, others⟩ := List.forall_mem_cons.mp noWrap
    have onward := sequenced.accept first
    rw [List.append_assoc] at onward
    have next := ih (recorded.accept sequenced first) onward others
    simpa only [StreamStats.acceptAll, accepted, List.append_assoc] using next

end StreamStats

namespace FeedHandler

def clearRetransmit (fh : FeedHandler) (streamId : Nat) : FeedHandler :=
  if streamId < kMaxStreams then
    { fh with
      streams := Function.update fh.streams streamId
        { fh.streams streamId with needsRetransmit := false } }
  else fh

inductive Call where
  | packet (source : FeedSource) (data : List UInt8)
  | clearRetransmit (streamId : Nat)

/-- One call, with the events it emits. -/
def step (fh : FeedHandler) : Call → List MarketEvent × FeedHandler
  | .packet source data => ((fh.onPacket source data).2, (fh.onPacket source data).1)
  | .clearRetransmit streamId => ([], fh.clearRetransmit streamId)

abbrev after (fh : FeedHandler) (calls : List Call) : FeedHandler := Machine.after step fh calls

/-- The numbers that a stream accepts along some calls. -/
def acceptedAlong (id : Nat) : FeedHandler → List Call → List Nat
  | _, [] => []
  | fh, .packet source data :: rest =>
    fh.acceptedFrom id data ++ acceptedAlong id (fh.onPacket source data).1 rest
  | fh, .clearRetransmit streamId :: rest => acceptedAlong id (fh.clearRetransmit streamId) rest

def Call.NoWrap : Call → Prop
  | packet _ data => FeedHandler.NoWrap data
  | clearRetransmit _ => True

instance : (call : Call) → Decidable call.NoWrap
  | .packet _ data => inferInstanceAs (Decidable (FeedHandler.NoWrap data))
  | .clearRetransmit _ => inferInstanceAs (Decidable True)

variable {fh : FeedHandler} {id gaps : Nat} {earlier later emitted : List Nat}

/-- A cleared flag leaves numbers and counters alone. -/
theorem clearRetransmit_stream (fh : FeedHandler) (streamId id : Nat) :
    ∃ flag, (fh.clearRetransmit streamId).streams id =
      { fh.streams id with needsRetransmit := flag } := by
  simp only [clearRetransmit]
  split
  · by_cases here : id = streamId
    · subst here
      exact ⟨false, Function.update_self ..⟩
    · exact ⟨_, Function.update_of_ne here ..⟩
  · exact ⟨_, rfl⟩

theorem clearRetransmit_other {streamId : Nat} (other : streamId ≠ id) :
    (fh.clearRetransmit streamId).streams id = fh.streams id := by
  simp only [clearRetransmit]
  split
  · exact Function.update_of_ne (Ne.symm other) ..
  · rfl

/-- Calls keep the history of a stream. -/
theorem after_sequenced (sequenced : (fh.streams id).Sequenced earlier emitted) (calls : List Call)
    (noWrap : ∀ call ∈ calls, call.NoWrap) :
    ∃ emitted', ((fh.after calls).streams id).Sequenced (earlier ++ acceptedAlong id fh calls)
      emitted' := by
  induction calls generalizing fh earlier emitted with
  | nil => exact ⟨emitted, by simpa [acceptedAlong, Machine.after] using sequenced⟩
  | cons call rest ih =>
    obtain ⟨first, others⟩ := List.forall_mem_cons.mp noWrap
    cases call with
    | packet source data =>
      obtain ⟨emitted', along⟩ := ih (onPacket_sequenced sequenced source data first) others
      exact ⟨emitted', by rwa [List.append_assoc] at along⟩
    | clearRetransmit streamId =>
      obtain ⟨flag, same⟩ := clearRetransmit_stream fh streamId id
      have cleared : ((fh.clearRetransmit streamId).streams id).Sequenced earlier emitted := by
        rw [same]
        exact sequenced.congr rfl rfl
      exact ih cleared others

/-- As long as its flag is not cleared, calls keep what a stream records of its gaps. -/
theorem after_recorded (recorded : (fh.streams id).Recorded earlier later gaps)
    (sequenced : (fh.streams id).Sequenced (earlier ++ later) emitted) (calls : List Call)
    (noWrap : ∀ call ∈ calls, call.NoWrap) (uncleared : Call.clearRetransmit id ∉ calls) :
    ((fh.after calls).streams id).Recorded earlier (later ++ acceptedAlong id fh calls) gaps := by
  induction calls generalizing fh later emitted with
  | nil => simpa [acceptedAlong, Machine.after] using recorded
  | cons call rest ih =>
    obtain ⟨first, others⟩ := List.forall_mem_cons.mp noWrap
    obtain ⟨differs, kept⟩ := not_or.mp (List.mem_cons.not.mp uncleared)
    cases call with
    | packet source data =>
      have onward := onPacket_sequenced sequenced source data first
      rw [List.append_assoc] at onward
      have here : ((fh.onPacket source data).1.streams id).Recorded earlier
          (later ++ fh.acceptedFrom id data) gaps := by
        rcases onPacket_stream fh id source data first with
          ⟨⟨_, same⟩, nothing, _⟩ | ⟨packets, msgs, small, same, accepts, _⟩
        · rw [same, nothing, List.append_nil]
          exact recorded.congr rfl rfl rfl rfl
        · rw [same, accepts]
          have counted : ({ fh.streams id with packets := packets } : StreamStats).Recorded earlier
              later gaps := recorded.congr rfl rfl rfl rfl
          have sequenced' : ({ fh.streams id with packets := packets } : StreamStats).Sequenced
              (earlier ++ later) emitted := sequenced.congr rfl rfl
          exact counted.acceptAll sequenced' msgs small
      have along := ih here onward others kept
      rwa [List.append_assoc] at along
    | clearRetransmit streamId =>
      have other : streamId ≠ id := fun same => differs (same ▸ rfl)
      have same := @clearRetransmit_other fh id streamId other
      exact @ih (fh.clearRetransmit streamId) later emitted (same ▸ recorded) (same ▸ sequenced)
        others kept

/-- From the moment a flag is cleared, or from the start: the recorded range covers every number
that a stream has passed over since then exactly if the numbers it has accepted since then make at
most one jump, and the flag is set exactly if they make one. -/
theorem gap_range_complete_iff (before since : List Call) (id : Nat) (inTable : id < kMaxStreams)
    (noWrap : ∀ call ∈ before ++ since, call.NoWrap) (uncleared : Call.clearRetransmit id ∉ since) :
    let start := (({} : FeedHandler).after before).clearRetransmit id
    let stats := (start.after since).streams id
    let earlier := acceptedAlong id {} before
    let later := acceptedAlong id start since
    ((∀ n, SkippedSince earlier later n → stats.lastGapLo ≤ n ∧ n < stats.lastGapHi) ↔
      jumpsSince earlier later ≤ 1) ∧
    (stats.needsRetransmit = true ↔ 1 ≤ jumpsSince earlier later) := by
  intro start stats earlier later
  obtain ⟨early, late⟩ := List.forall_mem_append.mp noWrap
  obtain ⟨emitted, sequenced⟩ := after_sequenced (fresh_sequenced id) before early
  rw [List.nil_append] at sequenced
  have cleared : start.streams id =
      { (({} : FeedHandler).after before).streams id with needsRetransmit := false } := by
    simp only [start, clearRetransmit, if_pos inTable, Function.update_self]
  have sequenced' : (start.streams id).Sequenced earlier emitted := by
    rw [cleared]
    exact sequenced.congr rfl rfl
  -- the counter has moved by the jumps among the numbers accepted since
  have moved : stats.gaps = (start.streams id).gaps + jumpsSince earlier later := by
    obtain ⟨_, along⟩ := after_sequenced sequenced' since late
    rw [along.counted, sequenced'.counted]
    exact jumps_append earlier later
  have idle : (start.streams id).Recorded earlier [] (start.streams id).gaps := by
    refine .none rfl (by rw [cleared]) ?_
    rintro n ⟨_, ⟨b, impossible, _⟩, _⟩
    cases impossible
  have recorded : stats.Recorded earlier ([] ++ later) _ :=
    after_recorded idle (by rwa [List.append_nil]) since late uncleared
  rw [List.nil_append] at recorded
  cases recorded with
  | none count flag whole =>
    refine ⟨iff_of_true (fun n skipped => absurd skipped (whole n)) (by omega), ?_⟩
    exact iff_of_false (by simp [flag]) (by omega)
  | one count asked _ range =>
    exact ⟨iff_of_true (fun n skipped => (range n).mp skipped) (by omega),
      iff_of_true asked (by omega)⟩
  | more count asked lost =>
    obtain ⟨n, skipped, below⟩ := lost
    refine ⟨iff_of_false (fun covered => ?_) (by omega), iff_of_true asked (by omega)⟩
    have := (covered n skipped).1
    omega

/-- One cancel on stream 5. -/
private def cancelNumbered (seqNo : UInt8) : Call :=
  .packet .primary [5, 0, seqNo, 0, 0, 0, 0, 0, 0, 0, 1, 0, 0, 0, 0, 0, 0, 0, 0,
    88, 9, 0, 0, 0, 0, 0, 0, 0, 7, 0, 0, 0]

/-- Messages 1 and 3, then, after the request for 2, message 6. -/
theorem requested_gap_covered :
    let start := (({} : FeedHandler).after [cancelNumbered 1, cancelNumbered 3]).clearRetransmit 5
    let stats := (start.after [cancelNumbered 6]).streams 5
    stats.lastGapLo = 4 ∧ stats.lastGapHi = 6 ∧ stats.needsRetransmit = true ∧
      ∀ n, SkippedSince [1, 3] [6] n → 4 ≤ n ∧ n < 6 := by
  obtain ⟨covered, flag⟩ := gap_range_complete_iff [cancelNumbered 1, cancelNumbered 3]
    [cancelNumbered 6] 5 (by decide) (by decide +kernel)
    (by simp [cancelNumbered])
  exact ⟨by decide +kernel, by decide +kernel, flag.mpr (by decide +kernel),
    covered.mpr (by decide +kernel)⟩

/-- Messages 1, 3 and 6: message 2 is missing and not in the recorded range. -/
theorem second_gap_hides_first :
    let calls := [cancelNumbered 1, cancelNumbered 3, cancelNumbered 6]
    let stats := (({} : FeedHandler).after calls).streams 5
    acceptedAlong 5 {} calls = [1, 3, 6] ∧ SkippedSince [] [1, 3, 6] 2 ∧
      stats.lastGapLo = 4 ∧ stats.lastGapHi = 6 ∧ stats.needsRetransmit = true := by
  refine ⟨by decide +kernel, ?_, by decide +kernel, by decide +kernel, by decide +kernel⟩
  exact ⟨⟨1, by decide, by decide⟩, ⟨3, by decide, by decide⟩, by decide, by simp⟩

end FeedHandler

end NseHft
