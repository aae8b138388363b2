import NseHft.Lib.Machine
import NseHft.Lib.TokenBucket
import NseHft.Risk.PositionLimit

/-!
# Order-rate limiter

The last of the checks takes a token from a bucket that starts full and is refilled at the
configured rate. A refused order only refills it.
-/
namespace NseHft

open FixedWidth TokenBucket

namespace RiskManager

/-- Tokens per nanosecond. -/
def refillRate (cfg : RiskConfig) : ℚ := cfg.maxOrdersPerSec / kNsPerSecond

/-- The limiter's bucket. Its clock has not started while the last refill is zero. -/
def bucket (rm : RiskManager) : Bucket ℚ :=
  ⟨rm.tokens, if rm.lastRefillNs = 0 then none else some rm.lastRefillNs⟩

def setBucket (rm : RiskManager) (b : Bucket ℚ) : RiskManager :=
  { rm with tokens := b.level, lastRefillNs := b.stamp.getD 0 }

/-- The outcome of taking a token at `now`, and the bucket after it. -/
def drawn (rm : RiskManager) (now : Nat) : Bool × Bucket ℚ :=
  attempt (refillRate rm.cfg) rm.cfg.maxOrdersPerSec rm.bucket now

/-- The limiter at a time no earlier than its last refill. -/
structure Metered (now : Nat) (rm : RiskManager) : Prop where
  filled : rm.tokens ≤ rm.cfg.maxOrdersPerSec
  past : rm.lastRefillNs ≤ now
  full : rm.lastRefillNs = 0 → rm.tokens = rm.cfg.maxOrdersPerSec

variable {A : Arithmetic} {rm : RiskManager} {now : Nat}

theorem Metered.mono {later : Nat} (metered : Metered now rm) (next : now ≤ later) :
    Metered later rm :=
  ⟨metered.filled, metered.past.trans next, metered.full⟩

theorem setNow_metered (metered : Metered now rm) (istNs : Nat) : Metered now (rm.setNow istNs) :=
  ⟨metered.filled, metered.past, metered.full⟩

theorem new_metered (symbols : Option SymbolMaster) (cfg : RiskConfig) :
    Metered 0 (RiskManager.new symbols cfg) :=
  ⟨le_refl _, Nat.le_refl _, fun _ => rfl⟩

/-- The limiter is a token bucket. -/
theorem consumeRateToken_eq (metered : Metered now rm) (started : now ≠ 0) :
    rm.consumeRateToken now = ((rm.drawn now).1, rm.setBucket (rm.drawn now).2) := by
  obtain ⟨filled, past, full⟩ := metered
  unfold drawn
  by_cases unstarted : rm.lastRefillNs = 0
  · simp only [consumeRateToken, attempt, TokenBucket.levelAt, bucket, unstarted, if_true, lt_irrefl,
      gt_iff_lt, if_false]
    split <;> rfl
  · by_cases elapsed : now > rm.lastRefillNs
    · have capped (level : ℚ) : (if level > rm.cfg.maxOrdersPerSec then
          (rm.cfg.maxOrdersPerSec : ℚ) else level) = min (rm.cfg.maxOrdersPerSec : ℚ) level := by
        rw [min_def]
        split_ifs <;> linarith
      simp only [consumeRateToken, attempt, TokenBucket.levelAt, bucket, unstarted, if_false, elapsed,
        if_true, capped, refillRate]
      split <;> rfl
    · -- nothing to refill
      obtain rfl : now = rm.lastRefillNs := by omega
      have unchanged : TokenBucket.levelAt (refillRate rm.cfg) rm.cfg.maxOrdersPerSec rm.bucket
          rm.lastRefillNs = rm.tokens := by
        simp [TokenBucket.levelAt, bucket, started, filled]
      simp only [consumeRateToken, attempt, unchanged, unstarted, if_false, elapsed]
      split <;> rfl

/-- While the clock stands still nothing flows back. -/
theorem consumeRateToken_still (still : rm.lastRefillNs = 0 ∨ rm.lastRefillNs = now) :
    rm.consumeRateToken now =
      if rm.tokens ≥ 1 then (true, { rm with tokens := rm.tokens - 1, lastRefillNs := now })
      else (false, { rm with lastRefillNs := now }) := by
  obtain ⟨symbols, cfg, position, refBid, refAsk, tokens, last, kill, daily, cash, mark, sim⟩ := rm
  dsimp only at still
  rcases still with rfl | rfl
  · simp only [consumeRateToken, if_true, gt_iff_lt, lt_irrefl, if_false]
  · by_cases zero : last = 0
    · simp only [consumeRateToken, zero, if_true, gt_iff_lt, lt_irrefl, if_false]
    · simp only [consumeRateToken, zero, gt_iff_lt, lt_irrefl, if_false]

theorem setBucket_bucket (rm : RiskManager) : rm.setBucket rm.bucket = rm := by
  have last : rm.bucket.stamp.getD 0 = rm.lastRefillNs := by
    unfold bucket
    split
    next unstarted => exact unstarted.symm
    next => rfl
  rw [setBucket, last]
  rfl

theorem bucket_setBucket {b : Bucket ℚ} (stamp : b.stamp = some now) (started : now ≠ 0) :
    (rm.setBucket b).bucket = b := by
  obtain ⟨level, last⟩ := b
  cases stamp
  simp [setBucket, bucket, started]

theorem setBucket_metered {b : Bucket ℚ} (stamp : b.stamp = some now) (started : now ≠ 0)
    (filled : b.level ≤ rm.cfg.maxOrdersPerSec) : Metered now (rm.setBucket b) := by
  refine ⟨filled, ?_, ?_⟩
  · simp [setBucket, stamp]
  · simp [setBucket, stamp, started]

/-- The time that a check is made at. -/
def clock (rm : RiskManager) (wallClock : Nat) : Nat :=
  if rm.simNowNs ≠ 0 then rm.simNowNs else wallClock

theorem check_eq {wallClock : Nat} (metered : Metered (rm.clock wallClock) rm)
    (started : rm.clock wallClock ≠ 0) (o : Order) :
    rm.check A wallClock o =
      match rm.gate A (rm.clock wallClock) o with
      | some reason => (reason, rm)
      | none =>
        (if (rm.drawn (rm.clock wallClock)).1 then .approved else .rateLimitExceeded,
          rm.setBucket (rm.drawn (rm.clock wallClock)).2) := by
  have taken := consumeRateToken_eq metered started
  simp only [check]
  rw [← clock]
  cases passed : rm.gate A (rm.clock wallClock) o with
  | some reason => rfl
  | none =>
    dsimp only
    rw [taken]
    cases (rm.drawn (rm.clock wallClock)).1 <;> rfl

theorem check_metered {wallClock : Nat} (metered : Metered (rm.clock wallClock) rm)
    (started : rm.clock wallClock ≠ 0) (o : Order) :
    Metered (rm.clock wallClock) (rm.check A wallClock o).2 := by
  rw [check_eq metered started]
  split
  · exact metered
  · exact setBucket_metered (attempt_stamp _ _ _ _) started (attempt_level_le metered.filled _)

/-! ### Approvals in a window -/

section Window

/-- The times of the approved orders among checks made one after the other. -/
def approvalTimes (A : Arithmetic) : RiskManager → List (Nat × Order) → List Nat
  | _, [] => []
  | rm, (now, o) :: rest =>
    let answer := (rm.setNow now).check A 0 o
    (if answer.1 = .approved then [now] else []) ++ approvalTimes A answer.2 rest

/-- The calls are made at times that do not go back, and with the clock set. -/
def Timely (calls : List (Nat × Order)) : Prop :=
  (calls.map Prod.fst).Pairwise (· ≤ ·) ∧ ∀ call ∈ calls, call.1 ≠ 0

/-- A check with the clock set: an objection leaves the limiter alone, otherwise it decides. -/
theorem check_setNow (metered : Metered now rm) (started : now ≠ 0) (o : Order) :
    (rm.setNow now).check A 0 o =
      match rm.gate A now o with
      | some reason => (reason, rm.setNow now)
      | none =>
        (if (rm.drawn now).1 then .approved else .rateLimitExceeded,
          (rm.setNow now).setBucket (rm.drawn now).2) := by
  have clock : (rm.setNow now).clock 0 = now := by simp [RiskManager.clock, setNow, started]
  have checked := @check_eq A (rm.setNow now) 0 (by rw [clock]; exact setNow_metered metered now)
    (by rwa [clock]) o
  rw [clock] at checked
  exact checked

/-- The time of an order that the limiter decides on is counted if it takes a token. -/
private theorem approved_grant (rm : RiskManager) (now : Nat) :
    (if (if (rm.drawn now).1 then RejectReason.approved else .rateLimitExceeded) = .approved
      then [now] else []) =
        grant (refillRate rm.cfg) rm.cfg.maxOrdersPerSec rm.bucket now := by
  unfold grant
  rw [← drawn]
  cases (rm.drawn now).1 <;> rfl

/-- The approvals are the successes of the bucket on the orders that reach it. -/
theorem approvalTimes_eq (calls : List (Nat × Order)) (metered : Metered now rm)
    (timely : Timely calls) (ahead : ∀ call ∈ calls, now ≤ call.1) :
    approvalTimes A rm calls =
      successes (refillRate rm.cfg) rm.cfg.maxOrdersPerSec rm.bucket
        ((calls.filter fun call => rm.gate A call.1 call.2 = none).map Prod.fst) := by
  -- along the calls; the bucket is the one that the calls so far have left
  induction calls generalizing rm now with
  | nil => rfl
  | cons call rest ih =>
    obtain ⟨sorted, nonzero⟩ := timely
    obtain ⟨started, startedRest⟩ := List.forall_mem_cons.mp nonzero
    obtain ⟨reached, _⟩ := List.forall_mem_cons.mp ahead
    rw [List.map_cons, List.pairwise_cons] at sorted
    have follows : ∀ later ∈ rest, call.1 ≤ later.1 := fun later member =>
      sorted.1 later.1 (List.mem_map_of_mem member)
    have current : Metered call.1 rm := metered.mono reached
    have checked := @check_setNow A rm call.1 current started call.2
    simp only [approvalTimes]
    cases passed : rm.gate A call.1 call.2 with
    | some reason =>
      rw [passed] at checked
      have objection : reason ≠ .approved := fun equal =>
        @gate_ne_approved A rm call.1 call.2 (by rw [passed, equal])
      rw [checked, if_neg objection, List.filter_cons_of_neg (by simp [passed]), List.nil_append]
      exact ih (setNow_metered current call.1) ⟨sorted.2, startedRest⟩ follows
    | none =>
      rw [passed] at checked
      have stamp : (rm.drawn call.1).2.stamp = some call.1 := attempt_stamp _ _ _ _
      have next := ih (@setBucket_metered (rm.setNow call.1) _ _ stamp started
        (attempt_level_le metered.filled _)) ⟨sorted.2, startedRest⟩ follows
      rw [bucket_setBucket stamp started] at next
      rw [checked, List.filter_cons_of_pos (by simp [passed]), List.map_cons, successes,
        ← approved_grant rm call.1]
      exact congrArg _ next

/-- Of the gates only the market hours look at the clock. -/
theorem gate_within_hours {t : Nat} {o : Order} (within : isWithinMarketHours t = true)
    (passed : rm.gate A now o = none) : rm.gate A t o = none := by
  rw [gate_eq_none_iff] at passed ⊢
  exact { passed with hours := .inl within }

/-- No order passes the other gates. -/
def Closed (A : Arithmetic) (rm : RiskManager) : Prop := ∀ now o, rm.gate A now o ≠ none

/-- A full bucket's worth of orders at 10:00, and half as many again half a second later. -/
def burst (count : Nat) (o : Order) : List (Nat × Order) :=
  List.replicate count (36000000000000, o) ++ List.replicate (count / 2) (36000500000000, o)

theorem burst_mem {count : Nat} {o : Order} {call : Nat × Order} (member : call ∈ burst count o) :
    isWithinMarketHours call.1 = true ∧ call.1 ≠ 0 ∧ call.2 = o := by
  have ten : isWithinMarketHours 36000000000000 = true := by decide
  have later : isWithinMarketHours 36000500000000 = true := by decide
  rcases List.mem_append.mp member with first | second
  · rw [(List.mem_replicate.mp first).2]
    exact ⟨ten, by simp, rfl⟩
  · rw [(List.mem_replicate.mp second).2]
    exact ⟨later, by simp, rfl⟩

theorem burst_times (count : Nat) (o : Order) :
    (burst count o).map Prod.fst =
      List.replicate count 36000000000000 ++ List.replicate (count / 2) 36000500000000 := by
  simp [burst]

theorem burst_timely (count : Nat) (o : Order) : Timely (burst count o) := by
  refine ⟨?_, fun call member => (burst_mem member).2.1⟩
  rw [burst_times]
  simp [List.pairwise_append, List.pairwise_replicate]

theorem burst_approved (symbols : Option SymbolMaster) (cfg : RiskConfig) (count : Nat) (o : Order)
    (configured : cfg.maxOrdersPerSec = count) (several : 2 ≤ count)
    (passed : (new symbols cfg).gate A now o = none) :
    approvalTimes A (new symbols cfg) (burst count o) = (burst count o).map Prod.fst := by
  have everyone : ∀ call ∈ burst count o, (new symbols cfg).gate A call.1 call.2 = none := by
    intro call member
    obtain ⟨within, _, same⟩ := burst_mem member
    rw [same]
    exact gate_within_hours within passed
  -- every order of the burst reaches the bucket, so its successes are the approvals
  rw [approvalTimes_eq _ (new_metered symbols cfg) (burst_timely count o) (by simp),
    List.filter_eq_self.mpr (by simpa using everyone), burst_times]
  have cap : ((cfg.maxOrdersPerSec : Int) : ℚ) = count := by rw [configured]; rfl
  have start : (new symbols cfg).bucket = ⟨count, none⟩ := by simp [new, bucket, cap]
  have half : ((count / 2 : Nat) : ℚ) ≤ count / 2 := by
    have double : ((2 * (count / 2) : Nat) : ℚ) ≤ count := Nat.cast_le.mpr (by omega)
    rw [Nat.cast_mul, Nat.cast_ofNat] at double
    linarith
  have nonneg : (0 : ℚ) ≤ count := Nat.cast_nonneg _
  -- the first burst empties the bucket, half a second refills one half of it
  have refilled : TokenBucket.levelAt (refillRate cfg) (count : ℚ) ⟨0, some 36000000000000⟩
      36000500000000 = count / 2 := by
    simp only [TokenBucket.levelAt, refillRate, cap, kNsPerSecond]
    rw [min_eq_right] <;> norm_num <;> linarith
  have first := @successes_replicate ℚ _ _ _ (refillRate cfg) count ⟨count, none⟩ count
    36000000000000 (List.replicate (count / 2) 36000500000000) (by omega) (le_refl _)
    (by simp [TokenBucket.levelAt])
  have emptied : TokenBucket.levelAt (refillRate cfg) (count : ℚ) ⟨count, none⟩ 36000000000000 -
      count = 0 := by
    simp [TokenBucket.levelAt]
  have second := @successes_replicate ℚ _ _ _ (refillRate cfg) count ⟨0, some 36000000000000⟩
    (count / 2) 36000500000000 [] (by omega) nonneg (by rw [refilled]; exact half)
  rw [List.append_nil] at second
  change successes (refillRate cfg) cfg.maxOrdersPerSec (new symbols cfg).bucket _ = _
  rw [start, cap, first, emptied, second, successes, List.append_nil]

/-- What the bucket does guarantee: in one second the full bucket and one refill. -/
theorem approvals_in_window_le (symbols : Option SymbolMaster) (cfg : RiskConfig)
    (nonneg : 0 ≤ cfg.maxOrdersPerSec) (calls : List (Nat × Order)) (timely : Timely calls)
    (start : Nat) :
    (inWindow start kNsPerSecond (approvalTimes A (new symbols cfg) calls) : Int) * kNsPerSecond ≤
      cfg.maxOrdersPerSec * (2 * kNsPerSecond - 1) := by
  have rate : (0 : ℚ) ≤ cfg.maxOrdersPerSec := by exact_mod_cast nonneg
  have steady : 0 ≤ refillRate cfg := div_nonneg rate (Nat.cast_nonneg _)
  have full : Filled (cfg.maxOrdersPerSec : ℚ) (new symbols cfg).bucket := ⟨rate, le_refl _⟩
  have sorted := timely.1.sublist ((List.filter_sublist (p := fun call =>
    (new symbols cfg).gate A call.1 call.2 = none)).map Prod.fst)
  have bound := inWindow_successes_le steady start kNsPerSecond _ full sorted
  rw [approvalTimes_eq calls (new_metered symbols cfg) timely (by simp)]
  change (inWindow start kNsPerSecond (successes (refillRate cfg) cfg.maxOrdersPerSec
    (new symbols cfg).bucket _) : Int) * _ ≤ _
  generalize inWindow start kNsPerSecond _ = approved at bound ⊢
  have scaled : (approved : ℚ) * kNsPerSecond ≤ cfg.maxOrdersPerSec * (2 * kNsPerSecond - 1) := by
    simp only [refillRate, kNsPerSecond] at bound ⊢
    norm_num at bound ⊢
    linarith
  exact_mod_cast scaled

/-- The limit of 110% holds for every sequence of checks exactly if at most one order per
second is configured or none can be approved at all: a full bucket allows a burst, and the
refill of the same second comes on top. -/
theorem rate_limit_iff (symbols : Option SymbolMaster) (cfg : RiskConfig) :
    (∀ calls, Timely calls → ∀ start,
      10 * (inWindow start kNsPerSecond (approvalTimes A (new symbols cfg) calls) : Int) ≤
        11 * cfg.maxOrdersPerSec) ↔
      0 ≤ cfg.maxOrdersPerSec ∧ (cfg.maxOrdersPerSec ≤ 1 ∨ Closed A (new symbols cfg)) := by
  constructor
  · intro limited
    -- without any call nothing is approved, so the limit cannot be negative
    have nonneg : 0 ≤ cfg.maxOrdersPerSec := by
      have nothing := limited [] ⟨.nil, by simp⟩ 0
      simp only [approvalTimes, inWindow, List.countP_nil] at nothing
      omega
    refine ⟨nonneg, ?_⟩
    by_contra open_
    obtain ⟨several, passes⟩ := not_or.mp open_
    obtain ⟨now, o, passed⟩ : ∃ now o, (new symbols cfg).gate A now o = none := by
      simpa [Closed] using passes
    obtain ⟨count, configured⟩ := Int.eq_ofNat_of_zero_le nonneg
    -- one and a half buckets within a second
    have exceeded := limited (burst count o) (burst_timely count o) 36000000000000
    rw [burst_approved symbols cfg count o configured (by omega) passed, burst_times,
      inWindow_append] at exceeded
    simp only [inWindow, List.countP_replicate, kNsPerSecond] at exceeded
    norm_num at exceeded
    omega
  · rintro ⟨nonneg, few⟩ calls timely start
    rcases few with few | closed
    · -- a bound below two orders is a bound of one
      have bound := approvals_in_window_le (A := A) symbols cfg nonneg calls timely start
      have single : cfg.maxOrdersPerSec = 0 ∨ cfg.maxOrdersPerSec = 1 := by omega
      simp only [kNsPerSecond] at bound ⊢
      rcases single with zero | one
      · omega
      · omega
    · have none : calls.filter (fun call => (new symbols cfg).gate A call.1 call.2 = none) = [] :=
        List.filter_eq_nil_iff.mpr fun call _ => by simpa using closed call.1 call.2
      rw [approvalTimes_eq calls (new_metered symbols cfg) timely (by simp), none]
      simp only [List.map_nil, successes, inWindow, List.countP_nil]
      omega

/-- Two orders per second are configured, three are approved within half a second. -/
theorem burst_exceeds_limit :
    let o : Order := { token := 7, price := 100, qty := 1 }
    Timely (burst 2 o) ∧
      10 * (inWindow 36000000000000 kNsPerSecond
        (approvalTimes .wrapping (new none { maxOrdersPerSec := 2 }) (burst 2 o)) : Int) > 11 * 2 :=
  ⟨burst_timely 2 _, by decide +kernel⟩

end Window

/-! ### Deleting a rejected order -/

section Deletion

inductive Op where
  | setNow (istNs : Nat)
  | check (wallClock : Nat) (o : Order)
  | onFill (fill : FillReport)
  | updateReference (token : Nat) (bid ask : Int)
  | setKillSwitch (on : Bool)

/-- Only a check has a result. -/
def perform (A : Arithmetic) (rm : RiskManager) : Op → Option RejectReason × RiskManager
  | .setNow istNs => (none, rm.setNow istNs)
  | .check wallClock o => (rm.check A wallClock o).map some id
  | .onFill fill => (none, rm.onFill A fill)
  | .updateReference token bid ask => (none, rm.updateReference token bid ask)
  | .setKillSwitch on => (none, rm.setKillSwitch on)

/-- The clock is never set to zero and never goes back; `sim` is the time that is set, `last`
the time of the last check or setting. -/
def Clocked (sim last : Nat) : List Op → Prop
  | [] => True
  | .setNow istNs :: rest => istNs ≠ 0 ∧ last ≤ istNs ∧ Clocked istNs istNs rest
  | .check wallClock _ :: rest =>
    let now := if sim ≠ 0 then sim else wallClock
    now ≠ 0 ∧ last ≤ now ∧ Clocked sim now rest
  | _ :: rest => Clocked sim last rest

/-- Equal but for the bucket, and the buckets answer alike from `last` on. -/
structure Twins (last : Nat) (rm twin : RiskManager) : Prop where
  same : twin = rm.setBucket twin.bucket
  metered : Metered last rm
  metered' : Metered last twin
  alike : Alike (refillRate rm.cfg) rm.cfg.maxOrdersPerSec last rm.bucket twin.bucket

/-- An update that has nothing to do with the limiter or the clock. -/
structure Neutral (f : RiskManager → RiskManager) : Prop where
  tokens : ∀ rm, (f rm).tokens = rm.tokens
  lastRefill : ∀ rm, (f rm).lastRefillNs = rm.lastRefillNs
  cfg : ∀ rm, (f rm).cfg = rm.cfg
  commutes : ∀ rm b, f (rm.setBucket b) = (f rm).setBucket b

variable {twin : RiskManager} {last : Nat} {f : RiskManager → RiskManager}

theorem setNow_neutral (istNs : Nat) : Neutral fun rm => rm.setNow istNs :=
  ⟨fun _ => rfl, fun _ => rfl, fun _ => rfl, fun _ _ => rfl⟩

theorem setKillSwitch_neutral (on : Bool) : Neutral fun rm => rm.setKillSwitch on :=
  ⟨fun _ => rfl, fun _ => rfl, fun _ => rfl, fun _ _ => rfl⟩

theorem onFill_neutral (A : Arithmetic) (fill : FillReport) : Neutral fun rm => rm.onFill A fill := by
  unfold onFill
  constructor <;> intros <;> split <;> rfl

theorem updateReference_neutral (token : Nat) (bid ask : Int) :
    Neutral fun rm => rm.updateReference token bid ask := by
  unfold updateReference
  constructor <;> intros <;> split <;> rfl

theorem Neutral.bucket_eq (neutral : Neutral f) (rm : RiskManager) : (f rm).bucket = rm.bucket := by
  simp only [bucket, neutral.tokens, neutral.lastRefill]

theorem Neutral.metered (neutral : Neutral f) (metered : Metered now rm) : Metered now (f rm) := by
  obtain ⟨filled, past, full⟩ := metered
  refine ⟨?_, ?_, ?_⟩
  · rwa [neutral.tokens, neutral.cfg]
  · rwa [neutral.lastRefill]
  · rwa [neutral.tokens, neutral.cfg, neutral.lastRefill]

theorem Twins.neutral (twins : Twins last rm twin) (neutral : Neutral f) :
    Twins last (f rm) (f twin) := by
  refine ⟨?_, neutral.metered twins.metered, neutral.metered twins.metered', ?_⟩
  · rw [neutral.bucket_eq, ← neutral.commutes, ← twins.same]
  · rw [neutral.bucket_eq, neutral.bucket_eq, neutral.cfg]
    exact twins.alike

theorem Twins.mono (twins : Twins last rm twin) (next : last ≤ now) : Twins now rm twin :=
  ⟨twins.same, twins.metered.mono next, twins.metered'.mono next,
    twins.alike.imp id fun same later past => same later (next.trans past)⟩

/-- A check answers twins alike and leaves twins. -/
theorem Twins.check (twins : Twins last rm twin) {wallClock : Nat} (o : Order)
    (started : rm.clock wallClock ≠ 0) (next : last ≤ rm.clock wallClock) :
    (rm.check A wallClock o).1 = (twin.check A wallClock o).1 ∧
      Twins (rm.clock wallClock) (rm.check A wallClock o).2 (twin.check A wallClock o).2 := by
  -- twins differ in nothing that the clock and the gates read
  have current := twins.mono next
  have sameClock : twin.clock wallClock = rm.clock wallClock := by rw [twins.same]; rfl
  have sameGate : twin.gate A (rm.clock wallClock) o = rm.gate A (rm.clock wallClock) o := by
    rw [twins.same]
    rfl
  have sameCfg : twin.cfg = rm.cfg := by rw [twins.same]; rfl
  have checked := @check_eq A twin wallClock (by rw [sameClock]; exact current.metered')
    (by rwa [sameClock]) o
  rw [check_eq current.metered started, checked, sameClock, sameGate]
  cases rm.gate A (rm.clock wallClock) o with
  | some reason => exact ⟨rfl, current⟩
  | none =>
    obtain ⟨outcome, alike⟩ := twins.alike.attempt _ _ twins.metered.filled
      (sameCfg ▸ twins.metered'.filled) next
    have drawn_eq : twin.drawn (rm.clock wallClock) =
        attempt (refillRate rm.cfg) rm.cfg.maxOrdersPerSec twin.bucket (rm.clock wallClock) := by
      rw [drawn, sameCfg]
    have stamp : (rm.drawn (rm.clock wallClock)).2.stamp = some (rm.clock wallClock) :=
      attempt_stamp _ _ _ _
    have stamp' : (twin.drawn (rm.clock wallClock)).2.stamp = some (rm.clock wallClock) :=
      attempt_stamp _ _ _ _
    have rebased (b : Bucket ℚ) : twin.setBucket b = rm.setBucket b := by rw [twins.same]; rfl
    refine ⟨?_, ⟨?_, ?_, ?_, ?_⟩⟩
    · rw [drawn_eq, drawn, outcome]
    · dsimp only
      rw [bucket_setBucket stamp' started, rebased]
      rfl
    · exact setBucket_metered stamp started (attempt_level_le twins.metered.filled _)
    · exact setBucket_metered stamp' started (attempt_level_le twins.metered'.filled _)
    · rw [bucket_setBucket stamp started, bucket_setBucket stamp' started, drawn_eq]
      exact alike

/-- A rejected check leaves a twin of what it found. -/
theorem check_rejected_twins {wallClock : Nat} {o : Order}
    (metered : Metered (rm.clock wallClock) rm) (started : rm.clock wallClock ≠ 0)
    (rejected : (rm.check A wallClock o).1 ≠ .approved) :
    Twins (rm.clock wallClock) rm (rm.check A wallClock o).2 := by
  have metered' := @check_metered A rm wallClock metered started o
  rw [check_eq metered started] at rejected metered' ⊢
  cases passed : rm.gate A (rm.clock wallClock) o with
  -- an objection leaves the manager as it was
  | some reason =>
    exact ⟨(setBucket_bucket rm).symm, metered, metered, .inr fun _ _ => rfl⟩
  | none =>
    rw [passed] at rejected metered'
    have stamp : (rm.drawn (rm.clock wallClock)).2.stamp = some (rm.clock wallClock) :=
      attempt_stamp _ _ _ _
    have failed : (rm.drawn (rm.clock wallClock)).1 = false := by
      by_contra granted
      exact rejected (if_pos (by simpa using granted))
    refine ⟨?_, metered, metered', ?_⟩
    · rw [bucket_setBucket stamp started]
    · rw [bucket_setBucket stamp started]
      refine alike_of_failed ?_ ?_ ?_ failed
      · -- a cap of at least one means a rate that refills
        rcases lt_or_ge (rm.cfg.maxOrdersPerSec : ℚ) 1 with small | large
        · exact .inl small
        · exact .inr (div_nonneg (zero_le_one.trans large) (Nat.cast_nonneg _))
      · intro unstarted
        apply metered.full
        by_contra differs
        simp [bucket, differs] at unstarted
      · intro last member
        have past := metered.past
        simp only [bucket, Option.mem_def] at member
        split at member
        · cases member
        · cases member
          exact past

theorem check_simNow (rm : RiskManager) (wallClock : Nat) (o : Order) :
    (rm.check A wallClock o).2.simNowNs = rm.simNowNs := by
  have frame (now : Nat) : (rm.consumeRateToken now).2.simNowNs = rm.simNowNs := by
    simp only [consumeRateToken]
    split_ifs <;> rfl
  simp only [RiskManager.check]
  split
  · rfl
  · split
    next equal => rw [← frame, equal]
    next equal => rw [← frame, equal]

theorem onFill_simNow (rm : RiskManager) (fill : FillReport) :
    (rm.onFill A fill).simNowNs = rm.simNowNs := by
  unfold onFill
  split <;> rfl

theorem updateReference_simNow (rm : RiskManager) (token : Nat) (bid ask : Int) :
    (rm.updateReference token bid ask).simNowNs = rm.simNowNs := by
  unfold updateReference
  split <;> rfl

/-- One operation on twins, with the clock that goes on. -/
theorem Twins.perform (twins : Twins last rm twin) (op : Op) (rest : List Op)
    (clocked : Clocked rm.simNowNs last (op :: rest)) :
    (rm.perform A op).1 = (twin.perform A op).1 ∧
      ∃ next, Twins next (rm.perform A op).2 (twin.perform A op).2 ∧
        Clocked (rm.perform A op).2.simNowNs next rest := by
  cases op with
  | setNow istNs =>
    exact ⟨rfl, istNs, (twins.neutral (setNow_neutral istNs)).mono clocked.2.1, clocked.2.2⟩
  | check wallClock o =>
    obtain ⟨started, next, after⟩ := clocked
    obtain ⟨outcome, left⟩ := twins.check (A := A) o started next
    refine ⟨congrArg some outcome, _, left, ?_⟩
    simp only [RiskManager.perform, Prod.map_snd, id_eq, check_simNow]
    exact after
  | onFill fill =>
    refine ⟨rfl, last, twins.neutral (onFill_neutral A fill), ?_⟩
    simp only [RiskManager.perform, onFill_simNow]
    exact clocked
  | updateReference token bid ask =>
    refine ⟨rfl, last, twins.neutral (updateReference_neutral token bid ask), ?_⟩
    simp only [RiskManager.perform, updateReference_simNow]
    exact clocked
  | setKillSwitch on =>
    exact ⟨rfl, last, twins.neutral (setKillSwitch_neutral on), clocked⟩

/-- The rest of a history goes the same way from twins. -/
theorem Twins.answers (twins : Twins last rm twin) (ops : List Op)
    (clocked : Clocked rm.simNowNs last ops) :
    Machine.answers (RiskManager.perform A) rm ops = Machine.answers (RiskManager.perform A) twin ops ∧
      ∃ next, Twins next (Machine.after (RiskManager.perform A) rm ops)
        (Machine.after (RiskManager.perform A) twin ops) := by
  induction ops generalizing rm twin last with
  | nil => exact ⟨rfl, last, twins⟩
  | cons op rest ih =>
    obtain ⟨outcome, next, left, after⟩ := twins.perform (A := A) op rest clocked
    obtain ⟨outcomes, final⟩ := ih left after
    exact ⟨by rw [Machine.answers, Machine.answers, outcome, outcomes], final⟩

/-- The limiter is metered all along. A manager is its own twin, which gives the step. -/
theorem Metered.perform (metered : Metered last rm) (op : Op) (rest : List Op)
    (clocked : Clocked rm.simNowNs last (op :: rest)) :
    ∃ next, Metered next (rm.perform A op).2 ∧ Clocked (rm.perform A op).2.simNowNs next rest := by
  have self : Twins last rm rm :=
    ⟨(setBucket_bucket rm).symm, metered, metered, .inr fun _ _ => rfl⟩
  obtain ⟨_, next, left, after⟩ := self.perform (A := A) op rest clocked
  exact ⟨next, left.metered, after⟩

/-- Positions, profit and loss and the kill switches agree. -/
def SameBooks (rm rm' : RiskManager) : Prop :=
  rm'.position = rm.position ∧ rm'.cashflowPaisa = rm.cashflowPaisa ∧
    rm'.markPnlInr = rm.markPnlInr ∧ rm'.killSwitch = rm.killSwitch ∧
    rm'.dailyLossKill = rm.dailyLossKill

/-- The answers and the books of a history in which a rejected check is left out. -/
private theorem deleted_from (before later : List Op) (wallClock : Nat) (o : Order)
    (metered : Metered last rm)
    (clocked : Clocked rm.simNowNs last (before ++ .check wallClock o :: later))
    (rejected : ((Machine.after (perform A) rm before).check A wallClock o).1 ≠ .approved) :
    Machine.answers (perform A) rm (before ++ later) =
      Machine.answers (perform A) rm before ++
        Machine.answers (perform A)
          ((Machine.after (perform A) rm before).check A wallClock o).2 later ∧
      SameBooks (Machine.after (perform A) rm (before ++ later))
        (Machine.after (perform A) rm (before ++ .check wallClock o :: later)) := by
  induction before generalizing rm last with
  | nil =>
    -- from here on the two histories are those of twins
    obtain ⟨started, next, after⟩ := clocked
    have twins := check_rejected_twins (metered.mono next) started rejected
    obtain ⟨outcomes, _, final⟩ := twins.answers (A := A) later after
    refine ⟨outcomes, ?_⟩
    have same := final.same
    rw [List.nil_append, List.nil_append]
    change SameBooks _ (Machine.after (RiskManager.perform A)
      (RiskManager.check A rm wallClock o).2 later)
    rw [same]
    exact ⟨rfl, rfl, rfl, rfl, rfl⟩
  | cons op rest ih =>
    obtain ⟨next, after, clockedRest⟩ := metered.perform (A := A) op _ clocked
    obtain ⟨outcomes, books⟩ := ih after clockedRest rejected
    exact ⟨congrArg _ outcomes, books⟩

/-- Deleting a check that was rejected, for whatever reason, changes neither the answer to any
other check nor the positions, the profit and loss or the kill switches. -/
theorem rejected_check_no_influence (symbols : Option SymbolMaster) (cfg : RiskConfig)
    (before later : List Op) (wallClock : Nat) (o : Order)
    (clocked : Clocked 0 0 (before ++ .check wallClock o :: later))
    (rejected : ((Machine.after (perform A) (new symbols cfg) before).check A wallClock o).1 ≠
      .approved) :
    ∃ reason answers,
      Machine.answers (perform A) (new symbols cfg) (before ++ .check wallClock o :: later) =
        Machine.answers (perform A) (new symbols cfg) before ++ some reason :: answers ∧
      Machine.answers (perform A) (new symbols cfg) (before ++ later) =
        Machine.answers (perform A) (new symbols cfg) before ++ answers ∧
      SameBooks (Machine.after (perform A) (new symbols cfg) (before ++ later))
        (Machine.after (perform A) (new symbols cfg) (before ++ .check wallClock o :: later)) := by
  obtain ⟨without, books⟩ := deleted_from before later wallClock o (new_metered symbols cfg)
    clocked rejected
  exact ⟨_, _, Machine.answers_append _ _ _ _, without, books⟩

private def oneOrder : Order := { token := 7, price := 100, qty := 1 }

private def onePerSecond : RiskManager := new none { maxOrdersPerSec := 1 }

private def firstOrder : List Op := [.setNow 36000000000000, .check 0 oneOrder]

private def nextOrder : List Op := [.setNow 36001000000000, .check 0 oneOrder]

/-- The second order of a second is refused and might as well not have been sent. -/
theorem second_order_left_out :
    ((Machine.after (perform .wrapping) onePerSecond firstOrder).check .wrapping 0 oneOrder).1 =
        .rateLimitExceeded ∧
      SameBooks (Machine.after (perform .wrapping) onePerSecond (firstOrder ++ nextOrder))
        (Machine.after (perform .wrapping) onePerSecond
          (firstOrder ++ .check 0 oneOrder :: nextOrder)) := by
  have refused : ((Machine.after (perform .wrapping) onePerSecond firstOrder).check .wrapping 0
      oneOrder).1 = .rateLimitExceeded := by decide +kernel
  obtain ⟨_, _, _, _, books⟩ := rejected_check_no_influence (A := .wrapping) none
    { maxOrdersPerSec := 1 } firstOrder nextOrder 0 oneOrder
    (by simp [firstOrder, nextOrder, Clocked])
    (fun approved => absurd (refused.symm.trans approved) (by decide))
  exact ⟨refused, books⟩

end Deletion

end RiskManager

end NseHft
