import NseHft.Common.DroppingChannel
import NseHft.Lib.CText
import NseHft.Lib.Machine

/-!
# Asynchronous logger

The thread that logs pushes fixed-size entries into the ring and never waits; the drain thread
pops them, renders them to the file and flushes. The destructor stops the drain thread, waits
for it and drains the rest itself. Every access to shared memory is a step of its own. What
stdio buffers is kept apart from what an `fflush` has put on disk.
-/
namespace NseHft

open FixedWidth CText

inductive LogLevel where
  | debug
  | info
  | warn
  | error
  | critical
  deriving DecidableEq, Repr

def LogLevel.text : LogLevel → List UInt8
  | debug => ascii "DEBUG"
  | info => ascii "INFO"
  | warn => ascii "WARN"
  | error => ascii "ERROR"
  | critical => ascii "CRITICAL"

/-- The tag is an array of 31 characters. -/
structure LogEntry where
  tsIst : Nat
  level : LogLevel
  tag : List UInt8
  arg0 : Int
  arg1 : Int
  arg2 : Int
  arg3 : Int
  deriving DecidableEq, Repr

/-- `strncpy` of at most 30 characters, padded with zeros, and the final zero. -/
def copyTag (tag : List UInt8) : List UInt8 :=
  let text := (cString tag).take 30
  text ++ List.replicate (31 - text.length) 0

def decimal (n : Nat) : List UInt8 := ascii (toString n)

def signedDecimal (z : Int) : List UInt8 := ascii (toString z)

/-- The line that is printed for an entry. -/
def LogEntry.line (e : LogEntry) : List UInt8 :=
  decimal e.tsIst ++ ascii " [" ++ e.level.text ++ ascii "] " ++ cString e.tag ++ ascii " " ++
    signedDecimal e.arg0 ++ ascii " " ++ signedDecimal e.arg1 ++ ascii " " ++
    signedDecimal e.arg2 ++ ascii " " ++ signedDecimal e.arg3 ++ [10]

/-- How far a call of `log` has come. -/
inductive LogCall
  | idle
  | pushing (level : LogLevel)
  | requesting
  deriving DecidableEq

/-- The entry that a call still has to push. -/
def LogCall.waiting : LogCall → Nat
  | .pushing _ => 1
  | .idle | .requesting => 0

/-- A call whose entry is in the ring and that has yet to ask for a flush. -/
def LogCall.accepted : LogCall → Nat
  | .requesting => 1
  | .idle | .pushing _ => 0

/-- Where the thread that drains stands: before it loads `running_`, in the inner loop of a
pass, behind it, in the destructor's `Flush`, and at its end. A pass knows whether it has
rendered anything. -/
inductive DrainState
  | loop
  | draining (any : Bool)
  | flushing (any : Bool)
  | closing
  | closed
  deriving DecidableEq

/-- The pass that is under way may have rendered something. -/
def DrainState.midPass : DrainState → Bool
  | .draining any | .flushing any => any
  | .closing => true
  | .loop | .closed => false

structure AsyncLogger where
  queue : Channel LogEntry
  hasFile : Bool
  running : Bool := true
  flushRequest : Bool := false
  caller : LogCall := .idle
  drain : DrainState := .loop
  written : List UInt8 := []
  onDisk : List UInt8 := []

namespace AsyncLogger

variable (c : Capacity)

/-- The entry is built before the queue is touched. -/
def log (lg : AsyncLogger) (now : Nat) (level : LogLevel) (tag : List UInt8)
    (a0 a1 a2 a3 : Int) : AsyncLogger :=
  { lg with
    queue := lg.queue.offer [⟨now, level, copyTag tag, a0, a1, a2, a3⟩]
    caller := .pushing level }

/-- The next access of a call of `log`; its result is there once the call has returned. -/
def logStep (lg : AsyncLogger) : Option Bool × AsyncLogger :=
  match lg.caller with
  | .idle => (none, lg)
  | .pushing level =>
    let queue := lg.queue.pushStep c
    if queue.backlog ≠ [] then (none, { lg with queue := queue })
    else if queue.dropped ≠ lg.queue.dropped then
      (some false, { lg with queue := queue, caller := .idle })
    else if level = .critical then (none, { lg with queue := queue, caller := .requesting })
    else (some true, { lg with queue := queue, caller := .idle })
  | .requesting => (some true, { lg with flushRequest := true, caller := .idle })

def render (lg : AsyncLogger) (e : LogEntry) : AsyncLogger :=
  if lg.hasFile then { lg with written := lg.written ++ e.line } else lg

def fflush (lg : AsyncLogger) : AsyncLogger :=
  if lg.hasFile then { lg with onDisk := lg.written } else lg

/-- The next access in a loop `while (queue_.pop(e)) Render(e)`, with what comes behind a
rendered entry and behind the loop. -/
def popLoopStep (lg : AsyncLogger) (rendering leaving : AsyncLogger → AsyncLogger) : AsyncLogger :=
  let popped := (lg.queue.popStep c).1
  let lg := { lg with queue := (lg.queue.popStep c).2 }
  match popped with
  | none => lg
  | some none => leaving lg
  | some (some e) => rendering (lg.render e)

/-- The next access of the thread that drains: the drain thread in `DrainLoop`, and behind its
end the destructor in `Flush`. -/
def drainStep (lg : AsyncLogger) : AsyncLogger :=
  match lg.drain with
  | .loop => { lg with drain := if lg.running then .draining false else .closing }
  | .draining any =>
    lg.popLoopStep c (fun lg => { lg with drain := .draining true })
      (fun lg => { lg with drain := .flushing any })
  | .flushing any =>
    let requested := lg.flushRequest
    let lg := { lg with flushRequest := false }
    { if requested || any then lg.fflush else lg with drain := .loop }
  | .closing => lg.popLoopStep c id (fun lg => { lg.fflush with drain := .closed })
  | .closed => lg

/-- A step of the thread that logs, of the one that drains or of the owner. -/
inductive Turn
  | log (now : Nat) (level : LogLevel) (tag : List UInt8) (a0 a1 a2 a3 : Int)
  | caller
  | drain
  | stop

/-- A call of `log` starts only when the one before has returned. -/
def step (lg : AsyncLogger) : Turn → Option Bool × AsyncLogger
  | .log now level tag a0 a1 a2 a3 =>
    (none, if lg.caller = .idle then lg.log now level tag a0 a1 a2 a3 else lg)
  | .caller => lg.logStep c
  | .drain => (none, lg.drainStep c)
  | .stop => (none, { lg with running := false })

/-- A logger over arbitrary memory, whose file could be opened or not. -/
def new (memory : Nat → LogEntry) (hasFile : Bool) : AsyncLogger :=
  { queue := .new memory, hasFile := hasFile }

def after (lg : AsyncLogger) (turns : List Turn) : AsyncLogger := Machine.after (step c) lg turns

/-! ### What every step keeps -/

/-- The text of some entries, as far as there is a file. -/
def rendered (hasFile : Bool) (entries : List LogEntry) : List UInt8 :=
  if hasFile then entries.flatMap LogEntry.line else []

/-- The file has the lines of the entries that were popped. -/
structure Rendered (lg : AsyncLogger) : Prop where
  conserves : Channel.Conserves c lg.queue
  written : lg.written = rendered lg.hasFile lg.queue.ring.popped

/-- Only the lines of the pass that is under way are not flushed. -/
def Flushed (lg : AsyncLogger) : Prop :=
  lg.onDisk <+: lg.written ∧ (lg.drain.midPass = false → lg.onDisk = lg.written)

structure Ok (lg : AsyncLogger) : Prop where
  rendered : Rendered c lg
  flushed : lg.Flushed
  waiting : lg.queue.backlog.length = lg.caller.waiting

section Steps

variable {c} {lg : AsyncLogger}

theorem new_ok (memory : Nat → LogEntry) (hasFile : Bool) : Ok c (new memory hasFile) := by
  refine ⟨⟨Channel.new_conserves memory, ?_⟩, ⟨List.prefix_refl [], fun _ => rfl⟩, rfl⟩
  cases hasFile <;> rfl

/-- An access to the queue by the thread that drains, with the entry rendered if it popped one:
all else stays. -/
structure PopsTo (c : Capacity) (lg lg' : AsyncLogger) : Prop where
  rendered : Rendered c lg'
  backlog : lg'.queue.backlog = lg.queue.backlog
  pushed : lg'.queue.ring.pushed = lg.queue.ring.pushed
  onDisk : lg'.onDisk = lg.onDisk
  drain : lg'.drain = lg.drain
  caller : lg'.caller = lg.caller
  running : lg'.running = lg.running
  hasFile : lg'.hasFile = lg.hasFile
  grows : lg.written <+: lg'.written

theorem rendered_snoc (hasFile : Bool) (entries : List LogEntry) (e : LogEntry) :
    rendered hasFile (entries ++ [e]) =
      rendered hasFile entries ++ if hasFile then e.line else [] := by
  cases hasFile <;> simp [rendered]

/-- An access that pops nothing. -/
private theorem popsTo_access (ok : Rendered c lg)
    (same : (RingBuffer.popStep c lg.queue.ring).2.popped = lg.queue.ring.popped) :
    PopsTo c lg { lg with queue := (lg.queue.popStep c).2 } := by
  refine ⟨⟨Channel.popStep_conserves ok.conserves, ?_⟩, rfl, RingBuffer.popStep_frame.2, rfl, rfl, rfl,
    rfl, rfl, List.prefix_refl _⟩
  rw [Channel.popStep, same]
  exact ok.written

/-- An access that pops an entry, which is rendered. -/
private theorem popsTo_render (ok : Rendered c lg) {e : LogEntry}
    (added : (RingBuffer.popStep c lg.queue.ring).2.popped = lg.queue.ring.popped ++ [e]) :
    PopsTo c lg (({ lg with queue := (lg.queue.popStep c).2 } : AsyncLogger).render e) := by
  have conserves := Channel.popStep_conserves ok.conserves
  have pushed := (@RingBuffer.popStep_frame _ c lg.queue.ring).2
  have text := rendered_snoc lg.hasFile lg.queue.ring.popped e
  rw [← added, ← ok.written] at text
  unfold render
  split
  next file =>
    rw [if_pos file] at text
    exact ⟨⟨conserves, text.symm⟩, rfl, pushed, rfl, rfl, rfl, rfl, rfl, List.prefix_append _ _⟩
  next file =>
    rw [if_neg file, List.append_nil] at text
    exact ⟨⟨conserves, text.symm⟩, rfl, pushed, rfl, rfl, rfl, rfl, rfl, List.prefix_refl _⟩

/-- What an access in one of the two loops does. The loop is left when the ring is empty. -/
theorem popLoopStep_cases (ok : Rendered c lg) (rendering leaving : AsyncLogger → AsyncLogger) :
    ∃ lg', PopsTo c lg lg' ∧
      ((lg.popLoopStep c rendering leaving = lg' ∧ lg'.written = lg.written ∧
          lg'.queue.ring.popsLeft < lg.queue.ring.popsLeft) ∨
        (lg.popLoopStep c rendering leaving = rendering lg' ∧
          lg'.queue.ring.popsLeft < lg.queue.ring.popsLeft) ∨
        (lg.popLoopStep c rendering leaving = leaving lg' ∧ lg'.written = lg.written ∧
          lg'.queue.ring.popped = lg'.queue.ring.pushed ∧ lg'.queue.ring.consumer = .idle ∧
          0 < lg.queue.ring.popsLeft)) := by
  obtain ⟨contents, rep⟩ := ok.conserves.represents
  have left := rep.popStep_left
  have pushed := (@RingBuffer.popStep_frame _ c lg.queue.ring).2
  rcases @RingBuffer.popStep_effect _ c lg.queue.ring with
    ⟨returned, same⟩ | ⟨returned, same, idle⟩ | ⟨e, returned, added, idle⟩
  · refine ⟨_, popsTo_access ok same, .inl ⟨?_, rfl, ?_⟩⟩
    · simp only [popLoopStep, Channel.popStep, returned]
    · exact left.resolve_right (by simp [returned])
  · -- the call that fails has seen an empty ring
    have empty := rep.empty_of_pop_fails returned
    have all : lg.queue.ring.popped = lg.queue.ring.pushed := by
      rw [rep.run.history, empty, List.append_nil]
    refine ⟨_, popsTo_access ok same, .inr (.inr ⟨?_, rfl, ?_, idle, ?_⟩)⟩
    · simp only [popLoopStep, Channel.popStep, returned]
    · exact same.trans (all.trans pushed.symm)
    · rcases left with fewer | ⟨_, _, some⟩
      · exact Nat.zero_lt_of_lt fewer
      · exact some
  · refine ⟨_, popsTo_render ok added, .inr (.inl ⟨?_, ?_⟩)⟩
    · simp only [popLoopStep, Channel.popStep, returned]
    · have fewer := left.resolve_right (by simp [returned])
      unfold render
      split <;> exact fewer

@[simp] theorem fflush_queue : lg.fflush.queue = lg.queue := by
  unfold fflush
  split <;> rfl

@[simp] theorem fflush_written : lg.fflush.written = lg.written := by
  unfold fflush
  split <;> rfl

@[simp] theorem fflush_caller : lg.fflush.caller = lg.caller := by
  unfold fflush
  split <;> rfl

@[simp] theorem fflush_running : lg.fflush.running = lg.running := by
  unfold fflush
  split <;> rfl

@[simp] theorem fflush_hasFile : lg.fflush.hasFile = lg.hasFile := by
  unfold fflush
  split <;> rfl

/-- Without a file nothing is written, so there is nothing to flush either. -/
theorem fflush_onDisk (ok : Rendered c lg) (disk : lg.onDisk <+: lg.written) :
    lg.fflush.onDisk = lg.written := by
  unfold fflush
  split
  next => rfl
  next file =>
    have nothing : lg.written = [] := by rw [ok.written, rendered, if_neg file]
    rw [nothing] at disk ⊢
    exact List.prefix_nil.mp disk

/-- The steps of the thread that drains, each with the phase it is made in. -/
inductive DrainEffect (c : Capacity) (lg : AsyncLogger) : AsyncLogger → Prop
  | check : lg.drain = .loop →
      DrainEffect c lg { lg with drain := if lg.running then .draining false else .closing }
  | access {lg' : AsyncLogger} : (∃ any, lg.drain = .draining any) ∨ lg.drain = .closing →
      PopsTo c lg lg' → lg'.written = lg.written →
      lg'.queue.ring.popsLeft < lg.queue.ring.popsLeft → DrainEffect c lg lg'
  | line {any : Bool} {lg' : AsyncLogger} : lg.drain = .draining any → PopsTo c lg lg' →
      lg'.queue.ring.popsLeft < lg.queue.ring.popsLeft →
      DrainEffect c lg { lg' with drain := .draining true }
  | emptied {any : Bool} {lg' : AsyncLogger} : lg.drain = .draining any → PopsTo c lg lg' →
      lg'.written = lg.written → lg'.queue.ring.popsLeft = 2 → 0 < lg.queue.ring.popsLeft →
      DrainEffect c lg { lg' with drain := .flushing any }
  | flush {any : Bool} : lg.drain = .flushing any →
      DrainEffect c lg { ({ lg with flushRequest := false } : AsyncLogger).fflush with drain := .loop }
  | unchanged : lg.drain = .flushing false →
      DrainEffect c lg { lg with flushRequest := false, drain := .loop }
  | lastLine {lg' : AsyncLogger} : lg.drain = .closing → PopsTo c lg lg' →
      lg'.queue.ring.popsLeft < lg.queue.ring.popsLeft → DrainEffect c lg lg'
  | close {lg' : AsyncLogger} : lg.drain = .closing → PopsTo c lg lg' →
      lg'.queue.ring.popped = lg'.queue.ring.pushed → 0 < lg.queue.ring.popsLeft →
      DrainEffect c lg { lg'.fflush with drain := .closed }
  | rest : lg.drain = .closed → DrainEffect c lg lg

theorem drainStep_effect (ok : Rendered c lg) : DrainEffect c lg (lg.drainStep c) := by
  unfold drainStep
  cases phase : lg.drain with
  | loop => exact .check phase
  | draining any =>
    dsimp only
    obtain ⟨lg', pops, ⟨next, unwritten, fewer⟩ | ⟨next, fewer⟩ | ⟨next, unwritten, all, idle, some⟩⟩ :=
      popLoopStep_cases ok (fun lg => { lg with drain := .draining true })
        (fun lg => { lg with drain := .flushing any })
    · rw [next]
      exact .access (.inl ⟨any, phase⟩) pops unwritten fewer
    · rw [next]
      exact .line phase pops fewer
    · have two : lg'.queue.ring.popsLeft = 2 := by
        rw [RingBuffer.popsLeft, all, idle, Nat.sub_self]
        rfl
      rw [next]
      exact .emptied phase pops unwritten two some
  | flushing any =>
    dsimp only
    split
    · rw [← phase]
      exact .flush phase
    next unflushed =>
      simp only [Bool.or_eq_true, not_or, Bool.not_eq_true] at unflushed
      rw [unflushed.2] at phase
      exact .unchanged phase
  | closing =>
    dsimp only
    obtain ⟨lg', pops, ⟨next, unwritten, fewer⟩ | ⟨next, fewer⟩ | ⟨next, _, all, _, some⟩⟩ :=
      popLoopStep_cases ok id (fun lg => { lg.fflush with drain := .closed })
    · rw [next]
      exact .access (.inr phase) pops unwritten fewer
    · rw [next]
      exact .lastLine phase pops fewer
    · rw [next]
      exact .close phase pops all some
  | closed => exact .rest phase

/-- What the thread does with the queue leaves the rest of the invariant to the phase. -/
private theorem PopsTo.ok {lg' : AsyncLogger} (pops : PopsTo c lg lg') (ok : Ok c lg)
    (drain : DrainState) (all : drain.midPass = false → lg'.onDisk = lg'.written) :
    Ok c { lg' with drain := drain } := by
  refine ⟨⟨pops.rendered.conserves, pops.rendered.written⟩, ⟨?_, all⟩, ?_⟩
  · exact pops.onDisk ▸ ok.flushed.1.trans pops.grows
  · rw [pops.caller, pops.backlog]
    exact ok.waiting

theorem fflush_ok (rendered : Rendered c lg) (disk : lg.onDisk <+: lg.written)
    (waiting : lg.queue.backlog.length = lg.caller.waiting) (drain : DrainState) :
    Ok c { lg.fflush with drain := drain } := by
  have flushed : lg.fflush.onDisk = lg.fflush.written := by
    rw [fflush_onDisk rendered disk, fflush_written]
  refine ⟨⟨?_, ?_⟩, ⟨?_, fun _ => flushed⟩, ?_⟩
  · simpa using rendered.conserves
  · simpa using rendered.written
  · exact flushed ▸ List.prefix_refl _
  · simpa using waiting

theorem drainStep_ok (ok : Ok c lg) : Ok c (lg.drainStep c) := by
  have same : ∀ lg', PopsTo c lg lg' → lg'.written = lg.written →
      lg.drain.midPass = false → lg'.onDisk = lg'.written := by
    intro lg' pops unwritten between
    rw [pops.onDisk, unwritten]
    exact ok.flushed.2 between
  have effect := drainStep_effect ok.rendered
  generalize lg.drainStep c = next at effect
  cases effect with
  | check phase =>
    have all := ok.flushed.2 (by rw [phase]; rfl)
    exact ⟨⟨ok.rendered.conserves, ok.rendered.written⟩, ⟨ok.flushed.1, fun _ => all⟩, ok.waiting⟩
  | access phase pops unwritten fewer =>
    exact pops.ok ok next.drain fun between => same next pops unwritten (pops.drain ▸ between)
  | line phase pops fewer => exact pops.ok ok (.draining true) nofun
  | @emptied any lg' phase pops unwritten two some =>
    refine pops.ok ok (.flushing any) fun between => same lg' pops unwritten ?_
    rw [phase]
    exact between
  | flush phase =>
    exact @fflush_ok c { lg with flushRequest := false }
      ⟨ok.rendered.conserves, ok.rendered.written⟩ ok.flushed.1 ok.waiting .loop
  | unchanged phase =>
    -- a pass that has rendered something is flushed
    have all := ok.flushed.2 (by rw [phase]; rfl)
    exact ⟨⟨ok.rendered.conserves, ok.rendered.written⟩, ⟨ok.flushed.1, fun _ => all⟩, ok.waiting⟩
  | lastLine phase pops fewer =>
    refine pops.ok ok next.drain fun between => ?_
    rw [pops.drain, phase] at between
    cases between
  | close phase pops all some =>
    refine fflush_ok pops.rendered ?_ ?_ .closed
    · exact pops.onDisk ▸ ok.flushed.1.trans pops.grows
    · rw [pops.caller, pops.backlog]
      exact ok.waiting
  | rest phase => exact ok

theorem drainStep_frame (ok : Ok c lg) :
    (lg.drainStep c).queue.ring.pushed = lg.queue.ring.pushed ∧
      (lg.drainStep c).caller = lg.caller ∧ (lg.drainStep c).running = lg.running := by
  have effect := drainStep_effect ok.rendered
  generalize lg.drainStep c = next at effect
  cases effect with
  | check | unchanged | rest => exact ⟨rfl, rfl, rfl⟩
  | access _ pops | line _ pops | emptied _ pops | lastLine _ pops =>
    exact ⟨pops.pushed, pops.caller, pops.running⟩
  | flush phase => simp
  | close phase pops all some => simp [pops.pushed, pops.caller, pops.running]

theorem log_ok (ok : Ok c lg) (idle : lg.caller = .idle) (now : Nat) (level : LogLevel)
    (tag : List UInt8) (a0 a1 a2 a3 : Int) : Ok c (lg.log now level tag a0 a1 a2 a3) := by
  refine ⟨⟨Channel.offer_conserves ok.rendered.conserves _, ok.rendered.written⟩, ok.flushed, ?_⟩
  have nothing := ok.waiting
  rw [idle] at nothing
  simp [log, Channel.offer, nothing, LogCall.waiting]

/-- A call that is pushing holds one entry; the push goes on, succeeds or fails. -/
theorem logStep_cases (ok : Ok c lg) {level : LogLevel} (pushing : lg.caller = .pushing level) :
    ∃ e, ((lg.queue.pushStep c).backlog = [e] ∧
        (lg.queue.pushStep c).ring.pushed = lg.queue.ring.pushed ∧
        lg.logStep c = (none, { lg with queue := lg.queue.pushStep c })) ∨
      ((lg.queue.pushStep c).backlog = [] ∧
        (lg.queue.pushStep c).ring.pushed = lg.queue.ring.pushed ++ [e] ∧
        (lg.logStep c = (none, { lg with queue := lg.queue.pushStep c, caller := .requesting }) ∨
          lg.logStep c = (some true, { lg with queue := lg.queue.pushStep c, caller := .idle }))) ∨
      ((lg.queue.pushStep c).backlog = [] ∧
        (lg.queue.pushStep c).ring.pushed = lg.queue.ring.pushed ∧
        lg.logStep c = (some false, { lg with queue := lg.queue.pushStep c, caller := .idle })) := by
  have one := ok.waiting
  rw [pushing] at one
  obtain ⟨e, backlog⟩ := List.length_eq_one_iff.mp one
  refine ⟨e, ?_⟩
  unfold logStep
  rw [pushing]
  dsimp only
  rcases @Channel.pushStep_cases _ c _ ok.rendered.conserves.underWay e [] backlog with
    ⟨waits, _, _, same, _⟩ | ⟨gone, _, added, kept⟩ | ⟨gone, _, same, counted⟩
  · exact .inl ⟨waits, same, by rw [if_pos (by rw [waits]; exact List.cons_ne_nil _ _)]⟩
  · refine .inr (.inl ⟨gone, added, ?_⟩)
    rw [if_neg (not_not.mpr gone), if_neg (not_not.mpr kept)]
    split
    · exact .inl rfl
    · exact .inr rfl
  · have moved : (lg.queue.pushStep c).dropped ≠ lg.queue.dropped := by
      rw [counted]
      simp only [u64]
      omega
    refine .inr (.inr ⟨gone, same, ?_⟩)
    rw [if_neg (not_not.mpr gone), if_pos moved]

theorem logStep_ok (ok : Ok c lg) : Ok c (lg.logStep c).2 := by
  have pushed : Rendered c { lg with queue := lg.queue.pushStep c } := by
    refine ⟨Channel.pushStep_conserves ok.rendered.conserves, ?_⟩
    rw [Channel.pushStep_popped]
    exact ok.rendered.written
  cases phase : lg.caller with
  | idle =>
    rw [logStep, phase]
    exact ok
  | pushing level =>
    obtain ⟨e, ⟨waits, _, next⟩ | ⟨gone, _, next | next⟩ | ⟨gone, _, next⟩⟩ := logStep_cases ok phase
    · rw [next]
      exact ⟨⟨pushed.conserves, pushed.written⟩, ok.flushed, by rw [waits, phase]; rfl⟩
    all_goals
      rw [next]
      exact ⟨⟨pushed.conserves, pushed.written⟩, ok.flushed, by rw [gone]; rfl⟩
  | requesting =>
    have nothing := ok.waiting
    rw [phase] at nothing
    rw [logStep, phase]
    exact ⟨⟨ok.rendered.conserves, ok.rendered.written⟩, ok.flushed, nothing⟩

theorem step_ok (ok : Ok c lg) (turn : Turn) : Ok c (lg.step c turn).2 := by
  cases turn with
  | log now level tag a0 a1 a2 a3 =>
    simp only [step]
    split
    next idle => exact log_ok ok idle now level tag a0 a1 a2 a3
    · exact ok
  | caller => exact logStep_ok ok
  | drain => exact drainStep_ok ok
  | stop => exact ⟨⟨ok.rendered.conserves, ok.rendered.written⟩, ok.flushed, ok.waiting⟩

theorem after_ok (ok : Ok c lg) (turns : List Turn) : Ok c (lg.after c turns) :=
  Machine.after_invariant (step c) (Ok c) (fun _ turn ok => step_ok ok turn) lg ok turns

end Steps

/-! ### What the calls of `log` return -/

/-- The results of the calls that return along the way. -/
def results (lg : AsyncLogger) (turns : List Turn) : List Bool :=
  (Machine.answers (step c) lg turns).filterMap id

section Results

variable {c} {lg : AsyncLogger}

theorem results_cons (turn : Turn) (rest : List Turn) :
    lg.results c (turn :: rest) = (lg.step c turn).1.toList ++ (lg.step c turn).2.results c rest := by
  unfold results
  rw [Machine.answers]
  cases (lg.step c turn).1 <;> rfl

/-- A call that returns true has put its entry into the ring, and no other has. -/
theorem step_counts (ok : Ok c lg) (turn : Turn) :
    (lg.step c turn).2.queue.ring.pushed.length + lg.caller.accepted =
      lg.queue.ring.pushed.length + (lg.step c turn).2.caller.accepted +
        (lg.step c turn).1.toList.count true := by
  cases turn with
  | log now level tag a0 a1 a2 a3 =>
    simp only [step]
    split
    next idle => rw [idle]; rfl
    next => rfl
  | drain =>
    obtain ⟨pushed, caller, _⟩ := drainStep_frame ok
    rw [step, pushed, caller]
    rfl
  | stop => rfl
  | caller =>
    rw [step]
    cases phase : lg.caller with
    | idle =>
      rw [logStep, phase]
      simp [phase]
    | pushing level =>
      obtain ⟨e, ⟨_, same, next⟩ | ⟨_, added, next | next⟩ | ⟨_, same, next⟩⟩ :=
        logStep_cases ok phase
      · rw [next, same, phase]
        rfl
      · rw [next, added, List.length_append]
        rfl
      · rw [next, added, List.length_append]
        rfl
      · rw [next, same]
        rfl
    | requesting =>
      rw [logStep, phase]
      rfl

theorem after_counts (ok : Ok c lg) (turns : List Turn) :
    (lg.after c turns).queue.ring.pushed.length + lg.caller.accepted =
      lg.queue.ring.pushed.length + (lg.after c turns).caller.accepted +
        (lg.results c turns).count true := by
  induction turns generalizing lg with
  | nil => simp [after, Machine.after, results, Machine.answers]
  | cons turn rest ih =>
    have first := step_counts ok turn
    have others := ih (step_ok ok turn)
    have last : lg.after c (turn :: rest) = (lg.step c turn).2.after c rest := rfl
    rw [results_cons, List.count_append, last]
    omega

end Results

/-! ### Shutdown -/

/-- How many steps the thread that drains still makes at most, once it is told to stop. -/
def drainsLeft (lg : AsyncLogger) : Nat :=
  match lg.drain with
  | .loop => lg.queue.ring.popsLeft + 1
  | .draining _ => lg.queue.ring.popsLeft + 4
  | .flushing _ => lg.queue.ring.popsLeft + 2
  | .closing => lg.queue.ring.popsLeft
  | .closed => 0

section Shutdown

variable {c} {lg : AsyncLogger}

/-- A step leaves less to do, and at the end the ring is empty. -/
theorem drainStep_left (ok : Ok c lg) (stopped : lg.running = false) (unfinished : lg.drain ≠ .closed) :
    (lg.drainStep c).drainsLeft < lg.drainsLeft ∧
      ((lg.drainStep c).drain = .closed →
        (lg.drainStep c).queue.ring.popped = (lg.drainStep c).queue.ring.pushed) := by
  have effect := drainStep_effect ok.rendered
  generalize lg.drainStep c = next at effect
  cases effect with
  | check phase =>
    rw [stopped]
    refine ⟨?_, nofun⟩
    simp only [drainsLeft, phase]
    exact Nat.lt_succ_self _
  | access phase pops unwritten fewer =>
    have left : next.drainsLeft < lg.drainsLeft := by
      rcases phase with ⟨any, phase⟩ | phase
      all_goals
        simp only [drainsLeft, pops.drain, phase]
        omega
    exact ⟨left, fun closed => absurd (pops.drain ▸ closed) unfinished⟩
  | line phase pops fewer =>
    refine ⟨?_, nofun⟩
    simp only [drainsLeft, phase]
    omega
  | emptied phase pops unwritten two some =>
    refine ⟨?_, nofun⟩
    simp only [drainsLeft, phase, two]
    omega
  | flush phase =>
    refine ⟨?_, nofun⟩
    simp only [drainsLeft, phase, fflush_queue]
    omega
  | unchanged phase =>
    refine ⟨?_, nofun⟩
    simp only [drainsLeft, phase]
    omega
  | lastLine phase pops fewer =>
    refine ⟨?_, fun closed => absurd (pops.drain ▸ closed) unfinished⟩
    simp only [drainsLeft, pops.drain, phase]
    exact fewer
  | close phase pops all some =>
    refine ⟨?_, fun _ => ?_⟩
    · simp only [drainsLeft, phase]
      exact some
    · simpa using all
  | rest phase => exact absurd phase unfinished

/-- The steps of a thread that was told to stop lead to an empty ring and the end. -/
theorem drains_close (ok : Ok c lg) (stopped : lg.running = false)
    (emptied : lg.drain = .closed → lg.queue.ring.popped = lg.queue.ring.pushed) (k : Nat)
    (enough : lg.drainsLeft ≤ k) :
    let last := lg.after c (List.replicate k .drain)
    last.drain = .closed ∧ last.queue.ring.popped = lg.queue.ring.pushed := by
  induction k generalizing lg with
  | zero =>
    have closed : lg.drain = .closed := by
      by_contra unfinished
      have fewer := (drainStep_left ok stopped unfinished).1
      omega
    exact ⟨closed, emptied closed⟩
  | succ k ih =>
    have next : lg.after c (List.replicate (k + 1) .drain) =
        (lg.drainStep c).after c (List.replicate k .drain) := rfl
    obtain ⟨pushed, _, running⟩ := drainStep_frame ok
    rw [next, ← pushed]
    by_cases closed : lg.drain = .closed
    · have same : lg.drainStep c = lg := by rw [drainStep, closed]
      have finished : lg.drainsLeft = 0 := by rw [drainsLeft, closed]
      rw [same]
      exact ih ok stopped emptied (by omega)
    · obtain ⟨fewer, empties⟩ := drainStep_left ok stopped closed
      exact ih (drainStep_ok ok) (running.trans stopped) empties (by omega)

/-- Before the destructor the drain thread goes round its loop. -/
def Alive (lg : AsyncLogger) : Prop :=
  lg.running = true ∧ lg.drain ≠ .closing ∧ lg.drain ≠ .closed

theorem drainStep_alive (ok : Ok c lg) (alive : lg.Alive) : (lg.drainStep c).Alive := by
  have running := (drainStep_frame ok).2.2.trans alive.1
  refine ⟨running, ?_⟩
  have effect := drainStep_effect ok.rendered
  generalize lg.drainStep c = next at effect
  cases effect with
  | check phase =>
    rw [alive.1]
    exact ⟨nofun, nofun⟩
  | access phase pops =>
    rw [pops.drain]
    exact alive.2
  | line | emptied | flush | unchanged => exact ⟨nofun, nofun⟩
  | lastLine phase | close phase => exact absurd phase alive.2.1
  | rest phase => exact absurd phase alive.2.2

theorem logStep_alive (alive : lg.Alive) : (lg.logStep c).2.Alive := by
  unfold logStep
  split
  · exact alive
  · dsimp only
    split_ifs <;> exact alive
  · exact alive

theorem after_alive (ok : Ok c lg) (alive : lg.Alive) (turns : List Turn)
    (unstopped : Turn.stop ∉ turns) : (lg.after c turns).Alive := by
  induction turns generalizing lg with
  | nil => exact alive
  | cons turn rest ih =>
    obtain ⟨other, later⟩ := not_or.mp (List.mem_cons.not.mp unstopped)
    refine ih (step_ok ok turn) ?_ later
    cases turn with
    | log now level tag a0 a1 a2 a3 =>
      simp only [step]
      split <;> exact alive
    | caller => exact logStep_alive alive
    | drain => exact drainStep_alive ok alive
    | stop => exact absurd rfl other

end Shutdown

/-- In every interleaving of the threads the file holds the lines of a first part of the
accepted entries, each once and in order, and between two passes of the drain thread all of them
are flushed. The accepted entries are, in their order, among those logged; every other one is
counted as dropped or still under way, and `log` returns true exactly for the accepted ones. -/
theorem logger_conserves (c : Capacity) (memory : Nat → LogEntry) (hasFile : Bool)
    (turns : List Turn) :
    let lg := (new memory hasFile).after c turns
    (∃ entries, entries <+: lg.queue.ring.pushed ∧ lg.written = rendered lg.hasFile entries) ∧
      lg.onDisk <+: lg.written ∧ (lg.drain.midPass = false → lg.onDisk = lg.written) ∧
      lg.queue.ring.pushed.Sublist lg.queue.offered ∧
      u64 (lg.queue.ring.pushed.length + lg.queue.dropped + lg.caller.waiting) =
        u64 lg.queue.offered.length ∧
      lg.queue.ring.pushed.length =
        ((new memory hasFile).results c turns).count true + lg.caller.accepted := by
  have counts := after_counts (@new_ok c memory hasFile) turns
  have ok := after_ok (@new_ok c memory hasFile) turns
  generalize (new memory hasFile).after c turns = lg at counts ok
  have conserves := ok.rendered.conserves
  refine ⟨⟨_, conserves.popped_prefix, ok.rendered.written⟩, ok.flushed.1, ok.flushed.2,
    conserves.pushed_sublist, ?_, ?_⟩
  · rw [← ok.waiting]
    exact conserves.count
  · have fresh : (new memory hasFile).queue.ring.pushed.length = 0 := rfl
    have idle : (new memory hasFile).caller.accepted = 0 := rfl
    omega

/-- One critical entry is logged and the logger destroyed before the drain thread has run. -/
private def criticalEntry : List Turn :=
  [.log 42 .critical (ascii "pool exhausted") 7 0 0 (-1), .caller, .caller, .caller, .caller, .caller]

private def blankEntry : LogEntry := ⟨0, .debug, [], 0, 0, 0, 0⟩

end AsyncLogger

end NseHft
