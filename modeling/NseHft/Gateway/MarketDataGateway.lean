import NseHft.Common.DroppingChannel
import NseHft.FeedHandler.Sequencing
import NseHft.Lib.Machine

/-!
# Market-data gateway

One thread polls the sockets of all subscriptions, hands the datagrams to the feed handler and
pushes what it emits into the event queue; the order-book thread pops from the queue. A step
is a kernel call, the parsing of a datagram, which only the gateway's thread sees, or one
access to the queue, so between any two steps of one thread the other may take any number.
-/
namespace NseHft

open FixedWidth

/-- A stream with its two redundant multicast sources. -/
structure StreamConfig where
  source1Group : String
  source2Group : String
  port : Nat := 0
  streamId : Nat := 0
  deriving DecidableEq, Repr

structure UdpSocket where
  fd : Int := -1
  deriving DecidableEq, Repr

namespace UdpSocket

def valid (sock : UdpSocket) : Bool := decide (sock.fd ≥ 0)

/-- The kernel gives the descriptor `fd`, negative on failure, and binds it or not. -/
def bindRx (fd : Int) (bound : Bool) : Bool × UdpSocket :=
  if fd < 0 then (false, { fd := fd })
  else if !bound then (false, { fd := -1 })
  else (true, { fd := fd })

def joinMulticast (sock : UdpSocket) (joined : Bool) : Bool :=
  if sock.fd < 0 then false else joined

/-- The datagrams that one `recvmmsg` call stores: as many as there are buffers, each cut to
the size of its buffer. A call that returns 0 or an error stores none. -/
def recvBatch (cap count : Nat) (waiting : List (List UInt8)) : List (List UInt8) :=
  (waiting.take (min count 32)).map (List.take cap)

end UdpSocket

structure Subscription where
  cfg : StreamConfig
  s1 : UdpSocket
  s2 : UdpSocket
  deriving DecidableEq, Repr

/-- Capacity of the `EventQueue`. -/
def eventQueue : Capacity := .ring64K

def kBatch : Nat := 32

def kPktCap : Nat := 2048

/-- How far a call of `poll_once` has come: the sockets still to be polled, the datagrams of
the current batch that are not parsed yet, and its count so far. -/
inductive PollState
  | idle
  | polling (sockets : List (UdpSocket × FeedSource)) (pushed : Nat)
  | draining (source : FeedSource) (packets : List (List UInt8))
      (sockets : List (UdpSocket × FeedSource)) (pushed : Nat)

/-- The count of the call that is under way. -/
def PollState.pushed : PollState → Nat
  | .idle => 0
  | .polling _ pushed => pushed
  | .draining _ _ _ pushed => pushed

/-- The source does not keep the last field, the datagrams parsed so far. -/
structure MarketDataGateway where
  feed : FeedHandler := {}
  out : Channel MarketEvent
  subs : List Subscription := []
  phase : PollState := .idle
  received : List (FeedSource × List UInt8) := []

namespace MarketDataGateway

/-- What the kernel answers for one socket of a subscription. -/
structure SocketAnswers where
  fd : Int
  bound : Bool
  joined : Bool

/-- The first socket that cannot be opened ends the call. -/
def subscribe (gw : MarketDataGateway) (cfg : StreamConfig) (first second : SocketAnswers) :
    Bool × MarketDataGateway :=
  let (bound1, s1) := UdpSocket.bindRx first.fd first.bound
  if !bound1 || !s1.joinMulticast first.joined then (false, gw)
  else
    let (bound2, s2) := UdpSocket.bindRx second.fd second.bound
    if !bound2 || !s2.joinMulticast second.joined then (false, gw)
    else (true, { gw with subs := gw.subs ++ [⟨cfg, s1, s2⟩] })

/-- The sockets in the order in which `poll_once` visits them. -/
def sockets (gw : MarketDataGateway) : List (UdpSocket × FeedSource) :=
  gw.subs.flatMap fun sub => [(sub.s1, .primary), (sub.s2, .secondary)]

/-- The next step of the gateway's thread in `poll_once` and `DrainSource`; `waiting` is what
the kernel holds for the socket in case the step receives. The result is there once the call
has returned. -/
def pollStep (gw : MarketDataGateway) (waiting : List (List UInt8)) :
    Option Nat × MarketDataGateway :=
  match gw.phase with
  | .idle => (none, { gw with phase := .polling gw.sockets 0 })
  | .polling [] pushed => (some pushed, { gw with phase := .idle })
  | .polling ((sock, source) :: rest) pushed =>
    if !sock.valid then (none, { gw with phase := .polling rest pushed })
    else
      let packets := UdpSocket.recvBatch kPktCap kBatch waiting
      (none, { gw with phase := .draining source packets rest pushed })
  | .draining source packets rest pushed =>
    -- the events of one datagram are pushed before the next one is parsed
    if gw.out.backlog ≠ [] then (none, { gw with out := gw.out.pushStep eventQueue })
    else
      match packets with
      | [] => (none, { gw with phase := .polling rest pushed })
      | data :: packets =>
        let (feed, events) := gw.feed.onPacket source data
        -- the count takes in every event, pushed or dropped
        (none, { gw with
          feed := feed
          out := gw.out.offer events
          phase := .draining source packets rest (u64 (pushed + events.length))
          received := gw.received ++ [(source, data)] })

/-- A step of one of the two threads. -/
inductive Turn
  | gateway (waiting : List (List UInt8))
  | bookThread

def step (gw : MarketDataGateway) : Turn → Option Nat × MarketDataGateway
  | .gateway waiting => gw.pollStep waiting
  | .bookThread => (none, { gw with out := (gw.out.popStep eventQueue).2 })

/-- A gateway over arbitrary memory after some subscriptions. -/
def subscribed (memory : Nat → MarketEvent)
    (calls : List (StreamConfig × SocketAnswers × SocketAnswers)) : MarketDataGateway :=
  calls.foldl (fun gw call => (gw.subscribe call.1 call.2.1 call.2.2).2) { out := .new memory }

/-- Any interleaving of the two threads. -/
def after (gw : MarketDataGateway) (turns : List Turn) : MarketDataGateway :=
  Machine.after step gw turns

/-- What the calls of `poll_once` return along the way. -/
def returned (gw : MarketDataGateway) (turns : List Turn) : List Nat :=
  (Machine.answers step gw turns).filterMap id

/-- The events that the feed handler has emitted. -/
def emitted (gw : MarketDataGateway) : List MarketEvent :=
  (({} : FeedHandler).run gw.received).2

/-! ### What a step of the gateway can do -/

/-- The steps of the gateway's thread, each with the state that it needs. -/
inductive PollEffect (gw : MarketDataGateway) : Option Nat × MarketDataGateway → Prop
  | enter : gw.phase = .idle → PollEffect gw (none, { gw with phase := .polling gw.sockets 0 })
  | leave {pushed : Nat} : gw.phase = .polling [] pushed →
      PollEffect gw (some pushed, { gw with phase := .idle })
  | skip {first : UdpSocket × FeedSource} {rest : List (UdpSocket × FeedSource)} {pushed : Nat} :
      gw.phase = .polling (first :: rest) pushed →
      PollEffect gw (none, { gw with phase := .polling rest pushed })
  | receive {first : UdpSocket × FeedSource} {rest : List (UdpSocket × FeedSource)}
      {packets : List (List UInt8)} {pushed : Nat} :
      gw.phase = .polling (first :: rest) pushed → packets.length ≤ kBatch →
      PollEffect gw (none, { gw with phase := .draining first.2 packets rest pushed })
  | push {source : FeedSource} {packets : List (List UInt8)}
      {rest : List (UdpSocket × FeedSource)} {pushed : Nat} :
      gw.phase = .draining source packets rest pushed → gw.out.backlog ≠ [] →
      PollEffect gw (none, { gw with out := gw.out.pushStep eventQueue })
  | drained {source : FeedSource} {rest : List (UdpSocket × FeedSource)} {pushed : Nat} :
      gw.phase = .draining source [] rest pushed → gw.out.backlog = [] →
      PollEffect gw (none, { gw with phase := .polling rest pushed })
  | parse {source : FeedSource} {data : List UInt8} {packets : List (List UInt8)}
      {rest : List (UdpSocket × FeedSource)} {pushed : Nat} :
      gw.phase = .draining source (data :: packets) rest pushed → gw.out.backlog = [] →
      PollEffect gw (none, { gw with
        feed := (gw.feed.onPacket source data).1
        out := gw.out.offer (gw.feed.onPacket source data).2
        phase := .draining source packets rest
          (u64 (pushed + (gw.feed.onPacket source data).2.length))
        received := gw.received ++ [(source, data)] })

theorem recvBatch_length_le (waiting : List (List UInt8)) :
    (UdpSocket.recvBatch kPktCap kBatch waiting).length ≤ kBatch := by
  simp only [UdpSocket.recvBatch, List.length_map, List.length_take, kBatch]
  omega

theorem pollStep_effect (gw : MarketDataGateway) (waiting : List (List UInt8)) :
    gw.PollEffect (gw.pollStep waiting) := by
  unfold pollStep
  cases phase : gw.phase with
  | idle => exact .enter phase
  | polling sockets pushed =>
    cases sockets with
    | nil => exact .leave phase
    | cons first rest =>
      dsimp only
      split
      · exact .skip phase
      · exact .receive phase (recvBatch_length_le waiting)
  | draining source packets rest pushed =>
    dsimp only
    split
    next waits =>
      rw [← phase]
      exact .push phase waits
    next empty =>
      have settled : gw.out.backlog = [] := by simpa using empty
      cases packets with
      | nil => exact .drained phase settled
      | cons data packets => exact .parse phase settled

/-! ### What every step keeps -/

/-- The channel conserves what the handler emits, and has no backlog between two datagrams'
pushes and the next kernel call. -/
structure Ok (gw : MarketDataGateway) : Prop where
  conserves : Channel.Conserves eventQueue gw.out
  feed : gw.feed = (({} : FeedHandler).run gw.received).1
  offered : gw.out.offered = gw.emitted
  settled : (∀ source packets rest pushed, gw.phase ≠ .draining source packets rest pushed) →
    gw.out.backlog = []

section Steps

variable {gw : MarketDataGateway}

private theorem run_snoc (fh : FeedHandler) (packets : List (FeedSource × List UInt8))
    (source : FeedSource) (data : List UInt8) :
    fh.run (packets ++ [(source, data)]) =
      (((fh.run packets).1.onPacket source data).1,
        (fh.run packets).2 ++ ((fh.run packets).1.onPacket source data).2) := by
  induction packets generalizing fh with
  | nil => simp [FeedHandler.run]
  | cons packet rest ih => simp [FeedHandler.run, ih]

theorem pollStep_ok (ok : gw.Ok) (waiting : List (List UInt8)) : (gw.pollStep waiting).2.Ok := by
  obtain ⟨conserves, feed, offered, settled⟩ := ok
  have effect := pollStep_effect gw waiting
  generalize gw.pollStep waiting = next at effect
  cases effect with
  | enter phase => exact ⟨conserves, feed, offered, fun _ => settled (by rw [phase]; exact nofun)⟩
  | leave phase => exact ⟨conserves, feed, offered, fun _ => settled (by rw [phase]; exact nofun)⟩
  | skip phase => exact ⟨conserves, feed, offered, fun _ => settled (by rw [phase]; exact nofun)⟩
  | receive phase few => exact ⟨conserves, feed, offered, fun _ => settled (by rw [phase]; exact nofun)⟩
  | push phase waits =>
    refine ⟨Channel.pushStep_conserves conserves, feed, ?_, fun other => ?_⟩
    · exact Channel.pushStep_offered.trans offered
    · exact absurd phase (other _ _ _ _)
  | drained phase empty => exact ⟨conserves, feed, offered, fun _ => empty⟩
  | @parse source data packets rest pushed phase empty =>
    have next := run_snoc {} gw.received source data
    refine ⟨Channel.offer_conserves conserves _, ?_, ?_, fun other => ?_⟩
    · rw [next, ← feed]
    · rw [emitted, next, ← feed]
      exact congrArg (· ++ _) offered
    · exact absurd rfl (other _ _ _ _)

theorem step_subs (gw : MarketDataGateway) (turn : Turn) : (gw.step turn).2.subs = gw.subs := by
  cases turn with
  | bookThread => rfl
  | gateway waiting =>
    have effect := pollStep_effect gw waiting
    rw [step]
    generalize gw.pollStep waiting = next at effect
    cases effect <;> rfl

theorem step_ok (ok : gw.Ok) (turn : Turn) : (gw.step turn).2.Ok := by
  cases turn with
  | gateway waiting => exact pollStep_ok ok waiting
  | bookThread => exact ⟨Channel.popStep_conserves ok.conserves, ok.feed, ok.offered, ok.settled⟩

theorem after_ok (ok : gw.Ok) (turns : List Turn) : (gw.after turns).Ok :=
  Machine.after_invariant step Ok (fun _ turn ok => step_ok ok turn) gw ok turns

/-- Before the first poll. -/
structure Fresh (gw : MarketDataGateway) : Prop where
  ok : gw.Ok
  idle : gw.phase = .idle
  silent : gw.received = []

theorem subscribe_fresh (fresh : gw.Fresh) (cfg : StreamConfig) (first second : SocketAnswers) :
    (gw.subscribe cfg first second).2.Fresh := by
  obtain ⟨⟨conserves, feed, offered, settled⟩, idle, silent⟩ := fresh
  simp only [subscribe]
  split_ifs <;> exact ⟨⟨conserves, feed, offered, settled⟩, idle, silent⟩

theorem subscribed_fresh (memory : Nat → MarketEvent)
    (calls : List (StreamConfig × SocketAnswers × SocketAnswers)) :
    (subscribed memory calls).Fresh := by
  have start : ({ out := .new memory } : MarketDataGateway).Fresh :=
    ⟨⟨Channel.new_conserves memory, rfl, rfl, fun _ => rfl⟩, rfl, rfl⟩
  unfold subscribed
  generalize ({ out := .new memory } : MarketDataGateway) = gw at start
  induction calls generalizing gw with
  | nil => exact start
  | cons call rest ih => exact ih _ (subscribe_fresh start call.1 call.2.1 call.2.2)

end Steps

/-! ### What the calls return -/

section Returned

variable {gw : MarketDataGateway}

/-- What the handler emits goes into the count of the call, and the count into its result. -/
theorem step_counts (turn : Turn) :
    u64 (gw.out.offered.length + (gw.step turn).1.getD 0 + (gw.step turn).2.phase.pushed) =
      u64 ((gw.step turn).2.out.offered.length + gw.phase.pushed) := by
  cases turn with
  | bookThread => rfl
  | gateway waiting =>
    have effect := pollStep_effect gw waiting
    rw [step]
    generalize gw.pollStep waiting = next at effect
    cases effect with
    | enter phase => rw [phase]; rfl
    | leave phase => rw [phase]; rfl
    | skip phase => rw [phase]; rfl
    | receive phase few => rw [phase]; rfl
    | push phase waits => rw [Channel.pushStep_offered]; rfl
    | drained phase empty => rw [phase]; rfl
    | parse phase empty =>
      rw [phase]
      simp only [Option.getD_none, PollState.pushed, Channel.offer, List.length_append, u64]
      omega

theorem returned_cons (turn : Turn) (rest : List Turn) :
    gw.returned (turn :: rest) = (gw.step turn).1.toList ++ (gw.step turn).2.returned rest := by
  unfold returned
  rw [Machine.answers]
  cases (gw.step turn).1 <;> rfl

private theorem sum_toList (answer : Option Nat) : answer.toList.sum = answer.getD 0 := by
  cases answer <;> rfl

theorem after_counts (turns : List Turn) :
    u64 (gw.out.offered.length + (gw.returned turns).sum + (gw.after turns).phase.pushed) =
      u64 ((gw.after turns).out.offered.length + gw.phase.pushed) := by
  induction turns generalizing gw with
  | nil => rfl
  | cons turn rest ih =>
    have first := @step_counts gw turn
    have others := @ih (gw.step turn).2
    have last : gw.after (turn :: rest) = (gw.step turn).2.after rest := rfl
    rw [returned_cons, last, List.sum_append, sum_toList]
    simp only [u64] at first others ⊢
    omega

end Returned

/-! ### A call returns whatever the other thread does -/

def kPacketSteps : Nat := 1 + 4 * 255

def kSourceSteps : Nat := 2 + kBatch * kPacketSteps

/-- How many steps the call that is under way still takes at most. -/
def stepsLeft (gw : MarketDataGateway) : Nat :=
  match gw.phase with
  | .idle => 0
  | .polling sockets _ => 1 + sockets.length * kSourceSteps
  | .draining _ packets sockets _ =>
    gw.out.accessesLeft + packets.length * kPacketSteps + 2 + sockets.length * kSourceSteps

section Progress

variable {gw : MarketDataGateway}

theorem acceptAll_length_le (st : StreamStats) (msgs : List MarketEvent) :
    (st.acceptAll msgs).2.length ≤ msgs.length := by
  induction msgs generalizing st with
  | nil => exact Nat.le_refl 0
  | cons ev rest ih =>
    have one : (st.accept ev.seqNo ev).2.length ≤ 1 := by
      simp only [StreamStats.accept]
      split_ifs <;> simp
    have others := ih (st.accept ev.seqNo ev).1
    simp only [StreamStats.acceptAll, List.length_append, List.length_cons]
    omega

/-- A datagram announces at most 255 messages. -/
theorem onPacket_length_le (fh : FeedHandler) (source : FeedSource) (data : List UInt8) :
    (fh.onPacket source data).2.length ≤ 255 := by
  unfold FeedHandler.onPacket
  cases header : parseHeader data with
  | none => exact Nat.zero_le _
  | some hdr =>
    have byte : hdr.msgCount < 2 ^ 8 := by
      simp only [parseHeader] at header
      split at header
      · cases header
      · rw [← Option.some.inj header]
        exact loadLe_lt 1 _
    dsimp only
    split_ifs
    · exact Nat.zero_le _
    · exact Nat.zero_le _
    · rw [messageLoop_eq]
      have few := messagesFrom_length_le data hdr hdr.msgCount 0 kMtbtHeaderSize
      exact Nat.le_trans (acceptAll_length_le _ _) (by omega)

/-- A step inside a call returns its result or leaves less to do. -/
theorem pollStep_progress (ok : gw.Ok) (waiting : List (List UInt8)) (inside : gw.phase ≠ .idle) :
    (gw.pollStep waiting).1.isSome ∨
      (gw.pollStep waiting).2.phase ≠ .idle ∧ (gw.pollStep waiting).2.stepsLeft < gw.stepsLeft := by
  have effect := pollStep_effect gw waiting
  generalize gw.pollStep waiting = next at effect
  cases effect with
  | enter phase => exact absurd phase inside
  | leave phase => exact .inl rfl
  | skip phase =>
    refine .inr ⟨by simp, ?_⟩
    simp only [stepsLeft, phase, List.length_cons, Nat.add_mul, kSourceSteps]
    omega
  | receive phase few =>
    -- nothing is left from the datagrams before
    have done : gw.out.accessesLeft = 0 := by
      rw [Channel.accessesLeft, ok.settled (by simp [phase])]
    have steps := Nat.mul_le_mul_right kPacketSteps few
    refine .inr ⟨by simp, ?_⟩
    simp only [stepsLeft, phase, done, List.length_cons, Nat.add_mul, kSourceSteps]
    omega
  | push phase waits =>
    have fewer := Channel.pushStep_accessesLeft ok.conserves waits
    refine .inr ⟨inside, ?_⟩
    simp only [stepsLeft, phase]
    omega
  | drained phase empty =>
    refine .inr ⟨by simp, ?_⟩
    simp only [stepsLeft, phase]
    omega
  | @parse source data packets rest pushed phase empty =>
    have few := onPacket_length_le gw.feed source data
    have idle := ok.conserves.idle empty
    have left : (gw.out.offer (gw.feed.onPacket source data).2).accessesLeft =
        4 * (gw.feed.onPacket source data).2.length := by
      rw [Channel.accessesLeft_idle (by exact idle), Channel.offer, empty, List.nil_append]
    refine .inr ⟨by simp, ?_⟩
    simp only [stepsLeft, phase, left, List.length_cons, Nat.add_mul, kPacketSteps]
    omega

/-- The order-book thread neither ends a call nor adds to its work. -/
theorem popStep_stepsLeft :
    (gw.step .bookThread).2.phase = gw.phase ∧ (gw.step .bookThread).2.stepsLeft = gw.stepsLeft := by
  refine ⟨rfl, ?_⟩
  simp only [step, stepsLeft, Channel.popStep_accessesLeft]

def Turn.isGateway : Turn → Bool
  | gateway _ => true
  | bookThread => false

theorem returns_of_stepsLeft (ok : gw.Ok) (inside : gw.phase ≠ .idle) (turns : List Turn)
    (enough : gw.stepsLeft ≤ turns.countP Turn.isGateway) : gw.returned turns ≠ [] := by
  induction turns generalizing gw with
  | nil =>
    have some : gw.stepsLeft ≠ 0 := by
      unfold stepsLeft
      cases phase : gw.phase with
      | idle => exact absurd phase inside
      | polling => simp
      | draining => simp
    exact absurd (Nat.le_zero.mp enough) some
  | cons turn rest ih =>
    cases turn with
    | bookThread =>
      obtain ⟨phase, left⟩ := @popStep_stepsLeft gw
      exact ih (step_ok ok .bookThread) (phase ▸ inside) (left ▸ enough)
    | gateway waiting =>
      have one : (Turn.gateway waiting :: rest).countP Turn.isGateway =
          rest.countP Turn.isGateway + 1 := List.countP_cons_of_pos rfl
      rcases pollStep_progress ok waiting inside with ends | ⟨still, fewer⟩
      · obtain ⟨value, answer⟩ := Option.isSome_iff_exists.mp ends
        simp [returned_cons, step, answer]
      · have others := ih (pollStep_ok ok waiting) still (by omega)
        rw [returned_cons]
        exact List.append_ne_nil_of_right_ne_nil _ others

end Progress

/-! ### Results -/

/-- Only a push can drop. -/
theorem pollStep_dropped (gw : MarketDataGateway) (waiting : List (List UInt8)) :
    (gw.pollStep waiting).2.out.dropped = gw.out.dropped ∨
      (gw.pollStep waiting).2.out.dropped = (gw.out.pushStep eventQueue).dropped := by
  have effect := pollStep_effect gw waiting
  generalize gw.pollStep waiting = next at effect
  cases effect with
  | push phase waits => exact .inr rfl
  | enter | leave | skip | receive | drained | parse => exact .inl rfl

/-- In every interleaving of the gateway with the order-book thread, that thread sees events the
feed handler emitted, in their order and each at most once, with strictly increasing numbers on
each stream. Every emitted event is pushed, counted as dropped or waiting to be pushed; one is
dropped only when the queue is full, and while none is, nothing is missing. Between the polls
the results of `poll_once` add up to the events pushed and those dropped. -/
theorem gateway_delivers (memory : Nat → MarketEvent)
    (calls : List (StreamConfig × SocketAnswers × SocketAnswers)) (turns : List Turn)
    (noWrap : ∀ p ∈ ((subscribed memory calls).after turns).received, FeedHandler.NoWrap p.2) :
    let gw := (subscribed memory calls).after turns
    gw.out.ring.popped.Sublist gw.emitted ∧
      (∀ id, (FeedHandler.numbersOn id gw.out.ring.popped).Pairwise (· < ·)) ∧
      u64 (gw.out.ring.pushed.length + gw.out.dropped + gw.out.backlog.length) =
        u64 gw.emitted.length ∧
      (∀ waiting, (gw.pollStep waiting).2.out.dropped ≠ gw.out.dropped →
        gw.out.ring.pushed.length - gw.out.ring.popped.length = 65536) ∧
      (gw.out.dropped = 0 → gw.emitted.length < 2 ^ 64 → gw.out.ring.popped <+: gw.emitted) ∧
      (gw.phase = .idle → u64 ((subscribed memory calls).returned turns).sum =
        u64 (gw.out.ring.pushed.length + gw.out.dropped)) := by
  have fresh := subscribed_fresh memory calls
  have counts := @after_counts (subscribed memory calls) turns
  rw [fresh.ok.offered, emitted, fresh.silent, fresh.idle] at counts
  have ok := after_ok fresh.ok turns
  generalize (subscribed memory calls).after turns = gw at noWrap counts ok
  have popped : gw.out.ring.popped.Sublist gw.emitted := by
    rw [← ok.offered]
    exact ok.conserves.popped_prefix.sublist.trans ok.conserves.pushed_sublist
  have settled := ok.conserves.count
  rw [ok.offered] at settled counts
  refine ⟨popped, ?_, settled, ?_, ?_, ?_⟩
  · intro id
    have sequenced := FeedHandler.run_sequenced (FeedHandler.fresh_sequenced id) gw.received noWrap
    exact (sequenced.increasing.sublist sequenced.sublist).sublist ((popped.filter _).map _)
  · intro waiting drops
    rcases pollStep_dropped gw waiting with same | pushes
    · exact absurd same drops
    · exact ok.conserves.full_of_dropped (pushes ▸ drops)
  · intro none few
    rw [← ok.offered] at few ⊢
    exact ok.conserves.popped_prefix.trans (ok.conserves.pushed_prefix none few)
  · intro idle
    have nothing := ok.settled (by rw [idle]; exact nofun)
    rw [nothing] at settled
    rw [idle] at counts
    simp only [FeedHandler.run, PollState.pushed, List.length_nil, Nat.zero_add, Nat.add_zero]
      at counts settled
    rw [counts, settled]

/-- Two sockets, a datagram on the first with a cancel numbered 1 on stream 5, and the pop of
its event. -/
private def oneCancel : List Turn :=
  [.gateway [], .gateway [[5, 0, 1, 0, 0, 0, 0, 0, 0, 0, 1, 0, 0, 0, 0, 0, 0, 0, 0,
      88, 9, 0, 0, 0, 0, 0, 0, 0, 7, 0, 0, 0]], .gateway [], .gateway [], .bookThread,
    .gateway [], .gateway [], .bookThread, .gateway [], .bookThread, .bookThread, .bookThread,
    .bookThread]

private def oneStream : List (StreamConfig × SocketAnswers × SocketAnswers) :=
  [(⟨"239.0.0.1", "239.0.0.2", 9000, 5⟩, ⟨3, true, true⟩, ⟨4, true, true⟩)]

/-- The pop that looks while the push is under way finds nothing, the next one the event. -/
theorem one_cancel_delivered :
    (((subscribed default oneStream).after oneCancel).out.ring.popped.map MarketEvent.seqNo) = [1] ∧
      ((subscribed default oneStream).after oneCancel).out.ring.popped.Sublist
        ((subscribed default oneStream).after oneCancel).emitted :=
  ⟨by decide +kernel, (gateway_delivers default oneStream oneCancel (by decide +kernel)).1⟩

/-- A call of `poll_once` never waits: whatever the order-book thread does meanwhile, it returns
within a number of its own steps that only depends on the number of sockets. -/
theorem poll_once_wait_free (memory : Nat → MarketEvent)
    (calls : List (StreamConfig × SocketAnswers × SocketAnswers)) (before turns : List Turn)
    (idle : ((subscribed memory calls).after before).phase = .idle)
    (enough : 2 + (subscribed memory calls).sockets.length * kSourceSteps ≤
      turns.countP Turn.isGateway) :
    ((subscribed memory calls).after before).returned turns ≠ [] := by
  have ok := after_ok (subscribed_fresh memory calls).ok before
  have same : ((subscribed memory calls).after before).subs = (subscribed memory calls).subs := by
    exact Machine.after_invariant step (fun gw => gw.subs = (subscribed memory calls).subs)
      (fun gw turn kept => (step_subs gw turn).trans kept) _ rfl before
  rw [sockets, ← same] at enough
  generalize (subscribed memory calls).after before = gw at idle enough ok
  -- up to the first step of the gateway nothing happens but pops
  induction turns generalizing gw with
  | nil => simp at enough
  | cons turn rest ih =>
    rw [returned_cons]
    apply List.append_ne_nil_of_right_ne_nil
    cases turn with
    | bookThread => exact ih _ idle enough (step_ok ok .bookThread)
    | gateway waiting =>
      rw [List.countP_cons_of_pos rfl] at enough
      have entered : (gw.step (.gateway waiting)).2 = { gw with phase := .polling gw.sockets 0 } := by
        rw [step, pollStep, idle]
      have next := step_ok ok (.gateway waiting)
      rw [entered] at next ⊢
      apply returns_of_stepsLeft next nofun
      simp only [stepsLeft, sockets]
      omega

/-- A poll of two silent sockets. -/
theorem silent_poll_returns :
    (subscribed default oneStream).sockets.length = 2 ∧
      ((subscribed default oneStream).after []).returned
        (List.replicate (2 + 2 * kSourceSteps) (.gateway [])) ≠ [] := by
  refine ⟨rfl, poll_once_wait_free default oneStream [] _ rfl ?_⟩
  rw [List.countP_replicate]
  exact Nat.le_refl _

end MarketDataGateway

end NseHft
