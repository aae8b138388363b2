import NseHft.Irage.Strat1
import NseHft.Lib.Machine

/-!
# Kill switch and pre-close sweep

While the kill switch is set, and from 15:25 on, a call sends cancels only, and no order of a
configured symbol is left standing without one. Orders whose last request is unanswered cannot
be cancelled by the call; they are found by the next call after the answer.
-/
namespace NseHft.Irage.Session

open FixedWidth

inductive ReportKind where
  | ack
  | exec
  | cxl
  | rej
  | rplRej
  | lighteningRej
  deriving DecidableEq, Repr

/-- What can happen to a session: a call, an answer of the exchange, a change of what the
platform states, a change of parameters, a report to the strategy. -/
inductive Event where
  | marketData
  | ack (id : Int) (side : OrdSide) (index : UInt8)
  | ackAll
  | setMtick (id : Int) (t : MTick)
  | setRunning (running : Bool)
  | setDpr (id lo hi : Int)
  | setInventory (id units : Int)
  | setMaxInventory (id lots : Int)
  | setOps (consumed total : Int)
  | setSeconds (seconds : Int)
  | update (updateMap : List (Int × Int))
  | report (kind : ReportKind) (e : ExecReport)

variable (A : Arithmetic) (st : Session)

def onReport (e : ExecReport) : ReportKind → Session
  | .ack => st.onAck e
  | .exec => st.onExec A e
  | .cxl => st
  | .rej | .rplRej | .lighteningRej => st.onRej A e

/-- One event, with the return value of a call. -/
def step (st : Session) : Event → Option Int × Session
  | .marketData => (some (st.onMarketData A).1, (st.onMarketData A).2)
  | .ack id side index => (none, { st with impl := st.impl.ack id side index })
  | .ackAll => (none, { st with impl := st.impl.ackAll })
  | .setMtick id t =>
    (none, { st with impl := { st.impl with ticks := Function.update st.impl.ticks id t } })
  | .setRunning running => (none, { st with impl := { st.impl with isRunning := running } })
  | .setDpr id lo hi =>
    (none, { st with impl := { st.impl with dpr := Function.update st.impl.dpr id (some (lo, hi)) } })
  | .setInventory id units =>
    (none, { st with impl := { st.impl with
      inventory := Function.update st.impl.inventory id (some units) } })
  | .setMaxInventory id lots =>
    (none, { st with impl := { st.impl with
      maxInv := Function.update st.impl.maxInv id (some lots) } })
  | .setOps consumed total =>
    (none, { st with impl := { st.impl with opsConsumed := consumed, totalOps := total } })
  | .setSeconds seconds => (none, { st with impl := { st.impl with seconds := seconds } })
  | .update updateMap => (none, st.update updateMap)
  | .report kind e => (none, st.onReport A e kind)

/-- The session after a list of events. -/
def run (events : List Event) : Session := Machine.after (step A) st events

/-- Time of day in India at a UTC time. -/
def istTimeOfDay (utcSeconds : Int) : Int := (utcSeconds + 19800) % 86400

/-- The kill switch is set, or it is 15:25 or later. -/
def Halted : Prop :=
  st.strat.killed = true ∨
    0 ≤ st.impl.seconds ∧ 15 * 3600 + 25 * 60 ≤ istTimeOfDay st.impl.seconds

/-- What holds in every session of the strategy. -/
structure Sound : Prop where
  preclose : st.strat.precloseIstSod = 15 * 3600 + 25 * 60
  level : ∀ id side index, index ≠ 0 → (st.impl.slot id side index).state = .noOrder

/-- What is sent between the two sessions are cancels. -/
def OnlyCancels (st st' : Session) : Prop :=
  ∃ msgs, st'.impl.sent = st.impl.sent ++ msgs ∧ ∀ msg ∈ msgs, msg.type = .cancel

/-- Between the two sessions only cancels are sent, and no further order gets standing. -/
structure Withdraws (st st' : Session) : Prop where
  sent : OnlyCancels st st'
  settled : ∀ id side index, (st.impl.slot id side index).state ≠ .standingAcked →
    (st'.impl.slot id side index).state ≠ .standingAcked

variable {A st} {st' st'' : Session}

theorem OnlyCancels.of_eq (silent : st'.impl.sent = st.impl.sent) : OnlyCancels st st' :=
  ⟨[], by rw [silent, List.append_nil], by simp⟩

theorem OnlyCancels.trans (first : OnlyCancels st st') (second : OnlyCancels st' st'') :
    OnlyCancels st st'' := by
  obtain ⟨msgs, sent, cancels⟩ := first
  obtain ⟨msgs', sent', cancels'⟩ := second
  refine ⟨msgs ++ msgs', by rw [sent', sent, List.append_assoc], ?_⟩
  intro msg member
  rcases List.mem_append.mp member with old | new
  · exact cancels msg old
  · exact cancels' msg new

theorem Withdraws.refl : Withdraws st st := ⟨.of_eq rfl, fun _ _ _ settled => settled⟩

theorem Withdraws.trans (first : Withdraws st st') (second : Withdraws st' st'') :
    Withdraws st st'' where
  sent := first.sent.trans second.sent
  settled id side index settled :=
    second.settled id side index (first.settled id side index settled)

/-! ## The sweep -/

/-- A cancel leaves every order alone but its own, and that one if it is not standing. -/
theorem cancelSide_cases (s : SymState) (side : OrdSide) :
    ((st.impl.slot s.id side 0).state ≠ .standingAcked ∧
      (st.cancelSide A s side).impl.sent = st.impl.sent ∧
      (st.cancelSide A s side).impl.orders = st.impl.orders) ∨
    ∃ msg : SentOrder, msg.type = .cancel ∧
      (st.cancelSide A s side).impl.sent = st.impl.sent ++ [msg] ∧
      (st.cancelSide A s side).impl.orders =
        Function.update st.impl.orders (ConnectImpl.key s.id side 0)
          { st.impl.slot s.id side 0 with state := .standingUnacked, pendingCancel := true } := by
  rw [cancelSide, ConnectImpl.getStandingOrder]
  split
  next standing =>
    rcases @ConnectImpl.sendOrder_cases A st.impl { symId := s.id, side } false with
      ⟨error, refuses, refused⟩ | ⟨type, order, accepts, accepted⟩
    · rw [refused]
      refine .inl ⟨?_, rfl, rfl⟩
      cases refuses with
      | noAck waiting => rcases waiting with new | old <;> simp_all
      | noOrder free zero => simp_all
      | sameOrd _ priced _ => exact absurd rfl priced.1
    · rw [accepted]
      cases accepts with
      | cancel => exact .inr ⟨_, rfl, rfl, rfl⟩
      | replace _ priced => exact absurd rfl priced.1
      | new _ priced => exact absurd rfl priced.1
  next free => exact .inl ⟨by simp_all, rfl, rfl⟩

theorem cancelSide_withdraws (s : SymState) (side : OrdSide) :
    Withdraws st (st.cancelSide A s side) ∧
      ((st.cancelSide A s side).impl.slot s.id side 0).state ≠ .standingAcked := by
  rcases @cancelSide_cases A st s side with ⟨settled, sent, orders⟩ | ⟨msg, cancel, sent, orders⟩
  · simp only [ConnectImpl.slot] at settled
    refine ⟨⟨.of_eq sent, ?_⟩, ?_⟩ <;> simp only [ConnectImpl.slot, orders]
    · exact fun _ _ _ other => other
    · exact settled
  · refine ⟨⟨⟨[msg], sent, by simpa using cancel⟩, ?_⟩, ?_⟩ <;>
      simp only [ConnectImpl.slot, orders]
    · intro id side' index settled
      rw [Function.update_apply]
      split
      · exact nofun
      · exact settled
    · rw [Function.update_self]
      exact nofun

theorem cancelSides_withdraws (s : SymState) :
    Withdraws st (st.cancelSides A s) ∧
      ∀ side, ((st.cancelSides A s).impl.slot s.id side 0).state ≠ .standingAcked := by
  obtain ⟨bids, bid⟩ := @cancelSide_withdraws A st s .buy
  obtain ⟨asks, ask⟩ := @cancelSide_withdraws A (st.cancelSide A s .buy) s .sell
  refine ⟨bids.trans asks, fun side => ?_⟩
  cases side with
  | buy => exact asks.settled _ _ _ bid
  | sell => exact ask

theorem foldl_cancelSides_withdraws (symbols : List SymState) :
    Withdraws st (symbols.foldl (cancelSides A) st) ∧
      ∀ s ∈ symbols, ∀ side,
        ((symbols.foldl (cancelSides A) st).impl.slot s.id side 0).state ≠ .standingAcked := by
  induction symbols generalizing st with
  | nil => exact ⟨.refl, by simp⟩
  | cons s rest ih =>
    obtain ⟨first, own⟩ := @cancelSides_withdraws A st s
    obtain ⟨others, later⟩ := @ih (st.cancelSides A s)
    refine ⟨first.trans others, fun s' member side => ?_⟩
    rcases List.mem_cons.mp member with same | tail
    · subst same
      exact others.settled _ _ _ (own side)
    · exact later s' tail side

/-! ## What a pass sends -/

/-- A side of a pass withdraws its order or leaves it, or hands its quote to the platform, which
sends it or refuses it. The quote needs the side's permission and operations to spare. -/
theorem requote_cases (opsOk : Bool) (s : SymState) (side : OrdSide) (ok : Bool)
    (price qty shown : Int) :
    OnlyCancels st (st.requote A opsOk s side ok price qty shown).1 ∨
    ok = true ∧ opsOk = true ∧ ∃ type, (st.requote A opsOk s side ok price qty shown).1.impl.sent =
      st.impl.sent ++ [⟨quoteFor s side price qty, false, type⟩] := by
  rw [requote]
  split_ifs with quoted
  · have answer : (st.quoteSide A s side price qty).2.impl.sent =
        (st.impl.sendOrder A (quoteFor s side price qty) false).2.sent := by
      rw [quoteSide]
      extract_lets answer
      split_ifs <;> rfl
    rcases @ConnectImpl.sendOrder_cases A st.impl (quoteFor s side price qty) false with
      ⟨_, _, refused⟩ | ⟨type, _, _, accepted⟩
    · rw [refused] at answer
      exact .inl (.of_eq answer)
    · obtain ⟨permitted, headroom⟩ := Bool.and_eq_true_iff.mp quoted
      rw [accepted] at answer
      exact .inr ⟨permitted, headroom, type, answer⟩
  · exact .inl (cancelSide_withdraws s side).1.sent
  · exact .inl (.of_eq rfl)

/-- Without a touch or with a wide spread both sides are withdrawn. -/
theorem onSymbol_cases (opsOk : Bool) (s : SymState) :
    OnlyCancels st (st.onSymbol A opsOk s).1 ∨
    (0 < (st.impl.getMtick s.id).bidSize ∧ 0 < (st.impl.getMtick s.id).askSize) ∧
      A.i32 ((st.impl.getMtick s.id).ask - (st.impl.getMtick s.id).bid) ≤
        A.i32 (st.strat.maxSpreadTicks * s.tickSize) ∧
      st.onSymbol A opsOk s = st.quoteSymbol A opsOk (st.markMid A s) := by
  rw [onSymbol]
  split_ifs with thin wide
  · exact .inl (cancelSides_withdraws s).1.sent
  · exact .inl (cancelSides_withdraws s).1.sent
  · exact .inr ⟨by omega, Int.not_lt.mp wide, rfl⟩

/-! ## Sessions -/

/-- The remainder of the source is the time of day, where there is one to compare. -/
theorem late_iff : 15 * 3600 + 25 * 60 ≤ st.istSecondsOfDay ↔
    0 ≤ st.impl.seconds ∧ 15 * 3600 + 25 * 60 ≤ istTimeOfDay st.impl.seconds := by
  rw [istSecondsOfDay, istTimeOfDay]
  by_cases past : 0 ≤ st.impl.seconds + 19800
  · rw [Int.tmod_eq_emod_of_nonneg past]
    omega
  · have := Int.tmod_nonneg 86400 (a := -(st.impl.seconds + 19800)) (by omega)
    rw [Int.neg_tmod] at this
    omega

theorem onMarketData_halted (sound : st.Sound) (halted : st.Halted)
    (running : st.impl.isRunning = true) : (st.onMarketData A).2 = st.cancelAll A := by
  rcases @onMarketData_cases A st with
    ⟨stopped, _⟩ | ⟨_, _, call⟩ | ⟨_, _, _, call⟩ | ⟨_, alive, early, _⟩
  · rw [running] at stopped
    cases stopped
  · rw [call]
  · rw [call]
  · rw [sound.preclose, ← Int.not_le] at early
    rcases halted with killed | late
    · rw [alive] at killed
      cases killed
    · exact absurd (late_iff.mpr late) early

theorem acked_noOrder {order : OrderSlot} (free : order.state = .noOrder) :
    (ConnectImpl.acked order).state = .noOrder := by
  simp [ConnectImpl.acked, free]

/-- An update changes parameters only. -/
theorem foldl_updateParam_frame (updateMap : List (Int × Int)) (strat : Strat1) :
    ∃ spread inv flow lots killed, updateMap.foldl updateParam strat =
      { strat with
        maxSpreadTicks := spread, invSkewTicks := inv, flowSkewTicks := flow, quoteLots := lots
        killed := killed } := by
  induction updateMap generalizing strat with
  | nil => exact ⟨_, _, _, _, _, rfl⟩
  | cons entry rest ih =>
    obtain ⟨_, _, _, _, _, later⟩ := ih (updateParam strat entry)
    rw [List.foldl_cons, later, updateParam]
    split <;> exact ⟨_, _, _, _, _, rfl⟩

theorem Sends.preclose (sends : Sends st st') :
    st'.strat.precloseIstSod = st.strat.precloseIstSod := by rw [sends.strat]

/-- The end of the day is fixed. -/
theorem step_preclose (event : Event) :
    (step A st event).2.strat.precloseIstSod = st.strat.precloseIstSod := by
  cases event with
  | marketData =>
    have swept := (@cancelAll_sends A st).preclose
    have pass := (@onSymbols_sends A st st.opsOk st.strat.syms).preclose
    simp only [step]
    rcases @onMarketData_cases A st with
      ⟨_, call⟩ | ⟨_, _, call⟩ | ⟨_, _, _, call⟩ | ⟨_, _, _, call⟩ <;> rw [call]
    · exact swept
    · exact swept
    · exact pass
  | update updateMap =>
    obtain ⟨_, _, _, _, _, updated⟩ := foldl_updateParam_frame updateMap st.strat
    simp only [step, Session.update, updated]
  | report kind e =>
    cases kind with
    | rej | rplRej | lighteningRej =>
      simp only [step, onReport, onRej]
      split <;> rfl
    | _ => rfl
  | _ => rfl

theorem run_preclose (events : List Event) :
    (st.run A events).strat.precloseIstSod = st.strat.precloseIstSod :=
  Machine.after_invariant (step A) (·.strat.precloseIstSod = st.strat.precloseIstSod)
    (fun _ event same => (step_preclose event).trans same) st rfl events

/-- A call only touches the orders of the first level. -/
theorem onMarketData_upper {id : Int} {side : OrdSide} {index : UInt8} (upper : index ≠ 0) :
    (st.onMarketData A).2.impl.slot id side index = st.impl.slot id side index := by
  rcases @onMarketData_cases A st with
    ⟨_, call⟩ | ⟨_, _, call⟩ | ⟨_, _, _, call⟩ | ⟨_, _, _, call⟩ <;> rw [call]
  · exact cancelAll_sends.orders id side index upper
  · exact cancelAll_sends.orders id side index upper
  · exact (onSymbols_sends st.opsOk st.strat.syms).orders id side index upper

theorem step_sound (event : Event) (sound : st.Sound) : (step A st event).2.Sound := by
  refine ⟨(step_preclose event).trans sound.preclose, fun id side index upper => ?_⟩
  have free := sound.level id side index upper
  cases event with
  | marketData =>
    simp only [step, onMarketData_upper upper]
    exact free
  | ack id' side' index' =>
    simp only [step, ConnectImpl.ack, ConnectImpl.slot, Function.update_apply] at free ⊢
    split
    next same =>
      rw [← same]
      exact acked_noOrder free
    · exact free
  | ackAll => exact acked_noOrder free
  | report kind e =>
    cases kind with
    | rej | rplRej | lighteningRej =>
      simp only [step, onReport, onRej]
      split <;> exact free
    | _ => exact free
  | _ => exact free

/-- Only a call sends anything. -/
theorem step_sent (event : Event) (sound : st.Sound) (halted : st.Halted) :
    OnlyCancels st (step A st event).2 := by
  cases event with
  | marketData =>
    simp only [step]
    cases running : st.impl.isRunning with
    | false =>
      rw [onMarketData, running]
      exact .of_eq rfl
    | true =>
      rw [onMarketData_halted sound halted running]
      exact (foldl_cancelSides_withdraws st.strat.syms).1.sent
  | report kind e =>
    apply OnlyCancels.of_eq
    cases kind with
    | rej | rplRej | lighteningRej =>
      simp only [step, onReport, onRej]
      split <;> rfl
    | _ => rfl
  | _ => exact .of_eq rfl

theorem run_sound (sound : st.Sound) (events : List Event) : (st.run A events).Sound :=
  Machine.after_invariant (step A) Sound (fun _ event => step_sound event) st sound events

theorem initializeStrat_sound {impl : ConnectImpl} {configMap : Int → Int}
    (fresh : ∀ id side index, (impl.slot id side index).state = .noOrder)
    (started : initializeStrat impl configMap = .ok st) : st.Sound := by
  obtain ⟨syms, metricsPath, rfl⟩ := initializeStrat_ok started
  exact ⟨rfl, fun id side index _ => fresh id side index⟩

/-- What a stretch of events sends if the session is halted before each of them. -/
theorem run_sent (sound : st.Sound) (events : List Event)
    (halted : ∀ before event rest, events = before ++ event :: rest → (st.run A before).Halted) :
    OnlyCancels st (st.run A events) := by
  -- the stretch keeps the invariant and what was sent so far, unless the halt ends in it
  have stretch := Machine.after_until (step A) (fun later => later.Sound ∧ OnlyCancels st later)
    (fun later _ => ¬later.Halted)
    (fun later event ⟨sound, sent⟩ => by
      by_cases halted : later.Halted
      · exact .inl ⟨step_sound event sound, sent.trans (step_sent event sound halted)⟩
      · exact .inr halted)
    st ⟨sound, .of_eq rfl⟩ events
  rcases stretch with ⟨_, sent⟩ | ⟨before, event, rest, split, _, running⟩
  · exact sent
  · exact absurd (halted before event rest split) running

/-- From any state that a session reaches: as long as the strategy is halted, whatever happens,
no new order and no replacement is sent, and after each call on a running platform no order of
a configured symbol is standing, on any level, without a cancel on its way. -/
theorem halted_session_withdraws (A : Arithmetic) (impl : ConnectImpl) (configMap : Int → Int)
    (start : Session) (fresh : ∀ id side index, (impl.slot id side index).state = .noOrder)
    (started : initializeStrat impl configMap = .ok start) (history : List Event) :
    let st := start.run A history
    (∀ later : List Event,
      (∀ before event rest, later = before ++ event :: rest → (st.run A before).Halted) →
      OnlyCancels st (st.run A later)) ∧
    (st.Halted → st.impl.isRunning = true → ∀ s ∈ st.strat.syms, ∀ side index,
      ((st.onMarketData A).2.impl.slot s.id side index).state ≠ .standingAcked) := by
  intro st
  have sound : st.Sound := run_sound (initializeStrat_sound fresh started) history
  refine ⟨run_sent sound, fun halted running s configured side index => ?_⟩
  by_cases level : index = 0
  · rw [onMarketData_halted sound halted running, level]
    exact (foldl_cancelSides_withdraws st.strat.syms).2 s configured side
  · rw [onMarketData_upper level, sound.level s.id side index level]
    exact nofun

/-- The bid is acknowledged when the kill switch is set, the ask is not. -/
private def killedEarly : List Event :=
  [.setRunning true, .setMtick 46483 ⟨7200, 7210, 100, 100⟩, .marketData, .ack 46483 .buy 0,
    .update [(9804, 1)]]

theorem killed_session_withdrawn :
    ∃ start : Session, initializeStrat contracts (configured 1) = .ok start ∧
      (start.run .wrapping killedEarly).Halted ∧
      ((start.run .wrapping killedEarly).onMarketData .wrapping).2.impl.sent.map SentOrder.type =
        [.new, .new, .cancel] ∧
      ∀ s ∈ (start.run .wrapping killedEarly).strat.syms, ∀ side index,
        (((start.run .wrapping killedEarly).onMarketData .wrapping).2.impl.slot
          s.id side index).state ≠ .standingAcked :=
  ⟨_, rfl, .inl rfl, by decide +kernel,
    (halted_session_withdraws .wrapping contracts (configured 1) _ (fun _ _ _ => rfl) rfl killedEarly).2
      (.inl rfl) rfl⟩

end NseHft.Irage.Session
