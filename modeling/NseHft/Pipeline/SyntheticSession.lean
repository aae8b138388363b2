import NseHft.OrderManager.Lifecycle
import NseHft.Pipeline.Accounting
import NseHft.Risk.RateLimit
import NseHft.Session.SymbolCsv

/-!
# The synthetic session

What the binary runs without a connection: a quote for one token after the other through the
whole pipeline, and a full fill for each order that is listed as sent. The clock is set once,
to 09:30 of the day, and stands still.
-/
namespace NseHft

open FixedWidth

/-! ## Orders that the table still waits for -/

namespace OrderManager

variable {A : Arithmetic} {om om' : OrderManager} {o : Order} {orders : List Order}

/-- Every occupied slot belongs to one of the orders. -/
def Covered (orders : List Order) (om : OrderManager) : Prop :=
  ∀ slot, (om.table slot).occupied = true →
    ∃ o ∈ orders, slot = index o.clientOrderId ∧
      (om.table slot).order.clientOrderId = o.clientOrderId

theorem Covered.mono {more : List Order} (covered : om.Covered orders) (sub : orders ⊆ more) :
    om.Covered more := by
  intro slot occupied
  obtain ⟨o, member, here, named⟩ := covered slot occupied
  exact ⟨o, sub member, here, named⟩

theorem Covered.place (covered : om.Covered orders)
    (table : om'.table = Function.update om.table (index o.clientOrderId)
      { order := o, state := .pendingNew, occupied := true }) :
    om'.Covered (orders ++ [o]) := by
  intro slot occupied
  rw [table, Function.update_apply] at occupied ⊢
  split at occupied
  next here =>
    rw [if_pos here]
    exact ⟨o, List.mem_append_right _ List.mem_cons_self, here, rfl⟩
  next away =>
    rw [if_neg away]
    obtain ⟨other, member, at_, named⟩ := covered slot occupied
    exact ⟨other, List.mem_append_left _ member, at_, named⟩

/-- A slot that none of the orders selects is free. -/
theorem Covered.not_busy (covered : om.Covered orders) {clordid : Int}
    (apart : ∀ o ∈ orders, index o.clientOrderId ≠ index clordid) : om.busy clordid = false := by
  rw [← Bool.not_eq_true]
  intro busy
  simp only [OrderManager.busy, Bool.and_eq_true] at busy
  obtain ⟨o, member, here, _⟩ := covered _ busy.1
  exact apart o member here.symm

/-- A report that nothing remains of an order takes it off the list. -/
theorem Covered.fill {fill : FillReport} (covered : om.Covered (o :: orders))
    (named : fill.clientOrderId = o.clientOrderId) (whole : fill.remainingQty = 0) :
    (om.onFill A fill).2.Covered orders := by
  cases found : om.get fill.clientOrderId with
  | none =>
    rw [onFill_unknown found]
    intro slot occupied
    obtain ⟨other, member, here, same⟩ := covered slot occupied
    rcases List.mem_cons.mp member with rfl | later
    · -- the order is in its slot, so the report would have found it
      rw [named, (get_eq_some_iff _ _).mpr ⟨congrArg om.table here.symm, same⟩] at found
      cases found
    · exact ⟨other, later, here, same⟩
  | some lo =>
    intro slot occupied
    have ended : (filledBy A fill lo).occupied = false := by simp [filledBy, whole]
    rw [onFill_table found, Function.update_apply] at occupied ⊢
    split at occupied
    · rw [ended] at occupied
      cases occupied
    next away =>
      rw [if_neg away]
      obtain ⟨other, member, here, same⟩ := covered slot occupied
      rcases List.mem_cons.mp member with rfl | later
      · exact absurd (named ▸ here) away
      · exact ⟨other, later, here, same⟩

theorem Covered.liveCount_eq (covered : om.Covered []) (accounted : om.Accounted) :
    om.liveCount = 0 := by
  rw [accounted.count, Finset.card_eq_zero, occupiedSlots, Finset.filter_eq_empty_iff]
  intro slot _ occupied
  obtain ⟨_, member, _⟩ := covered slot occupied
  cases member

theorem new_covered (memory : Nat → Order) : (OrderManager.new memory).Covered [] := by
  intro slot occupied
  cases occupied

/-- Ids less than a lap of the table apart do not share a slot. -/
theorem index_ne_of_near {a b : Int} (less : a < b) (near : b < a + kOrderTableSize) :
    index a ≠ index b := by
  simp only [index, kOrderTableSize] at near ⊢
  omega

end OrderManager

/-! ## A rate bucket whose clock stands still -/

namespace RiskManager

variable {A : Arithmetic} {rm : RiskManager} {now n : Nat} {limit : Int}

/-- The bucket started with `limit` tokens and has given out `n` of them at one time. -/
structure Spent (limit : Int) (now n : Nat) (rm : RiskManager) : Prop where
  clock : rm.simNowNs = now
  refill : rm.lastRefillNs = 0 ∨ rm.lastRefillNs = now
  tokens : rm.tokens + n = limit
  left : 0 ≤ rm.tokens

theorem Spent.le (spent : Spent limit now n rm) : (n : Int) ≤ limit := by
  have left := spent.left
  have tokens := spent.tokens
  have bound : (n : ℚ) ≤ limit := by linarith
  exact_mod_cast bound

theorem Spent.check (spent : Spent limit now n rm) (started : now ≠ 0) (wallClock : Nat)
    (o : Order) :
    Spent limit now (n + if (rm.check A wallClock o).1 = .approved then 1 else 0)
      (rm.check A wallClock o).2 := by
  obtain ⟨clock, refill, tokens, left⟩ := spent
  have time : (if rm.simNowNs ≠ 0 then rm.simNowNs else wallClock) = now := by
    rw [clock, if_pos started]
  simp only [RiskManager.check, time, consumeRateToken_still refill]
  cases passed : rm.gate A now o with
  | some reason =>
    have rejected : reason ≠ .approved := fun equal => gate_ne_approved now o (equal ▸ passed)
    simp only [if_neg rejected]
    exact ⟨clock, refill, tokens, left⟩
  | none =>
    by_cases enough : rm.tokens ≥ 1
    · simp only [if_pos enough]
      refine ⟨clock, .inr rfl, ?_, by dsimp only; linarith⟩
      push_cast
      linarith
    · simp only [if_neg enough]
      exact ⟨clock, .inr rfl, tokens, left⟩

theorem Spent.neutral {f : RiskManager → RiskManager} (spent : Spent limit now n rm)
    (neutral : Neutral f) (clock : (f rm).simNowNs = rm.simNowNs) : Spent limit now n (f rm) := by
  refine ⟨clock.trans spent.clock, ?_, ?_, ?_⟩
  · rw [neutral.lastRefill]
    exact spent.refill
  · rw [neutral.tokens]
    exact spent.tokens
  · rw [neutral.tokens]
    exact spent.left

end RiskManager

/-! ## The send loop on a table that has room -/

namespace Pipeline

variable {A : Arithmetic} {p p' : Pipeline} {clock : ClockReadings} {i : Nat} {o : Order}
  {orders : List Order}

theorem sendOrder_ordersApproved :
    (p.sendOrder A clock i o).2.stats.ordersApproved =
      p.stats.ordersApproved +
        if (p.risk.check A (clock.check i) o).1 = .approved then 1 else 0 := by
  simp only [sendOrder]
  generalize (if p.nowNs ≠ 0 then p.nowNs else clock.stamp i) = stamp
  by_cases approved : (p.risk.check A (clock.check i) o).1 = .approved
  · simp only [approved, ne_eq, not_true_eq_false, if_false, if_true]
    split <;> rfl
  · simp only [approved, ne_eq, not_false_eq_true, if_true, if_false, Nat.add_zero]

theorem sendOrder_accounted (accounted : p.om.Accounted) :
    (p.sendOrder A clock i o).2.om.Accounted := by
  simp only [sendOrder]
  generalize (if p.nowNs ≠ 0 then p.nowNs else clock.stamp i) = stamp
  have placed := (OrderManager.answer_effect (A := A) p.om (.newOrder o p.msgBuf stamp 79)).accounted
    accounted
  split
  · exact accounted
  · split <;> exact placed

theorem sendOrder_events : (p.sendOrder A clock i o).2.stats.events = p.stats.events := by
  simp only [sendOrder]
  generalize (if p.nowNs ≠ 0 then p.nowNs else clock.stamp i) = stamp
  split_ifs <;> rfl

theorem sendOrders_events : (p.sendOrders A clock i orders).2.stats.events = p.stats.events := by
  induction orders generalizing p i with
  | nil => rfl
  | cons o rest ih => exact ih.trans sendOrder_events

variable {limit : Int} {now : Nat} {out : List Order}

/-- All approved orders have been sent, and those that the table still holds are among `out`. -/
structure Clearing (limit : Int) (now : Nat) (out : List Order) (p : Pipeline) : Prop where
  spent : p.risk.Spent limit now p.stats.ordersApproved
  accounted : p.om.Accounted
  covered : p.om.Covered out
  sent_eq : p.stats.ordersSent = p.stats.ordersApproved

theorem Clearing.sendOrder (clearing : Clearing limit now out p) (started : now ≠ 0)
    (named : o.clientOrderId ≠ 0)
    (apart : ∀ x ∈ out, OrderManager.index x.clientOrderId ≠ OrderManager.index o.clientOrderId) :
    Clearing limit now (out ++ (p.sendOrder A clock i o).1.toList.map SentOrder.order)
      (p.sendOrder A clock i o).2 := by
  obtain ⟨spent, accounted, covered, sent_eq⟩ := clearing
  have adds := @sendOrder_adds A p clock i o
  have approvals := @sendOrder_ordersApproved A p clock i o
  have after := spent.check started (A := A) (clock.check i) o
  refine ⟨?_, sendOrder_accounted accounted, ?_, ?_⟩
  · rw [approvals, sendOrder_risk]
    exact after
  · rcases @sendOrder_cases A p clock i o named with
      ⟨_, _, ⟨message, sent⟩, table⟩ | ⟨_, unsent, same⟩
    · simpa [sent] using covered.place table
    · simpa [unsent, same] using covered
  · -- the slot is free, so that what is approved goes out
    have free := covered.not_busy apart
    rw [adds.sent_eq, approvals, sent_eq]
    rcases @sendOrder_cases A p clock i o named with
      ⟨approved, _, ⟨message, sent⟩, _⟩ | ⟨refused, unsent, _⟩
    · simp [approved, sent]
    · have rejected := refused.resolve_right (by simp [free])
      simp [rejected, unsent]

theorem Clearing.sendOrders (clearing : Clearing limit now out p) (started : now ≠ 0)
    (named : ∀ o ∈ orders, o.clientOrderId ≠ 0)
    (apart : (out ++ orders).Pairwise fun a b =>
      OrderManager.index a.clientOrderId ≠ OrderManager.index b.clientOrderId) :
    Clearing limit now (out ++ (p.sendOrders A clock i orders).1.map SentOrder.order)
      (p.sendOrders A clock i orders).2 := by
  induction orders generalizing p i out with
  | nil => simpa [Pipeline.sendOrders] using clearing
  | cons o rest ih =>
    simp only [List.forall_mem_cons] at named
    have earlier := (List.pairwise_append.mp apart).2.2
    have here : Clearing limit now (out ++ (p.sendOrder A clock i o).1.toList.map SentOrder.order)
        (p.sendOrder A clock i o).2 :=
      clearing.sendOrder started named.1 fun x member => earlier x member o List.mem_cons_self
    -- what the order adds to the list is itself or nothing
    have part : ((p.sendOrder A clock i o).1.toList.map SentOrder.order).Sublist [o] := by
      cases sent : (p.sendOrder A clock i o).1 with
      | none => exact List.nil_sublist _
      | some x => simp [(sendOrder_sent named.1 sent).1]
    have others := ih here named.2 (i := i + 1) (apart.sublist (by
      rw [List.append_assoc]
      exact (part.append_right rest).append_left out))
    simpa [Pipeline.sendOrders, List.append_assoc] using others

/-- The new orders of an update do not share a slot. -/
theorem pending_apart {mm : MarketMaking} {wallClock token : Nat} {book : OrderBook} :
    (mm.onBookUpdate A wallClock token book).pending.Pairwise fun a b =>
      OrderManager.index a.clientOrderId ≠ OrderManager.index b.clientOrderId := by
  have few := @MarketMaking.onBookUpdate_pending_length A mm token wallClock book
  have counter := @MarketMaking.onBookUpdate_nextClordid_eq A mm token wallClock book
  apply List.Pairwise.imp_of_mem _ MarketMaking.onBookUpdate_pairwise
  intro a b first second less
  have low := (MarketMaking.onBookUpdate_ids a first).1
  have high := (MarketMaking.onBookUpdate_ids b second).1
  apply OrderManager.index_ne_of_near less
  simp only [kOrderTableSize]
  omega

section Process

variable {fuel : Nat} {ev : MarketEvent} {sent : List SentOrder}

theorem process_events (returned : p.process A fuel clock ev = some (sent, p')) :
    p'.stats.events = p.stats.events + 1 := by
  rcases process_steps returned with ⟨_, _, rfl⟩ | ⟨_, _, book', _, _, ⟨_, rfl, _⟩ | ⟨loop, _⟩⟩
  · rfl
  · rfl
  · rw [(Prod.mk.inj loop).2, sendOrders_events]
    rfl

/-- The book takes every quote. -/
theorem process_snapQuote (A : Arithmetic) (fuel : Nat) (p : Pipeline) (clock : ClockReadings)
    (ev : MarketEvent) (type : ev.msgType = some .snapQuote) :
    ∃ r, p.process A fuel clock ev = some r := by
  simp only [process]
  split
  · exact ⟨_, rfl⟩
  next book found =>
    simp only [OrderBook.applyEvent, type, ne_eq, not_true_eq_false, and_false, if_false,
      Option.bind_eq_bind, Option.bind_some]
    split
    · exact ⟨_, rfl⟩
    · exact ⟨_, rfl⟩

theorem referenced_spent {rm : RiskManager} {n token : Nat} (spent : rm.Spent limit now n)
    (book : OrderBook) : (referenced rm token book).Spent limit now n :=
  spent.neutral (f := fun rm => referenced rm token book) (RiskManager.updateReference_neutral _ _ _)
    (RiskManager.updateReference_simNow _ _ _ _)

/-- The orders that a call leaves in an empty table are those it lists as sent. -/
theorem Clearing.process (clearing : Clearing limit now [] p) (started : now ≠ 0)
    (positive : 1 ≤ p.strat.nextClordid)
    (returned : p.process A fuel clock ev = some (sent, p')) :
    Clearing limit now p'.sentOrders p' := by
  obtain ⟨spent, accounted, covered, sent_eq⟩ := clearing
  rcases process_steps returned with ⟨_, _, rfl⟩ | ⟨_, _, book', _, _, ⟨_, rfl, _⟩ | ⟨loop, _⟩⟩
  · exact ⟨spent, accounted, covered.mono (List.nil_subset _), sent_eq⟩
  · exact ⟨referenced_spent spent book', accounted, covered.mono (List.nil_subset _), sent_eq⟩
  · obtain ⟨rfl, rfl⟩ := Prod.mk.inj loop
    have ready : Clearing limit now [] (p.updated A clock ev book').listing :=
      ⟨referenced_spent spent book', accounted, covered, sent_eq⟩
    have few := @MarketMaking.onBookUpdate_pending_length A p.strat ev.token clock.quote book'
    have room : (p.updated A clock ev book').listing.sentOrders.length +
        (p.updated A clock ev book').strat.pending.length ≤ kMaxSent :=
      (Nat.zero_add _).trans_le (few.trans (by decide))
    rw [sendOrders_sentOrders room]
    exact ready.sendOrders started (named_of_one_le positive) pending_apart

end Process

end Pipeline

/-! ## The session -/

namespace SyntheticSession

def kToken : Nat := 2885

def kMaxEvents : Nat := 500000

/-- The instrument that stands in for a symbol master that cannot be opened. -/
def builtIn : Instrument :=
  { token := kToken
    segment := kSegmentCm
    instrumentType := .equity
    lotSize := 1
    tickSize := 5
    prevClose := 1000000
    circuitPctX100 := 2000
    -- "RELIANCE", "EQ"
    symbol := [82, 69, 76, 73, 65, 78, 67, 69] ++ List.replicate 8 0
    series := [69, 81, 0, 0] }

def loadSymbols (file : Option (List UInt8)) : SymbolMaster :=
  let (rows, symbols) := ({} : SymbolMaster).loadCsv file
  if rows < 0 then symbols.put builtIn else symbols

def snapQuote (token : Nat) (bid ask : Int) (seq : Nat) : MarketEvent :=
  { type := MtbtMsgType.snapQuote.code
    side := kSell
    token := token
    bidPrice := bid
    bidQty := 100
    askPrice := ask
    askQty := 100
    seqNo := seq }

def riskConfig : RiskConfig :=
  { maxOrdersPerSec := 1000, maxDailyLossInr := 1000000, priceSanityPct := 50 }

/-- The pipeline before the first event; `istNow` is what `ist_now_ns` reads. -/
def start (symbols : SymbolMaster) (memory : Nat → Order) (buffer : Vector UInt8 kNnfMaxMsg)
    (istNow : UInt64) : Pipeline :=
  let setup : Pipeline.Setup :=
    { tokens := [(kToken, symbols.getTickSize kToken, 2 ^ 14)]
      symbols := some symbols
      quoting := { maxPositionLots := 25 }
      riskSymbols := some symbols
      limits := riskConfig
      memory := memory
      buffer := buffer }
  let pipe := setup.fresh
  -- 'C', 'M'
  let encoder := { pipe.om.encoder.setAlphaChar 67 77 with traderId := 0 }
  { pipe with om := { pipe.om with encoder := encoder } }.setNow
    (istTimeOfDayNs istNow.toNat 9 30 0)

/-- The previous close, so that the quotes lie inside the circuit band. -/
def mid (symbols : SymbolMaster) : Int :=
  match symbols.get kToken with
  | some inst => if inst.prevClose > 0 then inst.prevClose else 1000000
  | none => 1000000

def fullFill (o : Order) : FillReport :=
  { clientOrderId := o.clientOrderId
    token := o.token
    side := o.side
    fillQty := o.qty
    fillPrice := o.price
    remainingQty := 0 }

variable (A : Arithmetic)

def fillAll (p : Pipeline) (orders : List Order) : Pipeline :=
  orders.foldl (fun p o => p.onFill A (fullFill o)) p

/-- One pass of the loop. The list of sent orders may be that of an earlier pass, whose orders
are then filled once more. -/
def pass (fuel : Nat) (symbols : SymbolMaster) (clock : ClockReadings) (p : Pipeline) (seq : Nat) :
    Option Pipeline := do
  let base := A.i64 (mid symbols + (seq % 100 : Nat) * 5)
  let (_, p) ← p.process A fuel clock (snapQuote kToken base (A.i64 (base + 10)) seq)
  some (fillAll A p p.sentOrders)

/-- The given number of passes, with the sequence numbers from `seq` on. -/
def loop (fuel : Nat) (symbols : SymbolMaster) (clock : Nat → ClockReadings) :
    Nat → Nat → Pipeline → Option Pipeline
  | 0, _, p => some p
  | n + 1, seq, p => do
    let p ← pass A fuel symbols (clock seq) p seq
    loop fuel symbols clock n (seq + 1) p

/-- The program up to its shutdown; a signal stops it after `stop` passes, if not before. -/
def main (fuel : Nat) (file : Option (List UInt8)) (memory : Nat → Order)
    (buffer : Vector UInt8 kNnfMaxMsg) (istNow : UInt64) (clock : Nat → ClockReadings)
    (stop : Nat) : Option Pipeline :=
  let symbols := loadSymbols file
  loop A fuel symbols clock (min stop kMaxEvents) 1 (start symbols memory buffer istNow)

variable {A} {p : Pipeline} {now n : Nat}

open Pipeline

/-- The state between two passes: nothing is live and the statistics add up. -/
structure Rested (now n : Nat) (p : Pipeline) : Prop where
  clearing : Clearing riskConfig.maxOrdersPerSec now [] p
  ids : 1 ≤ p.strat.nextClordid
  generated : p.stats.ordersGenerated = p.stats.ordersApproved + p.stats.ordersRejected
  events : p.stats.events = n

theorem onFill_clearing {limit : Int} {o : Order} {out : List Order}
    (clearing : Clearing limit now (o :: out) p) :
    Clearing limit now out (p.onFill A (fullFill o)) := by
  obtain ⟨spent, accounted, covered, sent_eq⟩ := clearing
  refine ⟨?_, (OrderManager.onFill_effect _).accounted accounted, covered.fill rfl rfl, sent_eq⟩
  exact spent.neutral (RiskManager.onFill_neutral A _) (RiskManager.onFill_simNow _ _)

theorem fillAll_clearing {limit : Int} {out : List Order} (clearing : Clearing limit now out p) :
    Clearing limit now [] (fillAll A p out) := by
  induction out generalizing p with
  | nil => exact clearing
  | cons o rest ih => exact ih (onFill_clearing clearing)

theorem fillAll_frame (orders : List Order) :
    (fillAll A p orders).stats = p.stats ∧
      (fillAll A p orders).strat.nextClordid = p.strat.nextClordid := by
  induction orders generalizing p with
  | nil => exact ⟨rfl, rfl⟩
  | cons o rest ih =>
    obtain ⟨stats, ids⟩ := @ih (p.onFill A (fullFill o))
    exact ⟨stats, ids.trans (onFill_nextClordid _)⟩

theorem Rested.pass (rested : Rested now n p) (started : now ≠ 0) (A : Arithmetic) (fuel : Nat)
    (symbols : SymbolMaster) (clock : ClockReadings) (seq : Nat) :
    ∃ p', SyntheticSession.pass A fuel symbols clock p seq = some p' ∧ Rested now (n + 1) p' := by
  obtain ⟨clearing, ids, generated, events⟩ := rested
  obtain ⟨⟨sent, q⟩, returned⟩ := process_snapQuote A fuel p clock
    (snapQuote kToken (A.i64 (mid symbols + (seq % 100 : Nat) * 5))
      (A.i64 (A.i64 (mid symbols + (seq % 100 : Nat) * 5) + 10)) seq) rfl
  refine ⟨fillAll A q q.sentOrders, ?_, ?_⟩
  · simp only [SyntheticSession.pass, returned, Option.bind_eq_bind, Option.bind_some]
  · have after := clearing.process started ids returned
    have counted := process_counted returned ⟨generated, rfl, Nat.le_of_eq clearing.sent_eq⟩
    obtain ⟨stats, counter⟩ := @fillAll_frame A q q.sentOrders
    refine ⟨fillAll_clearing after, ?_, ?_, ?_⟩
    · rw [counter]
      exact ids.trans (process_nextClordid returned)
    · rw [stats]
      exact counted.generated
    · rw [stats, process_events returned, events]

theorem Rested.loop (rested : Rested now n p) (started : now ≠ 0) (A : Arithmetic) (fuel : Nat)
    (symbols : SymbolMaster) (clock : Nat → ClockReadings) (passes seq : Nat) :
    ∃ p', SyntheticSession.loop A fuel symbols clock passes seq p = some p' ∧
      Rested now (n + passes) p' := by
  induction passes generalizing p n seq with
  | zero => exact ⟨p, rfl, rested⟩
  | succ passes ih =>
    obtain ⟨q, passed, next⟩ := rested.pass started A fuel symbols (clock seq) seq
    obtain ⟨p', looped, last⟩ := ih next (seq + 1)
    refine ⟨p', ?_, Nat.add_right_comm n 1 passes ▸ last⟩
    simp only [SyntheticSession.loop, passed, Option.bind_eq_bind, Option.bind_some, looped]

/-- No reading of the clock puts 09:30 at zero. -/
theorem istTimeOfDay_ne_zero (istNow : UInt64) : istTimeOfDayNs istNow.toNat 9 30 0 ≠ 0 := by
  have small := istNow.toNat_lt
  simp only [istTimeOfDayNs, istMidnightNs, u64, kNsPerDay, kNsPerSecond]
  omega

theorem start_rested (symbols : SymbolMaster) (memory : Nat → Order)
    (buffer : Vector UInt8 kNnfMaxMsg) (istNow : UInt64) :
    Rested (istTimeOfDayNs istNow.toNat 9 30 0) 0 (start symbols memory buffer istNow) where
  clearing :=
    { spent := ⟨rfl, .inl rfl, add_zero (1000 : ℚ), by simp [start, Setup.fresh, setNow,
        RiskManager.setNow, RiskManager.new, riskConfig]⟩
      -- the encoder's fields are not part of the table
      accounted := ⟨(OrderManager.new_accounted memory).count, (OrderManager.new_accounted memory).slots⟩
      covered := OrderManager.new_covered memory
      sent_eq := rfl }
  ids := Int.le_refl 1
  generated := rfl
  events := rfl

/-- Whatever the symbol file holds and whenever it is stopped, the session takes in every
event up to then, sends each order that risk approves and ends with an empty order table. It
approves a thousand orders at most in all: with the clock standing still, the bucket of the
thousand orders per second is never refilled. -/
theorem session_summary (A : Arithmetic) (fuel : Nat) (file : Option (List UInt8))
    (memory : Nat → Order) (buffer : Vector UInt8 kNnfMaxMsg) (istNow : UInt64)
    (clock : Nat → ClockReadings) (stop : Nat) :
    ∃ p, main A fuel file memory buffer istNow clock stop = some p ∧
      p.stats.events = min stop kMaxEvents ∧
      p.stats.ordersGenerated = p.stats.ordersApproved + p.stats.ordersRejected ∧
      p.stats.ordersSent = p.stats.ordersApproved ∧
      p.stats.ordersApproved ≤ 1000 ∧
      p.om.liveCount = 0 ∧ ∀ clordid, p.om.busy clordid = false := by
  have ready := start_rested (loadSymbols file) memory buffer istNow
  obtain ⟨p, returned, rested⟩ := ready.loop (istTimeOfDay_ne_zero istNow) A fuel (loadSymbols file)
    clock (min stop kMaxEvents) 1
  obtain ⟨spent, accounted, covered, sent_eq⟩ := rested.clearing
  have approved := spent.le
  refine ⟨p, returned, ?_, rested.generated, sent_eq, ?_, covered.liveCount_eq accounted, ?_⟩
  · rw [rested.events, Nat.zero_add]
  · simp only [riskConfig] at approved
    omega
  · intro clordid
    exact covered.not_busy (by simp)

end SyntheticSession

end NseHft
