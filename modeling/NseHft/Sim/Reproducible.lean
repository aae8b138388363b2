import Mathlib.Data.List.Forall2
import NseHft.Pipeline.Accounting
import NseHft.Risk.RateLimit
import NseHft.Sim.BacktestEngine

/-!
# Reproducible backtests

A backtest reads the wall clock once, to put its own clock at ten o'clock of that day, where it
stays. Two runs over the same events go side by side here, on different days, with different
contents of the memory that is never written, and with different fees. The times differ in
every quote and order, and in the rate bucket, and the slots of the order manager that hold no
order differ altogether. None of it reaches a decision.
-/
namespace NseHft

open FixedWidth

/-- The same order, created at another time. -/
def Order.Redated (o o' : Order) : Prop := o' = { o with createdAt := o'.createdAt }

/-- The same quote, placed at another time. While it is active it is as old as the clock. -/
structure SideQuote.Redated (now now' : Nat) (q q' : SideQuote) : Prop where
  active : q'.active = q.active
  price : q'.price = q.price
  clordid : q'.clordid = q.clordid
  fresh : q.active = true → q.ts = now ∧ q'.ts = now'

/-- A simulated time at which the strategy quotes and the gate of the trading hours is open. -/
structure InSession (now : Nat) : Prop where
  set : now ≠ 0
  quoting : now < precloseCancelNs now
  hours : isWithinMarketHours now = true

section Clock

variable {t hour minute second : Nat}

/-- A time of day does not overflow while the day ends before the clock does. -/
theorem istTimeOfDayNs_eq (day : t + kNsPerDay ≤ 2 ^ 64)
    (time : (hour * 3600 + minute * 60 + second) * kNsPerSecond < kNsPerDay) :
    istTimeOfDayNs t hour minute second =
      istMidnightNs t + (hour * 3600 + minute * 60 + second) * kNsPerSecond := by
  have before : istMidnightNs t ≤ t := Nat.div_mul_le_self t kNsPerDay
  exact u64_eq_self _ (by omega)

theorem istMidnightNs_timeOfDay {elapsed : Nat} (time : elapsed < kNsPerDay) :
    istMidnightNs (istMidnightNs t + elapsed) = istMidnightNs t := by
  simp only [istMidnightNs]
  rw [Nat.add_comm, Nat.add_mul_div_right _ _ (by decide : 0 < kNsPerDay),
    Nat.div_eq_of_lt time, Nat.zero_add]

theorem tenOClock_inSession (day : t + kNsPerDay ≤ 2 ^ 64) :
    InSession (istTimeOfDayNs t 10 0 0) := by
  have before : istMidnightNs t ≤ t := Nat.div_mul_le_self t kNsPerDay
  have ten := @istTimeOfDayNs_eq t 10 0 0 day (by decide)
  -- every other time of that day is counted from the same midnight
  have other (hour minute : Nat) (time : (hour * 3600 + minute * 60 + 0) * kNsPerSecond < kNsPerDay) :
      istTimeOfDayNs (istTimeOfDayNs t 10 0 0) hour minute 0 =
        istMidnightNs t + (hour * 3600 + minute * 60 + 0) * kNsPerSecond := by
    rw [ten, istTimeOfDayNs, istMidnightNs_timeOfDay (by decide)]
    exact u64_eq_self _ (by omega)
  constructor
  · rw [ten]
    simp [kNsPerSecond]
  · rw [precloseCancelNs, other 15 25 (by decide), ten]
    simp [kNsPerSecond]
  · rw [isWithinMarketHours, marketOpenNs, marketCloseNs, other 9 15 (by decide),
      other 15 30 (by decide), ten]
    simp [kNsPerSecond]

end Clock

/-! ## The strategy -/

namespace MarketMaking

/-- Two strategies in the same state, whose clocks stand at different times. -/
structure Alike (now now' : Nat) (mm mm' : MarketMaking) : Prop where
  clock : mm.simNowNs = now ∧ mm'.simNowNs = now'
  symbols : mm'.symbols = mm.symbols
  cfg : mm'.cfg = mm.cfg
  position : mm'.position = mm.position
  nextClordid : mm'.nextClordid = mm.nextClordid
  pending : List.Forall₂ Order.Redated mm.pending mm'.pending
  quote : ∀ t s, SideQuote.Redated now now' ((mm.quotes t).side s) ((mm'.quotes t).side s)

variable {A : Arithmetic} {mm mm' : MarketMaking} {now now' token : Nat} {side : Side}
  {plan : QuotePlan} {book : OrderBook}

/-- A quote is not stale as long as the clock stands where it was placed. -/
theorem not_expired {quote : SideQuote} (fresh : quote.ts = now) :
    mm.expired quote now = false := by
  subst fresh
  simp [expired, u64]

theorem intent_inSession (opened : InSession now) :
    mm.intent A now token book = if token ≥ kMaxTokens then none else mm.plan A token book := by
  simp [intent, Nat.not_le.mpr opened.quoting, opened.hours]

theorem quoteOneSide_fixed (desired qty : Int) (allowed : Bool) :
    (mm.quoteOneSide token side desired qty allowed now).symbols = mm.symbols ∧
      (mm.quoteOneSide token side desired qty allowed now).position = mm.position ∧
      (mm.quoteOneSide token side desired qty allowed now).simNowNs = mm.simNowNs := by
  simp only [quoteOneSide, emitNew, cancelSide, emitCancel, setQuote]
  split_ifs <;> exact ⟨rfl, rfl, rfl⟩

namespace Alike

theorem settled (alike : Alike now now' mm mm') :
    mm'.settled now' token side plan = mm.settled now token side plan := by
  obtain ⟨active, price, _, fresh⟩ := alike.quote token side
  simp only [MarketMaking.settled, active, price]
  -- only the age of an active quote is looked at, and it is zero in both
  cases resting : ((mm.quotes token).side side).active with
  | false => simp only [Bool.false_and]
  | true => simp only [not_expired (fresh resting).1, not_expired (fresh resting).2]

theorem due (alike : Alike now now' mm mm') :
    mm'.due now' token side plan = mm.due now token side plan := by
  simp only [MarketMaking.due, alike.settled]

theorem drops (alike : Alike now now' mm mm') :
    mm'.drops now' token side plan = mm.drops now token side plan := by
  simp only [MarketMaking.drops, alike.settled, (alike.quote token side).active]

/-- A side that is quoted anew is as old as the clock on both sides of the comparison. -/
theorem sideQuote {mid mid' : MarketMaking} {qty : Int} (alike : Alike now now' mm mm')
    (update : SideUpdate mm mid now token side plan qty)
    (update' : SideUpdate mm' mid' now' token side plan qty) (t : Nat) (s : Side) :
    SideQuote.Redated now now' ((mid.quotes t).side s) ((mid'.quotes t).side s) := by
  have before := alike.quote t s
  by_cases here : t = token ∧ s = side
  · obtain ⟨rfl, rfl⟩ := here
    rw [update.quote, update'.quote, alike.due, alike.drops]
    split
    · exact ⟨rfl, rfl, alike.nextClordid, fun _ => ⟨rfl, rfl⟩⟩
    · -- what is kept was active before, and is as old as it was
      refine ⟨?_, before.price, before.clordid, fun active => before.fresh ?_⟩
      · simp only [before.active]
      · exact (Bool.and_eq_true_iff.mp active).1
  · rw [update.others t s here, update'.others t s here]
    exact before

theorem quoteOneSide (alike : Alike now now' mm mm') (room : mm.pending.length < kMaxPending)
    (space : mm.cancels.length < kMaxPending) (space' : mm'.cancels.length < kMaxPending)
    (qty : Int) :
    Alike now now' (mm.quoteOneSide token side plan.desired qty plan.allowed now)
      (mm'.quoteOneSide token side plan.desired qty plan.allowed now') := by
  have update := @quoteOneSide_update mm now token side plan qty room space
  have update' := @quoteOneSide_update mm' now' token side plan qty
    (alike.pending.length_eq ▸ room) space'
  obtain ⟨symbols, position, clock⟩ :=
    @quoteOneSide_fixed mm now token side plan.desired qty plan.allowed
  obtain ⟨symbols', position', clock'⟩ :=
    @quoteOneSide_fixed mm' now' token side plan.desired qty plan.allowed
  constructor
  · exact ⟨clock.trans alike.clock.1, clock'.trans alike.clock.2⟩
  · rw [symbols, symbols', alike.symbols]
  · rw [update.cfg, update'.cfg, alike.cfg]
  · rw [position, position', alike.position]
  · rw [update.nextClordid, update'.nextClordid, alike.nextClordid, alike.due]
  · rw [update.pending, update'.pending, alike.due]
    refine List.rel_append alike.pending ?_
    split
    · refine .cons ?_ .nil
      simp only [Order.Redated, newQuote, alike.cfg, alike.nextClordid]
    · exact .nil
  · exact alike.sideQuote update update'

theorem cleared (alike : Alike now now' mm mm') : Alike now now' mm.cleared mm'.cleared :=
  { alike with pending := .nil }

theorem plan_eq (alike : Alike now now' mm mm') : mm'.plan A token book = mm.plan A token book := by
  -- the plan reads no quote and no time
  obtain ⟨_, symbols, cfg, position, _, _, _⟩ := alike
  cases mm
  cases mm'
  cases symbols
  cases cfg
  cases position
  rfl

/-- Both strategies want the same of a book and place it, each at its own time. -/
theorem onBookUpdate (alike : Alike now now' mm mm') (opened : InSession now)
    (opened' : InSession now') (wallClock wallClock' : Nat) :
    Alike now now' (mm.onBookUpdate A wallClock token book)
      (mm'.onBookUpdate A wallClock' token book) := by
  have time : mm.now wallClock = now := by
    rw [MarketMaking.now, alike.clock.1, if_pos opened.set]
  have time' : mm'.now wallClock' = now' := by
    rw [MarketMaking.now, alike.clock.2, if_pos opened'.set]
  have wanted : mm'.intent A now' token book = mm.intent A now token book := by
    rw [intent_inSession opened, intent_inSession opened', alike.plan_eq]
  have size : mm'.quoteQty A token = mm.quoteQty A token := by
    simp only [quoteQty, lotSize, alike.cfg, alike.symbols]
  rw [onBookUpdate_eq, onBookUpdate_eq, time, time', wanted, size]
  cases mm.intent A now token book with
  | none => exact alike.cleared
  | some plans =>
    have empty : 0 < kMaxPending := by decide
    have mid := @Alike.quoteOneSide _ _ now now' token kBuy (plans kBuy) alike.cleared empty empty
      empty (mm.quoteQty A token)
    -- the bid fills one place of each buffer at most
    have bid := @quoteOneSide_update mm.cleared now token kBuy (plans kBuy) (mm.quoteQty A token)
      empty empty
    have bid' := @quoteOneSide_update mm'.cleared now' token kBuy (plans kBuy) (mm.quoteQty A token)
      empty empty
    exact mid.quoteOneSide (bid.pending_lt rfl) (bid.cancels_lt rfl) (bid'.cancels_lt rfl) _

theorem onFill (alike : Alike now now' mm mm') (fill : FillReport) :
    Alike now now' (mm.onFill A fill) (mm'.onFill A fill) := by
  have quotes : ∀ t s, SideQuote.Redated now now' (((mm.onFill A fill).quotes t).side s)
      (((mm'.onFill A fill).quotes t).side s) := by
    intro t s
    have before := alike.quote t s
    rw [onFill_side, onFill_side, before.clordid]
    split
    · exact ⟨rfl, before.price, before.clordid, fun active => Bool.noConfusion active⟩
    · exact before
  by_cases outside : fill.token ≥ kMaxTokens
  · simp only [MarketMaking.onFill, if_pos outside]
    exact alike
  · simp only [MarketMaking.onFill, if_neg outside, alike.position] at quotes ⊢
    exact ⟨alike.clock, alike.symbols, alike.cfg, rfl, alike.nextClordid, alike.pending, quotes⟩

end Alike

end MarketMaking

/-! ## The risk manager -/

namespace RiskManager

/-- Two risk managers that differ in their times only. -/
structure Alike (now now' : Nat) (rm rm' : RiskManager) : Prop where
  clock : rm.simNowNs = now
  clock' : rm'.simNowNs = now'
  refill : rm.lastRefillNs = 0 ∨ rm.lastRefillNs = now
  refill' : rm'.lastRefillNs = 0 ∨ rm'.lastRefillNs = now'
  same : rm' = { rm with simNowNs := rm'.simNowNs, lastRefillNs := rm'.lastRefillNs }

variable {A : Arithmetic} {rm rm' : RiskManager} {now now' : Nat} {o o' : Order}

/-- The gates read the clock for the trading hours only. -/
theorem gate_inSession (opened : InSession now) (opened' : InSession now') :
    rm.gate A now' o = rm.gate A now o := by
  simp [gate, opened.hours, opened'.hours]

namespace Alike

theorem gate (alike : Alike now now' rm rm') (opened : InSession now) (opened' : InSession now')
    (order : o.Redated o') : rm'.gate A now' o' = rm.gate A now o := by
  rw [alike.same, order, ← gate_inSession opened opened']
  rfl

/-- Both come to the same verdict: their buckets hold the same tokens, and none flow back
while the clocks stand. -/
theorem check (alike : Alike now now' rm rm') (opened : InSession now) (opened' : InSession now')
    (order : o.Redated o') (wallClock wallClock' : Nat) :
    (rm'.check A wallClock' o').1 = (rm.check A wallClock o).1 ∧
      Alike now now' (rm.check A wallClock o).2 (rm'.check A wallClock' o').2 := by
  have time : (if rm.simNowNs ≠ 0 then rm.simNowNs else wallClock) = now := by
    rw [alike.clock, if_pos opened.set]
  have time' : (if rm'.simNowNs ≠ 0 then rm'.simNowNs else wallClock') = now' := by
    rw [alike.clock', if_pos opened'.set]
  have tokens : rm'.tokens = rm.tokens := by rw [alike.same]
  simp only [RiskManager.check, time, time', alike.gate opened opened' order,
    consumeRateToken_still alike.refill, consumeRateToken_still alike.refill', tokens]
  cases rm.gate A now o with
  | some reason => exact ⟨rfl, alike⟩
  | none =>
    by_cases enough : rm.tokens ≥ 1
    · simp only [if_pos enough]
      refine ⟨trivial, alike.clock, alike.clock', .inr rfl, .inr rfl, ?_⟩
      rw [alike.same]
    · simp only [if_neg enough]
      refine ⟨trivial, alike.clock, alike.clock', .inr rfl, .inr rfl, ?_⟩
      rw [alike.same]

theorem updateReference (alike : Alike now now' rm rm') (token : Nat) (bid ask : Int) :
    Alike now now' (rm.updateReference token bid ask) (rm'.updateReference token bid ask) := by
  simp only [RiskManager.updateReference]
  split
  · refine ⟨alike.clock, alike.clock', alike.refill, alike.refill', ?_⟩
    rw [alike.same]
  · exact alike

theorem onFill (alike : Alike now now' rm rm') (fill : FillReport) :
    Alike now now' (rm.onFill A fill) (rm'.onFill A fill) := by
  simp only [RiskManager.onFill]
  split
  · exact alike
  · refine ⟨alike.clock, alike.clock', alike.refill, alike.refill', ?_⟩
    rw [alike.same]
    rfl

end Alike

end RiskManager

/-! ## The order manager -/

namespace OrderManager

/-- Two slots that are both free, whatever they hold, or hold the same order. -/
structure SlotAlike (lo lo' : LiveOrder) : Prop where
  occupied : lo'.occupied = lo.occupied
  order : lo.occupied = true → lo.order.Redated lo'.order
  state : lo.occupied = true → lo'.state = lo.state
  filledQty : lo.occupied = true → lo'.filledQty = lo.filledQty

def Alike (om om' : OrderManager) : Prop := ∀ slot, SlotAlike (om.table slot) (om'.table slot)

variable {A : Arithmetic} {om om' : OrderManager}

namespace Alike

theorem busy (alike : Alike om om') (id : Int) : om'.busy id = om.busy id := by
  have slot := alike (index id)
  simp only [OrderManager.busy, slot.occupied]
  cases taken : (om.table (index id)).occupied with
  | false => rfl
  | true => rw [slot.state taken]

theorem place (alike : Alike om om') {o o' : Order} (order : o.Redated o') (slot : Nat) :
    SlotAlike
      (Function.update om.table (index o.clientOrderId)
        { order := o, state := .pendingNew, occupied := true } slot)
      (Function.update om'.table (index o'.clientOrderId)
        { order := o', state := .pendingNew, occupied := true } slot) := by
  have id : o'.clientOrderId = o.clientOrderId := by rw [order]
  rw [id]
  by_cases here : slot = index o.clientOrderId
  · rw [here, Function.update_self, Function.update_self]
    exact ⟨rfl, fun _ => order, fun _ => rfl, fun _ => rfl⟩
  · rw [Function.update_of_ne here, Function.update_of_ne here]
    exact alike slot

end Alike

/-- A report leaves a free slot free: whatever it holds, it is not an order that could be found
busy later. -/
theorem onFill_vacant {fill : FillReport} {slot : Nat}
    (free : (om.table slot).occupied = false) :
    ((om.onFill A fill).2.table slot).occupied = false := by
  cases found : om.get fill.clientOrderId with
  | none => rwa [onFill_unknown found]
  | some lo =>
    rw [onFill_table found]
    by_cases here : slot = index fill.clientOrderId
    · have stored := ((get_eq_some_iff _ _).mp found).1
      rw [here, stored] at free
      rw [here, Function.update_self, filledBy]
      split
      · rfl
      · exact free
    · rwa [Function.update_of_ne here]

theorem SlotAlike.filledBy {lo lo' : LiveOrder} (alike : SlotAlike lo lo')
    (taken : lo.occupied = true) (fill : FillReport) :
    SlotAlike (filledBy A fill lo) (filledBy A fill lo') := by
  have order := alike.order taken
  have qty : lo'.order.qty = lo.order.qty := by rw [order]
  simp only [OrderManager.filledBy, alike.filledQty taken, qty]
  split
  · exact ⟨rfl, fun _ => order, fun _ => rfl, fun _ => rfl⟩
  · exact ⟨alike.occupied, fun _ => order, fun _ => rfl, fun _ => rfl⟩

theorem Alike.onFill (alike : Alike om om') (fill : FillReport) :
    Alike (om.onFill A fill).2 (om'.onFill A fill).2 := by
  intro slot
  have before := alike slot
  cases taken : (om.table slot).occupied with
  | false =>
    have free := @onFill_vacant A om fill slot taken
    have free' := @onFill_vacant A om' fill slot (before.occupied.trans taken)
    constructor
    · rw [free, free']
    all_goals
      intro busy
      rw [free] at busy
      cases busy
  | true =>
    have id : (om'.table slot).order.clientOrderId = (om.table slot).order.clientOrderId := by
      rw [before.order taken]
    by_cases named : slot = index fill.clientOrderId ∧
        (om.table slot).order.clientOrderId = fill.clientOrderId
    · obtain ⟨rfl, same⟩ := named
      rw [onFill_table ((get_eq_some_iff _ _).mpr ⟨rfl, same⟩),
        onFill_table ((get_eq_some_iff _ _).mpr ⟨rfl, id.trans same⟩), Function.update_self,
        Function.update_self]
      exact before.filledBy taken fill
    · -- the report is about another slot, or about no order that is known
      have untouched (om : OrderManager) (other : ¬(slot = index fill.clientOrderId ∧
          (om.table slot).order.clientOrderId = fill.clientOrderId)) :
          (om.onFill A fill).2.table slot = om.table slot := by
        cases found : om.get fill.clientOrderId with
        | none => rw [onFill_unknown found]
        | some lo =>
          rw [onFill_table found, Function.update_of_ne]
          rintro rfl
          obtain ⟨stored, same⟩ := (get_eq_some_iff _ _).mp found
          exact other ⟨rfl, stored ▸ same⟩
      rw [untouched om named, untouched om' (id ▸ named)]
      exact before

end OrderManager

/-! ## The pipeline -/

namespace Pipeline

variable {A : Arithmetic} {p p' : Pipeline} {now now' i fuel : Nat} {clock clock' : ClockReadings}
  {o o' : Order} {orders orders' : List Order}

/-- Two pipelines in the same state, at different times. -/
structure Alike (now now' : Nat) (p p' : Pipeline) : Prop where
  books : p'.books = p.books
  strat : MarketMaking.Alike now now' p.strat p'.strat
  risk : RiskManager.Alike now now' p.risk p'.risk
  om : OrderManager.Alike p.om p'.om
  stats : p'.stats = p.stats
  sentOrders : List.Forall₂ Order.Redated p.sentOrders p'.sentOrders

def approves (A : Arithmetic) (p : Pipeline) (clock : ClockReadings) (i : Nat) (o : Order) : Bool :=
  decide ((p.risk.check A (clock.check i) o).1 = .approved)

/-- The order passes risk and finds its slot free. -/
def places (A : Arithmetic) (p : Pipeline) (clock : ClockReadings) (i : Nat) (o : Order) : Bool :=
  p.approves A clock i o && !p.om.busy o.clientOrderId

/-- All that a pass of the send loop does besides the check, but for the encoded message. -/
theorem sendOrder_effect (named : o.clientOrderId ≠ 0) :
    (p.sendOrder A clock i o).2.om.table =
      (if p.places A clock i o then Function.update p.om.table (OrderManager.index o.clientOrderId)
        { order := o, state := .pendingNew, occupied := true } else p.om.table) ∧
    (p.sendOrder A clock i o).2.sentOrders =
      (if p.places A clock i o ∧ p.sentOrders.length < kMaxSent then p.sentOrders ++ [o]
        else p.sentOrders) ∧
    (p.sendOrder A clock i o).2.stats =
      { p.stats with
        ordersRejected := p.stats.ordersRejected + if p.approves A clock i o then 0 else 1
        ordersApproved := p.stats.ordersApproved + if p.approves A clock i o then 1 else 0
        ordersSent := p.stats.ordersSent + if p.places A clock i o then 1 else 0 } := by
  by_cases approved : (p.risk.check A (clock.check i) o).1 = .approved
  · cases busy : p.om.busy o.clientOrderId with
    | true =>
      simp [sendOrder, places, approves, approved, busy, OrderManager.newOrder_busy named busy]
    | false =>
      obtain ⟨length, order, table⟩ := @OrderManager.newOrder_free p.om o p.msgBuf
        (if p.nowNs ≠ 0 then p.nowNs else clock.stamp i) 79 named busy
      simp only [ne_eq, ite_not] at length order table
      simp [sendOrder, places, approves, approved, busy, length, order, table]
  · simp [sendOrder, places, approves, approved]

namespace Alike

theorem sendOrder (alike : Alike now now' p p') (opened : InSession now)
    (opened' : InSession now') (order : o.Redated o') (named : o.clientOrderId ≠ 0) :
    Alike now now' (p.sendOrder A clock i o).2 (p'.sendOrder A clock' i o').2 := by
  have id : o'.clientOrderId = o.clientOrderId := by rw [order]
  obtain ⟨verdict, risk⟩ := @RiskManager.Alike.check A _ _ _ _ _ _ alike.risk opened opened' order
    (clock.check i) (clock'.check i)
  have approves : p'.approves A clock' i o' = p.approves A clock i o := by
    rw [Pipeline.approves, Pipeline.approves, verdict]
  have places : p'.places A clock' i o' = p.places A clock i o := by
    rw [Pipeline.places, Pipeline.places, approves, id, alike.om.busy]
  obtain ⟨table, list, stats⟩ := @sendOrder_effect A p i clock o named
  obtain ⟨table', list', stats'⟩ := @sendOrder_effect A p' i clock' o' (id ▸ named)
  constructor
  · rw [sendOrder_books, sendOrder_books, alike.books]
  · rw [sendOrder_strat, sendOrder_strat]
    exact alike.strat
  · rw [sendOrder_risk, sendOrder_risk]
    exact risk
  · intro slot
    rw [table, table', places]
    split
    · exact alike.om.place order slot
    · exact alike.om slot
  · rw [stats, stats', approves, places, alike.stats]
  · rw [list, list', places, ← alike.sentOrders.length_eq]
    split
    · exact List.rel_append alike.sentOrders (.cons order .nil)
    · exact alike.sentOrders

theorem sendOrders (alike : Alike now now' p p') (opened : InSession now)
    (opened' : InSession now') (same : List.Forall₂ Order.Redated orders orders')
    (named : ∀ o ∈ orders, o.clientOrderId ≠ 0) :
    Alike now now' (p.sendOrders A clock i orders).2 (p'.sendOrders A clock' i orders').2 := by
  induction same generalizing p p' i with
  | nil => exact alike
  | cons order _ ih =>
    rw [List.forall_mem_cons] at named
    exact ih (alike.sendOrder opened opened' order named.1) named.2

theorem updated (alike : Alike now now' p p') (opened : InSession now) (opened' : InSession now')
    (ev : MarketEvent) (book : OrderBook) :
    Alike now now' (p.updated A clock ev book) (p'.updated A clock' ev book) := by
  constructor
  · simp only [Pipeline.updated, alike.books]
  · exact alike.strat.onBookUpdate opened opened' _ _
  · exact alike.risk.updateReference _ _ _
  · exact alike.om
  · simp only [Pipeline.updated, alike.stats]
  · exact alike.sentOrders

theorem listing (alike : Alike now now' p p') : Alike now now' p.listing p'.listing :=
  { alike with
    stats := by simp only [Pipeline.listing, alike.stats, alike.strat.pending.length_eq]
    sentOrders := .nil }

theorem respond (alike : Alike now now' p p') (opened : InSession now) (opened' : InSession now')
    (named : ∀ o ∈ p.strat.pending, o.clientOrderId ≠ 0) :
    Alike now now' (p.respond A clock).2 (p'.respond A clock').2 := by
  have empty : p'.strat.pending.isEmpty = p.strat.pending.isEmpty := by
    rw [Bool.eq_iff_iff, List.isEmpty_iff_length_eq_zero, List.isEmpty_iff_length_eq_zero,
      alike.strat.pending.length_eq]
  rw [Pipeline.respond, Pipeline.respond, empty]
  split
  · exact alike
  · exact alike.listing.sendOrders opened opened' alike.strat.pending named

/-- Both calls return, in pipelines that are alike, or neither does: the books are the same. -/
theorem process (alike : Alike now now' p p') (opened : InSession now) (opened' : InSession now')
    (positive : 1 ≤ p.strat.nextClordid) (ev : MarketEvent) :
    p.process A fuel clock ev = none ∧ p'.process A fuel clock' ev = none ∨
      ∃ r r', p.process A fuel clock ev = some r ∧ p'.process A fuel clock' ev = some r' ∧
        Alike now now' r.2 r'.2 := by
  cases watched : p.books.getBook ev.token with
  | none =>
    right
    refine ⟨_, _, process_eq_unwatched watched, process_eq_unwatched (alike.books ▸ watched), ?_⟩
    exact ⟨alike.books, alike.strat, alike.risk, alike.om, by simp only [alike.stats],
      alike.sentOrders⟩
  | some book =>
    rw [process_eq_watched watched, process_eq_watched (alike.books ▸ watched)]
    cases book.applyEvent fuel ev with
    | none => exact .inl ⟨rfl, rfl⟩
    | some applied =>
      refine .inr ⟨_, _, rfl, rfl, ?_⟩
      -- ids count from one, so the order manager never picks one itself
      apply (alike.updated opened opened' ev applied.2).respond opened opened'
      intro o member
      have numbered := (MarketMaking.onBookUpdate_ids o member).1.1
      omega

theorem onFill (alike : Alike now now' p p') (fill : FillReport) :
    Alike now now' (p.onFill A fill) (p'.onFill A fill) :=
  { alike with
    strat := alike.strat.onFill fill
    risk := alike.risk.onFill fill
    om := alike.om.onFill fill }

end Alike

end Pipeline

/-! ## The backtest -/

/-- What the fees have no part in. -/
def BtResult.trading (r : BtResult) : BtResult := { r with feesInr := 0, pnlInr := 0 }

/-- The same arguments under another schedule of fees. -/
def BacktestArgs.withFees (args : BacktestArgs) (fees : FeeModel) : BacktestArgs :=
  { args with fees := fees }

namespace Backtest

variable {A : Arithmetic} {args : BacktestArgs} {fees : FeeModel} {world world' : BacktestWorld}
  {bt bt' : Backtest} {now now' : Nat}

/-- Two backtests in the same state, at different times. They have paid the same if they pay
the same fees. -/
structure Alike (args : BacktestArgs) (fees : FeeModel) (now now' : Nat) (bt bt' : Backtest) :
    Prop where
  pipe : Pipeline.Alike now now' bt.pipe bt'.pipe
  fillsim : bt'.fillsim = bt.fillsim
  cashPaisa : bt'.cashPaisa = bt.cashPaisa
  position : bt'.position = bt.position
  mark : bt'.mark = bt.mark
  makerFills : bt'.makerFills = bt.makerFills
  feesPaisa : fees = args.fees → bt'.feesPaisa = bt.feesPaisa
  positive : 1 ≤ bt.pipe.strat.nextClordid

/-- The simulator takes no notice of the time at which an order was created. -/
theorem registerOrders_redated {orders orders' : List Order}
    (same : List.Forall₂ Order.Redated orders orders') {ahead : Order → Int}
    (undated : ∀ o o' : Order, o.Redated o' → ahead o' = ahead o) (sim : FillSimulator) :
    orders'.foldl (fun sim o => sim.registerOrder o (ahead o)) sim =
      orders.foldl (fun sim o => sim.registerOrder o (ahead o)) sim := by
  induction same generalizing sim with
  | nil => rfl
  | @cons o o' rest rest' order _ ih =>
    have registered : sim.registerOrder o' (ahead o') = sim.registerOrder o (ahead o) := by
      rw [undated o o' order, order]
      rfl
    rw [List.foldl_cons, List.foldl_cons, registered]
    exact ih _

namespace Alike

theorem onFill (alike : Alike args fees now now' bt bt') (f : FillReport) :
    Alike args fees now now' (bt.onFill A args f) (bt'.onFill A (args.withFees fees) f) := by
  constructor
  · exact alike.pipe.onFill f
  · exact alike.fillsim
  · simp only [Backtest.onFill, alike.cashPaisa]
  · simp only [Backtest.onFill, alike.position]
  · exact alike.mark
  · simp only [Backtest.onFill, alike.makerFills]
  · intro same
    simp only [Backtest.onFill, BacktestArgs.withFees, alike.feesPaisa same, same]
  · rw [Backtest.onFill, Pipeline.onFill_nextClordid]
    exact alike.positive

theorem foldl_onFill (alike : Alike args fees now now' bt bt') (reports : List FillReport) :
    Alike args fees now now' (reports.foldl (Backtest.onFill A args) bt)
      (reports.foldl (Backtest.onFill A (args.withFees fees)) bt') := by
  induction reports generalizing bt bt' with
  | nil => exact alike
  | cons f _ ih => exact ih (alike.onFill f)

theorem fillEvent (alike : Alike args fees now now' bt bt') (ev : MarketEvent) :
    Alike args fees now now' (bt.fillEvent A args ev) (bt'.fillEvent A (args.withFees fees) ev) := by
  simp only [Backtest.fillEvent, alike.fillsim, alike.mark]
  apply foldl_onFill
  exact { alike with fillsim := rfl, mark := rfl }

theorem processEvent (alike : Alike args fees now now' bt bt') (opened : InSession now)
    (opened' : InSession now') (fuel : world'.fuel = world.fuel) (ev : MarketEvent) :
    bt.processEvent A args world ev = none ∧
        bt'.processEvent A (args.withFees fees) world' ev = none ∨
      ∃ next next', bt.processEvent A args world ev = some next ∧
        bt'.processEvent A (args.withFees fees) world' ev = some next' ∧
        Alike args fees now now' next next' := by
  simp only [Backtest.processEvent, fuel]
  rcases @Pipeline.Alike.process A _ _ _ _ world.fuel (world.clocks bt.eventIndex)
      (world'.clocks bt'.eventIndex) alike.pipe opened opened' alike.positive ev with
    ⟨stuck, stuck'⟩ | ⟨r, r', returned, returned', after⟩
  · exact .inl ⟨by rw [stuck]; rfl, by rw [stuck']; rfl⟩
  · rw [returned, returned']
    refine .inr ⟨_, _, rfl, rfl, ?_⟩
    constructor
    · exact after
    · -- the same orders queue behind the same quantities
      dsimp only
      rw [after.books, alike.fillsim]
      apply registerOrders_redated after.sentOrders
      intro o o' order
      rw [order]
    · exact alike.cashPaisa
    · exact alike.position
    · exact alike.mark
    · exact alike.makerFills
    · exact alike.feesPaisa
    · exact Int.le_trans alike.positive (Pipeline.process_nextClordid returned)

/-- Step by step the two runs stay alike, and both come to the end or neither does. -/
theorem runEvents (alike : Alike args fees now now' bt bt') (opened : InSession now)
    (opened' : InSession now') (fuel : world'.fuel = world.fuel) (events : List MarketEvent) :
    (bt'.runEvents A (args.withFees fees) world' events).2 =
        (bt.runEvents A args world events).2 ∧
      Alike args fees now now' (bt.runEvents A args world events).1
        (bt'.runEvents A (args.withFees fees) world' events).1 := by
  induction events generalizing bt bt' with
  | nil => exact ⟨rfl, alike⟩
  | cons ev rest ih =>
    have filled := @Alike.fillEvent A _ _ _ _ _ _ alike ev
    simp only [Backtest.runEvents]
    rcases @Alike.processEvent A _ _ world world' _ _ _ _ filled opened opened' fuel ev with
      ⟨stuck, stuck'⟩ | ⟨next, next', returned, returned', after⟩
    · rw [stuck, stuck']
      exact ⟨rfl, filled⟩
    · rw [returned, returned']
      exact ih after

end Alike

theorem symbols_withFees : symbols (args.withFees fees) = symbols args := by
  simp only [symbols, BacktestArgs.withFees]

/-- The two set-ups differ in the memory they find. -/
theorem setup_withFees : setup (args.withFees fees) world' =
    { setup args world with memory := world'.memory, buffer := world'.buffer } := by
  simp only [setup, symbols_withFees]
  simp only [BacktestArgs.withFees]

theorem fresh_alike {s : Pipeline.Setup} (memory : Nat → Order) (buffer : Vector UInt8 kNnfMaxMsg) :
    Pipeline.Alike now now' (s.fresh.setNow now)
      (Pipeline.setNow { s with memory := memory, buffer := buffer }.fresh now') := by
  refine ⟨rfl, ⟨⟨rfl, rfl⟩, rfl, rfl, rfl, rfl, .nil, ?_⟩, ⟨rfl, rfl, .inl rfl, .inl rfl, rfl⟩, ?_,
    rfl, .nil⟩
  · intro _ side
    cases side <;> exact ⟨rfl, rfl, rfl, fun active => Bool.noConfusion active⟩
  · -- nothing is in a slot yet, whatever the memory holds
    intro slot
    exact ⟨rfl, fun taken => Bool.noConfusion taken, fun taken => Bool.noConfusion taken,
      fun taken => Bool.noConfusion taken⟩

theorem start_alike : Alike args fees (istTimeOfDayNs world.startNs 10 0 0)
    (istTimeOfDayNs world'.startNs 10 0 0) (start args world)
    (start (args.withFees fees) world') := by
  rw [start, start, @setup_withFees args fees world world']
  exact ⟨fresh_alike _ _, rfl, rfl, rfl, rfl, rfl, fun _ => rfl, Int.le_refl 1⟩

/-- What a backtest trades depends on the events and the arguments only: not on the day it is
run, on the clock while it runs, on what lies in memory that was never written, or on the fees.
With the same fees its result is the same. -/
theorem backtest_reproducible (A : Arithmetic) (args : BacktestArgs) (fees : FeeModel)
    (world world' : BacktestWorld) (fuel : world'.fuel = world.fuel)
    (day : world.startNs + kNsPerDay ≤ 2 ^ 64) (day' : world'.startNs + kNsPerDay ≤ 2 ^ 64)
    (events : List MarketEvent) :
    (runBacktest A (args.withFees fees) world' events).map BtResult.trading =
        (runBacktest A args world events).map BtResult.trading ∧
      (fees = args.fees →
        runBacktest A (args.withFees fees) world' events = runBacktest A args world events) := by
  obtain ⟨ended, alike⟩ := @Alike.runEvents A args fees world world' _ _ _ _ start_alike
    (tenOClock_inSession day) (tenOClock_inSession day') fuel events
  have traded : (((start (args.withFees fees) world').runEvents A (args.withFees fees) world'
      events).1.result A).trading = (((start args world).runEvents A args world events).1.result
        A).trading := by
    simp only [result, BtResult.trading, alike.pipe.stats, alike.makerFills, alike.position,
      alike.cashPaisa, alike.mark]
  simp only [runBacktest, ended]
  split
  · refine ⟨congrArg some traded, fun same => ?_⟩
    simp only [result, alike.pipe.stats, alike.makerFills, alike.position, alike.cashPaisa,
      alike.mark, alike.feesPaisa same]
  · exact ⟨rfl, fun _ => rfl⟩

/-- Twenty thousand days later, with ids in the memory that the run gives out itself. -/
def laterWorld : BacktestWorld :=
  { blankWorld with
    startNs := 20000 * kNsPerDay
    memory := fun slot => { clientOrderId := slot, qty := 5 } }

theorem rebate_leaves_trades :
    (runBacktest .wrapping (oneLot 1) blankWorld twoTrades).map BtResult.position = some 2 ∧
      (runBacktest .wrapping ((oneLot 1).withFees { makerRebateBp100 := 250 }) laterWorld
          twoTrades).map BtResult.trading =
        (runBacktest .wrapping (oneLot 1) blankWorld twoTrades).map BtResult.trading :=
  ⟨by decide +kernel, (backtest_reproducible .wrapping (oneLot 1) { makerRebateBp100 := 250 }
    blankWorld laterWorld rfl (by decide) (by decide) twoTrades).1⟩

end Backtest

end NseHft
