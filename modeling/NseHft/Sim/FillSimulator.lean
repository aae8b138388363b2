import Mathlib.Algebra.BigOperators.Group.List.Basic
import Mathlib.Algebra.Order.Group.Int
import Mathlib.Data.List.Nodup
import Mathlib.Logic.Function.Basic
import NseHft.Common.Types
import NseHft.Lib.FixedWidth

/-!
# Fill simulator

Replayed trades against our resting quotes, one for each side and token. The queue ahead of a
quote absorbs a trade first. A quote is a copy of an order that knows nothing of earlier fills:
that an order is not filled beyond its quantity rests on which orders are registered (`Backed`).
The counters of fills and trade numbers count without wrapping.
-/
namespace NseHft

open FixedWidth

def kSimMaxTokens : Nat := 65536

structure SimQuote where
  active : Bool := false
  price : Int := 0
  remaining : Int := 0
  queueAhead : Int := 0
  id : Int := 0
  token : Nat := 0
  deriving DecidableEq, Repr

/-- A trade at the price reaches the quote: a bid at or below its price, an ask at or above. -/
def SimQuote.reachedAt (q : SimQuote) (side : Side) (price : Int) : Bool :=
  match side with
  | kBuy => decide (price ≤ q.price)
  | kSell => decide (price ≥ q.price)

/-- What a trade makes of a quote and what is reported of it. Nothing is filled when the queue
absorbs the trade or nothing remains of the order. -/
inductive SimQuote.Matched (A : Arithmetic) (old : SimQuote) (side : Side) (tradeQty : Int) :
    List FillReport → SimQuote → Prop
  | absorbed (nothing : A.i32 (tradeQty - min old.queueAhead tradeQty) ≤ 0 ∨ old.remaining ≤ 0) :
      Matched A old side tradeQty []
        { old with queueAhead := A.i32 (old.queueAhead - min old.queueAhead tradeQty) }
  | filled (fillQty tradeNo : Int)
      (taken : fillQty = min old.remaining (A.i32 (tradeQty - min old.queueAhead tradeQty)))
      (positive : 0 < fillQty) :
      Matched A old side tradeQty
        [{ clientOrderId := old.id
           token := old.token
           side := side
           fillPrice := old.price
           fillQty := fillQty
           remainingQty := A.i32 (old.remaining - fillQty)
           tradeNo := tradeNo }]
        { old with
          queueAhead := A.i32 (old.queueAhead - min old.queueAhead tradeQty)
          remaining := A.i32 (old.remaining - fillQty)
          active := old.active && decide (0 < A.i32 (old.remaining - fillQty)) }

structure FillSimulator where
  bid : Nat → SimQuote := fun _ => {}
  ask : Nat → SimQuote := fun _ => {}
  fills : Nat := 0
  nextTradeNo : Int := 1

namespace FillSimulator

variable (A : Arithmetic)

def quote (sim : FillSimulator) : Side → Nat → SimQuote
  | kBuy => sim.bid
  | kSell => sim.ask

def setQuote (sim : FillSimulator) (side : Side) (token : Nat) (q : SimQuote) : FillSimulator :=
  match side with
  | kBuy => { sim with bid := Function.update sim.bid token q }
  | kSell => { sim with ask := Function.update sim.ask token q }

/-- Records the quote of a side, in place of whatever was there. -/
def registerOrder (sim : FillSimulator) (o : Order) (queueAhead : Int) : FillSimulator :=
  if o.token ≥ kSimMaxTokens then sim
  else sim.setQuote o.side o.token
    { active := true
      price := o.price
      remaining := o.qty
      queueAhead := if queueAhead < 0 then 0 else queueAhead
      id := o.clientOrderId
      token := o.token }

/-- A trade of the given quantity against the quote of a side: at most one report. -/
def matchAgainst (sim : FillSimulator) (side : Side) (token : Nat) (tradeQty : Int) :
    List FillReport × FillSimulator :=
  let q := sim.quote side token
  let eatQueue := min q.queueAhead tradeQty
  let q := { q with queueAhead := A.i32 (q.queueAhead - eatQueue) }
  let tradeQty := A.i32 (tradeQty - eatQueue)
  -- entirely absorbed by the queue
  if tradeQty ≤ 0 then ([], sim.setQuote side token q)
  else
    let fillQty := min q.remaining tradeQty
    if fillQty ≤ 0 then ([], sim.setQuote side token q)
    else
      let q := { q with remaining := A.i32 (q.remaining - fillQty) }
      let f : FillReport :=
        { clientOrderId := q.id
          token := q.token
          side := side
          fillPrice := q.price
          fillQty := fillQty
          remainingQty := q.remaining
          tradeNo := sim.nextTradeNo }
      let q := if q.remaining ≤ 0 then { q with active := false } else q
      ([f], { sim.setQuote side token q with
        fills := sim.fills + 1
        nextTradeNo := sim.nextTradeNo + 1 })

/-- One side of `on_event`. -/
def onTrade (sim : FillSimulator) (ev : MarketEvent) (side : Side) :
    List FillReport × FillSimulator :=
  let q := sim.quote side ev.token
  if q.active && q.reachedAt side ev.price then sim.matchAgainst A side ev.token ev.qty
  else ([], sim)

/-- The reports in the order in which they are emitted. -/
def onEvent (sim : FillSimulator) (ev : MarketEvent) : List FillReport × FillSimulator :=
  if ev.msgType ≠ some .trade then ([], sim)
  else if ev.token ≥ kSimMaxTokens then ([], sim)
  else
    -- each side meets the whole quantity of the trade
    let (bought, sim) := sim.onTrade A ev kBuy
    let (sold, sim) := sim.onTrade A ev kSell
    (bought ++ sold, sim)

variable {A}

/-- One quote is replaced, every other one stays. -/
def Writes (sim sim' : FillSimulator) (side : Side) (token : Nat) (q : SimQuote) : Prop :=
  ∀ s t, sim'.quote s t = if s = side ∧ t = token then q else sim.quote s t

theorem setQuote_writes (sim : FillSimulator) (side : Side) (token : Nat) (q : SimQuote) :
    sim.Writes (sim.setQuote side token q) side token q := by
  intro s t
  cases side <;> cases s <;> simp [setQuote, quote, Function.update_apply]

/-- What holds of the new quote and of every other one holds of all quotes afterwards. -/
theorem Writes.all {sim sim' : FillSimulator} {side : Side} {token : Nat} {q : SimQuote}
    (writes : sim.Writes sim' side token q) {P : Side → Nat → SimQuote → Prop}
    (new : P side token q) (others : ∀ s t, ¬ (s = side ∧ t = token) → P s t (sim.quote s t)) :
    ∀ s t, P s t (sim'.quote s t) := by
  intro s t
  rw [writes s t]
  split
  next here =>
    obtain ⟨rfl, rfl⟩ := here
    exact new
  next elsewhere => exact others s t elsewhere

theorem matchAgainst_matched (sim : FillSimulator) (side : Side) (token : Nat) (tradeQty : Int) :
    ∃ q : SimQuote,
      sim.Writes (sim.matchAgainst A side token tradeQty).2 side token q ∧
      (sim.quote side token).Matched A side tradeQty (sim.matchAgainst A side token tradeQty).1
        q := by
  simp only [matchAgainst]
  split
  next absorbed => exact ⟨_, setQuote_writes _ _ _ _, .absorbed (.inl absorbed)⟩
  next rest =>
    split
    next spent =>
      refine ⟨_, setQuote_writes _ _ _ _, .absorbed (.inr ?_)⟩
      omega
    next taken =>
      refine ⟨_, fun s t => setQuote_writes sim side token _ s t, ?_⟩
      have filled : (sim.quote side token).Matched A side tradeQty _ _ :=
        .filled _ sim.nextTradeNo rfl (Int.not_le.mp taken)
      split
      next empty => simpa [Int.not_lt.mpr empty] using filled
      next left => simpa [Int.not_le.mp left] using filled

end FillSimulator

/-! ## Fills and orders -/

/-- The quantity that a list of reports fills under an id. -/
def filledQty (id : Int) (reports : List FillReport) : Int :=
  ((reports.filter fun f => f.clientOrderId = id).map FillReport.fillQty).sum

theorem filledQty_append (id : Int) (reports more : List FillReport) :
    filledQty id (reports ++ more) = filledQty id reports + filledQty id more := by
  simp [filledQty]

theorem filledQty_singleton (id : Int) (f : FillReport) :
    filledQty id [f] = if f.clientOrderId = id then f.fillQty else 0 := by
  by_cases same : f.clientOrderId = id <;> simp [filledQty, same]

theorem filledQty_eq_zero {id : Int} {reports : List FillReport}
    (others : ∀ f ∈ reports, f.clientOrderId ≠ id) : filledQty id reports = 0 := by
  have none : (reports.filter fun f => f.clientOrderId = id) = [] := by
    simpa [List.filter_eq_nil_iff] using others
  rw [filledQty, none]
  rfl

/-- The quote stands for an order, on its side and token, and what remains of the quote is
open: together with what is filled already it is within the order's quantity. -/
structure SimQuote.StandsFor (q : SimQuote) (side : Side) (token : Nat)
    (reports : List FillReport) (o : Order) : Prop where
  side_eq : o.side = side
  token_eq : o.token = token
  id_eq : o.clientOrderId = q.id
  fits : FitsI32 q.remaining
  within : filledQty o.clientOrderId reports + q.remaining ≤ o.qty

/-- Every report is for an order that was sent, and no order is filled beyond its quantity, now
or by what the active quotes may still take. -/
structure Backed (sent : List Order) (reports : List FillReport) (sim : FillSimulator) :
    Prop where
  ids : (sent.map Order.clientOrderId).Nodup
  fits : ∀ o ∈ sent, FitsI32 o.qty
  known : ∀ f ∈ reports, ∃ o ∈ sent, o.clientOrderId = f.clientOrderId
  covered : ∀ o ∈ sent, filledQty o.clientOrderId reports ≤ o.qty
  quoted : ∀ side token, (sim.quote side token).active = true →
    ∃ o ∈ sent, (sim.quote side token).StandsFor side token reports o

namespace Backed

variable {sent : List Order} {reports : List FillReport} {sim sim' : FillSimulator}
  {side : Side} {token : Nat} {q : SimQuote} {o : Order}

theorem start : Backed [] [] {} := by
  constructor
  · exact List.nodup_nil
  · simp
  · simp
  · simp
  · intro side token active
    cases side <;> cases active

theorem eq_of_id (backed : Backed sent reports sim) {o o' : Order} (member : o ∈ sent)
    (member' : o' ∈ sent) (same : o.clientOrderId = o'.clientOrderId) : o = o' :=
  List.inj_on_of_nodup_map backed.ids member member' same

/-- A quote may be replaced by one that stands for an order that was sent. -/
theorem requote (backed : Backed sent reports sim) (writes : sim.Writes sim' side token q)
    (member : o ∈ sent) (stands : q.StandsFor side token reports o) :
    Backed sent reports sim' := by
  constructor
  · exact backed.ids
  · exact backed.fits
  · exact backed.known
  · exact backed.covered
  · apply writes.all (P := fun s t q => q.active = true → ∃ o ∈ sent, q.StandsFor s t reports o)
    · exact fun _ => ⟨o, member, stands⟩
    · exact fun s t _ => backed.quoted s t

/-- A report counts for the order of its id and for no other one. -/
theorem filledQty_report (backed : Backed sent reports sim) (member : o ∈ sent) {f : FillReport}
    (named : f.clientOrderId = o.clientOrderId) {o' : Order} (member' : o' ∈ sent) :
    filledQty o'.clientOrderId (reports ++ [f]) =
      filledQty o'.clientOrderId reports + if o' = o then f.fillQty else 0 := by
  rw [filledQty_append, filledQty_singleton, named]
  congr 1
  by_cases same : o' = o
  · rw [if_pos same, if_pos (by rw [same])]
  · rw [if_neg same, if_neg]
    exact fun ids => same (backed.eq_of_id member' member ids.symm)

/-- A report takes its quantity from the quote it is for. -/
theorem report (backed : Backed sent reports sim) (writes : sim.Writes sim' side token q)
    (member : o ∈ sent) (stands : (sim.quote side token).StandsFor side token reports o)
    {f : FillReport} (id : q.id = (sim.quote side token).id)
    (named : f.clientOrderId = (sim.quote side token).id) (positive : 0 < f.fillQty)
    (part : f.fillQty ≤ (sim.quote side token).remaining)
    (rest : q.remaining = (sim.quote side token).remaining - f.fillQty) :
    Backed sent (reports ++ [f]) sim' := by
  have counted {o' : Order} (member' : o' ∈ sent) :=
    backed.filledQty_report member (named.trans stands.id_eq.symm) member'
  have within := stands.within
  constructor
  · exact backed.ids
  · exact backed.fits
  · intro g reported
    rcases List.mem_append.mp reported with old | new
    · exact backed.known g old
    · obtain rfl := List.mem_singleton.mp new
      exact ⟨o, member, stands.id_eq.trans named.symm⟩
  · intro o' member'
    have covered := backed.covered o' member'
    rw [counted member']
    split
    next same =>
      subst same
      omega
    next => omega
  · apply writes.all
      (P := fun s t q => q.active = true → ∃ o ∈ sent, q.StandsFor s t (reports ++ [f]) o)
    · intro _
      have fits := stands.fits
      refine ⟨o, member, stands.side_eq, stands.token_eq, stands.id_eq.trans id.symm, ?_, ?_⟩
      · simp only [FitsI32] at fits ⊢
        omega
      · rw [counted member, if_pos rfl, rest]
        omega
    · intro s t elsewhere active
      obtain ⟨o', member', other⟩ := backed.quoted s t active
      -- the order fixes the slot, so a quote in another slot is for another order
      have different : o' ≠ o := by
        rintro rfl
        exact elsewhere ⟨other.side_eq.symm.trans stands.side_eq,
          other.token_eq.symm.trans stands.token_eq⟩
      refine ⟨o', member', other.side_eq, other.token_eq, other.id_eq, other.fits, ?_⟩
      rw [counted member', if_neg different, Int.add_zero]
      exact other.within

theorem matchAgainst (backed : Backed sent reports sim) (tradeQty : Int)
    (active : (sim.quote side token).active = true) :
    Backed sent (reports ++ (sim.matchAgainst .wrapping side token tradeQty).1)
      (sim.matchAgainst .wrapping side token tradeQty).2 := by
  obtain ⟨o, member, stands⟩ := backed.quoted side token active
  obtain ⟨q, writes, matched⟩ := sim.matchAgainst_matched side token tradeQty
  generalize (sim.matchAgainst .wrapping side token tradeQty).1 = answer at matched ⊢
  cases matched with
  | absorbed =>
    rw [List.append_nil]
    apply backed.requote writes member
    exact ⟨stands.side_eq, stands.token_eq, stands.id_eq, stands.fits, stands.within⟩
  | filled fillQty tradeNo taken positive =>
    have part : fillQty ≤ (sim.quote side token).remaining := taken ▸ Int.min_le_left _ _
    apply backed.report writes member stands rfl rfl positive part
    -- the difference is between 0 and what remained, so it does not wrap
    have fits := stands.fits
    apply i32_eq_self
    simp only [FitsI32] at fits ⊢
    omega

theorem onTrade (backed : Backed sent reports sim) (ev : MarketEvent) (side : Side) :
    Backed sent (reports ++ (sim.onTrade .wrapping ev side).1)
      (sim.onTrade .wrapping ev side).2 := by
  simp only [FillSimulator.onTrade]
  split
  next hit =>
    apply backed.matchAgainst
    exact (Bool.and_eq_true _ _ ▸ hit).1
  next =>
    rw [List.append_nil]
    exact backed

theorem onEvent (backed : Backed sent reports sim) (ev : MarketEvent) :
    Backed sent (reports ++ (sim.onEvent .wrapping ev).1) (sim.onEvent .wrapping ev).2 := by
  simp only [FillSimulator.onEvent]
  split
  · rw [List.append_nil]
    exact backed
  split
  · rw [List.append_nil]
    exact backed
  · rw [← List.append_assoc]
    exact (backed.onTrade ev kBuy).onTrade ev kSell

/-- An order may be registered as long as nothing of it is filled. -/
theorem registerOrder (backed : Backed sent reports sim) (member : o ∈ sent)
    (unfilled : filledQty o.clientOrderId reports = 0) (queueAhead : Int) :
    Backed sent reports (sim.registerOrder o queueAhead) := by
  simp only [FillSimulator.registerOrder]
  split
  · exact backed
  · apply backed.requote (FillSimulator.setQuote_writes _ _ _ _) member
    constructor
    · rfl
    · rfl
    · rfl
    · exact backed.fits o member
    · rw [unfilled, Int.zero_add]

theorem registerOrders (backed : Backed sent reports sim) {orders : List Order}
    (known : ∀ o ∈ orders, o ∈ sent)
    (unfilled : ∀ o ∈ orders, filledQty o.clientOrderId reports = 0) (queueAhead : Order → Int) :
    Backed sent reports
      (orders.foldl (fun sim o => sim.registerOrder o (queueAhead o)) sim) := by
  apply List.foldlRecOn (motive := Backed sent reports) orders _ backed
  intro sim backed o member
  exact backed.registerOrder (known o member) (unfilled o member) (queueAhead o)

/-- New orders under new ids are not filled yet. -/
theorem send (backed : Backed sent reports sim) {orders : List Order}
    (ids : (orders.map Order.clientOrderId).Nodup)
    (fresh : ∀ o ∈ sent, ∀ new ∈ orders, o.clientOrderId ≠ new.clientOrderId)
    (fits : ∀ o ∈ orders, FitsI32 o.qty) (nonneg : ∀ o ∈ orders, 0 ≤ o.qty) :
    Backed (sent ++ orders) reports sim := by
  constructor
  · rw [List.map_append, List.nodup_append]
    refine ⟨backed.ids, ids, ?_⟩
    simpa using fresh
  · intro o member
    rcases List.mem_append.mp member with old | new
    · exact backed.fits o old
    · exact fits o new
  · intro f reported
    obtain ⟨o, member, named⟩ := backed.known f reported
    exact ⟨o, List.mem_append_left _ member, named⟩
  · intro o member
    rcases List.mem_append.mp member with old | new
    · exact backed.covered o old
    · -- a report under the new id would belong to an older order
      rw [filledQty_eq_zero]
      · exact nonneg o new
      · intro f reported same
        obtain ⟨o', member', named⟩ := backed.known f reported
        exact fresh o' member' o new (named.trans same)
  · intro side token active
    obtain ⟨o, member, stands⟩ := backed.quoted side token active
    exact ⟨o, List.mem_append_left _ member, stands⟩

end Backed

end NseHft
