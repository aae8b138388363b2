import Mathlib.Logic.Function.Basic
import NseHft.Lib.Machine
import NseHft.OrderBook.FailedEvents

/-!
# Level totals

A level keeps the sum of its orders in the 32 bits of one order's quantity. Every event comes
down to calls that add an order to a level or take quantity from one. Next to the levels a ledger
is kept here, in integers, of what was added to each level since it was opened, less what was
taken from it. The total of a level follows its ledger as long as no call leaves the range of a
quantity in either direction.
-/
namespace NseHft

open FixedWidth

/-- A call of `AddQtyToLevel` or of `RemoveQtyFromLevel`. -/
inductive LevelCall where
  | add (side : Side) (price qty : Int)
  | remove (side : Side) (price qty : Int) (dropOrder : Bool)
  deriving DecidableEq, Repr

/-- The levels of both sides after a call. -/
def LevelCall.apply (levels : Side → List PriceLevel) : LevelCall → Side → List PriceLevel
  | .add side price qty =>
    Function.update levels side (addQtyToLevel side (levels side) price qty)
  | .remove side price qty dropOrder =>
    Function.update levels side (removeQtyFromLevel side (levels side) price qty dropOrder)

theorem LevelCall.add_apply (levels : Side → List PriceLevel) (side s : Side) (price qty : Int) :
    (LevelCall.add side price qty).apply levels s =
      if s = side then addQtyToLevel s (levels s) price qty else levels s := by
  rw [LevelCall.apply, Function.update_apply]
  split
  next same => rw [same]
  next => rfl

theorem LevelCall.remove_apply (levels : Side → List PriceLevel) (side s : Side) (price qty : Int)
    (dropOrder : Bool) : (LevelCall.remove side price qty dropOrder).apply levels s =
      if s = side then removeQtyFromLevel s (levels s) price qty dropOrder else levels s := by
  rw [LevelCall.apply, Function.update_apply]
  split
  next same => rw [same]
  next => rfl

/-! ### The calls of an event -/

namespace OrderBook

def addCalls (b : OrderBook) (ev : MarketEvent) : List LevelCall :=
  if b.tickOk ev.price ∧
      (b.table.insertOrder ⟨ev.orderNo, ev.price, ev.qty, ev.side, true⟩).1 = true then
    [.add ev.side ev.price ev.qty]
  else []

def modifyCalls (b : OrderBook) (ev : MarketEvent) : List LevelCall :=
  if b.tickOk ev.price then
    match b.table.findOrder ev.orderNo with
    | none => []
    | some i =>
      let order := b.table.record i
      [.remove order.side order.price order.qty true, .add order.side ev.price ev.qty]
  else []

def cancelCalls (b : OrderBook) (ev : MarketEvent) : List LevelCall :=
  match b.table.findOrder ev.orderNo with
  | none => []
  | some i =>
    let order := b.table.record i
    [.remove order.side order.price order.qty true]

/-- What a trade takes from the level of a resting order. -/
def restingCalls (b : OrderBook) (orderNo traded : Int) : List LevelCall :=
  if orderNo = 0 then []
  else
    match b.table.findOrder orderNo with
    | none => []
    | some i =>
      let order := b.table.record i
      let fully := decide (traded ≥ order.qty)
      [.remove order.side order.price (if fully then order.qty else traded) fully]

def tradeCalls (fuel : Nat) (b : OrderBook) (ev : MarketEvent) : List LevelCall :=
  b.restingCalls ev.orderNo ev.qty ++
    -- the second leg looks at the book that the first leg leaves
    match b.reduceResting fuel ev.orderNo ev.qty with
    | some (_, m) => m.restingCalls ev.orderNo2 ev.qty
    | none => []

/-- The calls on levels that an order event makes. -/
def eventCalls (fuel : Nat) (b : OrderBook) (ev : MarketEvent) : List LevelCall :=
  let b := (b.trackSeq ev).2
  -- a gap makes the book stale, and a stale book drops the event
  if b.stale then []
  else
    match ev.msgType with
    | some .orderAdd => b.addCalls ev
    | some .orderModify => b.modifyCalls ev
    | some .orderCancel => b.cancelCalls ev
    | some .trade => b.tradeCalls fuel ev
    | _ => []

/-- The calls of a list of events, up to one that does not return. -/
def levelCalls (fuel : Nat) (b : OrderBook) : List MarketEvent → List LevelCall
  | [] => []
  | ev :: rest =>
    b.eventCalls fuel ev ++
      match b.applyEvent fuel ev with
      | some (_, next) => levelCalls fuel next rest
      | none => []

section Calls

variable {b b' : OrderBook} {ev : MarketEvent} {fuel : Nat}

theorem addQty_apply (b : OrderBook) (side : Side) (price qty : Int) :
    (b.addQty side price qty).levels = (LevelCall.add side price qty).apply b.levels := by
  funext s
  rw [addQty_levels, LevelCall.add_apply]

theorem removeQty_apply (b : OrderBook) (side : Side) (price qty : Int) (dropOrder : Bool) :
    (b.removeQty side price qty dropOrder).levels =
      (LevelCall.remove side price qty dropOrder).apply b.levels := by
  funext s
  rw [removeQty_levels, LevelCall.remove_apply]

theorem applyAdd_levels (b : OrderBook) (ev : MarketEvent) :
    (b.applyAdd ev).2.levels = (b.addCalls ev).foldl LevelCall.apply b.levels := by
  rw [applyAdd, addCalls]
  by_cases grid : b.tickOk ev.price = true
  · cases stored : b.table.insertOrder ⟨ev.orderNo, ev.price, ev.qty, ev.side, true⟩ with
    | mk inserted table =>
      cases inserted with
      | false => simp [grid]
      | true => simp [grid, addQty_apply]
  · simp [grid]

theorem applyModify_levels (b : OrderBook) (ev : MarketEvent) :
    (b.applyModify ev).2.levels = (b.modifyCalls ev).foldl LevelCall.apply b.levels := by
  rw [applyModify, modifyCalls]
  by_cases grid : b.tickOk ev.price = true
  · cases found : b.table.findOrder ev.orderNo with
    | none => simp [grid]
    | some i =>
      simp only [grid, Bool.not_true, Bool.false_eq_true, if_false, if_true, List.foldl_cons,
        List.foldl_nil]
      rw [addQty_apply, levels_table, removeQty_apply]
  · simp [grid]

theorem applyCancel_levels {result : BookResult}
    (returned : b.applyCancel fuel ev = some (result, b')) :
    b'.levels = (b.cancelCalls ev).foldl LevelCall.apply b.levels := by
  rw [applyCancel] at returned
  rw [cancelCalls]
  cases found : b.table.findOrder ev.orderNo with
  | none =>
    simp only [found, Option.some.injEq, Prod.mk.injEq] at returned
    rw [← returned.2]
    rfl
  | some i =>
    simp only [found, Option.bind_eq_bind, Option.bind_eq_some_iff, Option.some.injEq,
      Prod.mk.injEq] at returned
    obtain ⟨table, _, _, rfl⟩ := returned
    rw [levels_table, removeQty_apply]
    rfl

/-- The level is reduced first, whatever becomes of the order. -/
theorem reduceResting_levels {hit : Bool} {orderNo traded : Int}
    (returned : b.reduceResting fuel orderNo traded = some (hit, b')) :
    b'.levels = (b.restingCalls orderNo traded).foldl LevelCall.apply b.levels := by
  rw [reduceResting] at returned
  rw [restingCalls]
  by_cases zero : orderNo = 0
  · rw [if_pos zero] at returned ⊢
    cases returned
    rfl
  rw [if_neg zero] at returned ⊢
  cases found : b.table.findOrder orderNo with
  | none =>
    simp only [found, Option.some.injEq, Prod.mk.injEq] at returned
    rw [← returned.2]
    rfl
  | some i =>
    simp only [found] at returned ⊢
    rw [List.foldl_cons, List.foldl_nil, ← removeQty_apply]
    split at returned
    next fully =>
      simp only [Option.bind_eq_bind, Option.bind_eq_some_iff, Option.some.injEq,
        Prod.mk.injEq] at returned
      obtain ⟨table, _, _, rfl⟩ := returned
      rw [levels_table, if_pos fully]
    next partly =>
      cases returned
      rw [levels_table, if_neg partly]

theorem applyTrade_levels {result : BookResult}
    (returned : b.applyTrade fuel ev = some (result, b')) :
    b'.levels = (b.tradeCalls fuel ev).foldl LevelCall.apply b.levels := by
  simp only [applyTrade, Option.bind_eq_bind, Option.bind_eq_some_iff, Option.some.injEq,
    Prod.mk.injEq, Prod.exists] at returned
  obtain ⟨_, m, first, _, _, second, _, rfl⟩ := returned
  simp only [tradeCalls, first]
  -- the second leg starts from the levels of the first
  rw [List.foldl_append, ← reduceResting_levels first, reduceResting_levels second]

theorem eventCalls_stale (stale : (b.trackSeq ev).2.stale = true) : b.eventCalls fuel ev = [] :=
  if_pos stale

/-- The levels after an order event are those after its calls. -/
theorem applyEvent_levels {result : BookResult} (order : ev.isOrderEvent)
    (returned : b.applyEvent fuel ev = some (result, b')) :
    b'.levels = (b.eventCalls fuel ev).foldl LevelCall.apply b.levels := by
  have type := order.ne_snapQuote
  rw [← trackSeq_levels b ev]
  by_cases gap : b.SeqGap ev
  · rw [applyEvent_seqGap gap type] at returned
    cases returned
    rw [eventCalls_stale (trackSeq_gap_stale b ev ((trackSeq_gap_iff b ev).mpr gap))]
    rfl
  cases stale : b.stale with
  | true =>
    obtain ⟨_, dropped, _⟩ := applyEvent_stale stale type fuel
    rw [dropped] at returned
    cases returned
    rw [eventCalls_stale (trackSeq_keeps_stale stale ev)]
    rfl
  | false =>
    have live : (b.trackSeq ev).2.stale = false := by
      rw [trackSeq_of_no_gap gap]
      exact stale
    simp only [eventCalls, live, Bool.false_eq_true, if_false]
    rcases order with type | type | type | type
    · rw [applyEvent_orderAdd gap stale type] at returned
      have after : ((b.trackSeq ev).2.applyAdd ev).2 = b' :=
        congrArg Prod.snd (Option.some.inj returned)
      rw [← after, applyAdd_levels, type]
    · rw [applyEvent_orderModify gap stale type] at returned
      have after : ((b.trackSeq ev).2.applyModify ev).2 = b' :=
        congrArg Prod.snd (Option.some.inj returned)
      rw [← after, applyModify_levels, type]
    · rw [applyEvent_orderCancel gap stale type] at returned
      rw [applyCancel_levels returned, type]
    · rw [applyEvent_trade gap stale type] at returned
      rw [applyTrade_levels returned, type]

/-- The levels after a list of order events are those after their calls. -/
theorem replay_levels {evs : List MarketEvent} {results : List BookResult}
    (orders : ∀ ev ∈ evs, ev.isOrderEvent) (returned : b.replay fuel evs = some (results, b')) :
    b'.levels = (b.levelCalls fuel evs).foldl LevelCall.apply b.levels := by
  induction evs generalizing b results with
  | nil =>
    cases returned
    rfl
  | cons ev rest ih =>
    obtain ⟨now, later⟩ := List.forall_mem_cons.mp orders
    simp only [replay, Option.bind_eq_bind, Option.bind_eq_some_iff, Prod.exists] at returned
    obtain ⟨result, next, applied, answers, last, replayed, same⟩ := returned
    cases same
    simp only [levelCalls, applied]
    rw [List.foldl_append, ← applyEvent_levels now applied]
    exact ih later replayed

end Calls

end OrderBook

/-! ### The ledger -/

/-- The levels of a book, and what was added to the level at each price since it was opened less
what was taken from it. -/
structure Audit where
  levels : Side → List PriceLevel := fun _ => []
  ledger : Side → Int → Int := fun _ _ => 0

namespace Audit

/-- A call on the levels, booked. A level that is opened starts with an empty account. -/
def call (a : Audit) (c : LevelCall) : Audit where
  levels := c.apply a.levels
  ledger :=
    match c with
    | .add side price qty =>
      let before := if levelAt (a.levels side) price = none then 0 else a.ledger side price
      Function.update a.ledger side (Function.update (a.ledger side) price (before + qty))
    | .remove side price qty _ =>
      Function.update a.ledger side
        (Function.update (a.ledger side) price (a.ledger side price - qty))

/-- Every level shows the balance of its account. -/
def Exact (a : Audit) : Prop :=
  ∀ side, ∀ l ∈ a.levels side, l.totalQuantity = a.ledger side l.price

/-- A call stays within the range of a quantity: an add does not exceed it, and a removal does not
take more than the level shows, unless the level disappears with it. -/
def Fits (a : Audit) : LevelCall → Prop
  | .add side price qty =>
    FitsI32 (((levelAt (a.levels side) price).map PriceLevel.totalQuantity).getD 0 + qty)
  | .remove side price qty dropOrder => ∀ l, levelAt (a.levels side) price = some l →
    (dropOrder = true ∧ l.orderCount ≤ 1) ∨
      (0 ≤ l.totalQuantity - qty ∧ l.totalQuantity - qty < 2 ^ 31)

/-- Both sides are as a book keeps them. -/
def Sided (a : Audit) : Prop := ∀ side, SideOk 0 side (a.levels side)

section Step

variable {a : Audit} {side : Side} {price qty : Int} {dropOrder : Bool}

theorem exact_iff (sided : a.Sided) : a.Exact ↔ ∀ side price l,
    levelAt (a.levels side) price = some l → l.totalQuantity = a.ledger side price := by
  constructor
  · intro exact side price l shown
    have here : l.price = price := by simpa using List.find?_some shown
    rw [← here]
    exact exact side l (List.mem_of_find?_eq_some shown)
  · intro each side l member
    exact each side l.price l ((levelAt_eq_some_iff (sided side).sorted l).mpr member)

theorem levels_call (c : LevelCall) : (a.call c).levels = c.apply a.levels := rfl

theorem Sided.call (sided : a.Sided) (c : LevelCall) : (a.call c).Sided := by
  intro s
  cases c with
  | add side price qty =>
    rw [levels_call, LevelCall.add_apply]
    split
    · exact addQtyToLevel_sideOk (sided s) price qty (by simp)
    · exact sided s
  | remove side price qty dropOrder =>
    rw [levels_call, LevelCall.remove_apply]
    split
    · exact removeQtyFromLevel_sideOk (sided s) price qty dropOrder
    · exact sided s

theorem ledger_call_add (s : Side) (p : Int) : (a.call (.add side price qty)).ledger s p =
    if s = side ∧ p = price then
      (if levelAt (a.levels side) price = none then 0 else a.ledger side price) + qty
    else a.ledger s p := by
  simp only [Audit.call]
  by_cases here : s = side
  · subst here
    by_cases same : p = price <;> simp [same]
  · simp [here]

theorem ledger_call_remove (s : Side) (p : Int) :
    (a.call (.remove side price qty dropOrder)).ledger s p =
      if s = side ∧ p = price then a.ledger side price - qty else a.ledger s p := by
  simp only [Audit.call]
  by_cases here : s = side
  · subst here
    by_cases same : p = price <;> simp [same]
  · simp [here]

theorem call_add_exact_iff (sided : a.Sided) (exact : a.Exact) (small : FitsI32 qty) :
    (a.call (.add side price qty)).Exact ↔ a.Fits (.add side price qty) := by
  rw [exact_iff sided] at exact
  rw [exact_iff (sided.call _)]
  -- what the level shows before the call, and its account
  obtain ⟨l, before⟩ : ∃ l, (levelAt (a.levels side) price).getD ⟨price, 0, 0⟩ = l := ⟨_, rfl⟩
  have shows : ((levelAt (a.levels side) price).map PriceLevel.totalQuantity).getD 0 =
      l.totalQuantity := by
    rw [← before]
    cases levelAt (a.levels side) price <;> rfl
  have account : (if levelAt (a.levels side) price = none then 0 else a.ledger side price) =
      l.totalQuantity := by
    cases shown : levelAt (a.levels side) price with
    | none =>
      rw [← before, shown]
      rfl
    | some m =>
      rw [← before, shown, if_neg (by simp), ← exact side price m shown]
      rfl
  have here := levelAt_addQtyToLevel_here (sided side).sorted price qty
  rw [before] at here
  simp only [Fits, shows, levels_call, LevelCall.add_apply, ledger_call_add, account]
  constructor
  · intro each
    rcases here with grown | ⟨none, _⟩
    · have total := each side price (l.addOrder qty) (by rwa [if_pos rfl])
      rw [if_pos ⟨rfl, rfl⟩] at total
      exact (i32_eq_self_iff _).mp total
    · -- there is no level, and a single order fits
      rw [none, Option.getD_none] at before
      rw [← before]
      simpa using small
  · intro fits s p m shown
    -- at its own price the level is the grown one; elsewhere it is the old one or was pushed out
    by_cases same : s = side ∧ p = price
    · obtain ⟨rfl, rfl⟩ := same
      rw [if_pos rfl] at shown
      rw [if_pos ⟨rfl, rfl⟩]
      rcases here with grown | ⟨_, gone⟩
      · rw [grown] at shown
        cases shown
        exact i32_eq_self _ fits
      · rw [gone] at shown
        cases shown
    · rw [if_neg same]
      split at shown
      next side_eq =>
        subst side_eq
        have away : p ≠ price := fun price_eq => same ⟨rfl, price_eq⟩
        rcases levelAt_addQtyToLevel_away (sided s).sorted qty away with kept | gone
        · exact exact s p m (kept ▸ shown)
        · rw [gone] at shown
          cases shown
      next => exact exact s p m shown

/-- Taking quantity from a level is exact when the level shows that much. -/
theorem removeOrder_exact_iff (l : PriceLevel) :
    (l.removeOrder qty dropOrder).totalQuantity = l.totalQuantity - qty ↔
      0 ≤ l.totalQuantity - qty ∧ l.totalQuantity - qty < 2 ^ 31 := by
  simp only [PriceLevel.removeOrder]
  generalize l.totalQuantity - qty = left
  constructor
  · intro same
    -- a clamped total is 0, which is right only if nothing is left
    split at same
    next => omega
    next nonneg =>
      have fits := (i32_eq_self_iff left).mp same
      rw [same] at nonneg
      exact ⟨Int.not_lt.mp nonneg, fits.2⟩
  · intro range
    rw [i32_eq_self left ⟨by omega, range.2⟩, if_neg (Int.not_lt.mpr range.1)]

/-- A level in use disappears when its last order is dropped. -/
theorem removeOrder_empty_iff {l : PriceLevel} (used : 1 ≤ l.orderCount) :
    (l.removeOrder qty dropOrder).empty = true ↔ dropOrder = true ∧ l.orderCount ≤ 1 := by
  have positive : l.orderCount > 0 := by omega
  have count : (l.removeOrder qty dropOrder).orderCount =
      if dropOrder ∧ l.orderCount > 0 then l.orderCount - 1 else l.orderCount := rfl
  rw [PriceLevel.empty, decide_eq_true_eq, count]
  cases dropOrder with
  | false =>
    simp only [Bool.false_eq_true, false_and, if_false, iff_false]
    omega
  | true =>
    rw [if_pos ⟨rfl, positive⟩]
    simp only [true_and]
    omega

theorem call_remove_exact_iff (sided : a.Sided) (exact : a.Exact) :
    (a.call (.remove side price qty dropOrder)).Exact ↔
      a.Fits (.remove side price qty dropOrder) := by
  rw [exact_iff sided] at exact
  rw [exact_iff (sided.call _)]
  have found (p : Int) := levelAt_removeQtyFromLevel (sided side).sorted price qty dropOrder p
  have used {l : PriceLevel} (shown : levelAt (a.levels side) price = some l) :
      1 ≤ l.orderCount :=
    ((sided side).each l (List.mem_of_find?_eq_some shown)).used
  simp only [Fits, levels_call, LevelCall.remove_apply, ledger_call_remove]
  constructor
  · intro each l shown
    -- a level that disappears shows no total
    by_cases gone : (l.removeOrder qty dropOrder).empty = true
    · exact .inl ((removeOrder_empty_iff (used shown)).mp gone)
    · have total := each side price (l.removeOrder qty dropOrder) (by
        rw [if_pos rfl, found, if_pos rfl, shown, Option.bind_some, if_neg gone])
      rw [if_pos ⟨rfl, rfl⟩, ← exact side price l shown] at total
      exact .inr ((removeOrder_exact_iff l).mp total)
  · intro fits s p m shown'
    by_cases same : s = side ∧ p = price
    · obtain ⟨rfl, rfl⟩ := same
      rw [if_pos rfl, found, if_pos rfl] at shown'
      rw [if_pos ⟨rfl, rfl⟩]
      obtain ⟨l, shown, stays⟩ := Option.bind_eq_some_iff.mp shown'
      split at stays
      next => cases stays
      next kept =>
        cases stays
        rw [← exact s p l shown]
        rcases fits l shown with last | range
        · exact absurd ((removeOrder_empty_iff (used shown)).mpr last) kept
        · exact (removeOrder_exact_iff l).mpr range
    · rw [if_neg same]
      split at shown'
      next side_eq =>
        subst side_eq
        have away : p ≠ price := fun price_eq => same ⟨rfl, price_eq⟩
        rw [found, if_neg away] at shown'
        exact exact s p m shown'
      next => exact exact s p m shown'

end Step

/-- The audit of a list of calls from an empty book. -/
def run (calls : List LevelCall) : Audit := calls.foldl call {}

theorem run_levels (calls : List LevelCall) :
    (run calls).levels = calls.foldl LevelCall.apply fun _ => [] := by
  have follows (a : Audit) : (calls.foldl call a).levels = calls.foldl LevelCall.apply a.levels := by
    induction calls generalizing a with
    | nil => rfl
    | cons c rest ih => exact ih (a.call c)
  exact follows {}

end Audit

/-! ### Runs of events -/

/-- An order event; what an add or a modify brings is a positive 32-bit quantity. -/
def MarketEvent.Sized (ev : MarketEvent) : Prop :=
  ev.isOrderEvent ∧
    (ev.msgType = some .orderAdd ∨ ev.msgType = some .orderModify → 0 < ev.qty ∧ ev.qty < 2 ^ 31)

/-- What is added fits a quantity on its own. -/
def LevelCall.Sized : LevelCall → Prop
  | .add _ _ qty => FitsI32 qty
  | .remove .. => True

namespace OrderBook

variable {b : OrderBook} {ev : MarketEvent} {fuel : Nat}

theorem eventCalls_sized (sized : ev.Sized) : ∀ c ∈ b.eventCalls fuel ev, c.Sized := by
  obtain ⟨order, quantity⟩ := sized
  have brings (added : ev.msgType = some .orderAdd ∨ ev.msgType = some .orderModify) :
      FitsI32 ev.qty := by
    have range := quantity added
    simp only [FitsI32]
    omega
  have rests (b : OrderBook) (orderNo traded : Int) :
      ∀ c ∈ b.restingCalls orderNo traded, c.Sized := by
    rw [restingCalls]
    split
    · simp
    · split <;> simp [LevelCall.Sized]
  simp only [eventCalls]
  split
  · simp
  rcases order with type | type | type | type
  · simp only [type, addCalls]
    split
    · simpa [LevelCall.Sized] using brings (.inl type)
    · simp
  · simp only [type, modifyCalls]
    split
    · split
      · simp
      · simpa [LevelCall.Sized] using brings (.inr type)
    · simp
  · simp only [type, cancelCalls]
    split <;> simp [LevelCall.Sized]
  · simp only [type, tradeCalls]
    rw [List.forall_mem_append]
    refine ⟨rests _ _ _, ?_⟩
    split
    · exact rests _ _ _
    · simp

theorem levelCalls_sized {evs : List MarketEvent} (sized : ∀ ev ∈ evs, ev.Sized) :
    ∀ c ∈ b.levelCalls fuel evs, c.Sized := by
  induction evs generalizing b with
  | nil => simp [levelCalls]
  | cons ev rest ih =>
    obtain ⟨now, later⟩ := List.forall_mem_cons.mp sized
    rw [levelCalls, List.forall_mem_append]
    refine ⟨eventCalls_sized now, ?_⟩
    split
    · exact ih later
    · simp

/-- Over every list of order events on a fresh book, the levels are those that the calls of the
events leave, and at every point every total is the balance of its ledger exactly when each call
stays within the range of a quantity. -/
theorem level_totals_exact_iff (token capacity fuel : Nat) (tickSize : Int)
    (evs : List MarketEvent) (sized : ∀ ev ∈ evs, ev.Sized) :
    let start := new token tickSize capacity
    let calls := start.levelCalls fuel evs
    (∀ results b, start.replay fuel evs = some (results, b) → b.levels = (Audit.run calls).levels) ∧
    ((∀ pre, pre <+: calls → (Audit.run pre).Exact) ↔
      ∀ pre c, pre ++ [c] <+: calls → (Audit.run pre).Fits c) := by
  intro start calls
  have fresh : start.levels = fun _ => [] := by
    funext side
    cases side <;> rfl
  constructor
  · intro results b returned
    rw [Audit.run_levels, ← fresh]
    exact replay_levels (fun ev member => (sized ev member).1) returned
  · apply Machine.foldl_prefixes_iff (I := Audit.Sided) (P := LevelCall.Sized)
    · exact fun a c _ sided => sided.call c
    · intro a c small sided exact
      cases c with
      | add side price qty => exact Audit.call_add_exact_iff sided exact small
      | remove side price qty dropOrder => exact Audit.call_remove_exact_iff sided exact
    · exact fun side => sideOk_nil 0 side
    · exact fun side l member => absurd member List.not_mem_nil
    · exact levelCalls_sized sized

/-- An order of 10 of which 4 are traded. -/
theorem partial_trade_exact :
    let calls := (new 7 5 4).levelCalls 8
      [{ type := 65, orderNo := 1, price := 100, qty := 10 }, { type := 84, orderNo := 1, qty := 4 }]
    calls = [.add kBuy 100 10, .remove kBuy 100 4 false] ∧
      ∀ pre, pre <+: calls → (Audit.run pre).Exact := by
  intro calls
  have made : calls = [.add kBuy 100 10, .remove kBuy 100 4 false] := by decide +kernel
  refine ⟨made, (level_totals_exact_iff 7 4 8 5 _ ?_).2.mpr ?_⟩
  · intro ev member
    rcases List.mem_cons.mp member with rfl | member
    · exact ⟨.inl rfl, by decide⟩
    · obtain rfl := List.mem_singleton.mp member
      exact ⟨.inr (.inr (.inr rfl)), by decide⟩
  · intro pre c inside
    have listed : pre ++ [c] <+: [.add kBuy 100 10, .remove kBuy 100 4 false] := made ▸ inside
    cases pre with
    | nil =>
      obtain ⟨rfl, _⟩ := List.cons_prefix_cons.mp listed
      exact (by decide : FitsI32 (0 + 10))
    | cons first pre =>
      obtain ⟨rfl, rest⟩ := List.cons_prefix_cons.mp listed
      obtain ⟨rfl, rfl⟩ : pre = [] ∧ c = .remove kBuy 100 4 false := by
        simpa [List.prefix_cons_iff, List.append_eq_singleton_iff] using rest
      intro l shown
      have here : levelAt ((Audit.run [.add kBuy 100 10]).levels kBuy) 100 = some ⟨100, 10, 1⟩ := by
        decide +kernel
      rw [here] at shown
      cases shown
      exact .inr (by decide)

/-- Two orders of the largest quantity at one price. -/
theorem two_large_orders_overflow :
    let evs : List MarketEvent :=
      [{ type := 65, orderNo := 1, price := 100, qty := 2147483647 },
       { type := 65, orderNo := 2, price := 100, qty := 2147483647 }]
    (∃ results b, (new 7 5 4).replay 8 evs = some (results, b) ∧ b.bids = [⟨100, -2, 2⟩]) ∧
    (Audit.run ((new 7 5 4).levelCalls 8 evs)).ledger kBuy 100 = 4294967294 ∧
    ¬ ∀ pre, pre <+: (new 7 5 4).levelCalls 8 evs → (Audit.run pre).Exact := by
  intro evs
  refine ⟨⟨_, _, rfl, by decide +kernel⟩, by decide +kernel, ?_⟩
  intro exact
  have shown := exact _ (List.prefix_refl _) kBuy ⟨100, -2, 2⟩ (by decide +kernel)
  exact absurd shown (by decide +kernel)

end OrderBook

end NseHft
