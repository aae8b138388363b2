import NseHft.OrderBook.FailedEvents

/-!
# What an event makes of the tracked orders

The handlers work on the slots of the order table. Seen as a list, the tracked orders change as
the orders at an exchange do: an add brings one more, every other event changes the orders that it
names or takes them off.
-/
namespace NseHft

open FixedWidth

/-- Changes the order of a number; `none` takes it off. -/
def updateOrder (orderNo : Int) (f : OrderRecord → Option OrderRecord)
    (orders : List OrderRecord) : List OrderRecord :=
  orders.filterMap fun r => if r.orderNo = orderNo then f r else some r

/-- What a trade leaves of an order, in the 32 bits of its quantity. -/
def leftOver (traded : Int) (r : OrderRecord) : Option OrderRecord :=
  if traded ≥ r.qty then none else some { r with qty := i32 (r.qty - traded) }

/-- The orders after one leg of a trade. The number 0 stands for no order. -/
def reduceOrder (orderNo traded : Int) (orders : List OrderRecord) : List OrderRecord :=
  if orderNo = 0 then orders else updateOrder orderNo (leftOver traded) orders

/-- The orders after an add under a new number, a modify or a cancel. -/
def changeOrders (ev : MarketEvent) (orders : List OrderRecord) : List OrderRecord :=
  match ev.msgType with
  | some .orderAdd => ⟨ev.orderNo, ev.price, ev.qty, ev.side, true⟩ :: orders
  | some .orderModify =>
    updateOrder ev.orderNo (fun r => some { r with price := ev.price, qty := ev.qty }) orders
  | some .orderCancel => updateOrder ev.orderNo (fun _ => none) orders
  | _ => orders

theorem changeOrders_other {ev : MarketEvent} (other : ¬ ev.isOrderEvent)
    (orders : List OrderRecord) : changeOrders ev orders = orders := by
  simp only [MarketEvent.isOrderEvent, not_or] at other
  simp only [changeOrders]
  split <;> simp_all

section Update

variable {orders : List OrderRecord} {orderNo : Int} {f g : OrderRecord → Option OrderRecord}
  {r : OrderRecord}

theorem updateOrder_absent (absent : ∀ r ∈ orders, r.orderNo ≠ orderNo) :
    updateOrder orderNo f orders = orders := by
  induction orders with
  | nil => rfl
  | cons r rest ih =>
    obtain ⟨here, others⟩ := List.forall_mem_cons.mp absent
    simp only [updateOrder, List.filterMap_cons, if_neg here] at ih ⊢
    rw [ih others]

theorem updateOrder_perm {orders' : List OrderRecord} (perm : orders.Perm orders') :
    (updateOrder orderNo f orders).Perm (updateOrder orderNo f orders') := perm.filterMap _

theorem updateOrder_congr (same : ∀ r ∈ orders, f r = g r) :
    updateOrder orderNo f orders = updateOrder orderNo g orders := by
  refine List.filterMap_congr fun r member => ?_
  rw [same r member]

theorem reduceOrder_perm {orders' : List OrderRecord} {traded : Int} (perm : orders.Perm orders') :
    (reduceOrder orderNo traded orders).Perm (reduceOrder orderNo traded orders') := by
  simp only [reduceOrder]
  split
  · exact perm
  · exact updateOrder_perm perm

/-- With unique numbers only the order of that number changes. -/
theorem updateOrder_present (unique : ((r :: orders).map OrderRecord.orderNo).Nodup)
    (here : r.orderNo = orderNo) :
    updateOrder orderNo f (r :: orders) = (f r).toList ++ orders := by
  rw [List.map_cons, List.nodup_cons] at unique
  have absent : ∀ o ∈ orders, o.orderNo ≠ orderNo := by
    rintro o member same
    exact unique.1 (List.mem_map.mpr ⟨o, member, same.trans here.symm⟩)
  have rest := updateOrder_absent (f := f) absent
  simp only [updateOrder, List.filterMap_cons, if_pos here] at rest ⊢
  cases f r with
  | none => exact rest
  | some r' => exact congrArg _ rest

/-- What holds of an order and of what the update makes of it holds after the update. -/
theorem forall_updateOrder {P : OrderRecord → Prop} (all : ∀ r ∈ orders, P r)
    (kept : ∀ r r', P r → f r = some r' → P r') : ∀ r ∈ updateOrder orderNo f orders, P r := by
  intro r member
  obtain ⟨o, listed, image⟩ := List.mem_filterMap.mp member
  split at image
  · exact kept o r (all o listed) image
  · cases image
    exact all _ listed

end Update

namespace OrderBook

/-- The event comes in order, to a book that is not stale, and its price is on the grid. -/
def Takes (b : OrderBook) (ev : MarketEvent) : Prop :=
  ¬ b.SeqGap ev ∧ b.stale = false ∧
    (ev.msgType = some .orderAdd ∨ ev.msgType = some .orderModify → b.tickOk ev.price = true)

section Tracked

variable {b b' : OrderBook} {ev : MarketEvent} {fuel : Nat} {result : BookResult} {orderNo : Int}
  {f : OrderRecord → Option OrderRecord}

private theorem updateOrder_unknown (ok : b.table.Ok) (absent : b.table.findOrder orderNo = none) :
    updateOrder orderNo f b.table.tracked = b.table.tracked :=
  updateOrder_absent ((ok.findOrder_none_iff orderNo).mp absent)

/-- The update of a found order. -/
private theorem updateOrder_found (ok : b.table.Ok) {i : Nat} (found : b.table.findOrder orderNo = some i)
    {others : List OrderRecord} (perm : b.table.tracked.Perm (b.table.record i :: others)) :
    (updateOrder orderNo f b.table.tracked).Perm ((f (b.table.record i)).toList ++ others) := by
  have unique := (perm.map OrderRecord.orderNo).nodup_iff.mp ok.nodup
  rw [← updateOrder_present unique (ok.findOrder_some found).2.1]
  exact updateOrder_perm perm

private theorem applyAdd_tracked (ok : b.table.Ok) (grid : b.tickOk ev.price = true)
    (absent : b.table.findOrder ev.orderNo = none) (free : ¬ b.table.Full) :
    (b.applyAdd ev).2.table.tracked.Perm
      (⟨ev.orderNo, ev.price, ev.qty, ev.side, true⟩ :: b.table.tracked) := by
  simp only [applyAdd, grid, Bool.not_true, Bool.false_eq_true, if_false]
  rcases ok.insertOrder_cases ⟨ev.orderNo, ev.price, ev.qty, ev.side, true⟩ with
    ⟨table, stored, _, _, _, _, perm⟩ | ⟨i, found, _⟩ | ⟨_, full, _⟩
  · rw [stored]
    dsimp only
    rw [addQty_table]
    exact perm
  · rw [absent] at found
    cases found
  · exact absurd full free

private theorem applyModify_tracked (ok : b.table.Ok) (grid : b.tickOk ev.price = true) :
    (b.applyModify ev).2.table.tracked.Perm (updateOrder ev.orderNo
      (fun r => some { r with price := ev.price, qty := ev.qty }) b.table.tracked) := by
  simp only [applyModify, grid, Bool.not_true, Bool.false_eq_true, if_false]
  cases found : b.table.findOrder ev.orderNo with
  -- an unknown number changes neither the table nor the list
  | none => rw [updateOrder_unknown ok found]
  | some i =>
    obtain ⟨_, _, _, before⟩ := ok.findOrder_some found
    obtain ⟨_, _, after⟩ := ok.updateRecord found ev.price ev.qty
    have update := updateOrder_found
      (f := fun r => some { r with price := ev.price, qty := ev.qty }) ok found before
    dsimp only
    rw [addQty_table]
    exact after.trans update.symm

/-- Erasing takes the order of that number off. -/
private theorem eraseOrder_tracked {table : OrderTable} {i : Nat} (ok : b.table.Ok)
    (found : b.table.findOrder orderNo = some i)
    (erased : b.table.eraseOrder fuel orderNo = some table) (gone : f (b.table.record i) = none) :
    table.tracked.Perm (updateOrder orderNo f b.table.tracked) := by
  obtain ⟨_, _, ⟨absent, _⟩ | ⟨j, found', _, perm⟩⟩ := ok.eraseOrder_cases erased
  · rw [absent] at found
    cases found
  · rw [found] at found'
    cases found'
    have update := updateOrder_found (f := f) ok found perm
    rw [gone] at update
    exact update.symm

private theorem applyCancel_tracked (ok : b.table.Ok)
    (returned : b.applyCancel fuel ev = some (result, b')) :
    b'.table.tracked.Perm (updateOrder ev.orderNo (fun _ => none) b.table.tracked) := by
  simp only [applyCancel] at returned
  cases found : b.table.findOrder ev.orderNo with
  | none =>
    simp only [found, Option.some.injEq, Prod.mk.injEq] at returned
    rw [updateOrder_unknown ok found, returned.2]
  | some i =>
    simp only [found, Option.bind_eq_bind, Option.bind_eq_some_iff, Option.some.injEq,
      Prod.mk.injEq] at returned
    obtain ⟨table, erased, _, rfl⟩ := returned
    exact eraseOrder_tracked ok found erased rfl

/-- One leg of a trade. -/
theorem reduceResting_tracked {hit : Bool} {traded : Int} (ok : b.table.Ok)
    (returned : b.reduceResting fuel orderNo traded = some (hit, b')) :
    b'.table.Ok ∧ b'.table.tracked.Perm (reduceOrder orderNo traded b.table.tracked) := by
  simp only [reduceResting] at returned
  split at returned
  next zero =>
    cases returned
    rw [reduceOrder, if_pos zero]
    exact ⟨ok, .refl _⟩
  next named =>
  rw [reduceOrder, if_neg named]
  cases found : b.table.findOrder orderNo with
  | none =>
    simp only [found, Option.some.injEq, Prod.mk.injEq] at returned
    rw [updateOrder_unknown ok found, ← returned.2]
    exact ⟨ok, .refl _⟩
  | some i =>
    simp only [found] at returned
    -- an order that is used up is erased, otherwise it shrinks in its slot
    by_cases fully : traded ≥ (b.table.record i).qty
    · simp only [fully, decide_true, if_true, Option.bind_eq_bind, Option.bind_eq_some_iff,
        Option.some.injEq, Prod.mk.injEq] at returned
      obtain ⟨table, erased, _, rfl⟩ := returned
      exact ⟨(ok.eraseOrder_cases erased).1, eraseOrder_tracked ok found erased (if_pos fully)⟩
    · simp only [fully, decide_false, Bool.false_eq_true, if_false, Option.some.injEq,
        Prod.mk.injEq] at returned
      obtain ⟨_, _, _, before⟩ := ok.findOrder_some found
      obtain ⟨ok', _, after⟩ := ok.updateRecord found (b.table.record i).price
        (i32 ((b.table.record i).qty - traded))
      have update := updateOrder_found (f := leftOver traded) ok found before
      rw [leftOver, if_neg fully] at update
      rw [← returned.2]
      exact ⟨ok', after.trans update.symm⟩

private theorem applyEvent_other (met : ¬ b.SeqGap ev) (type : ev.msgType ≠ some .snapQuote)
    (other : ¬ ev.isOrderEvent) (fuel : Nat) :
    b.applyEvent fuel ev = some (.ok, (b.trackSeq ev).2) := by
  have noGap := mt (trackSeq_gap_iff b ev).mp met
  simp only [MarketEvent.isOrderEvent, not_or] at other
  simp only [applyEvent, noGap, Bool.false_eq_true, false_and, if_false]
  split <;> simp_all

/-- An event other than a trade. -/
theorem Takes.tracked (takes : b.Takes ev) (ok : b.table.Ok) (free : ¬ b.table.Full)
    (absent : ev.msgType = some .orderAdd → b.table.findOrder ev.orderNo = none)
    (type : ev.msgType ≠ some .snapQuote) (other : ev.msgType ≠ some .trade)
    (returned : b.applyEvent fuel ev = some (result, b')) :
    b'.table.tracked.Perm (changeOrders ev b.table.tracked) := by
  obtain ⟨met, live, grid⟩ := takes
  have tick : (b.trackSeq ev).2.tickOk ev.price = b.tickOk ev.price := by
    rw [trackSeq_of_no_gap met]
    rfl
  -- the sequence check comes first and touches none of this
  rw [← trackSeq_table b ev] at ok free absent ⊢
  rw [← tick] at grid
  -- each handler has its own lemma; other messages only move the sequence number
  by_cases order : ev.isOrderEvent
  · rcases order with add | modify | cancel | trade
    · rw [applyEvent_orderAdd met live add, Option.some.injEq] at returned
      have perm := applyAdd_tracked ok (grid (.inl add)) (absent add) free
      simpa [changeOrders, add, returned] using perm
    · rw [applyEvent_orderModify met live modify, Option.some.injEq] at returned
      have perm := applyModify_tracked ok (grid (.inr modify))
      simpa [changeOrders, modify, returned] using perm
    · rw [applyEvent_orderCancel met live cancel] at returned
      simpa [changeOrders, cancel] using applyCancel_tracked ok returned
    · exact absurd trade other
  · rw [applyEvent_other met type order] at returned
    cases returned
    rw [changeOrders_other order]

/-- The two legs of a trade, one after the other. -/
theorem applyEvent_traded (ok : b.table.Ok) (type : ev.msgType = some .trade)
    (returned : b.applyEvent fuel ev = some (result, b')) (takes : b.Takes ev) :
    b'.table.tracked.Perm (reduceOrder ev.orderNo2 ev.qty
      (reduceOrder ev.orderNo ev.qty b.table.tracked)) := by
  rw [applyEvent_trade takes.1 takes.2.1 type] at returned
  simp only [applyTrade, Option.bind_eq_bind, Option.bind_eq_some_iff, Option.some.injEq,
    Prod.mk.injEq, Prod.exists] at returned
  obtain ⟨_, m, first, _, _, second, _, rfl⟩ := returned
  rw [← trackSeq_table b ev] at ok ⊢
  obtain ⟨ok', perm⟩ := reduceResting_tracked ok first
  exact (reduceResting_tracked ok' second).2.trans (reduceOrder_perm perm)

/-- An order event that is not taken changes the sequence state at most. -/
theorem applyEvent_refused (order : ev.isOrderEvent) (refused : ¬ b.Takes ev) (fuel : Nat) :
    ∃ answer, b.applyEvent fuel ev = some (answer, (b.trackSeq ev).2) := by
  have type := order.ne_snapQuote
  by_cases gap : b.SeqGap ev
  · exact ⟨.gap, applyEvent_seqGap gap type fuel⟩
  cases live : b.stale with
  | true =>
    obtain ⟨answer, dropped, _⟩ := applyEvent_stale live type fuel
    exact ⟨answer, dropped⟩
  | false =>
    -- in order and on a live book, so the price is off the grid
    have off : ¬ (ev.msgType = some .orderAdd ∨ ev.msgType = some .orderModify →
        b.tickOk ev.price = true) := fun grid => refused ⟨gap, live, grid⟩
    rw [Classical.not_imp, Bool.not_eq_true] at off
    have tick : (b.trackSeq ev).2.tickOk ev.price = false := by
      rw [trackSeq_of_no_gap gap]
      exact off.2
    rcases off.1 with add | modify
    · exact ⟨.tickViolation, applyEvent_add_off_grid add gap live off.2 fuel⟩
    · refine ⟨.tickViolation, ?_⟩
      rw [applyEvent_orderModify gap live modify]
      simp only [applyModify, tick, Bool.not_false, if_true]

end Tracked

end OrderBook

end NseHft
