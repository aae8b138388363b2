import NseHft.OrderBook.Depth
import NseHft.OrderBook.FailedEvents

/-!
# Repeated adds

An Order Add under a number that is tracked already overwrites the record in the order table,
while the levels keep what the old record contributed. It is compared here with cancelling the
tracked order first and adding then: on a live book the levels agree only when the old
contribution is not displayed, because its level was pushed out earlier or is pushed out by the
add itself.
-/
namespace NseHft

/-! ### One side -/

section Side

variable {tick : Int} {isBid : Bool} {levels : List PriceLevel} {price price' : Int}
  {l : PriceLevel}

theorem removeQtyFromLevel_absent (sorted : Sorted isBid levels)
    (none : levelAt levels price = none) (qty : Int) (dropOrder : Bool) :
    removeQtyFromLevel isBid levels price qty dropOrder = levels := by
  have absent := (levelAt_eq_none_iff levels price).mp none
  rcases removeQtyFromLevel_cases sorted price qty dropOrder with
    ⟨_, result⟩ | ⟨pre, l, post, rfl, here, _⟩
  · exact result
  · exact absurd here (absent l (by simp))

/-- An order that is taken off is missing from the count of its level. -/
theorem orderCount_removeQtyFromLevel (ok : SideOk tick isBid levels)
    (shown : levelAt levels price = some l) (qty : Int) :
    ((levelAt (removeQtyFromLevel isBid levels price qty true) price).getD
      ⟨price, 0, 0⟩).orderCount < l.orderCount := by
  have used := (ok.each l (List.mem_of_find?_eq_some shown)).used
  rw [levelAt_removeQtyFromLevel ok.sorted, if_pos rfl, shown, Option.bind_some]
  split
  · exact used
  · have positive : l.orderCount > 0 := used
    simp only [Option.getD_some, PriceLevel.removeOrder, true_and, if_pos positive]
    omega

/-- A level that disappears leaves room on its side. -/
theorem length_removeQtyFromLevel (ok : SideOk tick isBid levels)
    (shown : levelAt levels price = some l) (qty : Int) (dropOrder : Bool)
    (gone : levelAt (removeQtyFromLevel isBid levels price qty dropOrder) price = none) :
    (removeQtyFromLevel isBid levels price qty dropOrder).length < kMaxLevelsPerSide := by
  have bounded := ok.bounded
  rcases removeQtyFromLevel_cases ok.sorted price qty dropOrder with
    ⟨_, result⟩ | ⟨pre, m, post, rfl, here, result⟩
  · rw [result, shown] at gone
    cases gone
  · rw [result] at gone ⊢
    rw [List.length_append, List.length_cons] at bounded
    split
    · rw [List.length_append]
      omega
    next stays =>
      rw [if_neg stays, levelAt_eq_none_iff] at gone
      exact absurd here (gone (m.removeOrder qty dropOrder) (by simp))

/-- While the level of the old order is displayed before and after, it counts the order that a
cancel would have taken off. -/
theorem addQtyToLevel_ne (ok : SideOk tick isBid levels) (shown : levelAt levels price = some l)
    (qty qty' : Int)
    (still : levelAt (addQtyToLevel isBid levels price' qty') price ≠ none) :
    addQtyToLevel isBid levels price' qty' ≠
      addQtyToLevel isBid (removeQtyFromLevel isBid levels price qty true) price' qty' := by
  intro agree
  have fewer := orderCount_removeQtyFromLevel ok shown qty
  have sorted' := (removeQtyFromLevel_sideOk ok price qty true).sorted
  by_cases same : price = price'
  · subst same
    -- both add an order to the level, one of them to a level with fewer orders
    have kept := levelAt_addQtyToLevel ok.sorted price qty' (by simp [shown]) price
    have replaced := levelAt_addQtyToLevel sorted' price qty'
      (length_removeQtyFromLevel ok shown qty true) price
    rw [agree, replaced, if_pos rfl, if_pos rfl, shown, Option.some.injEq] at kept
    have counts := congrArg PriceLevel.orderCount kept
    simp only [PriceLevel.addOrder, Option.getD_some] at counts
    omega
  · rcases levelAt_addQtyToLevel_away ok.sorted qty' same with kept | pushed
    · rw [agree, shown] at kept
      rcases levelAt_addQtyToLevel_away sorted' qty' same with left | pushed
      · rw [left] at kept
        rw [kept, Option.getD_some] at fewer
        omega
      · rw [pushed] at kept
        cases kept
    · exact still pushed

/-- What stays of a full side after an insertion is everything but its last level. -/
private theorem take_inserted {front back : List PriceLevel} {m last : PriceLevel} {n : Nat}
    (size : front.length + back.length + 1 = n) :
    (front ++ m :: (back ++ [last])).take n = front ++ m :: back := by
  have shape : front ++ m :: (back ++ [last]) = (front ++ m :: back) ++ [last] := by simp
  have length : (front ++ m :: back).length = n := by
    rw [List.length_append, List.length_cons]
    omega
  rw [shape, ← length, List.take_left]

/-- A full side makes room for a better price by giving up its last level. -/
theorem addQtyToLevel_pushes_last (sorted : Sorted isBid (levels ++ [l]))
    (full : (levels ++ [l]).length = kMaxLevelsPerSide)
    (absent : ∀ m ∈ levels ++ [l], m.price ≠ price')
    (better : sortsBefore isBid price' l.price = true) (qty : Int) :
    addQtyToLevel isBid (levels ++ [l]) price' qty = addQtyToLevel isBid levels price' qty := by
  obtain ⟨front, back, split⟩ := split_exists (sorted.sublist (List.sublist_append_left _ _)) price'
  have whole : SplitAt isBid (levels ++ [l]) price' front (back ++ [l]) := by
    refine ⟨by rw [split.append, List.append_assoc], split.before, ?_⟩
    rw [List.forall_mem_append]
    exact ⟨split.after, by simpa using sortsBefore_asymm better⟩
  have length := congrArg List.length split.append
  rw [List.length_append] at full length
  rw [List.length_singleton] at full
  have room : levels.length < kMaxLevelsPerSide := by omega
  have last : ¬ kMaxLevelsPerSide ≤ front.length := by omega
  have overfull : ¬ (levels ++ [l]).length < kMaxLevelsPerSide := by
    rw [List.length_append, List.length_singleton]
    omega
  rw [whole.addQtyToLevel_absent sorted absent, if_neg overfull, if_neg last,
    split.addQtyToLevel_absent (sorted.sublist (List.sublist_append_left _ _))
      (fun m member => absent m (List.mem_append_left _ member)), if_pos room]
  exact take_inserted (by omega)

/-- The level at `price` is the last one of a full side, and `price'` would open a level before
it. -/
structure PushesOut (isBid : Bool) (levels : List PriceLevel) (price price' : Int) : Prop where
  last : ∃ front l, levels = front ++ [l] ∧ l.price = price
  full : levels.length = kMaxLevelsPerSide
  absent : ∀ m ∈ levels, m.price ≠ price'
  better : sortsBefore isBid price' price = true

/-- An add that makes a displayed price disappear pushes out the last level of a full side. -/
theorem pushed_out (ok : SideOk tick isBid levels) (shown : levelAt levels price = some l)
    (qty : Int) (gone : levelAt (addQtyToLevel isBid levels price' qty) price = none) :
    PushesOut isBid levels price price' := by
  by_cases room : levelAt levels price' = none → levels.length < kMaxLevelsPerSide
  · rw [levelAt_addQtyToLevel ok.sorted price' qty room, shown] at gone
    split at gone <;> cases gone
  obtain ⟨none, full⟩ := Classical.not_imp.mp room
  have absent := (levelAt_eq_none_iff levels price').mp none
  have exactly : levels.length = kMaxLevelsPerSide := Nat.le_antisymm ok.bounded (Nat.not_lt.mp full)
  obtain ⟨front, back, split⟩ := split_exists ok.sorted price'
  rw [split.addQtyToLevel_absent ok.sorted absent, if_neg full] at gone
  by_cases all : kMaxLevelsPerSide ≤ front.length
  · rw [if_pos all, shown] at gone
    cases gone
  have length := congrArg List.length split.append
  rcases List.eq_nil_or_concat' back with rfl | ⟨init, last, rfl⟩
  · rw [List.append_nil] at length
    omega
  simp only [List.length_append, List.length_singleton] at length
  rw [if_neg all, take_inserted (by omega), levelAt_eq_none_iff] at gone
  -- everything but the last level stays, so the last one is the level that is gone
  have member := List.mem_of_find?_eq_some shown
  have here : l.price = price := by simpa using List.find?_some shown
  have isLast : l = last := by
    rw [split.append, List.mem_append, List.mem_append, List.mem_singleton] at member
    rcases member with early | late | equal
    · exact absurd here (gone l (List.mem_append_left _ early))
    · exact absurd here (gone l (List.mem_append_right _ (List.mem_cons_of_mem _ late)))
    · exact equal
  subst isLast
  refine ⟨⟨front ++ init, l, by rw [split.append, List.append_assoc], here⟩, exactly, absent, ?_⟩
  rw [← here]
  exact sortsBefore_total (absent l member) (split.after l (by simp))

/-- The level that is pushed out may as well have lost an order before. -/
theorem PushesOut.agrees (ok : SideOk tick isBid levels) (pushes : PushesOut isBid levels price price')
    (qty qty' : Int) :
    addQtyToLevel isBid levels price' qty' =
      addQtyToLevel isBid (removeQtyFromLevel isBid levels price qty true) price' qty' := by
  obtain ⟨⟨front, l, rfl, rfl⟩, full, absent, better⟩ := pushes
  have split : SplitAt isBid (front ++ [l]) l.price front [l] := by
    refine ⟨rfl, ?_, by simp [sortsBefore_irrefl]⟩
    intro m member
    exact (List.pairwise_append.mp ok.sorted).2.2 m member l (List.mem_singleton.mpr rfl)
  rw [addQtyToLevel_pushes_last ok.sorted full absent better,
    split.removeQtyFromLevel_present ok.sorted rfl]
  split
  · rw [List.append_nil]
  -- the smaller level is pushed out just as the larger one is
  · have smaller : Sorted isBid (front ++ [l.removeOrder qty true]) :=
      sorted_replace ok.sorted rfl
    apply (addQtyToLevel_pushes_last smaller _ _ better qty').symm
    · simpa using full
    · rw [List.forall_mem_append] at absent ⊢
      exact ⟨absent.1, by simpa using absent.2⟩

/-- On the side of both orders. -/
theorem duplicate_agrees_iff (ok : SideOk tick isBid levels) (price price' qty qty' : Int) :
    addQtyToLevel isBid levels price' qty' =
        addQtyToLevel isBid (removeQtyFromLevel isBid levels price qty true) price' qty' ↔
      levelAt levels price = none ∨ PushesOut isBid levels price price' := by
  constructor
  · intro agree
    cases shown : levelAt levels price with
    | none => exact .inl rfl
    | some l =>
      refine .inr (pushed_out ok shown qty' ?_)
      by_contra still
      exact addQtyToLevel_ne ok shown qty qty' still agree
  · rintro (none | pushes)
    · rw [removeQtyFromLevel_absent ok.sorted none]
    · exact pushes.agrees ok qty qty'

theorem cancelled_agrees_iff (ok : SideOk tick isBid levels) (price qty : Int) :
    levels = removeQtyFromLevel isBid levels price qty true ↔ levelAt levels price = none := by
  constructor
  · intro agree
    cases shown : levelAt levels price with
    | none => rfl
    | some l =>
      have fewer := orderCount_removeQtyFromLevel ok shown qty
      rw [← agree, shown, Option.getD_some] at fewer
      omega
  · intro none
    exact (removeQtyFromLevel_absent ok.sorted none qty true).symm

end Side

/-! ### The book -/

namespace OrderBook

/-- The message that cancels an order, without a sequence number of its own. -/
def cancelOf (orderNo : Int) : MarketEvent :=
  { type := MtbtMsgType.orderCancel.code, orderNo := orderNo }

/-- The levels of a book after an add, as a function of those before it. -/
def levelsAdded (levels : Side → List PriceLevel) (ev : MarketEvent) (side : Side) :
    List PriceLevel :=
  if side = ev.side then addQtyToLevel side (levels side) ev.price ev.qty else levels side

section Book

variable {b : OrderBook} {ev : MarketEvent} {fuel : Nat}

/-- What an add does to the levels, whatever its answer. -/
theorem applyEvent_add_levels (ok : b.table.Ok) (type : ev.msgType = some .orderAdd)
    (free : ¬ b.table.Full) (fuel : Nat) :
    ∃ answer b', b.applyEvent fuel ev = some (answer, b') ∧
      (b.Takes ev → b'.levels = levelsAdded b.levels ev) ∧ (¬ b.Takes ev → b'.levels = b.levels) := by
  by_cases takes : b.Takes ev
  · obtain ⟨met, live, grid⟩ := takes
    obtain ⟨table, taken⟩ := applyEvent_add_taken ok type met live (grid (.inl type)) free fuel
    refine ⟨.ok, _, taken, fun _ => ?_, fun refused => absurd ⟨met, live, grid⟩ refused⟩
    funext side
    rw [addQty_levels, levels_table, trackSeq_levels]
    rfl
  · obtain ⟨answer, dropped⟩ := applyEvent_refused (.inl type) takes fuel
    exact ⟨answer, _, dropped, fun taken => absurd taken takes, fun _ => b.trackSeq_levels ev⟩

theorem applyEvent_cancelOf {orderNo : Int} {i : Nat} {table : OrderTable} (live : b.stale = false)
    (found : b.table.findOrder orderNo = some i)
    (erased : b.table.eraseOrder fuel orderNo = some table) :
    b.applyEvent fuel (cancelOf orderNo) = some (.ok,
      { b.removeQty (b.table.record i).side (b.table.record i).price (b.table.record i).qty true with
        table := table }) := by
  have unnumbered : ¬ b.SeqGap (cancelOf orderNo) := fun gap => gap.1 rfl
  exact applyEvent_cancel_taken rfl unnumbered live found erased

/-- A cancel leaves the sequence state and the grid alone. -/
theorem takes_removeQty (side : Side) (price qty : Int) (drop : Bool) (table : OrderTable) :
    Takes { b.removeQty side price qty drop with table := table } ev ↔ b.Takes ev := by
  cases side <;> rfl

private theorem levels_eq_iff {levels levels' : Side → List PriceLevel} {side : Side}
    (others : ∀ s, s ≠ side → levels s = levels' s) :
    levels = levels' ↔ levels side = levels' side := by
  constructor
  · exact fun agree => congrFun agree side
  · intro agree
    funext s
    by_cases same : s = side
    · exact same ▸ agree
    · exact others s same

/-- Both ways of adding over an order touch the side of the old order and that of the new one. -/
theorem levelsAdded_agree_iff (ok : b.Ok) (ev : MarketEvent) (r : OrderRecord) :
    levelsAdded b.levels ev =
        levelsAdded (b.removeQty r.side r.price r.qty true).levels ev ↔
      levelAt (b.levels r.side) r.price = none ∨
        r.side = ev.side ∧ PushesOut r.side (b.levels r.side) r.price ev.price := by
  rw [@levels_eq_iff _ _ r.side]
  · by_cases same : r.side = ev.side
    · simp only [levelsAdded, removeQty_levels, same, true_and]
      exact duplicate_agrees_iff (ok.side ev.side) r.price ev.price r.qty ev.qty
    · simp only [levelsAdded, removeQty_levels, same, false_and, or_false, if_true]
      exact cancelled_agrees_iff (ok.side r.side) r.price r.qty
  · intro side other
    simp only [levelsAdded, removeQty_levels, if_neg other]

/-- Without the add, only the cancel makes a difference. -/
theorem levelsRemoved_agree_iff (ok : b.Ok) (r : OrderRecord) :
    b.levels = (b.removeQty r.side r.price r.qty true).levels ↔
      levelAt (b.levels r.side) r.price = none := by
  rw [@levels_eq_iff _ _ r.side]
  · rw [removeQty_levels, if_pos rfl]
    exact cancelled_agrees_iff (ok.side r.side) r.price r.qty
  · intro side other
    rw [removeQty_levels, if_neg other]

/-- A repeated add shows the same levels as a cancel of the tracked order followed by the add
exactly when the book is stale and drops both, the level of the tracked order is not displayed,
or the add is taken and pushes this level out: otherwise the old contribution stays. -/
theorem duplicate_add_agrees_iff (token capacity : Nat) (tickSize : Int) (b : OrderBook)
    (reachable : Reachable token tickSize capacity b) (free : ¬ b.table.Full) (fuel : Nat)
    (lap : b.table.mask < fuel) (ev : MarketEvent) (type : ev.msgType = some .orderAdd)
    (r : OrderRecord) (tracked : b.table.lookupOrder ev.orderNo = some r) :
    ∃ answer added cancelAnswer cancelled addAnswer replaced,
      b.applyEvent fuel ev = some (answer, added) ∧
      b.applyEvent fuel (cancelOf ev.orderNo) = some (cancelAnswer, cancelled) ∧
      cancelled.applyEvent fuel ev = some (addAnswer, replaced) ∧
      (added.levels = replaced.levels ↔
        b.stale = true ∨ levelAt (b.levels r.side) r.price = none ∨
          b.Takes ev ∧ r.side = ev.side ∧
            PushesOut r.side (b.levels r.side) r.price ev.price) := by
  have ok := reachable.ok.1
  cases stale : b.stale with
  | true =>
    have other : ev.msgType ≠ some .snapQuote := by simp [type]
    obtain ⟨answer, dropped, _⟩ := applyEvent_stale stale other fuel
    have cancels : (cancelOf ev.orderNo).msgType ≠ some .snapQuote := by
      rw [show (cancelOf ev.orderNo).msgType = some .orderCancel from rfl]
      decide
    obtain ⟨cancelAnswer, kept, _⟩ := applyEvent_stale stale cancels fuel
    obtain ⟨addAnswer, again, _⟩ := applyEvent_stale (trackSeq_keeps_stale stale _) other fuel
    refine ⟨answer, _, cancelAnswer, _, addAnswer, _, dropped, kept, again, ?_⟩
    simp only [trackSeq_levels, true_or]
  | false =>
    obtain ⟨i, found, rfl⟩ := Option.map_eq_some_iff.mp tracked
    obtain ⟨table, erased⟩ := ok.table.eraseOrder_returns free ev.orderNo fuel lap
    have cancelled := applyEvent_cancelOf stale found erased
    generalize b.table.record i = r at cancelled ⊢
    obtain ⟨answer, added, returned, taken, refused⟩ :=
      applyEvent_add_levels ok.table type free fuel
    -- the cancel leaves a slot free
    obtain ⟨addAnswer, replaced, returned', taken', refused'⟩ := applyEvent_add_levels
      (b := { b.removeQty r.side r.price r.qty true with table := table })
      (ok.table.eraseOrder_cases erased).1 type (ok.table.eraseOrder_room free erased) fuel
    rw [takes_removeQty, levels_table] at taken' refused'
    refine ⟨answer, added, .ok, _, addAnswer, replaced, returned, cancelled, returned', ?_⟩
    simp only [Bool.false_eq_true, false_or]
    by_cases takes : b.Takes ev
    · simp only [taken takes, taken' takes, takes, true_and]
      exact levelsAdded_agree_iff ok ev r
    · simp only [refused takes, refused' takes, takes, false_and, or_false]
      exact levelsRemoved_agree_iff ok r

private def again (orderNo : Int) : MarketEvent :=
  { type := MtbtMsgType.orderAdd.code, orderNo := orderNo, price := 300, qty := 1 }

/-- After 257 bids at different prices one of them is not displayed. A second add under its
number leaves no trace of the first. -/
theorem pushed_out_order_replaced :
    ∃ b r answer added cancelAnswer cancelled addAnswer replaced, Reachable 7 1 512 b ∧
      b.table.lookupOrder r.orderNo = some r ∧ levelAt (b.levels r.side) r.price = none ∧
      b.applyEvent 512 (again r.orderNo) = some (answer, added) ∧
      b.applyEvent 512 (cancelOf r.orderNo) = some (cancelAnswer, cancelled) ∧
      cancelled.applyEvent 512 (again r.orderNo) = some (addAnswer, replaced) ∧
      added.levels = replaced.levels := by
  obtain ⟨b, run, perm, mask, tick, live⟩ := ladder_run 257 (by decide)
  have deep := run.deep
  obtain ⟨-, hidden⟩ := ladder_shown (tick ▸ (deep.displays kBuy).perm perm)
  obtain ⟨price, member⟩ := Finset.nonempty_iff_ne_empty.mpr hidden
  obtain ⟨alive, unlisted⟩ := mem_hiddenPrices.mp member
  obtain ⟨r, listed, side, here⟩ := restingAt_ne_nil_iff.mp (mem_livePrices.mp alive)
  have tracked : b.table.lookupOrder r.orderNo = some r :=
    (deep.table.lookupOrder_some_iff r.orderNo r).mpr ⟨perm.mem_iff.mpr listed, rfl⟩
  have none : levelAt (b.levels r.side) r.price = none := by
    rw [levelAt_eq_none_iff, side, here]
    intro l shown same
    exact unlisted (List.mem_map.mpr ⟨l, shown, same⟩)
  obtain ⟨answer, added, cancelAnswer, cancelled, addAnswer, replaced, taken, erased, readded,
    agree⟩ := duplicate_add_agrees_iff 7 512 1 b run.reachable run.not_full 512 (by omega)
      (again r.orderNo) rfl r tracked
  exact ⟨b, r, answer, added, cancelAnswer, cancelled, addAnswer, replaced, run.reachable, tracked,
    none, taken, erased, readded, agree.mpr (.inr (.inl none))⟩

/-- A buy of 10 at 100 and a second add under its number, of 3 at 105: the 10 at 100 stay in
the book. With a cancel in between they are gone. -/
theorem duplicate_add_keeps_old_level :
    ∃ b added cancelled replaced, Reachable 7 5 4 b ∧ b.bids = [⟨100, 10, 1⟩] ∧
      b.applyEvent 4 { type := 65, orderNo := 1, price := 105, qty := 3 } = some (.ok, added) ∧
      added.bids = [⟨105, 3, 1⟩, ⟨100, 10, 1⟩] ∧
      b.applyEvent 4 (cancelOf 1) = some (.ok, cancelled) ∧
      cancelled.applyEvent 4 { type := 65, orderNo := 1, price := 105, qty := 3 } =
        some (.ok, replaced) ∧
      replaced.bids = [⟨105, 3, 1⟩] := by
  have placed : Reachable 7 5 4 _ := Reachable.event 4
    { type := 65, orderNo := 1, price := 100, qty := 10 } .fresh rfl
  exact ⟨_, _, _, _, placed, by decide +kernel, rfl, by decide +kernel, rfl, rfl,
    by decide +kernel⟩

end Book

end OrderBook

end NseHft
