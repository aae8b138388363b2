import Mathlib.Data.Finset.Sort
import NseHft.Lib.Leading
import NseHft.OrderBook.Consistency
import NseHft.OrderBook.TrackedOrders

/-!
# Display of bounded depth

A side displays at most 256 levels while the order table goes on tracking the orders
behind them. A level that is pushed out is forgotten, and nothing brings it back: the
display stays right as long as no displayed price is vacated while live prices are hidden.
-/
namespace NseHft

open FixedWidth Leading

/-- Whether a price is better than another on a side. -/
def Better (side : Side) (a b : Int) : Prop := sortsBefore side a b = true

instance (side : Side) : IsTrans Int (Better side) := ⟨fun _ _ _ => sortsBefore_trans⟩

instance (side : Side) : Std.Irrefl (Better side) :=
  ⟨fun a better => Bool.false_ne_true ((sortsBefore_irrefl side a).symm.trans better)⟩

/-- The prices of a set, best first. -/
def bestFirst (side : Side) (prices : Finset Int) : List Int :=
  match side with
  | kBuy => prices.sort (· ≥ ·)
  | kSell => prices.sort (· ≤ ·)

/-- The prices that a side has levels for: the best live ones. -/
def shownPrices (side : Side) (orders : List OrderRecord) : List Int :=
  (bestFirst side (livePrices side orders)).take kMaxLevelsPerSide

/-- What a side should display: the best live prices, each with the sum and the number of
the orders there. -/
def display (side : Side) (orders : List OrderRecord) : List PriceLevel :=
  (shownPrices side orders).map fun price =>
    ⟨price, totalAt side price orders, (restingAt side price orders).length⟩

/-- The live prices without a level. -/
def hiddenPrices (side : Side) (levels : List PriceLevel) (orders : List OrderRecord) : Finset Int :=
  (livePrices side orders).filter fun price => price ∉ levels.map PriceLevel.price

/-! ### One side -/

/-- The levels are right, and better than every hidden price. -/
structure Faithful (tick : Int) (side : Side) (levels : List PriceLevel)
    (orders : List OrderRecord) : Prop where
  ok : SideOk tick side levels
  right : ∀ l ∈ levels, aggregate side l.price orders = some l
  heads : Heads (Better side) (levels.map PriceLevel.price) (livePrices side orders)

/-- A price is hidden only behind a full display. -/
structure Displays (tick : Int) (side : Side) (levels : List PriceLevel)
    (orders : List OrderRecord) : Prop extends Faithful tick side levels orders where
  complete : ∀ price ∈ livePrices side orders, price ∉ levels.map PriceLevel.price →
    levels.length = kMaxLevelsPerSide

section Side

variable {tick : Int} {side : Side} {levels : List PriceLevel} {orders orders' : List OrderRecord}
  {r r' : OrderRecord} {price qty : Int}

theorem mem_livePrices_iff : price ∈ livePrices side orders ↔ aggregate side price orders ≠ none := by
  rw [mem_livePrices, aggregate]
  split_ifs with none <;> simp [none]

theorem live_of_right (right : ∀ l ∈ levels, aggregate side l.price orders = some l) :
    ∀ shown ∈ levels.map PriceLevel.price, shown ∈ livePrices side orders := by
  intro shown member
  obtain ⟨l, listed, rfl⟩ := List.mem_map.mp member
  rw [mem_livePrices_iff, right l listed]
  exact Option.some_ne_none l

theorem Displays.leads (displays : Displays tick side levels orders) :
    Leads (Better side) kMaxLevelsPerSide (levels.map PriceLevel.price) (livePrices side orders) :=
  ⟨displays.heads, by simpa using displays.ok.bounded, by simpa using displays.complete⟩

theorem Displays.ofLeads (ok : SideOk tick side levels)
    (right : ∀ l ∈ levels, aggregate side l.price orders = some l)
    (leads : Leads (Better side) kMaxLevelsPerSide (levels.map PriceLevel.price)
      (livePrices side orders)) : Displays tick side levels orders :=
  ⟨⟨ok, right, leads.toHeads⟩, by simpa using leads.complete⟩

/-! #### The display as a function of the orders -/

theorem mem_bestFirst (side : Side) (prices : Finset Int) (price : Int) :
    price ∈ bestFirst side prices ↔ price ∈ prices := by
  cases side <;> simp [bestFirst]

theorem bestFirst_sorted (side : Side) (prices : Finset Int) :
    (bestFirst side prices).Pairwise (Better side) := by
  cases side with
  | false =>
    refine ((prices.pairwise_sort (· ≤ ·)).and (prices.sort_nodup (· ≤ ·))).imp ?_
    rintro a b ⟨weak, different⟩
    simp only [Better, sortsBefore, Bool.false_eq_true, if_false, decide_eq_true_eq]
    omega
  | true =>
    refine ((prices.pairwise_sort (· ≥ ·)).and (prices.sort_nodup (· ≥ ·))).imp ?_
    rintro a b ⟨weak, different⟩
    simp only [Better, sortsBefore, if_true, decide_eq_true_eq]
    omega

theorem eq_shownPrices {shown : List Int}
    (leads : Leads (Better side) kMaxLevelsPerSide shown (livePrices side orders)) :
    shown = shownPrices side orders :=
  leads.eq_take (bestFirst_sorted side _) (mem_bestFirst side _)

theorem live_of_shown (shown : price ∈ shownPrices side orders) : price ∈ livePrices side orders :=
  (mem_bestFirst side _ price).mp (List.mem_of_mem_take shown)

theorem shownPrices_perm (perm : orders.Perm orders') :
    shownPrices side orders = shownPrices side orders' := by
  rw [shownPrices, shownPrices, livePrices_perm perm]

theorem display_prices (side : Side) (orders : List OrderRecord) :
    (display side orders).map PriceLevel.price = shownPrices side orders := by
  rw [display, List.map_map]
  exact List.map_id _

theorem display_length (side : Side) (orders : List OrderRecord) :
    (display side orders).length = min kMaxLevelsPerSide (livePrices side orders).card := by
  have all : (bestFirst side (livePrices side orders)).length = (livePrices side orders).card := by
    cases side <;> exact Finset.length_sort _
  rw [display, List.length_map, shownPrices, List.length_take, all]

theorem Displays.prices (displays : Displays tick side levels orders) :
    levels.map PriceLevel.price = shownPrices side orders := eq_shownPrices displays.leads

theorem Displays.eq_display (displays : Displays tick side levels orders) :
    levels = display side orders := by
  have same : ∀ l ∈ levels, (⟨l.price, totalAt side l.price orders,
      (restingAt side l.price orders).length⟩ : PriceLevel) = l :=
    fun l member => ((aggregate_eq_some_iff l).mp (displays.right l member)).2.symm
  rw [display, ← displays.prices, List.map_map]
  exact (List.map_id levels).symm.trans (List.map_congr_left fun l member => (same l member).symm)

/-! #### Joining a level -/

/-- The levels around a place in the side, as prices. -/
private theorem SplitAt.better {pre post : List PriceLevel}
    (split : SplitAt side levels price pre post) (absent : ∀ l ∈ levels, l.price ≠ price) :
    (∀ p ∈ pre.map PriceLevel.price, Better side p price) ∧
      ∀ p ∈ post.map PriceLevel.price, Better side price p := by
  constructor
  · intro p member
    obtain ⟨l, inside, rfl⟩ := List.mem_map.mp member
    exact split.before l inside
  · intro p member
    obtain ⟨l, inside, rfl⟩ := List.mem_map.mp member
    have listed : l ∈ levels := split.append ▸ List.mem_append_right pre inside
    exact sortsBefore_total (absent l listed) (split.after l inside)

/-- An order that opens a level is alone there. -/
private theorem aggregate_alone (fresh : r.price ∉ livePrices r.side orders)
    (fits : FitsI32 (totalAt r.side r.price (r :: orders))) :
    aggregate r.side r.price (r :: orders) = some (PriceLevel.addOrder ⟨r.price, 0, 0⟩ r.qty) := by
  rw [aggregate_add fits]
  rw [mem_livePrices_iff, not_not] at fresh
  rw [fresh, Option.getD_none]

/-- Levels at other prices stay right when an order joins. -/
private theorem right_cons (right : ∀ l ∈ levels, aggregate r.side l.price orders = some l)
    (apart : ∀ l ∈ levels, l.price ≠ r.price) :
    ∀ l ∈ levels, aggregate r.side l.price (r :: orders) = some l := by
  intro l member
  rw [aggregate_cons_away fun both => apart l member both.2.symm]
  exact right l member

private theorem forall_middle {pre post : List PriceLevel} {m : PriceLevel} {P : PriceLevel → Prop}
    (here : P m) (others : ∀ l ∈ pre ++ post, P l) : ∀ l ∈ pre ++ m :: post, P l := by
  rw [List.forall_mem_append] at others
  rw [List.forall_mem_append, List.forall_mem_cons]
  exact ⟨others.1, here, others.2⟩

private theorem mem_take_middle {pre post : List Int} {x : Int} {n : Nat} (inside : pre.length < n) :
    x ∈ (pre ++ x :: post).take n := by
  obtain ⟨k, rfl⟩ := Nat.exists_eq_add_of_lt inside
  rw [List.take_append, Nat.add_assoc, Nat.add_sub_cancel_left, List.take_succ_cons]
  simp

/-- Opening a level for a price that was not live. -/
private theorem right_opened {pre post : List PriceLevel}
    (split : SplitAt r.side levels r.price pre post) (absent : ∀ l ∈ levels, l.price ≠ r.price)
    (right : ∀ l ∈ levels, aggregate r.side l.price orders = some l)
    (fresh : r.price ∉ livePrices r.side orders)
    (fits : FitsI32 (totalAt r.side r.price (r :: orders))) :
    ∀ l ∈ pre ++ PriceLevel.addOrder ⟨r.price, 0, 0⟩ r.qty :: post,
      aggregate r.side l.price (r :: orders) = some l := by
  obtain ⟨rfl, _, _⟩ := split
  exact forall_middle (aggregate_alone fresh fits) (right_cons right absent)

/-- A price that is better than a displayed one and not displayed itself has no order. -/
private theorem Displays.not_hidden (displays : Displays tick side levels orders)
    (absent : price ∉ levels.map PriceLevel.price) {l : PriceLevel} (listed : l ∈ levels)
    (better : Better side price l.price) : price ∉ livePrices side orders := by
  intro hidden
  have worse := displays.heads.behind price hidden absent l.price (List.mem_map_of_mem listed)
  exact Std.Irrefl.irrefl _ (IsTrans.trans _ _ _ worse better)

/-- An order joins a displayed level: the prices stay as they are. -/
private theorem Displays.join {pre post : List PriceLevel} {l : PriceLevel}
    (displays : Displays tick r.side (pre ++ l :: post) orders) (here : l.price = r.price)
    (ok : SideOk tick r.side (pre ++ l.addOrder r.qty :: post))
    (fits : r.price ∈ shownPrices r.side (r :: orders) →
      FitsI32 (totalAt r.side r.price (r :: orders))) :
    Displays tick r.side (pre ++ l.addOrder r.qty :: post) (r :: orders) := by
  have right := displays.right
  have leads := displays.leads
  have shown := right l (by simp)
  have apart := (levelAt_eq_none_iff _ _).mp (levelAt_without displays.ok.sorted)
  have same : (pre ++ l.addOrder r.qty :: post).map PriceLevel.price =
      (pre ++ l :: post).map PriceLevel.price := by simp
  have present : r.price ∈ livePrices r.side orders :=
    here ▸ live_of_right right l.price (by simp)
  rw [← Finset.insert_eq_of_mem present, ← livePrices_cons rfl, ← same] at leads
  have fits := fits (eq_shownPrices leads ▸ by simp [here])
  refine .ofLeads ok (forall_middle ?_ (right_cons ?_ (here ▸ apart))) leads
  · rw [PriceLevel.addOrder_price, here, aggregate_add fits, ← here, shown, Option.getD_some]
  · exact fun m member => right m (by simp at member ⊢; tauto)

/-- An order opens a level where there is room. -/
private theorem Displays.opened {pre post : List PriceLevel}
    (split : SplitAt r.side levels r.price pre post) (absent : ∀ l ∈ levels, l.price ≠ r.price)
    (right : ∀ l ∈ levels, aggregate r.side l.price orders = some l)
    (fresh : r.price ∉ livePrices r.side orders)
    (ok : SideOk tick r.side (pre ++ PriceLevel.addOrder ⟨r.price, 0, 0⟩ r.qty :: post))
    (fits : r.price ∈ shownPrices r.side (r :: orders) →
      FitsI32 (totalAt r.side r.price (r :: orders)))
    (leads : Leads (Better r.side) kMaxLevelsPerSide
      (pre.map PriceLevel.price ++ r.price :: post.map PriceLevel.price)
      (livePrices r.side (r :: orders))) :
    Displays tick r.side (pre ++ PriceLevel.addOrder ⟨r.price, 0, 0⟩ r.qty :: post) (r :: orders) := by
  have fits := fits (eq_shownPrices leads ▸ by simp)
  refine .ofLeads ok (right_opened split absent right fresh fits) ?_
  rw [List.map_append, List.map_cons]
  exact leads

/-- An order opens a level on a full side, which gives up its last one. -/
private theorem Displays.pushOut {pre post : List PriceLevel}
    (displays : Displays tick r.side levels orders)
    (split : SplitAt r.side levels r.price pre post) (absent : ∀ l ∈ levels, l.price ≠ r.price)
    (full : levels.length = kMaxLevelsPerSide) (inside : pre.length < kMaxLevelsPerSide)
    (ok : SideOk tick r.side ((pre ++ PriceLevel.addOrder ⟨r.price, 0, 0⟩ r.qty :: post).take
      kMaxLevelsPerSide))
    (fits : r.price ∈ shownPrices r.side (r :: orders) →
      FitsI32 (totalAt r.side r.price (r :: orders))) :
    Displays tick r.side ((pre ++ PriceLevel.addOrder ⟨r.price, 0, 0⟩ r.qty :: post).take
      kMaxLevelsPerSide) (r :: orders) := by
  have leads := displays.leads
  obtain ⟨left, behind⟩ := SplitAt.better split absent
  have parts := congrArg List.length split.append
  rw [List.length_append] at parts
  -- better than the last level, so not hidden before
  obtain ⟨m, last⟩ := List.exists_mem_of_length_pos (l := post) (by omega)
  have fresh : r.price ∉ livePrices r.side orders := by
    apply displays.not_hidden (by simpa using absent)
    · exact split.append ▸ List.mem_append_right pre last
    · exact behind m.price (List.mem_map_of_mem last)
  rw [split.append, List.map_append] at leads
  have joined := leads.insert_full (by rw [← List.map_append, ← split.append, List.length_map, full])
    (by rw [List.length_map]; omega) left behind
  rw [← livePrices_cons rfl] at joined
  have fits := fits (eq_shownPrices joined ▸ mem_take_middle (by rwa [List.length_map]))
  have opened := right_opened split absent displays.right fresh fits
  refine .ofLeads ok (fun l member => opened l (List.mem_of_mem_take member)) ?_
  rw [List.map_take, List.map_append, List.map_cons]
  exact joined

/-- A new order keeps the display: its level grows, opens or stays hidden. The sum matters where
it is displayed. -/
theorem Displays.add (displays : Displays tick r.side levels orders)
    (grid : tick ≠ 0 → tick ∣ r.price)
    (fits : r.price ∈ shownPrices r.side (r :: orders) →
      FitsI32 (totalAt r.side r.price (r :: orders))) :
    Displays tick r.side (addQtyToLevel r.side levels r.price r.qty) (r :: orders) := by
  have ok := addQtyToLevel_sideOk displays.ok r.price r.qty grid
  have leads := displays.leads
  rcases addQtyToLevel_cases displays.ok.sorted r.price r.qty with
    ⟨pre, l, post, rfl, here, result⟩ | ⟨pre, post, split, absent, room, result⟩ |
    ⟨pre, post, split, absent, full, result⟩
  · rw [result] at ok ⊢
    exact displays.join here ok fits
  · have fresh : r.price ∉ livePrices r.side orders := by
      intro hidden
      have full := displays.complete r.price hidden (by simpa using absent)
      omega
    obtain ⟨left, behind⟩ := SplitAt.better split absent
    rw [split.append, List.map_append] at leads
    have joined := leads.insert_room
      (by rwa [← List.map_append, ← split.append, List.length_map]) left behind
    rw [← livePrices_cons rfl] at joined
    rw [result] at ok ⊢
    exact .opened split absent displays.right fresh ok fits joined
  · have length : levels.length = kMaxLevelsPerSide := le_antisymm displays.ok.bounded full
    rw [result] at ok ⊢
    split_ifs at ok ⊢ with last
    · -- worse than all 256 levels, so hidden
      refine .ofLeads ok (right_cons displays.right absent) ?_
      have parts := congrArg List.length split.append
      rw [List.length_append] at parts
      have none : post = [] := List.eq_nil_of_length_eq_zero (by omega)
      rw [livePrices_cons rfl]
      refine leads.insert_behind (by rw [List.length_map, length]) ?_
      rw [split.append, none, List.append_nil]
      exact (SplitAt.better split absent).1
    · exact displays.pushOut split absent length (Nat.lt_of_not_le last) ok fits

/-! #### Leaving a level -/

/-- Quantity leaves the level at a price, which then shows what is left there, if anything. Behind
the levels it does not matter how much. -/
structure Shrinks (side : Side) (price qty : Int) (drop : Bool) (levels : List PriceLevel)
    (orders orders' : List OrderRecord) : Prop where
  subset : livePrices side orders' ⊆ livePrices side orders
  here : price ∈ levels.map PriceLevel.price → (aggregate side price orders).bind (fun l =>
    if (l.removeOrder qty drop).empty then none else some (l.removeOrder qty drop)) =
      aggregate side price orders'
  away : ∀ other, other ≠ price → aggregate side other orders' = aggregate side other orders

variable {drop : Bool}

/-- The levels stay right, and a level that goes was the only trace of a price that is no
longer live. -/
theorem Faithful.shrink (faithful : Faithful tick side levels orders)
    (shrinks : Shrinks side price qty drop levels orders orders') :
    Faithful tick side (removeQtyFromLevel side levels price qty drop) orders' ∧
      ((removeQtyFromLevel side levels price qty drop).map PriceLevel.price =
          levels.map PriceLevel.price ∨
        price ∉ livePrices side orders' ∧ ∃ pre post,
          levels.map PriceLevel.price = pre ++ price :: post ∧
          (removeQtyFromLevel side levels price qty drop).map PriceLevel.price = pre ++ post) := by
  have ok := removeQtyFromLevel_sideOk faithful.ok price qty drop
  have right := faithful.right
  have sorted := faithful.ok.sorted
  have heads := faithful.heads
  -- the levels at other prices stay right, and so these prices live
  have others {rest : List PriceLevel} (listed : ∀ l ∈ rest, l ∈ levels)
      (apart : ∀ l ∈ rest, l.price ≠ price) :
      ∀ l ∈ rest, aggregate side l.price orders' = some l := by
    intro l member
    rw [shrinks.away _ (apart l member)]
    exact right l (listed l member)
  rcases removeQtyFromLevel_cases sorted price qty drop with
    ⟨absent, result⟩ | ⟨pre, l, post, rfl, rfl, result⟩
  · rw [result] at ok ⊢
    have right' := others (fun l member => member) absent
    exact ⟨⟨ok, right', heads.subset shrinks.subset (live_of_right right')⟩, .inl rfl⟩
  · have apart := (levelAt_eq_none_iff _ _).mp (levelAt_without sorted)
    have right' := others (fun m member => by simp at member ⊢; tauto) apart
    have here := shrinks.here (by simp)
    rw [right l (by simp), Option.bind_some] at here
    rw [result] at ok ⊢
    split_ifs at ok here ⊢ with last
    · -- the level goes with its last order
      have gone : l.price ∉ livePrices side orders' := by rw [mem_livePrices_iff, ← here, not_not]
      rw [List.map_append, List.map_cons] at heads
      have kept := live_of_right right'
      rw [List.map_append] at kept
      refine ⟨⟨ok, right', ?_⟩, .inr ⟨gone, _, _, List.map_append .., List.map_append ..⟩⟩
      rw [List.map_append]
      exact heads.remove shrinks.subset gone kept
    · have same : (pre ++ l.removeOrder qty drop :: post).map PriceLevel.price =
          (pre ++ l :: post).map PriceLevel.price := by simp
      have right'' : ∀ m ∈ pre ++ l.removeOrder qty drop :: post,
          aggregate side m.price orders' = some m := forall_middle here.symm right'
      refine ⟨⟨ok, right'', ?_⟩, .inl same⟩
      have kept := live_of_right right''
      rw [same] at kept ⊢
      exact heads.subset shrinks.subset kept

/-- No displayed price is vacated while others are hidden, unless a new price takes the place
that is better than all of those. -/
def Refills (side : Side) (levels : List PriceLevel) (orders orders' : List OrderRecord) : Prop :=
  ∀ shown ∈ levels.map PriceLevel.price, shown ∉ livePrices side orders' →
    hiddenPrices side levels orders = ∅ ∨
      ∃ fresh ∈ livePrices side orders', fresh ∉ livePrices side orders ∧
        ∀ hidden ∈ hiddenPrices side levels orders, Better side fresh hidden

theorem mem_hiddenPrices : price ∈ hiddenPrices side levels orders ↔
    price ∈ livePrices side orders ∧ price ∉ levels.map PriceLevel.price := Finset.mem_filter

/-- When a level goes with the last order of its price, what is hidden then was hidden before. -/
private theorem hidden_before {levels' : List PriceLevel} {pre post : List Int}
    (subset : livePrices side orders' ⊆ livePrices side orders)
    (gone : price ∉ livePrices side orders')
    (before : levels.map PriceLevel.price = pre ++ price :: post)
    (after : levels'.map PriceLevel.price = pre ++ post) :
    hiddenPrices side levels' orders' ⊆ hiddenPrices side levels orders := by
  intro other
  rw [mem_hiddenPrices, mem_hiddenPrices, before, after]
  rintro ⟨live, apart⟩
  refine ⟨subset live, ?_⟩
  have different : other ≠ price := fun equal => gone (equal ▸ live)
  simp only [List.mem_append, List.mem_cons] at apart ⊢
  tauto

theorem Displays.shrink (displays : Displays tick side levels orders)
    (shrinks : Shrinks side price qty drop levels orders orders')
    (refills : Refills side levels orders orders') :
    Displays tick side (removeQtyFromLevel side levels price qty drop) orders' := by
  obtain ⟨faithful, same | ⟨gone, pre, post, before, after⟩⟩ := displays.toFaithful.shrink shrinks
  · refine ⟨faithful, fun other live hidden => ?_⟩
    rw [same] at hidden
    have length := congrArg List.length same
    rw [List.length_map, List.length_map] at length
    rw [length]
    exact displays.complete other (shrinks.subset live) hidden
  · refine ⟨faithful, fun other live hidden => ?_⟩
    -- the vacated price left nothing hidden
    rcases refills price (by simp [before]) gone with none | ⟨fresh, live', new, _⟩
    · have member := hidden_before shrinks.subset gone before after
        (mem_hiddenPrices.mpr ⟨live, hidden⟩)
      simp [none] at member
    · exact absurd (shrinks.subset live') new

/-- Otherwise a place of the display stays empty. -/
theorem Displays.vacate (displays : Displays tick side levels orders)
    (shrinks : Shrinks side price qty drop levels orders orders')
    (shown : price ∈ levels.map PriceLevel.price) (gone : price ∉ livePrices side orders')
    (some : hiddenPrices side levels orders ≠ ∅) :
    (removeQtyFromLevel side levels price qty drop).length + 1 = kMaxLevelsPerSide := by
  obtain ⟨hidden, member⟩ := Finset.nonempty_iff_ne_empty.mpr some
  rw [mem_hiddenPrices] at member
  rw [← displays.complete hidden member.1 member.2]
  obtain ⟨faithful, same | ⟨_, pre, post, before, after⟩⟩ := displays.toFaithful.shrink shrinks
  · -- a level that is still there belongs to a live price
    exact absurd (live_of_right faithful.right price (same ▸ shown)) gone
  · have before' := congrArg List.length before
    have after' := congrArg List.length after
    simp only [List.length_map, List.length_append, List.length_cons] at before' after'
    omega

/-- The one free place of a display goes to a new price that is better than the hidden ones. -/
theorem Faithful.fillUp (faithful : Faithful tick r.side levels orders)
    (grid : tick ≠ 0 → tick ∣ r.price)
    (fits : r.price ∈ shownPrices r.side (r :: orders) →
      FitsI32 (totalAt r.side r.price (r :: orders)))
    (fresh : r.price ∉ livePrices r.side orders)
    (first : ∀ hidden ∈ hiddenPrices r.side levels orders, Better r.side r.price hidden)
    (length : levels.length + 1 = kMaxLevelsPerSide) :
    Displays tick r.side (addQtyToLevel r.side levels r.price r.qty) (r :: orders) := by
  have ok := addQtyToLevel_sideOk faithful.ok r.price r.qty grid
  have heads := faithful.heads
  rcases addQtyToLevel_cases faithful.ok.sorted r.price r.qty with
    ⟨pre, l, post, rfl, here, result⟩ | ⟨pre, post, split, absent, room, result⟩ |
    ⟨pre, post, split, absent, full, result⟩
  · exact absurd (here ▸ live_of_right faithful.right l.price (by simp)) fresh
  · obtain ⟨left, behind⟩ := SplitAt.better split absent
    rw [split.append, List.map_append] at heads
    -- with the new level the display is full again, so other prices may stay hidden
    have opened := heads.insert left behind fun other live hidden => first other <| by
      rw [mem_hiddenPrices, split.append, List.map_append]
      exact ⟨live, hidden⟩
    have full : (pre.map PriceLevel.price ++ r.price :: post.map PriceLevel.price).length =
        kMaxLevelsPerSide := by
      have parts := congrArg List.length split.append
      simp only [List.length_append, List.length_cons, List.length_map] at parts ⊢
      omega
    have joined : Leads (Better r.side) kMaxLevelsPerSide
        (pre.map PriceLevel.price ++ r.price :: post.map PriceLevel.price)
        (livePrices r.side (r :: orders)) := by
      rw [livePrices_cons rfl]
      exact ⟨opened, full.le, fun _ _ _ => full⟩
    rw [result] at ok ⊢
    exact .opened split absent faithful.right fresh ok fits joined
  · omega

/-- The price that takes the place of a vacated one: the same again, or the new one. -/
private theorem Refills.takes (refills : Refills r.side levels (r :: orders) (r' :: orders))
    (displays : Displays tick r.side levels (r :: orders)) (side : r'.side = r.side)
    (subset : livePrices r.side orders ⊆ livePrices r.side (r :: orders))
    (gone : r.price ∉ livePrices r.side orders) (shown : r.price ∈ levels.map PriceLevel.price)
    (some : hiddenPrices r.side levels (r :: orders) ≠ ∅) :
    r'.price ∉ livePrices r.side orders ∧
      ∀ hidden ∈ hiddenPrices r.side levels (r :: orders), Better r.side r'.price hidden := by
  by_cases back : r'.price = r.price
  · rw [back]
    refine ⟨gone, fun other apart => ?_⟩
    obtain ⟨live, apart⟩ := mem_hiddenPrices.mp apart
    exact displays.heads.behind other live apart r.price shown
  · have away : r.price ∉ livePrices r.side (r' :: orders) := by
      rw [livePrices_cons side, Finset.mem_insert, not_or]
      exact ⟨Ne.symm back, gone⟩
    rcases refills r.price shown away with none | ⟨fresh, live, new, better⟩
    · exact absurd none some
    · rw [livePrices_cons side, Finset.mem_insert] at live
      rcases live with rfl | old
      · exact ⟨fun live => new (subset live), better⟩
      · exact absurd (subset old) new

/-- An order that moves to another price leaves its level first and joins the other one then. -/
theorem Displays.requeue (displays : Displays tick r.side levels (r :: orders))
    (side : r'.side = r.side) (grid : tick ≠ 0 → tick ∣ r'.price)
    (shrinks : Shrinks r.side r.price r.qty true levels (r :: orders) orders)
    (fits : r'.price ∈ shownPrices r'.side (r' :: orders) →
      FitsI32 (totalAt r'.side r'.price (r' :: orders)))
    (refills : Refills r.side levels (r :: orders) (r' :: orders)) :
    Displays tick r.side (addQtyToLevel r.side (removeQtyFromLevel r.side levels r.price r.qty true)
      r'.price r'.qty) (r' :: orders) := by
  by_cases kept : Refills r.side levels (r :: orders) orders
  · have removed := displays.shrink shrinks kept
    rw [← side] at removed ⊢
    exact removed.add grid fits
  · -- the order was the last one at a displayed price, and others are hidden
    simp only [Refills, not_forall, not_or] at kept
    obtain ⟨shown, displayed, vacated, some, _⟩ := kept
    obtain ⟨faithful, same | ⟨gone, pre, post, before, after⟩⟩ := displays.toFaithful.shrink shrinks
    · exact absurd (live_of_right faithful.right shown (same ▸ displayed)) vacated
    have vacant := displays.vacate shrinks (by simp [before]) gone some
    have still := hidden_before shrinks.subset gone before after
    have taken := refills.takes displays side shrinks.subset gone (by simp [before]) some
    rw [← side] at faithful taken still vacant ⊢
    exact faithful.fillUp grid fits taken.1 (fun other apart => taken.2 other (still apart)) vacant

/-! #### Orders that do not matter -/

theorem livePrices_congr (same : ∀ price, aggregate side price orders = aggregate side price orders') :
    livePrices side orders = livePrices side orders' := by
  ext price
  rw [mem_livePrices_iff, mem_livePrices_iff, same]

/-- The display depends on the aggregates only. -/
theorem Displays.congr (displays : Displays tick side levels orders)
    (same : ∀ price, aggregate side price orders = aggregate side price orders') :
    Displays tick side levels orders' := by
  have live := livePrices_congr same
  refine .ofLeads displays.ok (fun l member => ?_) (live ▸ displays.leads)
  rw [← same]
  exact displays.right l member

theorem Displays.perm (displays : Displays tick side levels orders) (perm : orders.Perm orders') :
    Displays tick side levels orders' := displays.congr fun _ => aggregate_perm perm

theorem aggregate_cons_other (other : r.side ≠ side) (price : Int) :
    aggregate side price (r :: orders) = aggregate side price orders :=
  aggregate_cons_away fun here => other here.1

theorem Refills.perm {before after : List OrderRecord} (refills : Refills side levels before after)
    (first : before.Perm orders) (second : after.Perm orders') :
    Refills side levels orders orders' := by
  simp only [Refills, hiddenPrices] at refills ⊢
  rwa [← livePrices_perm first, ← livePrices_perm second]

theorem Shrinks.perm {before after : List OrderRecord}
    (shrinks : Shrinks side price qty drop levels before after) (first : orders.Perm before)
    (second : orders'.Perm after) : Shrinks side price qty drop levels orders orders' where
  subset := by
    rw [livePrices_perm first, livePrices_perm second]
    exact shrinks.subset
  here shown := by rw [aggregate_perm first, aggregate_perm second, shrinks.here shown]
  away other different := by
    rw [aggregate_perm first, aggregate_perm second, shrinks.away other different]

/-! #### Quantities at displayed prices -/

/-- Orders at displayed prices have positive quantities, whose sums fit. -/
structure Measured (orders : List OrderRecord) : Prop where
  positive : ∀ r ∈ orders, r.price ∈ shownPrices r.side orders → 0 < r.qty
  sums : ∀ side, ∀ price ∈ shownPrices side orders, FitsI32 (totalAt side price orders)

theorem Measured.perm (measured : Measured orders) (perm : orders.Perm orders') :
    Measured orders' where
  positive r member shown :=
    measured.positive r (perm.mem_iff.mpr member) (shownPrices_perm perm ▸ shown)
  sums side price shown := by
    rw [← totalAt_perm perm]
    exact measured.sums side price (shownPrices_perm perm ▸ shown)

/-- Without one of them, the orders at a displayed price still have a sum that fits. -/
theorem Measured.rest (measured : Measured (r :: orders))
    (shown : r.price ∈ shownPrices r.side (r :: orders)) :
    0 < r.qty ∧ 0 ≤ totalAt r.side r.price orders ∧
      FitsI32 (r.qty + totalAt r.side r.price orders) := by
  refine ⟨measured.positive r List.mem_cons_self shown, ?_, ?_⟩
  · refine totalAt_nonneg_at fun o member side price => ?_
    exact measured.positive o (List.mem_cons_of_mem r member) (by rwa [side, price])
  · rw [← totalAt_cons_here ⟨rfl, rfl⟩]
    exact measured.sums r.side r.price shown

theorem shrinks_remove (measured : Measured (r :: orders))
    (prices : levels.map PriceLevel.price = shownPrices r.side (r :: orders)) :
    Shrinks r.side r.price r.qty true levels (r :: orders) orders where
  subset := by
    rw [livePrices_cons rfl]
    exact Finset.subset_insert _ _
  here shown := by
    obtain ⟨positive, nonneg, fits⟩ := measured.rest (prices ▸ shown)
    simp only [FitsI32] at fits
    exact aggregate_remove nonneg (by simp only [FitsI32]; omega)
  away _ different := (aggregate_cons_away fun both => different both.2.symm).symm

/-- A reduced quantity that is stored as a positive one did not wrap. -/
private theorem reduced_exact {qty traded : Int} (small : FitsI32 qty) (fits : FitsI32 traded)
    (partly : traded < qty) (positive : 0 < i32 (qty - traded)) : i32 (qty - traded) = qty - traded := by
  simp only [FitsI32] at small fits
  apply i32_eq_self
  simp only [i32, Int.bmod] at positive
  simp only [FitsI32]
  split at positive <;> omega

theorem shrinks_reduce {traded : Int} (before : Measured (r :: orders)) (after : Measured (r' :: orders))
    (prices : levels.map PriceLevel.price = shownPrices r.side (r :: orders))
    (same : r'.side = r.side ∧ r'.price = r.price) (qty : r'.qty = i32 (r.qty - traded))
    (fits : FitsI32 traded) (partly : traded < r.qty) :
    Shrinks r.side r.price traded false levels (r :: orders) (r' :: orders) := by
  have live : livePrices r.side (r' :: orders) = livePrices r.side (r :: orders) := by
    rw [livePrices_cons same.1, livePrices_cons rfl, same.2]
  refine ⟨live.subset, fun shown => ?_, fun other different => ?_⟩
  · rw [prices] at shown
    obtain ⟨_, rest, sum⟩ := before.rest shown
    -- the order stays displayed, so what is left of it is positive
    have still : r'.price ∈ shownPrices r'.side (r' :: orders) := by
      rwa [same.1, same.2, shownPrices, live]
    obtain ⟨positive, nonneg, sum'⟩ := after.rest still
    have small : FitsI32 r.qty := by
      simp only [FitsI32] at sum ⊢
      omega
    rw [qty] at positive
    have exactQty := qty.trans (reduced_exact small fits partly positive)
    refine aggregate_reduce same exactQty ?_ ?_ <;>
      rw [totalAt_cons_here same] <;> rw [same.1, same.2] at sum' nonneg
    · rw [qty]
      omega
    · exact sum'
  · rw [aggregate_cons_away fun both => different (both.2.symm.trans same.2),
      aggregate_cons_away fun both => different both.2.symm]

/-- A change of the orders that the display can follow: what is displayed afterwards is measured,
and vacated places are refilled. -/
structure Kept (orders orders' : List OrderRecord) : Prop extends Measured orders' where
  refills : ∀ side, Refills side (display side orders) orders orders'

theorem Kept.perm {before after : List OrderRecord} (kept : Kept before after)
    (first : before.Perm orders) (second : after.Perm orders') : Kept orders orders' where
  toMeasured := kept.toMeasured.perm second
  refills side := by
    have same : (display side orders).map PriceLevel.price =
        (display side before).map PriceLevel.price := by
      rw [display_prices, display_prices, shownPrices_perm first]
    have refills := (kept.refills side).perm first second
    simp only [Refills, hiddenPrices] at refills ⊢
    rwa [same]

end Side

/-! ### The book -/

namespace OrderBook

/-- Both sides display what they should, of orders that are measured where they are displayed. -/
structure Deep (b : OrderBook) : Prop where
  table : b.table.Ok
  displays : ∀ side, Displays b.tickSize side (b.levels side) b.table.tracked
  measured : Measured b.table.tracked

/-- The order events: an add brings a number that is not tracked, adds and modifies bring a
positive quantity, and the quantity of a trade is any of its type. -/
def OrderEvent (b : OrderBook) (ev : MarketEvent) : Prop :=
  (ev.msgType = some .orderAdd ∧ b.table.findOrder ev.orderNo = none ∧ 0 < ev.qty) ∨
  (ev.msgType = some .orderModify ∧ 0 < ev.qty) ∨
  ev.msgType = some .orderCancel ∨
  (ev.msgType = some .trade ∧ FitsI32 ev.qty)

/-- The display can follow the event, if it is taken; of a trade, each of its two legs. -/
def Covered (b : OrderBook) (ev : MarketEvent) : Prop :=
  b.Takes ev →
    if ev.msgType = some .trade then
      let orders := reduceOrder ev.orderNo ev.qty b.table.tracked
      Kept b.table.tracked orders ∧ Kept orders (reduceOrder ev.orderNo2 ev.qty orders)
    else Kept b.table.tracked (changeOrders ev b.table.tracked)

section Book

variable {b b' : OrderBook} {ev : MarketEvent} {fuel : Nat} {result : BookResult}
  {orders : List OrderRecord} {r r' : OrderRecord}

theorem OrderEvent.isOrderEvent (event : b.OrderEvent ev) : ev.isOrderEvent := by
  rcases event with ⟨type, _⟩ | ⟨type, _⟩ | type | ⟨type, _⟩
  · exact .inl type
  · exact .inr (.inl type)
  · exact .inr (.inr (.inl type))
  · exact .inr (.inr (.inr type))

private theorem Deep.place {table : OrderTable} (deep : b.Deep) (tableOk : table.Ok)
    (grid : b.tickOk r.price = true) (perm : table.tracked.Perm (r :: b.table.tracked))
    (measured : Measured table.tracked) :
    ({ b with table := table }.addQty r.side r.price r.qty).Deep := by
  refine ⟨by rwa [addQty_table], ?_, by rwa [addQty_table]⟩
  intro side
  rw [addQty_tickSize, addQty_table, addQty_levels, levels_table]
  refine Displays.perm ?_ perm.symm
  split_ifs with here
  · subst here
    exact (deep.displays _).add ((b.tickOk_iff r.price).mp grid)
      ((measured.perm perm).sums r.side r.price)
  · exact (deep.displays side).congr fun price => (aggregate_cons_other (Ne.symm here) price).symm

/-- One order shrinks or goes; the other side does not see it. -/
private theorem Deep.shrink {table : OrderTable} {qty : Int} {drop : Bool} (deep : b.Deep)
    (tableOk : table.Ok)
    (shrinks : Shrinks r.side r.price qty drop (b.levels r.side) b.table.tracked table.tracked)
    (other : ∀ side, side ≠ r.side → ∀ price,
      aggregate side price b.table.tracked = aggregate side price table.tracked)
    (kept : Kept b.table.tracked table.tracked) :
    ({ b.removeQty r.side r.price qty drop with table := table } : OrderBook).Deep := by
  refine ⟨tableOk, ?_, kept.toMeasured⟩
  intro side
  rw [levels_table, removeQty_tickSize, removeQty_levels]
  split_ifs with here
  · subst here
    refine (deep.displays _).shrink shrinks ?_
    rw [(deep.displays r.side).eq_display]
    exact kept.refills r.side
  · exact (deep.displays side).congr (other side here)

private theorem Deep.requeue {table : OrderTable} (deep : b.Deep) (tableOk : table.Ok)
    (before : b.table.tracked.Perm (r :: orders)) (after : table.tracked.Perm (r' :: orders))
    (grid : b.tickOk r'.price = true) (side : r'.side = r.side)
    (kept : Kept b.table.tracked table.tracked) :
    ({ b.removeQty r.side r.price r.qty true with table := table }.addQty
      r.side r'.price r'.qty).Deep := by
  refine ⟨by rwa [addQty_table], ?_, by rw [addQty_table]; exact kept.toMeasured⟩
  intro s
  rw [requeue_tickSize, addQty_table, addQty_levels, levels_table, removeQty_levels]
  refine Displays.perm ?_ after.symm
  have displays := (deep.displays s).perm before
  split_ifs with here
  · subst here
    have refills := kept.refills r.side
    rw [← (deep.displays r.side).eq_display] at refills
    exact displays.requeue side ((b.tickOk_iff r'.price).mp grid)
      (shrinks_remove (deep.measured.perm before) displays.prices)
      ((kept.toMeasured.perm after).sums r'.side r'.price) (refills.perm before after)
  · refine displays.congr fun price => ?_
    rw [aggregate_cons_other (Ne.symm here), aggregate_cons_other (side ▸ Ne.symm here)]

theorem Change.deep (change : Change ev b b') (deep : b.Deep) (event : b.OrderEvent ev)
    (kept : Kept b.table.tracked b'.table.tracked) : b'.Deep := by
  cases change with
  | idle => exact deep
  -- a snapshot is not an order event
  | seed type => simp [OrderEvent, type] at event
  | place table type grid absent stored =>
    obtain ⟨tableOk, perm⟩ := deep.table.insertOrder_new stored absent
    rw [addQty_table] at kept
    exact deep.place tableOk grid perm kept.toMeasured
  -- an add brings a number that is not tracked
  | overwrite i type grid found => simp [OrderEvent, type, found] at event
  | requeue i type grid found =>
    obtain ⟨_, _, _, before⟩ := deep.table.findOrder_some found
    obtain ⟨tableOk, _, after⟩ := deep.table.updateRecord found ev.price ev.qty
    rw [addQty_table] at kept
    -- the two records come from the permutations, not from the goal
    have requeued := deep.requeue tableOk before after grid rfl kept
    exact requeued
  | withdraw orderNo i fuel table type found erased =>
    obtain ⟨tableOk, _, cases⟩ := deep.table.eraseOrder_cases erased
    rcases cases with ⟨absent, _⟩ | ⟨j, found', _, perm⟩
    · rw [absent] at found
      cases found
    rw [found] at found'
    cases found'
    have shrinks := shrinks_remove (deep.measured.perm perm) ((deep.displays _).perm perm).prices
    refine deep.shrink tableOk (shrinks.perm perm (.refl _)) (fun side other price => ?_) kept
    rw [aggregate_perm perm, aggregate_cons_other (Ne.symm other)]
  | reduce orderNo i type found partly =>
    have fits : FitsI32 ev.qty := by simpa [OrderEvent, type] using event
    obtain ⟨_, _, _, before⟩ := deep.table.findOrder_some found
    obtain ⟨tableOk, _, after⟩ := deep.table.updateRecord found (b.table.record i).price
      (i32 ((b.table.record i).qty - ev.qty))
    have shrinks := shrinks_reduce (deep.measured.perm before) (kept.toMeasured.perm after)
      ((deep.displays _).perm before).prices ⟨rfl, rfl⟩ rfl fits partly
    refine deep.shrink tableOk (shrinks.perm before after) (fun side other price => ?_) kept
    rw [aggregate_perm before, aggregate_perm after, aggregate_cons_other (Ne.symm other)]
    symm
    apply aggregate_cons_other
    exact Ne.symm other

private theorem Deep.trackSeq (deep : b.Deep) (ev : MarketEvent) : (b.trackSeq ev).2.Deep := by
  simp only [OrderBook.trackSeq]
  split_ifs
  · exact ⟨deep.table, deep.displays, deep.measured⟩
  · exact ⟨deep.table, deep.displays, deep.measured⟩
  · exact deep

theorem applyEvent_deep (deep : b.Deep) (free : ¬ b.table.Full) (event : b.OrderEvent ev)
    (returned : b.applyEvent fuel ev = some (result, b')) (covered : b.Covered ev) : b'.Deep := by
  by_cases takes : b.Takes ev
  · replace covered := covered takes
    -- the sequence check leaves orders and levels alone
    have tracked : (b.trackSeq ev).2.OrderEvent ev := by
      rw [OrderEvent, trackSeq_table]
      exact event
    have table := deep.table
    rw [← trackSeq_table b ev] at covered table
    by_cases type : ev.msgType = some .trade
    · rw [if_pos type] at covered
      have fits : FitsI32 ev.qty := by simpa [OrderEvent, type] using event
      rcases applyEvent_trade_cases type returned with rfl | ⟨hit, m, hit', first, second⟩
      · exact deep.trackSeq ev
      · obtain ⟨ok, perm⟩ := reduceResting_tracked table first
        have perm' := (reduceResting_tracked ok second).2.trans (reduceOrder_perm perm)
        have middle := (reduceResting_change type first).deep (deep.trackSeq ev) tracked
          (covered.1.perm (.refl _) perm.symm)
        exact (reduceResting_change type second).deep middle (.inr (.inr (.inr ⟨type, fits⟩)))
          (covered.2.perm perm.symm perm'.symm)
    · rw [if_neg type] at covered
      have absent (add : ev.msgType = some .orderAdd) : b.table.findOrder ev.orderNo = none := by
        have named : b.table.findOrder ev.orderNo = none ∧ 0 < ev.qty := by
          simpa [OrderEvent, add] using event
        exact named.1
      have perm := takes.tracked deep.table free absent event.isOrderEvent.ne_snapQuote type returned
      rw [← trackSeq_table b ev] at perm
      obtain ⟨m, first, _, rfl | trade⟩ := applyEvent_changes deep.table returned
      · exact first.deep (deep.trackSeq ev) tracked (covered.perm (.refl _) perm.symm)
      · exact absurd trade type
  · obtain ⟨answer, dropped⟩ := applyEvent_refused event.isOrderEvent takes fuel
    rw [returned] at dropped
    cases dropped
    exact deep.trackSeq ev

end Book

/-! ### Runs -/

/-- Books reached from a fresh one by order events that meet the guard, with a free slot in
the order table at all times. -/
inductive DepthRun (guard : OrderBook → MarketEvent → Prop) (token : Nat)
    (tickSize : Int) (capacity : Nat) : OrderBook → Prop
  | fresh : DepthRun guard token tickSize capacity (new token tickSize capacity)
  | event {b b' : OrderBook} {result : BookResult} (fuel : Nat) (ev : MarketEvent) :
      DepthRun guard token tickSize capacity b → b.OrderEvent ev →
      guard b ev → b.applyEvent fuel ev = some (result, b') → ¬ b'.table.Full →
      DepthRun guard token tickSize capacity b'

section Runs

variable {guard : OrderBook → MarketEvent → Prop} {token capacity : Nat}
  {tickSize : Int} {b b' : OrderBook}

private theorem new_deep (token : Nat) (tickSize : Int) (capacity : Nat) :
    (new token tickSize capacity).Deep := by
  have none : (new token tickSize capacity).table.tracked = [] := OrderTable.tracked_new capacity
  refine ⟨OrderTable.new_ok capacity, ?_, ?_⟩
  · intro side
    have empty : (new token tickSize capacity).levels side = [] := by cases side <;> rfl
    have ok := (new_ok token tickSize capacity).side side
    rw [empty] at ok
    rw [none, empty]
    exact .ofLeads ok (by simp) ⟨⟨List.Pairwise.nil, by simp, by simp⟩, by simp, by simp [livePrices]⟩
  · rw [none]
    exact ⟨by simp, fun _ _ _ => (by decide : FitsI32 0)⟩

theorem new_not_full (token : Nat) (tickSize : Int) (capacity : Nat) :
    ¬ (new token tickSize capacity).table.Full := by
  intro full
  have size := (OrderTable.new_ok capacity).full_iff.mp full
  rw [OrderTable.tracked_new] at size
  simp at size

theorem DepthRun.not_full (run : DepthRun guard token tickSize capacity b) : ¬ b.table.Full := by
  cases run with
  | fresh => exact new_not_full token tickSize capacity
  | event _ _ _ _ _ _ free => exact free

theorem DepthRun.reachable (run : DepthRun guard token tickSize capacity b) :
    Reachable token tickSize capacity b := by
  induction run with
  | fresh => exact .fresh
  | event fuel ev _ _ _ returned _ ih => exact ih.event fuel ev returned

theorem DepthRun.deep (run : DepthRun Covered token tickSize capacity b) : b.Deep := by
  induction run with
  | fresh => exact new_deep token tickSize capacity
  | event fuel ev run event covered returned _ ih =>
    exact applyEvent_deep ih run.not_full event returned covered

/-- In every run whose events vacate no displayed price while others are hidden, and overflow no
sum at a displayed price, both sides display at all times the best 256 of their live prices, all of
them if there are no more, with the sums and numbers of the tracked orders; and the next event
returns. -/
theorem covered_run_displays_best (token capacity : Nat) (tickSize : Int) (b : OrderBook)
    (run : DepthRun Covered token tickSize capacity b) :
    (∀ side, b.levels side = display side b.table.tracked ∧
      (b.levels side).length = min 256 (livePrices side b.table.tracked).card) ∧
    ∀ ev, ∃ fuel result b', b.applyEvent fuel ev = some (result, b') := by
  have deep := run.deep
  refine ⟨fun side => ⟨(deep.displays side).eq_display, ?_⟩, fun ev => ?_⟩
  · have length := (deep.displays side).leads.length_eq
    rwa [List.length_map] at length
  · exact (applyEvent_returns_iff deep.table ev).mpr fun stuck => run.not_full stuck.1

/-! #### Going over the cap -/

/-- The `k`-th buy order of a ladder of prices. -/
def ladderOrder (k : Nat) : OrderRecord := ⟨k + 1, k + 1, 1, kBuy, true⟩

def ladderAdd (k : Nat) : MarketEvent := { type := 65, orderNo := k + 1, price := k + 1, qty := 1 }

def ladder (n : Nat) : List OrderRecord := (List.range n).map ladderOrder

private theorem ladder_succ (n : Nat) : (ladderOrder n :: ladder n).Perm (ladder (n + 1)) := by
  rw [ladder, ladder, List.range_succ, List.map_append]
  exact (List.perm_append_singleton _ _).symm

private theorem ladder_qty (n : Nat) : ∀ r ∈ ladder n, r.qty = 1 := by
  intro r member
  obtain ⟨k, _, rfl⟩ := List.mem_map.mp member
  rfl

private theorem ladder_sums (n : Nat) (small : n < 1000) (side : Side) (price : Int) :
    FitsI32 (totalAt side price (ladder n)) := by
  have ones : (ladder n).map OrderRecord.qty = List.replicate n 1 := by
    rw [ladder, List.map_map]
    exact List.eq_replicate_iff.mpr ⟨by simp, by simp [ladderOrder]⟩
  refine fits_of_sum (fun r member => ?_) ?_
  · rw [ladder_qty n r member]
    decide
  · rw [ones, List.sum_replicate]
    simp only [nsmul_eq_mul, mul_one]
    omega

private theorem ladder_live (n : Nat) :
    livePrices kBuy (ladder n) = ((List.range n).map fun k : Nat => (k + 1 : Int)).toFinset := by
  have bids : (ladder n).filter (fun r => r.side = kBuy) = ladder n := by
    rw [List.filter_eq_self]
    intro r member
    obtain ⟨k, _, rfl⟩ := List.mem_map.mp member
    rfl
  rw [livePrices, bids, ladder, List.map_map]
  rfl

private theorem mem_ladder_live {n : Nat} {price : Int} :
    price ∈ livePrices kBuy (ladder n) ↔ 1 ≤ price ∧ price ≤ n := by
  rw [ladder_live, List.mem_toFinset, List.mem_map]
  constructor
  · rintro ⟨k, below, rfl⟩
    rw [List.mem_range] at below
    omega
  · rintro ⟨low, high⟩
    exact ⟨(price - 1).toNat, List.mem_range.mpr (by omega), by omega⟩

private theorem ladder_card (n : Nat) : (livePrices kBuy (ladder n)).card = n := by
  have distinct : ((List.range n).map fun k : Nat => (k + 1 : Int)).Nodup :=
    List.nodup_range.map fun i j same => by omega
  rw [ladder_live, List.toFinset_card_of_nodup distinct, List.length_map, List.length_range]

private theorem ladder_absent {n : Nat} (ok : b.table.Ok) (perm : b.table.tracked.Perm (ladder n)) :
    b.table.findOrder (ladderOrder n).orderNo = none := by
  rw [ok.findOrder_none_iff]
  intro r member same
  obtain ⟨k, below, rfl⟩ := List.mem_map.mp (perm.mem_iff.mp member)
  rw [List.mem_range] at below
  simp only [ladderOrder] at same
  omega

private theorem applyEvent_ladderAdd {table : OrderTable} (live : b.stale = false)
    (tick : b.tickSize = 1) (k : Nat) (stored : b.table.insertOrder (ladderOrder k) = (true, table)) :
    b.applyEvent 0 (ladderAdd k) =
      some (.ok, { b with table := table }.addQty kBuy (k + 1) 1) := by
  have type : (ladderAdd k).msgType = some .orderAdd := by rfl
  have unnumbered : (ladderAdd k).seqNo = 0 := rfl
  have stored' : b.table.insertOrder ⟨k + 1, k + 1, 1, kBuy, true⟩ = (true, table) := stored
  have seen : b.applyEvent 0 (ladderAdd k) = some (b.applyAdd (ladderAdd k)) := by
    simp [applyEvent, trackSeq, type, unnumbered, live]
  rw [seen]
  simp [applyAdd, tickOk, tick, ladderAdd, stored']

/-- Adding an order vacates nothing. -/
private theorem kept_ladder {n : Nat} (small : n < 999) (perm : b.table.tracked.Perm (ladder n)) :
    Kept b.table.tracked (changeOrders (ladderAdd n) b.table.tracked) := by
  have after : (ladder (n + 1)).Perm (changeOrders (ladderAdd n) b.table.tracked) :=
    (ladder_succ n).symm.trans (perm.cons _).symm
  refine ⟨Measured.perm ⟨fun r member _ => ?_, fun side price _ => ?_⟩ after, ?_⟩
  · rw [ladder_qty (n + 1) r member]
    decide
  · exact ladder_sums (n + 1) (by omega) side price
  · intro side price shown gone
    rw [display_prices] at shown
    have live := live_of_shown shown
    rw [mem_livePrices, restingAt_ne_nil_iff] at live gone
    obtain ⟨r, tracked, here⟩ := live
    exact absurd ⟨r, List.mem_cons_of_mem _ tracked, here⟩ gone

/-- Up to 511 ladder orders go onto a book with 512 slots. -/
theorem ladder_run (n : Nat) (small : n < 512) :
    ∃ b, DepthRun Covered 7 1 512 b ∧ b.table.tracked.Perm (ladder n) ∧ b.table.mask = 511 ∧
      b.tickSize = 1 ∧ b.stale = false := by
  induction n with
  | zero =>
    refine ⟨_, .fresh, ?_, by decide +kernel, rfl, rfl⟩
    rw [new, OrderTable.tracked_new]
    rfl
  | succ n ih =>
    obtain ⟨b, run, perm, mask, tick, live⟩ := ih (by omega)
    have deep := run.deep
    have absent := ladder_absent deep.table perm
    rcases deep.table.insertOrder_cases (ladderOrder n) with
      ⟨table, stored, tableOk, mask', _, _, perm'⟩ | ⟨i, found, _⟩ | ⟨_, full, _⟩
    · have returned := applyEvent_ladderAdd live tick n stored
      have perm'' : ({ b with table := table }.addQty kBuy (n + 1) 1).table.tracked.Perm
          (ladder (n + 1)) := by
        rw [addQty_table]
        exact perm'.trans ((perm.cons _).trans (ladder_succ n))
      have free : ¬ ({ b with table := table }.addQty kBuy (n + 1) 1).table.Full := by
        rw [addQty_table] at perm'' ⊢
        rw [tableOk.full_iff, perm''.length_eq, mask', mask]
        simp only [ladder, List.length_map, List.length_range]
        omega
      have covered : b.Covered (ladderAdd n) := by
        intro _
        rw [if_neg (show (ladderAdd n).msgType ≠ some .trade by
          rw [show (ladderAdd n).msgType = some .orderAdd from rfl]
          decide)]
        exact kept_ladder (by omega) perm
      refine ⟨_, run.event 0 (ladderAdd n) (.inl ⟨rfl, absent, Int.one_pos⟩) covered returned free,
        perm'', ?_, ?_, ?_⟩
      · rw [addQty_table, mask', mask]
      · rw [addQty_tickSize, tick]
      · exact live
    · rw [absent] at found
      cases found
    · exact absurd full run.not_full

/-- With 257 live prices the 256 best are displayed. -/
theorem covered_run_displays_best_ladder :
    ∃ b, DepthRun Covered 7 1 512 b ∧ (livePrices kBuy b.table.tracked).card = 257 ∧
      b.bids = display kBuy b.table.tracked ∧ b.bids.length = 256 := by
  obtain ⟨b, run, perm, _⟩ := ladder_run 257 (by decide)
  have live : (livePrices kBuy b.table.tracked).card = 257 := by
    rw [livePrices_perm perm, ladder_card]
  have best := (covered_run_displays_best 7 512 1 b run).1 kBuy
  rw [live] at best
  exact ⟨b, run, live, best⟩

theorem DepthRun.mono {guard' : OrderBook → MarketEvent → Prop}
    (run : DepthRun guard token tickSize capacity b) (weaker : ∀ b ev, guard b ev → guard' b ev) :
    DepthRun guard' token tickSize capacity b := by
  induction run with
  | fresh => exact .fresh
  | event fuel ev _ event guarded returned free ih =>
    exact ih.event fuel ev event (weaker _ _ guarded) returned free

/-- The best price of a full ladder is displayed, the worst one is not. -/
theorem ladder_shown (displays : Displays 1 kBuy (b.levels kBuy) (ladder 257)) :
    257 ∈ (b.levels kBuy).map PriceLevel.price ∧ hiddenPrices kBuy (b.levels kBuy) (ladder 257) ≠ ∅ := by
  have length : (b.levels kBuy).length = 256 := by
    have least := displays.leads.length_eq
    rw [ladder_card, List.length_map] at least
    exact least.trans (by decide)
  constructor
  · by_contra hidden
    have live : 257 ∈ livePrices kBuy (ladder 257) := by simp [mem_ladder_live]
    obtain ⟨l, listed⟩ := List.exists_mem_of_length_pos (l := b.levels kBuy) (by omega)
    have better := displays.heads.behind 257 live hidden l.price (List.mem_map_of_mem listed)
    have low := live_of_right displays.right l.price (List.mem_map_of_mem listed)
    rw [mem_ladder_live] at low
    simp only [Better, sortsBefore, if_true, decide_eq_true_eq] at better
    omega
  · intro none
    have all : livePrices kBuy (ladder 257) ⊆ ((b.levels kBuy).map PriceLevel.price).toFinset := by
      intro price live
      by_contra hidden
      have member : price ∈ hiddenPrices kBuy (b.levels kBuy) (ladder 257) :=
        mem_hiddenPrices.mpr ⟨live, by simpa using hidden⟩
      simp [none] at member
    have most := (Finset.card_le_card all).trans (List.toFinset_card_le _)
    rw [ladder_card, List.length_map, length] at most
    omega

/-- The table finds the order at the best price of a full ladder. -/
private theorem ladder_found (ok : b.table.Ok) (perm : b.table.tracked.Perm (ladder 257)) :
    ∃ i, b.table.findOrder 257 = some i ∧ b.table.record i = ladderOrder 256 := by
  have present : b.table.findOrder 257 ≠ none := by
    rw [Ne, ok.findOrder_none_iff]
    intro absent
    have member : ladderOrder 256 ∈ ladder 257 := List.mem_map_of_mem (List.mem_range.mpr (by decide))
    exact absent _ (perm.mem_iff.mpr member) rfl
  obtain ⟨i, found⟩ := Option.ne_none_iff_exists'.mp present
  obtain ⟨_, number, _, before⟩ := ok.findOrder_some found
  obtain ⟨k, _, same⟩ := List.mem_map.mp (perm.mem_iff.mp (before.mem_iff.mpr List.mem_cons_self))
  rw [← same] at number
  have last : k = 256 := by
    simp only [ladderOrder] at number
    omega
  exact ⟨i, found, by rw [← same, last]⟩

/-- After 257 bids at different prices the best one is cancelled: the price that was pushed
out does not come back, and 255 of the 256 live prices are displayed. -/
theorem cancelled_best_not_refilled :
    ∃ b b', DepthRun (fun _ _ => True) 7 1 512 b ∧ (livePrices kBuy b.table.tracked).card = 257 ∧
      b.applyEvent 512 { type := 88, orderNo := 257 } = some (.ok, b') ∧
      DepthRun (fun _ _ => True) 7 1 512 b' ∧ (livePrices kBuy b'.table.tracked).card = 256 ∧
      b'.bids.length = 255 ∧ b'.bids ≠ display kBuy b'.table.tracked := by
  obtain ⟨b, run, perm, mask, tick, live⟩ := ladder_run 257 (by decide)
  have deep := run.deep
  have displays : Displays 1 kBuy (b.levels kBuy) (ladder 257) := tick ▸ (deep.displays kBuy).perm perm
  obtain ⟨shown, some⟩ := ladder_shown displays
  obtain ⟨i, found, order⟩ := ladder_found deep.table perm
  obtain ⟨table, erased⟩ := deep.table.eraseOrder_returns run.not_full 257 512 (by omega)
  obtain ⟨tableOk, _, ⟨absent, _⟩ | ⟨j, found', _, left⟩⟩ := deep.table.eraseOrder_cases erased
  · rw [absent] at found
    cases found
  rw [found] at found'
  cases found'
  rw [order] at left
  have rest : table.tracked.Perm (ladder 256) :=
    ((left.symm.trans perm).trans (ladder_succ 256).symm).cons_inv
  have returned : b.applyEvent 512 { type := 88, orderNo := 257 } =
      .some (.ok, { b.removeQty kBuy 257 1 true with table := table }) := by
    have type (ev : MarketEvent) (tag : ev.type = 88) : ev.msgType = .some .orderCancel := by
      rw [MarketEvent.msgType, tag]
      rfl
    simp [applyEvent, trackSeq, type, live, applyCancel, found, erased, order, ladderOrder]
  have shrinks : Shrinks kBuy 257 1 true (b.levels kBuy) (ladder 257) (ladder 256) := by
    have top := (ladder_succ 256).symm
    have measured := (deep.measured.perm perm).perm top
    exact (shrinks_remove measured (displays.perm top).prices).perm top (.refl _)
  have gone : 257 ∉ livePrices kBuy (ladder 256) := by simp [mem_ladder_live]
  have length : ({ b.removeQty kBuy 257 1 true with table := table } : OrderBook).bids.length = 255 := by
    have short := displays.vacate shrinks shown gone some
    exact Nat.succ.inj short
  have count : (livePrices kBuy table.tracked).card = 256 := by rw [livePrices_perm rest, ladder_card]
  have started : DepthRun (fun _ _ => True) 7 1 512 b := run.mono fun _ _ _ => trivial
  refine ⟨b, _, started, by rw [livePrices_perm perm, ladder_card], returned,
    started.event 512 _ (.inr (.inr (.inl rfl))) trivial returned ?_, count, length, ?_⟩
  · exact deep.table.eraseOrder_room run.not_full erased
  · intro equal
    rw [equal, display_length, count] at length
    exact absurd length (by decide)

end Runs

end OrderBook

end NseHft
