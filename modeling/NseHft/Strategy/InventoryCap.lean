import Mathlib.Algebra.Order.Group.Abs
import Mathlib.Algebra.Order.Group.Int
import NseHft.Strategy.QuoteLifecycle

/-!
# Inventory cap

The gate of an update compares whole lots of the position with the cap and then quotes a full
block: a remainder below a lot is cut off, and a block of several lots needs only room for one.
What is held stays under the cap in every run in which position and block fit under it wherever
a side is quoted anew, and a block that does not fit can be filled beyond the cap.
-/
namespace NseHft.MarketMaking

open FixedWidth

/-- The most that may be held of a token, long or short. -/
def cap (mm : MarketMaking) (token : Nat) : Int := mm.cfg.maxPositionLots * mm.lotSize token

/-- A fill of `qty` on a side leaves the position under the cap. -/
def Room (mm : MarketMaking) (token : Nat) (side : Side) (qty : Int) : Prop :=
  match side with
  | kBuy => mm.position token + qty ≤ mm.cap token
  | kSell => -mm.cap token ≤ mm.position token - qty

/-- On each side that an update quotes anew there is room for a full block. A cap beyond the range
of a position needs none. -/
def BlockFits (mm : MarketMaking) (wallClock token : Nat) (book : OrderBook) : Prop :=
  ∀ plans, mm.session .wrapping (mm.now wallClock) token book = some plans → ∀ side,
    mm.due (mm.now wallClock) token side (plans side) = true → mm.cap token < 2 ^ 31 →
      mm.Room token side (mm.quoteQty .wrapping token)

section Blocks

variable {mm : MarketMaking} {wallClock token : Nat} {book : OrderBook}

/-- The blocks of an update fit exactly if each order that it places does. -/
theorem blockFits_iff : mm.BlockFits wallClock token book ↔
    ∀ o ∈ (mm.onBookUpdate .wrapping wallClock token book).pending,
      mm.cap o.token < 2 ^ 31 → mm.Room o.token o.side o.qty := by
  constructor
  · intro fits o placed small
    obtain ⟨plans, id, chosen, due, order⟩ := onBookUpdate_planned placed
    rw [(onBookUpdate_token placed).1] at small ⊢
    rw [(onBookUpdate_ids o placed).2]
    exact fits plans chosen o.side due small
  · intro fit plans chosen side due small
    obtain ⟨o, placed, rfl, rfl, qty⟩ := onBookUpdate_places chosen due
    exact qty ▸ fit o placed small

end Blocks

namespace History

/-- What the fills of an id add up to. -/
def filled (h : History) (id : Int) : Int :=
  ((h.fills.filter fun report => report.clientOrderId = id).map FillReport.fillQty).sum

/-- Fills are for the active quote of their side, and add up to at most its quantity. -/
def QuoteFills (h : History) : Call → Prop
  | .fill report =>
    Resting h.mm report.token report.side report.clientOrderId ∧ 0 ≤ report.fillQty ∧
      ∃ o ∈ h.emitted, o.clientOrderId = report.clientOrderId ∧
        h.filled report.clientOrderId + report.fillQty ≤ o.qty
  | .cancel _ => False
  | _ => True

/-- The calls of `QuoteFills` in which, besides, the blocks of every update fit. -/
def Fitting (h : History) : Call → Prop
  | .bookUpdate wallClock token book => h.mm.BlockFits wallClock token book
  | c => h.QuoteFills c

section Runs

variable {symbols : Option SymbolMaster} {cfg : MarketMakingConfig} {h : History}

theorem QuoteFills.ownReports (c : Call) (tracks : h.Tracks) (fills : h.QuoteFills c) :
    h.OwnReports c := by
  cases c with
  | fill report =>
    obtain ⟨resting, _, o, member, named, _⟩ := fills
    exact ⟨o, member, named, (tracks.resting_token member (named ▸ resting)).1⟩
  | cancel id => exact fills.elim
  | _ => trivial

theorem Fitting.fills (c : Call) (fitting : h.Fitting c) : h.QuoteFills c := by
  cases c with
  | bookUpdate wallClock token book => trivial
  | _ => exact fitting

theorem filled_fill (report : FillReport) (id : Int) :
    (h.next .wrapping (.fill report)).filled id =
      h.filled id + if report.clientOrderId = id then report.fillQty else 0 := by
  simp only [filled, next, List.filter_append, List.map_append, List.sum_append]
  by_cases named : report.clientOrderId = id <;> simp [named]

theorem filled_bookUpdate (wallClock token : Nat) (book : OrderBook) (id : Int) :
    (h.next .wrapping (.bookUpdate wallClock token book)).filled id = h.filled id := rfl

theorem onFill_fixed (mm : MarketMaking) (report : FillReport) :
    (mm.onFill .wrapping report).cfg = mm.cfg ∧ (mm.onFill .wrapping report).symbols = mm.symbols ∧
      (mm.onFill .wrapping report).nextClordid = mm.nextClordid := by
  simp only [onFill]
  split <;> exact ⟨rfl, rfl, rfl⟩

theorem onFill_position (mm : MarketMaking) (report : FillReport) (t : Nat) :
    (mm.onFill .wrapping report).position t =
      if report.token < kMaxTokens ∧ t = report.token then
        i32 (mm.position t + if report.side = kBuy then report.fillQty else -report.fillQty)
      else mm.position t := by
  simp only [onFill, Arithmetic.wrapping]
  split
  next outside => rw [if_neg (fun here => Nat.not_le.mpr here.1 outside)]
  next inside =>
    dsimp only
    by_cases here : t = report.token
    · subst here
      simp only [Function.update_self, Nat.lt_of_not_le inside, true_and, if_true]
      split
      · rfl
      · exact i32_add_i32 _ _
    · rw [Function.update_of_ne here, if_neg (fun both => here both.2)]

/-- What holds in every run, whether or not the cap is kept. -/
structure Booked (symbols : Option SymbolMaster) (cfg : MarketMakingConfig) (h : History) :
    Prop where
  tracks : h.Tracks
  cfg_eq : h.mm.cfg = cfg
  symbols_eq : h.mm.symbols = symbols
  reports : ∀ report ∈ h.fills, report.clientOrderId < h.mm.nextClordid
  fits : ∀ t, FitsI32 (h.mm.position t)

theorem Reachable.booked (run : Reachable .wrapping symbols cfg QuoteFills h) :
    Booked symbols cfg h := by
  have tracks := run.tracks fun _ c tracks => QuoteFills.ownReports c tracks
  induction run with
  | fresh => exact ⟨tracks, rfl, rfl, fun _ member => (List.not_mem_nil member).elim,
      fun _ => (by decide : FitsI32 0)⟩
  | @call h c earlier fills ih =>
    have old := ih (earlier.tracks fun _ c tracks => QuoteFills.ownReports c tracks)
    cases c with
    | setNow istNs => exact ⟨tracks, old.cfg_eq, old.symbols_eq, old.reports, old.fits⟩
    | bookUpdate wallClock token book =>
      obtain ⟨cfg_eq, symbols_eq, position⟩ :=
        @onBookUpdate_fixed .wrapping h.mm token wallClock book
      refine ⟨tracks, cfg_eq.trans old.cfg_eq, symbols_eq.trans old.symbols_eq, ?_, ?_⟩
      · intro report member
        exact Int.lt_of_lt_of_le (old.reports report member) onBookUpdate_nextClordid
      · intro t
        rw [next, position]
        exact old.fits t
    | fill report =>
      obtain ⟨cfg_eq, symbols_eq, counter⟩ := onFill_fixed h.mm report
      refine ⟨tracks, cfg_eq.trans old.cfg_eq, symbols_eq.trans old.symbols_eq, ?_, ?_⟩
      · obtain ⟨_, _, o, member, named, _⟩ := fills
        simp only [next, counter, List.forall_mem_append, List.forall_mem_singleton]
        exact ⟨old.reports, named ▸ old.tracks.below o member⟩
      · intro t
        rw [next, onFill_position]
        split
        · exact i32_fits _
        · exact old.fits t
    | cancel id => exact fills.elim

/-- The position and every resting quote, with what is left of it, are under the cap. -/
structure UnderCap (h : History) : Prop where
  within : ∀ t, h.mm.cap t < 2 ^ 31 → -h.mm.cap t ≤ h.mm.position t ∧ h.mm.position t ≤ h.mm.cap t
  room : ∀ o ∈ h.emitted, Resting h.mm o.token o.side o.clientOrderId → h.mm.cap o.token < 2 ^ 31 →
    h.mm.Room o.token o.side (o.qty - h.filled o.clientOrderId)

theorem cap_congr {mm mm' : MarketMaking} (cfg_eq : mm'.cfg = mm.cfg)
    (symbols_eq : mm'.symbols = mm.symbols) (t : Nat) : mm'.cap t = mm.cap t := by
  simp only [cap, lotSize, cfg_eq, symbols_eq]

theorem filled_fresh {id : Int} (booked : Booked symbols cfg h) (fresh : h.mm.nextClordid ≤ id) :
    h.filled id = 0 := by
  have none : h.fills.filter (fun report => report.clientOrderId = id) = [] := by
    rw [List.filter_eq_nil_iff]
    intro report member
    have := booked.reports report member
    simp only [decide_eq_true_eq]
    omega
  rw [filled, none, List.map_nil, List.sum_nil]

theorem bookUpdate_underCap {wallClock token : Nat} {book : OrderBook}
    (booked : Booked symbols cfg h) (under : h.UnderCap)
    (fits : h.mm.BlockFits wallClock token book) :
    (h.next .wrapping (.bookUpdate wallClock token book)).UnderCap := by
  obtain ⟨cfg_eq, symbols_eq, position⟩ := @onBookUpdate_fixed .wrapping h.mm token wallClock book
  have cap := cap_congr cfg_eq symbols_eq
  have room (t : Nat) (side : Side) (qty : Int) :
      Room (h.mm.onBookUpdate .wrapping wallClock token book) t side qty ↔
        h.mm.Room t side qty := by
    simp only [Room, position, cap]
  constructor
  · intro t
    simp only [next, cap, position]
    exact under.within t
  · intro o member resting
    rw [filled_bookUpdate]
    simp only [next, cap] at member resting ⊢
    rw [room]
    rcases List.mem_append.mp member with old | new
    · -- the id of an older order can only rest if it rested before
      have before := booked.tracks.below o old
      refine under.room o old ?_
      rcases @onBookUpdate_quote .wrapping h.mm token wallClock book o.token o.side with
        ⟨placed, listed, _, _, _, quote, _⟩ | ⟨_, quote⟩
      · rw [Resting, quote] at resting
        have later := (onBookUpdate_ids placed listed).1.1
        have same : placed.clientOrderId = o.clientOrderId := resting.2
        omega
      · rw [Resting, quote] at resting
        exact ⟨(Bool.and_eq_true_iff.mp resting.1).1, resting.2⟩
    · -- a new order has its full block, for which there is room
      intro small
      have unfilled : h.filled o.clientOrderId = 0 :=
        filled_fresh booked (onBookUpdate_ids o new).1.1
      rw [unfilled, Int.sub_zero]
      exact blockFits_iff.mp fits o new small

theorem fill_underCap {report : FillReport} (booked : Booked symbols cfg h) (under : h.UnderCap)
    (fills : h.QuoteFills (.fill report)) :
    (h.next .wrapping (.fill report)).UnderCap := by
  obtain ⟨resting, nonneg, o, member, named, enough⟩ := fills
  obtain ⟨cfg_eq, symbols_eq, _⟩ := onFill_fixed h.mm report
  have cap := cap_congr cfg_eq symbols_eq
  rw [← named] at resting enough
  obtain ⟨token, side⟩ := booked.tracks.resting_token member resting
  have listed : report.token < kMaxTokens := token ▸ booked.tracks.listed o member
  have position := onFill_position h.mm report
  simp only [listed, true_and] at position
  have filled := @filled_fill h report
  have bounds (small : h.mm.cap report.token < 2 ^ 31) := under.within report.token small
  have space (small : h.mm.cap report.token < 2 ^ 31) :=
    under.room o member (token ▸ side ▸ resting) (token ▸ small)
  simp only [Room, side, token] at space
  -- the fill takes a part of the room that the quote has, so the sum does not wrap
  have moved (small : h.mm.cap report.token < 2 ^ 31) :
      (h.mm.onFill .wrapping report).position report.token = h.mm.position report.token +
        if report.side = kBuy then report.fillQty else -report.fillQty := by
    have := bounds small
    have := space small
    rw [position, if_pos rfl, i32_eq_self]
    cases bought : report.side <;> simp only [bought] at this <;> simp [FitsI32] <;> omega
  constructor
  · intro t
    simp only [next, cap]
    intro small
    by_cases here : t = report.token
    · subst here
      have := bounds small
      have := space small
      rw [moved small]
      cases bought : report.side <;> simp only [bought] at this <;> simp <;> omega
    · rw [position, if_neg here]
      exact under.within t small
  · intro o' member' resting' small
    rw [filled]
    simp only [next, cap] at member' resting' small ⊢
    have before : Resting h.mm o'.token o'.side o'.clientOrderId := by
      rw [Resting, onFill_side] at resting'
      split at resting'
      · cases resting'.1
      · exact resting'
    have room := under.room o' member' before small
    by_cases same : o'.clientOrderId = o.clientOrderId
    · -- the quote that is filled
      obtain rfl := List.inj_on_of_nodup_map booked.tracks.nodup member' member same
      rw [token] at small
      simp only [Room, side, token, cap, moved small, named, if_true] at room ⊢
      cases bought : report.side <;> simp only [bought] at room <;> simp <;> omega
    · have other : report.clientOrderId ≠ o'.clientOrderId := fun equal => same (equal.symm.trans named.symm)
      by_cases here : o'.token = report.token
      · -- the quote of the other side gains room
        have opposite : o'.side ≠ report.side := fun equal => same <| by
          rw [here, equal] at before
          exact before.2.symm.trans resting.2
        rw [here] at small
        simp only [Room, here, cap, moved small, other, if_false] at room ⊢
        cases sold : o'.side <;> cases bought : report.side <;> simp_all <;> omega
      · simp only [Room, cap, position, if_neg here, other, if_false, Int.add_zero] at room ⊢
        exact room

theorem lotSize_pos (mm : MarketMaking) (token : Nat) : 0 < mm.lotSize token := by
  simp only [lotSize]
  split_ifs with positive
  · exact positive
  · exact Int.one_pos

theorem Reachable.fills (run : Reachable .wrapping symbols cfg Fitting h) :
    Reachable .wrapping symbols cfg QuoteFills h := by
  induction run with
  | fresh => exact .fresh
  | call c _ allowed ih => exact ih.call c (Fitting.fills c allowed)

theorem Reachable.underCap (lots : 0 ≤ cfg.maxPositionLots)
    (run : Reachable .wrapping symbols cfg Fitting h) : h.UnderCap := by
  induction run with
  | fresh =>
    refine ⟨fun t _ => ?_, fun o member => (List.not_mem_nil member).elim⟩
    have cap : 0 ≤ MarketMaking.cap { symbols := symbols, cfg := cfg } t :=
      Int.mul_nonneg lots (Int.le_of_lt (lotSize_pos _ t))
    exact ⟨Int.neg_nonpos_of_nonneg cap, cap⟩
  | @call h c earlier allowed ih =>
    cases c with
    | setNow istNs => exact ⟨ih.within, ih.room⟩
    | bookUpdate wallClock token book => exact bookUpdate_underCap earlier.fills.booked ih allowed
    | fill report => exact fill_underCap earlier.fills.booked ih allowed
    | cancel id => exact allowed.elim

theorem Reachable.capped (lots : 0 ≤ cfg.maxPositionLots)
    (run : Reachable .wrapping symbols cfg Fitting h) (token : Nat) :
    |h.mm.position token| ≤ h.mm.cap token := by
  have under := run.underCap lots
  have fits := run.fills.booked.fits token
  rw [abs_le]
  by_cases small : h.mm.cap token < 2 ^ 31
  · exact under.within token small
  · -- no position gets as far as such a cap
    simp only [FitsI32] at fits
    omega

/-- One more than a cap that is representable is not under it, even after a wrap-around. -/
theorem beyond_cap {c : Int} (nonneg : 0 ≤ c) (small : c < 2 ^ 31) :
    ¬|i32 (c + 1)| ≤ c ∧ ¬|i32 (-(c + 1))| ≤ c := by
  rw [i32_eq_self (-(c + 1)) (by simp only [FitsI32]; omega), abs_le, abs_le]
  refine ⟨?_, by omega⟩
  by_cases last : c + 1 = 2 ^ 31
  · rw [last]
    simp [i32, Int.bmod]
    omega
  · rw [i32_eq_self (c + 1) (by simp only [FitsI32]; omega)]
    omega

/-- An order that does not fit under the cap can be filled beyond it. -/
theorem overfill {wallClock token : Nat} {book : OrderBook} {o : Order}
    (booked : Booked symbols cfg h)
    (placed : o ∈ (h.mm.onBookUpdate .wrapping wallClock token book).pending)
    (within : |h.mm.position o.token| ≤ h.mm.cap o.token) (small : h.mm.cap o.token < 2 ^ 31)
    (tight : ¬h.mm.Room o.token o.side o.qty) :
    ∃ report, (h.next .wrapping (.bookUpdate wallClock token book)).QuoteFills (.fill report) ∧
      ¬|((h.next .wrapping (.bookUpdate wallClock token book)).next .wrapping
        (.fill report)).mm.position o.token| ≤ h.mm.cap o.token := by
  -- the quantity that leads one unit beyond the cap
  let excess := h.mm.cap o.token + 1 -
    if o.side = kBuy then h.mm.position o.token else -h.mm.position o.token
  let report : FillReport :=
    { clientOrderId := o.clientOrderId, token := o.token, side := o.side, fillQty := excess }
  have range := abs_le.mp within
  have possible : QuoteFills (h.next .wrapping (.bookUpdate wallClock token book)) (.fill report) := by
    refine ⟨onBookUpdate_quoted placed, ?_, o, List.mem_append_right _ placed, rfl, ?_⟩
    · simp only [report, excess]
      split_ifs <;> omega
    · -- there is no room for the whole order, so the excess is a part of it
      rw [filled_bookUpdate, filled_fresh booked (onBookUpdate_ids o placed).1.1]
      simp only [report, excess]
      cases side : o.side <;> simp only [side, Room] at tight <;> simp <;> omega
  refine ⟨report, possible, ?_⟩
  obtain ⟨_, _, position⟩ := @onBookUpdate_fixed .wrapping h.mm token wallClock book
  have listed : o.token < kMaxTokens := by
    obtain ⟨same, inside⟩ := onBookUpdate_token placed
    rwa [same]
  have reached : (h.mm.position o.token + if o.side = kBuy then excess else -excess) =
      if o.side = kBuy then h.mm.cap o.token + 1 else -(h.mm.cap o.token + 1) := by
    simp only [excess]
    split_ifs <;> omega
  have beyond := beyond_cap (Int.le_trans (abs_nonneg _) within) small
  simp only [next]
  rw [onFill_position, if_pos ⟨listed, rfl⟩, position, reached]
  split
  · exact beyond.1
  · exact beyond.2

/-- Single units: without reference data and with the default configuration, a position of
whole lots is a position, and one unit fits wherever the gate lets a side quote. -/
theorem single_unit_fits {wallClock token : Nat} {book : OrderBook} (booked : Booked none {} h) :
    h.mm.BlockFits wallClock token book := by
  intro plans chosen side due _
  have lot : h.mm.lotSize token = 1 := by
    rw [lotSize, booked.symbols_eq]
    rfl
  have cap : h.mm.cap token = 10 := by
    rw [MarketMaking.cap, lot, booked.cfg_eq]
    rfl
  have qty : h.mm.quoteQty .wrapping token = 1 := by
    rw [quoteQty, lot, booked.cfg_eq]
    rfl
  obtain ⟨_, _, long, short⟩ := session_allowed chosen (allowed_of_due due)
  rw [booked.cfg_eq, lot, Int.tdiv_one] at long short
  cases side with
  | true =>
    have : h.mm.position token < 10 := long rfl
    rw [Room, cap, qty]
    omega
  | false =>
    have : -10 < h.mm.position token := short rfl
    rw [Room, cap, qty]
    omega

theorem Reachable.single_units (run : Reachable .wrapping none {} QuoteFills h) :
    Reachable .wrapping none {} Fitting h := by
  induction run with
  | fresh => exact .fresh
  | call c earlier fills ih =>
    refine ih.call c ?_
    cases c with
    | bookUpdate wallClock token book => exact single_unit_fits earlier.booked
    | _ => exact fills

end Runs

/-- As long as every update finds room for a full block on each side that it quotes anew, no token
is held beyond the cap; the first update without this room may be followed by a fill of its quote
that leads beyond. -/
theorem capped_while_blocks_fit (symbols : Option SymbolMaster) (cfg : MarketMakingConfig)
    (block : 1 ≤ cfg.quoteLots) (lots : cfg.quoteLots ≤ cfg.maxPositionLots) (h : History)
    (run : Reachable .wrapping symbols cfg Fitting h) :
    (∀ token, |h.mm.position token| ≤ h.mm.cap token) ∧
    ∀ wallClock token book, ¬h.mm.BlockFits wallClock token book →
      ∃ report, (h.next .wrapping (.bookUpdate wallClock token book)).QuoteFills (.fill report) ∧
        ¬|((h.next .wrapping (.bookUpdate wallClock token book)).next .wrapping
          (.fill report)).mm.position token| ≤ h.mm.cap token := by
  have capped := run.capped (Int.le_trans (by omega) lots)
  refine ⟨capped, ?_⟩
  intro wallClock token book tight
  simp only [blockFits_iff, not_forall] at tight
  obtain ⟨o, placed, small, tight⟩ := tight
  obtain rfl := (onBookUpdate_token placed).1
  exact overfill run.fills.booked placed (capped o.token) small tight

/-- In single units the gate alone keeps the cap. -/
theorem single_units_capped :
    ({} : MarketMakingConfig).quoteLots = 1 ∧
      ∀ h, Reachable .wrapping none {} QuoteFills h →
        ∀ token, |h.mm.position token| ≤ h.mm.cap token :=
  ⟨rfl, fun h run =>
    (capped_while_blocks_fit none {} (by decide) (by decide) h run.single_units).1⟩

private def lotsOfTen : Option SymbolMaster :=
  some (({} : SymbolMaster).put { token := 7, lotSize := 10, tickSize := 1 })

private def oneLotCap : MarketMakingConfig := { maxPositionLots := 1, quoteLots := 1 }

/-- Nine of the ten units bid for are filled and the market moves; nine are no lot, so a full
lot is bid for again and filled. -/
private def remainderCut : List Call :=
  [.setNow 36000000000000, .bookUpdate 0 7 (touchBook 10000),
    .fill { clientOrderId := 1, token := 7, fillPrice := 9999, fillQty := 9, remainingQty := 1 },
    .bookUpdate 0 7 (touchBook 10001),
    .fill { clientOrderId := 3, token := 7, fillPrice := 10000, fillQty := 10 }]

theorem remainder_exceeds_cap :
    1 ≤ oneLotCap.quoteLots ∧ oneLotCap.quoteLots ≤ oneLotCap.maxPositionLots ∧
      ∃ h, Reachable .wrapping lotsOfTen oneLotCap QuoteFills h ∧ h.mm.cap 7 = 10 ∧
        h.mm.position 7 = 19 := by
  refine ⟨by decide, by decide,
    remainderCut.foldl (next .wrapping) { mm := { symbols := lotsOfTen, cfg := oneLotCap } }, ?_,
    by decide +kernel, by decide +kernel⟩
  apply Reachable.call (.fill _) _ (by unfold QuoteFills Resting; decide +kernel)
  apply Reachable.call (.bookUpdate 0 7 (touchBook 10001)) _ trivial
  apply Reachable.call (.fill _) _ (by unfold QuoteFills Resting; decide +kernel)
  apply Reachable.call (.bookUpdate 0 7 (touchBook 10000)) _ trivial
  exact Reachable.call (.setNow 36000000000000) .fresh trivial

end History

end NseHft.MarketMaking
