import NseHft.Sim.QueuePosition

/-!
# One trade against both sides

A trade is matched against our bid and then, with its whole quantity again, against our ask.
What is reported of it adds up to at most the trade as long as only one of them is reached; with
crossed quotes both are.
-/
namespace NseHft

open FixedWidth

namespace SimQuote

/-- What a trade fills of a quote that it reaches. -/
def takes (q : SimQuote) (tradeQty : Int) : Int :=
  max 0 (min q.remaining (i32 (tradeQty - min q.queueAhead tradeQty)))

theorem Matched.total {q q' : SimQuote} {side : Side} {tradeQty : Int} {reports : List FillReport}
    (matched : q.Matched .wrapping side tradeQty reports q') :
    totalFilled reports = q.takes tradeQty := by
  cases matched with
  | absorbed nothing =>
    simp only [Arithmetic.wrapping] at nothing
    simp only [totalFilled, takes, List.map_nil, List.sum_nil]
    omega
  | filled fillQty tradeNo taken positive =>
    simp only [Arithmetic.wrapping] at taken
    simp only [totalFilled, takes, List.map_cons, List.map_nil, List.sum_cons, List.sum_nil]
    omega

theorem Matched.queue {A : Arithmetic} {q q' : SimQuote} {side : Side} {tradeQty : Int}
    {reports : List FillReport} (matched : q.Matched A side tradeQty reports q') :
    q'.queueAhead = A.i32 (q.queueAhead - min q.queueAhead tradeQty) := by
  cases matched <;> rfl

/-- A trade fills what is behind the queue, unless that is too large to be represented. -/
theorem takes_eq {q : SimQuote} {tradeQty : Int} (nonneg : 0 ≤ tradeQty)
    (fits : tradeQty < 2 ^ 31) (queue : -2 ^ 31 ≤ q.queueAhead) :
    q.takes tradeQty =
      if tradeQty - q.queueAhead < 2 ^ 31 then max 0 (min q.remaining (tradeQty - q.queueAhead))
      else 0 := by
  -- only a negative queue takes the difference out of the range, and then by one lap
  have residue : i32 (tradeQty - min q.queueAhead tradeQty) =
      if tradeQty - q.queueAhead < 2 ^ 31 then max 0 (tradeQty - q.queueAhead)
      else tradeQty - q.queueAhead - 2 ^ 32 := by
    simp only [i32, Int.bmod_def]
    split_ifs <;> omega
  simp only [takes, residue]
  split_ifs <;> omega

end SimQuote

namespace FillSimulator

/-- The trade counts for the quote of a side: it reaches the quote, and what the queue leaves of
it is an `int`. -/
structure Meets (sim : FillSimulator) (ev : MarketEvent) (side : Side) : Prop where
  slot : ev.token < kSimMaxTokens
  active : (sim.quote side ev.token).active = true
  reached : (sim.quote side ev.token).reachedAt side ev.price = true
  representable : ev.qty - (sim.quote side ev.token).queueAhead < 2 ^ 31

/-- The trade meets both quotes and is larger than the two queues together, each order is larger
than the queue on the other side, and the orders together are larger than the trade. -/
structure SpentTwice (sim : FillSimulator) (ev : MarketEvent) : Prop where
  bid : sim.Meets ev kBuy
  ask : sim.Meets ev kSell
  beyondQueues :
    (sim.quote kBuy ev.token).queueAhead + (sim.quote kSell ev.token).queueAhead < ev.qty
  withinOrders :
    ev.qty < (sim.quote kBuy ev.token).remaining + (sim.quote kSell ev.token).remaining
  bidBeyond : (sim.quote kSell ev.token).queueAhead < (sim.quote kBuy ev.token).remaining
  askBeyond : (sim.quote kBuy ev.token).queueAhead < (sim.quote kSell ev.token).remaining

/-- The trade meets a quote of more than its quantity whose queue has gone around to a negative
number. -/
def Stretched (sim : FillSimulator) (ev : MarketEvent) (side : Side) : Prop :=
  sim.Meets ev side ∧ (sim.quote side ev.token).queueAhead < 0 ∧
    ev.qty < (sim.quote side ev.token).remaining

variable {sim : FillSimulator} {ev : MarketEvent}

/-! ### What one event fills -/

theorem onTrade_total (sim : FillSimulator) (ev : MarketEvent) (side : Side) :
    totalFilled (sim.onTrade .wrapping ev side).1 =
      if (sim.quote side ev.token).active && (sim.quote side ev.token).reachedAt side ev.price then
        (sim.quote side ev.token).takes ev.qty
      else 0 := by
  simp only [onTrade]
  split
  next =>
    obtain ⟨q, -, matched⟩ := sim.matchAgainst_matched side ev.token ev.qty
    exact matched.total
  next => rfl

/-- Matching one side leaves the quotes of the other one alone. -/
theorem onTrade_frame (sim : FillSimulator) (ev : MarketEvent) (side side' : Side)
    (other : side' ≠ side) (token : Nat) :
    (sim.onTrade .wrapping ev side).2.quote side' token = sim.quote side' token := by
  simp only [onTrade]
  split
  next =>
    obtain ⟨q, writes, -⟩ := sim.matchAgainst_matched side ev.token ev.qty
    rw [writes, if_neg fun same => other same.1]
  next => rfl

theorem onEvent_total (trade : ev.msgType = some .trade) (slot : ev.token < kSimMaxTokens) :
    totalFilled (sim.onEvent .wrapping ev).1 =
      totalFilled (sim.onTrade .wrapping ev kBuy).1 +
        totalFilled (sim.onTrade .wrapping ev kSell).1 := by
  -- the ask is matched after the bid, but sees the quote it had before
  have frame := onTrade_frame sim ev kBuy kSell (by decide) ev.token
  have sold := onTrade_total (sim.onTrade .wrapping ev kBuy).2 ev kSell
  rw [frame, ← onTrade_total] at sold
  rw [← sold, ← totalFilled_append, onEvent, if_neg (by simp [trade]),
    if_neg (Nat.not_le.mpr slot)]

/-- What the trade fills on a side that it counts for. -/
theorem Meets.total {side : Side} (meets : sim.Meets ev side) (nonneg : 0 ≤ ev.qty)
    (fits : ev.qty < 2 ^ 31) (queue : -2 ^ 31 ≤ (sim.quote side ev.token).queueAhead) :
    totalFilled (sim.onTrade .wrapping ev side).1 =
      max 0 (min (sim.quote side ev.token).remaining
        (ev.qty - (sim.quote side ev.token).queueAhead)) := by
  rw [onTrade_total, if_pos (by simp [meets.active, meets.reached]),
    SimQuote.takes_eq nonneg fits queue, if_pos meets.representable]

theorem total_of_not_meets {side : Side} (misses : ¬ sim.Meets ev side)
    (slot : ev.token < kSimMaxTokens) (nonneg : 0 ≤ ev.qty) (fits : ev.qty < 2 ^ 31)
    (queue : -2 ^ 31 ≤ (sim.quote side ev.token).queueAhead) :
    totalFilled (sim.onTrade .wrapping ev side).1 = 0 := by
  rw [onTrade_total]
  split
  next hit =>
    rw [Bool.and_eq_true] at hit
    rw [SimQuote.takes_eq nonneg fits queue, if_neg]
    exact fun representable => misses ⟨slot, hit.1, hit.2, representable⟩
  next => rfl

/-! ### Queues over a history -/

/-- Every queue is a 32-bit number. -/
def Queued (sim : FillSimulator) : Prop :=
  ∀ side token, -2 ^ 31 ≤ (sim.quote side token).queueAhead

theorem Queued.onTrade (queued : sim.Queued) (ev : MarketEvent) (side : Side) :
    (sim.onTrade .wrapping ev side).2.Queued := by
  simp only [FillSimulator.onTrade]
  split
  next =>
    obtain ⟨q, writes, matched⟩ := sim.matchAgainst_matched side ev.token ev.qty
    apply writes.all (P := fun _ _ q => -2 ^ 31 ≤ q.queueAhead)
    · rw [matched.queue]
      exact (i32_fits _).1
    · exact fun s t _ => queued s t
  next => exact queued

theorem Queued.step (queued : sim.Queued) (call : Call) : (sim.step call).2.Queued := by
  cases call with
  | registerOrder o queueAhead =>
    simp only [FillSimulator.step, registerOrder]
    split
    · exact queued
    · apply (setQuote_writes _ _ _ _).all (P := fun _ _ q => -2 ^ 31 ≤ q.queueAhead)
      · dsimp only
        -- a negative queue is registered as zero
        split <;> omega
      · exact fun s t _ => queued s t
  | event ev =>
    simp only [FillSimulator.step, onEvent]
    split
    · exact queued
    split
    · exact queued
    · exact (queued.onTrade ev kBuy).onTrade ev kSell

theorem after_queued (calls : List Call) : (after {} calls).Queued := by
  apply Machine.after_invariant step Queued fun sim call queued => queued.step call
  intro side token
  have empty : (({} : FillSimulator).quote side token).queueAhead = 0 := by cases side <;> rfl
  rw [empty]
  decide

/-! ### The whole trade -/

/-- What is reported of a trade after any history is at most its quantity, unless it is spent
on both sides or on a queue that has gone around. -/
theorem trade_spent_once_iff (calls : List Call) (ev : MarketEvent)
    (trade : ev.msgType = some .trade) (nonneg : 0 ≤ ev.qty) (fits : FitsI32 ev.qty) :
    let sim := after {} calls
    totalFilled (sim.onEvent .wrapping ev).1 ≤ ev.qty ↔
      ¬ (sim.SpentTwice ev ∨ sim.Stretched ev kBuy ∨ sim.Stretched ev kSell) := by
  intro sim
  have queued : sim.Queued := after_queued calls
  have fits := fits.2
  by_cases slot : ev.token < kSimMaxTokens
  · rw [onEvent_total trade slot]
    have bidQueue := queued kBuy ev.token
    have askQueue := queued kSell ev.token
    by_cases bid : sim.Meets ev kBuy
    · rw [bid.total nonneg fits bidQueue]
      by_cases ask : sim.Meets ev kSell
      · rw [ask.total nonneg fits askQueue]
        have both : sim.SpentTwice ev ↔
            (sim.quote kBuy ev.token).queueAhead + (sim.quote kSell ev.token).queueAhead < ev.qty ∧
            ev.qty < (sim.quote kBuy ev.token).remaining + (sim.quote kSell ev.token).remaining ∧
            (sim.quote kSell ev.token).queueAhead < (sim.quote kBuy ev.token).remaining ∧
            (sim.quote kBuy ev.token).queueAhead < (sim.quote kSell ev.token).remaining :=
          ⟨fun twice => ⟨twice.3, twice.4, twice.5, twice.6⟩, fun ⟨q, r, b, a⟩ => ⟨bid, ask, q, r, b, a⟩⟩
        simp only [both, Stretched, bid, ask, true_and]
        omega
      · rw [total_of_not_meets ask slot nonneg fits askQueue]
        have single : ¬ sim.SpentTwice ev := fun twice => ask twice.ask
        simp only [Stretched, bid, ask, single, true_and, false_and, false_or, or_false]
        omega
    · rw [total_of_not_meets bid slot nonneg fits bidQueue]
      have single : ¬ sim.SpentTwice ev := fun twice => bid twice.bid
      by_cases ask : sim.Meets ev kSell
      · rw [ask.total nonneg fits askQueue]
        simp only [Stretched, bid, ask, single, true_and, false_and, false_or]
        omega
      · rw [total_of_not_meets ask slot nonneg fits askQueue]
        simp only [Stretched, bid, ask, single, false_and, false_or, not_false_eq_true, iff_true]
        omega
  -- a token outside the table fills nothing
  · have silent : (sim.onEvent .wrapping ev).1 = [] := by
      rw [onEvent, if_neg (by simp [trade]), if_pos (Nat.not_lt.mp slot)]
    rw [silent]
    refine iff_of_true (by simpa [totalFilled] using nonneg) ?_
    rintro (twice | stretched | stretched)
    · exact slot twice.bid.slot
    · exact slot stretched.1.slot
    · exact slot stretched.1.slot

private def registered (side : Side) (price : Int) : Call :=
  .registerOrder { side := side, token := 3, price := price, qty := 10 } 0

private def tradeAt (price qty : Int) : MarketEvent :=
  { token := 3, price := price, qty := qty, type := MtbtMsgType.trade.code }

/-- A bid below an ask: a trade at the bid is spent on it alone. -/
theorem uncrossed_trade_spent_once :
    totalFilled ((after {} [registered kBuy 100, registered kSell 102]).onEvent .wrapping (tradeAt 100 7)).1 ≤
      7 := by
  apply (trade_spent_once_iff _ (tradeAt 100 7) (by decide) (by decide) (by decide)).mpr
  rintro (twice | ⟨-, negative, -⟩ | ⟨-, negative, -⟩)
  · exact absurd twice.ask.reached (by decide)
  · exact absurd negative (by decide)
  · exact absurd negative (by decide)

/-- A bid of ten above an ask of ten: a trade of ten between them fills twenty. -/
theorem crossed_quotes_spend_trade_twice :
    totalFilled ((after {} [registered kBuy 101, registered kSell 100]).onEvent .wrapping (tradeAt 100 10)).1 =
      20 := by decide +kernel

end FillSimulator

end NseHft
