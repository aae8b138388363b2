import NseHft.Pipeline.Pipeline
import NseHft.Risk.PositionLimit

/-!
# What a call of the pipeline moves

A market event reaches the book of its token, the reference prices, the quotes and the
statistics. It moves no position and no cash, whatever is sent.
-/
namespace NseHft

open FixedWidth

namespace RiskManager

variable {A : Arithmetic} {rm : RiskManager}

theorem check_cashflow (wallClock : Nat) (o : Order) :
    (rm.check A wallClock o).2.cashflowPaisa = rm.cashflowPaisa := by
  simp only [check]
  generalize (if rm.simNowNs ≠ 0 then rm.simNowNs else wallClock) = now
  have frame : (rm.consumeRateToken now).2.cashflowPaisa = rm.cashflowPaisa := by
    simp only [consumeRateToken]
    split_ifs <;> rfl
  split
  · rfl
  · split
    next equal => rwa [equal] at frame
    next equal => rwa [equal] at frame

end RiskManager

namespace Pipeline

variable {A : Arithmetic} {p p' : Pipeline} {clock : ClockReadings} {i : Nat} {orders : List Order}

/-- The positions and the cash are as before. -/
structure Unmoved (p p' : Pipeline) : Prop where
  strat : p'.strat.position = p.strat.position
  risk : p'.risk.position = p.risk.position
  cash : p'.risk.cashflowPaisa = p.risk.cashflowPaisa

theorem sendOrder_unmoved (o : Order) : Unmoved p (p.sendOrder A clock i o).2 where
  strat := by rw [sendOrder_strat]
  risk := by rw [sendOrder_risk, (RiskManager.check_frame _ _ _).1]
  cash := by rw [sendOrder_risk, RiskManager.check_cashflow]

theorem Unmoved.trans {p q r : Pipeline} (first : Unmoved p q) (second : Unmoved q r) : Unmoved p r :=
  ⟨second.strat.trans first.strat, second.risk.trans first.risk, second.cash.trans first.cash⟩

theorem sendOrders_unmoved : Unmoved p (p.sendOrders A clock i orders).2 := by
  induction orders generalizing p i with
  | nil => exact ⟨rfl, rfl, rfl⟩
  | cons o rest ih => exact (sendOrder_unmoved o).trans ih

/-- Every order generated was approved or rejected, and those sent are among the approved. -/
structure Counted (stats : PipelineStats) (sent : Nat) : Prop where
  generated : stats.ordersGenerated = stats.ordersApproved + stats.ordersRejected
  sent_eq : stats.ordersSent = sent
  sent_le : stats.ordersSent ≤ stats.ordersApproved

/-- What the loop adds to the statistics. -/
structure Adds (before after : PipelineStats) (judged sent : Nat) : Prop where
  generated : after.ordersGenerated = before.ordersGenerated
  judged_eq : after.ordersApproved + after.ordersRejected =
    before.ordersApproved + before.ordersRejected + judged
  sent_eq : after.ordersSent = before.ordersSent + sent
  sent_le : after.ordersSent + before.ordersApproved ≤ after.ordersApproved + before.ordersSent

theorem sendOrder_adds (o : Order) :
    Adds p.stats (p.sendOrder A clock i o).2.stats 1 (p.sendOrder A clock i o).1.toList.length := by
  simp only [sendOrder]
  generalize (if p.nowNs ≠ 0 then p.nowNs else clock.stamp i) = stamp
  split
  · exact ⟨rfl, rfl, rfl, Nat.le_of_eq (Nat.add_comm _ _)⟩
  · split <;> exact ⟨rfl, by dsimp only; omega, rfl, by dsimp only; omega⟩

theorem sendOrders_adds :
    Adds p.stats (p.sendOrders A clock i orders).2.stats orders.length
      (p.sendOrders A clock i orders).1.length := by
  induction orders generalizing p i with
  | nil => exact ⟨rfl, rfl, rfl, Nat.le_of_eq (Nat.add_comm _ _)⟩
  | cons o rest ih =>
    obtain ⟨g, j, s, l⟩ := @sendOrder_adds A p clock i o
    obtain ⟨g', j', s', l'⟩ := @ih (p.sendOrder A clock i o).2 (i + 1)
    simp only [sendOrders, List.length_append, List.length_cons]
    exact ⟨g'.trans g, by omega, by omega, by omega⟩

section Process

variable {fuel : Nat} {ev : MarketEvent} {sent : List SentOrder}

theorem updated_unmoved (book : OrderBook) : Unmoved p (p.updated A clock ev book) := by
  refine ⟨MarketMaking.onBookUpdate_fixed.2.2, ?_, ?_⟩
  all_goals
    simp only [updated, referenced, RiskManager.updateReference]
    split <;> rfl

/-- A call moves no position. -/
theorem process_unmoved (returned : p.process A fuel clock ev = some (sent, p')) : Unmoved p p' := by
  rcases process_steps returned with ⟨_, _, rfl⟩ | ⟨_, _, book', _, _, ⟨_, rfl, _⟩ | ⟨loop, _⟩⟩
  · exact ⟨rfl, rfl, rfl⟩
  · exact updated_unmoved book'
  · obtain ⟨rfl, rfl⟩ := Prod.mk.inj loop
    have listed : Unmoved p (p.updated A clock ev book').listing :=
      (updated_unmoved book').trans ⟨rfl, rfl, rfl⟩
    exact listed.trans sendOrders_unmoved

theorem process_counted (returned : p.process A fuel clock ev = some (sent, p')) {n : Nat}
    (counted : Counted p.stats n) : Counted p'.stats (n + sent.length) := by
  obtain ⟨generated, sent_eq, sent_le⟩ := counted
  rcases process_steps returned with ⟨_, rfl, rfl⟩ | ⟨_, _, book', _, _, ⟨rfl, rfl, _⟩ | ⟨loop, _⟩⟩
  · exact ⟨generated, sent_eq, sent_le⟩
  · exact ⟨generated, sent_eq, sent_le⟩
  · obtain ⟨rfl, rfl⟩ := Prod.mk.inj loop
    obtain ⟨g, j, s, l⟩ := @sendOrders_adds A (p.updated A clock ev book').listing clock 0
      (p.updated A clock ev book').strat.pending
    have listed : (p.updated A clock ev book').listing.stats =
        { p.stats with
          events := p.stats.events + 1
          ordersGenerated :=
            p.stats.ordersGenerated + (p.updated A clock ev book').strat.pending.length } := rfl
    rw [listed] at g j s l
    dsimp only at g j s l
    exact ⟨by omega, by omega, by omega⟩

/-- The call watches no further token. -/
theorem process_watched (returned : p.process A fuel clock ev = some (sent, p')) (t : Nat)
    (watched : p'.books.getBook t ≠ none) : p.books.getBook t ≠ none := by
  rcases process_books returned with ⟨_, same⟩ | ⟨book, _, _, found, _, books⟩
  · exact same ▸ watched
  · rw [books t] at watched
    split at watched
    next here => exact here ▸ found ▸ Option.some_ne_none book
    · exact watched

/-- What is sent is for the token of the event, and that token is watched. -/
theorem process_token (positive : 1 ≤ p.strat.nextClordid)
    (returned : p.process A fuel clock ev = some (sent, p')) :
    ∀ o ∈ sent.map SentOrder.order, o.token = ev.token ∧ p.books.getBook ev.token ≠ none := by
  rcases process_cases returned with
    ⟨_, nothing, _, _, _⟩ | ⟨_, book, book', q, found, _, _, loop, strat, _, _⟩
  · simp [nothing]
  · obtain ⟨rfl, rfl⟩ := Prod.mk.inj loop
    have named : ∀ o ∈ q.strat.pending, o.clientOrderId ≠ 0 := strat ▸ named_of_one_le positive
    intro o member
    have pending := (@sendOrders_sublist A q clock 0 _ named).subset member
    rw [strat] at pending
    obtain ⟨_, _, _, _, placed⟩ := MarketMaking.onBookUpdate_planned pending
    refine ⟨by rw [placed]; rfl, ?_⟩
    rw [found]
    exact Option.some_ne_none book

end Process

end Pipeline

end NseHft
