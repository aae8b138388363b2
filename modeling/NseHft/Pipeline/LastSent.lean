import NseHft.Pipeline.Pipeline

/-!
# Orders sent by the last call

`last_sent` is read after every call to acknowledge and fill what the call sent. The list is
only started anew by a call that has orders to send.
-/
namespace NseHft.Pipeline

open FixedWidth

/-- After a call the list holds exactly the orders for which the call encoded a message, and as
many as it returned, if the strategy has orders due on the routed book or the list was empty
before; otherwise it shows the orders of an earlier call. -/
theorem last_sent_exact_iff (A : Arithmetic) (fuel : Nat) (p p' : Pipeline)
    (clock : ClockReadings) (ev : MarketEvent) (sent : List SentOrder)
    (returned : p.process A fuel clock ev = some (sent, p')) :
    (p'.sentOrders = sent.map SentOrder.order ↔
      p.offered A fuel clock ev ≠ [] ∨ p.sentOrders = []) ∧
    (p'.sentOrders.length = sent.length ↔
      p.offered A fuel clock ev ≠ [] ∨ p.sentOrders = []) := by
  rcases process_lastSent returned with ⟨some, listed⟩ | ⟨nothing, unsent, kept⟩
  · refine ⟨iff_of_true listed (.inl some), iff_of_true ?_ (.inl some)⟩
    rw [listed, List.length_map]
  · rw [kept, unsent]
    simp [nothing]

/-- Both sides quoted at 10:00. -/
private def bothQuoted : Pipeline := (atTen.processed (touch 7 1 10000)).2

theorem first_call_listed :
    bothQuoted.sentOrders.map Order.clientOrderId = [1, 2] ∧
      bothQuoted.sentOrders = (atTen.processed (touch 7 1 10000)).1.map SentOrder.order :=
  ⟨by decide +kernel, (last_sent_exact_iff .wrapping 8 atTen bothQuoted stillClock (touch 7 1 10000) _
    (processed_eq (by decide +kernel))).1.mpr (.inl (by decide +kernel))⟩

/-- A message of a token that is not watched: nothing is sent, and the list still shows the two
quotes of the call before. -/
theorem unwatched_call_lists_old_orders :
    ∃ p p' sent, Run .wrapping (.watching [(7, 1, 4)]) p ∧
      p.process .wrapping 8 stillClock (touch 9 1 10000) = some (sent, p') ∧ sent.length = 0 ∧
      p'.sentOrders.length = 2 :=
  ⟨bothQuoted, _, _, .process (Run.setNow 36000000000000 .fresh) (processed_eq (by decide +kernel)),
    processed_eq (by decide +kernel), by decide +kernel, by decide +kernel⟩

end NseHft.Pipeline
