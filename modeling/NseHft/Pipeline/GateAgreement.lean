import NseHft.Risk.RiskManager
import NseHft.Strategy.MarketMaking

/-!
# Gates of strategy and risk

Hours, lots and circuit bands are checked by the strategy before it quotes and by the risk
manager before an order leaves. With the same reference data and the same clock no order of the
strategy fails one of these three checks.
-/
namespace NseHft

open FixedWidth

/-- The reasons that the strategy rules out by itself. -/
def sharedGates : List RejectReason := [.outsideMarketHours, .lotSizeMismatch, .priceBandBreach]

section Shared

variable {mm : MarketMaking} {rm : RiskManager} {o : Order} {wallClock token : Nat}
  {book : OrderBook}

/-- The lot of the risk manager, where it is one, is the strategy's. -/
theorem lotSize_shared (shared : rm.symbols = mm.symbols) (token : Nat)
    (positive : 0 < rm.lotSize token) : mm.lotSize token = rm.lotSize token := by
  simp only [RiskManager.lotSize, MarketMaking.lotSize, shared] at positive ⊢
  exact if_pos positive

/-- The quantity of a quote is a multiple of the lot. -/
theorem quote_qty_tmod (shared : rm.symbols = mm.symbols)
    (fits : FitsI32 (mm.cfg.quoteLots * mm.lotSize token))
    (placed : o ∈ (mm.onBookUpdate .wrapping wallClock token book).pending)
    (positive : 0 < rm.lotSize o.token) : o.qty.tmod (rm.lotSize o.token) = 0 := by
  have same := lotSize_shared shared o.token positive
  rw [(MarketMaking.onBookUpdate_token placed).1] at same ⊢
  have qty : MarketMaking.quoteQty .wrapping mm token = mm.cfg.quoteLots * mm.lotSize token :=
    i32_eq_self _ fits
  rw [(MarketMaking.onBookUpdate_ids o placed).2, ← same, qty]
  exact Int.mul_tmod_left _ _

theorem quote_passes_shared (shared : rm.symbols = mm.symbols)
    (fits : FitsI32 (mm.cfg.quoteLots * mm.lotSize token))
    (placed : o ∈ (mm.onBookUpdate .wrapping wallClock token book).pending) :
    ∀ reason ∈ rm.gate .wrapping (mm.now wallClock) o, reason ∉ sharedGates := by
  obtain ⟨plans, id, chosen, due, order⟩ := MarketMaking.onBookUpdate_planned placed
  obtain ⟨hours, band, _⟩ := MarketMaking.session_allowed chosen (MarketMaking.allowed_of_due due)
  have priced : o.price = (plans o.side).desired := by rw [order, MarketMaking.newQuote]
  intro reason failed
  rw [RiskManager.gate] at failed
  split_ifs at failed with _ closed _ odd outside
  -- in the order of the gates: those that are not shared, and the three that pass
  · cases failed
    decide
  · rw [hours] at closed
    cases closed
  · cases failed
    decide
  · exact absurd (quote_qty_tmod shared fits placed odd.2.1) odd.2.2
  · obtain ⟨range, known, breach⟩ := outside
    rw [(MarketMaking.onBookUpdate_token placed).1, shared] at known
    have inside := band range known
    rw [priced] at breach
    omega
  · cases failed
    decide
  · cases failed
    decide
  · cases failed

end Shared

/-- No order that the strategy emits is rejected for the hours, its lot or the circuit band, in
whatever state the two are. -/
theorem gates_agree (mm : MarketMaking) (rm : RiskManager) (shared : rm.symbols = mm.symbols)
    (clock : rm.simNowNs = mm.simNowNs) (set : mm.simNowNs ≠ 0) (token : Nat)
    (fits : FitsI32 (mm.cfg.quoteLots * mm.lotSize token)) (quoteClock checkClock : Nat)
    (book : OrderBook) :
    ∀ o ∈ (mm.onBookUpdate .wrapping quoteClock token book).pending,
      (rm.check .wrapping checkClock o).1 ∉ sharedGates := by
  intro o placed
  have now : (if rm.simNowNs ≠ 0 then rm.simNowNs else checkClock) = mm.now quoteClock := by
    rw [MarketMaking.now, clock, if_pos set, if_pos set]
  have passes := @quote_passes_shared mm rm o quoteClock token book shared fits placed
  rw [RiskManager.check, now]
  cases failed : rm.gate .wrapping (mm.now quoteClock) o with
  | some reason => exact passes reason failed
  | none =>
    dsimp only
    split
    · exact (by decide : RejectReason.approved ∉ sharedGates)
    · exact (by decide : RejectReason.rateLimitExceeded ∉ sharedGates)

/-- A futures contract in lots of fifty, with a band of ten percent. -/
private def future : Option SymbolMaster :=
  some (({} : SymbolMaster).put
    { token := 7, segment := kSegmentFo, lotSize := 50, tickSize := 5, prevClose := 100000
      circuitPctX100 := 1000 })

private def quoter : MarketMaking :=
  { symbols := future, cfg := { segment := kSegmentFo, quoteLots := 2 }, simNowNs := 36000000000000 }

private def gatekeeper : RiskManager := (RiskManager.new future {}).setNow 36000000000000

private def nearBand : OrderBook :=
  (OrderBook.new 7 5 4).seed
    { token := 7, type := MtbtMsgType.snapQuote.code, bidPrice := 109990, bidQty := 10
      askPrice := 110000, askQty := 10 }

/-- The ask would be above the band and is not quoted; the bid is sent and approved. -/
theorem band_edge_gates_agree :
    (quoter.onBookUpdate .wrapping 0 7 nearBand).pending.map Order.price = [109985] ∧
      ∀ o ∈ (quoter.onBookUpdate .wrapping 0 7 nearBand).pending,
        (gatekeeper.check .wrapping 0 o).1 ∉ sharedGates :=
  ⟨by decide +kernel, gates_agree quoter gatekeeper rfl rfl (by decide) 7 (by decide) 0 0 nearBand⟩

end NseHft
