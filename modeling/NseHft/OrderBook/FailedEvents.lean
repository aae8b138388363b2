import NseHft.OrderBook.OrderBook

/-!
# Failed events

An event that the book does not take leaves its orders and levels as they were, and a book
that has seen a sequence gap takes none until a snapshot seeds it or it is cleared.
-/
namespace NseHft

def BookResult.failed : BookResult → Bool
  | ok | seeded => false
  | gap | staleDropped | tickViolation | unknownOrder | full => true

/-- The messages that change resting orders. -/
def MarketEvent.isOrderEvent (ev : MarketEvent) : Prop :=
  ev.msgType = some .orderAdd ∨ ev.msgType = some .orderModify ∨
    ev.msgType = some .orderCancel ∨ ev.msgType = some .trade

theorem MarketEvent.isOrderEvent.ne_snapQuote {ev : MarketEvent} (order : ev.isOrderEvent) :
    ev.msgType ≠ some .snapQuote := by
  rcases order with type | type | type | type <;> simp [type]

namespace OrderBook

variable {b b' : OrderBook} {ev : MarketEvent} {fuel : Nat} {result : BookResult}

/-- Both level arrays and the whole order table agree. -/
def SameContent (b b' : OrderBook) : Prop :=
  b'.bids = b.bids ∧ b'.asks = b.asks ∧ b'.table = b.table

theorem SameContent.refl (b : OrderBook) : b.SameContent b := ⟨rfl, rfl, rfl⟩

theorem SameContent.trans {b'' : OrderBook} (first : b.SameContent b')
    (second : b'.SameContent b'') : b.SameContent b'' :=
  ⟨second.1.trans first.1, second.2.1.trans first.2.1, second.2.2.trans first.2.2⟩

theorem trackSeq_sameContent (b : OrderBook) (ev : MarketEvent) :
    b.SameContent (b.trackSeq ev).2 := by
  simp only [trackSeq]
  split_ifs <;> exact ⟨rfl, rfl, rfl⟩

/-! ### The handlers -/

private theorem applyAdd_failed (answer : b.applyAdd ev = (result, b'))
    (failed : result.failed = true) : b' = b := by
  unfold applyAdd at answer
  split at answer
  · cases answer
    rfl
  split at answer
  · cases answer
    rfl
  · cases answer
    cases failed

private theorem applyModify_failed (answer : b.applyModify ev = (result, b'))
    (failed : result.failed = true) : b' = b := by
  unfold applyModify at answer
  split at answer
  · cases answer
    rfl
  split at answer
  · cases answer
    rfl
  · cases answer
    cases failed

private theorem applyCancel_failed (returned : b.applyCancel fuel ev = some (result, b'))
    (failed : result.failed = true) : b' = b := by
  unfold applyCancel at returned
  split at returned
  · cases returned
    rfl
  · simp only [Option.bind_eq_bind, Option.bind_eq_some_iff, Option.some.injEq,
      Prod.mk.injEq] at returned
    obtain ⟨_, _, rfl, _⟩ := returned
    cases failed

/-- A leg whose order is not found does nothing. -/
private theorem reduceResting_missed {orderNo traded : Int}
    (returned : b.reduceResting fuel orderNo traded = some (false, b')) : b' = b := by
  unfold reduceResting at returned
  split at returned
  · cases returned
    rfl
  split at returned
  · cases returned
    rfl
  -- a found order is reported, whether it is erased or reduced
  dsimp only at returned
  split at returned
  · simp only [Option.bind_eq_bind, Option.bind_eq_some_iff, Option.some.injEq, Prod.mk.injEq,
      Bool.true_eq_false, false_and, and_false, exists_false] at returned
  · simp at returned

/-- A trade fails only if both of its legs were missed. -/
private theorem applyTrade_failed (returned : b.applyTrade fuel ev = some (result, b'))
    (failed : result.failed = true) : b' = b := by
  simp only [applyTrade, Option.bind_eq_bind, Option.bind_eq_some_iff, Option.some.injEq,
    Prod.mk.injEq, Prod.exists] at returned
  obtain ⟨buyFound, m, first, sellFound, _, second, rfl, rfl⟩ := returned
  cases buyFound with
  | true => cases failed
  | false =>
    cases sellFound with
    | true => cases failed
    | false => rw [reduceResting_missed second, reduceResting_missed first]

theorem applyEvent_failed (returned : b.applyEvent fuel ev = some (result, b'))
    (failed : result.failed = true) : b.SameContent b' := by
  -- the sequence check keeps the content, so the handlers are left
  suffices unchanged : b' = (b.trackSeq ev).2 by
    rw [unchanged]
    exact trackSeq_sameContent b ev
  simp only [applyEvent] at returned
  generalize (b.trackSeq ev).2 = tracked at returned ⊢
  -- first the gap, then the message types; a stale book drops the order events
  split at returned
  · cases returned
    rfl
  split at returned
  · cases returned
    cases failed
  · split at returned
    · cases returned
      rfl
    · exact applyAdd_failed (Option.some.inj returned) failed
  · split at returned
    · cases returned
      rfl
    · exact applyModify_failed (Option.some.inj returned) failed
  · split at returned
    · cases returned
      rfl
    · exact applyCancel_failed returned failed
  · split at returned
    · cases returned
      rfl
    · exact applyTrade_failed returned failed
  · cases returned
    rfl

/-! ### Between a gap and the next snapshot -/

theorem applyEvent_seqGap (gap : b.SeqGap ev) (type : ev.msgType ≠ some .snapQuote) (fuel : Nat) :
    b.applyEvent fuel ev = some (.gap, (b.trackSeq ev).2) := by
  have seen := (trackSeq_gap_iff b ev).mpr gap
  simp [applyEvent, seen, type]

theorem trackSeq_keeps_stale (stale : b.stale = true) (ev : MarketEvent) :
    (b.trackSeq ev).2.stale = true := by
  simp only [trackSeq]
  split_ifs
  · rfl
  · exact stale
  · exact stale

/-- A stale book only tracks sequence numbers. -/
theorem applyEvent_stale (stale : b.stale = true) (type : ev.msgType ≠ some .snapQuote)
    (fuel : Nat) :
    ∃ result, b.applyEvent fuel ev = some (result, (b.trackSeq ev).2) ∧
      (ev.isOrderEvent → result = .gap ∨ result = .staleDropped) := by
  by_cases gap : b.SeqGap ev
  · exact ⟨.gap, applyEvent_seqGap gap type fuel, fun _ => .inl rfl⟩
  · -- no gap: the order events are dropped, everything else has no effect
    have met : ¬((b.trackSeq ev).1 = true ∧ ev.msgType ≠ some .snapQuote) :=
      fun seen => gap ((trackSeq_gap_iff b ev).mp seen.1)
    have dropped := trackSeq_keeps_stale stale ev
    simp only [applyEvent, if_neg met, dropped, if_true]
    split
    next snap => exact absurd snap type
    next => exact ⟨.staleDropped, rfl, fun _ => .inr rfl⟩
    next => exact ⟨.staleDropped, rfl, fun _ => .inr rfl⟩
    next => exact ⟨.staleDropped, rfl, fun _ => .inr rfl⟩
    next => exact ⟨.staleDropped, rfl, fun _ => .inr rfl⟩
    next notAdd notModify notCancel notTrade =>
      refine ⟨.ok, rfl, fun order => ?_⟩
      rcases order with add | modify | cancel | trade
      · exact absurd add notAdd
      · exact absurd modify notModify
      · exact absurd cancel notCancel
      · exact absurd trade notTrade

/-- The event leaves the book waiting for a snapshot: it is none itself, and it shows a gap or
finds the book waiting already. -/
def StaleAfter (b : OrderBook) (ev : MarketEvent) : Prop :=
  ev.msgType ≠ some .snapQuote ∧ (b.SeqGap ev ∨ b.stale = true)

instance (b : OrderBook) (ev : MarketEvent) : Decidable (b.StaleAfter ev) := by
  unfold StaleAfter SeqGap
  infer_instance

theorem trackSeq_stale_iff (b : OrderBook) (ev : MarketEvent) :
    (b.trackSeq ev).2.stale = true ↔ b.SeqGap ev ∨ b.stale = true := by
  simp only [trackSeq, SeqGap]
  split_ifs <;> simp_all

theorem applyEvent_stale_iff (ok : b.table.Ok)
    (returned : b.applyEvent fuel ev = some (result, b')) : b'.stale = true ↔ b.StaleAfter ev := by
  rw [(applyEvent_sequence ok returned).2.2, StaleAfter]
  split
  next snapshot => simp [snapshot]
  next type => simp [type, trackSeq_stale_iff]

/-- A book that waits afterwards has taken nothing from the event. -/
theorem StaleAfter.sameContent (after : b.StaleAfter ev)
    (returned : b.applyEvent fuel ev = some (result, b')) : b.SameContent b' := by
  obtain ⟨type, gap | stale⟩ := after
  · rw [applyEvent_seqGap gap type] at returned
    cases returned
    exact trackSeq_sameContent b ev
  · obtain ⟨_, dropped, _⟩ := applyEvent_stale stale type fuel
    rw [dropped] at returned
    cases returned
    exact trackSeq_sameContent b ev

/-- The books that `b` becomes from an event that shows a gap on, as long as it is neither
seeded nor cleared. -/
inductive AfterGap (b : OrderBook) : OrderBook → Prop
  | gap {b' : OrderBook} {result : BookResult} (fuel : Nat) (ev : MarketEvent) :
      b.SeqGap ev → ev.msgType ≠ some .snapQuote → b.applyEvent fuel ev = some (result, b') →
      AfterGap b b'
  | event {m b' : OrderBook} {result : BookResult} (fuel : Nat) (ev : MarketEvent) :
      AfterGap b m → ev.msgType ≠ some .snapQuote → m.applyEvent fuel ev = some (result, b') →
      AfterGap b b'

theorem AfterGap.stale (after : AfterGap b b') : b'.stale = true ∧ b.SameContent b' := by
  induction after with
  -- the gap makes the book stale
  | gap fuel ev gap type returned =>
    rw [applyEvent_seqGap gap type] at returned
    cases returned
    refine ⟨?_, trackSeq_sameContent b ev⟩
    simp only [trackSeq, if_pos gap.1, if_pos gap.2]
  | event fuel ev _ type returned ih =>
    obtain ⟨stale, same⟩ := ih
    obtain ⟨_, dropped, _⟩ := applyEvent_stale stale type fuel
    rw [dropped] at returned
    cases returned
    exact ⟨trackSeq_keeps_stale stale ev, same.trans (trackSeq_sameContent _ ev)⟩

/-- A failed event changes neither the levels nor the order table. A gap shown by an event
that is no snapshot is reported, and from then on, until a snapshot or `clear`, every order
event comes back as a gap or dropped and the content of the book stays what it was. -/
theorem failed_events_change_nothing (b : OrderBook) :
    (∀ fuel ev result b', b.applyEvent fuel ev = some (result, b') → result.failed = true →
      b.SameContent b') ∧
    (∀ fuel ev, b.SeqGap ev → ev.msgType ≠ some .snapQuote →
      ∃ b', b.applyEvent fuel ev = some (.gap, b') ∧ AfterGap b b') ∧
    (∀ m, AfterGap b m → b.SameContent m ∧
      ∀ fuel ev, ev.msgType ≠ some .snapQuote →
        ∃ result b', m.applyEvent fuel ev = some (result, b') ∧ AfterGap b b' ∧
          (ev.isOrderEvent → result = .gap ∨ result = .staleDropped)) := by
  refine ⟨fun _ _ _ _ returned failed => applyEvent_failed returned failed,
    fun fuel ev gap type => ?_, fun m after => ?_⟩
  · have returned := applyEvent_seqGap gap type fuel
    exact ⟨_, returned, .gap fuel ev gap type returned⟩
  · obtain ⟨stale, same⟩ := after.stale
    refine ⟨same, fun fuel ev type => ?_⟩
    obtain ⟨result, returned, dropped⟩ := applyEvent_stale stale type fuel
    exact ⟨result, _, returned, .event fuel ev after type returned, dropped⟩

end OrderBook

end NseHft
