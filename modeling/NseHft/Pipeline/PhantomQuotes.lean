import NseHft.Pipeline.Pipeline

/-!
# Phantom quotes

The strategy records a quote when it emits the order, before risk and the order manager have
decided on it. A recorded quote has a live order unless that order was refused, or a fill ended
it that did not end the quote.
-/
namespace NseHft.Pipeline

open FixedWidth

/-- A pipeline with the ids that were emitted and not sent, and those whose order a fill has
completed. -/
structure Audit where
  pipeline : Pipeline
  refused : List Int
  completed : List Int

/-- The ids that a call leaves out: of the orders due on the routed book, those that risk
rejects or the order manager has no slot for, each in the state in which it is offered. -/
def refusedIn (A : Arithmetic) (fuel : Nat) (p : Pipeline) (clock : ClockReadings)
    (ev : MarketEvent) : List Int :=
  match (p.books.getBook ev.token).bind fun book => book.applyEvent fuel ev with
  | none => []
  | some (_, book) =>
    refusedFrom A clock (p.updated A clock ev book).listing 0
      (p.strat.dueOrders A (p.strat.now clock.quote) ev.token book)

/-- The fill ends the order it names, by its quantity or by the remainder it reports. -/
def completes (A : Arithmetic) (p : Pipeline) (fill : FillReport) : Bool :=
  match p.om.get fill.clientOrderId with
  | none => false
  | some lo =>
    decide (A.i32 (lo.filledQty + fill.fillQty) ≥ lo.order.qty) || fill.remainingQty == 0

namespace Audit

/-- All runs of `process` and `on_fill`, with any events, clocks and reports. -/
inductive Run (A : Arithmetic) (s : Setup) : Audit → Prop
  | fresh : Run A s ⟨s.fresh, [], []⟩
  | setNow {t : Audit} (istNs : Nat) : Run A s t →
      Run A s { t with pipeline := t.pipeline.setNow istNs }
  | process {t : Audit} {p : Pipeline} {fuel : Nat} {clock : ClockReadings} {ev : MarketEvent}
      {sent : List SentOrder} : Run A s t → t.pipeline.process A fuel clock ev = some (sent, p) →
      Run A s ⟨p, t.refused ++ refusedIn A fuel t.pipeline clock ev, t.completed⟩
  | onFill {t : Audit} (fill : FillReport) : Run A s t →
      Run A s ⟨t.pipeline.onFill A fill, t.refused,
        t.completed ++ if completes A t.pipeline fill then [fill.clientOrderId] else []⟩

end Audit

/-- The order manager has a live order with this id, for this token and side. -/
def LiveOrderFor (om : OrderManager) (token : Nat) (side : Side) (id : Int) : Prop :=
  ∃ lo, om.get id = some lo ∧ lo.state.live = true ∧ lo.order.token = token ∧ lo.order.side = side

section Send

variable {A : Arithmetic} {p : Pipeline} {clock : ClockReadings} {i : Nat} {orders : List Order}

/-- A slot in use keeps its order while others are sent. -/
theorem sendOrders_busy_kept (named : ∀ o ∈ orders, o.clientOrderId ≠ 0) {id : Int}
    (busy : p.om.busy id = true) :
    (p.sendOrders A clock i orders).2.om.table (OrderManager.index id) =
      p.om.table (OrderManager.index id) := by
  induction orders generalizing p i with
  | nil => rfl
  | cons o rest ih =>
    obtain ⟨first, others⟩ := List.forall_mem_cons.mp named
    have kept : (p.sendOrder A clock i o).2.om.table (OrderManager.index id) =
        p.om.table (OrderManager.index id) := by
      rcases @sendOrder_cases A p clock i o first with ⟨_, free, _, table⟩ | ⟨_, _, same⟩
      · have other : OrderManager.index id ≠ OrderManager.index o.clientOrderId := by
          intro equal
          rw [OrderManager.busy, equal, ← OrderManager.busy, free] at busy
          cases busy
        rw [table, Function.update_of_ne other]
      · rw [same]
    have still : (p.sendOrder A clock i o).2.om.busy id = true := by
      rw [OrderManager.busy, kept]
      exact busy
    exact (ih others still).trans kept

/-- What was sent is pending in its slot when the loop is done. -/
theorem sendOrders_stored (named : ∀ o ∈ orders, o.clientOrderId ≠ 0) {o : Order}
    (sent : o ∈ (p.sendOrders A clock i orders).1.map SentOrder.order) :
    (p.sendOrders A clock i orders).2.om.table (OrderManager.index o.clientOrderId) =
      { order := o, state := .pendingNew, occupied := true } := by
  induction orders generalizing p i with
  | nil => cases sent
  | cons first rest ih =>
    obtain ⟨here, others⟩ := List.forall_mem_cons.mp named
    simp only [sendOrders, List.map_append, List.mem_append] at sent ⊢
    rcases sent with now | later
    · rcases @sendOrder_cases A p clock i first here with ⟨_, _, ⟨message, out⟩, table⟩ | ⟨_, out, _⟩
      · rw [out, Option.toList_some, List.map_singleton, List.mem_singleton] at now
        subst now
        have stored : (p.sendOrder A clock i o).2.om.table (OrderManager.index o.clientOrderId) =
            { order := o, state := .pendingNew, occupied := true } := by
          rw [table, Function.update_self]
        have busy : (p.sendOrder A clock i o).2.om.busy o.clientOrderId = true := by
          rw [OrderManager.busy, stored]
          rfl
        rw [sendOrders_busy_kept others busy, stored]
      · rw [out] at now
        cases now
    · exact ih others later

end Send

/-- Every recorded quote is explained: refused, completed, or backed by a live order whose slot
is in use. -/
structure Explained (t : Audit) : Prop where
  positive : 1 ≤ t.pipeline.strat.nextClordid
  quoted : ∀ token side, ((t.pipeline.strat.quotes token).side side).active = true →
    let id := ((t.pipeline.strat.quotes token).side side).clordid
    id ∈ t.refused ∨ id ∈ t.completed ∨
      ∃ lo, t.pipeline.om.get id = some lo ∧ lo.state.live = true ∧ lo.occupied = true ∧
        lo.order.token = token ∧ lo.order.side = side

section Runs

variable {A : Arithmetic} {s : Setup} {t : Audit}

theorem busy_of_get {om : OrderManager} {id : Int} {lo : LiveOrder} (found : om.get id = some lo)
    (live : lo.state.live = true) (occupied : lo.occupied = true) : om.busy id = true := by
  rw [OrderManager.busy, ((OrderManager.get_eq_some_iff _ _).mp found).1, occupied]
  cases state : lo.state <;> simp_all [OrderState.live, OrderState.terminal]

/-- Whether anything is pending or not, the call ends as the send loop over the due orders
does. -/
private theorem process_sends {p p' : Pipeline} {fuel : Nat} {clock : ClockReadings}
    {ev : MarketEvent} {sent : List SentOrder} {book book' : OrderBook} {result : BookResult}
    (found : p.books.getBook ev.token = some book)
    (applied : book.applyEvent fuel ev = some (result, book'))
    (returned : p.process A fuel clock ev = some (sent, p')) :
    p'.strat = p.strat.onBookUpdate A clock.quote ev.token book' ∧
      p'.om = ((p.updated A clock ev book').listing.sendOrders A clock 0
        (p.strat.onBookUpdate A clock.quote ev.token book').pending).2.om := by
  rw [process_eq_watched found, applied, Option.map_some, respond] at returned
  split at returned
  next empty =>
    obtain ⟨_, rfl⟩ := Prod.mk.inj (Option.some.inj returned)
    have nothing : (p.strat.onBookUpdate A clock.quote ev.token book').pending = [] :=
      List.isEmpty_iff.mp empty
    rw [nothing]
    exact ⟨rfl, rfl⟩
  next =>
    have loop := congrArg Prod.snd (Option.some.inj returned)
    rw [← show _ = p' from loop, sendOrders_strat]
    exact ⟨rfl, rfl⟩

theorem process_explained {p : Pipeline} {fuel : Nat} {clock : ClockReadings} {ev : MarketEvent}
    {sent : List SentOrder} (explained : Explained t)
    (returned : t.pipeline.process A fuel clock ev = some (sent, p)) :
    Explained ⟨p, t.refused ++ refusedIn A fuel t.pipeline clock ev, t.completed⟩ := by
  refine ⟨Int.le_trans explained.positive (process_nextClordid returned), ?_⟩
  intro token side active
  rcases process_steps returned with ⟨_, _, rfl⟩ | ⟨book, result, book', found, applied, _⟩
  · -- an unwatched token: nothing moves
    rcases explained.quoted token side active with refused | rest
    · exact .inl (List.mem_append_left _ refused)
    · exact .inr rest
  · obtain ⟨strat, om⟩ := process_sends found applied returned
    have named := @named_of_one_le A t.pipeline.strat clock.quote ev.token book' explained.positive
    dsimp only at active ⊢
    rw [strat] at active ⊢
    rw [om]
    rcases @MarketMaking.onBookUpdate_quote A t.pipeline.strat ev.token clock.quote book' token side with
      ⟨o, member, ofToken, ofSide, _, quote, _⟩ | ⟨_, quote⟩
    · -- an order of this call: refused, or sent and stored
      rw [quote]
      rcases @refusedFrom_or_sent A (t.pipeline.updated A clock ev book').listing clock 0 _ named o
        member with refused | accepted
      · refine .inl (List.mem_append_right _ ?_)
        rw [MarketMaking.onBookUpdate_pending] at refused
        rw [refusedIn, found, Option.bind_some, applied]
        exact refused
      · have stored := sendOrders_stored named accepted
        exact .inr (.inr ⟨_, (OrderManager.get_eq_some_iff _ _).mpr ⟨stored, rfl⟩, rfl, rfl,
          ofToken, ofSide⟩)
    · -- an older quote: its slot is in use, so its order stays
      rw [quote] at active ⊢
      rcases explained.quoted token side (Bool.and_eq_true_iff.mp active).1 with
        refused | completed | ⟨lo, held, live, occupied, order⟩
      · exact .inl (List.mem_append_left _ refused)
      · exact .inr (.inl completed)
      · refine .inr (.inr ⟨lo, ?_, live, occupied, order⟩)
        have busy : (t.pipeline.updated A clock ev book').listing.om.busy
            ((t.pipeline.strat.quotes token).side side).clordid = true :=
          busy_of_get held live occupied
        obtain ⟨slot, id⟩ := (OrderManager.get_eq_some_iff _ _).mp held
        apply (OrderManager.get_eq_some_iff _ _).mpr
        exact ⟨(sendOrders_busy_kept named busy).trans slot, id⟩

theorem onFill_explained (explained : Explained t) (fill : FillReport) :
    Explained ⟨t.pipeline.onFill A fill, t.refused,
      t.completed ++ if completes A t.pipeline fill then [fill.clientOrderId] else []⟩ := by
  refine ⟨?_, ?_⟩
  · rw [onFill_nextClordid]
    exact explained.positive
  intro token side active
  -- a fill activates nothing
  have before : (t.pipeline.strat.quotes token).side side =
      ((t.pipeline.onFill A fill).strat.quotes token).side side := by
    simp only [onFill, MarketMaking.onFill_side] at active ⊢
    split at active
    · cases active
    next kept => rw [if_neg kept]
  dsimp only at active ⊢
  rw [← before] at active ⊢
  rcases explained.quoted token side active with
    refused | completed | ⟨lo, held, live, occupied, order⟩
  · exact .inl refused
  · exact .inr (.inl (List.mem_append_left _ completed))
  · by_cases same : fill.clientOrderId = ((t.pipeline.strat.quotes token).side side).clordid
    · rw [← same] at held ⊢
      cases ends : completes A t.pipeline fill with
      | true => exact .inr (.inl (List.mem_append_right _ (by simp)))
      | false =>
        -- the order is filled in part and stays in its slot
        simp only [completes, held, Bool.or_eq_false_iff, decide_eq_false_iff_not,
          beq_eq_false_iff_ne] at ends
        have filled : OrderManager.filledBy A fill lo = { lo with
            filledQty := A.i32 (lo.filledQty + fill.fillQty), state := .partiallyFilled } :=
          if_neg (not_or.mpr ends)
        obtain ⟨_, id⟩ := (OrderManager.get_eq_some_iff _ _).mp held
        refine .inr (.inr ⟨OrderManager.filledBy A fill lo, ?_, ?_⟩)
        · apply (OrderManager.get_eq_some_iff _ _).mpr
          rw [onFill, OrderManager.onFill_table held, Function.update_self, filled]
          exact ⟨rfl, id⟩
        · rw [filled]
          exact ⟨rfl, occupied, order⟩
    · -- another order is filled, in another slot
      refine .inr (.inr ⟨lo, ?_, live, occupied, order⟩)
      obtain ⟨slot, id⟩ := (OrderManager.get_eq_some_iff _ _).mp held
      cases named : t.pipeline.om.get fill.clientOrderId with
      | none =>
        rw [onFill, OrderManager.onFill_unknown named]
        exact held
      | some other =>
        obtain ⟨slot', id'⟩ := (OrderManager.get_eq_some_iff _ _).mp named
        have apart : OrderManager.index ((t.pipeline.strat.quotes token).side side).clordid ≠
            OrderManager.index fill.clientOrderId := by
          intro equal
          rw [equal, slot'] at slot
          exact same (id'.symm.trans (slot ▸ id))
        apply (OrderManager.get_eq_some_iff _ _).mpr
        rw [onFill, OrderManager.onFill_table named, Function.update_of_ne apart]
        exact ⟨slot, id⟩

theorem Audit.Run.explained (run : Audit.Run A s t) : Explained t := by
  induction run with
  | fresh => exact ⟨Int.le_refl 1, fun _ side active => by cases side <;> cases active⟩
  | setNow _ _ ih => exact ⟨ih.positive, ih.quoted⟩
  | process _ returned ih => exact process_explained ih returned
  | onFill fill _ ih => exact onFill_explained ih fill

end Runs

/-- In every run, a side that the strategy marks as quoting has a live order with the recorded
id, if that order was not left out and no fill has completed it. -/
theorem no_phantom_quotes (A : Arithmetic) (s : Setup) (t : Audit) (run : Audit.Run A s t)
    (token : Nat) (side : Side)
    (active : ((t.pipeline.strat.quotes token).side side).active = true)
    (accepted : ((t.pipeline.strat.quotes token).side side).clordid ∉ t.refused)
    (unfinished : ((t.pipeline.strat.quotes token).side side).clordid ∉ t.completed) :
    LiveOrderFor t.pipeline.om token side ((t.pipeline.strat.quotes token).side side).clordid := by
  rcases run.explained.quoted token side active with
    refused | completed | ⟨lo, held, live, _, order⟩
  · exact absurd refused accepted
  · exact absurd completed unfinished
  · exact ⟨lo, held, live, order⟩

/-- One snapshot at ten o'clock. -/
private def snapped (bid : Int) : Audit :=
  ⟨(atTen.processed (touch 7 1 bid)).2, refusedIn .wrapping 8 atTen stillClock (touch 7 1 bid), []⟩

private theorem snapped_run (bid : Int)
    (returns : (atTen.process .wrapping 8 stillClock (touch 7 1 bid)).isSome = true) :
    Audit.Run .wrapping (.watching [(7, 1, 4)]) (snapped bid) :=
  Audit.Run.process (t := ⟨atTen, [], []⟩) (.setNow 36000000000000 .fresh) (processed_eq returns)

/-- At a hundred rupees both orders pass, and the bid is live. -/
theorem accepted_quote_live :
    (((snapped 10000).pipeline.strat.quotes 7).side kBuy).clordid = 1 ∧
      LiveOrderFor (snapped 10000).pipeline.om 7 kBuy
        (((snapped 10000).pipeline.strat.quotes 7).side kBuy).clordid :=
  ⟨by decide +kernel, no_phantom_quotes .wrapping _ (snapped 10000)
    (snapped_run 10000 (by decide +kernel)) 7 kBuy (by decide +kernel) (by decide +kernel)
    (by decide +kernel)⟩

/-- At one rupee a quote is further than two percent from the other side of the book. Risk
rejects both orders, and both sides stay marked as quoting. -/
theorem rejected_quotes_stay_recorded :
    ∃ t, Audit.Run .wrapping (.watching [(7, 1, 4)]) t ∧
      ∀ side, ((t.pipeline.strat.quotes 7).side side).active = true ∧
        ¬LiveOrderFor t.pipeline.om 7 side ((t.pipeline.strat.quotes 7).side side).clordid := by
  refine ⟨snapped 100, snapped_run 100 (by decide +kernel), fun side => ⟨?_, ?_⟩⟩
  · cases side <;> decide +kernel
  · rintro ⟨lo, found, _⟩
    have none : (snapped 100).pipeline.om.get
        (((snapped 100).pipeline.strat.quotes 7).side side).clordid = none := by
      cases side <;> decide +kernel
    rw [none] at found
    cases found

end NseHft.Pipeline
