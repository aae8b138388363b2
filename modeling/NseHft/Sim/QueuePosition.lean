import NseHft.Lib.Machine
import NseHft.Sim.FillSimulator

/-!
# Queue position

The fills of one order over a whole history of the simulator. What is filled is a function of
the volume that has reached the order's price: the queue takes the first part of it, the order
the next one, and how the volume is cut into trades plays no role (`Order.filledAt`).
-/
namespace NseHft

open FixedWidth

namespace Order

/-- The quantity that is filled once a volume has reached the price. -/
def filledAt (o : Order) (queueAhead volume : Int) : Int :=
  max 0 (min o.qty (volume - queueAhead))

theorem filledAt_nonneg (o : Order) (queueAhead volume : Int) :
    0 ≤ o.filledAt queueAhead volume := Int.le_max_left _ _

/-- More volume fills what is left of it behind the queue, as far as the order goes. -/
theorem filledAt_add (o : Order) (queueAhead volume : Int) {qty : Int} (positive : 0 < o.qty)
    (more : 0 ≤ qty) :
    o.filledAt queueAhead (volume + qty) = o.filledAt queueAhead volume +
      min (o.qty - o.filledAt queueAhead volume)
        (qty - min (max 0 (queueAhead - volume)) qty) := by
  simp only [filledAt]
  omega

/-- A trade event on the order's token, at its price or through it. -/
def reachedBy (o : Order) (ev : MarketEvent) : Bool :=
  ev.msgType = some .trade && ev.token = o.token &&
    match o.side with
    | kBuy => decide (ev.price ≤ o.price)
    | kSell => decide (ev.price ≥ o.price)

/-- The reports for the order: those of its side and token. -/
def reportsFor (o : Order) (reports : List FillReport) : List FillReport :=
  reports.filter fun f => f.side = o.side && f.token = o.token

theorem reportsFor_append (o : Order) (reports more : List FillReport) :
    o.reportsFor (reports ++ more) = o.reportsFor reports ++ o.reportsFor more :=
  List.filter_append _ _

theorem reportsFor_eq_nil {o : Order} {reports : List FillReport}
    (others : ∀ f ∈ reports, ¬ (f.side = o.side ∧ f.token = o.token)) :
    o.reportsFor reports = [] := by
  apply List.filter_eq_nil_iff.mpr
  simpa using others

end Order

/-- Every report is at the limit price and says what is left of the order after it, when
`filled` is filled before the first one. -/
def CountsDown (o : Order) : Int → List FillReport → Prop
  | _, [] => True
  | filled, f :: rest =>
    f.clientOrderId = o.clientOrderId ∧ f.fillPrice = o.price ∧
      f.remainingQty = o.qty - (filled + f.fillQty) ∧ CountsDown o (filled + f.fillQty) rest

def totalFilled (reports : List FillReport) : Int := (reports.map FillReport.fillQty).sum

theorem totalFilled_append (reports more : List FillReport) :
    totalFilled (reports ++ more) = totalFilled reports + totalFilled more := by
  simp [totalFilled]

theorem CountsDown.append {o : Order} {filled : Int} {reports more : List FillReport}
    (first : CountsDown o filled reports)
    (second : CountsDown o (filled + totalFilled reports) more) :
    CountsDown o filled (reports ++ more) := by
  induction reports generalizing filled with
  | nil => simpa [totalFilled] using second
  | cons f rest ih =>
    obtain ⟨id, price, left, later⟩ := first
    refine ⟨id, price, left, ih later ?_⟩
    have sum : totalFilled (f :: rest) = f.fillQty + totalFilled rest := by simp [totalFilled]
    rwa [sum, ← Int.add_assoc] at second

/-- The reports for an order while the volume at its price grows from one value to another. -/
structure Filled (o : Order) (queueAhead volume volume' : Int) (reports : List FillReport) :
    Prop where
  total : totalFilled (o.reportsFor reports) =
    o.filledAt queueAhead volume' - o.filledAt queueAhead volume
  counts : CountsDown o (o.filledAt queueAhead volume) (o.reportsFor reports)

namespace Filled

variable {o : Order} {queueAhead volume volume' volume'' : Int} {reports more : List FillReport}

theorem silent (none : o.reportsFor reports = [])
    (same : o.filledAt queueAhead volume' = o.filledAt queueAhead volume) :
    Filled o queueAhead volume volume' reports := by
  constructor
  · rw [none, same]
    exact (Int.sub_self _).symm
  · rw [none]
    trivial

theorem append (first : Filled o queueAhead volume volume' reports)
    (second : Filled o queueAhead volume' volume'' more) :
    Filled o queueAhead volume volume'' (reports ++ more) := by
  constructor
  · rw [Order.reportsFor_append, totalFilled_append, first.total, second.total]
    omega
  · rw [Order.reportsFor_append]
    apply first.counts.append
    have reached : o.filledAt queueAhead volume +
        (o.filledAt queueAhead volume' - o.filledAt queueAhead volume) =
          o.filledAt queueAhead volume' := by omega
    rw [first.total, reached]
    exact second.counts

theorem single {f : FillReport} (side : f.side = o.side) (token : f.token = o.token)
    (id : f.clientOrderId = o.clientOrderId) (price : f.fillPrice = o.price)
    (filled : f.fillQty = o.filledAt queueAhead volume' - o.filledAt queueAhead volume)
    (left : f.remainingQty = o.qty - o.filledAt queueAhead volume') :
    Filled o queueAhead volume volume' [f] := by
  have mine : o.reportsFor [f] = [f] := by simp [Order.reportsFor, side, token]
  constructor
  · rw [mine]
    simpa [totalFilled] using filled
  · rw [mine]
    exact ⟨id, price, by omega, trivial⟩

end Filled

/-! ## One quote -/

namespace SimQuote

/-- The quote of an order that joined behind a queue, once a volume has reached its price. -/
structure Holds (q : SimQuote) (o : Order) (queueAhead volume : Int) : Prop where
  id : q.id = o.clientOrderId
  token : q.token = o.token
  price : q.price = o.price
  queue : q.queueAhead = max 0 (queueAhead - volume)
  remaining : q.remaining = o.qty - o.filledAt queueAhead volume
  active : q.active = decide (0 < q.remaining)

variable {q q' : SimQuote} {o : Order} {queueAhead volume qty : Int} {reports : List FillReport}

/-- A match keeps whose quote it is and brings no quote back. -/
theorem Matched.kept {A : Arithmetic} {side : Side} (matched : q.Matched A side qty reports q') :
    q'.token = q.token ∧ (q'.active = true → q.active = true) ∧
      ∀ f ∈ reports, f.side = side ∧ f.token = q.token := by
  cases matched with
  | absorbed => exact ⟨rfl, fun active => active, by simp⟩
  | filled fillQty tradeNo taken positive =>
    refine ⟨rfl, ?_, ?_⟩
    · intro active
      exact (Bool.and_eq_true _ _ ▸ active).1
    · intro f reported
      obtain rfl := List.mem_singleton.mp reported
      exact ⟨rfl, rfl⟩

/-- Once the order is filled, more volume changes nothing. -/
theorem Holds.spent (holds : q.Holds o queueAhead volume) (done : q.active = false)
    (positive : 0 < o.qty) (more : 0 ≤ qty) :
    q.Holds o queueAhead (volume + qty) ∧
      o.filledAt queueAhead (volume + qty) = o.filledAt queueAhead volume := by
  have none : ¬ 0 < q.remaining := by simpa [done] using holds.active.symm
  have left := holds.remaining
  have same : o.filledAt queueAhead (volume + qty) = o.filledAt queueAhead volume := by
    simp only [Order.filledAt] at left ⊢
    omega
  refine ⟨⟨holds.id, holds.token, holds.price, ?_, same ▸ left, holds.active⟩, same⟩
  rw [holds.queue]
  simp only [Order.filledAt] at left
  omega

/-- A trade moves the volume on by its quantity. -/
theorem Holds.matched (holds : q.Holds o queueAhead volume)
    (matched : q.Matched .wrapping o.side qty reports q') (known : 0 ≤ volume)
    (more : 0 ≤ qty) (qtyFits : FitsI32 qty) (queueFits : FitsI32 queueAhead)
    (orderFits : FitsI32 o.qty) (positive : 0 < o.qty) (active : q.active = true) :
    q'.Holds o queueAhead (volume + qty) ∧
      Filled o queueAhead volume (volume + qty) reports := by
  obtain ⟨id, token, price, queue, remaining, live⟩ := holds
  have left : 0 < q.remaining := by simpa [active] using live
  have nonneg := o.filledAt_nonneg queueAhead volume
  have moved := o.filledAt_add queueAhead volume positive more
  rw [← queue, ← remaining] at moved
  simp only [FitsI32] at qtyFits queueFits orderFits
  -- no difference leaves the range between 0 and what it is taken from
  have queueLeft : i32 (q.queueAhead - min q.queueAhead qty) =
      max 0 (queueAhead - (volume + qty)) := by
    rw [i32_eq_self _ (by simp only [FitsI32]; omega)]
    omega
  have behind : i32 (qty - min q.queueAhead qty) = qty - min q.queueAhead qty :=
    i32_eq_self _ (by simp only [FitsI32]; omega)
  cases matched with
  | absorbed nothing =>
    simp only [Arithmetic.wrapping, behind] at nothing
    have same : o.filledAt queueAhead (volume + qty) = o.filledAt queueAhead volume := by omega
    exact ⟨⟨id, token, price, queueLeft, same ▸ remaining, live⟩, .silent rfl same⟩
  | filled fillQty tradeNo taken positive =>
    simp only [Arithmetic.wrapping, behind] at taken
    rw [← taken] at moved
    have filled : fillQty =
        o.filledAt queueAhead (volume + qty) - o.filledAt queueAhead volume := by omega
    have rest : i32 (q.remaining - fillQty) =
        o.qty - o.filledAt queueAhead (volume + qty) := by
      have part : fillQty ≤ q.remaining := taken ▸ Int.min_le_left _ _
      rw [i32_eq_self _ (by simp only [FitsI32]; omega)]
      omega
    constructor
    · exact ⟨id, token, price, queueLeft, rest, by simp [active]⟩
    · exact .single rfl token id price filled rest

end SimQuote

/-! ## Histories -/

namespace FillSimulator

inductive Call where
  | registerOrder (o : Order) (queueAhead : Int)
  | event (ev : MarketEvent)
  deriving DecidableEq, Repr

/-- One call and the reports it emits. -/
def step (sim : FillSimulator) : Call → List FillReport × FillSimulator
  | .registerOrder o queueAhead => ([], sim.registerOrder o queueAhead)
  | .event ev => sim.onEvent .wrapping ev

abbrev after (sim : FillSimulator) (calls : List Call) : FillSimulator :=
  Machine.after step sim calls

/-- All reports of a list of calls, in the order in which they are emitted. -/
def reports (sim : FillSimulator) (calls : List Call) : List FillReport :=
  (Machine.answers step sim calls).flatten

/-- The call leaves the order registered, and its trade quantity is a non-negative one. -/
def Call.Leaves (o : Order) : Call → Prop
  | .registerOrder o' _ => ¬ (o'.side = o.side ∧ o'.token = o.token)
  | .event ev => ev.msgType = some .trade → 0 ≤ ev.qty ∧ FitsI32 ev.qty

/-- The volume that a call brings to the order's price. -/
def Call.volumeFor (o : Order) : Call → Int
  | .registerOrder _ _ => 0
  | .event ev => if o.reachedBy ev then ev.qty else 0

def volumeFor (o : Order) (calls : List Call) : Int := (calls.map (Call.volumeFor o)).sum

/-- An active quote carries the token of its slot. -/
def Labelled (sim : FillSimulator) : Prop :=
  ∀ side token, (sim.quote side token).active = true → (sim.quote side token).token = token

variable {sim sim' : FillSimulator} {side : Side} {token : Nat} {q : SimQuote} {o : Order}
  {queueAhead volume : Int}

theorem Labelled.writes (labelled : sim.Labelled) (writes : sim.Writes sim' side token q)
    (own : q.active = true → q.token = token) : sim'.Labelled := by
  apply writes.all (P := fun _ t q => q.active = true → q.token = t)
  · exact own
  · exact fun s t _ => labelled s t

theorem Labelled.registerOrder (labelled : sim.Labelled) (o : Order) (queueAhead : Int) :
    (sim.registerOrder o queueAhead).Labelled := by
  simp only [FillSimulator.registerOrder]
  split
  · exact labelled
  · exact labelled.writes (setQuote_writes _ _ _ _) fun _ => rfl

theorem Labelled.onTrade (labelled : sim.Labelled) (ev : MarketEvent) (side : Side) :
    (sim.onTrade .wrapping ev side).2.Labelled := by
  simp only [FillSimulator.onTrade]
  split
  next hit =>
    obtain ⟨q, writes, matched⟩ := sim.matchAgainst_matched side ev.token ev.qty
    obtain ⟨token, active, -⟩ := matched.kept
    apply labelled.writes writes
    intro live
    rw [token]
    exact labelled side ev.token (active live)
  next => exact labelled

theorem Labelled.step (labelled : sim.Labelled) (call : Call) : (sim.step call).2.Labelled := by
  cases call with
  | registerOrder o queueAhead => exact labelled.registerOrder o queueAhead
  | event ev =>
    simp only [FillSimulator.step, onEvent]
    split
    · exact labelled
    split
    · exact labelled
    · exact (labelled.onTrade ev kBuy).onTrade ev kSell

/-- The quote of an order, in its slot, once a volume has reached its price. -/
structure Standing (sim : FillSimulator) (o : Order) (queueAhead volume : Int) : Prop where
  labelled : sim.Labelled
  known : 0 ≤ volume
  holds : (sim.quote o.side o.token).Holds o queueAhead volume

/-- An order of positive quantity that has a slot, behind a queue that is not negative. -/
structure Admitted (o : Order) (queueAhead : Int) : Prop where
  slot : o.token < kSimMaxTokens
  positive : 0 < o.qty
  fits : FitsI32 o.qty
  queue_nonneg : 0 ≤ queueAhead
  queue_fits : FitsI32 queueAhead

namespace Standing

theorem registered (labelled : sim.Labelled) (admitted : Admitted o queueAhead) :
    (sim.registerOrder o queueAhead).Standing o queueAhead 0 := by
  refine ⟨labelled.registerOrder o queueAhead, Int.le_refl 0, ?_⟩
  have positive := admitted.positive
  have nonneg := admitted.queue_nonneg
  rw [FillSimulator.registerOrder, if_neg (Nat.not_le.mpr admitted.slot),
    setQuote_writes _ _ _ _ o.side o.token, if_pos ⟨rfl, rfl⟩, if_neg (by omega)]
  constructor
  · rfl
  · rfl
  · rfl
  · dsimp only
    omega
  · simp only [Order.filledAt]
    omega
  · simp [positive]

/-- A trade that does not meet the order's quote leaves it alone. -/
theorem onTrade_other (standing : sim.Standing o queueAhead volume) (ev : MarketEvent)
    (side : Side) (other : ¬ (side = o.side ∧ ev.token = o.token)) :
    (sim.onTrade .wrapping ev side).2.Standing o queueAhead volume ∧
      Filled o queueAhead volume volume (sim.onTrade .wrapping ev side).1 := by
  have labelled := standing.labelled.onTrade ev side
  simp only [FillSimulator.onTrade] at labelled ⊢
  split
  next hit =>
    rw [if_pos hit] at labelled
    have active : (sim.quote side ev.token).active = true := (Bool.and_eq_true _ _ ▸ hit).1
    obtain ⟨q, writes, matched⟩ := sim.matchAgainst_matched side ev.token ev.qty
    refine ⟨⟨labelled, standing.known, ?_⟩, .silent ?_ rfl⟩
    · rw [writes, if_neg fun same => other ⟨same.1.symm, same.2.symm⟩]
      exact standing.holds
    · apply Order.reportsFor_eq_nil
      intro f reported
      obtain ⟨sideEq, tokenEq⟩ := matched.kept.2.2 f reported
      rw [sideEq, tokenEq, standing.labelled side ev.token active]
      exact other
  next => exact ⟨standing, .silent rfl rfl⟩

/-- A trade on the order's side and token counts when it reaches the price. -/
theorem onTrade_own (standing : sim.Standing o queueAhead volume)
    (admitted : Admitted o queueAhead) {ev : MarketEvent} (trade : ev.msgType = some .trade)
    (own : ev.token = o.token) (nonneg : 0 ≤ ev.qty) (fits : FitsI32 ev.qty) :
    (sim.onTrade .wrapping ev o.side).2.Standing o queueAhead
        (volume + if o.reachedBy ev then ev.qty else 0) ∧
      Filled o queueAhead volume (volume + if o.reachedBy ev then ev.qty else 0)
        (sim.onTrade .wrapping ev o.side).1 := by
  have labelled := standing.labelled.onTrade ev o.side
  have holds := standing.holds
  have known := standing.known
  have reached : (sim.quote o.side ev.token).reachedAt o.side ev.price = o.reachedBy ev := by
    rw [own]
    simp only [SimQuote.reachedAt, Order.reachedBy, holds.price, trade, own]
    cases o.side <;> simp
  simp only [FillSimulator.onTrade, reached] at labelled ⊢
  rw [own] at labelled ⊢
  by_cases hit : o.reachedBy ev = true
  · rw [if_pos hit]
    by_cases active : (sim.quote o.side o.token).active = true
    · rw [if_pos (by simp [active, hit])] at labelled ⊢
      obtain ⟨q, writes, matched⟩ := sim.matchAgainst_matched o.side o.token ev.qty
      obtain ⟨next, filled⟩ := holds.matched matched known nonneg fits admitted.queue_fits
        admitted.fits admitted.positive active
      refine ⟨⟨labelled, by omega, ?_⟩, filled⟩
      rwa [writes, if_pos ⟨rfl, rfl⟩]
    · rw [if_neg (by simp [active])] at labelled ⊢
      obtain ⟨next, same⟩ := holds.spent (by simpa using active) admitted.positive nonneg
      exact ⟨⟨labelled, by omega, next⟩, .silent rfl same⟩
  · rw [if_neg hit, if_neg (by simp [hit]), Int.add_zero]
    exact ⟨standing, .silent rfl rfl⟩

theorem onEvent (standing : sim.Standing o queueAhead volume) (admitted : Admitted o queueAhead)
    (ev : MarketEvent) (leaves : (Call.event ev).Leaves o) :
    (sim.onEvent .wrapping ev).2.Standing o queueAhead (volume + (Call.event ev).volumeFor o) ∧
      Filled o queueAhead volume (volume + (Call.event ev).volumeFor o)
        (sim.onEvent .wrapping ev).1 := by
  simp only [FillSimulator.onEvent, Call.volumeFor]
  -- the two tests before the sides, and trades on other tokens, bring no volume
  have unmoved (missed : o.reachedBy ev = false) :
      (volume + if o.reachedBy ev then ev.qty else 0) = volume := by simp [missed]
  split
  next quiet =>
    rw [unmoved (by simp [Order.reachedBy, quiet])]
    exact ⟨standing, .silent rfl rfl⟩
  next trade =>
  have trade := Decidable.not_not.mp trade
  split
  next outside =>
    have slot := admitted.slot
    rw [unmoved (by simp [Order.reachedBy, show ev.token ≠ o.token by omega])]
    exact ⟨standing, .silent rfl rfl⟩
  next =>
    by_cases own : ev.token = o.token
    · obtain ⟨nonneg, fits⟩ := leaves trade
      -- the whole quantity meets either side; only one of them is the order's
      cases bought : o.side with
      | true =>
        obtain ⟨first, filled⟩ := standing.onTrade_own admitted trade own nonneg fits
        rw [bought] at first filled
        obtain ⟨second, silent⟩ := first.onTrade_other ev kSell (by simp [bought])
        exact ⟨second, filled.append silent⟩
      | false =>
        obtain ⟨first, silent⟩ := standing.onTrade_other ev kBuy (by simp [bought])
        obtain ⟨second, filled⟩ := first.onTrade_own admitted trade own nonneg fits
        rw [bought] at second filled
        exact ⟨second, silent.append filled⟩
    · rw [unmoved (by simp [Order.reachedBy, own])]
      obtain ⟨first, silent⟩ := standing.onTrade_other ev kBuy fun same => own same.2
      obtain ⟨second, silent'⟩ := first.onTrade_other ev kSell fun same => own same.2
      exact ⟨second, silent.append silent'⟩

theorem step (standing : sim.Standing o queueAhead volume) (admitted : Admitted o queueAhead)
    (call : Call) (leaves : call.Leaves o) :
    (sim.step call).2.Standing o queueAhead (volume + call.volumeFor o) ∧
      Filled o queueAhead volume (volume + call.volumeFor o) (sim.step call).1 := by
  cases call with
  | registerOrder o' queueAhead' =>
    simp only [FillSimulator.step, Call.volumeFor, Int.add_zero]
    refine ⟨⟨standing.labelled.registerOrder o' queueAhead', standing.known, ?_⟩,
      .silent rfl rfl⟩
    simp only [FillSimulator.registerOrder]
    split
    · exact standing.holds
    · rw [setQuote_writes _ _ _ _ o.side o.token,
        if_neg fun same => leaves ⟨same.1.symm, same.2.symm⟩]
      exact standing.holds
  | event ev => exact standing.onEvent admitted ev leaves

theorem run (standing : sim.Standing o queueAhead volume) (admitted : Admitted o queueAhead)
    (calls : List Call) (leaves : ∀ call ∈ calls, call.Leaves o) :
    Filled o queueAhead volume (volume + volumeFor o calls) (sim.reports calls) := by
  induction calls generalizing sim volume with
  | nil => exact .silent rfl (by simp [volumeFor])
  | cons call rest ih =>
    obtain ⟨next, filled⟩ := standing.step admitted call (leaves call List.mem_cons_self)
    have later := ih next fun call member => leaves call (List.mem_cons_of_mem _ member)
    have sum : volume + volumeFor o (call :: rest) =
        volume + call.volumeFor o + volumeFor o rest := by
      simp [volumeFor, Int.add_assoc]
    rw [sum]
    exact filled.append later

end Standing

theorem after_labelled (calls : List Call) : (after {} calls).Labelled := by
  apply Machine.after_invariant step Labelled fun sim call labelled => labelled.step call
  intro side token active
  cases side <;> cases active

/-- What is filled of an order that is registered after any history and not replaced is
determined by the volume that has reached its price since: the part of it behind the queue, up
to the quantity of the order. Two continuations that bring the same volume, however it is split
and ordered, fill the same. -/
theorem queue_fills_closed_form (before calls : List Call) (o : Order) (queueAhead : Int)
    (admitted : Admitted o queueAhead) (leaves : ∀ call ∈ calls, call.Leaves o) :
    let sim := (after {} before).registerOrder o queueAhead
    totalFilled (o.reportsFor (sim.reports calls)) =
        max 0 (min o.qty (volumeFor o calls - queueAhead)) ∧
      CountsDown o 0 (o.reportsFor (sim.reports calls)) ∧
      ∀ calls' : List Call, (∀ call ∈ calls', call.Leaves o) →
        volumeFor o calls' = volumeFor o calls →
        totalFilled (o.reportsFor (sim.reports calls')) =
          totalFilled (o.reportsFor (sim.reports calls)) := by
  intro sim
  have standing : sim.Standing o queueAhead 0 := .registered (after_labelled before) admitted
  have start : o.filledAt queueAhead 0 = 0 := by
    have nonneg := admitted.queue_nonneg
    simp only [Order.filledAt]
    omega
  have total (calls' : List Call) (leaves' : ∀ call ∈ calls', call.Leaves o) :
      totalFilled (o.reportsFor (sim.reports calls')) =
        o.filledAt queueAhead (volumeFor o calls') := by
    have filled := (standing.run admitted calls' leaves').total
    rwa [start, Int.sub_zero, Int.zero_add] at filled
  refine ⟨total calls leaves, start ▸ (standing.run admitted calls leaves).counts, ?_⟩
  intro calls' leaves' same
  rw [total calls leaves, total calls' leaves', same]

private def joined : Order := { clientOrderId := 7, token := 3, price := 100, qty := 10 }

private def print (price qty : Int) : Call :=
  .event { token := 3, price := price, qty := qty, type := MtbtMsgType.trade.code }

/-- Behind a queue of five, trades of four, three, none and twenty fill two and then eight. -/
theorem second_trade_starts_filling :
    volumeFor joined [print 100 4, print 99 3, print 101 50, print 100 20] = 27 ∧
    totalFilled (joined.reportsFor
      (((after {} []).registerOrder joined 5).reports
        [print 100 4, print 99 3, print 101 50, print 100 20])) = 10 := by
  have leaves : ∀ call ∈ [print 100 4, print 99 3, print 101 50, print 100 20],
      call.Leaves joined := by
    simp [print, Call.Leaves, FitsI32]
  have volume : volumeFor joined [print 100 4, print 99 3, print 101 50, print 100 20] = 27 := by
    decide
  have admitted : Admitted joined 5 :=
    ⟨by decide, by decide, by decide, by decide, by decide⟩
  refine ⟨volume, ?_⟩
  rw [(queue_fills_closed_form [] _ joined 5 admitted leaves).1, volume]
  rfl

end FillSimulator

end NseHft
