import NseHft.Common.TimeUtils
import NseHft.OrderBook.BookManager
import NseHft.Session.SymbolMaster
import NseHft.Strategy.QuotingMath

/-!
# Market making

Quotes one tick inside the touch on each side. Client order ids count up without wrapping;
the wall clock is an argument, read only when no simulated time is set.
-/
namespace NseHft

open FixedWidth

structure MarketMakingConfig where
  segment : Nat := kSegmentCm
  maxPositionLots : Int := 10
  maxSpreadTicks : Int := 3
  quoteTtlNs : Nat := 500000
  quoteLots : Int := 1
  maxInvSkewTicks : Int := 0
  maxFlowSkewTicks : Int := 0
  deriving DecidableEq, Repr

/-- One side of the source's per-token quote state. -/
structure SideQuote where
  active : Bool := false
  price : Int := 0
  ts : Nat := 0
  clordid : Int := 0
  deriving DecidableEq, Repr

structure QuoteState where
  bid : SideQuote := {}
  ask : SideQuote := {}
  deriving DecidableEq, Repr

namespace QuoteState

def side (q : QuoteState) : Side → SideQuote
  | kBuy => q.bid
  | kSell => q.ask

def setSide (q : QuoteState) (s : Side) (quote : SideQuote) : QuoteState :=
  match s with
  | kBuy => { q with bid := quote }
  | kSell => { q with ask := quote }

@[simp] theorem side_setSide (q : QuoteState) (s t : Side) (quote : SideQuote) :
    (q.setSide s quote).side t = if t = s then quote else q.side t := by
  cases s <;> cases t <;> rfl

end QuoteState

def kMaxPending : Nat := 16

structure MarketMaking where
  symbols : Option SymbolMaster
  cfg : MarketMakingConfig
  quotes : Nat → QuoteState := fun _ => {}
  position : Nat → Int := fun _ => 0
  -- counts the orders without wrapping; a 64-bit integer in the source
  nextClordid : Int := 1
  simNowNs : Nat := 0
  pending : List Order := []
  cancels : List Int := []

namespace MarketMaking

variable (A : Arithmetic)

def setNow (mm : MarketMaking) (istNs : Nat) : MarketMaking := { mm with simNowNs := istNs }

def tickSize (mm : MarketMaking) (token : Nat) : Int :=
  let t := match mm.symbols with
    | some symbols => symbols.getTickSize token
    | none => 0
  if t > 0 then t else 1

def lotSize (mm : MarketMaking) (token : Nat) : Int :=
  let l := match mm.symbols with
    | some symbols => symbols.getLotSize token
    | none => 0
  if l > 0 then l else 1

def setQuote (mm : MarketMaking) (token : Nat) (side : Side) (quote : SideQuote) : MarketMaking :=
  { mm with quotes := Function.update mm.quotes token ((mm.quotes token).setSide side quote) }

def emitCancel (mm : MarketMaking) (id : Int) : MarketMaking :=
  if mm.cancels.length < kMaxPending then { mm with cancels := mm.cancels ++ [id] } else mm

def cancelSide (mm : MarketMaking) (token : Nat) (side : Side) : MarketMaking :=
  let quote := (mm.quotes token).side side
  if quote.active then
    (mm.emitCancel quote.clordid).setQuote token side { quote with active := false }
  else mm

def newQuote (mm : MarketMaking) (id : Int) (token : Nat) (side : Side) (price qty : Int)
    (now : Nat) : Order :=
  { clientOrderId := id, exchangeOrderNo := 0, token := token, segment := mm.cfg.segment
    price := price, qty := qty, disclosedQty := 0, side := side, orderType := .limit
    validity := .day, createdAt := now }

/-- The id of the new order, 0 when the buffer is full. -/
def emitNew (mm : MarketMaking) (token : Nat) (side : Side) (price qty : Int) (now : Nat) :
    Int × MarketMaking :=
  if mm.pending.length ≥ kMaxPending then (0, mm)
  else
    let o := mm.newQuote mm.nextClordid token side price qty now
    (o.clientOrderId, { mm with nextClordid := mm.nextClordid + 1, pending := mm.pending ++ [o] })

/-- The quote has outlived its time to live; the age is an unsigned difference. -/
def expired (mm : MarketMaking) (quote : SideQuote) (now : Nat) : Bool :=
  decide (u64 (now + 2 ^ 64 - quote.ts) > mm.cfg.quoteTtlNs)

/-- Place, refresh or hold the quote of one side. -/
def quoteOneSide (mm : MarketMaking) (token : Nat) (side : Side) (desired qty : Int)
    (allowed : Bool) (now : Nat) : MarketMaking :=
  let quote := (mm.quotes token).side side
  if !allowed then mm.cancelSide token side
  else
    let stale := quote.active && mm.expired quote now
    if quote.active && quote.price == desired && !stale then mm
    else
      -- the side is marked active whatever risk and order manager make of the order
      let mm := if quote.active then mm.cancelSide token side else mm
      let (id, mm) := mm.emitNew token side desired qty now
      mm.setQuote token side { active := true, price := desired, ts := now, clordid := id }

def quoteQty (mm : MarketMaking) (token : Nat) : Int :=
  A.i32 (mm.cfg.quoteLots * mm.lotSize token)

/-- What one side should quote. -/
structure QuotePlan where
  desired : Int
  allowed : Bool
  deriving DecidableEq, Repr

/-- The plan of both sides for a book, `none` when nothing is to be quoted: one side empty,
or the spread too wide. -/
def plan (mm : MarketMaking) (token : Nat) (book : OrderBook) : Option (Side → QuotePlan) :=
  match book.bestBid, book.bestAsk with
  | some bid, some ask =>
    let tick := mm.tickSize token
    if tick ≤ 0 ∨ A.i64 (ask.price - bid.price) > A.i64 (mm.cfg.maxSpreadTicks * tick) then none
    else
      let lot := mm.lotSize token
      let netLots := if lot > 0 then (mm.position token).tdiv lot else mm.position token
      let maxPosUnits := A.i32 (mm.cfg.maxPositionLots * lot)
      let q := Quoting.desiredQuotes A bid.price ask.price tick bid.totalQuantity ask.totalQuantity
        (mm.position token) maxPosUnits mm.cfg.maxInvSkewTicks mm.cfg.maxFlowSkewTicks
      let inBand (price : Int) : Bool :=
        match priceBand A.i64 mm.symbols token with
        | none => true
        | some (lo, hi) => decide (price ≥ lo) && decide (price ≤ hi)
      some fun
        | kBuy => ⟨q.bidPrice, decide (netLots < mm.cfg.maxPositionLots) && inBand q.bidPrice⟩
        | kSell =>
          ⟨q.askPrice, decide (netLots > A.i32 (-mm.cfg.maxPositionLots)) && inBand q.askPrice⟩
  | _, _ => none

/-- Empties the output buffers of the previous update. -/
def cleared (mm : MarketMaking) : MarketMaking := { mm with pending := [], cancels := [] }

/-- The clock of an update. -/
def now (mm : MarketMaking) (wallClock : Nat) : Nat :=
  if mm.simNowNs ≠ 0 then mm.simNowNs else wallClock

def onBookUpdate (mm : MarketMaking) (wallClock token : Nat) (book : OrderBook) : MarketMaking :=
  let mm := mm.cleared
  if token ≥ kMaxTokens then mm
  else
    let now := mm.now wallClock
    -- pre-close sweep: cancel everything, place nothing
    if now ≥ precloseCancelNs now then (mm.cancelSide token kBuy).cancelSide token kSell
    else if !isWithinMarketHours now then mm
    else
      match mm.plan A token book with
      | none => mm
      | some plan =>
        let qty := mm.quoteQty A token
        let mm := mm.quoteOneSide token kBuy (plan kBuy).desired qty (plan kBuy).allowed now
        mm.quoteOneSide token kSell (plan kSell).desired qty (plan kSell).allowed now

def onFill (mm : MarketMaking) (fill : FillReport) : MarketMaking :=
  if fill.token ≥ kMaxTokens then mm
  else
    let signedQty := if fill.side = kBuy then fill.fillQty else A.i32 (-fill.fillQty)
    let q := mm.quotes fill.token
    let done (quote : SideQuote) : SideQuote :=
      if fill.clientOrderId = quote.clordid ∧ fill.remainingQty = 0 then
        { quote with active := false }
      else quote
    { mm with
      position := Function.update mm.position fill.token
        (A.i32 (mm.position fill.token + signedQty))
      quotes := Function.update mm.quotes fill.token ⟨done q.bid, done q.ask⟩ }

/-- Clears the first active quote with this id, by token, the bid before the ask. -/
def onCancel (mm : MarketMaking) (id : Int) : MarketMaking :=
  let resting (token : Nat) (side : Side) : Bool :=
    ((mm.quotes token).side side).active && ((mm.quotes token).side side).clordid == id
  match (List.range kMaxTokens).find? fun token => resting token kBuy || resting token kSell with
  | none => mm
  | some token =>
    let side := if resting token kBuy then kBuy else kSell
    mm.setQuote token side { (mm.quotes token).side side with active := false }

/-! ## What an update does -/

/-- The plan that an update follows; `none` when it places nothing whatever the quotes are. -/
def session (mm : MarketMaking) (now token : Nat) (book : OrderBook) : Option (Side → QuotePlan) :=
  if token ≥ kMaxTokens ∨ now ≥ precloseCancelNs now ∨ isWithinMarketHours now = false then none
  else mm.plan A token book

/-- The resting quote of a side is what the plan wants. -/
def settled (mm : MarketMaking) (now token : Nat) (side : Side) (plan : QuotePlan) : Bool :=
  let quote := (mm.quotes token).side side
  quote.active && quote.price == plan.desired && !mm.expired quote now

/-- The plan calls for a new order on the side. -/
def due (mm : MarketMaking) (now token : Nat) (side : Side) (plan : QuotePlan) : Bool :=
  plan.allowed && !mm.settled now token side plan

/-- The orders an update emits. -/
def dueOrders (mm : MarketMaking) (now token : Nat) (book : OrderBook) : List Order :=
  match mm.session A now token book with
  | none => []
  | some plan =>
    let order (id : Int) (side : Side) : List Order :=
      if mm.due now token side (plan side) then
        [mm.newQuote id token side (plan side).desired (mm.quoteQty A token) now]
      else []
    let bids := order mm.nextClordid kBuy
    bids ++ order (mm.nextClordid + bids.length) kSell

/-- The active quote of a side comes off: it is not allowed any more, the plan wants another
price, or it has expired. -/
def drops (mm : MarketMaking) (now token : Nat) (side : Side) (plan : QuotePlan) : Bool :=
  ((mm.quotes token).side side).active && !(plan.allowed && mm.settled now token side plan)

/-- An update takes the active quote of a side off, in the pre-close sweep or by its plan. -/
def withdraws (mm : MarketMaking) (now token : Nat) (book : OrderBook) (side : Side) : Bool :=
  if token < kMaxTokens ∧ now ≥ precloseCancelNs now then ((mm.quotes token).side side).active
  else
    match mm.session A now token book with
    | none => false
    | some plan => mm.drops now token side (plan side)

/-- What an update wants of both sides: its plan, or nothing at all in the pre-close sweep;
`none` when it leaves the quotes alone. -/
def intent (mm : MarketMaking) (now token : Nat) (book : OrderBook) : Option (Side → QuotePlan) :=
  if token ≥ kMaxTokens then none
  else if now ≥ precloseCancelNs now then some fun _ => ⟨0, false⟩
  else if !isWithinMarketHours now then none
  else mm.plan A token book

section Update

variable {A} {mm mm' : MarketMaking} {now token : Nat} {side : Side} {plan : QuotePlan} {qty : Int}

@[simp] theorem setQuote_side (quote : SideQuote) (t : Nat) (s : Side) :
    ((mm.setQuote token side quote).quotes t).side s =
      if t = token ∧ s = side then quote else (mm.quotes t).side s := by
  by_cases here : t = token
  · subst here
    simp [setQuote]
  · simp [setQuote, here]

@[simp] theorem setQuote_cfg (quote : SideQuote) : (mm.setQuote token side quote).cfg = mm.cfg := rfl

@[simp] theorem setQuote_pending (quote : SideQuote) :
    (mm.setQuote token side quote).pending = mm.pending := rfl

@[simp] theorem setQuote_cancels (quote : SideQuote) :
    (mm.setQuote token side quote).cancels = mm.cancels := rfl

@[simp] theorem setQuote_nextClordid (quote : SideQuote) :
    (mm.setQuote token side quote).nextClordid = mm.nextClordid := rfl

/-- All that quoting one side does. -/
structure SideUpdate (mm mm' : MarketMaking) (now token : Nat) (side : Side) (plan : QuotePlan)
    (qty : Int) : Prop where
  cfg : mm'.cfg = mm.cfg
  pending : mm'.pending = mm.pending ++
    if mm.due now token side plan then
      [mm.newQuote mm.nextClordid token side plan.desired qty now] else []
  cancels : mm'.cancels = mm.cancels ++
    if mm.drops now token side plan then [((mm.quotes token).side side).clordid] else []
  nextClordid : mm'.nextClordid = mm.nextClordid + if mm.due now token side plan then 1 else 0
  quote : (mm'.quotes token).side side =
    if mm.due now token side plan then ⟨true, plan.desired, now, mm.nextClordid⟩
    else
      { (mm.quotes token).side side with
        active := ((mm.quotes token).side side).active && !mm.drops now token side plan }
  others : ∀ t s, ¬(t = token ∧ s = side) → (mm'.quotes t).side s = (mm.quotes t).side s

private theorem emitCancel_eq (space : mm.cancels.length < kMaxPending) (id : Int) :
    mm.emitCancel id = { mm with cancels := mm.cancels ++ [id] } := if_pos space

private theorem emitNew_eq (room : mm.pending.length < kMaxPending) (price : Int) :
    mm.emitNew token side price qty now =
      (mm.nextClordid,
        { mm with
          nextClordid := mm.nextClordid + 1
          pending := mm.pending ++ [mm.newQuote mm.nextClordid token side price qty now] }) :=
  if_neg (Nat.not_le.mpr room)

private theorem withActive_self {quote : SideQuote} {b : Bool} (same : quote.active = b) :
    { quote with active := b } = quote := by
  subst same
  rfl

theorem quoteOneSide_update (room : mm.pending.length < kMaxPending)
    (space : mm.cancels.length < kMaxPending) :
    SideUpdate mm (mm.quoteOneSide token side plan.desired qty plan.allowed now)
      now token side plan qty := by
  -- the cases follow the branches of the code: allowed, active, settled
  have same := @withActive_self ((mm.quotes token).side side)
  cases allowed : plan.allowed with
  | false =>
    -- pulls what is there
    cases active : ((mm.quotes token).side side).active <;> constructor <;>
      simp +contextual [quoteOneSide, cancelSide, emitCancel_eq space, due, drops, allowed, active,
        same active]
  | true =>
    cases active : ((mm.quotes token).side side).active with
    | false =>
      constructor <;>
        simp +contextual [quoteOneSide, emitNew_eq room, due, drops, settled, allowed, active]
    | true =>
      cases wanted : mm.settled now token side plan with
      | true =>
        -- right price and still fresh: no churn
        have held : mm.quoteOneSide token side plan.desired qty true now = mm := by
          simp_all [quoteOneSide, settled]
        rw [held]
        constructor <;> simp [due, drops, allowed, active, wanted, same active]
      | false =>
        -- pulled first, then placed anew
        have unsettled : (((mm.quotes token).side side).price == plan.desired &&
            !mm.expired ((mm.quotes token).side side) now) = false := by
          simpa [settled, active] using wanted
        have pulled : mm.cancelSide token side =
            { mm with cancels := mm.cancels ++ [((mm.quotes token).side side).clordid] }.setQuote
              token side { (mm.quotes token).side side with active := false } := by
          simp [cancelSide, active, emitCancel_eq space]
        have placed := @emitNew_eq (mm.cancelSide token side) now token side qty
          (by rw [pulled]; exact room) plan.desired
        rw [pulled] at placed
        constructor <;>
          simp +contextual [quoteOneSide, pulled, placed, unsettled, due, drops, allowed, active,
            wanted, newQuote]

/-- From empty buffers, one side leaves room for the other. -/
theorem SideUpdate.pending_lt (update : SideUpdate mm mm' now token side plan qty)
    (empty : mm.pending = []) : mm'.pending.length < kMaxPending := by
  rw [update.pending, empty]
  split <;> simp [kMaxPending]

theorem SideUpdate.cancels_lt (update : SideUpdate mm mm' now token side plan qty)
    (empty : mm.cancels = []) : mm'.cancels.length < kMaxPending := by
  rw [update.cancels, empty]
  split <;> simp [kMaxPending]

theorem SideUpdate.settled_eq {s : Side} (update : SideUpdate mm mm' now token side plan qty)
    (other : s ≠ side) (plan : QuotePlan) :
    mm'.settled now token s plan = mm.settled now token s plan := by
  have quote := update.others token s (fun same => other same.2)
  simp only [settled, expired, quote, update.cfg]

theorem SideUpdate.drops_eq {s : Side} (update : SideUpdate mm mm' now token side plan qty)
    (other : s ≠ side) (plan : QuotePlan) :
    mm'.drops now token s plan = mm.drops now token s plan := by
  have quote := update.others token s (fun same => other same.2)
  simp only [drops, quote, update.settled_eq other]

variable {wallClock : Nat} {book : OrderBook} {plans : Side → QuotePlan}

theorem onBookUpdate_eq : mm.onBookUpdate A wallClock token book =
    match mm.intent A (mm.now wallClock) token book with
    | none => mm.cleared
    | some plans =>
      let mid := mm.cleared.quoteOneSide token kBuy (plans kBuy).desired (mm.quoteQty A token)
        (plans kBuy).allowed (mm.now wallClock)
      mid.quoteOneSide token kSell (plans kSell).desired (mm.quoteQty A token)
        (plans kSell).allowed (mm.now wallClock) := by
  simp only [onBookUpdate, intent, show mm.cleared.now wallClock = mm.now wallClock from rfl]
  split
  · rfl
  split
  · rfl
  split
  · rfl
  rw [show mm.cleared.plan A token book = mm.plan A token book from rfl]
  cases mm.plan A token book <;> rfl

theorem onBookUpdate_idle (idle : mm.intent A (mm.now wallClock) token book = none) :
    mm.onBookUpdate A wallClock token book = mm.cleared := by
  rw [onBookUpdate_eq, idle]

/-- An update that wants something quotes the bid and then the ask. -/
theorem onBookUpdate_intent (wanted : mm.intent A (mm.now wallClock) token book = some plans) :
    ∃ mid, SideUpdate mm.cleared mid (mm.now wallClock) token kBuy (plans kBuy) (mm.quoteQty A token) ∧
      SideUpdate mid (mm.onBookUpdate A wallClock token book) (mm.now wallClock) token kSell
        (plans kSell) (mm.quoteQty A token) := by
  have bid : SideUpdate mm.cleared _ (mm.now wallClock) token kBuy (plans kBuy)
      (mm.quoteQty A token) := quoteOneSide_update (by exact (by decide : 0 < kMaxPending))
        (by exact (by decide : 0 < kMaxPending))
  have ask := @quoteOneSide_update _ (mm.now wallClock) token kSell (plans kSell)
    (mm.quoteQty A token) (bid.pending_lt rfl) (bid.cancels_lt rfl)
  refine ⟨_, bid, ?_⟩
  rw [onBookUpdate_eq, wanted]
  exact ask

/-- The sweep places nothing, so the orders that are due follow from the intent. -/
theorem dueOrders_eq : mm.dueOrders A now token book =
    match mm.intent A now token book with
    | none => []
    | some plan =>
      let order (id : Int) (side : Side) : List Order :=
        if mm.due now token side (plan side) then
          [mm.newQuote id token side (plan side).desired (mm.quoteQty A token) now]
        else []
      let bids := order mm.nextClordid kBuy
      bids ++ order (mm.nextClordid + bids.length) kSell := by
  simp only [dueOrders, session, intent]
  by_cases outside : token ≥ kMaxTokens
  · simp only [outside, true_or, if_true]
  by_cases late : now ≥ precloseCancelNs now
  · simp only [outside, late, true_or, or_true, if_true, if_false, due, Bool.false_and,
      Bool.false_eq_true, List.append_nil]
  cases hours : isWithinMarketHours now <;>
    simp only [outside, late, or_self, or_true, if_true, if_false, Bool.not_false, Bool.not_true,
      Bool.true_eq_false, Bool.false_eq_true]

theorem withdraws_eq (side : Side) : mm.withdraws A now token book side =
    match mm.intent A now token book with
    | none => false
    | some plan => mm.drops now token side (plan side) := by
  simp only [withdraws, session, intent]
  by_cases outside : token ≥ kMaxTokens
  · simp only [outside, Nat.not_lt.mpr outside, false_and, true_or, if_true, if_false]
  have inside : token < kMaxTokens := Nat.lt_of_not_le outside
  by_cases late : now ≥ precloseCancelNs now
  · simp only [outside, inside, late, true_and, if_true, if_false, drops, Bool.false_and,
      Bool.not_false, Bool.and_true]
  cases hours : isWithinMarketHours now <;>
    simp only [outside, late, and_false, or_self, or_true, if_true, if_false, Bool.not_false,
      Bool.not_true, Bool.true_eq_false, Bool.false_eq_true]

/-- An update emits the orders that are due, and no others. -/
theorem onBookUpdate_pending :
    (mm.onBookUpdate A wallClock token book).pending =
      mm.dueOrders A (mm.now wallClock) token book := by
  rw [dueOrders_eq]
  cases wanted : mm.intent A (mm.now wallClock) token book with
  | none => rw [onBookUpdate_idle wanted, cleared]
  | some plans =>
    obtain ⟨mid, bid, ask⟩ := onBookUpdate_intent wanted
    -- the ask is decided on the quotes as they were before the bid was placed
    have due : mid.due (mm.now wallClock) token kSell (plans kSell) =
        mm.due (mm.now wallClock) token kSell (plans kSell) := by
      simp only [due, bid.settled_eq (by decide : kSell ≠ kBuy)]
      rfl
    have first : mm.cleared.due (mm.now wallClock) token kBuy (plans kBuy) =
        mm.due (mm.now wallClock) token kBuy (plans kBuy) := rfl
    have cfg : mid.cfg = mm.cfg := bid.cfg
    rw [ask.pending, bid.pending, bid.nextClordid, due, first]
    simp only [newQuote, cfg]
    split_ifs <;> simp [cleared]

/-- Of the book only the touch is read. -/
theorem dueOrders_congr {book' : OrderBook} (bid : book'.bestBid = book.bestBid)
    (ask : book'.bestAsk = book.bestAsk) :
    mm.dueOrders A now token book' = mm.dueOrders A now token book := by
  simp only [dueOrders, session, plan, bid, ask]

/-- At most one order a side. -/
theorem onBookUpdate_pending_length : (mm.onBookUpdate A wallClock token book).pending.length ≤ 2 := by
  rw [onBookUpdate_pending, dueOrders]
  split
  · simp
  · dsimp only
    split_ifs <;> simp

/-- It lists the quotes that it withdraws, and no others. -/
theorem onBookUpdate_cancels :
    (mm.onBookUpdate A wallClock token book).cancels =
      ([kBuy, kSell].filter fun side => mm.withdraws A (mm.now wallClock) token book side).map
        fun side => ((mm.quotes token).side side).clordid := by
  simp only [withdraws_eq]
  cases wanted : mm.intent A (mm.now wallClock) token book with
  | none => simp [onBookUpdate_idle wanted, cleared]
  | some plans =>
    obtain ⟨mid, bid, ask⟩ := onBookUpdate_intent wanted
    have other : (mid.quotes token).side kSell = (mm.quotes token).side kSell :=
      bid.others token kSell (fun same => Bool.noConfusion same.2)
    have same : ∀ side, mm.cleared.drops (mm.now wallClock) token side (plans side) =
        mm.drops (mm.now wallClock) token side (plans side) := fun _ => rfl
    rw [ask.cancels, bid.cancels, bid.drops_eq (by decide), same, same, other]
    simp only [List.filter_cons, List.filter_nil]
    split_ifs <;> rfl

/-- A quote in whose place an order is due comes off. -/
theorem drops_of_due (due : mm.due now token side plan = true) :
    mm.drops now token side plan = ((mm.quotes token).side side).active := by
  simp only [MarketMaking.due, Bool.and_eq_true, Bool.not_eq_true'] at due
  simp only [drops, due.1, due.2, Bool.and_false, Bool.not_false, Bool.and_true]

/-- An order comes from a plan under which one is due on its side. -/
theorem onBookUpdate_planned {o : Order}
    (member : o ∈ (mm.onBookUpdate A wallClock token book).pending) :
    ∃ plans id, mm.session A (mm.now wallClock) token book = some plans ∧
      mm.due (mm.now wallClock) token o.side (plans o.side) = true ∧
      o = mm.newQuote id token o.side (plans o.side).desired (mm.quoteQty A token)
        (mm.now wallClock) := by
  rw [onBookUpdate_pending, dueOrders] at member
  split at member
  · cases member
  next plans chosen =>
    have placed (id : Int) (side : Side) (here : o ∈
        if mm.due (mm.now wallClock) token side (plans side) then
          [mm.newQuote id token side (plans side).desired (mm.quoteQty A token) (mm.now wallClock)]
        else []) : mm.due (mm.now wallClock) token o.side (plans o.side) = true ∧
          o = mm.newQuote id token o.side (plans o.side).desired (mm.quoteQty A token)
            (mm.now wallClock) := by
      split at here
      next due =>
        obtain rfl := List.mem_singleton.mp here
        exact ⟨due, rfl⟩
      · cases here
    rcases List.mem_append.mp member with isBid | isAsk
    · exact ⟨plans, _, chosen, placed _ kBuy isBid⟩
    · exact ⟨plans, _, chosen, placed _ kSell isAsk⟩

/-- Where an order is due, the update places one. -/
theorem onBookUpdate_places (chosen : mm.session A (mm.now wallClock) token book = some plans)
    (due : mm.due (mm.now wallClock) token side (plans side) = true) :
    ∃ o ∈ (mm.onBookUpdate A wallClock token book).pending,
      o.token = token ∧ o.side = side ∧ o.qty = mm.quoteQty A token := by
  have here (id : Int) :
      mm.newQuote id token side (plans side).desired (mm.quoteQty A token) (mm.now wallClock) ∈
        if mm.due (mm.now wallClock) token side (plans side) then
          [mm.newQuote id token side (plans side).desired (mm.quoteQty A token) (mm.now wallClock)]
        else [] := by
    rw [if_pos due]
    exact List.mem_singleton_self _
  rw [onBookUpdate_pending, dueOrders, chosen]
  cases side with
  | true => exact ⟨_, List.mem_append_left _ (here _), rfl, rfl, rfl⟩
  | false => exact ⟨_, List.mem_append_right _ (here _), rfl, rfl, rfl⟩

theorem allowed_of_due (due : mm.due now token side plan = true) : plan.allowed = true :=
  (Bool.and_eq_true_iff.mp due).1

/-- What a session checks before it lets a side quote: the hours, the circuit band, and whole
lots against the cap. -/
theorem session_allowed (chosen : mm.session A now token book = some plans)
    (allowed : (plans side).allowed = true) :
    isWithinMarketHours now = true ∧
      (∀ band ∈ priceBand A.i64 mm.symbols token,
        band.1 ≤ (plans side).desired ∧ (plans side).desired ≤ band.2) ∧
      (side = kBuy → (mm.position token).tdiv (mm.lotSize token) < mm.cfg.maxPositionLots) ∧
      (side = kSell →
        A.i32 (-mm.cfg.maxPositionLots) < (mm.position token).tdiv (mm.lotSize token)) := by
  rw [session] at chosen
  split at chosen
  · cases chosen
  next opened =>
    simp only [not_or, Bool.not_eq_false] at opened
    refine ⟨opened.2.2, ?_⟩
    have lot : mm.lotSize token > 0 := by
      simp only [lotSize]
      split_ifs <;> omega
    rw [plan] at chosen
    -- without both sides of the book there is no plan
    cases bid : book.bestBid with
    | none => simp only [bid, reduceCtorEq] at chosen
    | some bid =>
    cases ask : book.bestAsk with
    | none => simp only [bid, ask, reduceCtorEq] at chosen
    | some ask =>
    cases band : priceBand A.i64 mm.symbols token <;>
      simp only [bid, ask, band, if_pos lot] at chosen <;>
      split_ifs at chosen <;>
      obtain rfl := Option.some.inj chosen <;>
      cases side <;> simpa [and_comm] using allowed

/-- The orders of an update are for its token, which is in the table. -/
theorem onBookUpdate_token {o : Order}
    (member : o ∈ (mm.onBookUpdate A wallClock token book).pending) :
    o.token = token ∧ token < kMaxTokens := by
  obtain ⟨plans, id, chosen, _, order⟩ := onBookUpdate_planned member
  refine ⟨by rw [order, newQuote], ?_⟩
  rw [session] at chosen
  split at chosen
  · cases chosen
  next opened => exact Nat.lt_of_not_le fun outside => opened (.inl outside)

/-- What becomes of one side of the token that is updated. -/
private theorem onBookUpdate_side (wanted : mm.intent A (mm.now wallClock) token book = some plans)
    (s : Side) : ∃ id,
    (mm.onBookUpdate A wallClock token book).pending.filter (fun o => o.token = token ∧ o.side = s) =
      (if mm.due (mm.now wallClock) token s (plans s) then
        [mm.newQuote id token s (plans s).desired (mm.quoteQty A token) (mm.now wallClock)] else []) ∧
    ((mm.onBookUpdate A wallClock token book).quotes token).side s =
      if mm.due (mm.now wallClock) token s (plans s) then
        ⟨true, (plans s).desired, mm.now wallClock, id⟩
      else
        { (mm.quotes token).side s with
          active := ((mm.quotes token).side s).active &&
            !mm.drops (mm.now wallClock) token s (plans s) } := by
  obtain ⟨mid, bid, ask⟩ := onBookUpdate_intent wanted
  rw [onBookUpdate_pending, dueOrders_eq, wanted]
  cases s with
  | true =>
    refine ⟨mm.nextClordid, ?_, ?_⟩
    · dsimp only
      rw [List.filter_append]
      split_ifs <;> simp [newQuote]
    · rw [ask.others token kBuy (fun same => Bool.noConfusion same.2), bid.quote]
      rfl
  | false =>
    have due : mid.due (mm.now wallClock) token kSell (plans kSell) =
        mm.due (mm.now wallClock) token kSell (plans kSell) := by
      simp only [due, bid.settled_eq (by decide : kSell ≠ kBuy)]
      rfl
    have drops : mid.drops (mm.now wallClock) token kSell (plans kSell) =
        mm.drops (mm.now wallClock) token kSell (plans kSell) := bid.drops_eq (by decide) _
    have before : (mid.quotes token).side kSell = (mm.quotes token).side kSell :=
      bid.others token kSell (fun same => Bool.noConfusion same.2)
    refine ⟨mid.nextClordid, ?_, ?_⟩
    · have first : mm.cleared.due (mm.now wallClock) token kBuy (plans kBuy) =
          mm.due (mm.now wallClock) token kBuy (plans kBuy) := rfl
      rw [bid.nextClordid, first]
      dsimp only
      rw [List.filter_append]
      split_ifs <;> simp [newQuote, cleared]
    · rw [ask.quote, due, drops, before]

theorem withdraws_active (withdrawn : mm.withdraws A now token book side = true) :
    ((mm.quotes token).side side).active = true := by
  rw [withdraws_eq] at withdrawn
  split at withdrawn
  · cases withdrawn
  · exact (Bool.and_eq_true_iff.mp withdrawn).1

theorem mem_cancels {id : Int} : id ∈ (mm.onBookUpdate A wallClock token book).cancels ↔
    ∃ s, mm.withdraws A (mm.now wallClock) token book s = true ∧
      ((mm.quotes token).side s).clordid = id := by
  rw [onBookUpdate_cancels, List.mem_map]
  constructor
  · rintro ⟨s, member, named⟩
    exact ⟨s, (List.mem_filter.mp member).2, named⟩
  · rintro ⟨s, withdrawn, named⟩
    refine ⟨s, List.mem_filter.mpr ⟨?_, withdrawn⟩, named⟩
    cases s <;> simp

/-- A side either gets one new order, or keeps its quote unless that is withdrawn. -/
theorem onBookUpdate_quote (t : Nat) (s : Side) :
    (∃ o ∈ (mm.onBookUpdate A wallClock token book).pending, o.token = t ∧ o.side = s ∧
      (∀ o' ∈ (mm.onBookUpdate A wallClock token book).pending,
        o'.token = t → o'.side = s → o' = o) ∧
      ((mm.onBookUpdate A wallClock token book).quotes t).side s =
        ⟨true, o.price, mm.now wallClock, o.clientOrderId⟩ ∧
      t = token ∧ mm.withdraws A (mm.now wallClock) token book s = ((mm.quotes t).side s).active) ∨
    (∀ o ∈ (mm.onBookUpdate A wallClock token book).pending, o.token = t → o.side ≠ s) ∧
      ((mm.onBookUpdate A wallClock token book).quotes t).side s =
        { (mm.quotes t).side s with
          active := ((mm.quotes t).side s).active &&
            !(decide (t = token) && mm.withdraws A (mm.now wallClock) token book s) } := by
  rw [withdraws_eq]
  cases wanted : mm.intent A (mm.now wallClock) token book with
  | none => simp [onBookUpdate_idle wanted, cleared]
  | some plans =>
    by_cases here : t = token
    · subst here
      obtain ⟨id, orders, quote⟩ := onBookUpdate_side wanted s
      have ofSide (o : Order) (member : o ∈ (mm.onBookUpdate A wallClock t book).pending)
          (token : o.token = t) (side : o.side = s) := orders ▸ List.mem_filter.mpr
            ⟨member, decide_eq_true (And.intro token side)⟩
      split_ifs at orders quote with due
      · left
        have member := List.mem_singleton_self
          (mm.newQuote id t s (plans s).desired (mm.quoteQty A t) (mm.now wallClock))
        rw [← orders] at member
        refine ⟨_, (List.mem_filter.mp member).1, rfl, rfl, ?_, quote, rfl, drops_of_due due⟩
        intro o' member' token side
        have only := ofSide o' member' token side
        rw [if_pos due] at only
        exact List.mem_singleton.mp only
      · right
        refine ⟨fun o member token side => ?_, ?_⟩
        · have none := ofSide o member token side
          rw [if_neg due] at none
          cases none
        · simp only [quote, decide_true, Bool.true_and]
    · obtain ⟨mid, bid, ask⟩ := onBookUpdate_intent wanted
      right
      constructor
      · intro o member token
        exact absurd (token.symm.trans (onBookUpdate_token member).1) here
      · rw [ask.others t s (fun same => here same.1), bid.others t s (fun same => here same.1)]
        simp only [here, decide_false, Bool.false_and, Bool.not_false, Bool.and_true]
        rfl

/-- The counter of ids moves by one for every order. -/
theorem onBookUpdate_nextClordid_eq :
    (mm.onBookUpdate A wallClock token book).nextClordid =
      mm.nextClordid + (mm.onBookUpdate A wallClock token book).pending.length := by
  cases wanted : mm.intent A (mm.now wallClock) token book with
  | none => simp [onBookUpdate_idle wanted, cleared]
  | some plans =>
    obtain ⟨mid, bid, ask⟩ := onBookUpdate_intent wanted
    have start : mm.cleared.nextClordid = mm.nextClordid := rfl
    have empty : mm.cleared.pending = [] := rfl
    rw [ask.pending, bid.pending, ask.nextClordid, bid.nextClordid, start, empty]
    split_ifs <;> simp +arith

theorem onBookUpdate_nextClordid :
    mm.nextClordid ≤ (mm.onBookUpdate A wallClock token book).nextClordid := by
  rw [onBookUpdate_nextClordid_eq]
  omega

/-- The orders of an update are numbered from the counter on, and all of one size. -/
theorem onBookUpdate_ids :
    ∀ o ∈ (mm.onBookUpdate A wallClock token book).pending,
      (mm.nextClordid ≤ o.clientOrderId ∧
        o.clientOrderId < (mm.onBookUpdate A wallClock token book).nextClordid) ∧
      o.qty = mm.quoteQty A token := by
  rw [onBookUpdate_nextClordid_eq, onBookUpdate_pending]
  simp only [dueOrders]
  split
  · simp
  · split_ifs <;> grind [newQuote]

theorem onBookUpdate_pairwise :
    (mm.onBookUpdate A wallClock token book).pending.Pairwise
      fun a b => a.clientOrderId < b.clientOrderId := by
  rw [onBookUpdate_pending]
  simp only [dueOrders]
  split
  · exact .nil
  · split_ifs <;> grind [newQuote]

/-- Every order an update emits is recorded as the active quote of its side. -/
theorem onBookUpdate_quoted {o : Order}
    (member : o ∈ (mm.onBookUpdate A wallClock token book).pending) :
    (((mm.onBookUpdate A wallClock token book).quotes o.token).side o.side).active = true ∧
      (((mm.onBookUpdate A wallClock token book).quotes o.token).side o.side).clordid =
        o.clientOrderId := by
  rcases onBookUpdate_quote o.token o.side with ⟨placed, _, _, _, only, quote, _⟩ | ⟨none, _⟩
  · rw [quote, only o member rfl rfl]
    exact ⟨rfl, rfl⟩
  · exact absurd rfl (none o member rfl)

/-- Configuration and reference data stay, and the positions are left to the fills. -/
theorem onBookUpdate_fixed :
    (mm.onBookUpdate A wallClock token book).cfg = mm.cfg ∧
      (mm.onBookUpdate A wallClock token book).symbols = mm.symbols ∧
      (mm.onBookUpdate A wallClock token book).position = mm.position := by
  have cancelled (mm : MarketMaking) (side : Side) :
      (mm.cancelSide token side).cfg = mm.cfg ∧ (mm.cancelSide token side).symbols = mm.symbols ∧
        (mm.cancelSide token side).position = mm.position := by
    simp only [cancelSide, emitCancel]
    split_ifs <;> exact ⟨rfl, rfl, rfl⟩
  have quoted (mm : MarketMaking) (side : Side) (desired qty : Int) (allowed : Bool) (now : Nat) :
      let mm' := mm.quoteOneSide token side desired qty allowed now
      mm'.cfg = mm.cfg ∧ mm'.symbols = mm.symbols ∧ mm'.position = mm.position := by
    simp only [quoteOneSide, emitNew]
    split_ifs <;> simp only [setQuote, cancelled, and_self]
  rw [onBookUpdate_eq]
  split
  · exact ⟨rfl, rfl, rfl⟩
  · simp only [quoted]
    exact ⟨rfl, rfl, rfl⟩

section Steady

variable (steady : ∀ side, mm.withdraws A (mm.now wallClock) token book side = false)

include steady

/-- An update that withdraws nothing lists no cancels. -/
theorem onBookUpdate_cancels_steady : (mm.onBookUpdate A wallClock token book).cancels = [] := by
  simp [onBookUpdate_cancels, steady]

/-- An update that withdraws nothing leaves the active quotes as they are. -/
theorem onBookUpdate_active_steady {t : Nat} {s : Side}
    (active : ((mm.quotes t).side s).active = true) :
    ((mm.onBookUpdate A wallClock token book).quotes t).side s = (mm.quotes t).side s := by
  rcases onBookUpdate_quote t s with ⟨placed, _, _, _, _, _, _, withdrawn⟩ | ⟨_, kept⟩
  · rw [steady, active] at withdrawn
    cases withdrawn
  · rw [kept, steady]
    simp

end Steady

/-- A fill takes the quote off that it names and leaves nothing of. -/
theorem onFill_side (fill : FillReport) (t : Nat) (s : Side) :
    ((mm.onFill A fill).quotes t).side s =
      if fill.token < kMaxTokens ∧ t = fill.token ∧
          fill.clientOrderId = ((mm.quotes t).side s).clordid ∧ fill.remainingQty = 0 then
        { (mm.quotes t).side s with active := false }
      else (mm.quotes t).side s := by
  simp only [onFill]
  split
  next outside => rw [if_neg (fun taken => Nat.not_le.mpr taken.1 outside)]
  next inside =>
    by_cases here : t = fill.token
    · subst here
      simp only [Function.update_self, Nat.lt_of_not_le inside, true_and]
      cases s <;> rfl
    · simp only [Function.update_of_ne here, here, false_and, and_false, if_false]

theorem onFill_quote (fill : FillReport) (t : Nat) (s : Side) :
    ((mm.onFill A fill).quotes t).side s = (mm.quotes t).side s ∨
      ((mm.quotes t).side s).clordid = fill.clientOrderId ∧ fill.remainingQty = 0 := by
  rw [onFill_side]
  split
  next taken => exact .inr ⟨taken.2.2.1.symm, taken.2.2.2⟩
  · exact .inl rfl

end Update

end MarketMaking

end NseHft
