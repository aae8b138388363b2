import NseHft.OrderManager.OrderManager
import NseHft.Risk.RiskManager
import NseHft.Strategy.MarketMaking

/-!
# Tick-to-trade pipeline

Book, strategy, risk and order manager in one path. The latency measurement is left out.
-/
namespace NseHft

open FixedWidth

structure PipelineStats where
  events : Nat := 0
  ordersGenerated : Nat := 0
  ordersApproved : Nat := 0
  ordersRejected : Nat := 0
  ordersSent : Nat := 0
  deriving DecidableEq, Repr

/-- What `ist_now_ns` reads during one call: in the strategy, in the check of the order with
the given position among the pending ones, and for the stamp of its message. -/
structure ClockReadings where
  quote : Nat
  check : Nat → Nat
  stamp : Nat → Nat

def kMaxSent : Nat := 16

structure Pipeline where
  books : BookManager
  strat : MarketMaking
  risk : RiskManager
  om : OrderManager
  nowNs : Nat := 0
  stats : PipelineStats := {}
  msgBuf : Buffer
  lastMsgLen : Nat := 0
  sentOrders : List Order := []

/-- An order that was sent and the message that was encoded for it. -/
structure SentOrder where
  order : Order
  message : List UInt8
  deriving DecidableEq, Repr

namespace Pipeline

variable (A : Arithmetic)

def setNow (p : Pipeline) (istNs : Nat) : Pipeline :=
  { p with nowNs := istNs, strat := p.strat.setNow istNs, risk := p.risk.setNow istNs }

/-- One pass of the send loop, for the pending order at position `i`. -/
def sendOrder (p : Pipeline) (clock : ClockReadings) (i : Nat) (o : Order) :
    Option SentOrder × Pipeline :=
  let (reason, risk) := p.risk.check A (clock.check i) o
  let p := { p with risk := risk }
  if reason ≠ .approved then
    (none, { p with stats := { p.stats with ordersRejected := p.stats.ordersRejected + 1 } })
  else
    let p := { p with stats := { p.stats with ordersApproved := p.stats.ordersApproved + 1 } }
    let stamp := if p.nowNs ≠ 0 then p.nowNs else clock.stamp i
    let r := p.om.newOrder o p.msgBuf stamp 79
    let p := { p with om := r.om, msgBuf := r.buf }
    if r.length > 0 then
      (some ⟨r.order, r.buf.take r.length⟩,
        { p with
          stats := { p.stats with ordersSent := p.stats.ordersSent + 1 }
          lastMsgLen := r.length
          sentOrders :=
            if p.sentOrders.length < kMaxSent then p.sentOrders ++ [r.order] else p.sentOrders })
    else (none, p)

/-- The send loop over the pending orders from position `i` on. -/
def sendOrders (p : Pipeline) (clock : ClockReadings) (i : Nat) :
    List Order → List SentOrder × Pipeline
  | [] => ([], p)
  | o :: rest =>
    let (sent, p) := p.sendOrder A clock i o
    let (others, p) := p.sendOrders clock (i + 1) rest
    (sent.toList ++ others, p)

/-- The source returns the number of orders sent; here it is the list of them. `none` when
the book does not return. -/
def process (fuel : Nat) (p : Pipeline) (clock : ClockReadings) (ev : MarketEvent) :
    Option (List SentOrder × Pipeline) :=
  let p := { p with stats := { p.stats with events := p.stats.events + 1 } }
  match p.books.getBook ev.token with
  | none => some ([], p)
  | some book => do
    -- the result, and with it the news of a gap, is dropped
    let (_, book) ← book.applyEvent fuel ev
    let price (level : Option PriceLevel) : Int := (level.map PriceLevel.price).getD 0
    let p := { p with
      books := { p.books with slots := Function.update p.books.slots ev.token (some book) }
      risk := p.risk.updateReference ev.token (price book.bestBid) (price book.bestAsk)
      strat := p.strat.onBookUpdate A clock.quote ev.token book }
    -- only the new orders are taken up; the strategy's cancels are not read
    let orders := p.strat.pending
    -- the list of sent orders is left as the previous call wrote it
    if orders.isEmpty then some ([], p)
    else
      let p := { p with
        stats := { p.stats with ordersGenerated := p.stats.ordersGenerated + orders.length }
        sentOrders := [] }
      some (p.sendOrders A clock 0 orders)

def onFill (p : Pipeline) (fill : FillReport) : Pipeline :=
  { p with
    strat := p.strat.onFill A fill
    risk := p.risk.onFill A fill
    om := (p.om.onFill A fill).2 }

section Send

variable {A} {p : Pipeline} {clock : ClockReadings} {i : Nat} {o : Order} {orders : List Order}

theorem sendOrder_strat : (p.sendOrder A clock i o).2.strat = p.strat := by
  simp only [sendOrder]
  split_ifs <;> rfl

theorem sendOrder_books : (p.sendOrder A clock i o).2.books = p.books := by
  simp only [sendOrder]
  split_ifs <;> rfl

theorem sendOrder_risk :
    (p.sendOrder A clock i o).2.risk = (p.risk.check A (clock.check i) o).2 := by
  simp only [sendOrder]
  split_ifs <;> rfl

/-- An order goes out if risk approves it and its slot is free; then it is pending in that
slot, and otherwise the order manager is as before. -/
theorem sendOrder_cases (named : o.clientOrderId ≠ 0) :
    ((p.risk.check A (clock.check i) o).1 = .approved ∧ p.om.busy o.clientOrderId = false ∧
      (∃ message, (p.sendOrder A clock i o).1 = some ⟨o, message⟩) ∧
      (p.sendOrder A clock i o).2.om.table =
        Function.update p.om.table (OrderManager.index o.clientOrderId)
          { order := o, state := .pendingNew, occupied := true }) ∨
    (((p.risk.check A (clock.check i) o).1 ≠ .approved ∨ p.om.busy o.clientOrderId = true) ∧
      (p.sendOrder A clock i o).1 = none ∧ (p.sendOrder A clock i o).2.om = p.om) := by
  by_cases approved : (p.risk.check A (clock.check i) o).1 = .approved
  · cases busy : p.om.busy o.clientOrderId with
    | true =>
      right
      simp [sendOrder, approved, OrderManager.newOrder_busy named busy]
    | false =>
      left
      obtain ⟨length, order, table⟩ := @OrderManager.newOrder_free p.om o p.msgBuf
        (if p.nowNs ≠ 0 then p.nowNs else clock.stamp i) 79 named busy
      simp only [ne_eq, ite_not] at length order table
      simp [sendOrder, approved, length, order, table]
  · right
    simp [sendOrder, approved]

theorem sendOrders_strat : (p.sendOrders A clock i orders).2.strat = p.strat := by
  induction orders generalizing p i with
  | nil => rfl
  | cons o rest ih => exact ih.trans sendOrder_strat

theorem sendOrders_books : (p.sendOrders A clock i orders).2.books = p.books := by
  induction orders generalizing p i with
  | nil => rfl
  | cons o rest ih => exact ih.trans sendOrder_books

/-- The send loop only puts the orders it is given into their slots. -/
theorem sendOrders_slot (named : ∀ o ∈ orders, o.clientOrderId ≠ 0) (slot : Nat) :
    (p.sendOrders A clock i orders).2.om.table slot = p.om.table slot ∨
      ∃ o ∈ orders, slot = OrderManager.index o.clientOrderId ∧
        (p.sendOrders A clock i orders).2.om.table slot =
          { order := o, state := .pendingNew, occupied := true } := by
  -- a slot written by a later order of the loop is explained by that order
  induction orders generalizing p i with
  | nil => exact .inl rfl
  | cons o rest ih =>
    simp only [List.forall_mem_cons] at named
    rcases @ih (p.sendOrder A clock i o).2 (i + 1) named.2 with kept | ⟨later, member, here, stored⟩
    · rcases @sendOrder_cases A p clock i o named.1 with ⟨_, _, _, table⟩ | ⟨_, _, same⟩
      · rw [table, Function.update_apply] at kept
        split at kept
        next here => exact .inr ⟨o, List.mem_cons_self, here, kept⟩
        next => exact .inl kept
      · exact .inl (kept.trans (by rw [same]))
    · exact .inr ⟨later, List.mem_cons_of_mem _ member, here, stored⟩

/-- An order that was sent is the order given, approved. -/
theorem sendOrder_sent (named : o.clientOrderId ≠ 0) {x : SentOrder}
    (sent : (p.sendOrder A clock i o).1 = some x) :
    x.order = o ∧ (p.risk.check A (clock.check i) o).1 = .approved := by
  rcases @sendOrder_cases A p clock i o named with ⟨approved, _, ⟨message, out⟩, _⟩ | ⟨_, unsent, _⟩
  · rw [out] at sent
    obtain rfl := Option.some.inj sent
    exact ⟨rfl, approved⟩
  · rw [unsent] at sent
    cases sent

/-- The loop sends a part of the orders it is given, in their order. -/
theorem sendOrders_sublist (named : ∀ o ∈ orders, o.clientOrderId ≠ 0) :
    ((p.sendOrders A clock i orders).1.map SentOrder.order).Sublist orders := by
  induction orders generalizing p i with
  | nil => exact .slnil
  | cons o rest ih =>
    simp only [List.forall_mem_cons] at named
    have others := @ih (p.sendOrder A clock i o).2 (i + 1) named.2
    cases out : (p.sendOrder A clock i o).1 with
    | none => simpa [sendOrders, out] using others.cons o
    | some x =>
      obtain rfl := (sendOrder_sent named.1 out).1
      simpa [sendOrders, out] using others

theorem sendOrders_approved (named : ∀ o ∈ orders, o.clientOrderId ≠ 0) {x : SentOrder}
    (sent : x ∈ (p.sendOrders A clock i orders).1) :
    ∃ (risk : RiskManager) (wallClock : Nat), (risk.check A wallClock x.order).1 = .approved := by
  induction orders generalizing p i with
  | nil => cases sent
  | cons o rest ih =>
    simp only [List.forall_mem_cons] at named
    simp only [sendOrders, List.mem_append, Option.mem_toList] at sent
    rcases sent with here | later
    · obtain ⟨same, approved⟩ := sendOrder_sent named.1 here
      exact ⟨_, _, same ▸ approved⟩
    · exact ih named.2 later

theorem sendOrder_sentOrders (room : p.sentOrders.length < kMaxSent) :
    (p.sendOrder A clock i o).2.sentOrders =
      p.sentOrders ++ (p.sendOrder A clock i o).1.toList.map SentOrder.order := by
  simp only [sendOrder]
  generalize (if p.nowNs ≠ 0 then p.nowNs else clock.stamp i) = stamp
  split_ifs <;> simp

/-- The list of sent orders takes up what the loop sends, as long as there is room for all. -/
theorem sendOrders_sentOrders (room : p.sentOrders.length + orders.length ≤ kMaxSent) :
    (p.sendOrders A clock i orders).2.sentOrders =
      p.sentOrders ++ (p.sendOrders A clock i orders).1.map SentOrder.order := by
  induction orders generalizing p i with
  | nil => simp [sendOrders]
  | cons o rest ih =>
    rw [List.length_cons] at room
    have here := @sendOrder_sentOrders A p clock i o (by omega)
    have left : (p.sendOrder A clock i o).2.sentOrders.length + rest.length ≤ kMaxSent := by
      rw [here, List.length_append, List.length_map]
      have one := (p.sendOrder A clock i o).1.length_toList_le
      omega
    simp only [sendOrders, ih left, here, List.map_append, List.append_assoc]

/-- The ids of the orders that are refused: risk rejects the order, or its slot is taken, in
the state in which the loop offers it. -/
def refusedFrom (A : Arithmetic) (clock : ClockReadings) (p : Pipeline) (i : Nat) :
    List Order → List Int
  | [] => []
  | o :: rest =>
    let refused := (p.risk.check A (clock.check i) o).1 ≠ .approved ∨ p.om.busy o.clientOrderId
    (if refused then [o.clientOrderId] else []) ++
      refusedFrom A clock (p.sendOrder A clock i o).2 (i + 1) rest

/-- An order that is not refused is sent. -/
theorem refusedFrom_or_sent (named : ∀ o ∈ orders, o.clientOrderId ≠ 0) {o : Order}
    (member : o ∈ orders) : o.clientOrderId ∈ refusedFrom A clock p i orders ∨
      o ∈ (p.sendOrders A clock i orders).1.map SentOrder.order := by
  induction orders generalizing p i with
  | nil => cases member
  | cons first rest ih =>
    obtain ⟨here, others⟩ := List.forall_mem_cons.mp named
    simp only [refusedFrom, sendOrders, List.map_append, List.mem_append]
    rcases List.mem_cons.mp member with rfl | later
    · rcases @sendOrder_cases A p clock i o here with ⟨_, _, ⟨_, sent⟩, _⟩ | ⟨refused, _, _⟩
      · simp [sent]
      · exact .inl (.inl (by rw [if_pos refused]; exact List.mem_singleton_self _))
    · rcases ih others later with refused | sent
      · exact .inl (.inr refused)
      · exact .inr (.inr sent)

/-- Nothing is approved while the kill switch is on. -/
theorem sendOrders_killed (active : p.risk.killSwitchActive = true) :
    (p.sendOrders A clock i orders).1 = [] ∧
      (p.sendOrders A clock i orders).2.stats.ordersApproved = p.stats.ordersApproved := by
  induction orders generalizing p i with
  | nil => exact ⟨rfl, rfl⟩
  | cons o rest ih =>
    have killed := RiskManager.check_killed (A := A) active (clock.check i) o
    have unsent : (p.sendOrder A clock i o).1 = none := by simp [sendOrder, killed]
    have unapproved :
        (p.sendOrder A clock i o).2.stats.ordersApproved = p.stats.ordersApproved := by
      simp [sendOrder, killed]
    have still : (p.sendOrder A clock i o).2.risk.killSwitchActive = true := by
      rw [sendOrder_risk, RiskManager.check_killSwitchActive, active]
    obtain ⟨none, same⟩ := @ih (p.sendOrder A clock i o).2 (i + 1) still
    exact ⟨by simp [sendOrders, unsent, none], same.trans unapproved⟩

end Send

section Process

variable {A} {p p' : Pipeline} {fuel : Nat} {clock : ClockReadings} {ev : MarketEvent}
  {sent : List SentOrder}

/-- The risk manager with the top of a book as the reference of a token. -/
def referenced (risk : RiskManager) (token : Nat) (book : OrderBook) : RiskManager :=
  risk.updateReference token ((book.bestBid.map PriceLevel.price).getD 0)
    ((book.bestAsk.map PriceLevel.price).getD 0)

/-- The pipeline when book, risk reference and strategy have taken in an event. -/
def updated (A : Arithmetic) (p : Pipeline) (clock : ClockReadings) (ev : MarketEvent)
    (book : OrderBook) : Pipeline :=
  { p with
    stats := { p.stats with events := p.stats.events + 1 }
    books := { p.books with slots := Function.update p.books.slots ev.token (some book) }
    risk := referenced p.risk ev.token book
    strat := p.strat.onBookUpdate A clock.quote ev.token book }

/-- The same when the send loop starts. -/
def listing (q : Pipeline) : Pipeline :=
  { q with
    stats := { q.stats with ordersGenerated := q.stats.ordersGenerated + q.strat.pending.length }
    sentOrders := [] }

/-- What follows once an event is taken in: the pending orders, if any, go through the send
loop. -/
def respond (A : Arithmetic) (q : Pipeline) (clock : ClockReadings) : List SentOrder × Pipeline :=
  if q.strat.pending.isEmpty then ([], q) else q.listing.sendOrders A clock 0 q.strat.pending

/-- The orders that a call has to send: those due on the book of the event's token as the
event leaves it. -/
def offered (A : Arithmetic) (fuel : Nat) (p : Pipeline) (clock : ClockReadings)
    (ev : MarketEvent) : List Order :=
  match (p.books.getBook ev.token).bind fun book => book.applyEvent fuel ev with
  | none => []
  | some (_, book) => p.strat.dueOrders A (p.strat.now clock.quote) ev.token book

theorem offered_eq {book book' : OrderBook} {result : BookResult}
    (found : p.books.getBook ev.token = some book)
    (applied : book.applyEvent fuel ev = some (result, book')) :
    p.offered A fuel clock ev = p.strat.dueOrders A (p.strat.now clock.quote) ev.token book' := by
  rw [offered, found, Option.bind_some, applied]

theorem process_eq_unwatched (unwatched : p.books.getBook ev.token = none) :
    p.process A fuel clock ev =
      some ([], { p with stats := { p.stats with events := p.stats.events + 1 } }) := by
  simp only [process, unwatched]

theorem process_eq_watched {book : OrderBook} (watched : p.books.getBook ev.token = some book) :
    p.process A fuel clock ev = (book.applyEvent fuel ev).map fun applied =>
      (p.updated A clock ev applied.2).respond A clock := by
  simp only [process, watched, Option.bind_eq_bind]
  cases book.applyEvent fuel ev with
  | none => rfl
  | some applied =>
    simp only [Option.map_some, respond]
    exact (apply_ite some _ _ _).symm

/-- A call skips an unwatched token. Otherwise it updates the book, lets the strategy quote
and sends what is pending, if anything. -/
theorem process_steps (returned : p.process A fuel clock ev = some (sent, p')) :
    (p.books.getBook ev.token = none ∧ sent = [] ∧
      p' = { p with stats := { p.stats with events := p.stats.events + 1 } }) ∨
    ∃ book result book', p.books.getBook ev.token = some book ∧
      book.applyEvent fuel ev = some (result, book') ∧
      (sent = [] ∧ p' = p.updated A clock ev book' ∧
          (p.updated A clock ev book').strat.pending = [] ∨
        (sent, p') = (p.updated A clock ev book').listing.sendOrders A clock 0
          (p.updated A clock ev book').strat.pending ∧
          (p.updated A clock ev book').strat.pending ≠ []) := by
  cases watched : p.books.getBook ev.token with
  | none =>
    rw [process_eq_unwatched watched] at returned
    obtain ⟨rfl, rfl⟩ := Prod.mk.inj (Option.some.inj returned)
    exact .inl ⟨rfl, rfl, rfl⟩
  | some book =>
    rw [process_eq_watched watched, Option.map_eq_some_iff] at returned
    obtain ⟨⟨result, book'⟩, applied, rest⟩ := returned
    refine .inr ⟨book, result, book', rfl, applied, ?_⟩
    simp only [respond, List.isEmpty_iff] at rest
    split at rest
    next empty =>
      obtain ⟨rfl, rfl⟩ := Prod.mk.inj rest
      exact .inl ⟨rfl, rfl, empty⟩
    next pending => exact .inr ⟨rest.symm, pending⟩

/-- The books and the strategy after a call are those the send loop started with. -/
theorem process_cases (returned : p.process A fuel clock ev = some (sent, p')) :
    (p.books.getBook ev.token = none ∧ sent = [] ∧ p'.books = p.books ∧ p'.strat = p.strat ∧
      p'.om = p.om) ∨
    ∃ (result : BookResult) (book book' : OrderBook) (q : Pipeline),
      p.books.getBook ev.token = some book ∧
      book.applyEvent fuel ev = some (result, book') ∧ p'.books.getBook ev.token = some book' ∧
      (sent, p') = q.sendOrders A clock 0 q.strat.pending ∧
      q.strat = p.strat.onBookUpdate A clock.quote ev.token book' ∧
      q.risk = referenced p.risk ev.token book' ∧ q.om = p.om := by
  rcases process_steps returned with ⟨unwatched, rfl, rfl⟩ | ⟨book, result, book', found, applied, after⟩
  · exact .inl ⟨unwatched, rfl, rfl, rfl, rfl⟩
  · have inRange := ((BookManager.getBook_eq_some_iff _ _).mp found).1
    have here : (p.updated A clock ev book').books.getBook ev.token = some book' := by
      simp [updated, BookManager.getBook_eq_some_iff, inRange]
    right
    rcases after with ⟨rfl, rfl, nothing⟩ | ⟨loop, _⟩
    · refine ⟨result, book, book', p.updated A clock ev book', found, applied, here, ?_, rfl, rfl, rfl⟩
      rw [nothing]
      rfl
    · refine ⟨result, book, book', (p.updated A clock ev book').listing, found, applied, ?_, loop,
        rfl, rfl, rfl⟩
      rw [(Prod.mk.inj loop).2, sendOrders_books]
      exact here

/-- The strategy follows the book of a watched token, and rests otherwise. -/
theorem process_strat (returned : p.process A fuel clock ev = some (sent, p')) :
    (p'.books.getBook ev.token = none ∧ p'.strat = p.strat) ∨
      ∃ book, p'.books.getBook ev.token = some book ∧
        p'.strat = p.strat.onBookUpdate A clock.quote ev.token book := by
  rcases process_cases returned with
    ⟨unwatched, _, books, strat, _⟩ | ⟨_, _, book, q, _, _, found, loop, strat, _, _⟩
  · exact .inl ⟨books ▸ unwatched, strat⟩
  · refine .inr ⟨book, found, ?_⟩
    rw [show p' = _ from congrArg Prod.snd loop, sendOrders_strat, strat]

/-- A call that has orders to send lists those it sends. Any other call sends nothing and
leaves the list as the calls before wrote it. -/
theorem process_lastSent (returned : p.process A fuel clock ev = some (sent, p')) :
    (p.offered A fuel clock ev ≠ [] ∧ p'.sentOrders = sent.map SentOrder.order) ∨
    (p.offered A fuel clock ev = [] ∧ sent = [] ∧ p'.sentOrders = p.sentOrders) := by
  rcases process_steps returned with ⟨unwatched, rfl, rfl⟩ | ⟨book, result, book', found, applied, after⟩
  · exact .inr ⟨by rw [offered, unwatched, Option.bind_none], rfl, rfl⟩
  · have due : (p.updated A clock ev book').strat.pending = p.offered A fuel clock ev :=
      MarketMaking.onBookUpdate_pending.trans (offered_eq found applied).symm
    rcases after with ⟨rfl, rfl, nothing⟩ | ⟨loop, some⟩
    · exact .inr ⟨due ▸ nothing, rfl, rfl⟩
    · -- the loop starts with an empty list, and two orders are no more than it holds
      obtain ⟨rfl, rfl⟩ := Prod.mk.inj loop
      refine .inl ⟨due ▸ some, ?_⟩
      apply sendOrders_sentOrders
      exact Nat.le_trans (Nat.le_of_eq (Nat.zero_add _))
        (Nat.le_trans MarketMaking.onBookUpdate_pending_length (by decide))

/-- The list of sent orders is the previous one or what the call sends. -/
theorem process_sentOrders (returned : p.process A fuel clock ev = some (sent, p')) :
    ∀ o ∈ p'.sentOrders, o ∈ p.sentOrders ∨ o ∈ sent.map SentOrder.order := by
  intro o member
  rcases process_lastSent returned with ⟨_, listed⟩ | ⟨_, _, kept⟩
  · exact .inr (listed ▸ member)
  · exact .inl (kept ▸ member)

/-- The call replaces the book of the event's token, if it is watched, and no other one. -/
theorem process_books (returned : p.process A fuel clock ev = some (sent, p')) :
    (p.books.getBook ev.token = none ∧ p'.books = p.books) ∨
    ∃ book result book', p.books.getBook ev.token = some book ∧
      book.applyEvent fuel ev = some (result, book') ∧
      ∀ t, p'.books.getBook t = if t = ev.token then some book' else p.books.getBook t := by
  rcases process_steps returned with ⟨unwatched, _, rfl⟩ | ⟨book, result, book', found, applied, after⟩
  · exact .inl ⟨unwatched, rfl⟩
  · have books : p'.books = (p.updated A clock ev book').books := by
      rcases after with ⟨_, rfl, _⟩ | ⟨loop, _⟩
      · rfl
      · rw [(Prod.mk.inj loop).2, sendOrders_books]
        rfl
    refine .inr ⟨book, result, book', found, applied, fun t => ?_⟩
    obtain ⟨inside, _⟩ := (BookManager.getBook_eq_some_iff _ _).mp found
    simp only [books, updated, BookManager.getBook, Function.update_apply]
    split_ifs with outside here
    · exact absurd (here ▸ inside) (Nat.not_lt.mpr outside)
    · rfl
    · rfl
    · rfl

end Process

/-! ## Runs -/

/-- What a pipeline is put together from: the watched tokens, the configuration of strategy
and risk with the reference data each was given, and what the memory held that is not
initialised. -/
structure Setup where
  tokens : List (Nat × Int × Nat)
  symbols : Option SymbolMaster
  quoting : MarketMakingConfig
  riskSymbols : Option SymbolMaster
  limits : RiskConfig
  memory : Nat → Order
  buffer : Vector UInt8 kNnfMaxMsg

def Setup.fresh (s : Setup) : Pipeline :=
  { books := .watching s.tokens
    strat := { symbols := s.symbols, cfg := s.quoting }
    risk := .new s.riskSymbols s.limits
    om := .new s.memory
    msgBuf := s.buffer.toList }

/-- The pipelines that calls from a fresh one lead to. -/
inductive Run (A : Arithmetic) (s : Setup) : Pipeline → Prop
  | fresh : Run A s s.fresh
  | setNow {p : Pipeline} (istNs : Nat) : Run A s p → Run A s (p.setNow istNs)
  | process {p p' : Pipeline} {fuel : Nat} {clock : ClockReadings} {ev : MarketEvent}
      {sent : List SentOrder} :
      Run A s p → p.process A fuel clock ev = some (sent, p') → Run A s p'
  | onFill {p : Pipeline} (fill : FillReport) : Run A s p → Run A s (p.onFill A fill)

theorem process_books_ok {A : Arithmetic} {p p' : Pipeline} {fuel : Nat} {clock : ClockReadings}
    {ev : MarketEvent} {sent : List SentOrder} (ok : p.books.Ok)
    (returned : p.process A fuel clock ev = some (sent, p')) : p'.books.Ok := by
  rcases process_books returned with ⟨_, same⟩ | ⟨book, _, book', found, applied, books⟩
  · exact same ▸ ok
  · intro token other present
    rw [books] at present
    split_ifs at present
    · exact Option.some.inj present ▸ OrderBook.applyEvent_ok (ok _ _ found) applied
    · exact ok token other present

theorem Run.books_ok {A : Arithmetic} {s : Setup} {p : Pipeline} (run : Run A s p) : p.books.Ok := by
  induction run with
  | fresh => exact fun token book found => (BookManager.watching_untouched _ token book found).ok
  | setNow _ _ ih => exact ih
  | process _ returned ih => exact process_books_ok ih returned
  | onFill _ _ ih => exact ih

section Ids

variable {A} {p p' : Pipeline} {s : Setup}

theorem onFill_nextClordid (fill : FillReport) :
    (p.onFill A fill).strat.nextClordid = p.strat.nextClordid := by
  simp only [onFill, MarketMaking.onFill]
  split <;> rfl

theorem process_nextClordid {fuel : Nat} {clock : ClockReadings} {ev : MarketEvent}
    {sent : List SentOrder} (returned : p.process A fuel clock ev = some (sent, p')) :
    p.strat.nextClordid ≤ p'.strat.nextClordid := by
  rcases process_strat returned with ⟨_, strat⟩ | ⟨_, _, strat⟩
  · exact strat ▸ Int.le_refl _
  · exact strat ▸ MarketMaking.onBookUpdate_nextClordid

theorem named_of_one_le {mm : MarketMaking} {wallClock token : Nat} {book : OrderBook}
    (positive : 1 ≤ mm.nextClordid) :
    ∀ o ∈ (mm.onBookUpdate A wallClock token book).pending, o.clientOrderId ≠ 0 := by
  intro o member
  have fresh := (MarketMaking.onBookUpdate_ids o member).1.1
  omega

/-- A call sends approved orders of the strategy's size, numbered upwards from its counter. -/
theorem process_sent {fuel : Nat} {clock : ClockReadings} {ev : MarketEvent}
    {sent : List SentOrder} (positive : 1 ≤ p.strat.nextClordid)
    (returned : p.process A fuel clock ev = some (sent, p')) :
    ((sent.map SentOrder.order).Pairwise fun a b => a.clientOrderId < b.clientOrderId) ∧
      ∀ o ∈ sent.map SentOrder.order,
        (p.strat.nextClordid ≤ o.clientOrderId ∧ o.clientOrderId < p'.strat.nextClordid) ∧
        o.qty = p.strat.quoteQty A ev.token ∧
        ∃ (risk : RiskManager) (wallClock : Nat), (risk.check A wallClock o).1 = .approved := by
  rcases process_cases returned with
    ⟨_, nothing, _, _, _⟩ | ⟨_, _, book, q, _, _, _, loop, strat, _, _⟩
  · simp [nothing]
  · obtain ⟨rfl, rfl⟩ := Prod.mk.inj loop
    have named : ∀ o ∈ q.strat.pending, o.clientOrderId ≠ 0 := strat ▸ named_of_one_le positive
    have part := @sendOrders_sublist A q clock 0 _ named
    constructor
    · apply List.Pairwise.sublist part
      rw [strat]
      exact MarketMaking.onBookUpdate_pairwise
    · intro o member
      have pending := part.subset member
      rw [strat] at pending
      obtain ⟨ids, qty⟩ := MarketMaking.onBookUpdate_ids o pending
      rw [sendOrders_strat, strat]
      refine ⟨ids, qty, ?_⟩
      obtain ⟨x, inLoop, rfl⟩ := List.mem_map.mp member
      exact sendOrders_approved named inLoop

end Ids

/-! ## A desk to look at -/

/-- The default configuration for these tokens, with no reference data and blank memory. -/
def Setup.watching (tokens : List (Nat × Int × Nat)) : Setup :=
  { tokens := tokens, symbols := none, quoting := {}, riskSymbols := none, limits := {}
    memory := fun _ => {}, buffer := .replicate kNnfMaxMsg 0 }

/-- The wall clock stands at zero; the pipeline goes by `setNow`. -/
def stillClock : ClockReadings := ⟨0, fun _ => 0, fun _ => 0⟩

def processed (p : Pipeline) (ev : MarketEvent) : List SentOrder × Pipeline :=
  (p.process .wrapping 8 stillClock ev).getD ([], p)

theorem processed_eq {p : Pipeline} {ev : MarketEvent}
    (returns : (p.process .wrapping 8 stillClock ev).isSome = true) :
    p.process .wrapping 8 stillClock ev = some ((p.processed ev).1, (p.processed ev).2) := by
  obtain ⟨outcome, same⟩ := Option.isSome_iff_exists.mp returns
  rw [processed, same]
  rfl

/-- A snapshot with ten lots on both sides, two paisa apart. -/
def touch (token seqNo : Nat) (bid : Int) : MarketEvent :=
  { token := token, type := MtbtMsgType.snapQuote.code, seqNo := seqNo, bidPrice := bid, bidQty := 10
    askPrice := bid + 2, askQty := 10 }

/-- One token, at ten o'clock. -/
def atTen : Pipeline := (Setup.watching [(7, 1, 4)]).fresh.setNow 36000000000000

end Pipeline

end NseHft
