import Mathlib.Logic.Function.Basic
import NseHft.Lib.FixedWidth

/-!
# Order entry platform

The platform interface of the adapter, with the order semantics of its mock. An order is kept
per symbol, side and quoting level; a quote for it is a new order, a replacement or a cancel,
depending on what is standing, and is refused while an earlier request is unanswered.
-/
namespace NseHft.Irage

open FixedWidth

inductive OrdSide where
  | buy
  | sell
  deriving DecidableEq, Repr

def OrdSide.code : OrdSide → Int
  | buy => 1
  | sell => 2

inductive OrdState where
  | noOrder
  | unacked
  | standingAcked
  | standingUnacked
  deriving DecidableEq, Repr

/-- The error codes that the platform sets. -/
inductive Error where
  | ok
  | noAck
  | sameOrd
  | noOrder
  deriving DecidableEq, Repr

def Error.name : Error → String
  | ok => "E_OK"
  | noAck => "E_NO_ACK"
  | sameOrd => "E_SAME_ORD"
  | noOrder => "E_NO_ORDER"

/-- An outgoing quote; a price or quantity of zero is a cancel. -/
structure Quote where
  symId : Int := 0
  price : Int := 0
  qty : Int := 0
  side : OrdSide := .buy
  index : UInt8 := 0
  minPriceChange : Int := 0
  deriving DecidableEq, Repr

/-- Top level of the book of a symbol. -/
structure MTick where
  bid : Int := 0
  ask : Int := 0
  bidSize : Int := 0
  askSize : Int := 0
  deriving DecidableEq, Repr

/-- A response of the exchange, with the fields that the strategy reads. -/
structure ExecReport where
  securityId : Int := 0
  price : Int := 0
  orderSide : OrdSide := .buy
  fillQty : Int := 0
  rejCode : Int := 0
  deriving DecidableEq, Repr

inductive MsgType where
  | new
  | replace
  | cancel
  deriving DecidableEq, Repr

structure SentOrder where
  quote : Quote
  ioc : Bool
  type : MsgType
  deriving DecidableEq, Repr

structure OrderSlot where
  quote : Quote := {}
  state : OrdState := .noOrder
  pendingCancel : Bool := false
  deriving DecidableEq, Repr

/-- The entries of a symbol's reference data that the strategy reads. -/
structure SymInfo where
  tickSize : Int
  lotSize : Int
  deriving DecidableEq, Repr

/-- `calls` lists every quote handed to `sendOrder`, with or without a message for it; the
mock itself only keeps the messages. -/
structure ConnectImpl where
  ticks : Int → MTick := fun _ => {}
  orders : Int → OrderSlot := fun _ => {}
  sent : List SentOrder := []
  dpr : Int → Option (Int × Int) := fun _ => none
  inventory : Int → Option Int := fun _ => none
  maxInv : Int → Option Int := fun _ => none
  symInfo : Int → Option SymInfo := fun _ => none
  gConfig : String → Option String := fun _ => none
  log : List String := []
  isRunning : Bool := false
  inited : Bool := false
  opsConsumed : Int := 0
  totalOps : Int := 1000
  seconds : Int := 0
  lastError : Error := .ok
  calls : List Quote := []

namespace ConnectImpl

/-- Symbol, side and level packed into one number: the low 16 bits hold side and level, so the
bitwise or of the source is a sum. -/
def key (id : Int) (side : OrdSide) (index : UInt8) : Int :=
  id * 2 ^ 16 + side.code * 2 ^ 8 + index.toNat

theorem key_inj {id id' : Int} {side side' : OrdSide} {index index' : UInt8}
    (same : key id side index = key id' side' index') :
    id = id' ∧ side = side' ∧ index = index' := by
  have small := index.toNat_lt
  have small' := index'.toNat_lt
  rw [← UInt8.toNat_inj]
  cases side <;> cases side' <;> simp only [key, OrdSide.code] at same <;> simp <;> omega

variable (A : Arithmetic) (p : ConnectImpl)

def getMtick (id : Int) : MTick := p.ticks id

def getDprLow (id : Int) : Int :=
  match p.dpr id with
  | some range => range.1
  | none => 0

def getDprHigh (id : Int) : Int :=
  match p.dpr id with
  | some range => range.2
  | none => 2 ^ 30

def getInventory (id : Int) : Int := (p.inventory id).getD 0

def getMaxInventory (id : Int) : Int := (p.maxInv id).getD (2 ^ 20)

def readGConfig (name : String) : Option String := p.gConfig name

def logMsg (msg : String) : ConnectImpl := { p with log := p.log ++ [msg] }

/-- The order of a symbol, side and level. -/
def slot (id : Int) (side : OrdSide) (index : UInt8) : OrderSlot := p.orders (key id side index)

def record (q : Quote) : ConnectImpl := { p with calls := p.calls ++ [q] }

def refuse (error : Error) : ConnectImpl := { p with lastError := error }

/-- An accepted request: the order as it is from now on, and the message. -/
def accept (order : OrderSlot) (msg : SentOrder) : ConnectImpl :=
  { p with
    orders := Function.update p.orders (key msg.quote.symId msg.quote.side msg.quote.index) order
    sent := p.sent ++ [msg]
    lastError := .ok }

def sendOrder (q : Quote) (ioc : Bool) : Bool × ConnectImpl :=
  let order := p.slot q.symId q.side q.index
  let p := p.record q
  if order.state = .unacked ∨ order.state = .standingUnacked then (false, p.refuse .noAck)
  else if q.price = 0 ∨ q.qty = 0 then
    if order.state = .noOrder then (false, p.refuse .noOrder)
    else (true, p.accept { order with state := .standingUnacked, pendingCancel := true }
      ⟨q, ioc, .cancel⟩)
  else if order.state = .standingAcked then
    if order.quote.price = q.price ∧ order.quote.qty = q.qty then (false, p.refuse .sameOrd)
    else if 0 < q.minPriceChange ∧
        (A.i32 (q.price - order.quote.price)).natAbs < q.minPriceChange then
      (false, p.refuse .sameOrd)
    else (true, p.accept { order with quote := q, state := .standingUnacked } ⟨q, ioc, .replace⟩)
  else
    (true, p.accept { order with quote := q, state := bif ioc then .noOrder else .unacked }
      ⟨q, ioc, .new⟩)

def getStandingOrder (id : Int) (side : OrdSide) (index : UInt8) : Bool :=
  decide ((p.slot id side index).state ≠ .noOrder)

/-- What an answer of the exchange does to an order. -/
def acked (order : OrderSlot) : OrderSlot :=
  if order.state = .unacked ∨ order.state = .standingUnacked then
    { order with
      state := if order.pendingCancel then .noOrder else .standingAcked
      pendingCancel := false }
  else order

/-- The exchange answers the request of one order. -/
def ack (id : Int) (side : OrdSide) (index : UInt8) : ConnectImpl :=
  { p with orders := Function.update p.orders (key id side index) (acked (p.slot id side index)) }

/-- The exchange answers every request. -/
def ackAll : ConnectImpl := { p with orders := fun k => acked (p.orders k) }

/-- Why a request is refused. -/
inductive Refuses (order : OrderSlot) (q : Quote) : Error → Prop
  | noAck (waiting : order.state = .unacked ∨ order.state = .standingUnacked) :
    Refuses order q .noAck
  | noOrder (free : order.state = .noOrder) (zero : q.price = 0 ∨ q.qty = 0) :
    Refuses order q .noOrder
  | sameOrd (standing : order.state = .standingAcked) (priced : q.price ≠ 0 ∧ q.qty ≠ 0)
    (close : order.quote.price = q.price ∧ order.quote.qty = q.qty ∨
      0 < q.minPriceChange ∧ (A.i32 (q.price - order.quote.price)).natAbs < q.minPriceChange) :
    Refuses order q .sameOrd

/-- What a request turns the order into when it is accepted. -/
inductive Accepts (order : OrderSlot) (q : Quote) (ioc : Bool) : MsgType → OrderSlot → Prop
  | cancel (standing : order.state = .standingAcked) (zero : q.price = 0 ∨ q.qty = 0) :
    Accepts order q ioc .cancel { order with state := .standingUnacked, pendingCancel := true }
  | replace (standing : order.state = .standingAcked) (priced : q.price ≠ 0 ∧ q.qty ≠ 0) :
    Accepts order q ioc .replace { order with quote := q, state := .standingUnacked }
  | new (free : order.state = .noOrder) (priced : q.price ≠ 0 ∧ q.qty ≠ 0) :
    Accepts order q ioc .new
      { order with quote := q, state := bif ioc then .noOrder else .unacked }

variable {A p}

/-- A quote is refused, or it is accepted with one message. -/
theorem sendOrder_cases (q : Quote) (ioc : Bool) :
    (∃ error, Refuses A (p.slot q.symId q.side q.index) q error ∧
      p.sendOrder A q ioc = (false, (p.record q).refuse error)) ∨
    ∃ type order, Accepts (p.slot q.symId q.side q.index) q ioc type order ∧
      p.sendOrder A q ioc = (true, (p.record q).accept order ⟨q, ioc, type⟩) := by
  rw [sendOrder]
  generalize p.slot q.symId q.side q.index = order
  have answered (free : ¬(order.state = .unacked ∨ order.state = .standingUnacked)) :
      order.state = .noOrder ∨ order.state = .standingAcked := by
    cases kind : order.state <;> simp [kind] at free ⊢
  split_ifs with waiting zero free standing same small
  · exact .inl ⟨_, .noAck waiting, rfl⟩
  · exact .inl ⟨_, .noOrder free zero, rfl⟩
  · exact .inr ⟨_, _, .cancel ((answered waiting).resolve_left free) zero, rfl⟩
  · exact .inl ⟨_, .sameOrd standing (not_or.mp zero) (.inl same), rfl⟩
  · exact .inl ⟨_, .sameOrd standing (not_or.mp zero) (.inr small), rfl⟩
  · exact .inr ⟨_, _, .replace standing (not_or.mp zero), rfl⟩
  · exact .inr ⟨_, _, .new ((answered waiting).resolve_right standing) (not_or.mp zero), rfl⟩

end ConnectImpl

end NseHft.Irage
