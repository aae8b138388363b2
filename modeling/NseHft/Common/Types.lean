import Mathlib.Algebra.Order.Ring.Int

/-!
# Core types

Signed machine integers are `Int`: prices in paisa and order numbers (64-bit),
quantities (32-bit). Unsigned ones are `Nat`: instrument tokens (32-bit), sequence
numbers and IST timestamps in nanoseconds (64-bit). Operations whose wrap-around
matters reduce explicitly.
-/
namespace NseHft

abbrev Side := Bool

@[match_pattern] abbrev kBuy : Side := true

@[match_pattern] abbrev kSell : Side := false

def kSegmentCm : Nat := 1

def kSegmentFo : Nat := 2

/-- Message types of the MTBT feed, with their wire codes. -/
inductive MtbtMsgType where
  | orderAdd
  | orderModify
  | orderCancel
  | trade
  | openInterest
  | snapQuote
  | heartbeat
  deriving DecidableEq, Repr

namespace MtbtMsgType

def code : MtbtMsgType → UInt8
  | orderAdd => 65      -- 'A'
  | orderModify => 77   -- 'M'
  | orderCancel => 88   -- 'X'
  | trade => 84         -- 'T'
  | openInterest => 79  -- 'O'
  | snapQuote => 81     -- 'Q'
  | heartbeat => 72     -- 'H'

/-- The message type a raw byte is cast to, when it is one of the enumerators. -/
def ofByte (byte : UInt8) : Option MtbtMsgType :=
  [orderAdd, orderModify, orderCancel, trade, openInterest, snapQuote, heartbeat].find?
    (fun t => t.code == byte)

@[simp] theorem ofByte_code (t : MtbtMsgType) : ofByte t.code = some t := by
  cases t <;> rfl

theorem code_of_ofByte {byte : UInt8} {t : MtbtMsgType} (known : ofByte byte = some t) :
    t.code = byte := by
  simpa using List.find?_some known

end MtbtMsgType

/-- A decoded market-data message. The defaults are what the parser resets a message to; a
value-initialised event of the source has `kSell` for its side. -/
structure MarketEvent where
  ts : Nat := 0
  token : Nat := 0
  price : Int := 0
  qty : Int := 0
  side : Side := kBuy
  type : UInt8 := 0
  orderNo : Int := 0
  streamId : Nat := 0
  seqNo : Nat := 0
  orderNo2 : Int := 0
  tradeNo : Int := 0
  bidPrice : Int := 0
  bidQty : Int := 0
  askPrice : Int := 0
  askQty : Int := 0
  deriving DecidableEq, Repr, Inhabited

/-- The enumerator that the handlers switch on. -/
def MarketEvent.msgType (ev : MarketEvent) : Option MtbtMsgType := MtbtMsgType.ofByte ev.type

inductive OrderType where
  | limit
  | market
  | stopLoss
  | stopLossMarket
  deriving DecidableEq, Repr, Inhabited

inductive Validity where
  | day
  | ioc
  | gtd
  | eos
  deriving DecidableEq, Repr, Inhabited

/-- The enumerator's value on the wire. -/
def Validity.code : Validity → Int
  | day => 1
  | ioc => 3
  | gtd => 4
  | eos => 6

/-- An order to be sent to the exchange. -/
structure Order where
  clientOrderId : Int := 0
  exchangeOrderNo : Int := 0
  token : Nat := 0
  segment : Nat := 0
  price : Int := 0
  qty : Int := 0
  disclosedQty : Int := 0
  side : Side := kBuy
  orderType : OrderType := .limit
  validity : Validity := .day
  createdAt : Nat := 0
  deriving DecidableEq, Repr, Inhabited

/-- A fill confirmation from the exchange. -/
structure FillReport where
  exchangeOrderNo : Int := 0
  clientOrderId : Int := 0
  token : Nat := 0
  fillPrice : Int := 0
  fillQty : Int := 0
  remainingQty : Int := 0
  fillTime : Nat := 0
  tradeNo : Int := 0
  side : Side := kBuy
  deriving DecidableEq, Repr, Inhabited

end NseHft
