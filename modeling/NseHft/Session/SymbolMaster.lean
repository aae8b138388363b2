import Mathlib.Logic.Function.Basic
import NseHft.Common.Types
import NseHft.Lib.CText

/-!
# Symbol master

Reference data of the instruments, in a table indexed by token.
-/
namespace NseHft

def kSymbolTableSize : Nat := 65536

inductive InstrumentType where
  | unknown
  | equity
  | futIdx
  | futStk
  | optIdx
  | optStk
  deriving DecidableEq, Repr

inductive OptionType where
  | none
  | call
  | put
  deriving DecidableEq, Repr

structure Instrument where
  token : Nat := 0
  segment : Nat := 0
  instrumentType : InstrumentType := .unknown
  optionType : OptionType := .none
  lotSize : Int := 1
  tickSize : Int := 0
  strikePrice : Int := 0
  prevClose : Int := 0
  circuitPctX100 : Nat := 0
  expiryYyyymmdd : Nat := 0
  active : Bool := false
  symbol : List UInt8 := List.replicate 16 0
  series : List UInt8 := List.replicate 4 0
  deriving DecidableEq, Repr, Inhabited

structure SymbolMaster where
  table : Nat → Instrument := fun _ => {}
  count : Nat := 0

namespace SymbolMaster

def put (sm : SymbolMaster) (inst : Instrument) : SymbolMaster :=
  if inst.token ≥ kSymbolTableSize then sm
  else {
    table := Function.update sm.table inst.token { inst with active := true }
    count := if (sm.table inst.token).active then sm.count else sm.count + 1 }

def get (sm : SymbolMaster) (token : Nat) : Option Instrument :=
  if token ≥ kSymbolTableSize ∨ !(sm.table token).active then none else some (sm.table token)

def getLotSize (sm : SymbolMaster) (token : Nat) : Int :=
  match sm.get token with
  | some i => i.lotSize
  | none => 0

def getTickSize (sm : SymbolMaster) (token : Nat) : Int :=
  match sm.get token with
  | some i => i.tickSize
  | none => 0

/-- Reverse lookup by symbol and series: the first active row that carries both. -/
def getToken (sm : SymbolMaster) (symbol series : List UInt8) : Nat :=
  let carries (token : Nat) : Bool :=
    (sm.table token).active && symbol == CText.cString (sm.table token).symbol &&
      series == CText.cString (sm.table token).series
  ((List.range kSymbolTableSize).find? carries).elim 0 fun token => (sm.table token).token

end SymbolMaster

/-- The circuit band around the previous close, as strategy and risk compute it from the
symbol master they may have been given; `none` without a band. -/
def priceBand (i64 : Int → Int) (symbols : Option SymbolMaster) (token : Nat) : Option (Int × Int) :=
  match symbols.bind fun sm => sm.get token with
  | none => none
  | some inst =>
    if inst.prevClose ≤ 0 ∨ inst.circuitPctX100 = 0 then none
    else
      let delta := (i64 (inst.prevClose * inst.circuitPctX100)).tdiv 10000
      some (i64 (inst.prevClose - delta), i64 (inst.prevClose + delta))

end NseHft
