import NseHft.Risk.RateLimit

/-!
# Bounds of the risk tables

The risk manager once more with checked accesses to its three tables, where an index behind the
end is a fault. The bookkeeping calls look at the token first. A check does not: it reaches the
tables with any token unless it ends before the price is looked at.
-/
namespace NseHft

open FixedWidth Machine

/-- `table[token]`; `none` behind the end. -/
def entryAt (table : Nat → Int) (token : Nat) : Option Int :=
  if token < kSymbolTableSize then some (table token) else none

/-- `table[token] = value`; `none` behind the end. -/
def storeAt (table : Nat → Int) (token : Nat) (value : Int) : Option (Nat → Int) :=
  if token < kSymbolTableSize then some (Function.update table token value) else none

namespace RiskManager

variable (A : Arithmetic)

def updateReferenceAt (rm : RiskManager) (token : Nat) (bid ask : Int) : Option RiskManager :=
  if token < kSymbolTableSize then do
    let refBid ← storeAt rm.refBid token bid
    let refAsk ← storeAt rm.refAsk token ask
    some { rm with refBid, refAsk }
  else some rm

def positionAt (rm : RiskManager) (token : Nat) : Option Int :=
  if token < kSymbolTableSize then entryAt rm.position token else some 0

def priceSaneAt (rm : RiskManager) (o : Order) : Option Bool := do
  let ref ← if o.side = kBuy then entryAt rm.refAsk o.token else entryAt rm.refBid o.token
  if ref ≤ 0 then some true
  else
    let diff := if o.price > ref then A.i64 (o.price - ref) else A.i64 (ref - o.price)
    some (decide (A.i64 (diff * 100) ≤ A.i64 (ref * rm.cfg.priceSanityPct)))

def positionOkAt (rm : RiskManager) (o : Order) (lot : Int) : Option Bool := do
  let signedQty := if o.side = kBuy then o.qty else A.i32 (-o.qty)
  let position ← entryAt rm.position o.token
  let projected := A.i64 (position + signedQty)
  let l := if lot > 0 then lot else 1
  let lots := projected.tdiv l
  let lots := if lots < 0 then A.i64 (-lots) else lots
  if lots > rm.cfg.maxTokenPositionLots then some false
  else if o.segment = kSegmentCm ∧ (A.i64 (o.qty * o.price)).tdiv 100 > rm.cfg.maxCmNotionalInr then
    some false
  else some true

def checkAt (rm : RiskManager) (wallClock : Nat) (o : Order) :
    Option (RejectReason × RiskManager) :=
  if rm.killSwitch || rm.dailyLossKill then some (.killSwitch, rm)
  else
    let now := if rm.simNowNs ≠ 0 then rm.simNowNs else wallClock
    if !isWithinMarketHours now && !(rm.cfg.allowPreopen && isPreopen now) then
      some (.outsideMarketHours, rm)
    else if o.qty ≤ 0 ∨ o.qty > rm.cfg.maxOrderQty then some (.orderTooLarge, rm)
    else
      let lot := rm.lotSize o.token
      if o.segment = kSegmentFo ∧ lot > 0 ∧ o.qty.tmod lot ≠ 0 then some (.lotSizeMismatch, rm)
      else if ∃ band ∈ priceBand A.i64 rm.symbols o.token, o.price < band.1 ∨ o.price > band.2 then
        some (.priceBandBreach, rm)
      -- here the tables are read for the first time, with the token of the order
      else do
        let sane ← rm.priceSaneAt A o
        if !sane then some (.priceSanity, rm)
        else
          let within ← rm.positionOkAt A o lot
          if !within then some (.positionLimit, rm)
          else
            match rm.consumeRateToken now with
            | (true, rm) => some (.approved, rm)
            | (false, rm) => some (.rateLimitExceeded, rm)

def recomputePnlAt (rm : RiskManager) (token : Nat) (markPaisa : Int) : Option RiskManager := do
  let position ← entryAt rm.position token
  let posValuePaisa := A.i64 (position * markPaisa)
  let pnlPaisa := A.i64 (rm.cashflowPaisa + posValuePaisa)
  let markPnlInr := pnlPaisa.tdiv 100
  some { rm with
    markPnlInr := markPnlInr
    dailyLossKill := if markPnlInr < A.i64 (-rm.cfg.maxDailyLossInr) then true else rm.dailyLossKill }

def onFillAt (rm : RiskManager) (fill : FillReport) : Option RiskManager :=
  if fill.token ≥ kSymbolTableSize then some rm
  else do
    let signedQty := if fill.side = kBuy then fill.fillQty else A.i32 (-fill.fillQty)
    let old ← entryAt rm.position fill.token
    let position ← storeAt rm.position fill.token (A.i32 (old + A.i32 signedQty))
    let rm := { rm with
      position := position
      cashflowPaisa := A.i64 (rm.cashflowPaisa + A.i64 (A.i64 (-signedQty) * fill.fillPrice)) }
    rm.recomputePnlAt A fill.token fill.fillPrice

/-- The public calls, with the reader of a position. -/
inductive Call where
  | op (op : Op)
  | position (token : Nat)

/-- A call on the plain tables; the reader's answer is its position. -/
def call (rm : RiskManager) : Call → (Option RejectReason ⊕ Int) × RiskManager
  | .op op => (rm.perform A op).map .inl id
  | .position token => (.inr (rm.positionOf token), rm)

/-- A call on the checked tables. -/
def callAt (rm : RiskManager) : Call → Option ((Option RejectReason ⊕ Int) × RiskManager)
  | .op (.setNow istNs) => some (.inl none, rm.setNow istNs)
  | .op (.check wallClock o) => do
    let (reason, rm) ← rm.checkAt A wallClock o
    some (.inl (some reason), rm)
  | .op (.onFill fill) => do
    let rm ← rm.onFillAt A fill
    some (.inl none, rm)
  | .op (.updateReference token bid ask) => do
    let rm ← rm.updateReferenceAt token bid ask
    some (.inl none, rm)
  | .op (.setKillSwitch on) => some (.inl none, rm.setKillSwitch on)
  | .position token => do
    let position ← rm.positionAt token
    some (.inr position, rm)

/-! ### Calls on tokens in the table -/

section Inside

variable {A} {rm : RiskManager} {token : Nat}

theorem entryAt_eq {table : Nat → Int} (inside : token < kSymbolTableSize) :
    entryAt table token = some (table token) := if_pos inside

theorem storeAt_eq {table : Nat → Int} {value : Int} (inside : token < kSymbolTableSize) :
    storeAt table token value = some (Function.update table token value) := if_pos inside

theorem updateReferenceAt_eq (rm : RiskManager) (token : Nat) (bid ask : Int) :
    rm.updateReferenceAt token bid ask = some (rm.updateReference token bid ask) := by
  rw [updateReferenceAt, updateReference]
  split
  next inside =>
    rw [storeAt_eq inside, storeAt_eq inside]
    rfl
  next => rfl

theorem positionAt_eq (rm : RiskManager) (token : Nat) :
    rm.positionAt token = some (rm.positionOf token) := by
  rw [positionAt, positionOf]
  split
  next inside => exact entryAt_eq inside
  next => rfl

theorem onFillAt_eq (rm : RiskManager) (fill : FillReport) :
    rm.onFillAt A fill = some (rm.onFill A fill) := by
  rw [onFillAt, onFill]
  split
  next => rfl
  next outside =>
    have inside := Nat.not_le.mp outside
    simp only [recomputePnlAt, entryAt_eq inside, storeAt_eq inside, Option.bind_eq_bind,
      Option.bind_some]
    rfl

theorem priceSaneAt_eq {o : Order} (inside : o.token < kSymbolTableSize) :
    rm.priceSaneAt A o = some (rm.priceSane A o) := by
  simp only [priceSaneAt, priceSane, entryAt_eq inside]
  by_cases buy : o.side = kBuy
  · simp only [buy, if_true, Option.bind_eq_bind, Option.bind_some]
    split <;> rfl
  · simp only [buy, if_false, Option.bind_eq_bind, Option.bind_some]
    split <;> rfl

theorem positionOkAt_eq {o : Order} (inside : o.token < kSymbolTableSize) (lot : Int) :
    rm.positionOkAt A o lot = some (rm.positionOk A o lot) := by
  simp only [positionOkAt, positionOk, entryAt_eq inside, Option.bind_eq_bind, Option.bind_some]
  split_ifs <;> rfl

end Inside

/-! ### Checks -/

section Check

variable {A} {rm : RiskManager} {wallClock : Nat} {o : Order}

/-- Nothing ends the check before the price: no kill switch is on, the market is open and the
quantity is in range. -/
structure Proceeds (rm : RiskManager) (wallClock : Nat) (o : Order) : Prop where
  alive : (rm.killSwitch || rm.dailyLossKill) = false
  hours : isWithinMarketHours (rm.clock wallClock) = true ∨
    rm.cfg.allowPreopen = true ∧ isPreopen (rm.clock wallClock) = true
  size : 0 < o.qty ∧ o.qty ≤ rm.cfg.maxOrderQty

theorem checkAt_inside (inside : o.token < kSymbolTableSize) :
    rm.checkAt A wallClock o = some (rm.check A wallClock o) := by
  simp only [checkAt, check, gate, priceSaneAt_eq inside, positionOkAt_eq inside,
    Option.bind_eq_bind, Option.bind_some]
  rw [← clock]
  -- the seven conditions are those of the gate, in its order
  iterate 7
    split
    · rfl
  -- what is left has passed everything but the bucket
  generalize rm.consumeRateToken _ = drawn
  obtain ⟨taken, left⟩ := drawn
  cases taken <;> rfl

theorem lotSize_outside {token : Nat} (outside : kSymbolTableSize ≤ token) :
    rm.lotSize token = 0 := by
  rw [lotSize]
  split
  next => simp [SymbolMaster.getLotSize, SymbolMaster.get, outside]
  next => rfl

theorem priceBand_outside {i64 : Int → Int} {symbols : Option SymbolMaster} {token : Nat}
    (outside : kSymbolTableSize ≤ token) : priceBand i64 symbols token = none := by
  cases symbols <;> simp [priceBand, SymbolMaster.get, outside]

/-- The symbol master knows nothing of the token, so that neither the lot nor the band ends the
check. -/
theorem checkAt_outside (outside : kSymbolTableSize ≤ o.token)
    (proceeds : rm.Proceeds wallClock o) : rm.checkAt A wallClock o = none := by
  have trading : (!isWithinMarketHours (rm.clock wallClock) &&
      !(rm.cfg.allowPreopen && isPreopen (rm.clock wallClock))) = false := by
    rcases proceeds.hours with within | ⟨allowed, early⟩
    · simp [within]
    · simp [allowed, early]
  have behind (table : Nat → Int) : entryAt table o.token = none := if_neg (Nat.not_lt.mpr outside)
  have unread : rm.priceSaneAt A o = none := by
    simp only [priceSaneAt, behind, ite_self]
    rfl
  have size := proceeds.size
  simp only [checkAt, proceeds.alive, lotSize_outside outside, priceBand_outside outside, unread]
  rw [← clock, if_neg (by simp), if_neg (Bool.eq_false_iff.mp trading), if_neg (by omega), if_neg (by omega),
    if_neg (by simp)]
  rfl

theorem checkAt_stopped (stopped : ¬ rm.Proceeds wallClock o) :
    rm.checkAt A wallClock o = some (rm.check A wallClock o) := by
  simp only [checkAt, check, gate]
  rw [← clock]
  by_cases killed : (rm.killSwitch || rm.dailyLossKill) = true
  · simp only [killed, if_true]
  by_cases closed : (!isWithinMarketHours (rm.clock wallClock) &&
      !(rm.cfg.allowPreopen && isPreopen (rm.clock wallClock))) = true
  · simp only [killed, closed, if_true, Bool.false_eq_true, if_false]
  by_cases size : o.qty ≤ 0 ∨ o.qty > rm.cfg.maxOrderQty
  · simp only [killed, closed, size, if_true, Bool.false_eq_true, if_false]
  · refine absurd ⟨by simpa using killed, ?_, by omega⟩ stopped
    simpa [Decidable.or_iff_not_imp_left] using closed

end Check

/-- A check of a token behind the tables that gets as far as the price. -/
def Faults (rm : RiskManager) : Call → Prop
  | .op (.check wallClock o) => kSymbolTableSize ≤ o.token ∧ rm.Proceeds wallClock o
  | _ => False

variable {A}

theorem callAt_fault (rm : RiskManager) (call : Call) (faults : rm.Faults call) :
    rm.callAt A call = none := by
  match call with
  | .op (.check wallClock o) =>
    rw [callAt, checkAt_outside faults.1 faults.2]
    rfl

theorem callAt_eq (rm : RiskManager) (call : Call) (safe : ¬ rm.Faults call) :
    rm.callAt A call = some (rm.call A call) := by
  match call with
  | .op (.setNow istNs) => rfl
  | .op (.check wallClock o) =>
    have returned : rm.checkAt A wallClock o = some (rm.check A wallClock o) := by
      by_cases inside : o.token < kSymbolTableSize
      · exact checkAt_inside inside
      · exact checkAt_stopped fun proceeds => safe ⟨Nat.not_lt.mp inside, proceeds⟩
    rw [callAt, returned]
    rfl
  | .op (.onFill fill) =>
    rw [callAt, onFillAt_eq]
    rfl
  | .op (.updateReference token bid ask) =>
    rw [callAt, updateReferenceAt_eq]
    rfl
  | .op (.setKillSwitch on) => rfl
  | .position token =>
    rw [callAt, positionAt_eq]
    rfl

/-- From a fresh risk manager no access is behind the end of a table exactly if every check of
a token behind the tables ends before it looks at the price. -/
theorem table_accesses_inside_iff (A : Arithmetic) (symbols : Option SymbolMaster)
    (cfg : RiskConfig) (calls : List Call) :
    (checkedAfter (callAt A) (new symbols cfg) calls).isSome ↔
      ∀ before wallClock o rest, calls = before ++ .op (.check wallClock o) :: rest →
        o.token < kSymbolTableSize ∨
          ¬ (after (call A) (new symbols cfg) before).Proceeds wallClock o := by
  rw [checkedAfter_isSome_iff callAt_fault callAt_eq]
  constructor
  · intro safe before wallClock o rest split
    by_cases inside : o.token < kSymbolTableSize
    · exact .inl inside
    · exact .inr fun proceeds => safe before _ rest split ⟨Nat.not_lt.mp inside, proceeds⟩
  · intro safe before call rest split faults
    match call with
    | .op (.check wallClock o) =>
      rcases safe before wallClock o rest split with inside | stopped
      · exact Nat.not_lt.mpr faults.1 inside
      · exact stopped faults.2

/-- An order for token 65536 within the trading hours. -/
theorem unlisted_token_read_behind_table :
    checkedAfter (callAt .wrapping) (new none {})
      [.op (.setNow 36000000000000), .op (.check 0 { token := 65536, price := 100, qty := 1 })] =
      none := by
  have faults : ((new none {}).setNow 36000000000000).Faults
      (.op (.check 0 { token := 65536, price := 100, qty := 1 })) :=
    ⟨by decide, by decide, .inl (by decide), by decide⟩
  have first : callAt .wrapping (new none {}) (.op (.setNow 36000000000000)) =
      some (.inl none, (new none {}).setNow 36000000000000) := rfl
  rw [checkedAfter, first, Option.bind_some, checkedAfter, callAt_fault _ _ faults]
  rfl

end RiskManager

end NseHft
