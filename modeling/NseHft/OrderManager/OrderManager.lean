import Mathlib.Logic.Function.Basic
import NseHft.OrderManager.NnfEncoder

/-!
# Order manager

The lifecycle of every order that was sent. An order lives in the slot its client id selects;
the id stays there after the order has ended, until the slot is used again.
-/
namespace NseHft

open FixedWidth

inductive OrderState where
  | idle
  | pendingNew
  | acknowledged
  | partiallyFilled
  | filled
  | cancelled
  | rejected
  deriving DecidableEq, Repr

namespace OrderState

def terminal : OrderState → Bool
  | filled | cancelled | rejected => true
  | _ => false

def live : OrderState → Bool
  | pendingNew | acknowledged | partiallyFilled => true
  | _ => false

end OrderState

structure LiveOrder where
  order : Order
  state : OrderState := .idle
  exchangeOrderNo : Int := 0
  filledQty : Int := 0
  rejectCode : Int := 0
  occupied : Bool := false
  deriving DecidableEq, Repr

def kOrderTableSize : Nat := 4096

structure OrderManager where
  encoder : NnfEncoder
  table : Nat → LiveOrder
  -- counts the orders that come without an id, without wrapping; a 64-bit integer in the source
  nextClordid : Int
  liveCount : Nat

namespace OrderManager

variable (A : Arithmetic)

/-- The orders of a fresh table are whatever the memory held. -/
def new (memory : Nat → Order) : OrderManager :=
  { encoder := ({} : NnfEncoder).setAlphaChar 32 32
    table := fun slot => { order := memory slot }
    nextClordid := 1
    liveCount := 0 }

def index (clordid : Int) : Nat := (clordid % kOrderTableSize).toNat

def setSlot (om : OrderManager) (clordid : Int) (slot : LiveOrder) : OrderManager :=
  { om with table := Function.update om.table (index clordid) slot }

/-- The slot of an order, live or ended. -/
def get (om : OrderManager) (clordid : Int) : Option LiveOrder :=
  let slot := om.table (index clordid)
  if slot.order.clientOrderId = clordid then some slot else none

def stateOf (om : OrderManager) (clordid : Int) : OrderState :=
  match om.get clordid with
  | some lo => lo.state
  | none => .idle

/-- The slot that `clordid` selects holds an order that has not ended. -/
def busy (om : OrderManager) (clordid : Int) : Bool :=
  (om.table (index clordid)).occupied && !(om.table (index clordid)).state.terminal

/-- What a call of `new_order` leaves behind: the returned length, the order with the id it
was given, the caller's buffer and the manager. -/
structure NewOrder where
  length : Nat
  order : Order
  buf : Buffer
  om : OrderManager

def newOrder (om : OrderManager) (o : Order) (buf : Buffer) (nowIst : Nat) (openClose : UInt8) :
    NewOrder :=
  let (o, om) :=
    if o.clientOrderId = 0 then
      ({ o with clientOrderId := om.nextClordid }, { om with nextClordid := om.nextClordid + 1 })
    else (o, om)
  -- a duplicate id and a slot conflict are refused alike
  if om.busy o.clientOrderId then ⟨0, o, buf, om⟩
  else
    let (length, buf) := om.encoder.encodeNewOrder buf o nowIst openClose
    ⟨length, o, buf, { om.setSlot o.clientOrderId
        { order := o, state := .pendingNew, occupied := true } with
      liveCount := om.liveCount + 1 }⟩

/-- Stores `lo`, which has ended, and gives its slot back. -/
def release (om : OrderManager) (clordid : Int) (lo : LiveOrder) : OrderManager :=
  if lo.occupied then
    { om.setSlot clordid { lo with occupied := false } with liveCount := om.liveCount - 1 }
  else om.setSlot clordid lo

def onAck (om : OrderManager) (clordid exchangeOrderNo : Int) : Bool × OrderManager :=
  match om.get clordid with
  | none => (false, om)
  | some lo =>
    -- an acknowledgement after a fill is too late
    if lo.state ≠ .pendingNew then (false, om)
    else (true, om.setSlot clordid
      { lo with
        exchangeOrderNo := exchangeOrderNo
        order := { lo.order with exchangeOrderNo := exchangeOrderNo }
        state := .acknowledged })

def onFill (om : OrderManager) (fill : FillReport) : Bool × OrderManager :=
  match om.get fill.clientOrderId with
  | none => (false, om)
  | some lo =>
    -- whatever state the order is in
    let lo := { lo with filledQty := A.i32 (lo.filledQty + fill.fillQty) }
    if lo.filledQty ≥ lo.order.qty ∨ fill.remainingQty = 0 then
      (true, om.release fill.clientOrderId { lo with state := .filled })
    else (true, om.setSlot fill.clientOrderId { lo with state := .partiallyFilled })

def onCancelAck (om : OrderManager) (clordid : Int) : Bool × OrderManager :=
  match om.get clordid with
  | none => (false, om)
  | some lo => (true, om.release clordid { lo with state := .cancelled })

def onReject (om : OrderManager) (clordid errorCode : Int) : Bool × OrderManager :=
  match om.get clordid with
  | none => (false, om)
  | some lo => (true, om.release clordid { lo with state := .rejected, rejectCode := errorCode })

def encodeCancel (om : OrderManager) (clordid : Int) (buf : Buffer) (nowIst : Nat) :
    Nat × Buffer :=
  match om.get clordid with
  | none => (0, buf)
  | some lo =>
    if lo.exchangeOrderNo = 0 then (0, buf)
    else om.encoder.encodeCancel buf lo.exchangeOrderNo lo.order.token clordid nowIst

section NewOrder

variable {om : OrderManager} {o : Order} {buf : Buffer} {nowIst : Nat} {openClose : UInt8}

/-- A busy slot refuses the order. -/
theorem newOrder_busy (named : o.clientOrderId ≠ 0) (busy : om.busy o.clientOrderId = true) :
    om.newOrder o buf nowIst openClose = ⟨0, o, buf, om⟩ := by
  simp [newOrder, named, busy]

/-- A free slot takes the order, and the message is encoded. -/
theorem newOrder_free (named : o.clientOrderId ≠ 0) (free : om.busy o.clientOrderId = false) :
    (om.newOrder o buf nowIst openClose).length = 80 ∧
      (om.newOrder o buf nowIst openClose).order = o ∧
      (om.newOrder o buf nowIst openClose).om.table =
        Function.update om.table (index o.clientOrderId)
          { order := o, state := .pendingNew, occupied := true } := by
  simp [newOrder, named, free, setSlot]

end NewOrder

section Fill

variable {A} {om : OrderManager} {fill : FillReport}

/-- The report turns an order that is not live into a partially filled one. -/
def Reopens (A : Arithmetic) (om : OrderManager) (fill : FillReport) : Prop :=
  ∃ lo, om.get fill.clientOrderId = some lo ∧ lo.state.live = false ∧
    A.i32 (lo.filledQty + fill.fillQty) < lo.order.qty ∧ fill.remainingQty ≠ 0

theorem get_eq_some_iff (clordid : Int) (lo : LiveOrder) :
    om.get clordid = some lo ↔
      om.table (index clordid) = lo ∧ lo.order.clientOrderId = clordid := by
  simp only [get]
  split
  next same =>
    simp only [Option.some.injEq]
    exact ⟨fun equal => ⟨equal, equal ▸ same⟩, And.left⟩
  next differs =>
    simp only [reduceCtorEq, false_iff]
    rintro ⟨rfl, same⟩
    exact differs same

theorem release_table (clordid : Int) (lo : LiveOrder) :
    (om.release clordid lo).table =
      Function.update om.table (index clordid) { lo with occupied := false } := by
  obtain ⟨order, state, exchangeOrderNo, filledQty, rejectCode, occupied⟩ := lo
  cases occupied <;> rfl

/-- The slot of an order after a fill. -/
def filledBy (A : Arithmetic) (fill : FillReport) (lo : LiveOrder) : LiveOrder :=
  if A.i32 (lo.filledQty + fill.fillQty) ≥ lo.order.qty ∨ fill.remainingQty = 0 then
    { lo with
      filledQty := A.i32 (lo.filledQty + fill.fillQty), state := .filled, occupied := false }
  else { lo with filledQty := A.i32 (lo.filledQty + fill.fillQty), state := .partiallyFilled }

theorem onFill_unknown (unknown : om.get fill.clientOrderId = none) :
    (om.onFill A fill).2 = om := by
  simp only [onFill, unknown]

theorem onFill_table {lo : LiveOrder} (found : om.get fill.clientOrderId = some lo) :
    (om.onFill A fill).2.table =
      Function.update om.table (index fill.clientOrderId) (filledBy A fill lo) := by
  simp only [onFill, found, filledBy]
  split
  · exact release_table _ _
  · rfl

/-- Orders that are live after a fill were live before, unless it reopens one. The order it
names stays live only if something remains. -/
theorem onFill_live (closed : ¬Reopens A om fill) (slot : Nat)
    (live : ((om.onFill A fill).2.table slot).state.live = true) :
    (om.table slot).state.live = true ∧
      ((om.onFill A fill).2.table slot).order = (om.table slot).order ∧
      (slot = index fill.clientOrderId →
        (om.table slot).order.clientOrderId = fill.clientOrderId → fill.remainingQty ≠ 0) := by
  cases found : om.get fill.clientOrderId with
  | none =>
    rw [onFill_unknown found] at live ⊢
    refine ⟨live, rfl, fun here same => ?_⟩
    subst here
    rw [(get_eq_some_iff _ _).mpr ⟨rfl, same⟩] at found
    cases found
  | some lo =>
    have stored := ((get_eq_some_iff _ _).mp found).1
    rw [onFill_table found] at live ⊢
    by_cases here : slot = index fill.clientOrderId
    · subst here
      rw [Function.update_self] at live ⊢
      rw [stored]
      simp only [filledBy] at live ⊢
      split at live
      · cases live
      next partly =>
        have left := not_or.mp partly
        rw [if_neg partly]
        refine ⟨?_, rfl, fun _ _ => left.2⟩
        -- the only way to a live order from one that is not
        by_contra ended
        exact closed ⟨lo, found, by simpa using ended, Int.not_le.mp left.1, left.2⟩
    · rw [Function.update_of_ne here] at live ⊢
      exact ⟨live, rfl, fun named => absurd named here⟩

end Fill

end OrderManager

end NseHft
