import Mathlib.Data.Finset.Card
import NseHft.Lib.Machine
import NseHft.OrderManager.OrderManager

/-!
# Order lifecycle

Histories of calls: client ids of any value share the slots, and exchange responses name
unknown, ended or aliased orders in any order.
-/
namespace NseHft

open FixedWidth

namespace OrderManager

inductive Call where
  | newOrder (o : Order) (buf : Buffer) (nowIst : Nat) (openClose : UInt8)
  | ack (clordid exchangeOrderNo : Int)
  | fill (report : FillReport)
  | cancelAck (clordid : Int)
  | reject (clordid errorCode : Int)
  | encodeCancel (clordid : Int) (buf : Buffer) (nowIst : Nat)

/-- What the caller gets back: whether a response was applied, or the length of a message. -/
inductive Answer where
  | applied (ok : Bool)
  | encoded (length : Nat)
  deriving DecidableEq, Repr

def Answer.refused : Answer → Bool
  | applied ok => !ok
  | encoded length => length == 0

variable (A : Arithmetic)

def answer (om : OrderManager) : Call → Answer × OrderManager
  | .newOrder o buf nowIst openClose =>
    let placed := om.newOrder o buf nowIst openClose
    (.encoded placed.length, placed.om)
  | .ack clordid exchangeOrderNo => (om.onAck clordid exchangeOrderNo).map .applied id
  | .fill report => (om.onFill A report).map .applied id
  | .cancelAck clordid => (om.onCancelAck clordid).map .applied id
  | .reject clordid errorCode => (om.onReject clordid errorCode).map .applied id
  | .encodeCancel clordid buf nowIst => (.encoded (om.encodeCancel clordid buf nowIst).1, om)

abbrev after (om : OrderManager) (calls : List Call) : OrderManager :=
  Machine.after (answer A) om calls

/-- The order that a response or a cancel request is for. -/
def Call.target : Call → Option Int
  | newOrder .. => none
  | ack clordid _ | cancelAck clordid | reject clordid _ | encodeCancel clordid _ _ => some clordid
  | fill report => some report.clientOrderId

/-- The responses that can end an order. -/
def Call.ends : Call → Option Int
  | fill report => some report.clientOrderId
  | cancelAck clordid | reject clordid _ => some clordid
  | _ => none

/-- The slot of `clordid` is given to a new order. -/
def Call.reuses (om : OrderManager) (clordid : Int) : Call → Prop
  | newOrder o buf nowIst openClose =>
    let placed := om.newOrder o buf nowIst openClose
    placed.length ≠ 0 ∧ index placed.order.clientOrderId = index clordid
  | _ => False

theorem Call.target_of_ends {call : Call} {clordid : Int} (ends : call.ends = some clordid) :
    call.target = some clordid := by
  cases call with
  | fill | cancelAck | reject => exact ends
  | newOrder | ack | encodeCancel => cases ends

section Effects

variable {A} {om om' : OrderManager}

/-- The fields of an order that no response changes. -/
def SameTerms (o o' : Order) : Prop :=
  o'.clientOrderId = o.clientOrderId ∧ o'.token = o.token ∧ o'.side = o.side ∧
    o'.price = o.price ∧ o'.qty = o.qty

/-- What a call can do to the table. -/
inductive Effect (om : OrderManager) : Call → OrderManager → Prop where
  | idle {call : Call} {om' : OrderManager} (table : om'.table = om.table)
      (count : om'.liveCount = om.liveCount) : Effect om call om'
  -- a new order takes a slot that is free or holds an ended order
  | place {call : Call} {om' : OrderManager} (o : Order)
      (free : om.busy o.clientOrderId = false)
      (table : om'.table = Function.update om.table (index o.clientOrderId)
        { order := o, state := .pendingNew, occupied := true })
      (count : om'.liveCount = om.liveCount + 1)
      (named : call.reuses om o.clientOrderId) : Effect om call om'
  -- a response that leaves the order going
  | keep {call : Call} {om' : OrderManager} (clordid : Int) (lo lo' : LiveOrder)
      (found : om.get clordid = some lo)
      (table : om'.table = Function.update om.table (index clordid) lo')
      (count : om'.liveCount = om.liveCount) (terms : SameTerms lo.order lo'.order)
      (slot : lo'.occupied = lo.occupied) (going : lo'.state.terminal = false)
      (named : call.target = some clordid) : Effect om call om'
  -- a response that ends the order; only an occupied slot is counted down
  | finish {call : Call} {om' : OrderManager} (clordid : Int) (lo lo' : LiveOrder)
      (found : om.get clordid = some lo)
      (table : om'.table = Function.update om.table (index clordid) lo')
      (count : om'.liveCount = if lo.occupied then om.liveCount - 1 else om.liveCount)
      (terms : SameTerms lo.order lo'.order) (slot : lo'.occupied = false)
      (ended : lo'.state.terminal = true) (named : call.ends = some clordid) : Effect om call om'

/-- An order is refused and nothing but the id counter moves, or it is placed in its slot. -/
theorem newOrder_cases (o : Order) (buf : Buffer) (nowIst : Nat) (openClose : UInt8) :
    let placed := om.newOrder o buf nowIst openClose
    (placed.length = 0 ∧ placed.om.table = om.table ∧ placed.om.liveCount = om.liveCount) ∨
      (placed.length = 80 ∧ om.busy placed.order.clientOrderId = false ∧
        placed.om.table = Function.update om.table (index placed.order.clientOrderId)
          { order := placed.order, state := .pendingNew, occupied := true } ∧
        placed.om.liveCount = om.liveCount + 1) := by
  by_cases unnamed : o.clientOrderId = 0
  · -- the slots do not depend on the counter
    have counted : ({ om with nextClordid := om.nextClordid + 1 } : OrderManager).busy
        om.nextClordid = om.busy om.nextClordid := rfl
    cases busy : om.busy om.nextClordid with
    | true => exact .inl (by simp [newOrder, unnamed, counted, busy])
    | false => exact .inr (by simp [newOrder, unnamed, counted, busy, setSlot])
  · cases busy : om.busy o.clientOrderId with
    | true => exact .inl (by simp [newOrder, unnamed, busy])
    | false => exact .inr (by simp [newOrder, unnamed, busy, setSlot])

theorem release_liveCount (clordid : Int) (lo : LiveOrder) :
    (om.release clordid lo).liveCount =
      if lo.occupied then om.liveCount - 1 else om.liveCount := by
  unfold release
  split <;> rfl

theorem onAck_effect (clordid exchangeOrderNo : Int) :
    Effect om (.ack clordid exchangeOrderNo) (om.onAck clordid exchangeOrderNo).2 := by
  unfold onAck
  cases found : om.get clordid with
  | none => exact .idle rfl rfl
  | some lo =>
    by_cases pending : lo.state = .pendingNew
    · simp only [pending, ne_eq, not_true_eq_false, if_false]
      exact .keep clordid lo _ found rfl rfl ⟨rfl, rfl, rfl, rfl, rfl⟩ rfl rfl rfl
    · simp only [pending, ne_eq, not_false_eq_true, if_true]
      exact .idle rfl rfl

theorem onFill_effect (report : FillReport) :
    Effect om (.fill report) (om.onFill A report).2 := by
  unfold onFill
  cases found : om.get report.clientOrderId with
  | none => exact .idle rfl rfl
  | some lo =>
    dsimp only
    split
    · exact .finish report.clientOrderId lo _ found (release_table _ _) (release_liveCount _ _)
        ⟨rfl, rfl, rfl, rfl, rfl⟩ rfl rfl rfl
    · exact .keep report.clientOrderId lo _ found rfl rfl ⟨rfl, rfl, rfl, rfl, rfl⟩ rfl rfl
        rfl

theorem onCancelAck_effect (clordid : Int) :
    Effect om (.cancelAck clordid) (om.onCancelAck clordid).2 := by
  unfold onCancelAck
  cases found : om.get clordid with
  | none => exact .idle rfl rfl
  | some lo =>
    exact .finish clordid lo _ found (release_table _ _) (release_liveCount _ _)
      ⟨rfl, rfl, rfl, rfl, rfl⟩ rfl rfl rfl

theorem onReject_effect (clordid errorCode : Int) :
    Effect om (.reject clordid errorCode) (om.onReject clordid errorCode).2 := by
  unfold onReject
  cases found : om.get clordid with
  | none => exact .idle rfl rfl
  | some lo =>
    exact .finish clordid lo _ found (release_table _ _) (release_liveCount _ _)
      ⟨rfl, rfl, rfl, rfl, rfl⟩ rfl rfl rfl

theorem answer_effect (om : OrderManager) (call : Call) :
    Effect om call (om.answer A call).2 := by
  cases call with
  | newOrder o buf nowIst openClose =>
    rcases newOrder_cases o buf nowIst openClose with
      ⟨_, table, count⟩ | ⟨length, free, table, count⟩
    · exact .idle table count
    · exact .place _ free table count ⟨by rw [length]; decide, rfl⟩
  | ack clordid exchangeOrderNo => exact onAck_effect clordid exchangeOrderNo
  | fill report => exact onFill_effect report
  | cancelAck clordid => exact onCancelAck_effect clordid
  | reject clordid errorCode => exact onReject_effect clordid errorCode
  | encodeCancel clordid buf nowIst => exact .idle rfl rfl

end Effects

section Accounting

variable {A} {om om' : OrderManager}

def occupiedSlots (om : OrderManager) : Finset Nat :=
  (Finset.range kOrderTableSize).filter fun slot => (om.table slot).occupied = true

/-- The live count is right, and an occupied slot holds an order of its own that has not ended. -/
structure Accounted (om : OrderManager) : Prop where
  count : om.liveCount = om.occupiedSlots.card
  slots : ∀ slot ∈ om.occupiedSlots,
    index (om.table slot).order.clientOrderId = slot ∧ (om.table slot).state.terminal = false

theorem index_lt (clordid : Int) : index clordid < kOrderTableSize := by
  simp only [index, kOrderTableSize]
  omega

theorem index_mem_occupiedSlots (clordid : Int) :
    index clordid ∈ om.occupiedSlots ↔ (om.table (index clordid)).occupied = true := by
  simp only [occupiedSlots, Finset.mem_filter, Finset.mem_range, index_lt, true_and]

theorem occupiedSlots_update {clordid : Int} {lo : LiveOrder}
    (table : om'.table = Function.update om.table (index clordid) lo) :
    om'.occupiedSlots =
      if lo.occupied then insert (index clordid) om.occupiedSlots
      else om.occupiedSlots.erase (index clordid) := by
  ext slot
  by_cases here : slot = index clordid
  · subst here
    cases occupied : lo.occupied <;> simp [index_mem_occupiedSlots, table, occupied]
  · cases lo.occupied <;> simp [occupiedSlots, table, here]

/-- Writing a slot changes the number of occupied ones by what happens in that slot. -/
theorem card_occupiedSlots_update {clordid : Int} {lo : LiveOrder}
    (table : om'.table = Function.update om.table (index clordid) lo) :
    om'.occupiedSlots.card + (if (om.table (index clordid)).occupied then 1 else 0) =
      om.occupiedSlots.card + if lo.occupied then 1 else 0 := by
  have member := @index_mem_occupiedSlots om clordid
  rw [occupiedSlots_update table]
  cases before : (om.table (index clordid)).occupied with
  | true =>
    have here := member.mpr before
    have some := Finset.card_pos.mpr ⟨_, here⟩
    cases lo.occupied with
    | true => simp only [if_true, Finset.insert_eq_of_mem here]
    | false =>
      simp only [Bool.false_eq_true, if_false, if_true, Finset.card_erase_of_mem here]
      omega
  | false =>
    have away : index clordid ∉ om.occupiedSlots := by
      rw [member, before]
      exact Bool.false_ne_true
    cases lo.occupied with
    | true =>
      simp only [Bool.false_eq_true, if_false, if_true, Finset.card_insert_of_notMem away,
        Nat.add_zero]
    | false => simp only [Bool.false_eq_true, if_false, Finset.erase_eq_of_notMem away]

/-- The slot property after one slot was written. -/
theorem Accounted.slots_update {clordid : Int} {lo : LiveOrder} (accounted : om.Accounted)
    (table : om'.table = Function.update om.table (index clordid) lo)
    (own : lo.occupied = true → lo.order.clientOrderId = clordid ∧ lo.state.terminal = false) :
    ∀ slot ∈ om'.occupiedSlots,
      index (om'.table slot).order.clientOrderId = slot ∧
        (om'.table slot).state.terminal = false := by
  intro slot occupied
  by_cases here : slot = index clordid
  · subst here
    rw [index_mem_occupiedSlots, table, Function.update_self] at occupied
    rw [table, Function.update_self]
    obtain ⟨named, going⟩ := own occupied
    exact ⟨by rw [named], going⟩
  · have before : slot ∈ om.occupiedSlots := by
      simpa [occupiedSlots, table, here] using occupied
    rw [table, Function.update_of_ne here]
    exact accounted.slots slot before

theorem Effect.accounted {call : Call} (effect : Effect om call om')
    (accounted : om.Accounted) : om'.Accounted := by
  cases effect with
  | idle table count =>
    have same : om'.occupiedSlots = om.occupiedSlots := by simp only [occupiedSlots, table]
    refine ⟨by rw [count, same, accounted.count], ?_⟩
    rw [same, table]
    exact accounted.slots
  | place o free table count named =>
    -- an occupied slot has not ended, so it would be busy
    have vacant : (om.table (index o.clientOrderId)).occupied = false := by
      rw [← Bool.not_eq_true]
      intro occupied
      have going := (accounted.slots _ (index_mem_occupiedSlots _ |>.mpr occupied)).2
      simp [busy, occupied, going] at free
    have card := card_occupiedSlots_update table
    simp only [vacant, Bool.false_eq_true, if_false, if_true] at card
    refine ⟨?_, accounted.slots_update table fun _ => ⟨rfl, rfl⟩⟩
    rw [count, accounted.count]
    omega
  | keep clordid lo lo' found table count terms slot going named =>
    obtain ⟨stored, same⟩ := (get_eq_some_iff _ _).mp found
    have card := card_occupiedSlots_update table
    rw [stored, slot] at card
    refine ⟨?_, accounted.slots_update table fun _ => ⟨terms.1.trans same, going⟩⟩
    rw [count, accounted.count]
    omega
  | finish clordid lo lo' found table count terms slot ended named =>
    obtain ⟨stored, same⟩ := (get_eq_some_iff _ _).mp found
    have card := card_occupiedSlots_update table
    rw [stored, slot] at card
    refine ⟨?_, accounted.slots_update table fun occupied => ?_⟩
    · -- a slot that was vacant already is not counted down again
      rw [count, accounted.count]
      simp only [Bool.false_eq_true, if_false] at card
      split at card
      next occupied =>
        rw [if_pos occupied]
        omega
      next vacant =>
        rw [if_neg vacant]
        omega
    · rw [slot] at occupied
      cases occupied

theorem new_accounted (memory : Nat → Order) : (OrderManager.new memory).Accounted := by
  have vacant : (OrderManager.new memory).occupiedSlots = ∅ := by
    simp [occupiedSlots, OrderManager.new]
  refine ⟨by rw [vacant]; rfl, ?_⟩
  simp [vacant]

theorem after_accounted (om : OrderManager) (accounted : om.Accounted) (calls : List Call) :
    (om.after A calls).Accounted :=
  Machine.after_invariant (answer A) Accounted
    (fun _ call before => (answer_effect _ call).accounted before) om accounted calls

end Accounting

section Retention

variable {A} {om om' : OrderManager}

/-- The order is in its slot as it was accepted, and has not ended. -/
def Holds (om : OrderManager) (o : Order) : Prop :=
  ∃ lo, om.get o.clientOrderId = some lo ∧ lo.occupied = true ∧ lo.state.terminal = false ∧
    SameTerms o lo.order

/-- The call ends the order: a fill, a cancel acknowledgement or a reject that names it. -/
def EndedBy (A : Arithmetic) (om : OrderManager) (clordid : Int) (call : Call) : Prop :=
  call.ends = some clordid ∧ ((om.answer A call).2.stateOf clordid).terminal = true

theorem SameTerms.trans {a b c : Order} (first : SameTerms a b) (second : SameTerms b c) :
    SameTerms a c :=
  ⟨second.1.trans first.1, second.2.1.trans first.2.1, second.2.2.1.trans first.2.2.1,
    second.2.2.2.1.trans first.2.2.2.1, second.2.2.2.2.trans first.2.2.2.2⟩

/-- An order whose slot was written: found there under the id of the new contents. -/
theorem get_update {clordid : Int} {lo : LiveOrder}
    (table : om'.table = Function.update om.table (index clordid) lo)
    (same : lo.order.clientOrderId = clordid) : om'.get clordid = some lo := by
  rw [get_eq_some_iff, table, Function.update_self]
  exact ⟨rfl, same⟩

/-- An order whose slot was not written stays as it was. -/
theorem get_update_of_ne {clordid other : Int} {lo : LiveOrder}
    (table : om'.table = Function.update om.table (index other) lo)
    (elsewhere : index clordid ≠ index other) : om'.get clordid = om.get clordid := by
  simp only [get, table, Function.update_of_ne elsewhere]

/-- Two orders that share a slot and are both found in it are the same one. -/
theorem get_unique {clordid other : Int} {lo lo' : LiveOrder}
    (first : om.get clordid = some lo) (second : om.get other = some lo')
    (shared : index clordid = index other) : clordid = other ∧ lo = lo' := by
  obtain ⟨stored, named⟩ := (get_eq_some_iff _ _).mp first
  obtain ⟨stored', named'⟩ := (get_eq_some_iff _ _).mp second
  rw [shared, stored'] at stored
  subst stored
  exact ⟨named.symm.trans named', rfl⟩

theorem answer_holds (o : Order) (call : Call) (held : om.Holds o) :
    (om.answer A call).2.Holds o ∨ EndedBy A om o.clientOrderId call := by
  obtain ⟨lo, found, occupied, going, terms⟩ := held
  have stored := ((get_eq_some_iff _ _).mp found).1
  cases answer_effect (A := A) om call with
  | idle table count =>
    left
    exact ⟨lo, by simpa only [get, table] using found, occupied, going, terms⟩
  | place placed free table count named =>
    left
    -- the slot is busy, so the new order went elsewhere
    have elsewhere : index o.clientOrderId ≠ index placed.clientOrderId := by
      intro shared
      rw [busy, ← shared, stored, occupied, going] at free
      cases free
    exact ⟨lo, by rw [get_update_of_ne table elsewhere, found], occupied, going, terms⟩
  | keep clordid lo₁ lo₂ found₁ table count terms₁ slot going₁ named =>
    left
    -- found in one slot means the same order
    by_cases shared : index o.clientOrderId = index clordid
    · obtain ⟨rfl, rfl⟩ := get_unique found found₁ shared
      have same := ((get_eq_some_iff _ _).mp found).2
      exact ⟨lo₂, get_update table (terms₁.1.trans same), slot.trans occupied, going₁,
        terms.trans terms₁⟩
    · exact ⟨lo, by rw [get_update_of_ne table shared, found], occupied, going, terms⟩
  | finish clordid lo₁ lo₂ found₁ table count terms₁ slot ended named =>
    by_cases shared : index o.clientOrderId = index clordid
    · right
      obtain ⟨rfl, rfl⟩ := get_unique found found₁ shared
      have same := ((get_eq_some_iff _ _).mp found).2
      refine ⟨named, ?_⟩
      simp only [stateOf, get_update table (terms₁.1.trans same), ended]
    · left
      exact ⟨lo, by rw [get_update_of_ne table shared, found], occupied, going, terms⟩

/-- An accepted order is held. -/
theorem newOrder_holds (o : Order) (buf : Buffer) (nowIst : Nat) (openClose : UInt8)
    (accepted : (om.newOrder o buf nowIst openClose).length ≠ 0) :
    (om.newOrder o buf nowIst openClose).om.Holds (om.newOrder o buf nowIst openClose).order := by
  rcases newOrder_cases o buf nowIst openClose with ⟨refused, _⟩ | ⟨_, _, table, _⟩
  · exact absurd refused accepted
  · exact ⟨_, get_update table rfl, rfl, rfl, rfl, rfl, rfl, rfl, rfl⟩

/-- No live order is lost or overwritten, whatever calls are made: the count is the number of
occupied slots, each of them holds an order of its own that has not ended, a refused order
changes nothing, and an accepted one is found unchanged until a response for it ends it. -/
theorem live_orders_kept (memory : Nat → Order) (calls : List Call) :
    let om := (OrderManager.new memory).after A calls
    (om.liveCount = om.occupiedSlots.card ∧
      ∀ slot < kOrderTableSize, (om.table slot).occupied = true →
        (om.table slot).order.clientOrderId % kOrderTableSize = slot ∧
          (om.table slot).state.terminal = false) ∧
    ∀ (o : Order) (buf : Buffer) (nowIst : Nat) (openClose : UInt8),
      let placed := om.newOrder o buf nowIst openClose
      (placed.length = 0 →
        placed.om.table = om.table ∧ placed.om.liveCount = om.liveCount) ∧
      (placed.length ≠ 0 → ∀ later : List Call,
        (placed.om.after A later).Holds placed.order ∨
          ∃ before call rest, later = before ++ call :: rest ∧
            (placed.om.after A before).Holds placed.order ∧
            EndedBy A (placed.om.after A before) placed.order.clientOrderId call) := by
  intro om
  have accounted : om.Accounted := after_accounted _ (new_accounted memory) calls
  refine ⟨⟨accounted.count, fun slot small occupied => ?_⟩, fun o buf nowIst openClose => ?_⟩
  · -- the index is the remainder of the id, also of a negative one
    obtain ⟨own, going⟩ := accounted.slots slot
      (by simp [occupiedSlots, small, occupied])
    refine ⟨?_, going⟩
    simp only [index, kOrderTableSize] at own ⊢
    omega
  · intro placed
    refine ⟨fun refused => ?_, fun accepted later => ?_⟩
    · rcases @newOrder_cases om o buf nowIst openClose with
        ⟨_, table, count⟩ | ⟨length, _⟩
      · exact ⟨table, count⟩
      · rw [show placed.length = 80 from length] at refused
        cases refused
    · -- any later call keeps the order or ends it, so the whole history does
      exact Machine.after_until (answer A) (fun om => om.Holds placed.order)
        (fun om call => EndedBy A om placed.order.clientOrderId call)
        (fun _ call held => answer_holds placed.order call held) placed.om
        (newOrder_holds o buf nowIst openClose accepted) later

end Retention

section Ended

variable {A} {om : OrderManager} {clordid : Int}

/-- No call of the list gives the slot of `clordid` away. -/
def SlotKept (A : Arithmetic) (om : OrderManager) (clordid : Int) : List Call → Prop
  | [] => True
  | call :: rest => ¬call.reuses om clordid ∧ SlotKept A (om.answer A call).2 clordid rest

/-- Every call of the list that is for `clordid` is refused and leaves its slot as it was. -/
def Absorbs (A : Arithmetic) (om : OrderManager) (clordid : Int) : List Call → Prop
  | [] => True
  | call :: rest =>
    (call.target = some clordid →
      (om.answer A call).1.refused = true ∧
        (om.answer A call).2.table (index clordid) = om.table (index clordid)) ∧
      Absorbs A (om.answer A call).2 clordid rest

/-- The calls that an ended order refuses: a late acknowledgement, and a cancel request if the
order was never acknowledged. -/
def Call.harmless (lo : LiveOrder) : Call → Prop
  | ack .. => True
  | encodeCancel .. => lo.exchangeOrderNo = 0
  | _ => False

theorem Call.reuses_of_shared {call : Call} {other : Int} (reuses : call.reuses om other)
    (shared : index clordid = index other) : call.reuses om clordid := by
  cases call with
  | newOrder => exact ⟨reuses.1, reuses.2.trans shared.symm⟩
  | ack | fill | cancelAck | reject | encodeCancel => exact reuses.elim

/-- A call for another order leaves the slot alone unless it reuses it. -/
theorem answer_other {lo : LiveOrder} (found : om.get clordid = some lo) (call : Call)
    (other : call.target ≠ some clordid) (kept : ¬call.reuses om clordid) :
    (om.answer A call).2.table (index clordid) = om.table (index clordid) := by
  cases answer_effect (A := A) om call with
  | idle table count => rw [table]
  | place o free table count named =>
    rw [table, Function.update_of_ne fun shared => kept (Call.reuses_of_shared named shared)]
  | keep clordid' lo₁ lo₂ found₁ table count terms slot going named =>
    rw [table, Function.update_of_ne]
    intro shared
    exact other ((get_unique found found₁ shared).1 ▸ named)
  | finish clordid' lo₁ lo₂ found₁ table count terms slot ended named =>
    rw [table, Function.update_of_ne]
    intro shared
    exact other ((get_unique found found₁ shared).1 ▸ Call.target_of_ends named)

/-- What an ended order does with a call that is for it. -/
theorem answer_ended_iff {lo : LiveOrder} (found : om.get clordid = some lo)
    (ended : lo.state.terminal = true) (call : Call) (named : call.target = some clordid) :
    ((om.answer A call).1.refused = true ∧
      (om.answer A call).2.table (index clordid) = om.table (index clordid)) ↔
      call.harmless lo := by
  cases call with
  | newOrder => cases named
  | ack clordid' exchangeOrderNo =>
    cases named
    -- only a pending order is acknowledged
    have late : lo.state ≠ .pendingNew := by
      intro pending
      rw [pending] at ended
      cases ended
    simp [answer, onAck, found, late, Answer.refused, Call.harmless]
  | fill report =>
    cases named
    -- whatever the order's state, the fill is applied
    have applied : (om.onFill A report).1 = true := by
      simp only [onFill, found]
      split <;> rfl
    simp [answer, applied, Answer.refused, Call.harmless]
  | cancelAck clordid' =>
    cases named
    simp [answer, onCancelAck, found, Answer.refused, Call.harmless]
  | reject clordid' errorCode =>
    cases named
    simp [answer, onReject, found, Answer.refused, Call.harmless]
  | encodeCancel clordid' buf nowIst =>
    cases named
    by_cases unknown : lo.exchangeOrderNo = 0 <;>
      simp [answer, encodeCancel, found, unknown, Answer.refused, Call.harmless,
        NnfEncoder.encodeCancel]

/-- Until its slot is reused, an order that has ended refuses every call and stays as it is
exactly if no fill, cancel acknowledgement or reject for it arrives and no cancel is requested
after it was acknowledged. -/
theorem ended_absorbs_iff (om : OrderManager) (clordid : Int) (lo : LiveOrder)
    (found : om.get clordid = some lo) (ended : lo.state.terminal = true) (calls : List Call)
    (kept : SlotKept A om clordid calls) :
    Absorbs A om clordid calls ↔
      ∀ call ∈ calls, call.target = some clordid → call.harmless lo := by
  -- the slot is `lo` as long as the calls are refused
  induction calls generalizing om with
  | nil => simp [Absorbs]
  | cons call rest ih =>
    obtain ⟨notReused, keptAfter⟩ := kept
    rw [List.forall_mem_cons]
    by_cases refusal : call.target = some clordid → call.harmless lo
    · -- a call that is refused or for another order leaves `lo` in the slot
      have unchanged : (om.answer A call).2.table (index clordid) = om.table (index clordid) := by
        by_cases named : call.target = some clordid
        · exact ((answer_ended_iff found ended call named).mpr (refusal named)).2
        · exact answer_other found call named notReused
      have foundAfter : (om.answer A call).2.get clordid = some lo := by
        rw [get_eq_some_iff, unchanged]
        exact (get_eq_some_iff _ _).mp found
      refine and_congr ?_ (ih _ foundAfter keptAfter)
      exact forall_congr' fun named => answer_ended_iff found ended call named
    · -- the first call is not harmless, so both sides fail
      constructor
      · intro absorbs
        exact absurd (fun named => (answer_ended_iff found ended call named).mp (absorbs.1 named))
          refusal
      · intro harmless
        exact absurd harmless.1 refusal

/-- One order, cancelled before it was acknowledged. -/
private def cancelledEarly : OrderManager :=
  (OrderManager.new fun _ => {}).after .wrapping
    [.newOrder { clientOrderId := 1, qty := 10 } [] 0 79, .cancelAck 1]

/-- One order, acknowledged and then filled. -/
private def filledLate : OrderManager :=
  (OrderManager.new fun _ => {}).after .wrapping
    [.newOrder { clientOrderId := 1, qty := 10 } [] 0 79, .ack 1 500,
      .fill { clientOrderId := 1, fillQty := 10, remainingQty := 0 }]

theorem cancelled_order_absorbs :
    Absorbs .wrapping cancelledEarly 1 [.ack 1 500, .encodeCancel 1 [] 0] :=
  (ended_absorbs_iff cancelledEarly 1 (cancelledEarly.table 1) rfl rfl
    [.ack 1 500, .encodeCancel 1 [] 0] ⟨id, id, trivial⟩).mpr (by
      intro call member named
      rcases List.mem_cons.mp member with rfl | member
      · trivial
      · rw [List.mem_singleton.mp member]
        rfl)

/-- A fill that crosses with the cancel acknowledgement revives the order, and an order that
was filled after its acknowledgement can still be cancelled. -/
theorem ended_order_revived :
    (cancelledEarly.stateOf 1 = .cancelled ∧
      (cancelledEarly.onFill .wrapping
        { clientOrderId := 1, fillQty := 4, remainingQty := 6 }).1 = true ∧
      (cancelledEarly.onFill .wrapping
        { clientOrderId := 1, fillQty := 4, remainingQty := 6 }).2.stateOf 1 =
          .partiallyFilled) ∧
    filledLate.stateOf 1 = .filled ∧ (filledLate.encodeCancel 1 [] 0).1 = 52 := by
  decide +kernel

end Ended

section Crossing

variable {A} {om : OrderManager} {clordid : Int} {lo : LiveOrder}

/-- The slot of an order that is acknowledged. -/
def acknowledgedAs (exchangeOrderNo : Int) (lo : LiveOrder) : LiveOrder :=
  { lo with
    exchangeOrderNo := exchangeOrderNo
    order := { lo.order with exchangeOrderNo := exchangeOrderNo }
    state := .acknowledged }

theorem onAck_pending (found : om.get clordid = some lo) (pending : lo.state = .pendingNew)
    (exchangeOrderNo : Int) :
    (om.onAck clordid exchangeOrderNo).2.get clordid = some (acknowledgedAs exchangeOrderNo lo) := by
  simp only [onAck, found, pending, ne_eq, not_true_eq_false, if_false]
  exact get_update rfl ((get_eq_some_iff _ _).mp found).2

theorem onAck_late (found : om.get clordid = some lo) (late : lo.state ≠ .pendingNew)
    (exchangeOrderNo : Int) : (om.onAck clordid exchangeOrderNo).2 = om := by
  simp only [onAck, found, late, ne_eq, not_false_eq_true, if_true]

/-- The slot of an order that is filled in part. -/
def partlyFilled (filledQty : Int) (lo : LiveOrder) : LiveOrder :=
  { lo with filledQty := filledQty, state := .partiallyFilled }

theorem onFill_partly {fill : FillReport} (found : om.get fill.clientOrderId = some lo) {qty : Int}
    (total : A.i32 (lo.filledQty + fill.fillQty) = qty) (partly : qty < lo.order.qty)
    (going : fill.remainingQty ≠ 0) :
    (om.onFill A fill).2.get fill.clientOrderId = some (partlyFilled qty lo) := by
  have slot : filledBy A fill lo = partlyFilled qty lo := by
    rw [filledBy, total, if_neg (not_or.mpr ⟨Int.not_le.mpr partly, going⟩)]
    rfl
  have table := onFill_table (A := A) found
  rw [slot] at table
  exact get_update table ((get_eq_some_iff _ _).mp found).2

theorem encodeCancel_ne_zero_iff (found : om.get clordid = some lo) (buf : Buffer) (nowIst : Nat) :
    (om.encodeCancel clordid buf nowIst).1 ≠ 0 ↔ lo.exchangeOrderNo ≠ 0 := by
  by_cases unknown : lo.exchangeOrderNo = 0 <;>
    simp [encodeCancel, found, unknown, NnfEncoder.encodeCancel, kNnfHeaderSize]

/-- An acknowledgement and a partial fill of a pending order that cross: the order is filled
alike whichever is first, but the acknowledgement is lost if it is second. The slots agree
exactly if the number was in the slot before, and after the fill came first the order can be
cancelled exactly if it had a number before. -/
theorem ack_fill_commute_iff (om : OrderManager) (clordid exchangeOrderNo : Int) (lo : LiveOrder)
    (fill : FillReport) (found : om.get clordid = some lo) (pending : lo.state = .pendingNew)
    (named : fill.clientOrderId = clordid) (qtyFits : FitsI32 lo.order.qty)
    (filledFits : FitsI32 lo.filledQty) (nonneg : 0 ≤ fill.fillQty)
    (partly : fill.fillQty < lo.order.qty - lo.filledQty) (going : 0 < fill.remainingQty)
    (buf : Buffer) (nowIst : Nat) :
    let ackFirst := ((om.onAck clordid exchangeOrderNo).2.onFill .wrapping fill).2
    let fillFirst := ((om.onFill .wrapping fill).2.onAck clordid exchangeOrderNo).2
    (∃ a b, ackFirst.get clordid = some a ∧ fillFirst.get clordid = some b ∧
      a.state = .partiallyFilled ∧ b.state = .partiallyFilled ∧
      a.filledQty = lo.filledQty + fill.fillQty ∧ b.filledQty = lo.filledQty + fill.fillQty ∧
      (a = b ↔ lo.exchangeOrderNo = exchangeOrderNo ∧
        lo.order.exchangeOrderNo = exchangeOrderNo)) ∧
    ((ackFirst.encodeCancel clordid buf nowIst).1 ≠ 0 ↔ exchangeOrderNo ≠ 0) ∧
    ((fillFirst.encodeCancel clordid buf nowIst).1 ≠ 0 ↔ lo.exchangeOrderNo ≠ 0) := by
  subst named
  have total : Arithmetic.wrapping.i32 (lo.filledQty + fill.fillQty) = lo.filledQty + fill.fillQty := by
    apply i32_eq_self
    simp only [FitsI32] at qtyFits filledFits ⊢
    omega
  have below : lo.filledQty + fill.fillQty < lo.order.qty := by omega
  intro ackFirst fillFirst
  have first : ackFirst.get fill.clientOrderId =
      some (partlyFilled (lo.filledQty + fill.fillQty) (acknowledgedAs exchangeOrderNo lo)) :=
    onFill_partly (onAck_pending found pending exchangeOrderNo) total below (by omega)
  have filled := onFill_partly found total below (by omega)
  -- the order is no longer pending when the acknowledgement comes second
  have refused : fillFirst = (om.onFill .wrapping fill).2 :=
    onAck_late filled (by simp [partlyFilled]) exchangeOrderNo
  rw [refused]
  refine ⟨⟨_, _, first, filled, rfl, rfl, rfl, rfl, ?_⟩, encodeCancel_ne_zero_iff first buf nowIst,
    encodeCancel_ne_zero_iff filled buf nowIst⟩
  -- the slots differ in the two copies of the number at most
  constructor
  · intro same
    exact ⟨(congrArg LiveOrder.exchangeOrderNo same).symm,
      (congrArg (fun slot => slot.order.exchangeOrderNo) same).symm⟩
  · rintro ⟨rfl, known⟩
    obtain ⟨order⟩ := lo
    simp only at known
    simp only [partlyFilled, acknowledgedAs, ← known]

/-- A pending order that holds the exchange number already. -/
private def numberedOrder : LiveOrder :=
  { order := { clientOrderId := 1, qty := 10, exchangeOrderNo := 500 }, state := .pendingNew,
    exchangeOrderNo := 500, occupied := true }

theorem numbered_order_commutes :
    let om := (OrderManager.new fun _ => {}).setSlot 1 numberedOrder
    let fill : FillReport := { clientOrderId := 1, fillQty := 4, remainingQty := 6 }
    ((om.onAck 1 500).2.onFill .wrapping fill).2.get 1 =
        ((om.onFill .wrapping fill).2.onAck 1 500).2.get 1 ∧
      (((om.onFill .wrapping fill).2.onAck 1 500).2.encodeCancel 1 [] 0).1 ≠ 0 := by
  intro om fill
  obtain ⟨⟨a, b, first, second, _, _, _, _, same⟩, _, cancels⟩ :=
    ack_fill_commute_iff om 1 500 numberedOrder fill rfl rfl rfl (by decide) (by decide) (by decide)
      (by decide) (by decide) [] 0
  refine ⟨?_, cancels.mpr (by decide)⟩
  rw [first, second, same.mpr ⟨rfl, rfl⟩]

/-- A new order whose first fill overtakes its acknowledgement never learns its exchange
number and cannot be cancelled; the other way round it can. -/
theorem overtaken_ack_blocks_cancel :
    let om := (OrderManager.new fun _ => {}).after .wrapping
      [.newOrder { clientOrderId := 1, qty := 10 } [] 0 79]
    let fill : FillReport := { clientOrderId := 1, fillQty := 4, remainingQty := 6 }
    om.stateOf 1 = .pendingNew ∧
      (((om.onAck 1 500).2.onFill .wrapping fill).2.get 1).map (·.exchangeOrderNo) = some 500 ∧
      (((om.onAck 1 500).2.onFill .wrapping fill).2.encodeCancel 1 [] 0).1 = 52 ∧
      (((om.onFill .wrapping fill).2.onAck 1 500).2.get 1).map (·.exchangeOrderNo) = some 0 ∧
      (((om.onFill .wrapping fill).2.onAck 1 500).2.encodeCancel 1 [] 0).1 = 0 := by
  decide +kernel

end Crossing

end OrderManager

end NseHft
