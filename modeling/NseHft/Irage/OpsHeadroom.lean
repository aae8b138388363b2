import Mathlib.Data.List.Nodup
import NseHft.Irage.PriceRange
import NseHft.Irage.SelfCross

/-!
# Operations per second

The headroom is sampled once, before the pass over the symbols. A call that starts just below
the threshold may place two orders for each of them, whatever is left up to the limit.
-/
namespace NseHft.Irage.Session

open FixedWidth

/-- The new orders and replacements among some messages. -/
def requotes (msgs : List SentOrder) : Nat := msgs.countP fun msg => msg.type ≠ .cancel

theorem requotes_append (msgs more : List SentOrder) :
    requotes (msgs ++ more) = requotes msgs + requotes more := List.countP_append

/-- The new orders and replacements sent between two sessions. -/
def placed (st st' : Session) : Nat := requotes (st'.impl.sent.drop st.impl.sent.length)

/-- Between the two sessions at most `n` orders are placed or replaced. -/
def Places (n : Nat) (st st' : Session) : Prop :=
  ∃ msgs, st'.impl.sent = st.impl.sent ++ msgs ∧ requotes msgs ≤ n

variable {A : Arithmetic} {st st' st'' : Session} {s : SymState} {n n' : Nat}

theorem placed_eq {msgs : List SentOrder} (sent : st'.impl.sent = st.impl.sent ++ msgs) :
    placed st st' = requotes msgs := by
  rw [placed, sent, List.drop_left]

theorem Places.placed_le (places : Places n st st') : placed st st' ≤ n := by
  obtain ⟨msgs, sent, few⟩ := places
  rwa [placed_eq sent]

theorem Places.trans (first : Places n st st') (second : Places n' st' st'') :
    Places (n + n') st st'' := by
  obtain ⟨msgs, sent, few⟩ := first
  obtain ⟨msgs', sent', few'⟩ := second
  refine ⟨msgs ++ msgs', by rw [sent', sent, List.append_assoc], ?_⟩
  rw [requotes_append]
  omega

theorem Places.mono (places : Places n st st') (fewer : n ≤ n') : Places n' st st' := by
  obtain ⟨msgs, sent, few⟩ := places
  exact ⟨msgs, sent, Nat.le_trans few fewer⟩

/-- Cancels place nothing. -/
theorem OnlyCancels.places (only : OnlyCancels st st') : Places 0 st st' := by
  obtain ⟨msgs, sent, cancels⟩ := only
  refine ⟨msgs, sent, Nat.le_of_eq ?_⟩
  rw [requotes, List.countP_eq_zero]
  intro msg member
  simp [cancels msg member]

/-! ## At most two orders for a symbol -/

/-- Without headroom a side is withdrawn or left alone. -/
theorem requote_places (opsOk ok : Bool) (side : OrdSide) (price qty shown : Int) :
    Places opsOk.toNat st (st.requote A opsOk s side ok price qty shown).1 := by
  rcases @requote_cases A st opsOk s side ok price qty shown with
    cancels | ⟨_, headroom, type, sent⟩
  · exact cancels.places.mono (Nat.zero_le _)
  · rw [headroom] at sent ⊢
    exact ⟨_, sent, List.countP_le_length⟩

theorem onSymbol_places (opsOk : Bool) (s : SymState) :
    Places (2 * opsOk.toNat) st (st.onSymbol A opsOk s).1 := by
  rcases @onSymbol_cases A st opsOk s with cancels | ⟨_, _, pass⟩
  · exact cancels.places.mono (Nat.zero_le _)
  · rw [pass, Nat.two_mul]
    exact (requote_places opsOk _ .buy ..).trans (requote_places opsOk _ .sell ..)

theorem onSymbols_places (opsOk : Bool) (symbols : List SymState) :
    Places (2 * opsOk.toNat * symbols.length) st (onSymbols A opsOk st symbols).1 := by
  induction symbols generalizing st with
  | nil => exact (OnlyCancels.of_eq rfl).places
  | cons s rest ih =>
    rw [List.length_cons, Nat.mul_succ, Nat.add_comm]
    exact (onSymbol_places opsOk s).trans ih

theorem onMarketData_places (A : Arithmetic) (st : Session) :
    Places (2 * st.opsOk.toNat * st.strat.syms.length) st (st.onMarketData A).2 := by
  have sweep : Places 0 st (st.cancelAll A) :=
    (foldl_cancelSides_withdraws st.strat.syms).1.sent.places
  rcases @onMarketData_cases A st with
    ⟨_, call⟩ | ⟨_, _, call⟩ | ⟨_, _, _, call⟩ | ⟨_, _, _, call⟩ <;> rw [call]
  · exact (OnlyCancels.of_eq rfl).places.mono (Nat.zero_le _)
  · exact sweep.mono (Nat.zero_le _)
  · exact sweep.mono (Nat.zero_le _)
  · exact onSymbols_places st.opsOk st.strat.syms

/-! ## Two orders for a symbol without orders -/

/-- A call quotes both sides of the symbol, and neither has an order yet. -/
structure Fresh (A : Arithmetic) (st : Session) (s : SymState) : Prop where
  permits : st.Permits A s
  priced : (st.decideQuotes A s).bidPx ≠ 0 ∧ (st.decideQuotes A s).askPx ≠ 0
  sized : A.i32 (st.strat.quoteLots * s.lotSize) ≠ 0
  free : ∀ side, (st.impl.slot s.id side 0).state = .noOrder

/-- The orders other than those of a symbol and side are the same. -/
def Beside (id : Int) (side : OrdSide) (st st' : Session) : Prop :=
  ∀ id' side' index, ¬ (id' = id ∧ side' = side) →
    st'.impl.slot id' side' index = st.impl.slot id' side' index

theorem quoteSide_fresh {side : OrdSide} {price qty : Int}
    (free : (st.impl.slot s.id side 0).state = .noOrder) (priced : price ≠ 0) (sized : qty ≠ 0) :
    (st.quoteSide A s side price qty).2.impl.sent =
        st.impl.sent ++ [⟨quoteFor s side price qty, false, .new⟩] ∧
      Beside s.id side st (st.quoteSide A s side price qty).2 := by
  have slot : (st.impl.slot (quoteFor s side price qty).symId (quoteFor s side price qty).side
      (quoteFor s side price qty).index).state = .noOrder := free
  rcases @ConnectImpl.sendOrder_cases A st.impl (quoteFor s side price qty) false with
    ⟨_, refuses, _⟩ | ⟨_, order, accepts, accepted⟩
  · cases refuses with
    | noAck waiting => simp [slot] at waiting
    | noOrder _ zero => exact absurd zero (not_or.mpr ⟨priced, sized⟩)
    | sameOrd standing => simp [slot] at standing
  · cases accepts with
    | cancel _ zero => exact absurd zero (not_or.mpr ⟨priced, sized⟩)
    | replace standing => simp [slot] at standing
    | new =>
      rw [quoteSide, accepted]
      refine ⟨rfl, fun id' side' index other => Function.update_of_ne ?_ _ _⟩
      intro same
      obtain ⟨sameId, sameSide, _⟩ := ConnectImpl.key_inj same
      exact other ⟨sameId, sameSide⟩

theorem onSymbol_fresh (fresh : st.Fresh A s) :
    (∃ msgs, (st.onSymbol A true s).1.impl.sent = st.impl.sent ++ msgs ∧ requotes msgs = 2) ∧
      ∀ id side index, id ≠ s.id →
        (st.onSymbol A true s).1.impl.slot id side index = st.impl.slot id side index := by
  obtain ⟨⟨bidSize, askSize⟩, narrow, bidOk, askOk⟩ := fresh.permits
  have marked : st.decideQuotes A (st.markMid A s) = st.decideQuotes A s := rfl
  rw [onSymbol, if_neg (by omega), if_neg (Int.not_lt.mpr narrow), quoteSymbol, marked]
  have lots : (st.markMid A s).lotSize = s.lotSize := rfl
  dsimp only
  rw [bidOk, askOk, lots]
  simp only [requote, Bool.and_self, if_true]
  obtain ⟨bidSent, bidBeside⟩ := @quoteSide_fresh A st (st.markMid A s) .buy _ _
    (fresh.free .buy) fresh.priced.1 fresh.sized
  -- the bid that was just sent is not in the way of the ask
  have askFree := bidBeside s.id .sell 0 (by simp) ▸ fresh.free .sell
  obtain ⟨askSent, askBeside⟩ := @quoteSide_fresh A _ (st.markMid A s) .sell _ _
    askFree fresh.priced.2 fresh.sized
  refine ⟨⟨_, by rw [askSent, bidSent, List.append_assoc], rfl⟩, ?_⟩
  intro id side index other
  rw [askBeside id side index fun same => other same.1,
    bidBeside id side index fun same => other same.1]

/-- The symbols that are still to come stay as they are. -/
theorem Fresh.onSymbol (fresh : st.Fresh A s) {s' : SymState} (fresh' : st.Fresh A s')
    (distinct : s'.id ≠ s.id) : (st.onSymbol A true s).1.Fresh A s' := by
  have sends := @onSymbol_sends A st true s
  have same := sends.decideQuotes (A := A) s'
  have lots : (st.onSymbol A true s).1.strat.quoteLots = st.strat.quoteLots := by rw [sends.strat]
  refine ⟨sends.permits fresh'.permits, ?_, ?_, ?_⟩
  · rw [same]
    exact fresh'.priced
  · rw [lots]
    exact fresh'.sized
  · intro side
    rw [(onSymbol_fresh fresh).2 s'.id side 0 distinct]
    exact fresh'.free side

theorem onSymbols_fresh (symbols : List SymState) (distinct : (symbols.map SymState.id).Nodup)
    (fresh : ∀ s ∈ symbols, st.Fresh A s) :
    ∃ msgs, (onSymbols A true st symbols).1.impl.sent = st.impl.sent ++ msgs ∧
      requotes msgs = 2 * symbols.length := by
  induction symbols generalizing st with
  | nil => exact ⟨[], by simp [onSymbols], rfl⟩
  | cons s rest ih =>
    rw [List.map_cons, List.nodup_cons] at distinct
    have here := fresh s List.mem_cons_self
    obtain ⟨⟨msgs, sent, two⟩, _⟩ := onSymbol_fresh here
    obtain ⟨msgs', sent', more⟩ := @ih (st.onSymbol A true s).1 distinct.2 fun s' member =>
      here.onSymbol (fresh s' (List.mem_cons_of_mem _ member))
        fun same => distinct.1 (same ▸ List.mem_map_of_mem member)
    refine ⟨msgs ++ msgs', ?_, ?_⟩
    · rw [onSymbols]
      dsimp only
      rw [sent', sent, List.append_assoc]
    · rw [requotes_append, two, more, List.length_cons]
      omega

/-! ## The limit -/

/-- A running platform in the morning with some symbols, all quoted 100 to 101 and without
orders. -/
def unquoted (totalOps consumed : Int) (n : Nat) : Session :=
  { impl :=
      { ticks := fun _ => ⟨100, 101, 10, 10⟩
        isRunning := true
        opsConsumed := consumed
        totalOps := totalOps }
    strat := { syms := (List.range n).map fun i : Nat => { id := i } } }

/-- One tick outside the touch on either side. -/
theorem unquoted_decides (totalOps consumed : Int) (n : Nat) (id : Int) :
    (unquoted totalOps consumed n).decideQuotes .wrapping { id := id } = ⟨99, 102, true, true⟩ := by
  have room : (unquoted totalOps consumed n).maxPosUnits .wrapping { id := id } = 2 ^ 20 := by
    show FixedWidth.i64 (2 ^ 20 * 1) = 2 ^ 20
    decide
  have desired : (unquoted totalOps consumed n).desired .wrapping { id := id } = ⟨99, 102⟩ := by
    rw [Session.desired, room]
    show Quoting.desiredQuotes .wrapping 100 101 1 10 10 0 (2 ^ 20) 2 1 = ⟨99, 102⟩
    decide +kernel
  have low : (unquoted totalOps consumed n).impl.getDprLow id = 0 := rfl
  have high : (unquoted totalOps consumed n).impl.getDprHigh id = 2 ^ 30 := rfl
  have flat : (unquoted totalOps consumed n).impl.getInventory id = 0 := rfl
  simp only [decideQuotes, Ranged, desired, room, low, high, flat, kMaxConsecutiveRejects]
  decide +kernel

theorem unquoted_fresh (totalOps consumed : Int) (n : Nat) (id : Int) :
    (unquoted totalOps consumed n).Fresh .wrapping { id := id } := by
  have decides := unquoted_decides totalOps consumed n id
  have sized : (0 : Int) < 10 := by decide
  refine ⟨⟨⟨sized, sized⟩, ?_, ?_, ?_⟩, ?_, ?_, fun _ => rfl⟩
  · show FixedWidth.i32 (101 - 100) ≤ FixedWidth.i32 (3 * 1)
    decide
  · rw [decides]
  · rw [decides]
  · rw [decides]
    decide
  · show FixedWidth.i32 (1 * 1) ≠ 0
    decide

/-- With headroom, two orders are placed for every symbol. -/
theorem unquoted_placed {totalOps consumed : Int} (headroom : consumed < (4 * totalOps).tdiv 5)
    (n : Nat) :
    placed (unquoted totalOps consumed n)
      ((unquoted totalOps consumed n).onMarketData .wrapping).2 = 2 * n := by
  have ok : (unquoted totalOps consumed n).opsOk = true := by
    rw [opsOk, Bool.or_eq_true, decide_eq_true_eq, decide_eq_true_eq]
    exact .inr headroom
  have distinct : ((unquoted totalOps consumed n).strat.syms.map SymState.id).Nodup := by
    simp only [unquoted, List.map_map]
    exact List.nodup_range.map fun i j same => Int.ofNat.inj same
  obtain ⟨msgs, sent, count⟩ := @onSymbols_fresh .wrapping (unquoted totalOps consumed n)
    (unquoted totalOps consumed n).strat.syms distinct fun s member => by
      obtain ⟨i, _, rfl⟩ := List.mem_map.mp member
      exact unquoted_fresh totalOps consumed n i
  have pass : ((unquoted totalOps consumed n).onMarketData .wrapping).2.impl.sent =
      (unquoted totalOps consumed n).impl.sent ++ msgs := by
    rw [← sent, ← ok]
    rfl
  rw [placed_eq pass, count]
  simp [unquoted]

/-- A call stays within the limit if it finds no headroom, or room for two orders a symbol. -/
theorem ops_within_limit (A : Arithmetic) (st : Session)
    (within : st.impl.opsConsumed ≤ st.impl.totalOps)
    (room : st.opsOk = false ∨
      st.impl.opsConsumed + 2 * st.strat.syms.length ≤ st.impl.totalOps) :
    st.impl.opsConsumed + placed st (st.onMarketData A).2 ≤ st.impl.totalOps := by
  have few := (onMarketData_places A st).placed_le
  cases ok : st.opsOk with
  | false =>
    rw [ok, Bool.toNat_false] at few
    omega
  | true =>
    have fits := room.resolve_left (by simp [ok])
    rw [ok, Bool.toNat_true] at few
    omega

/-- No tick, order or parameter makes a call exceed the limit exactly if two orders for each
symbol fit between the threshold and the limit. (With a limit of one the threshold is zero, and
nothing is ever quoted.) -/
theorem ops_headroom_iff (totalOps : Int) (n : Nat) (positive : 0 < totalOps) :
    (∀ st : Session, st.impl.totalOps = totalOps → st.strat.syms.length = n →
      0 ≤ st.impl.opsConsumed → st.impl.opsConsumed ≤ totalOps →
      st.impl.opsConsumed + placed st (st.onMarketData .wrapping).2 ≤ totalOps) ↔
    totalOps = 1 ∨ 4 * totalOps / 5 + 2 * n ≤ totalOps + 1 := by
  have threshold : (4 * totalOps).tdiv 5 = 4 * totalOps / 5 :=
    Int.tdiv_eq_ediv_of_nonneg (by omega)
  constructor
  · intro kept
    by_cases single : totalOps = 1
    · exact .inl single
    -- the worst call starts one below the threshold
    · have full := kept (unquoted totalOps (4 * totalOps / 5 - 1) n) rfl (by simp [unquoted])
        (show 0 ≤ 4 * totalOps / 5 - 1 by omega) (show 4 * totalOps / 5 - 1 ≤ totalOps by omega)
      rw [unquoted_placed (by omega)] at full
      have spent : 4 * totalOps / 5 - 1 + ((2 * n : Nat) : Int) ≤ totalOps := full
      omega
  · rintro wide st rfl rfl nonneg within
    apply ops_within_limit .wrapping st within
    cases ok : st.opsOk with
    | false => exact .inl rfl
    | true =>
      rw [opsOk, Bool.or_eq_true, decide_eq_true_eq, decide_eq_true_eq] at ok
      exact .inr (by omega)

/-- Sixteen symbols at one below the threshold of a limit of 200. -/
theorem sixteen_symbols_within_limit :
    159 + (placed (unquoted 200 159 16) ((unquoted 200 159 16).onMarketData .wrapping).2 : Int) ≤
      200 :=
  (ops_headroom_iff 200 16 (by decide)).mpr (.inr (by decide)) (unquoted 200 159 16) rfl rfl
    (by decide) (by decide)

/-- Sixteen symbols at one below the threshold of a limit of 100: the call places 32 orders. -/
theorem sixteen_symbols_exceed_limit :
    (unquoted 100 79 16).impl.opsConsumed ≤ 100 ∧
      79 + placed (unquoted 100 79 16) ((unquoted 100 79 16).onMarketData .wrapping).2 = 111 :=
  ⟨by decide, by rw [unquoted_placed (by decide)]⟩

end NseHft.Irage.Session
