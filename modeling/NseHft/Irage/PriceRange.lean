import Mathlib.Data.List.Forall2
import NseHft.Irage.KillSwitch

/-!
# Daily price range

Both quotes of a symbol are on the tick grid before the range is applied. A limit moves a quote
to the nearest price of the grid on its inner side; a quote that is then outside the other limit
is not sent. So the messages of a call, symbol by symbol, keep range and grid, also for limits
off the grid and for a range without any price of the grid.
-/
namespace NseHft.Irage.Session

open FixedWidth

/-! ## Snapping to the grid -/

/-- A lower limit is moved up by less than a tick. -/
theorem snapUp_spec {dprLo tickSize : Int} (nonneg : 0 ≤ dprLo) (positive : 0 < tickSize)
    (fits : FitsI32 (dprLo + tickSize)) :
    dprLo ≤ snapUp .wrapping dprLo tickSize ∧ tickSize ∣ snapUp .wrapping dprLo tickSize := by
  have above := Int.lt_ediv_add_one_mul_self (dprLo + tickSize - 1) positive
  have below := Int.ediv_mul_le (dprLo + tickSize - 1) (Int.ne_of_gt positive)
  rw [Int.add_mul, Int.one_mul] at above
  have snapped : snapUp .wrapping dprLo tickSize =
      (dprLo + tickSize - 1) / tickSize * tickSize := by
    simp only [FitsI32] at fits
    simp only [snapUp, Arithmetic.wrapping]
    rw [i32_eq_self (dprLo + tickSize) fits, i32_eq_self (dprLo + tickSize - 1) ⟨by omega, by omega⟩,
      Int.tdiv_eq_ediv_of_nonneg (by omega), i32_eq_self _ ⟨by omega, by omega⟩]
  rw [snapped]
  exact ⟨by omega, Int.dvd_mul_left _ _⟩

/-- An upper limit is moved down. -/
theorem snapDown_spec {dprHi tickSize : Int} (nonneg : 0 ≤ dprHi) (positive : 0 < tickSize)
    (fits : FitsI32 dprHi) :
    snapDown .wrapping dprHi tickSize ≤ dprHi ∧ tickSize ∣ snapDown .wrapping dprHi tickSize := by
  have below := Int.ediv_mul_le dprHi (Int.ne_of_gt positive)
  have least : 0 ≤ dprHi / tickSize * tickSize :=
    Int.mul_nonneg (Int.ediv_nonneg nonneg (Int.le_of_lt positive)) (Int.le_of_lt positive)
  have snapped : snapDown .wrapping dprHi tickSize = dprHi / tickSize * tickSize := by
    simp only [FitsI32] at fits
    simp only [snapDown, Arithmetic.wrapping]
    rw [Int.tdiv_eq_ediv_of_nonneg nonneg, i32_eq_self _ ⟨by omega, by omega⟩]
  rw [snapped]
  exact ⟨below, Int.dvd_mul_left _ _⟩

/-- The tick of a symbol is on its grid, its range is not empty, and the prices computed from
them are representable. -/
structure Gridded (st : Session) (s : SymState) : Prop where
  bid : s.tickSize ∣ (st.impl.getMtick s.id).bid
  ask : s.tickSize ∣ (st.impl.getMtick s.id).ask
  low : 0 ≤ st.impl.getDprLow s.id
  range : st.impl.getDprLow s.id < st.impl.getDprHigh s.id
  typed : FitsI32 (st.impl.getMtick s.id).bid ∧ FitsI32 (st.impl.getMtick s.id).ask ∧
    FitsI32 s.tickSize ∧ FitsI32 (st.impl.getDprHigh s.id)
  fits : FitsI32 (st.desired .wrapping s).bidPrice ∧ FitsI32 (st.desired .wrapping s).askPrice ∧
    FitsI32 (st.impl.getDprLow s.id + s.tickSize)

/-- A price that the platform accepts for the symbol. -/
def InRange (st : Session) (s : SymState) (price : Int) : Prop :=
  st.impl.getDprLow s.id ≤ price ∧ price ≤ st.impl.getDprHigh s.id ∧ s.tickSize ∣ price

variable {st st' st'' : Session} {s : SymState}

/-- The desired pair is a whole number of ticks away from the touch. -/
theorem Gridded.desired (gridded : st.Gridded s) :
    s.tickSize ∣ (st.desired .wrapping s).bidPrice ∧
      s.tickSize ∣ (st.desired .wrapping s).askPrice := by
  obtain ⟨bid, ask, grid, _⟩ := gridded.typed
  obtain ⟨ticks, pair⟩ := Quoting.desiredQuotes_eq (st.impl.getMtick s.id).bid
    (st.impl.getMtick s.id).ask s.tickSize (st.impl.getMtick s.id).bidSize
    (st.impl.getMtick s.id).askSize (st.impl.getInventory s.id) (st.maxPosUnits .wrapping s)
    st.strat.invSkewTicks st.strat.flowSkewTicks bid ask grid
  rw [Session.desired, pair]
  have shift := Int.dvd_mul_left ticks s.tickSize
  exact ⟨Int.dvd_add (Int.dvd_sub gridded.bid (Int.dvd_refl _)) shift,
    Int.dvd_add (Int.dvd_add gridded.ask (Int.dvd_refl _)) shift⟩

/-- A side that may be quoted has a price that the platform accepts. -/
theorem Gridded.decideQuotes (gridded : st.Gridded s) :
    ((st.decideQuotes .wrapping s).bidOk = true →
      st.InRange s (st.decideQuotes .wrapping s).bidPx) ∧
    ((st.decideQuotes .wrapping s).askOk = true →
      st.InRange s (st.decideQuotes .wrapping s).askPx) := by
  have ranged : st.Ranged s :=
    ⟨Int.lt_of_le_of_lt gridded.low gridded.range, gridded.range⟩
  have castBid : Arithmetic.wrapping.i32 (st.desired .wrapping s).bidPrice =
      (st.desired .wrapping s).bidPrice := i32_eq_self _ gridded.fits.1
  have castAsk : Arithmetic.wrapping.i32 (st.desired .wrapping s).askPrice =
      (st.desired .wrapping s).askPrice := i32_eq_self _ gridded.fits.2.1
  obtain ⟨bidGrid, askGrid⟩ := gridded.desired
  obtain ⟨raised, upGrid⟩ := snapUp_spec gridded.low s.tickSize_pos gridded.fits.2.2
  obtain ⟨lowered, downGrid⟩ :=
    snapDown_spec (Int.le_of_lt ranged.1) s.tickSize_pos gridded.typed.2.2.2
  simp only [Session.decideQuotes, InRange, ranged, true_and, castBid, castAsk, decide_eq_true_eq,
    Int.not_lt]
  refine ⟨fun ok => ⟨?_, ok.1, ?_⟩, fun ok => ⟨ok.1, ?_, ?_⟩⟩
  · split <;> omega
  · split <;> assumption
  · split <;> omega
  · split <;> assumption

/-! ## Messages -/

/-- Every new order and replacement sent between the two sessions has the property. -/
def Quotes (P : Quote → Prop) (st st' : Session) : Prop :=
  ∃ msgs, st'.impl.sent = st.impl.sent ++ msgs ∧ ∀ msg ∈ msgs, msg.type ≠ .cancel → P msg.quote

variable {P : Quote → Prop}

theorem OnlyCancels.quotes (only : OnlyCancels st st') : Quotes P st st' := by
  obtain ⟨msgs, sent, cancels⟩ := only
  exact ⟨msgs, sent, fun msg member priced => absurd (cancels msg member) priced⟩

theorem Quotes.trans (first : Quotes P st st') (second : Quotes P st' st'') : Quotes P st st'' := by
  obtain ⟨msgs, sent, good⟩ := first
  obtain ⟨msgs', sent', good'⟩ := second
  refine ⟨msgs ++ msgs', by rw [sent', sent, List.append_assoc], ?_⟩
  intro msg member
  rcases List.mem_append.mp member with old | new
  · exact good msg old
  · exact good' msg new

variable {A : Arithmetic}

theorem requote_quotes {opsOk ok : Bool} {side : OrdSide} {price qty shown : Int}
    (good : ok = true → opsOk = true → P (quoteFor s side price qty)) :
    Quotes P st (st.requote A opsOk s side ok price qty shown).1 := by
  rcases @requote_cases A st opsOk s side ok price qty shown with
    cancels | ⟨permitted, headroom, type, sent⟩
  · exact cancels.quotes
  · refine ⟨_, sent, ?_⟩
    intro msg member _
    rw [List.mem_singleton.mp member]
    exact good permitted headroom

/-- What may be sent for a symbol. -/
def Proper (st : Session) (s : SymState) (q : Quote) : Prop :=
  q.symId = s.id ∧ (st.Gridded s → st.InRange s q.price)

/-- One symbol of a pass that began in `st`. -/
theorem onSymbol_quotes (sends : Sends st st') (opsOk : Bool) :
    Quotes (st.Proper s) st' (st'.onSymbol .wrapping opsOk s).1 := by
  rcases @onSymbol_cases .wrapping st' opsOk s with cancels | ⟨_, _, pass⟩
  · exact cancels.quotes
  · -- the prices are those of the session in which the pass began
    have priced : st'.decideQuotes .wrapping (st'.markMid .wrapping s) =
        st.decideQuotes .wrapping s := sends.decideQuotes s
    rw [pass, quoteSymbol, priced]
    refine Quotes.trans (requote_quotes fun ok _ => ⟨rfl, ?_⟩)
      (requote_quotes fun ok _ => ⟨rfl, ?_⟩)
    · exact fun gridded => gridded.decideQuotes.1 ok
    · exact fun gridded => gridded.decideQuotes.2 ok

/-- A pass that sends only what may be sent for a symbol, symbol by symbol. -/
theorem foldl_quotes (pass : Session → SymState → Session)
    (each : ∀ st' s, Sends st st' → Sends st' (pass st' s) ∧ Quotes (st.Proper s) st' (pass st' s))
    (symbols : List SymState) (st' : Session) (sends : Sends st st') :
    ∃ parts : List (List SentOrder),
      (symbols.foldl pass st').impl.sent = st'.impl.sent ++ parts.flatten ∧
      List.Forall₂ (fun s part => ∀ msg ∈ part, msg.type ≠ .cancel → st.Proper s msg.quote)
        symbols parts := by
  induction symbols generalizing st' with
  | nil => exact ⟨[], by simp, .nil⟩
  | cons s rest ih =>
    obtain ⟨onward, part, sent, proper⟩ := each st' s sends
    obtain ⟨parts, later, all⟩ := ih (pass st' s) (sends.trans onward)
    refine ⟨part :: parts, ?_, .cons proper all⟩
    rw [List.foldl_cons, later, sent, List.flatten_cons, List.append_assoc]

theorem onSymbols_eq_foldl (opsOk : Bool) (symbols : List SymState) (st : Session) :
    (onSymbols A opsOk st symbols).1 =
      symbols.foldl (fun st s => (st.onSymbol A opsOk s).1) st := by
  induction symbols generalizing st with
  | nil => rfl
  | cons s rest ih => exact ih _

/-- The messages of a call, cut into the parts of the configured symbols: a new order or a
replacement is for the symbol of its part, and if the symbol's tick is on its grid and its range
is not empty, the price is in the range and on the grid. -/
theorem quotes_in_price_range (st : Session) :
    ∃ parts : List (List SentOrder),
      (st.onMarketData .wrapping).2.impl.sent = st.impl.sent ++ parts.flatten ∧
      List.Forall₂ (fun s part => ∀ msg ∈ part, msg.type ≠ .cancel →
          msg.quote.symId = s.id ∧
            (st.Gridded s → st.impl.getDprLow s.id ≤ msg.quote.price ∧
              msg.quote.price ≤ st.impl.getDprHigh s.id ∧ s.tickSize ∣ msg.quote.price))
        st.strat.syms parts := by
  have sweep : ∀ st' s, Sends st st' → Sends st' (st'.cancelSides .wrapping s) ∧
      Quotes (st.Proper s) st' (st'.cancelSides .wrapping s) :=
    fun st' s _ => ⟨cancelSides_sends s, (cancelSides_withdraws s).1.sent.quotes⟩
  rcases @onMarketData_cases .wrapping st with
    ⟨_, call⟩ | ⟨_, _, call⟩ | ⟨_, _, _, call⟩ | ⟨_, _, _, call⟩ <;> rw [call]
  · have silent := foldl_quotes (fun st' _ => st')
      (fun st' s _ => ⟨.refl st', (OnlyCancels.of_eq rfl).quotes⟩) st.strat.syms st (.refl st)
    rwa [List.foldl_fixed] at silent
  · exact foldl_quotes _ sweep st.strat.syms st (.refl st)
  · exact foldl_quotes _ sweep st.strat.syms st (.refl st)
  · simp only [quoteAll]
    rw [onSymbols_eq_foldl]
    exact foldl_quotes _ (fun st' s sends => ⟨onSymbol_sends st.opsOk s, onSymbol_quotes sends st.opsOk⟩)
      st.strat.syms st (.refl st)

/-- Limits off the grid of the contract; the desired bid is 6995. -/
private def offGrid : Session :=
  { impl := limited 7003 7012 0 7000 7005, strat := { syms := [oneSymbol] } }

theorem off_grid_limits_kept :
    (offGrid.onMarketData .wrapping).2.impl.sent.map (·.quote.price) = [7005, 7010] ∧
      ∀ msg ∈ (offGrid.onMarketData .wrapping).2.impl.sent, msg.type ≠ .cancel →
        7003 ≤ msg.quote.price ∧ msg.quote.price ≤ 7012 ∧ 5 ∣ msg.quote.price := by
  refine ⟨by decide +kernel, ?_⟩
  obtain ⟨parts, sent, all⟩ := quotes_in_price_range offGrid
  obtain ⟨part, _, proper, rest, rfl⟩ := List.forall₂_cons_left_iff.mp all
  have last := List.forall₂_nil_left_iff.mp rest
  rw [sent, last, List.flatten_cons, List.flatten_nil, List.append_nil]
  intro msg member priced
  exact (proper msg member priced).2 ⟨by decide, by decide, by decide, by decide,
    ⟨by decide, by decide, by decide, by decide⟩, ⟨by decide, by decide, by decide⟩⟩

end NseHft.Irage.Session
