import NseHft.Irage.Strat1

/-!
# Own quotes that meet

The skews move both quotes of a symbol together, so the desired bid is below the desired ask.
The daily price range then moves each quote by itself: the bid up to the lower limit, the ask
down to the upper one. A quote moved this way can reach the other one.
-/
namespace NseHft.Irage.Session

open FixedWidth

/-- The pair is in order inside the limits, and no limit moves a quote of it to the other one. -/
def LimitsApart (A : Arithmetic) (dprLo dprHi tickSize bid ask : Int) : Prop :=
  (dprLo ≤ bid → ask ≤ dprHi → bid < ask) ∧
  (bid < dprLo → ask ≤ dprHi → snapUp A dprLo tickSize < ask) ∧
  (dprLo ≤ bid → dprHi < ask → bid < snapDown A dprHi tickSize) ∧
  (bid < dprLo → dprHi < ask → snapUp A dprLo tickSize < snapDown A dprHi tickSize)

variable (A : Arithmetic) (st : Session)

/-- The desired prices of a symbol, cut to an `int`, do not meet: as they are if the platform
states no range, and next to its limits otherwise. -/
def PairApart (s : SymState) : Prop :=
  let bid := A.i32 (st.desired A s).bidPrice
  let ask := A.i32 (st.desired A s).askPrice
  if st.Ranged s then
    LimitsApart A (st.impl.getDprLow s.id) (st.impl.getDprHigh s.id) s.tickSize bid ask
  else bid < ask

/-- A call passes over the symbols, with operations to spare. -/
structure Quoting : Prop where
  running : st.impl.isRunning = true
  alive : st.strat.killed = false
  early : st.istSecondsOfDay < st.strat.precloseIstSod
  headroom : st.opsOk = true

/-- A call computes a permitted bid and a permitted ask for the symbol. -/
structure Permits (s : SymState) : Prop where
  sized : 0 < (st.impl.getMtick s.id).bidSize ∧ 0 < (st.impl.getMtick s.id).askSize
  narrow : A.i32 ((st.impl.getMtick s.id).ask - (st.impl.getMtick s.id).bid) ≤
    A.i32 (st.strat.maxSpreadTicks * s.tickSize)
  bidOk : (st.decideQuotes A s).bidOk = true
  askOk : (st.decideQuotes A s).askOk = true

variable {A st} {st' : Session}

theorem Sends.permits {s : SymState} (sends : Sends st st') (permits : st.Permits A s) :
    st'.Permits A s := by
  have strat : st'.strat.maxSpreadTicks = st.strat.maxSpreadTicks := by rw [sends.strat]
  have ticks : st'.impl.getMtick s.id = st.impl.getMtick s.id := by
    rw [sends.impl]
    rfl
  exact ⟨ticks ▸ permits.sized, strat ▸ ticks ▸ permits.narrow,
    (sends.decideQuotes s).symm ▸ permits.bidOk, (sends.decideQuotes s).symm ▸ permits.askOk⟩

theorem sendOrder_calls (p : ConnectImpl) (q : Quote) (ioc : Bool) :
    (p.sendOrder A q ioc).2.calls = p.calls ++ [q] := by
  rcases @ConnectImpl.sendOrder_cases A p q ioc with ⟨_, _, refused⟩ | ⟨_, _, _, accepted⟩
  · rw [refused]
    rfl
  · rw [accepted]
    rfl

/-- A permitted side is handed to the platform. -/
theorem requote_calls (s : SymState) (side : OrdSide) (price qty shown : Int) :
    (st.requote A true s side true price qty shown).1.impl.calls =
      st.impl.calls ++ [quoteFor s side price qty] := by
  rw [← @sendOrder_calls A st.impl (quoteFor s side price qty) false]
  simp only [requote, quoteSide, Bool.and_self, if_true]
  split_ifs <;> rfl

theorem onSymbol_calls {s : SymState} (permits : st.Permits A s) :
    (st.onSymbol A true s).1.impl.calls = st.impl.calls ++
      [quoteFor s .buy (st.decideQuotes A s).bidPx (A.i32 (st.strat.quoteLots * s.lotSize)),
        quoteFor s .sell (st.decideQuotes A s).askPx (A.i32 (st.strat.quoteLots * s.lotSize))] := by
  obtain ⟨⟨bidSize, askSize⟩, narrow, bidOk, askOk⟩ := permits
  -- the middle price, which the symbol remembers, has no part in its quotes
  have marked : st.decideQuotes A (st.markMid A s) = st.decideQuotes A s := rfl
  rw [onSymbol, if_neg (by omega), if_neg (Int.not_lt.mpr narrow), quoteSymbol, marked]
  dsimp only
  rw [bidOk, askOk, requote_calls, requote_calls, List.append_assoc]
  rfl

theorem onSymbols_append (opsOk : Bool) (first second : List SymState) :
    (onSymbols A opsOk st (first ++ second)).1 =
      (onSymbols A opsOk (onSymbols A opsOk st first).1 second).1 := by
  induction first generalizing st with
  | nil => rfl
  | cons s rest ih => exact ih

theorem decideQuotes_lt_iff (s : SymState) :
    (st.decideQuotes A s).bidPx < (st.decideQuotes A s).askPx ↔ st.PairApart A s := by
  simp only [decideQuotes, PairApart, LimitsApart]
  by_cases ranged : st.Ranged s
  · simp only [ranged, true_and, if_true]
    split_ifs <;> omega
  · simp only [ranged, false_and, if_false]

/-- The skews move the two prices together. -/
theorem desired_ordered {s : SymState}
    (touch : (st.impl.getMtick s.id).bid < (st.impl.getMtick s.id).ask)
    (typed : FitsI32 (st.impl.getMtick s.id).bid ∧ FitsI32 (st.impl.getMtick s.id).ask ∧
      FitsI32 s.tickSize) :
    (st.desired .wrapping s).bidPrice < (st.desired .wrapping s).askPrice := by
  obtain ⟨bidTyped, askTyped, grid⟩ := typed
  obtain ⟨ticks, pair⟩ := Quoting.desiredQuotes_eq (st.impl.getMtick s.id).bid
    (st.impl.getMtick s.id).ask s.tickSize (st.impl.getMtick s.id).bidSize
    (st.impl.getMtick s.id).askSize (st.impl.getInventory s.id) (st.maxPosUnits .wrapping s)
    st.strat.invSkewTicks st.strat.flowSkewTicks bidTyped askTyped grid
  have positive := s.tickSize_pos
  rw [desired, pair]
  dsimp only
  omega

/-- The quotes of a symbol for which a call computes a permitted bid and a permitted ask, in any
order of symbols, with any inventory, limits and parameters: the bid handed to the platform is
below the ask exactly if the two desired prices, cut to an `int`, do not meet next to the limits.
Where nothing is cut off, they are in order before the limits move them. -/
theorem self_cross_iff (st : Session) (before after : List SymState) (s : SymState)
    (configured : st.strat.syms = before ++ s :: after) (quoting : st.Quoting)
    (permits : st.Permits .wrapping s)
    (touch : (st.impl.getMtick s.id).bid < (st.impl.getMtick s.id).ask)
    (typed : FitsI32 (st.impl.getMtick s.id).bid ∧ FitsI32 (st.impl.getMtick s.id).ask ∧
      FitsI32 s.tickSize) :
    let earlier := (onSymbols .wrapping true st before).1
    let here := (earlier.onSymbol .wrapping true s).1
    (st.onMarketData .wrapping).2.impl = (onSymbols .wrapping true here after).1.impl ∧
    (∃ bid ask : Quote, here.impl.calls = earlier.impl.calls ++ [bid, ask] ∧
      bid.symId = s.id ∧ bid.side = .buy ∧ ask.symId = s.id ∧ ask.side = .sell ∧
      (bid.price < ask.price ↔ st.PairApart .wrapping s)) ∧
    (FitsI32 (st.desired .wrapping s).bidPrice → FitsI32 (st.desired .wrapping s).askPrice →
      i32 (st.desired .wrapping s).bidPrice < i32 (st.desired .wrapping s).askPrice) := by
  intro earlier here
  have sends : Sends st earlier := onSymbols_sends true before
  refine ⟨?_, ⟨_, _, onSymbol_calls (sends.permits permits), rfl, rfl, rfl, rfl, ?_⟩, ?_⟩
  · rw [onMarketData, quoting.running, quoting.alive, if_neg (by decide), if_neg (by decide),
      if_neg (Int.not_le.mpr quoting.early)]
    simp only [quoteAll, quoting.headroom, configured, onSymbols_append]
    rfl
  · rw [quoteFor, quoteFor, sends.decideQuotes]
    exact decideQuotes_lt_iff s
  · intro bid ask
    rw [i32_eq_self _ bid, i32_eq_self _ ask]
    exact desired_ordered touch typed

/-- The ask is moved down to the upper limit and stays above the bid. -/
theorem clamped_ask_apart :
    ∃ bid ask : Quote,
      (onMarketData .wrapping
        { impl := limited 7000 7210 0 7200 7210, strat := { syms := [oneSymbol] } }).2.impl.calls =
          [bid, ask] ∧
        ask.price = 7210 ∧ bid.price < ask.price := by
  have pair := self_cross_iff
    { impl := limited 7000 7210 0 7200 7210, strat := { syms := [oneSymbol] } } [] [] oneSymbol
    rfl ⟨rfl, rfl, by decide, rfl⟩ ⟨by decide, by decide, by decide, by decide⟩ (by decide)
    ⟨by decide, by decide, by decide⟩
  obtain ⟨same, ⟨bid, ask, calls, _, _, _, _, apart⟩, _⟩ := pair
  have moved : ask.price = 7210 := by
    cases calls
    rfl
  exact ⟨bid, ask, (congrArg ConnectImpl.calls same).trans calls, moved,
    apart.mpr (by unfold PairApart LimitsApart; decide)⟩

/-- Long of most of what may be held, next to the lower limit: the skew moves the pair two ticks
down, the limit moves the bid back up, and both orders are sent at 7000. -/
theorem clamped_bid_meets_ask :
    ∃ start : Session,
      initializeStrat (limited 7000 8000 100 7000 7005) (configured 1) = .ok start ∧
      (start.impl.getMtick 46483).bid < (start.impl.getMtick 46483).ask ∧
      ((start.update [(9801, 3)]).onMarketData .wrapping).2.impl.sent.map
          (fun msg => (msg.type, msg.quote.side, msg.quote.price)) =
        [(.new, .buy, 7000), (.new, .sell, 7000)] :=
  ⟨_, rfl, by decide, by decide +kernel⟩

end NseHft.Irage.Session
