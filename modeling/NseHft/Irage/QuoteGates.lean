import Mathlib.Data.List.Induction
import NseHft.Irage.PriceRange
import NseHft.Irage.Blotter

/-!
# Gates in front of a quote

A new order or a replacement leaves the strategy through a row of gates: the platform runs, the
kill switch is off, it is before 15:25, operations are left, the tick is two-sided and narrow
enough, the side's price and position are inside their limits, and the side is not backed off. The
last one depends on the past. The counters of rejects are changed by reports in between calls; for
each symbol and side they are a function of the events so far.
-/
namespace NseHft.Irage

open FixedWidth

/-- The counter of consecutive rejects of a side. -/
def SymState.rejects (s : SymState) : OrdSide → Int
  | .buy => s.rejectsBuy
  | .sell => s.rejectsSell

/-- What the backoff reads of a symbol. -/
def SymState.tally (s : SymState) : Int × (OrdSide → Int) := (s.id, s.rejects)

namespace Session

/-! ### Rejects since the last acknowledgement -/

/-- The rejects in a row of a side of a symbol after one more event. An acknowledgement or a trade
ends the row, a confirmed cancel does not. -/
def rejectsAfter (id : Int) (side : OrdSide) (rejects : Nat) : Event → Nat
  | .report kind e =>
    if e.securityId = id ∧ e.orderSide = side then
      match kind with
      | .ack | .exec => 0
      | .cxl => rejects
      | .rej | .rplRej | .lighteningRej => rejects + 1
    else rejects
  | _ => rejects

def rejectsSince (id : Int) (side : OrdSide) (events : List Event) : Nat :=
  events.foldl (rejectsAfter id side) 0

theorem rejectsSince_append (id : Int) (side : OrdSide) (events : List Event) (event : Event) :
    rejectsSince id side (events ++ [event]) =
      rejectsAfter id side (rejectsSince id side events) event := by
  simp [rejectsSince]

theorem rejectsAfter_le (id : Int) (side : OrdSide) (rejects : Nat) (event : Event) :
    rejectsAfter id side rejects event ≤ rejects + 1 := by
  cases event with
  | report kind e =>
    simp only [rejectsAfter]
    split
    · cases kind <;> simp
    · exact Nat.le_succ rejects
  | _ => exact Nat.le_succ rejects

theorem rejectsSince_le (id : Int) (side : OrdSide) (events : List Event) :
    rejectsSince id side events ≤ events.length := by
  induction events using List.reverseRecOn with
  | nil => exact Nat.le_refl 0
  | append_singleton events event ih =>
    rw [rejectsSince_append, List.length_append, List.length_singleton]
    exact Nat.le_trans (rejectsAfter_le id side _ event) (Nat.succ_le_succ ih)

/-- The counters of the symbols hold these rejects. -/
def Tallied (count : Int → OrdSide → Nat) (symbols : List SymState) : Prop :=
  ∀ entry ∈ symbols.map SymState.tally, ∀ side, entry.2 side = count entry.1 side

variable {A : Arithmetic} {st st' : Session} {count : Int → OrdSide → Nat}
  {symbols symbols' : List SymState}

theorem Tallied.rejects (tallied : Tallied count symbols) {s : SymState} (member : s ∈ symbols)
    (side : OrdSide) : s.rejects side = count s.id side :=
  tallied s.tally (List.mem_map_of_mem member) side

theorem onMarketData_tally :
    (st.onMarketData A).2.strat.syms.map SymState.tally = st.strat.syms.map SymState.tally := by
  have swept := (@cancelAll_sends A st).strat
  rcases @onMarketData_cases A st with
    ⟨_, call⟩ | ⟨_, _, call⟩ | ⟨_, _, _, call⟩ | ⟨_, _, _, call⟩ <;> rw [call]
  · rw [swept]
  · rw [swept]
  · exact onSymbols_map st.opsOk st.strat.syms fun _ _ _ _ => rfl

/-- Where no two symbols share an id, the first one with an id is the only one. -/
theorem updateSym_eq_map (id : Int) (f : SymState → SymState)
    (distinct : (symbols.map SymState.id).Nodup) :
    updateSym id f symbols = symbols.map fun s => if s.id = id then f s else s := by
  induction symbols with
  | nil => rfl
  | cons first rest ih =>
    rw [List.map_cons, List.nodup_cons] at distinct
    rw [updateSym, List.map_cons]
    split
    next here =>
      have others : ∀ s ∈ rest, (if s.id = id then f s else s) = s := by
        intro s member
        rw [if_neg]
        exact fun same => distinct.1 (here.trans same.symm ▸ List.mem_map_of_mem member)
      rw [List.map_congr_left others, List.map_id']
    · rw [ih distinct.2]

theorem mapRejects_rejects (f : Int → Int) (side side' : OrdSide) (s : SymState) :
    (mapRejects f side s).rejects side' =
      if side = side' then f (s.rejects side') else s.rejects side' := by
  cases side <;> cases side' <;> rfl

theorem mapRejects_id (f : Int → Int) (side : OrdSide) (s : SymState) :
    (mapRejects f side s).id = s.id := by
  cases side <;> rfl

/-- A report changes the counter it is about, and no other. -/
theorem countRejects_tallied {f : Int → Int} {e : ExecReport} {count' : Int → OrdSide → Nat}
    (distinct : (st.strat.syms.map SymState.id).Nodup) (tallied : Tallied count st.strat.syms)
    (here : f (count e.securityId e.orderSide) = count' e.securityId e.orderSide)
    (elsewhere : ∀ id side, ¬(e.securityId = id ∧ e.orderSide = side) →
      count' id side = count id side) :
    Tallied count' (st.countRejects f e).strat.syms := by
  simp only [countRejects, updateSym_eq_map _ _ distinct]
  intro entry member side
  simp only [List.map_map, List.mem_map, Function.comp_apply] at member
  obtain ⟨s, configured, rfl⟩ := member
  have before := tallied.rejects configured
  simp only [SymState.tally]
  split
  next own =>
    rw [mapRejects_rejects, mapRejects_id, before]
    split
    next same => rw [own, ← same, here]
    next other => rw [elsewhere s.id side fun about => other about.2]
  next foreign => rw [before, elsewhere s.id side fun about => foreign about.1.symm]

/-! ### The counters over a run -/

/-- What a run keeps of the symbols, with the rejects that the counters hold. -/
structure Backoff (count : Int → OrdSide → Nat) (st : Session) : Prop where
  distinct : (st.strat.syms.map SymState.id).Nodup
  tallied : Tallied count st.strat.syms

theorem onRej_backoff (e : ExecReport) (backoff : Backoff count st)
    (small : ∀ id side, (count id side : Int) + 1 < 2 ^ 31) :
    Tallied (fun id side => if e.securityId = id ∧ e.orderSide = side then count id side + 1
      else count id side) (st.onRej .wrapping e).strat.syms := by
  rw [onRej]
  split
  next known =>
    apply countRejects_tallied backoff.distinct backoff.tallied
    · have fits : (count e.securityId e.orderSide : Int) + 1 < 2 ^ 31 := small _ _
      have exact := i32_eq_self ((count e.securityId e.orderSide : Int) + 1) ⟨by omega, by omega⟩
      simp only [Arithmetic.wrapping, exact, true_and, if_true, Int.natCast_add, Int.natCast_one]
    · intro id side other
      rw [if_neg other]
  next unknown =>
    intro entry member side
    obtain ⟨s, configured, rfl⟩ := List.mem_map.mp member
    have foreign : s.id ≠ e.securityId := by
      intro same
      exact unknown (List.any_eq_true.mpr ⟨s, configured, by simpa using same⟩)
    simp only [SymState.tally, foreign.symm, false_and, if_false]
    exact backoff.tallied.rejects configured side

theorem step_tallied (event : Event) (backoff : Backoff count st)
    (small : ∀ id side, (count id side : Int) + 1 < 2 ^ 31) :
    Tallied (fun id side => rejectsAfter id side (count id side) event)
      (step .wrapping st event).2.strat.syms := by
  obtain ⟨distinct, tallied⟩ := backoff
  have reset (later : Session) (syms : later.strat.syms = st.strat.syms) (e : ExecReport) :
      Tallied (fun id side => if e.securityId = id ∧ e.orderSide = side then 0 else count id side)
        (later.countRejects (fun _ => 0) e).strat.syms := by
    apply countRejects_tallied (syms ▸ distinct) (syms ▸ tallied)
    · rw [if_pos ⟨rfl, rfl⟩, Int.natCast_zero]
    · intro id side other
      rw [if_neg other]
  cases event with
  | marketData =>
    rw [Tallied, step, onMarketData_tally]
    exact tallied
  | update updateMap =>
    obtain ⟨_, _, _, _, _, updated⟩ := foldl_updateParam_frame updateMap st.strat
    simp only [step, Session.update, updated]
    exact tallied
  | report kind e =>
    cases kind with
    | ack => exact reset st rfl e
    | exec => exact reset _ rfl e
    | cxl =>
      simp only [rejectsAfter, ite_self]
      exact tallied
    | rej | rplRej | lighteningRej => exact onRej_backoff e ⟨distinct, tallied⟩ small
  | _ => exact tallied

theorem symbolOf_rejects {impl : ConnectImpl} {id : Int} {s : SymState}
    (found : symbolOf impl id = .ok s) (side : OrdSide) : s.rejects side = 0 := by
  rw [symbolOf] at found
  split at found
  · cases found
  · obtain rfl := Except.ok.inj found
    cases side <;> rfl

theorem mapM_symbolOf_tallied {impl : ConnectImpl} (id : Nat → Int) (places : List Nat)
    (found : places.mapM (fun i => symbolOf impl (id i)) = .ok symbols) :
    Tallied (fun _ _ => 0) symbols := by
  induction places generalizing symbols with
  | nil =>
    obtain rfl := Except.ok.inj found
    exact fun entry member => absurd member List.not_mem_nil
  | cons i rest ih =>
    simp only [List.mapM_cons, bind, Except.bind, pure, Except.pure] at found
    split at found
    · cases found
    next s first =>
      split at found
      · cases found
      next later others =>
        obtain rfl := Except.ok.inj found
        exact List.forall_mem_cons.mpr ⟨symbolOf_rejects first, ih others⟩

/-- No side starts backed off. -/
theorem initializeStrat_tallied {impl : ConnectImpl} {configMap : Int → Int}
    (started : initializeStrat impl configMap = .ok st) : Tallied (fun _ _ => 0) st.strat.syms := by
  simp only [initializeStrat, bind, Except.bind, pure, Except.pure] at started
  split at started
  · cases started
  next syms found =>
    cases started
    exact mapM_symbolOf_tallied _ _ found

/-- After any events the counter of a symbol and side holds the rejects in a row. -/
theorem run_backoff (fits : FitsI64 st.strat.cashPaise) (initial : Backoff (fun _ _ => 0) st)
    (events : List Event) (short : events.length < 2 ^ 31) :
    Backoff (fun id side => rejectsSince id side events) (st.run .wrapping events) := by
  induction events using List.reverseRecOn with
  | nil => exact initial
  | append_singleton events event ih =>
    rw [List.length_append, List.length_singleton] at short
    have before := ih (by omega)
    have bounded : ∀ id side, (rejectsSince id side events : Int) + 1 < 2 ^ 31 := by
      intro id side
      have most := rejectsSince_le id side events
      omega
    have now := step_tallied event before bounded
    have ids := (run_pays fits (events ++ [event])).ids
    refine ⟨ids ▸ initial.distinct, ?_⟩
    simp only [rejectsSince_append, run, Machine.after_append]
    exact now

/-! ### The gates -/

/-- A side may be quoted at this price: range, position and backoff. -/
def SideOpen (st : Session) (s : SymState) (price : Int) : OrdSide → Prop
  | .buy =>
    price = (st.decideQuotes .wrapping s).bidPx ∧
    (st.Ranged s → price ≤ st.impl.getDprHigh s.id) ∧
    (0 < st.maxPosUnits .wrapping s → st.impl.getInventory s.id < st.maxPosUnits .wrapping s) ∧
    s.rejectsBuy < kMaxConsecutiveRejects
  | .sell =>
    price = (st.decideQuotes .wrapping s).askPx ∧
    (st.Ranged s → st.impl.getDprLow s.id ≤ price) ∧
    (0 < st.maxPosUnits .wrapping s →
      i64 (-st.maxPosUnits .wrapping s) < st.impl.getInventory s.id) ∧
    s.rejectsSell < kMaxConsecutiveRejects

/-- Every gate of a symbol is open for a quote in a call made in this state. -/
structure SymbolOpen (st : Session) (s : SymState) (q : Quote) : Prop where
  symbol : q.symId = s.id
  qty : q.qty = i32 (st.strat.quoteLots * s.lotSize)
  ops : st.opsOk = true
  sizes : 0 < (st.impl.getMtick s.id).bidSize ∧ 0 < (st.impl.getMtick s.id).askSize
  spread : i32 ((st.impl.getMtick s.id).ask - (st.impl.getMtick s.id).bid) ≤
    i32 (st.strat.maxSpreadTicks * s.tickSize)
  side : st.SideOpen s q.price q.side

variable {s : SymState}

theorem decideQuotes_open :
    ((st.decideQuotes .wrapping s).bidOk = true →
      st.SideOpen s (st.decideQuotes .wrapping s).bidPx .buy) ∧
    ((st.decideQuotes .wrapping s).askOk = true →
      st.SideOpen s (st.decideQuotes .wrapping s).askPx .sell) := by
  simp only [SideOpen, decideQuotes, decide_eq_true_eq, not_and, Int.not_lt, ge_iff_le, gt_iff_lt,
    Int.not_le, true_and]
  exact ⟨fun ok => ok, fun ok => ok⟩

/-- One symbol of a pass that began in `st`. -/
theorem onSymbol_open (sends : Sends st st') :
    Quotes (st.SymbolOpen s) st' (st'.onSymbol .wrapping st.opsOk s).1 := by
  have tick : st'.impl.getMtick s.id = st.impl.getMtick s.id := by
    rw [sends.impl]
    rfl
  have strat := sends.strat
  have spread : st'.strat.maxSpreadTicks = st.strat.maxSpreadTicks := by rw [strat]
  have lots : st'.strat.quoteLots = st.strat.quoteLots := by rw [strat]
  have priced : st'.decideQuotes .wrapping (st'.markMid .wrapping s) =
      st.decideQuotes .wrapping s := sends.decideQuotes s
  rcases @onSymbol_cases .wrapping st' st.opsOk s with cancels | ⟨sizes, narrow, pass⟩
  · exact cancels.quotes
  · rw [tick] at sizes narrow
    rw [spread] at narrow
    rw [pass, quoteSymbol, priced, lots]
    refine Quotes.trans (requote_quotes fun ok ops => ?_) (requote_quotes fun ok ops => ?_)
    · exact ⟨rfl, rfl, ops, sizes, narrow, decideQuotes_open.1 ok⟩
    · exact ⟨rfl, rfl, ops, sizes, narrow, decideQuotes_open.2 ok⟩

theorem Quotes.mono {P Q : Quote → Prop} (weaker : ∀ q, P q → Q q) (quotes : Quotes P st st') :
    Quotes Q st st' := by
  obtain ⟨msgs, sent, good⟩ := quotes
  exact ⟨msgs, sent, fun msg member priced => weaker _ (good msg member priced)⟩

theorem onSymbols_open (sends : Sends st st') (symbols : List SymState) :
    Quotes (fun q => ∃ s ∈ symbols, st.SymbolOpen s q) st'
      (onSymbols .wrapping st.opsOk st' symbols).1 := by
  induction symbols generalizing st' with
  | nil => exact (OnlyCancels.of_eq rfl).quotes
  | cons s rest ih =>
    have here : Quotes (st.SymbolOpen s) st' (st'.onSymbol .wrapping st.opsOk s).1 :=
      onSymbol_open sends
    have later := ih (sends.trans (@onSymbol_sends .wrapping st' st.opsOk s))
    refine (here.mono fun q ok => ⟨s, List.mem_cons_self, ok⟩).trans (later.mono ?_)
    rintro q ⟨s', member, ok⟩
    exact ⟨s', List.mem_cons_of_mem s member, ok⟩

/-- Every gate in front of a quote is open in a call made in this state. -/
structure Open (st : Session) (q : Quote) : Prop where
  running : st.impl.isRunning = true
  alive : st.strat.killed = false
  early : st.istSecondsOfDay < 15 * 3600 + 25 * 60
  symbol : ∃ s ∈ st.strat.syms, st.SymbolOpen s q

theorem onMarketData_open (preclose : st.strat.precloseIstSod = 15 * 3600 + 25 * 60) :
    Quotes st.Open st (st.onMarketData .wrapping).2 := by
  have swept := (@foldl_cancelSides_withdraws .wrapping st st.strat.syms).1.sent
  rcases @onMarketData_cases .wrapping st with
    ⟨_, call⟩ | ⟨_, _, call⟩ | ⟨_, _, _, call⟩ | ⟨running, alive, early, call⟩ <;> rw [call]
  · exact (OnlyCancels.of_eq rfl).quotes
  · exact swept.quotes
  · exact swept.quotes
  · have pass := onSymbols_open (.refl st) st.strat.syms
    exact pass.mono fun q symbol => Open.mk running alive (preclose ▸ early) symbol

/-- Only a call sends anything. -/
theorem step_silent (event : Event) (other : event ≠ .marketData) :
    (step A st event).2.impl.sent = st.impl.sent := by
  cases event with
  | marketData => exact absurd rfl other
  | report kind e =>
    cases kind with
    | rej | rplRej | lighteningRej =>
      simp only [step, onReport, onRej]
      split <;> rfl
    | _ => rfl
  | _ => rfl

/-- A quote sent in a run that began in `st`: one of the calls sent it, and all gates were open
then, with fewer than three rejects in a row on its side. -/
def Gated (st : Session) (events : List Event) (q : Quote) : Prop :=
  ∃ before after, events = before ++ .marketData :: after ∧
    (st.run .wrapping before).Open q ∧ rejectsSince q.symId q.side before < 3

theorem Gated.later {events : List Event} {q : Quote} (gated : st.Gated events q) (event : Event) :
    st.Gated (events ++ [event]) q := by
  obtain ⟨before, after, split, passed⟩ := gated
  exact ⟨before, after ++ [event], by simp [split], passed⟩

/-- The counter that closes a side is the rejects in a row. -/
theorem Open.rejects {events : List Event} {q : Quote} (passed : st.Open q)
    (backoff : Backoff (fun id side => rejectsSince id side events) st) :
    rejectsSince q.symId q.side events < 3 := by
  obtain ⟨s, member, gates⟩ := passed.symbol
  have counter : s.rejects q.side < kMaxConsecutiveRejects := by
    have side := gates.side
    cases named : q.side with
    | buy => exact (named ▸ side : st.SideOpen s q.price .buy).2.2.2
    | sell => exact (named ▸ side : st.SideOpen s q.price .sell).2.2.2
  rw [backoff.tallied.rejects member, ← gates.symbol, kMaxConsecutiveRejects] at counter
  omega

private def refused : Event := .report .rej { securityId := 46483, orderSide := .buy }

/-- The first contract is quoted, its bid is refused three times, and the market moves. -/
private def refusedThrice : List Event :=
  [.setRunning true, .setMtick 46483 ⟨7200, 7210, 100, 100⟩, .marketData, .ackAll,
    refused, refused, refused, .setMtick 46483 ⟨7220, 7230, 100, 100⟩, .marketData]

end Session

end NseHft.Irage
