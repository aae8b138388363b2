import Mathlib.Data.List.Nodup
import NseHft.Strategy.MarketMaking

/-!
# Lifecycle of a quote

The strategy with the history of its calls: the orders it has emitted, and the ids that are
gone because it withdrew them, a fill left nothing of them or the exchange cancelled them. An
id that was emitted and is not gone is outstanding.
-/
namespace NseHft.MarketMaking

open FixedWidth

/-- A call of the strategy. -/
inductive Call where
  | setNow (istNs : Nat)
  | bookUpdate (wallClock token : Nat) (book : OrderBook)
  | fill (report : FillReport)
  | cancel (id : Int)

structure History where
  mm : MarketMaking
  emitted : List Order := []
  gone : List Int := []
  fills : List FillReport := []

namespace History

variable (A : Arithmetic)

def next (h : History) : Call → History
  | .setNow istNs => { h with mm := h.mm.setNow istNs }
  | .bookUpdate wallClock token book =>
    let mm := h.mm.onBookUpdate A wallClock token book
    { h with mm := mm, emitted := h.emitted ++ mm.pending, gone := h.gone ++ mm.cancels }
  | .fill report =>
    { h with
      mm := h.mm.onFill A report
      gone := h.gone ++ if report.remainingQty = 0 then [report.clientOrderId] else []
      fills := h.fills ++ [report] }
  | .cancel id => { h with mm := h.mm.onCancel id, gone := h.gone ++ [id] }

/-- The histories of a fresh strategy whose calls are all allowed at their time. -/
inductive Reachable (symbols : Option SymbolMaster) (cfg : MarketMakingConfig)
    (allowed : History → Call → Prop) : History → Prop where
  | fresh : Reachable symbols cfg allowed { mm := { symbols := symbols, cfg := cfg } }
  | call {h : History} (c : Call) :
      Reachable symbols cfg allowed h → allowed h c → Reachable symbols cfg allowed (h.next A c)

/-- Fills and cancels name an id that was emitted, and fills come with its token. -/
def OwnReports (h : History) : Call → Prop
  | .fill report =>
    ∃ o ∈ h.emitted, o.clientOrderId = report.clientOrderId ∧ o.token = report.token
  | .cancel id => ∃ o ∈ h.emitted, o.clientOrderId = id
  | _ => True

def Outstanding (h : History) (token : Nat) (side : Side) (id : Int) : Prop :=
  (∃ o ∈ h.emitted, o.clientOrderId = id ∧ o.token = token ∧ o.side = side) ∧ id ∉ h.gone

/-- The recorded quote of a side, as an id that is resting. -/
def Resting (mm : MarketMaking) (token : Nat) (side : Side) (id : Int) : Prop :=
  ((mm.quotes token).side side).active = true ∧ ((mm.quotes token).side side).clordid = id

/-- The ids count up, and what is outstanding is what the strategy has recorded. -/
structure Tracks (h : History) : Prop where
  below : ∀ o ∈ h.emitted, o.clientOrderId < h.mm.nextClordid
  increasing : h.emitted.Pairwise fun a b => a.clientOrderId < b.clientOrderId
  listed : ∀ o ∈ h.emitted, o.token < kMaxTokens
  gone : ∀ id ∈ h.gone, id < h.mm.nextClordid
  quoted : ∀ token side id, h.Outstanding token side id ↔ Resting h.mm token side id

section Tracks

variable {A} {h : History}

theorem Tracks.nodup (tracks : h.Tracks) : (h.emitted.map Order.clientOrderId).Nodup :=
  List.pairwise_map.mpr (tracks.increasing.imp fun less => Int.ne_of_lt less)

theorem Tracks.emitted_of_resting (tracks : h.Tracks) {token : Nat} {side : Side} {id : Int}
    (resting : Resting h.mm token side id) :
    ∃ o ∈ h.emitted, o.clientOrderId = id ∧ o.token = token ∧ o.side = side :=
  ((tracks.quoted token side id).mpr resting).1

/-- An id rests on one side of one token. -/
theorem Tracks.resting_unique (tracks : h.Tracks) {t t' : Nat} {s s' : Side} {id : Int}
    (here : Resting h.mm t s id) (there : Resting h.mm t' s' id) : t = t' ∧ s = s' := by
  obtain ⟨o, member, named, rfl, rfl⟩ := tracks.emitted_of_resting here
  obtain ⟨o', member', named', rfl, rfl⟩ := tracks.emitted_of_resting there
  obtain rfl := List.inj_on_of_nodup_map tracks.nodup member member' (named.trans named'.symm)
  exact ⟨rfl, rfl⟩

theorem fresh_tracks (symbols : Option SymbolMaster) (cfg : MarketMakingConfig) :
    Tracks { mm := { symbols := symbols, cfg := cfg } } where
  below _ member := by cases member
  increasing := .nil
  listed _ member := by cases member
  gone _ member := by cases member
  quoted token side id := by
    constructor
    · rintro ⟨⟨o, member, _⟩, _⟩
      cases member
    · rintro ⟨active, _⟩
      cases side <;> cases active

section BookUpdate

variable (tracks : h.Tracks) {wallClock token : Nat} {book : OrderBook}

include tracks

/-- What is withdrawn was resting. -/
theorem Tracks.withdrawn {id : Int}
    (listed : id ∈ (h.mm.onBookUpdate A wallClock token book).cancels) :
    (∃ s, h.mm.withdraws A (h.mm.now wallClock) token book s = true ∧ Resting h.mm token s id) ∧
      id < h.mm.nextClordid := by
  obtain ⟨s, withdrawn, named⟩ := mem_cancels.mp listed
  have resting : Resting h.mm token s id := ⟨withdraws_active withdrawn, named⟩
  refine ⟨⟨s, withdrawn, resting⟩, ?_⟩
  obtain ⟨o, member, rfl, _⟩ := tracks.emitted_of_resting resting
  exact tracks.below o member

theorem bookUpdate_quoted (t : Nat) (s : Side) (id : Int) :
    (h.next A (.bookUpdate wallClock token book)).Outstanding t s id ↔
      Resting (h.next A (.bookUpdate wallClock token book)).mm t s id := by
  rcases @onBookUpdate_quote A h.mm token wallClock book t s with
    ⟨placed, member, token', side', only, quote, here, replaced⟩ | ⟨nothing, quote⟩
  · -- a new order: the quote before it, if there was one, is withdrawn
    have lower := (onBookUpdate_ids placed member).1.1
    have now : Resting (h.next A (.bookUpdate wallClock token book)).mm t s id ↔
        placed.clientOrderId = id := by
      rw [next, Resting, quote]
      exact ⟨And.right, fun named => ⟨rfl, named⟩⟩
    rw [now]
    simp only [Outstanding, next, List.mem_append, not_or]
    constructor
    · rintro ⟨⟨o, before | new, rfl, token', side'⟩, alive, kept⟩
      · have resting := (tracks.quoted t s _).mp ⟨⟨o, before, rfl, token', side'⟩, alive⟩
        rw [here] at resting replaced
        exact absurd (mem_cancels.mpr ⟨s, replaced.trans resting.1, resting.2⟩) kept
      · rw [only o new token' side']
    · rintro rfl
      refine ⟨⟨placed, .inr member, rfl, token', side'⟩, fun gone => ?_, fun listed => ?_⟩
      · exact absurd (tracks.gone _ gone) (Int.not_lt.mpr lower)
      · exact absurd (tracks.withdrawn listed).2 (Int.not_lt.mpr lower)
  · -- no new order: the quote stays, unless it is withdrawn
    have now : Resting (h.next A (.bookUpdate wallClock token book)).mm t s id ↔
        h.Outstanding t s id ∧
          ¬(t = token ∧ h.mm.withdraws A (h.mm.now wallClock) token book s = true) := by
      rw [tracks.quoted, next, Resting, quote, Resting]
      simp only [Bool.and_eq_true, Bool.not_eq_true', Bool.and_eq_false_iff, decide_eq_false_iff_not]
      grind
    rw [now]
    simp only [Outstanding, next, List.mem_append, not_or]
    constructor
    · rintro ⟨⟨o, before | new, rfl, token', side'⟩, alive, kept⟩
      · refine ⟨⟨⟨o, before, rfl, token', side'⟩, alive⟩, ?_⟩
        rintro ⟨rfl, taken⟩
        have resting := (tracks.quoted t s _).mp ⟨⟨o, before, rfl, token', side'⟩, alive⟩
        exact kept (mem_cancels.mpr ⟨s, taken, resting.2⟩)
      · exact absurd side' (nothing o new token')
    · rintro ⟨⟨⟨o, before, named⟩, alive⟩, stays⟩
      refine ⟨⟨o, .inl before, named⟩, alive, fun listed => ?_⟩
      obtain ⟨⟨s', taken, resting⟩, _⟩ := tracks.withdrawn listed
      have same := tracks.resting_unique resting
        ((tracks.quoted t s id).mp ⟨⟨o, before, named⟩, alive⟩)
      exact stays ⟨same.1.symm, same.2 ▸ taken⟩

theorem bookUpdate_tracks : (h.next A (.bookUpdate wallClock token book)).Tracks := by
  have counter := @onBookUpdate_nextClordid A h.mm token wallClock book
  have ids := @onBookUpdate_ids A h.mm token wallClock book
  refine ⟨?_, ?_, ?_, ?_, bookUpdate_quoted tracks⟩
  · rw [next, List.forall_mem_append]
    exact ⟨fun o member => Int.lt_of_lt_of_le (tracks.below o member) counter,
      fun o member => (ids o member).1.2⟩
  · rw [next, List.pairwise_append]
    refine ⟨tracks.increasing, onBookUpdate_pairwise, ?_⟩
    intro a before b new
    exact Int.lt_of_lt_of_le (tracks.below a before) (ids b new).1.1
  · rw [next, List.forall_mem_append]
    refine ⟨tracks.listed, fun o member => ?_⟩
    rw [(onBookUpdate_token member).1]
    exact (onBookUpdate_token member).2
  · rw [next, List.forall_mem_append]
    exact ⟨fun id member => Int.lt_of_lt_of_le (tracks.gone id member) counter,
      fun id member => Int.lt_of_lt_of_le (tracks.withdrawn member).2 counter⟩

end BookUpdate

/-- An id that goes: everything else stays outstanding. -/
theorem Tracks.ends {h' : History} (tracks : h.Tracks) {o : Order} (member : o ∈ h.emitted)
    (emitted : h'.emitted = h.emitted) (counter : h'.mm.nextClordid = h.mm.nextClordid)
    (gone : h'.gone = h.gone ++ [o.clientOrderId])
    (quotes : ∀ t s id, Resting h'.mm t s id ↔ Resting h.mm t s id ∧ id ≠ o.clientOrderId) :
    h'.Tracks := by
  refine ⟨?_, ?_, ?_, ?_, ?_⟩
  · rw [emitted, counter]
    exact tracks.below
  · rw [emitted]
    exact tracks.increasing
  · rw [emitted]
    exact tracks.listed
  · rw [gone, counter, List.forall_mem_append, List.forall_mem_singleton]
    exact ⟨tracks.gone, tracks.below o member⟩
  · intro t s id
    rw [quotes, ← tracks.quoted, Outstanding, Outstanding, emitted, gone, List.mem_append,
      List.mem_singleton, not_or]
    exact and_assoc.symm

/-- A resting id with the number of an emitted order is that order's. -/
theorem Tracks.resting_token (tracks : h.Tracks) {o : Order} (member : o ∈ h.emitted) {t : Nat}
    {s : Side} (resting : Resting h.mm t s o.clientOrderId) : o.token = t ∧ o.side = s := by
  obtain ⟨o', member', named, token, side⟩ := tracks.emitted_of_resting resting
  obtain rfl := List.inj_on_of_nodup_map tracks.nodup member' member named
  exact ⟨token, side⟩

theorem fill_tracks (tracks : h.Tracks) (report : FillReport)
    (own : h.OwnReports (.fill report)) : (h.next A (.fill report)).Tracks := by
  obtain ⟨o, member, named, token⟩ := own
  have listed : report.token < kMaxTokens := token ▸ tracks.listed o member
  have counter : (h.mm.onFill A report).nextClordid = h.mm.nextClordid := by
    simp only [onFill]
    split <;> rfl
  by_cases nothing : report.remainingQty = 0
  · refine tracks.ends member rfl counter (by simp only [next, nothing, if_true, named]) ?_
    intro t s id
    rw [next, Resting, onFill_side]
    split
    next taken =>
      -- the quote that the report names
      simp only [Bool.false_eq_true, false_and, false_iff]
      rintro ⟨resting, other⟩
      exact other (resting.2.symm.trans (taken.2.2.1.symm.trans named.symm))
    next kept =>
      refine ⟨fun resting => ⟨resting, ?_⟩, And.left⟩
      rintro rfl
      have here := tracks.resting_token member resting
      exact kept ⟨listed, here.1.symm.trans token, named.symm.trans resting.2.symm, nothing⟩
  · have quotes (t : Nat) (s : Side) :
        ((h.mm.onFill A report).quotes t).side s = (h.mm.quotes t).side s := by
      rw [onFill_side, if_neg (fun taken => nothing taken.2.2.2)]
    have gone : (h.next A (.fill report)).gone = h.gone := by
      simp only [next, nothing, if_false, List.append_nil]
    refine ⟨?_, tracks.increasing, tracks.listed, ?_, ?_⟩
    · simp only [next, counter]
      exact tracks.below
    · rw [gone]
      simp only [next, counter]
      exact tracks.gone
    · intro t s id
      rw [Outstanding, gone, Resting]
      simp only [next, quotes]
      exact tracks.quoted t s id

/-- A cancel takes one quote off that has the id, if there is one in the table. -/
theorem onCancel_cases (mm : MarketMaking) (id : Int) :
    (mm.onCancel id = mm ∧ ∀ t < kMaxTokens, ∀ s, ¬Resting mm t s id) ∨
      ∃ t s, Resting mm t s id ∧
        mm.onCancel id = mm.setQuote t s { (mm.quotes t).side s with active := false } := by
  unfold onCancel
  extract_lets resting
  have named (t : Nat) (s : Side) : resting t s = true ↔ Resting mm t s id := by
    simp only [resting, Resting, Bool.and_eq_true, beq_iff_eq]
  generalize search : (List.range kMaxTokens).find? _ = found
  cases found with
  | none =>
    left
    rw [List.find?_eq_none] at search
    refine ⟨rfl, fun t inside s here => ?_⟩
    apply search t (List.mem_range.mpr inside)
    rw [Bool.or_eq_true]
    cases s with
    | true => exact .inl ((named t kBuy).mpr here)
    | false => exact .inr ((named t kSell).mpr here)
  | some t =>
    right
    have here := List.find?_some search
    rw [Bool.or_eq_true, named, named] at here
    dsimp only
    split
    next bid => exact ⟨t, kBuy, (named t kBuy).mp bid, rfl⟩
    next notBid =>
      rw [named] at notBid
      exact ⟨t, kSell, here.resolve_left notBid, rfl⟩

theorem cancel_tracks (tracks : h.Tracks) (id : Int) (own : h.OwnReports (.cancel id)) :
    (h.next A (.cancel id)).Tracks := by
  obtain ⟨o, member, rfl⟩ := own
  have emitted : (h.next A (.cancel o.clientOrderId)).emitted = h.emitted := by rw [next]
  have gone : (h.next A (.cancel o.clientOrderId)).gone = h.gone ++ [o.clientOrderId] := by rw [next]
  rcases onCancel_cases h.mm o.clientOrderId with ⟨same, missing⟩ | ⟨t', s', found, taken⟩
  · have counter : (h.next A (.cancel o.clientOrderId)).mm.nextClordid = h.mm.nextClordid := by
      rw [next, same]
    refine tracks.ends member emitted counter gone fun t s id => ?_
    rw [next, same]
    refine ⟨fun resting => ⟨resting, ?_⟩, And.left⟩
    rintro rfl
    have inside : t < kMaxTokens := (tracks.resting_token member resting).1 ▸ tracks.listed o member
    exact missing t inside s resting
  · have counter : (h.next A (.cancel o.clientOrderId)).mm.nextClordid = h.mm.nextClordid := by
      rw [next, taken, setQuote_nextClordid]
    refine tracks.ends member emitted counter gone fun t s id => ?_
    rw [next, taken, Resting, setQuote_side]
    split
    next here =>
      obtain ⟨rfl, rfl⟩ := here
      simp only [Bool.false_eq_true, false_and, false_iff]
      rintro ⟨resting, other⟩
      exact other (resting.2.symm.trans found.2)
    next away =>
      refine ⟨fun resting => ⟨resting, ?_⟩, And.left⟩
      rintro rfl
      exact away (tracks.resting_unique resting found)

theorem Reachable.tracks {symbols : Option SymbolMaster} {cfg : MarketMakingConfig}
    {allowed : History → Call → Prop}
    (reports : ∀ h c, Tracks h → allowed h c → h.OwnReports c)
    (run : Reachable A symbols cfg allowed h) : h.Tracks := by
  induction run with
  | fresh => exact fresh_tracks symbols cfg
  | @call h c _ permitted ih =>
    have own := reports h c ih permitted
    cases c with
    | setNow istNs => exact ⟨ih.below, ih.increasing, ih.listed, ih.gone, ih.quoted⟩
    | bookUpdate wallClock token book => exact bookUpdate_tracks ih
    | fill report => exact fill_tracks ih report own
    | cancel id => exact cancel_tracks ih id own

/-- The ids count the orders, so a 64-bit counter holds them for fewer than `2 ^ 63 - 1` orders. -/
theorem Reachable.nextClordid_fits {symbols : Option SymbolMaster} {cfg : MarketMakingConfig}
    {allowed : History → Call → Prop} (run : Reachable A symbols cfg allowed h)
    (few : h.emitted.length < 2 ^ 63 - 1) : FitsI64 h.mm.nextClordid := by
  have counts : h.mm.nextClordid = 1 + h.emitted.length := by
    clear few
    induction run with
    | fresh => rfl
    | @call h c _ _ ih =>
      cases c with
      | setNow istNs => exact ih
      | bookUpdate wallClock token book =>
        simp only [next, List.length_append]
        rw [onBookUpdate_nextClordid_eq, ih]
        omega
      | fill report =>
        have same : (h.mm.onFill A report).nextClordid = h.mm.nextClordid := by
          simp only [onFill]
          split <;> rfl
        exact same.trans ih
      | cancel id =>
        have same : (h.mm.onCancel id).nextClordid = h.mm.nextClordid := by
          rcases onCancel_cases h.mm id with ⟨same, _⟩ | ⟨t, s, _, taken⟩
          · rw [same]
          · rw [taken, setQuote_nextClordid]
        simp only [next]
        rw [same, ih]
  rw [counts]
  simp only [FitsI64]
  omega

end Tracks

/-- For every interleaving of the strategy's calls: the outstanding ids of a token and side are
its recorded quote if that is active and none otherwise, so there is at most one; no id is
emitted twice; and an update emits all the orders that are due and lists all the quotes it
withdraws, with room left in both buffers. -/
theorem quote_lifecycle (A : Arithmetic) (symbols : Option SymbolMaster)
    (cfg : MarketMakingConfig) (h : History) (run : Reachable A symbols cfg OwnReports h) :
    (∀ token side id, h.Outstanding token side id ↔ Resting h.mm token side id) ∧
    (h.emitted.map Order.clientOrderId).Nodup ∧
    ∀ wallClock token book,
      let mm := h.mm.onBookUpdate A wallClock token book
      let withdrawn := [kBuy, kSell].filter fun side =>
        h.mm.withdraws A (h.mm.now wallClock) token book side
      mm.pending = h.mm.dueOrders A (h.mm.now wallClock) token book ∧
        mm.cancels = withdrawn.map (fun side => ((h.mm.quotes token).side side).clordid) ∧
        mm.pending.length < kMaxPending ∧ mm.cancels.length < kMaxPending := by
  have tracks := run.tracks fun _ _ _ own => own
  refine ⟨tracks.quoted, tracks.nodup, fun wallClock token book => ?_⟩
  refine ⟨onBookUpdate_pending, onBookUpdate_cancels, ?_, ?_⟩
  · exact Nat.lt_of_le_of_lt onBookUpdate_pending_length (by decide)
  · rw [onBookUpdate_cancels, List.length_map]
    exact Nat.lt_of_le_of_lt (List.length_filter_le ..) (by decide)

/-- The touch of token 7 around a bid, two ticks wide. -/
def touchBook (bid : Int) : OrderBook :=
  (OrderBook.new 7 1 4).seed
    { token := 7, type := MtbtMsgType.snapQuote.code, seqNo := 1, bidPrice := bid, bidQty := 10
      askPrice := bid + 2, askQty := 10 }

private def twoLots : MarketMakingConfig := { quoteLots := 2 }

/-- Quotes at ten, one of two lots of the bid filled, and a market that moves by a tick. -/
private def requotedCalls : List Call :=
  [.setNow 36000000000000, .bookUpdate 0 7 (touchBook 10000),
    .fill { clientOrderId := 1, token := 7, fillPrice := 9999, fillQty := 1, remainingQty := 1 },
    .bookUpdate 0 7 (touchBook 10001)]

private def requoted : History :=
  requotedCalls.foldl (next .wrapping) { mm := { symbols := none, cfg := twoLots } }

private theorem requoted_reachable : Reachable .wrapping none twoLots OwnReports requoted := by
  apply Reachable.call (.bookUpdate 0 7 (touchBook 10001)) _ trivial
  apply Reachable.call (.fill _) _ (by unfold OwnReports; decide +kernel)
  apply Reachable.call (.bookUpdate 0 7 (touchBook 10000)) _ trivial
  exact Reachable.call (.setNow 36000000000000) .fresh trivial

theorem requoted_lifecycle :
    requoted.emitted.map Order.clientOrderId = [1, 2, 3, 4] ∧ requoted.gone = [1, 2] ∧
      ∀ token side id, requoted.Outstanding token side id ↔ Resting requoted.mm token side id :=
  ⟨by decide +kernel, by decide +kernel,
    (quote_lifecycle .wrapping none twoLots requoted requoted_reachable).1⟩

end History

/-! ## Lifetime of a quote -/

section Lifetime

variable {A : Arithmetic} {mm : MarketMaking} {wallClock token : Nat} {book : OrderBook}

/-- The book has two sides that are not too far apart, and the token is in the table. -/
def Quotable (A : Arithmetic) (mm : MarketMaking) (token : Nat) (book : OrderBook) : Prop :=
  token < kMaxTokens ∧ ∃ bid ask, book.bestBid = some bid ∧ book.bestAsk = some ask ∧
    A.i64 (ask.price - bid.price) ≤ A.i64 (mm.cfg.maxSpreadTicks * mm.tickSize token)

/-- No active quote of the token is older than its time to live. -/
def Fresh (mm : MarketMaking) (now token : Nat) : Prop :=
  ∀ side, ((mm.quotes token).side side).active = true →
    u64 (now + 2 ^ 64 - ((mm.quotes token).side side).ts) ≤ mm.cfg.quoteTtlNs

theorem tickSize_pos (mm : MarketMaking) (token : Nat) : 0 < mm.tickSize token := by
  simp only [tickSize]
  split_ifs <;> omega

/-- During the quoting hours an update leaves the quotes alone only if it does not quote. -/
theorem intent_eq_none_iff {now : Nat} (opened : isWithinMarketHours now = true)
    (early : now < precloseCancelNs now) :
    mm.intent A now token book = none ↔ ¬ Quotable A mm token book := by
  have tick := mm.tickSize_pos token
  rw [intent, if_neg (Nat.not_le.mpr early), opened]
  by_cases outside : token ≥ kMaxTokens
  · simp [outside, Quotable, Nat.not_lt.mpr outside]
  · have inside : token < kMaxTokens := Nat.lt_of_not_le outside
    simp only [outside, if_false, Bool.not_true, Bool.false_eq_true, Quotable, inside, true_and]
    rw [plan]
    cases book.bestBid with
    | none => simp
    | some bid =>
      cases book.bestAsk with
      | none => simp
      | some ask => simp [Int.not_le.mpr tick]

/-- A quote that is active after a quoting update was placed by it or is still alive. -/
theorem onBookUpdate_fresh {plans : Side → QuotePlan}
    (wanted : mm.intent A (mm.now wallClock) token book = some plans) :
    (mm.onBookUpdate A wallClock token book).Fresh (mm.now wallClock) token := by
  intro side active
  rw [onBookUpdate_fixed.1]
  rcases onBookUpdate_quote token side with ⟨o, _, _, _, _, quote, _⟩ | ⟨_, kept⟩
  · rw [quote]
    simp [u64]
  · -- what is neither new nor withdrawn is settled
    rw [kept, withdraws_eq, wanted] at active
    obtain ⟨was, held⟩ := Bool.and_eq_true_iff.mp active
    simp only [drops, was, decide_true, Bool.true_and, Bool.not_not, Bool.and_eq_true, settled,
      expired, Bool.not_eq_true', decide_eq_false_iff_not, Nat.not_lt] at held
    rw [kept]
    exact held.2.2

/-- After an update between 09:15 and 15:25 no active quote of the token has outlived its time
to live, exactly if the update quotes the token or none had outlived it before: the guards
return before the age is looked at. -/
theorem quote_lifetime_iff (A : Arithmetic) (mm : MarketMaking) (wallClock token : Nat)
    (book : OrderBook) (opened : isWithinMarketHours (mm.now wallClock) = true)
    (early : mm.now wallClock < precloseCancelNs (mm.now wallClock)) :
    (mm.onBookUpdate A wallClock token book).Fresh (mm.now wallClock) token ↔
      Quotable A mm token book ∨ mm.Fresh (mm.now wallClock) token := by
  cases wanted : mm.intent A (mm.now wallClock) token book with
  | none =>
    have unquoted := (intent_eq_none_iff opened early).mp wanted
    rw [onBookUpdate_idle wanted]
    exact ⟨.inr, fun either => either.resolve_left unquoted⟩
  | some plans =>
    have quoted : Quotable A mm token book := by
      by_contra unquoted
      rw [(intent_eq_none_iff opened early).mpr unquoted] at wanted
      cases wanted
    exact iff_of_true (onBookUpdate_fresh wanted) (.inl quoted)

/-- Both sides quoted at 10:00, with the clock moved on by a second. -/
private def secondOld : History :=
  [Call.setNow 36000000000000, .bookUpdate 0 7 (History.touchBook 10000),
    .setNow 36001000000000].foldl (History.next .wrapping) { mm := { symbols := none, cfg := {} } }

/-- An unchanged market: both quotes are replaced. -/
theorem unchanged_market_requoted :
    (secondOld.mm.onBookUpdate .wrapping 0 7 (History.touchBook 10000)).Fresh 36001000000000 7 :=
  (quote_lifetime_iff .wrapping secondOld.mm 0 7 (History.touchBook 10000) (by decide +kernel)
    (by decide +kernel)).mpr
    (.inl ⟨by decide, ⟨10000, 10, 1⟩, ⟨10002, 10, 1⟩, rfl, rfl, by decide +kernel⟩)

/-- The book of the token after its offers are gone. -/
private def bidsOnly : OrderBook := { History.touchBook 10000 with asks := [] }

/-- The bid of a second ago, two thousand times as old as it may get, stays active. -/
theorem one_sided_book_keeps_quote :
    History.Reachable .wrapping none {} History.OwnReports secondOld ∧
      secondOld.mm.now 0 = 36001000000000 ∧ isWithinMarketHours 36001000000000 = true ∧
      36001000000000 < precloseCancelNs 36001000000000 ∧
      ¬ (secondOld.mm.onBookUpdate .wrapping 0 7 bidsOnly).Fresh 36001000000000 7 := by
  refine ⟨?_, by decide +kernel, by decide +kernel, by decide +kernel, ?_⟩
  · apply History.Reachable.call (.setNow 36001000000000) _ trivial
    apply History.Reachable.call (.bookUpdate 0 7 (History.touchBook 10000)) _ trivial
    exact History.Reachable.call (.setNow 36000000000000) .fresh trivial
  · intro fresh
    have kept : ((secondOld.mm.onBookUpdate .wrapping 0 7 bidsOnly).quotes 7).side kBuy =
        ⟨true, 9999, 36000000000000, 1⟩ := by decide +kernel
    have young := fresh kBuy (by rw [kept])
    rw [kept, onBookUpdate_fixed.1] at young
    exact absurd young (by decide +kernel)

end Lifetime

end NseHft.MarketMaking
