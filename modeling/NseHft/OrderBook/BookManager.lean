import NseHft.OrderBook.OrderBook

/-!
# Book manager

Routes market events to the books of the watched tokens.
-/
namespace NseHft

def kMaxTokens : Nat := 65536

structure BookManager where
  slots : Nat → Option OrderBook := fun _ => none
  watched : Nat := 0

namespace BookManager

/-- The returned pointer is the one that `getBook` gives afterwards. -/
def addToken (bm : BookManager) (token : Nat) (tickSize : Int) (orderCapacity : Nat) :
    BookManager :=
  if token ≥ kMaxTokens then bm
  else
    match bm.slots token with
    | none =>
      { slots := Function.update bm.slots token (some (.new token tickSize orderCapacity))
        watched := bm.watched + 1 }
    | some book =>
      { bm with slots := Function.update bm.slots token (some { book with tickSize := tickSize }) }

def getBook (bm : BookManager) (token : Nat) : Option OrderBook :=
  if token ≥ kMaxTokens then none else bm.slots token

/-- Events for unwatched tokens are skipped. -/
def route (fuel : Nat) (bm : BookManager) (ev : MarketEvent) : Option (BookResult × BookManager) :=
  match bm.getBook ev.token with
  | none => some (.ok, bm)
  | some book => do
    let (result, book) ← book.applyEvent fuel ev
    some (result, { bm with slots := Function.update bm.slots ev.token (some book) })

variable {bm bm' : BookManager} {ev : MarketEvent} {fuel : Nat} {result : BookResult}

theorem getBook_eq_some_iff (token : Nat) (book : OrderBook) :
    bm.getBook token = some book ↔ token < kMaxTokens ∧ bm.slots token = some book := by
  simp only [getBook]
  split_ifs with outside
  · simp [Nat.not_lt.mpr outside]
  · simp [Nat.lt_of_not_le outside]

/-- Routing touches the book of the event's token only. -/
theorem route_cases (returned : bm.route fuel ev = some (result, bm')) :
    (bm.getBook ev.token = none ∧ result = .ok ∧ bm' = bm) ∨
    ∃ book book', bm.getBook ev.token = some book ∧
      book.applyEvent fuel ev = some (result, book') ∧ bm'.getBook ev.token = some book' ∧
      ∀ token, token ≠ ev.token → bm'.getBook token = bm.getBook token := by
  simp only [route] at returned
  cases found : bm.getBook ev.token with
  | none =>
    simp only [found, Option.some.injEq, Prod.mk.injEq] at returned
    exact .inl ⟨rfl, returned.1.symm, returned.2.symm⟩
  | some book =>
    simp only [found, Option.bind_eq_bind, Option.bind_eq_some_iff, Option.some.injEq,
      Prod.mk.injEq, Prod.exists] at returned
    obtain ⟨_, book', applied, rfl, rfl⟩ := returned
    obtain ⟨inRange, _⟩ := (getBook_eq_some_iff _ _).mp found
    refine .inr ⟨book, book', rfl, applied, ?_, ?_⟩
    · simp [getBook_eq_some_iff, inRange]
    · intro token other
      simp only [getBook, Function.update_of_ne other]

/-- The invariant of every watched book. -/
def Ok (bm : BookManager) : Prop := ∀ token book, bm.getBook token = some book → book.Ok

theorem route_ok (ok : bm.Ok) (returned : bm.route fuel ev = some (result, bm')) : bm'.Ok := by
  rcases route_cases returned with ⟨_, _, rfl⟩ | ⟨book, book', before, applied, after, others⟩
  · exact ok
  · intro token other found
    by_cases here : token = ev.token
    · rw [here, after] at found
      exact Option.some.inj found ▸ OrderBook.applyEvent_ok (ok _ _ before) applied
    · exact ok token other (others token here ▸ found)

/-- The manager after a list of `add_token` calls: token, tick size, order capacity. -/
def watching (tokens : List (Nat × Int × Nat)) : BookManager :=
  tokens.foldl (fun bm t => bm.addToken t.1 t.2.1 t.2.2) {}

/-- A book that has not seen an event. -/
structure Untouched (book : OrderBook) : Prop where
  table : book.table.Ok
  empty : ∀ side, book.levels side = []
  expectedSeq : book.expectedSeq = 0
  gapCount : book.gapCount = 0
  fresh : book.stale = false

theorem Untouched.ok {book : OrderBook} (untouched : Untouched book) : book.Ok := by
  refine ⟨untouched.table, ?_⟩
  intro side
  rw [untouched.empty]
  exact sideOk_nil _ _

theorem new_untouched (token : Nat) (tickSize : Int) (orderCapacity : Nat) :
    Untouched (.new token tickSize orderCapacity) := by
  refine ⟨OrderTable.new_ok _, ?_, rfl, rfl, rfl⟩
  intro side
  cases side <;> rfl

theorem addToken_untouched (untouched : ∀ token book, bm.slots token = some book → Untouched book)
    (token : Nat) (tickSize : Int) (orderCapacity : Nat) :
    ∀ t book, (bm.addToken token tickSize orderCapacity).slots t = some book → Untouched book := by
  intro t book found
  simp only [addToken] at found
  split at found
  · exact untouched t book found
  · by_cases here : t = token
    · subst here
      split at found
      · simp only [Function.update_self, Option.some.injEq] at found
        exact found ▸ new_untouched ..
      next old present =>
        simp only [Function.update_self, Option.some.injEq] at found
        obtain ⟨table, empty, expectedSeq, gapCount, fresh⟩ := untouched t old present
        exact found ▸ ⟨table, empty, expectedSeq, gapCount, fresh⟩
    · split at found <;> exact untouched t book (by simpa [here] using found)

theorem watching_untouched (tokens : List (Nat × Int × Nat)) :
    ∀ token book, (watching tokens).getBook token = some book → Untouched book := by
  have slots : ∀ (bm : BookManager), (∀ t book, bm.slots t = some book → Untouched book) →
      ∀ t book, (tokens.foldl (fun bm t => bm.addToken t.1 t.2.1 t.2.2) bm).slots t = some book →
        Untouched book := by
    induction tokens with
    | nil => exact fun bm untouched => untouched
    | cons t rest ih => exact fun bm untouched => ih _ (addToken_untouched untouched _ _ _)
  intro token book found
  exact slots {} (by simp) token book ((getBook_eq_some_iff _ _).mp found).2

end BookManager

end NseHft
