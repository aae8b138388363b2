import Mathlib.Data.Set.Card
import NseHft.Lib.FixedWidth
import NseHft.Session.SymbolMaster

/-!
# Loading the symbol master

`load_csv` marks all rows of the table as unused and puts the rows of the file in, one after the
other. What an old row held stays in the table, but no lookup shows it: all of them go through
`get`, and `get` after a load is the last row of the file for a token, whatever the table held
before. A file that cannot be opened is `none`.
-/
namespace NseHft

open FixedWidth CText

/-! ### A row of the file -/

def parseInstrumentType (s : List UInt8) : InstrumentType :=
  if s = ascii "EQ" ∨ s = ascii "equity" then .equity
  else if s = ascii "FUTIDX" then .futIdx
  else if s = ascii "FUTSTK" then .futStk
  else if s = ascii "OPTIDX" then .optIdx
  else if s = ascii "OPTSTK" then .optStk
  else .unknown

def parseOptionType (s : List UInt8) : OptionType :=
  if s = ascii "CE" then .call
  else if s = ascii "PE" then .put
  else .none

/-- Copies what fits in front of a terminating zero into a character array. -/
def copyFixed (dst : List UInt8) (src : List UInt8) : List UInt8 :=
  let n := if src.length < dst.length - 1 then src.length else dst.length - 1
  src.take n ++ 0 :: dst.drop (n + 1)

def kCsvColumns : Nat := 12

/-- The instrument of a row, from its columns. -/
def parseRow (cols : List (List UInt8)) : Instrument :=
  let col (i : Nat) : List UInt8 := cols.getD i []
  let inst : Instrument := {}
  let lotSize := i32 (strtol (col 8))
  { inst with
    -- the casts keep the low bits
    token := strtoul (col 0) % 2 ^ 32
    -- the arrays of a new instrument are all zero
    symbol := copyFixed inst.symbol (col 1)
    series := copyFixed inst.series (col 2)
    instrumentType := parseInstrumentType (col 3)
    segment := strtoul (col 4) % 2 ^ 8
    expiryYyyymmdd := strtoul (col 5) % 2 ^ 32
    strikePrice := strtol (col 6)
    optionType := parseOptionType (col 7)
    lotSize := if lotSize ≤ 0 then 1 else lotSize
    tickSize := strtol (col 9)
    prevClose := strtol (col 10)
    circuitPctX100 := strtoul (col 11) % 2 ^ 16 }

/-- The columns of a line, as the loop over its fields collects them. -/
def splitColumns (line : List UInt8) : List (List UInt8) :=
  whileGetline 44 (fun cols field => cols ++ [field]) line.length [] line

namespace SymbolMaster

/-! ### The load -/

/-- A load under way: whether the header is still to come, the rows so far, and the table. -/
structure Load where
  header : Bool := true
  rows : Int := 0
  master : SymbolMaster

def loadLine (load : Load) (line : List UInt8) : Load :=
  if line = [] then load
  else if load.header then { load with header := false }
  else
    let cols := splitColumns line
    -- a malformed row is skipped
    if cols.length < kCsvColumns then load
    else { load with rows := load.rows + 1, master := load.master.put (parseRow cols) }

/-- No row is active any more; what the rows held stays. -/
def reset (sm : SymbolMaster) : SymbolMaster :=
  { table := fun token => { sm.table token with active := false }, count := 0 }

def loadCsv (sm : SymbolMaster) (file : Option (List UInt8)) : Int × SymbolMaster :=
  match file with
  | none => (-1, sm)
  | some text =>
    let load := whileGetline 10 loadLine text.length { master := sm.reset } text
    (load.rows, load.master)

/-! ### What a file says -/

/-- The instruments of the lines with enough columns. -/
def lineInstruments (lines : List (List UInt8)) : List Instrument :=
  ((lines.map (pieces 44)).filter fun cols => kCsvColumns ≤ cols.length).map parseRow

/-- The instruments of a file, in its order. Empty lines do not count, and the first of the others
is the header. -/
def csvInstruments (text : List UInt8) : List Instrument :=
  lineInstruments (((pieces 10 text).filter fun line => line ≠ []).drop 1)

/-- The last instrument of a file for a token. -/
def csvLast (text : List UInt8) (token : Nat) : Option Instrument :=
  ((csvInstruments text).filter fun inst => inst.token = token).getLast?.map fun inst =>
    { inst with active := true }

section Load

theorem splitColumns_eq (line : List UInt8) : splitColumns line = pieces 44 line := by
  have collect (ps cols : List (List UInt8)) :
      ps.foldl (fun cols field => cols ++ [field]) cols = cols ++ ps := by
    induction ps generalizing cols with
    | nil => simp
    | cons p ps ih => simp [ih]
  rw [splitColumns, whileGetline_eq_foldl _ _ _ (Nat.le_refl _), collect, List.nil_append]

theorem foldl_loadLine_filter (load : Load) (lines : List (List UInt8)) :
    lines.foldl loadLine load = (lines.filter fun line => line ≠ []).foldl loadLine load := by
  induction lines generalizing load with
  | nil => rfl
  | cons line rest ih =>
    by_cases blank : line = []
    · have same : loadLine load line = load := if_pos blank
      rw [List.foldl_cons, same, ih]
      simp [blank]
    · rw [List.filter_cons_of_pos (by simpa using blank), List.foldl_cons, List.foldl_cons, ih]

/-- Behind the header a line is put in if it has enough columns. -/
theorem foldl_loadLine_body (load : Load) (body : load.header = false) {lines : List (List UInt8)}
    (filled : ∀ line ∈ lines, line ≠ []) :
    (lines.foldl loadLine load).rows = load.rows + (lineInstruments lines).length ∧
      (lines.foldl loadLine load).master = (lineInstruments lines).foldl put load.master := by
  induction lines generalizing load with
  | nil => simp [lineInstruments]
  | cons line rest ih =>
    obtain ⟨here, later⟩ := List.forall_mem_cons.mp filled
    have taken : loadLine load line = if (pieces 44 line).length < kCsvColumns then load else
        { load with
          rows := load.rows + 1, master := load.master.put (parseRow (pieces 44 line)) } := by
      rw [loadLine, if_neg here, body, splitColumns_eq]
      rfl
    rw [List.foldl_cons, taken]
    split
    next short =>
      have none : lineInstruments (line :: rest) = lineInstruments rest := by
        simp [lineInstruments, Nat.not_le.mpr short]
      rw [none]
      exact ih load body later
    next enough =>
      have one : lineInstruments (line :: rest) =
          parseRow (pieces 44 line) :: lineInstruments rest := by
        simp [lineInstruments, Nat.not_lt.mp enough]
      have next := ih { load with
        rows := load.rows + 1, master := load.master.put (parseRow (pieces 44 line)) } body later
      rw [one]
      refine ⟨?_, next.2⟩
      rw [next.1, List.length_cons]
      dsimp only
      omega

/-- A load answers with the number of its rows, and puts them into the table that it reset. -/
theorem loadCsv_eq (sm : SymbolMaster) (text : List UInt8) :
    sm.loadCsv (some text) =
      (((csvInstruments text).length : Int), (csvInstruments text).foldl put sm.reset) := by
  simp only [loadCsv]
  rw [whileGetline_eq_foldl _ _ _ (Nat.le_refl _), foldl_loadLine_filter]
  have filled : ∀ line ∈ (pieces 10 text).filter fun line => line ≠ [], line ≠ [] := by
    intro line member
    simpa using (List.mem_filter.mp member).2
  rw [csvInstruments]
  -- the first line that is not empty is the header
  cases lines : (pieces 10 text).filter fun line => line ≠ [] with
  | nil => simp [lineInstruments]
  | cons header rest =>
    rw [lines] at filled
    obtain ⟨here, later⟩ := List.forall_mem_cons.mp filled
    have skipped : loadLine { master := sm.reset } header = { header := false, master := sm.reset } := by
      rw [loadLine, if_neg here]
      rfl
    have body := foldl_loadLine_body { header := false, master := sm.reset } rfl later
    rw [List.foldl_cons, skipped, body.1, body.2]
    simp

end Load

/-! ### Lookups -/

section Lookups

variable {sm sm' : SymbolMaster} {inst : Instrument} {token : Nat}

theorem get_outside (sm : SymbolMaster) (outside : kSymbolTableSize ≤ token) : sm.get token = none :=
  if_pos (.inl outside)

theorem get_put (sm : SymbolMaster) (inst : Instrument) (token : Nat) :
    (sm.put inst).get token =
      if token = inst.token ∧ token < kSymbolTableSize then some { inst with active := true }
      else sm.get token := by
  by_cases outside : inst.token ≥ kSymbolTableSize
  · rw [put, if_pos outside, if_neg]
    rintro ⟨rfl, inside⟩
    omega
  · rw [put, if_neg outside]
    by_cases here : token = inst.token
    · subst here
      have inside : inst.token < kSymbolTableSize := by omega
      simp [get, inside, Nat.not_le.mpr inside]
    · simp [get, here]

theorem get_reset (sm : SymbolMaster) (token : Nat) : sm.reset.get token = none := by
  simp [get, reset]

/-- Of several instruments for a token the last one stays. -/
theorem get_foldl_put (insts : List Instrument) (sm : SymbolMaster)
    (inside : token < kSymbolTableSize) :
    (insts.foldl put sm).get token =
      ((insts.filter fun inst => inst.token = token).getLast?.map fun inst =>
        { inst with active := true }).or (sm.get token) := by
  -- from the last instrument back, since it decides
  induction insts using List.reverseRecOn with
  | nil => simp
  | append_singleton insts last ih =>
    rw [List.foldl_concat, get_put, List.filter_append]
    by_cases here : last.token = token
    · simp [here, inside]
    · rw [if_neg fun both => here both.1.symm, ih]
      simp [here]

theorem get_loadCsv (sm : SymbolMaster) (text : List UInt8) (token : Nat) :
    (sm.loadCsv (some text)).2.get token =
      if token < kSymbolTableSize then csvLast text token else none := by
  rw [loadCsv_eq]
  split
  next inside => rw [get_foldl_put _ _ inside, get_reset, Option.or_none, csvLast]
  next outside => exact get_outside _ (Nat.not_lt.mp outside)

/-- Whether a row that a lookup shows carries a symbol and a series. -/
def Carries (symbol series : List UInt8) (row : Option Instrument) : Bool :=
  row.any fun inst => symbol == cString inst.symbol && series == cString inst.series

/-- The reverse lookup sees a row only as `get` shows it. -/
theorem getToken_eq (sm : SymbolMaster) (symbol series : List UInt8) :
    sm.getToken symbol series =
      ((List.range kSymbolTableSize).find? fun token => Carries symbol series (sm.get token)).elim 0
        fun token => (sm.get token).elim 0 Instrument.token := by
  have shown {token : Nat} (inside : token < kSymbolTableSize) :
      sm.get token = if (sm.table token).active then some (sm.table token) else none := by
    cases active : (sm.table token).active <;> simp [get, active, Nat.not_le.mpr inside]
  have inside : ∀ token ∈ List.range kSymbolTableSize, token < kSymbolTableSize :=
    fun _ => List.mem_range.mp
  rw [getToken]
  -- only that the tokens are inside the table matters
  generalize List.range kSymbolTableSize = tokens at inside ⊢
  induction tokens with
  | nil => rfl
  | cons token rest ih =>
    obtain ⟨here, later⟩ := List.forall_mem_cons.mp inside
    have row := shown here
    rw [List.find?_cons, List.find?_cons, row]
    cases active : (sm.table token).active with
    | false => simpa [Carries] using ih later
    | true =>
      simp only [Carries, Bool.true_and, if_true, Option.any_some]
      split
      · simp [row, active]
      · exact ih later

/-- Masters that show the same rows answer every lookup alike. -/
theorem getToken_congr (same : sm.get = sm'.get) : sm.getToken = sm'.getToken := by
  funext symbol series
  rw [getToken_eq, getToken_eq, same]

theorem getLotSize_congr (same : sm.get = sm'.get) : sm.getLotSize = sm'.getLotSize := by
  funext token
  rw [getLotSize, getLotSize, same]

theorem getTickSize_congr (same : sm.get = sm'.get) : sm.getTickSize = sm'.getTickSize := by
  funext token
  rw [getTickSize, getTickSize, same]

/-! ### The count -/

/-- The tokens that a lookup knows. -/
def known (sm : SymbolMaster) : Set Nat := { token | sm.get token ≠ none }

def Counted (sm : SymbolMaster) : Prop := sm.count = sm.known.ncard

theorem known_finite (sm : SymbolMaster) : sm.known.Finite := by
  refine (Set.finite_lt_nat kSymbolTableSize).subset fun token shown => ?_
  by_contra outside
  exact shown (get_outside sm (Nat.not_lt.mp outside))

theorem Counted.put (counted : sm.Counted) (inst : Instrument) : (sm.put inst).Counted := by
  by_cases outside : inst.token ≥ kSymbolTableSize
  · rw [SymbolMaster.put, if_pos outside]
    exact counted
  have inside : inst.token < kSymbolTableSize := Nat.not_le.mp outside
  have known : (sm.put inst).known = insert inst.token sm.known := by
    ext token
    by_cases here : token = inst.token
    · simp [SymbolMaster.known, get_put, here, inside]
    · simp [SymbolMaster.known, get_put, here]
  have listed : inst.token ∈ sm.known ↔ (sm.table inst.token).active = true := by
    simp [SymbolMaster.known, get, inside]
  have count : (sm.put inst).count =
      if (sm.table inst.token).active then sm.count else sm.count + 1 := by
    rw [SymbolMaster.put, if_neg outside]
  rw [Counted, known, count]
  -- the flag that `put` looks at says whether the token was known
  split
  next active => rw [Set.insert_eq_of_mem (listed.mpr active), counted]
  next unused => rw [Set.ncard_insert_of_notMem (mt listed.mp unused) sm.known_finite, counted]

theorem reset_counted (sm : SymbolMaster) : sm.reset.Counted := by
  have none : sm.reset.known = ∅ := by
    ext token
    simp [known, get_reset]
  rw [Counted, none, Set.ncard_empty]
  rfl

theorem loadCsv_counted (sm : SymbolMaster) (text : List UInt8) :
    (sm.loadCsv (some text)).2.Counted := by
  rw [loadCsv_eq]
  dsimp only
  induction csvInstruments text using List.reverseRecOn with
  | nil => exact sm.reset_counted
  | append_singleton insts last ih =>
    rw [List.foldl_concat]
    exact ih.put last

/-! ### Calls -/

inductive Call where
  | put (inst : Instrument)
  | loadCsv (file : Option (List UInt8))

def call (sm : SymbolMaster) : Call → SymbolMaster
  | .put inst => sm.put inst
  | .loadCsv file => (sm.loadCsv file).2

theorem Counted.call (counted : sm.Counted) (c : Call) : (sm.call c).Counted := by
  cases c with
  | put inst => exact counted.put inst
  | loadCsv file =>
    cases file with
    | none => exact counted
    | some text => exact loadCsv_counted sm text

theorem calls_counted (calls : List Call) :
    (calls.foldl SymbolMaster.call {}).Counted := by
  induction calls using List.reverseRecOn with
  | nil => exact reset_counted {}
  | append_singleton calls last ih =>
    rw [List.foldl_concat]
    exact ih.call last

/-- After any calls the count is the number of known tokens, a file that cannot be opened changes
nothing, and a file that can be opened leaves what it leaves in a new symbol master: for each token
the last row with enough columns. -/
theorem reload_replaces (calls : List Call) :
    let sm := calls.foldl SymbolMaster.call {}
    sm.count = { token | sm.get token ≠ none }.ncard ∧
    sm.loadCsv none = (-1, sm) ∧
    ∀ text,
      let loaded := (sm.loadCsv (some text)).2
      let fresh := (SymbolMaster.loadCsv {} (some text)).2
      loaded.get = fresh.get ∧ loaded.getLotSize = fresh.getLotSize ∧
      loaded.getTickSize = fresh.getTickSize ∧ loaded.getToken = fresh.getToken ∧
      loaded.count = fresh.count ∧
      ∀ token, fresh.get token = if token < kSymbolTableSize then csvLast text token else none := by
  intro sm
  refine ⟨calls_counted calls, rfl, ?_⟩
  intro text loaded fresh
  have same : loaded.get = fresh.get := by
    funext token
    rw [get_loadCsv, get_loadCsv]
  have count : loaded.count = fresh.count := by
    rw [loadCsv_counted sm text, loadCsv_counted {} text, known, known, same]
  exact ⟨same, getLotSize_congr same, getTickSize_congr same, getToken_congr same, count,
    get_loadCsv {} text⟩

-- the second row wins over the first; the third one ends in a comma and has eleven columns
example : ((csvInstruments (ascii ("token,symbol\n" ++ "7,NIFTY,FUT,FUTIDX,2,0,0,,25,5,100,1000\n" ++
      "7,NIFTY,FUT,FUTIDX,2,0,0,,-3,5,100,1000\n" ++ "7,NIFTY,FUT,FUTIDX,2,0,0,,15,5,100,\n"))).map
    fun inst => (inst.token, inst.lotSize, inst.circuitPctX100)) = [(7, 25, 1000), (7, 1, 1000)] := by
  decide +kernel

end Lookups

end SymbolMaster

end NseHft
