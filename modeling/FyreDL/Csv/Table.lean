import FyreDL.Csv.Reader

/-!
# FyreDL.Csv.Table — what a reader delivers of a table

A *table* is a list of rows of equally many non-empty cells without separators.
The proof that `GkCsvReader` delivers it row by row goes through one invariant for
the recursion of `read_row` over its own arguments. On entering the level that
owns variable `k` (counted from 0)

* `ret_parsed_cols` is 0 and `rows_parsed` is the number of finished rows;
* of the current row exactly the non-empty cells up to some column are marked in
  `proc_cols` (`Marked`).

The level skips those columns and empty ones, takes the next cell, and the levels
below take the rest, so that its own loop finds nothing more. Each level adds one to
`ret_parsed_cols` on its way out (`readRow_level`), and only the outermost one
sees the count that means success (`readRow_next`). Behind the last row nothing is
found and the outermost level leaves with `false` (`readRow_end`).

An empty cell is passed over: a row with one empty cell still counts as a success,
with every later cell in the variable of the one before it.
-/

namespace FyreDL.Csv

open Lib

/-! ## Scanning the cells -/

/-- Whether a cell stands in row `rowNo`, column `colNo`. -/
def Cell.isAt (rowNo colNo : Nat) (cell : Cell) : Bool :=
  decide (cell.row = rowNo ∧ cell.col = colNo)

theorem scanCells_processed {colNo rowNo : Nat} {proc : List (Nat × Nat)} {cells : List Cell}
    (hne : cells ≠ []) (hp : (rowNo, colNo) ∈ proc) :
    scanCells colNo rowNo proc cells = some ([], proc) := by
  cases cells with
  | nil => exact absurd rfl hne
  | cons cell rest => rw [scanCells, if_pos hp]

theorem scanCells_find {colNo rowNo : Nat} {proc : List (Nat × Nat)} {cells : List Cell}
    (hp : (rowNo, colNo) ∉ proc) :
    scanCells colNo rowNo proc cells =
      (cells.find? (Cell.isAt rowNo colNo)).map fun cell =>
        if cell.value ≠ [] then (cell.value, (rowNo, colNo) :: proc) else ([], proc) := by
  induction cells with
  | nil => rfl
  | cons cell rest ih =>
    rw [scanCells, if_neg hp]
    by_cases hat : cell.row = rowNo ∧ cell.col = colNo
    · rw [if_pos hat, List.find?_cons_of_pos (by simpa [Cell.isAt] using hat)]
      by_cases hv : cell.value ≠ []
      · simp [hv]
      · simp [hv]
    · rw [if_neg hat, List.find?_cons_of_neg (by simpa [Cell.isAt] using hat), ih]

/-! ## The reader over a table -/

/-- The cells of one row, from column `col` on. -/
def rowCells (row : Nat) : Nat → List Str → List Cell
  | _, [] => []
  | col, v :: vs => ⟨row, col, v⟩ :: rowCells row (col + 1) vs

/-- The cells of a table, from row `row` on. -/
def tableCells : Nat → List (List Str) → List Cell
  | _, [] => []
  | row, vs :: rest => rowCells row 1 vs ++ tableCells (row + 1) rest

theorem find_rowCells (row col k : Nat) (vs : List Str) :
    (rowCells row col vs).find? (Cell.isAt row (col + k)) =
      (vs[k]?).map fun v => ⟨row, col + k, v⟩ := by
  induction vs generalizing col k with
  | nil => rfl
  | cons v vs ih =>
    cases k with
    | zero => simp [rowCells, Cell.isAt]
    | succ k =>
      have hskip : Cell.isAt row (col + (k + 1)) ⟨row, col, v⟩ = false := by
        simp [Cell.isAt]
      rw [rowCells, List.find?_cons_of_neg (by simp [hskip]), List.getElem?_cons_succ]
      have := ih (col + 1) k
      rwa [show col + 1 + k = col + (k + 1) by omega] at this

theorem find_rowCells_other {row row' col c : Nat} (h : row ≠ row') (vs : List Str) :
    (rowCells row col vs).find? (Cell.isAt row' c) = none := by
  induction vs generalizing col with
  | nil => rfl
  | cons v vs ih =>
    rw [rowCells, List.find?_cons_of_neg (by simp [Cell.isAt, h]), ih]

theorem find_tableCells (row : Nat) {r c : Nat} {rows : List (List Str)} {vs : List Str} {v : Str}
    (hrow : rows[r]? = some vs) (hcell : vs[c]? = some v) :
    (tableCells row rows).find? (Cell.isAt (row + r) (c + 1)) = some ⟨row + r, c + 1, v⟩ := by
  induction rows generalizing row r with
  | nil => simp at hrow
  | cons vs' rest ih =>
    rw [tableCells, List.find?_append]
    cases r with
    | zero =>
      obtain rfl : vs' = vs := by simpa using hrow
      have := find_rowCells row 1 c vs'
      rw [Nat.add_comm 1 c] at this
      simp [this, hcell]
    | succ r =>
      rw [find_rowCells_other (by omega), Option.none_or]
      have := ih (row + 1) (r := r) (by simpa using hrow)
      rwa [Nat.add_right_comm row 1 r] at this

/-- A reader that holds the rows of a text: `n` columns, a cell in each of them. -/
structure Tabled (rd : GkCsvReader) (n : Nat) (rows : List (List Str)) : Prop where
  cells : rd.csvData = tableCells 1 rows
  cols : rd.colsCount = n
  count : rd.rowsCount = rows.length
  width : ∀ vs ∈ rows, vs.length = n

/-- A reader that holds a table: no cell is empty. -/
structure Holds (rd : GkCsvReader) (n : Nat) (rows : List (List Str)) : Prop
    extends Tabled rd n rows where
  filled : ∀ vs ∈ rows, ∀ v ∈ vs, v ≠ []

/-- The first cells of a row in the columns of a reader, all of which are there. -/
structure RowOf (rd : GkCsvReader) (n r : Nat) (vs : List Str) : Prop where
  cols : rd.colsCount = n
  inside : r < rd.rowsCount
  width : vs.length = n
  cell : ∀ {k : Nat} {v : Str}, vs[k]? = some v →
    rd.csvData.find? (Cell.isAt (r + 1) (k + 1)) = some ⟨r + 1, k + 1, v⟩

/-- The cells of a row that a call can take. -/
def taken (vs : List Str) : List Str := vs.filter (· ≠ [])

theorem taken_of_filled {vs : List Str} (h : ∀ v ∈ vs, v ≠ []) : taken vs = vs := by
  rw [taken, List.filter_eq_self]
  intro v hv
  exact decide_eq_true (h v hv)

/-- Up to the first cell that can be taken there are only empty ones. -/
theorem taken_eq_cons {ws : List Str} {vs : List Str} {w : Str} (h : taken vs = w :: ws) :
    ∃ k, vs[k]? = some w ∧ w ≠ [] ∧ (∀ i < k, vs[i]? = some []) ∧ taken (vs.drop (k + 1)) = ws := by
  induction vs with
  | nil => cases h
  | cons v vs ih =>
    by_cases hv : v = []
    · have htail : taken vs = w :: ws := by
        rw [← h, taken, taken, List.filter_cons_of_neg (by simpa using hv)]
      rcases ih htail with ⟨k, hk, hw, hbefore, hafter⟩
      refine ⟨k + 1, hk, hw, ?_, hafter⟩
      intro i hi
      cases i with
      | zero => rw [hv]; rfl
      | succ i => exact hbefore i (by omega)
    · rw [taken, List.filter_cons_of_pos (by simpa using hv)] at h
      rcases List.cons.inj h with ⟨rfl, hws⟩
      exact ⟨0, rfl, hv, fun i hi => absurd hi (Nat.not_lt_zero i), hws⟩

theorem taken_eq_nil {vs : List Str} (h : taken vs = []) : ∀ v ∈ vs, v = [] := by
  intro v hv
  have := List.filter_eq_nil_iff.mp h v hv
  simpa using this

/-- Between two calls: `r` rows are finished and none of a later row is touched. -/
structure AtRow (r : Nat) (st : Statics) : Prop where
  parsed : st.rowsParsed = r
  level : st.retParsedCols = 0
  marks : ∀ p ∈ st.procCols, p.1 ≤ r

theorem atRow_reset : AtRow 0 Statics.reset :=
  ⟨rfl, rfl, fun _ hp => absurd hp List.not_mem_nil⟩

/-- The variables after the levels from `k` on took the cells `ws`. -/
def storeFrom (ws : List Str) (k : Nat) (vars : Vars) : Vars :=
  fun i => if k ≤ i then (ws[i - k]?).getD (vars i) else vars i

@[simp] theorem storeFrom_zero_map (vs : List Str) (vars : Vars) :
    (List.range vs.length).map (storeFrom vs 0 vars) = vs := by
  apply List.ext_getElem?
  intro i
  rw [List.getElem?_map]
  rcases Nat.lt_or_ge i vs.length with hi | hi
  · simp [storeFrom, hi]
  · simp [hi]

@[simp] theorem storeFrom_nil (k : Nat) (vars : Vars) : storeFrom [] k vars = vars := by
  funext i
  simp [storeFrom]

theorem storeFrom_cons (w : Str) (ws : List Str) (k : Nat) (vars : Vars) :
    storeFrom ws (k + 1) (Function.update vars k w) = storeFrom (w :: ws) k vars := by
  funext i
  unfold storeFrom
  rcases Nat.lt_trichotomy i k with h | h | h
  · rw [if_neg (by omega), if_neg (by omega), Function.update_of_ne (by omega)]
  · subst h
    rw [if_neg (by omega), if_pos (Nat.le_refl i), Function.update_self, Nat.sub_self]
    rfl
  · rw [if_pos (by omega), if_pos (by omega), Function.update_of_ne (by omega),
      show i - k = (i - (k + 1)) + 1 by omega, List.getElem?_cons_succ]

section Reading

variable {rd : GkCsvReader} {n : Nat} {rows : List (List Str)}

theorem Tabled.rowOf (h : Tabled rd n rows) {r : Nat} {vs : List Str} (hrow : rows[r]? = some vs) :
    RowOf rd n r vs where
  cols := h.cols
  inside := by
    rw [h.count]
    exact (List.getElem?_eq_some_iff.mp hrow).1
  width := h.width vs (List.mem_of_getElem? hrow)
  cell := by
    intro k v hv
    have hfind := find_tableCells 1 hrow hv
    rw [h.cells, Nat.add_comm r 1]
    exact hfind

theorem RowOf.csvData_ne_nil {r : Nat} {vs : List Str} (h : RowOf rd n r vs) (hn : 0 < n) :
    rd.csvData ≠ [] := by
  have hpos : 0 < vs.length := by rw [h.width]; exact hn
  have hfind := h.cell (List.getElem?_eq_getElem hpos)
  intro hnil
  rw [hnil] at hfind
  cases hfind

/-- A column of the current row that is already marked yields nothing. -/
theorem readCsvHelper_marked (st : Statics) {c : Nat} (hne : rd.csvData ≠ [])
    (hmark : (st.rowsParsed + 1, c) ∈ st.procCols) :
    readCsvHelper rd c (st.rowsParsed + 1) st = some ([], st) := by
  simp only [readCsvHelper, if_neg hne, scanCells_processed hne hmark, Option.map_some, ite_self]

/-- A column of the current row that is not marked yet yields its cell, and marks it
unless it is empty. -/
theorem readCsvHelper_fresh {st : Statics} {k : Nat} {vs : List Str} {v : Str}
    (h : RowOf rd n st.rowsParsed vs) (hv : vs[k]? = some v)
    (hfresh : (st.rowsParsed + 1, k + 1) ∉ st.procCols) :
    readCsvHelper rd (k + 1) (st.rowsParsed + 1) st =
      some (if v ≠ [] then
        (v, { st with procCols := (st.rowsParsed + 1, k + 1) :: st.procCols }) else ([], st)) := by
  have hr := h.inside
  have hk : k < n := h.width ▸ (List.getElem?_eq_some_iff.mp hv).1
  unfold readCsvHelper
  rw [if_neg (by omega), if_neg (h.csvData_ne_nil (by omega)), h.cols, if_pos (by omega),
    scanCells_find hfresh, h.cell hv]
  by_cases hvne : v = []
  · simp [hvne]
  · simp [hvne]

/-- An empty cell of the current row yields nothing. -/
theorem readCsvHelper_empty {st : Statics} {k : Nat} {vs : List Str}
    (h : RowOf rd n st.rowsParsed vs) (hv : vs[k]? = some []) :
    readCsvHelper rd (k + 1) (st.rowsParsed + 1) st = some ([], st) := by
  have hk : k < n := h.width ▸ (List.getElem?_eq_some_iff.mp hv).1
  by_cases hmark : (st.rowsParsed + 1, k + 1) ∈ st.procCols
  · exact readCsvHelper_marked st (h.csvData_ne_nil (by omega)) hmark
  · rw [readCsvHelper_fresh h hv hmark, if_neg (fun hc => hc rfl)]

/-- Behind the last row no column yields anything. -/
theorem readCsvHelper_beyond {st : Statics} {c : Nat} (hr : rd.rowsCount ≤ st.rowsParsed) :
    readCsvHelper rd c (st.rowsParsed + 1) st = some ([], st) := by
  unfold readCsvHelper
  split
  · rfl
  · split
    · rfl
    · rw [if_neg (by omega)]

theorem readRowLoop_append (var : Nat)
    (next : Vars → Statics → Option (Bool × Vars × Statics)) (xs ys : List Nat)
    (vars : Vars) (st : Statics) :
    readRowLoop rd var next (xs ++ ys) vars st =
      (readRowLoop rd var next xs vars st).bind fun (vars, st) =>
        readRowLoop rd var next ys vars st := by
  induction xs generalizing vars st with
  | nil => rfl
  | cons x xs ih =>
    simp only [List.cons_append, readRowLoop]
    cases readCsvHelper rd x (st.rowsParsed + 1) st with
    | none => rfl
    | some p =>
      obtain ⟨data, st₁⟩ := p
      simp only [bind, Option.bind]
      -- the column yields nothing, or hands over to the next level
      split
      · exact ih vars st₁
      · cases next (Function.update vars var data) st₁ with
        | none => rfl
        | some q => exact ih q.2.1 q.2.2

/-- Columns that yield nothing leave variables and statics as they are. -/
theorem readRowLoop_skip {var : Nat}
    {next : Vars → Statics → Option (Bool × Vars × Statics)} {cols : List Nat} {vars : Vars}
    {st : Statics}
    (h : ∀ c ∈ cols, readCsvHelper rd c (st.rowsParsed + 1) st = some ([], st)) :
    readRowLoop rd var next cols vars st = some (vars, st) := by
  induction cols with
  | nil => rfl
  | cons c cols ih =>
    have hc := h c List.mem_cons_self
    simp only [readRowLoop, hc, bind, Option.bind, if_true]
    exact ih fun c hm => h c (List.mem_cons_of_mem _ hm)

/-- The marks of the current row are those of the cells taken from its first `c`
columns. -/
def Marked (vs : List Str) (c : Nat) (st : Statics) : Prop :=
  ∀ i, (st.rowsParsed + 1, i + 1) ∈ st.procCols ↔ i < c ∧ ∃ v, vs[i]? = some v ∧ v ≠ []

/-- Columns of the current row from which nothing is left to take. -/
theorem readCsvHelper_done {st : Statics} {vs : List Str} {c i : Nat}
    (h : RowOf rd n st.rowsParsed vs) (hmarks : Marked vs c st) (hi : i < n)
    (hdone : i < c ∨ vs[i]? = some []) :
    readCsvHelper rd (i + 1) (st.rowsParsed + 1) st = some ([], st) := by
  obtain ⟨v, hv⟩ : ∃ v, vs[i]? = some v :=
    ⟨_, List.getElem?_eq_getElem (by rw [h.width]; exact hi)⟩
  by_cases hempty : v = []
  · exact readCsvHelper_empty h (hempty ▸ hv)
  · rcases hdone with hlt | hnil
    · exact readCsvHelper_marked st (h.csvData_ne_nil (by omega))
        ((hmarks i).mpr ⟨hlt, v, hv, hempty⟩)
    · exact absurd (Option.some.inj (hv.symm.trans hnil)) hempty

/-- A stretch of such columns. -/
theorem readRowLoop_done {st : Statics} {vs : List Str} {c : Nat}
    (h : RowOf rd n st.rowsParsed vs) (hmarks : Marked vs c st) {var : Nat}
    (next : Vars → Statics → Option (Bool × Vars × Statics)) (vars : Vars) {a b : Nat}
    (hab : a + b ≤ n) (hdone : ∀ i, a ≤ i → i < a + b → i < c ∨ vs[i]? = some []) :
    readRowLoop rd var next (List.range' (a + 1) b) vars st = some (vars, st) := by
  apply readRowLoop_skip
  intro col hcol
  rw [List.mem_range'_1] at hcol
  obtain ⟨i, rfl⟩ : ∃ i, col = i + 1 := ⟨col - 1, by omega⟩
  exact readCsvHelper_done h hmarks (by omega) (hdone i (by omega) (by omega))

/-- Behind the columns that were done there may be only empty cells. -/
theorem eq_nil_of_taken_drop {vs : List Str} {c i : Nat} {v : Str} (h : taken (vs.drop c) = [])
    (hi : c ≤ i) (hv : vs[i]? = some v) : v = [] := by
  apply taken_eq_nil h v
  apply List.mem_of_getElem? (i := i - c)
  rw [List.getElem?_drop, ← hv]
  congr 1
  omega

/-- Then all cells of the row that can be taken are marked. -/
theorem Marked.all {vs : List Str} {c : Nat} {st : Statics} (h : Marked vs c st)
    (hlen : vs.length = n) (hnil : taken (vs.drop c) = []) :
    Marked vs n ⟨st.rowsParsed, 0, st.procCols⟩ := by
  intro i
  refine (h i).trans ⟨?_, ?_⟩
  · rintro ⟨-, v, hv, hne⟩
    have hi := (List.getElem?_eq_some_iff.mp hv).1
    exact ⟨by omega, v, hv, hne⟩
  · rintro ⟨-, v, hv, hne⟩
    rcases Nat.lt_or_ge i c with hlt | hge
    · exact ⟨hlt, v, hv, hne⟩
    · exact absurd (eq_nil_of_taken_drop hnil hge hv) hne

/-- The next cell is taken: its column is marked, and those before it were empty. -/
theorem Marked.take {vs : List Str} {c k : Nat} {w : Str} {st : Statics} (h : Marked vs c st)
    (hk : vs[k]? = some w) (hw : w ≠ []) (hck : c ≤ k)
    (hbefore : ∀ i < k, i < c ∨ vs[i]? = some []) :
    Marked vs (k + 1) { st with procCols := (st.rowsParsed + 1, k + 1) :: st.procCols } := by
  intro i
  simp only [List.mem_cons, Prod.mk.injEq, true_and, Nat.add_right_cancel_iff]
  constructor
  · rintro (rfl | hm)
    · exact ⟨Nat.lt_succ_self i, w, hk, hw⟩
    · rcases (h i).mp hm with ⟨hi, hv⟩
      exact ⟨by omega, hv⟩
  · rintro ⟨hi, v, hv, hvne⟩
    rcases Nat.eq_or_lt_of_le (Nat.lt_succ_iff.mp hi) with rfl | hlt
    · exact Or.inl rfl
    · rcases hbefore i hlt with hc | hnil
      · exact Or.inr ((h i).mpr ⟨hc, v, hv, hvne⟩)
      · exact absurd (Option.some.inj (hv.symm.trans hnil)) hvne

/-- The columns of a loop: those in front of one, that one, and the later ones. -/
theorem range'_around {k : Nat} (hk : k < n) :
    List.range' 1 n = List.range' 1 k ++ (k + 1) :: List.range' (k + 1 + 1) (n - (k + 1)) := by
  have hsplit : n = k + ((n - (k + 1)) + 1) := by omega
  conv_lhs => rw [hsplit, ← List.range'_append_1, List.range'_succ, Nat.add_comm 1 k]

/-- The loop of a level that takes the cell in column `k + 1`: in front of it there is nothing to
take, and the level below leaves nothing behind it. -/
theorem readRowLoop_take {vs : List Str} {c k : Nat} {w : Str} {st st' : Statics} {var : Nat}
    {next : Vars → Statics → Option (Bool × Vars × Statics)} {vars vars' : Vars} {b : Bool}
    (h : RowOf rd n st.rowsParsed vs) (hmarks : Marked vs c st) (hk : vs[k]? = some w) (hw : w ≠ [])
    (hck : c ≤ k) (hbefore : ∀ i < k, i < c ∨ vs[i]? = some [])
    (hnext : next (Function.update vars var w)
      { st with procCols := (st.rowsParsed + 1, k + 1) :: st.procCols } = some (b, vars', st'))
    (hrow : st'.rowsParsed = st.rowsParsed) (hmarked : Marked vs n st') :
    readRowLoop rd var next (List.range' 1 n) vars st = some (vars', st') := by
  have hkn : k < n := h.width ▸ (List.getElem?_eq_some_iff.mp hk).1
  have hread := readCsvHelper_fresh h hk fun hm => absurd ((hmarks k).mp hm).1 (by omega)
  rw [if_pos hw] at hread
  rw [range'_around hkn, readRowLoop_append, readRowLoop_done (a := 0) h hmarks _ vars (by omega)
    fun i _ hi => hbefore i (by omega), Option.bind_some]
  simp only [readRowLoop, hread, bind, Option.bind, if_neg hw, hnext]
  -- the later columns, with all marks of the row
  exact readRowLoop_done (hrow.symm ▸ h) hmarked _ _ (by omega) fun i _ hi => Or.inl (by omega)

/-- One level of `read_row`: the call on the variables `k .. n-1` with the first
`c` columns of the row done and the cells `ws` left to take. Each level takes one of
them, and the level behind the last one takes nothing. -/
theorem readRow_level (hn : 2 ≤ n) {vs : List Str} (j : Nat) :
    ∀ (ws : List Str) (k c : Nat) (vars : Vars) (st : Statics), k + j = n →
      taken (vs.drop c) = ws → ws.length ≤ j →
      RowOf rd n st.rowsParsed vs → st.retParsedCols = 0 → Marked vs c st →
      ∃ proc,
        readRow rd (List.range' k j) vars st =
          some (decide (n ≤ min j (ws.length + 1)), storeFrom ws k vars,
            if n ≤ min j (ws.length + 1) then ⟨st.rowsParsed + 1, 0, proc⟩
            else ⟨st.rowsParsed, min j (ws.length + 1), proc⟩) ∧
        (∀ p ∈ proc, p ∈ st.procCols ∨ p.1 = st.rowsParsed + 1) ∧
        Marked vs n ⟨st.rowsParsed, 0, proc⟩ := by
  -- induction on the levels: a level that takes a cell hands the later ones to the next
  induction j with
  | zero =>
    intro ws k c vars st hk hws hle h hret hmarks
    obtain rfl : ws = [] := List.eq_nil_of_length_eq_zero (by omega)
    refine ⟨st.procCols, ?_, fun p hp => Or.inl hp, hmarks.all h.width hws⟩
    have hst : (⟨st.rowsParsed, 0, st.procCols⟩ : Statics) = st := by rw [← hret]
    rw [List.range'_zero, readRow, storeFrom_nil, Nat.zero_min, if_neg (by omega), hst,
      decide_eq_false (by omega)]
  | succ j ih =>
    intro ws k c vars st hk hws hle h hret hmarks
    have hlen : vs.length = n := h.width
    have hne : rd.csvData ≠ [] := h.csvData_ne_nil (by omega)
    have hcount : st.rowsParsed ≤ rd.rowsCount := Nat.le_of_lt h.inside
    rw [List.range'_succ, readRow, if_pos ⟨hne, hcount⟩, h.cols]
    cases ws with
    | nil =>
      -- nothing is left: the level runs over all columns in vain
      refine ⟨st.procCols, ?_, fun p hp => Or.inl hp, hmarks.all hlen hws⟩
      rw [readRowLoop_done (a := 0) (b := n) h hmarks _ vars (by omega) (by
        intro i _ hi
        rcases Nat.lt_or_ge i c with hlt | hge
        · exact Or.inl hlt
        · obtain ⟨v, hv⟩ : ∃ v, vs[i]? = some v := ⟨vs[i], List.getElem?_eq_getElem (by omega)⟩
          exact Or.inr (eq_nil_of_taken_drop hws hge hv ▸ hv))]
      simp only [bind, Option.bind, hret, pure, storeFrom_nil, List.length_nil]
      rw [if_neg (by omega), if_neg (by omega), decide_eq_false (by omega),
        Nat.min_eq_right (by omega)]
    | cons w ws =>
      -- the level takes the cell `w`, and the level below the others
      rcases taken_eq_cons hws with ⟨d, hd, hw, hbefore, hafter⟩
      rw [List.getElem?_drop] at hd
      rw [List.drop_drop, show c + (d + 1) = c + d + 1 by omega] at hafter
      have hempty : ∀ i < c + d, i < c ∨ vs[i]? = some [] := by
        intro i hi
        rcases Nat.lt_or_ge i c with hlt | hge
        · exact Or.inl hlt
        · have hcell := hbefore (i - c) (by omega)
          rw [List.getElem?_drop, show c + (i - c) = i by omega] at hcell
          exact Or.inr hcell
      rcases ih ws (k + 1) (c + d + 1) (Function.update vars k w)
        { st with procCols := (st.rowsParsed + 1, c + d + 1) :: st.procCols }
        (by omega) hafter (by simpa using hle) h hret
        (hmarks.take hd hw (Nat.le_add_right c d) hempty) with ⟨proc, hcall, hold, hfinal⟩
      simp only [storeFrom_cons] at hcall
      rw [if_neg (by omega), decide_eq_false (by omega)] at hcall
      have hloop : readRowLoop rd k (readRow rd (List.range' (k + 1) j)) (List.range' 1 n) vars st =
          some (storeFrom (w :: ws) k vars, ⟨st.rowsParsed, min j (ws.length + 1), proc⟩) :=
        readRowLoop_take h hmarks hd hw (Nat.le_add_right c d) hempty hcall rfl hfinal
      refine ⟨proc, ?_, ?_, hfinal⟩
      · rw [hloop]
        simp only [bind, Option.bind, pure, List.length_cons]
        -- only the outermost level can see the count that means success
        by_cases hfull : n ≤ min (j + 1) (ws.length + 1 + 1)
        · rw [if_pos (by omega), if_pos hfull, decide_eq_true hfull]
        · rw [if_neg (by omega), if_neg hfull, decide_eq_false hfull]
          rw [show min j (ws.length + 1) + 1 = min (j + 1) (ws.length + 1 + 1) by omega]
      · intro p hp
        rcases hold p hp with hin | heq
        · rcases List.mem_cons.mp hin with rfl | hin
          · exact Or.inr rfl
          · exact Or.inl hin
        · exact Or.inr heq

/-- A call in front of a row whose columns are all there: what it takes, and how far it
gets. -/
theorem readRow_fresh (hn : 2 ≤ n) {r : Nat} {vs : List Str} {st : Statics} (hst : AtRow r st)
    (h : RowOf rd n r vs) (vars : Vars) :
    ∃ proc, readRow rd (List.range n) vars st =
        some (decide (n ≤ (taken vs).length + 1), storeFrom (taken vs) 0 vars,
          if n ≤ (taken vs).length + 1 then ⟨r + 1, 0, proc⟩
          else ⟨r, (taken vs).length + 1, proc⟩) ∧
      (∀ p ∈ proc, p.1 ≤ r + 1) ∧ Marked vs n ⟨r, 0, proc⟩ := by
  rcases hst with ⟨rfl, hret, hmarks⟩
  have hfresh : Marked vs 0 st := by
    intro i
    constructor
    · intro hm
      exact absurd (hmarks _ hm) (by simp)
    · rintro ⟨hi, -⟩
      omega
  have hle : (taken vs).length ≤ n := by
    rw [← h.width]
    exact List.length_filter_le _ _
  rcases readRow_level hn n (taken vs) 0 0 vars st (by omega) (by rw [List.drop_zero]) hle h hret
    hfresh with ⟨proc, hcall, hold, hdone⟩
  refine ⟨proc, ?_, ?_, hdone⟩
  · rw [List.range_eq_range', hcall]
    -- at most one cell of the row is empty, or some columns stay
    by_cases hfull : n ≤ (taken vs).length + 1
    · rw [if_pos hfull, if_pos (by omega), decide_eq_true hfull, decide_eq_true (by omega)]
    · rw [if_neg hfull, if_neg (by omega), decide_eq_false hfull, decide_eq_false (by omega),
        Nat.min_eq_right (by omega)]
  · intro p hp
    rcases hold p hp with hin | heq
    · exact Nat.le_succ_of_le (hmarks p hin)
    · exact Nat.le_of_eq heq

/-- A call in front of a row of which at most one cell is empty delivers the cells
that are not. -/
theorem readRow_next (h : Tabled rd n rows) (hn : 2 ≤ n) {r : Nat} {vs : List Str} {st : Statics}
    (hst : AtRow r st) (hrow : rows[r]? = some vs) (hfull : n ≤ (taken vs).length + 1)
    (vars : Vars) :
    ∃ st', readRow rd (List.range n) vars st = some (true, storeFrom (taken vs) 0 vars, st') ∧
      AtRow (r + 1) st' := by
  rcases readRow_fresh hn hst (h.rowOf hrow) vars with ⟨proc, hcall, hmarks, -⟩
  rw [if_pos hfull, decide_eq_true hfull] at hcall
  exact ⟨_, hcall, rfl, rfl, hmarks⟩

/-- A full row is delivered as it is. -/
theorem Holds.readRow_next (h : Holds rd n rows) (hn : 2 ≤ n) {r : Nat} {vs : List Str}
    {st : Statics} (hst : AtRow r st) (hrow : rows[r]? = some vs) (vars : Vars) :
    ∃ st', readRow rd (List.range n) vars st = some (true, storeFrom vs 0 vars, st') ∧
      AtRow (r + 1) st' := by
  have hmem := List.mem_of_getElem? hrow
  have htaken := taken_of_filled (h.filled vs hmem)
  have hlen := h.width vs hmem
  have := Csv.readRow_next h.toTabled hn hst hrow (by rw [htaken]; omega) vars
  rwa [htaken] at this

/-- A call in which no column yields anything leaves with `false`, one level
deep. -/
theorem readRow_end {r : Nat} (hcount : rd.rowsCount = r) (hcols : rd.colsCount = n)
    (hn : 2 ≤ n) {st : Statics} (hst : AtRow r st) (vars : Vars) :
    readRow rd (List.range n) vars st = some (false, vars, { st with retParsedCols := 1 }) := by
  obtain ⟨hr, hret, -⟩ := hst
  obtain ⟨j, rfl⟩ : ∃ j, n = j + 1 := ⟨n - 1, by omega⟩
  rw [List.range_eq_range', List.range'_succ, readRow]
  split
  · rw [readRowLoop_skip fun c _ => readCsvHelper_beyond (by omega)]
    simp only [bind, Option.bind, hret, hcols]
    rw [if_neg (by omega)]
    rfl
  · rw [hret]

theorem of_drop_eq_cons {α : Type} {l : List α} {r : Nat} {a : α} {rest : List α}
    (hdrop : l.drop r = a :: rest) :
    r < l.length ∧ l[r]? = some a ∧ l.drop (r + 1) = rest := by
  refine ⟨?_, ?_, ?_⟩
  · have := congrArg List.length hdrop
    rw [List.length_drop, List.length_cons] at this
    omega
  · have := congrArg (·[0]?) hdrop
    simpa using this
  · rw [← List.drop_drop, hdrop, List.drop_one, List.tail_cons]

/-- **Row by row.** The remaining rows come out one after the other, each call
returning `true`, and the call behind the last one returns `false`. -/
theorem readRowTimes_from (h : Holds rd n rows) (hn : 2 ≤ n) (rest : List (List Str)) :
    ∀ (vars : Vars) {r : Nat} {st : Statics}, rows.drop r = rest → AtRow r st → r ≤ rows.length →
      ∃ vars' st', readRowTimes rd n (rest.length + 1) vars st =
        some (rest.map (fun vs => (true, vs)) ++
          [(false, (rest.getLast?).getD ((List.range n).map vars))], vars', st') := by
  induction rest with
  | nil =>
    intro vars r st hdrop hst hr
    obtain rfl : r = rows.length := Nat.le_antisymm hr (List.drop_eq_nil_iff.mp hdrop)
    refine ⟨vars, { st with retParsedCols := 1 }, ?_⟩
    rw [List.length_nil, Nat.zero_add, readRowTimes, readRow_end h.count h.cols hn hst vars]
    rfl
  | cons vs rest ih =>
    intro vars r st hdrop hst hr
    obtain ⟨hlt, hrow, hdrop'⟩ := of_drop_eq_cons hdrop
    obtain ⟨st₁, hcall, hst₁⟩ := h.readRow_next hn hst hrow vars
    obtain ⟨vars', st', hrest⟩ := ih (storeFrom vs 0 vars) hdrop' hst₁ hlt
    have hlen : vs.length = n := h.width vs (List.mem_of_getElem? hrow)
    -- the row fills all variables
    have hshow : (List.range n).map (storeFrom vs 0 vars) = vs := by
      rw [← hlen, storeFrom_zero_map]
    refine ⟨vars', st', ?_⟩
    rw [List.length_cons, readRowTimes]
    simp only [hcall, hrest, bind, Option.bind, pure, hshow, List.map_cons, List.cons_append]
    cases rest <;> simp [List.getLast?_cons]

/-- The loop `while (read_row(...))` over a table hands every row to its body. -/
theorem readAllFuel_from (h : Holds rd n rows) (hn : 2 ≤ n) (rest : List (List Str)) :
    ∀ (vars : Vars) {r fuel : Nat} {st : Statics}, rows.drop r = rest → AtRow r st →
      r ≤ rows.length → rest.length < fuel →
      ∃ st', readAllFuel rd n fuel vars st = some (rest, st') := by
  induction rest with
  | nil =>
    intro vars r fuel st hdrop hst hr hfuel
    obtain rfl : r = rows.length := Nat.le_antisymm hr (List.drop_eq_nil_iff.mp hdrop)
    obtain ⟨fuel, rfl⟩ : ∃ f, fuel = f + 1 := ⟨fuel - 1, by omega⟩
    refine ⟨{ st with retParsedCols := 1 }, ?_⟩
    -- behind the last row the first call returns `false`
    rw [readAllFuel, readRow_end h.count h.cols hn hst vars]
    rfl
  | cons vs rest ih =>
    intro vars r fuel st hdrop hst hr hfuel
    obtain ⟨fuel, rfl⟩ : ∃ f, fuel = f + 1 := ⟨fuel - 1, by omega⟩
    obtain ⟨hlt, hrow, hdrop'⟩ := of_drop_eq_cons hdrop
    obtain ⟨st₁, hcall, hst₁⟩ := h.readRow_next hn hst hrow vars
    obtain ⟨st', hrest⟩ := ih (storeFrom vs 0 vars) hdrop' hst₁ hlt
      (by simpa using hfuel)
    have hlen : vs.length = n := h.width vs (List.mem_of_getElem? hrow)
    refine ⟨st', ?_⟩
    have hshow : (List.range n).map (storeFrom vs 0 vars) = vs := by
      rw [← hlen, storeFrom_zero_map]
    rw [readAllFuel, hcall]
    simp only [bind, Option.bind, if_true, hrest, pure, hshow]

end Reading

end FyreDL.Csv
