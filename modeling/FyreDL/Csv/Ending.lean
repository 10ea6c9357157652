import FyreDL.Csv.Text

/-!
# FyreDL.Csv.Ending — when reading comes to an end

`read_csv_helper` scans the cells for a row and a column inside a loop whose condition it
does not change, so that it never returns when there is no such cell.

* `readRow_missing` — a call in front of a row that lacks a column does not return: some
  level of its recursion looks for the column.
* `readRow_returns` — a call on a reader without such a row returns, in any state.
* `reach_next_row` — with two empty cells in a row it takes several calls to get behind it;
  so the calls reach the first row that lacks a column (`readRowTimes_hang`).
* `readRow_ends_iff` — all calls return exactly if no line has a field, or every line has
  a field for each column.
-/

namespace FyreDL.Csv

open Lib

/-! ## The cells of a text -/

theorem find_parseLine {n row : Nat} (vs : List Str) {k : Nat} (hk : k < n) :
    ∀ {col : Nat}, col ≤ k → (parseLine n row col vs).find? (Cell.isAt row (k + 1)) =
      (vs[k - col]?).map fun v => ⟨row, k + 1, v⟩ := by
  induction vs with
  | nil =>
    intro col _
    rfl
  | cons v vs ih =>
    intro col hcol
    -- the column is at most `k`, so that the counter does not start over
    have hcell : parseLine n row col (v :: vs) =
        ⟨row, col + 1, v⟩ :: parseLine n row (col + 1) vs := by
      rw [parseLine, if_neg (by omega)]
    rw [hcell]
    rcases Nat.eq_or_lt_of_le hcol with rfl | hlt
    · rw [List.find?_cons_of_pos (by simp [Cell.isAt]), Nat.sub_self]
      rfl
    · rw [List.find?_cons_of_neg (by simp [Cell.isAt]; omega), ih hlt,
        show k - col = (k - (col + 1)) + 1 by omega, List.getElem?_cons_succ]

theorem find_parseLine_other {n row row' c : Nat} (h : row ≠ row') (vs : List Str) :
    ∀ {col : Nat}, (parseLine n row col vs).find? (Cell.isAt row' c) = none := by
  induction vs with
  | nil =>
    intro col
    rfl
  | cons v vs ih =>
    intro col
    rw [parseLine, List.find?_cons_of_neg (by simp [Cell.isAt, h]), ih]

theorem find_parseLines_later {n row row' c : Nat} (h : row' < row) (lines : List Str) :
    (parseLines n row lines).find? (Cell.isAt row' c) = none := by
  induction lines generalizing row with
  | nil => rfl
  | cons line lines ih =>
    rw [parseLines, List.find?_append, find_parseLine_other (by omega), ih (by omega)]
    rfl

/-- The first cell in a column of a line is the field with its number. -/
theorem find_parseLines {n row k : Nat} (hk : k < n) {lines : List Str} {r : Nat} {line : Str}
    (hline : lines[r]? = some line) :
    (parseLines n row lines).find? (Cell.isAt (row + r) (k + 1)) =
      ((getlines ',' line)[k]?).map fun v => ⟨row + r, k + 1, v⟩ := by
  induction lines generalizing row r with
  | nil => cases hline
  | cons first lines ih =>
    rw [parseLines, List.find?_append]
    cases r with
    | zero =>
      -- the line itself: the later ones have other row numbers
      rw [List.getElem?_cons_zero, Option.some.injEq] at hline
      have hhere := @find_parseLine n row (getlines ',' first) k hk 0 (Nat.zero_le k)
      rw [Nat.sub_zero, hline] at hhere
      rw [Nat.add_zero, find_parseLines_later (by omega), Option.or_none, hline, hhere]
    | succ r =>
      rw [find_parseLine_other (by omega), Option.none_or]
      have hrest := @ih (row + 1) r hline
      rwa [Nat.add_right_comm row 1 r] at hrest

theorem parseLines_eq_nil {n : Nat} {lines : List Str} :
    ∀ {row : Nat}, parseLines n row lines = [] ↔ ∀ line ∈ lines, getlines ',' line = [] := by
  have hline : ∀ {row col : Nat} {vs : List Str}, parseLine n row col vs = [] ↔ vs = [] := by
    intro row col vs
    cases vs with
    | nil => simp [parseLine]
    | cons v vs => simp [parseLine]
  induction lines with
  | nil => simp [parseLines]
  | cons line lines ih =>
    intro row
    rw [parseLines, List.append_eq_nil_iff, hline, ih, List.forall_mem_cons]

/-! ## A column that is missing -/

section Missing

variable {rd : GkCsvReader} {r c : Nat}

/-- There is no cell in the column of the row. -/
structure Missing (rd : GkCsvReader) (r c : Nat) : Prop where
  inside : r < rd.rowsCount
  positive : 1 ≤ c
  column : c ≤ rd.colsCount
  none : rd.csvData.find? (Cell.isAt (r + 1) c) = none

theorem readCsvHelper_missing (h : Missing rd r c) (hne : rd.csvData ≠ []) {st : Statics}
    (hrow : st.rowsParsed = r) (hmark : (r + 1, c) ∉ st.procCols) :
    readCsvHelper rd c (st.rowsParsed + 1) st = none := by
  have hinside := h.inside
  have hpositive := h.positive
  rw [hrow, readCsvHelper, if_neg (by omega), if_neg hne, if_pos ⟨by omega, h.column⟩,
    scanCells_find hmark, h.none]
  rfl

/-- Another column of the row is marked at most. -/
theorem readCsvHelper_marks {col : Nat} {st st' : Statics} {data : Str}
    (h : readCsvHelper rd col (st.rowsParsed + 1) st = some (data, st')) :
    st'.rowsParsed = st.rowsParsed ∧
      ∀ p ∈ st'.procCols, p ∈ st.procCols ∨ p = (st.rowsParsed + 1, col) := by
  refine ⟨readCsvHelper_rowsParsed h, ?_⟩
  unfold readCsvHelper at h
  split at h
  · cases h
    exact fun p hp => .inl hp
  · split at h
    · cases h
      exact fun p hp => .inl hp
    · split at h
      · rcases Option.map_eq_some_iff.mp h with ⟨⟨value, proc⟩, hscan, heq⟩
        cases heq
        intro p hp
        -- a column that is marked already is not marked again
        by_cases hin : (st.rowsParsed + 1, col) ∈ st.procCols
        · rw [scanCells_processed (by assumption) hin] at hscan
          cases hscan
          exact .inl hp
        · rw [scanCells_find hin] at hscan
          rcases Option.map_eq_some_iff.mp hscan with ⟨cell, -, hcell⟩
          split at hcell
          · cases hcell
            rcases List.mem_cons.mp hp with rfl | hold
            · exact .inr rfl
            · exact .inl hold
          · cases hcell
            exact .inl hp
      · cases h
        exact fun p hp => .inl hp

/-- The loop of a level does not get past the column, if the level below either hangs or
has no variable to fill. -/
theorem readRowLoop_missing (h : Missing rd r c) (hne : rd.csvData ≠ []) {var : Nat}
    {next : Vars → Statics → Option (Bool × Vars × Statics)}
    (hnext : ∀ vars st, st.rowsParsed = r → (r + 1, c) ∉ st.procCols →
      next vars st = none ∨ next vars st = some (false, vars, st)) {cols : List Nat}
    (hcols : c ∈ cols) :
    ∀ {vars : Vars} {st : Statics}, st.rowsParsed = r → (r + 1, c) ∉ st.procCols →
      readRowLoop rd var next cols vars st = none := by
  induction cols with
  | nil => exact absurd hcols List.not_mem_nil
  | cons col cols ih =>
    intro vars st hrow hmark
    rw [readRowLoop]
    -- the missing column hangs; another one is marked at most, and the loop goes on
    by_cases hcol : col = c
    · rw [hcol, readCsvHelper_missing h hne hrow hmark]
      rfl
    · have hin : c ∈ cols := (List.mem_cons.mp hcols).resolve_left fun heq => hcol heq.symm
      cases hread : readCsvHelper rd col (st.rowsParsed + 1) st with
      | none => rfl
      | some p =>
        rcases p with ⟨data, st₁⟩
        rcases readCsvHelper_marks hread with ⟨hrow₁, hmarks₁⟩
        have hstill : (r + 1, c) ∉ st₁.procCols := by
          intro hp
          rcases hmarks₁ _ hp with hold | heq
          · exact hmark hold
          · exact hcol (Prod.mk.inj heq).2.symm
        rw [hrow] at hrow₁
        simp only [bind, Option.bind]
        split
        · exact ih hin hrow₁ hstill
        · rcases hnext (Function.update vars var data) st₁ hrow₁ hstill with hhang | hback
          · rw [hhang]
          · rw [hback]
            exact ih hin hrow₁ hstill

/-- **A call in front of the row does not return.** The induction is on the variables: a level
that does not hang itself hands over to one that has fewer of them. -/
theorem readRow_missing (h : Missing rd r c) (hne : rd.csvData ≠ []) (vs : List Nat) :
    vs ≠ [] → ∀ (vars : Vars) {st : Statics}, st.rowsParsed = r → (r + 1, c) ∉ st.procCols →
      readRow rd vs vars st = none := by
  induction vs with
  | nil =>
    intro hnil
    exact absurd rfl hnil
  | cons var rest ih =>
    intro _ vars st hrow hmark
    have hinside := h.inside
    have hcolumn := h.column
    have hpositive := h.positive
    have hcols : c ∈ List.range' 1 rd.colsCount := by
      rw [List.mem_range'_1]
      omega
    -- the level below has a variable left, or it is `read_row()`
    have hnext : ∀ vars st, st.rowsParsed = r → (r + 1, c) ∉ st.procCols →
        readRow rd rest vars st = none ∨ readRow rd rest vars st = some (false, vars, st) := by
      intro vars st hrow hmark
      by_cases hrest : rest = []
      · right
        rw [hrest]
        rfl
      · left
        exact ih hrest vars hrow hmark
    rw [readRow, if_pos ⟨hne, by omega⟩, readRowLoop_missing h hne hnext hcols hrow hmark]
    rfl

/-- No column is missing, or there is no cell at all. -/
def NoneMissing (rd : GkCsvReader) : Prop := rd.csvData = [] ∨ ∀ r c, ¬ Missing rd r c

theorem noneMissing_of_rows {n : Nat} (h : ∀ r < rd.rowsCount, ∃ vs, RowOf rd n r vs) :
    NoneMissing rd := by
  right
  intro r c hmiss
  rcases h r hmiss.inside with ⟨vs, hrow⟩
  have hc : c - 1 < n := by
    have hcolumn := hmiss.column
    have hpositive := hmiss.positive
    rw [hrow.cols] at hcolumn
    omega
  have hcell := hrow.cell (List.getElem?_eq_getElem (hrow.width.symm ▸ hc))
  rw [Nat.sub_add_cancel hmiss.positive, hmiss.none] at hcell
  cases hcell

theorem readCsvHelper_returns (h : NoneMissing rd) (colNo rowNo : Nat) (st : Statics) :
    readCsvHelper rd colNo rowNo st ≠ none := by
  unfold readCsvHelper
  by_cases hzero : colNo = 0 ∨ rowNo = 0
  · rw [if_pos hzero]
    exact Option.some_ne_none _
  by_cases hnil : rd.csvData = []
  · rw [if_neg hzero, if_pos hnil]
    exact Option.some_ne_none _
  by_cases hinside : rowNo ≤ rd.rowsCount ∧ colNo ≤ rd.colsCount
  · rw [if_neg hzero, if_neg hnil, if_pos hinside, ne_eq, Option.map_eq_none_iff]
    intro hscan
    by_cases hmark : (rowNo, colNo) ∈ st.procCols
    · rw [scanCells_processed hnil hmark] at hscan
      cases hscan
    · -- the scan has found no cell
      rw [scanCells_find hmark, Option.map_eq_none_iff] at hscan
      obtain ⟨r, rfl⟩ : ∃ r, rowNo = r + 1 := ⟨rowNo - 1, by omega⟩
      exact h.resolve_left hnil r colNo ⟨by omega, by omega, hinside.2, hscan⟩
  · rw [if_neg hzero, if_neg hnil, if_neg hinside]
    exact Option.some_ne_none _

theorem readRowLoop_returns (h : NoneMissing rd) {var : Nat}
    {next : Vars → Statics → Option (Bool × Vars × Statics)}
    (hnext : ∀ vars st, next vars st ≠ none) (cols : List Nat) (vars : Vars) (st : Statics) :
    readRowLoop rd var next cols vars st ≠ none := by
  induction cols generalizing vars st with
  | nil => exact Option.some_ne_none _
  | cons col cols ih =>
    rcases Option.ne_none_iff_exists'.mp (readCsvHelper_returns h col (st.rowsParsed + 1) st) with
      ⟨⟨data, st₁⟩, hread⟩
    rw [readRowLoop, hread]
    simp only [bind, Option.bind]
    split
    · exact ih vars st₁
    · rcases Option.ne_none_iff_exists'.mp (hnext (Function.update vars var data) st₁) with
        ⟨⟨b, vars₂, st₂⟩, hcall⟩
      rw [hcall]
      exact ih vars₂ st₂

/-- **A call returns**, in whatever state the statics are. -/
theorem readRow_returns (h : NoneMissing rd) (vs : List Nat) :
    ∀ (vars : Vars) (st : Statics), readRow rd vs vars st ≠ none := by
  induction vs with
  | nil =>
    intro vars st
    exact Option.some_ne_none _
  | cons var rest ih =>
    intro vars st
    rw [readRow]
    -- behind the loop every branch returns
    split
    · rcases Option.ne_none_iff_exists'.mp
        (readRowLoop_returns h ih (List.range' 1 rd.colsCount) vars st) with ⟨⟨vars₁, st₁⟩, hloop⟩
      rw [hloop]
      simp only [bind, Option.bind]
      split
      · exact Option.some_ne_none _
      · exact Option.some_ne_none _
    · exact Option.some_ne_none _

theorem readRowTimes_returns {n : Nat} (h : NoneMissing rd) (calls : Nat) (vars : Vars)
    (st : Statics) : readRowTimes rd n calls vars st ≠ none := by
  induction calls generalizing vars st with
  | zero => exact Option.some_ne_none _
  | succ calls ih =>
    rcases Option.ne_none_iff_exists'.mp (readRow_returns h (List.range n) vars st) with
      ⟨⟨b, vars₁, st₁⟩, hcall⟩
    rcases Option.ne_none_iff_exists'.mp (ih vars₁ st₁) with ⟨rest, hrest⟩
    rw [readRowTimes, hcall]
    simp only [bind, Option.bind, hrest]
    exact Option.some_ne_none _

end Missing

/-! ## Rows that are complete -/

section Complete

variable {rd : GkCsvReader} {n : Nat}

/-- A call that finds nothing goes one level deep. -/
theorem readRow_idle {st : Statics} (hne : rd.csvData ≠ []) (hle : st.rowsParsed ≤ rd.rowsCount)
    (hcols : ∀ c ∈ List.range' 1 rd.colsCount,
      readCsvHelper rd c (st.rowsParsed + 1) st = some ([], st)) (hn : 1 ≤ n) (vars : Vars) :
    readRow rd (List.range n) vars st =
      some (if st.retParsedCols + 1 = rd.colsCount then
        (true, vars, { st with retParsedCols := 0, rowsParsed := st.rowsParsed + 1 })
        else (false, vars, { st with retParsedCols := st.retParsedCols + 1 })) := by
  rcases Nat.exists_eq_add_of_le' hn with ⟨j, rfl⟩
  rw [List.range_eq_range', List.range'_succ, readRow, if_pos ⟨hne, hle⟩,
    readRowLoop_skip hcols]
  simp only [bind, Option.bind]
  split
  · rfl
  · rfl

/-- A row of which nothing is left to take. -/
structure Taken (rd : GkCsvReader) (n : Nat) (st : Statics) : Prop where
  marks : ∀ p ∈ st.procCols, p.1 ≤ st.rowsParsed + 1
  row : ∃ vs, RowOf rd n st.rowsParsed vs ∧ Marked vs n st

/-- A call in front of it only counts. -/
theorem readRow_taken (hn : 2 ≤ n) {st : Statics} (h : Taken rd n st) (vars : Vars) :
    readRow rd (List.range n) vars st =
      some (if st.retParsedCols + 1 = n then
        (true, vars, { st with retParsedCols := 0, rowsParsed := st.rowsParsed + 1 })
        else (false, vars, { st with retParsedCols := st.retParsedCols + 1 })) := by
  rcases h.row with ⟨vs, hrow, hmarked⟩
  have hidle := readRow_idle (hrow.csvData_ne_nil (by omega)) (Nat.le_of_lt hrow.inside) (by
    intro c hc
    rw [List.mem_range'_1, hrow.cols] at hc
    obtain ⟨i, rfl⟩ : ∃ i, c = i + 1 := ⟨c - 1, by omega⟩
    exact readCsvHelper_done hrow hmarked (by omega) (.inl (by omega))) (show 1 ≤ n by omega) vars
  rwa [hrow.cols] at hidle

/-- What a first call leaves of a row: it is behind it, or nothing is left to take. -/
theorem readRow_fresh_cases (hn : 2 ≤ n) {r : Nat} {vs : List Str} {st : Statics}
    (hst : AtRow r st) (h : RowOf rd n r vs) (vars : Vars) :
    ∃ b vars' st', readRow rd (List.range n) vars st = some (b, vars', st') ∧
      (AtRow (r + 1) st' ∨
        (Taken rd n st' ∧ st'.rowsParsed = r ∧ st'.retParsedCols < n)) := by
  rcases readRow_fresh hn hst h vars with ⟨proc, hcall, hmarks, hmarked⟩
  refine ⟨_, _, _, hcall, ?_⟩
  by_cases hfull : n ≤ (taken vs).length + 1
  · rw [if_pos hfull]
    exact .inl ⟨rfl, rfl, hmarks⟩
  · rw [if_neg hfull]
    refine .inr ⟨⟨hmarks, vs, h, hmarked⟩, rfl, ?_⟩
    exact Nat.lt_of_not_le hfull

/-- Calls that return one after the other. -/
theorem readRowTimes_none {k k' : Nat} {vars vars' : Vars} {st st' : Statics}
    {out : List (Bool × List Str)} (h : readRowTimes rd n k vars st = some (out, vars', st'))
    (h' : readRowTimes rd n k' vars' st' = none) :
    readRowTimes rd n (k + k') vars st = none := by
  induction k generalizing vars st out with
  | zero =>
    cases h
    rw [Nat.zero_add]
    exact h'
  | succ k ih =>
    rw [readRowTimes] at h
    rcases Option.bind_eq_some_iff.mp h with ⟨⟨b, vars₁, st₁⟩, hcall, hrest⟩
    rcases Option.bind_eq_some_iff.mp hrest with ⟨⟨rest, vars₂, st₂⟩, htimes, heq⟩
    cases heq
    rw [Nat.add_right_comm, readRowTimes, hcall]
    simp only [bind, Option.bind]
    rw [ih htimes]

/-- Calls on a row of which nothing is left count up to the number of columns, and then the
next row is reached. -/
theorem reach_next_row (hn : 2 ≤ n) {st : Statics} (h : Taken rd n st)
    (hlt : st.retParsedCols < n) (vars : Vars) :
    ∃ calls out vars' st', readRowTimes rd n calls vars st = some (out, vars', st') ∧
      AtRow (st.rowsParsed + 1) st' := by
  obtain ⟨left, hleft⟩ : ∃ left, n = st.retParsedCols + 1 + left := ⟨n - st.retParsedCols - 1,
    by omega⟩
  induction left generalizing st vars with
  | zero =>
    -- the last of the calls: the count means success
    have hcall := readRow_taken hn h vars
    rw [if_pos (by omega)] at hcall
    have htimes : readRowTimes rd n 1 vars st = some ([(true, (List.range n).map vars)], vars,
        { st with retParsedCols := 0, rowsParsed := st.rowsParsed + 1 }) := by
      rw [readRowTimes, hcall]
      rfl
    exact ⟨1, _, _, _, htimes, rfl, rfl, h.marks⟩
  | succ left ih =>
    -- a call before it only counts
    have hcall := readRow_taken hn h vars
    rw [if_neg (by omega)] at hcall
    have hnext : Taken rd n { st with retParsedCols := st.retParsedCols + 1 } :=
      ⟨h.marks, h.row⟩
    have hcount : n = st.retParsedCols + 1 + 1 + left := by omega
    rcases ih hnext (show st.retParsedCols + 1 < n by omega) vars hcount with
      ⟨calls, out, vars', st', htimes, hat⟩
    refine ⟨calls + 1, (false, (List.range n).map vars) :: out, vars', st', ?_, hat⟩
    rw [readRowTimes, hcall]
    simp only [bind, Option.bind, htimes]
    rfl

/-- The first call in front of a row with a missing column. -/
theorem AtRow.readRow_missing (hn : 2 ≤ n) (hne : rd.csvData ≠ []) {r c : Nat}
    (hmiss : Missing rd r c) {st : Statics} (hst : AtRow r st) (vars : Vars) :
    readRow rd (List.range n) vars st = none := by
  have hmark : (r + 1, c) ∉ st.procCols := fun hp => absurd (hst.marks _ hp) (by simp)
  have hvars : List.range n ≠ [] := by
    intro hnil
    rw [List.range_eq_nil] at hnil
    omega
  exact Csv.readRow_missing hmiss hne _ hvars vars hst.parsed hmark

theorem readRowTimes_missing (hn : 2 ≤ n) (hne : rd.csvData ≠ []) {r c : Nat}
    (hmiss : Missing rd r c) {st : Statics} (hst : AtRow r st) (vars : Vars) :
    readRowTimes rd n 1 vars st = none := by
  rw [readRowTimes, hst.readRow_missing hn hne hmiss]
  rfl

/-- The calls reach a row with a missing column, if not an earlier one, and hang there. The
induction is on the rows in front of it. -/
theorem readRowTimes_hang (hn : 2 ≤ n) (hne : rd.csvData ≠ [])
    (hrows : ∀ r < rd.rowsCount, (∃ vs, RowOf rd n r vs) ∨ ∃ c, Missing rd r c) {m c : Nat}
    (hmiss : Missing rd m c) (before : Nat) {r : Nat} (hr : r + before = m) {st : Statics}
    (hst : AtRow r st) (vars : Vars) : ∃ calls, readRowTimes rd n calls vars st = none := by
  induction before generalizing r st vars with
  | zero =>
    rw [Nat.add_zero] at hr
    exact ⟨1, readRowTimes_missing hn hne (hr ▸ hmiss) hst vars⟩
  | succ before ih =>
    rcases hrows r (by have := hmiss.inside; omega) with ⟨vs, hrow⟩ | ⟨c', hc'⟩
    · rcases readRow_fresh_cases hn hst hrow vars with
        ⟨b, vars₁, st₁, hcall, hnext | ⟨htaken, hparsed, hcount⟩⟩
      · -- the first call has finished the row
        rcases ih (r := r + 1) (by omega) hnext vars₁ with ⟨calls, hnone⟩
        refine ⟨calls + 1, ?_⟩
        rw [readRowTimes, hcall]
        simp only [bind, Option.bind, hnone]
      · -- further calls count up to the next row
        rcases reach_next_row hn htaken hcount vars₁ with ⟨k, out, vars₂, st₂, htimes, hat⟩
        rw [hparsed] at hat
        rcases ih (r := r + 1) (by omega) hat vars₂ with ⟨calls, hnone⟩
        refine ⟨k + calls + 1, ?_⟩
        rw [readRowTimes, hcall]
        simp only [bind, Option.bind, readRowTimes_none htimes hnone]
    · exact ⟨1, readRowTimes_missing hn hne hc' hst vars⟩

/-- If every call returns, the loop around them ends: each `true` moves `rows_parsed` on. -/
theorem readAllFuel_ends (fuel : Nat) {st : Statics} {vars : Vars}
    (hcalls : ∀ calls, readRowTimes rd n calls vars st ≠ none)
    (hfuel : rd.rowsCount + 1 - st.rowsParsed < fuel) : readAllFuel rd n fuel vars st ≠ none := by
  induction fuel generalizing st vars with
  | zero => omega
  | succ fuel ih =>
    rw [readAllFuel]
    cases hcall : readRow rd (List.range n) vars st with
    | none =>
      have hfirst := hcalls 1
      rw [readRowTimes, hcall] at hfirst
      exact absurd rfl hfirst
    | some p =>
      rcases p with ⟨b, vars₁, st₁⟩
      cases b with
      | false =>
        intro hnone
        cases hnone
      | true =>
        -- the call returned `true`: a row fewer is left, and fewer rounds are enough
        rcases readRow_rowsParsed _ hcall with ⟨-, hmove⟩
        rcases hmove rfl with ⟨hlt, hle⟩
        have hcalls₁ : ∀ calls, readRowTimes rd n calls vars₁ st₁ ≠ none := by
          intro calls hnone
          apply hcalls (calls + 1)
          rw [readRowTimes, hcall]
          simp only [bind, Option.bind, hnone]
        rcases Option.ne_none_iff_exists'.mp (ih hcalls₁ (by omega)) with ⟨rest, hrest⟩
        simp only [bind, Option.bind, if_true, hrest]
        intro hnone
        cases hnone

end Complete

/-! ## Texts -/

/-- From this state on every call of `read_row` on `n` variables returns, and the loop
`while (read_row(...))` ends. -/
def AlwaysEnds (rd : GkCsvReader) (n : Nat) (st : Statics) : Prop :=
  ∀ vars, (∀ calls, readRowTimes rd n calls vars st ≠ none) ∧
    ∃ fuel, readAllFuel rd n fuel vars st ≠ none

/-- Behind the header line no line has a field, or every line has one for each column. -/
def FieldsComplete (n : Nat) (key : Bool) (text : Str) : Prop :=
  (∀ line ∈ dataLines key text, getlines ',' line = []) ∨
    ∀ line ∈ dataLines key text, n ≤ (getlines ',' line).length

section Texts

variable {n : Nat} {headers : List Str} {text : Str} {key : Bool} {rd : GkCsvReader}

/-- What the constructor makes of the lines of a text. -/
structure Parsed (rd : GkCsvReader) (n : Nat) (lines : List Str) : Prop where
  cells : rd.csvData = parseLines n 1 lines
  cols : rd.colsCount = n
  count : rd.rowsCount = lines.length

/-- A line with enough fields is a complete row, any other one lacks a column. -/
theorem Parsed.row {lines : List Str} (h : Parsed rd n lines) {r : Nat} {line : Str}
    (hline : lines[r]? = some line) (hn : n ≤ (getlines ',' line).length) :
    RowOf rd n r ((getlines ',' line).take n) where
  cols := h.cols
  inside := by
    rw [h.count]
    exact (List.getElem?_eq_some_iff.mp hline).1
  width := List.length_take_of_le hn
  cell := by
    intro k v hv
    rw [List.getElem?_take] at hv
    split at hv
    · rename_i hk
      rw [h.cells, Nat.add_comm r 1, find_parseLines hk hline, hv]
      rfl
    · cases hv

theorem Parsed.missing {lines : List Str} (h : Parsed rd n lines) {r : Nat} {line : Str}
    (hline : lines[r]? = some line) (hn : (getlines ',' line).length < n) :
    Missing rd r ((getlines ',' line).length + 1) where
  inside := by
    rw [h.count]
    exact (List.getElem?_eq_some_iff.mp hline).1
  positive := Nat.le_add_left 1 _
  column := by
    rw [h.cols]
    exact hn
  none := by
    rw [h.cells, Nat.add_comm r 1, find_parseLines hn hline,
      List.getElem?_eq_none (Nat.le_refl _)]
    rfl

theorem Parsed.noneMissing {lines : List Str} (h : Parsed rd n lines)
    (hlines : (∀ line ∈ lines, getlines ',' line = []) ∨
      ∀ line ∈ lines, n ≤ (getlines ',' line).length) : NoneMissing rd := by
  rcases hlines with hblank | hfull
  · left
    rw [h.cells, parseLines_eq_nil]
    exact hblank
  · refine @noneMissing_of_rows rd n ?_
    intro r hr
    rw [h.count] at hr
    exact ⟨_, h.row (List.getElem?_eq_getElem hr) (hfull _ (List.getElem_mem hr))⟩

/-- **When reading ends.** For a text with a line feed and two columns or more: every call
returns and the loop around them ends exactly if behind the header line no line has a
field, or every line has one for each column. -/
theorem readRow_ends_iff (hn : 2 ≤ n) (hheaders : headers.length = n) (hlf : '\n' ∈ text)
    (key : Bool) (columnCount : Nat) (st : Statics) :
    ∃ rd st₀, GkCsvReader.make columnCount key text headers st = .ok (rd, st₀) ∧
      (AlwaysEnds rd n st₀ ↔ FieldsComplete n key text) := by
  refine ⟨_, _, make_eq key columnCount headers st hlf, ?_⟩
  rw [hheaders]
  generalize hrd : (⟨text, n, (dataLines key text).length, key, headers,
    parseLines n 1 (dataLines key text)⟩ : GkCsvReader) = rd
  have hparsed : Parsed rd n (dataLines key text) := by
    rw [← hrd]
    exact ⟨rfl, rfl, rfl⟩
  constructor
  · intro hends
    by_contra hnot
    rw [FieldsComplete, not_or] at hnot
    -- a line with a field, and a line without one for each column
    have hne : rd.csvData ≠ [] := by
      rw [hparsed.cells, ne_eq, parseLines_eq_nil]
      exact hnot.1
    rcases not_forall₂.mp hnot.2 with ⟨line, hline, hshort⟩
    rcases List.mem_iff_getElem?.mp hline with ⟨m, hm⟩
    -- each line is a complete row or lacks a column
    have hrows : ∀ r < rd.rowsCount, (∃ vs, RowOf rd n r vs) ∨ ∃ c, Missing rd r c := by
      intro r hr
      rw [hparsed.count] at hr
      have hrow := List.getElem?_eq_getElem hr
      rcases Nat.lt_or_ge (getlines ',' (dataLines key text)[r]).length n with hlt | hge
      · exact .inr ⟨_, hparsed.missing hrow hlt⟩
      · exact .inl ⟨_, hparsed.row hrow hge⟩
    rcases readRowTimes_hang hn hne hrows (hparsed.missing hm (Nat.lt_of_not_le hshort)) m
      (Nat.zero_add m) atRow_reset (fun _ => []) with ⟨calls, hnone⟩
    exact (hends _).1 calls hnone
  · intro hcomplete vars
    have hcalls : ∀ calls, readRowTimes rd n calls vars Statics.reset ≠ none := fun calls =>
      readRowTimes_returns (hparsed.noneMissing hcomplete) calls vars Statics.reset
    exact ⟨hcalls, _, readAllFuel_ends _ hcalls (Nat.lt_succ_self _)⟩

end Texts

/-- Two columns, and a line with one field. -/
def shortLine : Str := "url,tier\nudp://a\n".toList

/-- The first call does not return. -/
theorem readRow_shortLine :
    ∃ rd st₀, GkCsvReader.make 2 false shortLine ["url".toList, "tier".toList] Statics.reset =
        .ok (rd, st₀) ∧
      (∀ vars, readRow rd [0, 1] vars st₀ = none) ∧ ¬ AlwaysEnds rd 2 st₀ := by
  refine ⟨_, _, rfl, fun vars => rfl, ?_⟩
  intro hends
  exact (hends fun _ => []).1 1 rfl

/-- With a second field it does, although the field in front of it is empty. -/
theorem readRow_ends_full_line :
    ∃ rd st₀, GkCsvReader.make 2 false "url,tier\n,0\n".toList ["url".toList, "tier".toList]
        Statics.reset = .ok (rd, st₀) ∧
      (AlwaysEnds rd 2 st₀ ↔ FieldsComplete 2 false "url,tier\n,0\n".toList) :=
  readRow_ends_iff (by decide) rfl (by decide) false 2 Statics.reset

end FyreDL.Csv
