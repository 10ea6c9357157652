import FyreDL.Lib.Getline
import FyreDL.Defaults

/-!
# FyreDL.Csv.Reader — `GkCsvReader`

The comma-separated-value parser of `csv.hpp` and `csv.cpp`, as the code computes
it. Three things make it unusual, and the model keeps all of them:

* `rows_parsed`, `ret_parsed_cols` and `proc_cols` are *static*: every reader
  works on the one `Statics`, which a construction over a non-empty text resets.
* `read_row(col, cols...)` recurses over its own arguments, and every level scans
  all columns of the current row again. A variable is passed by reference, so the
  variables are places of a `Vars`, and a level keeps the place it may write.
* `read_csv_helper` wraps its scan in `while (col_no <= cols_count)` without ever
  changing the condition. A scan that does not return is therefore repeated for
  ever: `none` in the result type is a call that does not return.

The two mutexes are left out: one thread at a time uses a reader, on which
`try_lock` always succeeds. Row and column counters are natural numbers.
-/

namespace FyreDL.Csv

open Lib

/-- A cell of the parsed text: row number, column number and value. -/
structure Cell where
  row : Nat
  col : Nat
  value : Str
deriving DecidableEq, Repr

/-- The static members of `GkCsvReader`. -/
structure Statics where
  rowsParsed : Nat
  retParsedCols : Nat
  procCols : List (Nat × Nat)
deriving DecidableEq, Repr

/-- The members of one `GkCsvReader` object. `csvData` is the `std::multimap`
in iteration order: by row, and by insertion within a row. -/
structure GkCsvReader where
  csvRawData : Str
  colsCount : Nat
  rowsCount : Nat
  key : Bool
  headers : List Str
  csvData : List Cell
deriving DecidableEq, Repr

/-! ## Parsing -/

/-- `search_string(raw_data, "\r\n")`. -/
def hasCrLf : Str → Bool
  | '\r' :: '\n' :: _ => true
  | _ :: rest => hasCrLf rest
  | [] => false

/-- The text that `std::invalid_argument` carries out of `read_rows`. -/
def noLineEndings : Str :=
  "Unable to find any suitable line-endings for the given CSV data!".toList

/-- `read_rows`: the lines of the text and the new value of `rows_count`, which
does not count the header line of a text that has one. -/
def readRows (key : Bool) (rowsCount : Nat) (rawData : Str) : Except Str (List Str × Nat) :=
  if rawData = [] then .ok ([], rowsCount)
  else if hasCrLf rawData then
    let lines := getlines '\n' (rawData.filter (· ≠ '\r'))
    .ok (lines, if key then lines.length else lines.length - 1)
  else if '\n' ∉ rawData then .error noLineEndings
  else
    let lines := getlines '\n' rawData
    .ok (lines, if key then lines.length else lines.length - 1)

/-- The inner loop of `parse_csv` on one line: the column counter starts over
behind the last column. -/
def parseLine (colsCount row : Nat) : Nat → List Str → List Cell
  | _, [] => []
  | col, csv :: rest =>
    let col := if col ≥ colsCount then 0 else col
    ⟨row, col + 1, csv⟩ :: parseLine colsCount row (col + 1) rest

/-- The outer loop of `parse_csv`, over the lines behind the header. -/
def parseLines (colsCount : Nat) : Nat → List Str → List Cell
  | _, [] => []
  | row, line :: rest =>
    parseLine colsCount row 0 (getlines ',' line) ++ parseLines colsCount (row + 1) rest

/-- `parse_csv`, with the `rows_count` that `read_rows` leaves behind. -/
def parseCsv (key : Bool) (colsCount rowsCount : Nat) (rawData : Str) :
    Except Str (List Cell × Nat) := do
  let (rows, rowsCount) ← readRows key rowsCount rawData
  if rows = [] then return ([], rowsCount)
  return (parseLines colsCount 1 (if key then rows else rows.drop 1), rowsCount)

/-- The static members as a construction over a non-empty text leaves them. -/
def Statics.reset : Statics := ⟨0, 0, []⟩

/-- The constructor `GkCsvReader(column_count, download_ids, csv_data, headers...)`.
The number of headers replaces `column_count` unless the text is empty. -/
def GkCsvReader.make (columnCount : Nat) (downloadIds : Bool) (csvData : Str)
    (headers : List Str) (st : Statics) : Except Str (GkCsvReader × Statics) := do
  if csvData = [] then
    return (⟨[], columnCount, 0, false, [], []⟩, { st with rowsParsed := 0, retParsedCols := 0 })
  let (cells, rowsCount) ← parseCsv downloadIds headers.length 0 csvData
  return (⟨csvData, headers.length, rowsCount, downloadIds, headers, cells⟩, Statics.reset)

/-! ## Reading rows -/

/-- One pass of the `for` loop of `read_csv_helper`: what it returns, with the
new `proc_cols`, or `none` when it comes to its end without returning. -/
def scanCells (colNo rowNo : Nat) (proc : List (Nat × Nat)) :
    List Cell → Option (Str × List (Nat × Nat))
  | [] => none
  | cell :: rest =>
    if (rowNo, colNo) ∈ proc then some ([], proc)
    else if cell.row = rowNo ∧ cell.col = colNo then
      if cell.value ≠ [] then some (cell.value, (rowNo, colNo) :: proc) else some ([], proc)
    else scanCells colNo rowNo proc rest

/-- `read_csv_helper`. A pass without a result changes nothing, so the `while`
loop around it then never ends: `none`. -/
def readCsvHelper (rd : GkCsvReader) (colNo rowNo : Nat) (st : Statics) :
    Option (Str × Statics) :=
  if colNo = 0 ∨ rowNo = 0 then some ([], st)
  else if rd.csvData = [] then some ([], st)
  else if rowNo ≤ rd.rowsCount ∧ colNo ≤ rd.colsCount then
    (scanCells colNo rowNo st.procCols rd.csvData).map
      fun (data, proc) => (data, { st with procCols := proc })
  else some ([], st)

/-- The string variables a caller passes by reference, by number. -/
abbrev Vars := Nat → Str

/-- The `while` loop of one `read_row` level over the columns `cols`: `var` is
the level's own variable, `next` the call `read_row(cols...)`. -/
def readRowLoop (rd : GkCsvReader) (var : Nat)
    (next : Vars → Statics → Option (Bool × Vars × Statics)) :
    List Nat → Vars → Statics → Option (Vars × Statics)
  | [], vars, st => some (vars, st)
  | col :: cols, vars, st => do
    let (data, st) ← readCsvHelper rd col (st.rowsParsed + 1) st
    if data = [] then readRowLoop rd var next cols vars st
    else
      let (_, vars, st) ← next (Function.update vars var data) st
      readRowLoop rd var next cols vars st

/-- `read_row(cols...)` on the variables numbered by the list. -/
def readRow (rd : GkCsvReader) : List Nat → Vars → Statics → Option (Bool × Vars × Statics)
  | [], vars, st => some (false, vars, st)
  | var :: rest, vars, st =>
    if rd.csvData ≠ [] ∧ st.rowsParsed ≤ rd.rowsCount then do
      let (vars, st) ←
        readRowLoop rd var (readRow rd rest) (List.range' 1 rd.colsCount) vars st
      if st.retParsedCols + 1 = rd.colsCount then
        return (true, vars,
          { st with retParsedCols := 0, rowsParsed := st.rowsParsed + 1 })
      else return (false, vars, { st with retParsedCols := st.retParsedCols + 1 })
    else some (false, vars, { st with retParsedCols := st.retParsedCols + 1 })

/-- `has_column`. With `key` the headers given to the constructor are searched,
otherwise the first line of the text. -/
def hasColumn (rd : GkCsvReader) (name : Str) : Except Str Bool := do
  if rd.key then return decide (name ∈ rd.headers)
  let (rows, _) ← readRows rd.key rd.rowsCount rd.csvRawData
  match rows with
  | [] => return false
  | header :: _ => return decide (name ∈ getlines ',' header)

/-! ## The loop around `read_row` -/

/-- `n` successive calls on the variables `0 .. cols-1`: each call's result and
what the variables hold after it. -/
def readRowTimes (rd : GkCsvReader) (cols : Nat) :
    Nat → Vars → Statics → Option (List (Bool × List Str) × Vars × Statics)
  | 0, vars, st => some ([], vars, st)
  | n + 1, vars, st => do
    let (ret, vars, st) ← readRow rd (List.range cols) vars st
    let (rest, vars', st) ← readRowTimes rd cols n vars st
    return ((ret, (List.range cols).map vars) :: rest, vars', st)

/-- `while (reader.read_row(...))`: the rows it hands to its body, at most `fuel`
of them. -/
def readAllFuel (rd : GkCsvReader) (cols : Nat) :
    Nat → Vars → Statics → Option (List (List Str) × Statics)
  | 0, _, _ => none
  | fuel + 1, vars, st => do
    let (ret, vars, st) ← readRow rd (List.range cols) vars st
    if ret then
      let (rest, st) ← readAllFuel rd cols fuel vars st
      return ((List.range cols).map vars :: rest, st)
    else return ([], st)

/-- The whole loop. A call that returns `true` moves `rows_parsed` on, so that
`rows_count + 2` calls are enough (`readAllFuel_enough`). -/
def readAll (rd : GkCsvReader) (cols : Nat) (vars : Vars) (st : Statics) :
    Option (List (List Str) × Statics) :=
  readAllFuel rd cols (rd.rowsCount + 2) vars st

end FyreDL.Csv
