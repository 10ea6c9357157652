import FyreDL.Csv.LineReader
import Mathlib.Data.List.DropRight

/-!
# FyreDL.Csv.FastReader — `CSVReader` of `fast-cpp-csv-parser/csv.h`

The reader that the import of CSV files uses, over the lines of `LineReader`: columns end at a
`,`, blanks around them are trimmed, nothing is quoted and no line is a comment.

* `columns` iterates `chop_next_column`; `columns_joined` is its decoding rule.
* `readTable_eq` — header and rows are a function of the lines, however they are read.
* `readLines_ok_iff` — exactly which lines are a table, and what its rows are.
-/

namespace FyreDL.FastCsv

open Lib

/-! ## Errors -/

/-- The exceptions of `io::error` that can be thrown once the file is open. -/
inductive ImportError where
  | lineLengthLimitExceeded (fileLine : Int)
  | headerMissing
  | extraColumnInHeader (columnName : Str)
  | missingColumnInHeader (columnName : Str)
  | duplicatedColumnInHeader (columnName : Str)
  | tooFewColumns (fileLine : Int)
  | tooManyColumns (fileLine : Int)
deriving DecidableEq, Repr

/-- `set_file_line`, on the errors that have a line. -/
def ImportError.setFileLine (fileLine : Int) : ImportError → ImportError
  | .lineLengthLimitExceeded _ => .lineLengthLimitExceeded fileLine
  | .tooFewColumns _ => .tooFewColumns fileLine
  | .tooManyColumns _ => .tooManyColumns fileLine
  | error => error

def maxFileNameLength : Nat := 255

def maxColumnNameLength : Nat := 63

/-- `what`: there is room for 255 characters of it. -/
def ImportError.what (fileName : Str) (error : ImportError) : Str :=
  let file := fileName.take maxFileNameLength
  let message :=
    match error with
    | .lineLengthLimitExceeded fileLine =>
      "Line number ".toList ++ toText fileLine ++ " in file \"".toList ++ file ++
        "\" exceeds the maximum length of 2^24-1.".toList
    | .headerMissing => "Header missing in file \"".toList ++ file ++ "\".".toList
    | .extraColumnInHeader columnName =>
      "Extra column \"".toList ++ columnName ++ "\" in header of file \"".toList ++ file ++
        "\".".toList
    | .missingColumnInHeader columnName =>
      "Missing column \"".toList ++ columnName ++ "\" in header of file \"".toList ++ file ++
        "\".".toList
    | .duplicatedColumnInHeader columnName =>
      "Duplicated column \"".toList ++ columnName ++ "\" in header of file \"".toList ++ file ++
        "\".".toList
    | .tooFewColumns fileLine =>
      "Too few columns in line ".toList ++ toText fileLine ++ " in file \"".toList ++ file ++
        "\".".toList
    | .tooManyColumns fileLine =>
      "Too many columns in line ".toList ++ toText fileLine ++ " in file \"".toList ++ file ++
        "\".".toList
  message.take 255

/-- What ends the reading before its time. -/
inductive Stop where
  | error (error : ImportError)
  | assertion
  | hang
deriving DecidableEq, Repr

/-! ## Columns -/

/-- `trim_chars<' ', '\t'>`. -/
def isTrimChar (c : Char) : Bool := c = ' ' || c = '\t'

def trim (col : Str) : Str := (col.dropWhile isTrimChar).rdropWhile isTrimChar

/-- `chop_next_column`: a column, and the line behind it unless it was the last one. -/
def chopNextColumn : Str → Str × Option Str
  | [] => ([], none)
  | c :: line =>
    if c = ',' then ([], some line)
    else
      let (col, rest) := chopNextColumn line
      (c :: col, rest)

/-- All columns of a line. -/
def columns : Str → List Str
  | [] => [[]]
  | c :: line =>
    if c = ',' then [] :: columns line
    else match columns line with
      | [] => [[c]]
      | col :: cols => (c :: col) :: cols

/-- Which columns in the header may differ from those that are asked for. -/
structure IgnoreColumn where
  extraColumn : Bool
  missingColumn : Bool
deriving DecidableEq, Repr

/-- `io::ignore_missing_column`. -/
def ignoreMissingColumn : IgnoreColumn := ⟨false, true⟩

/-- A row as the header orders it; a place is empty if its column is not there. -/
abbrev SortedCol := Nat → Option Str

/-- `parse_line`; `none` is the end of the line. -/
def parseLine : List (Option Nat) → Option Str → SortedCol → Except ImportError SortedCol
  | [], none, sortedCol => .ok sortedCol
  | [], some _, _ => .error (.tooManyColumns (-1))
  | _ :: _, none, _ => .error (.tooFewColumns (-1))
  | place :: colOrder, some line, sortedCol =>
    let (col, rest) := chopNextColumn line
    parseLine colOrder rest
      (match place with
        | none => sortedCol
        | some i => Function.update sortedCol i (some (trim col)))

/-- The loop of `parse_header_line` over the columns of the header. -/
def headerColumns (colName : List Str) (ignorePolicy : IgnoreColumn) :
    (found : List Nat) → (cols : List Str) → Except ImportError (List Nat × List (Option Nat))
  | found, [] => .ok (found, [])
  | found, col :: cols =>
    let i := colName.idxOf (trim col)
    if i < colName.length then
      if i ∈ found then
        .error (.duplicatedColumnInHeader ((trim col).take maxColumnNameLength))
      else (headerColumns colName ignorePolicy (i :: found) cols).map fun (found, colOrder) =>
        (found, some i :: colOrder)
    else if ignorePolicy.extraColumn then
      (headerColumns colName ignorePolicy found cols).map fun (found, colOrder) =>
        (found, none :: colOrder)
    else .error (.extraColumnInHeader ((trim col).take maxColumnNameLength))

/-- `parse_header_line`. -/
def parseHeaderLine (colName : List Str) (ignorePolicy : IgnoreColumn) (line : Str) :
    Except ImportError (List (Option Nat)) := do
  let (found, colOrder) ← headerColumns colName ignorePolicy [] (columns line)
  if !ignorePolicy.missingColumn then
    match (List.range colName.length).find? (· ∉ found) with
    | some i => throw (.missingColumnInHeader ((colName.getD i []).take maxColumnNameLength))
    | none => return colOrder
  else return colOrder

/-! ## `CSVReader` -/

structure CSVReader where
  lineReader : LineReader
  row : SortedCol
  columnNames : List Str
  colOrder : List (Option Nat)

/-- `read_header`. -/
def readHeader (blockLen : Nat) (lineReader : LineReader) (ignorePolicy : IgnoreColumn)
    (columnNames : List Str) : Except Stop CSVReader :=
  match lineReader.nextLine blockLen with
  | .done => .error (.error .headerMissing)
  | .lineLengthLimitExceeded fileLine => .error (.error (.lineLengthLimitExceeded fileLine))
  | .assertion => .error .assertion
  | .hang => .error .hang
  | .line line next =>
    match parseHeaderLine columnNames ignorePolicy line with
    | .error error => .error (.error error)
    | .ok colOrder => .ok ⟨next, fun _ => none, columnNames, colOrder⟩

/-- `has_column`. -/
def CSVReader.hasColumn (reader : CSVReader) (name : Str) : Bool :=
  some (reader.columnNames.idxOf name) ∈ reader.colOrder

/-- `parse_helper`: a variable whose column is not there keeps its value. -/
def parseHelper (row : SortedCol) (cols : List Str) : List Str :=
  cols.mapIdx fun r col => (row r).getD col

/-- `read_row`; `none` at the end of the file. -/
def CSVReader.readRow (blockLen : Nat) (reader : CSVReader) (cols : List Str) :
    Except Stop (Option (CSVReader × List Str)) :=
  match reader.lineReader.nextLine blockLen with
  | .done => .ok none
  | .lineLengthLimitExceeded fileLine => .error (.error (.lineLengthLimitExceeded fileLine))
  | .assertion => .error .assertion
  | .hang => .error .hang
  | .line line next =>
    match parseLine reader.colOrder (some line) reader.row with
    | .error error => .error (.error (error.setFileLine next.fileLine))
    | .ok row => .ok (some ({ reader with lineReader := next, row := row }, parseHelper row cols))

/-- The loop `while (in.read_row(...))`, for so many calls at most. -/
def CSVReader.readRows (blockLen : Nat) : Nat → CSVReader → List Str → Except Stop (List (List Str))
  | 0, _, _ => .error .hang
  | fuel + 1, reader, cols =>
    match reader.readRow blockLen cols with
    | .error stop => .error stop
    | .ok none => .ok []
    | .ok (some (reader, cols)) => (reader.readRows blockLen fuel cols).map (cols :: ·)

/-! ## The lines as they come -/

/-- How reading goes on at the end of the lines. -/
def Ending.stop : Ending → Except Stop (List (List Str))
  | .done => .ok []
  | .lineLengthLimitExceeded fileLine => .error (.error (.lineLengthLimitExceeded fileLine))
  | .assertion => .error .assertion
  | .hang => .error .hang

/-- The rows of the lines behind line `fileLine`. -/
def rowsOf (colOrder : List (Option Nat)) (ending : Ending) :
    (fileLine : Nat) → SortedCol → List Str → List Str → Except Stop (List (List Str))
  | _, _, _, [] => ending.stop
  | fileLine, row, cols, line :: lines =>
    match parseLine colOrder (some line) row with
    | .error error => .error (.error (error.setFileLine (fileLine + 1)))
    | .ok row =>
      (rowsOf colOrder ending (fileLine + 1) row (parseHelper row cols) lines).map
        (parseHelper row cols :: ·)

/-- The rows depend on the lines, and not on how they come. -/
theorem readRows_eq (blockLen fuel : Nat) (reader : CSVReader) (cols : List Str) :
    reader.readRows blockLen fuel cols =
      rowsOf reader.colOrder (reader.lineReader.lines blockLen fuel).2 reader.lineReader.fileLine
        reader.row cols (reader.lineReader.lines blockLen fuel).1 := by
  induction fuel generalizing reader cols with
  | zero => rfl
  | succ fuel ih =>
    rw [CSVReader.readRows, LineReader.lines, CSVReader.readRow]
    cases hnext : reader.lineReader.nextLine blockLen with
    | done => rfl
    | lineLengthLimitExceeded fileLine => rfl
    | assertion => rfl
    | hang => rfl
    | line line next =>
      have hnumber := LineReader.fileLine_of_nextLine hnext
      dsimp only
      rw [rowsOf]
      cases parseLine reader.colOrder (some line) reader.row with
      | error error =>
        dsimp only
        rw [hnumber]
        rfl
      | ok row =>
        dsimp only
        rw [ih, hnumber]

/-! ## The columns of a line -/

section Columns

theorem columns_ne_nil (line : Str) : columns line ≠ [] := by
  cases line with
  | nil => exact List.cons_ne_nil _ _
  | cons c line =>
    rw [columns]
    split
    · exact List.cons_ne_nil _ _
    · split
      · exact List.cons_ne_nil _ _
      · exact List.cons_ne_nil _ _

/-- `columns` is the iteration of `chop_next_column`. -/
theorem columns_eq (line : Str) : columns line =
    (chopNextColumn line).1 :: ((chopNextColumn line).2.map columns).getD [] := by
  induction line with
  | nil => rfl
  | cons c line ih =>
    rw [columns, chopNextColumn]
    by_cases hc : c = ','
    · rw [if_pos hc, if_pos hc]
      rfl
    · rw [if_neg hc, if_neg hc, ih]

theorem columns_single {col : Str} (h : ',' ∉ col) : columns col = [col] := by
  induction col with
  | nil => rfl
  | cons c col ih =>
    have hc : c ≠ ',' := fun hc => h (hc ▸ List.mem_cons_self)
    rw [columns, if_neg hc, ih fun hm => h (List.mem_cons_of_mem _ hm)]

theorem columns_append {col : Str} (h : ',' ∉ col) (line : Str) :
    columns (col ++ ',' :: line) = col :: columns line := by
  induction col with
  | nil => rfl
  | cons c col ih =>
    have hc : c ≠ ',' := fun hc => h (hc ▸ List.mem_cons_self)
    rw [List.cons_append, columns, if_neg hc, ih fun hm => h (List.mem_cons_of_mem _ hm)]

/-- Columns read back as they were joined. -/
theorem columns_joined {cols : List Str} (hne : cols ≠ []) (h : ∀ col ∈ cols, ',' ∉ col) :
    columns (joined ',' cols) = cols := by
  induction cols with
  | nil => exact absurd rfl hne
  | cons col cols ih =>
    have hcol := h col List.mem_cons_self
    cases cols with
    | nil => exact columns_single hcol
    | cons next cols =>
      rw [joined_cons_cons, columns_append hcol,
        ih (List.cons_ne_nil _ _) fun col hm => h col (List.mem_cons_of_mem _ hm)]

/-- The cells of a line. -/
def cells (line : Str) : List Str := (columns line).map trim

/-- What is left of a line. -/
def remaining (line : Option Str) : List Str := (line.map columns).getD []

/-- The cells at their places. -/
def placed : List (Option Nat) → List Str → SortedCol → SortedCol
  | place :: colOrder, col :: cols, sortedCol =>
    placed colOrder cols
      (match place with
        | none => sortedCol
        | some i => Function.update sortedCol i (some (trim col)))
  | _, _, sortedCol => sortedCol

/-- **`parse_line`** accepts a line that has as many columns as the header. -/
theorem parseLine_eq (colOrder : List (Option Nat)) (line : Option Str) (sortedCol : SortedCol) :
    parseLine colOrder line sortedCol =
      if (remaining line).length < colOrder.length then .error (.tooFewColumns (-1))
      else if colOrder.length < (remaining line).length then .error (.tooManyColumns (-1))
      else .ok (placed colOrder (remaining line) sortedCol) := by
  induction colOrder generalizing line sortedCol with
  | nil =>
    cases line with
    | none => rfl
    | some line =>
      have hpos : 0 < (remaining (some line)).length :=
        List.length_pos_of_ne_nil (columns_ne_nil line)
      rw [List.length_nil, if_neg (Nat.not_lt_zero _), if_pos hpos]
      rfl
  | cons place colOrder ih =>
    cases line with
    | none => rfl
    | some line =>
      have hremaining : remaining (some line) =
          (chopNextColumn line).1 :: remaining (chopNextColumn line).2 := columns_eq line
      rw [hremaining, parseLine]
      dsimp only
      rw [ih]
      simp only [List.length_cons, Nat.add_lt_add_iff_right, placed]

end Columns

/-! ## What a table is -/

section Table

variable {names : List Str}

/-- The place of a column among the columns that are asked for. -/
def place (names : List Str) (name : Str) : Option Nat := some (names.idxOf name)

theorem map_eq_ok_iff {ε α β : Type} {f : α → β} {x : Except ε α} {b : β} :
    x.map f = .ok b ↔ ∃ a, x = .ok a ∧ f a = b := by
  cases x with
  | error e => exact iff_of_false (fun h => nomatch h) fun ⟨_, h, _⟩ => nomatch h
  | ok a =>
    constructor
    · intro h
      exact ⟨a, rfl, Except.ok.inj h⟩
    · rintro ⟨a', h, rfl⟩
      cases h
      rfl

/-- The loop over the header, when no other columns are let through: induction on what is left
of the header, with the columns that have been found. -/
theorem headerColumns_ok_iff (names : List Str) {ignorePolicy : IgnoreColumn}
    (hextra : ignorePolicy.extraColumn = false) (cols : List Str) (found : List Nat)
    (colOrder : List (Option Nat)) :
    (∃ found', headerColumns names ignorePolicy found cols = .ok (found', colOrder)) ↔
      (∀ name ∈ cols.map trim, name ∈ names ∧ names.idxOf name ∉ found) ∧ (cols.map trim).Nodup ∧
        colOrder = (cols.map trim).map (place names) := by
  induction cols generalizing found colOrder with
  | nil =>
    rw [headerColumns]
    constructor
    · rintro ⟨found', h⟩
      cases h
      exact ⟨fun _ h => absurd h List.not_mem_nil, List.nodup_nil, rfl⟩
    · rintro ⟨-, -, rfl⟩
      exact ⟨found, rfl⟩
  | cons col cols ih =>
    rw [headerColumns, List.map_cons, List.nodup_cons, List.map_cons]
    generalize trim col = name
    dsimp only
    by_cases hknown : name ∈ names
    · rw [if_pos (List.idxOf_lt_length_iff.mpr hknown)]
      by_cases hfound : names.idxOf name ∈ found
      · rw [if_pos hfound]
        exact iff_of_false (fun ⟨_, h⟩ => nomatch h)
          fun h => (h.1 name List.mem_cons_self).2 hfound
      · rw [if_neg hfound]
        constructor
        · rintro ⟨found', h⟩
          rcases map_eq_ok_iff.mp h with ⟨⟨found'', colOrder'⟩, hrest, heq⟩
          cases heq
          rcases (ih _ _).mp ⟨_, hrest⟩ with ⟨hall, hnodup, rfl⟩
          refine ⟨?_, ⟨?_, hnodup⟩, rfl⟩
          · intro other hother
            rcases List.mem_cons.mp hother with rfl | hlater
            · exact ⟨hknown, hfound⟩
            · exact ⟨(hall other hlater).1, fun hm =>
                (hall other hlater).2 (List.mem_cons_of_mem _ hm)⟩
          · intro hmem
            exact (hall name hmem).2 List.mem_cons_self
        · rintro ⟨hall, ⟨hnew, hnodup⟩, rfl⟩
          have hlater : ∀ other ∈ cols.map trim,
              other ∈ names ∧ names.idxOf other ∉ names.idxOf name :: found := by
            intro other hother
            rcases hall other (List.mem_cons_of_mem _ hother) with ⟨hin, hnot⟩
            refine ⟨hin, ?_⟩
            intro hmem
            rcases List.mem_cons.mp hmem with hsame | hm
            · exact hnew ((List.idxOf_inj hin).mp hsame ▸ hother)
            · exact hnot hm
          rcases (ih _ _).mpr ⟨hlater, hnodup, rfl⟩ with ⟨found', hrest⟩
          exact ⟨found', map_eq_ok_iff.mpr ⟨_, hrest, rfl⟩⟩
    · rw [if_neg fun hlt => hknown (List.idxOf_lt_length_iff.mp hlt), hextra]
      exact iff_of_false (fun ⟨_, h⟩ => nomatch h)
        fun h => hknown (h.1 name List.mem_cons_self).1

/-- **`parse_header_line`** accepts a line of different columns that are asked for. -/
theorem parseHeaderLine_ok_iff (names : List Str) (line : Str) (colOrder : List (Option Nat)) :
    parseHeaderLine names ignoreMissingColumn line = .ok colOrder ↔
      cells line ⊆ names ∧ (cells line).Nodup ∧ colOrder = (cells line).map (place names) := by
  have hextra : ignoreMissingColumn.extraColumn = false := rfl
  have hloop := headerColumns_ok_iff names hextra (columns line) [] colOrder
  have hsubset : (∀ name ∈ cells line, name ∈ names ∧ names.idxOf name ∉ []) ↔
      cells line ⊆ names := by
    constructor
    · intro h name hname
      exact (h name hname).1
    · intro h name hname
      exact ⟨h hname, List.not_mem_nil⟩
  rw [← hsubset]
  refine Iff.trans ?_ hloop
  unfold parseHeaderLine
  cases headerColumns names ignoreMissingColumn [] (columns line) with
  | error error => exact iff_of_false (fun h => nomatch h) fun ⟨_, h⟩ => nomatch h
  | ok p =>
    rcases p with ⟨found, colOrder'⟩
    constructor
    · intro h
      cases h
      exact ⟨found, rfl⟩
    · rintro ⟨found', h⟩
      cases h
      rfl

/-- The cells of a row under the columns that are asked for; a column that the header does not
have is empty. -/
def tableRow (names header row : List Str) : List Str :=
  names.map fun name => ((header.zip row).lookup name).getD []

theorem lookup_zip_eq_none {header : List Str} {row : List Str} {name : Str}
    (h : name ∉ header) : (header.zip row).lookup name = none := by
  rw [List.lookup_eq_none_iff]
  rintro ⟨title, cell⟩ hmem
  exact bne_iff_ne.mpr fun hsame => h (hsame ▸ (List.of_mem_zip hmem).1)

theorem lookup_zip_ne_none {header : List Str} {row : List Str} {name : Str}
    (hlength : header.length ≤ row.length) (h : name ∈ header) :
    (header.zip row).lookup name ≠ none := by
  induction header generalizing row with
  | nil => exact absurd h List.not_mem_nil
  | cons title header ih =>
    cases row with
    | nil => exact absurd hlength (Nat.not_succ_le_zero _)
    | cons cell row =>
      rw [List.zip_cons_cons]
      by_cases hname : name = title
      · rw [hname, List.lookup_cons_self]
        exact Option.some_ne_none cell
      · rw [List.lookup_cons, beq_eq_false_iff_ne.mpr hname]
        exact ih (Nat.le_of_succ_le_succ hlength) ((List.mem_cons.mp h).resolve_left hname)

/-- What is at the place of a column is its cell of the row. -/
theorem placed_place {header : List Str} (hknown : header ⊆ names) (hnodup : header.Nodup)
    (cols : List Str) (sortedCol : SortedCol) (name : Str) :
    placed (header.map (place names)) cols sortedCol (names.idxOf name) =
      ((header.zip (cols.map trim)).lookup name).or (sortedCol (names.idxOf name)) := by
  induction header generalizing cols sortedCol with
  | nil => rfl
  | cons title header ih =>
    cases cols with
    | nil => rfl
    | cons col cols =>
      have htitle : title ∈ names := hknown List.mem_cons_self
      have hnew : title ∉ header := (List.nodup_cons.mp hnodup).1
      change placed (header.map (place names)) cols
        (Function.update sortedCol (names.idxOf title) (some (trim col))) _ = _
      rw [ih (fun _ h => hknown (List.mem_cons_of_mem _ h)) (List.nodup_cons.mp hnodup).2,
        List.map_cons, List.zip_cons_cons]
      by_cases hname : name = title
      · -- the cell under the title; the title does not come again
        subst hname
        rw [lookup_zip_eq_none hnew, List.lookup_cons_self]
        exact Function.update_self _ _ _
      · have hplace : names.idxOf name ≠ names.idxOf title := fun hsame =>
          hname ((List.idxOf_inj htitle).mp hsame.symm).symm
        rw [List.lookup_cons, beq_eq_false_iff_ne.mpr hname]
        exact congrArg _ (Function.update_of_ne hplace _ _)

/-- Nothing has been read into the columns that the header does not have. -/
structure Fresh (names header : List Str) (row : SortedCol) (cols : List Str) : Prop where
  length : cols.length = names.length
  row_none : ∀ name ∈ names, name ∉ header → row (names.idxOf name) = none
  col_nil : ∀ name ∈ names, name ∉ header → cols[names.idxOf name]? = some []

/-- One row of the table. -/
theorem Fresh.parseHelper {header row' : List Str} {row : SortedCol} {cols texts : List Str}
    (h : Fresh names header row cols) (hnames : names.Nodup) (hknown : header ⊆ names)
    (hnodup : header.Nodup) (hlength : texts.length = header.length)
    (hrow' : tableRow names header (texts.map trim) = row') :
    FastCsv.parseHelper (placed (header.map (place names)) texts row) cols = row' ∧
      Fresh names header (placed (header.map (place names)) texts row) row' := by
  have hwidth : header.length ≤ (texts.map trim).length := by
    rw [List.length_map, hlength]
  subst hrow'
  constructor
  · apply List.ext_getElem?
    intro i
    rw [FastCsv.parseHelper, tableRow, List.getElem?_mapIdx, List.getElem?_map]
    by_cases hi : i < names.length
    · have hcol : i < cols.length := h.length ▸ hi
      have hplace : names.idxOf names[i] = i := hnames.idxOf_getElem i hi
      have hplaced := placed_place hknown hnodup texts row names[i]
      rw [hplace] at hplaced
      rw [List.getElem?_eq_getElem hi, List.getElem?_eq_getElem hcol, Option.map_some,
        Option.map_some, hplaced]
      congr 1
      by_cases hin : names[i] ∈ header
      · rcases Option.ne_none_iff_exists'.mp (lookup_zip_ne_none hwidth hin) with ⟨cell, hcell⟩
        rw [hcell]
        rfl
      · have hempty := h.col_nil _ (List.getElem_mem hi) hin
        have hnone := h.row_none _ (List.getElem_mem hi) hin
        rw [hplace] at hempty hnone
        rw [lookup_zip_eq_none hin, hnone]
        rw [List.getElem?_eq_getElem hcol] at hempty
        exact Option.some.inj hempty
    · rw [List.getElem?_eq_none (Nat.le_of_not_lt hi),
        List.getElem?_eq_none (h.length ▸ Nat.le_of_not_lt hi)]
      rfl
  · refine ⟨List.length_map _, ?_, ?_⟩
    · intro name hname hin
      rw [placed_place hknown hnodup, lookup_zip_eq_none hin]
      exact h.row_none name hname hin
    · intro name hname hin
      have hlt : names.idxOf name < names.length := List.idxOf_lt_length_iff.mpr hname
      rw [tableRow, List.getElem?_map, List.getElem?_eq_getElem hlt, List.getElem_idxOf hlt,
        Option.map_some, lookup_zip_eq_none hin]
      rfl

/-- The rows behind a header. -/
theorem rowsOf_ok_iff {header : List Str} (hnames : names.Nodup) (hknown : header ⊆ names)
    (hnodup : header.Nodup) (ending : Ending) (fileLine : Nat) {row : SortedCol} {cols : List Str}
    (h : Fresh names header row cols) (lines : List Str) (rows : List (List Str)) :
    rowsOf (header.map (place names)) ending fileLine row cols lines = .ok rows ↔
      (∀ line ∈ lines, (cells line).length = header.length) ∧ ending = .done ∧
        rows = lines.map fun line => tableRow names header (cells line) := by
  induction lines generalizing fileLine row cols rows with
  | nil =>
    rw [rowsOf]
    cases ending with
    | done =>
      constructor
      · intro hok
        cases hok
        exact ⟨fun _ hm => absurd hm List.not_mem_nil, rfl, rfl⟩
      · rintro ⟨-, -, rfl⟩
        rfl
    | lineLengthLimitExceeded fileLine =>
      exact iff_of_false (fun hok => nomatch hok) fun hall => nomatch hall.2.1
    | assertion => exact iff_of_false (fun hok => nomatch hok) fun hall => nomatch hall.2.1
    | hang => exact iff_of_false (fun hok => nomatch hok) fun hall => nomatch hall.2.1
  | cons line lines ih =>
    have hcount : (remaining (some line)).length = (cells line).length :=
      (List.length_map _).symm
    rw [rowsOf, parseLine_eq, hcount, List.length_map]
    by_cases hwidth : (cells line).length = header.length
    · have hlength : (remaining (some line)).length = header.length := hcount.trans hwidth
      rcases h.parseHelper hnames hknown hnodup hlength rfl with ⟨hrow, hfresh⟩
      rw [if_neg (by omega), if_neg (by omega)]
      dsimp only
      rw [hrow, map_eq_ok_iff, List.map_cons, List.forall_mem_cons]
      constructor
      · rintro ⟨rest, hrest, rfl⟩
        rcases (ih _ hfresh _).mp hrest with ⟨hall, hdone, rfl⟩
        exact ⟨⟨hwidth, hall⟩, hdone, rfl⟩
      · rintro ⟨⟨-, hall⟩, hdone, rfl⟩
        exact ⟨_, (ih _ hfresh _).mpr ⟨hall, hdone, rfl⟩, rfl⟩
    · have hbad : ¬ ∀ other ∈ line :: lines, (cells other).length = header.length :=
        fun hall => hwidth (hall line List.mem_cons_self)
      rcases Nat.lt_or_gt_of_ne hwidth with hfew | hmany
      · rw [if_pos hfew]
        exact iff_of_false (fun hok => nomatch hok) fun hall => hbad hall.1
      · rw [if_neg (Nat.lt_asymm hmany), if_pos hmany]
        exact iff_of_false (fun hok => nomatch hok) fun hall => hbad hall.1

end Table

/-! ## Tables in a file -/

/-- The lines of a file as the reader hands them out. -/
def tableLines (file : Str) : List Str := (getlines '\n' (withoutMark file)).map cLine

/-- The cells of the first line; there are none if the file has no line. -/
def tableHeader (file : Str) : List Str := ((tableLines file).head?.map cells).getD []

/-- The rows behind the header. -/
def tableBody (names : List Str) (file : Str) : List (List Str) :=
  (tableLines file).tail.map fun line => tableRow names (tableHeader file) (cells line)

/-- A file that the reader takes for a table with some of the columns. -/
structure IsTable (blockLen : Nat) (memory : Memory) (names : List Str) (file : Str) : Prop where
  header : tableHeader file ≠ []
  known : tableHeader file ⊆ names
  nodup : (tableHeader file).Nodup
  width : ∀ line ∈ (tableLines file).tail, (cells line).length = (tableHeader file).length
  short : ∀ line ∈ getlines '\n' (withoutMark file), line.length < blockLen
  closed : ¬ (EndsOpen (withoutMark file) ∧ fence blockLen memory file = '\n')

theorem isTable_iff {blockLen : Nat} {memory : Memory} {names : List Str} {file : Str} :
    IsTable blockLen memory names file ↔
      tableHeader file ≠ [] ∧ tableHeader file ⊆ names ∧ (tableHeader file).Nodup ∧
        (∀ line ∈ (tableLines file).tail, (cells line).length = (tableHeader file).length) ∧
        (∀ line ∈ getlines '\n' (withoutMark file), line.length < blockLen) ∧
        ¬ (EndsOpen (withoutMark file) ∧ fence blockLen memory file = '\n') := by
  constructor
  · intro h
    exact ⟨h.header, h.known, h.nodup, h.width, h.short, h.closed⟩
  · rintro ⟨hheader, hknown, hnodup, hwidth, hshort, hclosed⟩
    exact ⟨hheader, hknown, hnodup, hwidth, hshort, hclosed⟩

instance (blockLen : Nat) (memory : Memory) (names : List Str) (file : Str) :
    Decidable (IsTable blockLen memory names file) := decidable_of_iff' _ isTable_iff

section File

variable {blockLen : Nat} {names : List Str}

/-- The lines of a file come as far as they fit into a block. -/
theorem lines_done_iff (memory : Memory) (file : Str) (hblock : 2 ≤ blockLen) {fuel : Nat}
    (hfuel : file.length < fuel) :
    ∃ ending, (LineReader.make blockLen memory file).lines blockLen fuel =
        (((getlines '\n' (withoutMark file)).takeWhile (·.length < blockLen)).map cLine, ending) ∧
      (ending = .done ↔ (∀ line ∈ getlines '\n' (withoutMark file), line.length < blockLen) ∧
        ¬ (EndsOpen (withoutMark file) ∧ fence blockLen memory file = '\n')) := by
  refine ⟨_, lines_file memory file hblock hfuel rfl, ?_⟩
  simp only [length_takeWhile_lt_iff, decide_eq_true_eq]
  by_cases hlong : ∃ line ∈ getlines '\n' (withoutMark file), ¬ line.length < blockLen
  · rw [if_pos hlong]
    rcases hlong with ⟨line, hline, hnot⟩
    exact iff_of_false (fun h => nomatch h) fun h => hnot (h.1 line hline)
  · have hall : ∀ line ∈ getlines '\n' (withoutMark file), line.length < blockLen :=
      fun line hline => by_contra fun hnot => hlong ⟨line, hline, hnot⟩
    rw [if_neg hlong, and_iff_right hall]
    by_cases hopen : EndsOpen (withoutMark file) ∧ fence blockLen memory file = '\n'
    · rw [if_pos hopen]
      exact iff_of_false (fun h => nomatch h) (not_not_intro hopen)
    · rw [if_neg hopen]
      exact iff_of_true rfl hopen

/-- A line that is handed out, and the lines behind it. -/
theorem lines_succ_iff {r : LineReader} {fuel : Nat} {line : Str} {lines : List Str}
    {ending : Ending} : r.lines blockLen (fuel + 1) = (line :: lines, ending) ↔
      ∃ next, r.nextLine blockLen = .line line next ∧
        next.lines blockLen fuel = (lines, ending) := by
  constructor
  · intro h
    rw [LineReader.lines] at h
    cases hnext : r.nextLine blockLen with
    | line text next =>
      rw [hnext] at h
      cases h
      exact ⟨next, rfl, rfl⟩
    | _ =>
      rw [hnext] at h
      cases h
  · rintro ⟨next, hnext, hlines⟩
    rw [LineReader.lines, hnext]
    dsimp only
    rw [hlines]

theorem readHeader_ok_iff {r : LineReader} {reader : CSVReader} :
    readHeader blockLen r ignoreMissingColumn names = .ok reader ↔
      ∃ line next, r.nextLine blockLen = .line line next ∧ cells line ⊆ names ∧
        (cells line).Nodup ∧
        reader = ⟨next, fun _ => none, names, (cells line).map (place names)⟩ := by
  unfold readHeader
  constructor
  · intro h
    cases hnext : r.nextLine blockLen with
    | line line next =>
      rw [hnext] at h
      dsimp only at h
      cases hheader : parseHeaderLine names ignoreMissingColumn line with
      | error error =>
        rw [hheader] at h
        cases h
      | ok colOrder =>
        rw [hheader] at h
        cases h
        rcases (parseHeaderLine_ok_iff names line colOrder).mp hheader with ⟨hknown, hnodup, rfl⟩
        exact ⟨line, next, rfl, hknown, hnodup, rfl⟩
    | _ =>
      rw [hnext] at h
      cases h
  · rintro ⟨line, next, hnext, hknown, hnodup, rfl⟩
    rw [hnext]
    dsimp only
    rw [(parseHeaderLine_ok_iff names line _).mpr ⟨hknown, hnodup, rfl⟩]

theorem hasColumn_iff {reader : CSVReader} {header : List Str} (hknown : header ⊆ names)
    (hnames : reader.columnNames = names) (horder : reader.colOrder = header.map (place names))
    (name : Str) : reader.hasColumn name = true ↔ name ∈ header := by
  rw [CSVReader.hasColumn, decide_eq_true_iff, hnames, horder, List.mem_map]
  constructor
  · rintro ⟨title, htitle, hplace⟩
    have hsame : title = name := (List.idxOf_inj (hknown htitle)).mp (Option.some.inj hplace)
    exact hsame ▸ htitle
  · intro hname
    exact ⟨name, hname, rfl⟩

/-- The first line of a file, when it is handed out. -/
theorem tableHeader_of_nextLine {memory : Memory} {file line : Str} {next : LineReader}
    (hblock : 2 ≤ blockLen)
    (h : (LineReader.make blockLen memory file).nextLine blockLen = .line line next) :
    tableHeader file = cells line := by
  rcases lines_done_iff memory file hblock (Nat.lt_succ_self _) with ⟨ending, hlines, -⟩
  have hfirst := lines_succ_iff.mpr ⟨next, h, Eq.refl (next.lines blockLen file.length)⟩
  have htexts := congrArg Prod.fst (hlines.symm.trans hfirst)
  dsimp only at htexts
  -- what fits into a block is the beginning of the lines
  have hall := (List.takeWhile_append_dropWhile (p := (·.length < blockLen))
    (l := getlines '\n' (withoutMark file)))
  rw [tableHeader, tableLines, ← hall, List.map_append, htexts]
  rfl

/-- **A table is read** as the table that the file is; no other file is read to its end. -/
theorem readTable_ok_iff (hnames : names.Nodup) (memory : Memory) (file : Str)
    (hblock : 2 ≤ blockLen) {fuel : Nat} (hfuel : file.length < fuel) (rows : List (List Str)) :
    (∃ reader, readHeader blockLen (LineReader.make blockLen memory file) ignoreMissingColumn
        names = .ok reader ∧ reader.readRows blockLen fuel (names.map fun _ => []) = .ok rows) ↔
      IsTable blockLen memory names file ∧ rows = tableBody names file := by
  rcases lines_done_iff memory file hblock (Nat.lt_succ_of_lt hfuel) with ⟨ending, hlines, hdone⟩
  have hfresh : ∀ header, Fresh names header (fun _ => none) (names.map fun _ => []) := by
    intro header
    refine ⟨List.length_map _, fun _ _ _ => rfl, ?_⟩
    intro name hname _
    rw [List.getElem?_map, List.getElem?_eq_getElem (List.idxOf_lt_length_iff.mpr hname)]
    rfl
  have hall : (∀ line ∈ getlines '\n' (withoutMark file), line.length < blockLen) →
      (getlines '\n' (withoutMark file)).takeWhile (·.length < blockLen) =
        getlines '\n' (withoutMark file) := by
    intro h
    exact List.takeWhile_eq_self_iff.mpr fun line hline => decide_eq_true (h line hline)
  constructor
  · rintro ⟨reader, hheader, hrows⟩
    rcases readHeader_ok_iff.mp hheader with ⟨line, next, hnext, hknown, hnodup, rfl⟩
    have htitle := tableHeader_of_nextLine hblock hnext
    rw [readRows_eq] at hrows
    dsimp only at hrows
    rcases (rowsOf_ok_iff hnames hknown hnodup _ _ (hfresh _) _ _).mp hrows with
      ⟨hwidth, hending, rfl⟩
    have hsplit := lines_succ_iff.mpr ⟨next, hnext, Eq.refl (next.lines blockLen fuel)⟩
    rw [hlines] at hsplit
    have htexts := congrArg Prod.fst hsplit
    have hend : ending = (next.lines blockLen fuel).2 := congrArg Prod.snd hsplit
    rcases hdone.mp (hend.trans hending) with ⟨hshort, hclosed⟩
    dsimp only at htexts
    rw [hall hshort] at htexts
    have htail : (tableLines file).tail = (next.lines blockLen fuel).1 := by
      rw [tableLines, htexts]
      rfl
    refine ⟨⟨?_, ?_, ?_, ?_, hshort, hclosed⟩, ?_⟩
    · rw [htitle, cells]
      exact fun hnil => columns_ne_nil line (List.map_eq_nil_iff.mp hnil)
    · rw [htitle]
      exact hknown
    · rw [htitle]
      exact hnodup
    · rw [htail, htitle]
      exact hwidth
    · rw [tableBody, htail, htitle]
  · rintro ⟨htable, rfl⟩
    rw [hall htable.short, hdone.mpr ⟨htable.short, htable.closed⟩, ← tableLines] at hlines
    cases htexts : tableLines file with
    | nil =>
      refine absurd ?_ htable.header
      rw [tableHeader, htexts]
      rfl
    | cons line lines =>
      rw [htexts] at hlines
      rcases lines_succ_iff.mp hlines with ⟨next, hnext, hrest⟩
      have htitle := tableHeader_of_nextLine hblock hnext
      have hknown : cells line ⊆ names := htitle ▸ htable.known
      have hnodup : (cells line).Nodup := htitle ▸ htable.nodup
      have hwidth := htable.width
      rw [htexts, List.tail_cons, htitle] at hwidth
      refine ⟨_, readHeader_ok_iff.mpr ⟨line, next, hnext, hknown, hnodup, rfl⟩, ?_⟩
      rw [readRows_eq]
      dsimp only
      rw [hrest, rowsOf_ok_iff hnames hknown hnodup _ _ (hfresh _)]
      refine ⟨hwidth, rfl, ?_⟩
      rw [tableBody, htexts, List.tail_cons, htitle]

end File

/-! ## Written tables -/

/-- A cell that needs no quotes, and that nothing is trimmed from. -/
structure CleanCell (cell : Str) : Prop where
  comma : ',' ∉ cell
  lf : '\n' ∉ cell
  cr : '\r' ∉ cell
  nul : '\x00' ∉ cell
  trimmed : trim cell = cell

theorem cleanCell_iff {cell : Str} : CleanCell cell ↔
    ',' ∉ cell ∧ '\n' ∉ cell ∧ '\r' ∉ cell ∧ '\x00' ∉ cell ∧ trim cell = cell := by
  constructor
  · intro h
    exact ⟨h.comma, h.lf, h.cr, h.nul, h.trimmed⟩
  · rintro ⟨hcomma, hlf, hcr, hnul, htrimmed⟩
    exact ⟨hcomma, hlf, hcr, hnul, htrimmed⟩

instance (cell : Str) : Decidable (CleanCell cell) := decidable_of_iff' _ cleanCell_iff

/-- What ends a line, in front of the `\n`. -/
def carriageReturn (crlf : Bool) : Str := if crlf then ['\r'] else []

/-- Rows as lines. -/
def writtenRows (crlf : Bool) (rows : List (List Str)) : Str :=
  terminated '\n' (rows.map fun row => joined ',' row ++ carriageReturn crlf)

/-- A file of rows, with a byte-order mark or without. -/
def writtenFile (mark crlf : Bool) (rows : List (List Str)) : Str :=
  (if mark then byteOrderMark else []) ++ writtenRows crlf rows

section Written

variable {crlf : Bool} {rows : List (List Str)}

theorem not_mem_joined {c : Char} {row : List Str} (hc : c ≠ ',') (h : ∀ cell ∈ row, c ∉ cell) :
    c ∉ joined ',' row := by
  intro hmem
  rcases mem_joined hmem with hcomma | ⟨cell, hcell, hin⟩
  · exact hc hcomma
  · exact h cell hcell hin

theorem cLine_joined (crlf : Bool) {row : List Str} (h : ∀ cell ∈ row, CleanCell cell) :
    cLine (joined ',' row ++ carriageReturn crlf) = joined ',' row := by
  have hcr : '\r' ∉ joined ',' row := not_mem_joined (by decide) fun cell hcell => (h cell hcell).cr
  have hnul : '\x00' ∉ joined ',' row :=
    not_mem_joined (by decide) fun cell hcell => (h cell hcell).nul
  have hall : (joined ',' row).takeWhile (· ≠ '\x00') = joined ',' row := by
    rw [List.takeWhile_eq_self_iff]
    intro c hc
    exact decide_eq_true fun hsame => hnul (hsame ▸ hc)
  cases crlf with
  | true => rw [carriageReturn, if_pos rfl, cLine, List.getLast?_concat, if_pos rfl,
      List.dropLast_concat, hall]
  | false =>
    rw [carriageReturn, if_neg (by decide), List.append_nil, cLine, if_neg, hall]
    intro hlast
    exact hcr (List.mem_of_getLast? hlast)

theorem lf_not_mem_line (crlf : Bool) {row : List Str} (h : ∀ cell ∈ row, CleanCell cell) :
    '\n' ∉ joined ',' row ++ carriageReturn crlf := by
  rw [List.mem_append, not_or]
  refine ⟨not_mem_joined (by decide) fun cell hcell => (h cell hcell).lf, ?_⟩
  cases crlf with
  | true => decide
  | false => decide

/-- The lines of the text are the rows. -/
theorem getlines_writtenRows (h : ∀ row ∈ rows, ∀ cell ∈ row, CleanCell cell) :
    getlines '\n' (writtenRows crlf rows) =
      rows.map fun row => joined ',' row ++ carriageReturn crlf := by
  refine getlines_terminated ?_
  intro line hline
  rcases List.mem_map.mp hline with ⟨row, hrow, rfl⟩
  exact lf_not_mem_line crlf (h row hrow)

theorem cells_joined {row : List Str} (hne : row ≠ []) (h : ∀ cell ∈ row, CleanCell cell) :
    cells (joined ',' row) = row := by
  rw [cells, columns_joined hne fun cell hcell => (h cell hcell).comma]
  exact List.map_congr_left (fun cell hcell => (h cell hcell).trimmed) |>.trans (List.map_id row)

/-- Every line has its end. -/
theorem not_endsOpen_writtenRows : ¬ EndsOpen (writtenRows crlf rows) := by
  rintro ⟨hne, hlast⟩
  refine hlast ?_
  unfold writtenRows at hne ⊢
  generalize rows.map (fun row => joined ',' row ++ carriageReturn crlf) = lines at hne ⊢
  clear hlast
  induction lines with
  | nil => exact absurd rfl hne
  | cons line lines ih =>
    rw [terminated_cons]
    cases lines with
    | nil => exact List.getLast?_concat
    | cons next lines =>
      have hrest : terminated '\n' (next :: lines) ≠ [] := by
        rw [terminated_cons]
        exact List.append_ne_nil_of_right_ne_nil _ (List.cons_ne_nil _ _)
      rw [List.getLast?_append, List.getLast?_cons, ih hrest]
      rfl

theorem withoutMark_writtenFile {mark : Bool}
    (h : (writtenRows crlf rows).head? ≠ byteOrderMark.head?) :
    withoutMark (writtenFile mark crlf rows) = writtenRows crlf rows := by
  cases mark with
  | true => exact if_pos rfl
  | false =>
    refine if_neg ?_
    intro hmark
    refine h ?_
    rw [← hmark, List.head?_take, if_neg (by decide)]
    rfl

/-- A header that does not look like a byte-order mark is read back with its rows. -/
theorem tableLines_writtenFile {mark : Bool} (h : ∀ row ∈ rows, ∀ cell ∈ row, CleanCell cell)
    (hhead : (writtenRows crlf rows).head? ≠ byteOrderMark.head?) :
    tableLines (writtenFile mark crlf rows) = rows.map (joined ',') := by
  rw [tableLines, withoutMark_writtenFile hhead, getlines_writtenRows h, List.map_map]
  exact List.map_congr_left fun row hrow => cLine_joined crlf (h row hrow)

end Written

end FyreDL.FastCsv
