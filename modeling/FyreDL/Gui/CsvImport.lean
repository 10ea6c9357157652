import FyreDL.Csv.FastReader
import FyreDL.Gui.AddUrl

/-!
# FyreDL.Gui.CsvImport — from a CSV file to the rows that are emitted

The part of `AddURL::on_buttonBox_accepted` that reads a CSV file, with the loop over `csv_vec`
of `FyreDL.Gui.AddUrl` behind it. All rows are read before the first of them is looked up.

* `importFile_emits` — an import emits the rows of a file that is a table, and none of any other
  file, however the file is cut by the blocks of the reader.
* `importFile_written` — a table that is written with separators comes back from the import.
-/

namespace FyreDL.Gui

open Lib FastCsv

/-- What the server answers for a row, and the number that is drawn for it. -/
structure Answers where
  verify : Performed
  grab : Performed
  drawn : Str
deriving DecidableEq, Repr

/-- How the dialog ends. -/
inductive ImportOutcome where
  | accepted
  | warned (text : Str)
  | aborted
  | hang
deriving DecidableEq, Repr

def ImportOutcome.ofStop (csvFile : Str) : Stop → ImportOutcome
  | .error error => .warned (error.what csvFile)
  | .assertion => .aborted
  | .hang => .hang

/-- The columns that are asked for. -/
def importColumns : List Str := [urlAddCsvFieldUrl, urlAddCsvFieldDest, urlAddCsvFieldHash]

/-- The variables `url`, `dest` and `hash` as a `CsvImport`. -/
def csvImport (cols : List Str) : CsvImport where
  url := cols.getD 0 []
  dest := cols.getD 1 []
  hash := cols.getD 2 []

/-- A row with the answers to it. -/
def answerRow (cols : List Str) (answers : Answers) : ImportedRow where
  row := csvImport cols
  verify := answers.verify
  grab := answers.grab
  drawn := answers.drawn

/-- What `has_column` says of the columns. -/
def importHeader (reader : CSVReader) : CsvHeader where
  hasUrl := reader.hasColumn urlAddCsvFieldUrl
  hasDestination := reader.hasColumn urlAddCsvFieldDest
  hasHash := reader.hasColumn urlAddCsvFieldHash

/-- The import of a file that could be opened. -/
def importFile (blockLen fuel : Nat) (buffer : Memory) (qt : QtTexts) (csvFile csvFileDest : Str)
    (file : Str) (memory : ImportVars) (answers : Nat → Answers) : List Details × ImportOutcome :=
  match readHeader blockLen (LineReader.make blockLen buffer file) ignoreMissingColumn
      importColumns with
  | .error stop => ([], .ofStop csvFile stop)
  | .ok reader =>
    if !(importHeader reader).hasUrl then ([], .warned (badCsvFile csvFile))
    else if !(importHeader reader).hasDestination && csvFileDest.isEmpty then
      ([], .warned noDestinationProvided)
    else
      match reader.readRows blockLen fuel [[], [], []] with
      | .error stop => ([], .ofStop csvFile stop)
      | .ok rows =>
        match importCsv qt csvFile csvFileDest (importHeader reader) memory
            (rows.mapIdx fun i cols => answerRow cols (answers i)) with
        | (sent, none) => (sent, .accepted)
        | (sent, some what) => (sent, .warned what)

/-! ## What is imported -/

/-- The columns that the header of the file has. -/
def csvHeader (file : Str) : CsvHeader where
  hasUrl := (tableHeader file).contains urlAddCsvFieldUrl
  hasDestination := (tableHeader file).contains urlAddCsvFieldDest
  hasHash := (tableHeader file).contains urlAddCsvFieldHash

/-- The file is a table with URLs, and the destinations are in it or in the dialog. -/
structure Importable (blockLen : Nat) (buffer : Memory) (csvFileDest file : Str) : Prop where
  table : IsTable blockLen buffer importColumns file
  url : (csvHeader file).hasUrl = true
  destination : (csvHeader file).hasDestination = true ∨ csvFileDest ≠ []

instance (blockLen : Nat) (buffer : Memory) (csvFileDest file : Str) :
    Decidable (Importable blockLen buffer csvFileDest file) :=
  decidable_of_iff (IsTable blockLen buffer importColumns file ∧
      (csvHeader file).hasUrl = true ∧
      ((csvHeader file).hasDestination = true ∨ csvFileDest ≠ []))
    ⟨fun h => ⟨h.1, h.2.1, h.2.2⟩, fun h => ⟨h.table, h.url, h.destination⟩⟩

/-- The rows of the file with the answers to them. -/
def importedRows (file : Str) (answers : Nat → Answers) : List ImportedRow :=
  (tableBody importColumns file).mapIdx fun i cols => answerRow cols (answers i)

section ImportFile

variable {blockLen fuel : Nat} {buffer : Memory} {qt : QtTexts} {csvFile csvFileDest file : Str}
  {memory : ImportVars} {answers : Nat → Answers}

/-- Without a column for them there are no hashes. -/
theorem csvVecRow_importedRows {imported : ImportedRow} (h : imported ∈ importedRows file answers) :
    csvVecRow (csvHeader file) imported = imported := by
  rcases List.mem_mapIdx.mp h with ⟨i, hi, rfl⟩
  have hmem := List.getElem_mem hi
  generalize (tableBody importColumns file)[i] = cols at hmem
  rcases List.mem_map.mp hmem with ⟨line, -, rfl⟩
  by_cases hhash : urlAddCsvFieldHash ∈ tableHeader file
  · have hhas : (csvHeader file).hasHash = true := List.contains_iff_mem.mpr hhash
    rw [csvVecRow, if_pos hhas]
  · have hhas : ¬ (csvHeader file).hasHash = true := fun h => hhash (List.contains_iff_mem.mp h)
    have hempty : (answerRow (tableRow importColumns (tableHeader file) (cells line))
        (answers i)).row.hash = [] := by
      change (((tableHeader file).zip (cells line)).lookup urlAddCsvFieldHash).getD [] = []
      rw [lookup_zip_eq_none hhash]
      rfl
    rw [csvVecRow, if_neg hhas, ← hempty]

/-- No row throws where a destination is given. -/
theorem importRows_completes {header : CsvHeader}
    (hdest : header.hasDestination = true ∨ csvFileDest ≠ []) (vars : ImportVars)
    (rows : List ImportedRow) : (importRows qt header csvFileDest vars rows).2 = none := by
  induction rows generalizing vars with
  | nil => rfl
  | cons imported rest ih =>
    rcases importRow_ok qt hdest vars imported with ⟨vars', hok, -⟩
    rw [importRows, hok]
    exact ih vars'

/-- What the reader knows of the columns. -/
theorem importHeader_of_readHeader (hblock : 2 ≤ blockLen) {reader : CSVReader}
    (h : readHeader blockLen (LineReader.make blockLen buffer file) ignoreMissingColumn
      importColumns = .ok reader) :
    importHeader reader = csvHeader file := by
  rcases readHeader_ok_iff.mp h with ⟨line, next, hnext, hknown, -, rfl⟩
  have htitle := tableHeader_of_nextLine hblock hnext
  have hhas : ∀ name, CSVReader.hasColumn ⟨next, fun _ => none, importColumns,
      (cells line).map (place importColumns)⟩ name = (tableHeader file).contains name := by
    intro name
    rw [Bool.eq_iff_iff, hasColumn_iff hknown rfl rfl, htitle, List.contains_iff_mem]
  rw [importHeader, hhas, hhas, hhas]
  rfl

theorem nodup_importColumns : importColumns.Nodup := by decide

theorem importFile_of_importable (hblock : 2 ≤ blockLen) (hfuel : file.length < fuel)
    (h : Importable blockLen buffer csvFileDest file) :
    importFile blockLen fuel buffer qt csvFile csvFileDest file memory answers =
      ((importCsv qt csvFile csvFileDest (csvHeader file) memory (importedRows file answers)).1,
        .accepted) := by
  rcases (readTable_ok_iff nodup_importColumns buffer file hblock hfuel _).mpr ⟨h.table, rfl⟩ with
    ⟨reader, hheader, hrows⟩
  have hurl := h.url
  have hgiven : ¬ (!(csvHeader file).hasDestination && csvFileDest.isEmpty) = true := by
    rcases h.destination with hdest | hdest
    · simp [hdest]
    · simp [hdest]
  have hcompletes : (importCsv qt csvFile csvFileDest (csvHeader file) memory
      (importedRows file answers)).2 = none := by
    rw [importCsv, if_neg (by simp [hurl]), if_neg hgiven]
    exact importRows_completes h.destination _ _
  rw [importFile, hheader]
  dsimp only
  rw [importHeader_of_readHeader hblock hheader, if_neg (by simp [hurl]), if_neg hgiven]
  have hnil : importColumns.map (fun _ => ([] : Str)) = [[], [], []] := rfl
  rw [← hnil, hrows]
  dsimp only
  rw [← importedRows]
  rcases hresult : importCsv qt csvFile csvFileDest (csvHeader file) memory
    (importedRows file answers) with ⟨sent, thrown⟩
  rw [hresult] at hcompletes
  cases hcompletes
  rfl

/-- What is emitted for the rows of a file that can be imported. -/
theorem importCsv_importedRows (h : Importable blockLen buffer csvFileDest file) (i : Nat) :
    (importCsv qt csvFile csvFileDest (csvHeader file) memory (importedRows file answers)).1[i]? =
      (importedRows file answers)[i]?.map fun imported =>
        rowDetails qt (csvHeader file) csvFileDest
          (lastEffectiveUrl [] ((importedRows file answers).take i)) imported := by
  rw [importCsv_details h.url h.destination]
  cases hrow : (importedRows file answers)[i]? with
  | none => rfl
  | some imported =>
    rw [Option.map_some, Option.map_some, csvVecRow_importedRows (List.mem_of_getElem? hrow)]

theorem importFile_of_not_importable (qt : QtTexts) (csvFile : Str) (memory : ImportVars)
    (answers : Nat → Answers) (hblock : 2 ≤ blockLen) (hfuel : file.length < fuel)
    (h : ¬ Importable blockLen buffer csvFileDest file) :
    (importFile blockLen fuel buffer qt csvFile csvFileDest file memory answers).1 = [] ∧
      (importFile blockLen fuel buffer qt csvFile csvFileDest file memory answers).2 ≠
        .accepted := by
  have hstop : ∀ stop, ImportOutcome.ofStop csvFile stop ≠ .accepted := by
    intro stop
    cases stop with
    | error error => exact fun h => nomatch h
    | assertion => exact fun h => nomatch h
    | hang => exact fun h => nomatch h
  rw [importFile]
  cases hheader : readHeader blockLen (LineReader.make blockLen buffer file) ignoreMissingColumn
      importColumns with
  | error stop => exact ⟨rfl, hstop stop⟩
  | ok reader =>
    dsimp only
    rw [importHeader_of_readHeader hblock hheader]
    split
    · exact ⟨rfl, fun h => nomatch h⟩
    · rename_i hurl
      split
      · exact ⟨rfl, fun h => nomatch h⟩
      · rename_i hgiven
        cases hrows : reader.readRows blockLen fuel [[], [], []] with
        | error stop => exact ⟨rfl, hstop stop⟩
        | ok rows =>
          -- the file is a table, and nothing is missing
          have htable := (readTable_ok_iff nodup_importColumns buffer file hblock hfuel rows).mp
            ⟨reader, hheader, hrows⟩
          refine absurd ⟨htable.1, ?_, ?_⟩ h
          · simpa using hurl
          · simpa [or_iff_not_imp_left] using hgiven

/-- **All or nothing.** An import is accepted exactly for a table with URLs and a destination for
them, and then each of its rows is emitted. Of any other file nothing is. -/
theorem importFile_emits (hblock : 2 ≤ blockLen) (hfuel : file.length < fuel) :
    ((importFile blockLen fuel buffer qt csvFile csvFileDest file memory answers).2 = .accepted ↔
        Importable blockLen buffer csvFileDest file) ∧
      ∀ i, (importFile blockLen fuel buffer qt csvFile csvFileDest file memory answers).1[i]? =
        if Importable blockLen buffer csvFileDest file then
          (importedRows file answers)[i]?.map fun imported =>
            rowDetails qt (csvHeader file) csvFileDest
              (lastEffectiveUrl [] ((importedRows file answers).take i)) imported
        else none := by
  by_cases h : Importable blockLen buffer csvFileDest file
  · rw [importFile_of_importable hblock hfuel h]
    refine ⟨iff_of_true rfl h, ?_⟩
    intro i
    rw [if_pos h]
    exact importCsv_importedRows h i
  · rcases importFile_of_not_importable qt csvFile memory answers hblock hfuel h with
      ⟨hnone, houtcome⟩
    refine ⟨iff_of_false houtcome h, ?_⟩
    intro i
    rw [hnone, if_neg h]
    rfl

end ImportFile

/-! ## Tables that are written -/

section Written

variable {blockLen fuel : Nat} {buffer : Memory} {qt : QtTexts} {csvFile csvFileDest : Str}
  {memory : ImportVars} {answers : Nat → Answers} {mark crlf : Bool} {titles : List Str}
  {rows : List (List Str)}

/-- Rows under titles, with the answers to them. -/
def titledRows (titles : List Str) (rows : List (List Str)) (answers : Nat → Answers) :
    List ImportedRow :=
  rows.mapIdx fun i row => answerRow (tableRow importColumns titles row) (answers i)

/-- The titles are clean, and no byte-order mark. -/
theorem importColumns_clean {title : Str} (h : title ∈ importColumns) :
    CleanCell title ∧ ∃ c rest, title = c :: rest ∧ some c ≠ byteOrderMark.head? := by
  have hall : ∀ title ∈ importColumns, CleanCell title ∧ title ≠ [] ∧
      title.head? ≠ byteOrderMark.head? := by decide
  rcases hall title h with ⟨hclean, hne, hhead⟩
  refine ⟨hclean, ?_⟩
  cases title with
  | nil => exact absurd rfl hne
  | cons c rest => exact ⟨c, rest, rfl, hhead⟩

theorem head_writtenRows (crlf : Bool) (rows : List (List Str)) (hne : titles ≠ [])
    (hknown : titles ⊆ importColumns) :
    (writtenRows crlf (titles :: rows)).head? ≠ byteOrderMark.head? := by
  cases titles with
  | nil => exact absurd rfl hne
  | cons title titles =>
    rcases (importColumns_clean (hknown List.mem_cons_self)).2 with ⟨c, rest, rfl, hc⟩
    rw [writtenRows, List.map_cons, terminated_cons]
    cases titles with
    | nil => exact hc
    | cons next titles => exact hc

/-- **Round trip.** A table that is written with the separators, in any order of its columns and
with any of the two ends of lines, is imported as it was written. -/
theorem importFile_written (hblock : 2 ≤ blockLen)
    (hfuel : (writtenFile mark crlf (titles :: rows)).length < fuel)
    (hknown : titles ⊆ importColumns) (hnodup : titles.Nodup)
    (hurl : urlAddCsvFieldUrl ∈ titles) (hdest : urlAddCsvFieldDest ∈ titles ∨ csvFileDest ≠ [])
    (hwidth : ∀ row ∈ rows, row.length = titles.length)
    (hclean : ∀ row ∈ rows, ∀ cell ∈ row, CleanCell cell)
    (hshort : ∀ row ∈ titles :: rows, (joined ',' row).length + 1 < blockLen) :
    (importFile blockLen fuel buffer qt csvFile csvFileDest
        (writtenFile mark crlf (titles :: rows)) memory answers).2 = .accepted ∧
      ∀ i, (importFile blockLen fuel buffer qt csvFile csvFileDest
          (writtenFile mark crlf (titles :: rows)) memory answers).1[i]? =
        (titledRows titles rows answers)[i]?.map fun imported =>
          rowDetails qt
            ⟨true, titles.contains urlAddCsvFieldDest, titles.contains urlAddCsvFieldHash⟩
            csvFileDest (lastEffectiveUrl [] ((titledRows titles rows answers).take i))
              imported := by
  have hne : titles ≠ [] := List.ne_nil_of_mem hurl
  have hhead := head_writtenRows crlf rows hne hknown
  have hcleanTitles : ∀ title ∈ titles, CleanCell title := fun title htitle =>
    (importColumns_clean (hknown htitle)).1
  have hcleanAll : ∀ row ∈ titles :: rows, ∀ cell ∈ row, CleanCell cell := by
    intro row hrow
    rcases List.mem_cons.mp hrow with rfl | hrow
    · exact hcleanTitles
    · exact hclean row hrow
  generalize hfile : writtenFile mark crlf (titles :: rows) = file at hfuel ⊢
  have hlines : tableLines file = joined ',' titles :: rows.map (joined ',') := by
    rw [← hfile, tableLines_writtenFile hcleanAll hhead]
    rfl
  have hheader : tableHeader file = titles := by
    rw [tableHeader, hlines]
    exact cells_joined hne hcleanTitles
  have hcells : ∀ row ∈ rows, cells (joined ',' row) = row := by
    intro row hrow
    refine cells_joined ?_ (hclean row hrow)
    intro hnil
    have hlength := hwidth row hrow
    rw [hnil] at hlength
    exact hne (List.eq_nil_of_length_eq_zero hlength.symm)
  have hbody : tableBody importColumns file = rows.map (tableRow importColumns titles) := by
    rw [tableBody, hlines, hheader, List.tail_cons, List.map_map]
    refine List.map_congr_left ?_
    intro row hrow
    exact congrArg (tableRow importColumns titles) (hcells row hrow)
  have htext : withoutMark file = writtenRows crlf (titles :: rows) := by
    rw [← hfile, withoutMark_writtenFile hhead]
  have htable : IsTable blockLen buffer importColumns file := by
    refine ⟨hheader ▸ hne, hheader ▸ hknown, hheader ▸ hnodup, ?_, ?_, ?_⟩
    · rw [hlines, hheader]
      intro line hline
      rcases List.mem_map.mp hline with ⟨row, hrow, rfl⟩
      rw [hcells row hrow, hwidth row hrow]
    · rw [htext, getlines_writtenRows hcleanAll]
      intro line hline
      rcases List.mem_map.mp hline with ⟨row, hrow, rfl⟩
      have hrowShort := hshort row hrow
      have hend : (carriageReturn crlf).length ≤ 1 := by
        cases crlf with
        | true => exact Nat.le_refl 1
        | false => exact Nat.zero_le 1
      rw [List.length_append]
      omega
    · rw [htext]
      exact fun hopen => not_endsOpen_writtenRows hopen.1
  have hcolumns : csvHeader file =
      ⟨true, titles.contains urlAddCsvFieldDest, titles.contains urlAddCsvFieldHash⟩ := by
    rw [csvHeader, hheader, List.contains_iff_mem.mpr hurl]
  have himportable : Importable blockLen buffer csvFileDest file := by
    refine ⟨htable, ?_, ?_⟩
    · rw [hcolumns]
    · rw [hcolumns]
      exact hdest.imp_left List.contains_iff_mem.mpr
  have hrows : importedRows file answers = titledRows titles rows answers := by
    apply List.ext_getElem?
    intro i
    rw [importedRows, hbody, titledRows, List.getElem?_mapIdx, List.getElem?_mapIdx,
      List.getElem?_map, Option.map_map]
    rfl
  rw [importFile_of_importable hblock hfuel himportable, ← hrows, ← hcolumns]
  exact ⟨rfl, importCsv_importedRows himportable⟩

end Written

/-- A table of URLs and hashes, and a destination in the dialog. -/
theorem importFile_written_sample :
    (importFile 64 200 (fun _ => '\n') sampleTexts "in.csv".toList "/dl".toList
      (writtenFile true true
        [[urlAddCsvFieldHash, urlAddCsvFieldUrl], ["5d41".toList, "http://a/disc.iso".toList]])
      zeroMemory fun _ => ⟨.failed 6 [], .failed 6 [], ['7']⟩).2 = .accepted :=
  (importFile_written (by decide) (by decide) (by decide) (by decide) (by decide) (.inr (by decide))
    (by decide) (by decide +kernel) (by decide)).1

/-- The same when the buffer cuts the file into many blocks. -/
theorem importFile_emits_sample :
    (importFile 24 200 (fun _ => '\n') sampleTexts "in.csv".toList "/dl".toList
      "url , hash\nhttp://a/disc.iso,5d41\nhttp://b/disc.iso ,\n".toList zeroMemory
      fun _ => ⟨.failed 6 [], .failed 6 [], ['7']⟩).2 = .accepted :=
  (importFile_emits (by decide) (by decide)).1.mpr (by decide +kernel)

end FyreDL.Gui
