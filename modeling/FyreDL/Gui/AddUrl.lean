import FyreDL.Gui.MainWindow

/-!
# FyreDL.Gui.AddUrl — the import of a CSV file

The part of `AddURL::on_buttonBox_accepted` that imports the rows of a CSV file, with the
two functions of `curl_easy.cpp` that ask the server about a URL.

* The variables `info`, `info_ext` and `dl_info` are those of all rows. The numbers in them
  are not set at the beginning, the texts are empty.
* `importCsv_details` — what is emitted for a row, as a function of the row, of the answers
  to it and of the URL that `info_ext` has by then.
* `importCsv_same_iff` — a row that cannot be reached gets its file name from the last row
  before it that could, so rows do influence each other.
-/

namespace FyreDL.Gui

open Lib

/-! ## `curl_easy.cpp` -/

/-- `curl_easy_perform`: an error, or what `curl_easy_getinfo` tells of the transfer. -/
inductive Performed where
  | failed (curlRes : Int) (error : Str)
  | done (rescode : Int) (elapsed : ℚ) (effecUrl : Str) (contentLength : ℚ)
deriving DecidableEq, Repr

/-- `verifyFileExists`, from a handle that could be made. -/
def verifyFileExists : Performed → CurlInfo
  | .failed curlRes error => ⟨curlRes, error⟩
  | .done rescode _ effecUrl _ => ⟨rescode, effecUrl⟩

/-- `curlGrabInfo`, likewise. -/
def curlGrabInfo : Performed → CurlInfoExt
  | .failed curlRes error =>
    { statusOk := some false
      statusMsg := []
      responseCode := curlRes
      elapsed := -1
      effectiveUrl := error
      contentLength := -1 }
  | .done rescode elapsed effecUrl contentLength =>
    { statusOk := some true
      statusMsg := []
      responseCode := rescode
      elapsed := elapsed
      effectiveUrl := effecUrl
      contentLength := contentLength }

/-! ## `on_buttonBox_accepted` -/

/-- The columns that the CSV file has. -/
structure CsvHeader where
  hasUrl : Bool
  hasDestination : Bool
  hasHash : Bool
deriving DecidableEq, Repr

/-- `CsvImport`. -/
structure CsvImport where
  url : Str
  dest : Str
  hash : Str
deriving DecidableEq, Repr

/-- A row as it is read, what the two requests for its URL give and the number that is
drawn for it. -/
structure ImportedRow where
  row : CsvImport
  verify : Performed
  grab : Performed
  drawn : Str
deriving DecidableEq, Repr

/-- The variables of the function. -/
structure ImportVars where
  info : CurlInfo
  infoExt : CurlInfoExt
  dlInfo : CurlDlInfo
deriving DecidableEq, Repr

/-- The variables as they are declared, with any numbers in them. -/
def ImportVars.declared (memory : ImportVars) : ImportVars where
  info := { memory.info with effectiveUrl := [] }
  infoExt := { memory.infoExt with statusMsg := [], effectiveUrl := [] }
  dlInfo :=
    { memory.dlInfo with
      fileLoc := []
      extInfo := { memory.dlInfo.extInfo with statusMsg := [], effectiveUrl := [] }
      uniqueId := []
      hashValGiven := []
      hashValRtrnd := [] }

def badCsvFile (csvFile : Str) : Str :=
  "Error reading CSV file! Is it formatted correctly?\n\n".toList ++ csvFile

def noDestinationProvided : Str := "No destination provided either in dialog or CSV file!".toList

def noDestinationFor (url : Str) : Str := "No destination specified for: ".toList ++ url

/-- The destination in the dialog with the file name of a URL. -/
def inDialogDest (qt : QtTexts) (csvFileDest effectiveUrl : Str) : Str :=
  csvFileDest ++ preferredSeparator :: extractFilename qt effectiveUrl

/-- The server says that the file is there. -/
def ImportedRow.Reachable (imported : ImportedRow) : Prop :=
  (verifyFileExists imported.verify).responseCode = 200

instance (imported : ImportedRow) : Decidable imported.Reachable :=
  inferInstanceAs (Decidable (_ = _))

/-- The hash type and the hash for what the row has under `hash`. -/
def givenHash (hash : Str) : HashType × Str :=
  if hash ≠ [] then (.cannotDetermine, hash) else (.none, [])

/-- The body of the loop over `csv_vec`, before `sendDetails`. -/
def importRow (qt : QtTexts) (header : CsvHeader) (csvFileDest : Str) (vars : ImportVars)
    (imported : ImportedRow) : Except Str ImportVars := do
  let info := verifyFileExists imported.verify
  if info.responseCode = 200 then
    let infoExt := curlGrabInfo imported.grab
    let fileLoc ←
      if header.hasDestination then .ok imported.row.dest
      else if csvFileDest ≠ [] then .ok (inDialogDest qt csvFileDest infoExt.effectiveUrl)
      else .error (noDestinationFor imported.row.url)
    return {
      info := info
      infoExt := infoExt
      dlInfo :=
        { vars.dlInfo with
          fileLoc := fileLoc
          insertTimestamp := 0
          dlStatus := .stopped
          extInfo :=
            { vars.dlInfo.extInfo with
              statusOk := infoExt.statusOk
              responseCode := infoExt.responseCode
              effectiveUrl := infoExt.effectiveUrl
              contentLength := infoExt.contentLength }
          uniqueId := imported.drawn
          hashType := (givenHash imported.row.hash).1
          hashValGiven := (givenHash imported.row.hash).2 } }
  else
    -- `info_ext` is still that of an earlier row.
    let fileLoc :=
      if csvFileDest ≠ [] then inDialogDest qt csvFileDest vars.infoExt.effectiveUrl
      else if header.hasDestination then imported.row.dest
      else vars.dlInfo.fileLoc
    return {
      info := info
      infoExt := vars.infoExt
      dlInfo :=
        { vars.dlInfo with
          fileLoc := fileLoc
          insertTimestamp := 0
          dlStatus := .invalid
          extInfo :=
            { vars.dlInfo.extInfo with
              statusOk := some false
              responseCode := info.responseCode
              effectiveUrl := imported.row.url
              contentLength := 0 }
          uniqueId := imported.drawn
          hashType := (givenHash imported.row.hash).1
          hashValGiven := (givenHash imported.row.hash).2 } }

/-- The arguments of `sendDetails` at the end of the body. -/
def emittedDetails (dlInfo : CurlDlInfo) : Details where
  row :=
    { fileName := dlInfo.extInfo.effectiveUrl
      fileSize := dlInfo.extInfo.contentLength
      downloaded := 0
      progress := 0
      upSpeed := 0
      downSpeed := 0
      status := dlInfo.dlStatus
      url := dlInfo.extInfo.effectiveUrl
      destination := dlInfo.fileLoc
      uniqueId := dlInfo.uniqueId
      downloadType := .http }
  hashType := dlInfo.hashType
  hashVal := dlInfo.hashValGiven
  respCode := dlInfo.extInfo.responseCode
  statOk := dlInfo.extInfo.statusOk
  statMsg := []

/-- The loop over `csv_vec`: what is emitted, and the exception that ends it. -/
def importRows (qt : QtTexts) (header : CsvHeader) (csvFileDest : Str) :
    ImportVars → List ImportedRow → List Details × Option Str
  | _, [] => ([], none)
  | vars, imported :: rest =>
    match importRow qt header csvFileDest vars imported with
    | .error what => ([], some what)
    | .ok vars =>
      let (sent, thrown) := importRows qt header csvFileDest vars rest
      (emittedDetails vars.dlInfo :: sent, thrown)

/-- What is pushed onto `csv_vec` for a row. -/
def csvVecRow (header : CsvHeader) (imported : ImportedRow) : ImportedRow :=
  { imported with
    row := { imported.row with hash := if header.hasHash then imported.row.hash else [] } }

/-- The import of a CSV file that exists. -/
def importCsv (qt : QtTexts) (csvFile csvFileDest : Str) (header : CsvHeader)
    (memory : ImportVars) (rows : List ImportedRow) : List Details × Option Str :=
  if !header.hasUrl then ([], some (badCsvFile csvFile))
  else if !header.hasDestination && csvFileDest.isEmpty then ([], some noDestinationProvided)
  else importRows qt header csvFileDest memory.declared (rows.map (csvVecRow header))

/-! ## What is emitted for a row -/

/-- The URL that `info_ext` has after some rows: that of the last reachable one. -/
def lastEffectiveUrl (effectiveUrl : Str) (rows : List ImportedRow) : Str :=
  rows.foldl (fun effectiveUrl imported =>
    if imported.Reachable then (curlGrabInfo imported.grab).effectiveUrl else effectiveUrl)
    effectiveUrl

/-- Where the file of a row goes when `info_ext` has this URL from the rows before. -/
def rowDestination (qt : QtTexts) (header : CsvHeader) (csvFileDest effectiveUrl : Str)
    (imported : ImportedRow) : Str :=
  if imported.Reachable then
    if header.hasDestination then imported.row.dest
    else inDialogDest qt csvFileDest (curlGrabInfo imported.grab).effectiveUrl
  else if csvFileDest ≠ [] then inDialogDest qt csvFileDest effectiveUrl
  else imported.row.dest

/-- What is emitted for a row when `info_ext` has this URL from the rows before. -/
def rowDetails (qt : QtTexts) (header : CsvHeader) (csvFileDest effectiveUrl : Str)
    (imported : ImportedRow) : Details :=
  let answer :=
    if imported.Reachable then curlGrabInfo imported.grab
    else
      { statusOk := some false
        statusMsg := []
        responseCode := (verifyFileExists imported.verify).responseCode
        elapsed := 0
        effectiveUrl := imported.row.url
        contentLength := 0 }
  { row :=
      { fileName := answer.effectiveUrl
        fileSize := answer.contentLength
        downloaded := 0
        progress := 0
        upSpeed := 0
        downSpeed := 0
        status := if imported.Reachable then .stopped else .invalid
        url := answer.effectiveUrl
        destination := rowDestination qt header csvFileDest effectiveUrl imported
        uniqueId := imported.drawn
        downloadType := .http }
    hashType := (givenHash imported.row.hash).1
    hashVal := (givenHash imported.row.hash).2
    respCode := answer.responseCode
    statOk := answer.statusOk
    statMsg := [] }

section Import

variable {qt : QtTexts} {header : CsvHeader} {csvFileDest : Str} {vars : ImportVars}

/-- One row, where a destination is given in the file or in the dialog. -/
theorem importRow_ok (qt : QtTexts) (hdest : header.hasDestination = true ∨ csvFileDest ≠ [])
    (vars : ImportVars) (imported : ImportedRow) :
    ∃ vars', importRow qt header csvFileDest vars imported = .ok vars' ∧
      emittedDetails vars'.dlInfo =
        rowDetails qt header csvFileDest vars.infoExt.effectiveUrl imported ∧
      vars'.infoExt.effectiveUrl = lastEffectiveUrl vars.infoExt.effectiveUrl [imported] := by
  unfold importRow rowDetails rowDestination lastEffectiveUrl
  by_cases hreach : imported.Reachable
  · have hcode : (verifyFileExists imported.verify).responseCode = 200 := hreach
    simp only [if_pos hcode, if_pos hreach, List.foldl_cons, List.foldl_nil]
    by_cases hcolumn : header.hasDestination = true
    · simp only [if_pos hcolumn]
      exact ⟨_, rfl, rfl, rfl⟩
    · have hdialog : csvFileDest ≠ [] := hdest.resolve_left hcolumn
      simp only [if_neg hcolumn, if_pos hdialog]
      exact ⟨_, rfl, rfl, rfl⟩
  · have hcode : ¬ (verifyFileExists imported.verify).responseCode = 200 := hreach
    simp only [if_neg hcode, if_neg hreach, List.foldl_cons, List.foldl_nil]
    refine ⟨_, rfl, ?_, rfl⟩
    by_cases hdialog : csvFileDest ≠ []
    · simp only [if_pos hdialog, emittedDetails]
    · simp only [if_neg hdialog, if_pos (hdest.resolve_right hdialog), emittedDetails]

/-- The rows one after the other. -/
theorem importRows_get (hdest : header.hasDestination = true ∨ csvFileDest ≠ [])
    (rows : List ImportedRow) (i : Nat) :
    (importRows qt header csvFileDest vars rows).1[i]? =
      rows[i]?.map fun imported => rowDetails qt header csvFileDest
        (lastEffectiveUrl vars.infoExt.effectiveUrl (rows.take i)) imported := by
  induction rows generalizing vars i with
  | nil => rfl
  | cons imported rest ih =>
    obtain ⟨vars', hok, hdetails, hurl⟩ := importRow_ok qt hdest vars imported
    rw [importRows, hok]
    cases i with
    | zero =>
      simp only [List.getElem?_cons_zero, Option.map_some, hdetails]
      rfl
    | succ i =>
      simp only [List.getElem?_cons_succ, ih, hurl]
      rfl

/-- The hash is all that `csv_vec` has different. -/
theorem lastEffectiveUrl_csvVec (header : CsvHeader) (effectiveUrl : Str)
    (rows : List ImportedRow) :
    lastEffectiveUrl effectiveUrl (rows.map (csvVecRow header)) =
      lastEffectiveUrl effectiveUrl rows := by
  unfold lastEffectiveUrl
  rw [List.foldl_map]
  rfl

/-- The import of a file that has URLs and destinations, or destinations from the dialog. -/
theorem importCsv_details (hurl : header.hasUrl = true)
    (hdest : header.hasDestination = true ∨ csvFileDest ≠ []) (csvFile : Str)
    (memory : ImportVars) (rows : List ImportedRow) (i : Nat) :
    (importCsv qt csvFile csvFileDest header memory rows).1[i]? =
      rows[i]?.map fun imported => rowDetails qt header csvFileDest
        (lastEffectiveUrl [] (rows.take i)) (csvVecRow header imported) := by
  have hgiven : ¬ (!header.hasDestination && csvFileDest.isEmpty) = true := by
    rcases hdest with hdest | hdest
    · simp [hdest]
    · simp [hdest]
  rw [importCsv, if_neg (by simp [hurl]), if_neg hgiven, importRows_get hdest, List.getElem?_map,
    Option.map_map, ← List.map_take, lastEffectiveUrl_csvVec]
  rfl

/-- An import that is refused emits nothing. -/
theorem importCsv_refused
    (h : header.hasUrl = false ∨ header.hasDestination = false ∧ csvFileDest = [])
    (csvFile : Str) (memory : ImportVars) (rows : List ImportedRow) :
    (importCsv qt csvFile csvFileDest header memory rows).1 = [] := by
  unfold importCsv
  by_cases hurl : header.hasUrl = false
  · simp [hurl]
  · obtain ⟨hcolumn, hdialog⟩ := h.resolve_left hurl
    simp [hurl, hcolumn, hdialog]

end Import

/-! ## Two imports -/

/-- The same row, to which the server gives the same answers. -/
structure ImportedRow.Agrees (imported imported' : ImportedRow) : Prop where
  row : imported.row = imported'.row
  verify : imported.verify = imported'.verify
  grab : imported.grab = imported'.grab

/-- The details without the unique id, which is random. -/
def Details.withoutId (details : Details) : Details :=
  { details with row := { details.row with uniqueId := [] } }

/-- The same details are emitted for the row, apart from its unique id, or none. -/
def SameDetails (sent sent' : List Details) (i : Nat) : Prop :=
  sent[i]?.map Details.withoutId = sent'[i]?.map Details.withoutId

section Pair

variable {imported imported' : ImportedRow}

theorem ImportedRow.Agrees.reachable (h : imported.Agrees imported') :
    imported.Reachable ↔ imported'.Reachable := by
  unfold ImportedRow.Reachable
  rw [h.verify]

theorem ImportedRow.Agrees.csvVec (h : imported.Agrees imported') (header : CsvHeader) :
    (csvVecRow header imported).Agrees (csvVecRow header imported') := by
  refine ⟨?_, h.verify, h.grab⟩
  unfold csvVecRow
  rw [h.row]

/-- The destination is all in which the details of a row can differ. -/
theorem withoutId_rowDetails_iff (h : imported.Agrees imported') (qt : QtTexts)
    (header : CsvHeader) (csvFileDest effectiveUrl effectiveUrl' : Str) :
    (rowDetails qt header csvFileDest effectiveUrl imported).withoutId =
        (rowDetails qt header csvFileDest effectiveUrl' imported').withoutId ↔
      rowDestination qt header csvFileDest effectiveUrl imported =
        rowDestination qt header csvFileDest effectiveUrl' imported' := by
  constructor
  · intro hsame
    exact congrArg (fun details => details.row.destination) hsame
  · intro hdest
    have hreach := h.reachable
    unfold Details.withoutId rowDetails
    simp only [hdest, hreach, h.row, h.verify, h.grab]

/-- The destination depends on the rows before only if the row cannot be reached and the
dialog has a destination. -/
theorem rowDestination_eq_iff (h : imported.Agrees imported') (qt : QtTexts)
    (header : CsvHeader) (csvFileDest effectiveUrl effectiveUrl' : Str) :
    rowDestination qt header csvFileDest effectiveUrl imported =
        rowDestination qt header csvFileDest effectiveUrl' imported' ↔
      csvFileDest = [] ∨ imported.Reachable ∨
        extractFilename qt effectiveUrl = extractFilename qt effectiveUrl' := by
  unfold rowDestination
  by_cases hreach : imported.Reachable
  · rw [if_pos hreach, if_pos (h.reachable.mp hreach), h.row, h.grab]
    exact iff_of_true rfl (Or.inr (Or.inl hreach))
  · rw [if_neg hreach, if_neg fun hc => hreach (h.reachable.mpr hc)]
    by_cases hdialog : csvFileDest = []
    · rw [if_neg (not_not.mpr hdialog), if_neg (not_not.mpr hdialog), h.row]
      exact iff_of_true rfl (Or.inl hdialog)
    · rw [if_pos hdialog, if_pos hdialog]
      unfold inDialogDest
      rw [List.append_cancel_left_eq, List.cons.injEq]
      simp [hreach, hdialog]

end Pair

/-- Two imports that agree on a row emit the same details for it exactly if the row can be
reached, the dialog has no destination or the last reachable rows before it have the same
file name. A file without URLs is not imported. -/
theorem importCsv_same_iff (qt : QtTexts) (csvFile csvFileDest : Str) (header : CsvHeader)
    (memory memory' : ImportVars) (rows rows' : List ImportedRow) (i : Nat)
    (imported imported' : ImportedRow) (hrow : rows[i]? = some imported)
    (hrow' : rows'[i]? = some imported') (hagree : imported.Agrees imported') :
    SameDetails (importCsv qt csvFile csvFileDest header memory rows).1
        (importCsv qt csvFile csvFileDest header memory' rows').1 i ↔
      header.hasUrl = false ∨ csvFileDest = [] ∨ imported.Reachable ∨
        extractFilename qt (lastEffectiveUrl [] (rows.take i)) =
          extractFilename qt (lastEffectiveUrl [] (rows'.take i)) := by
  unfold SameDetails
  by_cases hrefused : header.hasUrl = false ∨ header.hasDestination = false ∧ csvFileDest = []
  · rw [importCsv_refused hrefused, importCsv_refused hrefused]
    refine iff_of_true rfl ?_
    rcases hrefused with hurl | ⟨-, hdialog⟩
    · exact Or.inl hurl
    · exact Or.inr (Or.inl hdialog)
  · obtain ⟨hurl, hgiven⟩ := not_or.mp hrefused
    have hdest : header.hasDestination = true ∨ csvFileDest ≠ [] := by
      by_contra hnone
      obtain ⟨hcolumn, hdialog⟩ := not_or.mp hnone
      exact hgiven ⟨Bool.eq_false_iff.mpr hcolumn, not_not.mp hdialog⟩
    have hhas := Bool.not_eq_false _ ▸ hurl
    rw [importCsv_details hhas hdest, importCsv_details hhas hdest, hrow, hrow', Option.map_some,
      Option.map_some, Option.map_some, Option.map_some, Option.some_inj,
      withoutId_rowDetails_iff (hagree.csvVec header),
      rowDestination_eq_iff (hagree.csvVec header), or_iff_right hurl]
    rfl

/-- `QUrl::fileName` of URLs without a query: what comes after the last slash. -/
def sampleTexts : QtTexts where
  fileName := fun url => (url.splitOn '/').getLastD []
  number := fun _ => []

/-- A row whose URL the server answers with this code. -/
def answered (url : String) (code : Int) : ImportedRow where
  row := ⟨url.toList, [], []⟩
  verify := .done code 0 url.toList 5
  grab := .done code 0 url.toList 5
  drawn := ['7']

/-- The last row of two files. -/
def lostRow : ImportedRow := answered "http://b/lost.iso" 404

/-- A file with URLs and nothing else. -/
def urlsOnly : CsvHeader := ⟨true, false, false⟩

/-- Zeros in the variables. -/
def zeroMemory : ImportVars where
  info := ⟨0, []⟩
  infoExt := ⟨some false, [], 0, 0, [], 0⟩
  dlInfo :=
    ⟨[], 0, 0, .unknown, ⟨some false, [], 0, 0, [], 0⟩, [], .none, [], [], .notApplicable⟩

theorem importCsv_same_sample :
    SameDetails
      (importCsv sampleTexts [] "/dl".toList urlsOnly zeroMemory
        [answered "http://a/disc.iso" 200, lostRow]).1
      (importCsv sampleTexts [] "/dl".toList urlsOnly zeroMemory
        [answered "http://c/old/disc.iso" 200, lostRow]).1 1 :=
  (importCsv_same_iff sampleTexts [] "/dl".toList urlsOnly zeroMemory zeroMemory
    [answered "http://a/disc.iso" 200, lostRow] [answered "http://c/old/disc.iso" 200, lostRow] 1
    lostRow lostRow rfl rfl ⟨rfl, rfl, rfl⟩).mpr (by decide +kernel)

/-- After a row that is reached, the file of the lost one has the name of that row. -/
theorem importCsv_leaks :
    ¬ SameDetails
      (importCsv sampleTexts [] "/dl".toList urlsOnly zeroMemory
        [answered "http://a/disc.iso" 200, lostRow]).1
      (importCsv sampleTexts [] "/dl".toList urlsOnly zeroMemory
        [answered "http://a/disc.iso" 404, lostRow]).1 1 := by
  unfold SameDetails
  decide +kernel

end FyreDL.Gui
