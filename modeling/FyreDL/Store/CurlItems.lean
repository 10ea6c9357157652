import FyreDL.Store.Database

/-!
# FyreDL.Store.CurlItems — the HTTP/FTP records

`readCurlItems`, `addCurlItem`, `delCurlItem` and `modifyCurlItem` of
`cmnroutines.cpp`, and the integer codes of the three enumerations that they store.

* A record is eleven items under the id of the download. `curlItems` is the table of
  the keys and values that `addCurlItem` writes, in its order.
* `addCurlItem` writes the two hash enumerations by the position of the enumerator
  (`std::to_string` of an unscoped enumeration); everything else goes through the
  `conv…` functions.
* The clock is the parameter `now`, the order in which an `unordered_map` shows its
  entries the parameter `ord`.
-/

namespace FyreDL.Store

open Lib Lib.Kv Csv

/-! ## Codes of the enumerations -/

/-- `convDlStat_toInt`. -/
def convDlStatToInt : DownloadStatus → Int
  | .downloading => 0
  | .completed => 1
  | .failed => 2
  | .paused => 3
  | .stopped => 4
  | .unknown => 5
  | .invalid => 6

/-- `convDlStat_IntToEnum`. -/
def convDlStatIntToEnum (s : Int) : DownloadStatus :=
  if s = 0 then .downloading
  else if s = 1 then .completed
  else if s = 2 then .failed
  else if s = 3 then .paused
  else if s = 4 then .stopped
  else if s = 5 then .unknown
  else if s = 6 then .invalid
  else .unknown

/-- `convHashType_toInt`. -/
def convHashTypeToInt : HashType → Int
  | .md5 => 1
  | .sha1 => 2
  | .sha256 => 3
  | .sha512 => 4
  | .sha3_256 => 5
  | .sha3_512 => 6
  | .none => 0
  | .cannotDetermine => -1

/-- `convHashType_IntToEnum`. -/
def convHashTypeIntToEnum (t : Int) : HashType :=
  if t = 1 then .md5
  else if t = 2 then .sha1
  else if t = 3 then .sha256
  else if t = 4 then .sha512
  else if t = 5 then .sha3_256
  else if t = 6 then .sha3_512
  else if t = 0 then .none
  else .cannotDetermine

/-- `convHashVerif_toInt`. -/
def convHashVerifToInt : HashVerif → Int
  | .analyzing => enumGekkofyreHashVerifAnalyzing
  | .notApplicable => enumGekkofyreHashVerifNotApplic
  | .verified => enumGekkofyreHashVerifVerified
  | .corrupt => enumGekkofyreHashVerifCorrupt

/-- `convHashVerif_IntToEnum`. -/
def convHashVerifIntToEnum (v : Int) : HashVerif :=
  if v = enumGekkofyreHashVerifAnalyzing then .analyzing
  else if v = enumGekkofyreHashVerifNotApplic then .notApplicable
  else if v = enumGekkofyreHashVerifVerified then .verified
  else if v = enumGekkofyreHashVerifCorrupt then .corrupt
  else .notApplicable

/-- Each code is read back as what it was written for. -/
theorem convDlStatIntToEnum_toInt (s : DownloadStatus) :
    convDlStatIntToEnum (convDlStatToInt s) = s := by cases s <;> rfl

theorem convHashTypeIntToEnum_toInt (t : HashType) :
    convHashTypeIntToEnum (convHashTypeToInt t) = t := by cases t <;> rfl

theorem convHashVerifIntToEnum_toInt (v : HashVerif) :
    convHashVerifIntToEnum (convHashVerifToInt v) = v := by cases v <;> rfl

/-- No position of a hash type is the code of the same hash type. -/
theorem convHashTypeIntToEnum_raw (t : HashType) : convHashTypeIntToEnum (rawHashType t) ≠ t := by
  cases t <;> decide

/-- Of the verdicts, only `NotApplicable` is read back from its position. -/
theorem convHashVerifIntToEnum_raw (v : HashVerif) :
    convHashVerifIntToEnum (rawHashVerif v) = v ↔ v = .notApplicable := by
  cases v <;> decide

/-! ## Items of one download -/

/-- `add_item_db` for each pair, in order. -/
def addItems (downloadId : Str) : List (Str × Str) → DbProg Unit
  | [] => .ret ()
  | (key, value) :: rest => do
    addItemDb downloadId key value
    addItems downloadId rest

/-- `del_item_db` for each key, in order. -/
def delItems (downloadId : Str) : List Str → DbProg Unit
  | [] => .ret ()
  | key :: rest => do
    delItemDb downloadId key
    delItems downloadId rest

/-- The items of a record, in the order of `addCurlItem`. -/
def curlItems (info : CurlDlInfo) : List (Str × Str) :=
  [(leveldbKeyCurlStat, toText (convDlStatToInt info.dlStatus)),
   (leveldbKeyCurlInsertDate, toText info.insertTimestamp),
   (leveldbKeyCurlCompltDate, toText info.compltTimestamp),
   (leveldbKeyCurlStatmsg, info.extInfo.statusMsg),
   (leveldbKeyCurlEffecUrl, info.extInfo.effectiveUrl),
   (leveldbKeyCurlRespCode, toText info.extInfo.responseCode),
   (leveldbKeyCurlContLngth, toFixed6 info.extInfo.contentLength),
   (leveldbKeyCurlHashType, toText (rawHashType info.hashType)),
   (leveldbKeyCurlHashValGiven, info.hashValGiven),
   (leveldbKeyCurlHashValRtrnd, info.hashValRtrnd),
   (leveldbKeyCurlHashSuccType, toText (rawHashVerif info.hashSuccType))]

/-- The keys of a record, in the order of `delCurlItem`. -/
def curlKeys : List Str :=
  [leveldbKeyCurlStat, leveldbKeyCurlInsertDate, leveldbKeyCurlCompltDate,
   leveldbKeyCurlStatmsg, leveldbKeyCurlEffecUrl, leveldbKeyCurlRespCode,
   leveldbKeyCurlContLngth, leveldbKeyCurlHashType, leveldbKeyCurlHashValGiven,
   leveldbKeyCurlHashValRtrnd, leveldbKeyCurlHashSuccType]

/-! ## Reading -/

/-- The record that `readCurlItems` makes of an entry, of the values under its keys
and of the content length. `status_ok` is only set where the response code is a success. -/
def curlRecord (id : Entry) (value : Str → Str) (contentLength : ℚ) : CurlDlInfo where
  fileLoc := id.2.1
  insertTimestamp := ofText (value leveldbKeyCurlInsertDate)
  compltTimestamp := ofText (value leveldbKeyCurlCompltDate)
  dlStatus := convDlStatIntToEnum (ofText (value leveldbKeyCurlStat))
  extInfo :=
    { statusOk :=
        if 200 ≤ ofText (value leveldbKeyCurlRespCode) ∧
            ofText (value leveldbKeyCurlRespCode) < 300 then some true
        else none
      statusMsg := value leveldbKeyCurlStatmsg
      responseCode := ofText (value leveldbKeyCurlRespCode)
      elapsed := -1
      effectiveUrl := value leveldbKeyCurlEffecUrl
      contentLength := contentLength }
  uniqueId := id.1
  hashType := convHashTypeIntToEnum (ofText (value leveldbKeyCurlHashType))
  hashValGiven := value leveldbKeyCurlHashValGiven
  hashValRtrnd := value leveldbKeyCurlHashValRtrnd
  hashSuccType := convHashVerifIntToEnum (ofText (value leveldbKeyCurlHashSuccType))

/-- `read_item_db` for each key, in order. -/
def readItems (downloadId : Str) : List Str → DbProg (List (Str × Str))
  | [] => pure []
  | key :: rest => do
    let value ← readItemDb downloadId key
    let values ← readItems downloadId rest
    pure ((key, value) :: values)

/-- The value read under a key. -/
def valueAt (values : List (Str × Str)) (key : Str) : Str := (values.lookup key).getD []

/-- The `what()` of a failed `std::stod`. -/
def stodText : Str := "stod".toList

/-- The body of the loop of `readCurlItems`. -/
def readCurlItem (id : Entry) : DbProg CurlDlInfo := do
  let values ← readItems id.1 curlKeys
  match ofDecimal (valueAt values leveldbKeyCurlContLngth) with
  | none => .throw stodText
  | some contentLength => pure (curlRecord id (valueAt values) contentLength)

/-- "Therefore it's a libcurl item!" -/
def IsCurl (id : Entry) : Prop := id.2.2 = false ∧ id.2.1 ≠ []

instance (id : Entry) : Decidable (IsCurl id) := inferInstanceAs (Decidable (_ ∧ _))

/-- The loop of `readCurlItems`. -/
def readCurlRecords : List Entry → DbProg (List CurlDlInfo)
  | [] => pure []
  | id :: rest =>
    if IsCurl id then do
      let dlInfo ← readCurlItem id
      let output ← readCurlRecords rest
      pure (dlInfo :: output)
    else readCurlRecords rest

/-- `readCurlItems`. An exception is shown and leaves nothing of the records. -/
def readCurlItems (ord : IterOrder Entry) : DbProg (List CurlDlInfo) :=
  Prog.tryCatch (do
    let downloadIds ← extractDownloadIds false
    if downloadIds ≠ [] then readCurlRecords (ord.order downloadIds) else pure [])
    fun e => .warn e (.ret [])

/-! ## Writing -/

/-- What `addCurlItem` makes of its argument before it stores it. -/
def curlInfoToStore (now : Int) (info : CurlDlInfo) : CurlDlInfo :=
  { info with
    dlStatus := .unknown
    insertTimestamp := now
    compltTimestamp := 0
    extInfo := { info.extInfo with statusMsg := [] } }

/-- The record is one that `addCurlItem` takes. All callers in the program set `status_ok`. -/
def CurlDlInfo.accepted (info : CurlDlInfo) : Prop :=
  info.extInfo.statusOk = some true ∧
    (info.dlStatus = .stopped ∨ info.dlStatus = .invalid ∨ info.dlStatus = .unknown)

instance (info : CurlDlInfo) : Decidable (CurlDlInfo.accepted info) :=
  inferInstanceAs (Decidable (_ ∧ _))

/-- `addCurlItem`: its result and its argument as it leaves it. -/
def addCurlItem (drawn : Str) (now : Int) (dlInfo : CurlDlInfo) : DbProg (Bool × CurlDlInfo) :=
  if CurlDlInfo.accepted dlInfo then
    let dlInfo := curlInfoToStore now dlInfo
    Prog.tryCatch (do
      let downloadKey ← addDownloadId drawn dlInfo.fileLoc false dlInfo.uniqueId
      addItems downloadKey (curlItems dlInfo)
      pure (true, dlInfo))
      fun e => .warn e (.ret (false, dlInfo))
  else pure (false, dlInfo)

/-- The exception of a `delCurlItem` that has no id to work with. -/
def noIdToDelete (fileDest : Str) : Str :=
  "An invalid Unique ID has been provided. Unable to delete download item with storage path, \"".toList ++
    fileDest ++ "\".".toList

/-- The id that `delCurlItem` deletes. -/
def curlIdToDelete (fileDest uniqueIdBackup : Str) : DbProg Str :=
  if uniqueIdBackup = [] ∧ fileDest ≠ [] then do
    let identifier ← determineDownloadId fileDest
    pure identifier.1
  else pure uniqueIdBackup

/-- `delCurlItem`. -/
def delCurlItem (ord : IterOrder Entry) (fileDest uniqueIdBackup : Str) : DbProg Bool :=
  Prog.tryCatch (do
    let downloadId ← curlIdToDelete fileDest uniqueIdBackup
    if downloadId = [] then .throw (noIdToDelete fileDest)
    else do
      delItems downloadId curlKeys
      delDownloadId ord downloadId false)
    fun e => .warn e (.ret false)

/-- The exception of a `modifyCurlItem` that has no id to work with. -/
def noIdToModify (fileLoc : Str) : Str :=
  "An invalid Unique ID has been provided. Unable to modify download item with storage path, \"".toList ++
    fileLoc ++ "\".".toList

/-- The items that `modifyCurlItem` writes. -/
def modifiedItems (status : DownloadStatus) (compltTimestamp : Int) (hashGiven : Str)
    (hashType : HashType) (hashRtrnd : Str) (retSuccType : HashVerif) : List (Str × Str) :=
  (leveldbKeyCurlStat, toText (convDlStatToInt status)) ::
    ((if compltTimestamp > 0 then [(leveldbKeyCurlCompltDate, toText compltTimestamp)] else []) ++
      if retSuccType ≠ .notApplicable then
        [(leveldbKeyCurlHashType, toText (convHashTypeToInt hashType)),
         (leveldbKeyCurlHashValGiven, hashGiven),
         (leveldbKeyCurlHashValRtrnd, hashRtrnd),
         (leveldbKeyCurlHashSuccType, toText (convHashVerifToInt retSuccType))]
      else [])

/-- `modifyCurlItem`, with all its arguments given. The defaults of the header are
`compltTimestamp = 0`, `hashGiven = ""`, `hashType = None`, `hashRtrnd = ""` and
`retSuccType = NotApplicable`. -/
def modifyCurlItem (fileLoc : Str) (status : DownloadStatus) (compltTimestamp : Int)
    (hashGiven : Str) (hashType : HashType) (hashRtrnd : Str) (retSuccType : HashVerif) :
    DbProg Bool :=
  Prog.tryCatch (do
    let identifier ← determineDownloadId fileLoc
    if identifier.1 ≠ [] then do
      addItems identifier.1
        (modifiedItems status compltTimestamp hashGiven hashType hashRtrnd retSuccType)
      pure true
    else .throw (noIdToModify fileLoc))
    fun e => .warn e (.ret false)

end FyreDL.Store
