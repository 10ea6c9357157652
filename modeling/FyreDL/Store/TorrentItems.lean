import FyreDL.Store.CurlItems

/-!
# FyreDL.Store.TorrentItems — the BitTorrent records

`addTorrentItem` and `readTorrentItems` of `cmnroutines.cpp`, with the four functions
that write and read the files and the trackers of a torrent.

* A torrent is twelve items under its id, and for each file two further texts and for
  each tracker one, under keys of three parts: id, kind and number. Such a text is one
  row of comma-separated values behind a header line.
* The writer takes a torrent without trackers; the reader throws on it. The reader
  fetches the last tracker only.
* `read_torrent_files_addendum` builds a second `GkCsvReader` inside the loop over the
  first one. The statics are shared, so that the second one also resets the position of
  the first. The loop need not end then: `fuel` is a bound on its rounds, and a run that
  ends within some bound is a run of the code.
* The status of a torrent is stored as its name and read as a number.
* A local record that the source leaves uninitialised starts out empty, with zeros.
-/

namespace FyreDL.Store

open Lib Lib.Kv Csv

/-- `convDlStat_toString`. -/
def convDlStatToString : DownloadStatus → Str
  | .downloading => "Downloading".toList
  | .completed => "Completed".toList
  | .failed => "Failed".toList
  | .paused => "Paused".toList
  | .stopped => "Stopped".toList
  | .unknown => "Unknown".toList
  | .invalid => "Invalid".toList

/-! ## Keys and texts -/

/-- The items of a torrent, in the order of `addTorrentItem`. -/
def torrentItems (general : GeneralInfo) : List (Str × Str) :=
  [(leveldbKeyTorrentInsertDate, toText general.insertTimestamp),
   (leveldbKeyTorrentCompltDate, toText general.compltTimestamp),
   (leveldbKeyTorrentCreatnDate, toText general.creatnTimestamp),
   (leveldbKeyTorrentDlstatus, convDlStatToString general.dlStatus),
   (leveldbKeyTorrentTorrntComment, general.comment),
   (leveldbKeyTorrentTorrntCreator, general.creator),
   (leveldbKeyTorrentMagnetUri, general.magnetUri),
   (leveldbKeyTorrentTorrntName, general.torrentName),
   (leveldbKeyTorrentNumFiles, toText general.numFiles),
   (leveldbKeyTorrentNumTrackers, toText general.numTrackers),
   (leveldbKeyTorrentTorrntPieces, toText general.numPieces),
   (leveldbKeyTorrentTorrntPieceLength, toText general.pieceLength)]

/-- The keys of a torrent, in the order of `readTorrentItems`. -/
def torrentKeys : List Str :=
  [leveldbKeyTorrentInsertDate, leveldbKeyTorrentCompltDate, leveldbKeyTorrentCreatnDate,
   leveldbKeyTorrentDlstatus, leveldbKeyTorrentTorrntComment, leveldbKeyTorrentTorrntCreator,
   leveldbKeyTorrentMagnetUri, leveldbKeyTorrentTorrntName, leveldbKeyTorrentNumFiles,
   leveldbKeyTorrentNumTrackers, leveldbKeyTorrentTorrntPieces,
   leveldbKeyTorrentTorrntPieceLength]

/-- The key of file number `counter`. -/
def fileKey (downloadKey : Str) (counter : Int) : Str :=
  multipartKey [downloadKey, leveldbKeyTorrentTorrentFiles, toText counter]

/-- The key of the pieces of file number `counter`. -/
def mapflepceKey (downloadKey : Str) (counter : Int) : Str :=
  multipartKey [downloadKey, leveldbChildNodeTorrentFilesMapflepce, toText counter]

/-- The key of tracker number `counter`. -/
def trackerKey (downloadKey : Str) (counter : Int) : Str :=
  multipartKey [downloadKey, leveldbKeyTorrentTrackers, toText counter]

def fileHeaders : List Str :=
  [leveldbCsvTorrentFilePath, leveldbCsvTorrentFileContentLength, leveldbCsvTorrentFileSha1,
   leveldbCsvTorrentFileFileOffset, leveldbCsvTorrentFileMtime,
   leveldbCsvTorrentFileMapflepceKey, leveldbCsvTorrentFileBoolDled, leveldbCsvTorrentFileFlags]

def mapflepceHeaders : List Str := [leveldbCsvTorrentMapflepce1, leveldbCsvTorrentMapflepce2]

def trackerHeaders : List Str :=
  [leveldbCsvTorrentTrackerUrl, leveldbCsvTorrentTrackerTier,
   leveldbCsvTorrentTrackerBoolEnabled]

/-- The cells of a file, with the key of its pieces among them. -/
def fileCells (mapflepceKey : Str) (f : TorrentFile) : List Str :=
  [f.filePath, toText f.contentLength, f.sha1HashHex, toText f.fileOffset, toText f.mtime,
   mapflepceKey, boolText f.downloaded, toText f.flags]

def mapflepceCells (f : TorrentFile) : List Str :=
  [toText f.mapFilePiece.1, toText f.mapFilePiece.2]

def trackerCells (t : TorrentTrackers) : List Str :=
  [t.url, toText t.tier, boolText t.enabled]

/-! ## Writing -/

/-- The batch of `write_torrent_files_addendum` for file number `counter`. -/
def fileBatch (downloadKey : Str) (counter : Int) (f : TorrentFile) : List (Op Str Str) :=
  [.delete (fileKey downloadKey counter), .delete (mapflepceKey downloadKey counter),
   .put (fileKey downloadKey counter)
     (rowText fileHeaders (fileCells (mapflepceKey downloadKey counter) f)),
   .put (mapflepceKey downloadKey counter) (rowText mapflepceHeaders (mapflepceCells f))]

/-- The batch of `write_torrent_trkrs_addendum` for tracker number `counter`. -/
def trackerBatch (downloadKey : Str) (counter : Int) (t : TorrentTrackers) :
    List (Op Str Str) :=
  [.delete (trackerKey downloadKey counter),
   .put (trackerKey downloadKey counter) (rowText trackerHeaders (trackerCells t))]

/-- A `Write` whose failure is told by the result. -/
def writeOk (batch : List (Op Str Str)) : DbProg Bool :=
  Prog.locked (Prog.write batch fun
    | none => .ret true
    | some _ => .ret false)

/-- The loop of the two writers: one batch for each element, numbered on from
`counter`, up to the first `Write` that fails. -/
def writeEach {α : Type} (batch : Int → α → List (Op Str Str)) : Int → List α → DbProg Bool
  | _, [] => pure true
  | counter, a :: rest => do
    let ok ← writeOk (batch counter a)
    if ok then writeEach batch (counter + 1) rest else pure false

/-- `write_torrent_files_addendum`. -/
def writeTorrentFilesAddendum (toFilesVec : List TorrentFile) (downloadKey : Str) :
    DbProg Bool :=
  if toFilesVec ≠ [] then writeEach (fileBatch downloadKey) 1 toFilesVec else pure false

/-- `write_torrent_trkrs_addendum`. -/
def writeTorrentTrkrsAddendum (toTrackersVec : List TorrentTrackers) (downloadKey : Str) :
    DbProg Bool :=
  if toTrackersVec ≠ [] then writeEach (trackerBatch downloadKey) 1 toTrackersVec else pure true

/-- The exception of an `addTorrentItem` that got another id than it asked for. -/
def uniqueIdMismatch (uniqueId downloadKey : Str) : Str :=
  "Unique ID mismatch while adding a BitTorrent item!\n\n".toList ++ uniqueId ++
    " != ".toList ++ downloadKey

/-- The message box of an `addTorrentItem` whose files or trackers are not stored. -/
def torrentInsertIssue (torrentName : Str) : Str :=
  "There was an error with inserting the following BitTorrent item into the database: \"".toList ++
    torrentName ++ "\".".toList

/-- What `addTorrentItem` makes of its argument before it stores it. -/
def torrentInfoToStore (now : Int) (gkTi : TorrentInfo) : TorrentInfo :=
  { gkTi with general := { gkTi.general with insertTimestamp := now } }

section ToStore

variable (now : Int) (gkTi : TorrentInfo)

@[simp] theorem torrentInfoToStore_uniqueId :
    (torrentInfoToStore now gkTi).general.uniqueId = gkTi.general.uniqueId := rfl

@[simp] theorem torrentInfoToStore_downDest :
    (torrentInfoToStore now gkTi).general.downDest = gkTi.general.downDest := rfl

@[simp] theorem torrentInfoToStore_filesVec :
    (torrentInfoToStore now gkTi).filesVec = gkTi.filesVec := rfl

@[simp] theorem torrentInfoToStore_trackers :
    (torrentInfoToStore now gkTi).trackers = gkTi.trackers := rfl

end ToStore

/-- `addTorrentItem`: its result and its argument as it leaves it. -/
def addTorrentItem (drawn : Str) (now : Int) (gkTi : TorrentInfo) : DbProg (Bool × TorrentInfo) :=
  if gkTi.general.downDest ≠ [] then
    let gkTi := torrentInfoToStore now gkTi
    Prog.tryCatch (do
      let downloadKey ← addDownloadId drawn gkTi.general.downDest true gkTi.general.uniqueId
      if gkTi.general.uniqueId ≠ downloadKey then
        .throw (uniqueIdMismatch gkTi.general.uniqueId downloadKey)
      else do
        addItems downloadKey (torrentItems gkTi.general)
        let wtfRet ← writeTorrentFilesAddendum gkTi.filesVec downloadKey
        let wttRet ← writeTorrentTrkrsAddendum gkTi.trackers downloadKey
        if wtfRet = false ∨ wttRet = false then
          .warn (torrentInsertIssue gkTi.general.torrentName) (.ret (false, gkTi))
        else pure (true, gkTi))
      fun e => .warn e (.ret (false, gkTi))
  else pure (false, gkTi)

/-! ## Reading rows -/

/-- `has_column` for each name, up to the first that is missing. -/
def hasColumns (rd : GkCsvReader) : List Str → Except Str Bool
  | [] => .ok true
  | name :: rest => do
    if ← hasColumn rd name then hasColumns rd rest else return false

/-- "Missing vital data as FyreDL attempts to import BitTorrent item, ..." -/
def missingVitalData (downloadKey : Str) : Str :=
  "Missing vital data as FyreDL attempts to import BitTorrent item, \"".toList ++ downloadKey ++
    "\".".toList

/-- A reader over a text with a header line, and a message box if one of the columns is
missing in it. -/
def openRows (columnCount : Nat) (data : Str) (headers columns : List Str) (downloadKey : Str)
    (st : Statics) : DbProg (GkCsvReader × Statics) :=
  match GkCsvReader.make columnCount false data headers st with
  | .error what => .throw what
  | .ok (rd, st) =>
    match hasColumns rd columns with
    | .error what => .throw what
    | .ok true => .ret (rd, st)
    | .ok false => .warn (missingVitalData downloadKey) (.ret (rd, st))

/-- The columns that `read_torrent_files_addendum` looks for. -/
def vitalFileColumns : List Str :=
  [leveldbCsvTorrentFilePath, leveldbCsvTorrentFileContentLength,
   leveldbCsvTorrentFileFileOffset, leveldbCsvTorrentFileBoolDled]

/-- The exception of a file whose pieces cannot be fetched. -/
def fileProcessingIssue (downloadKey status : Str) : Str :=
  "Error whilst processing files for BitTorrent item: \"".toList ++ downloadKey ++
    "\".\nError: ".toList ++ status

/-- The exception of a file that names no key of its pieces. -/
def invalidKeyProvided (downloadKey : Str) : Str :=
  "Invalid key provided whilst processing files for BitTorrent item: \"".toList ++ downloadKey ++
    "\".".toList

/-- The `Get` of the pieces of a file. -/
def getMapflepce (downloadKey mapflepceKey : Str) : DbProg Str :=
  Prog.get mapflepceKey fun
    | .found v => .ret v
    | .notFound => .throw (fileProcessingIssue downloadKey notFoundText)
    | .error e => .throw (fileProcessingIssue downloadKey e)

/-- The second reader: at most one row of it is taken. The statics it leaves are those
with which the first one goes on. -/
def readMapflepce (downloadKey data : Str) (item : TorrentFile) (st : Statics) :
    DbProg (TorrentFile × Statics) := do
  let (rd, st) ← openRows 2 data mapflepceHeaders mapflepceHeaders downloadKey st
  match readRow rd (List.range 2) (fun _ => []) st with
  | none => .hang
  | some (false, _, st) => pure (item, st)
  | some (true, vars, st) =>
    pure ({ item with mapFilePiece := (ofText (vars 0), ofText (vars 1)) }, st)

/-- The body of the loop of `read_torrent_files_addendum` over the rows of one text. -/
def readFileRow (downloadKey : Str) (vars : Vars) (item : TorrentFile) (st : Statics) :
    DbProg (TorrentFile × Statics) :=
  if downloadKey ≠ [] then
    let item := { item with
      uniqueId := downloadKey
      filePath := vars 0
      contentLength := ofText (vars 1)
      sha1HashHex := vars 2
      fileOffset := ofText (vars 3)
      mtime := ofText (vars 4)
      downloaded := convertBoolFromInt (ofText (vars 6))
      flags := ofText (vars 7) }
    if vars 5 ≠ [] then do
      let csvMapflepceData ← getMapflepce downloadKey (vars 5)
      readMapflepce downloadKey csvMapflepceData item st
    else .throw (invalidKeyProvided downloadKey)
  else pure (item, st)

/-- That loop, for at most `fuel` rounds. -/
def readFileRows (downloadKey : Str) (rd : GkCsvReader) :
    Nat → Vars → TorrentFile → Statics → DbProg (List TorrentFile)
  | 0, _, _, _ => .hang
  | fuel + 1, vars, item, st =>
    match readRow rd (List.range 8) vars st with
    | none => .hang
    | some (false, _, _) => pure []
    | some (true, vars, st) => do
      let (item, st) ← readFileRow downloadKey vars item st
      let rest ← readFileRows downloadKey rd fuel vars item st
      pure (item :: rest)

/-- A `TorrentFile` nobody has set a field of. -/
def blankFile : TorrentFile := ⟨[], [], [], 0, 0, 0, 0, (0, 0), false⟩

/-- The files in one text of `read_torrent_files_addendum`. -/
def readFileText (fuel : Nat) (downloadKey csvFileData : Str) : DbProg (List TorrentFile) :=
  if parsable csvFileData then do
    let (rd, st) ← openRows 8 csvFileData fileHeaders vitalFileColumns downloadKey Statics.reset
    readFileRows downloadKey rd fuel (fun _ => []) blankFile st
  else pure []

/-- The loop of `read_torrent_files_addendum` over the next files from number `counter`
on. A text that is missing leaves nothing of the files. -/
def readFilesFrom (fuel : Nat) (downloadKey : Str) :
    Nat → Int → List TorrentFile → DbProg (List TorrentFile)
  | 0, _, toFiles => pure toFiles
  | left + 1, counter, toFiles =>
    Prog.get (fileKey downloadKey counter) fun
      | .found csvFileData => do
        let files ← readFileText fuel downloadKey csvFileData
        readFilesFrom fuel downloadKey left (counter + 1) (toFiles ++ files)
      | .notFound => .ret []
      | .error _ => .ret []

/-- `read_torrent_files_addendum`. -/
def readTorrentFilesAddendum (fuel : Nat) (numFiles : Int) (downloadKey : Str) :
    DbProg (List TorrentFile) :=
  if numFiles > 0 then Prog.locked (readFilesFrom fuel downloadKey numFiles.toNat 1 [])
  else pure []

/-- A `TorrentTrackers` nobody has set a field of. -/
def blankTracker : TorrentTrackers := ⟨[], 0, [], false⟩

/-- The tracker in one text of `read_torrent_trkrs_addendum`: that of the last row. -/
def readTrackerText (downloadKey csvTrackerData : Str) : DbProg (List TorrentTrackers) :=
  if parsable csvTrackerData then do
    let (rd, st) ←
      openRows 3 csvTrackerData trackerHeaders trackerHeaders downloadKey Statics.reset
    match readAll rd 3 (fun _ => []) st with
    | none => .hang
    | some (rows, _) =>
      match rows.getLast? with
      | none => pure [blankTracker]
      | some vs => pure [{
          uniqueId := downloadKey
          tier := ofText (vs.getD 1 [])
          url := vs.getD 0 []
          enabled := convertBoolFromInt (ofText (vs.getD 2 [])) }]
  else pure []

/-- One round of the loop of `read_torrent_trkrs_addendum`. Nothing comes of it where the
text is missing. -/
def readTracker (downloadKey : Str) (counter : Int) : DbProg (Option (List TorrentTrackers)) :=
  Prog.locked (Prog.get (trackerKey downloadKey counter) fun
    | .found csvTrackerData => do
      let trackers ← readTrackerText downloadKey csvTrackerData
      pure (some trackers)
    | .notFound => .ret none
    | .error _ => .ret none)

/-- That loop, while `counter` is `above` more than `num_trackers`. -/
def readTrackersFrom (numTrackers : Int) (downloadKey : Str) :
    Nat → List TorrentTrackers → DbProg (List TorrentTrackers)
  | 0, toTrackers => pure toTrackers
  | above + 1, toTrackers => do
    match ← readTracker downloadKey (numTrackers + above) with
    | none => pure []
    | some trackers => readTrackersFrom numTrackers downloadKey above (toTrackers ++ trackers)

/-- `read_torrent_trkrs_addendum`. The counter starts at `num_trackers + 1`. -/
def readTorrentTrkrsAddendum (numTrackers : Int) (downloadKey : Str) :
    DbProg (List TorrentTrackers) :=
  if numTrackers > 0 then readTrackersFrom numTrackers downloadKey 1 [] else pure []

/-- The loop is left after one round, that of the last tracker. -/
theorem readTorrentTrkrsAddendum_pos {numTrackers : Int} (h : numTrackers > 0)
    (downloadKey : Str) :
    readTorrentTrkrsAddendum numTrackers downloadKey =
      readTracker downloadKey numTrackers >>= fun trackers => pure (trackers.getD []) := by
  rw [readTorrentTrkrsAddendum, if_pos h, readTrackersFrom, Nat.cast_zero, add_zero]
  congr 1
  funext trackers
  cases trackers <;> rfl

/-! ## Reading torrents -/

/-- What `readTorrentItems` makes of an entry and of the values under its keys. -/
def generalInfo (id : Entry) (value : Str → Str) : GeneralInfo where
  uniqueId := id.1
  downDest := id.2.1
  insertTimestamp := ofText (value leveldbKeyTorrentInsertDate)
  compltTimestamp := ofText (value leveldbKeyTorrentCompltDate)
  creatnTimestamp := ofText (value leveldbKeyTorrentCreatnDate)
  dlStatus := convDlStatIntToEnum (ofText (value leveldbKeyTorrentDlstatus))
  comment := value leveldbKeyTorrentTorrntComment
  creator := value leveldbKeyTorrentTorrntCreator
  magnetUri := value leveldbKeyTorrentMagnetUri
  torrentName := value leveldbKeyTorrentTorrntName
  numFiles := ofText (value leveldbKeyTorrentNumFiles)
  numTrackers := ofText (value leveldbKeyTorrentNumTrackers)
  numPieces := ofText (value leveldbKeyTorrentTorrntPieces)
  pieceLength := ofText (value leveldbKeyTorrentTorrntPieceLength)

/-- The exception of a torrent whose files come out empty. -/
def noFileLayout (torrentName : Str) : Str :=
  "Unable to interpret the internal file-layout for BitTorrent item, \"".toList ++ torrentName ++
    "\".".toList

/-- The exception of a torrent whose trackers come out empty. -/
def noTrackers (torrentName : Str) : Str :=
  "Unable to determine the trackers for BitTorrent item, \"".toList ++ torrentName ++ "\".".toList

/-- The files of a torrent, unless the readout is minimal. -/
def readTorrentFiles (fuel : Nat) (minimalReadout : Bool) (genInfo : GeneralInfo) :
    DbProg (List TorrentFile) :=
  if minimalReadout then pure []
  else do
    let filesInfoVec ← readTorrentFilesAddendum fuel genInfo.numFiles genInfo.uniqueId
    if filesInfoVec ≠ [] then pure filesInfoVec else .throw (noFileLayout genInfo.torrentName)

/-- The body of the loop of `readTorrentItems`. -/
def readTorrentItem (fuel : Nat) (minimalReadout : Bool) (id : Entry) : DbProg TorrentInfo := do
  let values ← readItems id.1 torrentKeys
  let genInfo := generalInfo id (valueAt values)
  let filesVec ← readTorrentFiles fuel minimalReadout genInfo
  let trackersInfoVec ← readTorrentTrkrsAddendum genInfo.numTrackers id.1
  if trackersInfoVec ≠ [] then pure ⟨genInfo, trackersInfoVec, filesVec⟩
  else .throw (noTrackers genInfo.torrentName)

/-- "Therefore it's a BitTorrent item!" -/
def IsTorrent (id : Entry) : Prop := id.2.2 = true ∧ id.2.1 ≠ []

instance (id : Entry) : Decidable (IsTorrent id) := inferInstanceAs (Decidable (_ ∧ _))

/-- The loop of `readTorrentItems`. -/
def readTorrentRecords (fuel : Nat) (minimalReadout : Bool) : List Entry → DbProg (List TorrentInfo)
  | [] => pure []
  | id :: rest =>
    if IsTorrent id then do
      let toInfo ← readTorrentItem fuel minimalReadout id
      let output ← readTorrentRecords fuel minimalReadout rest
      pure (toInfo :: output)
    else readTorrentRecords fuel minimalReadout rest

/-- `readTorrentItems`. An exception is shown and leaves nothing of the records. -/
def readTorrentItems (fuel : Nat) (ord : IterOrder Entry) (minimalReadout : Bool) :
    DbProg (List TorrentInfo) :=
  Prog.tryCatch (do
    let downloadIds ← extractDownloadIds true
    if downloadIds ≠ [] then readTorrentRecords fuel minimalReadout (ord.order downloadIds)
    else pure [])
    fun e => .warn e (.ret [])

/-- `modifyTorrentItem`. It writes nothing. -/
def modifyTorrentItem (uniqueId : Str) (_ : DownloadStatus) : DbProg Bool :=
  if uniqueId ≠ [] then pure true else pure false

/-- `delTorrentItem`. It deletes nothing. -/
def delTorrentItem (_ : Str) : DbProg Bool := pure false

end FyreDL.Store
