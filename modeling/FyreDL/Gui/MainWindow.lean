import FyreDL.Gui.DownloadModel
import FyreDL.Lib.KvTrace
import FyreDL.Store.TorrentItems

/-!
# FyreDL.Gui.MainWindow — the rows and their cache

`MainWindow` keeps two lists of the downloads: the table, and `gk_dl_info_cache`, in
which each action on a row finds the download by the hidden id of the row.
`insertNewRow`, `removeSelRows`, `clearOldHistory`, `readFromHistoryFile` and
`sendDetails` change them.

* An operation is a program over the database that takes and returns the window. The
  answers of the user and of the file system are parameters.
* The table shows one row as selected at most (`SingleSelection`).
* `delCharts` is empty in the source. Of the cached data the graphs and statistics are
  left out, of the texts those of message boxes without an effect.
-/

namespace FyreDL.Gui

open Lib Lib.Kv Store

/-! ## The window -/

/-- `Global::DownloadInfo`. -/
structure DownloadInfo where
  dlType : DownloadType
  dlDest : Str
  uniqueId : Str
  toInfo : Option TorrentInfo
  curlInfo : Option CurlDlInfo
deriving DecidableEq, Repr

/-- The table and `gk_dl_info_cache`. -/
structure MainWindow where
  vectorList : VectorList
  gkDlInfoCache : List DownloadInfo
deriving DecidableEq, Repr

/-- What reading the database leaves open: the order of the hash maps, and a bound on the
rounds of the loops over torrent files. -/
structure Reading where
  ord : IterOrder Entry
  fuel : Nat

/-- The `what()` of `std::vector::at`. -/
def rangeCheck : Str := "vector::_M_range_check".toList

def colLessThanZero : Str :=
  "'col' is less than zero! Please restart the application and try again.".toList

/-- An operation of the table. Nothing is known of what follows undefined behaviour. -/
def ofTable {α : Type} : Except ModelFault α → DbProg α
  | .ok a => .ret a
  | .error .undefined => .hang
  | .error .outOfRange => .throw rangeCheck
  | .error .invalidArgument => .throw colLessThanZero

/-- `ui->downloadView->model()->data(model()->index(row, column)).toString()`. -/
def textAt (vectorList : VectorList) (row column : Int) : DbProg Str := do
  let value ← ofTable (data vectorList (modelIndex vectorList row column) .displayRole)
  pure (value.getD [])

/-! ## Inserting -/

/-- "Value, ..., already exists when it shouldn't!" -/
def alreadyExists (uniqueId : Str) : Str :=
  "Value, '".toList ++ uniqueId ++ "', already exists when it shouldn't!".toList

def emptyFileDest : Str := "Unable to initialize charts! 'file_dest' is empty!".toList

/-- `initCharts`: the cache with the download. -/
def initCharts (rd : Reading) (uniqueId downDest : Str) (downloadType : DownloadType)
    (cache : List DownloadInfo) : DbProg (List DownloadInfo) :=
  if uniqueId ≠ [] then
    if ∃ info ∈ cache, info.uniqueId = uniqueId then .throw (alreadyExists uniqueId)
    else if downloadType = .http ∨ downloadType = .ftp then do
      let curlDlInfo ← readCurlItems rd.ord
      let curlInfo := curlDlInfo.find? fun info => info.uniqueId = uniqueId
      pure (cache ++ [⟨downloadType, downDest, uniqueId, none, curlInfo⟩])
    else do
      let gkTorrentInfo ← readTorrentItems rd.fuel rd.ord false
      let toInfo := gkTorrentInfo.find? fun info => info.general.uniqueId = uniqueId
      pure (cache ++ [⟨downloadType, downDest, uniqueId, toInfo, none⟩])
  else .throw emptyFileDest

/-- `insertNewRow`. The row stays when `initCharts` throws. -/
def insertNewRow (qt : QtTexts) (rd : Reading) (w : MainWindow) (row : NewRow) :
    DbProg MainWindow := do
  let vectorList ← ofTable (insertNewCells qt w.vectorList row)
  Prog.tryCatch (do
    let cache ← initCharts rd row.uniqueId row.destination row.downloadType w.gkDlInfoCache
    pure ⟨vectorList, cache⟩)
    fun e => .warn e (.ret ⟨vectorList, w.gkDlInfoCache⟩)

/-! ## Loading the history -/

/-- The row of a stored download. -/
def curlRow (info : CurlDlInfo) : NewRow where
  fileName := info.extInfo.effectiveUrl
  fileSize := info.extInfo.contentLength
  downloaded := 0
  progress := 0
  upSpeed := 0
  downSpeed := 0
  status := info.dlStatus
  url := info.extInfo.effectiveUrl
  destination := info.fileLoc
  uniqueId := info.uniqueId
  downloadType := .http

/-- The size of a torrent. -/
def torrentLength (info : TorrentInfo) : ℚ := info.general.numPieces * info.general.pieceLength

/-- The row of a stored torrent. -/
def torrentRow (info : TorrentInfo) : NewRow where
  fileName := info.general.torrentName
  fileSize := torrentLength info
  downloaded := 0
  progress := 0
  upSpeed := 0
  downSpeed := 0
  status := info.general.dlStatus
  url := info.general.magnetUri
  destination := info.general.downDest
  uniqueId := info.general.uniqueId
  downloadType := .torrent

def sizeUndetermined : Str :=
  "The size of the download could not be determined. Please try again.".toList

def noDestination (fileName : Str) : Str :=
  "The item below has no download destination! FyreDL cannot proceed with insertion of said item.\n\n\"".toList ++
    fileName ++ "\"\n\nTherefore an attempt is being made at deleting this from the database.".toList

def noTorrentLength (torrentName : Str) : Str :=
  "Content length for the below torrent is either zero or negative! FyreDL cannot proceed with insertion of said torrent.\n\n".toList ++
    torrentName

def noTorrentDestination (torrentName : Str) : Str :=
  "The torrent below has no download destination! FyreDL cannot proceed with insertion of said torrent.\n\n\"".toList ++
    torrentName ++ "\"".toList

/-- The loop of `readFromHistoryFile` over the HTTP/FTP downloads. -/
def loadCurlItems (qt : QtTexts) (rd : Reading) (w : MainWindow) :
    List CurlDlInfo → DbProg MainWindow
  | [] => pure w
  | info :: rest =>
    if info.fileLoc ≠ [] then
      if info.extInfo.contentLength > 0 then do
        let w ← insertNewRow qt rd w (curlRow info)
        loadCurlItems qt rd w rest
      else .warn sizeUndetermined (loadCurlItems qt rd w rest)
    else .warn (noDestination (qt.fileName info.extInfo.effectiveUrl))
      (if info.uniqueId ≠ [] then do
        let _ ← delCurlItem rd.ord [] info.uniqueId
        loadCurlItems qt rd w rest
      else loadCurlItems qt rd w rest)

/-- The loop over the torrents. -/
def loadTorrentItems (qt : QtTexts) (rd : Reading) (w : MainWindow) :
    List TorrentInfo → DbProg MainWindow
  | [] => pure w
  | info :: rest =>
    if info.general.downDest ≠ [] then
      if torrentLength info > 0 then do
        let w ← insertNewRow qt rd w (torrentRow info)
        loadTorrentItems qt rd w rest
      else .warn (noTorrentLength info.general.torrentName) (loadTorrentItems qt rd w rest)
    else .warn (noTorrentDestination info.general.torrentName) (loadTorrentItems qt rd w rest)

/-- The two lists that `readFromHistoryFile` shows. -/
def readHistory (rd : Reading) : DbProg (List CurlDlInfo × List TorrentInfo) := do
  let dlHistory ← readCurlItems rd.ord
  let gkTorrentHistory ← readTorrentItems rd.fuel rd.ord true
  pure (dlHistory, gkTorrentHistory)

/-- `readFromHistoryFile`. As many rows as there are HTTP/FTP downloads are taken off the
top of the table first. -/
def readFromHistoryFile (qt : QtTexts) (rd : Reading) (w : MainWindow) : DbProg MainWindow := do
  let (dlHistory, gkTorrentHistory) ← readHistory rd
  let w := { w with vectorList := removeRows w.vectorList 0 dlHistory.length }
  let w ← loadCurlItems qt rd w dlHistory
  loadTorrentItems qt rd w gkTorrentHistory

/-! ## Adding a download -/

/-- The arguments of `sendDetails`: those of `insertNewRow`, and what is stored beside. -/
structure Details where
  row : NewRow
  hashType : HashType
  hashVal : Str
  respCode : Int
  statOk : Option Bool
  statMsg : Str
deriving DecidableEq, Repr

/-- What `sendDetails` stores. Its local record leaves two fields as they are: `elapsed`,
which is not stored, and `hash_succ_type`. -/
def Details.info (details : Details) (hashSuccType : HashVerif) : CurlDlInfo where
  fileLoc := details.row.destination
  insertTimestamp := 0
  compltTimestamp := 0
  dlStatus := details.row.status
  extInfo :=
    { statusOk := details.statOk
      statusMsg := details.statMsg
      responseCode := details.respCode
      elapsed := 0
      effectiveUrl := details.row.url
      contentLength := details.row.fileSize }
  uniqueId := details.row.uniqueId
  hashType := details.hashType
  hashValGiven := details.hashVal
  hashValRtrnd := []
  hashSuccType := hashSuccType

/-- An HTTP/FTP download is looked for by its destination, a torrent by its URL, in all
the cells of the table. -/
def isDuplicate (w : MainWindow) (row : NewRow) : Bool :=
  let text := if row.downloadType = .http ∨ row.downloadType = .ftp then row.destination
    else row.url
  w.vectorList.any fun cells => cells.any fun cell => cell = text

def duplicateEntry (destination : Str) : Str :=
  "There has been an attempt at a duplicate entry!\n\n".toList ++ destination

/-- `sendDetails`. -/
def sendDetails (qt : QtTexts) (rd : Reading) (drawn : Str) (now : Int) (hashSuccType : HashVerif)
    (details : Details) (w : MainWindow) : DbProg MainWindow :=
  if isDuplicate w details.row then .warn (duplicateEntry details.row.destination) (.ret w)
  else do
    let w ← insertNewRow qt rd w details.row
    if details.row.downloadType = .http ∨ details.row.downloadType = .ftp then do
      let _ ← addCurlItem drawn now (details.info hashSuccType)
      pure w
    else pure w

/-! ## Removing -/

/-- The loop of `removeSelRows` over the cache: the first entry with the id is deleted
from the database and erased. -/
def eraseCached (ord : IterOrder Entry) (fileDest uniqueId : Str) :
    List DownloadInfo → DbProg (List DownloadInfo)
  | [] => pure []
  | info :: rest =>
    if info.uniqueId = uniqueId then
      if info.dlType = .http ∨ info.dlType = .ftp then do
        let _ ← delCurlItem ord fileDest []
        pure rest
      else do
        let _ ← delTorrentItem info.uniqueId
        pure rest
    else do
      let rest ← eraseCached ord fileDest uniqueId rest
      pure (info :: rest)

/-- `removeSelRows`. -/
def removeSelRows (ord : IterOrder Entry) (selected : Option Nat) (w : MainWindow) :
    DbProg MainWindow :=
  match selected with
  | none => pure w
  | some row => Prog.tryCatch (do
      let fileDest ← textAt w.vectorList row mnDestinationCol
      let selRowUniqueId ← textAt w.vectorList row mnHiddenUniqueId
      let cache ← eraseCached ord fileDest selRowUniqueId w.gkDlInfoCache
      pure ⟨removeRows w.vectorList row 1, cache⟩)
      fun e => .warn e (.ret w)

/-! ## Clearing -/

/-- What `boost::filesystem` finds at a path. -/
inductive FileKind where
  | missing
  | directory
  | regular
  | other
deriving DecidableEq, Repr

/-- The status of a path, or the text of the exception that asking for it throws. -/
abbrev FileStatus := Str → Except Str FileKind

/-- `QMessageBox::StandardButton`, as far as it is asked for. -/
inductive StandardButton where
  | yes | no | cancel | apply | other
deriving DecidableEq, Repr

/-- `clearOldHistory`, for one completed row: the download is deleted from the database. -/
def deleteCompleted (ord : IterOrder Entry) (files : FileStatus) (vectorList : VectorList)
    (row : Nat) (fileDest : Str) : DbProg Unit :=
  match files fileDest with
  | .error what => .throw what
  | .ok kind =>
    if kind ≠ .directory ∧ kind = .regular then do
      let _ ← delCurlItem ord fileDest []
      pure ()
    else do
      let uniqueId ← textAt vectorList row mnHiddenUniqueId
      let _ ← delTorrentItem uniqueId
      pure ()

/-- The loop of `clearOldHistory` over the rows: those that are completed, or nothing when
an exception has ended it. -/
def completedRows (ord : IterOrder Entry) (files : FileStatus) (vectorList : VectorList) :
    List Nat → DbProg (Option (List Nat))
  | [] => pure (some [])
  | row :: rest => do
    let statString ← textAt vectorList row mnStatusCol
    if statString = convDlStatToString .completed then do
      let fileDest ← textAt vectorList row mnDestinationCol
      let deleted ← Prog.tryCatch (do
        deleteCompleted ord files vectorList row fileDest
        pure true)
        fun e => .warn e (.ret false)
      if deleted then do
        let indexes ← completedRows ord files vectorList rest
        pure (indexes.map fun indexes => row :: indexes)
      else pure none
    else completedRows ord files vectorList rest

/-- The rows that were found, removed from the last one on. -/
def removeFound (vectorList : VectorList) (indexes : List Nat) : VectorList :=
  indexes.foldr (fun (row : Nat) vectorList => removeRows vectorList row 1) vectorList

/-- `clearOldHistory`. The cache is left as it is. -/
def clearOldHistory (ord : IterOrder Entry) (files : FileStatus) (answer : StandardButton)
    (w : MainWindow) : DbProg MainWindow :=
  if answer = .apply then do
    let indexes ← completedRows ord files w.vectorList (List.range w.vectorList.length)
    match indexes with
    | none => pure w
    | some indexes => pure { w with vectorList := removeFound w.vectorList indexes }
  else pure w

end FyreDL.Gui
