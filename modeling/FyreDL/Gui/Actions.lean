import FyreDL.Gui.MainWindow
import FyreDL.Lib.Proc
import FyreDL.Transfer.Repeated

/-!
# FyreDL.Gui.Actions — the actions on a row

`resumeDownload`, `pauseDownload`, `haltDownload` and `restartDownload` of
`mainwindow.cpp`, with `startHttpDownload` and `askDeleteHttpItem`.

* A slot is a procedure on the `Desk`: the window, the database, and the signals it has
  sent. It keeps what it has changed when it throws. Each reads the status of the row anew
  from the text of its cell.
* What a slot meets outside of the window is a `World`. The files are looked at before and
  after a dialog. `recvStopDl` is called by `emit`, once for each connection, and its
  exception passes through to the slot.
* A failed `fs::remove` is thrown as a `const char *`, which no handler catches.
* The part of a torrent is the parameter `startTorrentDl`. Message boxes are left out.
-/

namespace FyreDL.Gui

open Lib Lib.Kv Store Transfer

/-! ## Slots -/

/-- What a function throws: a `std::exception`, or the name of an error category. -/
inductive Thrown where
  | exception (what : Str)
  | category (name : Str)
deriving DecidableEq, Repr

/-- The signals of the window. -/
inductive Signal where
  | startDownload (url fileLoc : Str) (resumeDl : Bool)
  | stopDownload (fileLoc : Str)
deriving DecidableEq, Repr

/-- The window, the database, the signals sent, and how often `sendStopDownload` was
connected. -/
structure Desk where
  window : MainWindow
  db : Db
  sent : List Signal
  stopConnections : Nat

abbrev Slot := Proc Desk Thrown

/-- What a slot meets. -/
structure World where
  files : FileStatus
  filesLater : FileStatus
  /-- of `fs::remove`: the name of the category of an error -/
  remove : Str → Option Str
  answer : StandardButton
  freeDiskSpace : Str → Nat
  /-- the `content_length` of `curlGrabInfo` -/
  curlGrabInfo : Str → Except Str ℚ
  transfers : CurlMulti
  stopOrders : Nat → IterOrder (Uuid × CurlInit) × IterOrder (Uuid × ActiveDownloads)
  faults : Faults Str
  startTorrentDl : Str → Slot Unit

/-- `try { p } catch (const std::exception &)`, with the value behind it. -/
def catchStd {α : Type} (p : Slot α) (a : α) : Slot α :=
  Proc.catching p fun
    | .exception _ => .ret a
    | .category name => .throw (.category name)

/-- A call into the database. -/
def ofDb {α : Type} (faults : Faults Str) (p : DbProg α) : Slot α := fun d =>
  match exec faults p (Machine.start d.db) with
  | (.ret a, m) => (.ret a, { d with db := m.store })
  | (.throw what, m) => (.throw (.exception what), { d with db := m.store })
  | (_, m) => (.stuck, { d with db := m.store })

/-- A cell of the row, as text. -/
def cellText (row column : Nat) : Slot Str := do
  let d ← Proc.state
  ofDb Faults.none (textAt d.window.vectorList row column)

/-- The status that the row shows. -/
def shownStatus (row : Nat) : Slot DownloadStatus := do
  let text ← cellText row mnStatusCol
  pure (convDlStatStringToEnum text)

/-- `dlModel->updateCol(index, convDlStat_toString(status), MN_STATUS_COL)`. -/
def showStatus (row : Nat) (status : DownloadStatus) : Slot Unit := do
  let d ← Proc.state
  let index := modelIndex d.window.vectorList row mnStatusCol
  let (_, vectorList) ← ofDb Faults.none
    (ofTable (updateCol d.window.vectorList index (convDlStatToString status) mnStatusCol))
  Proc.modify fun d => { d with window := { d.window with vectorList := vectorList } }

/-- `modifyCurlItem`, with a status only. -/
def storeStatus (world : World) (fileLoc : Str) (status : DownloadStatus) : Slot Unit := do
  let _ ← ofDb world.faults (modifyCurlItem fileLoc status 0 [] .none [] .notApplicable)
  pure ()

/-- The `QObject::connect` and the `emit` of `sendStopDownload`. -/
def sendStopDownload (world : World) (fileLoc : Str) : Slot Unit := do
  Proc.modify fun d => { d with
    stopConnections := d.stopConnections + 1
    sent := d.sent ++ [.stopDownload fileLoc] }
  let d ← Proc.state
  match deliverStop ((List.range d.stopConnections).map world.stopOrders) fileLoc
      world.transfers with
  | .ok _ => pure ()
  | .error what => .throw (.exception what)

/-- `fs::exists(path) && fs::is_regular_file(path)`. -/
def isRegularFile (files : FileStatus) (path : Str) : Slot Bool :=
  match files path with
  | .ok kind => .ret (kind = .regular)
  | .error what => .throw (.exception what)

/-- `fs::remove`, with its error thrown. -/
def removeFile (world : World) (path : Str) : Slot Unit :=
  match world.remove path with
  | none => .ret ()
  | some name => .throw (.category name)

def IsHttp (info : DownloadInfo) : Prop := info.dlType = .http ∨ info.dlType = .ftp

instance (info : DownloadInfo) : Decidable (IsHttp info) := inferInstanceAs (Decidable (_ ∨ _))

/-- The loop of each slot over `gk_dl_info_cache`, for the entries of the id. It ends when
its body says so. -/
def forCached (uniqueId : Str) (body : DownloadInfo → Slot Bool) : Slot Unit := do
  let d ← Proc.state
  Proc.seek (fun info => if info.uniqueId = uniqueId then body info else pure false)
    d.window.gkDlInfoCache

def notEnoughSpace : Str := "Not enough free disk space!".toList

/-- `startHttpDownload`. -/
def startHttpDownload (world : World) (row : Nat) (fileDest uniqueId : Str) (resumeDl : Bool) :
    Slot Unit := do
  let url ← cellText row mnUrlCol
  let status ← shownStatus row
  catchStd (forCached uniqueId fun info =>
    if IsHttp info ∧ status ≠ .downloading then
      match world.curlGrabInfo url with
      | .error what => .throw (.exception what)
      | .ok contentLength =>
        if contentLength * freeDskSpaceMultiplier < world.freeDiskSpace fileDest then do
          storeStatus world fileDest .downloading
          showStatus row .downloading
          Proc.modify fun d => { d with sent := d.sent ++ [.startDownload url fileDest resumeDl] }
          pure true
        else .throw (.exception notEnoughSpace)
    else pure false) ()

/-- `askDeleteHttpItem`. -/
def askDeleteHttpItem (world : World) (row : Nat) (fileDest uniqueId : Str) (noRestart : Bool) :
    Slot Bool :=
  match world.files fileDest with
  | .error what => .throw (.exception what)
  | .ok .missing => pure false
  | .ok _ =>
    if world.answer = .yes then
      catchStd (do
        removeFile world fileDest
        if noRestart = false then startHttpDownload world row fileDest uniqueId false
        pure true) false
    else pure false

/-! ## The four actions -/

/-- `haltDownload`. -/
def haltDownload (world : World) : Option Nat → Slot Unit
  | none => pure ()
  | some row => catchStd (do
    let dest ← cellText row mnDestinationCol
    let uniqueId ← cellText row mnHiddenUniqueId
    let status ← shownStatus row
    forCached uniqueId fun info =>
      if IsHttp info then
        if status = .stopped ∨ status = .completed then pure false
        else if status = .failed then pure true
        else if status = .invalid then pure false
        else do
          sendStopDownload world dest
          storeStatus world dest .stopped
          showStatus row .stopped
          let _ ← askDeleteHttpItem world row dest uniqueId true
          pure false
      else pure (info.dlType = .torrent)) ()

def deletingOrStarting : Str := "Error with deleting file and/or starting download!".toList

/-- The file is removed and the download started from its beginning. -/
def removeAndStart (world : World) (row : Nat) (dest uniqueId : Str) : Slot Unit := do
  let present ← isRegularFile world.filesLater dest
  if present then do
    removeFile world dest
    startHttpDownload world row dest uniqueId false
  else .throw (.exception deletingOrStarting)

/-- `resumeDownload`. An unknown status is taken for a stopped one. -/
def resumeDownload (world : World) : Option Nat → Slot Unit
  | none => pure ()
  | some row => do
    let dest ← cellText row mnDestinationCol
    let status ← shownStatus row
    let uniqueId ← cellText row mnHiddenUniqueId
    forCached uniqueId fun info =>
      if IsHttp info then
        catchStd (do
          if status = .paused then do
            let present ← isRegularFile world.files dest
            startHttpDownload world row dest uniqueId present
          else if status = .unknown ∨ status = .stopped then do
            let present ← isRegularFile world.files dest
            if present then
              if world.answer = .yes then startHttpDownload world row dest uniqueId true
              else if world.answer = .no then removeAndStart world row dest uniqueId
              else pure ()
            else startHttpDownload world row dest uniqueId false
          else pure ()
          pure true) false
      else if info.dlType = .torrent ∨ info.dlType = .torrentMagnetLink then do
        world.startTorrentDl info.uniqueId
        pure true
      else pure false

/-- `pauseDownload`. -/
def pauseDownload (world : World) : Option Nat → Slot Unit
  | none => pure ()
  | some row => catchStd (do
    let dest ← cellText row mnDestinationCol
    let uniqueId ← cellText row mnHiddenUniqueId
    let status ← shownStatus row
    if status ≠ .paused then
      forCached uniqueId fun info =>
        if IsHttp info then
          if status ≠ .completed ∧ status ≠ .stopped ∧ status ≠ .failed ∧ status ≠ .invalid then do
            sendStopDownload world dest
            storeStatus world dest .paused
            showStatus row .paused
            pure false
          else pure true
        else pure (info.dlType = .torrent)
    else pure ()) ()

/-- `restartDownload`. -/
def restartDownload (world : World) : Option Nat → Slot Unit
  | none => pure ()
  | some row => do
    let dest ← cellText row mnDestinationCol
    let uniqueId ← cellText row mnHiddenUniqueId
    let status ← shownStatus row
    forCached uniqueId fun info =>
      if IsHttp info then
        if status ≠ .invalid ∧ status ≠ .failed then
          catchStd (do
            if world.answer = .yes then removeAndStart world row dest uniqueId
            else pure ()
            pure true) true
        else pure false
      else pure (info.dlType = .torrent)

end FyreDL.Gui
