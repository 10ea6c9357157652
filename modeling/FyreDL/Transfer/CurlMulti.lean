import FyreDL.Defaults
import FyreDL.Lib.AssocMap

/-!
# FyreDL.Transfer.CurlMulti — the transfers that are under way

`recvNewDl`, `new_conn`, `fileStream` and `recvStopDl` of `curl_multi.cpp`, over the
handles of libcurl and the two maps that the class keeps: `eh_vec` has a connection for
each easy handle, `transfer_monitoring` says of each file whether it is being transferred.

* The state is changed by four actions (`step`): a new download up to the call of
  `fileStream`, the end of a transfer inside libcurl, the message that `fileStream` reads
  after it has driven the transfers, and a stop. `recvStopDl` is called from another
  thread, so no order of the actions is excluded.
* What an action cannot know is part of it: the ids that `createId` draws, what libcurl
  answers, the size of the file on disk, and the order in which the hash maps show their
  entries.
* An easy handle is numbered when it is made and knows the file that its data is written
  to. Removing it from the multi handle drops its message, as libcurl does. That the
  global multi handle is made by the first `recvNewDl` is left out.
-/

namespace FyreDL.Transfer

open Lib

/-! ## libcurl -/

/-- `CURLcode`, with the results that a broken transfer usually has. -/
inductive CurlCode where
  | ok | operationTimedout | rangeError | abortedByCallback
  | other (code : Nat)
deriving DecidableEq, Repr

/-- `CURLMcode`. -/
inductive CurlMCode where
  | callMultiPerform | ok | badHandle | badEasyHandle | outOfMemory | internalError | badSocket
  | unknownOption | last
  | other (code : Nat)
deriving DecidableEq, Repr

/-- An easy handle, and the `file_loc` of the `file_buf` it writes to. -/
structure Easy where
  number : Nat
  fileLoc : Str
deriving DecidableEq, Repr

/-- A `CURLMSG_DONE` message, and the content length its handle is asked for. -/
structure CurlMsg where
  easy : Nat
  result : CurlCode
  contentLength : ℚ
deriving DecidableEq, Repr

/-- The multi handle: the easy handles that are attached to it, and the messages that
have not been read. -/
structure Multi where
  attached : List Easy
  msgs : List CurlMsg
deriving DecidableEq, Repr

/-- `curl_multi_add_handle`, for the answer it gives. -/
def Multi.addHandle (multi : Multi) (easy : Easy) (answer : CurlMCode) : Multi :=
  if answer = .ok then { multi with attached := multi.attached ++ [easy] } else multi

/-- `curl_multi_remove_handle`. -/
def Multi.removeHandle (multi : Multi) (easy : Nat) : Multi where
  attached := multi.attached.filter fun h => h.number ≠ easy
  msgs := multi.msgs.filter fun m => m.easy ≠ easy

/-- A transfer ends inside `curl_multi_perform`: its message is queued. -/
def Multi.finish (multi : Multi) (msg : CurlMsg) : Multi :=
  if (∃ h ∈ multi.attached, h.number = msg.easy) ∧ ∀ m ∈ multi.msgs, m.easy ≠ msg.easy then
    { multi with msgs := multi.msgs ++ [msg] }
  else multi

/-! ## The class -/

/-- The 23 digits that `createId` draws. -/
abbrev Uuid := { id : Str // id.length = 23 ∧ ∀ c ∈ id, c.isDigit = true }

/-- `GkCurl::CurlInit`: the easy handle and the URL of `conn_info`, the `file_loc` of
`file_buf` and the `file_dest` of `prog`. -/
structure CurlInit where
  easy : Easy
  url : Str
  fileLoc : Str
  fileDest : Str
deriving DecidableEq, Repr

/-- `GkCurl::ActiveDownloads`. -/
structure ActiveDownloads where
  fileDest : Str
  isActive : Bool
deriving DecidableEq, Repr

/-- The static members, the multi handle, and the number of easy handles made so far. -/
structure CurlMulti where
  ehVec : List (Uuid × CurlInit)
  transferMonitoring : List (Uuid × ActiveDownloads)
  activeDownloads : Int16
  multi : Multi
  handles : Nat
deriving DecidableEq

/-- The state before the first download. -/
def CurlMulti.start : CurlMulti := ⟨[], [], 0, ⟨[], []⟩, 0⟩

/-- The first entry of `transfer_monitoring` for a file, in the order it is shown in. -/
def findDl (order : IterOrder (Uuid × ActiveDownloads)) (fileLoc : Str) (cm : CurlMulti) :
    Option (Uuid × ActiveDownloads) :=
  (order.order cm.transferMonitoring).find? fun entry => entry.2.fileDest = fileLoc

/-- The first entry of `eh_vec` for a file. -/
def findConn (order : IterOrder (Uuid × CurlInit)) (fileLoc : Str) (cm : CurlMulti) :
    Option (Uuid × CurlInit) :=
  (order.order cm.ehVec).find? fun entry => entry.2.fileLoc = fileLoc

/-- The first entry of `eh_vec` for an easy handle. -/
def findEasy (order : IterOrder (Uuid × CurlInit)) (easy : Nat) (cm : CurlMulti) :
    Option (Uuid × CurlInit) :=
  (order.order cm.ehVec).find? fun entry => entry.2.easy.number = easy

/-! ## Texts -/

def idExists : Str := "A given ID already exists!".toList
def easyInitFailed : Str := "'curl_easy_init()' failed, exiting!".toList
def emptyFileLoc : Str := "An invalid file location has been given (empty parameter)!".toList
def statUuidEmpty : Str := "Warning, 'stat_uuid' is empty!".toList
def ptrUuidEmpty : Str := "Warning, 'ptr_uuid' is empty!".toList
def uuidsEmpty : Str := "Warning, either 'ptr_uuid' or 'stat_uuid' is empty!".toList
def invalidNewDl : Str := "An invalid file location and/or URL has been given!".toList

def negativeOffset (fileOffset : Int) : Str :=
  "An invalid (negative) file-offset has been given! Value: ".toList ++ toText fileOffset

/-- The name that `mcode_or_die` has for a code. -/
def CurlMCode.name : CurlMCode → Str
  | .callMultiPerform => "CURLM_CALL_MULTI_PERFORM".toList
  | .ok => "CURLM_OK".toList
  | .badHandle => "CURLM_BAD_HANDLE".toList
  | .badEasyHandle => "CURLM_BAD_EASY_HANDLE".toList
  | .outOfMemory => "CURLM_OUT_OF_MEMORY".toList
  | .internalError => "CURLM_INTERNAL_ERROR".toList
  | .badSocket => "CURLM_BAD_SOCKET".toList
  | .unknownOption => "CURLM_UNKNOWN_OPTION".toList
  | .last => "CURLM_LAST".toList
  | .other _ => "CURLM_unknown".toList

/-- `mcode_or_die`: a bad socket is ignored. -/
def mcodeOrDie (place : Str) (code : CurlMCode) : Except Str Unit :=
  if code = .ok ∨ code = .badSocket then .ok ()
  else .error ("ERROR: ".toList ++ place ++ " returns ".toList ++ code.name)

/-! ## Starting -/

/-- What a `recvNewDl` meets. -/
structure Outside where
  /-- drawn for `transfer_monitoring` -/
  drawnStat : Uuid
  /-- drawn for `eh_vec` -/
  drawnConn : Uuid
  /-- whether `curl_easy_init` gives a handle -/
  easyInit : Bool
  /-- of `curl_multi_add_handle` -/
  addAnswer : CurlMCode
  /-- of `getFileSize`: -1 when there is no such file -/
  fileSize : Int
  order : IterOrder (Uuid × ActiveDownloads)

/-- `createId`: an id that `eh_vec` already has is refused. -/
def createId (drawn : Uuid) (cm : CurlMulti) : Except Str Uuid :=
  if drawn ∈ cm.ehVec.map Prod.fst then .error idExists else .ok drawn

/-- The end of `new_conn`: the easy handle is attached and registered. -/
def attachConn (env : Outside) (uuid : Uuid) (easy : Easy) (url fileLoc : Str) (cm : CurlMulti) :
    CurlMulti × Except Str Uuid :=
  let cm := { cm with multi := cm.multi.addHandle easy env.addAnswer }
  match mcodeOrDie "new_conn: curl_multi_add_handle".toList env.addAnswer with
  | .error what => (cm, .error what)
  | .ok () =>
    match findDl env.order fileLoc cm with
    | none => (cm, .error statUuidEmpty)
    | some (statUuid, dlStat) =>
      ({ cm with
          transferMonitoring :=
            assign cm.transferMonitoring statUuid { dlStat with isActive := true }
          ehVec := assign cm.ehVec uuid ⟨easy, url, fileLoc, fileLoc⟩ }, .ok uuid)

/-- `new_conn`. -/
def newConn (env : Outside) (url fileLoc : Str) (fileOffset : Int) (cm : CurlMulti) :
    CurlMulti × Except Str Uuid :=
  match createId env.drawnConn cm with
  | .error what => (cm, .error what)
  | .ok uuid =>
    if env.easyInit = false then (cm, .error easyInitFailed)
    else
      let easy : Easy := ⟨cm.handles, fileLoc⟩
      let cm := { cm with handles := cm.handles + 1 }
      if fileLoc = [] then (cm, .error emptyFileLoc)
      else if fileOffset < 0 then (cm, .error (negativeOffset fileOffset))
      else attachConn env uuid easy url fileLoc cm

/-- How a `recvNewDl` ends: it goes on with `fileStream`, it has nothing to do, or it
shows a message box. -/
inductive NewDl where
  | started
  | alreadyActive
  | warned (what : Str)
deriving DecidableEq, Repr

/-- The part of `recvNewDl` that starts a transfer. The counter is raised first. -/
def startDl (env : Outside) (url fileLoc : Str) (resumeDl : Bool) (cm : CurlMulti) :
    CurlMulti × NewDl :=
  let cm := { cm with activeDownloads := cm.activeDownloads + 1 }
  match newConn env url fileLoc (if resumeDl then env.fileSize else 0) cm with
  | (cm, .error what) => (cm, .warned what)
  | (cm, .ok _) => (cm, .started)

/-- `recvNewDl`, up to the call of `fileStream`. -/
def recvNewDl (env : Outside) (url fileLoc : Str) (resumeDl : Bool) (cm : CurlMulti) :
    CurlMulti × NewDl :=
  if fileLoc = [] ∨ url = [] then (cm, .warned invalidNewDl)
  else
    match findDl env.order fileLoc cm with
    | some (_, dlStat) =>
      if dlStat.isActive then (cm, .alreadyActive) else startDl env url fileLoc resumeDl cm
    | none =>
      match createId env.drawnStat cm with
      | .error what => (cm, .warned what)
      | .ok newUuid =>
        startDl env url fileLoc resumeDl
          { cm with transferMonitoring := assign cm.transferMonitoring newUuid ⟨fileLoc, false⟩ }

/-! ## Finishing and stopping -/

/-- How `fileStream` ends: it sends `sendDlFinished`, it has read no message, or it has
caught an exception. -/
inductive FileStream where
  | finished (status : DlStatusMsg)
  | idle
  | failed (what : Str)
deriving DecidableEq, Repr

/-- What `curl_multi_info_read` gives. libcurl queues `CURLMSG_DONE` messages only. -/
inductive Message where
  | done (msg : CurlMsg)
  | other
deriving DecidableEq, Repr

/-- The state with the `CURLMSG_DONE` message in front read. -/
def messageRead (cm : CurlMulti) : CurlMulti :=
  { cm with multi := { cm.multi with msgs := cm.multi.msgs.tail } }

/-- What `fileStream` does about a `CURLMSG_DONE` message. The result of the transfer is
not looked at. -/
def finishTransfer (ehOrder : IterOrder (Uuid × CurlInit))
    (order : IterOrder (Uuid × ActiveDownloads)) (msg : CurlMsg) (cm : CurlMulti) :
    CurlMulti × FileStream :=
  match findEasy ehOrder msg.easy cm with
  | none => (cm, .failed ptrUuidEmpty)
  | some (ptrUuid, conn) =>
    match findDl order conn.fileLoc cm with
    | none => (cm, .failed statUuidEmpty)
    | some (statUuid, _) =>
      ({ cm with
          multi := cm.multi.removeHandle conn.easy.number
          ehVec := eraseKey cm.ehVec ptrUuid
          transferMonitoring := eraseKey cm.transferMonitoring statUuid
          activeDownloads := cm.activeDownloads - 1 },
        .finished ⟨msg.contentLength, conn.url, conn.fileDest⟩)

/-- The loop of `fileStream` over the messages. -/
def readMessages (ehOrder : IterOrder (Uuid × CurlInit))
    (order : IterOrder (Uuid × ActiveDownloads)) :
    List Message → CurlMulti → CurlMulti × FileStream
  | [], cm => (cm, .idle)
  -- `return true`, or an exception: the messages behind it stay in the queue
  | .done msg :: _, cm => finishTransfer ehOrder order msg (messageRead cm)
  | .other :: messages, cm => readMessages ehOrder order messages cm

/-- `fileStream`, once it has driven the transfers. -/
def fileStream (ehOrder : IterOrder (Uuid × CurlInit))
    (order : IterOrder (Uuid × ActiveDownloads)) (cm : CurlMulti) : CurlMulti × FileStream :=
  readMessages ehOrder order (cm.multi.msgs.map .done) cm

/-- `recvStopDl`. The entry of `eh_vec` stays. -/
def recvStopDl (ehOrder : IterOrder (Uuid × CurlInit))
    (order : IterOrder (Uuid × ActiveDownloads)) (fileLoc : Str) (cm : CurlMulti) :
    Except Str CurlMulti :=
  match findConn ehOrder fileLoc cm, findDl order fileLoc cm with
  | some (_, conn), some (statUuid, dlStat) =>
    if dlStat.isActive then
      .ok { cm with
        transferMonitoring :=
          assign cm.transferMonitoring statUuid { dlStat with isActive := false }
        activeDownloads := cm.activeDownloads - 1
        multi := cm.multi.removeHandle conn.easy.number }
    else .ok cm
  | _, _ => .error uuidsEmpty

/-! ## Runs -/

/-- What happens to the transfers. -/
inductive Action where
  | newDl (env : Outside) (url fileLoc : Str) (resumeDl : Bool)
  | transferEnds (msg : CurlMsg)
  | fileStream (ehOrder : IterOrder (Uuid × CurlInit)) (order : IterOrder (Uuid × ActiveDownloads))
  | stopDl (ehOrder : IterOrder (Uuid × CurlInit)) (order : IterOrder (Uuid × ActiveDownloads))
    (fileLoc : Str)

/-- The state after an action. An exception leaves `recvStopDl` before it has changed
anything. -/
def step (cm : CurlMulti) : Action → CurlMulti
  | .newDl env url fileLoc resumeDl => (recvNewDl env url fileLoc resumeDl cm).1
  | .transferEnds msg => { cm with multi := cm.multi.finish msg }
  | .fileStream ehOrder order => (fileStream ehOrder order cm).1
  | .stopDl ehOrder order fileLoc =>
    match recvStopDl ehOrder order fileLoc cm with
    | .ok cm => cm
    | .error _ => cm

end FyreDL.Transfer
