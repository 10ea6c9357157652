import FyreDL.Lib.KvCompletion
import FyreDL.Store.History

/-!
# FyreDL.Store.Calls — any number of calls on one `CmnRoutines` object

Beside `db_mutex` an object has four mutexes for the functions on whole items: `r_curl_mtx`,
`w_curl_mtx`, `r_torrent_mtx` and `w_torrent_mtx`. Most functions only try theirs and give up
when it is taken; `modifyTorrentItem` and `delTorrentItem` wait for it.

* `ObjectCall.enter` — what each function does up to its mutex, and under it.
* `alone` — with the mutexes free this is the function as it runs alone.
* `bracketed_enter` — no function takes `db_mutex` twice, touches the database without it, or
  ends with it, whatever the database answers.
* `calls_complete` — so there is no deadlock, whatever is called and scheduled.
-/

namespace FyreDL.Store

open Lib Lib.Kv Csv

/-! ## The calls -/

/-- The mutexes of an object beside `db_mutex`. -/
inductive ItemMutex where
  | rCurl
  | wCurl
  | rTorrent
  | wTorrent
deriving DecidableEq, Repr

/-- What a call answers: a success or a failure, or records. -/
inductive CallAnswer where
  | done (ret : Bool)
  | curl (records : List CurlDlInfo)
  | torrents (records : List TorrentInfo)
deriving DecidableEq

/-- A call of a function on items. -/
inductive ObjectCall where
  | change (c : StoreCall)
  | readCurlItems (ord : IterOrder Entry)
  | readTorrentItems (fuel : Nat) (ord : IterOrder Entry) (minimalReadout : Bool)

/-- The program of a call that runs alone. -/
def ObjectCall.prog : ObjectCall → DbProg CallAnswer
  | .change c => c.prog >>= fun ret => .ret (.done ret)
  | .readCurlItems ord => FyreDL.Store.readCurlItems ord >>= fun records => .ret (.curl records)
  | .readTorrentItems fuel ord minimalReadout =>
    FyreDL.Store.readTorrentItems fuel ord minimalReadout >>= fun records =>
      .ret (.torrents records)

/-- How a call goes on after what it does without a mutex. -/
abbrev DbNext := Next ItemMutex Str Str Str CallAnswer

abbrev DbCall := DbProg DbNext

/-- `locker.try_lock()`: with the mutex taken nothing is done. -/
def tryLock (mutex : ItemMutex) (body : DbProg CallAnswer) (refused : CallAnswer) : DbCall :=
  .ret (.guarded mutex body (some refused))

/-- `std::lock_guard`. -/
def lockGuard (mutex : ItemMutex) (body : DbProg CallAnswer) : DbCall :=
  .ret (.guarded mutex body none)

/-- The answer of a call that needs no mutex, or none any more. -/
def answered (a : CallAnswer) : DbCall := .ret (.answer a)

/-- The part of `modifyCurlItem` under its mutex. -/
def modifyCurlItemLocked (id : Str) (status : DownloadStatus) (compltTimestamp : Int)
    (hashGiven : Str) (hashType : HashType) (hashRtrnd : Str) (retSuccType : HashVerif) :
    DbProg Bool :=
  Prog.tryCatch (do
    addItems id (modifiedItems status compltTimestamp hashGiven hashType hashRtrnd retSuccType)
    pure true)
    fun e => .warn e (.ret false)

/-- The part of `readCurlItems` under its mutex. -/
def readCurlItemsLocked (es : List Entry) : DbProg (List CurlDlInfo) :=
  Prog.tryCatch (readCurlRecords es) fun e => .warn e (.ret [])

/-- What a call does up to its mutex. -/
def ObjectCall.enter : ObjectCall → DbCall
  | .change (.addCurlItem drawn now info) =>
    if CurlDlInfo.accepted info then
      tryLock .wCurl (ObjectCall.change (.addCurlItem drawn now info)).prog (.done false)
    else answered (.done false)
  | .change (.delCurlItem ord fileDest uniqueIdBackup) =>
    tryLock .wCurl (ObjectCall.change (.delCurlItem ord fileDest uniqueIdBackup)).prog
      (.done false)
  | .change (.modifyCurlItem fileLoc status compltTimestamp hashGiven hashType hashRtrnd
      retSuccType) =>
    Prog.tryCatch (do
      let identifier ← determineDownloadId fileLoc
      if identifier.1 ≠ [] then
        tryLock .wCurl (modifyCurlItemLocked identifier.1 status compltTimestamp hashGiven hashType
          hashRtrnd retSuccType >>= fun ret => .ret (.done ret)) (.done false)
      else .throw (noIdToModify fileLoc))
      fun e => .warn e (answered (.done false))
  | .change (.addTorrentItem drawn now info) =>
    if info.general.downDest ≠ [] then
      tryLock .wTorrent (ObjectCall.change (.addTorrentItem drawn now info)).prog (.done false)
    else answered (.done false)
  | .change (.modifyTorrentItem uniqueId _) =>
    if uniqueId ≠ [] then lockGuard .wTorrent (.ret (.done true)) else answered (.done false)
  | .change (.delTorrentItem _) => lockGuard .wTorrent (.ret (.done false))
  | .readCurlItems ord =>
    Prog.tryCatch (do
      let downloadIds ← extractDownloadIds false
      if downloadIds ≠ [] then
        tryLock .rCurl (readCurlItemsLocked (ord.order downloadIds) >>= fun records =>
          .ret (.curl records)) (.curl [])
      else answered (.curl []))
      fun e => .warn e (answered (.curl []))
  | .readTorrentItems fuel ord minimalReadout =>
    tryLock .rTorrent (ObjectCall.readTorrentItems fuel ord minimalReadout).prog (.torrents [])

/-- A call that gets its mutex. -/
def proceed (next : DbNext) : DbProg CallAnswer :=
  match next with
  | .answer a => .ret a
  | .guarded _ body _ => body

section Alone

variable {α β γ : Type}

theorem bind_assoc (p : DbProg α) (f : α → DbProg β) (g : β → DbProg γ) :
    (p >>= f) >>= g = p >>= fun a => f a >>= g := by
  change (p.bind f).bind g = p.bind fun a => (f a).bind g
  induction p with
  | ret a => rfl
  | throw e => rfl
  | hang => rfl
  | get k c ih => exact congrArg (Prog.get k) (funext ih)
  | write b c ih => exact congrArg (Prog.write b) (funext ih)
  | warn e c ih => exact congrArg (Prog.warn e) ih
  | lock c ih => exact congrArg Prog.lock ih
  | unlock c ih => exact congrArg Prog.unlock ih

/-- A handler around a sequence, with another one around its end, that do the same. -/
theorem tryCatch_bind_congr (p : DbProg α) {f : α → DbProg β} {h : Str → DbProg β}
    {f' : α → DbProg γ} {h' : Str → DbProg γ} {k : γ → DbProg β}
    (hf : ∀ a, ((f' a).tryCatch h') >>= k = (f a).tryCatch h) (hh : ∀ e, h' e >>= k = h e) :
    ((p >>= f').tryCatch h') >>= k = (p >>= f).tryCatch h := by
  change ((p.bind f').tryCatch h').bind k = (p.bind f).tryCatch h
  induction p with
  | ret a => exact hf a
  | throw e => exact hh e
  | hang => rfl
  | get key c ih => exact congrArg (Prog.get key) (funext ih)
  | write b c ih => exact congrArg (Prog.write b) (funext ih)
  | warn e c ih => exact congrArg (Prog.warn e) ih
  | lock c ih => exact congrArg Prog.lock ih
  | unlock c ih => exact congrArg Prog.unlock ih

/-- A mapped answer under a handler. -/
theorem tryCatch_map (p : DbProg α) (h : Str → DbProg α) (f : α → β) :
    (p.tryCatch h) >>= (fun a => (.ret (f a) : DbProg β)) =
      (p >>= fun a => (.ret (f a) : DbProg β)).tryCatch fun e => h e >>= fun a => .ret (f a) := by
  change (p.tryCatch h).bind _ = (p.bind _).tryCatch _
  induction p with
  | ret a => rfl
  | throw e => rfl
  | hang => rfl
  | get key c ih => exact congrArg (Prog.get key) (funext ih)
  | write b c ih => exact congrArg (Prog.write b) (funext ih)
  | warn e c ih => exact congrArg (Prog.warn e) ih
  | lock c ih => exact congrArg Prog.lock ih
  | unlock c ih => exact congrArg Prog.unlock ih

/-- **Alone**, with its mutex free, a call is the function that was read in the source. -/
theorem alone (c : ObjectCall) : c.enter >>= proceed = c.prog := by
  cases c with
  | change c =>
    cases c with
    | addCurlItem drawn now info =>
      rw [ObjectCall.enter]
      split
      · rfl
      · rename_i haccepted
        rw [ObjectCall.prog, StoreCall.prog, addCurlItem, if_neg haccepted]
        rfl
    | modifyCurlItem fileLoc status compltTimestamp hashGiven hashType hashRtrnd retSuccType =>
      rw [ObjectCall.enter, ObjectCall.prog, StoreCall.prog, modifyCurlItem, tryCatch_map,
        bind_assoc]
      refine tryCatch_bind_congr _ ?_ fun e => rfl
      intro identifier
      split
      · exact tryCatch_map _ _ _
      · rfl
    | delCurlItem ord fileDest uniqueIdBackup => rfl
    | addTorrentItem drawn now info =>
      rw [ObjectCall.enter]
      split
      · rfl
      · rename_i hdest
        rw [ObjectCall.prog, StoreCall.prog, addTorrentItem, if_neg hdest]
        rfl
    | modifyTorrentItem uniqueId status =>
      rw [ObjectCall.enter, ObjectCall.prog, StoreCall.prog, modifyTorrentItem]
      split
      · rfl
      · rfl
    | delTorrentItem uniqueId => rfl
  | readCurlItems ord =>
    rw [ObjectCall.enter, ObjectCall.prog, readCurlItems, tryCatch_map, bind_assoc]
    refine tryCatch_bind_congr _ ?_ fun e => rfl
    intro downloadIds
    split
    · exact tryCatch_map _ _ _
    · rfl
  | readTorrentItems fuel ord minimalReadout => rfl

end Alone

/-! ## Brackets -/

/-- The program keeps to the brackets, whatever it returns. -/
abbrev Kept {α : Type} (p : DbProg α) : Prop := Bracketed (fun _ => True) false p

section Brackets

variable {α : Type}

theorem kept_ret (a : α) : Kept (.ret a) := .ret trivial

theorem Kept.bind {β : Type} {p : DbProg α} (hp : Kept p) {f : α → DbProg β}
    (hf : ∀ a, Kept (f a)) : Kept (p >>= f) := Bracketed.bind hp fun a _ => hf a

/-- A message and an answer. -/
theorem kept_warn (e : Str) (a : α) : Kept (.warn e (.ret a)) := .warn (kept_ret a)

theorem Kept.caught {p : DbProg α} (hp : Kept p) (a : α) :
    Kept (p.tryCatch fun e => .warn e (.ret a)) := hp.tryCatch fun e => kept_warn e a

theorem plain_getOrThrow (key : Str) : Plain (getOrThrow key) := by
  refine .get ?_
  intro answer
  cases answer with
  | found v => exact .ret v
  | notFound => exact .throw _
  | error e => exact .throw _

theorem plain_getOrEmpty (key : Str) : Plain (getOrEmpty key) := by
  refine .get ?_
  intro answer
  cases answer with
  | found v => exact .ret v
  | notFound => exact .ret _
  | error e => exact .ret _

theorem plain_openIndex (text : Str) : Plain (openIndex text) := by
  unfold openIndex
  split
  · exact .throw _
  · exact .ret _

theorem plain_indexRows (rd : GkCsvReader) (st : Statics) : Plain (indexRows rd st) := by
  unfold indexRows
  split
  · exact .hang
  · exact .ret _

theorem plain_copiedIndex : Plain copiedIndex := by
  refine (plain_getOrEmpty _).bind ?_
  intro text
  split
  · refine (plain_openIndex text).bind ?_
    intro opened
    exact (plain_indexRows _ _).bind fun rows => .ret _
  · exact .ret _

/-- The registration is one section. -/
theorem addDownloadId_section (drawn path : Str) (isTorrent : Bool) (overrideUniqueId : Str) :
    ∃ p, Kv.Plain p ∧ addDownloadId drawn path isTorrent overrideUniqueId = p.locked := by
  refine ⟨_, ?_, rfl⟩
  refine plain_copiedIndex.bind ?_
  intro text
  exact (Plain.writeOrThrow _).bind fun _ => .ret _

theorem kept_addDownloadId (drawn path : Str) (isTorrent : Bool) (overrideUniqueId : Str) :
    Kept (addDownloadId drawn path isTorrent overrideUniqueId) := by
  rcases addDownloadId_section drawn path isTorrent overrideUniqueId with ⟨p, hp, heq⟩
  rw [heq]
  exact .locked hp

theorem kept_extractDownloadIds (torrentsOnly : Bool) : Kept (extractDownloadIds torrentsOnly) := by
  refine Bracketed.locked ((plain_getOrEmpty _).bind ?_)
  intro text
  split
  · refine (plain_openIndex text).bind ?_
    intro opened
    exact (plain_indexRows _ _).bind fun rows => .ret _
  · exact .ret _

theorem kept_determineDownloadId (path : Str) : Kept (determineDownloadId path) := by
  refine Bracketed.locked ((plain_getOrThrow _).bind ?_)
  intro text
  split
  · refine (plain_openIndex text).bind ?_
    rintro ⟨rd, st⟩
    dsimp only
    split
    · refine (plain_indexRows _ _).bind ?_
      intro rows
      split
      · exact .ret _
      · exact .ret _
    · exact .throw _
    · exact .throw _
    · exact .throw _
    · exact .throw _
  · exact .ret _

theorem kept_delDownloadId (ord : IterOrder Entry) (uniqueId : Str) (isTorrent : Bool) :
    Kept (delDownloadId ord uniqueId isTorrent) := by
  refine (kept_extractDownloadIds isTorrent).bind ?_
  intro ids
  refine Bracketed.locked (.write ?_)
  intro failed
  cases failed with
  | none => exact .ret _
  | some e => exact .warn (.ret _)

theorem kept_addItems (id : Str) (items : List (Str × Str)) : Kept (addItems id items) := by
  induction items with
  | nil => exact kept_ret ()
  | cons p items ih => exact (Bracketed.locked (Plain.writeOrThrow _)).bind fun _ _ => ih

theorem kept_delItems (id : Str) (keys : List Str) : Kept (delItems id keys) := by
  induction keys with
  | nil => exact kept_ret ()
  | cons key keys ih => exact (Bracketed.locked (Plain.writeOrThrow _)).bind fun _ _ => ih

theorem kept_readItems (id : Str) (keys : List Str) : Kept (readItems id keys) := by
  induction keys with
  | nil => exact kept_ret _
  | cons key keys ih =>
    refine Kept.bind (Bracketed.locked (plain_getOrThrow _)) ?_
    intro value
    exact ih.bind fun values => kept_ret _

theorem kept_readCurlRecords (es : List Entry) : Kept (readCurlRecords es) := by
  induction es with
  | nil => exact kept_ret _
  | cons e es ih =>
    rw [readCurlRecords]
    split
    · have hitem : Kept (readCurlItem e) := by
        refine (kept_readItems _ _).bind ?_
        intro values
        split
        · exact .throw _
        · exact kept_ret _
      refine hitem.bind ?_
      intro record
      exact ih.bind fun records => kept_ret _
    · exact ih

theorem kept_writeEach {batch : Int → α → List (Op Str Str)} (counter : Int) (l : List α) :
    Kept (writeEach batch counter l) := by
  induction l generalizing counter with
  | nil => exact kept_ret true
  | cons a l ih =>
    have hfirst : Kept (writeOk (batch counter a)) := by
      refine Bracketed.locked (.write ?_)
      intro failed
      cases failed with
      | none => exact .ret _
      | some e => exact .ret _
    refine hfirst.bind ?_
    intro ok
    split
    · exact ih (counter + 1)
    · exact kept_ret false

theorem plain_openRows (columnCount : Nat) (data : Str) (headers columns : List Str)
    (downloadKey : Str) (st : Statics) :
    Plain (openRows columnCount data headers columns downloadKey st) := by
  unfold openRows
  split
  · exact .throw _
  · split
    · exact .throw _
    · exact .ret _
    · exact .warn (.ret _)

theorem plain_readFileRow (downloadKey : Str) (vars : Vars) (item : TorrentFile) (st : Statics) :
    Plain (readFileRow downloadKey vars item st) := by
  unfold readFileRow
  split
  · dsimp only
    split
    · have hget : Plain (getMapflepce downloadKey (vars 5)) := by
        refine .get ?_
        intro answer
        cases answer with
        | found v => exact .ret v
        | notFound => exact .throw _
        | error e => exact .throw _
      refine hget.bind ?_
      intro data
      refine (plain_openRows _ _ _ _ _ _).bind ?_
      rintro ⟨rd, st'⟩
      dsimp only
      split
      · exact .hang
      · exact .ret _
      · exact .ret _
    · exact .throw _
  · exact .ret _

theorem plain_readFileRows (downloadKey : Str) (rd : GkCsvReader) (fuel : Nat) (vars : Vars)
    (item : TorrentFile) (st : Statics) :
    Plain (readFileRows downloadKey rd fuel vars item st) := by
  induction fuel generalizing vars item st with
  | zero => exact .hang
  | succ fuel ih =>
    rw [readFileRows]
    rcases readRow rd (List.range 8) vars st with _ | ⟨_ | _, vars', st'⟩
    · exact .hang
    · exact .ret _
    · refine (plain_readFileRow downloadKey vars' item st').bind ?_
      rintro ⟨item', st''⟩
      refine (ih vars' item' st'').bind ?_
      intro rest
      exact .ret _

theorem plain_readFilesFrom (fuel : Nat) (downloadKey : Str) (left : Nat) (counter : Int)
    (toFiles : List TorrentFile) : Plain (readFilesFrom fuel downloadKey left counter toFiles) := by
  induction left generalizing counter toFiles with
  | zero => exact .ret _
  | succ left ih =>
    refine .get ?_
    intro answer
    cases answer with
    | found text =>
      have htext : Plain (readFileText fuel downloadKey text) := by
        unfold readFileText
        split
        · refine (plain_openRows _ _ _ _ _ _).bind ?_
          rintro ⟨rd, st⟩
          exact plain_readFileRows downloadKey rd fuel _ _ st
        · exact .ret _
      exact htext.bind fun files => ih _ _
    | notFound => exact .ret _
    | error e => exact .ret _

theorem plain_readTrackerText (downloadKey text : Str) :
    Plain (readTrackerText downloadKey text) := by
  unfold readTrackerText
  split
  · refine (plain_openRows _ _ _ _ _ _).bind ?_
    rintro ⟨rd, st⟩
    dsimp only
    split
    · exact .hang
    · split
      · exact .ret _
      · exact .ret _
  · exact .ret _

theorem kept_readTracker (downloadKey : Str) (counter : Int) :
    Kept (readTracker downloadKey counter) := by
  refine Bracketed.locked (.get ?_)
  intro answer
  cases answer with
  | found text => exact (plain_readTrackerText downloadKey text).bind fun _ => .ret _
  | notFound => exact .ret _
  | error e => exact .ret _

theorem kept_readTorrentTrkrsAddendum (numTrackers : Int) (downloadKey : Str) :
    Kept (readTorrentTrkrsAddendum numTrackers downloadKey) := by
  by_cases hpos : numTrackers > 0
  · rw [readTorrentTrkrsAddendum_pos hpos]
    exact (kept_readTracker downloadKey numTrackers).bind fun _ => kept_ret _
  · rw [readTorrentTrkrsAddendum, if_neg hpos]
    exact kept_ret _

theorem kept_readTorrentRecords (fuel : Nat) (minimalReadout : Bool) (es : List Entry) :
    Kept (readTorrentRecords fuel minimalReadout es) := by
  induction es with
  | nil => exact kept_ret _
  | cons e es ih =>
    rw [readTorrentRecords]
    split
    · have hfiles : ∀ genInfo, Kept (readTorrentFiles fuel minimalReadout genInfo) := by
        intro genInfo
        unfold readTorrentFiles
        split
        · exact kept_ret _
        · have hread : Kept (readTorrentFilesAddendum fuel genInfo.numFiles genInfo.uniqueId) := by
            unfold readTorrentFilesAddendum
            split
            · exact Bracketed.locked (plain_readFilesFrom _ _ _ _ _)
            · exact kept_ret _
          refine hread.bind ?_
          intro files
          split
          · exact kept_ret _
          · exact .throw _
      have hitem : Kept (readTorrentItem fuel minimalReadout e) := by
        refine (kept_readItems _ _).bind ?_
        intro values
        refine (hfiles _).bind ?_
        intro files
        refine (kept_readTorrentTrkrsAddendum _ _).bind ?_
        intro trackers
        split
        · exact kept_ret _
        · exact .throw _
      refine hitem.bind ?_
      intro r
      exact ih.bind fun rest => kept_ret _
    · exact ih

theorem kept_addTorrentItem (drawn : Str) (now : Int) (info : TorrentInfo) :
    Kept (addTorrentItem drawn now info) := by
  unfold addTorrentItem
  split
  · dsimp only
    refine Kept.caught ?_ _
    refine (kept_addDownloadId _ _ _ _).bind ?_
    intro key
    split
    · exact .throw _
    · refine (kept_addItems _ _).bind ?_
      intro _
      -- the lists of a torrent are written one element for each section
      have hfiles :
          Kept (writeTorrentFilesAddendum (torrentInfoToStore now info).filesVec key) := by
        unfold writeTorrentFilesAddendum
        split
        · exact kept_writeEach _ _
        · exact kept_ret _
      have htrackers : Kept
          (writeTorrentTrkrsAddendum (torrentInfoToStore now info).trackers key) := by
        unfold writeTorrentTrkrsAddendum
        split
        · exact kept_writeEach _ _
        · exact kept_ret _
      refine hfiles.bind ?_
      intro wtfRet
      refine htrackers.bind ?_
      intro wttRet
      split
      · exact kept_warn _ _
      · exact kept_ret _
  · exact kept_ret _

/-- Every change of an item keeps to the brackets. -/
theorem kept_change (c : StoreCall) : Kept c.prog := by
  cases c with
  | addCurlItem drawn now info =>
    have hadd : Kept (addCurlItem drawn now info) := by
      unfold addCurlItem
      split
      · dsimp only
        refine Kept.caught ?_ _
        refine (kept_addDownloadId _ _ _ _).bind ?_
        intro key
        exact (kept_addItems _ _).bind fun _ => kept_ret _
      · exact kept_ret _
    exact hadd.bind fun answer => kept_ret _
  | modifyCurlItem fileLoc status compltTimestamp hashGiven hashType hashRtrnd retSuccType =>
    refine Kept.caught ?_ _
    refine (kept_determineDownloadId _).bind ?_
    intro identifier
    split
    · exact (kept_addItems _ _).bind fun _ => kept_ret _
    · exact .throw _
  | delCurlItem ord fileDest uniqueIdBackup =>
    refine Kept.caught ?_ _
    have hid : Kept (curlIdToDelete fileDest uniqueIdBackup) := by
      unfold curlIdToDelete
      split
      · exact (kept_determineDownloadId _).bind fun _ => kept_ret _
      · exact kept_ret _
    refine hid.bind ?_
    intro id
    split
    · exact .throw _
    · exact (kept_delItems _ _).bind fun _ => kept_delDownloadId _ _ _
  | addTorrentItem drawn now info =>
    exact (kept_addTorrentItem drawn now info).bind fun answer => kept_ret _
  | modifyTorrentItem uniqueId status =>
    rw [StoreCall.prog, modifyTorrentItem]
    split
    · exact kept_ret _
    · exact kept_ret _
  | delTorrentItem uniqueId => exact kept_ret _

theorem bracketed_tryLock {mutex : ItemMutex} {body : DbProg CallAnswer} (h : Kept body)
    (refused : CallAnswer) : Bracketed Next.Bracketed false (tryLock mutex body refused) := .ret h

theorem bracketed_answered (a : CallAnswer) :
    Bracketed Next.Bracketed false (answered a) := .ret trivial

/-- **Brackets.** Each call, up to its mutex and under it. -/
theorem bracketed_enter (c : ObjectCall) : Bracketed Next.Bracketed false c.enter := by
  cases c with
  | change c =>
    have hprog : Kept (ObjectCall.change c).prog := (kept_change c).bind fun ret => kept_ret _
    cases c with
    | addCurlItem drawn now info =>
      rw [ObjectCall.enter]
      split
      · exact bracketed_tryLock hprog _
      · exact bracketed_answered _
    | modifyCurlItem fileLoc status compltTimestamp hashGiven hashType hashRtrnd retSuccType =>
      rw [ObjectCall.enter]
      refine Bracketed.tryCatch ?_ fun e => .warn (bracketed_answered _)
      refine Bracketed.bind (kept_determineDownloadId fileLoc) ?_
      intro identifier _
      split
      · apply bracketed_tryLock
        have hwrite : Kept (modifyCurlItemLocked identifier.1 status compltTimestamp hashGiven
            hashType hashRtrnd retSuccType) :=
          Kept.caught ((kept_addItems _ _).bind fun _ => kept_ret _) _
        exact hwrite.bind fun ret => kept_ret _
      · exact .throw _
    | delCurlItem ord fileDest uniqueIdBackup => exact bracketed_tryLock hprog _
    | addTorrentItem drawn now info =>
      rw [ObjectCall.enter]
      split
      · exact bracketed_tryLock hprog _
      · exact bracketed_answered _
    | modifyTorrentItem uniqueId status =>
      rw [ObjectCall.enter]
      split
      · exact .ret (kept_ret _)
      · exact bracketed_answered _
    | delTorrentItem uniqueId => exact .ret (kept_ret _)
  | readCurlItems ord =>
    rw [ObjectCall.enter]
    refine Bracketed.tryCatch ?_ fun e => .warn (bracketed_answered _)
    refine Bracketed.bind (kept_extractDownloadIds false) ?_
    intro downloadIds _
    split
    · apply bracketed_tryLock
      have hread : Kept (readCurlItemsLocked (ord.order downloadIds)) :=
        (kept_readCurlRecords _).caught _
      exact hread.bind fun records => kept_ret _
    · exact bracketed_answered _
  | readTorrentItems fuel ord minimalReadout =>
    apply bracketed_tryLock
    have hread : Kept (readTorrentItems fuel ord minimalReadout) := by
      refine Kept.caught ?_ _
      refine (kept_extractDownloadIds true).bind ?_
      intro downloadIds
      split
      · exact kept_readTorrentRecords _ _ _
      · exact kept_ret _
    exact hread.bind fun records => kept_ret _

end Brackets

/-! ## No deadlock -/

/-- The object, with all its calls. -/
abbrev CmnRoutines (T : Type) := Object T ItemMutex Str Str Str CallAnswer

/-- **No deadlock.** Any number of calls on one object, over any database: whatever has been
scheduled, they can all be brought to their end, unless one of them spins in the CSV reader. -/
theorem calls_complete {T : Type} [Fintype T] [DecidableEq T] (s : Db) (calls : T → ObjectCall)
    (sched : List T) :
    ∃ more : List T, ∃ w : CmnRoutines T,
      (sched ++ more).foldl Object.step (Object.start s fun t => (calls t).enter) = w ∧
        ((∀ t, (w.threads t).Ended) ∨ ∃ t, w.Spins t) :=
  exists_completion (fun t => bracketed_enter (calls t)) sched

end FyreDL.Store
