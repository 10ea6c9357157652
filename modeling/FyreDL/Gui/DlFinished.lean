import Mathlib.Data.Rat.Floor
import FyreDL.Gui.FileHash
import FyreDL.Store.CurlRecord
import FyreDL.Store.TorrentItems

/-!
# FyreDL.Gui.DlFinished — `MainWindow::recvDlFinished`

The slot that is told of a finished download: it hashes the file, stores the download
as completed and shows it so.

* The table of the window is a list of rows with the columns that the slot uses.
* `modifyCurlItem` is called with five of its seven arguments. The checksum that was
  computed goes into the place of the *given* hash, and the last two arguments keep
  their defaults, an empty returned hash and the verdict `NotApplicable`, for which
  `modifyCurlItem` stores none of the hash items.
* Hence every record keeps the hash items it had (`storedRecord_finished`), and the
  result of the check is on record only if it was before
  (`recvDlFinished_records_iff`).
-/

namespace FyreDL.Gui

open Lib Lib.Kv Store

/-! ## Texts of the window -/

/-- `convDlStat_StringToEnum`. -/
def convDlStatStringToEnum (status : Str) : DownloadStatus :=
  if status = "Downloading".toList then .downloading
  else if status = "Completed".toList then .completed
  else if status = "Failed".toList then .failed
  else if status = "Paused".toList then .paused
  else if status = "Stopped".toList then .stopped
  else .unknown

/-- Every status but `Invalid` is read back from its text. -/
theorem convDlStatStringToEnum_toString (status : DownloadStatus) :
    convDlStatStringToEnum (convDlStatToString status) =
      if status = .invalid then .unknown else status := by
  cases status <;> decide

/-- `std::round`: halves away from zero. -/
def roundHalfAway (value : ℚ) : Int :=
  if value < 0 then -⌊-value + 1 / 2⌋ else ⌊value + 1 / 2⌋

/-- The digits of a number in groups of three, from the right. -/
def groupThousands (digits : Str) : Str :=
  (digits.reverse.zipIdx.flatMap fun (c, i) => if i % 3 = 0 ∧ i ≠ 0 then [',', c] else [c]).reverse

/-- `numberSeperators`, for a whole number. -/
def numberSeperators (value : Int) : Str :=
  (if value < 0 then ['-'] else []) ++ groupThousands (toText value.natAbs)

/-- `bytesToKilobytes`. -/
def bytesToKilobytes (value : ℚ) : Str :=
  numberSeperators (roundHalfAway (value / 1024)) ++ " KB".toList

/-- `bytesToMegabytes`. -/
def bytesToMegabytes (value : ℚ) : Str :=
  numberSeperators (roundHalfAway (value / 1024 / 1024)) ++ " MB".toList

/-- `numberConverter`. -/
def numberConverter (value : ℚ) : Str :=
  if value < 1024 * 1024 then bytesToKilobytes value
  else if value > 2048 * 1024 then bytesToMegabytes value
  else bytesToKilobytes value

/-! ## The slot -/

/-- A row of the table, with the columns that are used here. -/
structure DlRow where
  destination : Str
  status : Str
  downloaded : Str
deriving DecidableEq, Repr

/-- The `file_hash` of the slot. It stays uninitialised in the source when no record is
found. -/
def hashFinished (digest : Digest) (disk : Str → DiskFile) (fileLoc : Str)
    (dlMiniInfoVec : List CurlDlInfo) : Except Str FileHash :=
  match dlMiniInfoVec.find? fun info => info.fileLoc = fileLoc with
  | none => .ok noFileHash
  | some info =>
    match info.hashType with
    | .cannotDetermine => cryptoFileHash digest disk fileLoc .sha1 []
    | .none => cryptoFileHash digest disk fileLoc .sha1 []
    | hashType => cryptoFileHash digest disk fileLoc hashType info.hashValGiven

/-- What the slot does for the row it has found. -/
def finishRow (digest : Digest) (disk : Str → DiskFile) (ord : IterOrder Entry) (now : Int)
    (status : DlStatusMsg) (row : DlRow) : DbProg DlRow := do
  let dlMiniInfoVec ← readCurlItems ord
  match hashFinished digest disk status.fileLoc dlMiniInfoVec with
  | .error what => .throw what
  | .ok fileHash => do
    let _ ← modifyCurlItem status.fileLoc .completed now fileHash.checksum fileHash.hashType []
      .notApplicable
    pure { row with
      status := convDlStatToString .completed
      downloaded := numberConverter status.contentLen }

/-- The row of the table that a message is about. -/
def isFinishedRow (status : DlStatusMsg) (row : DlRow) : Bool :=
  row.destination = status.fileLoc ∧ convDlStatStringToEnum row.status = .downloading

/-- The loop of the slot over the rows of the table: the first row of the file that is
downloading is treated and ends it. -/
def finishFirst (finish : DlRow → DbProg DlRow) (status : DlStatusMsg) :
    List DlRow → DbProg (List DlRow)
  | [] => pure []
  | row :: rest =>
    if isFinishedRow status row then do
      let row ← finish row
      pure (row :: rest)
    else do
      let rest ← finishFirst finish status rest
      pure (row :: rest)

/-- `recvDlFinished`: the table it leaves, and whether it ends the application. -/
def recvDlFinished (digest : Digest) (disk : Str → DiskFile) (ord : IterOrder Entry) (now : Int)
    (rows : List DlRow) (status : DlStatusMsg) : DbProg (List DlRow × Bool) :=
  Prog.tryCatch (do
    let rows' ← finishFirst (finishRow digest disk ord now status) status rows
    pure (rows', false))
    fun e => .warn (e ++ "\n\nAborting...".toList) (.ret (rows, true))

/-! ## What it stores -/

section Stores

variable {s : Db} {digest : Digest} {disk : Str → DiskFile} {status : DlStatusMsg} {data : Str}

/-- A file that can be read is hashed without an exception. -/
theorem hashFinished_ok (hdisk : disk status.fileLoc = .content data) (infos : List CurlDlInfo) :
    ∃ fileHash, hashFinished digest disk status.fileLoc infos = .ok fileHash := by
  unfold hashFinished
  split
  · exact ⟨_, rfl⟩
  · split
    · exact cryptoFileHash_ok digest hdisk _ _
    · exact cryptoFileHash_ok digest hdisk _ _
    · exact cryptoFileHash_ok digest hdisk _ _

/-- The items that are written for a finished download. -/
def FinishedItems (items : List (Str × Str)) : Prop :=
  ∀ p ∈ items, p.1 = leveldbKeyCurlStat ∨ p.1 = leveldbKeyCurlCompltDate

/-- Without a verdict `modifyCurlItem` writes the status and the date only, under
whatever id it finds. -/
theorem run_modifyCurlItem_noVerdict {cache : List Entry}
    (hextract : run (extractDownloadIds false) s = (.ret cache, s)) (fileLoc : Str)
    (dlStatus : DownloadStatus) (compltTimestamp : Int) (hashGiven : Str) (hashType : HashType)
    (hashRtrnd : Str) :
    ∃ result id items, FinishedItems items ∧
      run (modifyCurlItem fileLoc dlStatus compltTimestamp hashGiven hashType hashRtrnd
        .notApplicable) s = (.ret result, putItems s id items) := by
  rcases determineDownloadId_settles hextract fileLoc with ⟨⟨id, isTorrent⟩, hid⟩ | ⟨what, hid⟩
  · by_cases hne : id = []
    · -- no id: the exception is shown and nothing is written
      refine ⟨false, [], [], fun p hp => absurd hp List.not_mem_nil, ?_⟩
      rw [modifyCurlItem, run_tryCatch, run_bind_ret hid, if_neg (fun hc => hc hne)]
      rfl
    · refine ⟨true, id, _, ?_, run_modifyCurlItem hid hne _ _ _ _ _ _⟩
      intro p hp
      simp only [modifiedItems, ne_eq, not_true_eq_false, if_false, List.append_nil,
        List.mem_cons] at hp
      rcases hp with rfl | hp
      · exact .inl rfl
      · split at hp
        · exact .inr (by rw [List.mem_singleton.mp hp])
        · exact absurd hp List.not_mem_nil
  · refine ⟨false, [], [], fun p hp => absurd hp List.not_mem_nil, ?_⟩
    rw [modifyCurlItem, run_tryCatch, run_bind_throw hid]
    rfl

/-- The row of a finished download. -/
def finishedRow (status : DlStatusMsg) (row : DlRow) : DlRow :=
  { row with
    status := convDlStatToString .completed
    downloaded := numberConverter status.contentLen }

/-- The table with the first row that the message is about marked as completed. -/
def markFinished (status : DlStatusMsg) : List DlRow → List DlRow
  | [] => []
  | row :: rest =>
    if isFinishedRow status row then finishedRow status row :: rest
    else row :: markFinished status rest

/-- The loop treats the row that it finds. -/
theorem run_finishFirst {finish : DlRow → DbProg DlRow} {s s' : Db}
    (h : ∀ row, run (finish row) s = (.ret (finishedRow status row), s')) {rows : List DlRow}
    (hrow : ∃ row ∈ rows, isFinishedRow status row = true) :
    run (finishFirst finish status rows) s = (.ret (markFinished status rows), s') := by
  induction rows with
  | nil =>
    rcases hrow with ⟨row, hmem, -⟩
    exact absurd hmem List.not_mem_nil
  | cons row rows ih =>
    rw [finishFirst, markFinished]
    -- the loop stops at this row, or the row is further behind
    by_cases hfirst : isFinishedRow status row = true
    · rw [if_pos hfirst, if_pos hfirst, run_bind_ret (h row)]
      rfl
    · have hrest : ∃ r ∈ rows, isFinishedRow status r = true := by
        rcases hrow with ⟨r, hmem, hr⟩
        rcases List.mem_cons.mp hmem with rfl | hin
        · exact absurd hr hfirst
        · exact ⟨r, hin, hr⟩
      rw [if_neg hfirst, if_neg hfirst, run_bind_ret (ih hrest)]
      rfl

/-- The slot runs to its end and writes the status and the date only. -/
theorem run_recvDlFinished {cache : List Entry} {ord : IterOrder Entry} {infos : List CurlDlInfo}
    (hextract : run (extractDownloadIds false) s = (.ret cache, s))
    (hinfos : run (readCurlItems ord) s = (.ret infos, s))
    (hdisk : disk status.fileLoc = .content data) (now : Int) {rows : List DlRow}
    (hrow : ∃ row ∈ rows, isFinishedRow status row = true) :
    ∃ id items, FinishedItems items ∧
      run (recvDlFinished digest disk ord now rows status) s =
        (.ret (markFinished status rows, false), putItems s id items) := by
  rcases @hashFinished_ok digest disk status data hdisk infos with ⟨fileHash, hhash⟩
  rcases run_modifyCurlItem_noVerdict hextract status.fileLoc .completed now fileHash.checksum
    fileHash.hashType [] with ⟨result, id, items, hitems, hmodify⟩
  -- the row that is found is finished, whichever it is
  have hfinish : ∀ row, run (finishRow digest disk ord now status row) s =
      (.ret (finishedRow status row), putItems s id items) := by
    intro row
    rw [finishRow, run_bind_ret hinfos, hhash]
    dsimp only
    rw [run_bind_ret hmodify]
    rfl
  refine ⟨id, items, hitems, run_tryCatch_ret ?_ _⟩
  rw [run_bind_ret (run_finishFirst hfinish hrow)]
  rfl

end Stores

/-! ## What is read afterwards -/

section Frame

variable {s : Db} {id : Str} {items : List (Str × Str)}

/-- All values of an entry but the status and the date are as before. -/
theorem itemValue_finished (hitems : FinishedItems items) (e : Entry) {key : Str}
    (hkey : key ∈ curlKeys) (hstat : key ≠ leveldbKeyCurlStat)
    (hdate : key ≠ leveldbKeyCurlCompltDate) :
    itemValue (putItems s id items) e.1 key = itemValue s e.1 key := by
  rw [itemValue, itemValue, putItems_of_notMem]
  intro p hp heq
  have hplain : '_' ∉ p.1 := by
    rcases hitems p hp with h | h
    · rw [h]
      decide
    · rw [h]
      decide
  have hsame : p.1 = key := ((multipartKey_inj hplain (curlKeys_plain key hkey)).mp heq).2
  rcases hitems p hp with h | h
  · exact hstat (hsame ▸ h)
  · exact hdate (hsame ▸ h)

/-- An entry that could be read still can be. -/
theorem curlReadable_finished (hitems : FinishedItems items) {e : Entry}
    (h : CurlReadable s e) : CurlReadable (putItems s id items) e := by
  constructor
  · intro key hkey
    exact putItems_isSome (h.1 key hkey) id items
  · rw [itemValue_finished hitems e (by decide) (by decide) (by decide)]
    exact h.2

/-- **The hash items of a record are as before**, whatever id was written to. -/
theorem storedRecord_finished (hitems : FinishedItems items) (e : Entry) :
    (storedRecord (putItems s id items) e).hashValGiven = (storedRecord s e).hashValGiven ∧
      (storedRecord (putItems s id items) e).hashValRtrnd = (storedRecord s e).hashValRtrnd ∧
      (storedRecord (putItems s id items) e).hashSuccType = (storedRecord s e).hashSuccType := by
  -- the three items are neither the status nor the date
  have hvalue : ∀ key ∈ [leveldbKeyCurlHashValGiven, leveldbKeyCurlHashValRtrnd,
      leveldbKeyCurlHashSuccType],
      itemValue (putItems s id items) e.1 key = itemValue s e.1 key := by
    intro key hkey
    refine itemValue_finished hitems e ?_ ?_ ?_
    · revert key
      decide
    · revert key
      decide
    · revert key
      decide
  simp only [List.forall_mem_cons] at hvalue
  rcases hvalue with ⟨hgiven, hrtrnd, hsucc, -⟩
  constructor
  · exact hgiven
  · constructor
    · exact hrtrnd
    · exact congrArg (fun v => convHashVerifIntToEnum (ofText v)) hsucc

end Frame

/-! ## The result of the check -/

/-- A record tells the result of checking the file against the hash of `asked`. -/
def CheckRecorded (digest : Digest) (data : Str) (asked record : CurlDlInfo) : Prop :=
  record.hashSuccType =
      (if digest (convHashTypeToAlgo asked.hashType) data = asked.hashValGiven then .verified
        else .corrupt) ∧
    record.hashValRtrnd = digest (convHashTypeToAlgo asked.hashType) data ∧
    record.hashValGiven = asked.hashValGiven

/-- **The result of the check is not recorded.** For a download that is shown as
downloading, whose file can be read and whose record asks for a check, the record shown
after the slot tells the result exactly when the one shown before did. -/
theorem recvDlFinished_records_iff (digest : Digest) (disk : Str → DiskFile)
    (ord : IterOrder Entry) (now : Int) (rows : List DlRow) (status : DlStatusMsg) {s : Db}
    {infos : List CurlDlInfo} {info : CurlDlInfo} {data : Str}
    (hinfos : run (readCurlItems ord) s = (.ret infos, s)) (hinfo : info ∈ infos)
    (hloc : info.fileLoc = status.fileLoc) (hknown : IsKnown info.hashType)
    (hgiven : info.hashValGiven ≠ []) (hdisk : disk status.fileLoc = .content data)
    (hrow : ∃ row ∈ rows, isFinishedRow status row = true) :
    (∃ rows' s' infos', run (recvDlFinished digest disk ord now rows status) s =
          (.ret (rows', false), s') ∧
        run (readCurlItems ord) s' = (.ret infos', s') ∧
        ∃ info' ∈ infos', info'.uniqueId = info.uniqueId ∧ CheckRecorded digest data info info') ↔
      CheckRecorded digest data info info := by
  rcases readCurlItems_mem hinfos hinfo with ⟨cache, e, hextract, hread, he, hcurl, rfl⟩
  rcases @run_recvDlFinished s digest disk status data cache ord infos hextract hinfos hdisk now
    rows hrow with ⟨id, items, hitems, hrun⟩
  set s' := putItems s id items with hs'
  have hextract' : run (extractDownloadIds false) s' = (.ret cache, s') := by
    have hindex : s' leveldbStoreUniqueId = s leveldbStoreUniqueId :=
      putItems_of_notMem (fun p _ => multipartKey_ne_index id p.1) s
    have hfst := run_extractDownloadIds_congr hindex false
    rw [hextract] at hfst
    exact Prod.ext hfst (run_readsOnly (readsOnly_extractDownloadIds false) _)
  have hinfos' := run_readCurlItems ord hextract'
    fun d hd hc => curlReadable_finished hitems (hread d hd hc)
  rcases @storedRecord_finished s id items hitems e with ⟨hgiven', hrtrnd', hsucc'⟩
  have hsame : CheckRecorded digest data (storedRecord s e) (storedRecord s' e) ↔
      CheckRecorded digest data (storedRecord s e) (storedRecord s e) := by
    rw [CheckRecorded, hgiven', hrtrnd', hsucc', ← CheckRecorded]
  constructor
  · rintro ⟨rows'', s'', infos'', hrun', hinfos'', info', hinfo', hid, hcheck⟩
    rw [hrun] at hrun'
    rcases Prod.mk.inj hrun' with ⟨-, rfl⟩
    rw [hinfos'] at hinfos''
    cases hinfos''
    rcases List.mem_map.mp hinfo' with ⟨d, hd, rfl⟩
    have hd : d ∈ cache := ord.mem_order.mp (List.mem_filter.mp hd).1
    -- an id is in the map once, so this is the record of the same entry
    have hde : d = e := List.inj_on_of_nodup_map (extractDownloadIds_nodup hextract) hd he hid
    subst hde
    exact hsame.mp hcheck
  · intro hcheck
    refine ⟨_, s', _, hrun, hinfos', storedRecord s' e, List.mem_map_of_mem ?_, rfl,
      hsame.mpr hcheck⟩
    exact List.mem_filter.mpr ⟨ord.mem_order.mpr he, decide_eq_true hcurl⟩

/-! ## A download with the right hash -/

/-- The sample download, started. -/
def startedDb : Db :=
  (run (modifyCurlItem sampleInfo.fileLoc .downloading 0 [] .none [] .notApplicable) sampleDb).2

/-- Its record. -/
def startedInfo : CurlDlInfo :=
  { curlInfoToStore 7 sampleInfo with
    extInfo := { (curlInfoToStore 7 sampleInfo).extInfo with elapsed := -1 }
    dlStatus := .downloading
    hashType := .md5
    hashSuccType := .notApplicable }

/-- A digest that is the given hash, for a file of one byte. -/
def sampleDigest : Digest := fun _ _ => sampleInfo.hashValGiven

def sampleDisk : Str → DiskFile := fun _ => .content ['x']

def sampleStatus : DlStatusMsg := ⟨1, "http://h/a.iso".toList, sampleInfo.fileLoc⟩

def sampleRows : List DlRow := [⟨sampleInfo.fileLoc, "Downloading".toList, "0 KB".toList⟩]

theorem readCurlItems_started :
    run (readCurlItems (IterOrder.insertion Entry)) startedDb = (.ret [startedInfo], startedDb) :=
  Prod.ext (by decide +kernel) (noWrites_readCurlItems _ |>.run_store _)

/-- The file has the hash that was asked for. The record that is read after the slot
has neither the digest nor the verdict. -/
theorem recvDlFinished_sample :
    run (readCurlItems (IterOrder.insertion Entry)) startedDb = (.ret [startedInfo], startedDb) ∧
      IsKnown startedInfo.hashType ∧
      sampleDigest (convHashTypeToAlgo startedInfo.hashType) ['x'] = startedInfo.hashValGiven ∧
      ¬ ∃ rows' s' infos', run (recvDlFinished sampleDigest sampleDisk (IterOrder.insertion Entry) 9
            sampleRows sampleStatus) startedDb = (.ret (rows', false), s') ∧
          run (readCurlItems (IterOrder.insertion Entry)) s' = (.ret infos', s') ∧
          ∃ info' ∈ infos', info'.uniqueId = startedInfo.uniqueId ∧
            CheckRecorded sampleDigest ['x'] startedInfo info' := by
  refine ⟨readCurlItems_started, by decide, rfl, ?_⟩
  rintro ⟨rows', s', infos', hrun, hinfos', info', hinfo', -, hcheck⟩
  have hread : (run (readCurlItems (IterOrder.insertion Entry))
      (run (recvDlFinished sampleDigest sampleDisk (IterOrder.insertion Entry) 9 sampleRows
        sampleStatus) startedDb).2).1 =
      .ret [{ startedInfo with dlStatus := .completed, compltTimestamp := 9 }] := by
    decide +kernel
  rw [hrun, hinfos'] at hread
  cases hread
  rw [List.mem_singleton.mp hinfo'] at hcheck
  exact absurd hcheck.2.1 (by decide)

/-- The sample meets what `recvDlFinished_records_iff` asks for. -/
theorem recvDlFinished_records_sample :
    (∃ rows' s' infos', run (recvDlFinished sampleDigest sampleDisk (IterOrder.insertion Entry) 9
            sampleRows sampleStatus) startedDb = (.ret (rows', false), s') ∧
          run (readCurlItems (IterOrder.insertion Entry)) s' = (.ret infos', s') ∧
          ∃ info' ∈ infos', info'.uniqueId = startedInfo.uniqueId ∧
            CheckRecorded sampleDigest ['x'] startedInfo info') ↔
      CheckRecorded sampleDigest ['x'] startedInfo startedInfo :=
  recvDlFinished_records_iff sampleDigest sampleDisk (IterOrder.insertion Entry) 9 sampleRows
    sampleStatus readCurlItems_started List.mem_cons_self rfl (by decide) (by decide) rfl
    ⟨_, List.mem_cons_self, by decide⟩

end FyreDL.Gui
