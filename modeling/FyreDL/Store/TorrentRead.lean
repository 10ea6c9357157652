import FyreDL.Store.TorrentSpec

/-!
# FyreDL.Store.TorrentRead — reading a stored torrent

`TorrentStored s info` says that the store has all items of a torrent under its id.

1. **Texts**: a text of one row is opened without complaint (`openRows_rowText`), and the
   reader delivers the row unless two of its cells are empty.
2. **Files and trackers**: the files come back in order under the id of the torrent
   (`run_readTorrentFilesAddendum`), the trackers as the last one.
3. **Torrents**: `run_readTorrentItem` for one that has files, trackers and SHA-1 fields.
   Without trackers, or with an empty SHA-1 field, the reader throws.
-/

namespace FyreDL.Store

open Lib Lib.Kv Csv

/-! ## Texts of one row -/

theorem cleanCell_toText (n : Int) : CleanCell (toText n) :=
  ⟨toText_ne_nil n, not_mem_toText (by decide) (by decide),
    not_mem_toText (by decide) (by decide)⟩

theorem encodeRow_cons_ne_nil {v : Str} (hv : v ≠ []) (vs : List Str) :
    encodeRow (v :: vs) ≠ [] := by
  cases vs with
  | nil => exact hv
  | cons w vs => simp [encodeRow, hv]

theorem hasColumns_of_forall {rd : GkCsvReader} {names : List Str}
    (h : ∀ name ∈ names, hasColumn rd name = .ok true) : hasColumns rd names = .ok true := by
  induction names with
  | nil => rfl
  | cons name names ih =>
    rw [hasColumns, h name List.mem_cons_self]
    exact ih fun other hother => h other (List.mem_cons_of_mem _ hother)

/-- A header line that can be told from its rows. -/
structure HeaderRow (n : Nat) (headers : List Str) : Prop where
  clean : CleanRow n headers
  no_cr : (encodeRow headers).getLast? ≠ some '\r'
  long : cfgCsvMinParseSize ≤ (encodeRow headers).length

theorem headerRow_file : HeaderRow 8 fileHeaders := ⟨by decide, by decide, by decide⟩

theorem headerRow_mapflepce : HeaderRow 2 mapflepceHeaders := ⟨by decide, by decide, by decide⟩

theorem headerRow_tracker : HeaderRow 3 trackerHeaders := ⟨by decide, by decide, by decide⟩

section Texts

variable {n : Nat} {headers cells : List Str}

/-- A text with one of these header lines is long enough to be read. -/
theorem parsable_rowText (h : HeaderRow n headers) (cells : List Str) :
    parsable (rowText headers cells) = true := by
  have hlong := h.long
  simp only [parsable, rowText, decide_eq_true_eq, ne_eq, List.append_eq_nil_iff,
    List.length_append, List.length_cons]
  exact ⟨by simp, by omega⟩

theorem openRows_rowText (h : HeaderRow n headers) (hcells : PlainRow n cells)
    (hne : encodeRow cells ≠ []) {columns : List Str} (hcolumns : ∀ name ∈ columns, name ∈ headers)
    (columnCount : Nat) (downloadKey : Str) (st : Statics) :
    ∃ rd, openRows columnCount (rowText headers cells) headers columns downloadKey st =
        .ret (rd, Statics.reset) ∧ Tabled rd n [cells] := by
  rcases make_rowText h.clean h.no_cr hcells hne columnCount st with
    ⟨rd, hmake, htabled, hcolumn⟩
  refine ⟨rd, ?_, htabled⟩
  rw [openRows, hmake]
  simp only [hasColumns_of_forall fun name hname => hcolumn name (hcolumns name hname)]

end Texts

/-! ## Pieces -/

/-- The second reader takes the two numbers and stops behind its first row. -/
theorem readMapflepce_rowText (downloadKey : Str) (f item : TorrentFile) (st : Statics) :
    ∃ st', readMapflepce downloadKey (rowText mapflepceHeaders (mapflepceCells f)) item st =
        .ret ({ item with mapFilePiece := f.mapFilePiece }, st') ∧ AtRow 1 st' := by
  have hclean : CleanRow 2 (mapflepceCells f) := by
    refine ⟨rfl, ?_⟩
    intro v hv
    simp only [mapflepceCells, List.mem_cons, List.not_mem_nil, or_false] at hv
    rcases hv with rfl | rfl <;> exact cleanCell_toText _
  have hne : encodeRow (mapflepceCells f) ≠ [] := encodeRow_cons_ne_nil (toText_ne_nil _) _
  rcases openRows_rowText headerRow_mapflepce hclean.plainRow hne (fun name hname => hname) 2
    downloadKey st with ⟨rd, hopen, htabled⟩
  -- no cell is empty, so the reader shifts none
  have htaken : taken (mapflepceCells f) = mapflepceCells f :=
    taken_of_filled fun v hv => (hclean.cells v hv).ne_nil
  rcases readRow_rowText htabled (by omega) (by rw [htaken, hclean.width]; omega)
    (fun _ => []) with ⟨st', hread, hst'⟩
  refine ⟨st', ?_, hst'⟩
  rw [readMapflepce, hopen, Prog.ret_bind]
  simp only [hread, htaken]
  simp [storeFrom, mapflepceCells]
  rfl

/-! ## Files -/

/-- A file as it is read back. -/
def readBackFile (downloadKey : Str) (f : TorrentFile) : TorrentFile :=
  { f with uniqueId := downloadKey }

section Files

variable {s : Db} {id mk : Str} {f : TorrentFile}

theorem plainRow_fileCells (hpath : CleanCell f.filePath) (hmk : CleanCell mk)
    (hhash : f.sha1HashHex = [] ∨ CleanCell f.sha1HashHex) : PlainRow 8 (fileCells mk f) := by
  have hplain : Plain f.sha1HashHex := by
    rcases hhash with hnil | hclean
    · rw [hnil]
      exact ⟨List.not_mem_nil, List.not_mem_nil⟩
    · exact hclean.plain
  refine ⟨rfl, ?_, ?_⟩
  · simp only [fileCells, List.forall_mem_cons]
    exact ⟨hpath.plain, (cleanCell_toText _).plain, hplain, (cleanCell_toText _).plain,
      (cleanCell_toText _).plain, hmk.plain, (cleanCell_boolText _).plain,
      (cleanCell_toText _).plain, fun v hv => absurd hv List.not_mem_nil⟩
  · intro v hv
    obtain rfl : toText f.flags = v := by simpa [fileCells] using hv
    exact toText_ne_nil _

/-- The cells that a call takes of a file: all, or all but the SHA-1 field. -/
theorem taken_fileCells (hpath : CleanCell f.filePath) (hmk : CleanCell mk) :
    taken (fileCells mk f) =
      if f.sha1HashHex = [] then
        [f.filePath, toText f.contentLength, toText f.fileOffset, toText f.mtime, mk,
          boolText f.downloaded, toText f.flags]
      else fileCells mk f := by
  have hbool : boolText f.downloaded ≠ [] := (cleanCell_boolText _).ne_nil
  by_cases hnil : f.sha1HashHex = []
  · simp [taken, fileCells, hnil, hpath.ne_nil, hmk.ne_nil, toText_ne_nil, hbool]
  · simp [taken, fileCells, hnil, hpath.ne_nil, hmk.ne_nil, toText_ne_nil, hbool]

/-- The row of a file, with its pieces stored under the key it names. -/
theorem run_readFileRow (hid : id ≠ []) (hmk : mk ≠ [])
    (hstored : s mk = some (rowText mapflepceHeaders (mapflepceCells f))) (st : Statics) :
    ∃ st', run (readFileRow id (storeFrom (fileCells mk f) 0 fun _ => []) blankFile st) s =
        (.ret (readBackFile id f, st'), s) ∧ AtRow 1 st' := by
  unfold readFileRow
  -- the sixth cell names the key of the pieces
  have hkey : storeFrom (fileCells mk f) 0 (fun _ => []) 5 = mk := by simp [storeFrom, fileCells]
  have hget : run (getMapflepce id mk) s =
      (.ret (rowText mapflepceHeaders (mapflepceCells f)), s) := by
    rw [getMapflepce, run_get, hstored]
    rfl
  rw [if_pos hid, hkey, if_pos hmk]
  simp only [run_bind_ret hget]
  rcases readMapflepce_rowText id f { blankFile with
      uniqueId := id
      filePath := storeFrom (fileCells mk f) 0 (fun _ => []) 0
      contentLength := ofText (storeFrom (fileCells mk f) 0 (fun _ => []) 1)
      sha1HashHex := storeFrom (fileCells mk f) 0 (fun _ => []) 2
      fileOffset := ofText (storeFrom (fileCells mk f) 0 (fun _ => []) 3)
      mtime := ofText (storeFrom (fileCells mk f) 0 (fun _ => []) 4)
      downloaded := convertBoolFromInt (ofText (storeFrom (fileCells mk f) 0 (fun _ => []) 6))
      flags := ofText (storeFrom (fileCells mk f) 0 (fun _ => []) 7) } st with ⟨st', hread, hst'⟩
  refine ⟨st', ?_, hst'⟩
  rw [hread, run_ret]
  simp [storeFrom, fileCells, readBackFile, ofText_toText]

/-- The row of a file whose SHA-1 field is empty: the reader takes the next cell for it,
and so on, and comes to fetch the pieces under the text of the boolean. -/
theorem run_readFileRow_empty_hash (hid : id ≠ []) (hnone : s (boolText f.downloaded) = none)
    (st : Statics) :
    run (readFileRow id (storeFrom [f.filePath, toText f.contentLength, toText f.fileOffset,
        toText f.mtime, mk, boolText f.downloaded, toText f.flags] 0 fun _ => []) blankFile st) s =
      (.throw (fileProcessingIssue id notFoundText), s) := by
  unfold readFileRow
  have hkey : storeFrom [f.filePath, toText f.contentLength, toText f.fileOffset, toText f.mtime,
      mk, boolText f.downloaded, toText f.flags] 0 (fun _ => []) 5 = boolText f.downloaded := by
    simp [storeFrom]
  have hget : run (getMapflepce id (boolText f.downloaded)) s =
      (.throw (fileProcessingIssue id notFoundText), s) := by
    rw [getMapflepce, run_get, hnone]
    rfl
  rw [if_pos hid, hkey, if_pos (cleanCell_boolText _).ne_nil]
  simp only [run_bind_throw hget]

/-- The text of a file, with its SHA-1 field. -/
theorem run_readFileText (hid : id ≠ []) (hpath : CleanCell f.filePath) (hmk : CleanCell mk)
    (hhash : CleanCell f.sha1HashHex)
    (hstored : s mk = some (rowText mapflepceHeaders (mapflepceCells f))) (fuel : Nat) :
    run (readFileText (fuel + 2) id (rowText fileHeaders (fileCells mk f))) s =
      (.ret [readBackFile id f], s) := by
  have hplain := plainRow_fileCells hpath hmk (Or.inr hhash)
  have htaken := taken_fileCells hpath hmk
  rw [if_neg hhash.ne_nil] at htaken
  have hne : encodeRow (fileCells mk f) ≠ [] := encodeRow_cons_ne_nil hpath.ne_nil _
  rcases openRows_rowText headerRow_file hplain hne
    (show ∀ name ∈ vitalFileColumns, name ∈ fileHeaders by decide) 8 id Statics.reset with
    ⟨rd, hopen, htabled⟩
  rcases readRow_rowText htabled (by omega) (by rw [htaken, hplain.width]; omega)
    (fun _ => []) with ⟨st₁, hread, -⟩
  rcases run_readFileRow hid hmk.ne_nil hstored st₁ with ⟨st₂, hrow, hst₂⟩
  -- the second reader is behind its first row, and so is the first one
  have hend := readRow_end htabled.count htabled.cols (by omega) hst₂
    (storeFrom (fileCells mk f) 0 fun _ => [])
  rw [readFileText, if_pos (parsable_rowText headerRow_file _), hopen, Prog.ret_bind]
  simp only [readFileRows, hread, htaken]
  rw [run_bind_ret hrow]
  simp only [hend]
  rfl

/-- Without a SHA-1 field. -/
theorem run_readFileText_empty_hash (hid : id ≠ []) (hpath : CleanCell f.filePath)
    (hmk : CleanCell mk) (hhash : f.sha1HashHex = []) (hnone : s (boolText f.downloaded) = none)
    (fuel : Nat) :
    run (readFileText (fuel + 1) id (rowText fileHeaders (fileCells mk f))) s =
      (.throw (fileProcessingIssue id notFoundText), s) := by
  have hplain := plainRow_fileCells hpath hmk (Or.inl hhash)
  have htaken := taken_fileCells hpath hmk
  rw [if_pos hhash] at htaken
  have hne : encodeRow (fileCells mk f) ≠ [] := encodeRow_cons_ne_nil hpath.ne_nil _
  rcases openRows_rowText headerRow_file hplain hne
    (show ∀ name ∈ vitalFileColumns, name ∈ fileHeaders by decide) 8 id Statics.reset with
    ⟨rd, hopen, htabled⟩
  rcases readRow_rowText htabled (by omega) (by rw [htaken]; simp) (fun _ => []) with
    ⟨st₁, hread, -⟩
  rw [readFileText, if_pos (parsable_rowText headerRow_file _), hopen, Prog.ret_bind]
  simp only [readFileRows, hread, htaken]
  rw [run_bind_throw (run_readFileRow_empty_hash hid hnone st₁)]

end Files

/-! ## All files -/

section AllFiles

variable {s : Db} {id : Str}

theorem cleanCell_mapflepceKey (hid : CleanCell id) (n : Int) : CleanCell (mapflepceKey id n) := by
  have hkind : Plain leveldbChildNodeTorrentFilesMapflepce := by decide
  have hnum := (cleanCell_toText n).plain
  have hplain := hid.plain
  refine ⟨by simp [mapflepceKey, multipartKey], ?_, ?_⟩
  · simp only [mapflepceKey, multipartKey, joined_cons_cons, joined_single, List.mem_append,
      List.mem_cons, not_or]
    exact ⟨hplain.1, by decide, hkind.1, by decide, hnum.1⟩
  · simp only [mapflepceKey, multipartKey, joined_cons_cons, joined_single, List.mem_append,
      List.mem_cons, not_or]
    exact ⟨hplain.2, by decide, hkind.2, by decide, hnum.2⟩

/-- The store has the items under the id. -/
def Stored (s : Db) (id : Str) (items : List (Str × Str)) : Prop :=
  ∀ p ∈ items, s (multipartKey [id, p.1]) = some p.2

theorem stored_fileEntries {n : Int} {f : TorrentFile} (h : Stored s id (fileEntries id n f)) :
    s (fileKey id n) = some (rowText fileHeaders (fileCells (mapflepceKey id n) f)) ∧
      s (mapflepceKey id n) = some (rowText mapflepceHeaders (mapflepceCells f)) :=
  ⟨h _ List.mem_cons_self, h _ (List.mem_cons_of_mem _ List.mem_cons_self)⟩

/-- A file whose cells the encoding can carry; the SHA-1 field may be missing. -/
structure CleanFile (f : TorrentFile) : Prop where
  path : CleanCell f.filePath
  hash : f.sha1HashHex = [] ∨ CleanCell f.sha1HashHex

/-- All files of a stored list are read, in order. -/
theorem run_readFilesFrom (hid : CleanCell id) {files : List TorrentFile}
    (hpath : ∀ f ∈ files, CleanCell f.filePath) (hhash : ∀ f ∈ files, CleanCell f.sha1HashHex)
    {counter : Int} (h : Stored s id (numbered (fileEntries id) counter files)) (fuel : Nat)
    (toFiles : List TorrentFile) :
    run (readFilesFrom (fuel + 2) id files.length counter toFiles) s =
      (.ret (toFiles ++ files.map (readBackFile id)), s) := by
  induction files generalizing counter toFiles with
  | nil =>
    rw [List.map_nil, List.append_nil]
    rfl
  | cons f files ih =>
    have hfirst : Stored s id (fileEntries id counter f) :=
      fun p hp => h p (List.mem_append_left _ hp)
    rcases stored_fileEntries hfirst with ⟨htext, hpieces⟩
    have hread := run_readFileText hid.ne_nil (hpath f List.mem_cons_self)
      (cleanCell_mapflepceKey hid counter) (hhash f List.mem_cons_self) hpieces fuel
    rw [List.length_cons, readFilesFrom, run_get, htext]
    simp only [Answer.ofOption]
    -- the first file is read, and the others by the induction hypothesis
    rw [run_bind_ret hread, ih (fun g hg => hpath g (List.mem_cons_of_mem _ hg))
      (fun g hg => hhash g (List.mem_cons_of_mem _ hg))
      (fun p hp => h p (List.mem_append_right _ hp)), List.append_assoc]
    rfl

/-- One of them has no SHA-1 field: an exception. -/
theorem run_readFilesFrom_empty_hash (hid : CleanCell id) {files : List TorrentFile}
    (hclean : ∀ f ∈ files, CleanFile f) (hhash : ∃ f ∈ files, f.sha1HashHex = [])
    (hbare : ∀ b : Bool, s (boolText b) = none) {counter : Int}
    (h : Stored s id (numbered (fileEntries id) counter files)) (fuel : Nat)
    (toFiles : List TorrentFile) :
    ∃ what, run (readFilesFrom (fuel + 2) id files.length counter toFiles) s =
      (.throw what, s) := by
  induction files generalizing counter toFiles with
  | nil =>
    rcases hhash with ⟨f, hf, -⟩
    exact absurd hf List.not_mem_nil
  | cons f files ih =>
    have hfile := hclean f List.mem_cons_self
    have hfirst : Stored s id (fileEntries id counter f) :=
      fun p hp => h p (List.mem_append_left _ hp)
    rcases stored_fileEntries hfirst with ⟨htext, hpieces⟩
    have hmk := cleanCell_mapflepceKey hid counter
    rw [List.length_cons, readFilesFrom, run_get, htext]
    simp only [Answer.ofOption]
    -- this file throws, or one behind it does
    by_cases hnil : f.sha1HashHex = []
    · rw [run_bind_throw (run_readFileText_empty_hash hid.ne_nil hfile.path hmk hnil
        (hbare f.downloaded) (fuel + 1))]
      exact ⟨_, rfl⟩
    · have hrest : ∃ g ∈ files, g.sha1HashHex = [] := by
        rcases hhash with ⟨g, hg, hgnil⟩
        rcases List.mem_cons.mp hg with rfl | hin
        · exact absurd hgnil hnil
        · exact ⟨g, hin, hgnil⟩
      rw [run_bind_ret (run_readFileText hid.ne_nil hfile.path hmk (hfile.hash.resolve_left hnil)
        hpieces fuel)]
      exact ih (fun g hg => hclean g (List.mem_cons_of_mem _ hg)) hrest
        (fun p hp => h p (List.mem_append_right _ hp)) _

end AllFiles

/-! ## Trackers -/

section Trackers

variable {s : Db} {id : Str}

/-- A tracker as it is read back. -/
def readBackTracker (downloadKey : Str) (t : TorrentTrackers) : TorrentTrackers :=
  { t with uniqueId := downloadKey }

/-- The last tracker of a list has the number of its length. -/
theorem stored_last_tracker {trackers : List TorrentTrackers} {t : TorrentTrackers}
    (hlast : trackers.getLast? = some t) (h : Stored s id (numbered trackerEntries 1 trackers)) :
    Stored s id (trackerEntries trackers.length t) := by
  intro p hp
  apply h p
  rw [List.getLast?_eq_getElem?] at hlast
  have hpos : 0 < trackers.length := by
    by_contra hzero
    rw [List.getElem?_eq_none (by omega)] at hlast
    cases hlast
  refine mem_numbered.mpr ⟨trackers.length - 1, t, hlast, ?_⟩
  have hnumber : (1 : Int) + ((trackers.length - 1 : Nat) : Int) = trackers.length := by omega
  rw [hnumber]
  exact hp

/-- The last tracker is read, whatever is stored of the others. -/
theorem run_readTorrentTrkrsAddendum {trackers : List TorrentTrackers} {t : TorrentTrackers}
    (hlast : trackers.getLast? = some t) (hurl : CleanCell t.url)
    (h : Stored s id (trackerEntries trackers.length t)) :
    run (readTorrentTrkrsAddendum trackers.length id) s =
      (.ret [readBackTracker id t], s) := by
  have hpos : 0 < trackers.length := by
    apply List.length_pos_of_ne_nil
    rintro rfl
    cases hlast
  have hclean : CleanRow 3 (trackerCells t) := by
    refine ⟨rfl, ?_⟩
    intro v hv
    simp only [trackerCells, List.mem_cons, List.not_mem_nil, or_false] at hv
    rcases hv with rfl | rfl | rfl
    · exact hurl
    · exact cleanCell_toText _
    · exact cleanCell_boolText _
  rcases openRows_rowText headerRow_tracker hclean.plainRow (encodeRow_cons_ne_nil hurl.ne_nil _)
    (fun name hname => hname) 3 id Statics.reset with ⟨rd, hopen, htabled⟩
  have hholds : Holds rd 3 [trackerCells t] :=
    ⟨htabled, fun vs hvs v hv => by
      rw [List.mem_singleton.mp hvs] at hv
      exact (hclean.cells v hv).ne_nil⟩
  rcases readAll_holds hholds (by omega) (fun _ => []) with ⟨st', hall⟩
  -- the number of trackers is also the number under which the last one is stored
  have htext : s (trackerKey id trackers.length) =
      some (rowText trackerHeaders (trackerCells t)) := h _ List.mem_cons_self
  have hrow : run (readTrackerText id (rowText trackerHeaders (trackerCells t))) s =
      (.ret [readBackTracker id t], s) := by
    rw [readTrackerText, if_pos (parsable_rowText headerRow_tracker _), hopen, Prog.ret_bind]
    simp only [hall, List.getLast?_singleton]
    simp [trackerCells, readBackTracker, ofText_toText]
  have hround : run (readTracker id trackers.length) s =
      (.ret (some [readBackTracker id t]), s) := by
    rw [readTracker, run_locked, run_get, htext]
    exact run_bind_ret hrow _
  rw [readTorrentTrkrsAddendum_pos (by omega)]
  exact run_bind_ret hround _

end Trackers

/-! ## Torrents -/

/-- A torrent as `torrentFileInfo` builds it and the index can carry it: an id of digits,
clean texts, and counts that are the lengths of the lists. -/
structure WellFormed (info : TorrentInfo) : Prop where
  id_ne_nil : info.general.uniqueId ≠ []
  id_digits : ∀ c ∈ info.general.uniqueId, c.isDigit = true
  dest : CleanCell info.general.downDest
  urls : ∀ t ∈ info.trackers, CleanCell t.url
  paths : ∀ f ∈ info.filesVec, CleanCell f.filePath
  numFiles : info.general.numFiles = info.filesVec.length
  numTrackers : info.general.numTrackers = info.trackers.length

/-- The SHA-1 fields are empty or clean, as a hash in hexadecimal is. -/
def HexOrEmpty (info : TorrentInfo) : Prop :=
  ∀ f ∈ info.filesVec, f.sha1HashHex = [] ∨ CleanCell f.sha1HashHex

theorem WellFormed.cleanFiles {info : TorrentInfo} (h : WellFormed info) (hhex : HexOrEmpty info) :
    ∀ f ∈ info.filesVec, CleanFile f := fun f hf => ⟨h.paths f hf, hhex f hf⟩

theorem WellFormed.id {info : TorrentInfo} (h : WellFormed info) :
    CleanCell info.general.uniqueId := by
  refine ⟨h.id_ne_nil, ?_, ?_⟩
  · intro hc
    exact absurd (h.id_digits _ hc) (by decide)
  · intro hl
    exact absurd (h.id_digits _ hl) (by decide)

/-- The store has all items of the torrent. -/
def TorrentStored (s : Db) (info : TorrentInfo) : Prop :=
  Stored s info.general.uniqueId (torrentEntries info)

theorem torrentStored_putTorrent (s : Db) (info : TorrentInfo) :
    TorrentStored (putTorrent s info) info := by
  intro p hp
  exact putItems_mem (torrentEntries_nodup info) hp s _

/-- The entry of the index under which a torrent is listed. -/
def torrentEntry (info : TorrentInfo) : Entry :=
  (info.general.uniqueId, info.general.downDest, true)

/-- A torrent as it is read back: the status is lost, and of the trackers the last one is
left. -/
def readBackTorrent (info : TorrentInfo) : TorrentInfo where
  general := { info.general with
    dlStatus := convDlStatIntToEnum (ofText (convDlStatToString info.general.dlStatus)) }
  trackers := (info.trackers.getLast?.map (readBackTracker info.general.uniqueId)).toList
  filesVec := info.filesVec.map (readBackFile info.general.uniqueId)

section Torrents

variable {s : Db} {info : TorrentInfo}

theorem TorrentStored.item (h : TorrentStored s info) {p : Str × Str}
    (hp : p ∈ torrentItems info.general) :
    itemValue s info.general.uniqueId p.1 = p.2 := by
  have hstored := h p (List.mem_append_left _ (List.mem_append_left _ hp))
  rw [itemValue, hstored, Option.getD_some]

theorem TorrentStored.files (h : TorrentStored s info) :
    Stored s info.general.uniqueId
      (numbered (fileEntries info.general.uniqueId) 1 info.filesVec) :=
  fun p hp => h p (List.mem_append_left _ (List.mem_append_right _ hp))

theorem TorrentStored.lastTracker (h : TorrentStored s info) {t : TorrentTrackers}
    (hlast : info.trackers.getLast? = some t) :
    Stored s info.general.uniqueId (trackerEntries info.trackers.length t) :=
  stored_last_tracker hlast fun p hp => h p (List.mem_append_right _ hp)

/-- The items of a stored torrent and what `readTorrentItems` makes of them. -/
theorem TorrentStored.run_items (h : TorrentStored s info) :
    ∃ values, run (readItems info.general.uniqueId torrentKeys) s = (.ret values, s) ∧
      generalInfo (torrentEntry info) (valueAt values) = (readBackTorrent info).general := by
  have hsome : ∀ key ∈ torrentKeys,
      (s (multipartKey [info.general.uniqueId, key])).isSome := by
    intro key hkey
    rw [← torrentItems_keys info.general] at hkey
    rcases List.mem_map.mp hkey with ⟨p, hp, rfl⟩
    rw [h p (List.mem_append_left _ (List.mem_append_left _ hp))]
    rfl
  refine ⟨_, run_readItems hsome, ?_⟩
  -- each value is the one that was stored under the key
  have hvalue : ∀ p ∈ torrentItems info.general,
      valueAt (torrentKeys.map fun key => (key, itemValue s info.general.uniqueId key)) p.1 =
        p.2 := by
    intro p hp
    rw [valueAt_map (torrentItems_keys info.general ▸ List.mem_map_of_mem hp), h.item hp]
  generalize valueAt (torrentKeys.map fun key =>
    (key, itemValue s info.general.uniqueId key)) = value at hvalue
  simp only [torrentItems, List.forall_mem_cons] at hvalue
  rcases hvalue with ⟨h1, h2, h3, h4, h5, h6, h7, h8, h9, h10, h11, h12, -⟩
  simp only [generalInfo, readBackTorrent, torrentEntry, h1, h2, h3, h4, h5, h6, h7, h8, h9, h10,
    h11, h12, ofText_toText]

theorem run_readTorrentFilesAddendum (h : TorrentStored s info) (hwf : WellFormed info)
    (hhash : ∀ f ∈ info.filesVec, CleanCell f.sha1HashHex) (fuel : Nat) :
    run (readTorrentFilesAddendum (fuel + 2) info.general.numFiles info.general.uniqueId) s =
      (.ret (readBackTorrent info).filesVec, s) := by
  unfold readTorrentFilesAddendum
  rw [hwf.numFiles]
  by_cases hnil : info.filesVec = []
  · rw [readBackTorrent, hnil]
    rfl
  · have hpos : 0 < info.filesVec.length := List.length_pos_of_ne_nil hnil
    rw [if_pos (by omega), run_locked, Int.toNat_natCast,
      run_readFilesFrom hwf.id hwf.paths hhash h.files fuel []]
    rfl

/-- **A stored torrent is read back**, when it has files, trackers and clean SHA-1
fields. -/
theorem run_readTorrentItem (h : TorrentStored s info) (hwf : WellFormed info)
    (hfiles : info.filesVec ≠ []) (htrackers : info.trackers ≠ [])
    (hhash : ∀ f ∈ info.filesVec, CleanCell f.sha1HashHex) (fuel : Nat) :
    run (readTorrentItem (fuel + 2) false (torrentEntry info)) s =
      (.ret (readBackTorrent info), s) := by
  rcases h.run_items with ⟨values, hitems, hgeneral⟩
  have hlast : info.trackers.getLast? = some (info.trackers.getLast htrackers) :=
    List.getLast?_eq_some_getLast htrackers
  have hread := run_readTorrentTrkrsAddendum hlast
    (hwf.urls _ (List.getLast_mem htrackers)) (h.lastTracker hlast)
  have hfilesRun := run_readTorrentFilesAddendum h hwf hhash fuel
  have hfilesNe : (readBackTorrent info).filesVec ≠ [] := by
    rw [readBackTorrent]
    simpa using hfiles
  -- the stored number of files is that of the list
  have htorrentFiles : run (readTorrentFiles (fuel + 2) false (readBackTorrent info).general) s =
      (.ret (readBackTorrent info).filesVec, s) := by
    have hfilesRun' : run (readTorrentFilesAddendum (fuel + 2)
      (readBackTorrent info).general.numFiles (readBackTorrent info).general.uniqueId) s = _ :=
        hfilesRun
    rw [readTorrentFiles, if_neg Bool.false_ne_true, run_bind_ret hfilesRun', if_pos hfilesNe]
    rfl
  rw [readTorrentItem, show (torrentEntry info).1 = info.general.uniqueId from rfl,
    run_bind_ret hitems]
  simp only [hgeneral]
  rw [run_bind_ret htorrentFiles,
    show (readBackTorrent info).general.numTrackers = info.trackers.length from hwf.numTrackers,
    run_bind_ret hread, if_pos (List.cons_ne_nil _ _), run_pure]
  -- of the trackers only the last one is in the record
  have htrackersEq : (readBackTorrent info).trackers =
      [readBackTracker info.general.uniqueId (info.trackers.getLast htrackers)] := by
    rw [readBackTorrent, hlast]
    rfl
  rw [← htrackersEq]

/-- Without trackers a torrent cannot be read. -/
theorem readTorrentItem_no_trackers (h : TorrentStored s info) (hwf : WellFormed info)
    (htrackers : info.trackers = []) (fuel : Nat) (r : TorrentInfo) :
    (run (readTorrentItem fuel false (torrentEntry info)) s).1 ≠ .ret r := by
  intro hret
  rcases h.run_items with ⟨values, hitems, hgeneral⟩
  rcases hrun : run (readTorrentItem fuel false (torrentEntry info)) s with ⟨o, t⟩
  rw [hrun] at hret
  obtain rfl : o = .ret r := hret
  rw [readTorrentItem, show (torrentEntry info).1 = info.general.uniqueId from rfl,
    run_bind_ret hitems] at hrun
  rcases run_bind_eq_ret hrun with ⟨files, s₁, -, hrest⟩
  -- zero trackers are none, and then the reader throws
  have hnone : run (readTorrentTrkrsAddendum
      (generalInfo (torrentEntry info) (valueAt values)).numTrackers info.general.uniqueId) s₁ =
        (.ret [], s₁) := by
    rw [hgeneral, show (readBackTorrent info).general.numTrackers = info.trackers.length from
      hwf.numTrackers, htrackers]
    rfl
  rw [run_bind_ret hnone, if_neg (fun hc => hc rfl)] at hrest
  cases hrest

/-- With an empty SHA-1 field a torrent cannot be read. -/
theorem readTorrentItem_empty_hash (h : TorrentStored s info) (hwf : WellFormed info)
    (hhex : HexOrEmpty info) (hhash : ∃ f ∈ info.filesVec, f.sha1HashHex = [])
    (hbare : ∀ b : Bool, s (boolText b) = none) (fuel : Nat) (r : TorrentInfo) :
    (run (readTorrentItem (fuel + 2) false (torrentEntry info)) s).1 ≠ .ret r := by
  intro hret
  rcases h.run_items with ⟨values, hitems, hgeneral⟩
  have hpos : 0 < info.filesVec.length := by
    rcases hhash with ⟨f, hf, -⟩
    exact List.length_pos_of_mem hf
  rcases run_readFilesFrom_empty_hash hwf.id (hwf.cleanFiles hhex) hhash hbare h.files fuel [] with
    ⟨what, hthrow⟩
  -- the exception of the file is not caught on the way
  have hfiles : run (readTorrentFiles (fuel + 2) false (readBackTorrent info).general) s =
      (.throw what, s) := by
    have hadd : run (readTorrentFilesAddendum (fuel + 2)
        (readBackTorrent info).general.numFiles (readBackTorrent info).general.uniqueId) s =
          (.throw what, s) := by
      rw [readTorrentFilesAddendum, show (readBackTorrent info).general.numFiles =
        info.filesVec.length from hwf.numFiles, if_pos (by omega), run_locked, Int.toNat_natCast]
      exact hthrow
    rw [readTorrentFiles, if_neg Bool.false_ne_true, run_bind_throw hadd]
  rw [readTorrentItem, show (torrentEntry info).1 = info.general.uniqueId from rfl,
    run_bind_ret hitems] at hret
  simp only [hgeneral] at hret
  rw [run_bind_throw hfiles] at hret
  cases hret

end Torrents

end FyreDL.Store
