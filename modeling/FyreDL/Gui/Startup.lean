import FyreDL.Gui.Agreement
import FyreDL.Store.GeneralRecord
import FyreDL.Store.Modification

/-!
# FyreDL.Gui.Startup — no download runs after the start

The constructor of `MainWindow` loads the history into an empty window, and
`resetDlStateStartup` then resets the rows that show `Downloading`. It finds the kind of a
row in the cache by the hidden id, but stores the new status under its destination.

1. **The loops** do what `resetCells` and `resetDb` say, row by row (`run_resetRows`). Each
   id is cached once, so that a row meets one entry of the cache.
2. **The history**: what is loaded `ShowsStore`, whichever order the maps have.
3. **The start**: `startUp_settles`. Which records have a row is told by the records alone
   (`hiddenIds_of_load`).
-/

namespace FyreDL.Gui

open Lib Lib.Kv Store

/-! ## The reset -/

/-- The table and `alreadyMentioned`. -/
structure Resetting where
  vectorList : VectorList
  alreadyMentioned : Bool
deriving DecidableEq, Repr

def resetProblem : Str :=
  "There has been an error at startup. FyreDL was unable to correctly reset the state of some columns, either due to a GUI or database error.".toList

/-- The status is shown, and the first failure of the two updates is told. -/
def showReset (findIndex : QModelIndex) (status : DownloadStatus) (retState : Bool)
    (st : Resetting) : DbProg Resetting := do
  let (retUpdateCol, vectorList) ←
    ofTable (updateCol st.vectorList findIndex (convDlStatToString status) mnStatusCol)
  if (retState = false ∨ retUpdateCol = false) ∧ st.alreadyMentioned = false then
    .warn resetProblem (.ret ⟨vectorList, true⟩)
  else pure ⟨vectorList, st.alreadyMentioned⟩

/-- The body of the loop over the cache, for an entry with the id of the row. -/
def resetItem (findIndex : QModelIndex) (fileDest : Str) (item : DownloadInfo)
    (st : Resetting) : DbProg Resetting :=
  if item.dlType = .http ∨ item.dlType = .ftp then do
    let retState ← modifyCurlItem fileDest .paused 0 [] .none [] .notApplicable
    showReset findIndex .paused retState st
  else do
    let retState ← modifyTorrentItem item.uniqueId .stopped
    showReset findIndex .stopped retState st

/-- The loop over the cache. An exception is shown and ends the function: what was changed
before it stays. -/
def resetItems (findIndex : QModelIndex) (fileDest uniqueId : Str) (st : Resetting) :
    List DownloadInfo → DbProg (Resetting × Bool)
  | [] => pure (st, false)
  | item :: rest =>
    if item.uniqueId = uniqueId then do
      let after ← Prog.tryCatch (do
        let st ← resetItem findIndex fileDest item st
        pure (some st))
        fun e => .warn e (.ret none)
      match after with
      | some st => resetItems findIndex fileDest uniqueId st rest
      | none => pure (st, true)
    else resetItems findIndex fileDest uniqueId st rest

/-- The loop over the rows, whose number does not change. -/
def resetRows (cache : List DownloadInfo) (st : Resetting) : List Nat → DbProg VectorList
  | [] => pure st.vectorList
  | i :: rest =>
    let findIndex := modelIndex st.vectorList i mnStatusCol
    if findIndex.isValid = true then do
      let statString ← textAt st.vectorList i mnStatusCol
      if statString = convDlStatToString .downloading then do
        let fileDest ← textAt st.vectorList i mnDestinationCol
        let uniqueId ← textAt st.vectorList i mnHiddenUniqueId
        let (st, returned) ← resetItems findIndex fileDest uniqueId st cache
        if returned then pure st.vectorList else resetRows cache st rest
      else resetRows cache st rest
    else resetRows cache st rest

/-- `resetDlStateStartup`. -/
def resetDlStateStartup (w : MainWindow) : DbProg MainWindow := do
  let vectorList ← resetRows w.gkDlInfoCache ⟨w.vectorList, false⟩
    (List.range w.vectorList.length)
  pure { w with vectorList := vectorList }

/-- The end of the constructor. No exception leaves `readFromHistoryFile`, so that its
handler has nothing to do. -/
def startUp (qt : QtTexts) (rd : Reading) : DbProg MainWindow := do
  let w ← readFromHistoryFile qt rd ⟨[], []⟩
  resetDlStateStartup w

/-! ## What the loops do -/

/-- The status that a download of a type is reset to. -/
def resetStatus (dlType : DownloadType) : DownloadStatus :=
  if dlType = .http ∨ dlType = .ftp then .paused else .stopped

/-- The row shows `Downloading`. -/
def IsDownloading (cells : List Str) : Prop :=
  cells.getD mnStatusCol [] = convDlStatToString .downloading

instance (cells : List Str) : Decidable (IsDownloading cells) :=
  inferInstanceAs (Decidable (_ = _))

/-- The entry of the cache for a row. -/
def cachedFor (cache : List DownloadInfo) (cells : List Str) : Option DownloadInfo :=
  cache.find? fun item => item.uniqueId = cells.getD mnHiddenUniqueId []

/-- A row that was downloading, with the status it is reset to. -/
def resetCells (cache : List DownloadInfo) (cells : List Str) : List Str :=
  if IsDownloading cells then
    match cachedFor cache cells with
    | some item => cells.set mnStatusCol (convDlStatToString (resetStatus item.dlType))
    | none => cells
  else cells

/-- What `modifyCurlItem` writes. -/
def pausedItems : List (Str × Str) := modifiedItems .paused 0 [] .none [] .notApplicable

/-- The row is an HTTP/FTP download that was downloading. -/
def PausesRow (cache : List DownloadInfo) (cells : List Str) : Prop :=
  IsDownloading cells ∧ ∃ item, cachedFor cache cells = some item ∧
    (item.dlType = .http ∨ item.dlType = .ftp)

instance (cache : List DownloadInfo) (cells : List Str) : Decidable (PausesRow cache cells) :=
  decidable_of_iff (IsDownloading cells ∧ ∃ item ∈ cachedFor cache cells,
      (item.dlType = .http ∨ item.dlType = .ftp)) Iff.rfl

/-- The store after a row: the item of its id is written. -/
def resetDb (cache : List DownloadInfo) (s : Db) (cells : List Str) : Db :=
  if PausesRow cache cells then putItems s (cells.getD mnHiddenUniqueId []) pausedItems else s

/-- The type under which the download of an entry is loaded. -/
def loadedType (e : Entry) : DownloadType := if e.2.2 = true then .torrent else .http

/-- A complete row with the id of the entry, which is cached. For an HTTP/FTP download it has
the path of the entry. -/
structure RowOf (cache : List DownloadInfo) (e : Entry) (cells : List Str) : Prop where
  complete : cells.length = mnColCount
  hiddenId : cells.getD mnHiddenUniqueId [] = e.1
  cached : e.1 ∈ cachedIds cache
  destination : e.2.2 = false → cells.getD mnDestinationCol [] = e.2.1

/-- The ids and the paths of an index are clean and distinct. -/
structure DistinctEntries (es : List Entry) : Prop where
  clean : ∀ e ∈ es, CleanEntry e
  ids : (es.map Prod.fst).Nodup
  paths : (es.map fun e => e.2.1).Nodup

/-- Each id is cached once, as the download of an entry. -/
structure CachesEntries (es : List Entry) (cache : List DownloadInfo) : Prop where
  distinct : (cachedIds cache).Nodup
  entries : ∀ info ∈ cache, ∃ e ∈ es, info.uniqueId = e.1 ∧ info.dlType = loadedType e

theorem loadedType_isCurl (e : Entry) :
    (loadedType e = .http ∨ loadedType e = .ftp) ↔ e.2.2 = false := by
  unfold loadedType
  cases e.2.2 with
  | true => decide
  | false => decide

section Loops

variable {cache : List DownloadInfo} {es : List Entry} {s : Db}

/-- The entry of an id. -/
theorem DistinctEntries.eq_of_id (h : DistinctEntries es) {d e : Entry} (hd : d ∈ es)
    (he : e ∈ es) (hid : d.1 = e.1) : d = e := List.inj_on_of_nodup_map h.ids hd he hid

/-- The path of an entry is resolved to its id, if the index is seen at all. -/
theorem DistinctEntries.run_determineDownloadId (h : DistinctEntries es) (hindex : Indexed s es)
    (hvisible : visible es = es) {e : Entry} (he : e ∈ es) :
    run (determineDownloadId e.2.1) s = (.ret (e.1, e.2.2), s) := by
  rw [Store.run_determineDownloadId (hindex.stored (List.ne_nil_of_mem he)) h.clean, hvisible]
  rcases determined_of_nodup h.ids e.2.1 with ⟨d, hd, hpath, hdetermined⟩ | ⟨hnone, -⟩
  · obtain rfl : d = e := List.inj_on_of_nodup_map h.paths hd he hpath
    rw [hdetermined]
  · exact absurd rfl (hnone e he)

/-- The entry of the cache for a row. -/
theorem RowOf.cachedFor_eq {e : Entry} {cells : List Str} (h : RowOf cache e cells) (he : e ∈ es)
    (hes : DistinctEntries es) (hcache : CachesEntries es cache) :
    ∃ item ∈ cache, cachedFor cache cells = some item ∧ item.uniqueId = e.1 ∧
      item.dlType = loadedType e := by
  rcases List.mem_map.mp h.cached with ⟨info, hinfo, hid⟩
  have hfind : (cachedFor cache cells).isSome := by
    rw [cachedFor, List.find?_isSome, h.hiddenId]
    exact ⟨info, hinfo, decide_eq_true hid⟩
  rcases Option.isSome_iff_exists.mp hfind with ⟨item, hitem⟩
  have hmem := List.mem_of_find?_eq_some hitem
  have hfound := List.find?_some hitem
  have hname : item.uniqueId = e.1 := by
    rw [← h.hiddenId]
    exact of_decide_eq_true hfound
  rcases hcache.entries item hmem with ⟨d, hd, hdid, htype⟩
  obtain rfl := hes.eq_of_id hd he (hdid.symm.trans hname)
  exact ⟨item, hmem, hitem, hname, htype⟩

/-- An entry of the cache resets its row, and an HTTP/FTP download in the store too. -/
theorem run_resetItem (hes : DistinctEntries es) (hindex : Indexed s es)
    (hvisible : visible es = es) {e : Entry} (he : e ∈ es) {item : DownloadInfo}
    (hid : item.uniqueId = e.1) (htype : item.dlType = loadedType e) {fileDest : Str}
    (hdest : e.2.2 = false → fileDest = e.2.1) {vectorList : VectorList} {row : Nat}
    {cells : List Str} (hrow : vectorList[row]? = some cells) (hcells : cells.length = mnColCount)
    (mentioned : Bool) :
    run (resetItem ⟨row, mnStatusCol⟩ fileDest item ⟨vectorList, mentioned⟩) s =
      (.ret ⟨vectorList.set row
          (cells.set mnStatusCol (convDlStatToString (resetStatus item.dlType))), mentioned⟩,
        if item.dlType = .http ∨ item.dlType = .ftp then putItems s e.1 pausedItems else s) := by
  have hcolumn : mnStatusCol < cells.length := by rw [hcells]; decide
  have hne : e.1 ≠ [] := (hes.clean e he).uid.ne_nil
  have hshow : ∀ (status : DownloadStatus) (t : Db),
      run (showReset ⟨row, mnStatusCol⟩ status true ⟨vectorList, mentioned⟩) t =
        (.ret ⟨vectorList.set row (cells.set mnStatusCol (convDlStatToString status)),
          mentioned⟩, t) := by
    intro status t
    rw [showReset, updateCol_eq hrow hcolumn]
    rfl
  unfold resetItem resetStatus
  by_cases hcurl : item.dlType = .http ∨ item.dlType = .ftp
  · have hflag : e.2.2 = false := (loadedType_isCurl e).mp (htype ▸ hcurl)
    have hdetermine := hes.run_determineDownloadId hindex hvisible he
    rw [if_pos hcurl, if_pos hcurl, if_pos hcurl, hdest hflag,
      run_bind_ret (run_modifyCurlItem hdetermine hne _ _ _ _ _ _), hshow]
    rfl
  · have hmodify : run (modifyTorrentItem item.uniqueId .stopped) s = (.ret true, s) := by
      rw [modifyTorrentItem, if_pos (hid ▸ hne)]
      rfl
    rw [if_neg hcurl, if_neg hcurl, if_neg hcurl, run_bind_ret hmodify, hshow]

/-- The other entries of the cache are skipped. -/
theorem run_resetItems_skip {uniqueId : Str} (h : uniqueId ∉ cachedIds cache)
    (findIndex : QModelIndex) (fileDest : Str) (st : Resetting) :
    run (resetItems findIndex fileDest uniqueId st cache) s = (.ret (st, false), s) := by
  induction cache with
  | nil => rfl
  | cons item cache ih =>
    rw [cachedIds, List.map_cons, List.mem_cons, not_or] at h
    rw [resetItems, if_neg (Ne.symm h.1)]
    exact ih h.2

/-- One entry of the cache has the id of the row. -/
theorem run_resetItems {s' : Db} {item : DownloadInfo} (hitem : item ∈ cache)
    (hdistinct : (cachedIds cache).Nodup) {findIndex : QModelIndex} {fileDest : Str}
    {st st' : Resetting} (hrun : run (resetItem findIndex fileDest item st) s = (.ret st', s')) :
    run (resetItems findIndex fileDest item.uniqueId st cache) s = (.ret (st', false), s') := by
  induction cache with
  | nil => exact absurd hitem List.not_mem_nil
  | cons first cache ih =>
    rw [cachedIds, List.map_cons, List.nodup_cons] at hdistinct
    rw [resetItems]
    rcases List.mem_cons.mp hitem with rfl | hin
    · have hcatch : run (Prog.tryCatch (do
          let st ← resetItem findIndex fileDest item st
          pure (some st))
          fun e => .warn e (.ret none)) s = (.ret (some st'), s') := by
        refine run_tryCatch_ret ?_ _
        rw [run_bind_ret hrun]
        rfl
      rw [if_pos rfl, run_bind_ret hcatch]
      exact run_resetItems_skip hdistinct.1 findIndex fileDest st'
    · -- the entry is further behind
      have hne : first.uniqueId ≠ item.uniqueId := by
        intro heq
        exact hdistinct.1 (heq ▸ List.mem_map_of_mem hin)
      rw [if_neg hne]
      exact ih hin hdistinct.2

theorem indexed_resetDb (h : Indexed s es) (cache : List DownloadInfo) (cells : List Str) :
    Indexed (resetDb cache s cells) es := by
  unfold resetDb
  split
  · exact h.putItems _ _
  · exact h

/-- **One row**: the loop goes on with the row and the store reset. -/
theorem run_resetRows_cons (hes : DistinctEntries es) (hcache : CachesEntries es cache)
    (hindex : Indexed s es) {vectorList : VectorList} {row : Nat} {cells : List Str}
    (hget : vectorList[row]? = some cells) {e : Entry} (hseen : e ∈ visible es)
    (hrow : RowOf cache e cells) (mentioned : Bool) (rest : List Nat) :
    run (resetRows cache ⟨vectorList, mentioned⟩ (row :: rest)) s =
      run (resetRows cache ⟨vectorList.set row (resetCells cache cells), mentioned⟩ rest)
        (resetDb cache s cells) := by
  have hlt : row < vectorList.length := (List.getElem?_eq_some_iff.mp hget).1
  have htext : ∀ column : Nat, column < mnColCount →
      run (textAt vectorList row column) s = (.ret (cells.getD column []), s) := by
    intro column hcolumn
    rw [textAt_eq hget hrow.complete hcolumn]
    rfl
  rw [resetRows]
  dsimp only
  rw [modelIndex_of_lt hlt (by decide), if_pos (isValid_nat _ _),
    run_bind_ret (htext _ (by decide))]
  by_cases hdown : cells.getD mnStatusCol [] = convDlStatToString .downloading
  · have he : e ∈ es := visible_subset hseen
    rcases hrow.cachedFor_eq he hes hcache with ⟨item, hitem, hfor, hid, htype⟩
    have hcells : cells.set mnStatusCol (convDlStatToString (resetStatus item.dlType)) =
        resetCells cache cells := by
      rw [resetCells, if_pos (show IsDownloading cells from hdown), hfor]
    have hpauses : (item.dlType = .http ∨ item.dlType = .ftp) ↔ PausesRow cache cells := by
      constructor
      · exact fun hcurl => ⟨hdown, item, hfor, hcurl⟩
      · rintro ⟨-, other, hother, hcurl⟩
        rw [hfor] at hother
        cases hother
        exact hcurl
    have hdb : (if item.dlType = .http ∨ item.dlType = .ftp then putItems s e.1 pausedItems
        else s) = resetDb cache s cells := by
      rw [resetDb, hrow.hiddenId]
      exact if_congr hpauses rfl rfl
    have hreset := run_resetItem hes hindex (visible_of_mem_visible hseen) he hid htype
      hrow.destination hget hrow.complete mentioned
    rw [hcells, hdb] at hreset
    have hitems := run_resetItems hitem hcache.distinct hreset
    rw [hid, ← hrow.hiddenId] at hitems
    rw [if_pos hdown, run_bind_ret (htext _ (by decide)), run_bind_ret (htext _ (by decide)),
      run_bind_ret hitems]
    rfl
  · -- nothing is done to the row
    have hcells : resetCells cache cells = cells := if_neg hdown
    have hdb : resetDb cache s cells = s := if_neg fun h => hdown h.1
    have hset : vectorList.set row cells = vectorList := by
      rw [← (List.getElem?_eq_some_iff.mp hget).2, List.set_getElem_self]
    rw [if_neg hdown, hcells, hdb, hset]

/-- **The loop over the rows.** The rows in front are done; what carries the induction is
that the index stays as it is. -/
theorem run_resetRows (hes : DistinctEntries es) (hcache : CachesEntries es cache)
    {todo : VectorList} (hrows : ∀ cells ∈ todo, ∃ e ∈ visible es, RowOf cache e cells)
    (hindex : Indexed s es) (done : VectorList) (mentioned : Bool) :
    run (resetRows cache ⟨done ++ todo, mentioned⟩ (List.range' done.length todo.length)) s =
      (.ret (done ++ todo.map (resetCells cache)), todo.foldl (resetDb cache) s) := by
  induction todo generalizing done s with
  | nil => rfl
  | cons cells todo ih =>
    have hrest : ∀ other ∈ todo, ∃ e ∈ visible es, RowOf cache e other :=
      fun other hother => hrows other (List.mem_cons_of_mem _ hother)
    rcases hrows cells List.mem_cons_self with ⟨e, hseen, hrow⟩
    have hget : (done ++ cells :: todo)[done.length]? = some cells := by simp
    have hset : (done ++ cells :: todo).set done.length (resetCells cache cells) =
        (done ++ [resetCells cache cells]) ++ todo := by
      rw [List.set_append_right _ _ (Nat.le_refl _), Nat.sub_self, List.set_cons_zero]
      exact List.append_cons _ _ _
    have hlength : done.length + 1 = (done ++ [resetCells cache cells]).length := by
      rw [List.length_append, List.length_singleton]
    have hnext := ih hrest (indexed_resetDb hindex cache cells) (done ++ [resetCells cache cells])
    rw [List.length_cons, List.range'_succ,
      run_resetRows_cons hes hcache hindex hget hseen hrow, hset, hlength, hnext,
      List.append_assoc, List.map_cons, List.foldl_cons]
    rfl

/-- `resetDlStateStartup` on a window whose rows are entries of the index. -/
theorem run_resetDlStateStartup (hes : DistinctEntries es) {w : MainWindow}
    (hcache : CachesEntries es w.gkDlInfoCache)
    (hrows : ∀ cells ∈ w.vectorList, ∃ e ∈ visible es, RowOf w.gkDlInfoCache e cells)
    (hindex : Indexed s es) :
    run (resetDlStateStartup w) s =
      (.ret { w with vectorList := w.vectorList.map (resetCells w.gkDlInfoCache) },
        w.vectorList.foldl (resetDb w.gkDlInfoCache) s) := by
  have hloop := run_resetRows hes hcache hrows hindex [] false
  rw [List.nil_append, List.length_nil, ← List.range_eq_range', List.nil_append] at hloop
  rw [resetDlStateStartup, run_bind_ret hloop]
  rfl

end Loops

/-! ## What the reset leaves -/

section Leaves

variable {cache : List DownloadInfo} {es : List Entry} {s : Db}

theorem convDlStatToString_downloading {status : DownloadStatus}
    (h : convDlStatToString status = convDlStatToString .downloading) : status = .downloading := by
  revert h
  cases status <;> decide

theorem resetCells_length (cache : List DownloadInfo) (cells : List Str) :
    (resetCells cache cells).length = cells.length := by
  unfold resetCells
  split
  · split
    · exact List.length_set
    · rfl
  · rfl

/-- The id of a row stays. -/
theorem resetCells_hiddenId (cache : List DownloadInfo) (cells : List Str) :
    (resetCells cache cells).getD mnHiddenUniqueId [] = cells.getD mnHiddenUniqueId [] := by
  unfold resetCells
  split
  · split
    · rw [List.getD_eq_getElem?_getD, List.getElem?_set_ne (by decide),
        ← List.getD_eq_getElem?_getD]
    · rfl
  · rfl

theorem hiddenIds_resetCells (cache : List DownloadInfo) (vectorList : VectorList) :
    hiddenIds (vectorList.map (resetCells cache)) = hiddenIds vectorList := by
  rw [hiddenIds, hiddenIds, List.map_map]
  exact List.map_congr_left fun cells _ => resetCells_hiddenId cache cells

/-- A row of the index does not show `Downloading` afterwards. -/
theorem not_isDownloading_resetCells (hes : DistinctEntries es) (hcache : CachesEntries es cache)
    {e : Entry} (he : e ∈ es) {cells : List Str} (hrow : RowOf cache e cells) :
    ¬ IsDownloading (resetCells cache cells) := by
  by_cases hdown : IsDownloading cells
  · rcases hrow.cachedFor_eq he hes hcache with ⟨item, -, hfor, -, -⟩
    have hcolumn : mnStatusCol < cells.length := by
      rw [hrow.complete]
      decide
    have hcells : (resetCells cache cells).getD mnStatusCol [] =
        convDlStatToString (resetStatus item.dlType) := by
      rw [resetCells, if_pos hdown, hfor]
      dsimp only
      rw [List.getD_eq_getElem?_getD, List.getElem?_set_self hcolumn, Option.getD_some]
    rw [IsDownloading, hcells]
    unfold resetStatus
    split
    · decide
    · decide
  · rw [resetCells, if_neg hdown]
    exact hdown

/-- The status of a record after one row. -/
theorem resetDb_dlStatus (s : Db) (cells : List Str) (e : Entry) :
    (storedRecord (resetDb cache s cells) e).dlStatus =
      if PausesRow cache cells ∧ e.1 = cells.getD mnHiddenUniqueId [] then .paused
      else (storedRecord s e).dlStatus := by
  unfold resetDb
  by_cases hpauses : PausesRow cache cells
  · rw [if_pos hpauses, pausedItems, storedRecord_after]
    by_cases hid : e.1 = cells.getD mnHiddenUniqueId []
    · rw [if_pos (And.intro hpauses hid), modifiedRecord,
        if_pos (show (storedRecord s e).uniqueId = _ from hid)]
    · rw [if_neg fun h => hid h.2, modifiedRecord,
        if_neg (show (storedRecord s e).uniqueId ≠ _ from hid)]
  · rw [if_neg hpauses, if_neg fun h => hpauses h.1]

/-- After all rows: the records of the rows that were downloading are paused. -/
theorem foldl_resetDb_dlStatus (cache : List DownloadInfo) (vectorList : VectorList) (s : Db)
    (e : Entry) :
    (storedRecord (vectorList.foldl (resetDb cache) s) e).dlStatus =
      if ∃ cells ∈ vectorList, PausesRow cache cells ∧ e.1 = cells.getD mnHiddenUniqueId []
      then .paused else (storedRecord s e).dlStatus := by
  induction vectorList generalizing s with
  | nil =>
    rw [if_neg]
    · rfl
    · rintro ⟨cells, hin, -⟩
      exact absurd hin List.not_mem_nil
  | cons cells rest ih =>
    rw [List.foldl_cons, ih, resetDb_dlStatus]
    by_cases hrest : ∃ other ∈ rest, PausesRow cache other ∧ e.1 = other.getD mnHiddenUniqueId []
    · rw [if_pos hrest, if_pos]
      rcases hrest with ⟨other, hin, hother⟩
      exact ⟨other, List.mem_cons_of_mem _ hin, hother⟩
    · rw [if_neg hrest]
      refine if_congr ⟨fun h => ⟨cells, List.mem_cons_self, h⟩, ?_⟩ rfl rfl
      rintro ⟨other, hin, hother⟩
      rcases List.mem_cons.mp hin with rfl | hin
      · exact hother
      · exact absurd ⟨other, hin, hother⟩ hrest

end Leaves

/-! ## The history -/

/-- The window shows what the store has: its rows and its cache are of entries that the
readers see, and an HTTP/FTP row has the status of its record. -/
structure ShowsStore (s : Db) (es : List Entry) (w : MainWindow) : Prop where
  cache : CachesEntries es w.gkDlInfoCache
  rows : ∀ cells ∈ w.vectorList, ∃ e ∈ visible es, RowOf w.gkDlInfoCache e cells ∧
    (e.2.2 = false →
      cells.getD mnStatusCol [] = convDlStatToString (storedRecord s e).dlStatus)

/-- The record of an entry passes the tests for a row: it has a path and a positive length. -/
def HasRow (s : Db) (torrent : Entry → TorrentInfo) (e : Entry) : Prop :=
  if e.2.2 = true then (torrent e).general.downDest ≠ [] ∧ torrentLength (torrent e) > 0
  else (storedRecord s e).fileLoc ≠ [] ∧ (storedRecord s e).extInfo.contentLength > 0

instance (s : Db) (torrent : Entry → TorrentInfo) (e : Entry) : Decidable (HasRow s torrent e) :=
  inferInstanceAs (Decidable (ite _ _ _))

/-- All records are complete. Those of the torrents are read as `torrent`. -/
structure AllRead (s : Db) (es : List Entry) (torrent : Entry → TorrentInfo) : Prop where
  curls : ∀ e ∈ es, e.2.2 = false → CurlReadable s e
  torrents : ∀ e ∈ es, e.2.2 = true → run (readTorrentItem 0 true e) s = (.ret (torrent e), s)

/-- What the start leaves: each row shows a status other than `Downloading`, and of the
HTTP/FTP records those that were downloading and have a row are paused. If all records are
complete, the rows are those of the records that pass the tests, each once. -/
structure NothingRuns (s : Db) (es : List Entry) (w : MainWindow) (s' : Db) : Prop where
  rows : ∀ row : Nat, row < w.vectorList.length → ∃ text,
    data w.vectorList (modelIndex w.vectorList row mnStatusCol) .displayRole = .ok (some text) ∧
      text ≠ convDlStatToString .downloading
  records : ∀ e ∈ es, e.2.2 = false → (storedRecord s' e).dlStatus =
    if (storedRecord s e).dlStatus = .downloading ∧ e.1 ∈ hiddenIds w.vectorList then .paused
    else (storedRecord s e).dlStatus
  shown : ∀ torrent, AllRead s (visible es) torrent → (hiddenIds w.vectorList).Perm
    (((visible es).filter fun e => HasRow s torrent e).map Prod.fst)

section History

variable {es : List Entry} {s : Db} {w : MainWindow}

/-- An HTTP/FTP record is paused by a row exactly if it was downloading and has a row. -/
theorem ShowsStore.pauses_iff (h : ShowsStore s es w) (hes : DistinctEntries es) {e : Entry}
    (he : e ∈ es) (hcurl : e.2.2 = false) :
    (∃ cells ∈ w.vectorList, PausesRow w.gkDlInfoCache cells ∧
        e.1 = cells.getD mnHiddenUniqueId []) ↔
      (storedRecord s e).dlStatus = .downloading ∧ e.1 ∈ hiddenIds w.vectorList := by
  -- the row of the id is the one of the entry
  have hsame : ∀ cells ∈ w.vectorList, e.1 = cells.getD mnHiddenUniqueId [] →
      RowOf w.gkDlInfoCache e cells ∧
        cells.getD mnStatusCol [] = convDlStatToString (storedRecord s e).dlStatus := by
    intro cells hcells hid
    rcases h.rows cells hcells with ⟨d, hd, hrow, hstatus⟩
    obtain rfl := hes.eq_of_id (visible_subset hd) he (hrow.hiddenId.symm.trans hid.symm)
    exact ⟨hrow, hstatus hcurl⟩
  constructor
  · rintro ⟨cells, hcells, ⟨hdown, -⟩, hid⟩
    have hstatus := (hsame cells hcells hid).2
    constructor
    · exact convDlStatToString_downloading (hstatus.symm.trans hdown)
    · exact List.mem_map.mpr ⟨cells, hcells, hid.symm⟩
  · rintro ⟨hdown, hin⟩
    rcases List.mem_map.mp hin with ⟨cells, hcells, hid⟩
    rcases hsame cells hcells hid.symm with ⟨hrow, hstatus⟩
    rcases hrow.cachedFor_eq he hes h.cache with ⟨item, -, hfor, -, htype⟩
    refine ⟨cells, hcells, ⟨?_, item, hfor, ?_⟩, hid.symm⟩
    · rw [IsDownloading, hstatus, hdown]
    · rw [htype]
      exact (loadedType_isCurl e).mpr hcurl

/-- **The reset of a window that shows the store.** -/
theorem ShowsStore.reset (h : ShowsStore s es w) (hes : DistinctEntries es)
    (hindex : Indexed s es)
    (hshown : ∀ torrent, AllRead s (visible es) torrent → (hiddenIds w.vectorList).Perm
      (((visible es).filter fun e => HasRow s torrent e).map Prod.fst)) :
    ∃ w' s', run (resetDlStateStartup w) s = (.ret w', s') ∧ NothingRuns s es w' s' := by
  have hrows : ∀ cells ∈ w.vectorList, ∃ e ∈ visible es, RowOf w.gkDlInfoCache e cells := by
    intro cells hcells
    rcases h.rows cells hcells with ⟨e, he, hrow, -⟩
    exact ⟨e, he, hrow⟩
  refine ⟨_, _, run_resetDlStateStartup hes h.cache hrows hindex, ?_, ?_, ?_⟩
  · intro row hlt
    have hlt' : row < w.vectorList.length := by rwa [List.length_map] at hlt
    rcases hrows _ (List.getElem_mem hlt') with ⟨e, he, hrow⟩
    set cells := resetCells w.gkDlInfoCache w.vectorList[row] with hcells
    have hget : (w.vectorList.map (resetCells w.gkDlInfoCache))[row]? = some cells := by
      rw [List.getElem?_map, List.getElem?_eq_getElem hlt', Option.map_some]
    have hcolumn : mnStatusCol < cells.length := by
      rw [hcells, resetCells_length, hrow.complete]
      decide
    refine ⟨cells[mnStatusCol], ?_, ?_⟩
    · rw [modelIndex_of_lt hlt (by decide)]
      exact data_cell hget (by decide) (List.getElem?_eq_getElem hcolumn)
    · have hnot := not_isDownloading_resetCells hes h.cache (visible_subset he) hrow
      rwa [IsDownloading, ← hcells, List.getD_eq_getElem?_getD,
        List.getElem?_eq_getElem hcolumn, Option.getD_some] at hnot
  · intro e he hcurl
    rw [foldl_resetDb_dlStatus, hiddenIds_resetCells]
    exact if_congr (h.pauses_iff hes he hcurl) rfl rfl
  · intro torrent hread
    rw [hiddenIds_resetCells]
    exact hshown torrent hread

end History

/-! ## Loading -/

section Loading

variable {es : List Entry} {s : Db} {w : MainWindow}

theorem showsStore_empty (s : Db) (es : List Entry) : ShowsStore s es ⟨[], []⟩ where
  cache := ⟨List.nodup_nil, fun _ h => absurd h List.not_mem_nil⟩
  rows := fun _ h => absurd h List.not_mem_nil

theorem RowOf.mono {cache cache' : List DownloadInfo} {e : Entry} {cells : List Str}
    (h : RowOf cache e cells) (hsub : ∀ id ∈ cachedIds cache, id ∈ cachedIds cache') :
    RowOf cache' e cells := ⟨h.complete, h.hiddenId, hsub _ h.cached, h.destination⟩

/-- The row of an entry. -/
structure EntryRow (s : Db) (e : Entry) (row : NewRow) : Prop where
  uniqueId : row.uniqueId = e.1
  downloadType : row.downloadType = loadedType e
  destination : e.2.2 = false → row.destination = e.2.1
  status : e.2.2 = false → row.status = (storedRecord s e).dlStatus

theorem entryRow_curl {e : Entry} (hcurl : e.2.2 = false) :
    EntryRow s e (curlRow (storedRecord s e)) where
  uniqueId := rfl
  downloadType := by rw [loadedType, hcurl]; rfl
  destination := fun _ => rfl
  status := fun _ => rfl

theorem entryRow_torrent {e : Entry} (htorrent : e.2.2 = true) {info : TorrentInfo}
    (hid : info.general.uniqueId = e.1) : EntryRow s e (torrentRow info) where
  uniqueId := hid
  downloadType := by rw [loadedType, htorrent]; rfl
  destination := fun h => by rw [htorrent] at h; cases h
  status := fun h => by rw [htorrent] at h; cases h

/-- The cache after the row of an entry has its download. -/
theorem CachesEntries.caches {cache cache' : List DownloadInfo} (h : CachesEntries es cache)
    {e : Entry} (he : e ∈ es) {row : NewRow} (hrow : EntryRow s e row)
    (hcaches : Caches row cache cache') : CachesEntries es cache' := by
  constructor
  · rw [hcaches.cachedIds]
    exact registerId_nodup h.distinct _
  · intro info hinfo
    unfold Caches at hcaches
    split at hcaches
    · rcases hcaches with ⟨new, hid, htype, rfl⟩
      rcases List.mem_append.mp hinfo with hin | hin
      · exact h.entries info hin
      · obtain rfl := List.mem_singleton.mp hin
        exact ⟨e, he, hid.trans hrow.uniqueId, htype.trans hrow.downloadType⟩
    · exact h.entries info (hcaches ▸ hinfo)

/-- Inserting the row of an entry. Its id is cached now, if it was not. -/
theorem ShowsStore.ends_insertNewRow (h : ShowsStore s es w) (hes : DistinctEntries es)
    {e : Entry} (he : e ∈ visible es) {row : NewRow} (hrow : EntryRow s e row) (qt : QtTexts)
    (rd : Reading) : Ends (ShowsStore s es) (fun _ => False) (insertNewRow qt rd w row) := by
  refine (Gui.ends_insertNewRow qt rd w row).mono ?_
  intro w' hw'
  rcases hw' with ⟨hrows, hcaches⟩
  have hids : ∀ id, id ∈ cachedIds w'.gkDlInfoCache ↔
      id ∈ cachedIds w.gkDlInfoCache ∨ id = e.1 := by
    intro id
    rw [hcaches.cachedIds, hrow.uniqueId]
    exact mem_registerId (hes.clean e (visible_subset he)).uid.ne_nil
  refine ⟨h.cache.caches (visible_subset he) hrow hcaches, ?_⟩
  intro cells hcells
  rw [hrows] at hcells
  rcases List.mem_cons.mp hcells with rfl | hin
  · have hcached : e.1 ∈ cachedIds w'.gkDlInfoCache := (hids e.1).mpr (.inr rfl)
    refine ⟨e, he, ⟨rfl, hrow.uniqueId, hcached, hrow.destination⟩, ?_⟩
    intro hcurl
    exact congrArg convDlStatToString (hrow.status hcurl)
  · -- the rows from before
    rcases h.rows cells hin with ⟨d, hd, hof, hstatus⟩
    exact ⟨d, hd, hof.mono fun id hid => (hids id).mpr (.inl hid), hstatus⟩

/-- The records that are read. -/
def CurlHistory (s : Db) (es : List Entry) (infos : List CurlDlInfo) : Prop :=
  ∀ info ∈ infos, ∃ e ∈ visible es, e.2.2 = false ∧ info = storedRecord s e

/-- The torrents that are read. -/
def TorrentHistory (es : List Entry) (infos : List TorrentInfo) : Prop :=
  ∀ info ∈ infos, ∃ e ∈ visible es, e.2.2 = true ∧ info.general.uniqueId = e.1

/-- The path of a record that is read is not empty. -/
theorem CurlHistory.fileLoc_ne_nil {infos : List CurlDlInfo} (h : CurlHistory s es infos)
    (hes : DistinctEntries es) {info : CurlDlInfo} (hinfo : info ∈ infos) : info.fileLoc ≠ [] := by
  rcases h info hinfo with ⟨e, he, -, rfl⟩
  exact (hes.clean e (visible_subset he)).path.ne_nil

theorem ShowsStore.ends_loadCurlItems {infos : List CurlDlInfo} (h : ShowsStore s es w)
    (hes : DistinctEntries es) (hinfos : CurlHistory s es infos) (qt : QtTexts) (rd : Reading) :
    Ends (ShowsStore s es) (fun _ => False) (loadCurlItems qt rd w infos) := by
  induction infos generalizing w with
  | nil => exact .ret h
  | cons info infos ih =>
    have hrest : CurlHistory s es infos := fun d hd => hinfos d (List.mem_cons_of_mem _ hd)
    rw [loadCurlItems, if_pos (hinfos.fileLoc_ne_nil hes List.mem_cons_self)]
    rcases hinfos info List.mem_cons_self with ⟨e, he, hcurl, rfl⟩
    split
    · exact (h.ends_insertNewRow hes he (entryRow_curl hcurl) qt rd).bind fun w' h' => ih h' hrest
    · exact .warn (ih h hrest)

theorem ShowsStore.ends_loadTorrentItems {infos : List TorrentInfo} (h : ShowsStore s es w)
    (hes : DistinctEntries es) (hinfos : TorrentHistory es infos) (qt : QtTexts) (rd : Reading) :
    Ends (ShowsStore s es) (fun _ => False) (loadTorrentItems qt rd w infos) := by
  induction infos generalizing w with
  | nil => exact .ret h
  | cons info infos ih =>
    have hrest : TorrentHistory es infos := fun d hd => hinfos d (List.mem_cons_of_mem _ hd)
    rcases hinfos info List.mem_cons_self with ⟨e, he, htorrent, hid⟩
    rw [loadTorrentItems]
    split
    · split
      · refine (h.ends_insertNewRow hes he (entryRow_torrent htorrent hid) qt rd).bind ?_
        exact fun w' h' => ih h' hrest
      · exact .warn (ih h hrest)
    · exact .warn (ih h hrest)

theorem noWrites_initCharts (rd : Reading) (uniqueId downDest : Str) (downloadType : DownloadType)
    (cache : List DownloadInfo) :
    NoWrites (initCharts rd uniqueId downDest downloadType cache) := by
  unfold initCharts
  split
  · split
    · exact .throw _
    · split
      · exact (noWrites_readCurlItems _).bind fun _ => .ret _
      · exact (noWrites_readTorrentItems _ _ _).bind fun _ => .ret _
  · exact .throw _

theorem noWrites_insertNewRow (qt : QtTexts) (rd : Reading) (w : MainWindow) (row : NewRow) :
    NoWrites (insertNewRow qt rd w row) := by
  rw [insertNewRow, insertNewCells_eq]
  refine NoWrites.tryCatch ?_ fun e => .warn (.ret _)
  exact (noWrites_initCharts _ _ _ _ _).bind fun _ => .ret _

/-- Without an empty path nothing is deleted. -/
theorem noWrites_loadCurlItems {infos : List CurlDlInfo}
    (h : ∀ info ∈ infos, info.fileLoc ≠ []) (qt : QtTexts) (rd : Reading) (w : MainWindow) :
    NoWrites (loadCurlItems qt rd w infos) := by
  induction infos generalizing w with
  | nil => exact .ret _
  | cons info infos ih =>
    have ih := ih fun d hd => h d (List.mem_cons_of_mem _ hd)
    rw [loadCurlItems, if_pos (h info List.mem_cons_self)]
    split
    · exact (noWrites_insertNewRow _ _ _ _).bind fun w' => ih w'
    · exact .warn (ih w)

theorem noWrites_loadTorrentItems (qt : QtTexts) (rd : Reading) (infos : List TorrentInfo)
    (w : MainWindow) : NoWrites (loadTorrentItems qt rd w infos) := by
  induction infos generalizing w with
  | nil => exact .ret _
  | cons info infos ih =>
    rw [loadTorrentItems]
    split
    · split
      · exact (noWrites_insertNewRow _ _ _ _).bind fun w' => ih w'
      · exact .warn (ih w)
    · exact .warn (ih w)

end Loading

/-! ## The start -/

section Start

variable {es : List Entry} {s : Db}

/-- What the map of one kind of download has. -/
theorem DistinctEntries.run_extractDownloadIds (hes : DistinctEntries es) (hindex : Indexed s es)
    (torrentsOnly : Bool) :
    run (extractDownloadIds torrentsOnly) s =
      (.ret ((visible es).filter fun e => e.2.2 = torrentsOnly), s) := by
  rw [Store.run_extractDownloadIds hindex hes.clean,
    extracted_of_nodup torrentsOnly (visible_nodup hes.ids)]

theorem curlHistory_of_read (hes : DistinctEntries es) (hindex : Indexed s es)
    {ord : IterOrder Entry} {infos : List CurlDlInfo} {s' : Db}
    (hread : run (readCurlItems ord) s = (.ret infos, s')) : CurlHistory s es infos := by
  intro info hinfo
  rcases readCurlItems_mem hread hinfo with ⟨cache, e, hextract, -, he, hcurl, rfl⟩
  rw [hes.run_extractDownloadIds hindex] at hextract
  cases hextract
  exact ⟨e, (List.mem_filter.mp he).1, hcurl.1, rfl⟩

theorem torrentHistory_of_read (hes : DistinctEntries es) (hindex : Indexed s es) {fuel : Nat}
    {ord : IterOrder Entry} {minimalReadout : Bool} {infos : List TorrentInfo} {s' : Db}
    (hread : run (readTorrentItems fuel ord minimalReadout) s = (.ret infos, s')) :
    TorrentHistory es infos := by
  intro info hinfo
  rcases readTorrentItems_mem hread hinfo with ⟨cache, e, hextract, he, htorrent, hid⟩
  rw [hes.run_extractDownloadIds hindex] at hextract
  cases hextract
  exact ⟨e, (List.mem_filter.mp he).1, htorrent.1, hid⟩

/-- The history is loaded: nothing is written, and the window shows the store. -/
theorem showsStore_of_load (hes : DistinctEntries es) (hindex : Indexed s es) {qt : QtTexts}
    {rd : Reading} {w : MainWindow} {s' : Db}
    (hrun : run (readFromHistoryFile qt rd ⟨[], []⟩) s = (.ret w, s')) :
    s' = s ∧ ShowsStore s es w := by
  rcases run_bind_eq_ret hrun with ⟨⟨dlHistory, gkTorrentHistory⟩, s₁, hread, hload⟩
  rcases run_bind_eq_ret hread with ⟨_, s₂, hcurl, hrest⟩
  obtain rfl : s₂ = s := (noWrites_readCurlItems rd.ord).store_eq hcurl
  rcases run_bind_eq_ret hrest with ⟨_, s₃, htorrents, hpair⟩
  obtain rfl : s₃ = s₂ := (noWrites_readTorrentItems _ _ _).store_eq htorrents
  cases hpair
  have hrecords := curlHistory_of_read hes hindex hcurl
  have hlisted := torrentHistory_of_read hes hindex htorrents
  -- there is no row to take off
  have hempty : removeRows [] 0 dlHistory.length = [] :=
    List.sublist_nil.mp (removeRows_sublist [] 0 dlHistory.length)
  rcases run_bind_eq_ret hload with ⟨w₁, s₄, hcurls, htorrent⟩
  dsimp only at hcurls
  rw [hempty] at hcurls
  obtain rfl : s₄ = s₁ :=
    (noWrites_loadCurlItems (fun _ hin => hrecords.fileLoc_ne_nil hes hin) _ _ _).store_eq hcurls
  have hshows := ((showsStore_empty s₄ es).ends_loadCurlItems hes hrecords qt rd).run_ret hcurls
  exact ⟨(noWrites_loadTorrentItems _ _ _ _).store_eq htorrent,
    (hshows.ends_loadTorrentItems hes hlisted qt rd).run_ret htorrent⟩

/-- More rounds list the same torrents. -/
theorem run_readTorrentItems_more {ord : IterOrder Entry} {least fuel : Nat}
    {minimalReadout : Bool} {infos : List TorrentInfo} (hle : least ≤ fuel)
    (hleast : (run (readTorrentItems least ord minimalReadout) s).1 = .ret infos) :
    run (readTorrentItems fuel ord minimalReadout) s = (.ret infos, s) := by
  rw [(approx_readTorrentItems hle ord minimalReadout).run s
    (by rw [hleast]; exact fun hc => by cases hc)]
  exact (noWrites_readTorrentItems _ _ _).run_eq hleast

/-- The HTTP/FTP downloads, each with the record that is stored. -/
theorem AllRead.run_readCurlItems {torrent : Entry → TorrentInfo}
    (h : AllRead s (visible es) torrent) (hes : DistinctEntries es) (hindex : Indexed s es)
    (ord : IterOrder Entry) : run (readCurlItems ord) s =
      (.ret (((ord.order ((visible es).filter fun e => e.2.2 = false)).filter
        fun e => IsCurl e).map (storedRecord s)), s) := by
  apply Store.run_readCurlItems ord (hes.run_extractDownloadIds hindex false)
  intro e he hcurl
  exact h.curls e (List.mem_filter.mp he).1 hcurl.1

/-- The torrents. -/
theorem AllRead.run_readTorrentItems {torrent : Entry → TorrentInfo}
    (h : AllRead s (visible es) torrent) (hes : DistinctEntries es) (hindex : Indexed s es)
    (fuel : Nat) (ord : IterOrder Entry) : run (readTorrentItems fuel ord true) s =
      (.ret ((ord.order ((visible es).filter fun e => e.2.2 = true)).map torrent), s) := by
  have hminimal := @run_readTorrentItems_minimal s _ torrent ord
    (hes.run_extractDownloadIds hindex true) ?_ ?_
  · exact run_readTorrentItems_more (Nat.zero_le fuel) (by rw [hminimal])
  · intro e he
    rcases List.mem_filter.mp he with ⟨hin, hflag⟩
    exact ⟨of_decide_eq_true hflag, (hes.clean e (visible_subset hin)).path.ne_nil⟩
  · intro e he
    rcases List.mem_filter.mp he with ⟨hin, hflag⟩
    exact h.torrents e hin (of_decide_eq_true hflag)

/-- The ids of the HTTP/FTP downloads with a row, in whatever order they are read. -/
theorem loadedCurlIds_perm (hes : DistinctEntries es) (s : Db) (torrent : Entry → TorrentInfo)
    (ord : IterOrder Entry) :
    (loadedCurlIds (((ord.order ((visible es).filter fun e => e.2.2 = false)).filter
        fun e => IsCurl e).map (storedRecord s))).Perm
      ((((visible es).filter fun e => HasRow s torrent e).filter fun e => e.2.2 = false).map
        Prod.fst) := by
  rw [loadedCurlIds, List.filter_map, List.map_map]
  refine ((((ord.perm _).filter _).filter _).map _).trans (List.Perm.of_eq ?_)
  rw [List.filter_filter, List.filter_filter, List.filter_filter]
  apply congrArg (List.map _)
  apply List.filter_congr
  intro e he
  have hpath : e.2.1 ≠ [] := (hes.clean e (visible_subset he)).path.ne_nil
  by_cases hflag : e.2.2 = false
  · simp [HasRow, IsCurl, hflag, hpath]
  · simp [hflag]

/-- Those of the torrents. -/
theorem AllRead.loadedTorrentIds_perm {torrent : Entry → TorrentInfo}
    (h : AllRead s (visible es) torrent) (ord : IterOrder Entry) :
    (loadedTorrentIds ((ord.order ((visible es).filter fun e => e.2.2 = true)).map torrent)).Perm
      ((((visible es).filter fun e => HasRow s torrent e).filter fun e => e.2.2 = true).map
        Prod.fst) := by
  rw [loadedTorrentIds, List.filter_map, List.map_map]
  refine (((ord.perm _).filter _).map _).trans (List.Perm.of_eq ?_)
  have hsame : ∀ e ∈ ((visible es).filter fun e => HasRow s torrent e).filter
      fun e => e.2.2 = true, (torrent e).general.uniqueId = e.1 := by
    intro e he
    rcases List.mem_filter.mp he with ⟨hin, hflag⟩
    exact readTorrentItem_id (h.torrents e (List.mem_filter.mp hin).1 (of_decide_eq_true hflag))
  rw [← List.map_congr_left hsame, List.filter_filter, List.filter_filter]
  apply congrArg (List.map _)
  apply List.filter_congr
  intro e _
  by_cases hflag : e.2.2 = true
  · simp [HasRow, hflag]
  · simp [hflag]

/-- **Which records have a row** after the history is loaded. -/
theorem hiddenIds_of_load (hes : DistinctEntries es) (hindex : Indexed s es) {qt : QtTexts}
    {rd : Reading} {w : MainWindow} {s' : Db}
    (hrun : run (readFromHistoryFile qt rd ⟨[], []⟩) s = (.ret w, s'))
    {torrent : Entry → TorrentInfo} (hread : AllRead s (visible es) torrent) :
    (hiddenIds w.vectorList).Perm
      (((visible es).filter fun e => HasRow s torrent e).map Prod.fst) := by
  set listed := (visible es).filter fun e => HasRow s torrent e
  obtain ⟨dlHistory, hcurl, hcurlIds⟩ : ∃ infos, run (readCurlItems rd.ord) s = (.ret infos, s) ∧
      (loadedCurlIds infos).Perm ((listed.filter fun e => e.2.2 = false).map Prod.fst) :=
    ⟨_, hread.run_readCurlItems hes hindex rd.ord, loadedCurlIds_perm hes s torrent rd.ord⟩
  obtain ⟨gkTorrentHistory, htorrent, htorrentIds⟩ : ∃ infos,
      run (readTorrentItems rd.fuel rd.ord true) s = (.ret infos, s) ∧
      (loadedTorrentIds infos).Perm ((listed.filter fun e => e.2.2 = true).map Prod.fst) :=
    ⟨_, hread.run_readTorrentItems hes hindex rd.fuel rd.ord, hread.loadedTorrentIds_perm rd.ord⟩
  have hhistory : run (readHistory rd) s = (.ret (dlHistory, gkTorrentHistory), s) := by
    rw [readHistory, run_bind_ret hcurl, run_bind_ret htorrent]
    rfl
  rw [readFromHistoryFile, run_bind_ret hhistory] at hrun
  dsimp only at hrun
  rw [List.sublist_nil.mp (removeRows_sublist [] 0 _)] at hrun
  have hinserted := (ends_readHistory_rest qt rd _ _ tidy_empty).run_ret hrun
  rw [hinserted.hidden, hiddenIds, List.map_nil, List.append_nil]
  refine (List.reverse_perm _).trans ((hcurlIds.append htorrentIds).trans ?_)
  -- an entry is of one of the two kinds
  rw [← List.map_append]
  refine List.Perm.map _ ?_
  have hkinds := List.filter_append_perm (fun e : Entry => decide (e.2.2 = false)) listed
  have htorrents : (fun e : Entry => decide (e.2.2 = true)) = fun e => !decide (e.2.2 = false) := by
    funext e
    cases e.2.2 <;> rfl
  rw [htorrents]
  exact hkinds

/-- The readers return on this store. -/
structure ReadersReturn (rd : Reading) (s : Db) : Prop where
  curl : ∃ infos, run (readCurlItems rd.ord) s = (.ret infos, s)
  torrents : ∀ minimalReadout, ∃ infos,
    run (readTorrentItems rd.fuel rd.ord minimalReadout) s = (.ret infos, s)

section Returns

variable {rd : Reading}

/-- Then a row is inserted, whether its id is cached or refused. -/
theorem ReadersReturn.insertNewRow (h : ReadersReturn rd s) (qt : QtTexts) (w : MainWindow)
    (row : NewRow) : ∃ w', run (insertNewRow qt rd w row) s = (.ret w', s) := by
  have hinit : (∃ cache, run (initCharts rd row.uniqueId row.destination row.downloadType
      w.gkDlInfoCache) s = (.ret cache, s)) ∨ ∃ what, run (initCharts rd row.uniqueId
      row.destination row.downloadType w.gkDlInfoCache) s = (.throw what, s) := by
    unfold initCharts
    split
    · split
      · exact .inr ⟨_, rfl⟩
      · split
        · rcases h.curl with ⟨infos, hread⟩
          exact .inl ⟨_, run_bind_ret hread _⟩
        · rcases h.torrents false with ⟨infos, hread⟩
          exact .inl ⟨_, run_bind_ret hread _⟩
    · exact .inr ⟨_, rfl⟩
  have htable : run (ofTable (insertNewCells qt w.vectorList row)) s =
      (.ret ((newRowCells qt row).map Prod.snd :: w.vectorList), s) := by
    rw [insertNewCells_eq]
    rfl
  rw [Gui.insertNewRow, run_bind_ret htable]
  rcases hinit with ⟨cache, hcache⟩ | ⟨what, hthrow⟩
  · exact ⟨_, run_tryCatch_ret (run_bind_ret hcache _) _⟩
  · refine ⟨⟨(newRowCells qt row).map Prod.snd :: w.vectorList, w.gkDlInfoCache⟩, ?_⟩
    rw [run_tryCatch, run_bind_throw hthrow]
    rfl

theorem ReadersReturn.loadCurlItems (h : ReadersReturn rd s) (qt : QtTexts) (w : MainWindow)
    {infos : List CurlDlInfo} (hinfos : ∀ info ∈ infos, info.fileLoc ≠ []) :
    ∃ w', run (loadCurlItems qt rd w infos) s = (.ret w', s) := by
  induction infos generalizing w with
  | nil => exact ⟨w, rfl⟩
  | cons info infos ih =>
    have ih := fun w => ih w fun d hd => hinfos d (List.mem_cons_of_mem _ hd)
    rw [Gui.loadCurlItems, if_pos (hinfos info List.mem_cons_self)]
    split
    · rcases h.insertNewRow qt w (curlRow info) with ⟨w₁, hrun⟩
      rw [run_bind_ret hrun]
      exact ih w₁
    · exact ih w

theorem ReadersReturn.loadTorrentItems (h : ReadersReturn rd s) (qt : QtTexts) (w : MainWindow)
    (infos : List TorrentInfo) : ∃ w', run (loadTorrentItems qt rd w infos) s = (.ret w', s) := by
  induction infos generalizing w with
  | nil => exact ⟨w, rfl⟩
  | cons info infos ih =>
    rw [Gui.loadTorrentItems]
    split
    · split
      · rcases h.insertNewRow qt w (torrentRow info) with ⟨w₁, hrun⟩
        rw [run_bind_ret hrun]
        exact ih w₁
      · exact ih w
    · exact ih w

/-- The history is loaded. -/
theorem ReadersReturn.readFromHistoryFile (h : ReadersReturn rd s) (hes : DistinctEntries es)
    (hindex : Indexed s es) (qt : QtTexts) (w : MainWindow) :
    ∃ w', run (readFromHistoryFile qt rd w) s = (.ret w', s) := by
  rcases h.curl with ⟨dlHistory, hcurl⟩
  rcases h.torrents true with ⟨gkTorrentHistory, htorrents⟩
  have hread : run (readHistory rd) s = (.ret (dlHistory, gkTorrentHistory), s) := by
    rw [readHistory, run_bind_ret hcurl, run_bind_ret htorrents]
    rfl
  have hpaths := curlHistory_of_read hes hindex hcurl
  rcases h.loadCurlItems qt { w with vectorList := removeRows w.vectorList 0 dlHistory.length }
    fun _ hin => hpaths.fileLoc_ne_nil hes hin with ⟨w₁, hload⟩
  rcases h.loadTorrentItems qt w₁ gkTorrentHistory with ⟨w₂, hload'⟩
  refine ⟨w₂, ?_⟩
  rw [Gui.readFromHistoryFile, run_bind_ret hread]
  dsimp only
  rw [run_bind_ret hload, hload']

end Returns

/-- The records of the HTTP/FTP downloads are read, or none of them. -/
theorem readCurlItems_returns (hes : DistinctEntries es) (hindex : Indexed s es)
    (ord : IterOrder Entry) : ∃ infos, run (readCurlItems ord) s = (.ret infos, s) := by
  have hextract := hes.run_extractDownloadIds hindex false
  by_cases hread : ∀ e ∈ (visible es).filter fun e => e.2.2 = false, IsCurl e → CurlReadable s e
  · exact ⟨_, run_readCurlItems ord hextract hread⟩
  · push Not at hread
    exact ⟨_, run_readCurlItems_empty ord hextract hread⟩

/-- With enough rounds the readers return, if the torrents are readable. -/
theorem readersReturn_of_readable (hes : DistinctEntries es) (hindex : Indexed s es)
    (ord : IterOrder Entry) (htorrents : ∀ e ∈ es, e.2.2 = true → TorrentReadable s e) :
    ∃ n, ∀ fuel ≥ n, ReadersReturn ⟨ord, fuel⟩ s := by
  set cache := (visible es).filter fun e => e.2.2 = true with hcache
  have hextract : run (extractDownloadIds true) s = (.ret cache, s) :=
    hes.run_extractDownloadIds hindex true
  have hkind : ∀ e ∈ cache, IsTorrent e := by
    intro e he
    rcases List.mem_filter.mp he with ⟨hin, hflag⟩
    exact ⟨of_decide_eq_true hflag, (hes.clean e (visible_subset hin)).path.ne_nil⟩
  have hread : ∀ e ∈ cache, TorrentReadable s e := fun e he =>
    htorrents e (visible_subset (List.mem_filter.mp he).1) (hkind e he).1
  rcases @showsTorrents_of_readable s cache ord hextract hkind hread with ⟨records, hshows, -⟩
  rcases hshows with ⟨n, hret⟩
  rcases exists_minimal_records fun e he => (hread e he).minimal with ⟨record, hrecord⟩
  have hminimal := run_readTorrentItems_minimal ord hextract hkind hrecord
  refine ⟨n, fun fuel hfuel => ⟨readCurlItems_returns hes hindex ord, ?_⟩⟩
  intro minimalReadout
  cases minimalReadout with
  | false => exact ⟨_, run_readTorrentItems_more hfuel hret⟩
  | true => exact ⟨_, run_readTorrentItems_more (Nat.zero_le fuel) (by rw [hminimal])⟩

end Start

/-- A second download, whose size is not known. -/
def unsizedInfo : CurlDlInfo :=
  { sampleInfo with
    fileLoc := "/dl/b.iso".toList
    uniqueId := sampleId '2'
    extInfo := { sampleInfo.extInfo with contentLength := 0 } }

/-- Both downloads, left running. -/
def runningDb : Db :=
  [sampleInfo, unsizedInfo].foldl
    (fun s info =>
      (run (modifyCurlItem info.fileLoc .downloading 0 [] .none [] .notApplicable) s).2)
    (run (addCurlItem [] 8 unsizedInfo) sampleDb).2

def runningEntries : List Entry :=
  [(sampleInfo.uniqueId, sampleInfo.fileLoc, false),
    (unsizedInfo.uniqueId, unsizedInfo.fileLoc, false)]

theorem curl_runningEntries : ∀ e ∈ runningEntries, e.2.2 = false := by decide +kernel

theorem indexed_runningDb : Indexed runningDb runningEntries := by
  unfold Indexed
  decide +kernel

theorem distinctEntries_running : DistinctEntries runningEntries :=
  ⟨by decide +kernel, by decide +kernel, by decide +kernel⟩

/-- Both records are complete. -/
theorem allRead_running (torrent : Entry → TorrentInfo) :
    AllRead runningDb (visible runningEntries) torrent where
  curls := by
    have hcomplete : ∀ e ∈ runningEntries, (∀ key ∈ curlKeys,
        (runningDb (multipartKey [e.1, key])).isSome) ∧
        (ofDecimal (itemValue runningDb e.1 leveldbKeyCurlContLngth)).isSome := by decide +kernel
    exact fun e he _ => hcomplete e (visible_subset he)
  torrents := by
    intro e he htorrent
    rw [curl_runningEntries e (visible_subset he)] at htorrent
    cases htorrent

/-- Its record is paused, and the other one still runs. -/
example : runningEntries.map (fun e => (storedRecord
    (run (startUp plainTexts ⟨IterOrder.insertion Entry, 0⟩) runningDb).2 e).dlStatus) =
    [.paused, .downloading] := by decide +kernel

end FyreDL.Gui
