import FyreDL.Gui.MainWindow

/-!
# FyreDL.Gui.Agreement — the table and the cache list the same downloads

`Agrees w`: the hidden ids of the rows are the ids in the cache, each as often.

1. **Operations**: `ends_insertNewRow`, `ends_eraseCached`, `ends_loadCurlItems` and so on
   say what an operation makes of the two lists of ids, whatever the database answers.
   A row whose id is empty or in the cache already is inserted and not cached
   (`registerId`, `refusedIds`).
2. **Runs**: from the empty window and any database, the lists agree in every state
   exactly when each step meets `KeepsAgreement` (`agrees_iff`). What breaks the
   agreement is a `clearOldHistory` that removes a row.
-/

namespace FyreDL.Gui

open Lib Lib.Kv Store

/-! ## The two lists of ids -/

/-- The `MN_HIDDEN_UNIQUE_ID` cells. -/
def hiddenIds (vectorList : VectorList) : List Str :=
  vectorList.map fun cells => cells.getD mnHiddenUniqueId []

/-- The ids in the cache. -/
def cachedIds (cache : List DownloadInfo) : List Str := cache.map DownloadInfo.uniqueId

/-- The two lists are the same multiset. -/
def Agrees (w : MainWindow) : Prop := (hiddenIds w.vectorList).Perm (cachedIds w.gkDlInfoCache)

instance (w : MainWindow) : Decidable (Agrees w) := inferInstanceAs (Decidable (List.Perm _ _))

/-- Every row has all its cells, and the cached ids are distinct and not empty. -/
structure Tidy (w : MainWindow) : Prop where
  complete : ∀ cells ∈ w.vectorList, cells.length = mnColCount
  named : [] ∉ cachedIds w.gkDlInfoCache
  distinct : (cachedIds w.gkDlInfoCache).Nodup

theorem tidy_empty : Tidy ⟨[], []⟩ where
  complete := fun _ h => absurd h List.not_mem_nil
  named := List.not_mem_nil
  distinct := List.nodup_nil

/-- The id is not empty, and not there yet. -/
def IsNewId (ids : List Str) (id : Str) : Prop := id ≠ [] ∧ id ∉ ids

instance (ids : List Str) (id : Str) : Decidable (IsNewId ids id) :=
  decidable_of_iff (id ≠ [] ∧ ∀ other ∈ ids, other ≠ id)
    ⟨fun h => ⟨h.1, fun hin => h.2 id hin rfl⟩, fun h => ⟨h.1, fun _ hin heq => h.2 (heq ▸ hin)⟩⟩

/-- The cached ids after one more row: an empty id or one that is there is refused. -/
def registerId (ids : List Str) (id : Str) : List Str :=
  if IsNewId ids id then ids ++ [id] else ids

/-- The ids of a list of rows that are refused. -/
def refusedIds (ids : List Str) : List Str → List Str
  | [] => []
  | id :: rest =>
    if IsNewId ids id then refusedIds (ids ++ [id]) rest else id :: refusedIds ids rest

/-- What is inserted is registered or refused. -/
theorem registered_refused_perm (loaded ids : List Str) :
    (loaded.foldl registerId ids ++ refusedIds ids loaded).Perm (ids ++ loaded) := by
  induction loaded generalizing ids with
  | nil => exact List.Perm.refl _
  | cons id loaded ih =>
    rw [List.foldl_cons, registerId, refusedIds]
    by_cases h : IsNewId ids id
    · rw [if_pos h, if_pos h]
      refine (ih (ids ++ [id])).trans ?_
      rw [List.append_assoc, List.singleton_append]
    · rw [if_neg h, if_neg h]
      exact List.perm_middle.trans (((ih ids).cons id).trans List.perm_middle.symm)

theorem refusedIds_single {ids : List Str} {id : Str} :
    refusedIds ids [id] = [] ↔ IsNewId ids id := by
  rw [refusedIds]
  split
  · rename_i h
    exact ⟨fun _ => h, fun _ => rfl⟩
  · rename_i h
    exact ⟨fun hcons => absurd hcons (List.cons_ne_nil _ _), fun hnew => absurd hnew h⟩

theorem registerId_named {ids : List Str} (h : [] ∉ ids) (id : Str) : [] ∉ registerId ids id := by
  unfold registerId
  split
  · rename_i hnew
    rw [List.mem_append, List.mem_singleton, not_or]
    exact ⟨h, hnew.1.symm⟩
  · exact h

theorem registerId_nodup {ids : List Str} (h : ids.Nodup) (id : Str) :
    (registerId ids id).Nodup := by
  unfold registerId
  split
  · rename_i hnew
    rw [List.nodup_append]
    refine ⟨h, List.nodup_singleton id, ?_⟩
    rintro a ha b hb rfl
    rw [List.mem_singleton] at hb
    exact hnew.2 (hb ▸ ha)
  · exact h

/-- An id that is not empty is registered afterwards, and the others stay. -/
theorem mem_registerId {ids : List Str} {id other : Str} (hne : id ≠ []) :
    other ∈ registerId ids id ↔ other ∈ ids ∨ other = id := by
  unfold registerId
  split
  · rw [List.mem_append, List.mem_singleton]
  · rename_i hnot
    have hin : id ∈ ids := by
      by_contra hnew
      exact hnot ⟨hne, hnew⟩
    constructor
    · exact .inl
    · rintro (hold | rfl)
      · exact hold
      · exact hin

/-! ## Operations -/

section Operations

variable {w : MainWindow}

/-- A cell of a complete row is read. -/
theorem textAt_eq {vectorList : VectorList} {row column : Nat} {cells : List Str}
    (hrow : vectorList[row]? = some cells) (hlength : cells.length = mnColCount)
    (hcolumn : column < mnColCount) :
    textAt vectorList row column = .ret (cells.getD column []) := by
  have hlt : row < vectorList.length := (List.getElem?_eq_some_iff.mp hrow).1
  have htext : cells[column]? = some (cells.getD column []) := by
    rw [List.getD_eq_getElem?_getD, List.getElem?_eq_getElem (hlength ▸ hcolumn), Option.getD_some]
  rw [textAt, modelIndex_of_lt hlt hcolumn, data_cell hrow hcolumn htext]
  rfl

/-- A row that is not there has an empty text. -/
theorem textAt_missing {vectorList : VectorList} {row : Nat} (h : vectorList.length ≤ row)
    (column : Int) : textAt vectorList row column = .ret [] := by
  have hout : ¬ ((0 : Int) ≤ row ∧ (row : Int) < rowCount vectorList ∧ 0 ≤ column ∧
      column < columnCount) := by
    unfold rowCount
    omega
  rw [textAt, modelIndex, if_neg hout]
  rfl

/-- The cache after one more row has its download behind the others, unless the id is
refused. -/
def Caches (row : NewRow) (cache cache' : List DownloadInfo) : Prop :=
  if IsNewId (cachedIds cache) row.uniqueId then
    ∃ info : DownloadInfo, info.uniqueId = row.uniqueId ∧ info.dlType = row.downloadType ∧
      cache' = cache ++ [info]
  else cache' = cache

theorem Caches.cachedIds {row : NewRow} {cache cache' : List DownloadInfo}
    (h : Caches row cache cache') :
    cachedIds cache' = registerId (cachedIds cache) row.uniqueId := by
  unfold Caches at h
  unfold registerId
  split at h
  · rename_i hnew
    rcases h with ⟨info, hid, -, rfl⟩
    rw [if_pos hnew, ← hid]
    exact List.map_append
  · rename_i hold
    rw [if_neg hold, h]

/-- `initCharts` caches the download, and throws if the id is empty or in the cache. -/
theorem ends_initCharts (rd : Reading) (row : NewRow) (cache : List DownloadInfo) :
    Ends (Caches row cache) (fun _ => ¬ IsNewId (cachedIds cache) row.uniqueId)
      (initCharts rd row.uniqueId row.destination row.downloadType cache) := by
  have hin : (∃ info ∈ cache, info.uniqueId = row.uniqueId) ↔
      row.uniqueId ∈ cachedIds cache := by
    rw [cachedIds, List.mem_map]
  unfold initCharts
  by_cases hne : row.uniqueId ≠ []
  · rw [if_pos hne]
    by_cases hdup : ∃ info ∈ cache, info.uniqueId = row.uniqueId
    · rw [if_pos hdup]
      exact .throw fun h => h.2 (hin.mp hdup)
    · rw [if_neg hdup]
      -- both readers show their exceptions, so that the download is cached
      have hnew : IsNewId (cachedIds cache) row.uniqueId := ⟨hne, fun h => hdup (hin.mpr h)⟩
      have hcaches : ∀ info : DownloadInfo, info.uniqueId = row.uniqueId →
          info.dlType = row.downloadType → Caches row cache (cache ++ [info]) := by
        intro info hid htype
        rw [Caches, if_pos hnew]
        exact ⟨info, hid, htype, rfl⟩
      split
      · exact (Ends.shown _ _ _).bind fun _ _ => .ret (hcaches _ rfl rfl)
      · exact (Ends.shown _ _ _).bind fun _ _ => .ret (hcaches _ rfl rfl)
  · rw [if_neg hne]
    exact .throw fun h => hne h.1

/-- A row is inserted in any case. -/
theorem ends_insertNewRow (qt : QtTexts) (rd : Reading) (w : MainWindow) (row : NewRow) :
    Ends (fun w' => w'.vectorList = (newRowCells qt row).map Prod.snd :: w.vectorList ∧
        Caches row w.gkDlInfoCache w'.gkDlInfoCache)
      (fun _ => False) (insertNewRow qt rd w row) := by
  rw [insertNewRow, insertNewCells_eq]
  have hnew : Ends (fun w' => w'.vectorList = (newRowCells qt row).map Prod.snd :: w.vectorList ∧
      Caches row w.gkDlInfoCache w'.gkDlInfoCache)
      (fun _ => ¬ IsNewId (cachedIds w.gkDlInfoCache) row.uniqueId) (do
        let cache ← initCharts rd row.uniqueId row.destination row.downloadType w.gkDlInfoCache
        pure (⟨(newRowCells qt row).map Prod.snd :: w.vectorList, cache⟩ : MainWindow)) :=
    (ends_initCharts rd row w.gkDlInfoCache).bind fun cache' h => .ret ⟨rfl, h⟩
  refine hnew.tryCatch fun e h => .warn (.ret ⟨rfl, ?_⟩)
  rw [Caches, if_neg h]

/-- Rows with these ids are inserted, one after the other. -/
structure Inserted (ids : List Str) (w w' : MainWindow) : Prop where
  tidy : Tidy w'
  hidden : hiddenIds w'.vectorList = ids.reverse ++ hiddenIds w.vectorList
  cached : cachedIds w'.gkDlInfoCache = ids.foldl registerId (cachedIds w.gkDlInfoCache)

theorem Inserted.refl (ht : Tidy w) : Inserted [] w w := ⟨ht, rfl, rfl⟩

theorem Inserted.trans {ids ids' : List Str} {w₁ w₂ : MainWindow} (h : Inserted ids w w₁)
    (h' : Inserted ids' w₁ w₂) : Inserted (ids ++ ids') w w₂ where
  tidy := h'.tidy
  hidden := by rw [h'.hidden, h.hidden, List.reverse_append, List.append_assoc]
  cached := by rw [h'.cached, h.cached, List.foldl_append]

theorem ends_inserted (qt : QtTexts) (rd : Reading) (ht : Tidy w) (row : NewRow) :
    Ends (Inserted [row.uniqueId] w) (fun _ => False) (insertNewRow qt rd w row) := by
  refine (ends_insertNewRow qt rd w row).mono fun w' h => ⟨⟨?_, ?_, ?_⟩, ?_, h.2.cachedIds⟩
  · intro cells hcells
    rw [h.1] at hcells
    rcases List.mem_cons.mp hcells with rfl | hold
    · rfl
    · exact ht.complete cells hold
  · rw [h.2.cachedIds]
    exact registerId_named ht.named _
  · rw [h.2.cachedIds]
    exact registerId_nodup ht.distinct _
  · rw [h.1]
    rfl

/-- The ids of the downloads that are shown. -/
def loadedCurlIds (infos : List CurlDlInfo) : List Str :=
  (infos.filter fun info => info.fileLoc ≠ [] ∧ info.extInfo.contentLength > 0).map
    CurlDlInfo.uniqueId

/-- The ids of the torrents that are shown. -/
def loadedTorrentIds (infos : List TorrentInfo) : List Str :=
  (infos.filter fun info => info.general.downDest ≠ [] ∧ torrentLength info > 0).map
    fun info => info.general.uniqueId

theorem ends_loadCurlItems (qt : QtTexts) (rd : Reading) (infos : List CurlDlInfo) (ht : Tidy w) :
    Ends (Inserted (loadedCurlIds infos) w) (fun _ => False) (loadCurlItems qt rd w infos) := by
  induction infos generalizing w with
  | nil => exact .ret (.refl ht)
  | cons info infos ih =>
    rw [loadCurlItems]
    by_cases hshown : info.fileLoc ≠ [] ∧ info.extInfo.contentLength > 0
    · have hids : loadedCurlIds (info :: infos) = [info.uniqueId] ++ loadedCurlIds infos := by
        rw [loadedCurlIds, List.filter_cons, if_pos (decide_eq_true hshown)]
        rfl
      rw [if_pos hshown.1, if_pos hshown.2, hids]
      refine (ends_inserted qt rd ht (curlRow info)).bind ?_
      intro w₁ h₁
      exact (ih h₁.tidy).mono fun w₂ h₂ => h₁.trans h₂
    · have hids : loadedCurlIds (info :: infos) = loadedCurlIds infos := by
        rw [loadedCurlIds, List.filter_cons,
          if_neg fun h => hshown (of_decide_eq_true h)]
        rfl
      rw [hids]
      split
      · rename_i hfile
        rw [if_neg fun h => hshown ⟨hfile, h⟩]
        exact .warn (ih ht)
      · refine .warn ?_
        split
        · exact (Ends.shown _ _ _).bind fun _ _ => ih ht
        · exact ih ht

theorem ends_loadTorrentItems (qt : QtTexts) (rd : Reading) (infos : List TorrentInfo)
    (ht : Tidy w) :
    Ends (Inserted (loadedTorrentIds infos) w) (fun _ => False)
      (loadTorrentItems qt rd w infos) := by
  induction infos generalizing w with
  | nil => exact .ret (.refl ht)
  | cons info infos ih =>
    rw [loadTorrentItems]
    by_cases hshown : info.general.downDest ≠ [] ∧ torrentLength info > 0
    · have hids : loadedTorrentIds (info :: infos) =
          [info.general.uniqueId] ++ loadedTorrentIds infos := by
        rw [loadedTorrentIds, List.filter_cons, if_pos (decide_eq_true hshown)]
        rfl
      rw [if_pos hshown.1, if_pos hshown.2, hids]
      refine (ends_inserted qt rd ht (torrentRow info)).bind ?_
      intro w₁ h₁
      exact (ih h₁.tidy).mono fun w₂ h₂ => h₁.trans h₂
    · have hids : loadedTorrentIds (info :: infos) = loadedTorrentIds infos := by
        rw [loadedTorrentIds, List.filter_cons,
          if_neg fun h => hshown (of_decide_eq_true h)]
        rfl
      rw [hids]
      split
      · rename_i hdest
        rw [if_neg fun h => hshown ⟨hdest, h⟩]
        exact .warn (ih ht)
      · exact .warn (ih ht)

/-- The first entry of the id is erased, if there is one. -/
theorem ends_eraseCached (ord : IterOrder Entry) (fileDest uniqueId : Str)
    (cache : List DownloadInfo) :
    Ends (fun cache' => cachedIds cache' = (cachedIds cache).erase uniqueId) (fun _ => False)
      (eraseCached ord fileDest uniqueId cache) := by
  induction cache with
  | nil => exact .ret rfl
  | cons info cache ih =>
    have hids : cachedIds (info :: cache) = info.uniqueId :: cachedIds cache := rfl
    rw [eraseCached, hids]
    by_cases h : info.uniqueId = uniqueId
    · rw [if_pos h, h, List.erase_cons_head]
      split
      · exact (Ends.shown _ _ _).bind fun _ _ => .ret rfl
      · exact .ret rfl
    · rw [if_neg h, List.erase_cons_tail (fun hc => h (eq_of_beq hc))]
      refine ih.bind fun cache' h' => .ret ?_
      rw [← h']
      rfl

theorem removeRows_sublist (vectorList : VectorList) (position : Int) (rows : Nat) :
    (removeRows vectorList position rows).Sublist vectorList := by
  induction rows generalizing vectorList with
  | zero => exact List.Sublist.refl _
  | succ rows ih =>
    have hremove : (removeAt vectorList position).Sublist vectorList := by
      unfold removeAt
      split
      · exact List.eraseIdx_sublist _ _
      · exact List.Sublist.refl _
    exact (ih _).trans hremove

/-- Rows may be taken away. -/
theorem Tidy.sublist (ht : Tidy w) {vectorList : VectorList}
    (h : vectorList.Sublist w.vectorList) : Tidy { w with vectorList := vectorList } where
  complete := fun cells hcells => ht.complete cells (h.subset hcells)
  named := ht.named
  distinct := ht.distinct

/-- The id of the row that is removed is the one that is erased. -/
theorem agrees_erase (ha : Agrees w) {row : Nat} {cells : List Str}
    (hrow : w.vectorList[row]? = some cells) {cache : List DownloadInfo}
    (hcache : cachedIds cache =
      (cachedIds w.gkDlInfoCache).erase (cells.getD mnHiddenUniqueId [])) :
    Agrees ⟨removeRows w.vectorList row 1, cache⟩ := by
  set id := cells.getD mnHiddenUniqueId [] with hid
  have hlt : row < w.vectorList.length := (List.getElem?_eq_some_iff.mp hrow).1
  have hcell : w.vectorList[row] = cells := (List.getElem?_eq_some_iff.mp hrow).2
  have hremove : removeRows w.vectorList row 1 = w.vectorList.eraseIdx row := by
    rw [removeRows_eq, List.eraseIdx_eq_take_drop_succ]
  -- the rows are the removed one and the others
  have hrows : (hiddenIds w.vectorList).Perm (id :: hiddenIds (w.vectorList.eraseIdx row)) := by
    have hperm := (List.getElem_cons_eraseIdx_perm hlt).symm.map fun cells : List Str =>
      cells.getD mnHiddenUniqueId []
    rw [List.map_cons, hcell] at hperm
    exact hperm
  have hmem : id ∈ cachedIds w.gkDlInfoCache := by
    rw [← ha.mem_iff, hrows.mem_iff]
    exact List.mem_cons_self
  change (hiddenIds (removeRows w.vectorList row 1)).Perm (cachedIds cache)
  rw [hremove, hcache]
  exact (hrows.symm.trans (ha.trans (List.perm_cons_erase hmem))).cons_inv

/-- **`removeSelRows` keeps the agreement.** -/
theorem ends_removeSelRows (ord : IterOrder Entry) (selected : Option Nat) (ht : Tidy w) :
    Ends (fun w' => Tidy w' ∧ (Agrees w → Agrees w')) (fun _ => False)
      (removeSelRows ord selected w) := by
  cases selected with
  | none => exact .ret ⟨ht, id⟩
  | some row =>
    cases hrow : w.vectorList[row]? with
    | some cells =>
      have hlength : cells.length = mnColCount := ht.complete cells (List.mem_of_getElem? hrow)
      rw [removeSelRows, textAt_eq hrow hlength (by decide), Prog.ret_bind,
        textAt_eq hrow hlength (by decide), Prog.ret_bind]
      refine Ends.tryCatch (T := fun _ => False) ?_ fun e he => he.elim
      refine (ends_eraseCached ord _ _ _).bind fun cache hcache =>
        .ret ⟨⟨?_, ?_, ?_⟩, fun ha => ?_⟩
      · intro cells hcells
        exact ht.complete cells ((removeRows_sublist _ _ _).subset hcells)
      · rw [hcache]
        exact fun h => ht.named (List.mem_of_mem_erase h)
      · rw [hcache]
        exact ht.distinct.erase _
      · exact agrees_erase ha hrow hcache
    | none =>
      -- the empty id is not in the cache
      have hge : w.vectorList.length ≤ row := List.getElem?_eq_none_iff.mp hrow
      have hremove : removeRows w.vectorList row 1 = w.vectorList := by
        rw [removeRows_eq, List.take_of_length_le hge,
          List.drop_eq_nil_of_le (Nat.le_add_right_of_le hge), List.append_nil]
      rw [removeSelRows, textAt_missing hge, Prog.ret_bind, textAt_missing hge, Prog.ret_bind,
        hremove]
      refine Ends.tryCatch (T := fun _ => False) ?_ fun e he => he.elim
      refine (ends_eraseCached ord _ _ _).bind fun cache hcache => .ret ?_
      rw [List.erase_of_not_mem ht.named] at hcache
      refine ⟨⟨ht.complete, ?_, ?_⟩, fun ha => ?_⟩
      · change [] ∉ cachedIds cache
        rw [hcache]
        exact ht.named
      · change (cachedIds cache).Nodup
        rw [hcache]
        exact ht.distinct
      · change (hiddenIds w.vectorList).Perm (cachedIds cache)
        rw [hcache]
        exact ha

/-- A row is shown as completed. -/
def IsCompleted (cells : List Str) : Prop :=
  cells.getD mnStatusCol [] = convDlStatToString .completed

instance (cells : List Str) : Decidable (IsCompleted cells) := inferInstanceAs (Decidable (_ = _))

/-- The status of a path cannot be asked for. -/
def Unreadable (files : FileStatus) (cells : List Str) : Prop :=
  ∃ what, files (cells.getD mnDestinationCol []) = .error what

/-- A confirmed `clearOldHistory` removes a row: one is completed, and the status of no
completed one throws. -/
def ClearsRows (files : FileStatus) (vectorList : VectorList) : Prop :=
  (∃ cells ∈ vectorList, IsCompleted cells) ∧
    ∀ cells ∈ vectorList, IsCompleted cells → ¬ Unreadable files cells

theorem ends_deleteCompleted (ord : IterOrder Entry) (files : FileStatus)
    {vectorList : VectorList} {row : Nat} {cells : List Str}
    (hrow : vectorList[row]? = some cells) (hlength : cells.length = mnColCount) :
    Ends (fun _ => ¬ Unreadable files cells) (fun _ => Unreadable files cells)
      (deleteCompleted ord files vectorList row (cells.getD mnDestinationCol [])) := by
  unfold deleteCompleted
  cases hfile : files (cells.getD mnDestinationCol []) with
  | error what => exact .throw ⟨what, hfile⟩
  | ok kind =>
    have hread : ¬ Unreadable files cells := by
      rintro ⟨what, hwhat⟩
      rw [hfile] at hwhat
      cases hwhat
    dsimp only
    split
    · exact (Ends.shown _ _ _).bind fun _ _ => .ret hread
    · rw [textAt_eq hrow hlength (by decide), Prog.ret_bind]
      exact .ret hread

/-- What the loop of `clearOldHistory` has found in some of the rows: a completed row with
an unreadable status, or all the completed rows. -/
def Found (files : FileStatus) (vectorList : VectorList) (rows : List Nat) :
    Option (List Nat) → Prop
  | none => ∃ cells ∈ vectorList, IsCompleted cells ∧ Unreadable files cells
  | some indexes => (∀ row ∈ indexes, row ∈ rows ∧ ∃ cells ∈ vectorList, IsCompleted cells) ∧
      ∀ row ∈ rows, ∀ cells, vectorList[row]? = some cells → IsCompleted cells →
        row ∈ indexes ∧ ¬ Unreadable files cells

/-- The handler of the loop tells whether the status of the path could be read. -/
theorem ends_deleteShown (ord : IterOrder Entry) (files : FileStatus) {vectorList : VectorList}
    {row : Nat} {cells : List Str} (hrow : vectorList[row]? = some cells)
    (hlength : cells.length = mnColCount) :
    Ends (fun deleted => deleted = true ↔ ¬ Unreadable files cells) (fun _ => False)
      (Prog.tryCatch (do
        deleteCompleted ord files vectorList row (cells.getD mnDestinationCol [])
        pure true) fun e => .warn e (.ret false)) := by
  have hdelete : Ends (fun deleted => deleted = true ↔ ¬ Unreadable files cells)
      (fun _ => Unreadable files cells) (do
        deleteCompleted ord files vectorList row (cells.getD mnDestinationCol [])
        pure true) := by
    refine (ends_deleteCompleted ord files hrow hlength).bind fun _ h => .ret ?_
    exact ⟨fun _ => h, fun _ => rfl⟩
  refine hdelete.tryCatch fun e he => .warn (.ret ?_)
  exact ⟨fun hf => absurd hf Bool.false_ne_true, fun hn => absurd he hn⟩

section Found

variable {files : FileStatus} {vectorList : VectorList} {row : Nat} {rows : List Nat}
  {cells : List Str} {found : Option (List Nat)}

/-- A completed row that can be read is found. -/
theorem Found.cons (h : Found files vectorList rows found) (hrow : vectorList[row]? = some cells)
    (hdone : IsCompleted cells) (hread : ¬ Unreadable files cells) :
    Found files vectorList (row :: rows) (found.map fun indexes => row :: indexes) := by
  cases found with
  | none => exact h
  | some indexes =>
    constructor
    · intro r hr
      rcases List.mem_cons.mp hr with rfl | hr
      · exact ⟨List.mem_cons_self, cells, List.mem_of_getElem? hrow, hdone⟩
      · exact ⟨List.mem_cons_of_mem _ (h.1 r hr).1, (h.1 r hr).2⟩
    · intro r hr cells' hcells' hdone'
      rcases List.mem_cons.mp hr with rfl | hr
      · rw [hrow] at hcells'
        cases hcells'
        exact ⟨List.mem_cons_self, hread⟩
      · have hin := h.2 r hr cells' hcells' hdone'
        exact ⟨List.mem_cons_of_mem _ hin.1, hin.2⟩

/-- A row that is not completed is passed over. -/
theorem Found.skip (h : Found files vectorList rows found) (hrow : vectorList[row]? = some cells)
    (hdone : ¬ IsCompleted cells) : Found files vectorList (row :: rows) found := by
  cases found with
  | none => exact h
  | some indexes =>
    constructor
    · intro r hr
      exact ⟨List.mem_cons_of_mem _ (h.1 r hr).1, (h.1 r hr).2⟩
    · intro r hr cells' hcells' hdone'
      rcases List.mem_cons.mp hr with rfl | hr
      · rw [hrow] at hcells'
        cases hcells'
        exact absurd hdone' hdone
      · exact h.2 r hr cells' hcells' hdone'

end Found

theorem ends_completedRows (ord : IterOrder Entry) (files : FileStatus) {vectorList : VectorList}
    (hcomplete : ∀ cells ∈ vectorList, cells.length = mnColCount) {rows : List Nat}
    (hrows : ∀ row ∈ rows, row < vectorList.length) :
    Ends (Found files vectorList rows) (fun _ => False)
      (completedRows ord files vectorList rows) := by
  induction rows with
  | nil =>
    refine .ret ⟨fun row hrow => absurd hrow List.not_mem_nil, ?_⟩
    intro row hrow
    exact absurd hrow List.not_mem_nil
  | cons row rows ih =>
    have hlt := hrows row List.mem_cons_self
    obtain ⟨cells, hrow⟩ : ∃ cells, vectorList[row]? = some cells :=
      ⟨_, List.getElem?_eq_getElem hlt⟩
    have hmem := List.mem_of_getElem? hrow
    have hlength := hcomplete cells hmem
    have ih := ih fun r hr => hrows r (List.mem_cons_of_mem _ hr)
    rw [completedRows, textAt_eq hrow hlength (by decide), Prog.ret_bind]
    by_cases hdone : cells.getD mnStatusCol [] = convDlStatToString .completed
    · rw [if_pos hdone, textAt_eq hrow hlength (by decide), Prog.ret_bind]
      refine (ends_deleteShown ord files hrow hlength).bind ?_
      intro deleted hdeleted
      cases deleted with
      | false =>
        have hbad : Unreadable files cells := by
          by_contra hn
          exact Bool.false_ne_true (hdeleted.mpr hn)
        exact .ret ⟨cells, hmem, hdone, hbad⟩
      | true =>
        refine ih.bind ?_
        intro found hfound
        exact .ret (hfound.cons hrow hdone (hdeleted.mp rfl))
    · rw [if_neg hdone]
      refine ih.mono ?_
      intro found hfound
      exact hfound.skip hrow hdone

theorem removeFound_sublist (vectorList : VectorList) (indexes : List Nat) :
    (removeFound vectorList indexes).Sublist vectorList := by
  induction indexes with
  | nil => exact List.Sublist.refl _
  | cons row indexes ih => exact (removeRows_sublist _ _ _).trans ih

theorem removeFound_snoc (vectorList : VectorList) (before : List Nat) (last : Nat) :
    removeFound vectorList (before ++ [last]) =
      removeFound (removeRows vectorList last 1) before := by
  rw [removeFound, List.foldr_append]
  rfl

/-- The last row that was found is in the table when it is removed. -/
theorem removeFound_lt {vectorList : VectorList} {indexes : List Nat} (hne : indexes ≠ [])
    (hrows : ∀ row ∈ indexes, row < vectorList.length) :
    (removeFound vectorList indexes).length < vectorList.length := by
  rcases List.eq_nil_or_concat indexes with hnil | ⟨before, last, rfl⟩
  · exact absurd hnil hne
  · have hlast : last < vectorList.length := hrows last (by simp)
    rw [List.concat_eq_append, removeFound_snoc]
    refine Nat.lt_of_le_of_lt (removeFound_sublist _ _).length_le ?_
    rw [removeRows_eq, List.length_append, List.length_take, List.length_drop]
    omega

/-- A confirmed `clearOldHistory` takes rows away exactly if it clears rows, and leaves
the cache. -/
theorem ends_clearOldHistory (ord : IterOrder Entry) (files : FileStatus)
    (answer : StandardButton) (ht : Tidy w) :
    Ends (fun w' => Tidy w' ∧ w'.gkDlInfoCache = w.gkDlInfoCache ∧
        (answer = .apply ∧ ClearsRows files w.vectorList →
          w'.vectorList.length < w.vectorList.length) ∧
        (¬ (answer = .apply ∧ ClearsRows files w.vectorList) → w'.vectorList = w.vectorList))
      (fun _ => False) (clearOldHistory ord files answer w) := by
  unfold clearOldHistory
  by_cases happly : answer = .apply
  · have hrows : ∀ row ∈ List.range w.vectorList.length, row < w.vectorList.length :=
      fun row => List.mem_range.mp
    rw [if_pos happly]
    refine (ends_completedRows ord files ht.complete hrows).bind ?_
    intro found hfound
    cases found with
    | none =>
      rcases hfound with ⟨cells, hmem, hdone, hbad⟩
      exact .ret ⟨ht, rfl, fun h => absurd hbad (h.2.2 cells hmem hdone), fun _ => rfl⟩
    | some indexes =>
      refine .ret ⟨ht.sublist (removeFound_sublist _ _), rfl, fun hclears => ?_, fun hkeeps => ?_⟩
      · rcases hclears.2.1 with ⟨cells, hmem, hdone⟩
        rcases List.mem_iff_getElem?.mp hmem with ⟨row, hrow⟩
        have hlt : row < w.vectorList.length := (List.getElem?_eq_some_iff.mp hrow).1
        have hin := (hfound.2 row (List.mem_range.mpr hlt) cells hrow hdone).1
        refine removeFound_lt (List.ne_nil_of_mem hin) ?_
        intro r hr
        exact List.mem_range.mp (hfound.1 r hr).1
      · -- nothing was found, as no completed row has an unreadable status
        have hnil : indexes = [] := by
          refine List.eq_nil_iff_forall_not_mem.mpr fun row hrow => hkeeps ⟨happly, ?_⟩
          refine ⟨(hfound.1 row hrow).2, ?_⟩
          intro cells hmem hdone
          rcases List.mem_iff_getElem?.mp hmem with ⟨r, hr⟩
          have hlt : r < w.vectorList.length := (List.getElem?_eq_some_iff.mp hr).1
          exact (hfound.2 r (List.mem_range.mpr hlt) cells hr hdone).2
        rw [hnil]
        rfl
  · rw [if_neg happly]
    exact .ret ⟨ht, rfl, fun h => absurd h.1 happly, fun _ => rfl⟩

/-- **Loading the history.** The rows that are taken off have to be those whose downloads
are refused. -/
theorem agrees_inserted_iff (ha : Agrees w) {n : Nat} {ids : List Str} {w' : MainWindow}
    (h : Inserted ids { w with vectorList := removeRows w.vectorList 0 n } w') :
    Agrees w' ↔ (hiddenIds (w.vectorList.take n)).Perm
      (refusedIds (cachedIds w.gkDlInfoCache) ids) := by
  have hremove : removeRows w.vectorList 0 n = w.vectorList.drop n := by
    have heq := removeRows_eq 0 n w.vectorList
    rwa [List.take_zero, List.nil_append, Nat.zero_add] at heq
  have hidden : hiddenIds w'.vectorList = ids.reverse ++ hiddenIds (w.vectorList.drop n) := by
    rw [h.hidden, hremove]
  have hrows : (hiddenIds (w.vectorList.take n) ++ hiddenIds (w.vectorList.drop n)).Perm
      (cachedIds w.gkDlInfoCache) := by
    rw [hiddenIds, hiddenIds, ← List.map_append, List.take_append_drop]
    exact ha
  have hcached := registered_refused_perm ids (cachedIds w.gkDlInfoCache)
  rw [← h.cached] at hcached
  -- count each id on both sides
  rw [Agrees, hidden, List.perm_iff_count, List.perm_iff_count]
  refine forall_congr' ?_
  intro id
  have hrows' := hrows.count_eq id
  have hcached' := hcached.count_eq id
  rw [List.count_append] at hrows' hcached'
  rw [List.count_append] at hcached'
  rw [List.count_append, List.count_reverse]
  omega

/-- A window with fewer rows and the same cache does not agree. -/
theorem not_agrees_of_lt (ha : Agrees w) {w' : MainWindow}
    (hcache : w'.gkDlInfoCache = w.gkDlInfoCache)
    (hlt : w'.vectorList.length < w.vectorList.length) : ¬ Agrees w' := by
  intro ha'
  have hlen := ha.length_eq
  have hlen' := ha'.length_eq
  rw [hiddenIds, List.length_map] at hlen hlen'
  rw [hcache] at hlen'
  omega

theorem ends_readHistory_rest (qt : QtTexts) (rd : Reading) (dlHistory : List CurlDlInfo)
    (gkTorrentHistory : List TorrentInfo) (ht : Tidy w) :
    Ends (Inserted (loadedCurlIds dlHistory ++ loadedTorrentIds gkTorrentHistory) w)
      (fun _ => False) (do
        let w ← loadCurlItems qt rd w dlHistory
        loadTorrentItems qt rd w gkTorrentHistory) := by
  refine (ends_loadCurlItems qt rd dlHistory ht).bind ?_
  intro w₁ h₁
  exact (ends_loadTorrentItems qt rd gkTorrentHistory h₁.tidy).mono fun w₂ h₂ => h₁.trans h₂

/-- A download that is sent is a duplicate, or is inserted. -/
theorem ends_sendDetails (qt : QtTexts) (rd : Reading) (drawn : Str) (now : Int)
    (hashSuccType : HashVerif) (details : Details) (ht : Tidy w) :
    Ends (fun w' => if isDuplicate w details.row then w' = w
        else Inserted [details.row.uniqueId] w w')
      (fun _ => False) (sendDetails qt rd drawn now hashSuccType details w) := by
  unfold sendDetails
  split
  · exact .warn (.ret rfl)
  · refine (ends_inserted qt rd ht details.row).bind ?_
    intro w' h
    split
    · refine Ends.bind (R := fun _ => True) ?_ fun _ _ => .ret h
      unfold addCurlItem
      split
      · exact Ends.tryCatch (Ends.any _) fun _ _ => .warn (.ret trivial)
      · exact .ret trivial
    · exact .ret h

end Operations

/-! ## Runs -/

/-- What changes the two lists. -/
inductive WindowAction where
  | readFromHistoryFile (rd : Reading)
  | sendDetails (rd : Reading) (drawn : Str) (now : Int) (hashSuccType : HashVerif)
    (details : Details)
  | removeSelRows (ord : IterOrder Entry) (selected : Option Nat)
  | clearOldHistory (ord : IterOrder Entry) (files : FileStatus) (answer : StandardButton)

/-- The window and the database. -/
structure Session where
  window : MainWindow
  db : Db

def perform (qt : QtTexts) (w : MainWindow) : WindowAction → DbProg MainWindow
  | .readFromHistoryFile rd => readFromHistoryFile qt rd w
  | .sendDetails rd drawn now hashSuccType details =>
    sendDetails qt rd drawn now hashSuccType details w
  | .removeSelRows ord selected => removeSelRows ord selected w
  | .clearOldHistory ord files answer => clearOldHistory ord files answer w

/-- The state after an action, under the faults that the database has during it. An
action that does not return reaches no other state of the window. -/
def Session.step (qt : QtTexts) (s : Session) (a : Faults Str × WindowAction) : Session :=
  match exec a.1 (perform qt s.window a.2) (Machine.start s.db) with
  | (.ret w, m) => ⟨w, m.store⟩
  | (_, m) => ⟨s.window, m.store⟩

/-- The action returns. -/
def Returns (qt : QtTexts) (s : Session) (a : Faults Str × WindowAction) : Prop :=
  ∃ w m, exec a.1 (perform qt s.window a.2) (Machine.start s.db) = (.ret w, m)

/-- The step that keeps the agreement. A loading of the history takes off the rows whose
downloads it is refused, a download that is sent is a duplicate or has a new id that is
not empty, and a clearing clears no rows. -/
def KeepsAgreement (qt : QtTexts) (s : Session) (a : Faults Str × WindowAction) : Prop :=
  Returns qt s a →
    match a.2 with
    | .readFromHistoryFile rd => ∀ dlHistory gkTorrentHistory m,
        exec a.1 (readHistory rd) (Machine.start s.db) = (.ret (dlHistory, gkTorrentHistory), m) →
          (hiddenIds (s.window.vectorList.take dlHistory.length)).Perm
            (refusedIds (cachedIds s.window.gkDlInfoCache)
              (loadedCurlIds dlHistory ++ loadedTorrentIds gkTorrentHistory))
    | .sendDetails _ _ _ _ details => isDuplicate s.window details.row = false →
        details.row.uniqueId ≠ [] ∧ details.row.uniqueId ∉ cachedIds s.window.gkDlInfoCache
    | .removeSelRows _ _ => True
    | .clearOldHistory _ files answer =>
        ¬ (answer = .apply ∧ ClearsRows files s.window.vectorList)

section Runs

variable {qt : QtTexts} {s : Session}

/-- What a loading of the history does, in terms of what it reads. -/
theorem readFromHistoryFile_inserted {F : Faults Str} {rd : Reading} {w' : MainWindow}
    {m' : Machine Str Str Str} (ht : Tidy s.window)
    (h : exec F (readFromHistoryFile qt rd s.window) (Machine.start s.db) = (.ret w', m')) :
    ∃ dlHistory gkTorrentHistory m,
      exec F (readHistory rd) (Machine.start s.db) = (.ret (dlHistory, gkTorrentHistory), m) ∧
      Inserted (loadedCurlIds dlHistory ++ loadedTorrentIds gkTorrentHistory)
        { s.window with vectorList := removeRows s.window.vectorList 0 dlHistory.length } w' := by
  rcases exec_bind_eq_ret h with ⟨⟨dlHistory, gkTorrentHistory⟩, m, hread, hrest⟩
  have htidy := ht.sublist (removeRows_sublist s.window.vectorList 0 dlHistory.length)
  exact ⟨dlHistory, gkTorrentHistory, m, hread,
    (ends_readHistory_rest qt rd dlHistory gkTorrentHistory htidy).exec_ret hrest⟩

/-- An action returns a window, or leaves it as it is. -/
theorem step_window (qt : QtTexts) (s : Session) (a : Faults Str × WindowAction) :
    (¬ Returns qt s a ∧ (s.step qt a).window = s.window) ∨
      ∃ w m, exec a.1 (perform qt s.window a.2) (Machine.start s.db) = (.ret w, m) ∧
        (s.step qt a).window = w := by
  rw [Session.step]
  rcases hexec : exec a.1 (perform qt s.window a.2) (Machine.start s.db) with ⟨o, m⟩
  cases o with
  | ret w => exact .inr ⟨w, m, rfl, rfl⟩
  | throw e =>
    refine .inl ⟨?_, rfl⟩
    rintro ⟨w, m', hret⟩
    rw [hexec] at hret
    cases hret
  | hung =>
    refine .inl ⟨?_, rfl⟩
    rintro ⟨w, m', hret⟩
    rw [hexec] at hret
    cases hret
  | stopped =>
    refine .inl ⟨?_, rfl⟩
    rintro ⟨w, m', hret⟩
    rw [hexec] at hret
    cases hret

/-- Every action keeps the window tidy, and keeps the agreement exactly under its condition. -/
theorem step_agrees (qt : QtTexts) (s : Session) (a : Faults Str × WindowAction)
    (ht : Tidy s.window) :
    Tidy (s.step qt a).window ∧
      (Agrees s.window → (Agrees (s.step qt a).window ↔ KeepsAgreement qt s a)) := by
  rcases step_window qt s a with ⟨hnot, hstep⟩ | ⟨w', m', hexec, hstep⟩
  · rw [hstep]
    refine ⟨ht, fun ha => ⟨fun _ hret => absurd hret hnot, fun _ => ha⟩⟩
  · have hret : Returns qt s a := ⟨w', m', hexec⟩
    rw [hstep]
    rcases a with ⟨F, a⟩
    cases a with
    | readFromHistoryFile rd =>
      rcases readFromHistoryFile_inserted ht hexec with ⟨dl, torrents, m, hread, hin⟩
      refine ⟨hin.tidy, fun ha => (agrees_inserted_iff ha hin).trans ⟨fun h _ => ?_, fun h => ?_⟩⟩
      · intro dl' torrents' m₁ hread'
        rw [hread] at hread'
        cases hread'
        exact h
      · exact h hret dl torrents m hread
    | sendDetails rd drawn now hashSuccType details =>
      have hends := (ends_sendDetails qt rd drawn now hashSuccType details ht).exec_ret hexec
      cases hdup : isDuplicate s.window details.row with
      | true =>
        rw [hdup, if_pos rfl] at hends
        rw [hends]
        refine ⟨ht, fun ha => ⟨fun _ _ hnew => ?_, fun _ => ha⟩⟩
        rw [hdup] at hnew
        cases hnew
      | false =>
        rw [hdup, if_neg Bool.false_ne_true] at hends
        refine ⟨hends.tidy, ?_⟩
        intro ha
        -- no row is taken off beforehand
        have hiff := agrees_inserted_iff (n := 0) ha hends
        rw [List.take_zero, hiddenIds, List.map_nil, List.nil_perm, refusedIds_single] at hiff
        exact hiff.trans ⟨fun h _ _ => h, fun h => h hret hdup⟩
    | removeSelRows ord selected =>
      have hends := (ends_removeSelRows ord selected ht).exec_ret hexec
      exact ⟨hends.1, fun ha => ⟨fun _ _ => trivial, fun _ => hends.2 ha⟩⟩
    | clearOldHistory ord files answer =>
      rcases (ends_clearOldHistory ord files answer ht).exec_ret hexec with
        ⟨htidy, hcache, hclears, hkeeps⟩
      refine ⟨htidy, fun ha => ⟨fun ha' _ h => not_agrees_of_lt ha hcache (hclears h) ha',
        fun h => ?_⟩⟩
      rw [Agrees, hkeeps (h hret), hcache]
      exact ha

/-- Whatever happens to it, the window is tidy. -/
theorem tidy_run (qt : QtTexts) (db : Db) (as : List (Faults Str × WindowAction)) :
    Tidy (as.foldl (Session.step qt) ⟨⟨[], []⟩, db⟩).window :=
  @run_invariant_always _ _ (Session.step qt) (fun s => Tidy s.window)
    (fun s a ht => (step_agrees qt s a ht).1) _ tidy_empty as

end Runs

/-- **The table and the cache list the same downloads exactly in the runs of such
steps**, from the empty window and any database. -/
theorem agrees_iff (qt : QtTexts) (db : Db) (as : List (Faults Str × WindowAction)) :
    EachState (Session.step qt) (fun s => Agrees s.window) ⟨⟨[], []⟩, db⟩ as ↔
      EachStep (Session.step qt) (KeepsAgreement qt) ⟨⟨[], []⟩, db⟩ as :=
  have hempty : Agrees ⟨[], []⟩ := List.Perm.refl []
  have htidy : ∀ (s : Session) a, Tidy s.window → Tidy (s.step qt a).window :=
    fun s a ht => (step_agrees qt s a ht).1
  eachState_iff_eachStep htidy (fun s a ht ha => (step_agrees qt s a ht).2 ha) tidy_empty hempty as

/-- The sample download, completed. -/
def completedDb : Db :=
  (run (modifyCurlItem sampleInfo.fileLoc .completed 9 [] .none [] .notApplicable) sampleDb).2

/-- The history is loaded and cleared. The file of the download is there. -/
def clearedRun : List (Faults Str × WindowAction) :=
  [(Faults.none, .readFromHistoryFile ⟨IterOrder.insertion Entry, 1⟩),
   (Faults.none, .clearOldHistory (IterOrder.insertion Entry) (fun _ => .ok .regular) .apply)]

/-- The cleared row stays in the cache. -/
theorem agrees_cleared :
    hiddenIds (clearedRun.foldl (Session.step plainTexts) ⟨⟨[], []⟩, completedDb⟩).window.vectorList
        = [] ∧
      cachedIds
        (clearedRun.foldl (Session.step plainTexts) ⟨⟨[], []⟩, completedDb⟩).window.gkDlInfoCache =
          [sampleInfo.uniqueId] ∧
      ¬ EachState (Session.step plainTexts) (fun s => Agrees s.window) ⟨⟨[], []⟩, completedDb⟩
        clearedRun := by
  have hrows : hiddenIds
      (clearedRun.foldl (Session.step plainTexts) ⟨⟨[], []⟩, completedDb⟩).window.vectorList =
        [] := by decide +kernel
  have hcache : cachedIds
      (clearedRun.foldl (Session.step plainTexts) ⟨⟨[], []⟩, completedDb⟩).window.gkDlInfoCache =
        [sampleInfo.uniqueId] := by decide +kernel
  refine ⟨hrows, hcache, ?_⟩
  intro h
  have hlast := eachState_iff_prefix.mp h clearedRun (List.prefix_refl _)
  rw [Agrees, hrows, hcache] at hlast
  exact absurd (List.nil_perm.mp hlast) (List.cons_ne_nil _ _)

end FyreDL.Gui
