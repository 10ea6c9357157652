import FyreDL.Gui.Statistics

/-!
# FyreDL.Gui.NewDownload — what the cache has of a download that was just added

`sendDetails` inserts the row before it stores the record. `initCharts`, in the middle of
the insertion, fills the entry of the cache from the store, which does not have the record
yet, and nothing fills it afterwards.

* `sendDetails_unsized` — hence the entry of a new id has neither the record nor the size of
  the download, in whatever state it is added.
-/

namespace FyreDL.Gui

open Lib Lib.Kv Store

/-- The id is in neither of the two lists that `initCharts` looks at. -/
def FreshId (w : MainWindow) (s : Db) (id : Str) : Prop :=
  id ∉ cachedIds w.gkDlInfoCache ∧
    ∀ entries s', run (extractDownloadIds false) s = (.ret entries, s') →
      id ∉ entries.map Prod.fst

/-- The entry of the id has the record that is stored, and its size. -/
def KnowsSize (w : MainWindow) (s : Db) (row : NewRow) : Prop :=
  ∃ info ∈ w.gkDlInfoCache, info.uniqueId = row.uniqueId ∧
    info.curlInfo = some (storedRecord s (row.uniqueId, row.destination, false)) ∧
    (initStats info).contentLength = some row.fileSize

/-- The entry of the id has no record and no size. -/
def Unsized (id : Str) (cache : List DownloadInfo) : Prop :=
  ∀ info ∈ cache, info.uniqueId = id →
    info.curlInfo = none ∧ (initStats info).contentLength = none

section NewDownload

variable {w w' : MainWindow} {s s' : Db}

theorem unsized_of_notMem {id : Str} {cache : List DownloadInfo} (h : id ∉ cachedIds cache) :
    Unsized id cache := fun _ hinfo hid => absurd (hid ▸ List.mem_map_of_mem hinfo) h

/-- No record of a fresh id is read. -/
theorem FreshId.not_read {id : Str} (h : FreshId w s id) {ord : IterOrder Entry}
    {records : List CurlDlInfo} (hread : run (readCurlItems ord) s = (.ret records, s')) :
    records.find? (fun info => info.uniqueId = id) = none := by
  refine List.find?_eq_none.mpr fun info hinfo hid => ?_
  rcases readCurlItems_mem hread hinfo with ⟨entries, e, hextract, -, he, -, rfl⟩
  refine h.2 entries s hextract ?_
  rw [← of_decide_eq_true hid]
  exact List.mem_map_of_mem he

/-- `initCharts` caches a fresh HTTP/FTP download without a record. -/
theorem initCharts_unsized {rd : Reading} {id downDest : Str} {downloadType : DownloadType}
    {cache : List DownloadInfo} (h : FreshId w s id)
    (htype : downloadType = .http ∨ downloadType = .ftp)
    (hrun : run (initCharts rd id downDest downloadType w.gkDlInfoCache) s = (.ret cache, s')) :
    Unsized id cache := by
  rw [initCharts, if_pos htype] at hrun
  split at hrun
  · split at hrun
    · cases hrun
    · rcases run_bind_eq_ret hrun with ⟨records, s₁, hread, hpure⟩
      dsimp only at hpure
      rw [h.not_read hread] at hpure
      cases hpure
      intro info hinfo hid
      rcases List.mem_append.mp hinfo with hold | hnew
      · exact unsized_of_notMem h.1 info hold hid
      · rw [List.mem_singleton.mp hnew]
        exact ⟨rfl, rfl⟩
  · cases hrun

/-- The row is inserted with such an entry, or without one. -/
theorem insertNewRow_unsized {qt : QtTexts} {rd : Reading} {row : NewRow}
    (h : FreshId w s row.uniqueId) (htype : row.downloadType = .http ∨ row.downloadType = .ftp)
    (hrun : run (insertNewRow qt rd w row) s = (.ret w', s')) :
    Unsized row.uniqueId w'.gkDlInfoCache := by
  rw [insertNewRow, insertNewCells_eq] at hrun
  rcases run_tryCatch_eq_ret hrun with hinit | ⟨e, s₁, -, hkept⟩
  · rcases run_bind_eq_ret hinit with ⟨cache, s₁, hcache, hpure⟩
    cases hpure
    exact initCharts_unsized h htype hcache
  · cases hkept
    exact unsized_of_notMem h.1

end NewDownload

/-- **A new download does not know its size.** Whatever the state: once a download with a
fresh id is added, its entry has no record and no content length. -/
theorem sendDetails_unsized (qt : QtTexts) (rd : Reading) (drawn : Str) (now : Int)
    (hashSuccType : HashVerif) (details : Details) (w w' : MainWindow) (s s' : Db)
    (htype : details.row.downloadType = .http ∨ details.row.downloadType = .ftp)
    (hnew : isDuplicate w details.row = false) (hfresh : FreshId w s details.row.uniqueId)
    (hrun : run (sendDetails qt rd drawn now hashSuccType details w) s = (.ret w', s')) :
    Unsized details.row.uniqueId w'.gkDlInfoCache ∧ ¬ KnowsSize w' s' details.row := by
  have hunsized : Unsized details.row.uniqueId w'.gkDlInfoCache := by
    rw [sendDetails, hnew, if_neg Bool.false_ne_true] at hrun
    rcases run_bind_eq_ret hrun with ⟨w₁, s₁, hinsert, hrest⟩
    -- the record is stored behind the row, and the window is returned as it is
    rw [if_pos htype] at hrest
    rcases run_bind_eq_ret hrest with ⟨_, s₂, -, hpure⟩
    cases hpure
    exact insertNewRow_unsized hfresh htype hinsert
  refine ⟨hunsized, ?_⟩
  rintro ⟨info, hinfo, hid, hrecord, -⟩
  rw [(hunsized info hinfo hid).1] at hrecord
  cases hrecord

/-- A stopped download of ten bytes. -/
def sampleDetails : Details where
  row := { sampleRow (sampleId '1') with fileSize := 10 }
  hashType := .none
  hashVal := []
  respCode := 200
  statOk := some true
  statMsg := []

/-- The empty window, after the download is added to it and to the empty store. -/
def sampleAdded : DbProg MainWindow :=
  sendDetails plainTexts ⟨IterOrder.insertion Entry, 1⟩ [] 7 .notApplicable sampleDetails ⟨[], []⟩

theorem sampleDetails_fresh : FreshId ⟨[], []⟩ emptyDb (sampleId '1') := by
  refine ⟨List.not_mem_nil, ?_⟩
  intro entries s' hextract
  have hnone : (run (extractDownloadIds false) emptyDb).1 = .ret [] := by decide +kernel
  rw [hextract] at hnone
  cases hnone
  exact List.not_mem_nil

theorem sampleAdded_ret : ∃ w', run sampleAdded emptyDb = (.ret w', (run sampleAdded emptyDb).2) ∧
    w'.gkDlInfoCache = [⟨.http, sampleInfo.fileLoc, sampleId '1', none, none⟩] := by
  refine ⟨⟨[(newRowCells plainTexts sampleDetails.row).map Prod.snd],
    [⟨.http, sampleInfo.fileLoc, sampleId '1', none, none⟩]⟩, Prod.ext ?_ rfl, rfl⟩
  decide +kernel

/-- The sample download is such a download. -/
theorem sendDetails_unsized_sample :
    isDuplicate ⟨[], []⟩ sampleDetails.row = false ∧ FreshId ⟨[], []⟩ emptyDb (sampleId '1') ∧
      ∃ w', run sampleAdded emptyDb = (.ret w', (run sampleAdded emptyDb).2) ∧
        Unsized (sampleId '1') w'.gkDlInfoCache ∧
        ¬ KnowsSize w' (run sampleAdded emptyDb).2 sampleDetails.row := by
  rcases sampleAdded_ret with ⟨w', hrun, -⟩
  refine ⟨rfl, sampleDetails_fresh, w', hrun, ?_⟩
  exact sendDetails_unsized plainTexts _ [] 7 .notApplicable sampleDetails ⟨[], []⟩ w' emptyDb _
    (.inl rfl) rfl sampleDetails_fresh hrun

/-- It is stored with its size and cached without it. -/
theorem sampleAdded_size :
    ∃ w', run sampleAdded emptyDb = (.ret w', (run sampleAdded emptyDb).2) ∧
      (storedRecord (run sampleAdded emptyDb).2
        (sampleId '1', sampleInfo.fileLoc, false)).extInfo.contentLength = 10 ∧
      ¬ KnowsSize w' (run sampleAdded emptyDb).2 sampleDetails.row := by
  rcases sampleAdded_ret with ⟨w', hrun, hcache⟩
  refine ⟨w', hrun, by decide +kernel, ?_⟩
  rintro ⟨info, hinfo, -, hrecord, -⟩
  rw [hcache] at hinfo
  rw [List.mem_singleton.mp hinfo] at hrecord
  cases hrecord

end FyreDL.Gui
