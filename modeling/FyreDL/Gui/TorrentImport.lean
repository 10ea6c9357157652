import FyreDL.Gui.Startup
import FyreDL.Store.TorrentFileInfo

/-!
# FyreDL.Gui.TorrentImport — from a torrent file to the history

The part of `AddURL::on_buttonBox_accepted` that imports a torrent file. The record is stored
before the window is asked for a row, and the window looks for a duplicate by the magnet URI:
a torrent that is imported twice is stored twice and shown once.

* `showable_withDestination_iff` — exactly when the record of a torrent can be shown again.
* `importTorrent_stores` — what an import makes of the store and of the window.
-/

namespace FyreDL.Gui

open Lib Lib.Kv Csv Store

/-- The default limits of `torrentFileInfo`. -/
def torrentItemLimit : Int := 500000

def torrentDepthLimit : Int := 1000

/-- What the dialog makes of the record. `stem` is `fs::path::stem`. -/
def withDestination (stem : Str → Str) (fileDest : Str) (info : TorrentInfo) : TorrentInfo :=
  { info with
    general :=
      { info.general with
        dlStatus := .stopped
        downDest := fileDest ++ preferredSeparator :: stem info.general.torrentName ++
          [preferredSeparator] } }

/-- The arguments of `sendDetails`. -/
def torrentDetails (info : TorrentInfo) : Details where
  row :=
    { fileName := info.general.torrentName
      fileSize := torrentLength info
      downloaded := 0
      progress := 0
      upSpeed := 0
      downSpeed := 0
      status := .stopped
      url := info.general.magnetUri
      destination := info.general.downDest
      uniqueId := info.general.uniqueId
      downloadType := .torrent }
  hashType := .none
  hashVal := []
  respCode := 0
  statOk := some true
  statMsg := []

/-- A torrent file, with what is answered and drawn while it is imported. -/
structure TorrentRequest where
  lt : Libtorrent
  stem : Str → Str
  csvFile : Str
  fileDest : Str
  file : FileAccess
  uniqueId : Str
  drawn : Str
  now : Int
  rd : Reading
  hashSuccType : HashVerif

/-- The record that the dialog stores. -/
def TorrentRequest.record (request : TorrentRequest) : Except Thrown TorrentInfo :=
  match torrentFileInfo request.lt request.file request.csvFile request.uniqueId
      torrentItemLimit torrentDepthLimit with
  | .error thrown => .error thrown
  | .ok info => .ok (withDestination request.stem request.fileDest info)

/-- The import of a torrent file. The dialog does not catch a bare text, and does not look at
what `addTorrentItem` answers. -/
def importTorrent (qt : QtTexts) (request : TorrentRequest) (w : MainWindow) :
    DbProg MainWindow :=
  match request.record with
  | .error (.exception what) => .warn what (.ret w)
  | .error (.text message) => .throw message
  | .ok info => do
    let _ ← addTorrentItem request.drawn request.now info
    sendDetails qt request.rd request.drawn request.now request.hashSuccType
      (torrentDetails info) w

/-! ## The record -/

/-- The texts of the torrent can be written into cells, and it has trackers and files. -/
structure ShownAt (downDest : Str) (t : LtTorrentInfo) : Prop where
  dest : CleanCell downDest
  trackers : t.trackers ≠ []
  urls : ∀ i ∈ t.trackers, CleanCell i.url
  files : t.files ≠ []
  paths : ∀ st ∈ t.files, CleanCell st.filePath
  hashes : ∀ st ∈ t.files, CleanCell st.hash

/-- The destination of a torrent. -/
def TorrentRequest.downDest (request : TorrentRequest) (t : LtTorrentInfo) : Str :=
  request.fileDest ++ preferredSeparator :: request.stem t.name ++ [preferredSeparator]

section Record

variable {request : TorrentRequest}

theorem record_ok_iff {info : TorrentInfo} :
    request.record = .ok info ↔
      ∃ buf t, Loads request.file buf ∧
        request.lt buf torrentDepthLimit torrentItemLimit = .torrent t ∧
        Recordable torrentItemLimit t ∧
        info = withDestination request.stem request.fileDest
          (torrentRecord request.uniqueId t) := by
  unfold TorrentRequest.record
  constructor
  · intro h
    cases hinfo : torrentFileInfo request.lt request.file request.csvFile request.uniqueId
        torrentItemLimit torrentDepthLimit with
    | error thrown =>
      rw [hinfo] at h
      cases h
    | ok info' =>
      rw [hinfo] at h
      cases h
      rcases torrentFileInfo_ok_iff.mp hinfo with ⟨buf, t, hload, hdecoded, hrecord, rfl⟩
      exact ⟨buf, t, hload, hdecoded, hrecord, rfl⟩
  · rintro ⟨buf, t, hload, hdecoded, hrecord, rfl⟩
    rw [torrentFileInfo_ok_iff.mpr ⟨buf, t, hload, hdecoded, hrecord, rfl⟩]

/-- **What is stored can be shown** exactly if it has trackers and files with clean texts. -/
theorem showable_withDestination_iff (hid : IsCreateId request.uniqueId) {t : LtTorrentInfo} :
    Showable (withDestination request.stem request.fileDest (torrentRecord request.uniqueId t)) ↔
      ShownAt (request.downDest t) t := by
  constructor
  · intro h
    refine ⟨h.dest, ?_, ?_, ?_, ?_, ?_⟩
    · intro hnil
      apply h.trackers
      rw [withDestination, torrentRecord, hnil, List.map_nil]
    · intro i hi
      exact h.urls _ (List.mem_map_of_mem hi)
    · intro hnil
      apply h.files
      rw [withDestination, torrentRecord, hnil, List.map_nil]
    · intro st hst
      exact h.paths _ (List.mem_map_of_mem hst)
    · intro st hst
      exact h.hashes _ (List.mem_map_of_mem hst)
  · intro h
    refine ⟨⟨(cleanCell_of_createId hid).ne_nil, hid.2, h.dest, ?_, ?_, ?_, ?_⟩, ?_, ?_, ?_⟩
    · intro tracker htracker
      rcases List.mem_map.mp htracker with ⟨i, hi, rfl⟩
      exact h.urls i hi
    · intro f hf
      rcases List.mem_map.mp hf with ⟨st, hst, rfl⟩
      exact h.paths st hst
    · change (t.files.length : Int) = (t.files.map (torrentFileOf request.uniqueId)).length
      rw [List.length_map]
    · change (t.trackers.length : Int) = (t.trackers.map _).length
      rw [List.length_map]
    · intro hnil
      exact h.files (List.map_eq_nil_iff.mp hnil)
    · intro hnil
      exact h.trackers (List.map_eq_nil_iff.mp hnil)
    · intro f hf
      rcases List.mem_map.mp hf with ⟨st, hst, rfl⟩
      exact h.hashes st hst

end Record

/-! ## The import -/

/-- What a row makes of the window. -/
structure RowInserted (qt : QtTexts) (row : NewRow) (w w' : MainWindow) : Prop where
  rows : w'.vectorList = (newRowCells qt row).map Prod.snd :: w.vectorList
  caches : Caches row w.gkDlInfoCache w'.gkDlInfoCache
  inserted : Tidy w → Inserted [row.uniqueId] w w'

/-- A duplicate leaves the window as it is. -/
def ShowsRow (qt : QtTexts) (row : NewRow) (w w' : MainWindow) : Prop :=
  if isDuplicate w row then w' = w else RowInserted qt row w w'

/-- The history with one torrent more. -/
def withTorrent (h : History) (now : Int) (info : TorrentInfo) : History :=
  ⟨h.curl, h.torrents ++ [torrentInfoToStore now info]⟩

section Import

variable {s : Db} {h : History} {w : MainWindow} {request : TorrentRequest}

/-- A history is read whole. -/
theorem readersReturn_of_keeps (hkeeps : Keeps s h) {rd : Reading} (hfuel : 2 ≤ rd.fuel) :
    ReadersReturn rd s := by
  have hreads := hkeeps.reads
  constructor
  · rcases hreads.curl rd.ord with ⟨infos, hrun, -⟩
    exact ⟨infos, hrun⟩
  · intro minimalReadout
    cases minimalReadout with
    | true =>
      rcases hreads.general rd.fuel rd.ord with ⟨infos, hrun, -⟩
      exact ⟨infos, hrun⟩
    | false =>
      rcases hreads.torrents (rd.fuel - 2) rd.ord with ⟨infos, hrun, -⟩
      rw [Nat.sub_add_cancel hfuel] at hrun
      exact ⟨infos, hrun⟩

theorem run_insertNewRow (hkeeps : Keeps s h) {rd : Reading} (hfuel : 2 ≤ rd.fuel) (qt : QtTexts)
    (w : MainWindow) (row : NewRow) :
    ∃ w', run (insertNewRow qt rd w row) s = (.ret w', s) ∧ RowInserted qt row w w' := by
  rcases (readersReturn_of_keeps hkeeps hfuel).insertNewRow qt w row with ⟨w', hrun⟩
  rcases (ends_insertNewRow qt rd w row).run_ret hrun with ⟨hrows, hcaches⟩
  exact ⟨w', hrun, hrows, hcaches, fun ht => (ends_inserted qt rd ht row).run_ret hrun⟩

/-- What is stored of a torrent is read, whether it gets a row or not. -/
theorem run_importTorrent (qt : QtTexts) (hkeeps : Keeps s h) {info : TorrentInfo}
    (hrecord : request.record = .ok info)
    (hadmits : h.Admits (.addTorrentItem request.drawn request.now info))
    (hfuel : 2 ≤ request.rd.fuel) :
    ∃ w' s', run (importTorrent qt request w) s = (.ret w', s') ∧
      Keeps s' (withTorrent h request.now info) ∧ ShowsRow qt (torrentDetails info).row w w' := by
  rcases follows_addTorrentItem hkeeps hadmits with ⟨hret, hstored⟩
  rcases run_bind_eq_ret (Prod.ext hret rfl) with ⟨⟨ret, added⟩, s₁, hadd, hpure⟩
  have hs₁ : (run (StoreCall.addTorrentItem request.drawn request.now info).prog s).2 = s₁ :=
    (congrArg Prod.snd hpure).symm
  rw [hs₁] at hstored
  have hprog : importTorrent qt request w = (do
      let _ ← addTorrentItem request.drawn request.now info
      sendDetails qt request.rd request.drawn request.now request.hashSuccType
        (torrentDetails info) w) := by
    unfold importTorrent
    rw [hrecord]
  rw [hprog, run_bind_ret hadd, sendDetails]
  by_cases hdup : isDuplicate w (torrentDetails info).row = true
  · rw [if_pos hdup]
    exact ⟨w, s₁, rfl, hstored, by rw [ShowsRow, if_pos hdup]⟩
  · rw [if_neg hdup]
    rcases run_insertNewRow hstored hfuel qt w (torrentDetails info).row with
      ⟨w', hinsert, hrow⟩
    refine ⟨w', s₁, ?_, hstored, by rwa [ShowsRow, if_neg hdup]⟩
    rw [run_bind_ret hinsert]
    rfl

/-- What is not a record changes nothing. -/
theorem run_importTorrent_refused (qt : QtTexts) {thrown : Thrown}
    (hrecord : request.record = .error thrown) :
    (run (importTorrent qt request w) s = (.ret w, s)) ∨
      ∃ message, thrown = .text message ∧
        run (importTorrent qt request w) s = (.throw message, s) := by
  unfold importTorrent
  rw [hrecord]
  cases thrown with
  | exception what => exact .inl rfl
  | text message => exact .inr ⟨message, rfl, rfl⟩

/-- The file is loaded, decoded and has what a record needs. -/
def Imports (request : TorrentRequest) (t : LtTorrentInfo) : Prop :=
  ∃ buf, Loads request.file buf ∧
    request.lt buf torrentDepthLimit torrentItemLimit = .torrent t ∧ Recordable torrentItemLimit t

/-- The record that is stored of a torrent. -/
def TorrentRequest.stored (request : TorrentRequest) (t : LtTorrentInfo) : TorrentInfo :=
  withDestination request.stem request.fileDest (torrentRecord request.uniqueId t)

/-- **The import** of a torrent file. Either it is a torrent that makes a record: then the store
has the history with that record, and the window gets the row unless it is a duplicate. Or the
store and the window are left as they are. -/
theorem importTorrent_stores (qt : QtTexts) (hkeeps : Keeps s h)
    (hid : IsCreateId request.uniqueId) (hfresh : request.uniqueId ∉ h.entries.map Prod.fst)
    (hfuel : 2 ≤ request.rd.fuel)
    (hshown : ∀ t, Imports request t → ShownAt (request.downDest t) t) :
    (∃ t w' s', Imports request t ∧ run (importTorrent qt request w) s = (.ret w', s') ∧
        Reads s' (withTorrent h request.now (request.stored t)) ∧
        ShowsRow qt (torrentDetails (request.stored t)).row w w') ∨
      ((¬ ∃ t, Imports request t) ∧ (run (importTorrent qt request w) s).2 = s ∧
        ∀ w', (run (importTorrent qt request w) s).1 = .ret w' → w' = w) := by
  cases hrecord : request.record with
  | ok info =>
    rcases record_ok_iff.mp hrecord with ⟨buf, t, hload, hdecoded, hmakes, rfl⟩
    have himports : Imports request t := ⟨buf, hload, hdecoded, hmakes⟩
    have hshowable : Showable (request.stored t) :=
      (showable_withDestination_iff hid).mpr (hshown t himports)
    rcases run_importTorrent (w := w) qt hkeeps hrecord ⟨hid, hfresh, hshowable⟩ hfuel with
      ⟨w', s', hrun, hstored, hrow⟩
    exact .inl ⟨t, w', s', himports, hrun, hstored.reads, hrow⟩
  | error thrown =>
    have hnone : ¬ ∃ t, Imports request t := by
      rintro ⟨t, buf, hload, hdecoded, hmakes⟩
      rw [record_ok_iff.mpr ⟨buf, t, hload, hdecoded, hmakes, rfl⟩] at hrecord
      cases hrecord
    rcases run_importTorrent_refused (s := s) (w := w) qt hrecord with
      hrun | ⟨message, -, hrun⟩
    · rw [hrun]
      refine .inr ⟨hnone, rfl, ?_⟩
      intro w' hret
      cases hret
      rfl
    · rw [hrun]
      refine .inr ⟨hnone, rfl, ?_⟩
      intro w' hret
      cases hret

end Import

/-- A torrent with a tracker and a file. -/
def sampleLtTorrent : LtTorrentInfo where
  trackers := [⟨"udp://a".toList, 0⟩]
  numPieces := 2
  pieceLength := 16384
  name := "t".toList
  comment := []
  creator := []
  magnetUri := "magnet:?xt=t".toList
  files := [⟨List.replicate 20 '0', "t/a.iso".toList, 0, 20000, 0, 0, fun offset => offset / 16384⟩]

/-- A file of three bytes that is decoded to that torrent. -/
def sampleRequest (digit : Char) : TorrentRequest where
  lt := fun _ _ _ => .torrent sampleLtTorrent
  stem := id
  csvFile := "t.torrent".toList
  fileDest := "/dl".toList
  file := ⟨true, 0, 3, 0, "d1e".toList⟩
  uniqueId := sampleId digit
  drawn := sampleId '9'
  now := 8
  rd := ⟨IterOrder.insertion Entry, 2⟩
  hashSuccType := .notApplicable

theorem sampleRequest_imports (digit : Char) : Imports (sampleRequest digit) sampleLtTorrent :=
  ⟨"d1e".toList, ⟨rfl, rfl, rfl, rfl, (by decide : (3 : Int) ≤ torrentFileLimit), rfl⟩, rfl,
    ⟨by decide, by decide, by decide, by decide, by decide⟩⟩

theorem sampleRequest_shown (digit : Char) {t : LtTorrentInfo}
    (h : Imports (sampleRequest digit) t) : ShownAt ((sampleRequest digit).downDest t) t := by
  rcases h with ⟨buf, -, hdecoded, -⟩
  cases hdecoded
  have hdest : CleanCell "/dl/t/".toList := by decide
  exact ⟨hdest, by decide, by decide, by decide, by decide, by decide⟩

/-- The first torrent of an empty store. -/
theorem importTorrent_stores_sample :
    ∃ w' s', run (importTorrent plainTexts (sampleRequest '1') ⟨[], []⟩) emptyDb = (.ret w', s') ∧
      Reads s' (withTorrent History.empty 8 ((sampleRequest '1').stored sampleLtTorrent)) ∧
      ShowsRow plainTexts (torrentDetails ((sampleRequest '1').stored sampleLtTorrent)).row
        ⟨[], []⟩ w' := by
  rcases @importTorrent_stores emptyDb History.empty ⟨[], []⟩ (sampleRequest '1') plainTexts
    keeps_empty (by decide) (by decide) (Nat.le_refl 2) (fun _ => sampleRequest_shown '1') with
    ⟨t, w', s', ⟨buf, -, hdecoded, -⟩, hrun, hreads, hrow⟩ | ⟨hnone, -⟩
  · cases hdecoded
    exact ⟨w', s', hrun, hreads, hrow⟩
  · exact absurd ⟨sampleLtTorrent, sampleRequest_imports '1'⟩ hnone

end FyreDL.Gui
