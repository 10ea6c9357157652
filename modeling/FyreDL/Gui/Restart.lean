import FyreDL.Gui.TorrentImport

/-!
# FyreDL.Gui.Restart — the window shows what a restart would show

The window is not loaded again while the program runs: a row is inserted where a download is
added, and removed where one is deleted. After a restart the rows are those of the history.

* `Shelf` — the window, the database, and the history that the database has.
* `run_restart` — which downloads the history is loaded with.
* `shows_iff` — the runs in which the window shows at all times what a restart would show. An
  addition has to be stored and shown, or neither; a removal has to be that of an HTTP/FTP
  download, the first one at its path, while no torrent is in the list.
-/

namespace FyreDL.Gui

open Lib Lib.Kv Csv Store

/-! ## What a restart shows -/

/-- The ids of the downloads that have a row when the history is loaded. -/
def shownIds (h : History) : List Str := loadedCurlIds h.curl ++ loadedTorrentIds h.torrents

section Loading

variable {s : Db} {h : History}

/-- A torrent has its row for what it is, whatever is read of its files. -/
theorem loadedTorrentIds_readBack (infos : List TorrentInfo) :
    loadedTorrentIds (infos.map fun t => { readBackTorrent t with filesVec := [] }) =
      loadedTorrentIds infos := by
  rw [loadedTorrentIds, List.filter_map, List.map_map]
  rfl

theorem shownIds_sublist (h : History) : (shownIds h).Sublist (h.entries.map Prod.fst) := by
  rw [History.entries, List.map_append, List.map_map, List.map_map]
  exact (List.filter_sublist.map _).append (List.filter_sublist.map _)

/-- The history is loaded into an empty window. -/
theorem run_restart (hkeeps : Keeps s h) (qt : QtTexts) {rd : Reading} (hfuel : 2 ≤ rd.fuel) :
    ∃ w, run (readFromHistoryFile qt rd ⟨[], []⟩) s = (.ret w, s) ∧
      (hiddenIds w.vectorList).Perm (shownIds h) := by
  have hreturn := readersReturn_of_keeps hkeeps hfuel
  rcases hkeeps.reads.curl rd.ord with ⟨records, hcurl, hrecords⟩
  rcases hkeeps.reads.general rd.fuel rd.ord with ⟨torrents, hgeneral, htorrents⟩
  have hread : run (readHistory rd) s = (.ret (records, torrents), s) := by
    rw [readHistory, run_bind_ret hcurl, run_bind_ret hgeneral]
    rfl
  have hpaths : ∀ info ∈ records, info.fileLoc ≠ [] := by
    intro info hinfo
    have hin : curlEntry info ∈ h.entries :=
      List.mem_append_left _ (List.mem_map_of_mem (hrecords.mem_iff.mp hinfo))
    exact (hkeeps.clean _ hin).path.ne_nil
  have hempty : removeRows [] 0 records.length = [] :=
    List.sublist_nil.mp (removeRows_sublist [] 0 records.length)
  rcases hreturn.loadCurlItems qt ⟨[], []⟩ hpaths with ⟨w₁, hload⟩
  rcases hreturn.loadTorrentItems qt w₁ torrents with ⟨w₂, hload'⟩
  have hrest : run (do
      let w ← loadCurlItems qt rd ⟨[], []⟩ records
      loadTorrentItems qt rd w torrents) s = (.ret w₂, s) := by
    rw [run_bind_ret hload, hload']
  have hinserted := (ends_readHistory_rest qt rd records torrents tidy_empty).run_ret hrest
  refine ⟨w₂, ?_, ?_⟩
  · rw [readFromHistoryFile, run_bind_ret hread]
    dsimp only
    rw [hempty]
    exact hrest
  · rw [hinserted.hidden, hiddenIds, List.map_nil, List.append_nil]
    refine (List.reverse_perm _).trans ?_
    have hback := htorrents.filter fun info => info.general.downDest ≠ [] ∧ torrentLength info > 0
    have hcurls : (loadedCurlIds records).Perm (loadedCurlIds h.curl) := (hrecords.filter _).map _
    have hloaded : (loadedTorrentIds torrents).Perm (loadedTorrentIds h.torrents) := by
      rw [← loadedTorrentIds_readBack h.torrents]
      exact hback.map _
    exact hcurls.append hloaded

end Loading

/-! ## Actions -/

/-- The window, the database, and the history that the database has. -/
structure Shelf where
  window : MainWindow
  db : Db
  history : History

/-- What adds and removes downloads, and the change of a status in between. -/
inductive ShelfAction where
  | importTorrent (request : TorrentRequest)
  | sendDetails (rd : Reading) (drawn : Str) (now : Int) (hashSuccType : HashVerif)
      (details : Details)
  | removeSelRows (ord : IterOrder Entry) (selected : Option Nat)
  | modifyCurlItem (fileLoc : Str) (status : DownloadStatus) (compltTimestamp : Int)
      (hashGiven : Str) (hashType : HashType) (hashRtrnd : Str) (retSuccType : HashVerif)

def ShelfAction.prog (qt : QtTexts) (w : MainWindow) : ShelfAction → DbProg MainWindow
  | .importTorrent request => FyreDL.Gui.importTorrent qt request w
  | .sendDetails rd drawn now hashSuccType details =>
    FyreDL.Gui.sendDetails qt rd drawn now hashSuccType details w
  | .removeSelRows ord selected => FyreDL.Gui.removeSelRows ord selected w
  | .modifyCurlItem fileLoc status compltTimestamp hashGiven hashType hashRtrnd retSuccType => do
    let _ ← FyreDL.Store.modifyCurlItem fileLoc status compltTimestamp hashGiven hashType
      hashRtrnd retSuccType
    pure w

/-- The selected row. -/
def selectedCells (w : MainWindow) (selected : Option Nat) : Option (List Str) :=
  selected.bind fun row => w.vectorList[row]?

/-- The destination and the id of a row. -/
def destinationOf (cells : List Str) : Str := cells.getD mnDestinationCol []

def idOf (cells : List Str) : Str := cells.getD mnHiddenUniqueId []

/-- What a removal asks of the store. -/
def removalCalls (ord : IterOrder Entry) (cells : List Str) : Option DownloadInfo → List StoreCall
  | none => []
  | some item =>
    if item.dlType = .http ∨ item.dlType = .ftp then [.delCurlItem ord (destinationOf cells) []]
    else [.delTorrentItem item.uniqueId]

/-- What an action asks of the store. -/
def ShelfAction.calls (w : MainWindow) : ShelfAction → List StoreCall
  | .importTorrent request =>
    match request.record with
    | .ok info => [.addTorrentItem request.drawn request.now info]
    | .error _ => []
  | .sendDetails _ drawn now hashSuccType details =>
    if isDuplicate w details.row then [] else [.addCurlItem drawn now (details.info hashSuccType)]
  | .removeSelRows ord selected =>
    match selectedCells w selected with
    | some cells => removalCalls ord cells (cachedFor w.gkDlInfoCache cells)
    | none => []
  | .modifyCurlItem fileLoc status compltTimestamp hashGiven hashType hashRtrnd retSuccType =>
    [.modifyCurlItem fileLoc status compltTimestamp hashGiven hashType hashRtrnd retSuccType]

/-- The history behind the calls of an action. -/
def Shelf.after (s : Shelf) (a : ShelfAction) : History :=
  (a.calls s.window).foldl (behind historyStep) s.history

/-- The state after an action. One that does not return leaves the window as it is. -/
def Shelf.step (qt : QtTexts) (s : Shelf) (a : ShelfAction) : Shelf :=
  match run (a.prog qt s.window) s.db with
  | (.ret w, db) => ⟨w, db, s.after a⟩
  | (_, db) => ⟨s.window, db, s.after a⟩

/-- The readers have the fuel for a torrent, and what is sent from elsewhere is no torrent. -/
def ShelfAction.Sound : ShelfAction → Prop
  | .importTorrent request => 2 ≤ request.rd.fuel
  | .sendDetails rd _ _ _ details =>
    2 ≤ rd.fuel ∧ (details.row.downloadType = .http ∨ details.row.downloadType = .ftp)
  | .removeSelRows _ _ => True
  | .modifyCurlItem _ _ _ _ _ _ _ => True

/-- What a caller sees to: new ids are drawn, and the store can carry what is added. -/
structure Admitted (s : Shelf) (a : ShelfAction) : Prop where
  calls : ∀ c ∈ a.calls s.window, s.history.Admits c
  sound : a.Sound

/-- The window shows what it would show after a restart. -/
def ShowsRestart (qt : QtTexts) (s : Shelf) : Prop :=
  ∀ rd : Reading, 2 ≤ rd.fuel → ∃ w,
    run (readFromHistoryFile qt rd ⟨[], []⟩) s.db = (.ret w, s.db) ∧
      (hiddenIds w.vectorList).Perm (hiddenIds s.window.vectorList)

/-- The action keeps the window and the history in step. -/
def KeepsInStep (s : Shelf) : ShelfAction → Prop
  | .importTorrent request => ∀ info, request.record = .ok info →
      (isDuplicate s.window (torrentDetails info).row = false ↔ 0 < torrentLength info)
  | .sendDetails _ _ _ hashSuccType details => isDuplicate s.window details.row = false →
      CurlDlInfo.accepted (details.info hashSuccType) ∧ 0 < details.row.fileSize
  | .removeSelRows _ selected => ∀ cells, selectedCells s.window selected = some cells →
      idOf cells ∈ s.history.curl.map CurlDlInfo.uniqueId ∧
        s.history.idAt (destinationOf cells) = some (idOf cells) ∧
        loadedTorrentIds s.history.torrents = []
  | .modifyCurlItem _ _ _ _ _ _ _ => True

/-! ## What an action does -/

/-- The cache without the first entry of an id. -/
def dropCached (cache : List DownloadInfo) (id : Str) : List DownloadInfo :=
  cache.eraseP fun info => info.uniqueId = id

/-- What an action makes of the window. -/
def Effect (qt : QtTexts) (w w' : MainWindow) : ShelfAction → Prop
  | .importTorrent request =>
    (∀ info, request.record = .ok info → ShowsRow qt (torrentDetails info).row w w') ∧
      ∀ thrown, request.record = .error thrown → w' = w
  | .sendDetails _ _ _ _ details => ShowsRow qt details.row w w'
  | .removeSelRows _ selected =>
    (selectedCells w selected = none → w' = w) ∧
      ∀ row cells, selected = some row → w.vectorList[row]? = some cells →
        w' = ⟨removeRows w.vectorList row 1, dropCached w.gkDlInfoCache (idOf cells)⟩
  | .modifyCurlItem _ _ _ _ _ _ _ => w' = w

/-- The store after the loop over the cache, if `s'` is the one without the download. -/
def storeLeft (s s' : Db) : Option DownloadInfo → Db
  | some item => if item.dlType = .http ∨ item.dlType = .ftp then s' else s
  | none => s

section Effects

variable {s : Db} {h : History} {w : MainWindow}

/-- The HTTP/FTP download of the first entry with the id is deleted, and the entry dropped. -/
theorem run_eraseCached {ord : IterOrder Entry} {fileDest : Str} {b : Bool} {s' : Db}
    (hdel : run (delCurlItem ord fileDest []) s = (.ret b, s')) (id : Str)
    (cache : List DownloadInfo) :
    run (eraseCached ord fileDest id cache) s =
      (.ret (dropCached cache id),
        storeLeft s s' (cache.find? fun info => info.uniqueId = id)) := by
  induction cache with
  | nil => rfl
  | cons info cache ih =>
    rw [eraseCached]
    by_cases hid : info.uniqueId = id
    · have hdrop : dropCached (info :: cache) id = cache :=
        List.eraseP_cons_of_pos (decide_eq_true hid)
      have hfind : ((info :: cache).find? fun info => info.uniqueId = id) = some info :=
        List.find?_cons_of_pos (decide_eq_true hid)
      rw [if_pos hid, hdrop, hfind, storeLeft]
      by_cases hcurl : info.dlType = .http ∨ info.dlType = .ftp
      · rw [if_pos hcurl, if_pos hcurl, run_bind_ret hdel]
        rfl
      · rw [if_neg hcurl, if_neg hcurl]
        rfl
    · have hnot : ¬ decide (info.uniqueId = id) = true := fun htrue => hid (of_decide_eq_true htrue)
      have hdrop : dropCached (info :: cache) id = info :: dropCached cache id :=
        List.eraseP_cons_of_neg hnot
      have hfind : ((info :: cache).find? fun info => info.uniqueId = id) =
          cache.find? fun info => info.uniqueId = id := List.find?_cons_of_neg hnot
      rw [if_neg hid, run_bind_ret ih, hdrop, hfind]
      rfl

theorem run_sendDetails (hkeeps : Keeps s h) (qt : QtTexts) {rd : Reading} {drawn : Str}
    {now : Int} {hashSuccType : HashVerif} {details : Details} (hfuel : 2 ≤ rd.fuel)
    (htype : details.row.downloadType = .http ∨ details.row.downloadType = .ftp)
    (hadmits : isDuplicate w details.row = false →
      h.Admits (.addCurlItem drawn now (details.info hashSuccType))) :
    ∃ w' s', run (sendDetails qt rd drawn now hashSuccType details w) s = (.ret w', s') ∧
      Keeps s' (((ShelfAction.sendDetails rd drawn now hashSuccType details).calls w).foldl
        (behind historyStep) h) ∧ ShowsRow qt details.row w w' := by
  rw [sendDetails, ShelfAction.calls]
  by_cases hdup : isDuplicate w details.row = true
  · rw [if_pos hdup, if_pos hdup]
    exact ⟨w, s, rfl, hkeeps, by rw [ShowsRow, if_pos hdup]⟩
  · rw [if_neg hdup, if_neg hdup]
    rcases run_insertNewRow hkeeps hfuel qt w details.row with ⟨w', hinsert, hrow⟩
    rcases follows_addCurlItem hkeeps (hadmits ((Bool.not_eq_true _).mp hdup)) with ⟨hret, hstored⟩
    rcases run_bind_eq_ret (Prod.ext hret rfl) with ⟨⟨ret, added⟩, s₁, hadd, hpure⟩
    have hs₁ : (run (StoreCall.addCurlItem drawn now (details.info hashSuccType)).prog s).2 = s₁ :=
      (congrArg Prod.snd hpure).symm
    rw [hs₁] at hstored
    refine ⟨w', s₁, ?_, hstored, by rwa [ShowsRow, if_neg hdup]⟩
    rw [run_bind_ret hinsert, if_pos htype, run_bind_ret hadd]
    rfl

/-- The history follows the loop over the cache. -/
theorem keeps_storeLeft (hkeeps : Keeps s h) {ord : IterOrder Entry} {cells : List Str} {s' : Db}
    (hdeleted : Keeps s' (h.step (.delCurlItem ord (destinationOf cells) [])).2)
    (item : Option DownloadInfo) :
    Keeps (storeLeft s s' item) ((removalCalls ord cells item).foldl (behind historyStep) h) := by
  cases item with
  | none => exact hkeeps
  | some item =>
    rw [storeLeft, removalCalls]
    split
    · exact hdeleted
    · exact hkeeps

/-- A row that is there is removed, and its entry dropped. Without one nothing is removed. -/
theorem run_removeSelRows (hkeeps : Keeps s h) (ht : Tidy w) (ord : IterOrder Entry)
    (selected : Option Nat) (qt : QtTexts) :
    ∃ w' s', run (removeSelRows ord selected w) s = (.ret w', s') ∧
      Keeps s' (((ShelfAction.removeSelRows ord selected).calls w).foldl (behind historyStep) h) ∧
      Effect qt w w' (.removeSelRows ord selected) := by
  cases selected with
  | none =>
    refine ⟨w, s, rfl, hkeeps, fun _ => rfl, ?_⟩
    intro row cells hnone
    cases hnone
  | some row =>
    have hloop : ∀ {fileDest id : Str} {b : Bool} {s' : Db},
        run (delCurlItem ord fileDest []) s = (.ret b, s') →
        textAt w.vectorList row mnDestinationCol = .ret fileDest →
        textAt w.vectorList row mnHiddenUniqueId = .ret id →
        run (removeSelRows ord (some row) w) s =
          (.ret ⟨removeRows w.vectorList row 1, dropCached w.gkDlInfoCache id⟩,
            storeLeft s s' (w.gkDlInfoCache.find? fun info => info.uniqueId = id)) := by
      intro fileDest id b s' hdel hdest hid
      rw [removeSelRows, hdest, hid]
      apply run_tryCatch_ret
      rw [Prog.ret_bind, Prog.ret_bind, run_bind_ret (run_eraseCached hdel id w.gkDlInfoCache)]
      rfl
    cases hrow : w.vectorList[row]? with
    | some cells =>
      have hcells : selectedCells w (some row) = some cells := hrow
      have hlength : cells.length = mnColCount := ht.complete cells (List.mem_of_getElem? hrow)
      rcases follows_delCurlItem hkeeps ord (destinationOf cells) [] with ⟨hret, hdeleted⟩
      have hrun := hloop (Prod.ext hret rfl) (textAt_eq hrow hlength (by decide))
        (textAt_eq hrow hlength (by decide))
      refine ⟨_, _, hrun, ?_, ?_, ?_⟩
      · rw [ShelfAction.calls, hcells]
        exact keeps_storeLeft hkeeps hdeleted _
      · intro hnone
        rw [hcells] at hnone
        cases hnone
      · intro row' cells' hselected hrow'
        cases hselected
        rw [hrow] at hrow'
        cases hrow'
        rfl
    | none =>
      -- the empty id is not in the cache
      have hcells : selectedCells w (some row) = none := hrow
      have hge : w.vectorList.length ≤ row := List.getElem?_eq_none_iff.mp hrow
      have hremove : removeRows w.vectorList row 1 = w.vectorList := by
        rw [removeRows_eq, List.take_of_length_le hge,
          List.drop_eq_nil_of_le (Nat.le_add_right_of_le hge), List.append_nil]
      have hnot : ∀ info ∈ w.gkDlInfoCache, ¬ decide (info.uniqueId = []) = true := by
        intro info hinfo htrue
        exact ht.named (of_decide_eq_true htrue ▸ List.mem_map_of_mem hinfo)
      rcases follows_delCurlItem hkeeps ord [] [] with ⟨hret, -⟩
      have hrun := hloop (Prod.ext hret rfl) (textAt_missing hge _) (textAt_missing hge _)
      rw [hremove, dropCached, List.eraseP_of_forall_not hnot, List.find?_eq_none.mpr hnot] at hrun
      refine ⟨w, s, hrun, ?_, fun _ => rfl, ?_⟩
      · rw [ShelfAction.calls, hcells]
        exact hkeeps
      · intro row' cells' hselected hrow'
        cases hselected
        rw [hrow] at hrow'
        cases hrow'

/-- **One action**: the store has the history behind it, and the window is what it makes of it. -/
theorem step_effect {s : Shelf} (qt : QtTexts) (hkeeps : Keeps s.db s.history)
    (ht : Tidy s.window) {a : ShelfAction} (hadmitted : Admitted s a) :
    Keeps (s.step qt a).db (s.step qt a).history ∧ (s.step qt a).history = s.after a ∧
      Effect qt s.window (s.step qt a).window a := by
  rcases hadmitted with ⟨hcalls, hsound⟩
  have hstep : ∀ {w' db'}, run (a.prog qt s.window) s.db = (.ret w', db') →
      s.step qt a = ⟨w', db', s.after a⟩ := by
    intro w' db' hrun
    rw [Shelf.step, hrun]
  cases a with
  | importTorrent request =>
    cases hrecord : request.record with
    | ok info =>
      have hone : ShelfAction.calls s.window (.importTorrent request) =
          [.addTorrentItem request.drawn request.now info] := by
        rw [ShelfAction.calls, hrecord]
      rw [hone] at hcalls
      rcases run_importTorrent (w := s.window) qt hkeeps hrecord
        (hcalls _ List.mem_cons_self) hsound with ⟨w', db', hrun, hstored, hrow⟩
      rw [hstep hrun]
      refine ⟨?_, rfl, ?_, ?_⟩
      · rw [Shelf.after, hone]
        exact hstored
      · intro info' hinfo'
        cases hrecord.symm.trans hinfo'
        exact hrow
      · intro thrown hthrown
        cases hrecord.symm.trans hthrown
    | error thrown =>
      have hnone : s.after (.importTorrent request) = s.history := by
        rw [Shelf.after, ShelfAction.calls, hrecord]
        rfl
      have hsame : s.step qt (.importTorrent request) = ⟨s.window, s.db, s.history⟩ := by
        rcases run_importTorrent_refused (s := s.db) (w := s.window) qt hrecord with
          hrun | ⟨message, -, hrun⟩
        · rw [hstep hrun, hnone]
        · rw [Shelf.step, ShelfAction.prog, hrun, hnone]
      rw [hsame, hnone]
      refine ⟨hkeeps, rfl, ?_, fun _ _ => rfl⟩
      intro info hinfo
      cases hrecord.symm.trans hinfo
  | sendDetails rd drawn now hashSuccType details =>
    have hadmits : isDuplicate s.window details.row = false →
        s.history.Admits (.addCurlItem drawn now (details.info hashSuccType)) := by
      intro hdup
      apply hcalls
      rw [ShelfAction.calls, hdup, if_neg Bool.false_ne_true]
      exact List.mem_cons_self
    rcases run_sendDetails hkeeps qt hsound.1 hsound.2 hadmits with
      ⟨w', db', hrun, hstored, hrow⟩
    rw [hstep hrun]
    exact ⟨hstored, rfl, hrow⟩
  | removeSelRows ord selected =>
    rcases run_removeSelRows hkeeps ht ord selected qt with ⟨w', db', hrun, hstored, heffect⟩
    rw [hstep hrun]
    exact ⟨hstored, rfl, heffect⟩
  | modifyCurlItem fileLoc status compltTimestamp hashGiven hashType hashRtrnd retSuccType =>
    rcases follows_modifyCurlItem hkeeps fileLoc status compltTimestamp hashGiven hashType
      hashRtrnd retSuccType with ⟨hret, hstored⟩
    rw [hstep (run_bind_ret (Prod.ext hret rfl) _)]
    exact ⟨hstored, rfl, rfl⟩

end Effects

/-! ## In step -/

/-- The rows are the downloads that a restart shows. -/
def InStep (s : Shelf) : Prop := (hiddenIds s.window.vectorList).Perm (shownIds s.history)

/-- The cache knows which downloads are HTTP/FTP downloads. -/
def Typed (cache : List DownloadInfo) (h : History) : Prop :=
  ∀ info ∈ cache, (info.dlType = .http ∨ info.dlType = .ftp) ↔
    info.uniqueId ∈ h.curl.map CurlDlInfo.uniqueId

/-- What holds while the window and the history are in step. -/
structure Settles (s : Shelf) : Prop where
  keeps : Keeps s.db s.history
  tidy : Tidy s.window
  agrees : Agrees s.window
  typed : Typed s.window.gkDlInfoCache s.history

section Lists

/-- Two lists with the same ids, each of which may grow. -/
theorem perm_grown_iff {l l' : List Str} (h : l.Perm l') (id : Str) {rowed shown : Prop}
    [Decidable rowed] [Decidable shown] :
    (if rowed then id :: l else l).Perm (if shown then id :: l' else l') ↔ (rowed ↔ shown) := by
  have hlength := h.length_eq
  by_cases hrowed : rowed
  · by_cases hshown : shown
    · rw [if_pos hrowed, if_pos hshown]
      exact ⟨fun _ => ⟨fun _ => hshown, fun _ => hrowed⟩, fun _ => h.cons id⟩
    · rw [if_pos hrowed, if_neg hshown]
      constructor
      · intro hperm
        have := hperm.length_eq
        rw [List.length_cons] at this
        omega
      · intro hiff
        exact absurd (hiff.mp hrowed) hshown
  · by_cases hshown : shown
    · rw [if_neg hrowed, if_pos hshown]
      constructor
      · intro hperm
        have := hperm.length_eq
        rw [List.length_cons] at this
        omega
      · intro hiff
        exact absurd (hiff.mpr hshown) hrowed
    · rw [if_neg hrowed, if_neg hshown]
      exact ⟨fun _ => ⟨fun hr => absurd hr hrowed, fun hs => absurd hs hshown⟩, fun _ => h⟩

/-- Of two parts one id is erased, and the other part is dropped: that is the same exactly if
the other part is empty and the id is the one that is filtered. -/
theorem erase_perm_filter_iff {a b : List Str} (hnodup : (a ++ b).Nodup) {id d : Str}
    (hid : id ∈ a) :
    ((a ++ b).erase id).Perm (a.filter fun other => other ≠ d) ↔ b = [] ∧ d = id := by
  constructor
  · intro hperm
    have hdisjoint := List.disjoint_of_nodup_append hnodup
    have hnil : b = [] := by
      refine List.eq_nil_iff_forall_not_mem.mpr fun other hother => ?_
      have hne : other ≠ id := fun heq => hdisjoint hid (heq ▸ hother)
      have hleft : other ∈ (a ++ b).erase id :=
        (List.mem_erase_of_ne hne).mpr (List.mem_append_right _ hother)
      exact hdisjoint (List.mem_filter.mp (hperm.mem_iff.mp hleft)).1 hother
    refine ⟨hnil, ?_⟩
    by_contra hne
    have hkept : id ∈ a.filter fun other => other ≠ d :=
      List.mem_filter.mpr ⟨hid, decide_eq_true (Ne.symm hne)⟩
    exact hnodup.not_mem_erase (hperm.mem_iff.mpr hkept)
  · rintro ⟨rfl, rfl⟩
    rw [List.append_nil] at hnodup ⊢
    rw [hnodup.erase_eq_filter]
    apply List.Perm.of_eq
    apply List.filter_congr
    intro other _
    rw [Bool.eq_iff_iff, bne_iff_ne, decide_eq_true_iff]

theorem loadedCurlIds_append (l l' : List CurlDlInfo) :
    loadedCurlIds (l ++ l') = loadedCurlIds l ++ loadedCurlIds l' := by
  rw [loadedCurlIds, List.filter_append, List.map_append]
  rfl

theorem loadedTorrentIds_append (l l' : List TorrentInfo) :
    loadedTorrentIds (l ++ l') = loadedTorrentIds l ++ loadedTorrentIds l' := by
  rw [loadedTorrentIds, List.filter_append, List.map_append]
  rfl

theorem loadedCurlIds_filter (l : List CurlDlInfo) (id : Str) :
    loadedCurlIds (l.filter fun r => r.uniqueId ≠ id) =
      (loadedCurlIds l).filter fun other => other ≠ id := by
  rw [loadedCurlIds, loadedCurlIds, List.filter_map, List.filter_filter, List.filter_filter]
  congr 1
  apply List.filter_congr
  intro r _
  exact Bool.and_comm _ _

end Lists

section InStep

variable {s : Shelf}

theorem shownIds_nodup (hkeeps : Keeps s.db s.history) : (shownIds s.history).Nodup :=
  hkeeps.nodup.sublist (shownIds_sublist s.history)

/-- The window shows what a restart shows exactly if its rows are in step with the history. -/
theorem showsRestart_iff (qt : QtTexts) (hkeeps : Keeps s.db s.history) :
    ShowsRestart qt s ↔ InStep s := by
  constructor
  · intro hshows
    have hfuel : 2 ≤ (⟨IterOrder.insertion Entry, 2⟩ : Reading).fuel := Nat.le_refl 2
    rcases hshows _ hfuel with ⟨w, hrun, hperm⟩
    rcases run_restart hkeeps qt hfuel with ⟨w', hrun', hperm'⟩
    rw [hrun] at hrun'
    cases hrun'
    exact hperm.symm.trans hperm'
  · intro hin rd hfuel
    rcases run_restart hkeeps qt hfuel with ⟨w, hrun, hperm⟩
    exact ⟨w, hrun, hperm.trans hin.symm⟩

/-- The rows after an addition. -/
theorem hiddenIds_of_showsRow {qt : QtTexts} {row : NewRow} {w w' : MainWindow} (ht : Tidy w)
    (h : ShowsRow qt row w w') :
    Tidy w' ∧ hiddenIds w'.vectorList =
      if isDuplicate w row = false then row.uniqueId :: hiddenIds w.vectorList
      else hiddenIds w.vectorList := by
  unfold ShowsRow at h
  by_cases hdup : isDuplicate w row = true
  · rw [if_pos hdup] at h
    rw [h, hdup, if_neg (by decide)]
    exact ⟨ht, rfl⟩
  · rw [if_neg hdup] at h
    rw [if_pos ((Bool.not_eq_true _).mp hdup)]
    have hinserted := h.inserted ht
    exact ⟨hinserted.tidy, hinserted.hidden⟩

/-- A torrent more is shown exactly if it has a length. -/
theorem shownIds_withTorrent (h : History) (now : Int) {info : TorrentInfo}
    (hdest : info.general.downDest ≠ []) :
    (shownIds (withTorrent h now info)).Perm
      (if 0 < torrentLength info then info.general.uniqueId :: shownIds h else shownIds h) := by
  rw [shownIds, withTorrent, loadedTorrentIds_append]
  by_cases hlength : 0 < torrentLength info
  · have hone : loadedTorrentIds [torrentInfoToStore now info] = [info.general.uniqueId] := by
      have hshown : (torrentInfoToStore now info).general.downDest ≠ [] ∧
          torrentLength (torrentInfoToStore now info) > 0 := ⟨hdest, hlength⟩
      rw [loadedTorrentIds, List.filter_cons, if_pos (decide_eq_true hshown)]
      rfl
    rw [if_pos hlength, hone, ← List.append_assoc]
    exact List.perm_append_singleton _ _
  · have hnone : loadedTorrentIds [torrentInfoToStore now info] = [] := by
      rw [loadedTorrentIds, List.filter_cons,
        if_neg fun htrue => hlength (of_decide_eq_true htrue).2]
      rfl
    rw [if_neg hlength, hnone, List.append_nil]
    exact List.Perm.refl _

/-- So is an HTTP/FTP download that is stored. -/
theorem shownIds_withCurl (h : History) {added : CurlDlInfo} (hdest : added.fileLoc ≠ []) :
    (shownIds ⟨h.curl ++ [added], h.torrents⟩).Perm
      (if 0 < added.extInfo.contentLength then added.uniqueId :: shownIds h else shownIds h) := by
  rw [shownIds, loadedCurlIds_append, List.append_assoc]
  by_cases hlength : 0 < added.extInfo.contentLength
  · have hone : loadedCurlIds [added] = [added.uniqueId] := by
      have hshown : added.fileLoc ≠ [] ∧ added.extInfo.contentLength > 0 := ⟨hdest, hlength⟩
      rw [loadedCurlIds, List.filter_cons, if_pos (decide_eq_true hshown)]
      rfl
    rw [if_pos hlength, hone]
    exact List.perm_middle
  · have hnone : loadedCurlIds [added] = [] := by
      rw [loadedCurlIds, List.filter_cons, if_neg fun htrue => hlength (of_decide_eq_true htrue).2]
      rfl
    rw [if_neg hlength, hnone]
    exact List.Perm.refl _

/-- What an addition sends has to be accepted and to have a size. -/
theorem shownIds_sendDetails {drawn : Str} {now : Int} {rd : Reading} {hashSuccType : HashVerif}
    {details : Details}
    (hcalls : ∀ c ∈ (ShelfAction.sendDetails rd drawn now hashSuccType details).calls s.window,
      s.history.Admits c) :
    (shownIds (s.after (.sendDetails rd drawn now hashSuccType details))).Perm
      (if isDuplicate s.window details.row = false ∧
          CurlDlInfo.accepted (details.info hashSuccType) ∧ 0 < details.row.fileSize then
        details.row.uniqueId :: shownIds s.history else shownIds s.history) := by
  rw [Shelf.after]
  rw [ShelfAction.calls] at hcalls ⊢
  by_cases hdup : isDuplicate s.window details.row = true
  · rw [if_pos hdup, if_neg fun h => Bool.false_ne_true (h.1.symm.trans hdup)]
    exact List.Perm.refl _
  · rw [if_neg hdup] at hcalls ⊢
    rw [Bool.not_eq_true] at hdup
    by_cases haccepted : CurlDlInfo.accepted (details.info hashSuccType)
    · rcases (hcalls _ List.mem_cons_self).2 haccepted with ⟨-, -, hpath, -⟩
      set added := addedRecord (curlEntry (details.info hashSuccType))
        (curlInfoToStore now (details.info hashSuccType)) with hadded
      have hdest : added.fileLoc ≠ [] := hpath.ne_nil
      have hstep : s.history.step (.addCurlItem drawn now (details.info hashSuccType)) =
          (true, ⟨s.history.curl ++ [added], s.history.torrents⟩) := if_pos haccepted
      change (shownIds (s.history.step _).2).Perm _
      rw [hstep]
      refine (shownIds_withCurl s.history hdest).trans (List.Perm.of_eq ?_)
      exact if_congr ⟨fun hsize => ⟨hdup, haccepted, hsize⟩, fun h => h.2.2⟩ rfl rfl
    · have hstep : s.history.step (.addCurlItem drawn now (details.info hashSuccType)) =
          (false, s.history) := if_neg haccepted
      change (shownIds (s.history.step _).2).Perm _
      rw [hstep, if_neg fun h => haccepted h.2.1]

/-- A change of a status changes no id. -/
theorem loadedCurlIds_modified (id : Str) (status : DownloadStatus) (compltTimestamp : Int)
    (hashGiven : Str) (hashType : HashType) (hashRtrnd : Str) (retSuccType : HashVerif)
    (l : List CurlDlInfo) :
    (l.map (modifiedRecord id status compltTimestamp hashGiven hashType hashRtrnd
        retSuccType)).map CurlDlInfo.uniqueId = l.map CurlDlInfo.uniqueId ∧
      loadedCurlIds (l.map (modifiedRecord id status compltTimestamp hashGiven hashType hashRtrnd
        retSuccType)) = loadedCurlIds l := by
  have hsame : ∀ r, (modifiedRecord id status compltTimestamp hashGiven hashType hashRtrnd
      retSuccType r).uniqueId = r.uniqueId ∧
      (modifiedRecord id status compltTimestamp hashGiven hashType hashRtrnd
        retSuccType r).fileLoc = r.fileLoc ∧
      (modifiedRecord id status compltTimestamp hashGiven hashType hashRtrnd
        retSuccType r).extInfo = r.extInfo := by
    intro r
    unfold modifiedRecord
    split
    · exact ⟨rfl, rfl, rfl⟩
    · exact ⟨rfl, rfl, rfl⟩
  constructor
  · rw [List.map_map]
    exact List.map_congr_left fun r _ => (hsame r).1
  · rw [loadedCurlIds, loadedCurlIds, List.filter_map, List.map_map]
    have hfilter : (l.filter ((fun info : CurlDlInfo =>
        decide (info.fileLoc ≠ [] ∧ info.extInfo.contentLength > 0)) ∘
          modifiedRecord id status compltTimestamp hashGiven hashType hashRtrnd retSuccType)) =
        l.filter fun info => decide (info.fileLoc ≠ [] ∧ info.extInfo.contentLength > 0) := by
      apply List.filter_congr
      intro r _
      simp only [Function.comp_apply, (hsame r).2.1, (hsame r).2.2]
    rw [hfilter]
    exact List.map_congr_left fun r _ => (hsame r).1

end InStep

/-! ## Removals -/

section Removals

variable {s : Shelf} {h : History}

theorem cachedIds_dropCached (cache : List DownloadInfo) (id : Str) :
    cachedIds (dropCached cache id) = (cachedIds cache).erase id := by
  induction cache with
  | nil => rfl
  | cons info cache ih =>
    have hids : cachedIds (info :: cache) = info.uniqueId :: cachedIds cache := rfl
    rw [hids]
    by_cases hid : info.uniqueId = id
    · have hdrop : dropCached (info :: cache) id = cache :=
        List.eraseP_cons_of_pos (decide_eq_true hid)
      rw [hdrop, hid, List.erase_cons_head]
    · have hdrop : dropCached (info :: cache) id = info :: dropCached cache id :=
        List.eraseP_cons_of_neg fun htrue => hid (of_decide_eq_true htrue)
      rw [hdrop, List.erase_cons_tail fun htrue => hid (eq_of_beq htrue), ← ih]
      rfl

/-- The rows are the removed one and the others. -/
theorem hiddenIds_removeRow {vectorList : VectorList} {row : Nat} {cells : List Str}
    (hrow : vectorList[row]? = some cells) :
    (hiddenIds vectorList).Perm (idOf cells :: hiddenIds (removeRows vectorList row 1)) := by
  have hlt : row < vectorList.length := (List.getElem?_eq_some_iff.mp hrow).1
  have hcell : vectorList[row] = cells := (List.getElem?_eq_some_iff.mp hrow).2
  have hremove : removeRows vectorList row 1 = vectorList.eraseIdx row := by
    rw [removeRows_eq, List.eraseIdx_eq_take_drop_succ]
  have hperm := (List.getElem_cons_eraseIdx_perm hlt).symm.map idOf
  rw [List.map_cons, hcell] at hperm
  rw [hremove]
  exact hperm

/-- No download is at the empty path. -/
theorem idToDelete_nil (hkeeps : Keeps s.db h) (fileDest : Str) :
    h.idToDelete fileDest [] = h.idAt fileDest := by
  rw [History.idToDelete, if_neg fun hne => hne rfl]
  by_cases hdest : fileDest = []
  · rw [if_neg fun hne => hne hdest]
    cases hid : h.idAt fileDest with
    | none => rfl
    | some id =>
      rcases List.mem_map.mp (List.min?_mem hid) with ⟨e, he, -⟩
      rcases List.mem_filter.mp he with ⟨hin, hpath⟩
      exact absurd ((of_decide_eq_true hpath).trans hdest) (hkeeps.clean e hin).path.ne_nil
  · rw [if_pos hdest]

/-- What a deletion leaves of the history. -/
theorem step_delCurlItem (hkeeps : Keeps s.db h) (ord : IterOrder Entry) (fileDest : Str) :
    (∃ d, h.idAt fileDest = some d ∧
        (h.step (.delCurlItem ord fileDest [])).2 =
          ⟨h.curl.filter fun r => r.uniqueId ≠ d, []⟩) ∨
      (h.idAt fileDest = none ∧ (h.step (.delCurlItem ord fileDest [])).2 = h) := by
  have hdelete := idToDelete_nil hkeeps fileDest
  cases hid : h.idAt fileDest with
  | some d =>
    rw [hid] at hdelete
    refine .inl ⟨d, rfl, ?_⟩
    simp only [History.step, hdelete]
  | none =>
    rw [hid] at hdelete
    refine .inr ⟨rfl, ?_⟩
    simp only [History.step, hdelete]

/-- An HTTP/FTP download is no torrent. -/
theorem curl_of_shown (hkeeps : Keeps s.db h) {id : Str} (hshown : id ∈ shownIds h)
    (hcurl : id ∈ h.curl.map CurlDlInfo.uniqueId) : id ∈ loadedCurlIds h.curl := by
  rcases List.mem_append.mp hshown with hin | htorrent
  · exact hin
  · have hnodup := hkeeps.nodup
    rw [History.entries, List.map_append, List.map_map, List.map_map] at hnodup
    have hin : id ∈ h.torrents.map fun t => t.general.uniqueId :=
      (List.filter_sublist.map _).subset htorrent
    exact absurd hin (List.disjoint_of_nodup_append hnodup hcurl)

theorem not_perm_of_erase {l : List Str} {id : Str} (hid : id ∈ l) : ¬ (l.erase id).Perm l := by
  intro hperm
  have hlength := hperm.length_eq
  rw [List.length_erase_of_mem hid] at hlength
  have := List.length_pos_of_mem hid
  omega

/-- The entry of the cache for a row. -/
theorem Settles.cached (hsettles : Settles s) {cells : List Str}
    (hid : idOf cells ∈ hiddenIds s.window.vectorList) :
    ∃ item ∈ s.window.gkDlInfoCache, cachedFor s.window.gkDlInfoCache cells = some item ∧
      item.uniqueId = idOf cells := by
  rcases List.mem_map.mp (hsettles.agrees.mem_iff.mp hid) with ⟨info, hinfo, hname⟩
  have hfind : (cachedFor s.window.gkDlInfoCache cells).isSome :=
    List.find?_isSome.mpr ⟨info, hinfo, decide_eq_true hname⟩
  rcases Option.isSome_iff_exists.mp hfind with ⟨item, hitem⟩
  have hfound := List.find?_some hitem
  exact ⟨item, List.mem_of_find?_eq_some hitem, hitem, of_decide_eq_true hfound⟩

/-- **A removal** keeps in step exactly if it removes an HTTP/FTP download that is the first one
at its path, and no torrent is shown. -/
theorem removal_inStep_iff (hsettles : Settles s) (hin : InStep s) (ord : IterOrder Entry)
    {row : Nat} {cells : List Str} (hrow : s.window.vectorList[row]? = some cells) :
    (hiddenIds (removeRows s.window.vectorList row 1)).Perm
        (shownIds (s.after (.removeSelRows ord (some row)))) ↔
      idOf cells ∈ s.history.curl.map CurlDlInfo.uniqueId ∧
        s.history.idAt (destinationOf cells) = some (idOf cells) ∧
        loadedTorrentIds s.history.torrents = [] := by
  have hrows := hiddenIds_removeRow hrow
  have hmem : idOf cells ∈ hiddenIds s.window.vectorList :=
    hrows.mem_iff.mpr List.mem_cons_self
  have hshown : idOf cells ∈ shownIds s.history := hin.mem_iff.mp hmem
  have hleft : (hiddenIds (removeRows s.window.vectorList row 1)).Perm
      ((shownIds s.history).erase (idOf cells)) :=
    (hrows.symm.trans (hin.trans (List.perm_cons_erase hshown))).cons_inv
  have hiff : ∀ l, (hiddenIds (removeRows s.window.vectorList row 1)).Perm l ↔
      ((shownIds s.history).erase (idOf cells)).Perm l :=
    fun l => ⟨hleft.symm.trans, hleft.trans⟩
  rw [hiff]
  rcases hsettles.cached hmem with ⟨item, hitem, hfor, hname⟩
  have hcells : selectedCells s.window (some row) = some cells := hrow
  have htyped := hsettles.typed item hitem
  rw [hname] at htyped
  rw [Shelf.after, ShelfAction.calls, hcells]
  dsimp only
  rw [hfor, removalCalls]
  by_cases hcurl : item.dlType = .http ∨ item.dlType = .ftp
  · have hid := htyped.mp hcurl
    rw [if_pos hcurl]
    change ((shownIds s.history).erase (idOf cells)).Perm (shownIds (s.history.step _).2) ↔ _
    rcases step_delCurlItem hsettles.keeps ord (destinationOf cells) with
      ⟨d, hat, hstep⟩ | ⟨hat, hstep⟩
    · rw [hstep, hat]
      have hright : shownIds ⟨s.history.curl.filter fun r => r.uniqueId ≠ d, []⟩ =
          (loadedCurlIds s.history.curl).filter fun other => other ≠ d := by
        rw [shownIds, loadedCurlIds_filter]
        exact List.append_nil _
      rw [hright]
      refine (erase_perm_filter_iff (shownIds_nodup hsettles.keeps)
        (curl_of_shown hsettles.keeps hshown hid)).trans ?_
      constructor
      · rintro ⟨hnil, rfl⟩
        exact ⟨hid, rfl, hnil⟩
      · rintro ⟨-, hsome, hnil⟩
        exact ⟨hnil, Option.some.inj hsome⟩
    · -- nothing is at the path, and nothing is deleted
      rw [hstep, hat]
      refine iff_of_false (not_perm_of_erase hshown) ?_
      rintro ⟨-, hsome, -⟩
      cases hsome
  · -- a torrent stays in the store
    rw [if_neg hcurl]
    exact iff_of_false (not_perm_of_erase hshown) fun hall => hcurl (htyped.mpr hall.1)

end Removals

/-! ## Runs -/

section Runs

variable {qt : QtTexts} {s : Shelf} {a : ShelfAction}

/-- The window stays tidy. -/
theorem tidy_of_effect {w w' : MainWindow} (ht : Tidy w) (heffect : Effect qt w w' a) :
    Tidy w' := by
  cases a with
  | importTorrent request =>
    cases hrecord : request.record with
    | ok info => exact (hiddenIds_of_showsRow ht (heffect.1 info hrecord)).1
    | error thrown =>
      rw [heffect.2 thrown hrecord]
      exact ht
  | sendDetails rd drawn now hashSuccType details => exact (hiddenIds_of_showsRow ht heffect).1
  | removeSelRows ord selected =>
    cases hcells : selectedCells w selected with
    | none =>
      rw [heffect.1 hcells]
      exact ht
    | some cells =>
      rcases Option.bind_eq_some_iff.mp hcells with ⟨row, hselected, hrow⟩
      rw [heffect.2 row cells hselected hrow]
      refine ⟨(ht.sublist (removeRows_sublist _ _ _)).complete, ?_, ?_⟩
      · rw [cachedIds_dropCached]
        exact fun hin => ht.named (List.mem_of_mem_erase hin)
      · rw [cachedIds_dropCached]
        exact ht.distinct.erase _
  | modifyCurlItem fileLoc status compltTimestamp hashGiven hashType hashRtrnd retSuccType =>
    rw [heffect]
    exact ht

/-- What is read of the store after an action is the history. -/
theorem step_keeps (qt : QtTexts) (h : Keeps s.db s.history ∧ Tidy s.window)
    (hadmitted : Admitted s a) :
    Keeps (s.step qt a).db (s.step qt a).history ∧ Tidy (s.step qt a).window := by
  rcases step_effect qt h.1 h.2 hadmitted with ⟨hkeeps, -, heffect⟩
  exact ⟨hkeeps, tidy_of_effect h.2 heffect⟩

/-- The rows after an addition are in step exactly if the download is shown and gets a row, or
neither. -/
theorem addition_inStep_iff (ht : Tidy s.window) (hin : InStep s) {row : NewRow}
    {w' : MainWindow} (hrow : ShowsRow qt row s.window w') {ids : List Str} {shown : Prop}
    [Decidable shown]
    (hids : ids.Perm (if shown then row.uniqueId :: shownIds s.history else shownIds s.history)) :
    (hiddenIds w'.vectorList).Perm ids ↔ (isDuplicate s.window row = false ↔ shown) := by
  rw [(hiddenIds_of_showsRow ht hrow).2]
  exact Iff.trans ⟨fun h => h.trans hids, fun h => h.trans hids.symm⟩
    (perm_grown_iff hin row.uniqueId)

/-- A change of a status leaves the ids as they are. -/
theorem after_modifyCurlItem (s : Shelf) (fileLoc : Str) (status : DownloadStatus)
    (compltTimestamp : Int) (hashGiven : Str) (hashType : HashType) (hashRtrnd : Str)
    (retSuccType : HashVerif) :
    ((s.after (.modifyCurlItem fileLoc status compltTimestamp hashGiven hashType hashRtrnd
        retSuccType)).curl.map CurlDlInfo.uniqueId = s.history.curl.map CurlDlInfo.uniqueId) ∧
      shownIds (s.after (.modifyCurlItem fileLoc status compltTimestamp hashGiven hashType
        hashRtrnd retSuccType)) = shownIds s.history := by
  have hafter : s.after (.modifyCurlItem fileLoc status compltTimestamp hashGiven hashType
      hashRtrnd retSuccType) = (s.history.step (.modifyCurlItem fileLoc status compltTimestamp
        hashGiven hashType hashRtrnd retSuccType)).2 := rfl
  rw [hafter]
  cases hid : s.history.idAt fileLoc with
  | some id =>
    have hstep : (s.history.step (.modifyCurlItem fileLoc status compltTimestamp hashGiven
        hashType hashRtrnd retSuccType)).2 = ⟨s.history.curl.map (modifiedRecord id status
          compltTimestamp hashGiven hashType hashRtrnd retSuccType), s.history.torrents⟩ := by
      simp only [History.step, hid]
    rcases loadedCurlIds_modified id status compltTimestamp hashGiven hashType hashRtrnd
      retSuccType s.history.curl with ⟨hids, hloaded⟩
    rw [hstep]
    exact ⟨hids, by rw [shownIds, shownIds, hloaded]⟩
  | none =>
    have hstep : (s.history.step (.modifyCurlItem fileLoc status compltTimestamp hashGiven
        hashType hashRtrnd retSuccType)).2 = s.history := by
      simp only [History.step, hid]
    rw [hstep]
    exact ⟨rfl, rfl⟩

/-- **One action** keeps in step exactly under its condition. -/
theorem step_inStep_iff (qt : QtTexts) (hsettles : Settles s) (hin : InStep s)
    (hadmitted : Admitted s a) : InStep (s.step qt a) ↔ KeepsInStep s a := by
  rcases step_effect qt hsettles.keeps hsettles.tidy hadmitted with ⟨-, hafter, heffect⟩
  rw [InStep, hafter]
  cases a with
  | importTorrent request =>
    cases hrecord : request.record with
    | ok info =>
      have hcalls : s.after (.importTorrent request) = withTorrent s.history request.now info := by
        rw [Shelf.after, ShelfAction.calls, hrecord]
        rfl
      have hdest : info.general.downDest ≠ [] := by
        have hadmits := hadmitted.calls (.addTorrentItem request.drawn request.now info) (by
          rw [ShelfAction.calls, hrecord]
          exact List.mem_cons_self)
        exact hadmits.2.2.dest.ne_nil
      rw [hcalls]
      refine (addition_inStep_iff hsettles.tidy hin (heffect.1 info hrecord)
        (shownIds_withTorrent s.history request.now hdest)).trans ?_
      constructor
      · intro hiff info' hinfo'
        cases hrecord.symm.trans hinfo'
        exact hiff
      · intro hall
        exact hall info hrecord
    | error thrown =>
      have hcalls : s.after (.importTorrent request) = s.history := by
        rw [Shelf.after, ShelfAction.calls, hrecord]
        rfl
      rw [hcalls, heffect.2 thrown hrecord]
      refine iff_of_true hin ?_
      intro info hinfo
      cases hrecord.symm.trans hinfo
  | sendDetails rd drawn now hashSuccType details =>
    refine (addition_inStep_iff hsettles.tidy hin heffect
      (shownIds_sendDetails hadmitted.calls)).trans ?_
    exact ⟨fun hiff hdup => (hiff.mp hdup).2, fun h => ⟨fun hdup => ⟨hdup, h hdup⟩, And.left⟩⟩
  | removeSelRows ord selected =>
    cases hcells : selectedCells s.window selected with
    | none =>
      have hcalls : s.after (.removeSelRows ord selected) = s.history := by
        rw [Shelf.after, ShelfAction.calls, hcells]
        rfl
      rw [hcalls, heffect.1 hcells]
      refine iff_of_true hin ?_
      intro cells hsome
      cases hcells.symm.trans hsome
    | some cells =>
      rcases Option.bind_eq_some_iff.mp hcells with ⟨row, rfl, hrow⟩
      rw [heffect.2 row cells rfl hrow]
      refine (removal_inStep_iff hsettles hin ord hrow).trans
        ⟨fun h cells' hsome => ?_, fun h => ?_⟩
      · cases hcells.symm.trans hsome
        exact h
      · exact h cells hcells
  | modifyCurlItem fileLoc status compltTimestamp hashGiven hashType hashRtrnd retSuccType =>
    rw [heffect, (after_modifyCurlItem s _ _ _ _ _ _ _).2]
    exact iff_of_true hin trivial

/-- A row for a new id is cached with its type. -/
theorem agrees_of_rowInserted {row : NewRow} {w w' : MainWindow} (ht : Tidy w) (ha : Agrees w)
    (hnew : IsNewId (cachedIds w.gkDlInfoCache) row.uniqueId) (h : RowInserted qt row w w') :
    Agrees w' ∧ ∃ info : DownloadInfo, info.uniqueId = row.uniqueId ∧
      info.dlType = row.downloadType ∧ w'.gkDlInfoCache = w.gkDlInfoCache ++ [info] := by
  have hcaches := h.caches
  rw [Caches, if_pos hnew] at hcaches
  refine ⟨?_, hcaches⟩
  have hinserted := h.inserted ht
  rw [Agrees, hinserted.hidden, hinserted.cached]
  change (row.uniqueId :: hiddenIds w.vectorList).Perm (registerId (cachedIds _) row.uniqueId)
  rw [registerId, if_pos hnew]
  exact (ha.cons row.uniqueId).trans (List.perm_append_singleton _ _).symm

/-- An id that is drawn is new to the cache. -/
theorem isNewId_of_fresh (hsettles : Settles s) (hin : InStep s) {id : Str} (hid : IsCreateId id)
    (hfresh : id ∉ s.history.entries.map Prod.fst) :
    IsNewId (cachedIds s.window.gkDlInfoCache) id := by
  refine ⟨(cleanCell_of_createId hid).ne_nil, ?_⟩
  intro hcached
  have hhidden := hsettles.agrees.mem_iff.mpr hcached
  exact hfresh ((shownIds_sublist s.history).subset (hin.mem_iff.mp hhidden))

/-- A cache with one entry more, for a history with one download more. -/
theorem typed_of_added {cache : List DownloadInfo} {h h' : History} (htyped : Typed cache h)
    {info : DownloadInfo} (hold : ∀ other ∈ cache, other.uniqueId ≠ info.uniqueId)
    (hothers : ∀ id, id ≠ info.uniqueId → (id ∈ h'.curl.map CurlDlInfo.uniqueId ↔
      id ∈ h.curl.map CurlDlInfo.uniqueId))
    (hinfo : (info.dlType = .http ∨ info.dlType = .ftp) ↔
      info.uniqueId ∈ h'.curl.map CurlDlInfo.uniqueId) : Typed (cache ++ [info]) h' := by
  intro other hother
  rcases List.mem_append.mp hother with hin | hnew
  · exact (htyped other hin).trans (hothers _ (hold other hin)).symm
  · rw [List.mem_singleton.mp hnew]
    exact hinfo

/-- Whatever has an id in the cache has not a new one. -/
theorem ne_of_isNewId {cache : List DownloadInfo} {id : Str} (hnew : IsNewId (cachedIds cache) id) :
    ∀ other ∈ cache, other.uniqueId ≠ id :=
  fun _ hother heq => hnew.2 (heq ▸ List.mem_map_of_mem hother)

theorem curl_id_mem {h : History} {id : Str} (hid : id ∈ h.curl.map CurlDlInfo.uniqueId) :
    id ∈ h.entries.map Prod.fst := by
  rw [History.entries, List.map_append, List.map_map]
  exact List.mem_append_left _ hid

/-- An action under its condition leaves what holds in step. -/
theorem step_settles (qt : QtTexts) (hsettles : Settles s) (hin : InStep s)
    (hadmitted : Admitted s a) (hkeepsInStep : KeepsInStep s a) : Settles (s.step qt a) := by
  rcases step_effect qt hsettles.keeps hsettles.tidy hadmitted with ⟨hkeeps, hafter, heffect⟩
  have htidy := tidy_of_effect hsettles.tidy heffect
  suffices hboth : Agrees (s.step qt a).window ∧
      Typed (s.step qt a).window.gkDlInfoCache (s.after a) by
    exact ⟨hkeeps, htidy, hboth.1, hafter ▸ hboth.2⟩
  cases a with
  | importTorrent request =>
    cases hrecord : request.record with
    | ok info =>
      have hcalls : s.after (.importTorrent request) = withTorrent s.history request.now info := by
        rw [Shelf.after, ShelfAction.calls, hrecord]
        rfl
      have hadmits := hadmitted.calls (.addTorrentItem request.drawn request.now info) (by
        rw [ShelfAction.calls, hrecord]
        exact List.mem_cons_self)
      have hrow := heffect.1 info hrecord
      rw [hcalls]
      unfold ShowsRow at hrow
      by_cases hdup : isDuplicate s.window (torrentDetails info).row = true
      · rw [if_pos hdup] at hrow
        rw [hrow]
        exact ⟨hsettles.agrees, hsettles.typed⟩
      · rw [if_neg hdup] at hrow
        have hnew := isNewId_of_fresh hsettles hin hadmits.1 hadmits.2.1
        rcases agrees_of_rowInserted hsettles.tidy hsettles.agrees hnew hrow with
          ⟨hagrees, cached, hid, htype, hcache⟩
        refine ⟨hagrees, ?_⟩
        rw [hcache]
        refine typed_of_added hsettles.typed (hid ▸ ne_of_isNewId hnew) (fun _ _ => Iff.rfl) ?_
        rw [htype, hid]
        -- the id of the torrent is no id of an HTTP/FTP download
        have htorrent : ¬ (DownloadType.torrent = .http ∨ DownloadType.torrent = .ftp) := by decide
        exact iff_of_false htorrent fun hcurl => hadmits.2.1 (curl_id_mem hcurl)
    | error thrown =>
      have hcalls : s.after (.importTorrent request) = s.history := by
        rw [Shelf.after, ShelfAction.calls, hrecord]
        rfl
      rw [hcalls, heffect.2 thrown hrecord]
      exact ⟨hsettles.agrees, hsettles.typed⟩
  | sendDetails rd drawn now hashSuccType details =>
    have hcalls := hadmitted.calls
    rw [ShelfAction.calls] at hcalls
    rw [Shelf.after, ShelfAction.calls]
    have hrow : ShowsRow qt details.row s.window _ := heffect
    unfold ShowsRow at hrow
    by_cases hdup : isDuplicate s.window details.row = true
    · rw [if_pos hdup] at hrow ⊢
      rw [hrow]
      exact ⟨hsettles.agrees, hsettles.typed⟩
    · rw [if_neg hdup] at hrow hcalls ⊢
      have haccepted := (hkeepsInStep ((Bool.not_eq_true _).mp hdup)).1
      rcases (hcalls _ List.mem_cons_self).2 haccepted with ⟨hcreate, hfresh, -, -⟩
      have hnew := isNewId_of_fresh hsettles hin hcreate hfresh
      rcases agrees_of_rowInserted hsettles.tidy hsettles.agrees hnew hrow with
        ⟨hagrees, cached, hid, htype, hcache⟩
      have hstep : s.history.step (.addCurlItem drawn now (details.info hashSuccType)) =
          (true, ⟨s.history.curl ++ [addedRecord (curlEntry (details.info hashSuccType))
            (curlInfoToStore now (details.info hashSuccType))], s.history.torrents⟩) :=
        if_pos haccepted
      change _ ∧ Typed _ (s.history.step _).2
      rw [hstep, hcache]
      refine ⟨hagrees, typed_of_added hsettles.typed (hid ▸ ne_of_isNewId hnew) ?_ ?_⟩
      · intro id hne
        rw [List.map_append, List.mem_append]
        refine or_iff_left ?_
        intro hadded
        exact hne ((List.mem_singleton.mp hadded).trans hid.symm)
      · rw [htype, hid]
        refine iff_of_true hadmitted.sound.2 ?_
        rw [List.map_append]
        exact List.mem_append_right _ List.mem_cons_self
  | removeSelRows ord selected =>
    cases hcells : selectedCells s.window selected with
    | none =>
      have hcalls : s.after (.removeSelRows ord selected) = s.history := by
        rw [Shelf.after, ShelfAction.calls, hcells]
        rfl
      rw [hcalls, heffect.1 hcells]
      exact ⟨hsettles.agrees, hsettles.typed⟩
    | some cells =>
      rcases hkeepsInStep cells hcells with ⟨hid, hat, -⟩
      rcases Option.bind_eq_some_iff.mp hcells with ⟨row, rfl, hrow⟩
      have hmem : idOf cells ∈ hiddenIds s.window.vectorList :=
        (hiddenIds_removeRow hrow).mem_iff.mpr List.mem_cons_self
      rcases hsettles.cached hmem with ⟨item, hitem, hfor, hname⟩
      have hcurl : item.dlType = .http ∨ item.dlType = .ftp :=
        (hsettles.typed item hitem).mpr (hname ▸ hid)
      have hcalls : s.after (.removeSelRows ord (some row)) =
          ⟨s.history.curl.filter fun r => r.uniqueId ≠ idOf cells, []⟩ := by
        rw [Shelf.after, ShelfAction.calls, hcells]
        dsimp only
        rw [hfor, removalCalls, if_pos hcurl]
        change (s.history.step _).2 = _
        rcases step_delCurlItem hsettles.keeps ord (destinationOf cells) with
          ⟨d, hat', hstep⟩ | ⟨hat', -⟩
        · rw [hstep, Option.some.inj (hat'.symm.trans hat)]
        · cases hat'.symm.trans hat
      rw [hcalls, heffect.2 row cells rfl hrow]
      refine ⟨agrees_erase hsettles.agrees hrow (cachedIds_dropCached _ _), ?_⟩
      intro info hinfo
      have hold : info ∈ s.window.gkDlInfoCache := (List.eraseP_sublist).subset hinfo
      have hne : info.uniqueId ≠ idOf cells := by
        intro heq
        have hin' : info.uniqueId ∈ cachedIds (dropCached s.window.gkDlInfoCache (idOf cells)) :=
          List.mem_map_of_mem hinfo
        rw [cachedIds_dropCached, heq] at hin'
        exact hsettles.tidy.distinct.not_mem_erase hin'
      refine (hsettles.typed info hold).trans ?_
      rw [List.mem_map, List.mem_map]
      constructor
      · rintro ⟨r, hr, heq⟩
        exact ⟨r, List.mem_filter.mpr ⟨hr, decide_eq_true (heq ▸ hne)⟩, heq⟩
      · rintro ⟨r, hr, heq⟩
        exact ⟨r, (List.mem_filter.mp hr).1, heq⟩
  | modifyCurlItem fileLoc status compltTimestamp hashGiven hashType hashRtrnd retSuccType =>
    rw [heffect]
    refine ⟨hsettles.agrees, ?_⟩
    intro info hinfo
    rw [(after_modifyCurlItem s _ _ _ _ _ _ _).1]
    exact hsettles.typed info hinfo

end Runs

/-- An empty window, an empty store. -/
def Shelf.first : Shelf := ⟨⟨[], []⟩, emptyDb, History.empty⟩

theorem settles_first : Settles Shelf.first where
  keeps := keeps_empty
  tidy := tidy_empty
  agrees := List.Perm.refl []
  typed := fun _ h => absurd h List.not_mem_nil

/-- The state after a first import of the sample torrent. -/
def Shelf.second : Shelf :=
  Shelf.first.step plainTexts (.importTorrent (sampleRequest '1'))

theorem sampleRequest_admitted {s : Shelf} {digit : Char} (hid : IsCreateId (sampleId digit))
    (hfresh : sampleId digit ∉ s.history.entries.map Prod.fst) :
    Admitted s (.importTorrent (sampleRequest digit)) := by
  refine ⟨?_, Nat.le_refl 2⟩
  have himports := sampleRequest_imports digit
  have hrecord : (sampleRequest digit).record =
      .ok ((sampleRequest digit).stored sampleLtTorrent) := by
    rcases himports with ⟨buf, hload, hdecoded, hmakes⟩
    exact record_ok_iff.mpr ⟨buf, sampleLtTorrent, hload, hdecoded, hmakes, rfl⟩
  intro c hc
  rw [ShelfAction.calls, hrecord] at hc
  rw [List.mem_singleton.mp hc]
  exact ⟨hid, hfresh, (showable_withDestination_iff hid).mpr (sampleRequest_shown digit himports)⟩

end FyreDL.Gui
