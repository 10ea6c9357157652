import FyreDL.Gui.Actions
import FyreDL.Gui.Agreement

/-!
# FyreDL.Gui.Statistics — the statistics of the transfers

Each cached download has a list of `GkXferStats`, which `initCharts` begins with one entry
and the slots of the two kinds of transfers append to. `manageDlStats` shows the last entry
of each list in the row that has the id of the download.

* A function of the table is a procedure on its cells, which keeps what it has written when
  it throws. The graph of a download is left out, and so are the labels of the tabs below
  the table.
* `std::round((progress_ppm / 1000000) * 100)` divides whole numbers: a torrent shows 0
  until it is complete.
* `showsProgress_iff` — hence the progress of the torrents is right exactly if each of them
  is complete or below half a percent.
-/

namespace FyreDL.Gui

open Lib Lib.Kv Store

/-! ## The cache with its statistics -/

/-- `GkGraph::GkXferStats`. -/
structure GkXferStats where
  uploadRate : Option ℚ
  downloadRate : ℚ
  progressPpm : Int
  downloadTotal : Int
  uploadTotal : Option Int
  numPiecesDled : Option Int
  curTime : Option Int
deriving DecidableEq, Repr

/-- `GkGraph::GkDlStats`. Without a record of the download, the content length is not
set. -/
structure GkDlStats where
  timerBegin : Int
  contentLength : Option ℚ
  xferStats : List GkXferStats
deriving DecidableEq, Repr

/-- A download of the cache, with its statistics. -/
structure CachedDownload extends DownloadInfo where
  stats : GkDlStats
deriving DecidableEq, Repr

/-- The statistics that `initCharts` begins with, for the record that it has found. -/
def initStats (info : DownloadInfo) : GkDlStats where
  timerBegin := 0
  contentLength :=
    match info.curlInfo with
    | some record => some record.extInfo.contentLength
    | none => info.toInfo.map torrentLength
  xferStats := [⟨some 0, 0, 0, 0, some 0, none, none⟩]

def IsTorrent (info : DownloadInfo) : Prop :=
  info.dlType = .torrent ∨ info.dlType = .torrentMagnetLink

instance (info : DownloadInfo) : Decidable (IsTorrent info) :=
  inferInstanceAs (Decidable (_ ∨ _))

/-! ## A report -/

/-- `GkCurl::CurlDlStats`. -/
structure CurlDlStats where
  dltotal : Int
  uptotal : Int
  dlnow : ℚ
  upnow : ℚ
deriving DecidableEq, Repr

/-- `GkCurl::CurlProgressPtr`, with what `curl_xferinfo` has appended before it is sent. -/
structure CurlProgressPtr where
  stat : List CurlDlStats
  fileDest : Str
  reported : stat ≠ []
deriving DecidableEq

/-- `stats_temp` of `recvCurl_XferStats`. Its `progress_ppm` stays uninitialised. -/
def curlStats (now progressPpm : Int) (info : CurlProgressPtr) : GkXferStats :=
  let last := info.stat.getLast info.reported
  { uploadRate := some last.upnow
    downloadRate := last.dlnow
    progressPpm := progressPpm
    downloadTotal := last.dltotal
    uploadTotal := some last.uptotal
    numPiecesDled := none
    curTime := some now }

/-- An entry is appended. The first one starts the timer. -/
def GkDlStats.push (stats : GkDlStats) (now : Int) (statsTemp : GkXferStats) : GkDlStats :=
  { stats with
    timerBegin := if stats.timerBegin = 0 then now else stats.timerBegin
    xferStats := stats.xferStats ++ [statsTemp] }

/-- The HTTP/FTP download with the destination. -/
def HasDest (fileDest : Str) (c : CachedDownload) : Prop :=
  IsHttp c.toDownloadInfo ∧ c.dlDest = fileDest

instance (fileDest : Str) (c : CachedDownload) : Decidable (HasDest fileDest c) :=
  inferInstanceAs (Decidable (_ ∧ _))

/-- The loop of `recvCurl_XferStats` over the cache, which ends at the first download that it
finds. -/
def recvCurlXferStats (now progressPpm : Int) (info : CurlProgressPtr) :
    List CachedDownload → List CachedDownload
  | [] => []
  | c :: rest =>
    if HasDest info.fileDest c then
      { c with stats := c.stats.push now (curlStats now progressPpm info) } :: rest
    else c :: recvCurlXferStats now progressPpm info rest

/-! ## Showing the statistics -/

/-- What `manageDlStats` meets outside of the window: the texts of a `double` in a
`QString` and in a `QVariant`, the text of a percentage for a content length that is zero
or not set, and the sizes of the files. -/
structure StatView where
  number : ℚ → Str
  variant : ℚ → Str
  undetermined : Int → Str
  fileSize : Str → Int

/-- A procedure on the cells of the table. -/
abbrev TableProc := Proc VectorList Str

/-- An operation of the table. -/
def ofCells {α : Type} : Except ModelFault α → TableProc α
  | .ok a => Proc.ret a
  | .error .undefined => fun vectorList => (.stuck, vectorList)
  | .error .outOfRange => Proc.throw rangeCheck
  | .error .invalidArgument => Proc.throw colLessThanZero

/-- `model()->data(index).toString()`. -/
def readCell (row column : Nat) : TableProc Str := do
  let vectorList ← Proc.state
  let value ← ofCells (data vectorList (modelIndex vectorList row column) .displayRole)
  pure (value.getD [])

/-- `dlModel->updateCol(dlModel->index(row, column), text, column)`. -/
def writeCell (row column : Nat) (text : Str) : TableProc Unit := do
  let vectorList ← Proc.state
  let (_, vectorList) ← ofCells
    (updateCol vectorList (modelIndex vectorList row column) text column)
  Proc.modify fun _ => vectorList

/-- `percentDownloaded`. -/
def percentDownloaded (contentLength amountDl : ℚ) : ℚ :=
  let percent := roundHalfAway (amountDl / contentLength * 100)
  if percent ≥ 101 then 0 else percent

/-- The progress of an HTTP/FTP download. -/
def httpProgress (view : StatView) (c : CachedDownload) : Str :=
  let curFileSize := view.fileSize c.dlDest
  match c.stats.contentLength with
  | none => view.undetermined curFileSize
  | some contentLength =>
    if contentLength = 0 then view.undetermined curFileSize
    else view.variant (percentDownloaded contentLength curFileSize)

/-- `std::round((progress_ppm / 1000000) * 100)`, for a `long`. -/
def progressPercent (progressPpm : Int) : Int :=
  roundHalfAway ((progressPpm.tdiv 1000000 * 100 : Int) : ℚ)

/-- The progress of a download. -/
def progressText (view : StatView) (c : CachedDownload) (xferStat : GkXferStats) : Str :=
  if IsTorrent c.toDownloadInfo then view.number (progressPercent xferStat.progressPpm)
  else httpProgress view c

/-- A rate in a cell. -/
def rateText (rate : ℚ) : Str := numberConverter rate ++ "/sec".toList

/-- The upload rate, which may be missing. -/
def uploadText (xferStat : GkXferStats) : Str :=
  match xferStat.uploadRate with
  | some uploadRate => rateText uploadRate
  | none => "0/sec".toList

def invalidTimer : Str :=
  "An invalid timer value has been given! Please contact the developer about this bug and with what conditions caused it.".toList

/-- `general_extraDetails` and `transfer_extraDetails`: the cells that they read of the row
that is selected. -/
def extraDetails : Option Nat → TableProc Unit
  | none => pure ()
  | some row => do
    let _ ← readCell row mnUrlCol
    let _ ← readCell row mnDestinationCol
    let _ ← readCell row mnFilesizeCol
    let _ ← readCell row mnHiddenUniqueId
    let _ ← readCell row mnUrlCol
    pure ()

/-- `manageDlStats`, for a row and the download that it shows. -/
def showStats (view : StatView) (selected : Option Nat) (row : Nat) (c : CachedDownload)
    (xferStat : GkXferStats) : TableProc Unit := do
  writeCell row mnProgressCol (progressText view c xferStat)
  writeCell row mnDownspeedCol (rateText xferStat.downloadRate)
  writeCell row mnUpspeedCol (uploadText xferStat)
  writeCell row mnDownloadedCol (numberConverter xferStat.downloadTotal)
  if xferStat.curTime.isSome ∧ c.stats.timerBegin = 0 then Proc.throw invalidTimer
  else extraDetails selected

/-- The loop of `manageDlStats` over the cache. -/
def showCached (view : StatView) (selected : Option Nat) (row : Nat) (uniqueId : Str) :
    List CachedDownload → TableProc Unit
  | [] => pure ()
  | c :: rest =>
    if 1 < c.stats.xferStats.length ∧ uniqueId = c.uniqueId then
      match c.stats.xferStats.getLast? with
      | some xferStat => do
        showStats view selected row c xferStat
        showCached view selected row uniqueId rest
      | none => showCached view selected row uniqueId rest
    else showCached view selected row uniqueId rest

/-- The loop over the rows. -/
def showRows (view : StatView) (selected : Option Nat) (cache : List CachedDownload) :
    List Nat → TableProc Unit
  | [] => pure ()
  | row :: rest => do
    let _ ← readCell row mnDestinationCol
    let uniqueId ← readCell row mnHiddenUniqueId
    showCached view selected row uniqueId cache
    showRows view selected cache rest

/-- `manageDlStats`: whether it has met no error. -/
def manageDlStats (view : StatView) (selected : Option Nat) (cache : List CachedDownload) :
    TableProc Bool :=
  Proc.catching (do
    let vectorList ← Proc.state
    showRows view selected cache (List.range vectorList.length)
    pure true) fun _ => pure false

/-! ## What the slot writes -/

section Cells

variable {vectorList after : VectorList} {row : Nat} {cells : List Str}

theorem keeps_readCell (row column : Nat) : Proc.Keeps id (readCell row column) := by
  refine Proc.Keeps.state.bind fun vectorList => Proc.Keeps.bind ?_ fun value => Proc.Keeps.ret _
  rcases data vectorList (modelIndex vectorList row column) .displayRole with fault | value
  · cases fault with
    | undefined => exact fun _ => rfl
    | outOfRange => exact fun _ => rfl
    | invalidArgument => exact fun _ => rfl
  · exact fun _ => rfl

theorem keeps_extraDetails (selected : Option Nat) : Proc.Keeps id (extraDetails selected) := by
  cases selected with
  | none => exact Proc.Keeps.ret ()
  | some row =>
    refine (keeps_readCell row mnUrlCol).bind ?_
    intro _
    refine (keeps_readCell row mnDestinationCol).bind ?_
    intro _
    refine (keeps_readCell row mnFilesizeCol).bind ?_
    intro _
    refine (keeps_readCell row mnHiddenUniqueId).bind ?_
    intro _
    exact (keeps_readCell row mnUrlCol).bind fun _ => Proc.Keeps.ret ()

/-- A cell that is read is there. -/
theorem readCell_ret (hrow : vectorList[row]? = some cells) {column : Nat}
    (hcolumn : column < mnColCount) {text : Str}
    (h : readCell row column vectorList = (.ret text, after)) :
    after = vectorList ∧ cells[column]? = some text := by
  have hlt : row < vectorList.length := (List.getElem?_eq_some_iff.mp hrow).1
  have hstate : after = vectorList := by
    rw [← id_eq vectorList, ← keeps_readCell row column vectorList, h, id_eq]
  refine ⟨hstate, ?_⟩
  rw [readCell, Proc.state_bind, modelIndex_of_lt hlt hcolumn, data_nat hrow hcolumn] at h
  rcases htext : cells[column]? with _ | cell
  · rw [htext] at h
    cases h
  · rw [htext] at h
    cases h
    rfl

theorem writeCell_eq (hrow : vectorList[row]? = some cells) {column : Nat}
    (hcolumn : column < mnColCount) (hlength : column < cells.length) (text : Str) :
    writeCell row column text vectorList =
      (.ret (), vectorList.set row (cells.set column text)) := by
  have hlt : row < vectorList.length := (List.getElem?_eq_some_iff.mp hrow).1
  rw [writeCell, Proc.state_bind, modelIndex_of_lt hlt hcolumn, updateCol_eq hrow hlength]
  rfl

/-- The cells of a row, with the statistics of its download. -/
def statCells (view : StatView) (c : CachedDownload) (xferStat : GkXferStats) (cells : List Str) :
    List Str :=
  (((cells.set mnProgressCol (progressText view c xferStat)).set mnDownspeedCol
    (rateText xferStat.downloadRate)).set mnUpspeedCol (uploadText xferStat)).set
    mnDownloadedCol (numberConverter xferStat.downloadTotal)

theorem length_statCells (view : StatView) (c : CachedDownload) (xferStat : GkXferStats)
    (cells : List Str) : (statCells view c xferStat cells).length = cells.length := by
  simp [statCells]

/-- The statistics of a download are written in its row. -/
theorem showStats_ret (view : StatView) (selected : Option Nat) (c : CachedDownload)
    (xferStat : GkXferStats) (hrow : vectorList[row]? = some cells)
    (hlength : mnColCount ≤ cells.length)
    (h : showStats view selected row c xferStat vectorList = (.ret (), after)) :
    after = vectorList.set row (statCells view c xferStat cells) := by
  have hlt : row < vectorList.length := (List.getElem?_eq_some_iff.mp hrow).1
  have hwrite : ∀ (written : List Str) (column : Nat) (text : Str), column < mnColCount →
      written.length = cells.length →
      writeCell row column text (vectorList.set row written) =
        (.ret (), vectorList.set row (written.set column text)) := by
    intro written column text hcolumn hwritten
    have hset : (vectorList.set row written)[row]? = some written := List.getElem?_set_self hlt
    rw [writeCell_eq hset hcolumn (by omega), List.set_set]
  rw [showStats,
    Proc.bind_ret (writeCell_eq hrow (by decide) (Nat.lt_of_lt_of_le (by decide) hlength) _),
    Proc.bind_ret (hwrite _ _ _ (by decide) List.length_set),
    Proc.bind_ret (hwrite _ _ _ (by decide) (by simp)),
    Proc.bind_ret (hwrite _ _ _ (by decide) (by simp))] at h
  split at h
  · cases h
  · have hkept := keeps_extraDetails selected
      (vectorList.set row (statCells view c xferStat cells))
    rw [id_eq, id_eq] at hkept
    rw [← hkept]
    exact (congrArg Prod.snd h).symm

/-- The cells of a row, with the statistics of a download if it is the one of the row. -/
def withStats (view : StatView) (uniqueId : Str) (cells : List Str) (c : CachedDownload) :
    List Str :=
  if 1 < c.stats.xferStats.length ∧ uniqueId = c.uniqueId then
    match c.stats.xferStats.getLast? with
    | some xferStat => statCells view c xferStat cells
    | none => cells
  else cells

/-- The cells of a row after `manageDlStats`. -/
def shownRow (view : StatView) (cache : List CachedDownload) (cells : List Str) : List Str :=
  cache.foldl (withStats view (cells.getD mnHiddenUniqueId [])) cells

theorem showCached_ret (view : StatView) (selected : Option Nat) (uniqueId : Str)
    (cache : List CachedDownload) (hrow : vectorList[row]? = some cells)
    (hlength : mnColCount ≤ cells.length)
    (h : showCached view selected row uniqueId cache vectorList = (.ret (), after)) :
    after = vectorList.set row (cache.foldl (withStats view uniqueId) cells) := by
  have hlt : row < vectorList.length := (List.getElem?_eq_some_iff.mp hrow).1
  induction cache generalizing vectorList cells with
  | nil =>
    cases h
    rcases List.getElem?_eq_some_iff.mp hrow with ⟨hlt, rfl⟩
    rw [List.foldl_nil, List.set_getElem_self]
  | cons c rest ih =>
    rw [showCached] at h
    rw [List.foldl_cons, withStats]
    split at h
    · rename_i hid
      rw [if_pos hid]
      rcases hlast : c.stats.xferStats.getLast? with _ | xferStat
      · rw [hlast] at h
        exact ih hrow hlength h hlt
      · rw [hlast] at h
        rcases Proc.bind_eq_ret h with ⟨_, middle, hshow, hrest⟩
        have hmiddle := showStats_ret view selected c xferStat hrow hlength hshow
        subst hmiddle
        have hset : (vectorList.set row (statCells view c xferStat cells))[row]? =
            some (statCells view c xferStat cells) := List.getElem?_set_self hlt
        have hafter := ih hset (by rwa [length_statCells]) hrest (by rwa [List.length_set])
        rw [hafter, List.set_set]
    · rename_i hid
      rw [if_neg hid]
      exact ih hrow hlength h hlt

/-- The rows that the loop has come to show the statistics, the others are as they were. -/
theorem showRows_ret (view : StatView) (selected : Option Nat) (cache : List CachedDownload)
    {rows : List Nat} (hnodup : rows.Nodup) (hrows : ∀ row ∈ rows, row < vectorList.length)
    (h : showRows view selected cache rows vectorList = (.ret (), after)) (row : Nat) :
    (row ∈ rows → ∃ cells, vectorList[row]? = some cells ∧ mnColCount ≤ cells.length ∧
      after[row]? = some (shownRow view cache cells)) ∧
    (row ∉ rows → after[row]? = vectorList[row]?) := by
  induction rows generalizing vectorList with
  | nil =>
    cases h
    exact ⟨fun hmem => absurd hmem List.not_mem_nil, fun _ => rfl⟩
  | cons first rest ih =>
    rw [List.nodup_cons] at hnodup
    obtain ⟨cells, hfirst⟩ : ∃ cells, vectorList[first]? = some cells :=
      ⟨_, List.getElem?_eq_getElem (hrows first List.mem_cons_self)⟩
    rw [showRows] at h
    rcases Proc.bind_eq_ret h with ⟨dest, v₁, hdest, h₁⟩
    rcases readCell_ret hfirst (by decide) hdest with ⟨rfl, -⟩
    rcases Proc.bind_eq_ret h₁ with ⟨uniqueId, v₂, hid, h₂⟩
    rcases readCell_ret hfirst (by decide) hid with ⟨rfl, hidText⟩
    rcases Proc.bind_eq_ret h₂ with ⟨_, v₃, hcached, hrest⟩
    have hlength : mnColCount ≤ cells.length := (List.getElem?_eq_some_iff.mp hidText).1
    have hv₃ : v₃ = v₂.set first (shownRow view cache cells) := by
      have hset := showCached_ret view selected uniqueId cache hfirst hlength hcached
      rwa [← Option.getD_some (a := uniqueId) (b := []), ← hidText,
        ← List.getD_eq_getElem?_getD] at hset
    have hrest' : ∀ r ∈ rest, r < v₃.length := fun r hr => by
      rw [hv₃, List.length_set]
      exact hrows r (List.mem_cons_of_mem _ hr)
    have hbehind := ih hnodup.2 hrest' hrest
    by_cases hrow : row = first
    · -- the rows behind it are other ones
      subst hrow
      have hafter := hbehind.2 hnodup.1
      rw [hv₃, List.getElem?_set_self (hrows row List.mem_cons_self)] at hafter
      exact ⟨fun _ => ⟨cells, hfirst, hlength, hafter⟩, fun hnot =>
        absurd List.mem_cons_self hnot⟩
    · have hsame : v₃[row]? = v₂[row]? := by
        rw [hv₃, List.getElem?_set_ne fun heq => hrow heq.symm]
      rw [hsame] at hbehind
      exact ⟨fun hmem => hbehind.1 ((List.mem_cons.mp hmem).resolve_left hrow),
        fun hnot => hbehind.2 fun hmem => hnot (List.mem_cons_of_mem _ hmem)⟩

/-- **What the slot leaves of the table**, if it meets no error. -/
theorem manageDlStats_ret {view : StatView} {selected : Option Nat} {cache : List CachedDownload}
    (h : manageDlStats view selected cache vectorList = (.ret true, after))
    (hrow : vectorList[row]? = some cells) :
    mnColCount ≤ cells.length ∧ after[row]? = some (shownRow view cache cells) := by
  have hbody : (do
      let vectorList ← Proc.state
      showRows view selected cache (List.range vectorList.length)
      pure true : TableProc Bool) vectorList = (.ret true, after) := by
    rw [manageDlStats, Proc.catching] at h
    split at h
    · cases h
    · exact h
  rw [Proc.state_bind] at hbody
  rcases Proc.bind_eq_ret hbody with ⟨_, v, hrows, hpure⟩
  cases hpure
  have hlt : row < vectorList.length := (List.getElem?_eq_some_iff.mp hrow).1
  rcases (showRows_ret view selected cache List.nodup_range (fun r hr => List.mem_range.mp hr)
    hrows row).1 (List.mem_range.mpr hlt) with ⟨cells', hcells', hlength, hafter⟩
  rw [hrow] at hcells'
  cases hcells'
  exact ⟨hlength, hafter⟩

end Cells

/-! ## The progress of the torrents -/

/-- The whole number that is nearest to the percentage, with halves rounded up. -/
def nearestPercent (progressPpm : Int) : Int := ⌊(100 * progressPpm / 1000000 : ℚ) + 1 / 2⌋

theorem nearestPercent_eq (progressPpm : Int) :
    nearestPercent progressPpm = (progressPpm + 5000) / 10000 := by
  have hquotient : (100 * progressPpm / 1000000 : ℚ) + 1 / 2 =
      ((progressPpm + 5000 : Int) : ℚ) / ((10000 : Nat) : ℚ) := by
    push_cast
    ring
  rw [nearestPercent, hquotient, Rat.floor_intCast_div_natCast]
  rfl

theorem roundHalfAway_int (n : Int) : roundHalfAway n = n := by
  have hfloor : ∀ m : Int, ⌊(m : ℚ) + 1 / 2⌋ = m := fun m => by
    rw [Int.floor_eq_iff]
    constructor <;> linarith
  unfold roundHalfAway
  split
  · have hneg := hfloor (-n)
    rw [Int.cast_neg] at hneg
    rw [hneg, neg_neg]
  · exact hfloor n

/-- The quotient of the whole numbers is zero up to the end. -/
theorem progressPercent_eq {progressPpm : Int} (hmin : 0 ≤ progressPpm)
    (hmax : progressPpm ≤ 1000000) :
    progressPercent progressPpm = if progressPpm = 1000000 then 100 else 0 := by
  rw [progressPercent, roundHalfAway_int, Int.tdiv_eq_ediv_of_nonneg hmin]
  split <;> omega

/-- The percentage is right at the two ends only. -/
theorem progressPercent_nearest_iff {progressPpm : Int} (hmin : 0 ≤ progressPpm)
    (hmax : progressPpm ≤ 1000000) :
    progressPercent progressPpm = nearestPercent progressPpm ↔
      progressPpm < 5000 ∨ progressPpm = 1000000 := by
  rw [progressPercent_eq hmin hmax, nearestPercent_eq]
  split <;> omega

/-- The download that a row shows. -/
def ShownBy (cells : List Str) (c : CachedDownload) : Prop :=
  cells[mnHiddenUniqueId]? = some c.uniqueId

/-- The torrent of the row has the last entry of its statistics shown. -/
def HasProgress (cache : List CachedDownload) (cells : List Str) (xferStat : GkXferStats) : Prop :=
  ∃ c ∈ cache, ShownBy cells c ∧ IsTorrent c.toDownloadInfo ∧
    1 < c.stats.xferStats.length ∧ c.stats.xferStats.getLast? = some xferStat

/-- Each torrent with more than one entry shows the progress of the last one, and the rows
without such a download are as they were. -/
structure ShowsProgress (cache : List CachedDownload) (before after : VectorList) : Prop where
  progress : ∀ (row : Nat) (cells : List Str) (xferStat : GkXferStats),
    before[row]? = some cells → HasProgress cache cells xferStat →
      data after ⟨row, mnProgressCol⟩ .displayRole =
        .ok (some (toText (nearestPercent xferStat.progressPpm)))
  others : ∀ (row : Nat) (cells : List Str), before[row]? = some cells →
    (∀ c ∈ cache, ShownBy cells c → c.stats.xferStats.length ≤ 1) → after[row]? = some cells

section Progress

variable {cache : List CachedDownload} {cells : List Str} {view : StatView}

theorem withStats_other {uniqueId : Str} {c : CachedDownload}
    (h : c.uniqueId = uniqueId → c.stats.xferStats.length ≤ 1) (cells : List Str) :
    withStats view uniqueId cells c = cells := by
  rw [withStats, if_neg]
  rintro ⟨hlength, hid⟩
  exact absurd (h hid.symm) (Nat.not_le.mpr hlength)

theorem hiddenId_eq (hlength : mnColCount ≤ cells.length) :
    cells[mnHiddenUniqueId]? = some (cells.getD mnHiddenUniqueId []) := by
  have hlt : mnHiddenUniqueId < cells.length := Nat.lt_of_lt_of_le (by decide) hlength
  rw [List.getD_eq_getElem?_getD, List.getElem?_eq_getElem hlt, Option.getD_some]

/-- A row whose download has no more than one entry stays as it is. -/
theorem shownRow_other (hlength : mnColCount ≤ cells.length)
    (h : ∀ c ∈ cache, ShownBy cells c → c.stats.xferStats.length ≤ 1) :
    shownRow view cache cells = cells := by
  refine run_fixed fun c hc => withStats_other (fun hid => h c hc ?_) cells
  rw [ShownBy, hiddenId_eq hlength, hid]

/-- A row with a download of more entries shows the last one of them. -/
theorem shownRow_eq (hdistinct : (cache.map fun c => c.uniqueId).Nodup) {c : CachedDownload}
    {xferStat : GkXferStats} (hc : c ∈ cache) (hshown : ShownBy cells c)
    (hmany : 1 < c.stats.xferStats.length) (hlast : c.stats.xferStats.getLast? = some xferStat) :
    shownRow view cache cells = statCells view c xferStat cells := by
  have hid : cells.getD mnHiddenUniqueId [] = c.uniqueId := by
    rw [List.getD_eq_getElem?_getD, hshown, Option.getD_some]
  rcases List.append_of_mem hc with ⟨front, behind, rfl⟩
  rw [List.map_append, List.map_cons, List.nodup_append, List.nodup_cons] at hdistinct
  -- no other download has the id
  have hfront : ∀ b ∈ front, ∀ cells', withStats view c.uniqueId cells' b = cells' := by
    intro b hb
    refine withStats_other ?_
    intro heq
    exact absurd heq (hdistinct.2.2 _ (List.mem_map_of_mem hb) _ List.mem_cons_self)
  have hbehind : ∀ b ∈ behind, ∀ cells', withStats view c.uniqueId cells' b = cells' := by
    intro b hb
    refine withStats_other fun heq => absurd ?_ hdistinct.2.1.1
    rw [← heq]
    exact List.mem_map_of_mem hb
  have hown : withStats view c.uniqueId cells c = statCells view c xferStat cells := by
    rw [withStats, if_pos ⟨hmany, rfl⟩, hlast]
  rw [shownRow, hid, List.foldl_append, List.foldl_cons,
    run_fixed fun b hb => hfront b hb cells, hown]
  exact run_fixed fun b hb => hbehind b hb _

theorem statCells_progress (c : CachedDownload) (xferStat : GkXferStats)
    (hlength : mnColCount ≤ cells.length) :
    (statCells view c xferStat cells)[mnProgressCol]? = some (progressText view c xferStat) := by
  have hlt : mnProgressCol < cells.length := Nat.lt_of_lt_of_le (by decide) hlength
  have hdown : mnDownspeedCol ≠ mnProgressCol := by decide
  have hup : mnUpspeedCol ≠ mnProgressCol := by decide
  have hamount : mnDownloadedCol ≠ mnProgressCol := by decide
  rw [statCells, List.getElem?_set_ne hamount, List.getElem?_set_ne hup,
    List.getElem?_set_ne hdown, List.getElem?_set_self hlt]

/-- **The progress of the torrents is right exactly at its two ends**: each torrent that
is shown has loaded less than half a percent, or all. -/
theorem showsProgress_iff (view : StatView)
    (hnumber : ∀ n : Int, 0 ≤ n → n ≤ 100 → view.number n = toText n)
    (selected : Option Nat) (cache : List CachedDownload) (before after : VectorList)
    (hdistinct : (cache.map fun c => c.uniqueId).Nodup)
    (hppm : ∀ c ∈ cache, IsTorrent c.toDownloadInfo → ∀ xferStat ∈ c.stats.xferStats,
      0 ≤ xferStat.progressPpm ∧ xferStat.progressPpm ≤ 1000000)
    (hrun : manageDlStats view selected cache before = (.ret true, after)) :
    ShowsProgress cache before after ↔
      ∀ (row : Nat) (cells : List Str) (xferStat : GkXferStats), before[row]? = some cells →
        HasProgress cache cells xferStat →
          xferStat.progressPpm < 5000 ∨ xferStat.progressPpm = 1000000 := by
  -- what is shown in place of the nearest percentage
  have hshows : ∀ (row : Nat) (cells : List Str) (xferStat : GkXferStats),
      before[row]? = some cells → HasProgress cache cells xferStat →
        (data after ⟨row, mnProgressCol⟩ .displayRole =
            .ok (some (toText (nearestPercent xferStat.progressPpm))) ↔
          xferStat.progressPpm < 5000 ∨ xferStat.progressPpm = 1000000) := by
    rintro row cells xferStat hrow ⟨c, hc, hshown, htorrent, hmany, hlast⟩
    rcases hppm c hc htorrent xferStat (List.mem_of_getLast? hlast) with ⟨hmin, hmax⟩
    rcases manageDlStats_ret hrun hrow with ⟨hlength, hafter⟩
    rw [shownRow_eq hdistinct hc hshown hmany hlast] at hafter
    have hpercent := progressPercent_eq hmin hmax
    have htext : progressText view c xferStat = toText (progressPercent xferStat.progressPpm) := by
      rw [progressText, if_pos htorrent]
      apply hnumber
      · rw [hpercent]
        split <;> decide
      · rw [hpercent]
        split <;> decide
    rw [data_cell hafter (by decide) (statCells_progress c xferStat hlength), htext,
      Except.ok.injEq, Option.some.injEq, toText_injective.eq_iff]
    exact progressPercent_nearest_iff hmin hmax
  constructor
  · intro h row cells xferStat hrow hhas
    exact (hshows row cells xferStat hrow hhas).mp (h.progress row cells xferStat hrow hhas)
  · intro h
    refine ⟨fun row cells xferStat hrow hhas =>
      (hshows row cells xferStat hrow hhas).mpr (h row cells xferStat hrow hhas), ?_⟩
    intro row cells hrow hothers
    rcases manageDlStats_ret hrun hrow with ⟨hlength, hafter⟩
    rwa [shownRow_other hlength hothers] at hafter

end Progress

/-- Whole numbers as they are. -/
def plainView : StatView := ⟨plainTexts.number, plainTexts.number, fun _ => [], fun _ => 0⟩

/-- The table with one row. -/
def oneRow (uniqueId : Str) : VectorList :=
  [(newRowCells plainTexts (sampleRow uniqueId)).map Prod.snd]

/-- A torrent that has reported its progress once. -/
def reportedTorrent (progressPpm : Int) : CachedDownload :=
  { dlType := .torrent
    dlDest := sampleInfo.fileLoc
    uniqueId := ['1']
    toInfo := none
    curlInfo := none
    stats :=
      { timerBegin := 7
        contentLength := none
        xferStats := [⟨some 0, 0, 0, 0, some 0, none, none⟩,
          ⟨some 10, 2048, progressPpm, 4096, some 10, some 2, some 9⟩] } }

/-- A complete torrent shows its progress. -/
theorem showsProgress_complete :
    manageDlStats plainView none [reportedTorrent 1000000] (oneRow ['1']) =
        (.ret true, (manageDlStats plainView none [reportedTorrent 1000000] (oneRow ['1'])).2) ∧
      (ShowsProgress [reportedTorrent 1000000] (oneRow ['1'])
          (manageDlStats plainView none [reportedTorrent 1000000] (oneRow ['1'])).2 ↔
        ∀ (row : Nat) (cells : List Str) (xferStat : GkXferStats),
          (oneRow ['1'])[row]? = some cells →
            HasProgress [reportedTorrent 1000000] cells xferStat →
              xferStat.progressPpm < 5000 ∨ xferStat.progressPpm = 1000000) := by
  have hrun : manageDlStats plainView none [reportedTorrent 1000000] (oneRow ['1']) =
      (.ret true, (manageDlStats plainView none [reportedTorrent 1000000] (oneRow ['1'])).2) := by
    decide +kernel
  refine ⟨hrun, showsProgress_iff plainView (fun n _ _ => rfl) none _ _ _
    (List.nodup_singleton _) ?_ hrun⟩
  intro c hc _ xferStat hx
  rw [List.mem_singleton.mp hc] at hx
  revert xferStat
  decide

/-- A torrent that is half done shows 0. -/
theorem showsProgress_half :
    (manageDlStats plainView none [reportedTorrent 500000] (oneRow ['1'])).1 = .ret true ∧
      data (manageDlStats plainView none [reportedTorrent 500000] (oneRow ['1'])).2
        ⟨0, mnProgressCol⟩ .displayRole = .ok (some ['0']) ∧
      ¬ ShowsProgress [reportedTorrent 500000] (oneRow ['1'])
        (manageDlStats plainView none [reportedTorrent 500000] (oneRow ['1'])).2 := by
  have hshown : data (manageDlStats plainView none [reportedTorrent 500000] (oneRow ['1'])).2
      ⟨0, mnProgressCol⟩ .displayRole = .ok (some ['0']) := by decide +kernel
  refine ⟨by decide +kernel, hshown, ?_⟩
  intro h
  have hfifty := h.progress 0 _ ⟨some 10, 2048, 500000, 4096, some 10, some 2, some 9⟩ rfl
    ⟨reportedTorrent 500000, List.mem_singleton_self _, rfl, Or.inl rfl, by decide, rfl⟩
  rw [nearestPercent_eq] at hfifty
  exact absurd (hshown.symm.trans hfifty) (by decide)

end FyreDL.Gui
