import FyreDL.Gui.DeadRows
import FyreDL.Gui.Statistics

/-!
# FyreDL.Gui.XferStats — how often a progress report is counted

`startHttpDownload` connects `sendXferStats` with `recvCurl_XferStats` each time that it
starts a download, whichever one, and nothing disconnects them. A report is delivered once
for each connection.

* The state is a `Board`: a desk, and the cache with its statistics. The slots leave the
  cache of the desk as it is (`Proc.Keeps`), so that the two keep listing the same
  downloads.
* A report is delivered where it is sent. `recvCurl_XferStats` calls `manageDlStats`, which
  changes cells of the table only.
* `countsOnce_iff` — over any run, each report is counted once exactly if it comes after
  one start that got through, or is about a file that is not in the cache.
-/

namespace FyreDL.Gui

open Lib Lib.Kv Store Transfer

/-! ## What the slots leave alone -/

/-- A part of the desk that is neither in the database nor in the table, and that
`sendStopDownload` does not change. -/
structure Untouched {γ : Type} (f : Desk → γ) : Prop where
  db : ∀ (d : Desk) (db : Db), f { d with db := db } = f d
  rows : ∀ (d : Desk) (vectorList : VectorList),
    f { d with window := { d.window with vectorList := vectorList } } = f d
  stop : ∀ (d : Desk) (fileLoc : Str), f { d with
    stopConnections := d.stopConnections + 1
    sent := d.sent ++ [.stopDownload fileLoc] } = f d

section Keeps

variable {γ : Type} {f : Desk → γ}

theorem keeps_ofDb {α : Type} (hf : Untouched f) (faults : Faults Str) (p : DbProg α) :
    Proc.Keeps f (ofDb faults p) := by
  intro d
  rw [ofDb]
  rcases exec faults p (Machine.start d.db) with ⟨o, m⟩
  cases o with
  | ret a => exact hf.db d m.store
  | throw what => exact hf.db d m.store
  | hung => exact hf.db d m.store
  | stopped => exact hf.db d m.store

theorem keeps_cellText (hf : Untouched f) (row column : Nat) :
    Proc.Keeps f (cellText row column) :=
  Proc.Keeps.state.bind fun _ => keeps_ofDb hf _ _

theorem keeps_shownStatus (hf : Untouched f) (row : Nat) : Proc.Keeps f (shownStatus row) :=
  (keeps_cellText hf row mnStatusCol).bind fun _ => Proc.Keeps.ret _

theorem keeps_showStatus (hf : Untouched f) (row : Nat) (status : DownloadStatus) :
    Proc.Keeps f (showStatus row status) := by
  refine Proc.Keeps.state.bind fun d => (keeps_ofDb hf _ _).bind ?_
  intro result
  exact Proc.Keeps.modify fun d => hf.rows d result.2

theorem keeps_storeStatus (hf : Untouched f) (world : World) (fileLoc : Str)
    (status : DownloadStatus) : Proc.Keeps f (storeStatus world fileLoc status) :=
  (keeps_ofDb hf _ _).bind fun _ => Proc.Keeps.ret _

theorem keeps_sendStopDownload (hf : Untouched f) (world : World) (fileLoc : Str) :
    Proc.Keeps f (sendStopDownload world fileLoc) := by
  refine Proc.Keeps.bind (Proc.Keeps.modify fun d => hf.stop d fileLoc) ?_
  intro _
  refine Proc.Keeps.state.bind ?_
  intro d
  split
  · exact Proc.Keeps.ret ()
  · exact Proc.Keeps.throw _

theorem keeps_catchStd {α : Type} {p : Slot α} (hp : Proc.Keeps f p) (a : α) :
    Proc.Keeps f (catchStd p a) := by
  refine hp.catching ?_
  intro x
  cases x with
  | exception what => exact Proc.Keeps.ret a
  | category name => exact Proc.Keeps.throw _

theorem keeps_forCached (uniqueId : Str) {body : DownloadInfo → Slot Bool}
    (h : ∀ info, Proc.Keeps f (body info)) : Proc.Keeps f (forCached uniqueId body) := by
  refine Proc.Keeps.state.bind fun d => Proc.Keeps.seek (fun info => ?_) _
  split
  · exact h info
  · exact Proc.Keeps.ret false

theorem keeps_removeFile (world : World) (path : Str) : Proc.Keeps f (removeFile world path) := by
  unfold removeFile
  split
  · exact Proc.Keeps.ret ()
  · exact Proc.Keeps.throw _

/-- A start touches what the others do, and the signals. -/
theorem keeps_startHttpDownload (hf : Untouched f)
    (hstart : ∀ (d : Desk) (url fileDest : Str) (resumeDl : Bool),
      f { d with sent := d.sent ++ [.startDownload url fileDest resumeDl] } = f d)
    (world : World) (row : Nat) (fileDest uniqueId : Str) (resumeDl : Bool) :
    Proc.Keeps f (startHttpDownload world row fileDest uniqueId resumeDl) := by
  refine (keeps_cellText hf row mnUrlCol).bind ?_
  intro url
  refine (keeps_shownStatus hf row).bind ?_
  intro status
  refine keeps_catchStd (keeps_forCached uniqueId fun info => ?_) ()
  split
  · split
    · exact Proc.Keeps.throw _
    · split
      · refine (keeps_storeStatus hf world fileDest .downloading).bind ?_
        intro _
        refine (keeps_showStatus hf row .downloading).bind ?_
        intro _
        exact Proc.Keeps.bind (Proc.Keeps.modify fun d => hstart d url fileDest resumeDl)
          fun _ => Proc.Keeps.ret true
      · exact Proc.Keeps.throw _
  · exact Proc.Keeps.ret false

/-- A file is deleted without a start. -/
theorem keeps_askDeleteHttpItem (world : World) (row : Nat) (fileDest uniqueId : Str) :
    Proc.Keeps f (askDeleteHttpItem world row fileDest uniqueId true) := by
  unfold askDeleteHttpItem
  split
  · exact Proc.Keeps.throw _
  · exact Proc.Keeps.ret false
  · split
    · refine keeps_catchStd ((keeps_removeFile world fileDest).bind fun _ => ?_) false
      exact Proc.Keeps.bind (Proc.Keeps.ret ()) fun _ => Proc.Keeps.ret true
    · exact Proc.Keeps.ret false

theorem keeps_haltDownload (hf : Untouched f) (world : World) (selected : Option Nat) :
    Proc.Keeps f (haltDownload world selected) := by
  cases selected with
  | none => exact Proc.Keeps.ret ()
  | some row =>
    refine keeps_catchStd ?_ ()
    refine (keeps_cellText hf row mnDestinationCol).bind ?_
    intro dest
    refine (keeps_cellText hf row mnHiddenUniqueId).bind ?_
    intro uniqueId
    refine (keeps_shownStatus hf row).bind fun status => keeps_forCached uniqueId ?_
    intro info
    split
    · split
      · exact Proc.Keeps.ret false
      · split
        · exact Proc.Keeps.ret true
        · split
          · exact Proc.Keeps.ret false
          · refine (keeps_sendStopDownload hf world dest).bind ?_
            intro _
            refine (keeps_storeStatus hf world dest .stopped).bind ?_
            intro _
            refine (keeps_showStatus hf row .stopped).bind ?_
            intro _
            exact (keeps_askDeleteHttpItem world row dest uniqueId).bind fun _ =>
              Proc.Keeps.ret false
    · exact Proc.Keeps.ret _

theorem keeps_pauseDownload (hf : Untouched f) (world : World) (selected : Option Nat) :
    Proc.Keeps f (pauseDownload world selected) := by
  cases selected with
  | none => exact Proc.Keeps.ret ()
  | some row =>
    refine keeps_catchStd ?_ ()
    refine (keeps_cellText hf row mnDestinationCol).bind ?_
    intro dest
    refine (keeps_cellText hf row mnHiddenUniqueId).bind ?_
    intro uniqueId
    refine (keeps_shownStatus hf row).bind ?_
    intro status
    split
    · refine keeps_forCached uniqueId ?_
      intro info
      split
      · split
        · refine (keeps_sendStopDownload hf world dest).bind ?_
          intro _
          refine (keeps_storeStatus hf world dest .paused).bind ?_
          intro _
          exact (keeps_showStatus hf row .paused).bind fun _ => Proc.Keeps.ret false
        · exact Proc.Keeps.ret true
      · exact Proc.Keeps.ret _
    · exact Proc.Keeps.ret ()

end Keeps

/-! ## Connections -/

def Signal.isStart : Signal → Bool
  | .startDownload _ _ _ => true
  | .stopDownload _ => false

/-- How often `sendXferStats` is connected: once in front of each `sendStartDownload`. -/
def Desk.xferConnections (d : Desk) : Nat := d.sent.countP Signal.isStart

def Desk.cache (d : Desk) : List DownloadInfo := d.window.gkDlInfoCache

theorem untouched_cache : Untouched Desk.cache := ⟨fun _ _ => rfl, fun _ _ => rfl, fun _ _ => rfl⟩

/-! ## The board -/

/-- A desk, and its cache with the statistics. -/
structure Board where
  desk : Desk
  cache : List CachedDownload
  agrees : cache.map CachedDownload.toDownloadInfo = desk.cache

/-- What the window does, and what it is told. -/
inductive XferAction where
  | startHttpDownload (world : World) (row : Nat) (fileDest uniqueId : Str) (resumeDl : Bool)
  | pauseDownload (world : World) (selected : Option Nat)
  | haltDownload (world : World) (selected : Option Nat)
  | sendXferStats (view : StatView) (selected : Option Nat) (now progressPpm : Int)
    (info : CurlProgressPtr)

theorem recvCurlXferStats_infos (now progressPpm : Int) (info : CurlProgressPtr)
    (cache : List CachedDownload) :
    (recvCurlXferStats now progressPpm info cache).map CachedDownload.toDownloadInfo =
      cache.map CachedDownload.toDownloadInfo := by
  induction cache with
  | nil => rfl
  | cons c rest ih =>
    rw [recvCurlXferStats]
    split
    · rfl
    · rw [List.map_cons, List.map_cons, ih]

/-- A slot that leaves the cache as it is. -/
def Board.act (b : Board) (slot : Slot Unit) (h : Proc.Keeps Desk.cache slot) : Board where
  desk := (slot b.desk).2
  cache := b.cache
  agrees := b.agrees.trans (h b.desk).symm

/-- A report is delivered once: it is counted, and the statistics are shown if there is a
download for it. -/
def Board.deliver (view : StatView) (selected : Option Nat) (now progressPpm : Int)
    (info : CurlProgressPtr) (b : Board) : Board :=
  let cache := recvCurlXferStats now progressPpm info b.cache
  { desk :=
      if ∃ c ∈ b.cache, HasDest info.fileDest c then
        { b.desk with
          window := { b.desk.window with
            vectorList := (manageDlStats view selected cache b.desk.window.vectorList).2 } }
      else b.desk
    cache := cache
    agrees := by
      rw [recvCurlXferStats_infos, b.agrees]
      split
      · rfl
      · rfl }

/-- The state after an action. A report is delivered for each connection. -/
def Board.step (b : Board) : XferAction → Board
  | .startHttpDownload world row fileDest uniqueId resumeDl =>
    b.act (startHttpDownload world row fileDest uniqueId resumeDl)
      (keeps_startHttpDownload untouched_cache (fun _ _ _ _ => rfl) world row fileDest uniqueId
        resumeDl)
  | .pauseDownload world selected =>
    b.act (pauseDownload world selected) (keeps_pauseDownload untouched_cache world selected)
  | .haltDownload world selected =>
    b.act (haltDownload world selected) (keeps_haltDownload untouched_cache world selected)
  | .sendXferStats view selected now progressPpm info =>
    (Board.deliver view selected now progressPpm info)^[b.desk.xferConnections] b

/-- The HTTP/FTP downloads have distinct destinations. -/
def DistinctDests (infos : List DownloadInfo) : Prop :=
  infos.Pairwise fun a b => IsHttp a → IsHttp b → a.dlDest ≠ b.dlDest

/-- A report is counted once: its download has one entry more, and the others have the
statistics they had. -/
def CountsOnce (b : Board) : XferAction → Prop
  | .startHttpDownload _ _ _ _ _ => True
  | .pauseDownload _ _ => True
  | .haltDownload _ _ => True
  | .sendXferStats view selected now progressPpm info =>
    List.Forall₂ (fun c c' : CachedDownload =>
        if HasDest info.fileDest c then
          c'.stats.xferStats = c.stats.xferStats ++ [curlStats now progressPpm info]
        else c'.stats = c.stats)
      b.cache (b.step (.sendXferStats view selected now progressPpm info)).cache

/-- A report comes after one start that got through, or is about no cached download. -/
def ConnectedOnce (b : Board) : XferAction → Prop
  | .startHttpDownload _ _ _ _ _ => True
  | .pauseDownload _ _ => True
  | .haltDownload _ _ => True
  | .sendXferStats _ _ _ _ info =>
    (∃ c ∈ b.cache, HasDest info.fileDest c) → b.desk.xferConnections = 1

section Counting

variable {b : Board}

/-- The statistics of a download after a delivery. -/
def counted (now progressPpm : Int) (info : CurlProgressPtr) (c : CachedDownload) :
    CachedDownload :=
  if HasDest info.fileDest c then
    { c with stats := c.stats.push now (curlStats now progressPpm info) }
  else c

theorem counted_info (now progressPpm : Int) (info : CurlProgressPtr) (c : CachedDownload) :
    (counted now progressPpm info c).toDownloadInfo = c.toDownloadInfo := by
  unfold counted
  split
  · rfl
  · rfl

/-- Where the destinations are distinct, the first download is the only one. -/
theorem recvCurlXferStats_eq (now progressPpm : Int) (info : CurlProgressPtr)
    {cache : List CachedDownload}
    (h : DistinctDests (cache.map CachedDownload.toDownloadInfo)) :
    recvCurlXferStats now progressPpm info cache = cache.map (counted now progressPpm info) := by
  induction cache with
  | nil => rfl
  | cons c rest ih =>
    rw [DistinctDests, List.map_cons, List.pairwise_cons] at h
    rw [recvCurlXferStats, List.map_cons, counted]
    by_cases hdest : HasDest info.fileDest c
    · rw [if_pos hdest, if_pos hdest]
      have hothers : ∀ d ∈ rest, counted now progressPpm info d = d := by
        intro d hd
        refine if_neg ?_
        intro hsame
        exact h.1 _ (List.mem_map_of_mem hd) hdest.1 hsame.1 (hdest.2.trans hsame.2.symm)
      rw [List.map_congr_left hothers, List.map_id']
    · rw [if_neg hdest, if_neg hdest, ih h.2]

/-- A delivery changes the cells of the table only. -/
theorem deliver_iterate (view : StatView) (selected : Option Nat) (now progressPpm : Int)
    (info : CurlProgressPtr) (n : Nat) (b : Board) :
    ((Board.deliver view selected now progressPpm info)^[n] b).desk.cache = b.desk.cache := by
  induction n generalizing b with
  | zero => rfl
  | succ n ih =>
    rw [Function.iterate_succ_apply, ih, Board.deliver]
    dsimp only
    split
    · rfl
    · rfl

theorem deliver_iterate_cache (view : StatView) (selected : Option Nat) (now progressPpm : Int)
    (info : CurlProgressPtr) (n : Nat) {b : Board} (h : DistinctDests b.desk.cache) :
    ((Board.deliver view selected now progressPpm info)^[n] b).cache =
      b.cache.map (counted now progressPpm info)^[n] := by
  induction n with
  | zero => exact (List.map_id' _).symm
  | succ n ih =>
    have hdistinct : DistinctDests
        (((Board.deliver view selected now progressPpm info)^[n] b).cache.map
          CachedDownload.toDownloadInfo) := by
      rw [Board.agrees, deliver_iterate view selected now progressPpm info n b]
      exact h
    rw [Function.iterate_succ_apply']
    change recvCurlXferStats now progressPpm info
      ((Board.deliver view selected now progressPpm info)^[n] b).cache = _
    rw [recvCurlXferStats_eq _ _ _ hdistinct, ih, List.map_map, Function.iterate_succ']

/-- A download is counted as often as it is delivered. -/
theorem counted_iterate (now progressPpm : Int) (info : CurlProgressPtr) (n : Nat)
    (c : CachedDownload) :
    ((counted now progressPpm info)^[n] c).toDownloadInfo = c.toDownloadInfo ∧
    (HasDest info.fileDest c → ((counted now progressPpm info)^[n] c).stats.xferStats =
      c.stats.xferStats ++ List.replicate n (curlStats now progressPpm info)) ∧
    (¬ HasDest info.fileDest c → (counted now progressPpm info)^[n] c = c) := by
  induction n with
  | zero => exact ⟨rfl, fun _ => (List.append_nil _).symm, fun _ => rfl⟩
  | succ n ih =>
    rcases ih with ⟨hinfo, hcounted, hother⟩
    rw [Function.iterate_succ_apply']
    refine ⟨(counted_info _ _ _ _).trans hinfo, fun hdest => ?_, fun hdest => ?_⟩
    · have hdest' : HasDest info.fileDest ((counted now progressPpm info)^[n] c) := by
        rw [HasDest, hinfo]
        exact hdest
      rw [counted, if_pos hdest', GkDlStats.push]
      dsimp only
      rw [hcounted hdest, List.append_assoc, List.replicate_succ']
    · rw [hother hdest, counted, if_neg hdest]

/-- A report is counted once exactly if it is delivered once, where it is counted at all. -/
theorem countsOnce_step_iff (h : DistinctDests b.desk.cache) (a : XferAction) :
    CountsOnce b a ↔ ConnectedOnce b a := by
  cases a with
  | startHttpDownload world row fileDest uniqueId resumeDl => exact Iff.rfl
  | pauseDownload world selected => exact Iff.rfl
  | haltDownload world selected => exact Iff.rfl
  | sendXferStats view selected now progressPpm info =>
    rw [CountsOnce, ConnectedOnce, Board.step, deliver_iterate_cache _ _ _ _ _ _ h,
      List.forall₂_map_right_iff, List.forall₂_same]
    constructor
    · rintro hall ⟨c, hc, hdest⟩
      have hc := hall c hc
      rw [if_pos hdest, (counted_iterate _ _ _ _ _).2.1 hdest, List.append_cancel_left_eq] at hc
      have hlength := congrArg List.length hc
      rwa [List.length_replicate] at hlength
    · intro honce c hc
      by_cases hdest : HasDest info.fileDest c
      · rw [if_pos hdest, honce ⟨c, hc, hdest⟩]
        exact (counted_iterate _ _ _ _ _).2.1 hdest
      · rw [if_neg hdest, (counted_iterate _ _ _ _ _).2.2 hdest]

/-- The cache lists the same downloads all the time. -/
theorem cache_step (b : Board) (a : XferAction) : (b.step a).desk.cache = b.desk.cache := by
  cases a with
  | startHttpDownload world row fileDest uniqueId resumeDl =>
    exact keeps_startHttpDownload untouched_cache (fun _ _ _ _ => rfl) world row fileDest uniqueId
      resumeDl b.desk
  | pauseDownload world selected => exact keeps_pauseDownload untouched_cache world selected b.desk
  | haltDownload world selected => exact keeps_haltDownload untouched_cache world selected b.desk
  | sendXferStats view selected now progressPpm info => exact deliver_iterate _ _ _ _ _ _ b

end Counting

/-- **Each report is counted once exactly if it comes after one start**, over any run from
any state with distinct destinations. -/
theorem countsOnce_iff (b : Board) (hdistinct : DistinctDests b.desk.cache)
    (as : List XferAction) :
    EachStep Board.step CountsOnce b as ↔ EachStep Board.step ConnectedOnce b as :=
  have hkept : ∀ (b : Board) a, DistinctDests b.desk.cache → True → ConnectedOnce b a →
      DistinctDests (b.step a).desk.cache := fun b a h _ _ => by rwa [cache_step]
  eachStep_iff_of_invariant hkept (fun _ a h => countsOnce_step_iff h a) hdistinct
    (eachStep_true b as)

def secondDest : Str := "/dl/b.iso".toList

/-- Two stopped downloads to different files. -/
def twoInfos : List DownloadInfo :=
  [⟨.http, sampleInfo.fileLoc, ['1'], none, none⟩, ⟨.http, secondDest, ['2'], none, none⟩]

/-- A window with the two, and an empty database. -/
def twoDesk : Desk where
  window :=
    { vectorList := [sampleRow ['1'], { sampleRow ['2'] with destination := secondDest }].map
        fun row => (newRowCells plainTexts row).map Prod.snd
      gkDlInfoCache := twoInfos }
  db := emptyDb
  sent := []
  stopConnections := 0

def twoBoard : Board := ⟨twoDesk, twoInfos.map fun info => ⟨info, initStats info⟩, rfl⟩

theorem twoBoard_distinct : DistinctDests twoBoard.desk.cache := by
  unfold DistinctDests
  decide

/-- The first one is started. -/
def firstStart : XferAction := .startHttpDownload sampleWorld 0 sampleInfo.fileLoc ['1'] false

/-- The second one is started. -/
def secondStart : XferAction := .startHttpDownload sampleWorld 1 secondDest ['2'] false

/-- The first one reports its progress. -/
def firstReport : XferAction :=
  .sendXferStats plainView none 9 0 ⟨[⟨5, 0, 1, 0⟩], sampleInfo.fileLoc, List.cons_ne_nil _ _⟩

/-- One start and one report. -/
theorem countsOnce_first :
    DistinctDests twoBoard.desk.cache ∧
      (EachStep Board.step CountsOnce twoBoard [firstStart, firstReport] ↔
        EachStep Board.step ConnectedOnce twoBoard [firstStart, firstReport]) :=
  ⟨twoBoard_distinct, countsOnce_iff twoBoard twoBoard_distinct _⟩

/-- With the second download started, a report of the first one is counted twice. -/
theorem countsOnce_second :
    DistinctDests twoBoard.desk.cache ∧
      (([firstStart, secondStart, firstReport].foldl Board.step twoBoard).cache.map
        fun c => c.stats.xferStats.length) = [3, 1] ∧
      ¬ EachStep Board.step CountsOnce twoBoard [firstStart, secondStart, firstReport] := by
  refine ⟨twoBoard_distinct, by decide +kernel, ?_⟩
  rintro ⟨-, -, hcounts, -⟩
  have hdistinct : DistinctDests ((twoBoard.step firstStart).step secondStart).desk.cache := by
    rw [cache_step, cache_step]
    exact twoBoard_distinct
  have honce := (countsOnce_step_iff hdistinct firstReport).mp hcounts
  exact absurd (honce ⟨_, List.mem_cons_self, by decide +kernel⟩) (by decide +kernel)

end FyreDL.Gui
