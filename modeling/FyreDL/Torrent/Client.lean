import Mathlib.Logic.Function.Basic
import FyreDL.Defaults
import FyreDL.Lib.Run

/-!
# FyreDL.Torrent.Client — `GkTorrentClient`

`startTorrentDl` hands a torrent to libtorrent, which adds it in a thread of its own, and
then pops whatever alerts have been posted by then. Each `add_torrent_alert` among them is
taken for the answer to the current call.

* A call of `startTorrentDl` is two actions, the part up to `async_add_torrent` and the part
  from `pop_alerts` on. libtorrent may post alerts before, between and behind them, in any
  order; an add that failed is reported by an alert whose handle is invalid.
* The handle of an added torrent knows the path it was given in the parameters, which is
  absolute.
* The printed messages are left out, and the `assert` on the id. Nothing starts
  `run_session_bckgrnd`, which `Session` is about.
* `labelled_iff` — `unique_id_cache` has the right ids in all states of a run exactly if each
  alert that enters it is popped by a call for a torrent with the right id.
-/

namespace FyreDL.Torrent

open Lib

/-! ## libtorrent -/

/-- `lt::add_torrent_params`, as far as it is filled in. -/
structure AddTorrentParams where
  resumeData : Str
  url : Str
  savePath : Str
deriving DecidableEq, Repr

/-- `lt::alert`: an `add_torrent_alert` with the save path of its handle, or with an invalid
handle, or an alert of another type. -/
inductive Alert where
  | addTorrent (savePath : Option Str)
  | other
deriving DecidableEq, Repr

/-- `lt::torrent_status::state_t`. -/
inductive TorrentState where
  | queuedForChecking | checkingFiles | downloadingMetadata | downloading | finished | seeding
  | allocating | checkingResumeData
deriving DecidableEq, Repr

/-- `lt::torrent_status`, as far as it is read. -/
structure TorrentStatus where
  state : TorrentState
  progressPpm : Int
  uploadRate : Int
  downloadRate : Int
  numPieces : Int
  lastSeenComplete : Int
  lastScrape : Int
  allTimeDownload : Int
  allTimeUpload : Int
deriving DecidableEq, Repr

/-! ## The class -/

/-- `GkTorrent::GeneralInfo`, as far as `startTorrentDl` reads it. -/
structure GeneralInfo where
  uniqueId : Str
  downDest : Str
  magnetUri : Str
  torrentName : Str
deriving DecidableEq, Repr

/-- `FYREDL_TORRENT_RESUME_FILE_EXT`. -/
def fyredlTorrentResumeFileExt : Str := ".fyredl".toList

/-- The parameters of an add. A resume file that is not there is read as an empty one. -/
def addTorrentParams (files : Str → Option Str) (item : GeneralInfo) : AddTorrentParams where
  resumeData := (files (item.downDest ++ item.torrentName ++ fyredlTorrentResumeFileExt)).getD []
  url := item.magnetUri
  savePath := item.downDest

/-- What `fs::exists` and `fs::create_directory` make of the destination. -/
inductive DestDir where
  | present | created | notCreated
deriving DecidableEq, Repr

/-- The maps of the class, the call of `startTorrentDl` that is under way, the adds that
libtorrent has not reported yet and the alerts that nobody has popped. The torrents are
numbered by `I`. -/
structure GkTorrentClient (I : Type) where
  ltToHandle : Str → Option Str
  uniqueIdCache : Str → Option Str
  current : Option I
  pending : List AddTorrentParams
  posted : List Alert

def GkTorrentClient.start {I : Type} : GkTorrentClient I :=
  ⟨fun _ => none, fun _ => none, none, [], []⟩

inductive ClientAction (I : Type) where
  | startTorrentDl (i : I) (files : Str → Option Str) (dest : DestDir)
  | post (n : Nat) (valid : Bool)
  | postOther
  | popAlerts

/-- The loop of `startTorrentDl` over the popped alerts, on `lt_to_handle` and
`unique_id_cache`. An invalid handle throws when it is asked for its path. -/
def cacheAlerts (uniqueId : Str) :
    List Alert → (Str → Option Str) × (Str → Option Str) → (Str → Option Str) × (Str → Option Str)
  | [], maps => maps
  | .other :: rest, maps => cacheAlerts uniqueId rest maps
  | .addTorrent none :: _, maps => maps
  | .addTorrent (some path) :: rest, (handles, cache) =>
    if handles path = none ∧ cache path = none then
      cacheAlerts uniqueId rest
        (Function.update handles path (some path), Function.update cache path (some uniqueId))
    else cacheAlerts uniqueId rest (handles, cache)

/-! ## Statistics -/

/-- `GkTorrent::TorrentXferStats`. -/
structure TorrentXferStats where
  dlRate : Int
  ulRate : Int
  numPiecesDownloaded : Int
  progressPpm : Int
deriving DecidableEq, Repr

/-- `GkTorrent::TorrentResumeInfo`, as far as it is filled in. -/
structure TorrentResumeInfo where
  uniqueId : Str
  savePath : Str
  dlState : Str
  totalUploaded : Int
  totalDownloaded : Int
  lastSeenCmplte : Int
  lastScrape : Int
  xferStats : TorrentXferStats
deriving DecidableEq, Repr

/-- `GkTorrentMisc::state`. -/
def stateText : TorrentState → Str
  | .checkingFiles => "Checking".toList
  | .downloadingMetadata => "Downloading Metadata".toList
  | .downloading => "Downloading".toList
  | .finished => "Finished".toList
  | .seeding => "Seeding".toList
  | .allocating => "Allocating".toList
  | .checkingResumeData => "Checking Resume Data".toList
  | .queuedForChecking => "<N/A>".toList

/-- The message box of a statistic without an id. -/
def noUniqueIdText (savePath : Str) : Str :=
  "Unable to find Unique ID property for BitTorrent item, \"".toList ++ savePath ++ "\".".toList

/-- `recv_proc_to_stats`: what it emits, or the text of its message box. -/
def GkTorrentClient.recvProcToStats {I : Type} (s : GkTorrentClient I) (savePath : Str)
    (stats : TorrentStatus) : Except Str TorrentResumeInfo :=
  match s.uniqueIdCache savePath with
  | none => .error (noUniqueIdText savePath)
  | some uniqueId =>
    .ok ⟨uniqueId, savePath, stateText stats.state, stats.allTimeUpload, stats.allTimeDownload,
      stats.lastSeenComplete, stats.lastScrape,
      ⟨stats.downloadRate, stats.uploadRate, stats.numPieces, stats.progressPpm⟩⟩

section Client

variable {I : Type} (torrents : I → GeneralInfo)

/-- One action. The calls of `startTorrentDl` come one after the other, and a directory that
cannot be created ends one. -/
def GkTorrentClient.step (s : GkTorrentClient I) : ClientAction I → GkTorrentClient I
  | .startTorrentDl i files dest =>
    if s.current.isNone ∧ dest ≠ .notCreated then
      { s with current := some i, pending := s.pending ++ [addTorrentParams files (torrents i)] }
    else s
  | .post n valid =>
    match s.pending[n]? with
    | none => s
    | some atp =>
      { s with pending := s.pending.eraseIdx n,
               posted := s.posted ++ [.addTorrent (if valid then some atp.savePath else none)] }
  | .postOther => { s with posted := s.posted ++ [.other] }
  | .popAlerts =>
    match s.current with
    | none => s
    | some i =>
      { s with ltToHandle := (cacheAlerts (torrents i).uniqueId s.posted
                 (s.ltToHandle, s.uniqueIdCache)).1,
               uniqueIdCache := (cacheAlerts (torrents i).uniqueId s.posted
                 (s.ltToHandle, s.uniqueIdCache)).2,
               current := none, posted := [] }

/-- Every id in the cache is the one of the torrent with that path. -/
def Labelled (s : GkTorrentClient I) : Prop :=
  ∀ path id, s.uniqueIdCache path = some id →
    (∃ i, (torrents i).downDest = path) ∧ ∀ i, (torrents i).downDest = path →
      (torrents i).uniqueId = id

/-- The alerts in front of the first one with an invalid handle. -/
def readable (alerts : List Alert) : List Alert := alerts.takeWhile (· ≠ .addTorrent none)

/-- The alerts that are popped and whose paths are in neither map belong to torrents with the
id of the current call. -/
def Own (s : GkTorrentClient I) : ClientAction I → Prop
  | .popAlerts => ∀ i, s.current = some i → ∀ path, .addTorrent (some path) ∈ readable s.posted →
      s.ltToHandle path = none → s.uniqueIdCache path = none →
      ∀ j, (torrents j).downDest = path → (torrents j).uniqueId = (torrents i).uniqueId
  | _ => True

/-- libtorrent reports what it was given. -/
structure Reported (s : GkTorrentClient I) : Prop where
  pending : ∀ atp ∈ s.pending, ∃ i, (torrents i).downDest = atp.savePath
  posted : ∀ path, .addTorrent (some path) ∈ s.posted → ∃ i, (torrents i).downDest = path

variable {torrents}

theorem reported_step (s : GkTorrentClient I) (a : ClientAction I) (h : Reported torrents s) :
    Reported torrents (s.step torrents a) := by
  cases a with
  | startTorrentDl i files dest =>
    rw [GkTorrentClient.step]
    split
    · refine ⟨?_, h.posted⟩
      intro atp hatp
      rcases List.mem_append.mp hatp with hold | hnew
      · exact h.pending atp hold
      · -- what is pending is the destination of the call
        rw [List.mem_singleton.mp hnew]
        exact ⟨i, rfl⟩
    · exact h
  | post n valid =>
    rw [GkTorrentClient.step]
    split
    · exact h
    · rename_i atp hatp
      constructor
      · intro atp' hatp'
        exact h.pending atp' (List.mem_of_mem_eraseIdx hatp')
      · intro path hpath
        rcases List.mem_append.mp hpath with hold | hnew
        · exact h.posted path hold
        · rcases h.pending atp (List.mem_of_getElem? hatp) with ⟨i, hi⟩
          -- an alert has the path of the torrent that it answers for, or an invalid handle
          cases valid with
          | false => simp at hnew
          | true =>
            have hsame : path = atp.savePath := by simpa using hnew
            exact ⟨i, hi.trans hsame.symm⟩
  | postOther =>
    refine ⟨h.pending, ?_⟩
    intro path hpath
    rcases List.mem_append.mp hpath with hold | hnew
    · exact h.posted path hold
    · simp at hnew
  | popAlerts =>
    rw [GkTorrentClient.step]
    split
    · exact h
    · refine ⟨h.pending, ?_⟩
      intro path hpath
      exact absurd hpath List.not_mem_nil

/-- **The loop.** A path is in the cache afterwards if it was before, or if it was in neither
map and one of the alerts in front of an invalid handle has it. -/
theorem cacheAlerts_iff {uniqueId : Str} (alerts : List Alert) {path id : Str} :
    ∀ {handles cache : Str → Option Str},
      (cacheAlerts uniqueId alerts (handles, cache)).2 path = some id ↔
        cache path = some id ∨ (id = uniqueId ∧ .addTorrent (some path) ∈ readable alerts ∧
          handles path = none ∧ cache path = none) := by
  induction alerts with
  | nil =>
    intro handles cache
    simp [cacheAlerts, readable]
  | cons alert rest ih =>
    intro handles cache
    rcases alert with ⟨_ | path'⟩ | _
    · simp [cacheAlerts, readable]
    · rw [cacheAlerts]
      have hread : readable (.addTorrent (some path') :: rest) =
          .addTorrent (some path') :: readable rest := by simp [readable]
      by_cases hboth : handles path' = none ∧ cache path' = none
      · rw [if_pos hboth, ih, hread]
        by_cases hpath : path = path'
        · subst hpath
          simp [hboth.1, hboth.2, eq_comm]
        · simp [hpath]
      · rw [if_neg hboth, ih, hread]
        by_cases hpath : path = path'
        · subst hpath
          -- the path is known, so that the alert changes nothing
          constructor
          · rintro (hold | ⟨-, -, hhandle, hcache⟩)
            · exact .inl hold
            · exact absurd ⟨hhandle, hcache⟩ hboth
          · rintro (hold | ⟨-, -, hhandle, hcache⟩)
            · exact .inl hold
            · exact absurd ⟨hhandle, hcache⟩ hboth
        · simp [hpath]
    · have hread : readable (.other :: rest) = .other :: readable rest := by simp [readable]
      rw [cacheAlerts, ih, hread]
      simp

/-- **One step.** From a state with the right ids an action leads to one exactly if the alerts
that it takes for the answer to the current call are so. -/
theorem labelled_step (s : GkTorrentClient I) (a : ClientAction I) (hreported : Reported torrents s)
    (h : Labelled torrents s) : Labelled torrents (s.step torrents a) ↔ Own torrents s a := by
  cases a with
  | startTorrentDl i files dest =>
    rw [GkTorrentClient.step]
    split
    · exact ⟨fun _ => trivial, fun _ => h⟩
    · exact ⟨fun _ => trivial, fun _ => h⟩
  | post n valid =>
    rw [GkTorrentClient.step]
    split
    · exact ⟨fun _ => trivial, fun _ => h⟩
    · exact ⟨fun _ => trivial, fun _ => h⟩
  | postOther => exact ⟨fun _ => trivial, fun _ => h⟩
  | popAlerts =>
    rw [GkTorrentClient.step, Own]
    -- only a pop in a call enters something
    cases hcurrent : s.current with
    | none =>
      constructor
      · intro _ i hi
        cases hi
      · intro _
        exact h
    | some i =>
      constructor
      · intro hnext j hj path hpath hhandle hcache k hk
        rw [← Option.some.inj hj]
        -- what is popped gets the id of the call, so that must be the right one
        have hnew : (cacheAlerts (torrents i).uniqueId s.posted
            (s.ltToHandle, s.uniqueIdCache)).2 path = some (torrents i).uniqueId :=
          (cacheAlerts_iff s.posted).mpr (.inr ⟨rfl, hpath, hhandle, hcache⟩)
        exact (hnext path _ hnew).2 k hk
      · intro hown path id hid
        -- conversely, an entry is old or gets the id of the call
        rcases (cacheAlerts_iff s.posted).mp hid with hold | ⟨rfl, hpath, hhandle, hcache⟩
        · exact h path id hold
        · constructor
          · exact hreported.posted path ((List.takeWhile_sublist _).mem hpath)
          · exact hown i rfl path hpath hhandle hcache

/-- **Labels.** Whatever the calls are and whenever libtorrent posts its alerts: the cache has
the right ids in all states exactly if every alert that enters it is popped by a call for a
torrent with the same id. -/
theorem labelled_iff (torrents : I → GeneralInfo) (as : List (ClientAction I)) :
    EachState (GkTorrentClient.step torrents) (Labelled torrents) .start as ↔
      EachStep (GkTorrentClient.step torrents) (Own torrents) .start as := by
  have hreported : Reported torrents (.start : GkTorrentClient I) := by
    constructor
    · intro atp hatp
      exact absurd hatp List.not_mem_nil
    · intro path hpath
      exact absurd hpath List.not_mem_nil
  have hlabelled : Labelled torrents (.start : GkTorrentClient I) := by
    intro path id hid
    cases hid
  exact eachState_iff_eachStep reported_step labelled_step hreported hlabelled as

/-- With the right ids, what is emitted for the path of a torrent has its id. -/
theorem recvProcToStats_labelled {s : GkTorrentClient I} (h : Labelled torrents s)
    {stats : TorrentStatus} {info : TorrentResumeInfo} {i : I}
    (hstats : s.recvProcToStats (torrents i).downDest stats = .ok info) :
    info.uniqueId = (torrents i).uniqueId ∧ info.savePath = (torrents i).downDest := by
  rw [GkTorrentClient.recvProcToStats] at hstats
  cases hid : s.uniqueIdCache (torrents i).downDest with
  | none =>
    rw [hid] at hstats
    cases hstats
  | some id =>
    rw [hid] at hstats
    cases hstats
    exact ⟨((h _ id hid).2 i rfl).symm, rfl⟩

end Client

/-- Two torrents with paths and ids of their own. -/
def twoTorrents : Bool → GeneralInfo
  | false => ⟨"1".toList, "/dl/a".toList, "magnet:?xt=a".toList, "a".toList⟩
  | true => ⟨"2".toList, "/dl/b".toList, "magnet:?xt=b".toList, "b".toList⟩

/-- The alert for the first torrent is posted behind its call and popped by the next one: the
first torrent gets the id of the second. -/
theorem labelled_late_alert :
    Function.Injective (fun i => (twoTorrents i).downDest) ∧
      ¬ EachState (GkTorrentClient.step twoTorrents) (Labelled twoTorrents) .start
        [.startTorrentDl false (fun _ => none) .created, .popAlerts, .post 0 true,
          .startTorrentDl true (fun _ => none) .created, .popAlerts] := by
  constructor
  · unfold Function.Injective
    decide
  · rintro ⟨-, -, -, -, -, hend⟩
    have hcached := (hend "/dl/a".toList "2".toList (by decide)).2 false rfl
    exact absurd hcached (by decide)

end FyreDL.Torrent
