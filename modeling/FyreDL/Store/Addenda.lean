import FyreDL.Store.TorrentRead

/-!
# FyreDL.Store.Addenda — the lists of a torrent

What the two `write_…_addendum` functions store of a list, and what the two
`read_…_addendum` functions make of it.

* A writer that returns `true`, whatever faults it meets, has stored all items of the list
  (`exec_writeEach_true`).
* `trackers_survive_iff` — the trackers come back exactly if there is one of them: the
  loop of the reader is left after the last one.
* `files_survive_iff` — the files come back exactly if no path and no hash has a comma or
  a line feed in it. What is read are values of cells, which have none (`readFilesFrom_values`).
-/

namespace FyreDL.Store

open Lib Lib.Kv Csv

/-! ## Writing under faults -/

section Writing

variable {F : Faults Str} {m m' : Machine Str Str Str}

theorem exec_writeOk_true {batch : List (Op Str Str)}
    (h : exec F (writeOk batch) m = (.ret true, m')) : m'.store = applyBatch m.store batch := by
  rw [writeOk, exec_locked, exec] at h
  split at h
  · rw [← (Prod.mk.inj h).2]
  · cases h
  · cases h

/-- The loop of the writers has applied every batch if it returns `true`. -/
theorem exec_writeEach_true {α : Type} {batch : Int → α → List (Op Str Str)}
    {entries : Int → α → List (Str × Str)} {id : Str}
    (hbatch : ∀ s n a, applyBatch s (batch n a) = putItems s id (entries n a)) {counter : Int}
    {l : List α} (h : exec F (writeEach batch counter l) m = (.ret true, m')) :
    m'.store = putItems m.store id (numbered entries counter l) := by
  induction l generalizing counter m with
  | nil =>
    rw [← (Prod.mk.inj h).2]
    rfl
  | cons a l ih =>
    rw [writeEach] at h
    rcases exec_bind_eq_ret h with ⟨ok, m₁, hfirst, hrest⟩
    cases ok with
    | true =>
      rw [if_pos rfl] at hrest
      rw [ih hrest, exec_writeOk_true hfirst, hbatch, numbered, putItems_append]
    | false => cases hrest

theorem exec_writeTorrentTrkrsAddendum_true {trackers : List TorrentTrackers} {id : Str}
    (hne : trackers ≠ [])
    (h : exec F (writeTorrentTrkrsAddendum trackers id) m = (.ret true, m')) :
    m'.store = putItems m.store id (numbered trackerEntries 1 trackers) := by
  rw [writeTorrentTrkrsAddendum, if_pos hne] at h
  exact exec_writeEach_true (fun s n a => applyBatch_trackerBatch s id n a) h

theorem exec_writeTorrentFilesAddendum_true {files : List TorrentFile} {id : Str}
    (hne : files ≠ []) (h : exec F (writeTorrentFilesAddendum files id) m = (.ret true, m')) :
    m'.store = putItems m.store id (numbered (fileEntries id) 1 files) := by
  rw [writeTorrentFilesAddendum, if_pos hne] at h
  exact exec_writeEach_true (fun s n a => applyBatch_fileBatch s id n a) h

end Writing

/-! ## Trackers -/

/-- **Trackers.** A list of trackers that has been written comes back exactly if it has one
element. -/
theorem trackers_survive_iff {F : Faults Str} {m m' : Machine Str Str Str}
    {trackers : List TorrentTrackers} {downloadKey : Str} (hne : trackers ≠ [])
    (hurls : ∀ t ∈ trackers, CleanCell t.url)
    (hwrite : exec F (writeTorrentTrkrsAddendum trackers downloadKey) m = (.ret true, m')) :
    run (readTorrentTrkrsAddendum trackers.length downloadKey) m'.store =
        (.ret (trackers.map (readBackTracker downloadKey)), m'.store) ↔
      trackers.length = 1 := by
  have hstored : Stored m'.store downloadKey (numbered trackerEntries 1 trackers) := by
    intro p hp
    rw [exec_writeTorrentTrkrsAddendum_true hne hwrite]
    exact putItems_mem (numbered_trackerEntries_nodup 1 trackers) hp m.store downloadKey
  have hlast : trackers.getLast? = some (trackers.getLast hne) := List.getLast?_eq_some_getLast hne
  have hread := run_readTorrentTrkrsAddendum hlast (hurls _ (List.getLast_mem hne))
    (stored_last_tracker hlast hstored)
  rw [hread]
  constructor
  · intro h
    -- what is read has one element
    have hlist : [readBackTracker downloadKey (trackers.getLast hne)] =
        trackers.map (readBackTracker downloadKey) := Outcome.ret.inj (Prod.mk.inj h).1
    rw [← List.length_map (readBackTracker downloadKey), ← hlist]
    rfl
  · intro hlength
    rcases List.length_eq_one_iff.mp hlength with ⟨t, rfl⟩
    rfl

/-- Two trackers. -/
def sampleTrackers : List TorrentTrackers :=
  [⟨[], 0, "udp://a".toList, true⟩, ⟨[], 1, "udp://b".toList, false⟩]

/-- A key of 23 digits. -/
def sampleKey : Str := List.replicate 23 '1'

/-- Of two trackers the second comes back. -/
theorem trackers_lost :
    ∃ m, exec Faults.none (writeTorrentTrkrsAddendum sampleTrackers sampleKey)
        (Machine.start fun _ => none) = (.ret true, m) ∧
      (run (readTorrentTrkrsAddendum sampleTrackers.length sampleKey) m.store).1 =
        .ret [⟨sampleKey, 1, "udp://b".toList, false⟩] ∧
      (run (readTorrentTrkrsAddendum sampleTrackers.length sampleKey) m.store).1 ≠
        .ret (sampleTrackers.map (readBackTracker sampleKey)) := by
  refine ⟨_, rfl, ?_, ?_⟩
  · decide +kernel
  · decide +kernel

/-- A list of one tracker. -/
theorem trackers_survive_iff_one :
    run (readTorrentTrkrsAddendum 1 sampleKey)
        (exec Faults.none (writeTorrentTrkrsAddendum (sampleTrackers.take 1) sampleKey)
          (Machine.start fun _ => none)).2.store =
      (.ret ((sampleTrackers.take 1).map (readBackTracker sampleKey)),
        (exec Faults.none (writeTorrentTrkrsAddendum (sampleTrackers.take 1) sampleKey)
          (Machine.start fun _ => none)).2.store) := by
  have hwrite : exec Faults.none (writeTorrentTrkrsAddendum (sampleTrackers.take 1) sampleKey)
      (Machine.start fun _ => none) = (.ret true, (exec Faults.none
        (writeTorrentTrkrsAddendum (sampleTrackers.take 1) sampleKey)
          (Machine.start fun _ => none)).2) := rfl
  exact (trackers_survive_iff (by decide) (by decide) hwrite).mpr rfl

/-! ## Files -/

/-- A path and a hash that come from cells; without a key nothing is set. -/
structure FromCells (downloadKey : Str) (f : TorrentFile) : Prop where
  path : Plain f.filePath
  hash : Plain f.sha1HashHex
  blank : downloadKey = [] → f.filePath = []

theorem plain_nil : Plain [] := ⟨List.not_mem_nil, List.not_mem_nil⟩

section Values

variable {s s' : Db} {id : Str}

theorem readMapflepce_values {data : Str} {item item' : TorrentFile} {st st' : Statics}
    (h : run (readMapflepce id data item st) s = (.ret (item', st'), s')) :
    item'.filePath = item.filePath ∧ item'.sha1HashHex = item.sha1HashHex := by
  rw [readMapflepce] at h
  rcases run_bind_eq_ret h with ⟨⟨rd, st₁⟩, s₁, -, hrest⟩
  dsimp only at hrest
  split at hrest
  · cases hrest
  · cases hrest
    exact ⟨rfl, rfl⟩
  · cases hrest
    exact ⟨rfl, rfl⟩

theorem readFileRow_values {vars : Vars} {item item' : TorrentFile} {st st' : Statics}
    (hvars : ∀ i, Plain (vars i)) (hitem : FromCells id item)
    (h : run (readFileRow id vars item st) s = (.ret (item', st'), s')) : FromCells id item' := by
  -- a row either sets path and hash from the cells, or leaves the item
  unfold readFileRow at h
  split at h
  · rename_i hid
    dsimp only at h
    split at h
    · rcases run_bind_eq_ret h with ⟨data, s₁, -, hrest⟩
      rcases readMapflepce_values hrest with ⟨hpath, hhash⟩
      constructor
      · rw [hpath]
        exact hvars 0
      · rw [hhash]
        exact hvars 2
      · -- an empty id is the one case that the reader skips
        intro hnil
        exact absurd hnil hid
    · cases h
  · cases h
    exact hitem

/-- Every row of a text: the induction is on the rounds of the loop. -/
theorem readFileRows_values {rd : GkCsvReader} (hcells : ∀ cell ∈ rd.csvData, Plain cell.value)
    {fuel : Nat} {vars : Vars} {item : TorrentFile} {st : Statics} {files : List TorrentFile}
    (hvars : ∀ i, Plain (vars i)) (hitem : FromCells id item)
    (h : run (readFileRows id rd fuel vars item st) s = (.ret files, s')) :
    ∀ f ∈ files, FromCells id f := by
  induction fuel generalizing vars item st s files with
  | zero => cases h
  | succ fuel ih =>
    rw [readFileRows] at h
    split at h
    · cases h
    · cases h
      intro f hf
      exact absurd hf List.not_mem_nil
    · rename_i vars₁ st₁ hread
      -- the variables are from cells again, for the next round
      have hvars₁ := readRow_values hcells plain_nil _ hvars hread
      rcases run_bind_eq_ret h with ⟨⟨item₁, st₂⟩, s₁, hrow, hrest⟩
      rcases run_bind_eq_ret hrest with ⟨rest, s₂, hrows, hret⟩
      have hitem₁ := readFileRow_values hvars₁ hitem hrow
      cases hret
      intro f hf
      rcases List.mem_cons.mp hf with rfl | hin
      · exact hitem₁
      · exact ih hvars₁ hitem₁ hrows f hin

theorem readFileText_values {fuel : Nat} {data : Str} {files : List TorrentFile}
    (h : run (readFileText fuel id data) s = (.ret files, s')) :
    ∀ f ∈ files, FromCells id f := by
  rw [readFileText] at h
  split at h
  · rcases run_bind_eq_ret h with ⟨⟨rd, st⟩, s₁, hopen, hrows⟩
    -- the header, or the lack of one, does not change the cells
    have hcells : ∀ cell ∈ rd.csvData, Plain cell.value := by
      rw [openRows] at hopen
      split at hopen
      · cases hopen
      · rename_i rd' st' hmake
        split at hopen
        · cases hopen
        · cases hopen
          exact make_plain hmake
        · cases hopen
          exact make_plain hmake
    exact readFileRows_values hcells (fun _ => plain_nil) ⟨plain_nil, plain_nil, fun _ => rfl⟩
      hrows
  · cases h
    intro f hf
    exact absurd hf List.not_mem_nil

/-- All files that are read have their path and their hash from cells. -/
theorem readFilesFrom_values {fuel left : Nat} {counter : Int} {toFiles files : List TorrentFile}
    (hfiles : ∀ f ∈ toFiles, FromCells id f)
    (h : run (readFilesFrom fuel id left counter toFiles) s = (.ret files, s')) :
    ∀ f ∈ files, FromCells id f := by
  induction left generalizing counter toFiles s with
  | zero =>
    cases h
    exact hfiles
  | succ left ih =>
    rw [readFilesFrom, run_get] at h
    -- without the key the list that has been read so far is dropped
    cases hget : s (fileKey id counter) with
    | none =>
      rw [hget] at h
      cases h
      intro f hf
      exact absurd hf List.not_mem_nil
    | some data =>
      rw [hget] at h
      rcases run_bind_eq_ret h with ⟨next, s₁, htext, hrest⟩
      have hnext := readFileText_values htext
      apply ih _ hrest
      intro f hf
      rcases List.mem_append.mp hf with hold | hin
      · exact hfiles f hold
      · exact hnext f hin

end Values

/-- A file that `torrentFileInfo` builds: it has a path, and its hash is 20 bytes. -/
structure FromTorrent (f : TorrentFile) : Prop where
  path : f.filePath ≠ []
  hash : f.sha1HashHex.length = 20

/-- No separator in the path and in the hash. -/
def PlainFile (f : TorrentFile) : Prop := Plain f.filePath ∧ Plain f.sha1HashHex

/-- **Files.** A list of files that has been written under digits comes back exactly if there
is a digit, and none of its paths and hashes has a comma or a line feed in it. -/
theorem files_survive_iff {F : Faults Str} {m m' : Machine Str Str Str} {files : List TorrentFile}
    {downloadKey : Str} (hne : files ≠ []) (hfiles : ∀ f ∈ files, FromTorrent f)
    (hdigits : ∀ c ∈ downloadKey, c.isDigit = true)
    (hwrite : exec F (writeTorrentFilesAddendum files downloadKey) m = (.ret true, m'))
    (fuel : Nat) :
    run (readTorrentFilesAddendum (fuel + 2) files.length downloadKey) m'.store =
        (.ret (files.map (readBackFile downloadKey)), m'.store) ↔
      downloadKey ≠ [] ∧ ∀ f ∈ files, PlainFile f := by
  have hstored : Stored m'.store downloadKey (numbered (fileEntries downloadKey) 1 files) := by
    intro p hp
    rw [exec_writeTorrentFilesAddendum_true hne hwrite]
    exact putItems_mem (numbered_fileEntries_nodup downloadKey 1 files) hp m.store downloadKey
  have hpos : (files.length : Int) > 0 := by
    have := List.length_pos_of_ne_nil hne
    omega
  rw [readTorrentFilesAddendum, if_pos hpos, run_locked, Int.toNat_natCast]
  constructor
  · intro hret
    -- what is read comes from cells, so the written values must be plain
    have hvalues := readFilesFrom_values (fun f hf => absurd hf List.not_mem_nil) hret
    constructor
    · intro hnil
      rcases List.exists_mem_of_ne_nil files hne with ⟨f, hf⟩
      exact (hfiles f hf).path ((hvalues _ (List.mem_map_of_mem hf)).blank hnil)
    · intro f hf
      have hread := hvalues _ (List.mem_map_of_mem hf)
      exact ⟨hread.path, hread.hash⟩
  · rintro ⟨hkey, hplain⟩
    -- conversely, all cells that are written are clean
    have hid : CleanCell downloadKey := by
      refine ⟨hkey, fun hc => ?_, fun hc => ?_⟩
      · exact absurd (hdigits _ hc) (by decide)
      · exact absurd (hdigits _ hc) (by decide)
    have hpath : ∀ f ∈ files, CleanCell f.filePath := fun f hf =>
      ⟨(hfiles f hf).path, (hplain f hf).1.1, (hplain f hf).1.2⟩
    have hhash : ∀ f ∈ files, CleanCell f.sha1HashHex := by
      intro f hf
      -- 20 bytes are not none
      refine ⟨fun hnil => ?_, (hplain f hf).2.1, (hplain f hf).2.2⟩
      have hlength := (hfiles f hf).hash
      rw [hnil] at hlength
      exact absurd hlength (by decide)
    exact run_readFilesFrom hid hpath hhash hstored fuel []

/-- A file with the given path, and a hash of twenty times the letter `h`. -/
def sampleFileNamed (path : Str) : TorrentFile :=
  ⟨[], path, List.replicate 20 'h', 0, 700, 0, 1480000000, (0, 2), false⟩

/-- A comma in a path shifts the cells behind it: the reader looks for the pieces under the
modification time. -/
theorem files_comma_lost :
    ∃ m, exec Faults.none (writeTorrentFilesAddendum [sampleFileNamed "b,c.iso".toList] sampleKey)
        (Machine.start fun _ => none) = (.ret true, m) ∧
      (run (readTorrentFilesAddendum 3 1 sampleKey) m.store).1 =
        .throw (fileProcessingIssue sampleKey notFoundText) ∧
      (run (readTorrentFilesAddendum 3 1 sampleKey) m.store).1 ≠
        .ret ([sampleFileNamed "b,c.iso".toList].map (readBackFile sampleKey)) := by
  refine ⟨_, rfl, ?_, ?_⟩
  · decide +kernel
  · decide +kernel

/-- Without one. -/
theorem files_survive_iff_plain :
    ∃ m, run (readTorrentFilesAddendum 2 1 sampleKey) m =
      (.ret ([sampleFileNamed "b.iso".toList].map (readBackFile sampleKey)), m) := by
  have hwrite : exec Faults.none (writeTorrentFilesAddendum [sampleFileNamed "b.iso".toList]
      sampleKey) (Machine.start fun _ => none) = (.ret true, (exec Faults.none
        (writeTorrentFilesAddendum [sampleFileNamed "b.iso".toList] sampleKey)
          (Machine.start fun _ => none)).2) := rfl
  have hfile : ∀ f ∈ [sampleFileNamed "b.iso".toList], FromTorrent f := by
    intro f hf
    rw [List.mem_singleton.mp hf]
    exact ⟨by decide, rfl⟩
  have hdigits : ∀ c ∈ sampleKey, c.isDigit = true := by
    intro c hc
    rw [List.eq_of_mem_replicate hc]
    rfl
  refine ⟨_, (files_survive_iff (List.cons_ne_nil _ _) hfile hdigits hwrite 0).mpr
    ⟨by decide, ?_⟩⟩
  intro f hf
  rw [List.mem_singleton.mp hf]
  exact ⟨by decide, by decide⟩

end FyreDL.Store
