import FyreDL.Store.TorrentReadable

/-!
# FyreDL.Store.TorrentApart — keys that reading a torrent looks at

Adding a torrent writes the index and keys under its own id. An older torrent whose
reading looks at none of these reads as before (`torrentReadable_congr`). The key of the
pieces of a file is itself stored text, hence this is a condition on the store;
`readsApart_stored` says that whatever `addTorrentItem` stored satisfies it.
-/

namespace FyreDL.Store

open Lib Lib.Kv Csv

/-! ## Keys left alone -/

/-- The keys that adding a torrent with this id leaves alone. -/
def Untouched (id key : Str) : Prop := key ≠ leveldbStoreUniqueId ∧ ¬ id ++ ['_'] <+: key

/-- Reading the torrent of the entry looks at such keys only. -/
def ReadsApart (s : Db) (id : Str) (e : Entry) : Prop :=
  ∀ fuel, LooksIn (Untouched id) (readTorrentItem fuel false e) s

theorem putTorrent_of_untouched {s : Db} {info : TorrentInfo} {key : Str}
    (h : Untouched info.general.uniqueId key) (text : Option Str) :
    putTorrent (Function.update s leveldbStoreUniqueId text) info key = s key := by
  rw [putTorrent, putItems_of_notMem]
  · exact Function.update_of_ne h.1 _ _
  · rintro p - rfl
    apply h.2
    exact ⟨p.1, by simp [multipartKey]⟩

theorem untouched_boolText {id : Str} (hid : id ≠ []) (b : Bool) : Untouched id (boolText b) := by
  constructor
  · cases b <;> decide
  · intro hprefix
    have hlen := hprefix.length_le
    have hpos := List.length_pos_of_ne_nil hid
    have hone : (boolText b).length = 1 := by cases b <;> rfl
    rw [List.length_append, List.length_singleton, hone] at hlen
    omega

/-- Keys of one id are not written for another one. -/
theorem untouched_of_ne {id id' : Str} (hid : '_' ∉ id) (hid' : '_' ∉ id') (hne : id ≠ id')
    (rest : Str) : Untouched id' (multipartKey [id, rest]) := by
  refine ⟨multipartKey_ne_index id rest, ?_⟩
  rintro ⟨tail, htail⟩
  -- the first underscore ends the id on both sides
  have hkey : id ++ '_' :: rest = id' ++ '_' :: tail := by
    rw [List.append_assoc] at htail
    exact htail.symm
  have hstop : ∀ {x y : Str}, '_' ∉ x → (x ++ '_' :: y).takeWhile (· ≠ '_') = x := by
    intro x y hx
    have hall : ∀ c ∈ x, decide (c ≠ '_') = true := by
      intro c hc
      exact decide_eq_true fun heq => hx (heq ▸ hc)
    rw [List.takeWhile_append_of_pos hall, List.takeWhile_cons_of_neg (by simp), List.append_nil]
  have htake := congrArg (List.takeWhile (· ≠ '_')) hkey
  rw [hstop hid, hstop hid'] at htake
  exact hne htake

/-- A torrent whose reading is apart is as readable as before. -/
theorem torrentReadable_congr {s t : Db} {id : Str} {e : Entry} (hapart : ReadsApart s id e)
    (h : ∀ key, Untouched id key → t key = s key) :
    TorrentReadable s e ↔ TorrentReadable t e := by
  have hsame : ∀ fuel, (run (readTorrentItem fuel false e) s).1 =
      (run (readTorrentItem fuel false e) t).1 := by
    intro fuel
    apply run_congr_of_readKeys
    intro key hkey
    exact (h key (hapart fuel key hkey)).symm
  simp only [TorrentReadable, hsame]

/-! ## Stored torrents are apart -/

section Apart

variable {s : Db} {id id' : Str}

theorem apart_readItems (hid : '_' ∉ id) (hid' : '_' ∉ id') (hne : id ≠ id') (keys : List Str) :
    LooksIn (Untouched id') (readItems id keys) s := by
  induction keys generalizing s with
  | nil => exact LooksIn.ret _ s
  | cons key keys ih =>
    rw [readItems]
    apply LooksIn.bind
    · apply LooksIn.locked
      apply LooksIn.get (untouched_of_ne hid hid' hne key)
      cases s (multipartKey [id, key]) with
      | none => exact LooksIn.throw _ s
      | some v => exact LooksIn.ret v s
    · intro value t _
      apply LooksIn.bind ih
      intro values t' _
      exact LooksIn.ret _ t'

theorem apart_openRows (columnCount : Nat) (data : Str) (headers columns : List Str)
    (downloadKey : Str) (st : Statics) :
    LooksIn (Untouched id') (openRows columnCount data headers columns downloadKey st) s := by
  unfold openRows
  split
  · exact LooksIn.throw _ s
  · split
    · exact LooksIn.throw _ s
    · exact LooksIn.ret _ s
    · exact LooksIn.warn (LooksIn.ret _ s)

theorem apart_readTrackerText (text : Str) :
    LooksIn (Untouched id') (readTrackerText id text) s := by
  unfold readTrackerText
  split
  · apply LooksIn.bind (apart_openRows _ _ _ _ _ _)
    rintro ⟨rd, st⟩ t -
    dsimp only
    split
    · exact LooksIn.hang t
    · split
      · exact LooksIn.ret _ t
      · exact LooksIn.ret _ t
  · exact LooksIn.ret _ s

theorem apart_readTracker (hid : '_' ∉ id) (hid' : '_' ∉ id') (hne : id ≠ id') (counter : Int) :
    LooksIn (Untouched id') (readTracker id counter) s := by
  apply LooksIn.locked
  have hkey : Untouched id' (trackerKey id counter) := untouched_of_ne hid hid' hne _
  -- the key of the tracker is the only one that is read
  apply LooksIn.get hkey
  cases s (trackerKey id counter) with
  | none => exact LooksIn.ret _ s
  | some text =>
    apply LooksIn.bind (apart_readTrackerText text)
    intro trackers t _
    exact LooksIn.ret _ t

theorem apart_readTorrentTrkrsAddendum (hid : '_' ∉ id) (hid' : '_' ∉ id') (hne : id ≠ id')
    (numTrackers : Int) : LooksIn (Untouched id') (readTorrentTrkrsAddendum numTrackers id) s := by
  by_cases hpos : numTrackers > 0
  · rw [readTorrentTrkrsAddendum_pos hpos]
    apply LooksIn.bind (apart_readTracker hid hid' hne numTrackers)
    intro trackers t _
    exact LooksIn.ret _ t
  · rw [readTorrentTrkrsAddendum, if_neg hpos]
    exact LooksIn.ret _ s

theorem apart_readFileRow {vars : Vars} (hkey : Untouched id' (vars 5)) (item : TorrentFile)
    (st : Statics) : LooksIn (Untouched id') (readFileRow id vars item st) s := by
  unfold readFileRow
  split
  · dsimp only
    split
    · apply LooksIn.bind
      · -- the key of the pieces is taken from the row
        apply LooksIn.get hkey
        cases s (vars 5) with
        | none => exact LooksIn.throw _ s
        | some v => exact LooksIn.ret v s
      · intro data t _
        apply LooksIn.bind (apart_openRows _ _ _ _ _ _)
        rintro ⟨rd, st'⟩ t' -
        dsimp only
        split
        · exact LooksIn.hang t'
        · exact LooksIn.ret _ t'
        · exact LooksIn.ret _ t'
    · exact LooksIn.throw _ s
  · exact LooksIn.ret _ s

/-- The text of a stored file leads to its own pieces, or, with an empty SHA-1 field, to
the text of a boolean. -/
theorem apart_readFileText {mk : Str} {f : TorrentFile} (hid : id ≠ []) (hid' : id' ≠ [])
    (hclean : CleanFile f) (hmk : CleanCell mk) (hkey : Untouched id' mk)
    (hstored : s mk = some (rowText mapflepceHeaders (mapflepceCells f)))
    (hbare : ∀ b : Bool, s (boolText b) = none) (fuel : Nat) :
    LooksIn (Untouched id') (readFileText fuel id (rowText fileHeaders (fileCells mk f))) s := by
  have hplain := plainRow_fileCells hclean.path hmk hclean.hash
  have htaken := @taken_fileCells mk f hclean.path hmk
  have hne : encodeRow (fileCells mk f) ≠ [] := encodeRow_cons_ne_nil hclean.path.ne_nil _
  rcases openRows_rowText headerRow_file hplain hne
    (show ∀ name ∈ vitalFileColumns, name ∈ fileHeaders by decide) 8 id Statics.reset with
    ⟨rd, hopen, htabled⟩
  rw [readFileText, if_pos (parsable_rowText headerRow_file _), hopen, Prog.ret_bind]
  cases fuel with
  | zero => exact LooksIn.hang s
  | succ fuel =>
    by_cases hhash : f.sha1HashHex = []
    · rw [if_pos hhash] at htaken
      rcases readRow_rowText htabled (by omega) (by rw [htaken]; simp) (fun _ => []) with
        ⟨st₁, hread, -⟩
      simp only [readFileRows, hread, htaken]
      apply LooksIn.bind
      · apply apart_readFileRow
        have hfive : storeFrom [f.filePath, toText f.contentLength, toText f.fileOffset,
            toText f.mtime, mk, boolText f.downloaded, toText f.flags] 0 (fun _ => []) 5 =
              boolText f.downloaded := by simp [storeFrom]
        rw [hfive]
        exact untouched_boolText hid' f.downloaded
      · -- the row throws
        intro a t hrow
        rw [run_readFileRow_empty_hash hid (hbare f.downloaded) st₁] at hrow
        cases hrow
    · rw [if_neg hhash] at htaken
      rcases readRow_rowText htabled (by omega) (by rw [htaken, hplain.width]; omega)
        (fun _ => []) with ⟨st₁, hread, -⟩
      simp only [readFileRows, hread, htaken]
      apply LooksIn.bind
      · apply apart_readFileRow
        have hfive : storeFrom (fileCells mk f) 0 (fun _ => []) 5 = mk := by
          simp [storeFrom, fileCells]
        rw [hfive]
        exact hkey
      · -- the first reader is behind its row
        rintro ⟨item, st⟩ t hrow
        rcases run_readFileRow hid hmk.ne_nil hstored st₁ with ⟨st₂, hrun, hst₂⟩
        rw [hrun] at hrow
        rcases Prod.mk.inj hrow with ⟨hret, rfl⟩
        rcases Prod.mk.inj (Outcome.ret.inj hret) with ⟨rfl, rfl⟩
        have hend := readRow_end htabled.count htabled.cols (by omega) hst₂
          (storeFrom (fileCells mk f) 0 fun _ => [])
        apply LooksIn.bind
        · cases fuel with
          | zero => exact LooksIn.hang s
          | succ fuel =>
            simp only [readFileRows, hend]
            exact LooksIn.ret _ s
        · intro rest t _
          exact LooksIn.ret _ t

theorem apart_readFilesFrom (hid : CleanCell id) (hplain : '_' ∉ id) (hid' : id' ≠ [])
    (hplain' : '_' ∉ id') (hne : id ≠ id') {files : List TorrentFile}
    (hclean : ∀ f ∈ files, CleanFile f) (hbare : ∀ b : Bool, s (boolText b) = none) {counter : Int}
    (h : Stored s id (numbered (fileEntries id) counter files)) (fuel : Nat)
    (toFiles : List TorrentFile) :
    LooksIn (Untouched id') (readFilesFrom fuel id files.length counter toFiles) s := by
  induction files generalizing counter toFiles with
  | nil => exact LooksIn.ret _ s
  | cons f files ih =>
    have hfirst : Stored s id (fileEntries id counter f) :=
      fun p hp => h p (List.mem_append_left _ hp)
    rcases stored_fileEntries hfirst with ⟨htext, hpieces⟩
    rw [List.length_cons, readFilesFrom]
    -- the key of the file has its own id in front
    have hkey : Untouched id' (fileKey id counter) := untouched_of_ne hplain hplain' hne _
    apply LooksIn.get hkey
    rw [htext]
    apply LooksIn.bind
    · exact apart_readFileText hid.ne_nil hid' (hclean f List.mem_cons_self)
        (cleanCell_mapflepceKey hid counter) (untouched_of_ne hplain hplain' hne _) hpieces hbare
        fuel
    · intro read t hread
      -- reading the first file has changed nothing
      have hstore : t = s := by
        have hrun := (noWrites_readFileText fuel id
          (rowText fileHeaders (fileCells (mapflepceKey id counter) f))).run_store s
        rw [hread] at hrun
        exact hrun
      rw [hstore]
      exact ih (fun g hg => hclean g (List.mem_cons_of_mem _ hg))
        (fun p hp => h p (List.mem_append_right _ hp)) _

theorem WellFormed.no_underscore {info : TorrentInfo} (h : WellFormed info) :
    '_' ∉ info.general.uniqueId := fun hmem => absurd (h.id_digits _ hmem) (by decide)

/-- **A torrent that `addTorrentItem` stored** names no key of another id of digits. -/
theorem readsApart_stored {info : TorrentInfo} (h : TorrentStored s info) (hwf : WellFormed info)
    (hhex : HexOrEmpty info) (hbare : ∀ b : Bool, s (boolText b) = none) (hid' : id' ≠ [])
    (hplain' : '_' ∉ id') (hne : info.general.uniqueId ≠ id') :
    ReadsApart s id' (torrentEntry info) := by
  intro fuel
  rcases h.run_items with ⟨values, hitems, hgeneral⟩
  have hplain := hwf.no_underscore
  unfold readTorrentItem
  apply LooksIn.bind (apart_readItems hplain hplain' hne _)
  intro read t hread
  -- the items are those that were stored, so the number of files is known
  obtain ⟨rfl, rfl⟩ : read = values ∧ t = s := by
    rw [hitems] at hread
    rcases Prod.mk.inj hread with ⟨hret, rfl⟩
    exact ⟨(Outcome.ret.inj hret).symm, rfl⟩
  dsimp only
  rw [hgeneral]
  apply LooksIn.bind
  · unfold readTorrentFiles
    rw [if_neg Bool.false_ne_true]
    apply LooksIn.bind
    · unfold readTorrentFilesAddendum
      rw [show (readBackTorrent info).general.numFiles = info.filesVec.length from hwf.numFiles]
      split
      · apply LooksIn.locked
        rw [Int.toNat_natCast]
        exact apart_readFilesFrom hwf.id hplain hid' hplain' hne (hwf.cleanFiles hhex) hbare
          h.files fuel []
      · exact LooksIn.ret _ _
    · intro files t' _
      split
      · exact LooksIn.ret _ t'
      · exact LooksIn.throw _ t'
  · intro files t' _
    apply LooksIn.bind (apart_readTorrentTrkrsAddendum hplain hplain' hne _)
    intro trackers t'' _
    split
    · exact LooksIn.ret _ t''
    · exact LooksIn.throw _ t''

end Apart

end FyreDL.Store
