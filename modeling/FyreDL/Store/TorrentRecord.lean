import FyreDL.Store.Registration
import FyreDL.Store.TorrentApart

/-!
# FyreDL.Store.TorrentRecord — an added torrent, and the ones beside it

One torrent that cannot be read hides all, so that whether an added torrent is shown
and whether the older ones still are is one question.

* `addTorrentItem_harmless_iff` — the writer takes a torrent without trackers, or with an
  empty SHA-1 field; the reader then throws, and nothing is shown any more. `Harmless` is
  what it takes.
* `addTorrentItem_hides` — two torrents of which the second has no tracker.
-/

namespace FyreDL.Store

open Lib Lib.Kv Csv

/-! ## Adding -/

/-- If `addTorrentItem` returns `true`, `readTorrentItems(false)` then returns records with
the new id among them and with every id that it returned before. -/
def AddedHarmlessly (ord ord' : IterOrder Entry) (s : Db) (drawn : Str) (now : Int)
    (info : TorrentInfo) : Prop :=
  ∀ info' s', run (addTorrentItem drawn now info) s = (.ret (true, info'), s') →
    ∃ records, ShowsTorrents ord' s' records ∧
      info.general.uniqueId ∈ records.map (fun r => r.general.uniqueId) ∧
      ∀ before, ShowsTorrents ord s before → ∀ r ∈ before,
        r.general.uniqueId ∈ records.map (fun r => r.general.uniqueId)

section Adding

variable {s : Db} {es : List Entry} {info : TorrentInfo}

/-- What `extract_download_ids(true)` shows of an index of clean entries. -/
theorem run_extractTorrents (hindex : Indexed s es) (hclean : ∀ e ∈ es, CleanEntry e)
    (hnodup : (es.map Prod.fst).Nodup) :
    run (extractDownloadIds true) s = (.ret ((visible es).filter fun e => e.2.2 = true), s) ∧
      ∀ e ∈ (visible es).filter (fun e => e.2.2 = true), IsTorrent e := by
  have hsublist : (visible es).Sublist es := by
    unfold visible
    split
    · exact List.Sublist.refl es
    · exact List.nil_sublist es
  constructor
  · rw [run_extractDownloadIds hindex hclean, extracted_of_nodup]
    exact hnodup.sublist (hsublist.map Prod.fst)
  · intro e he
    rcases List.mem_filter.mp he with ⟨hmem, hflag⟩
    exact ⟨by simpa using hflag, (hclean e (visible_subset hmem)).path.ne_nil⟩

/-- The entries that are listed after a torrent was added. -/
def listedWith (es : List Entry) (info : TorrentInfo) : List Entry :=
  visible es ++ [torrentEntry info]

theorem listedWith_clean (hclean : ∀ e ∈ es, CleanEntry e) (hid : CleanCell info.general.uniqueId)
    (hdest : CleanCell info.general.downDest) : ∀ e ∈ listedWith es info, CleanEntry e := by
  intro e he
  rcases List.mem_append.mp he with hold | hin
  · exact hclean e (visible_subset hold)
  · rw [List.mem_singleton.mp hin]
    exact ⟨hid, hdest⟩

theorem listedWith_nodup (hnodup : (es.map Prod.fst).Nodup)
    (hfresh : info.general.uniqueId ∉ es.map Prod.fst) :
    ((listedWith es info).map Prod.fst).Nodup := by
  rw [listedWith, List.map_append, List.nodup_append]
  refine ⟨?_, List.nodup_singleton _, ?_⟩
  · unfold visible
    split
    · exact hnodup
    · exact List.nodup_nil
  · rintro a ha b hb rfl
    rw [List.map_singleton, List.mem_singleton] at hb
    rcases List.mem_map.mp ha with ⟨e, he, rfl⟩
    have hid : e.1 = info.general.uniqueId := hb
    exact hfresh (hid ▸ List.mem_map_of_mem (visible_subset he))

theorem WellFormed.toStore (h : WellFormed info) (now : Int) :
    WellFormed (torrentInfoToStore now info) :=
  ⟨h.id_ne_nil, h.id_digits, h.dest, h.urls, h.paths, h.numFiles, h.numTrackers⟩

/-- The store that `addTorrentItem` leaves. -/
def afterAdd (s : Db) (es : List Entry) (now : Int) (info : TorrentInfo) : Db :=
  putTorrent (Function.update s leveldbStoreUniqueId (some (indexText (listedWith es info))))
    (torrentInfoToStore now info)

theorem run_addTorrentItem_afterAdd (hindex : Indexed s es) (hclean : ∀ e ∈ es, CleanEntry e)
    (hwf : WellFormed info) (drawn : Str) (now : Int) :
    run (addTorrentItem drawn now info) s =
      (.ret (decide (info.filesVec ≠ []), torrentInfoToStore now info),
        afterAdd s es now info) :=
  run_addTorrentItem hindex hclean hwf.id_ne_nil hwf.dest.ne_nil drawn now

theorem afterAdd_of_untouched {key : Str} (h : Untouched info.general.uniqueId key)
    (now : Int) : afterAdd s es now info key = s key :=
  @putTorrent_of_untouched s (torrentInfoToStore now info) key h _

theorem indexed_afterAdd (now : Int) :
    Indexed (afterAdd s es now info) (listedWith es info) :=
  (indexed_update s _).putItems _ _

theorem torrentStored_afterAdd (now : Int) :
    TorrentStored (afterAdd s es now info) (torrentInfoToStore now info) :=
  torrentStored_putTorrent _ _

theorem torrentReadable_afterAdd (hwf : WellFormed info) (hfiles : info.filesVec ≠ [])
    (htrackers : info.trackers ≠ []) (hhash : ∀ f ∈ info.filesVec, CleanCell f.sha1HashHex)
    (now : Int) : TorrentReadable (afterAdd s es now info) (torrentEntry info) := by
  have hread := torrentReadable_stored (@torrentStored_afterAdd s es info now) (hwf.toStore now)
    hfiles htrackers hhash
  exact hread

theorem TorrentReadable.of_afterAdd (hwf : WellFormed info) (hhex : HexOrEmpty info)
    (hbare : ∀ b : Bool, s (boolText b) = none) {now : Int}
    (hread : TorrentReadable (afterAdd s es now info) (torrentEntry info)) :
    info.trackers ≠ [] ∧ ∀ f ∈ info.filesVec, CleanCell f.sha1HashHex := by
  have hbare' : ∀ b : Bool, afterAdd s es now info (boolText b) = none := by
    intro b
    rw [afterAdd_of_untouched (untouched_boolText hwf.id_ne_nil b), hbare]
  have hstored := @torrentStored_afterAdd s es info now
  have hreadStored : TorrentReadable (afterAdd s es now info)
    (torrentEntry (torrentInfoToStore now info)) := hread
  have hboth := hreadStored.of_stored hstored (hwf.toStore now) hhex hbare'
  exact hboth

/-- An older one is as readable as before. -/
theorem torrentReadable_afterAdd_old {e : Entry} (hapart : ReadsApart s info.general.uniqueId e)
    (now : Int) : TorrentReadable s e ↔ TorrentReadable (afterAdd s es now info) e :=
  torrentReadable_congr hapart fun _ hkey => afterAdd_of_untouched hkey now

theorem mem_listed_torrents {e : Entry} :
    e ∈ (listedWith es info).filter (fun e => e.2.2 = true) ↔
      (e ∈ visible es ∧ e.2.2 = true) ∨ e = torrentEntry info := by
  rw [List.mem_filter, listedWith, List.mem_append, List.mem_singleton, decide_eq_true_eq]
  constructor
  · rintro ⟨hold | hin, hflag⟩
    · exact Or.inl ⟨hold, hflag⟩
    · exact Or.inr hin
  · rintro (⟨hold, hflag⟩ | rfl)
    · exact ⟨Or.inl hold, hflag⟩
    · exact ⟨Or.inr rfl, rfl⟩

/-- What it takes for an added torrent to harm none: it has no file (and is refused), or it
has trackers and clean SHA-1 fields, the index with it is long enough to be read, and every
older torrent can be read. -/
def Harmless (s : Db) (es : List Entry) (info : TorrentInfo) : Prop :=
  info.filesVec = [] ∨
    (info.trackers ≠ [] ∧ (∀ f ∈ info.filesVec, CleanCell f.sha1HashHex) ∧
      parsable (indexText (listedWith es info)) = true ∧
      ∀ e ∈ visible es, IsTorrent e → TorrentReadable s e)

/-- **When an added torrent harms none.** On an index of clean entries with distinct ids,
for a well-formed torrent under a fresh id: `Harmless` is enough, and nothing less is, if
the SHA-1 fields are empty or clean. -/
theorem addTorrentItem_harmless_iff (hindex : Indexed s es) (hclean : ∀ e ∈ es, CleanEntry e)
    (hnodup : (es.map Prod.fst).Nodup) (hwf : WellFormed info)
    (hfresh : info.general.uniqueId ∉ es.map Prod.fst)
    (hapart : ∀ e ∈ es, IsTorrent e → ReadsApart s info.general.uniqueId e)
    (hbare : ∀ b : Bool, s (boolText b) = none) (drawn : Str) (now : Int)
    (ord ord' : IterOrder Entry) :
    (Harmless s es info → AddedHarmlessly ord ord' s drawn now info) ∧
      (HexOrEmpty info → AddedHarmlessly ord ord' s drawn now info → Harmless s es info) := by
  have hrun := run_addTorrentItem_afterAdd hindex hclean hwf drawn now
  rcases run_extractTorrents hindex hclean hnodup with ⟨hcache, htorrents⟩
  rcases run_extractTorrents (indexed_afterAdd now) (listedWith_clean hclean hwf.id hwf.dest)
    (listedWith_nodup hnodup hfresh) with ⟨hcache', htorrents'⟩
  constructor
  · rintro (hnil | ⟨htrackers, hhash, hparsable, hold⟩) info' t ht
    · -- refused: the call does not return `true`
      rw [hrun, hnil] at ht
      cases ht
    by_cases hfiles : info.filesVec = []
    · rw [hrun, hfiles] at ht
      cases ht
    rw [hrun] at ht
    rcases Prod.mk.inj ht with ⟨-, rfl⟩
    rw [visible_of_parsable hparsable] at hcache' htorrents'
    have hread : ∀ e ∈ (listedWith es info).filter (fun e => e.2.2 = true),
        TorrentReadable (afterAdd s es now info) e := by
      intro e he
      rcases mem_listed_torrents.mp he with ⟨hin, -⟩ | rfl
      · have htorrent := htorrents' e he
        apply (torrentReadable_afterAdd_old (hapart e (visible_subset hin) htorrent) now).mp
        exact hold e hin htorrent
      · exact torrentReadable_afterAdd hwf hfiles htrackers hhash now
    rcases @showsTorrents_of_readable _ _ ord' hcache' htorrents' hread with
      ⟨records, hshown, hids⟩
    refine ⟨records, hshown, ?_, ?_⟩
    · rw [hids]
      exact List.mem_map.mpr ⟨torrentEntry info, mem_listed_torrents.mpr (Or.inr rfl), rfl⟩
    · intro before hbefore r hr
      rcases hbefore.readable hcache htorrents (List.ne_nil_of_mem hr) with ⟨-, hidsBefore⟩
      have hlisted := (hidsBefore _).mp (List.mem_map_of_mem hr)
      rw [hids]
      rcases List.mem_map.mp hlisted with ⟨e, he, heid⟩
      rcases List.mem_filter.mp he with ⟨hmem, hflag⟩
      refine List.mem_map.mpr ⟨e, mem_listed_torrents.mpr (Or.inl ⟨hmem, ?_⟩), heid⟩
      simpa using hflag
  · intro hhex hharmless
    by_cases hfiles : info.filesVec = []
    · exact Or.inl hfiles
    right
    rcases hharmless (torrentInfoToStore now info) (afterAdd s es now info)
      (by rw [hrun, decide_eq_true hfiles]) with ⟨records, hshown, hmem, -⟩
    have hne : records ≠ [] := by
      rintro rfl
      exact absurd hmem List.not_mem_nil
    -- something is shown, so that all that is listed can be read
    rcases hshown.readable hcache' htorrents' hne with ⟨hread, hids⟩
    have hparsable : parsable (indexText (listedWith es info)) = true := by
      by_contra hshort
      rw [hids, visible, if_neg hshort] at hmem
      exact absurd hmem List.not_mem_nil
    rw [visible_of_parsable hparsable] at hread
    rcases TorrentReadable.of_afterAdd hwf hhex hbare
      (hread _ (mem_listed_torrents.mpr (Or.inr rfl))) with ⟨htrackers, hhash⟩
    refine ⟨htrackers, hhash, hparsable, ?_⟩
    intro e he htorrent
    apply (torrentReadable_afterAdd_old (hapart e (visible_subset he) htorrent) now).mpr
    exact hread e (mem_listed_torrents.mpr (Or.inl ⟨he, htorrent.1⟩))

end Adding

/-! ## Samples -/

/-- A torrent with one file and the given trackers. -/
def sampleTorrent (digit : Char) (trackers : List TorrentTrackers) : TorrentInfo where
  general :=
    { uniqueId := sampleId digit
      downDest := "/dl/t".toList
      insertTimestamp := 0
      compltTimestamp := 0
      creatnTimestamp := 0
      dlStatus := .stopped
      comment := []
      creator := []
      magnetUri := []
      torrentName := "t".toList
      numFiles := 1
      numTrackers := trackers.length
      numPieces := 1
      pieceLength := 16384 }
  trackers := trackers
  filesVec := [⟨sampleId digit, "t/a".toList, "da39a3ee".toList, 0, 10, 0, 0, (0, 0), false⟩]

/-- A tracker. -/
def sampleTracker : TorrentTrackers := ⟨[], 0, "udp://h:80".toList, true⟩

theorem sampleTorrent_wellFormed {digit : Char} (hdigit : digit.isDigit = true)
    {trackers : List TorrentTrackers} (h : ∀ t ∈ trackers, CleanCell t.url) :
    WellFormed (sampleTorrent digit trackers) := by
  have hdest : CleanCell "/dl/t".toList := by decide
  have hpath : CleanCell "t/a".toList := by decide
  refine ⟨by simp [sampleTorrent, sampleId], ?_, hdest, h, ?_, rfl, rfl⟩
  · intro c hc
    rw [List.eq_of_mem_replicate hc]
    exact hdigit
  · intro f hf
    rw [List.mem_singleton.mp hf]
    exact hpath

theorem sampleTorrent_hashes (digit : Char) (trackers : List TorrentTrackers) :
    ∀ f ∈ (sampleTorrent digit trackers).filesVec, CleanCell f.sha1HashHex := by
  have hhash : CleanCell "da39a3ee".toList := by decide
  intro f hf
  rw [List.mem_singleton.mp hf]
  exact hhash

/-- The empty store with the first sample torrent added. -/
def sampleTorrentDb : Db := afterAdd emptyDb [] 7 (sampleTorrent '1' [sampleTracker])

/-- A second torrent with a tracker is shown beside the first one. -/
theorem addTorrentItem_harmless_sample :
    AddedHarmlessly (IterOrder.insertion Entry) (IterOrder.insertion Entry) sampleTorrentDb [] 8
      (sampleTorrent '2' [sampleTracker]) := by
  have hurl : ∀ t ∈ [sampleTracker], CleanCell t.url := by decide
  have hwf : WellFormed (sampleTorrent '1' [sampleTracker]) :=
    sampleTorrent_wellFormed (by decide) hurl
  have hwf₂ : WellFormed (sampleTorrent '2' [sampleTracker]) :=
    sampleTorrent_wellFormed (by decide) hurl
  have hlisted : listedWith [] (sampleTorrent '1' [sampleTracker]) =
      [torrentEntry (sampleTorrent '1' [sampleTracker])] := by decide
  unfold sampleTorrentDb
  have hindex := @indexed_afterAdd emptyDb [] (sampleTorrent '1' [sampleTracker]) 7
  have hstored := @torrentStored_afterAdd emptyDb [] (sampleTorrent '1' [sampleTracker]) 7
  have hread := @torrentReadable_afterAdd emptyDb [] _ hwf (by decide) (by decide)
    (sampleTorrent_hashes '1' [sampleTracker]) 7
  have hbare : ∀ b : Bool,
      afterAdd emptyDb [] 7 (sampleTorrent '1' [sampleTracker]) (boolText b) = none :=
    fun b => afterAdd_of_untouched (untouched_boolText hwf.id_ne_nil b) 7
  rw [hlisted] at hindex
  -- the store is closed and large; only the facts above are needed of it
  generalize afterAdd emptyDb [] 7 (sampleTorrent '1' [sampleTracker]) = s at *
  refine (addTorrentItem_harmless_iff hindex ?_ (by decide) hwf₂ (by decide) ?_ hbare [] 8 _ _).1
    (Or.inr ⟨by decide, sampleTorrent_hashes '2' [sampleTracker], by decide, ?_⟩)
  · intro e he
    rw [List.mem_singleton.mp he]
    exact ⟨hwf.id, hwf.dest⟩
  · intro e he _
    rw [List.mem_singleton.mp he]
    have hapart : ReadsApart s (sampleId '2') (torrentEntry (torrentInfoToStore 7
        (sampleTorrent '1' [sampleTracker]))) :=
      readsApart_stored hstored (hwf.toStore 7)
        (fun f hf => Or.inr (sampleTorrent_hashes '1' [sampleTracker] f hf)) hbare (by decide)
        (by decide) (by decide)
    exact hapart
  · intro e he _
    rw [List.mem_singleton.mp (visible_subset he)]
    exact hread

/-- A second torrent without trackers is accepted, and then not even the first one is
shown. -/
theorem addTorrentItem_hides :
    (run (addTorrentItem [] 8 (sampleTorrent '2' [])) sampleTorrentDb).1 =
        .ret (true, torrentInfoToStore 8 (sampleTorrent '2' [])) ∧
      ((run (readTorrentItems 2 (IterOrder.insertion Entry) false) sampleTorrentDb).1 =
        .ret [readBackTorrent (torrentInfoToStore 7 (sampleTorrent '1' [sampleTracker]))]) ∧
      (run (readTorrentItems 2 (IterOrder.insertion Entry) false)
        (run (addTorrentItem [] 8 (sampleTorrent '2' [])) sampleTorrentDb).2).1 = .ret [] ∧
      ¬ AddedHarmlessly (IterOrder.insertion Entry) (IterOrder.insertion Entry) sampleTorrentDb [] 8
        (sampleTorrent '2' []) := by
  have hadd : (run (addTorrentItem [] 8 (sampleTorrent '2' [])) sampleTorrentDb).1 =
      .ret (true, torrentInfoToStore 8 (sampleTorrent '2' [])) := by decide +kernel
  have hread : (run (readTorrentItems 2 (IterOrder.insertion Entry) false)
      (run (addTorrentItem [] 8 (sampleTorrent '2' [])) sampleTorrentDb).2).1 = .ret [] := by
    decide +kernel
  refine ⟨hadd, by decide +kernel, hread, ?_⟩
  intro hharmless
  -- whatever is shown would include the new torrent
  rcases hharmless _ _ (Prod.ext hadd rfl) with ⟨records, hshown, hmem, -⟩
  rw [hshown.unique ⟨2, hread⟩] at hmem
  exact absurd hmem List.not_mem_nil

end FyreDL.Store
