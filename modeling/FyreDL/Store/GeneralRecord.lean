import FyreDL.Store.TorrentRecord

/-!
# FyreDL.Store.GeneralRecord — the general record of an added torrent

`readTorrentItems(true)` reads the twelve items and the trackers of each torrent, not its
files. The status is written by its name (`convDlStat_toString`) and read as a number
(`convDlStat_IntToEnum`), of which a name has none: whatever it was, it comes back as
"downloading" (`status_read_back`).

* `run_readTorrentItem_minimal` — the torrent that was added is read back with it.
* `run_readTorrentRecords_minimal` — the torrents beside it do not get in its way.
* `general_survives_iff` — its general record comes back as it was stored exactly if the
  status was "downloading", on an index that is long enough to be read.
-/

namespace FyreDL.Store

open Lib Lib.Kv Csv

/-! ## The status -/

/-- The status as it comes back. -/
theorem status_read_back (status : DownloadStatus) :
    convDlStatIntToEnum (ofText (convDlStatToString status)) = .downloading := by
  cases status with
  | downloading => decide
  | completed => decide
  | failed => decide
  | paused => decide
  | stopped => decide
  | unknown => decide
  | invalid => decide

theorem general_read_back (info : TorrentInfo) :
    (readBackTorrent info).general = { info.general with dlStatus := .downloading } := by
  rw [readBackTorrent, status_read_back]

theorem general_read_back_iff (info : TorrentInfo) :
    (readBackTorrent info).general = info.general ↔ info.general.dlStatus = .downloading := by
  rw [general_read_back]
  constructor
  · intro h
    rw [← h]
  · intro h
    rw [← h]

/-! ## Reading without the files -/

section Minimal

variable {s : Db} {fuel : Nat}

/-- The torrent of the entry can be read. -/
def MinimalReadable (s : Db) (e : Entry) : Prop :=
  ∃ r, (run (readTorrentItem 0 true e) s).1 = .ret r

/-- A minimal read makes no rounds over the files, whatever their number. -/
theorem MinimalReadable.run {e : Entry} (h : MinimalReadable s e) (fuel : Nat) :
    ∃ r, run (readTorrentItem fuel true e) s = (.ret r, s) := by
  rcases h with ⟨r, hr⟩
  exact ⟨r, (noWrites_readTorrentItem fuel true e).run_eq hr⟩

/-- A torrent that can be read with its files can be read without them. -/
theorem TorrentReadable.minimal {e : Entry} (h : TorrentReadable s e) : MinimalReadable s e := by
  rcases h with ⟨fuel, r, hr⟩
  have hrun := (noWrites_readTorrentItem fuel false e).run_eq hr
  rcases run_bind_eq_ret hrun with ⟨values, s₁, hitems, hfiles⟩
  rcases run_bind_eq_ret hfiles with ⟨files, s₂, hread, htrackers⟩
  -- the files were read from the store that the trackers are read from
  obtain rfl : s₁ = s := (noWrites_readItems _ _).store_eq hitems
  obtain rfl : s₂ = s₁ := (noWrites_readTorrentFiles _ _ _).store_eq hread
  rcases run_bind_eq_ret htrackers with ⟨trackers, s₃, hlist, hlast⟩
  split at hlast
  · rename_i hne
    refine ⟨⟨generalInfo e (valueAt values), trackers, []⟩, ?_⟩
    rw [readTorrentItem, run_bind_ret hitems]
    dsimp only
    rw [readTorrentFiles, if_pos rfl, Prog.pure_bind, run_bind_ret hlist, if_pos hne]
    rfl
  · cases hlast

/-- A stored torrent with one clean tracker is read back without its files. -/
theorem run_readTorrentItem_minimal {info : TorrentInfo} (h : TorrentStored s info)
    {t : TorrentTrackers} (htrackers : info.trackers = [t]) (hurl : CleanCell t.url)
    (hnum : info.general.numTrackers = 1) (fuel : Nat) :
    run (readTorrentItem fuel true (torrentEntry info)) s =
      (.ret { readBackTorrent info with filesVec := [] }, s) := by
  rcases h.run_items with ⟨values, hitems, hgeneral⟩
  have hlast : info.trackers.getLast? = some t := by
    rw [htrackers]
    rfl
  have hread := run_readTorrentTrkrsAddendum hlast hurl (h.lastTracker hlast)
  have hlength : (info.trackers.length : Int) = 1 := by
    rw [htrackers]
    rfl
  have hnumber : (readBackTorrent info).general.numTrackers = 1 := hnum
  rw [hlength] at hread
  -- the minimal reader skips the files
  rw [readTorrentItem, show (torrentEntry info).1 = info.general.uniqueId from rfl,
    run_bind_ret hitems]
  simp only [hgeneral]
  rw [readTorrentFiles, if_pos rfl, Prog.pure_bind, hnumber, run_bind_ret hread,
    if_pos (List.cons_ne_nil _ _), run_pure, readBackTorrent, htrackers]
  rfl

/-- All torrents of a list are read, in its order. -/
theorem run_readTorrentRecords_minimal {record : Entry → TorrentInfo} {es : List Entry}
    (h : ∀ e ∈ es, IsTorrent e → run (readTorrentItem fuel true e) s = (.ret (record e), s)) :
    run (readTorrentRecords fuel true es) s =
      (.ret ((es.filter fun e => IsTorrent e).map record), s) :=
  run_readTorrentRecords_each h

/-- Reading another torrent looks at no key that was written. -/
theorem minimalReadable_congr {t : Db} {id : Str} {e : Entry} (he : '_' ∉ e.1) (hid : '_' ∉ id)
    (hne : e.1 ≠ id) (h : ∀ key, Untouched id key → t key = s key)
    (hread : MinimalReadable s e) : MinimalReadable t e := by
  -- all keys it looks at have its own id in front
  have hapart : LooksIn (Untouched id) (readTorrentItem 0 true e) s := by
    apply LooksIn.bind (apart_readItems he hid hne torrentKeys)
    intro values s₁ _
    apply LooksIn.bind
    · exact LooksIn.ret _ s₁
    · intro files s₂ _
      apply LooksIn.bind (apart_readTorrentTrkrsAddendum he hid hne _)
      intro trackers s₃ _
      split
      · exact LooksIn.ret _ s₃
      · exact LooksIn.throw _ s₃
  rcases hread with ⟨r, hr⟩
  refine ⟨r, ?_⟩
  rw [← hr]
  apply (run_congr_of_readKeys _).symm
  intro key hkey
  exact (h key (hapart key hkey)).symm

end Minimal

/-! ## The record of an added torrent -/

/-- An added torrent with one tracker: its id consists of digits, and the index and the
reader of the trackers can carry it. -/
structure OneTracker (info : TorrentInfo) : Prop where
  id_ne_nil : info.general.uniqueId ≠ []
  id_digits : ∀ c ∈ info.general.uniqueId, c.isDigit = true
  dest : CleanCell info.general.downDest
  tracker : ∃ t, info.trackers = [t] ∧ CleanCell t.url
  numTrackers : info.general.numTrackers = 1

/-- Reading `readTorrentItems(true)` gives a record with the id of the torrent, and every
record with this id has the same general record. -/
def GeneralSurvives (ord : IterOrder Entry) (s : Db) (general : GeneralInfo) : Prop :=
  ∃ records, (run (readTorrentItems 0 ord true) s).1 = .ret records ∧
    (∃ r ∈ records, r.general.uniqueId = general.uniqueId) ∧
    ∀ r ∈ records, r.general.uniqueId = general.uniqueId → r.general = general

theorem cleanCell_of_digits {id : Str} (hne : id ≠ []) (h : ∀ c ∈ id, c.isDigit = true) :
    CleanCell id := by
  refine ⟨hne, fun hc => ?_, fun hc => ?_⟩
  · exact absurd (h _ hc) (by decide)
  · exact absurd (h _ hc) (by decide)

theorem no_underscore_of_digits {id : Str} (h : ∀ c ∈ id, c.isDigit = true) : '_' ∉ id :=
  fun hc => absurd (h _ hc) (by decide)

section Survives

variable {s : Db} {es : List Entry} {info info' : TorrentInfo}

theorem OneTracker.cleanId (h : OneTracker info) : CleanCell info.general.uniqueId :=
  cleanCell_of_digits h.id_ne_nil h.id_digits

/-- What `readTorrentItems(true)` returns on an index of readable torrents. -/
theorem run_readTorrentItems_minimal {cache : List Entry} {record : Entry → TorrentInfo}
    (ord : IterOrder Entry) (hcache : run (extractDownloadIds true) s = (.ret cache, s))
    (htorrents : ∀ e ∈ cache, IsTorrent e)
    (hread : ∀ e ∈ cache, run (readTorrentItem 0 true e) s = (.ret (record e), s)) :
    run (readTorrentItems 0 ord true) s = (.ret ((ord.order cache).map record), s) := by
  rw [readTorrentItems]
  apply run_tryCatch_ret
  rw [run_bind_ret hcache]
  have hall : ((ord.order cache).filter fun e => IsTorrent e) = ord.order cache := by
    rw [List.filter_eq_self]
    intro e he
    exact decide_eq_true (htorrents e (ord.mem_order.mp he))
  -- an empty map is not iterated
  by_cases hnil : cache = []
  · have horder : ord.order cache = [] := by
      rw [hnil]
      exact List.Perm.eq_nil (ord.perm [])
    rw [if_neg (fun hne => hne hnil), horder]
    rfl
  · rw [if_pos hnil, run_readTorrentRecords_minimal fun e he _ => hread e (ord.mem_order.mp he),
      hall]

/-- A record for each of the entries. -/
theorem exists_minimal_records {l : List Entry} (h : ∀ e ∈ l, MinimalReadable s e) :
    ∃ record : Entry → TorrentInfo,
      ∀ e ∈ l, run (readTorrentItem 0 true e) s = (.ret (record e), s) := by
  have hrecord : ∀ e, ∃ r, e ∈ l → run (readTorrentItem 0 true e) s = (.ret r, s) := by
    intro e
    -- the record of an entry that is not listed does not matter
    by_cases he : e ∈ l
    · rcases (h e he).run 0 with ⟨r, hr⟩
      exact ⟨r, fun _ => hr⟩
    · exact ⟨⟨generalInfo e fun _ => [], [], []⟩, fun hin => absurd hin he⟩
  choose record hrecord using hrecord
  exact ⟨record, hrecord⟩

/-- The torrents that are listed after one was added can be read. -/
theorem minimalReadable_afterAdd (hdigits : ∀ e ∈ es, ∀ c ∈ e.1, c.isDigit = true)
    (hothers : ∀ e ∈ visible es, IsTorrent e → MinimalReadable s e)
    (hinfo : OneTracker info) (hfresh : info.general.uniqueId ∉ es.map Prod.fst) {now : Int}
    {r : TorrentInfo} (hnew : (run (readTorrentItem 0 true (torrentEntry info))
      (afterAdd s es now info)).1 = .ret r) :
    ∀ e ∈ (listedWith es info).filter (fun e => e.2.2 = true), IsTorrent e →
      MinimalReadable (afterAdd s es now info) e := by
  intro e he htorrent
  -- the others are read from keys that were not written
  rcases mem_listed_torrents.mp he with ⟨hin, -⟩ | rfl
  · have hmem : e ∈ es := visible_subset hin
    have hne : e.1 ≠ info.general.uniqueId := by
      intro hid
      exact hfresh (hid ▸ List.mem_map_of_mem hmem)
    apply minimalReadable_congr (no_underscore_of_digits (hdigits e hmem))
      (no_underscore_of_digits hinfo.id_digits) hne
    · exact fun key hkey => afterAdd_of_untouched hkey now
    · exact hothers e hin htorrent
  · exact ⟨r, hnew⟩

/-- What `readTorrentItems(true)` shows of an index on which the torrents can be read, and
the one with a certain entry has a certain record. -/
theorem generalSurvives_of_records {l : List Entry} {record : Entry → TorrentInfo}
    {ord : IterOrder Entry} {general : GeneralInfo} {entry : Entry}
    (hall : run (readTorrentItems 0 ord true) s = (.ret ((ord.order l).map record), s))
    (hids : ∀ e ∈ l, (record e).general.uniqueId = e.1) (hentry : entry ∈ l)
    (hid : entry.1 = general.uniqueId) (hsingle : ∀ e ∈ l, e.1 = entry.1 → e = entry) :
    GeneralSurvives ord s general ↔ (record entry).general = general := by
  have hmem : record entry ∈ (ord.order l).map record :=
    List.mem_map_of_mem (ord.mem_order.mpr hentry)
  have huid : (record entry).general.uniqueId = general.uniqueId := (hids entry hentry).trans hid
  constructor
  · rintro ⟨records, hrecords, -, hsame⟩
    rw [hall] at hrecords
    rw [← Outcome.ret.inj hrecords] at hsame
    exact hsame _ hmem huid
  · intro hgeneral
    refine ⟨_, by rw [hall], ⟨record entry, hmem, huid⟩, ?_⟩
    -- ids are distinct, so a record with this id is that of the entry
    intro r hr hrid
    rcases List.mem_map.mp hr with ⟨e, he, rfl⟩
    have hin : e ∈ l := ord.mem_order.mp he
    rw [hsingle e hin ((hids e hin).symm.trans (hrid.trans hid.symm))]
    exact hgeneral

/-- **The general record.** After `addTorrentItem` has returned `true` for a torrent with one
tracker under a fresh id, the torrents beside it being readable: its general record is read
back as it was stored exactly if its status is "downloading" and the index with it is long
enough to be read. -/
theorem general_survives_iff (hindex : Indexed s es) (hclean : ∀ e ∈ es, CleanEntry e)
    (hnodup : (es.map Prod.fst).Nodup) (hdigits : ∀ e ∈ es, ∀ c ∈ e.1, c.isDigit = true)
    (hothers : ∀ e ∈ visible es, IsTorrent e → MinimalReadable s e)
    (hinfo : OneTracker info) (hfresh : info.general.uniqueId ∉ es.map Prod.fst) {s' : Db}
    {drawn : Str} {now : Int}
    (hadd : run (addTorrentItem drawn now info) s = (.ret (true, info'), s'))
    (ord : IterOrder Entry) :
    GeneralSurvives ord s' info'.general ↔
      info.general.dlStatus = .downloading ∧ parsable (indexText (listedWith es info)) = true := by
  rw [run_addTorrentItem hindex hclean hinfo.id_ne_nil hinfo.dest.ne_nil drawn now] at hadd
  rcases Prod.mk.inj hadd with ⟨hret, hstore⟩
  obtain rfl : torrentInfoToStore now info = info' := (Prod.mk.inj (Outcome.ret.inj hret)).2
  have hafter : afterAdd s es now info = s' := hstore
  subst hafter
  have hlistedNodup := listedWith_nodup hnodup hfresh
  rcases run_extractTorrents (indexed_afterAdd now)
    (listedWith_clean hclean hinfo.cleanId hinfo.dest) hlistedNodup with ⟨hcache, htorrents⟩
  by_cases hparsable : parsable (indexText (listedWith es info)) = true
  · rw [visible_of_parsable hparsable] at hcache htorrents
    rcases hinfo.tracker with ⟨t, htrackers, hurl⟩
    have hnew : run (readTorrentItem 0 true (torrentEntry info)) (afterAdd s es now info) = _ :=
      run_readTorrentItem_minimal (@torrentStored_afterAdd s es info now) htrackers hurl
        hinfo.numTrackers 0
    -- every listed torrent has a record, and that of the new one is known
    have hread := minimalReadable_afterAdd hdigits hothers hinfo hfresh (congrArg Prod.fst hnew)
    rcases exists_minimal_records fun e he => hread e he (htorrents e he) with ⟨record, hrecord⟩
    have hentry : torrentEntry info ∈ (listedWith es info).filter (fun e => e.2.2 = true) :=
      mem_listed_torrents.mpr (.inr rfl)
    have hsingle : ∀ e ∈ (listedWith es info).filter (fun e => e.2.2 = true),
        e.1 = (torrentEntry info).1 → e = torrentEntry info := fun e he hid =>
      List.inj_on_of_nodup_map hlistedNodup (List.mem_filter.mp he).1
        (List.mem_filter.mp hentry).1 hid
    have hmine : (record (torrentEntry info)).general =
        (readBackTorrent (torrentInfoToStore now info)).general := by
      have hsame := (hrecord _ hentry).symm.trans hnew
      rw [Outcome.ret.inj (Prod.mk.inj hsame).1]
    have hall := run_readTorrentItems_minimal ord hcache htorrents hrecord
    have hid : (torrentEntry info).1 = (torrentInfoToStore now info).general.uniqueId := rfl
    rw [generalSurvives_of_records hall (fun e he => readTorrentItem_id (hrecord e he))
      hentry hid hsingle, hmine, general_read_back_iff]
    constructor
    · intro hstatus
      exact ⟨hstatus, hparsable⟩
    · intro h
      exact h.1
  · -- nothing is listed, so nothing is read
    rw [visible, if_neg hparsable] at hcache
    have hnone := @run_readTorrentItems_minimal _ [] (fun _ => info) ord hcache
      (fun e he => absurd he List.not_mem_nil) (fun e he => absurd he List.not_mem_nil)
    constructor
    · rintro ⟨records, hrecords, ⟨r, hr, -⟩, -⟩
      rw [hnone] at hrecords
      rw [← Outcome.ret.inj hrecords] at hr
      rcases List.mem_map.mp hr with ⟨e, he, -⟩
      exact absurd (ord.mem_order.mp he) List.not_mem_nil
    · intro h
      exact absurd h.2 hparsable

end Survives

/-- A torrent with one file and one tracker, and with the given status. -/
def sampleTorrentOf (status : DownloadStatus) : TorrentInfo where
  general := { (sampleTorrent '1' [sampleTracker]).general with dlStatus := status }
  trackers := [sampleTracker]
  filesVec := (sampleTorrent '1' [sampleTracker]).filesVec

/-- A torrent that was paused is downloading when it is read. -/
theorem general_paused_lost :
    (run (addTorrentItem [] 7 (sampleTorrentOf .paused)) emptyDb).1 =
        .ret (true, torrentInfoToStore 7 (sampleTorrentOf .paused)) ∧
      (run (readTorrentItems 0 (IterOrder.insertion Entry) true)
        (run (addTorrentItem [] 7 (sampleTorrentOf .paused)) emptyDb).2).1 =
          .ret [{ readBackTorrent (torrentInfoToStore 7 (sampleTorrentOf .paused)) with
            filesVec := [] }] ∧
      ¬ GeneralSurvives (IterOrder.insertion Entry)
        (run (addTorrentItem [] 7 (sampleTorrentOf .paused)) emptyDb).2
        (torrentInfoToStore 7 (sampleTorrentOf .paused)).general := by
  have hread : (run (readTorrentItems 0 (IterOrder.insertion Entry) true)
      (run (addTorrentItem [] 7 (sampleTorrentOf .paused)) emptyDb).2).1 =
        .ret [{ readBackTorrent (torrentInfoToStore 7 (sampleTorrentOf .paused)) with
          filesVec := [] }] := by decide +kernel
  refine ⟨by decide +kernel, hread, ?_⟩
  rintro ⟨records, hrecords, -, hsame⟩
  rw [hread] at hrecords
  have hmem : { readBackTorrent (torrentInfoToStore 7 (sampleTorrentOf .paused)) with
      filesVec := [] } ∈ records := by
    rw [← Outcome.ret.inj hrecords]
    exact List.mem_cons_self
  -- the record that is read says "downloading"
  have hstatus := congrArg GeneralInfo.dlStatus (hsame _ hmem rfl)
  exact absurd hstatus (by decide)

/-- One that was downloading still is. -/
theorem general_survives_downloading :
    GeneralSurvives (IterOrder.insertion Entry)
      (run (addTorrentItem [] 7 (sampleTorrentOf .downloading)) emptyDb).2
      (torrentInfoToStore 7 (sampleTorrentOf .downloading)).general := by
  have hadd : run (addTorrentItem [] 7 (sampleTorrentOf .downloading)) emptyDb =
      (.ret (true, torrentInfoToStore 7 (sampleTorrentOf .downloading)),
        (run (addTorrentItem [] 7 (sampleTorrentOf .downloading)) emptyDb).2) := by
    have hret : (run (addTorrentItem [] 7 (sampleTorrentOf .downloading)) emptyDb).1 =
        .ret (true, torrentInfoToStore 7 (sampleTorrentOf .downloading)) := by decide +kernel
    exact Prod.ext hret rfl
  have hwf : WellFormed (sampleTorrent '1' [sampleTracker]) :=
    sampleTorrent_wellFormed rfl (by decide)
  have hinfo : OneTracker (sampleTorrentOf .downloading) :=
    ⟨hwf.id_ne_nil, hwf.id_digits, hwf.dest, ⟨sampleTracker, rfl, by decide⟩, rfl⟩
  have hempty : Indexed emptyDb [] := rfl
  apply (general_survives_iff hempty (fun e he => absurd he List.not_mem_nil) List.nodup_nil
    (fun e he => absurd he List.not_mem_nil)
    (fun e he => absurd (visible_subset he) List.not_mem_nil) hinfo List.not_mem_nil hadd _).mpr
  exact ⟨rfl, by decide⟩

end FyreDL.Store
