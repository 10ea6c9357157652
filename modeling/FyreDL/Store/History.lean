import FyreDL.Store.AnyIndex
import FyreDL.Store.Deletion
import FyreDL.Store.GeneralRecord
import FyreDL.Store.Modification
import FyreDL.Lib.Refinement

/-!
# FyreDL.Store.History — the history behind the key space

What the functions for HTTP/FTP and BitTorrent downloads are for: they keep a *history*, a
list of records of each kind. The store has the history as one text with the ids and a lot
of items under keys that begin with an id.

* `History.step` — what a call does to the history, and what it answers.
* `Keeps s h` — the store has the history `h`.
* `keeps_step` — a call does to the store what it does to the history.
* `history_refines` — so does every sequence of calls, whatever is read in between.

A deletion takes all torrents with it, and a torrent is never changed or deleted on its own.
-/

namespace FyreDL.Store

open Lib Lib.Kv Csv

/-! ## The history -/

/-- The downloads of both kinds; of each HTTP/FTP download the record that is to be read, and
of each torrent what was stored. -/
structure History where
  curl : List CurlDlInfo
  torrents : List TorrentInfo

/-- The line of an HTTP/FTP download. -/
def curlEntry (r : CurlDlInfo) : Entry := (r.uniqueId, r.fileLoc, false)

/-- A torrent that can be shown: it has files with hashes, and trackers. -/
structure Showable (info : TorrentInfo) : Prop extends WellFormed info where
  files : info.filesVec ≠ []
  trackers : info.trackers ≠ []
  hashes : ∀ f ∈ info.filesVec, CleanCell f.sha1HashHex

/-- A call of one of the functions that change the history. -/
inductive StoreCall where
  | addCurlItem (drawn : Str) (now : Int) (info : CurlDlInfo)
  | modifyCurlItem (fileLoc : Str) (status : DownloadStatus) (compltTimestamp : Int)
      (hashGiven : Str) (hashType : HashType) (hashRtrnd : Str) (retSuccType : HashVerif)
  | delCurlItem (ord : IterOrder Entry) (fileDest uniqueIdBackup : Str)
  | addTorrentItem (drawn : Str) (now : Int) (info : TorrentInfo)
  | modifyTorrentItem (uniqueId : Str) (status : DownloadStatus)
  | delTorrentItem (uniqueId : Str)

/-- The program of a call, with its answer. -/
def StoreCall.prog : StoreCall → DbProg Bool
  | .addCurlItem drawn now info => do
    let (ret, _) ← FyreDL.Store.addCurlItem drawn now info
    pure ret
  | .modifyCurlItem fileLoc status compltTimestamp hashGiven hashType hashRtrnd retSuccType =>
    FyreDL.Store.modifyCurlItem fileLoc status compltTimestamp hashGiven hashType hashRtrnd
      retSuccType
  | .delCurlItem ord fileDest uniqueIdBackup =>
    FyreDL.Store.delCurlItem ord fileDest uniqueIdBackup
  | .addTorrentItem drawn now info => do
    let (ret, _) ← FyreDL.Store.addTorrentItem drawn now info
    pure ret
  | .modifyTorrentItem uniqueId status => FyreDL.Store.modifyTorrentItem uniqueId status
  | .delTorrentItem uniqueId => FyreDL.Store.delTorrentItem uniqueId

namespace History

def empty : History := ⟨[], []⟩

def entries (h : History) : List Entry := h.curl.map curlEntry ++ h.torrents.map torrentEntry

/-- The least id of the downloads at a path. -/
def idAt (h : History) (path : Str) : Option Str :=
  ((h.entries.filter fun e => e.2.1 = path).map Prod.fst).min?

/-- The download that a deletion is about: the one with the given id, or else the one at the
path. -/
def idToDelete (h : History) (fileDest uniqueIdBackup : Str) : Option Str :=
  if uniqueIdBackup ≠ [] then some uniqueIdBackup
  else if fileDest ≠ [] then h.idAt fileDest else none

/-- The answer of a call, and the history behind it. -/
def step (h : History) : StoreCall → Bool × History
  | .addCurlItem _ now info =>
    if CurlDlInfo.accepted info then
      (true, ⟨h.curl ++ [addedRecord (curlEntry info) (curlInfoToStore now info)], h.torrents⟩)
    else (false, h)
  | .modifyCurlItem fileLoc status compltTimestamp hashGiven hashType hashRtrnd retSuccType =>
    match h.idAt fileLoc with
    | some id =>
      let changed :=
        modifiedRecord id status compltTimestamp hashGiven hashType hashRtrnd retSuccType
      (true, ⟨h.curl.map changed, h.torrents⟩)
    | none => (false, h)
  | .delCurlItem _ fileDest uniqueIdBackup =>
    match h.idToDelete fileDest uniqueIdBackup with
    | some id => (true, ⟨h.curl.filter fun r => r.uniqueId ≠ id, []⟩)
    | none => (false, h)
  | .addTorrentItem _ now info => (true, ⟨h.curl, h.torrents ++ [torrentInfoToStore now info]⟩)
  | .modifyTorrentItem uniqueId _ => (decide (uniqueId ≠ []), h)
  | .delTorrentItem _ => (false, h)

/-- What a caller sees to: the `status_ok` of a new download is set, its id is one of `createId`
that is not in use, and the store can carry it. -/
def Admits (h : History) : StoreCall → Prop
  | .addCurlItem _ _ info => info.extInfo.statusOk ≠ none ∧ (CurlDlInfo.accepted info →
      IsCreateId info.uniqueId ∧ info.uniqueId ∉ h.entries.map Prod.fst ∧
        CleanCell info.fileLoc ∧ ∃ n : Int, info.extInfo.contentLength = n)
  | .addTorrentItem _ _ info =>
      IsCreateId info.general.uniqueId ∧ info.general.uniqueId ∉ h.entries.map Prod.fst ∧
        Showable info
  | _ => True

end History

/-- The index has these entries, in some order. -/
structure Lists (s : Db) (l : List Entry) : Prop where
  indexed : ∃ es, Indexed s es ∧ es.Perm l
  clean : ∀ e ∈ l, CleanEntry e
  ids : ∀ e ∈ l, IsCreateId e.1
  nodup : (l.map Prod.fst).Nodup

/-- The store has the history. -/
structure Keeps (s : Db) (h : History) : Prop extends Lists s h.entries where
  curl : ∀ r ∈ h.curl, CurlReadable s (curlEntry r) ∧ storedRecord s (curlEntry r) = r
  torrents : ∀ t ∈ h.torrents, TorrentStored s t ∧ Showable t

/-- What `determine_download_id` answers: the id, or none. -/
def Finds (s : Db) (path : Str) : Option Str → Prop
  | some id => ∃ isTorrent, run (determineDownloadId path) s = (.ret (id, isTorrent), s)
  | none => (∃ isTorrent, run (determineDownloadId path) s = (.ret ([], isTorrent), s)) ∨
      ∃ what, run (determineDownloadId path) s = (.throw what, s)

/-- What is read of the store is the history, in some order. -/
structure Reads (s : Db) (h : History) : Prop where
  curl : ∀ ord, ∃ records, run (readCurlItems ord) s = (.ret records, s) ∧ records.Perm h.curl
  torrents : ∀ fuel ord, ∃ records, run (readTorrentItems (fuel + 2) ord false) s =
    (.ret records, s) ∧ records.Perm (h.torrents.map readBackTorrent)
  general : ∀ fuel ord, ∃ records, run (readTorrentItems fuel ord true) s =
    (.ret records, s) ∧
      records.Perm (h.torrents.map fun t => { readBackTorrent t with filesVec := [] })
  found : ∀ path, Finds s path (h.idAt path)

/-! ## Finding -/

section Finding

variable {es l : List Entry}

/-- Of distinct ids each one is the latest. -/
theorem latest_iff_mem (hnodup : (es.map Prod.fst).Nodup) {e : Entry} : Latest es e ↔ e ∈ es := by
  constructor
  · intro h
    exact lastBinding_mem h
  · intro he
    rcases exists_lastBinding (List.mem_map_of_mem he) with ⟨d, hd, hid⟩
    obtain rfl : d = e := List.inj_on_of_nodup_map hnodup (lastBinding_mem hd) he hid
    exact hd

/-- The least of the ids at the path is found, whatever the order of the entries. -/
theorem determined_fst (hperm : es.Perm l) (hnodup : (l.map Prod.fst).Nodup) (path : Str) :
    (determined es path).1 =
      (((l.filter fun e => e.2.1 = path).map Prod.fst).min?).getD [] := by
  have hnodup' : (es.map Prod.fst).Nodup := (hperm.map Prod.fst).nodup_iff.mpr hnodup
  rcases determined_eq es path with ⟨e, ⟨hlatest, hleast⟩, hpath, hfound⟩ | ⟨hnone, hfound⟩
  · have hmin : ((l.filter fun e => e.2.1 = path).map Prod.fst).min? = some e.1 := by
      rw [List.min?_eq_some_iff]
      constructor
      · have he : e ∈ l := hperm.mem_iff.mp ((latest_iff_mem hnodup').mp hlatest)
        exact List.mem_map_of_mem (List.mem_filter.mpr ⟨he, decide_eq_true hpath⟩)
      · intro id hid
        rcases List.mem_map.mp hid with ⟨d, hd, rfl⟩
        rcases List.mem_filter.mp hd with ⟨hin, hsame⟩
        apply hleast d ((latest_iff_mem hnodup').mpr (hperm.mem_iff.mpr hin))
        rw [of_decide_eq_true hsame, hpath]
    rw [hfound, hmin, Option.getD_some]
  · have hnil : (l.filter fun e => e.2.1 = path) = [] := by
      rw [List.filter_eq_nil_iff]
      intro e he hsame
      have hlatest := (latest_iff_mem hnodup').mpr (hperm.mem_iff.mpr he)
      exact hnone e hlatest (of_decide_eq_true hsame)
    rw [hfound, hnil]
    rfl

end Finding

namespace History

variable {h : History}

/-- The two kinds of entries. -/
theorem filter_entries (h : History) (torrentsOnly : Bool) :
    (h.entries.filter fun e => e.2.2 = torrentsOnly) =
      if torrentsOnly then h.torrents.map torrentEntry else h.curl.map curlEntry := by
  have hcurl : ∀ e ∈ h.curl.map curlEntry, e.2.2 = false := by
    intro e he
    rcases List.mem_map.mp he with ⟨r, -, rfl⟩
    rfl
  have htorrent : ∀ e ∈ h.torrents.map torrentEntry, e.2.2 = true := by
    intro e he
    rcases List.mem_map.mp he with ⟨t, -, rfl⟩
    rfl
  rw [entries, List.filter_append]
  cases torrentsOnly with
  | false =>
    rw [List.filter_eq_self.mpr fun e he => decide_eq_true (hcurl e he),
      List.filter_eq_nil_iff.mpr fun e he => by rw [htorrent e he]; decide]
    exact List.append_nil _
  | true =>
    rw [List.filter_eq_nil_iff.mpr fun e he => by rw [hcurl e he]; decide,
      List.filter_eq_self.mpr fun e he => decide_eq_true (htorrent e he)]
    rfl

theorem idAt_mem {path id : Str} (hid : h.idAt path = some id) : id ∈ h.entries.map Prod.fst := by
  rcases List.mem_map.mp (List.min?_mem hid) with ⟨e, he, rfl⟩
  exact List.mem_map_of_mem (List.mem_filter.mp he).1

end History

section Looking

variable {s : Db} {h : History}

theorem Keeps.id_ne_nil (hkeeps : Keeps s h) {id : Str} (hid : id ∈ h.entries.map Prod.fst) :
    id ≠ [] := by
  rcases List.mem_map.mp hid with ⟨e, he, rfl⟩
  exact (hkeeps.clean e he).uid.ne_nil

theorem Keeps.indexEntries (hkeeps : Keeps s h) :
    ∃ es, indexEntries s = some es ∧ es.Perm h.entries := by
  rcases hkeeps.indexed with ⟨es, hindex, hperm⟩
  refine ⟨es, ?_, hperm⟩
  rw [indexEntries_of_indexed hindex fun e he => hkeeps.clean e (hperm.mem_iff.mp he),
    visible_of_createId fun e he => hkeeps.ids e (hperm.mem_iff.mp he)]

/-- A path is looked up in the history. -/
theorem Keeps.finds (hkeeps : Keeps s h) (path : Str) : Finds s path (h.idAt path) := by
  rcases hkeeps.indexEntries with ⟨es, hes, hperm⟩
  have hfound : (determined es path).1 = (h.idAt path).getD [] :=
    determined_fst hperm hkeeps.nodup path
  rcases run_determineDownloadId_any hes path with hret | ⟨hnil, hthrow⟩
  · cases hid : h.idAt path with
    | some id =>
      rw [hid, Option.getD_some] at hfound
      exact ⟨_, by rw [hret, ← hfound]⟩
    | none =>
      rw [hid, Option.getD_none] at hfound
      exact .inl ⟨_, by rw [hret, ← hfound]⟩
  · -- without an index there is no download
    have hnone : h.entries = [] := by
      rw [hnil] at hperm
      exact hperm.symm.eq_nil
    have hid : h.idAt path = none := by
      rw [History.idAt, hnone]
      rfl
    rw [hid]
    exact .inr hthrow

end Looking

/-! ## Reading -/

section Reading

variable {s : Db} {h : History}

/-- A stored torrent is read without its files, whatever the number of its trackers. -/
theorem run_readTorrentItem_general {info : TorrentInfo} (hstored : TorrentStored s info)
    (hwf : WellFormed info) (htrackers : info.trackers ≠ []) (fuel : Nat) :
    run (readTorrentItem fuel true (torrentEntry info)) s =
      (.ret { readBackTorrent info with filesVec := [] }, s) := by
  rcases hstored.run_items with ⟨values, hitems, hgeneral⟩
  have hlast : info.trackers.getLast? = some (info.trackers.getLast htrackers) :=
    List.getLast?_eq_some_getLast htrackers
  have hread := run_readTorrentTrkrsAddendum hlast
    (hwf.urls _ (List.getLast_mem htrackers)) (hstored.lastTracker hlast)
  have hnumber : (readBackTorrent info).general.numTrackers = info.trackers.length :=
    hwf.numTrackers
  have hone : (readBackTorrent info).trackers =
      [readBackTracker info.general.uniqueId (info.trackers.getLast htrackers)] := by
    rw [readBackTorrent, hlast]
    rfl
  rw [readTorrentItem, show (torrentEntry info).1 = info.general.uniqueId from rfl,
    run_bind_ret hitems]
  simp only [hgeneral]
  rw [readTorrentFiles, if_pos rfl, Prog.pure_bind, hnumber, run_bind_ret hread,
    if_pos (List.cons_ne_nil _ _), run_pure, ← hone]

/-- Both maps of the index, up to their order. -/
theorem Keeps.run_extractDownloadIds (hkeeps : Keeps s h) (torrentsOnly : Bool) :
    ∃ cache, run (extractDownloadIds torrentsOnly) s = (.ret cache, s) ∧
      cache.Perm (if torrentsOnly then h.torrents.map torrentEntry else h.curl.map curlEntry) := by
  rcases hkeeps.indexed with ⟨es, hindex, hperm⟩
  have hnodup : (es.map Prod.fst).Nodup := (hperm.map Prod.fst).nodup_iff.mpr hkeeps.nodup
  refine ⟨_, run_extractDownloadIds_clean hindex
    (fun e he => hkeeps.clean e (hperm.mem_iff.mp he))
    (fun e he => hkeeps.ids e (hperm.mem_iff.mp he)) hnodup torrentsOnly, ?_⟩
  rw [← History.filter_entries]
  exact hperm.filter _

theorem Keeps.reads_curl (hkeeps : Keeps s h) (ord : IterOrder Entry) :
    ∃ records, run (readCurlItems ord) s = (.ret records, s) ∧ records.Perm h.curl := by
  rcases hkeeps.run_extractDownloadIds false with ⟨cache, hcache, hperm⟩
  rw [if_neg Bool.false_ne_true] at hperm
  have hentry : ∀ e ∈ cache, ∃ r ∈ h.curl, curlEntry r = e := fun e he =>
    List.mem_map.mp (hperm.mem_iff.mp he)
  have hcurl : ∀ e ∈ cache, IsCurl e ∧ CurlReadable s e := by
    intro e he
    rcases hentry e he with ⟨r, hr, rfl⟩
    have hin : curlEntry r ∈ h.entries := List.mem_append_left _ (List.mem_map_of_mem hr)
    exact ⟨⟨rfl, (hkeeps.clean _ hin).path.ne_nil⟩, (hkeeps.curl r hr).1⟩
  rcases run_readCurlItems_perm ord hcache (fun e he => (hcurl e he).1)
    (fun e he => (hcurl e he).2) with ⟨records, hrun, hrecords⟩
  have hback : (h.curl.map curlEntry).map (storedRecord s) = h.curl := by
    rw [List.map_map]
    calc h.curl.map (storedRecord s ∘ curlEntry) = h.curl.map id :=
          List.map_congr_left fun r hr => (hkeeps.curl r hr).2
      _ = h.curl := List.map_id _
  refine ⟨records, hrun, ?_⟩
  rw [← hback]
  exact hrecords.trans (hperm.map _)

/-- Torrents that are read one by one are read together. -/
theorem Keeps.reads_torrents_each (hkeeps : Keeps s h) {fuel : Nat} {minimalReadout : Bool}
    {back : TorrentInfo → TorrentInfo}
    (hread : ∀ t ∈ h.torrents,
      run (readTorrentItem fuel minimalReadout (torrentEntry t)) s = (.ret (back t), s))
    (ord : IterOrder Entry) :
    ∃ records, run (readTorrentItems fuel ord minimalReadout) s = (.ret records, s) ∧
      records.Perm (h.torrents.map back) := by
  rcases hkeeps.run_extractDownloadIds true with ⟨cache, hcache, hperm⟩
  rw [if_pos rfl] at hperm
  have hmem : ∀ e ∈ ord.order cache, ∃ t ∈ h.torrents, torrentEntry t = e := fun e he =>
    List.mem_map.mp (hperm.mem_iff.mp (ord.mem_order.mp he))
  -- a record for each entry; those of other entries do not matter
  have hrecord : ∀ e, ∃ r, ∀ t ∈ h.torrents, torrentEntry t = e → back t = r := by
    intro e
    by_cases he : ∃ t ∈ h.torrents, torrentEntry t = e
    · rcases he with ⟨t, ht, rfl⟩
      refine ⟨back t, ?_⟩
      intro u hu hsame
      have hboth := (hread u hu).symm.trans (hsame ▸ hread t ht)
      exact Outcome.ret.inj (Prod.mk.inj hboth).1
    · exact ⟨⟨generalInfo e fun _ => [], [], []⟩, fun t ht heq => absurd ⟨t, ht, heq⟩ he⟩
  choose record hrecord using hrecord
  have hall : ((ord.order cache).filter fun e => IsTorrent e) = ord.order cache := by
    rw [List.filter_eq_self]
    intro e he
    rcases hmem e he with ⟨t, ht, rfl⟩
    have hin : torrentEntry t ∈ h.entries := List.mem_append_right _ (List.mem_map_of_mem ht)
    exact decide_eq_true ⟨rfl, (hkeeps.clean _ hin).path.ne_nil⟩
  have heach : ∀ e ∈ ord.order cache, IsTorrent e →
      run (readTorrentItem fuel minimalReadout e) s = (.ret (record e), s) := by
    intro e he _
    rcases hmem e he with ⟨t, ht, rfl⟩
    rw [hread t ht, hrecord _ t ht rfl]
  have hrecords : ((ord.order cache).map record).Perm (h.torrents.map back) := by
    have hback : (h.torrents.map torrentEntry).map record = h.torrents.map back := by
      rw [List.map_map]
      exact List.map_congr_left fun t ht => (hrecord _ t ht rfl).symm
    rw [← hback]
    exact ((ord.perm cache).trans hperm).map record
  refine ⟨(ord.order cache).map record, ?_, hrecords⟩
  rw [readTorrentItems]
  apply run_tryCatch_ret
  rw [run_bind_ret hcache]
  -- an empty map is not iterated
  by_cases hnil : cache = []
  · have horder : ord.order cache = [] := by
      rw [hnil]
      exact (ord.perm []).eq_nil
    rw [if_neg (fun hne => hne hnil), horder]
    rfl
  · rw [if_pos hnil, run_readTorrentRecords_each heach, hall]

/-- **Reading** shows the history. -/
theorem Keeps.reads (hkeeps : Keeps s h) : Reads s h := by
  constructor
  · exact hkeeps.reads_curl
  · intro fuel ord
    apply hkeeps.reads_torrents_each
    intro t ht
    rcases hkeeps.torrents t ht with ⟨hstored, hshow⟩
    exact run_readTorrentItem hstored hshow.toWellFormed hshow.files hshow.trackers hshow.hashes
      fuel
  · intro fuel ord
    refine @Keeps.reads_torrents_each s h hkeeps fuel true
      (fun t => { readBackTorrent t with filesVec := [] }) ?_ ord
    intro t ht
    rcases hkeeps.torrents t ht with ⟨hstored, hshow⟩
    exact run_readTorrentItem_general hstored hshow.toWellFormed hshow.trackers fuel
  · exact hkeeps.finds

end Reading

/-! ## Writing: what is left alone -/

section Frames

variable {s t : Db} {l l' : List Entry}

theorem not_underscore_of_createId {id : Str} (h : IsCreateId id) : '_' ∉ id :=
  no_underscore_of_digits h.2

/-- The entries with their ids and texts, in the order of the index. -/
theorem Lists.exists_index (hlists : Lists s l) :
    ∃ es, Indexed s es ∧ es.Perm l ∧ (∀ e ∈ es, CleanEntry e) ∧ ∀ e ∈ es, IsCreateId e.1 := by
  rcases hlists.indexed with ⟨es, hindex, hperm⟩
  exact ⟨es, hindex, hperm, fun e he => hlists.clean e (hperm.mem_iff.mp he),
    fun e he => hlists.ids e (hperm.mem_iff.mp he)⟩

theorem Lists.of_same_index (hlists : Lists s l)
    (h : t leveldbStoreUniqueId = s leveldbStoreUniqueId) :
    Lists t l := by
  rcases hlists with ⟨⟨es, hindex, hperm⟩, hclean, hids, hnodup⟩
  refine ⟨⟨es, ?_, hperm⟩, hclean, hids, hnodup⟩
  rw [Indexed, h]
  exact hindex

/-- An entry with an id that is not in use. -/
theorem Lists.new (hlists : Lists s l) {es : List Entry} (hperm : es.Perm l) {new : Entry}
    (hclean : CleanEntry new) (hid : IsCreateId new.1) (hfresh : new.1 ∉ l.map Prod.fst)
    (hindex : Indexed t (es ++ [new])) (hnew : l'.Perm (new :: l)) : Lists t l' := by
  constructor
  · refine ⟨es ++ [new], hindex, ?_⟩
    calc (es ++ [new]).Perm (new :: es) := List.perm_append_singleton _ _
      List.Perm _ (new :: l) := hperm.cons new
      List.Perm _ l' := hnew.symm
  · intro e he
    rcases List.mem_cons.mp (hnew.mem_iff.mp he) with rfl | hold
    · exact hclean
    · exact hlists.clean e hold
  · intro e he
    rcases List.mem_cons.mp (hnew.mem_iff.mp he) with rfl | hold
    · exact hid
    · exact hlists.ids e hold
  · rw [(hnew.map Prod.fst).nodup_iff, List.map_cons, List.nodup_cons]
    exact ⟨hfresh, hlists.nodup⟩

/-- Some of the entries. -/
theorem Lists.of_sublist (hlists : Lists s l) {es : List Entry} (hindex : Indexed t es)
    (hperm : es.Perm l') (hsub : l'.Sublist l) : Lists t l' :=
  ⟨⟨es, hindex, hperm⟩, fun e he => hlists.clean e (hsub.subset he),
    fun e he => hlists.ids e (hsub.subset he), hlists.nodup.sublist (hsub.map _)⟩

/-- A record whose eleven keys are left alone. -/
theorem storedRecord_frame {r : CurlDlInfo}
    (hr : CurlReadable s (curlEntry r) ∧ storedRecord s (curlEntry r) = r)
    (h : ∀ key ∈ curlKeys,
      t (multipartKey [r.uniqueId, key]) = s (multipartKey [r.uniqueId, key])) :
    CurlReadable t (curlEntry r) ∧ storedRecord t (curlEntry r) = r := by
  rcases @storedRecord_congr t s (curlEntry r) h with ⟨hrecord, hreadable⟩
  exact ⟨hreadable.mpr hr.1, hrecord.trans hr.2⟩

/-- A torrent is stored as before when only keys of another id are written. -/
theorem TorrentStored.of_untouched {info : TorrentInfo} (hstored : TorrentStored s info) {id : Str}
    (hid : '_' ∉ id) (hinfo : '_' ∉ info.general.uniqueId) (hne : info.general.uniqueId ≠ id)
    (h : ∀ key, Untouched id key → t key = s key) : TorrentStored t info := by
  intro p hp
  rw [h _ (untouched_of_ne hinfo hid hne p.1)]
  exact hstored p hp

theorem putItems_of_untouched {id key : Str} (h : Untouched id key) (items : List (Str × Str)) :
    putItems s id items key = s key := by
  apply putItems_of_notMem
  rintro p - rfl
  apply h.2
  exact ⟨p.1, by simp [multipartKey]⟩

/-- No item of a torrent has the key of one that `modifyCurlItem` writes. -/
theorem torrentEntries_key {info : TorrentInfo} {p : Str × Str} (hp : p ∈ torrentEntries info) :
    p.1 ∉ modifiedKeys := by
  have hplain : ∀ key ∈ modifiedKeys, '_' ∉ key ∧ key ∉ torrentKeys := by decide
  have hnumbered : ∀ kind n, multipartKey [kind, toText n] ∉ modifiedKeys := by
    intro kind n hmem
    exact (hplain _ hmem).1 (by simp [multipartKey])
  rcases List.mem_append.mp hp with hp | hp
  · rcases List.mem_append.mp hp with hp | hp
    · intro hmem
      exact (hplain _ hmem).2 (torrentItems_keys info.general ▸ List.mem_map_of_mem hp)
    · rcases mem_numbered.mp hp with ⟨i, f, -, hp⟩
      rcases fileEntries_key hp with hkey | hkey
      · rw [hkey]
        exact hnumbered _ _
      · rw [hkey]
        exact hnumbered _ _
  · rcases mem_numbered.mp hp with ⟨i, tracker, -, hp⟩
    rw [trackerEntries_key hp]
    exact hnumbered _ _

/-- `modifyCurlItem` does not touch the items of a torrent, be it at its path or not. -/
theorem torrentStored_modified {info : TorrentInfo} (hstored : TorrentStored s info) {id : Str}
    (hid : '_' ∉ id) (hinfo : '_' ∉ info.general.uniqueId) (status : DownloadStatus)
    (compltTimestamp : Int) (hashGiven : Str) (hashType : HashType) (hashRtrnd : Str)
    (retSuccType : HashVerif) :
    TorrentStored (putItems s id
      (modifiedItems status compltTimestamp hashGiven hashType hashRtrnd retSuccType)) info := by
  by_cases hne : info.general.uniqueId = id
  · intro p hp
    rw [← hne, putItems_of_notMem]
    · exact hstored p hp
    · intro q hq heq
      have hkey := (modifiedItems_sublist _ _ _ _ _ _).subset (List.mem_map_of_mem hq)
      rw [multipartKey_right_inj.mp heq] at hkey
      exact torrentEntries_key hp hkey
  · exact hstored.of_untouched hid hinfo hne fun key hkey => putItems_of_untouched hkey _

end Frames

/-! ## Writing: one call -/

/-- The store does what the history does: the same answer, and the store has the history
behind the call. -/
def Follows (s : Db) (h : History) (c : StoreCall) : Prop :=
  (run c.prog s).1 = .ret (h.step c).1 ∧ Keeps (run c.prog s).2 (h.step c).2

section Steps

variable {s : Db} {h : History}

theorem follows_of {s' : Db} {c : StoreCall} {b : Bool} {h' : History}
    (hrun : run c.prog s = (.ret b, s')) (hstep : h.step c = (b, h')) (hkeeps : Keeps s' h') :
    Follows s h c := by
  rw [Follows, hrun, hstep]
  exact ⟨rfl, hkeeps⟩

/-- The id of an HTTP/FTP record is one of the ids. -/
theorem Keeps.curl_id (hkeeps : Keeps s h) {r : CurlDlInfo} (hr : r ∈ h.curl) :
    r.uniqueId ∈ h.entries.map Prod.fst ∧ IsCreateId r.uniqueId := by
  have hin : curlEntry r ∈ h.entries := List.mem_append_left _ (List.mem_map_of_mem hr)
  exact ⟨List.mem_map_of_mem hin, hkeeps.ids _ hin⟩

/-- So is that of a torrent. -/
theorem Keeps.torrent_id (hkeeps : Keeps s h) {t : TorrentInfo} (ht : t ∈ h.torrents) :
    t.general.uniqueId ∈ h.entries.map Prod.fst ∧ IsCreateId t.general.uniqueId := by
  have hin : torrentEntry t ∈ h.entries := List.mem_append_right _ (List.mem_map_of_mem ht)
  exact ⟨List.mem_map_of_mem hin, hkeeps.ids _ hin⟩

theorem follows_addCurlItem (hkeeps : Keeps s h) {drawn : Str} {now : Int} {info : CurlDlInfo}
    (hadmits : h.Admits (.addCurlItem drawn now info)) :
    Follows s h (.addCurlItem drawn now info) := by
  by_cases haccepted : CurlDlInfo.accepted info
  · rcases hadmits.2 haccepted with ⟨hid, hfresh, hpath, n, hwhole⟩
    rcases hkeeps.exists_index with ⟨es, hindex, hperm, hclean, hids⟩
    have hadd := run_addDownloadId hindex hclean drawn info.fileLoc false info.uniqueId
    rw [downloadKey_of_override (cleanCell_of_createId hid).ne_nil, visible_of_createId hids]
      at hadd
    have hrun := run_addCurlItem now haccepted hadd
    set s₁ := Function.update s leveldbStoreUniqueId (some (indexText (es ++ [curlEntry info])))
    set added := addedRecord (curlEntry info) (curlInfoToStore now info) with hadded
    have hstep : h.step (.addCurlItem drawn now info) =
        (true, ⟨h.curl ++ [added], h.torrents⟩) := if_pos haccepted
    have hother : ∀ key, Untouched info.uniqueId key →
        putItems s₁ info.uniqueId (curlItems (curlInfoToStore now info)) key = s key := by
      intro key hkey
      rw [putItems_of_untouched hkey]
      exact Function.update_of_ne hkey.1 _ _
    refine follows_of (by rw [StoreCall.prog, run_bind_ret hrun]; rfl) hstep ⟨?_, ?_, ?_⟩
    · -- the index has one line more
      refine hkeeps.toLists.new hperm ⟨cleanCell_of_createId hid, hpath⟩ hid hfresh
        ((indexed_update s _).putItems _ _) ?_
      rw [History.entries, History.entries, List.map_append, List.append_assoc]
      exact List.perm_middle
    · intro r hr
      rcases List.mem_append.mp hr with hold | hnew
      · rcases hkeeps.curl_id hold with ⟨hin, hrid⟩
        apply storedRecord_frame (hkeeps.curl r hold)
        intro key _
        apply hother
        apply untouched_of_ne (not_underscore_of_createId hrid) (not_underscore_of_createId hid)
        intro heq
        exact hfresh (heq ▸ hin)
      · obtain rfl := List.mem_singleton.mp hnew
        have hwhole' : (curlInfoToStore now info).extInfo.contentLength = n := hwhole
        exact ⟨curlReadable_putItems s₁ _ (curlEntry info) hwhole',
          storedRecord_putItems s₁ _ (curlEntry info) hwhole'⟩
    · intro t ht
      rcases hkeeps.torrents t ht with ⟨hstored, hshow⟩
      rcases hkeeps.torrent_id ht with ⟨hin, htid⟩
      refine ⟨hstored.of_untouched (not_underscore_of_createId hid)
        (not_underscore_of_createId htid) ?_ hother, hshow⟩
      intro heq
      exact hfresh (heq ▸ hin)
  · -- a record that is not accepted is not stored
    have hstep : h.step (.addCurlItem drawn now info) = (false, h) := if_neg haccepted
    refine follows_of ?_ hstep hkeeps
    rw [StoreCall.prog, addCurlItem, if_neg haccepted]
    rfl

theorem follows_addTorrentItem (hkeeps : Keeps s h) {drawn : Str} {now : Int} {info : TorrentInfo}
    (hadmits : h.Admits (.addTorrentItem drawn now info)) :
    Follows s h (.addTorrentItem drawn now info) := by
  rcases hadmits with ⟨hid, hfresh, hshow⟩
  rcases hkeeps.exists_index with ⟨es, hindex, hperm, hclean, hids⟩
  have hrun := run_addTorrentItem_afterAdd hindex hclean hshow.toWellFormed drawn now
  rw [decide_eq_true hshow.files] at hrun
  have hlisted : listedWith es info = es ++ [torrentEntry info] := by
    rw [listedWith, visible_of_createId hids]
  have hother : ∀ key, Untouched info.general.uniqueId key → afterAdd s es now info key = s key :=
    fun key hkey => afterAdd_of_untouched hkey now
  refine follows_of (by rw [StoreCall.prog, run_bind_ret hrun]; rfl) rfl ⟨?_, ?_, ?_⟩
  · refine hkeeps.toLists.new hperm ⟨cleanCell_of_createId hid, hshow.dest⟩ hid hfresh
      (hlisted ▸ indexed_afterAdd now) ?_
    rw [History.entries, History.entries, List.map_append, ← List.append_assoc]
    exact List.perm_append_singleton _ _
  · intro r hr
    rcases hkeeps.curl_id hr with ⟨hin, hrid⟩
    apply storedRecord_frame (hkeeps.curl r hr)
    intro key _
    apply hother
    apply untouched_of_ne (not_underscore_of_createId hrid) (not_underscore_of_createId hid)
    intro heq
    exact hfresh (heq ▸ hin)
  · intro t ht
    rcases List.mem_append.mp ht with hold | hnew
    · rcases hkeeps.torrents t hold with ⟨hstored, hshown⟩
      rcases hkeeps.torrent_id hold with ⟨hin, htid⟩
      refine ⟨hstored.of_untouched (not_underscore_of_createId hid)
        (not_underscore_of_createId htid) ?_ hother, hshown⟩
      intro heq
      exact hfresh (heq ▸ hin)
    · obtain rfl := List.mem_singleton.mp hnew
      exact ⟨torrentStored_afterAdd now,
        ⟨hshow.toWellFormed.toStore now, hshow.files, hshow.trackers, hshow.hashes⟩⟩

theorem follows_modifyCurlItem (hkeeps : Keeps s h) (fileLoc : Str) (status : DownloadStatus)
    (compltTimestamp : Int) (hashGiven : Str) (hashType : HashType) (hashRtrnd : Str)
    (retSuccType : HashVerif) :
    Follows s h (.modifyCurlItem fileLoc status compltTimestamp hashGiven hashType hashRtrnd
      retSuccType) := by
  have hfinds := hkeeps.finds fileLoc
  cases hfound : h.idAt fileLoc with
  | some id =>
    rw [hfound] at hfinds
    rcases hfinds with ⟨isTorrent, hdetermine⟩
    have hin := History.idAt_mem hfound
    have hid : '_' ∉ id := by
      rcases List.mem_map.mp hin with ⟨e, he, rfl⟩
      exact not_underscore_of_createId (hkeeps.ids e he)
    have hrun := run_modifyCurlItem hdetermine (hkeeps.id_ne_nil hin) status compltTimestamp
      hashGiven hashType hashRtrnd retSuccType
    set changed :=
      modifiedRecord id status compltTimestamp hashGiven hashType hashRtrnd retSuccType
    have hentry : ∀ r, curlEntry (changed r) = curlEntry r := by
      intro r
      simp only [changed, modifiedRecord]
      split
      · rfl
      · rfl
    have hstep : h.step (.modifyCurlItem fileLoc status compltTimestamp hashGiven hashType
        hashRtrnd retSuccType) = (true, ⟨h.curl.map changed, h.torrents⟩) := by
      simp only [History.step, hfound, changed]
    refine follows_of hrun hstep ⟨?_, ?_, ?_⟩
    · -- no line of the index changes
      have hentries : (⟨h.curl.map changed, h.torrents⟩ : History).entries = h.entries := by
        rw [History.entries, History.entries, List.map_map]
        congr 1
        exact List.map_congr_left fun r _ => hentry r
      rw [hentries]
      exact hkeeps.toLists.of_same_index
        (putItems_of_notMem (fun p _ => multipartKey_ne_index id p.1) s)
    · intro r' hr'
      rcases List.mem_map.mp hr' with ⟨r, hr, rfl⟩
      rcases hkeeps.curl r hr with ⟨hreadable, hrecord⟩
      rw [hentry]
      constructor
      · exact (curlReadable_modified hreadable.1 _ _ _ _ _ _).mpr hreadable
      · rw [storedRecord_after, hrecord]
    · intro t ht
      rcases hkeeps.torrents t ht with ⟨hstored, hshow⟩
      exact ⟨torrentStored_modified hstored hid
        (not_underscore_of_createId (hkeeps.torrent_id ht).2) _ _ _ _ _ _, hshow⟩
  | none =>
    rw [hfound] at hfinds
    have hstep : h.step (.modifyCurlItem fileLoc status compltTimestamp hashGiven hashType
        hashRtrnd retSuccType) = (false, h) := by
      simp only [History.step, hfound]
    refine follows_of ?_ hstep hkeeps
    rcases hfinds with ⟨isTorrent, hdetermine⟩ | ⟨what, hthrow⟩
    · exact run_modifyCurlItem_none hdetermine _ _ _ _ _ _
    · rw [StoreCall.prog, modifyCurlItem, run_tryCatch, run_bind_throw hthrow]
      rfl

theorem follows_delCurlItem (hkeeps : Keeps s h) (ord : IterOrder Entry)
    (fileDest uniqueIdBackup : Str) : Follows s h (.delCurlItem ord fileDest uniqueIdBackup) := by
  have hfinds := hkeeps.finds fileDest
  cases hdelete : h.idToDelete fileDest uniqueIdBackup with
  | some id =>
    -- the id is the given one, or the one at the path
    have hid : run (curlIdToDelete fileDest uniqueIdBackup) s = (.ret id, s) ∧ id ≠ [] := by
      unfold curlIdToDelete
      rw [History.idToDelete] at hdelete
      by_cases hbackup : uniqueIdBackup = []
      · rw [if_neg fun hne => hne hbackup] at hdelete
        split at hdelete
        · rename_i hdest
          rw [hdelete] at hfinds
          rcases hfinds with ⟨isTorrent, hdetermine⟩
          rw [if_pos ⟨hbackup, hdest⟩, run_bind_ret hdetermine]
          exact ⟨rfl, hkeeps.id_ne_nil (History.idAt_mem hdelete)⟩
        · cases hdelete
      · rw [if_pos hbackup] at hdelete
        cases hdelete
        rw [if_neg fun hc => hbackup hc.1]
        exact ⟨rfl, hbackup⟩
    rcases hkeeps.run_extractDownloadIds false with ⟨cache, hcache, hperm⟩
    rw [if_neg Bool.false_ne_true] at hperm
    have hrun := run_delCurlItem ord hid.1 hid.2 hcache
    have hstep : h.step (.delCurlItem ord fileDest uniqueIdBackup) =
        (true, ⟨h.curl.filter fun r => r.uniqueId ≠ id, []⟩) := by
      simp only [History.step, hdelete]
    refine follows_of hrun hstep ⟨?_, ?_, ?_⟩
    · -- of the lines only those of other HTTP/FTP downloads are left
      have hentries : (⟨h.curl.filter fun r => r.uniqueId ≠ id, []⟩ : History).entries =
          (h.curl.map curlEntry).filter fun e => e.1 ≠ id := by
        rw [History.entries, List.map_nil, List.append_nil, List.filter_map]
        rfl
      rw [hentries]
      refine hkeeps.toLists.of_sublist (indexed_update _ _)
        (((ord.perm cache).trans hperm).filter _) ?_
      exact List.filter_sublist.trans (List.sublist_append_left _ _)
    · intro r hr
      rcases List.mem_filter.mp hr with ⟨hold, hne⟩
      have hne : r.uniqueId ≠ id := of_decide_eq_true hne
      apply storedRecord_frame (hkeeps.curl r hold)
      intro key hkey
      rw [Function.update_of_ne (multipartKey_ne_index _ _)]
      apply dropItems_of_notMem
      intro dropped hdropped heq
      exact hne ((multipartKey_inj (curlKeys_plain dropped hdropped)
        (curlKeys_plain key hkey)).mp heq).1.symm
    · intro t ht
      exact absurd ht List.not_mem_nil
  | none =>
    have hstep : h.step (.delCurlItem ord fileDest uniqueIdBackup) = (false, h) := by
      simp only [History.step, hdelete]
    refine follows_of ?_ hstep hkeeps
    rw [History.idToDelete] at hdelete
    have hbackup : uniqueIdBackup = [] := by
      by_contra hne
      rw [if_pos hne] at hdelete
      cases hdelete
    rw [if_neg fun hne => hne hbackup] at hdelete
    rw [StoreCall.prog, delCurlItem, run_tryCatch, curlIdToDelete]
    by_cases hdest : fileDest = []
    · rw [if_neg fun hc => hc.2 hdest, hbackup]
      rfl
    · rw [if_pos hdest] at hdelete
      rw [hdelete] at hfinds
      rw [if_pos ⟨hbackup, hdest⟩]
      rcases hfinds with ⟨isTorrent, hdetermine⟩ | ⟨what, hthrow⟩
      · have hnone : run (determineDownloadId fileDest >>= fun identifier =>
            (pure identifier.1 : DbProg Str)) s = (.ret [], s) := by
          rw [run_bind_ret hdetermine]
          rfl
        rw [run_bind_ret hnone]
        rfl
      · have hnone : run (determineDownloadId fileDest >>= fun identifier =>
            (pure identifier.1 : DbProg Str)) s = (.throw what, s) := run_bind_throw hthrow _
        rw [run_bind_throw hnone]
        rfl

/-- **One call.** -/
theorem keeps_step (hkeeps : Keeps s h) {c : StoreCall} (hadmits : h.Admits c) : Follows s h c := by
  cases c with
  | addCurlItem drawn now info => exact follows_addCurlItem hkeeps hadmits
  | modifyCurlItem fileLoc status compltTimestamp hashGiven hashType hashRtrnd retSuccType =>
    exact follows_modifyCurlItem hkeeps fileLoc status compltTimestamp hashGiven hashType
      hashRtrnd retSuccType
  | delCurlItem ord fileDest uniqueIdBackup =>
    exact follows_delCurlItem hkeeps ord fileDest uniqueIdBackup
  | addTorrentItem drawn now info => exact follows_addTorrentItem hkeeps hadmits
  | modifyTorrentItem uniqueId status =>
    refine follows_of ?_ rfl hkeeps
    rw [StoreCall.prog, modifyTorrentItem]
    by_cases hid : uniqueId = []
    · rw [if_neg fun hne => hne hid, decide_eq_false fun hne => hne hid]
      rfl
    · rw [if_pos hid, decide_eq_true hid]
      rfl
  | delTorrentItem uniqueId => exact follows_of rfl rfl hkeeps

end Steps

/-! ## Runs -/

/-- The machine of the history: an answer for each call. -/
def historyStep (h : History) (c : StoreCall) : Outcome Str Bool × History :=
  (.ret (h.step c).1, (h.step c).2)

/-- The machine of the store. -/
def storeStep (s : Db) (c : StoreCall) : Outcome Str Bool × Db := run c.prog s

theorem refines_history : Refines historyStep storeStep History.Admits Keeps := by
  constructor
  · intro s h c hkeeps hadmits
    exact (keeps_step hkeeps hadmits).1
  · intro s h c hkeeps hadmits
    exact (keeps_step hkeeps hadmits).2

theorem keeps_empty : Keeps emptyDb History.empty := by
  have hnone : ∀ e ∈ History.empty.entries, False := fun e he => List.not_mem_nil he
  constructor
  · exact ⟨⟨[], rfl, List.Perm.refl _⟩, fun e he => (hnone e he).elim,
      fun e he => (hnone e he).elim, List.nodup_nil⟩
  · intro r hr
    exact absurd hr List.not_mem_nil
  · intro t ht
    exact absurd ht List.not_mem_nil

/-- **The store is a history.** Whatever calls are made, from the empty store on: each one
answers what the history answers, and what is read then, of either kind, is the history. -/
theorem history_refines {calls : List StoreCall}
    (hadmits : EachStep (behind historyStep) History.Admits History.empty calls) :
    answers storeStep emptyDb calls = answers historyStep History.empty calls ∧
      Reads (calls.foldl (behind storeStep) emptyDb)
        (calls.foldl (behind historyStep) History.empty) := by
  rcases refines_history.run keeps_empty hadmits with ⟨hanswers, hkeeps⟩
  exact ⟨hanswers, hkeeps.reads⟩

/-- A download and a torrent are added, the download is completed, and what is at the path of
the torrent is deleted. -/
def sampleCalls : List StoreCall :=
  [.addCurlItem [] 7 sampleInfo, .addTorrentItem [] 8 (sampleTorrent '2' [sampleTracker]),
   .modifyCurlItem "/dl/a.iso".toList .completed 9 [] .none [] .notApplicable,
   .delCurlItem (IterOrder.insertion Entry) "/dl/t".toList []]

theorem sampleCalls_admitted :
    EachStep (behind historyStep) History.Admits History.empty sampleCalls := by
  have hshow : Showable (sampleTorrent '2' [sampleTracker]) :=
    ⟨sampleTorrent_wellFormed rfl (by decide), by decide, by decide,
      sampleTorrent_hashes '2' [sampleTracker]⟩
  refine ⟨⟨by decide, ?_⟩, ⟨by decide, by decide, hshow⟩, trivial, trivial, trivial⟩
  intro _
  exact ⟨by decide, by decide, by decide, 10, rfl⟩

/-- The download is left, and the torrents are gone. -/
theorem history_refines_sample :
    answers storeStep emptyDb sampleCalls = [.ret true, .ret true, .ret true, .ret true] ∧
      Reads (sampleCalls.foldl (behind storeStep) emptyDb)
        (sampleCalls.foldl (behind historyStep) History.empty) ∧
      (sampleCalls.foldl (behind historyStep) History.empty).torrents = [] := by
  have hrefines := history_refines sampleCalls_admitted
  refine ⟨?_, hrefines.2, by decide +kernel⟩
  rw [hrefines.1]
  decide +kernel

end FyreDL.Store
