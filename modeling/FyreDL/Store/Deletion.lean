import FyreDL.Store.CurlSpec

/-!
# FyreDL.Store.Deletion — what is left of the index after `delCurlItem`

`del_download_id` rewrites the whole index from one of the two maps. For an HTTP/FTP
download it is the map of HTTP/FTP downloads, so that the lines of all torrents are
gone afterwards.

* `run_delCurlItem_registered` — the entries that are left: the HTTP/FTP ones, less
  the deleted id, in the order in which the map shows them.
* `delCurlItem_keeps_iff` — all other registrations survive exactly when no torrent
  is registered.
-/

namespace FyreDL.Store

open Lib Lib.Kv Csv

/-- Between the two stores both maps are the same, less the id. -/
def KeepsOthers (s s' : Db) (id : Str) : Prop :=
  ∃ http torrents http' torrents',
    run (extractDownloadIds false) s = (.ret http, s) ∧
    run (extractDownloadIds true) s = (.ret torrents, s) ∧
    run (extractDownloadIds false) s' = (.ret http', s') ∧
    run (extractDownloadIds true) s' = (.ret torrents', s') ∧
    http'.Perm (http.filter fun e => e.1 ≠ id) ∧ torrents'.Perm torrents

/-- The entries that `delCurlItem` leaves. -/
def remaining (ord : IterOrder Entry) (es : List Entry) (id : Str) : List Entry :=
  (ord.order (es.filter fun e => e.2.2 = false)).filter fun e => e.1 ≠ id

section Remaining

variable (ord : IterOrder Entry) (es : List Entry) (id : Str)

theorem remaining_perm :
    (remaining ord es id).Perm
      ((es.filter fun e => e.2.2 = false).filter fun e => e.1 ≠ id) :=
  (ord.perm _).filter _

theorem mem_remaining {e : Entry} (h : e ∈ remaining ord es id) : e ∈ es ∧ e.2.2 = false := by
  have hin := (List.mem_filter.mp h).1
  rw [ord.mem_order] at hin
  exact ⟨(List.mem_filter.mp hin).1, of_decide_eq_true (List.mem_filter.mp hin).2⟩

theorem remaining_nodup (h : (es.map Prod.fst).Nodup) :
    ((remaining ord es id).map Prod.fst).Nodup := by
  rw [((remaining_perm ord es id).map Prod.fst).nodup_iff]
  exact h.sublist ((List.filter_sublist.trans List.filter_sublist).map _)

/-- Only HTTP/FTP entries are left. -/
theorem remaining_filter (torrentsOnly : Bool) :
    ((remaining ord es id).filter fun e => e.2.2 = torrentsOnly) =
      if torrentsOnly then [] else remaining ord es id := by
  cases torrentsOnly with
  | false =>
    rw [if_neg Bool.false_ne_true, List.filter_eq_self]
    intro e he
    exact decide_eq_true (mem_remaining ord es id he).2
  | true =>
    rw [if_pos rfl, List.filter_eq_nil_iff]
    intro e he
    rw [(mem_remaining ord es id he).2]
    decide

end Remaining

section Deleting

variable {s : Db} {es : List Entry}

/-- Both maps of an index of clean entries with distinct ids of `createId`. -/
theorem run_extractDownloadIds_clean (h : Indexed s es) (hclean : ∀ e ∈ es, CleanEntry e)
    (hids : ∀ e ∈ es, IsCreateId e.1) (hnodup : (es.map Prod.fst).Nodup) (torrentsOnly : Bool) :
    run (extractDownloadIds torrentsOnly) s =
      (.ret (es.filter fun e => e.2.2 = torrentsOnly), s) := by
  rw [run_extractDownloadIds h hclean, visible_of_createId hids,
    extracted_of_nodup torrentsOnly hnodup]

/-- The store after the deletion of an id, and its two maps. -/
theorem run_delCurlItem_registered (h : Indexed s es) (hclean : ∀ e ∈ es, CleanEntry e)
    (hids : ∀ e ∈ es, IsCreateId e.1) (hnodup : (es.map Prod.fst).Nodup)
    {fileDest uniqueIdBackup id : Str} (ord : IterOrder Entry)
    (hid : run (curlIdToDelete fileDest uniqueIdBackup) s = (.ret id, s)) (hne : id ≠ []) :
    ∃ s', run (delCurlItem ord fileDest uniqueIdBackup) s = (.ret true, s') ∧
      run (extractDownloadIds false) s' = (.ret (remaining ord es id), s') ∧
      run (extractDownloadIds true) s' = (.ret [], s') := by
  have hhttp := run_extractDownloadIds_clean h hclean hids hnodup false
  refine ⟨_, run_delCurlItem ord hid hne hhttp, ?_⟩
  set s' := Function.update (dropItems s id curlKeys) leveldbStoreUniqueId
    (some (indexText (remaining ord es id)))
  have hindex : Indexed s' (remaining ord es id) := indexed_update _ _
  -- the id list is written from the HTTP map only, so its torrents are gone
  have hextract := run_extractDownloadIds_clean hindex
    (fun e he => hclean e (mem_remaining ord es id he).1)
    (fun e he => hids e (mem_remaining ord es id he).1) (remaining_nodup ord es id hnodup)
  constructor
  · have hfalse := hextract false
    rwa [remaining_filter, if_neg Bool.false_ne_true] at hfalse
  · have htrue := hextract true
    rwa [remaining_filter, if_pos rfl] at htrue

end Deleting

/-- The index of a store that a sequence of registrations wrote. -/
theorem indexed_of_registerAll {calls : List Registration} (h : Fresh calls)
    (hplain : ∀ r ∈ calls, Plain r.path) {s : Db}
    (hs : s leveldbStoreUniqueId = (run (registerAll calls) emptyDb).2 leveldbStoreUniqueId) :
    Indexed s (calls.map Registration.entry) := by
  have hempty : Indexed emptyDb [] := rfl
  have hrun := run_registerAll calls hempty (h.cleanEntry hplain) h.createId
  rw [hrun] at hs
  unfold Indexed
  rw [hs]
  exact registered_indexed hempty

/-- **Deletion.** On an index written by any sequence of registrations, the deletion
of one download succeeds, and leaves all others registered exactly when there is no
torrent among them. -/
theorem delCurlItem_keeps_iff {calls : List Registration} (h : Fresh calls)
    (hplain : ∀ r ∈ calls, Plain r.path) {s : Db}
    (hs : s leveldbStoreUniqueId = (run (registerAll calls) emptyDb).2 leveldbStoreUniqueId)
    {u : Registration} (hu : u ∈ calls) {fileDest uniqueIdBackup : Str}
    (hid : run (curlIdToDelete fileDest uniqueIdBackup) s = (.ret u.id, s))
    (ord : IterOrder Entry) :
    ∃ s', run (delCurlItem ord fileDest uniqueIdBackup) s = (.ret true, s') ∧
      (KeepsOthers s s' u.id ↔ ∀ r ∈ calls, r.isTorrent = false) := by
  have hindex := indexed_of_registerAll h hplain hs
  have hclean := h.cleanEntry hplain
  have hextract := run_extractDownloadIds_clean hindex hclean h.createId h.nodup
  obtain ⟨s', hdel, hhttp', htorrents'⟩ :=
    run_delCurlItem_registered hindex hclean h.createId h.nodup ord hid
      (cleanCell_of_createId (h.ids u hu)).ne_nil
  refine ⟨s', hdel, ?_⟩
  constructor
  · rintro ⟨http, torrents, http'', torrents'', -, htorrents, -, htorrents'', -, hperm⟩ r hr
    rw [hextract true] at htorrents
    rw [htorrents'] at htorrents''
    cases htorrents
    cases htorrents''
    -- no torrent is left, so there was none
    have hnil := hperm.symm.eq_nil
    rw [List.filter_eq_nil_iff] at hnil
    have hflag := hnil r.entry (List.mem_map_of_mem hr)
    exact Bool.eq_false_iff.mpr fun ht => hflag (decide_eq_true ht)
  · intro hnone
    refine ⟨_, _, _, _, hextract false, hextract true, hhttp', htorrents',
      remaining_perm ord _ _, ?_⟩
    refine List.Perm.of_eq (Eq.symm (List.filter_eq_nil_iff.mpr fun e he => ?_))
    obtain ⟨r, hr, rfl⟩ := List.mem_map.mp he
    simp [Registration.entry, hnone r hr]

/-- Two HTTP downloads, of which the first is deleted by its id. -/
theorem delCurlItem_keeps_pair :
    ∃ s', run (delCurlItem (IterOrder.insertion Entry) [] (sampleId '1'))
        (run (registerAll [⟨sampleId '1', "/dl/a".toList, false, []⟩,
          ⟨sampleId '2', "/dl/b".toList, false, []⟩]) emptyDb).2 = (.ret true, s') ∧
      (KeepsOthers (run (registerAll [⟨sampleId '1', "/dl/a".toList, false, []⟩,
          ⟨sampleId '2', "/dl/b".toList, false, []⟩]) emptyDb).2 s' (sampleId '1') ↔
        ∀ r ∈ [(⟨sampleId '1', "/dl/a".toList, false, []⟩ : Registration),
          ⟨sampleId '2', "/dl/b".toList, false, []⟩], r.isTorrent = false) :=
  delCurlItem_keeps_iff (by decide +kernel) (by decide +kernel) rfl List.mem_cons_self rfl
    (IterOrder.insertion Entry)

/-- An HTTP download and a torrent: with the first the second is gone. -/
theorem delCurlItem_loses_torrent :
    ∃ s s', s = (run (registerAll [⟨sampleId '1', "/dl/a".toList, false, []⟩,
        ⟨sampleId '2', "/dl/b".toList, true, []⟩]) emptyDb).2 ∧
      run (delCurlItem (IterOrder.insertion Entry) [] (sampleId '1')) s = (.ret true, s') ∧
      (run (extractDownloadIds true) s).1 = .ret [(sampleId '2', "/dl/b".toList, true)] ∧
      (run (extractDownloadIds true) s').1 = .ret [] ∧
      ¬ KeepsOthers s s' (sampleId '1') := by
  have hdel : (run (delCurlItem (IterOrder.insertion Entry) [] (sampleId '1'))
      (run (registerAll [⟨sampleId '1', "/dl/a".toList, false, []⟩,
        ⟨sampleId '2', "/dl/b".toList, true, []⟩]) emptyDb).2).1 = .ret true := by
    decide +kernel
  refine ⟨_, _, rfl, Prod.ext hdel rfl, by decide +kernel, by decide +kernel, ?_⟩
  rintro ⟨http, torrents, http', torrents', -, hbefore, -, hafter, -, hperm⟩
  have hsome := congrArg Prod.fst hbefore
  have hnone := congrArg Prod.fst hafter
  cases hsome
  cases hnone
  -- one torrent before, none afterwards
  exact absurd hperm.length_eq (by decide)

end FyreDL.Store
