import FyreDL.Store.CurlFaults
import FyreDL.Store.NewRow
import FyreDL.Store.Readers

/-!
# FyreDL.Store.AnyIndex — reading and deleting over any index

Whatever text stands under the key of the index, the entries that a reader gets of it are
clean (`textEntries_clean`). What the readers and `delCurlItem` do depends on these entries
only.

* `run_extractDownloadIds_any`, `run_determineDownloadId_any` — the readers, where the rows
  can be read at all.
* `delCurlItem_leaves` — the entries after a `delCurlItem` that returns.
-/

namespace FyreDL.Store

open Lib Lib.Kv Csv

/-- The entries that a reader gets of the index; `none` if it fails. -/
def indexEntries (s : Db) : Option (List Entry) :=
  textEntries ((s leveldbStoreUniqueId).getD [])

/-- The id is listed by `extract_download_ids(false)`. -/
def Listed (s : Db) (id : Str) : Prop :=
  ∃ cache s', run (extractDownloadIds false) s = (.ret cache, s') ∧ id ∈ cache.map Prod.fst

/-- The download is gone: it is not listed, and no record of it is read. -/
structure Gone (s : Db) (id : Str) : Prop where
  unlisted : ¬ Listed s id
  unread : ∀ ord records s', run (readCurlItems ord) s = (.ret records, s') →
    ∀ info ∈ records, info.uniqueId ≠ id

/-- What is not listed is not read. -/
theorem gone_iff {s : Db} {id : Str} : Gone s id ↔ ¬ Listed s id := by
  constructor
  · exact Gone.unlisted
  · intro h
    refine ⟨h, ?_⟩
    intro ord records s' hread info hinfo hid
    obtain ⟨cache, e, hextract, -, he, -, hinfo⟩ := readCurlItems_mem hread hinfo
    refine h ⟨cache, s, hextract, ?_⟩
    rw [← hid, hinfo]
    exact List.mem_map_of_mem he

/-- What `del_download_id` writes: the HTTP/FTP entries, each id once, less the deleted. -/
def survivors (ord : IterOrder Entry) (es : List Entry) (id : Str) : List Entry :=
  (ord.order (extracted false es)).filter fun e => e.1 ≠ id

/-- The entries that a reader gets after a `delCurlItem` of the path. -/
def afterDeletion (ord : IterOrder Entry) (fileDest : Str) (es : List Entry) : List Entry :=
  if (determined es fileDest).1 = [] then es
  else visible (survivors ord es (determined es fileDest).1)

section Reading

variable {s : Db} {es : List Entry}

/-- The entries of any text are clean: of a row the id and the path are taken fields. -/
theorem textEntries_clean {text : Str} (h : textEntries text = some es) :
    ∀ e ∈ es, CleanEntry e := by
  obtain ⟨rows, hrows, hes⟩ := Option.map_eq_some_iff.mp h
  unfold textRows at hrows
  split at hrows
  · split at hrows
    · obtain ⟨values, hvalues, hmap⟩ := Option.map_eq_some_iff.mp hrows
      unfold delivered at hvalues
      split at hvalues
      · cases hvalues
        subst hmap hes
        intro e he
        exact absurd he List.not_mem_nil
      · subst hmap hes
        intro e he
        rw [List.map_map] at he
        obtain ⟨vs, hvs, hentry⟩ := List.mem_map.mp he
        have hlines : ∀ line ∈ getlines '\n' (dropCr text), '\n' ∉ line :=
          fun _ hline => not_mem_of_mem_getlines hline
        rw [← hentry]
        exact ⟨cleanCell_of_deliver hlines hvalues hvs (by decide),
          cleanCell_of_deliver hlines hvalues hvs (by decide)⟩
    · cases hrows
  · cases hrows
    subst hes
    intro e he
    exact absurd he List.not_mem_nil

theorem indexEntries_clean (h : indexEntries s = some es) : ∀ e ∈ es, CleanEntry e :=
  textEntries_clean h

/-- The text of clean entries is read as those of them that are seen. -/
theorem indexEntries_of_indexed (h : Indexed s es) (hclean : ∀ e ∈ es, CleanEntry e) :
    indexEntries s = some (visible es) := by
  rw [indexEntries, h, textEntries, textRows_indexText hclean, Option.map_some, List.map_map]
  simp [Function.comp_def]

/-- The rows behind the entries. -/
theorem exists_textRows (h : indexEntries s = some es) :
    ∃ rows, textRows ((s leveldbStoreUniqueId).getD []) = some rows ∧ rows.map rowEntry = es :=
  Option.map_eq_some_iff.mp h

theorem run_extractDownloadIds_any (h : indexEntries s = some es) (torrentsOnly : Bool) :
    run (extractDownloadIds torrentsOnly) s = (.ret (extracted torrentsOnly es), s) := by
  obtain ⟨rows, hrows, rfl⟩ := exists_textRows h
  exact (run_extractDownloadIds_rows torrentsOnly).1 rows hrows

/-- An index that cannot be read gives no map. -/
theorem extractDownloadIds_fails (h : indexEntries s = none) (torrentsOnly : Bool)
    {cache : List Entry} {s' : Db} :
    run (extractDownloadIds torrentsOnly) s ≠ (.ret cache, s') :=
  (run_extractDownloadIds_rows torrentsOnly).2 (Option.map_eq_none_iff.mp h) cache s'

theorem listed_iff (h : indexEntries s = some es) (id : Str) :
    Listed s id ↔ id ∈ (extracted false es).map Prod.fst := by
  constructor
  · intro hlisted
    obtain ⟨cache, s', hrun, hmem⟩ := hlisted
    rw [run_extractDownloadIds_any h] at hrun
    cases hrun
    exact hmem
  · intro hmem
    exact ⟨_, s, run_extractDownloadIds_any h false, hmem⟩

theorem not_listed_of_none (h : indexEntries s = none) (id : Str) : ¬ Listed s id := by
  intro hlisted
  obtain ⟨cache, s', hrun, -⟩ := hlisted
  exact extractDownloadIds_fails h false hrun

/-- Without an index there is no id. -/
theorem run_determineDownloadId_missing (hv : s leveldbStoreUniqueId = none) (path : Str) :
    run (determineDownloadId path) s = (.throw notFoundText, s) := by
  have hget : run (getOrThrow leveldbStoreUniqueId) s = (.throw notFoundText, s) := by
    rw [getOrThrow, run_get, hv]
    rfl
  rw [determineDownloadId, run_locked]
  exact run_bind_throw hget _

/-- What `determine_download_id` answers on any index. -/
theorem run_determineDownloadId_any (h : indexEntries s = some es) (path : Str) :
    run (determineDownloadId path) s = (.ret (determined es path), s) ∨
      es = [] ∧ ∃ what, run (determineDownloadId path) s = (.throw what, s) := by
  cases hv : s leveldbStoreUniqueId with
  | none =>
    have hempty : es = [] := by
      rw [indexEntries, hv] at h
      exact (Option.some.inj h).symm
    exact .inr ⟨hempty, _, run_determineDownloadId_missing hv path⟩
  | some text =>
    obtain ⟨rows, hrows, rfl⟩ := exists_textRows h
    rw [hv, Option.getD_some] at hrows
    exact .inl (run_determineDownloadId_rows hv hrows path)

theorem indexEntries_congr {s' : Db} (h : s leveldbStoreUniqueId = s' leveldbStoreUniqueId) :
    indexEntries s = indexEntries s' := by
  rw [indexEntries, indexEntries, h]

end Reading

/-! ## Deleting -/

section Deleting

variable {s s' : Db} {es : List Entry} {ord : IterOrder Entry} {fileDest : Str}

/-- No clean entry has an empty path. -/
theorem determined_empty (h : ∀ e ∈ es, CleanEntry e) : (determined es []).1 = [] := by
  rcases determined_eq es [] with ⟨e, he, hpath, -⟩ | ⟨-, hnone⟩
  · exact absurd hpath (h e (lastBinding_mem he.1)).path.ne_nil
  · rw [hnone]

theorem run_curlIdToDelete_any (h : indexEntries s = some es) (fileDest : Str) :
    run (curlIdToDelete fileDest []) s = (.ret (determined es fileDest).1, s) ∨
      es = [] ∧ ∃ what, run (curlIdToDelete fileDest []) s = (.throw what, s) := by
  unfold curlIdToDelete
  by_cases hpath : fileDest = []
  · rw [if_neg fun hc => hc.2 hpath, hpath, determined_empty (indexEntries_clean h)]
    exact .inl rfl
  · rw [if_pos ⟨rfl, hpath⟩]
    rcases run_determineDownloadId_any h fileDest with hret | ⟨hnil, what, hthrow⟩
    · rw [run_bind_ret hret]
      exact .inl rfl
    · exact .inr ⟨hnil, what, run_bind_throw hthrow _⟩

theorem extracted_nodup (torrentsOnly : Bool) (es : List Entry) :
    ((extracted torrentsOnly es).map Prod.fst).Nodup := by
  unfold extracted
  refine List.foldlRecOn _ _ (motive := fun cache : List Entry => (cache.map Prod.fst).Nodup)
    List.nodup_nil fun cache hcache e _ => insertNew_nodup hcache _ _

theorem mem_survivors {e : Entry} {id : Str} (h : e ∈ survivors ord es id) :
    e ∈ es ∧ e.2.2 = false := by
  have hin := (List.mem_filter.mp h).1
  rw [ord.mem_order, mem_extracted_iff] at hin
  have hfirst := firstBinding_mem hin.2
  exact ⟨(List.mem_filter.mp hfirst).1, hin.1⟩

/-- The HTTP/FTP entries that are written are read again, all or none. -/
theorem extracted_survivors (ord : IterOrder Entry) (es : List Entry) (id : Str) :
    extracted false (survivors ord es id) = survivors ord es id := by
  have hnodup : ((survivors ord es id).map Prod.fst).Nodup := by
    have hperm : ((ord.order (extracted false es)).map Prod.fst).Nodup :=
      ((ord.perm _).map Prod.fst).nodup_iff.mpr (extracted_nodup false es)
    exact hperm.sublist (List.filter_sublist.map _)
  rw [extracted_of_nodup false hnodup, List.filter_eq_self]
  intro e he
  exact decide_eq_true (mem_survivors he).2

/-- A deletion takes an id out of the list if it is the one that is found, or if the text that
is left is too short to be read. -/
def TakenOut (ord : IterOrder Entry) (fileDest : Str) (es : List Entry) (id : Str) : Prop :=
  (determined es fileDest).1 ≠ [] ∧ ((determined es fileDest).1 = id ∨
    parsable (indexText (survivors ord es (determined es fileDest).1)) = false)

instance (ord : IterOrder Entry) (fileDest : Str) (es : List Entry) (id : Str) :
    Decidable (TakenOut ord fileDest es id) := inferInstanceAs (Decidable (_ ∧ _))

theorem mem_survivors_ids {id found : Str} :
    id ∈ (survivors ord es found).map Prod.fst ↔
      id ∈ (extracted false es).map Prod.fst ∧ id ≠ found := by
  unfold survivors
  simp only [List.mem_map, List.mem_filter, IterOrder.mem_order]
  constructor
  · intro h
    obtain ⟨e, ⟨he, hne⟩, hid⟩ := h
    exact ⟨⟨e, he, hid⟩, hid ▸ of_decide_eq_true hne⟩
  · intro h
    obtain ⟨⟨e, he, hid⟩, hne⟩ := h
    exact ⟨e, ⟨he, decide_eq_true (hid ▸ hne)⟩, hid⟩

/-- The ids that are listed after a deletion. -/
theorem mem_afterDeletion_iff {id : Str} :
    id ∈ (extracted false (afterDeletion ord fileDest es)).map Prod.fst ↔
      id ∈ (extracted false es).map Prod.fst ∧ ¬ TakenOut ord fileDest es id := by
  unfold afterDeletion TakenOut
  by_cases hfound : (determined es fileDest).1 = []
  · rw [if_pos hfound]
    simp [hfound]
  · rw [if_neg hfound]
    cases hp : parsable (indexText (survivors ord es (determined es fileDest).1)) with
    | true =>
      rw [visible_of_parsable hp, extracted_survivors, mem_survivors_ids]
      simp [hfound, eq_comm]
    | false =>
      rw [visible, if_neg (by simp [hp])]
      simp [hfound, extracted]

/-- An index that cannot be read stays as it is. -/
theorem delCurlItem_unreadable (h : indexEntries s = none) {b : Bool}
    (hrun : run (delCurlItem ord fileDest []) s = (.ret b, s')) :
    s leveldbStoreUniqueId = s' leveldbStoreUniqueId := by
  rcases hid : run (curlIdToDelete fileDest []) s with ⟨found, s₁⟩
  have hs₁ : s₁ = s := by
    have hreads := run_readsOnly (readsOnly_curlIdToDelete fileDest []) s
    rwa [hid] at hreads
  subst hs₁
  rw [delCurlItem, run_tryCatch, run_bind, hid] at hrun
  cases found with
  | ret id =>
    dsimp only [Outcome.andThen] at hrun
    by_cases hempty : id = []
    · rw [if_pos hempty] at hrun
      cases hrun
      rfl
    · rw [if_neg hempty, run_bind_ret (run_delItems _ _ _), delDownloadId, run_bind] at hrun
      have hindex : dropItems s₁ id curlKeys leveldbStoreUniqueId = s₁ leveldbStoreUniqueId :=
        dropItems_of_notMem (fun key _ => multipartKey_ne_index id key) s₁
      -- the items are deleted before the index turns out to be unreadable
      rcases hextract : run (extractDownloadIds false) (dropItems s₁ id curlKeys) with ⟨cache, s₂⟩
      have hs₂ : s₂ = dropItems s₁ id curlKeys := by
        have hreads := run_readsOnly (readsOnly_extractDownloadIds false) (dropItems s₁ id curlKeys)
        rwa [hextract] at hreads
      subst hs₂
      rw [hextract] at hrun
      cases cache with
      | ret cache =>
        exact absurd hextract (extractDownloadIds_fails ((indexEntries_congr hindex).trans h) false)
      | throw what =>
        cases hrun
        exact hindex.symm
      | hung => cases hrun
      | stopped => cases hrun
  | throw what =>
    cases hrun
    rfl
  | hung => cases hrun
  | stopped => cases hrun

/-- Over an index that can be read, a `delCurlItem` returns. -/
theorem run_delCurlItem_any (ord : IterOrder Entry) (hes : indexEntries s = some es)
    (fileDest : Str) :
    ∃ b s', run (delCurlItem ord fileDest []) s = (.ret b, s') ∧
      indexEntries s' = some (afterDeletion ord fileDest es) := by
  rw [afterDeletion]
  by_cases hid : (determined es fileDest).1 = []
  · -- without an id the deletion is given up
    refine ⟨false, s, ?_, by rw [if_pos hid, hes]⟩
    rw [delCurlItem, run_tryCatch]
    rcases run_curlIdToDelete_any hes fileDest with hret | ⟨-, what, hthrow⟩
    · rw [run_bind_ret hret, if_pos hid]
      rfl
    · rw [run_bind_throw hthrow]
      rfl
  · have hret := (run_curlIdToDelete_any hes fileDest).resolve_right fun hnone =>
      hid (by rw [hnone.1]; rfl)
    refine ⟨_, _, run_delCurlItem ord hret hid (run_extractDownloadIds_any hes false), ?_⟩
    rw [if_neg hid]
    refine indexEntries_of_indexed (indexed_update _ _) ?_
    intro e he
    exact indexEntries_clean hes e (mem_survivors he).1

/-- **Deletion over any index.** What a `delCurlItem` that returns leaves of the entries. -/
theorem delCurlItem_leaves {b : Bool} (hrun : run (delCurlItem ord fileDest []) s = (.ret b, s')) :
    indexEntries s' = (indexEntries s).map (afterDeletion ord fileDest) := by
  cases hes : indexEntries s with
  | none =>
    rw [← indexEntries_congr (delCurlItem_unreadable hes hrun), hes]
    rfl
  | some es =>
    rcases run_delCurlItem_any ord hes fileDest with ⟨deleted, s₁, hdel, hleft⟩
    rw [hdel] at hrun
    cases hrun
    exact hleft

end Deleting

end FyreDL.Store
