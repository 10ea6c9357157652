import FyreDL.Store.CurlRecord

/-!
# FyreDL.Store.CurlFaults — a failing or missing write

`addCurlItem` and `delCurlItem` are twelve separate writes. When one of them fails, or
the program stops in front of it, the writes before it stay.

1. **The store that is left**: `delCurlItem_fault`, `addCurlItem_fault_first` and
   `addCurlItem_fault_later`. The first write of `addCurlItem` is the one of the index,
   the first eleven of `delCurlItem` are those of the values.
2. **The index against the values**: `AllComplete` says that every listed HTTP/FTP id
   has its eleven values. Without it `readCurlItems` shows nothing.
3. `fault_allComplete_iff` — when a fault in the middle leaves the store complete.
-/

namespace FyreDL.Store

open Lib Lib.Kv Csv

/-! ## The store that is left -/

theorem exec_tryCatch_warn {α : Type} (F : Faults Str) (p : DbProg α) (a : α)
    (m : Machine Str Str Str) :
    (exec F (p.tryCatch fun e => .warn e (.ret a)) m).2.store = (exec F p m).2.store := by
  rw [exec_tryCatch]
  rcases exec F p m with ⟨o, m'⟩
  cases o <;> rfl

/-- To find the id that is to be deleted, only the index is read. -/
theorem readsOnly_curlIdToDelete (fileDest uniqueIdBackup : Str) :
    ReadsOnly IsIndexKey (curlIdToDelete fileDest uniqueIdBackup) := by
  unfold curlIdToDelete
  split
  · exact (readsOnly_determineDownloadId fileDest).bind fun _ => .ret _
  · exact .ret _

section Faults

variable {s : Db} {k : Nat} {fate : Fate Str}

/-- A `del_download_id` whose write is the faulty one changes nothing. -/
theorem delDownloadId_fault (hfate : fate ≠ .done) (ord : IterOrder Entry) (id : Str)
    (isTorrent : Bool) {m : Machine Str Str Str} (hk : m.writes = k) :
    (exec (Faults.atWrite k fate) (delDownloadId ord id isTorrent) m).2.store = m.store := by
  rcases exec_readsOnly (readsOnly_extractDownloadIds isTorrent) (F := Faults.atWrite k fate)
    (fun _ => rfl) m with ⟨gets, hexec⟩
  rw [delDownloadId, exec_bind, hexec]
  -- the write is reached only if the map could be read
  cases (run (extractDownloadIds isTorrent) m.store).1 with
  | ret cache =>
    show (exec _ (Prog.locked _) _).2.store = m.store
    rw [exec_locked]
    simp only [exec, Faults.atWrite, hk, if_true]
    cases fate with
    | done => exact absurd rfl hfate
    | fails e => rfl
    | stops => rfl
  | throw e => rfl
  | hung => rfl
  | stopped => rfl

/-- `delCurlItem` leaves the index and the values it has not deleted yet. -/
theorem delCurlItem_fault (hfate : fate ≠ .done) (hk : k < 12) {fileDest uniqueIdBackup id : Str}
    (ord : IterOrder Entry)
    (hid : run (curlIdToDelete fileDest uniqueIdBackup) s = (.ret id, s)) (hne : id ≠ []) :
    (exec (Faults.atWrite k fate) (delCurlItem ord fileDest uniqueIdBackup)
      (Machine.start s)).2.store = dropItems s id (curlKeys.take k) := by
  rcases exec_readsOnly (readsOnly_curlIdToDelete fileDest uniqueIdBackup)
    (F := Faults.atWrite k fate) (fun _ => rfl) (Machine.start s) with ⟨gets, hexec⟩
  change _ = ((run _ s).1, _) at hexec
  rw [hid] at hexec
  rw [delCurlItem, exec_tryCatch_warn, exec_bind_ret hexec, if_neg hne, delItems_eq]
  set m : Machine Str Str Str := { Machine.start s with gets := gets }
  have hlen : (curlKeys.map fun key => deleteBatch id key).length = 11 := rfl
  by_cases hlast : k < 11
  · -- the fault is among the values
    have hint := interrupted_writeAll hfate (curlKeys.map fun key => deleteBatch id key)
      (m := m) (Nat.zero_le k) (by rw [hlen]; show k < 0 + 11; omega)
    have hstore := (hint.bind fun _ => delDownloadId ord id false).2
    rw [hstore, dropItems_eq, ← List.map_take]
    rfl
  · -- the fault is at the index
    obtain rfl : k = 11 := by omega
    rw [exec_bind_ret (exec_writeAll _ (Or.inr (Nat.le_refl 11))), dropItems_eq]
    exact delDownloadId_fault hfate ord id false rfl

/-- The writing half of `add_download_id`, with the fault elsewhere. -/
theorem exec_addDownloadId (fate : Fate Str) {drawn path overrideUniqueId key : Str}
    {isTorrent : Bool} {s₁ : Db}
    (h : run (addDownloadId drawn path isTorrent overrideUniqueId) s = (.ret key, s₁))
    (hk : k ≠ 0) :
    ∃ gets, exec (Faults.atWrite k fate) (addDownloadId drawn path isTorrent overrideUniqueId)
      (Machine.start s) = (.ret key, ⟨s₁, gets, 1, []⟩) := by
  have hkey := addDownloadId_key h
  unfold addDownloadId at h
  rw [run_locked] at h
  rcases run_bind_eq_ret h with ⟨csvOut, s₀, hcopy, hrest⟩
  have hs₀ := run_readsOnly readsOnly_copiedIndex s
  rw [hcopy] at hs₀
  obtain rfl : s₀ = s := hs₀
  rw [run_bind_ret (run_writeOrThrow _ _)] at hrest
  rcases exec_readsOnly readsOnly_copiedIndex (F := Faults.atWrite k fate) (fun _ => rfl)
    (Machine.start s₀) with ⟨gets, hexec⟩
  change _ = ((run _ s₀).1, _) at hexec
  rw [hcopy] at hexec
  refine ⟨gets, ?_⟩
  -- the only write here is the first one, and the fault is behind it
  have hwrites : (0 : Nat) ≠ k := hk.symm
  rw [addDownloadId, exec_locked, exec_bind_ret hexec, exec_bind_ret (exec_writeOrThrow _ hwrites)]
  cases hrest
  rfl

/-- An `addCurlItem` whose first write is the faulty one changes nothing. -/
theorem addCurlItem_fault_first (hfate : fate ≠ .done) (drawn : Str) (now : Int)
    (info : CurlDlInfo) :
    (exec (Faults.atWrite 0 fate) (addCurlItem drawn now info) (Machine.start s)).2.store = s := by
  unfold addCurlItem
  split
  · rw [exec_tryCatch_warn]
    -- the first write is that of the index
    have hadd : ∀ path uid : Str, Interrupted (exec (Faults.atWrite 0 fate)
        (addDownloadId drawn path false uid) (Machine.start s)) s := by
      intro path uid
      rw [addDownloadId, exec_locked]
      apply interrupted_readsOnly_bind readsOnly_copiedIndex fun _ => rfl
      intro csvOut gets
      apply Interrupted.bind
      exact interrupted_writeOrThrow hfate _ rfl
    apply Interrupted.store
    apply Interrupted.bind
    exact hadd _ _
  · rfl

/-- A fault behind the write of the index leaves the new line and the values so far. -/
theorem addCurlItem_fault_later (hfate : fate ≠ .done) (hpos : k ≠ 0) (hk : k < 12) {drawn : Str}
    {s₁ : Db} {info : CurlDlInfo} (now : Int) (haccepted : CurlDlInfo.accepted info)
    (hadd : run (addDownloadId drawn info.fileLoc false info.uniqueId) s =
      (.ret (downloadKey drawn info.uniqueId), s₁)) :
    (exec (Faults.atWrite k fate) (addCurlItem drawn now info) (Machine.start s)).2.store =
      putItems s₁ (downloadKey drawn info.uniqueId)
        ((curlItems (curlInfoToStore now info)).take (k - 1)) := by
  rcases exec_addDownloadId fate hadd hpos with ⟨gets, hexec⟩
  rw [addCurlItem, if_pos haccepted, exec_tryCatch_warn]
  change (exec _ (addDownloadId drawn info.fileLoc false info.uniqueId >>= _) _).2.store = _
  rw [exec_bind_ret hexec, addItems_eq]
  have hint := interrupted_writeAll hfate
    ((curlItems (curlInfoToStore now info)).map fun p =>
      putBatch (downloadKey drawn info.uniqueId) p.1 p.2)
    (m := ⟨s₁, gets, 1, []⟩) (show 1 ≤ k by omega) (show k < 1 + 11 by omega)
  rw [(hint.bind _).store, putItems_eq, ← List.map_take]

end Faults

/-! ## The index against the values -/

/-- The id is listed as an HTTP/FTP download. -/
def HttpListed (s : Db) (id : Str) : Prop :=
  ∃ cache, run (extractDownloadIds false) s = (.ret cache, s) ∧ id ∈ cache.map Prod.fst

/-- Every listed HTTP/FTP download has its eleven values. -/
def AllComplete (s : Db) : Prop := ∀ id, HttpListed s id → CurlComplete s id

theorem httpListed_congr {s t : Db} (h : s leveldbStoreUniqueId = t leveldbStoreUniqueId)
    {id : Str} (hs : HttpListed s id) : HttpListed t id := by
  rcases hs with ⟨cache, hrun, hmem⟩
  have hfst := run_extractDownloadIds_congr h false
  rw [hrun] at hfst
  exact ⟨cache, Prod.ext hfst.symm (run_readsOnly (readsOnly_extractDownloadIds false) t), hmem⟩

/-- On an index of clean entries: the HTTP/FTP ids that a reader sees. -/
theorem httpListed_iff {s : Db} {es : List Entry} (h : Indexed s es)
    (hclean : ∀ e ∈ es, CleanEntry e) {id : Str} :
    HttpListed s id ↔ ∃ e ∈ visible es, e.2.2 = false ∧ e.1 = id := by
  have hrun := run_extractDownloadIds h hclean false
  have hkeys : id ∈ (extracted false (visible es)).map Prod.fst ↔
      ∃ e ∈ visible es, e.2.2 = false ∧ e.1 = id := by
    rw [extracted, mem_keys_insertNew_foldl]
    simp only [List.map_nil, List.not_mem_nil, false_or, List.mem_map, List.mem_filter,
      decide_eq_true_eq, and_assoc]
  constructor
  · rintro ⟨cache, hcache, hmem⟩
    rw [hrun] at hcache
    cases hcache
    exact hkeys.mp hmem
  · intro hex
    exact ⟨_, hrun, hkeys.mpr hex⟩

/-- Deleting the first `k` values of an id. -/
theorem allComplete_dropItems_iff {s : Db} (h : AllComplete s) (id : Str) (k : Nat) :
    AllComplete (dropItems s id (curlKeys.take k)) ↔ k = 0 ∨ ¬ HttpListed s id := by
  have hindex : dropItems s id (curlKeys.take k) leveldbStoreUniqueId =
      s leveldbStoreUniqueId :=
    dropItems_of_notMem (fun key _ => multipartKey_ne_index id key) s
  constructor
  · intro hall
    by_contra hnot
    push Not at hnot
    rcases hnot with ⟨hk, hlisted⟩
    -- the first value is gone
    have hfirst : leveldbKeyCurlStat ∈ curlKeys.take k := by
      cases k with
      | zero => exact absurd rfl hk
      | succ k => exact List.mem_cons_self
    have hsome := hall id (httpListed_congr hindex.symm hlisted) leveldbKeyCurlStat (by decide)
    rw [dropItems_mem hfirst] at hsome
    exact Bool.false_ne_true hsome
  · rintro (rfl | hnot)
    · exact h
    · intro id' hlisted key hkey
      have hlisted' : HttpListed s id' := httpListed_congr hindex hlisted
      have hne : id ≠ id' := by
        rintro rfl
        exact hnot hlisted'
      rw [dropItems_of_notMem]
      · exact h id' hlisted' key hkey
      · intro q hq heq
        have hqplain := curlKeys_plain q (List.mem_of_mem_take hq)
        exact hne ((multipartKey_inj hqplain (curlKeys_plain key hkey)).mp heq).1

/-- Listing one more id with its first `k` values. -/
theorem allComplete_putItems_iff {s : Db} {es : List Entry} (h : AllComplete s)
    (hindex : Indexed s es) (hclean : ∀ e ∈ es, CleanEntry e) (new : Entry)
    (hid : IsCreateId new.1) (hpath : CleanCell new.2.1) (hkind : new.2.2 = false)
    (info : CurlDlInfo) (k : Nat) :
    AllComplete (putItems
        (Function.update s leveldbStoreUniqueId (some (indexText (visible es ++ [new])))) new.1
        ((curlItems info).take k)) ↔
      ∀ key ∈ curlKeys.drop k, (s (multipartKey [new.1, key])).isSome := by
  set s₁ := Function.update s leveldbStoreUniqueId (some (indexText (visible es ++ [new])))
  have hclean' : ∀ e ∈ visible es ++ [new], CleanEntry e := by
    intro e he
    rcases List.mem_append.mp he with hold | hin
    · exact hclean e (visible_subset hold)
    · exact List.mem_singleton.mp hin ▸ ⟨cleanCell_of_createId hid, hpath⟩
  have hindex' : Indexed (putItems s₁ new.1 ((curlItems info).take k)) (visible es ++ [new]) :=
    (indexed_update s _).putItems new.1 _
  have hseen : visible (visible es ++ [new]) = visible es ++ [new] :=
    visible_of_mem (List.mem_append_right _ (List.mem_singleton_self new)) hid
  have hkeys : ((curlItems info).take k).map Prod.fst = curlKeys.take k := by
    rw [← curlItems_keys info, List.map_take]
  have hitem : ∀ id key, s₁ (multipartKey [id, key]) = s (multipartKey [id, key]) :=
    fun id key => Function.update_of_ne (multipartKey_ne_index id key) _ _
  constructor
  · intro hall key hkey
    have hlisted : HttpListed (putItems s₁ new.1 ((curlItems info).take k)) new.1 := by
      rw [httpListed_iff hindex' hclean', hseen]
      exact ⟨new, List.mem_append_right _ (List.mem_singleton_self new), hkind, rfl⟩
    have hsome := hall new.1 hlisted key (List.mem_of_mem_drop hkey)
    -- the key is not among those written
    rw [putItems_of_notMem, hitem] at hsome
    · exact hsome
    · intro p hp heq
      have hptake : p.1 ∈ curlKeys.take k := hkeys ▸ List.mem_map_of_mem hp
      have hplain := curlKeys_plain p.1 (List.mem_of_mem_take hptake)
      have hplain' := curlKeys_plain key (List.mem_of_mem_drop hkey)
      have hsame := ((multipartKey_inj hplain hplain').mp heq).2
      have hdisjoint : ∀ a ∈ curlKeys.take k, ∀ b ∈ curlKeys.drop k, a ≠ b := by
        have hnodup := curlKeys_nodup
        rw [← List.take_append_drop k curlKeys, List.nodup_append] at hnodup
        exact hnodup.2.2
      exact hdisjoint p.1 hptake key hkey hsame
  · intro hrest id hlisted key hkey
    rw [httpListed_iff hindex' hclean', hseen] at hlisted
    rcases hlisted with ⟨e, he, hflag, rfl⟩
    rcases List.mem_append.mp he with hold | hin
    · -- a download from before
      have hlisted' : HttpListed s e.1 := (httpListed_iff hindex hclean).mpr ⟨e, hold, hflag, rfl⟩
      apply putItems_isSome
      rw [hitem]
      exact h e.1 hlisted' key hkey
    · -- the new one: written so far, or stored before
      obtain rfl := List.mem_singleton.mp hin
      rw [← List.take_append_drop k curlKeys] at hkey
      rcases List.mem_append.mp hkey with htake | hdrop
      · rw [← hkeys] at htake
        rcases List.mem_map.mp htake with ⟨p, hp, rfl⟩
        rw [putItems_mem _ hp]
        · rfl
        · rw [hkeys]
          exact curlKeys_nodup.sublist (List.take_sublist k curlKeys)
      · apply putItems_isSome
        rw [hitem]
        exact hrest key hdrop

/-! ## Faults in the middle -/

/-- The store that `addCurlItem` leaves when its write number `k`, counted from 0, is
the faulty one. -/
def afterFaultyAdd (k : Nat) (fate : Fate Str) (drawn : Str) (now : Int) (info : CurlDlInfo)
    (s : Db) : Db :=
  (exec (Faults.atWrite k fate) (addCurlItem drawn now info) (Machine.start s)).2.store

/-- The store that `delCurlItem` leaves when its write number `k` is the faulty one. -/
def afterFaultyDel (k : Nat) (fate : Fate Str) (ord : IterOrder Entry)
    (fileDest uniqueIdBackup : Str) (s : Db) : Db :=
  (exec (Faults.atWrite k fate) (delCurlItem ord fileDest uniqueIdBackup)
    (Machine.start s)).2.store

/-- **A fault in the middle.** On a store in which every listed download has its values,
one of the twelve writes fails or is not reached.

* `addCurlItem`: a fault at the first write does no harm; on an index of clean entries
  a later one does none exactly when the values not yet written were there before.
* `delCurlItem`: a fault does no harm exactly when it is at the first write or the id
  is not listed as an HTTP/FTP download. -/
theorem fault_allComplete_iff {s : Db} (h : AllComplete s) {k : Nat} (hk : k < 12)
    {fate : Fate Str} (hfate : fate ≠ .done) :
    (∀ drawn now info, k = 0 → AllComplete (afterFaultyAdd k fate drawn now info s)) ∧
    (∀ es drawn now info, Indexed s es → (∀ e ∈ es, CleanEntry e) →
      CurlDlInfo.accepted info → IsCreateId (downloadKey drawn info.uniqueId) →
      CleanCell info.fileLoc →
      (AllComplete (afterFaultyAdd k fate drawn now info s) ↔
        k = 0 ∨ ∀ key ∈ curlKeys.drop (k - 1),
          (s (multipartKey [downloadKey drawn info.uniqueId, key])).isSome)) ∧
    (∀ ord fileDest uniqueIdBackup id,
      run (curlIdToDelete fileDest uniqueIdBackup) s = (.ret id, s) → id ≠ [] →
      (AllComplete (afterFaultyDel k fate ord fileDest uniqueIdBackup s) ↔
        k = 0 ∨ ¬ HttpListed s id)) := by
  have hfirst : ∀ drawn now info, k = 0 →
      AllComplete (afterFaultyAdd k fate drawn now info s) := by
    rintro drawn now info rfl
    rw [afterFaultyAdd, addCurlItem_fault_first hfate]
    exact h
  refine ⟨hfirst, ?_, ?_⟩
  · intro es drawn now info hindex hclean haccepted hid hpath
    by_cases hzero : k = 0
    · constructor
      · intro _
        exact Or.inl hzero
      · intro _
        exact hfirst drawn now info hzero
    · -- the index has been written, and the first `k - 1` values
      have hadd := run_addDownloadId hindex hclean drawn info.fileLoc false info.uniqueId
      rw [afterFaultyAdd, addCurlItem_fault_later hfate hzero hk now haccepted hadd,
        or_iff_right hzero]
      exact allComplete_putItems_iff h hindex hclean
        (downloadKey drawn info.uniqueId, info.fileLoc, false) hid hpath rfl _ _
  · intro ord fileDest uniqueIdBackup id hid hne
    rw [afterFaultyDel, delCurlItem_fault hfate hk ord hid hne]
    exact allComplete_dropItems_iff h id k

theorem allComplete_sample : AllComplete sampleDb := by
  rintro id ⟨cache, hrun, hmem⟩
  have hcache : (run (extractDownloadIds false) sampleDb).1 =
      .ret [(sampleId '1', "/dl/a.iso".toList, false)] := by decide +kernel
  rw [hrun] at hcache
  cases hcache
  obtain rfl := List.mem_singleton.mp hmem
  have hall : ∀ key ∈ curlKeys, (sampleDb (multipartKey [sampleId '1', key])).isSome := by
    decide +kernel
  exact hall

/-- The deletion of the one download of a store, stopped in front of its third write. -/
theorem fault_allComplete_sample :
    AllComplete sampleDb ∧
      (AllComplete (afterFaultyDel 2 .stops (IterOrder.insertion Entry) [] (sampleId '1')
        sampleDb) ↔ 2 = 0 ∨ ¬ HttpListed sampleDb (sampleId '1')) :=
  ⟨allComplete_sample,
    (@fault_allComplete_iff sampleDb allComplete_sample 2 (by decide) .stops
      (by decide)).2.2 _ _ _ _ rfl (by decide)⟩

/-- A second download. -/
def sampleInfo2 : CurlDlInfo :=
  { sampleInfo with fileLoc := "/dl/b.iso".toList, uniqueId := sampleId '2' }

/-- Adding a second download, with an error at the second write: the index lists it, its
values are missing, and the first one, which was shown before, is no longer shown. -/
theorem addCurlItem_fault_hides :
    AllComplete sampleDb ∧
      (run (readCurlItems (IterOrder.insertion Entry)) sampleDb).1 ≠ .ret [] ∧
      (run (readCurlItems (IterOrder.insertion Entry))
        (afterFaultyAdd 1 (.fails "IO error".toList) [] 8 sampleInfo2 sampleDb)).1 = .ret [] ∧
      ¬ AllComplete (afterFaultyAdd 1 (.fails "IO error".toList) [] 8 sampleInfo2 sampleDb) := by
  refine ⟨allComplete_sample, by decide +kernel, by decide +kernel, ?_⟩
  intro hall
  set t := afterFaultyAdd 1 (.fails "IO error".toList) [] 8 sampleInfo2 sampleDb with ht
  have hcache : (run (extractDownloadIds false) t).1 =
      .ret [(sampleId '1', "/dl/a.iso".toList, false),
        (sampleId '2', "/dl/b.iso".toList, false)] := by
    decide +kernel
  have hlisted : HttpListed t (sampleId '2') :=
    ⟨_, Prod.ext hcache (run_readsOnly (readsOnly_extractDownloadIds false) t), by decide⟩
  have hsome := hall _ hlisted leveldbKeyCurlStat (by decide)
  have hnone : (t (multipartKey [sampleId '2', leveldbKeyCurlStat])).isSome = false := by
    decide +kernel
  rw [hnone] at hsome
  exact Bool.false_ne_true hsome

end FyreDL.Store
