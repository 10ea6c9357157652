import FyreDL.Store.CurlFaults

/-!
# FyreDL.Store.ReadFaults — a failing read of the index

`add_download_id` and `delCurlItem` read the index, and write it anew from what they read.
The reads verify checksums, so that one of them can fail while all writes succeed.

* `RebuildFails` — the call gets to the `Get` whose answer the index is rebuilt from, and
  that one fails.
* `exec_rebuildFails` — the status of this `Get` is not looked at: the new index has
  nothing of the old one.
* `delCurlItem_lookupFails` — the `Get` of `determine_download_id` is another matter: its
  failure is thrown, and nothing is changed.
* `rebuildFails_keeps_iff` — the only indexes that survive.
-/

namespace FyreDL.Store

open Lib Lib.Kv Csv

/-- A call that rebuilds the index. -/
inductive RebuildCall where
  | add (drawn filePath : Str) (isTorrent : Bool) (overrideUniqueId : Str)
  | del (ord : IterOrder Entry) (fileDest uniqueIdBackup : Str)

namespace RebuildCall

/-- `add_download_id`, or `delCurlItem`. -/
def prog : RebuildCall → DbProg Unit
  | add drawn filePath isTorrent overrideUniqueId =>
    addDownloadId drawn filePath isTorrent overrideUniqueId >>= fun _ => .ret ()
  | del ord fileDest uniqueIdBackup => delCurlItem ord fileDest uniqueIdBackup >>= fun _ => .ret ()

/-- What a call writes that has seen nothing of the old index. -/
def blindIndex : RebuildCall → Str
  | add drawn filePath isTorrent overrideUniqueId =>
    indexLine (downloadKey drawn overrideUniqueId) filePath (boolText isTorrent)
  | del _ _ _ => []

end RebuildCall

/-- The call gets to the `Get` that the index is rebuilt from, and it fails. In
`add_download_id` this is the only one. `delCurlItem` gets to it in `extract_download_ids`,
once it has an id to delete; the deletions of the values in between have no `Get`. -/
def RebuildFails (get : Nat → Option Str) (s : Db) : RebuildCall → Prop
  | .add _ _ _ _ => (get 0).isSome
  | .del _ fileDest uniqueIdBackup =>
    ∃ id m, exec (Faults.atGets get) (curlIdToDelete fileDest uniqueIdBackup) (Machine.start s) =
      (.ret id, m) ∧ id ≠ [] ∧ (get m.gets).isSome

section Failing

variable {get : Nat → Option Str} {m : Machine Str Str Str}

/-- A failed `Get` whose status is not looked at reads as an empty text. -/
theorem exec_getOrEmpty_fails {α : Type} (hfails : (get m.gets).isSome) (key : Str)
    (f : Str → DbProg α) :
    exec (Faults.atGets get) (getOrEmpty key >>= f) m =
      exec (Faults.atGets get) (f []) { m with gets := m.gets + 1 } := by
  rcases Option.isSome_iff_exists.mp hfails with ⟨e, he⟩
  have hget : exec (Faults.atGets get) (getOrEmpty key) m =
      (.ret [], { m with gets := m.gets + 1 }) := by
    simp only [getOrEmpty, exec, Faults.atGets, he]
  exact exec_bind_ret hget f

/-- Nothing is copied of an index that could not be read. -/
theorem exec_copiedIndex_fails (hfails : (get m.gets).isSome) :
    exec (Faults.atGets get) copiedIndex m = (.ret [], { m with gets := m.gets + 1 }) := by
  have hempty : parsable [] ≠ true := by decide
  unfold copiedIndex
  rw [exec_getOrEmpty_fails hfails, if_neg hempty]
  rfl

/-- The map of an index that could not be read is empty. -/
theorem exec_extractDownloadIds_fails (hfails : (get m.gets).isSome) (torrentsOnly : Bool) :
    exec (Faults.atGets get) (extractDownloadIds torrentsOnly) m =
      (.ret [], { m with gets := m.gets + 1 }) := by
  have hempty : parsable [] ≠ true := by decide
  unfold extractDownloadIds
  rw [exec_locked, exec_getOrEmpty_fails hfails, if_neg hempty]
  rfl

/-- `add_download_id` then writes its own line only. -/
theorem exec_addDownloadId_fails (hfails : (get m.gets).isSome) (drawn filePath : Str)
    (isTorrent : Bool) (overrideUniqueId : Str) :
    (exec (Faults.atGets get) (addDownloadId drawn filePath isTorrent overrideUniqueId) m).2.store =
      Function.update m.store leveldbStoreUniqueId
        (some (indexLine (downloadKey drawn overrideUniqueId) filePath (boolText isTorrent))) := by
  unfold addDownloadId
  rw [exec_locked, exec_bind_ret (exec_copiedIndex_fails hfails), ← applyBatch_replace]
  rfl

/-- `del_download_id` then writes an empty index. -/
theorem exec_delDownloadId_fails (hfails : (get m.gets).isSome) (ord : IterOrder Entry)
    (uniqueId : Str) (isTorrent : Bool) :
    (exec (Faults.atGets get) (delDownloadId ord uniqueId isTorrent) m).2.store =
      Function.update m.store leveldbStoreUniqueId (some []) := by
  have hnothing : ord.order [] = [] := (ord.perm []).eq_nil
  unfold delDownloadId
  rw [exec_bind_ret (exec_extractDownloadIds_fails hfails isTorrent), hnothing,
    ← applyBatch_replace]
  rfl

end Failing

/-- The result of a call is of no account for the store. -/
theorem exec_bind_unit_store {α : Type} (F : Faults Str) (p : DbProg α)
    (m : Machine Str Str Str) :
    (exec F (p >>= fun _ => .ret ()) m).2.store = (exec F p m).2.store := by
  rw [exec_bind]
  rcases exec F p m with ⟨o, m'⟩
  cases o <;> rfl

section Rebuilding

variable {get : Nat → Option Str} {s : Db}

/-- The values go first, and the index follows. -/
theorem exec_delCurlItem_fails {fileDest uniqueIdBackup id : Str} {m : Machine Str Str Str}
    (ord : IterOrder Entry)
    (hid : exec (Faults.atGets get) (curlIdToDelete fileDest uniqueIdBackup) (Machine.start s) =
      (.ret id, m)) (hne : id ≠ []) (hfails : (get m.gets).isSome) :
    (exec (Faults.atGets get) (delCurlItem ord fileDest uniqueIdBackup)
      (Machine.start s)).2.store =
        Function.update (dropItems s id curlKeys) leveldbStoreUniqueId (some []) := by
  have hstore : m.store = s := by
    have := exec_readsOnly_store (readsOnly_curlIdToDelete fileDest uniqueIdBackup)
      (Faults.atGets get) (Machine.start s)
    rwa [hid] at this
  -- the deletions have no `Get`, so that the next one is the one of the index
  have hitems := exec_writeAll_atGets get (curlKeys.map fun key => deleteBatch id key) m
  generalize hbehind : ({ m with
    store := (curlKeys.map fun key => deleteBatch id key).foldl applyBatch m.store
    writes := m.writes + (curlKeys.map fun key => deleteBatch id key).length } :
      Machine Str Str Str) = behind at hitems
  have hnext : (get behind.gets).isSome := by
    rw [← hbehind]
    exact hfails
  rw [delCurlItem, exec_tryCatch_warn, exec_bind_ret hid, if_neg hne, delItems_eq,
    exec_bind_ret hitems, exec_delDownloadId_fails hnext, ← hbehind, dropItems_eq, hstore]

/-- **A failing read of the index**: what was stored there is lost. -/
theorem exec_rebuildFails {call : RebuildCall} (h : RebuildFails get s call) :
    (exec (Faults.atGets get) call.prog (Machine.start s)).2.store leveldbStoreUniqueId =
      some call.blindIndex := by
  cases call with
  | add drawn filePath isTorrent overrideUniqueId =>
    have hstore := exec_addDownloadId_fails (m := Machine.start s) h drawn filePath isTorrent
      overrideUniqueId
    rw [RebuildCall.prog, exec_bind_unit_store, hstore]
    exact Function.update_self _ _ _
  | del ord fileDest uniqueIdBackup =>
    rcases h with ⟨id, m, hid, hne, hfails⟩
    rw [RebuildCall.prog, exec_bind_unit_store, exec_delCurlItem_fails ord hid hne hfails]
    exact Function.update_self _ _ _

/-- The failing read of `determine_download_id`, by contrast, leaves everything as it was. -/
theorem delCurlItem_lookupFails (hfails : (get 0).isSome) (ord : IterOrder Entry)
    {fileDest : Str} (hdest : fileDest ≠ []) :
    (exec (Faults.atGets get) (delCurlItem ord fileDest []) (Machine.start s)).2.store = s := by
  rcases Option.isSome_iff_exists.mp hfails with ⟨e, he⟩
  have hlookup : exec (Faults.atGets get) (determineDownloadId fileDest) (Machine.start s) =
      (.throw e, { Machine.start s with gets := 1 }) := by
    unfold determineDownloadId
    rw [exec_locked, exec_bind]
    simp only [getOrThrow, exec, Faults.atGets, Machine.start, he]
    rfl
  rw [delCurlItem, exec_tryCatch_warn, exec_bind, curlIdToDelete, if_pos ⟨rfl, hdest⟩, exec_bind,
    hlookup]
  rfl

/-- **The indexes that survive**: those that the call would write without having seen
anything, its own line for `add_download_id` and the empty text for `delCurlItem`. -/
theorem rebuildFails_keeps_iff {call : RebuildCall} (h : RebuildFails get s call) :
    (exec (Faults.atGets get) call.prog (Machine.start s)).2.store leveldbStoreUniqueId =
        s leveldbStoreUniqueId ↔
      s leveldbStoreUniqueId = some call.blindIndex := by
  rw [exec_rebuildFails h]
  exact eq_comm

end Rebuilding

/-- Every `Get` meets a damaged block. -/
def damagedGet : Nat → Option Str := fun _ => some "Corruption: block checksum mismatch".toList

/-- A database with one download in its index, and none of its values. -/
def oneLineDb : Db :=
  Function.update emptyDb leveldbStoreUniqueId
    (some (indexText [(sampleId '1', "/dl/a.iso".toList, false)]))

/-- A registration and a deletion over a damaged index: the download that was there is
forgotten. -/
theorem rebuildFails_forgets :
    (RebuildFails damagedGet oneLineDb (.add [] "/dl/b.iso".toList false (sampleId '2')) ∧
      (exec (Faults.atGets damagedGet)
          (RebuildCall.add [] "/dl/b.iso".toList false (sampleId '2')).prog
          (Machine.start oneLineDb)).2.store leveldbStoreUniqueId ≠
        oneLineDb leveldbStoreUniqueId) ∧
    RebuildFails damagedGet oneLineDb (.del (IterOrder.insertion Entry) [] (sampleId '2')) ∧
      (exec (Faults.atGets damagedGet)
          (RebuildCall.del (IterOrder.insertion Entry) [] (sampleId '2')).prog
          (Machine.start oneLineDb)).2.store leveldbStoreUniqueId ≠
        oneLineDb leveldbStoreUniqueId := by
  have hadd : RebuildFails damagedGet oneLineDb
      (.add [] "/dl/b.iso".toList false (sampleId '2')) := rfl
  have hdel : RebuildFails damagedGet oneLineDb
      (.del (IterOrder.insertion Entry) [] (sampleId '2')) :=
    ⟨sampleId '2', Machine.start oneLineDb, rfl, by decide, rfl⟩
  refine ⟨⟨hadd, ?_⟩, hdel, ?_⟩
  · rw [exec_rebuildFails hadd]
    decide
  · rw [exec_rebuildFails hdel]
    decide

/-- The registration that is repeated over the same damaged index leaves it as it is. -/
theorem rebuildFails_keeps_line :
    (exec (Faults.atGets damagedGet)
        (RebuildCall.add [] "/dl/a.iso".toList false (sampleId '1')).prog
        (Machine.start oneLineDb)).2.store leveldbStoreUniqueId =
          oneLineDb leveldbStoreUniqueId ↔
      oneLineDb leveldbStoreUniqueId =
        some (RebuildCall.add [] "/dl/a.iso".toList false (sampleId '1')).blindIndex :=
  @rebuildFails_keeps_iff damagedGet oneLineDb (.add [] "/dl/a.iso".toList false (sampleId '1'))
    rfl

end FyreDL.Store
