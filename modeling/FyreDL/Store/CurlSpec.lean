import FyreDL.Store.CurlItems
import FyreDL.Store.Registration
import FyreDL.Lib.KvTrace

/-!
# FyreDL.Store.CurlSpec — what the HTTP/FTP operations do to a store

1. **Items**: the store after writing or deleting items of one id (`putItems`,
   `dropItems`), and the keys that are left alone.
2. **Reading**: an id is *complete* when all its eleven values are stored. Then its
   record can be read (`run_readCurlItem`), and if one listed id is not complete,
   `readCurlItems` returns nothing at all (`run_readCurlItems`).
3. **Writing**: the store after `addCurlItem`, `delCurlItem` and `modifyCurlItem`.
-/

namespace FyreDL.Store

open Lib Lib.Kv Csv

/-! ## Items -/

/-- The store with the items written under the id. -/
def putItems (s : Db) (id : Str) (items : List (Str × Str)) : Db :=
  items.foldl (fun s p => Function.update s (multipartKey [id, p.1]) (some p.2)) s

/-- The store with the keys of the id deleted. -/
def dropItems (s : Db) (id : Str) (keys : List Str) : Db :=
  keys.foldl (fun s key => Function.update s (multipartKey [id, key]) none) s

@[simp] theorem putItems_nil (s : Db) (id : Str) : putItems s id [] = s := rfl

@[simp] theorem putItems_cons (s : Db) (id : Str) (p : Str × Str) (items : List (Str × Str)) :
    putItems s id (p :: items) =
      putItems (Function.update s (multipartKey [id, p.1]) (some p.2)) id items := rfl

@[simp] theorem dropItems_nil (s : Db) (id : Str) : dropItems s id [] = s := rfl

@[simp] theorem dropItems_cons (s : Db) (id key : Str) (keys : List Str) :
    dropItems s id (key :: keys) =
      dropItems (Function.update s (multipartKey [id, key]) none) id keys := rfl

theorem putItems_of_notMem {items : List (Str × Str)} {id k : Str}
    (h : ∀ p ∈ items, multipartKey [id, p.1] ≠ k) (s : Db) : putItems s id items k = s k := by
  induction items generalizing s with
  | nil => rfl
  | cons p items ih =>
    rw [putItems_cons, ih fun q hq => h q (List.mem_cons_of_mem _ hq)]
    exact Function.update_of_ne (h p List.mem_cons_self).symm _ _

theorem dropItems_of_notMem {keys : List Str} {id k : Str}
    (h : ∀ key ∈ keys, multipartKey [id, key] ≠ k) (s : Db) : dropItems s id keys k = s k := by
  induction keys generalizing s with
  | nil => rfl
  | cons key keys ih =>
    rw [dropItems_cons, ih fun q hq => h q (List.mem_cons_of_mem _ hq)]
    exact Function.update_of_ne (h key List.mem_cons_self).symm _ _

/-- Items under keys that are written once are read back. -/
theorem putItems_mem {items : List (Str × Str)} (hnodup : (items.map Prod.fst).Nodup)
    {p : Str × Str} (hp : p ∈ items) (s : Db) (id : Str) :
    putItems s id items (multipartKey [id, p.1]) = some p.2 := by
  induction items generalizing s with
  | nil => exact absurd hp List.not_mem_nil
  | cons q items ih =>
    rw [List.map_cons, List.nodup_cons] at hnodup
    rw [putItems_cons]
    rcases List.mem_cons.mp hp with rfl | hin
    · rw [putItems_of_notMem, Function.update_self]
      intro r hr heq
      have hkey : r.1 = p.1 := multipartKey_right_inj.mp heq
      exact hnodup.1 (hkey ▸ List.mem_map_of_mem hr)
    · exact ih hnodup.2 hin _

/-- Writing items takes no value away. -/
theorem putItems_isSome {s : Db} {k : Str} (h : (s k).isSome) (id : Str)
    (items : List (Str × Str)) : (putItems s id items k).isSome := by
  induction items generalizing s with
  | nil => exact h
  | cons p items ih =>
    rw [putItems_cons]
    apply ih
    by_cases hk : k = multipartKey [id, p.1]
    · rw [hk, Function.update_self]
      rfl
    · rw [Function.update_of_ne hk]
      exact h

theorem putItems_append (s : Db) (id : Str) (xs ys : List (Str × Str)) :
    putItems s id (xs ++ ys) = putItems (putItems s id xs) id ys :=
  List.foldl_append

theorem dropItems_mem {keys : List Str} {id key : Str} (h : key ∈ keys) (s : Db) :
    dropItems s id keys (multipartKey [id, key]) = none := by
  induction keys generalizing s with
  | nil => exact absurd h List.not_mem_nil
  | cons k keys ih =>
    rw [dropItems_cons]
    by_cases hin : key ∈ keys
    · exact ih hin _
    · obtain rfl : key = k := (List.mem_cons.mp h).resolve_right hin
      by_cases hlater : ∀ q ∈ keys, multipartKey [id, q] ≠ multipartKey [id, key]
      · rw [dropItems_of_notMem hlater, Function.update_self]
      · -- the same key text once more: deleted there
        push Not at hlater
        obtain ⟨q, hq, heq⟩ := hlater
        have hsame : q = key := by simpa [multipartKey] using heq
        exact absurd (hsame ▸ hq) hin

theorem addItems_eq (id : Str) (items : List (Str × Str)) :
    addItems id items = Prog.writeAll (items.map fun p => putBatch id p.1 p.2) := by
  induction items with
  | nil => rfl
  | cons p items ih =>
    rw [addItems, ih]
    rfl

theorem delItems_eq (id : Str) (keys : List Str) :
    delItems id keys = Prog.writeAll (keys.map fun key => deleteBatch id key) := by
  induction keys with
  | nil => rfl
  | cons key keys ih =>
    rw [delItems, ih]
    rfl

theorem putItems_eq (id : Str) (items : List (Str × Str)) (s : Db) :
    putItems s id items = (items.map fun p => putBatch id p.1 p.2).foldl applyBatch s := by
  rw [putItems, List.foldl_map]
  simp only [putBatch, applyBatch_replace]

theorem dropItems_eq (id : Str) (keys : List Str) (s : Db) :
    dropItems s id keys = (keys.map fun key => deleteBatch id key).foldl applyBatch s := by
  rw [dropItems, List.foldl_map]
  simp only [deleteBatch, applyBatch_delete]

theorem run_addItems (id : Str) (items : List (Str × Str)) (s : Db) :
    run (addItems id items) s = (.ret (), putItems s id items) := by
  rw [addItems_eq, run_writeAll, putItems_eq]

theorem run_delItems (id : Str) (keys : List Str) (s : Db) :
    run (delItems id keys) s = (.ret (), dropItems s id keys) := by
  rw [delItems_eq, run_writeAll, dropItems_eq]

theorem Indexed.putItems {s : Db} {es : List Entry} (h : Indexed s es) (id : Str)
    (items : List (Str × Str)) : Indexed (putItems s id items) es := by
  unfold Indexed
  rw [putItems_of_notMem fun p _ => multipartKey_ne_index id p.1]
  exact h

theorem Indexed.dropItems {s : Db} {es : List Entry} (h : Indexed s es) (id : Str)
    (keys : List Str) : Indexed (dropItems s id keys) es := by
  unfold Indexed
  rw [dropItems_of_notMem fun key _ => multipartKey_ne_index id key]
  exact h

/-! ## Reading -/

/-- All eleven values of the id are stored. -/
def CurlComplete (s : Db) (id : Str) : Prop :=
  ∀ key ∈ curlKeys, (s (multipartKey [id, key])).isSome

/-- The value of an item, as it is read when it is stored. -/
def itemValue (s : Db) (id key : Str) : Str := (s (multipartKey [id, key])).getD []

theorem run_readItemDb_found {s : Db} {id key : Str} (h : (s (multipartKey [id, key])).isSome) :
    run (readItemDb id key) s = (.ret (itemValue s id key), s) := by
  obtain ⟨v, hv⟩ := Option.isSome_iff_exists.mp h
  rw [readItemDb, run_locked, itemValue, hv]
  simp [getOrThrow, hv, Answer.ofOption]

theorem run_readItemDb_missing {s : Db} {id key : Str} (h : s (multipartKey [id, key]) = none) :
    run (readItemDb id key) s = (.throw notFoundText, s) := by
  rw [readItemDb, run_locked]
  simp [getOrThrow, h, Answer.ofOption]

theorem run_readItems {s : Db} {id : Str} {keys : List Str}
    (h : ∀ key ∈ keys, (s (multipartKey [id, key])).isSome) :
    run (readItems id keys) s = (.ret (keys.map fun key => (key, itemValue s id key)), s) := by
  induction keys with
  | nil => rfl
  | cons key keys ih =>
    rw [readItems, run_bind_ret (run_readItemDb_found (h key List.mem_cons_self)),
      run_bind_ret (ih fun q hq => h q (List.mem_cons_of_mem _ hq))]
    rfl

theorem run_readItems_missing {s : Db} {id : Str} {keys : List Str}
    (h : ¬ ∀ key ∈ keys, (s (multipartKey [id, key])).isSome) :
    run (readItems id keys) s = (.throw notFoundText, s) := by
  induction keys with
  | nil => exact absurd (fun q hq => absurd hq List.not_mem_nil) h
  | cons key keys ih =>
    rw [readItems]
    -- the missing key is this one or among the others
    cases hv : s (multipartKey [id, key]) with
    | none => rw [run_bind_throw (run_readItemDb_missing hv)]
    | some v =>
      have hsome : (s (multipartKey [id, key])).isSome := by rw [hv]; rfl
      have hrest : ¬ ∀ q ∈ keys, (s (multipartKey [id, q])).isSome := by
        intro hall
        apply h
        intro q hq
        rcases List.mem_cons.mp hq with rfl | hin
        · exact hsome
        · exact hall q hin
      rw [run_bind_ret (run_readItemDb_found hsome), run_bind_throw (ih hrest)]

theorem valueAt_map {f : Str → Str} {keys : List Str} {key : Str} (h : key ∈ keys) :
    valueAt (keys.map fun k => (k, f k)) key = f key := by
  unfold valueAt
  induction keys with
  | nil => exact absurd h List.not_mem_nil
  | cons k keys ih =>
    rw [List.map_cons, List.lookup_cons]
    by_cases hk : key = k
    · subst hk
      simp
    · have hbeq : (key == k) = false := by simpa using hk
      rw [hbeq]
      exact ih ((List.mem_cons.mp h).resolve_left hk)

/-- The eleven values of the entry's id are stored, and its length is a number. -/
def CurlReadable (s : Db) (e : Entry) : Prop :=
  CurlComplete s e.1 ∧ (ofDecimal (itemValue s e.1 leveldbKeyCurlContLngth)).isSome

/-- The record that the store has of an entry. -/
def storedRecord (s : Db) (e : Entry) : CurlDlInfo :=
  curlRecord e (itemValue s e.1) ((ofDecimal (itemValue s e.1 leveldbKeyCurlContLngth)).getD 0)

/-- Only the eleven keys matter to a record. -/
theorem curlRecord_congr (e : Entry) {f g : Str → Str} (h : ∀ key ∈ curlKeys, f key = g key)
    (contentLength : ℚ) : curlRecord e f contentLength = curlRecord e g contentLength := by
  simp only [curlKeys, List.forall_mem_cons] at h
  obtain ⟨h1, h2, h3, h4, h5, h6, -, h8, h9, h10, h11, -⟩ := h
  simp only [curlRecord, h1, h2, h3, h4, h5, h6, h8, h9, h10, h11]

theorem run_readCurlItem {s : Db} {e : Entry} (h : CurlReadable s e) :
    run (readCurlItem e) s = (.ret (storedRecord s e), s) := by
  obtain ⟨hcomplete, hnumber⟩ := h
  obtain ⟨q, hq⟩ := Option.isSome_iff_exists.mp hnumber
  have hmem : leveldbKeyCurlContLngth ∈ curlKeys := by decide
  rw [readCurlItem, run_bind_ret (run_readItems hcomplete)]
  rw [valueAt_map hmem, hq, storedRecord, hq]
  simp only [run_pure, Option.getD_some]
  rw [curlRecord_congr e fun key hkey => valueAt_map hkey]

/-- A record that cannot be read is an exception. -/
theorem run_readCurlItem_throw {s : Db} {e : Entry} (h : ¬ CurlReadable s e) :
    ∃ what, run (readCurlItem e) s = (.throw what, s) := by
  by_cases hcomplete : CurlComplete s e.1
  · have hnone : ofDecimal (itemValue s e.1 leveldbKeyCurlContLngth) = none := by
      rw [← Option.not_isSome_iff_eq_none]
      exact fun hsome => h ⟨hcomplete, hsome⟩
    have hmem : leveldbKeyCurlContLngth ∈ curlKeys := by decide
    refine ⟨stodText, ?_⟩
    rw [readCurlItem, run_bind_ret (run_readItems hcomplete), valueAt_map hmem, hnone]
    rfl
  · exact ⟨notFoundText, by rw [readCurlItem, run_bind_throw (run_readItems_missing hcomplete)]⟩

theorem run_readCurlRecords {s : Db} {es : List Entry}
    (h : ∀ e ∈ es, IsCurl e → CurlReadable s e) :
    run (readCurlRecords es) s =
      (.ret ((es.filter fun e => IsCurl e).map (storedRecord s)), s) := by
  induction es with
  | nil => rfl
  | cons e es ih =>
    have ih := ih fun d hd => h d (List.mem_cons_of_mem _ hd)
    rw [readCurlRecords]
    by_cases he : IsCurl e
    · rw [if_pos he, run_bind_ret (run_readCurlItem (h e List.mem_cons_self he)),
        run_bind_ret ih, List.filter_cons_of_pos (by simpa using he)]
      rfl
    · rw [if_neg he, ih, List.filter_cons_of_neg (by simpa using he)]

theorem run_readCurlRecords_throw {s : Db} {es : List Entry}
    (h : ∃ e ∈ es, IsCurl e ∧ ¬ CurlReadable s e) :
    ∃ what, run (readCurlRecords es) s = (.throw what, s) := by
  induction es with
  | nil =>
    obtain ⟨e, he, -⟩ := h
    exact absurd he List.not_mem_nil
  | cons d es ih =>
    rw [readCurlRecords]
    by_cases hd : IsCurl d
    · by_cases hread : CurlReadable s d
      · obtain ⟨e, he, hcurl, hnot⟩ := h
        have hin : e ∈ es := by
          rcases List.mem_cons.mp he with rfl | hin
          · exact absurd hread hnot
          · exact hin
        obtain ⟨what, hrun⟩ := ih ⟨e, hin, hcurl, hnot⟩
        exact ⟨what, by rw [if_pos hd, run_bind_ret (run_readCurlItem hread),
          run_bind_throw hrun]⟩
      · -- this entry throws, and the rest is not reached
        obtain ⟨what, hrun⟩ := run_readCurlItem_throw hread
        exact ⟨what, by rw [if_pos hd, run_bind_throw hrun]⟩
    · -- an entry that can be read is not the one that throws
      -- the reader skips a torrent
      obtain ⟨e, he, hcurl, hnot⟩ := h
      have hin : e ∈ es := by
        rcases List.mem_cons.mp he with rfl | hin
        · exact absurd hcurl hd
        · exact hin
      obtain ⟨what, hrun⟩ := ih ⟨e, hin, hcurl, hnot⟩
      exact ⟨what, by rw [if_neg hd, hrun]⟩

theorem noWrites_readItems (id : Str) (keys : List Str) : NoWrites (readItems id keys) := by
  induction keys with
  | nil => exact .ret _
  | cons key keys ih =>
    have hget : NoWrites (readItemDb id key) := by
      apply NoWrites.locked
      apply NoWrites.get
      intro answer
      cases answer with
      | found v => exact .ret v
      | notFound => exact .throw _
      | error e => exact .throw e
    apply hget.bind
    intro value
    apply ih.bind
    intro values
    exact .ret _

theorem noWrites_readCurlRecords (es : List Entry) : NoWrites (readCurlRecords es) := by
  induction es with
  | nil => exact .ret _
  | cons e es ih =>
    rw [readCurlRecords]
    split
    · refine NoWrites.bind ?_ fun info => ih.bind fun infos => .ret _
      refine (noWrites_readItems _ _).bind ?_
      intro values
      split
      · exact .throw _
      · exact .ret _
    · exact ih

/-- Showing the records writes nothing. -/
theorem noWrites_readCurlItems (ord : IterOrder Entry) : NoWrites (readCurlItems ord) := by
  refine NoWrites.tryCatch ?_ fun e => .warn (.ret [])
  refine (readsOnly_extractDownloadIds false).noWrites.bind ?_
  intro cache
  split
  · exact noWrites_readCurlRecords _
  · exact .ret _

/-! ## The operations -/

section Operations

variable {s : Db}

/-- Every listed download can be read: all their records. -/
theorem run_readCurlItems {cache : List Entry} (ord : IterOrder Entry)
    (h : run (extractDownloadIds false) s = (.ret cache, s))
    (hread : ∀ e ∈ cache, IsCurl e → CurlReadable s e) :
    run (readCurlItems ord) s =
      (.ret (((ord.order cache).filter fun e => IsCurl e).map (storedRecord s)), s) := by
  refine run_tryCatch_ret ?_ _
  rw [run_bind_ret h]
  by_cases hne : cache = []
  · subst hne
    have hnil : ord.order [] = [] := List.Perm.eq_nil (ord.perm [])
    rw [hnil, if_neg (fun hc => hc rfl)]
    rfl
  · rw [if_pos hne]
    exact run_readCurlRecords fun e he => hread e (ord.mem_order.mp he)

/-- The same, up to the order of the map, when the map has clean entries only. -/
theorem run_readCurlItems_perm {cache : List Entry} (ord : IterOrder Entry)
    (h : run (extractDownloadIds false) s = (.ret cache, s)) (hcurl : ∀ e ∈ cache, IsCurl e)
    (hread : ∀ e ∈ cache, CurlReadable s e) :
    ∃ records, run (readCurlItems ord) s = (.ret records, s) ∧
      records.Perm (cache.map (storedRecord s)) := by
  refine ⟨_, run_readCurlItems ord h fun e he _ => hread e he, ?_⟩
  have hall : ((ord.order cache).filter fun e => IsCurl e) = ord.order cache := by
    rw [List.filter_eq_self]
    intro e he
    exact decide_eq_true (hcurl e (ord.mem_order.mp he))
  rw [hall]
  exact (ord.perm cache).map _

/-- One listed download cannot be read: nothing. -/
theorem run_readCurlItems_empty {cache : List Entry} (ord : IterOrder Entry)
    (h : run (extractDownloadIds false) s = (.ret cache, s))
    (hread : ∃ e ∈ cache, IsCurl e ∧ ¬ CurlReadable s e) :
    run (readCurlItems ord) s = (.ret [], s) := by
  obtain ⟨e, he, hcurl, hnot⟩ := hread
  obtain ⟨what, hthrow⟩ :=
    run_readCurlRecords_throw ⟨e, ord.mem_order.mpr he, hcurl, hnot⟩
  rw [readCurlItems, run_tryCatch, run_bind_ret h, if_pos (List.ne_nil_of_mem he), hthrow]
  rfl

/-- A record that `readCurlItems` shows is the stored one of an entry of the map, and
then every entry of the map can be read. -/
theorem readCurlItems_mem {s' : Db} {ord : IterOrder Entry} {records : List CurlDlInfo}
    (h : run (readCurlItems ord) s = (.ret records, s')) {info : CurlDlInfo}
    (hinfo : info ∈ records) :
    ∃ cache e, run (extractDownloadIds false) s = (.ret cache, s) ∧
      (∀ d ∈ cache, IsCurl d → CurlReadable s d) ∧ e ∈ cache ∧ IsCurl e ∧
      info = storedRecord s e := by
  rcases run_tryCatch_eq_ret h with hret | ⟨e, s₁, -, hhandler⟩
  · rcases run_bind_eq_ret hret with ⟨cache, s₁, hextract, -⟩
    have hs₁ : s₁ = s := by
      have := run_readsOnly (readsOnly_extractDownloadIds false) s
      rwa [hextract] at this
    subst hs₁
    have hread : ∀ d ∈ cache, IsCurl d → CurlReadable s₁ d := by
      by_contra hnot
      push Not at hnot
      rcases hnot with ⟨d, hd, hcurl, hd'⟩
      rw [run_readCurlItems_empty ord hextract ⟨d, hd, hcurl, hd'⟩] at h
      cases h
      exact absurd hinfo List.not_mem_nil
    rw [run_readCurlItems ord hextract hread] at h
    cases h
    rcases List.mem_map.mp hinfo with ⟨e, he, rfl⟩
    rcases List.mem_filter.mp he with ⟨hmem, hcurl⟩
    exact ⟨cache, e, hextract, hread, ord.mem_order.mp hmem, of_decide_eq_true hcurl, rfl⟩
  · -- the handler shows nothing
    cases hhandler
    exact absurd hinfo List.not_mem_nil

theorem run_addCurlItem {s₁ : Db} {drawn key : Str} {info : CurlDlInfo} (now : Int)
    (haccepted : CurlDlInfo.accepted info)
    (h : run (addDownloadId drawn info.fileLoc false info.uniqueId) s = (.ret key, s₁)) :
    run (addCurlItem drawn now info) s =
      (.ret (true, curlInfoToStore now info),
        putItems s₁ key (curlItems (curlInfoToStore now info))) := by
  rw [addCurlItem, if_pos haccepted]
  refine run_tryCatch_ret ?_ _
  have hadd : run (addDownloadId drawn (curlInfoToStore now info).fileLoc false
      (curlInfoToStore now info).uniqueId) s = (.ret key, s₁) := h
  rw [run_bind_ret hadd, run_bind_ret (run_addItems _ _ _)]
  rfl

/-- An `addCurlItem` that returns `true` has done all its writes. -/
theorem addCurlItem_true {s' : Db} {drawn : Str} {now : Int} {info info' : CurlDlInfo}
    (h : run (addCurlItem drawn now info) s = (.ret (true, info'), s')) :
    CurlDlInfo.accepted info ∧ ∃ s₁,
      run (addDownloadId drawn info.fileLoc false info.uniqueId) s =
        (.ret (downloadKey drawn info.uniqueId), s₁) ∧
      s' = putItems s₁ (downloadKey drawn info.uniqueId)
        (curlItems (curlInfoToStore now info)) := by
  rw [addCurlItem] at h
  split at h
  · rename_i haccepted
    rcases run_tryCatch_eq_ret h with hret | ⟨e, s₁, -, hhandler⟩
    · obtain ⟨key, s₁, hadd, hrest⟩ := run_bind_eq_ret hret
      obtain rfl := addDownloadId_key hadd
      rw [run_bind_ret (run_addItems _ _ _)] at hrest
      cases hrest
      exact ⟨haccepted, s₁, hadd, rfl⟩
    · -- the handler answers `false`
      cases hhandler
  · cases h

theorem run_delCurlItem {cache : List Entry} {fileDest uniqueIdBackup id : Str}
    (ord : IterOrder Entry)
    (hid : run (curlIdToDelete fileDest uniqueIdBackup) s = (.ret id, s)) (hne : id ≠ [])
    (h : run (extractDownloadIds false) s = (.ret cache, s)) :
    run (delCurlItem ord fileDest uniqueIdBackup) s =
      (.ret true, Function.update (dropItems s id curlKeys) leveldbStoreUniqueId
        (some (indexText ((ord.order cache).filter fun e => e.1 ≠ id)))) := by
  have hdrop : run (extractDownloadIds false) (dropItems s id curlKeys) =
      (.ret cache, dropItems s id curlKeys) := by
    have hsame : dropItems s id curlKeys leveldbStoreUniqueId = s leveldbStoreUniqueId :=
      dropItems_of_notMem (fun key _ => multipartKey_ne_index id key) s
    have hfst := run_extractDownloadIds_congr hsame false
    rw [h] at hfst
    exact Prod.ext hfst (run_readsOnly (readsOnly_extractDownloadIds false) _)
  refine run_tryCatch_ret ?_ _
  rw [run_bind_ret hid, if_neg hne, run_bind_ret (run_delItems _ _ _)]
  exact run_delDownloadId hdrop ord id

theorem run_modifyCurlItem {fileLoc id : Str} {isTorrent : Bool}
    (h : run (determineDownloadId fileLoc) s = (.ret (id, isTorrent), s)) (hne : id ≠ [])
    (status : DownloadStatus) (compltTimestamp : Int) (hashGiven : Str) (hashType : HashType)
    (hashRtrnd : Str) (retSuccType : HashVerif) :
    run (modifyCurlItem fileLoc status compltTimestamp hashGiven hashType hashRtrnd
        retSuccType) s =
      (.ret true, putItems s id
        (modifiedItems status compltTimestamp hashGiven hashType hashRtrnd retSuccType)) := by
  refine run_tryCatch_ret ?_ _
  rw [run_bind_ret h, if_pos hne, run_bind_ret (run_addItems _ _ _)]
  rfl

end Operations

end FyreDL.Store
