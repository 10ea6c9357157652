import FyreDL.Store.CurlSpec

/-!
# FyreDL.Store.CurlRecord — an added record, read back

What `readCurlItems` shows of a record that `addCurlItem` stored.

* `addCurlItem_records` — on an index of clean entries whose other HTTP/FTP downloads
  are readable, `readCurlItems` shows the records from before and one more. The new
  one is `addedRecord`: everything is as it was added, except that the two hash
  enumerations went through two different codes.
* `addCurlItem_not_readsBack` — hence no record is ever read back with the hash type
  it was added with. This needs no assumption about the rest of the store.
-/

namespace FyreDL.Store

open Lib Lib.Kv Csv

/-! ## Items of an added record -/

theorem curlItems_keys (info : CurlDlInfo) : (curlItems info).map Prod.fst = curlKeys := rfl

theorem curlKeys_nodup : curlKeys.Nodup := by decide

theorem curlKeys_plain : ∀ key ∈ curlKeys, '_' ∉ key := by decide

theorem curlItems_plain (info : CurlDlInfo) : ∀ p ∈ curlItems info, '_' ∉ p.1 := by
  intro p hp
  exact curlKeys_plain p.1 (curlItems_keys info ▸ List.mem_map_of_mem hp)

section Added

variable (s : Db) (id : Str) (info : CurlDlInfo)

theorem putItems_curlItems {p : Str × Str} (hp : p ∈ curlItems info) :
    putItems s id (curlItems info) (multipartKey [id, p.1]) = some p.2 :=
  putItems_mem (curlItems_keys info ▸ curlKeys_nodup) hp s id

theorem itemValue_putItems {key value : Str} (hp : (key, value) ∈ curlItems info) :
    itemValue (putItems s id (curlItems info)) id key = value := by
  rw [itemValue, putItems_curlItems s id info hp, Option.getD_some]

theorem curlComplete_putItems : CurlComplete (putItems s id (curlItems info)) id := by
  intro key hkey
  rw [← curlItems_keys info] at hkey
  obtain ⟨p, hp, rfl⟩ := List.mem_map.mp hkey
  rw [putItems_curlItems s id info hp]
  rfl

/-- The record that is read after `info` was stored under the id of an entry. -/
def addedRecord (e : Entry) (info : CurlDlInfo) : CurlDlInfo where
  fileLoc := e.2.1
  insertTimestamp := info.insertTimestamp
  compltTimestamp := info.compltTimestamp
  dlStatus := info.dlStatus
  extInfo :=
    { statusOk :=
        if 200 ≤ info.extInfo.responseCode ∧ info.extInfo.responseCode < 300 then some true
        else none
      statusMsg := info.extInfo.statusMsg
      responseCode := info.extInfo.responseCode
      elapsed := -1
      effectiveUrl := info.extInfo.effectiveUrl
      contentLength := info.extInfo.contentLength }
  uniqueId := e.1
  hashType := convHashTypeIntToEnum (rawHashType info.hashType)
  hashValGiven := info.hashValGiven
  hashValRtrnd := info.hashValRtrnd
  hashSuccType := convHashVerifIntToEnum (rawHashVerif info.hashSuccType)

theorem curlReadable_putItems (e : Entry) {n : Int} (hwhole : info.extInfo.contentLength = n) :
    CurlReadable (putItems s e.1 (curlItems info)) e := by
  refine ⟨curlComplete_putItems s e.1 info, ?_⟩
  have hmem : (leveldbKeyCurlContLngth, toFixed6 info.extInfo.contentLength) ∈ curlItems info := by
    simp [curlItems]
  rw [itemValue_putItems s e.1 info hmem, hwhole, ofDecimal_toFixed6]
  rfl

theorem storedRecord_putItems (e : Entry) {n : Int} (hwhole : info.extInfo.contentLength = n) :
    storedRecord (putItems s e.1 (curlItems info)) e = addedRecord e info := by
  have hval : ∀ p ∈ curlItems info,
      itemValue (putItems s e.1 (curlItems info)) e.1 p.1 = p.2 :=
    fun p hp => itemValue_putItems s e.1 info hp
  unfold storedRecord
  generalize itemValue (putItems s e.1 (curlItems info)) e.1 = value at hval ⊢
  simp only [curlItems, List.forall_mem_cons] at hval
  obtain ⟨h1, h2, h3, h4, h5, h6, h7, h8, h9, h10, h11, -⟩ := hval
  simp only [curlRecord, addedRecord, h1, h2, h3, h4, h5, h6, h7, h8, h9, h10, h11,
    ofText_toText, convDlStatIntToEnum_toInt, hwhole, ofDecimal_toFixed6, Option.getD_some]

end Added

/-! ## The records around it -/

/-- Items of another id leave the record of an entry as it is. -/
theorem itemValue_putItems_of_ne {s : Db} {id id' key : Str} {items : List (Str × Str)}
    (hplain : ∀ p ∈ items, '_' ∉ p.1) (hkey : '_' ∉ key) (hne : id ≠ id') :
    putItems s id items (multipartKey [id', key]) = s (multipartKey [id', key]) := by
  refine putItems_of_notMem (fun p hp heq => ?_) s
  exact hne ((multipartKey_inj (hplain p hp) hkey).mp heq).1

/-- Stores that agree on the eleven keys of an id agree on its record. -/
theorem storedRecord_congr {s t : Db} {e : Entry}
    (h : ∀ key ∈ curlKeys, s (multipartKey [e.1, key]) = t (multipartKey [e.1, key])) :
    storedRecord s e = storedRecord t e ∧ (CurlReadable s e ↔ CurlReadable t e) := by
  have hvalue : ∀ key ∈ curlKeys, itemValue s e.1 key = itemValue t e.1 key := by
    intro key hkey
    rw [itemValue, itemValue, h key hkey]
  have hlength := hvalue leveldbKeyCurlContLngth (by decide)
  constructor
  · rw [storedRecord, storedRecord, hlength, curlRecord_congr e hvalue]
  · have hcomplete : CurlComplete s e.1 ↔ CurlComplete t e.1 := by
      unfold CurlComplete
      constructor
      · intro hs key hkey
        exact h key hkey ▸ hs key hkey
      · intro ht key hkey
        exact (h key hkey).symm ▸ ht key hkey
    rw [CurlReadable, CurlReadable, hlength, hcomplete]

/-! ## Reading after adding -/

section Adding

variable {s : Db} {es : List Entry}

theorem downloadKey_of_override {drawn overrideUniqueId : Str} (h : overrideUniqueId ≠ []) :
    downloadKey drawn overrideUniqueId = overrideUniqueId := if_pos h

/-- **Adding a record.** The records shown before are all shown again, and the added
one with them. -/
theorem addCurlItem_records (hindex : Indexed s es) (hclean : ∀ e ∈ es, CleanEntry e)
    (hids : ∀ e ∈ es, IsCreateId e.1) (hnodup : (es.map Prod.fst).Nodup)
    (hread : ∀ e ∈ es, e.2.2 = false → CurlReadable s e) {info : CurlDlInfo}
    (hid : IsCreateId info.uniqueId) (hfresh : info.uniqueId ∉ es.map Prod.fst)
    (hpath : CleanCell info.fileLoc) {n : Int} (hwhole : info.extInfo.contentLength = n)
    (haccepted : CurlDlInfo.accepted info) (drawn : Str) (now : Int) (ord : IterOrder Entry) :
    ∃ s' records, run (addCurlItem drawn now info) s = (.ret (true, curlInfoToStore now info), s') ∧
      run (readCurlItems ord) s' = (.ret records, s') ∧
      records.Perm (addedRecord (info.uniqueId, info.fileLoc, false) (curlInfoToStore now info) ::
        (es.filter fun e => e.2.2 = false).map (storedRecord s)) := by
  set new : Entry := (info.uniqueId, info.fileLoc, false) with hnew
  have hfresh : new.1 ∉ es.map Prod.fst := hfresh
  have hkey : downloadKey drawn info.uniqueId = info.uniqueId :=
    downloadKey_of_override (cleanCell_of_createId hid).ne_nil
  have hadd := run_addDownloadId hindex hclean drawn info.fileLoc false info.uniqueId
  rw [hkey, visible_of_createId hids, ← hnew] at hadd
  have hrun := run_addCurlItem now haccepted hadd
  set s₁ := Function.update s leveldbStoreUniqueId (some (indexText (es ++ [new])))
  set s' := putItems s₁ new.1 (curlItems (curlInfoToStore now info)) with hs'
  -- the index of the store reached
  have hcleanNew : CleanEntry new := ⟨cleanCell_of_createId hid, hpath⟩
  have hclean' : ∀ e ∈ es ++ [new], CleanEntry e := by
    intro e he
    rcases List.mem_append.mp he with hold | hin
    · exact hclean e hold
    · exact List.mem_singleton.mp hin ▸ hcleanNew
  have hnodup' : ((es ++ [new]).map Prod.fst).Nodup := by
    rw [List.map_append, List.nodup_append]
    refine ⟨hnodup, List.nodup_singleton _, ?_⟩
    rintro a ha b hb rfl
    rw [List.map_singleton, List.mem_singleton] at hb
    exact hfresh (hb ▸ ha)
  have hindex' : Indexed s' (es ++ [new]) := (indexed_update s _).putItems new.1 _
  have hextract : run (extractDownloadIds false) s' =
      (.ret ((es.filter fun e => e.2.2 = false) ++ [new]), s') := by
    rw [run_extractDownloadIds hindex' hclean',
      visible_of_mem (List.mem_append_right es (List.mem_singleton_self new)) hid,
      extracted_of_nodup false hnodup', List.filter_append]
    rfl
  -- the records of the entries from before are the same ones
  have hsame : ∀ e ∈ es, storedRecord s' e = storedRecord s e ∧
      (CurlReadable s' e ↔ CurlReadable s e) := by
    intro e he
    refine storedRecord_congr ?_
    intro key hkey
    have hne : new.1 ≠ e.1 := by
      intro heq
      exact hfresh (heq ▸ List.mem_map_of_mem he)
    rw [hs', itemValue_putItems_of_ne (curlItems_plain _) (curlKeys_plain key hkey) hne]
    exact Function.update_of_ne (multipartKey_ne_index _ _) _ _
  have hwhole' : (curlInfoToStore now info).extInfo.contentLength = n := hwhole
  have hnewRead : CurlReadable s' new := curlReadable_putItems s₁ _ new hwhole'
  obtain ⟨records, hrecords, hperm⟩ := run_readCurlItems_perm ord hextract
    (by
      intro e he
      have hin : e ∈ es ++ [new] := by
        rcases List.mem_append.mp he with hold | hin
        · exact List.mem_append_left _ (List.mem_filter.mp hold).1
        · exact List.mem_append_right _ hin
      refine ⟨?_, (hclean' e hin).path.ne_nil⟩
      rcases List.mem_append.mp he with hold | hin
      · simpa using (List.mem_filter.mp hold).2
      · rw [List.mem_singleton.mp hin])
    (by
      intro e he
      rcases List.mem_append.mp he with hold | hin
      · obtain ⟨hmem, hflag⟩ := List.mem_filter.mp hold
        exact (hsame e hmem).2.mpr (hread e hmem (by simpa using hflag))
      · exact List.mem_singleton.mp hin ▸ hnewRead)
  refine ⟨s', records, hrun, hrecords, hperm.trans ?_⟩
  rw [List.map_append, List.map_singleton, storedRecord_putItems s₁ _ new hwhole']
  refine (List.perm_append_singleton _ _).trans (List.Perm.cons _ (List.Perm.of_eq ?_))
  exact List.map_congr_left fun e he => (hsame e (List.mem_filter.mp he).1).1

end Adding

/-! ## What does not come back -/

/-- The record agrees with what was added in the eight fields. -/
structure SameFields (r info : CurlDlInfo) : Prop where
  fileLoc : r.fileLoc = info.fileLoc
  effectiveUrl : r.extInfo.effectiveUrl = info.extInfo.effectiveUrl
  responseCode : r.extInfo.responseCode = info.extInfo.responseCode
  contentLength : r.extInfo.contentLength = info.extInfo.contentLength
  hashType : r.hashType = info.hashType
  hashValGiven : r.hashValGiven = info.hashValGiven
  hashValRtrnd : r.hashValRtrnd = info.hashValRtrnd
  hashSuccType : r.hashSuccType = info.hashSuccType

/-- `readCurlItems` shows one record with the id of `info`, and it agrees with it. -/
def ReadsBack (ord : IterOrder Entry) (s : Db) (info : CurlDlInfo) : Prop :=
  ∃ records s', run (readCurlItems ord) s = (.ret records, s') ∧
    ∃ r, (records.filter fun r => r.uniqueId = info.uniqueId) = [r] ∧ SameFields r info

/-- **The hash type is never read back.** Whatever the store: no record of the id
that `addCurlItem` stored has the hash type that was added. -/
theorem addCurlItem_not_readsBack {s s' : Db} {drawn : Str} {now : Int}
    {info info' : CurlDlInfo} (ord : IterOrder Entry) (hid : info.uniqueId ≠ [])
    (h : run (addCurlItem drawn now info) s = (.ret (true, info'), s')) :
    ¬ ReadsBack ord s' info := by
  rintro ⟨records, t, hread, r, hfilter, hsame⟩
  obtain ⟨-, s₁, -, rfl⟩ := addCurlItem_true h
  have hr : r ∈ records.filter fun r => r.uniqueId = info.uniqueId := by
    rw [hfilter]
    exact List.mem_singleton_self r
  obtain ⟨hmem, hruid⟩ := List.mem_filter.mp hr
  rcases readCurlItems_mem hread hmem with ⟨-, e, -, -, -, -, rfl⟩
  have heid : e.1 = info.uniqueId := of_decide_eq_true hruid
  rw [downloadKey_of_override hid, ← heid] at hsame
  have hmemItem : (leveldbKeyCurlHashType, toText (rawHashType info.hashType)) ∈
      curlItems (curlInfoToStore now info) := by
    simp [curlItems, curlInfoToStore]
  -- what is stored is the raw number, which is not converted back to the hash type
  have hvalue := itemValue_putItems s₁ e.1 _ hmemItem
  have htype := hsame.hashType
  change convHashTypeIntToEnum (ofText (itemValue _ e.1 leveldbKeyCurlHashType)) = _ at htype
  rw [hvalue, ofText_toText] at htype
  exact convHashTypeIntToEnum_raw info.hashType htype

/-- A download with a SHA-256 checksum. -/
def sampleInfo : CurlDlInfo where
  fileLoc := "/dl/a.iso".toList
  insertTimestamp := 0
  compltTimestamp := 0
  dlStatus := .stopped
  extInfo :=
    { statusOk := some true
      statusMsg := []
      responseCode := 200
      elapsed := 0
      effectiveUrl := "http://h/a.iso".toList
      contentLength := 10 }
  uniqueId := sampleId '1'
  hashType := .sha256
  hashValGiven := "ab".toList
  hashValRtrnd := []
  hashSuccType := .notApplicable

/-- The empty store with the sample download added at time 7. -/
def sampleDb : Db := (run (addCurlItem [] 7 sampleInfo) emptyDb).2

theorem addCurlItem_sample :
    (run (addCurlItem [] 7 sampleInfo) emptyDb).1 =
      .ret (true, curlInfoToStore 7 sampleInfo) := by decide +kernel

/-- The sample is stored, and not read back. -/
theorem addCurlItem_sample_not_readsBack :
    ¬ ReadsBack (IterOrder.insertion Entry) sampleDb sampleInfo :=
  addCurlItem_not_readsBack (IterOrder.insertion Entry) (by decide +kernel)
    (Prod.ext addCurlItem_sample rfl)

/-- It comes back as a download with an MD5 checksum. -/
theorem readCurlItems_sample :
    (run (addCurlItem [] 7 sampleInfo) emptyDb).1 = .ret (true, curlInfoToStore 7 sampleInfo) ∧
      (run (readCurlItems (IterOrder.insertion Entry)) sampleDb).1 =
        .ret [{ curlInfoToStore 7 sampleInfo with
          extInfo := { (curlInfoToStore 7 sampleInfo).extInfo with elapsed := -1 }
          hashType := .md5
          hashSuccType := .notApplicable }] ∧
      ¬ ReadsBack (IterOrder.insertion Entry) sampleDb sampleInfo := by
  have hread : (run (readCurlItems (IterOrder.insertion Entry)) sampleDb).1 =
      .ret [{ curlInfoToStore 7 sampleInfo with
        extInfo := { (curlInfoToStore 7 sampleInfo).extInfo with elapsed := -1 }
        hashType := .md5
        hashSuccType := .notApplicable }] := by decide +kernel
  refine ⟨addCurlItem_sample, hread, ?_⟩
  rintro ⟨records, s', hrun, r, hfilter, hsame⟩
  rw [hrun] at hread
  cases hread
  have hr := List.mem_filter.mp (hfilter ▸ List.mem_singleton_self r)
  obtain rfl := List.mem_singleton.mp hr.1
  exact absurd hsame.hashType (by decide)

end FyreDL.Store
