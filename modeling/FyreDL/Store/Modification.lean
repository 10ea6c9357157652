import FyreDL.Store.CurlRecord

/-!
# FyreDL.Store.Modification — `modifyCurlItem` and the records

`modifyCurlItem` finds the id of a path in the index and writes some of the eleven items
of this id. `modifiedRecord` is what it is for: a new status, a new date of completion
unless it is zero, and four new hash fields if there is a verdict.

* `storedRecord_modified` — the record of the id changes in this way: the codes that are
  written are read back as what they stand for.
* `modifyCurlItem_changes` — the records that are read afterwards are those from before
  with the one of the id changed.
-/

namespace FyreDL.Store

open Lib Lib.Kv Csv

/-- The record of the id with the new values, and any other record as it is. -/
def modifiedRecord (id : Str) (status : DownloadStatus) (compltTimestamp : Int) (hashGiven : Str)
    (hashType : HashType) (hashRtrnd : Str) (retSuccType : HashVerif) (r : CurlDlInfo) :
    CurlDlInfo :=
  if r.uniqueId = id then
    { r with
      dlStatus := status
      compltTimestamp := if compltTimestamp > 0 then compltTimestamp else r.compltTimestamp
      hashType := if retSuccType ≠ .notApplicable then hashType else r.hashType
      hashValGiven := if retSuccType ≠ .notApplicable then hashGiven else r.hashValGiven
      hashValRtrnd := if retSuccType ≠ .notApplicable then hashRtrnd else r.hashValRtrnd
      hashSuccType := if retSuccType ≠ .notApplicable then retSuccType else r.hashSuccType }
  else r

/-! ## The items that are written -/

section Items

variable (status : DownloadStatus) (compltTimestamp : Int) (hashGiven : Str)
  (hashType : HashType) (hashRtrnd : Str) (retSuccType : HashVerif)

/-- The keys of the items that may be written, in order. -/
def modifiedKeys : List Str :=
  [leveldbKeyCurlStat, leveldbKeyCurlCompltDate, leveldbKeyCurlHashType,
   leveldbKeyCurlHashValGiven, leveldbKeyCurlHashValRtrnd, leveldbKeyCurlHashSuccType]

theorem modifiedItems_sublist :
    ((modifiedItems status compltTimestamp hashGiven hashType hashRtrnd retSuccType).map
      Prod.fst).Sublist modifiedKeys := by
  unfold modifiedItems modifiedKeys
  split
  · split
    · exact List.Sublist.refl _
    · simp
  · split
    · simp
    · simp

theorem modifiedItems_nodup :
    ((modifiedItems status compltTimestamp hashGiven hashType hashRtrnd retSuccType).map
      Prod.fst).Nodup :=
  List.Nodup.sublist (modifiedItems_sublist _ _ _ _ _ _) (by decide)

theorem modifiedItems_plain :
    ∀ p ∈ modifiedItems status compltTimestamp hashGiven hashType hashRtrnd retSuccType,
      '_' ∉ p.1 := by
  intro p hp
  have hkey := (modifiedItems_sublist _ _ _ _ _ _).subset (List.mem_map_of_mem hp)
  revert hkey
  generalize p.1 = key
  revert key
  decide

end Items

/-- The value of an item after items of its id have been written. -/
theorem itemValue_putItems_self {items : List (Str × Str)} (hnodup : (items.map Prod.fst).Nodup)
    (s : Db) (id key : Str) :
    itemValue (putItems s id items) id key = (items.lookup key).getD (itemValue s id key) := by
  rw [itemValue]
  cases hlookup : items.lookup key with
  | none =>
    rw [putItems_of_notMem, itemValue, Option.getD_none]
    intro p hp heq
    have hne := bne_iff_ne.mp (List.lookup_eq_none_iff.mp hlookup p hp)
    exact hne (multipartKey_right_inj.mp heq).symm
  | some value =>
    rcases List.lookup_eq_some_iff.mp hlookup with ⟨before, after, rfl, -⟩
    have hmem : (key, value) ∈ before ++ (key, value) :: after :=
      List.mem_append_right _ List.mem_cons_self
    rw [putItems_mem hnodup hmem, Option.getD_some, Option.getD_some]

section Lookup

variable (status : DownloadStatus) (compltTimestamp : Int) (hashGiven : Str)
  (hashType : HashType) (hashRtrnd : Str) (retSuccType : HashVerif)

/-- What is written under the keys that may be written. -/
theorem lookup_modifiedItems :
    let items := modifiedItems status compltTimestamp hashGiven hashType hashRtrnd retSuccType
    items.lookup leveldbKeyCurlStat = some (toText (convDlStatToInt status)) ∧
    items.lookup leveldbKeyCurlCompltDate =
      (if compltTimestamp > 0 then some (toText compltTimestamp) else none) ∧
    items.lookup leveldbKeyCurlHashType =
      (if retSuccType ≠ .notApplicable then some (toText (convHashTypeToInt hashType))
        else none) ∧
    items.lookup leveldbKeyCurlHashValGiven =
      (if retSuccType ≠ .notApplicable then some hashGiven else none) ∧
    items.lookup leveldbKeyCurlHashValRtrnd =
      (if retSuccType ≠ .notApplicable then some hashRtrnd else none) ∧
    items.lookup leveldbKeyCurlHashSuccType =
      (if retSuccType ≠ .notApplicable then some (toText (convHashVerifToInt retSuccType))
        else none) := by
  unfold modifiedItems
  by_cases hdate : compltTimestamp > 0
  · by_cases hverdict : retSuccType ≠ .notApplicable
    · rw [if_pos hdate, if_pos hverdict]
      simp only [if_pos hdate, if_pos hverdict]
      exact ⟨rfl, rfl, rfl, rfl, rfl, rfl⟩
    · rw [if_pos hdate, if_neg hverdict]
      simp only [if_pos hdate, if_neg hverdict]
      exact ⟨rfl, rfl, rfl, rfl, rfl, rfl⟩
  · by_cases hverdict : retSuccType ≠ .notApplicable
    · rw [if_neg hdate, if_pos hverdict]
      simp only [if_neg hdate, if_pos hverdict]
      exact ⟨rfl, rfl, rfl, rfl, rfl, rfl⟩
    · rw [if_neg hdate, if_neg hverdict]
      simp only [if_neg hdate, if_neg hverdict]
      exact ⟨rfl, rfl, rfl, rfl, rfl, rfl⟩

/-- Nothing is written under any other key. -/
theorem lookup_modifiedItems_of_notMem {key : Str} (h : key ∉ modifiedKeys) :
    (modifiedItems status compltTimestamp hashGiven hashType hashRtrnd retSuccType).lookup key =
      none := by
  rw [List.lookup_eq_none_iff]
  intro p hp
  rw [bne_iff_ne]
  rintro rfl
  exact h ((modifiedItems_sublist _ _ _ _ _ _).subset (List.mem_map_of_mem hp))

/-- The items that are never written keep their values. -/
theorem itemValue_modified_of_notMem {key : Str} (h : key ∉ modifiedKeys) (s : Db) (id : Str) :
    itemValue (putItems s id
        (modifiedItems status compltTimestamp hashGiven hashType hashRtrnd retSuccType)) id key =
      itemValue s id key := by
  rw [itemValue_putItems_self (modifiedItems_nodup _ _ _ _ _ _),
    lookup_modifiedItems_of_notMem _ _ _ _ _ _ h, Option.getD_none]

end Lookup

/-- **The record of the id** changes as it is told to. -/
theorem storedRecord_modified (s : Db) (e : Entry) (status : DownloadStatus)
    (compltTimestamp : Int) (hashGiven : Str) (hashType : HashType) (hashRtrnd : Str)
    (retSuccType : HashVerif) :
    storedRecord (putItems s e.1
        (modifiedItems status compltTimestamp hashGiven hashType hashRtrnd retSuccType)) e =
      modifiedRecord e.1 status compltTimestamp hashGiven hashType hashRtrnd retSuccType
        (storedRecord s e) := by
  set items := modifiedItems status compltTimestamp hashGiven hashType hashRtrnd retSuccType
  have hvalue : ∀ key, itemValue (putItems s e.1 items) e.1 key =
      (items.lookup key).getD (itemValue s e.1 key) :=
    itemValue_putItems_self (modifiedItems_nodup _ _ _ _ _ _) s e.1
  have hkept : ∀ key, key ∉ modifiedKeys →
      itemValue (putItems s e.1 items) e.1 key = itemValue s e.1 key :=
    fun key hkey => itemValue_modified_of_notMem _ _ _ _ _ _ hkey s e.1
  obtain ⟨hstat, hdate, htype, hgiven, hrtrnd, hsucc⟩ :=
    lookup_modifiedItems status compltTimestamp hashGiven hashType hashRtrnd retSuccType
  rw [modifiedRecord, if_pos (show (storedRecord s e).uniqueId = e.1 from rfl)]
  unfold storedRecord curlRecord
  -- five values are never written; of the other six each is the new one or the old one
  rw [hkept leveldbKeyCurlInsertDate (by decide), hkept leveldbKeyCurlStatmsg (by decide),
    hkept leveldbKeyCurlEffecUrl (by decide), hkept leveldbKeyCurlRespCode (by decide),
    hkept leveldbKeyCurlContLngth (by decide)]
  rw [hvalue leveldbKeyCurlStat, hstat, Option.getD_some, ofText_toText,
    convDlStatIntToEnum_toInt]
  rw [hvalue leveldbKeyCurlCompltDate, hdate, hvalue leveldbKeyCurlHashType, htype,
    hvalue leveldbKeyCurlHashValGiven, hgiven, hvalue leveldbKeyCurlHashValRtrnd, hrtrnd,
    hvalue leveldbKeyCurlHashSuccType, hsucc]
  by_cases hc : compltTimestamp > 0
  · by_cases hv : retSuccType ≠ .notApplicable
    · simp only [if_pos hc, if_pos hv, Option.getD_some, ofText_toText,
        convHashTypeIntToEnum_toInt, convHashVerifIntToEnum_toInt]
    · simp only [if_pos hc, if_neg hv, Option.getD_some, Option.getD_none, ofText_toText]
  · by_cases hv : retSuccType ≠ .notApplicable
    · simp only [if_neg hc, if_pos hv, Option.getD_some, Option.getD_none, ofText_toText,
        convHashTypeIntToEnum_toInt, convHashVerifIntToEnum_toInt]
    · simp only [if_neg hc, if_neg hv, Option.getD_none]

/-! ## The records afterwards -/

section Changes

variable {s : Db} {es : List Entry}

/-- A record can be read afterwards if it could be read before: its length is not
written. -/
theorem curlReadable_modified {id : Str} {e : Entry} (hcomplete : CurlComplete s e.1)
    (status : DownloadStatus) (compltTimestamp : Int) (hashGiven : Str) (hashType : HashType)
    (hashRtrnd : Str) (retSuccType : HashVerif) :
    CurlReadable (putItems s id
        (modifiedItems status compltTimestamp hashGiven hashType hashRtrnd retSuccType)) e ↔
      CurlReadable s e := by
  by_cases hid : id = e.1
  · subst hid
    have hlength : leveldbKeyCurlContLngth ∉ modifiedKeys := by decide
    rw [CurlReadable, CurlReadable, itemValue_modified_of_notMem _ _ _ _ _ _ hlength]
    have hcomplete' : CurlComplete (putItems s e.1
        (modifiedItems status compltTimestamp hashGiven hashType hashRtrnd retSuccType)) e.1 :=
      fun key hkey => putItems_isSome (hcomplete key hkey) _ _
    exact and_congr_left fun _ => ⟨fun _ => hcomplete, fun _ => hcomplete'⟩
  · refine (storedRecord_congr fun key hkey => ?_).2
    exact itemValue_putItems_of_ne (modifiedItems_plain _ _ _ _ _ _) (curlKeys_plain key hkey) hid

/-- Every record afterwards: the one of the id is changed, the other ones are as they were. -/
theorem storedRecord_after (id : Str) (e : Entry) (status : DownloadStatus)
    (compltTimestamp : Int) (hashGiven : Str) (hashType : HashType) (hashRtrnd : Str)
    (retSuccType : HashVerif) :
    storedRecord (putItems s id
        (modifiedItems status compltTimestamp hashGiven hashType hashRtrnd retSuccType)) e =
      modifiedRecord id status compltTimestamp hashGiven hashType hashRtrnd retSuccType
        (storedRecord s e) := by
  by_cases hid : e.1 = id
  · rw [← hid]
    exact storedRecord_modified s e _ _ _ _ _ _
  · rw [modifiedRecord, if_neg (show (storedRecord s e).uniqueId ≠ id from hid)]
    refine (storedRecord_congr fun key hkey => ?_).1
    exact itemValue_putItems_of_ne (modifiedItems_plain _ _ _ _ _ _) (curlKeys_plain key hkey)
      (Ne.symm hid)

theorem visible_of_mem_visible {e : Entry} (h : e ∈ visible es) : visible es = es := by
  unfold visible at h ⊢
  split at h
  · rename_i hparsable
    exact if_pos hparsable
  · exact absurd h List.not_mem_nil

theorem visible_nodup (h : (es.map Prod.fst).Nodup) : ((visible es).map Prod.fst).Nodup := by
  unfold visible
  split
  · exact h
  · exact List.nodup_nil

/-- Without an id nothing is written, and the answer is `false`. -/
theorem run_modifyCurlItem_none {fileLoc : Str} {isTorrent : Bool}
    (h : run (determineDownloadId fileLoc) s = (.ret ([], isTorrent), s))
    (status : DownloadStatus) (compltTimestamp : Int) (hashGiven : Str) (hashType : HashType)
    (hashRtrnd : Str) (retSuccType : HashVerif) :
    run (modifyCurlItem fileLoc status compltTimestamp hashGiven hashType hashRtrnd
        retSuccType) s = (.ret false, s) := by
  rw [modifyCurlItem, run_tryCatch, run_bind_ret h, if_neg (fun hne => hne rfl)]
  rfl

/-- **One download is updated.** What `readCurlItems` shows afterwards is what it showed
before, with the record of the id changed: also where it shows nothing, because a record
has a content length that is no number. -/
theorem modifyCurlItem_changes (ord ord' : IterOrder Entry) (hindex : Indexed s es)
    (hclean : ∀ e ∈ es, CleanEntry e) (hids : (es.map Prod.fst).Nodup)
    (hpaths : (es.map fun e => e.2.1).Nodup)
    (hcomplete : ∀ e ∈ es, e.2.2 = false → CurlComplete s e.1) {u p : Str}
    (hmem : (u, p, false) ∈ es) (status : DownloadStatus) (c : Int) (hashGiven : Str)
    (hashType : HashType) (hashRtrnd : Str) (v : HashVerif) {s' : Db}
    (hrun : run (modifyCurlItem p status c hashGiven hashType hashRtrnd v) s =
      (.ret true, s')) :
    ∃ records records', run (readCurlItems ord) s = (.ret records, s) ∧
      run (readCurlItems ord') s' = (.ret records', s') ∧
      records'.Perm
        (records.map (modifiedRecord u status c hashGiven hashType hashRtrnd v)) := by
  have hdetermine := run_determineDownloadId (hindex.stored (List.ne_nil_of_mem hmem)) hclean p
  -- the path is found, since the answer is `true`; so the entries are seen, and it is `u`
  have hfound : ∃ e ∈ visible es, e.2.1 = p ∧ determined (visible es) p = (e.1, e.2.2) := by
    rcases determined_of_nodup (visible_nodup hids) p with hfound | ⟨-, hnone⟩
    · exact hfound
    · rw [hnone] at hdetermine
      rw [run_modifyCurlItem_none hdetermine] at hrun
      cases hrun
  rcases hfound with ⟨e, he, hpath, hdetermined⟩
  obtain rfl : e = (u, p, false) :=
    List.inj_on_of_nodup_map hpaths (visible_subset he) hmem hpath
  have hvisible : visible es = es := visible_of_mem_visible he
  rw [hdetermined] at hdetermine
  rw [run_modifyCurlItem hdetermine (hclean _ hmem).uid.ne_nil] at hrun
  obtain ⟨-, rfl⟩ := Prod.mk.inj hrun
  set items := modifiedItems status c hashGiven hashType hashRtrnd v
  -- both readings see the same entries
  have hextract := run_extractDownloadIds hindex hclean false
  have hextract' := run_extractDownloadIds (hindex.putItems u items) hclean false
  rw [hvisible, extracted_of_nodup false hids] at hextract hextract'
  have hentry : ∀ d ∈ es.filter fun d => d.2.2 = false, IsCurl d ∧ CurlComplete s d.1 := by
    intro d hd
    obtain ⟨hin, hflag⟩ := List.mem_filter.mp hd
    have hflag : d.2.2 = false := by simpa using hflag
    exact ⟨⟨hflag, (hclean d hin).path.ne_nil⟩, hcomplete d hin hflag⟩
  by_cases hread : ∀ d ∈ es.filter fun d => d.2.2 = false, CurlReadable s d
  · obtain ⟨records, hrecords, hperm⟩ :=
      run_readCurlItems_perm ord hextract (fun d hd => (hentry d hd).1) hread
    obtain ⟨records', hrecords', hperm'⟩ :=
      run_readCurlItems_perm ord' hextract' (fun d hd => (hentry d hd).1) fun d hd =>
        (curlReadable_modified (hentry d hd).2 _ _ _ _ _ _).mpr (hread d hd)
    refine ⟨records, records', hrecords, hrecords', ?_⟩
    calc records'.Perm _ := hperm'
      _ = _ := ?_
      List.Perm _ _ := (hperm.map _).symm
    rw [List.map_map]
    exact List.map_congr_left fun d _ => storedRecord_after u d _ _ _ _ _ _
  · -- a length that is no number stays, and both readings show nothing
    push Not at hread
    obtain ⟨d, hd, hnot⟩ := hread
    have hempty := run_readCurlItems_empty ord hextract ⟨d, hd, (hentry d hd).1, hnot⟩
    have hempty' := run_readCurlItems_empty ord' hextract' ⟨d, hd, (hentry d hd).1,
      fun h => hnot ((curlReadable_modified (hentry d hd).2 _ _ _ _ _ _).mp h)⟩
    exact ⟨[], [], hempty, hempty', List.Perm.refl _⟩

/-- The sample download, completed at time 9 with a checksum that matches. -/
theorem modifyCurlItem_changes_sample :
    ∃ records records', run (readCurlItems (IterOrder.insertion Entry)) sampleDb =
        (.ret records, sampleDb) ∧
      run (readCurlItems (IterOrder.insertion Entry))
          (run (modifyCurlItem "/dl/a.iso".toList .completed 9 "ab".toList .sha256 "ab".toList
            .verified) sampleDb).2 = (.ret records',
          (run (modifyCurlItem "/dl/a.iso".toList .completed 9 "ab".toList .sha256 "ab".toList
            .verified) sampleDb).2) ∧
      records'.Perm (records.map (modifiedRecord (sampleId '1') .completed 9 "ab".toList .sha256
        "ab".toList .verified)) := by
  have hindex : Indexed sampleDb [(sampleId '1', "/dl/a.iso".toList, false)] := by
    unfold Indexed
    decide +kernel
  exact modifyCurlItem_changes _ _ hindex (by decide +kernel) (by decide +kernel)
    (by decide +kernel) (by unfold CurlComplete; decide +kernel) List.mem_cons_self _ _ _ _ _ _
    (Prod.ext (by decide +kernel) rfl)

end Changes

end FyreDL.Store
