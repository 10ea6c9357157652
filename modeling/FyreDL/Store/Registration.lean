import FyreDL.Store.Index

/-!
# FyreDL.Store.Registration — runs of `add_download_id`

An index is the work of a sequence of `add_download_id` calls. For calls with fresh
ids the index after each of them is the text of all entries so far, as long as the
paths are *plain*, that is free of the two delimiters (`run_registerAll`).

* `registerAll_decodes_iff` — the index decodes to what was registered if and only
  if all paths are plain. In one direction the specifications of the readers apply;
  in the other, whatever the text of the index, no reader ever returns a path with
  a delimiter in it (`extractDownloadIds_plain`).
-/

namespace FyreDL.Store

open Lib Lib.Kv Csv

/-! ## Calls -/

/-- One call of `add_download_id`. -/
structure Registration where
  drawn : Str
  path : Str
  isTorrent : Bool
  overrideUniqueId : Str
deriving DecidableEq, Repr

namespace Registration

/-- The id of the call. -/
def id (r : Registration) : Str := downloadKey r.drawn r.overrideUniqueId

/-- What the call registers. -/
def entry (r : Registration) : Entry := (r.id, r.path, r.isTorrent)

end Registration

/-- The calls one after the other. -/
def registerAll : List Registration → DbProg Unit
  | [] => pure ()
  | r :: rest => do
    let _ ← addDownloadId r.drawn r.path r.isTorrent r.overrideUniqueId
    registerAll rest

/-- A store without any key. -/
def emptyDb : Db := fun _ => none

/-- Ids as `createId` draws them, none drawn twice, and paths that are not empty. -/
structure Fresh (calls : List Registration) : Prop where
  ids : ∀ r ∈ calls, IsCreateId r.id
  distinct : (calls.map Registration.id).Nodup
  paths : ∀ r ∈ calls, r.path ≠ []

instance (calls : List Registration) : Decidable (Fresh calls) :=
  decidable_of_iff ((∀ r ∈ calls, IsCreateId r.id) ∧ (calls.map Registration.id).Nodup ∧
      ∀ r ∈ calls, r.path ≠ [])
    ⟨fun h => ⟨h.1, h.2.1, h.2.2⟩, fun h => ⟨h.ids, h.distinct, h.paths⟩⟩

section Runs

variable {calls : List Registration}

theorem Fresh.cleanEntry (h : Fresh calls) (hplain : ∀ r ∈ calls, Plain r.path) :
    ∀ e ∈ calls.map Registration.entry, CleanEntry e := by
  intro e he
  obtain ⟨r, hr, rfl⟩ := List.mem_map.mp he
  exact ⟨cleanCell_of_createId (h.ids r hr), ⟨h.paths r hr, (hplain r hr).1, (hplain r hr).2⟩⟩

theorem Fresh.createId (h : Fresh calls) : ∀ e ∈ calls.map Registration.entry, IsCreateId e.1 := by
  intro e he
  obtain ⟨r, hr, rfl⟩ := List.mem_map.mp he
  exact h.ids r hr

theorem Fresh.nodup (h : Fresh calls) :
    ((calls.map Registration.entry).map Prod.fst).Nodup := by
  rw [List.map_map]
  exact h.distinct

/-- The store after the calls on a store whose index has the entries `es`. -/
def registered (s : Db) (es : List Entry) (calls : List Registration) : Db :=
  if calls = [] then s
  else Function.update s leveldbStoreUniqueId
    (some (indexText (es ++ calls.map Registration.entry)))

theorem registered_indexed {s : Db} {es : List Entry} (h : Indexed s es) :
    Indexed (registered s es calls) (es ++ calls.map Registration.entry) := by
  unfold registered
  split
  · rename_i hnil
    rwa [hnil, List.map_nil, List.append_nil]
  · exact indexed_update s _

/-- Each call appends its entry. The induction is on the calls; what carries it is
that all entries so far are clean and, by the length of their ids, seen. -/
theorem run_registerAll (calls : List Registration) :
    ∀ {s : Db} {es : List Entry}, Indexed s es →
      (∀ e ∈ es ++ calls.map Registration.entry, CleanEntry e) →
      (∀ e ∈ es ++ calls.map Registration.entry, IsCreateId e.1) →
      run (registerAll calls) s = (.ret (), registered s es calls) := by
  induction calls with
  | nil =>
    intro s es h hclean hids
    rfl
  | cons r rest ih =>
    intro s es h hclean hids
    have hadd := run_addDownloadId h (fun e he => hclean e (List.mem_append_left _ he))
      r.drawn r.path r.isTorrent r.overrideUniqueId
    -- a call copies what it sees, and it sees all of them
    rw [visible_of_createId fun e he => hids e (List.mem_append_left _ he)] at hadd
    have hassoc : es ++ (r :: rest).map Registration.entry =
        (es ++ [r.entry]) ++ rest.map Registration.entry := by simp
    rw [registerAll, run_bind_ret hadd]
    rw [hassoc] at hclean hids
    refine (ih (indexed_update s (es ++ [r.entry])) hclean hids).trans ?_
    unfold registered
    rw [if_neg (List.cons_ne_nil r rest), hassoc]
    -- without further calls the store is the one behind this call
    split
    · rename_i hnil
      rw [hnil, List.map_nil, List.append_nil]
    · rw [Function.update_idem]

end Runs

/-! ## Decoding -/

/-- The index decodes to the entries: the two maps together are the entries, and
each of their paths is resolved to one of the entries that have it. -/
structure DecodesTo (s : Db) (es : List Entry) : Prop where
  maps : ∃ http torrents, run (extractDownloadIds false) s = (.ret http, s) ∧
    run (extractDownloadIds true) s = (.ret torrents, s) ∧ (http ++ torrents).Perm es
  resolved : ∀ e ∈ es, ∃ d ∈ es, d.2.1 = e.2.1 ∧
    run (determineDownloadId e.2.1) s = (.ret (d.1, d.2.2), s)

/-- The entries of the two kinds are all entries. -/
theorem filter_kinds_perm (es : List Entry) :
    ((es.filter fun e => e.2.2 = false) ++ es.filter fun e => e.2.2 = true).Perm es := by
  have := List.filter_append_perm (fun e : Entry => decide (e.2.2 = false)) es
  refine List.Perm.trans (List.Perm.append_left _ ?_) this
  refine List.Perm.of_eq (List.filter_congr fun e _ => ?_)
  cases e.2.2 <;> rfl

/-- An index of clean entries with distinct ids decodes to them. -/
theorem decodesTo_of_clean {s : Db} {es : List Entry} (h : Indexed s es)
    (hclean : ∀ e ∈ es, CleanEntry e) (hids : ∀ e ∈ es, IsCreateId e.1)
    (hnodup : (es.map Prod.fst).Nodup) : DecodesTo s es := by
  have hextract : ∀ b, run (extractDownloadIds b) s =
      (.ret (es.filter fun e => e.2.2 = b), s) := by
    intro b
    rw [run_extractDownloadIds h hclean b, visible_of_createId hids, extracted_of_nodup b hnodup]
  constructor
  · exact ⟨_, _, hextract false, hextract true, filter_kinds_perm es⟩
  · intro e he
    have hrun := run_determineDownloadId (h.stored (List.ne_nil_of_mem he)) hclean e.2.1
    rw [visible_of_createId hids] at hrun
    rcases determined_of_nodup hnodup e.2.1 with ⟨d, hd, hpath, hres⟩ | ⟨hnone, -⟩
    · exact ⟨d, hd, hpath, by rw [hrun, hres]⟩
    · exact absurd rfl (hnone e he)

/-! ## Any index text -/

/-- The strings of a row come from cells of the text, so none has a delimiter. -/
theorem indexRows_plain {text : Str} {rd : GkCsvReader} {st : Statics}
    {rows : List (Str × Str × Str)} {s s₁ s₂ : Db}
    (hopen : run (openIndex text) s = (.ret (rd, st), s₁))
    (hrows : run (indexRows rd st) s₁ = (.ret rows, s₂)) : ∀ row ∈ rows, Plain row.2.1 := by
  have hcells : ∀ cell ∈ rd.csvData, Plain cell.value := by
    unfold openIndex at hopen
    split at hopen
    · cases hopen
    · rename_i r hmake
      cases hopen
      exact make_plain hmake
  have hnil : Plain [] := by decide
  unfold indexRows at hrows
  split at hrows
  · cases hrows
  · rename_i table st' hall
    cases hrows
    intro row hrow
    obtain ⟨vs, hvs, rfl⟩ := List.mem_map.mp hrow
    have hvals := readAll_values hcells hnil hall vs hvs
    show Plain (vs.getD 1 [])
    rw [List.getD_eq_getElem?_getD]
    -- a row that is too short has the empty string there
    cases hv : vs[1]? with
    | none => exact hnil
    | some v => exact hvals v (List.mem_of_getElem? hv)

/-- Whatever the text of the index, no path in the map has a delimiter in it. -/
theorem extractDownloadIds_plain {s s' : Db} {torrentsOnly : Bool} {cache : List Entry}
    (h : run (extractDownloadIds torrentsOnly) s = (.ret cache, s')) :
    ∀ e ∈ cache, Plain e.2.1 := by
  unfold extractDownloadIds at h
  rw [run_locked, run_getOrEmpty] at h
  split at h
  · obtain ⟨⟨rd, st⟩, s₁, hopen, h⟩ := run_bind_eq_ret h
    obtain ⟨rows, s₂, hrows, h⟩ := run_bind_eq_ret h
    cases h
    have hplain := indexRows_plain hopen hrows
    -- the map is filled row by row
    refine List.foldlRecOn rows _
      (motive := fun cache : List Entry => ∀ e ∈ cache, Plain e.2.1)
      (fun e he => absurd he List.not_mem_nil) fun cache hcache row hrow => ?_
    dsimp only
    split
    · exact forall_mem_insertNew hcache (hplain row hrow)
    · exact hcache
  · cases h
    intro e he
    exact absurd he List.not_mem_nil

/-- An index that decodes to entries has plain paths only. -/
theorem DecodesTo.plain {s : Db} {es : List Entry} (h : DecodesTo s es) :
    ∀ e ∈ es, Plain e.2.1 := by
  obtain ⟨http, torrents, hhttp, htorrents, hperm⟩ := h.maps
  intro e he
  rcases List.mem_append.mp (hperm.mem_iff.mpr he) with hin | hin
  · exact extractDownloadIds_plain hhttp e hin
  · exact extractDownloadIds_plain htorrents e hin

/-! ## The index decodes to what was registered -/

/-- **Decoding.** After any sequence of registrations with fresh ids the index
decodes to them exactly when no path has a delimiter in it. -/
theorem registerAll_decodes_iff (calls : List Registration) (h : Fresh calls) :
    (∃ s, run (registerAll calls) emptyDb = (.ret (), s) ∧
        DecodesTo s (calls.map Registration.entry)) ↔
      ∀ r ∈ calls, Plain r.path := by
  constructor
  · rintro ⟨s, -, hdecodes⟩ r hr
    exact hdecodes.plain r.entry (List.mem_map_of_mem hr)
  · intro hplain
    have hclean := h.cleanEntry hplain
    have hempty : Indexed emptyDb [] := rfl
    refine ⟨_, run_registerAll calls hempty hclean h.createId, ?_⟩
    exact decodesTo_of_clean (registered_indexed hempty) hclean h.createId h.nodup

/-- An id that `createId` may draw. -/
def sampleId (digit : Char) : Str := List.replicate 31 digit

/-- Two files of one name, one of them a torrent. -/
theorem registerAll_decodes_pair :
    (∃ s, run (registerAll [⟨sampleId '1', "/dl/a.iso".toList, false, []⟩,
          ⟨[], "/dl/a.iso".toList, true, sampleId '2'⟩]) emptyDb = (.ret (), s) ∧
        DecodesTo s [(sampleId '1', "/dl/a.iso".toList, false),
          (sampleId '2', "/dl/a.iso".toList, true)]) ↔
      ∀ r ∈ [(⟨sampleId '1', "/dl/a.iso".toList, false, []⟩ : Registration),
          ⟨[], "/dl/a.iso".toList, true, sampleId '2'⟩], Plain r.path :=
  registerAll_decodes_iff [⟨sampleId '1', "/dl/a.iso".toList, false, []⟩,
    ⟨[], "/dl/a.iso".toList, true, sampleId '2'⟩] (by decide +kernel)

/-- A file name with a comma: the map shows another path, and the registered one is
not found in it. -/
theorem registerAll_comma :
    Fresh [⟨sampleId '1', "/dl/a,b".toList, false, []⟩] ∧
      (run (registerAll [⟨sampleId '1', "/dl/a,b".toList, false, []⟩]) emptyDb).1 = .ret () ∧
      (run (extractDownloadIds false)
        (run (registerAll [⟨sampleId '1', "/dl/a,b".toList, false, []⟩]) emptyDb).2).1 =
          .ret [(sampleId '1', "/dl/a".toList, false)] ∧
      ¬ ∃ s, run (registerAll [⟨sampleId '1', "/dl/a,b".toList, false, []⟩]) emptyDb =
          (.ret (), s) ∧ DecodesTo s [(sampleId '1', "/dl/a,b".toList, false)] := by
  refine ⟨by decide +kernel, by decide +kernel, by decide +kernel, ?_⟩
  rintro ⟨s, -, hdecodes⟩
  exact absurd (hdecodes.plain _ List.mem_cons_self).1 (by decide)

end FyreDL.Store
