import FyreDL.Store.Registration

/-!
# FyreDL.Store.Readers — the two readers of the index

`determine_download_id` puts the rows of the index into a `QMap`, where the last row of an
id stands; `extract_download_ids` puts those of one kind into an `unordered_map`, where the
first row of an id stays. They answer the same question in opposite directions.

* `ReadersAgree` — what the one finds the other one shows, and the other way round.
* `run_registerAll_kept` — the entries that are left after any sequence of registrations,
  whatever the length of the ids.
* `registerAll_agree_iff` — the sequences after which the readers agree.
-/

namespace FyreDL.Store

open Lib Lib.Kv Csv

/-- The answers of the two readers fit together. -/
structure ReadersAgree (s : Db) : Prop where
  shown : ∀ path id isTorrent, run (determineDownloadId path) s = (.ret (id, isTorrent), s) →
    id ≠ [] → ∃ cache, run (extractDownloadIds isTorrent) s = (.ret cache, s) ∧
      ∃ e ∈ cache, e.1 = id ∧ e.2.1 = path
  found : ∀ isTorrent cache, run (extractDownloadIds isTorrent) s = (.ret cache, s) →
    ∀ e ∈ cache, ∃ id isTorrent', run (determineDownloadId e.2.1) s = (.ret (id, isTorrent'), s) ∧
      id ≠ []

/-! ## What the readers make of the entries -/

/-- No later entry has the id. -/
def Latest (es : List Entry) (e : Entry) : Prop := lastBinding es e.1 = some e

/-- No earlier entry of its kind has the id. -/
def Earliest (es : List Entry) (e : Entry) : Prop :=
  firstBinding (es.filter fun d => d.2.2 = e.2.2) e.1 = some e

/-- The entry is the one that its path is resolved to: of the latest entries with this path
it has the least id. -/
def Resolved (es : List Entry) (e : Entry) : Prop :=
  Latest es e ∧ ∀ d, Latest es d → d.2.1 = e.2.1 → e.1 ≤ d.1

section Entries

variable {es : List Entry} {e : Entry}

/-- What `extract_download_ids` shows. -/
theorem mem_extracted_iff {torrentsOnly : Bool} :
    e ∈ extracted torrentsOnly es ↔ e.2.2 = torrentsOnly ∧ Earliest es e := by
  have hfirst := mem_insertNew_foldl (es.filter fun d => d.2.2 = torrentsOnly) (p := e) (m := [])
  have hmem : e ∈ extracted torrentsOnly es ↔
      firstBinding (es.filter fun d => d.2.2 = torrentsOnly) e.1 = some e := by
    rw [extracted, hfirst]
    simp
  rw [hmem]
  constructor
  · intro h
    have hflag : e.2.2 = torrentsOnly :=
      of_decide_eq_true (List.mem_filter.mp (firstBinding_mem h)).2
    refine ⟨hflag, ?_⟩
    rw [Earliest, hflag]
    exact h
  · rintro ⟨rfl, h⟩
    exact h

/-- What `determine_download_id` looks through. -/
theorem mem_orderedEntries : e ∈ orderedEntries es ↔ Latest es e := mem_insertOrd_foldl es e

/-- What `determine_download_id` answers. -/
theorem determined_eq (es : List Entry) (path : Str) :
    (∃ e, Resolved es e ∧ e.2.1 = path ∧ determined es path = (e.1, e.2.2)) ∨
      ((∀ e, Latest es e → e.2.1 ≠ path) ∧ determined es path = ([], false)) := by
  have hasc : Ascending (orderedEntries es) := (insertOrd_foldl es).1
  unfold determined
  cases hfind : (orderedEntries es).find? fun e => e.2.1 = path with
  | some e =>
    left
    rcases hasc.find?_eq_some.mp hfind with ⟨hmem, hpath, hleast⟩
    obtain rfl := of_decide_eq_true hpath
    refine ⟨e, ⟨mem_orderedEntries.mp hmem, fun d hd hsame => ?_⟩, rfl, rfl⟩
    exact hleast d (mem_orderedEntries.mpr hd) (decide_eq_true hsame)
  | none =>
    right
    refine ⟨fun e he hpath => ?_, rfl⟩
    exact List.find?_eq_none.mp hfind e (mem_orderedEntries.mpr he) (decide_eq_true hpath)

/-- A path is resolved to one entry only. -/
theorem Resolved.eq {d : Entry} (hd : Resolved es d) (he : Resolved es e)
    (hpath : d.2.1 = e.2.1) : d = e := by
  have hid : d.1 = e.1 := le_antisymm (hd.2 e he.1 hpath.symm) (he.2 d hd.1 hpath)
  have hlast := hd.1
  rw [Latest, hid, he.1] at hlast
  exact (Option.some.inj hlast).symm

theorem Resolved.determined_eq (he : Resolved es e) :
    determined es e.2.1 = (e.1, e.2.2) := by
  rcases Store.determined_eq es e.2.1 with ⟨d, hd, hpath, hres⟩ | ⟨hnone, -⟩
  · rw [hres, hd.eq he hpath]
  · exact absurd rfl (hnone e he.1)

/-- An answer with an id is an entry that the path is resolved to. -/
theorem resolved_of_determined {path id : Str} {isTorrent : Bool}
    (h : determined es path = (id, isTorrent)) (hne : id ≠ []) :
    Resolved es (id, path, isTorrent) := by
  rcases determined_eq es path with ⟨d, hd, rfl, hres⟩ | ⟨-, hres⟩
  · rw [h] at hres
    cases hres
    exact hd
  · rw [h] at hres
    cases hres
    exact absurd rfl hne

/-- The path of a latest entry is resolved, to one with an id no greater. -/
theorem Latest.determined_ne_nil (h : Latest es e) (hids : ∀ d ∈ es, d.1 ≠ []) :
    (determined es e.2.1).1 ≠ [] := by
  rcases determined_eq es e.2.1 with ⟨d, hd, -, hres⟩ | ⟨hnone, -⟩
  · rw [hres]
    exact hids d (lastBinding_mem hd.1)
  · exact absurd rfl (hnone e h)

end Entries

/-! ## The condition on the entries -/

/-- The entry that a path is resolved to is the earliest one of its id and kind, and the
path of every such earliest entry is that of a latest one. -/
structure Settled (es : List Entry) : Prop where
  shown : ∀ e, Resolved es e → Earliest es e
  found : ∀ e, Earliest es e → ∃ d, Latest es d ∧ d.2.1 = e.2.1

/-- Entries of one id with one path are settled. -/
theorem settled_of_onePath {es : List Entry}
    (h : ∀ d ∈ es, ∀ e ∈ es, d.1 = e.1 → d.2.1 = e.2.1) : Settled es := by
  constructor
  · -- the earliest entry of the same kind has the id, the path and the flag
    intro e he
    have hin : e ∈ es := lastBinding_mem he.1
    have hkind : e ∈ es.filter fun d => d.2.2 = e.2.2 :=
      List.mem_filter.mpr ⟨hin, decide_eq_true rfl⟩
    rcases exists_firstBinding (List.mem_map_of_mem hkind) with ⟨d, hd, hid⟩
    have hfilter := List.mem_filter.mp (firstBinding_mem hd)
    have hpath : d.2.1 = e.2.1 := h d hfilter.1 e hin hid
    have hflag : d.2.2 = e.2.2 := of_decide_eq_true hfilter.2
    have hsame : d = e := Prod.ext hid (Prod.ext hpath hflag)
    rw [Earliest, hd, hsame]
  · intro e he
    have hin : e ∈ es := (List.mem_filter.mp (firstBinding_mem he)).1
    rcases exists_lastBinding (List.mem_map_of_mem hin) with ⟨d, hd, hid⟩
    refine ⟨d, ?_, h d (lastBinding_mem hd) e hin hid⟩
    rw [Latest, hid]
    exact hd

section Store

variable {s : Db} {es : List Entry}

/-- **The readers of one index** agree exactly on settled entries. -/
theorem readersAgree_iff (h : s leveldbStoreUniqueId = some (indexText es))
    (hclean : ∀ e ∈ es, CleanEntry e) : ReadersAgree s ↔ Settled (visible es) := by
  have hindex : Indexed s es := by rw [Indexed, h, Option.getD_some]
  have hids : ∀ d ∈ visible es, d.1 ≠ [] := fun d hd => (hclean d (visible_subset hd)).uid.ne_nil
  have hextract := run_extractDownloadIds hindex hclean
  have hdetermine := run_determineDownloadId h hclean
  constructor
  · intro hagree
    constructor
    · intro e he
      have hanswer : run (determineDownloadId e.2.1) s = (.ret (e.1, e.2.2), s) := by
        rw [hdetermine, he.determined_eq]
      -- so the map has an entry of this id and path, the earliest of its kind
      rcases hagree.shown _ _ _ hanswer (hids e (lastBinding_mem he.1)) with
        ⟨cache, hcache, d, hd, hid, hpath⟩
      rw [hextract] at hcache
      cases hcache
      rcases mem_extracted_iff.mp hd with ⟨hflag, hfirst⟩
      have hsame : d = e := Prod.ext hid (Prod.ext hpath hflag)
      rwa [hsame] at hfirst
    · intro e he
      rcases hagree.found e.2.2 _ (hextract e.2.2) e (mem_extracted_iff.mpr ⟨rfl, he⟩) with
        ⟨id, isTorrent, hanswer, hne⟩
      rw [hdetermine] at hanswer
      have hresolved := resolved_of_determined (Outcome.ret.inj (congrArg Prod.fst hanswer)) hne
      exact ⟨_, hresolved.1, rfl⟩
  · intro hsettled
    constructor
    · intro path id isTorrent hanswer hne
      rw [hdetermine] at hanswer
      have hresolved := resolved_of_determined (Outcome.ret.inj (congrArg Prod.fst hanswer)) hne
      have hfirst := hsettled.shown _ hresolved
      exact ⟨_, hextract isTorrent, _, mem_extracted_iff.mpr ⟨rfl, hfirst⟩, rfl, rfl⟩
    · intro isTorrent cache hcache e he
      rw [hextract] at hcache
      cases hcache
      rcases hsettled.found e (mem_extracted_iff.mp he).2 with ⟨d, hd, hpath⟩
      refine ⟨_, _, hdetermine _, ?_⟩
      rw [← hpath]
      exact hd.determined_ne_nil hids

end Store

/-! ## Any sequence of registrations -/

/-- Ids that are digits, and clean paths. An id may come more than once. -/
structure Numbered (calls : List Registration) : Prop where
  ids : ∀ r ∈ calls, r.id ≠ [] ∧ ∀ c ∈ r.id, c.isDigit = true
  paths : ∀ r ∈ calls, CleanCell r.path

/-- The entries of the index after the calls: each one keeps what it sees. -/
def keptEntries (es : List Entry) : List Registration → List Entry
  | [] => es
  | r :: rest => keptEntries (visible es ++ [r.entry]) rest

/-- The entries that a reader sees after the calls. -/
def seen (calls : List Registration) : List Entry := visible (keptEntries [] calls)

section Runs

variable {calls : List Registration}

theorem Numbered.cleanEntry (h : Numbered calls) {r : Registration} (hr : r ∈ calls) :
    CleanEntry r.entry := by
  rcases h.ids r hr with ⟨hne, hdigits⟩
  refine ⟨⟨hne, fun hc => ?_, fun hl => ?_⟩, h.paths r hr⟩
  · exact absurd (hdigits _ hc) (by decide)
  · exact absurd (hdigits _ hl) (by decide)

/-- What is kept was there or was registered. -/
theorem mem_keptEntries {e : Entry} (calls : List Registration) :
    ∀ {es : List Entry}, e ∈ keptEntries es calls → e ∈ es ∨ e ∈ calls.map Registration.entry := by
  induction calls with
  | nil => exact fun h => .inl h
  | cons r rest ih =>
    intro es h
    rw [List.map_cons, List.mem_cons]
    rcases ih h with hin | hin
    · rcases List.mem_append.mp hin with hold | hnew
      · exact .inl (visible_subset hold)
      · exact .inr (.inl (List.mem_singleton.mp hnew))
    · exact .inr (.inr hin)

/-- **A run of registrations.** The index has the entries that were kept. The induction is
on the calls; what carries it is that the entries so far are clean. -/
theorem run_registerAll_kept (calls : List Registration) :
    ∀ {s : Db} {es : List Entry}, Indexed s es → (∀ e ∈ es, CleanEntry e) →
      (∀ r ∈ calls, CleanEntry r.entry) →
      ∃ s', run (registerAll calls) s = (.ret (), s') ∧ Indexed s' (keptEntries es calls) ∧
        (calls ≠ [] → s' leveldbStoreUniqueId = some (indexText (keptEntries es calls))) := by
  induction calls with
  | nil => exact fun h _ _ => ⟨_, rfl, h, fun hne => absurd rfl hne⟩
  | cons r rest ih =>
    intro s es h hclean hcalls
    have hadd := run_addDownloadId h hclean r.drawn r.path r.isTorrent r.overrideUniqueId
    have hnext : ∀ e ∈ visible es ++ [r.entry], CleanEntry e := by
      intro e he
      rcases List.mem_append.mp he with hold | hnew
      · exact hclean e (visible_subset hold)
      · exact List.mem_singleton.mp hnew ▸ hcalls r List.mem_cons_self
    have hindex := indexed_update s (visible es ++ [r.entry])
    rw [registerAll, run_bind_ret hadd]
    rcases ih hindex hnext fun q hq => hcalls q (List.mem_cons_of_mem _ hq) with
      ⟨s', hrun, hindex', hstored⟩
    refine ⟨s', hrun, hindex', ?_⟩
    intro _
    rw [keptEntries]
    by_cases hrest : rest = []
    · -- the call is the last one
      subst hrest
      cases hrun
      exact Function.update_self _ _ _
    · exact hstored hrest

/-- Without an index there is nothing to disagree about. -/
theorem readersAgree_emptyDb : ReadersAgree emptyDb := by
  have hempty : Indexed emptyDb [] := rfl
  have hextract := run_extractDownloadIds hempty fun e he => absurd he List.not_mem_nil
  constructor
  · intro path id isTorrent hanswer
    cases hanswer
  · intro isTorrent cache hcache e he
    rw [hextract] at hcache
    cases hcache
    exact absurd he List.not_mem_nil

/-- **The agreement of the readers** after any sequence of registrations: the calls must
leave settled entries. -/
theorem registerAll_agree_iff (h : Numbered calls) :
    (∃ s, run (registerAll calls) emptyDb = (.ret (), s) ∧ ReadersAgree s) ↔
      Settled (seen calls) := by
  have hclean : ∀ r ∈ calls, CleanEntry r.entry := fun r hr => h.cleanEntry hr
  have hempty : Indexed emptyDb [] := rfl
  rcases run_registerAll_kept calls hempty (fun e he => absurd he List.not_mem_nil) hclean with
    ⟨s, hrun, -, hstored⟩
  have hagree : ReadersAgree s ↔ Settled (seen calls) := by
    by_cases hnil : calls = []
    · -- there is no index yet, and `determine_download_id` throws
      subst hnil
      cases hrun
      refine iff_of_true readersAgree_emptyDb (settled_of_onePath fun d hd => ?_)
      exact absurd hd List.not_mem_nil
    · refine readersAgree_iff (hstored hnil) ?_
      intro e he
      rcases mem_keptEntries calls he with hin | hin
      · exact absurd hin List.not_mem_nil
      · rcases List.mem_map.mp hin with ⟨r, hr, rfl⟩
        exact hclean r hr
  rw [← hagree]
  constructor
  · rintro ⟨s', hrun', h'⟩
    rw [hrun] at hrun'
    cases hrun'
    exact h'
  · exact fun h' => ⟨s, hrun, h'⟩

/-- An id that is registered again for its old path does no harm. -/
theorem settled_seen_of_onePath (h : ∀ q ∈ calls, ∀ r ∈ calls, q.id = r.id → q.path = r.path) :
    Settled (seen calls) := by
  have hseen : ∀ e ∈ seen calls, ∃ r ∈ calls, r.entry = e := by
    intro e he
    rcases mem_keptEntries calls (visible_subset he) with hin | hin
    · exact absurd hin List.not_mem_nil
    · exact List.mem_map.mp hin
  refine settled_of_onePath ?_
  intro d hd e he hid
  rcases hseen d hd with ⟨q, hq, rfl⟩
  rcases hseen e he with ⟨r, hr, rfl⟩
  exact h q hq r hr hid

end Runs

/-- One id, registered for a first and then for a second path. -/
def movedCalls : List Registration :=
  [⟨[], "/dl/a.iso".toList, false, sampleId '1'⟩, ⟨[], "/dl/b.iso".toList, false, sampleId '1'⟩]

theorem numbered_movedCalls : Numbered movedCalls := by
  have hid : ∀ r ∈ movedCalls, r.id = sampleId '1' := by
    intro r hr
    rcases List.mem_cons.mp hr with rfl | hr
    · rfl
    · rw [List.mem_singleton.mp hr]
      rfl
  have hpath : ∀ r ∈ movedCalls, CleanCell r.path := by decide
  refine ⟨fun r hr => ?_, hpath⟩
  rw [hid r hr]
  refine ⟨by decide, ?_⟩
  intro c hc
  rw [List.eq_of_mem_replicate hc]
  rfl

/-- The second path is resolved to the id, which is shown with the first path. -/
theorem registerAll_disagree :
    Numbered movedCalls ∧
      (run (determineDownloadId "/dl/b.iso".toList)
        (run (registerAll movedCalls) emptyDb).2).1 = .ret (sampleId '1', false) ∧
      (run (extractDownloadIds false) (run (registerAll movedCalls) emptyDb).2).1 =
        .ret [(sampleId '1', "/dl/a.iso".toList, false)] ∧
      ¬ ∃ s, run (registerAll movedCalls) emptyDb = (.ret (), s) ∧ ReadersAgree s := by
  have hdetermine : (run (determineDownloadId "/dl/b.iso".toList)
      (run (registerAll movedCalls) emptyDb).2).1 = .ret (sampleId '1', false) := by
    decide +kernel
  have hextract : (run (extractDownloadIds false) (run (registerAll movedCalls) emptyDb).2).1 =
      .ret [(sampleId '1', "/dl/a.iso".toList, false)] := by
    decide +kernel
  refine ⟨numbered_movedCalls, hdetermine, hextract, ?_⟩
  rintro ⟨s, hrun, hagree⟩
  rw [hrun] at hdetermine hextract
  have hanswer : run (determineDownloadId "/dl/b.iso".toList) s =
      (.ret (sampleId '1', false), s) :=
    Prod.ext hdetermine (run_readsOnly (readsOnly_determineDownloadId _) s)
  rcases hagree.shown _ _ _ hanswer (by decide) with ⟨cache, hcache, e, he, -, hpath⟩
  rw [hcache] at hextract
  cases hextract
  rw [List.mem_singleton.mp he] at hpath
  exact absurd hpath (by decide)

/-- The condition for these two calls. -/
theorem registerAll_agree_moved :
    (∃ s, run (registerAll movedCalls) emptyDb = (.ret (), s) ∧ ReadersAgree s) ↔
      Settled (seen movedCalls) :=
  registerAll_agree_iff numbered_movedCalls

end FyreDL.Store
