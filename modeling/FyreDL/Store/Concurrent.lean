import FyreDL.Store.NewRow
import FyreDL.Store.Registration
import FyreDL.Lib.KvThreads

/-!
# FyreDL.Store.Concurrent — a registration and a deletion at the same time

`add_download_id` reads the index and writes it within one critical section,
`del_download_id` reads it in one and writes it in another, and the mutex of these sections
is one per `CmnRoutines` object, not one per database. Both replace the whole index by what
they make of the value they have read.

* `readModifyWrite_client` — both are such threads, whatever the index is.
* `registered_iff` — the ids that the two maps of an index show.
* `concurrent_update_iff` — whatever the mutexes are, the index is right at the end exactly if
  one call accesses the store only after the other, and the line of the new download can be
  read as far as the other call needs it.
* `concurrent_update_lost` — a registration that is lost within one object.
-/

namespace FyreDL.Store

open Lib Lib.Kv Csv

/-! ## The two calls -/

/-- The call of `add_download_id` and the call of `del_download_id`. -/
inductive Client where
  | add
  | del
deriving DecidableEq, Repr

/-- The other client. -/
def Client.other : Client → Client
  | .add => .del
  | .del => .add

theorem Client.other_ne (c : Client) : c.other ≠ c := by
  cases c with
  | add => exact Client.noConfusion
  | del => exact Client.noConfusion

theorem Client.eq_or_other (c d : Client) : d = c ∨ d = c.other := by
  cases c <;> cases d <;> decide

/-- What the clients run: the registration of a download and the deletion of an HTTP/FTP one. -/
def clientProg (ord : IterOrder Entry) (r : Registration) (uniqueId : Str) : Client → DbProg Unit
  | .add => addDownloadId r.drawn r.path r.isTorrent r.overrideUniqueId >>= fun _ => .ret ()
  | .del => delDownloadId ord uniqueId false >>= fun _ => .ret ()

/-- The entries that `del_download_id` writes back. -/
def kept (ord : IterOrder Entry) (uniqueId : Str) (es : List Entry) : List Entry :=
  (ord.order (extracted false es)).filter fun e => e.1 ≠ uniqueId

/-- What the clients make of the text that they have read, if they can read it. -/
def clientWrites (ord : IterOrder Entry) (r : Registration) (uniqueId : Str) :
    Client → Str → Option Str
  | .add, text => (textRows text).map fun rows => copiedLines rows ++ entryLine r.entry
  | .del, text => (textEntries text).map fun es => indexText (kept ord uniqueId es)

/-- The stored text; that there is none stands for the empty one. -/
def TextOf (text : Str) (v : Option Str) : Prop := v.getD [] = text

/-- The id is in one of the two maps of the index. -/
def Registered (s : Db) (id : Str) : Prop :=
  ∃ http torrents, run (extractDownloadIds false) s = (.ret http, s) ∧
    run (extractDownloadIds true) s = (.ret torrents, s) ∧
    id ∈ (http ++ torrents).map Prod.fst

/-- Both calls have had their effect on an index that had the entries `es`, and no other. -/
structure Merged (es : List Entry) (u v : Str) (s : Db) : Prop where
  added : Registered s u
  deleted : ¬ Registered s v
  kept : ∀ e ∈ es, e.1 ≠ v → Registered s e.1

/-- The accesses of one client are all in front of those of the other. -/
def Before (c : Client) (accesses : List Client) : Prop :=
  accesses = (accesses.filter (· = c)) ++ accesses.filter (· ≠ c)

instance (c : Client) (accesses : List Client) : Decidable (Before c accesses) :=
  inferInstanceAs (Decidable (_ = _))

/-- The rows of the index, as a reader gets them, are those of the entries. -/
def ReadsAs (text : Str) (es : List Entry) : Prop := textRows text = some (es.map entryStrings)

instance (text : Str) (es : List Entry) : Decidable (ReadsAs text es) :=
  inferInstanceAs (Decidable (_ = _))

/-- From the line of the registration a reader gets its id, and not the deleted one. -/
def LineFound (r : Registration) (v : Str) : Prop :=
  ∃ es, lineRead r.entry = some es ∧ r.id ∈ es.map Prod.fst ∧ v ∉ es.map Prod.fst

/-- It gets the id, as that of an HTTP/FTP download. -/
def LineHttp (r : Registration) : Prop :=
  ∃ es, lineRead r.entry = some es ∧ ∃ e ∈ es, e.1 = r.id ∧ e.2.2 = false

/-- A clean path leaves the line to be found. -/
theorem lineFound_clean {r : Registration} (h : CleanEntry r.entry) {v : Str} (hne : r.id ≠ v) :
    LineFound r v := by
  refine ⟨_, lineRead_clean h, List.mem_singleton_self _, ?_⟩
  intro hmem
  exact hne (List.mem_singleton.mp hmem).symm

/-- With one the flag is read as it was written. -/
theorem lineHttp_clean {r : Registration} (h : CleanEntry r.entry) :
    LineHttp r ↔ r.isTorrent = false := by
  constructor
  · rintro ⟨es, hread, e, he, -, hkind⟩
    rw [lineRead_clean h] at hread
    cases hread
    rw [List.mem_singleton.mp he] at hkind
    exact hkind
  · intro hkind
    exact ⟨_, lineRead_clean h, r.entry, List.mem_singleton_self _, rfl, hkind⟩

section Clients

variable {es : List Entry} {ord : IterOrder Entry} {r : Registration} {uniqueId : Str}

/-- The ids of the map of one kind of download. -/
theorem mem_extracted {torrentsOnly : Bool} {id : Str} :
    id ∈ (extracted torrentsOnly es).map Prod.fst ↔
      ∃ e ∈ es, e.2.2 = torrentsOnly ∧ e.1 = id := by
  rw [extracted, mem_keys_insertNew_foldl]
  constructor
  · rintro (hnil | hmem)
    · exact absurd hnil List.not_mem_nil
    · rcases List.mem_map.mp hmem with ⟨e, he, rfl⟩
      rcases List.mem_filter.mp he with ⟨hin, hkind⟩
      exact ⟨e, hin, of_decide_eq_true hkind, rfl⟩
  · rintro ⟨e, hin, hkind, rfl⟩
    exact .inr (List.mem_map_of_mem (List.mem_filter.mpr ⟨hin, decide_eq_true hkind⟩))

theorem forall_mem_extracted {P : Entry → Prop} {torrentsOnly : Bool}
    (h : ∀ e ∈ es, e.2.2 = torrentsOnly → P e) : ∀ e ∈ extracted torrentsOnly es, P e := by
  refine List.foldlRecOn (es.filter fun e => e.2.2 = torrentsOnly) _
    (motive := fun cache : List Entry => ∀ e ∈ cache, P e) ?_ ?_
  · intro e he
    exact absurd he List.not_mem_nil
  · intro cache hcache e he
    rcases List.mem_filter.mp he with ⟨hin, hkind⟩
    exact forall_mem_insertNew hcache (h e hin (of_decide_eq_true hkind))

/-- The ids that `del_download_id` writes back. -/
theorem mem_kept {id : Str} :
    id ∈ (kept ord uniqueId es).map Prod.fst ↔
      (∃ e ∈ es, e.2.2 = false ∧ e.1 = id) ∧ id ≠ uniqueId := by
  rw [← mem_extracted]
  constructor
  · intro hmem
    rcases List.mem_map.mp hmem with ⟨e, he, rfl⟩
    rcases List.mem_filter.mp he with ⟨hin, hne⟩
    rw [ord.mem_order] at hin
    exact ⟨List.mem_map_of_mem hin, of_decide_eq_true hne⟩
  · rintro ⟨hmem, hne⟩
    rcases List.mem_map.mp hmem with ⟨e, he, rfl⟩
    rw [← ord.mem_order] at he
    exact List.mem_map_of_mem (List.mem_filter.mpr ⟨he, decide_eq_true hne⟩)

theorem forall_mem_kept {P : Entry → Prop} (h : ∀ e ∈ es, e.2.2 = false → P e) :
    ∀ e ∈ kept ord uniqueId es, P e := by
  intro e he
  have hin := (List.mem_filter.mp he).1
  rw [ord.mem_order] at hin
  exact forall_mem_extracted h e hin

/-- **The clients.** Both read the index once and replace it once, if they can read it. -/
theorem readModifyWrite_client (c : Client) :
    ReadModifyWrite leveldbStoreUniqueId TextOf (clientWrites ord r uniqueId c)
      (clientProg ord r uniqueId c) := by
  cases c with
  | add =>
    rcases copiedIndex_eq with ⟨cont, hprog, hcont⟩
    rw [clientProg, addDownloadId, hprog]
    refine ⟨_, rfl, ?_⟩
    rintro text v rfl
    rw [clientWrites]
    cases hrows : textRows (v.getD []) with
    | some rows =>
      refine ⟨copiedLines rows ++ entryLine r.entry, rfl, ?_⟩
      -- the write follows in the same critical section
      simp only [bind, Prog.bind, (hcont v).1 rows hrows]
      exact ⟨_, _, .inl rfl, rfl⟩
    | none =>
      rcases (hcont v).2 hrows with hhang | ⟨what, hthrow⟩
      · left
        simp only [bind, Prog.bind, hhang]
        rfl
      · right
        simp only [bind, Prog.bind, hthrow]
        exact ⟨what, .inl rfl⟩
  | del =>
    rcases extractDownloadIds_eq false with ⟨cont, hprog, hcont⟩
    rw [clientProg, delDownloadId, hprog]
    refine ⟨_, rfl, ?_⟩
    rintro text v rfl
    rw [clientWrites, textEntries]
    cases hrows : textRows (v.getD []) with
    | some rows =>
      refine ⟨indexText (kept ord uniqueId (rows.map rowEntry)), rfl, ?_⟩
      -- the mutex is released and taken again
      simp only [Prog.bind, (hcont v).1 rows hrows]
      exact ⟨_, _, .inr (.inr rfl), rfl⟩
    | none =>
      rcases (hcont v).2 hrows with hhang | ⟨what, hthrow⟩
      · left
        simp only [Prog.bind, hhang]
      · right
        simp only [Prog.bind, hthrow]
        exact ⟨what, .inl rfl⟩

/-- The maps of an index that can be read, and that there are none otherwise. -/
theorem run_extractDownloadIds_text {s : Db} (torrentsOnly : Bool) :
    (∀ es, textEntries ((s leveldbStoreUniqueId).getD []) = some es →
      run (extractDownloadIds torrentsOnly) s = (.ret (extracted torrentsOnly es), s)) ∧
    (textEntries ((s leveldbStoreUniqueId).getD []) = none →
      ∀ cache, run (extractDownloadIds torrentsOnly) s ≠ (.ret cache, s)) := by
  constructor
  · intro es hread
    rcases Option.map_eq_some_iff.mp hread with ⟨rows, hrows, rfl⟩
    exact (run_extractDownloadIds_rows torrentsOnly).1 rows hrows
  · intro hread cache
    exact (run_extractDownloadIds_rows torrentsOnly).2 (Option.map_eq_none_iff.mp hread) cache s

/-- The ids registered in an index are those of its rows. -/
theorem registered_iff {s : Db} {id : Str} :
    Registered s id ↔
      ∃ es, textEntries ((s leveldbStoreUniqueId).getD []) = some es ∧ id ∈ es.map Prod.fst := by
  constructor
  · rintro ⟨http, torrents, hhttp, htorrents, hmem⟩
    cases hread : textEntries ((s leveldbStoreUniqueId).getD []) with
    | none => exact absurd hhttp ((run_extractDownloadIds_text false).2 hread http)
    | some es =>
      rw [(run_extractDownloadIds_text false).1 es hread] at hhttp
      rw [(run_extractDownloadIds_text true).1 es hread] at htorrents
      cases hhttp
      cases htorrents
      refine ⟨es, rfl, ?_⟩
      -- both maps show the entries, each those of its kind
      rw [List.map_append, List.mem_append, mem_extracted, mem_extracted] at hmem
      rcases hmem with ⟨e, he, -, rfl⟩ | ⟨e, he, -, rfl⟩
      · exact List.mem_map_of_mem he
      · exact List.mem_map_of_mem he
  · rintro ⟨es, hread, hmem⟩
    rcases List.mem_map.mp hmem with ⟨e, he, rfl⟩
    refine ⟨_, _, (run_extractDownloadIds_text false).1 es hread,
      (run_extractDownloadIds_text true).1 es hread, ?_⟩
    rw [List.map_append, List.mem_append, mem_extracted, mem_extracted]
    cases hkind : e.2.2 with
    | false => exact .inl ⟨e, he, hkind, rfl⟩
    | true => exact .inr ⟨e, he, hkind, rfl⟩

end Clients

/-! ## All interleavings -/

/-- Two accesses of each client: those of one client in front of those of the other, or first
the reads of both and then their writes. -/
theorem four_accesses {accesses : List Client} (h : ∀ c, accesses.count c = 2) :
    (∃ c : Client, accesses = [c, c, c.other, c.other]) ∨
      ∃ c d : Client, accesses = [c, c.other, d, d.other] := by
  have hlength : ∀ l : List Client, l.length = l.count .add + l.count .del := by
    intro l
    induction l with
    | nil => rfl
    | cons c l ih =>
      cases c with
      | add => simp [ih]; omega
      | del => simp [ih]; omega
  have hfour := hlength accesses
  rw [h, h] at hfour
  rcases List.length_eq_four.mp hfour with ⟨a, b, c, d, rfl⟩
  have hadd := h .add
  -- sixteen lists, of which those with three or four accesses of one client are out
  cases a <;> cases b <;> cases c <;> cases d <;>
    first
    | exact absurd hadd (by decide)
    | exact .inl ⟨_, rfl⟩
    | exact .inr ⟨_, _, rfl⟩

section Values

variable {X : Type} {f : Client → X → Option X} {x : X}

/-- With one client behind the other, it works on what the other has left. -/
theorem value_serial {c : Client}
    (h : ∀ t, ([c, c, c.other, c.other].foldl (View.access f) (View.start x)).stage t = .wrote) :
    ∃ y, f c x = some y ∧
      f c.other y = some ([c, c, c.other, c.other].foldl (View.access f) (View.start x)).value := by
  have hne := c.other_ne
  have hfirst := h c
  have hsecond := h c.other
  simp only [List.foldl_cons, List.foldl_nil] at hfirst hsecond ⊢
  rw [View.access_of_ne hne.symm, View.access_of_ne hne.symm] at hfirst
  -- the second client finds what the first one has left
  have hfresh : (((View.start x).access f c).access f c).stage c.other = .fresh := by
    rw [View.access_of_ne hne, View.access_of_ne hne]
    rfl
  have hread : ((View.start x).access f c).stage c = .read x := View.stage_access_fresh rfl
  exact ⟨_, View.access_wrote hread hfirst,
    View.access_wrote (View.stage_access_fresh hfresh) hsecond⟩

/-- With both reads in front, the client that writes last prevails. -/
theorem value_overwritten {c d : Client}
    (h : ∀ t, ([c, c.other, d, d.other].foldl (View.access f) (View.start x)).stage t = .wrote) :
    f d.other x =
      some ([c, c.other, d, d.other].foldl (View.access f) (View.start x)).value := by
  have hlast := h d.other
  simp only [List.foldl_cons, List.foldl_nil] at hlast ⊢
  -- each of the two has read the first value
  have hboth : ∀ t, (((View.start x).access f c).access f c.other).stage t = .read x := by
    intro t
    rcases c.eq_or_other t with rfl | rfl
    · rw [View.access_of_ne t.other_ne.symm]
      exact View.stage_access_fresh rfl
    · have hfresh : ((View.start x).access f c).stage c.other = .fresh :=
        View.access_of_ne c.other_ne
      have hvalue : ((View.start x).access f c).value = x := by
        rw [View.access_fresh rfl]
        rfl
      rw [View.stage_access_fresh hfresh, hvalue]
  generalize ((View.start x).access f c).access f c.other = w at hboth hlast ⊢
  have hread : (w.access f d).stage d.other = .read x := by
    rw [View.access_of_ne d.other_ne]
    exact hboth d.other
  exact View.access_wrote hread hlast

end Values

section Updates

variable {es : List Entry} {ord : IterOrder Entry} {r : Registration} {v : Str} {s : Db}
  {text : Str}

theorem ReadsAs.entries (h : ReadsAs text es) : textEntries text = some es := by
  rw [textEntries, h, Option.map_some, List.map_map]
  simp [Function.comp_def]

theorem ReadsAs.clean (h : ReadsAs text es) : ∀ e ∈ es, CleanEntry e := by
  have hclean := textRows_clean h
  rw [List.map_map] at hclean
  simpa [Function.comp_def] using hclean

theorem readsAs_indexText (hclean : ∀ e ∈ es, CleanEntry e) :
    ReadsAs (indexText es) (visible es) := textRows_indexText hclean

/-- What a registration writes on an index that reads as entries. -/
theorem clientWrites_add (h : ReadsAs text es) :
    clientWrites ord r v .add text = some (indexText es ++ entryLine r.entry) := by
  have hrows : textRows text = some (es.map entryStrings) := h
  rw [clientWrites, hrows, Option.map_some, copiedLines_entries h.clean]

theorem clientWrites_del (h : ReadsAs text es) :
    clientWrites ord r v .del text = some (indexText (kept ord v es)) := by
  rw [clientWrites, h.entries, Option.map_some]

/-- What a deletion has written can be read. -/
theorem readsAs_kept (h : ReadsAs text es) (hids : ∀ e ∈ es, IsCreateId e.1) :
    ReadsAs (indexText (kept ord v es)) (kept ord v es) := by
  have hclean : ∀ e ∈ kept ord v es, CleanEntry e := forall_mem_kept fun e he _ => h.clean e he
  have hvisible := readsAs_indexText hclean
  rwa [visible_of_createId (forall_mem_kept fun e he _ => hids e he)] at hvisible

/-- The ids of an index behind a registration. -/
theorem registered_added (hread : ReadsAs text es) (hids : ∀ e ∈ es, IsCreateId e.1)
    (hhttp : ∀ e ∈ es, e.2.2 = false) (hr : IsCreateId r.id)
    (h : TextOf (indexText es ++ entryLine r.entry) (s leveldbStoreUniqueId)) {id : Str} :
    Registered s id ↔
      ∃ new, lineRead r.entry = some new ∧ (id ∈ es.map Prod.fst ∨ id ∈ new.map Prod.fst) := by
  rcases textEntries_append hread.clean hids hhttp (show IsCreateId r.entry.1 from hr) with
    ⟨es', hids', -, hentries⟩
  have htext : (s leveldbStoreUniqueId).getD [] = indexText es ++ entryLine r.entry := h
  rw [registered_iff, htext, hentries]
  constructor
  · rintro ⟨all, hall, hmem⟩
    rcases Option.map_eq_some_iff.mp hall with ⟨new, hnew, rfl⟩
    rw [List.map_append, List.mem_append, hids'] at hmem
    exact ⟨new, hnew, hmem⟩
  · rintro ⟨new, hnew, hmem⟩
    refine ⟨es' ++ new, by rw [hnew]; rfl, ?_⟩
    rw [List.map_append, List.mem_append, hids']
    exact hmem

/-- The ids of an index behind a deletion. -/
theorem registered_kept (hclean : ∀ e ∈ es, CleanEntry e)
    (h : TextOf (indexText (kept ord v es)) (s leveldbStoreUniqueId)) {id : Str}
    (hid : IsCreateId id) :
    Registered s id ↔ (∃ e ∈ es, e.2.2 = false ∧ e.1 = id) ∧ id ≠ v := by
  have hkept : ∀ e ∈ kept ord v es, CleanEntry e := forall_mem_kept fun e he _ => hclean e he
  have htext : (s leveldbStoreUniqueId).getD [] = indexText (kept ord v es) := h
  rw [registered_iff, htext, (readsAs_indexText hkept).entries, ← mem_kept]
  constructor
  · rintro ⟨all, hall, hmem⟩
    cases hall
    rcases List.mem_map.mp hmem with ⟨e, he, rfl⟩
    exact List.mem_map_of_mem (visible_subset he)
  · intro hmem
    rcases List.mem_map.mp hmem with ⟨e, he, rfl⟩
    refine ⟨_, rfl, ?_⟩
    rw [visible_of_mem he hid]
    exact hmem

/-- A registration on top of the deletion. -/
theorem merged_of_deleted_added (hread : ReadsAs text es) (hids : ∀ e ∈ es, IsCreateId e.1)
    (hhttp : ∀ e ∈ es, e.2.2 = false) (hr : IsCreateId r.id) (hnew : r.id ∉ es.map Prod.fst)
    (h : TextOf (indexText (kept ord v es) ++ entryLine r.entry) (s leveldbStoreUniqueId)) :
    Merged es r.id v s ↔ LineFound r v := by
  have hkept : ReadsAs (indexText (kept ord v es)) (kept ord v es) := readsAs_kept hread hids
  have hreg : ∀ {id : Str}, Registered s id ↔ ∃ new, lineRead r.entry = some new ∧
      (id ∈ (kept ord v es).map Prod.fst ∨ id ∈ new.map Prod.fst) :=
    registered_added hkept (forall_mem_kept fun e he _ => hids e he)
      (forall_mem_kept fun e _ hkind => hkind) hr h
  constructor
  · intro hmerged
    rcases hreg.mp hmerged.added with ⟨new, hline, hin | hin⟩
    · rcases (mem_kept.mp hin).1 with ⟨e, he, -, hid⟩
      exact absurd (hid ▸ List.mem_map_of_mem he) hnew
    · refine ⟨new, hline, hin, ?_⟩
      intro hv
      exact hmerged.deleted (hreg.mpr ⟨new, hline, .inr hv⟩)
  · rintro ⟨new, hline, hin, hv⟩
    constructor
    · exact hreg.mpr ⟨new, hline, .inr hin⟩
    · rw [hreg]
      rintro ⟨new', hline', hmem⟩
      rw [hline] at hline'
      cases hline'
      rcases hmem with hold | hold
      · exact (mem_kept.mp hold).2 rfl
      · exact hv hold
    · -- the others are HTTP/FTP downloads, so the deletion has kept them
      intro e he hother
      exact hreg.mpr ⟨new, hline, .inl (mem_kept.mpr ⟨⟨e, he, hhttp e he, rfl⟩, hother⟩)⟩

/-- A deletion on top of the registration keeps what it reads as HTTP/FTP downloads. -/
theorem merged_of_added_deleted (hread : ReadsAs text es) (hids : ∀ e ∈ es, IsCreateId e.1)
    (hhttp : ∀ e ∈ es, e.2.2 = false) (hr : IsCreateId r.id) (hnew : r.id ∉ es.map Prod.fst)
    (hold : v ∈ es.map Prod.fst) {last : Str}
    (hdel : clientWrites ord r v .del (indexText es ++ entryLine r.entry) = some last)
    (h : TextOf last (s leveldbStoreUniqueId)) : Merged es r.id v s ↔ LineHttp r := by
  have hne : r.id ≠ v := by
    rintro rfl
    exact hnew hold
  rcases textEntries_append hread.clean hids hhttp (show IsCreateId r.entry.1 from hr) with
    ⟨es', hids', hhttp', hentries⟩
  rcases Option.map_eq_some_iff.mp hdel with ⟨all, hall, rfl⟩
  have hclean : ∀ e ∈ all, CleanEntry e := by
    rcases Option.map_eq_some_iff.mp hall with ⟨rows, hrows, rfl⟩
    exact textRows_clean hrows
  rw [hentries] at hall
  rcases Option.map_eq_some_iff.mp hall with ⟨new, hline, rfl⟩
  constructor
  · -- the entry of the new id comes from the new line, as no other one has the id
    intro hmerged
    rcases ((registered_kept hclean h hr).mp hmerged.added).1 with ⟨e, he, hkind, hid⟩
    rcases List.mem_append.mp he with hin | hin
    · have hmem : e.1 ∈ es'.map Prod.fst := List.mem_map_of_mem hin
      rw [hids', hid] at hmem
      exact absurd hmem hnew
    · exact ⟨new, hline, e, hin, hid, hkind⟩
  · rintro ⟨new', hline', e, he, hid, hkind⟩
    rw [hline] at hline'
    cases hline'
    constructor
    · exact (registered_kept hclean h hr).mpr
        ⟨⟨e, List.mem_append_right _ he, hkind, hid⟩, hne⟩
    · rcases List.mem_map.mp hold with ⟨d, hd, rfl⟩
      rw [registered_kept hclean h (hids d hd)]
      rintro ⟨-, hself⟩
      exact hself rfl
    · intro d hd hother
      have hmem : d.1 ∈ es'.map Prod.fst := by
        rw [hids']
        exact List.mem_map_of_mem hd
      rcases List.mem_map.mp hmem with ⟨d', hd', hsame⟩
      exact (registered_kept hclean h (hids d hd)).mpr
        ⟨⟨d', List.mem_append_left _ hd', hhttp' d' hd', hsame⟩, hother⟩

/-- A deletion that has read the old index drops the new id. -/
theorem not_merged_of_deleted (hread : ReadsAs text es) (hr : IsCreateId r.id)
    (hnew : r.id ∉ es.map Prod.fst)
    (h : TextOf (indexText (kept ord v es)) (s leveldbStoreUniqueId)) : ¬ Merged es r.id v s := by
  intro hmerged
  rcases ((registered_kept hread.clean h hr).mp hmerged.added).1 with ⟨e, he, -, hid⟩
  exact hnew (hid ▸ List.mem_map_of_mem he)

/-- A registration that has read the old index brings the deleted id back. -/
theorem not_merged_of_added (hread : ReadsAs text es) (hids : ∀ e ∈ es, IsCreateId e.1)
    (hhttp : ∀ e ∈ es, e.2.2 = false) (hr : IsCreateId r.id) (hold : v ∈ es.map Prod.fst)
    (h : TextOf (indexText es ++ entryLine r.entry) (s leveldbStoreUniqueId)) :
    ¬ Merged es r.id v s := by
  intro hmerged
  rcases (registered_added hread hids hhttp hr h).mp hmerged.added with ⟨new, hline, -⟩
  exact hmerged.deleted ((registered_added hread hids hhttp hr h).mpr ⟨new, hline, .inl hold⟩)

/-- **A registration and a deletion at the same time.** On an index of HTTP/FTP rows, for any
path of the new download, any schedule that brings both calls to their end and any mutexes
they use: the index has the new id, lost the deleted one and kept the others exactly if the
deletion accessed the store before the registration and the new line is read as far as its
id, or after it and the new line is read as an HTTP/FTP download. -/
theorem concurrent_update_iff {M : Type} [DecidableEq M]
    (hindex : ReadsAs ((s leveldbStoreUniqueId).getD []) es) (hids : ∀ e ∈ es, IsCreateId e.1)
    (hhttp : ∀ e ∈ es, e.2.2 = false) (hr : IsCreateId r.id) (hnew : r.id ∉ es.map Prod.fst)
    (hold : v ∈ es.map Prod.fst) (ord : IterOrder Entry) (mutexOf : Client → M)
    (sched : List Client) {w : Threads Client M Str Str Str Unit}
    (hrun : sched.foldl (Threads.step mutexOf) (Threads.start s (clientProg ord r v)) = w)
    (hw : w.Finished) :
    Merged es r.id v w.store ↔
      (Before .del w.accesses ∧ LineFound r v) ∨ (Before .add w.accesses ∧ LineHttp r) := by
  rcases rmw_finished readModifyWrite_client (show TextOf _ _ from rfl) mutexOf sched hrun hw with
    ⟨hvalue, hdone⟩
  rcases four_accesses fun c => (hdone c).1 with ⟨c, heq⟩ | ⟨c, d, heq⟩
  · -- one call is through before the other one reads
    rw [heq] at hvalue hdone ⊢
    rcases value_serial fun t => (hdone t).2 with ⟨middle, hfirst, hsecond⟩
    cases c with
    | add =>
      rw [clientWrites_add hindex] at hfirst
      cases hfirst
      rw [merged_of_added_deleted hindex hids hhttp hr hnew hold hsecond hvalue]
      simp [Before, Client.other]
    | del =>
      rw [clientWrites_del hindex] at hfirst
      cases hfirst
      have hlast := (clientWrites_add (readsAs_kept hindex hids)).symm.trans hsecond
      rw [← Option.some.inj hlast] at hvalue
      rw [merged_of_deleted_added hindex hids hhttp hr hnew hvalue]
      simp [Before, Client.other]
  · -- whoever writes last has read the old index
    have hcond : ∀ first, ¬ Before first w.accesses := by
      rw [heq]
      intro first
      cases first <;> cases c <;> cases d <;> decide
    rw [heq] at hvalue hdone
    have hlast := value_overwritten fun t => (hdone t).2
    have hnot : ¬ Merged es r.id v w.store := by
      cases d with
      | add =>
        have hdel := (clientWrites_del hindex).symm.trans hlast
        rw [← Option.some.inj hdel] at hvalue
        exact not_merged_of_deleted hindex hr hnew hvalue
      | del =>
        have hadd := (clientWrites_add hindex).symm.trans hlast
        rw [← Option.some.inj hadd] at hvalue
        exact not_merged_of_added hindex hids hhttp hr hold hvalue
    constructor
    · intro hmerged
      exact absurd hmerged hnot
    · rintro (⟨hdel, -⟩ | ⟨hadd, -⟩)
      · exact absurd hdel (hcond .del)
      · exact absurd hadd (hcond .add)

end Updates

/-- An index with these entries. -/
def indexDb (es : List Entry) : Db :=
  Function.update emptyDb leveldbStoreUniqueId (some (indexText es))

/-- Both calls are made on one object. The deletion has read the index when the registration
begins; it writes when the registration has ended, and the new id is gone. -/
theorem concurrent_update_lost :
    ∃ w : Threads Client Unit Str Str Str Unit,
      [Client.del, .del, .del, .add, .add, .add, .add, .del, .del, .del].foldl
        (Threads.step fun _ => ()) (Threads.start
          (indexDb [(sampleId '1', "/dl/a.iso".toList, false)])
          (clientProg (IterOrder.insertion Entry) ⟨[], "/dl/b.iso".toList, false, sampleId '2'⟩
            (sampleId '1'))) = w ∧
      w.Finished ∧
      ¬ Merged [(sampleId '1', "/dl/a.iso".toList, false)] (sampleId '2') (sampleId '1')
        w.store := by
  refine ⟨_, rfl, ?_, ?_⟩
  · intro c
    cases c with
    | add => decide +kernel
    | del => decide +kernel
  · intro hmerged
    rcases registered_iff.mp hmerged.added with ⟨es, hread, hmem⟩
    have hempty : textEntries (([Client.del, .del, .del, .add, .add, .add, .add, .del, .del,
      .del].foldl (Threads.step fun _ => ()) (Threads.start
        (indexDb [(sampleId '1', "/dl/a.iso".toList, false)])
        (clientProg (IterOrder.insertion Entry) ⟨[], "/dl/b.iso".toList, false, sampleId '2'⟩
          (sampleId '1'))) : Threads Client Unit Str Str Str Unit).store
            leveldbStoreUniqueId |>.getD []) = some [] := by decide +kernel
    rw [hempty] at hread
    cases hread
    exact absurd hmem List.not_mem_nil

/-- Two objects with a mutex each, and one call after the other. -/
theorem concurrent_update_serial :
    ∃ w : Threads Client Client Str Str Str Unit,
      [Client.add, .add, .add, .add, .del, .del, .del, .del, .del, .del].foldl
        (Threads.step id) (Threads.start
          (indexDb [(sampleId '1', "/dl/a.iso".toList, false),
            (sampleId '3', "/dl/c.iso".toList, false)])
          (clientProg (IterOrder.insertion Entry) ⟨[], "/dl/b.iso".toList, false, sampleId '2'⟩
            (sampleId '1'))) = w ∧
      w.Finished ∧
      (Merged [(sampleId '1', "/dl/a.iso".toList, false),
          (sampleId '3', "/dl/c.iso".toList, false)] (sampleId '2') (sampleId '1') w.store ↔
        (Before .del w.accesses ∧
            LineFound ⟨[], "/dl/b.iso".toList, false, sampleId '2'⟩ (sampleId '1')) ∨
          (Before .add w.accesses ∧
            LineHttp ⟨[], "/dl/b.iso".toList, false, sampleId '2'⟩)) := by
  refine ⟨_, rfl, ?_, ?_⟩
  · intro c
    cases c with
    | add => decide +kernel
    | del => decide +kernel
  · refine concurrent_update_iff (r := ⟨[], "/dl/b.iso".toList, false, sampleId '2'⟩) ?_ ?_ ?_ ?_
      ?_ ?_ (IterOrder.insertion Entry) id _ rfl ?_
    · decide +kernel
    · decide +kernel
    · decide +kernel
    · decide +kernel
    · decide +kernel
    · decide +kernel
    · intro c
      cases c with
      | add => decide +kernel
      | del => decide +kernel

end FyreDL.Store
