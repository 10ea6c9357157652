import FyreDL.Lib.KvSerial
import FyreDL.Store.Calls

/-!
# FyreDL.Store.Additions — downloads that are added at the same time

`addCurlItem` and `addTorrentItem` register a download in one section and write its items in
further ones. Other additions, and the readers, get in between.

* `Fills` for each of the writers, and `firstSection_addDownloadId` for the registration.
* `additions` — the additions among the calls, as a family of the kind that is serial.
* `additions_serial` — whatever the calls and the schedule, without `modifyCurlItem` and
  `delCurlItem` among them: in the end the database is the one that the calls which answered
  `true` leave one after another. No download is lost, none is there in part, and what is
  refused leaves nothing.
-/

namespace FyreDL.Store

open Lib Lib.Kv Csv

/-! ## What an addition writes -/

/-- The batches of the loop of the writers. -/
def eachBatch {α : Type} (batch : Int → α → List (Op Str Str)) :
    Int → List α → List (List (Op Str Str))
  | _, [] => []
  | counter, a :: rest => batch counter a :: eachBatch batch (counter + 1) rest

/-- The batches of the items of an id. -/
def itemBatches (id : Str) (items : List (Str × Str)) : List (List (Op Str Str)) :=
  items.map fun p => putBatch id p.1 p.2

namespace ObjectCall

/-- The call adds a download. -/
def IsAddition : ObjectCall → Prop
  | .change (.addCurlItem _ _ _) => True
  | .change (.addTorrentItem _ _ _) => True
  | _ => False

/-- The call changes or deletes a download. -/
def Edits : ObjectCall → Prop
  | .change (.modifyCurlItem _ _ _ _ _ _ _) => True
  | .change (.delCurlItem _ _ _) => True
  | _ => False

/-- The addition gets as far as its mutex. -/
def Accepted : ObjectCall → Prop
  | .change (.addCurlItem _ _ info) => CurlDlInfo.accepted info
  | .change (.addTorrentItem _ _ _) => True
  | _ => False

/-- The line of the new download. -/
def newEntry : ObjectCall → Entry
  | .change (.addCurlItem _ _ info) => (info.uniqueId, info.fileLoc, false)
  | .change (.addTorrentItem _ _ info) => torrentEntry info
  | _ => ([], [], false)

/-- What is written after the line, a section for each batch. -/
def batches : ObjectCall → List (List (Op Str Str))
  | .change (.addCurlItem _ now info) =>
    itemBatches info.uniqueId (curlItems (curlInfoToStore now info))
  | .change (.addTorrentItem _ now info) =>
    itemBatches info.general.uniqueId (torrentItems (torrentInfoToStore now info).general) ++
      (eachBatch (fileBatch info.general.uniqueId) 1 info.filesVec ++
        eachBatch (trackerBatch info.general.uniqueId) 1 info.trackers)
  | _ => []

/-- The store after the call, when it runs alone. -/
def after (c : ObjectCall) (s : Db) : Db := (run c.prog s).2

end ObjectCall

/-- What a call does to the history. -/
def History.after (h : History) : ObjectCall → History
  | .change c => (h.step c).2
  | _ => h

section Fills

variable {α : Type}

theorem fills_addItems (id : Str) (items : List (Str × Str)) :
    Fills () (itemBatches id items) (addItems id items) := by
  induction items with
  | nil => exact .ret
  | cons p items ih =>
    have hfirst : Fills () [putBatch id p.1 p.2] (addItemDb id p.1 p.2) := Fills.locked rfl
    exact hfirst.bind ih

theorem fills_writeEach (batch : Int → α → List (Op Str Str)) (counter : Int) (l : List α) :
    Fills true (eachBatch batch counter l) (writeEach batch counter l) := by
  induction l generalizing counter with
  | nil => exact .ret
  | cons a l ih =>
    have hfirst : Fills true [batch counter a] (writeOk (batch counter a)) := Fills.locked rfl
    exact hfirst.bind (ih (counter + 1))

end Fills

section Keys

variable {α : Type} {id : Str}

/-- The key is one of the items of the id. -/
def KeyOf (id key : Str) : Prop := ∃ rest, key = multipartKey [id, rest]

theorem itemBatches_keys (items : List (Str × Str)) :
    ∀ batch ∈ itemBatches id items, ∀ op ∈ batch, KeyOf id op.key := by
  intro batch hbatch op hop
  rcases List.mem_map.mp hbatch with ⟨p, -, rfl⟩
  rcases List.mem_pair.mp hop with rfl | rfl
  · exact ⟨_, rfl⟩
  · exact ⟨_, rfl⟩

theorem eachBatch_keys {batch : Int → α → List (Op Str Str)}
    (h : ∀ n a, ∀ op ∈ batch n a, KeyOf id op.key) (counter : Int) (l : List α) :
    ∀ b ∈ eachBatch batch counter l, ∀ op ∈ b, KeyOf id op.key := by
  induction l generalizing counter with
  | nil => exact fun b hb => absurd hb List.not_mem_nil
  | cons a l ih =>
    intro b hb
    rcases List.mem_cons.mp hb with rfl | hrest
    · exact h counter a
    · exact ih (counter + 1) b hrest

theorem keyOf_numbered (id kind : Str) (n : Int) : KeyOf id (multipartKey [id, kind, toText n]) :=
  ⟨multipartKey [kind, toText n], by simp [multipartKey]⟩

theorem fileBatch_keys (n : Int) (f : TorrentFile) :
    ∀ op ∈ fileBatch id n f, KeyOf id op.key := by
  intro op hop
  simp only [fileBatch, List.mem_cons, List.not_mem_nil, or_false] at hop
  rcases hop with rfl | rfl | rfl | rfl
  · exact keyOf_numbered _ _ _
  · exact keyOf_numbered _ _ _
  · exact keyOf_numbered _ _ _
  · exact keyOf_numbered _ _ _

theorem trackerBatch_keys (n : Int) (t : TorrentTrackers) :
    ∀ op ∈ trackerBatch id n t, KeyOf id op.key := by
  intro op hop
  rcases List.mem_pair.mp hop with rfl | rfl
  · exact keyOf_numbered _ _ _
  · exact keyOf_numbered _ _ _

/-- Whatever an addition writes is under its id. -/
theorem batches_keys (c : ObjectCall) :
    ∀ batch ∈ c.batches, ∀ op ∈ batch, KeyOf c.newEntry.1 op.key := by
  cases c with
  | change c =>
    cases c with
    | addCurlItem drawn now info => exact itemBatches_keys _
    | addTorrentItem drawn now info =>
      intro batch hbatch
      rcases List.mem_append.mp hbatch with hitems | hbatch
      · exact itemBatches_keys _ batch hitems
      · rcases List.mem_append.mp hbatch with hfiles | htrackers
        · exact eachBatch_keys fileBatch_keys _ _ batch hfiles
        · exact eachBatch_keys trackerBatch_keys _ _ batch htrackers
    | modifyCurlItem _ _ _ _ _ _ _ => exact fun b hb => absurd hb List.not_mem_nil
    | delCurlItem _ _ _ => exact fun b hb => absurd hb List.not_mem_nil
    | modifyTorrentItem _ _ => exact fun b hb => absurd hb List.not_mem_nil
    | delTorrentItem _ => exact fun b hb => absurd hb List.not_mem_nil
  | readCurlItems _ => exact fun b hb => absurd hb List.not_mem_nil
  | readTorrentItems _ _ _ => exact fun b hb => absurd hb List.not_mem_nil

end Keys

/-! ## The registration -/

/-- The store with one line more in the index. -/
def registerEntry (e : Entry) (s : Db) : Db :=
  Function.update s leveldbStoreUniqueId
    (some (indexText ((indexEntries s).getD [] ++ [e])))

section Registration

variable {s : Db} {es : List Entry}

/-- An index that lists these entries, all with ids of `createId`. -/
structure ListsExactly (s : Db) (es : List Entry) : Prop where
  indexed : Indexed s es
  clean : ∀ e ∈ es, CleanEntry e
  ids : ∀ e ∈ es, IsCreateId e.1

theorem ListsExactly.registerEntry_eq (h : ListsExactly s es) (e : Entry) :
    registerEntry e s =
      Function.update s leveldbStoreUniqueId (some (indexText (es ++ [e]))) := by
  rw [registerEntry, indexEntries_of_indexed h.indexed h.clean, visible_of_createId h.ids]
  rfl

theorem ListsExactly.register (h : ListsExactly s es) {e : Entry} (hclean : CleanEntry e)
    (hid : IsCreateId e.1) : ListsExactly (registerEntry e s) (es ++ [e]) := by
  rw [h.registerEntry_eq]
  refine ⟨indexed_update s _, ?_, ?_⟩
  · intro d hd
    rcases List.mem_append.mp hd with hold | hnew
    · exact h.clean d hold
    · rw [List.mem_singleton.mp hnew]
      exact hclean
  · intro d hd
    rcases List.mem_append.mp hd with hold | hnew
    · exact h.ids d hold
    · rw [List.mem_singleton.mp hnew]
      exact hid

theorem ListsExactly.firstSection (h : ListsExactly s es) {id : Str} (hid : id ≠ [])
    (drawn path : Str) (isTorrent : Bool) :
    FirstSection (addDownloadId drawn path isTorrent id) s (.ret id)
      (registerEntry (id, path, isTorrent) s) := by
  rcases addDownloadId_section drawn path isTorrent id with ⟨p, hp, heq⟩
  have hrun := run_addDownloadId h.indexed h.clean drawn path isTorrent id
  rw [downloadKey_of_override hid, visible_of_createId h.ids, ← h.registerEntry_eq, heq,
    run_locked] at hrun
  rw [heq]
  exact .locked hp hrun

end Registration

/-! ## The family -/

/-- What is asked of an addition: an id of `createId`, and values that the store can carry. -/
structure Carried (c : ObjectCall) : Prop where
  id : IsCreateId c.newEntry.1
  clean : CleanEntry c.newEntry
  lists : ∀ drawn now info, c = .change (.addTorrentItem drawn now info) →
    info.filesVec ≠ [] ∧ info.trackers ≠ []

theorem carried_of_admits {h : History} {c : StoreCall} (hadmits : h.Admits c)
    (haccepted : (ObjectCall.change c).Accepted) : Carried (.change c) := by
  cases c with
  | addCurlItem drawn now info =>
    rcases hadmits.2 haccepted with ⟨hid, -, hpath, -⟩
    exact ⟨hid, ⟨cleanCell_of_createId hid, hpath⟩, fun _ _ _ hc => by cases hc⟩
  | addTorrentItem drawn now info =>
    rcases hadmits with ⟨hid, -, hshow⟩
    refine ⟨hid, ⟨cleanCell_of_createId hid, hshow.dest⟩, ?_⟩
    intro drawn' now' info' hc
    cases hc
    exact ⟨hshow.files, hshow.trackers⟩
  | modifyCurlItem _ _ _ _ _ _ _ => exact haccepted.elim
  | delCurlItem _ _ _ => exact haccepted.elim
  | modifyTorrentItem _ _ => exact haccepted.elim
  | delTorrentItem _ => exact haccepted.elim

/-- What an accepted addition does after it has its mutex: the registration, and then the
batches. -/
theorem body_of_accepted {c : ObjectCall} (haccepted : c.Accepted) (hcarried : Carried c) {s : Db}
    {es : List Entry} (h : ListsExactly s es) :
    ∃ p, FirstSection c.prog s p (registerEntry c.newEntry s) ∧ Fills (.done true) c.batches p := by
  have hid : c.newEntry.1 ≠ [] := hcarried.clean.uid.ne_nil
  cases c with
  | change c =>
    cases c with
    | addCurlItem drawn now info =>
      have haccepted : CurlDlInfo.accepted info := haccepted
      have hfirst := h.firstSection hid drawn info.fileLoc false
      have hitems : Fills (true, curlInfoToStore now info)
          (itemBatches info.uniqueId (curlItems (curlInfoToStore now info)))
          (addItems info.uniqueId (curlItems (curlInfoToStore now info)) >>= fun _ =>
            (.ret (true, curlInfoToStore now info) : DbProg (Bool × CurlDlInfo))) :=
        (fills_addItems _ _).map fun _ => (true, curlInfoToStore now info)
      rw [ObjectCall.prog, StoreCall.prog, addCurlItem, if_pos haccepted]
      exact ⟨_, (((hfirst.bind _).tryCatch _).bind _).bind _,
        ((hitems.tryCatch _).map Prod.fst).map CallAnswer.done⟩
    | addTorrentItem drawn now info =>
      rcases hcarried.lists drawn now info rfl with ⟨hfiles, htrackers⟩
      have hdest : info.general.downDest ≠ [] := hcarried.clean.path.ne_nil
      have hfirst := h.firstSection hid drawn info.general.downDest true
      -- both addenda are written, so both answer `true`
      have hwriteFiles : Fills true (eachBatch (fileBatch info.general.uniqueId) 1 info.filesVec)
          (writeTorrentFilesAddendum info.filesVec info.general.uniqueId) := by
        rw [writeTorrentFilesAddendum, if_pos hfiles]
        exact fills_writeEach _ _ _
      have hwriteTrackers : Fills true
          (eachBatch (trackerBatch info.general.uniqueId) 1 info.trackers)
          (writeTorrentTrkrsAddendum info.trackers info.general.uniqueId) := by
        rw [writeTorrentTrkrsAddendum, if_pos htrackers]
        exact fills_writeEach _ _ _
      rw [ObjectCall.prog, StoreCall.prog, addTorrentItem, if_pos hdest]
      refine ⟨_, (((hfirst.bind _).tryCatch _).bind _).bind _, ?_⟩
      suffices hbody : Fills (true, torrentInfoToStore now info)
          (ObjectCall.change (.addTorrentItem drawn now info)).batches _ from
        ((Fills.tryCatch hbody _).map Prod.fst).map CallAnswer.done
      change Fills _ _ (if info.general.uniqueId ≠ info.general.uniqueId then _ else _)
      rw [if_neg fun hne => hne rfl, ObjectCall.batches,
        ← List.append_nil (eachBatch (trackerBatch _) 1 _)]
      exact (fills_addItems _ _).bind (hwriteFiles.bind (hwriteTrackers.bind .ret))
    | modifyCurlItem _ _ _ _ _ _ _ => exact haccepted.elim
    | delCurlItem _ _ _ => exact haccepted.elim
    | modifyTorrentItem _ _ => exact haccepted.elim
    | delTorrentItem _ => exact haccepted.elim
  | readCurlItems _ => exact haccepted.elim
  | readTorrentItems _ _ _ => exact haccepted.elim

variable {T : Type} {calls : T → ObjectCall}

/-- The accepted additions among the calls, behind an index that lists `es`. -/
def additions (calls : T → ObjectCall) (es : List Entry)
    (hcarried : ∀ t, (calls t).Accepted → Carried (calls t))
    (hdistinct : ∀ t u, t ≠ u → (calls t).Accepted → (calls u).Accepted →
      (calls t).newEntry.1 ≠ (calls u).newEntry.1) : Additions T Str Str where
  adder t := (calls t).Accepted
  shared key := key = leveldbStoreUniqueId
  own t key := (calls t).Accepted ∧ KeyOf (calls t).newEntry.1 key
  register t := registerEntry (calls t).newEntry
  batches t := (calls t).batches
  Registered l s := ListsExactly s (es ++ l.map fun t => (calls t).newEntry)
  own_disjoint := by
    rintro t u key hne ⟨ht, rest, rfl⟩ ⟨hu, rest', hkey⟩
    have huntouched := untouched_of_ne (not_underscore_of_createId (hcarried t ht).id)
      (not_underscore_of_createId (hcarried u hu).id) (hdistinct t u hne ht hu) rest
    exact huntouched.2 ⟨rest', by rw [hkey]; simp [multipartKey]⟩
  own_not_shared := by
    rintro t key ⟨-, rest, rfl⟩
    exact multipartKey_ne_index _ _
  register_frame := fun hkey => Function.update_of_ne hkey _ _
  register_congr := by
    rintro t s s' hsame key rfl
    rw [registerEntry, registerEntry, indexEntries, indexEntries, hsame _ rfl,
      Function.update_self, Function.update_self]
  registered_congr := by
    rintro l s s' hsame ⟨hindex, hclean, hids⟩
    refine ⟨?_, hclean, hids⟩
    rw [Indexed, ← hsame _ rfl]
    exact hindex

section Additions

variable {es : List Entry} {hcarried : ∀ t, (calls t).Accepted → Carried (calls t)}
  {hdistinct : ∀ t u, t ≠ u → (calls t).Accepted → (calls u).Accepted →
    (calls t).newEntry.1 ≠ (calls u).newEntry.1}

theorem registers_of_accepted {t : T} (haccepted : (calls t).Accepted) :
    (additions calls es hcarried hdistinct).Registers (.done true) t (calls t).prog := by
  constructor
  · intro batch hbatch op hop
    exact ⟨haccepted, batches_keys _ batch hbatch op hop⟩
  · intro l s _ hregistered
    rcases body_of_accepted haccepted (hcarried t haccepted) hregistered with ⟨p, hfirst, hfills⟩
    refine ⟨p, hfirst, hfills, ?_⟩
    have hcall := hcarried t haccepted
    change ListsExactly _ (es ++ (l ++ [t]).map fun t => (calls t).newEntry)
    rw [List.map_append, ← List.append_assoc]
    exact ListsExactly.register hregistered hcall.clean hcall.id

theorem adds_of_accepted {t : T} (haccepted : (calls t).Accepted) :
    (additions calls es hcarried hdistinct).Adds (.done true) (.done false) t (calls t).enter := by
  have hregisters := @registers_of_accepted T calls es hcarried hdistinct t haccepted
  have hcall := hcarried t haccepted
  generalize calls t = c at haccepted hregisters hcall
  cases c with
  | change c =>
    cases c with
    | addCurlItem drawn now info =>
      have haccepted : CurlDlInfo.accepted info := haccepted
      rw [ObjectCall.enter, if_pos haccepted]
      exact .guarded hregisters
    | addTorrentItem drawn now info =>
      have hdest : info.general.downDest ≠ [] := hcall.clean.path.ne_nil
      rw [ObjectCall.enter, if_pos hdest]
      exact .guarded hregisters
    | modifyCurlItem _ _ _ _ _ _ _ => exact haccepted.elim
    | delCurlItem _ _ _ => exact haccepted.elim
    | modifyTorrentItem _ _ => exact haccepted.elim
    | delTorrentItem _ => exact haccepted.elim
  | readCurlItems _ => exact haccepted.elim
  | readTorrentItems _ _ _ => exact haccepted.elim

end Additions

/-! ## The readers -/

section Readers

theorem reader_guarded {mutex : ItemMutex} {body : DbProg CallAnswer} (h : NoWrites body)
    (refused : Option CallAnswer) : Reader (.ret (.guarded mutex body refused) : DbCall) :=
  ⟨.ret _, .ret h⟩

/-- Whatever is neither an accepted addition nor an edit writes nothing. -/
theorem reader_enter {c : ObjectCall} (haccepted : ¬ c.Accepted) (hedits : ¬ c.Edits) :
    Reader c.enter := by
  cases c with
  | change c =>
    cases c with
    | addCurlItem drawn now info =>
      have haccepted : ¬ CurlDlInfo.accepted info := haccepted
      rw [ObjectCall.enter, if_neg haccepted]
      exact reader_answer _
    | addTorrentItem drawn now info => exact absurd trivial haccepted
    | modifyCurlItem _ _ _ _ _ _ _ => exact absurd trivial hedits
    | delCurlItem _ _ _ => exact absurd trivial hedits
    | modifyTorrentItem uniqueId status =>
      rw [ObjectCall.enter]
      split
      · exact reader_guarded (.ret _) none
      · exact reader_answer _
    | delTorrentItem uniqueId => exact reader_guarded (.ret _) none
  | readCurlItems ord =>
    have hlocked : ∀ ids, NoWrites (readCurlItemsLocked ids >>= fun records =>
        (.ret (.curl records) : DbProg CallAnswer)) := by
      intro ids
      have hread : NoWrites (readCurlItemsLocked ids) :=
        (noWrites_readCurlRecords ids).tryCatch fun e => .warn (.ret _)
      exact hread.bind fun records => .ret _
    rw [ObjectCall.enter]
    constructor
    · refine NoWrites.tryCatch ?_ fun e => .warn (.ret _)
      refine (readsOnly_extractDownloadIds false).noWrites.bind ?_
      intro ids
      split
      · exact .ret _
      · exact .ret _
    · refine Ends.tryCatch (T := fun _ => True) ?_ fun e _ => .warn (.ret trivial)
      refine (Ends.any _).bind ?_
      intro ids _
      split
      · exact .ret (hlocked _)
      · exact .ret trivial
  | readTorrentItems fuel ord minimalReadout =>
    exact reader_guarded ((noWrites_readTorrentItems _ _ _).bind fun records => .ret _) _

end Readers

/-! ## Serial -/

section Serial

variable {s : Db} {h : History}

/-- The ids behind an addition. -/
theorem History.mem_step_entries {c : StoreCall} (haccepted : (ObjectCall.change c).Accepted)
    {id : Str} (hid : id ∈ (h.step c).2.entries.map Prod.fst) :
    id = (ObjectCall.change c).newEntry.1 ∨ id ∈ h.entries.map Prod.fst := by
  rcases List.mem_map.mp hid with ⟨e, he, rfl⟩
  have hnew : e = (ObjectCall.change c).newEntry ∨ e ∈ h.entries := by
    cases c with
    | addCurlItem drawn now info =>
      have haccepted : CurlDlInfo.accepted info := haccepted
      rw [History.step, if_pos haccepted] at he
      simp only [entries, List.map_append, List.map_singleton, List.mem_append,
        List.mem_singleton] at he ⊢
      rcases he with (he | he) | he
      · exact .inr (.inl he)
      · exact .inl he
      · exact .inr (.inr he)
    | addTorrentItem drawn now info =>
      simp only [History.step, entries, List.map_append, List.map_singleton, List.mem_append,
        List.mem_singleton] at he ⊢
      rcases he with he | he | he
      · exact .inr (.inl he)
      · exact .inr (.inr he)
      · exact .inl he
    | modifyCurlItem _ _ _ _ _ _ _ => exact haccepted.elim
    | delCurlItem _ _ _ => exact haccepted.elim
    | modifyTorrentItem _ _ => exact haccepted.elim
    | delTorrentItem _ => exact haccepted.elim
  rcases hnew with rfl | hold
  · exact .inl rfl
  · exact .inr (List.mem_map_of_mem hold)

/-- What is admitted is admitted behind an addition with another id. -/
theorem History.admits_step {c d : StoreCall} (haccepted : (ObjectCall.change c).Accepted)
    (hd : h.Admits d) (hne : (ObjectCall.change d).Accepted →
      (ObjectCall.change d).newEntry.1 ≠ (ObjectCall.change c).newEntry.1) :
    (h.step c).2.Admits d := by
  cases d with
  | addCurlItem drawn now info =>
    refine ⟨hd.1, ?_⟩
    intro hinfo
    rcases hd.2 hinfo with ⟨hid, hfresh, hrest⟩
    refine ⟨hid, ?_, hrest⟩
    intro hin
    rcases History.mem_step_entries haccepted hin with hsame | hold
    · exact hne hinfo hsame
    · exact hfresh hold
  | addTorrentItem drawn now info =>
    rcases hd with ⟨hid, hfresh, hrest⟩
    refine ⟨hid, ?_, hrest⟩
    intro hin
    rcases History.mem_step_entries haccepted hin with hsame | hold
    · exact hne trivial hsame
    · exact hfresh hold
  | modifyCurlItem _ _ _ _ _ _ _ => exact trivial
  | delCurlItem _ _ _ => exact trivial
  | modifyTorrentItem _ _ => exact trivial
  | delTorrentItem _ => exact trivial

theorem exists_change {c : ObjectCall} (haccepted : c.Accepted) : ∃ d, c = .change d := by
  cases c with
  | change d => exact ⟨d, rfl⟩
  | readCurlItems _ => exact haccepted.elim
  | readTorrentItems _ _ _ => exact haccepted.elim

theorem Keeps.listsExactly (hkeeps : Keeps s h) :
    ∃ es, ListsExactly s es ∧ es.Perm h.entries := by
  rcases hkeeps.exists_index with ⟨es, hindex, hperm, hclean, hids⟩
  exact ⟨es, ⟨hindex, hclean, hids⟩, hperm⟩

/-- **One accepted addition**, as a whole: what it registers and writes is what it does when it
runs alone, and the store has the history behind it. -/
theorem keeps_after (hkeeps : Keeps s h) {c : ObjectCall} (haccepted : c.Accepted)
    (hadmits : ∀ d, c = .change d → h.Admits d) :
    c.batches.foldl applyBatch (registerEntry c.newEntry s) = c.after s ∧
      Keeps (c.after s) (h.after c) := by
  rcases exists_change haccepted with ⟨d, rfl⟩
  have hd := hadmits d rfl
  rcases hkeeps.listsExactly with ⟨es, hlists, -⟩
  constructor
  · rcases body_of_accepted haccepted (carried_of_admits hd haccepted) hlists with
      ⟨p, hfirst, hfills⟩
    rw [ObjectCall.after, hfirst.run_eq, hfills.run_eq]
  · rcases keeps_step hkeeps hd with ⟨hanswer, hkeeps'⟩
    have hrun : run d.prog s = (.ret (h.step d).1, (run d.prog s).2) := by rw [← hanswer]
    rw [ObjectCall.after, ObjectCall.prog, run_bind_ret hrun]
    exact hkeeps'

/-- Accepted additions one after another. -/
theorem keeps_serial {l : List T} (hnodup : l.Nodup) (hkeeps : Keeps s h)
    (haccepted : ∀ t ∈ l, (calls t).Accepted)
    (hadmits : ∀ t ∈ l, ∀ d, calls t = .change d → h.Admits d)
    (hdistinct : ∀ t u, t ≠ u → (calls t).Accepted → (calls u).Accepted →
      (calls t).newEntry.1 ≠ (calls u).newEntry.1) :
    l.foldl (fun s t => (calls t).batches.foldl applyBatch
        (registerEntry (calls t).newEntry s)) s = l.foldl (fun s t => (calls t).after s) s ∧
      Keeps (l.foldl (fun s t => (calls t).after s) s)
        (l.foldl (fun h t => h.after (calls t)) h) := by
  induction l generalizing s h with
  | nil => exact ⟨rfl, hkeeps⟩
  | cons t l ih =>
    rcases List.nodup_cons.mp hnodup with ⟨hnot, hrest⟩
    have ht := haccepted t List.mem_cons_self
    rcases keeps_after hkeeps ht (hadmits t List.mem_cons_self) with ⟨hsame, hkeeps'⟩
    rw [List.foldl_cons, List.foldl_cons, List.foldl_cons, hsame]
    refine ih hrest hkeeps' (fun u hu => haccepted u (List.mem_cons_of_mem _ hu)) ?_
    intro u hu d hd
    rcases exists_change ht with ⟨c, hc⟩
    rw [hc]
    refine History.admits_step (hc ▸ ht) (hadmits u (List.mem_cons_of_mem _ hu) d hd) ?_
    intro haccepted'
    rw [← hc, ← hd]
    exact hdistinct u t (fun heq => hnot (heq ▸ hu)) (hd ▸ haccepted') ht

/-- An addition that is not accepted answers without a mutex. -/
theorem enter_of_not_accepted {c : ObjectCall} (haddition : c.IsAddition) (h : ¬ c.Accepted) :
    c.enter = .ret (.answer (.done false)) := by
  cases c with
  | change c =>
    cases c with
    | addCurlItem drawn now info => exact if_neg h
    | addTorrentItem drawn now info => exact absurd trivial h
    | modifyCurlItem _ _ _ _ _ _ _ => exact haddition.elim
    | delCurlItem _ _ _ => exact haddition.elim
    | modifyTorrentItem _ _ => exact haddition.elim
    | delTorrentItem _ => exact haddition.elim
  | readCurlItems _ => exact haddition.elim
  | readTorrentItems _ _ _ => exact haddition.elim

end Serial

/-- A download and a torrent that are added at the same time. -/
def sampleAdditions : Bool → ObjectCall
  | false => .change (.addCurlItem [] 7 sampleInfo)
  | true => .change (.addTorrentItem [] 8 (sampleTorrent '2' [sampleTracker]))

/-- Both in turns, up to their ends. -/
def sampleRun : CmnRoutines Bool :=
  ((List.replicate 80 [false, true]).flatten).foldl Object.step
    (Object.start emptyDb fun t => (sampleAdditions t).enter)

/-- The call has answered `true`. -/
def answeredTrue : DbCall → Bool
  | .ret (.answer (.done ret)) => ret
  | _ => false

theorem sampleRun_ended : ∀ t, (sampleRun.threads t).Ended := by
  intro t
  cases t with
  | false => decide +kernel
  | true => decide +kernel

end FyreDL.Store
