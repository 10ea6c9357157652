import FyreDL.Lib.KvTrace
import FyreDL.Store.TorrentItems

/-!
# FyreDL.Store.KeySpace — the flat key space

All records of all downloads lie in one key space. A key joins the id of a download, the
kind of the value and, for the lists of a torrent, a number with underscores. None of the
parts has an underscore in it, and the key of the index has none at all.

* `KeyTuple` has the tuples that the program builds keys of; `KeyTuple.key` is
  `multipart_key` on them, `key_injective` its injectivity.
* `LeavesItems` — a program leaves the items of certain ids and kinds, and the index.
* `keys_apart` — the keys are apart, and with them what the four writers write.
-/

namespace FyreDL.Store

open Lib Lib.Kv Csv

/-! ## Keys -/

/-- An id of one or more decimal digits. -/
abbrev DigitId := { id : Str // id ≠ [] ∧ ∀ c ∈ id, c.isDigit = true }

/-- The `LEVELDB_KEY_*` constants. -/
def leveldbKeys : List Str :=
  [leveldbKeyCurlStat, leveldbKeyCurlInsertDate, leveldbKeyCurlCompltDate,
   leveldbKeyCurlStatmsg, leveldbKeyCurlEffecUrl, leveldbKeyCurlRespCode,
   leveldbKeyCurlContLngth, leveldbKeyCurlHashType, leveldbKeyCurlHashValGiven,
   leveldbKeyCurlHashValRtrnd, leveldbKeyCurlHashSuccType, leveldbKeyTorrentInsertDate,
   leveldbKeyTorrentCompltDate, leveldbKeyTorrentCreatnDate, leveldbKeyTorrentDlstatus,
   leveldbKeyTorrentTorrntComment, leveldbKeyTorrentTorrntCreator, leveldbKeyTorrentMagnetUri,
   leveldbKeyTorrentTorrntName, leveldbKeyTorrentNumFiles, leveldbKeyTorrentNumTrackers,
   leveldbKeyTorrentTorrntPieces, leveldbKeyTorrentTorrntPieceLength,
   leveldbKeyTorrentTorrentFiles, leveldbKeyTorrentTrackers]

/-- One of the constants. -/
abbrev LeveldbKey := { key : Str // key ∈ leveldbKeys }

/-- The counter of a writer: it starts at one. -/
abbrev Counter := { n : Int // 0 < n }

/-- The tuples that keys are built of. -/
inductive KeyTuple where
  | item (id : DigitId) (key : LeveldbKey)
  | file (id : DigitId) (counter : Counter)
  | mapflepce (id : DigitId) (counter : Counter)
  | tracker (id : DigitId) (counter : Counter)

/-- The arguments of `multipart_key`. -/
def KeyTuple.parts : KeyTuple → List Str
  | .item id key => [id, key]
  | .file id counter => [id, leveldbKeyTorrentTorrentFiles, toText counter]
  | .mapflepce id counter => [id, leveldbChildNodeTorrentFilesMapflepce, toText counter]
  | .tracker id counter => [id, leveldbKeyTorrentTrackers, toText counter]

/-- The key of a tuple. -/
def KeyTuple.key (t : KeyTuple) : Str := multipartKey t.parts

/-- A part of a key: not empty, and without the separator. -/
def KeyPart (part : Str) : Prop := part ≠ [] ∧ '_' ∉ part

instance (part : Str) : Decidable (KeyPart part) := inferInstanceAs (Decidable (_ ∧ _))

theorem keyPart_id (id : DigitId) : KeyPart id.1 :=
  ⟨id.2.1, fun hc => absurd (id.2.2 _ hc) (by decide)⟩

theorem keyPart_leveldbKeys : ∀ key ∈ leveldbKeys, KeyPart key := by decide

theorem keyPart_toText (n : Int) : KeyPart (toText n) :=
  ⟨toText_ne_nil n, not_mem_toText (by decide) (by decide)⟩

theorem KeyTuple.keyPart (t : KeyTuple) : ∀ part ∈ t.parts, KeyPart part := by
  have hfiles : KeyPart leveldbKeyTorrentTorrentFiles := by decide
  have hpieces : KeyPart leveldbChildNodeTorrentFilesMapflepce := by decide
  have htrackers : KeyPart leveldbKeyTorrentTrackers := by decide
  cases t with
  | item id key =>
    simp only [KeyTuple.parts, List.forall_mem_cons]
    exact ⟨keyPart_id id, keyPart_leveldbKeys key.1 key.2, fun _ h => absurd h List.not_mem_nil⟩
  | file id counter =>
    simp only [KeyTuple.parts, List.forall_mem_cons]
    exact ⟨keyPart_id id, hfiles, keyPart_toText _, fun _ h => absurd h List.not_mem_nil⟩
  | mapflepce id counter =>
    simp only [KeyTuple.parts, List.forall_mem_cons]
    exact ⟨keyPart_id id, hpieces, keyPart_toText _, fun _ h => absurd h List.not_mem_nil⟩
  | tracker id counter =>
    simp only [KeyTuple.parts, List.forall_mem_cons]
    exact ⟨keyPart_id id, htrackers, keyPart_toText _, fun _ h => absurd h List.not_mem_nil⟩

/-- The parts can be told from the key. -/
theorem KeyTuple.getlines_key (t : KeyTuple) : getlines '_' t.key = t.parts := by
  apply getlines_joined
  · intro part hpart
    exact (t.keyPart part hpart).2
  · intro part hlast
    exact (t.keyPart part (List.mem_of_getLast? hlast)).1

/-- Different tuples have different parts: the kinds of the three lists differ, and an item
has two parts. -/
theorem KeyTuple.parts_injective : Function.Injective KeyTuple.parts := by
  have hkinds : leveldbKeyTorrentTorrentFiles ≠ leveldbChildNodeTorrentFilesMapflepce ∧
      leveldbKeyTorrentTorrentFiles ≠ leveldbKeyTorrentTrackers ∧
      leveldbChildNodeTorrentFilesMapflepce ≠ leveldbKeyTorrentTrackers := by decide
  intro t t' h
  rcases t with ⟨id, key⟩ | ⟨id, n⟩ | ⟨id, n⟩ | ⟨id, n⟩ <;>
    rcases t' with ⟨id', key'⟩ | ⟨id', n'⟩ | ⟨id', n'⟩ | ⟨id', n'⟩ <;>
    simp only [KeyTuple.parts, List.cons.injEq, reduceCtorEq, and_false, and_true,
      toText_injective.eq_iff, Subtype.val_inj, hkinds.1, hkinds.2.1, hkinds.2.2,
      hkinds.1.symm, hkinds.2.1.symm, hkinds.2.2.symm, false_and, true_and] at h
  all_goals
    rcases h with ⟨rfl, rfl⟩
    rfl

/-- `multipart_key` is injective on the tuples. -/
theorem key_injective : Function.Injective KeyTuple.key := by
  intro t t' h
  apply KeyTuple.parts_injective
  rw [← t.getlines_key, h, t'.getlines_key]

/-- No key is that of the index, which has no underscore in it. -/
theorem key_ne_index (t : KeyTuple) : t.key ≠ leveldbStoreUniqueId := by
  intro h
  have hplain : '_' ∉ leveldbStoreUniqueId := by decide
  rw [← h] at hplain
  apply hplain
  cases t with
  | item id key => simp [KeyTuple.key, KeyTuple.parts, multipartKey]
  | file id counter => simp [KeyTuple.key, KeyTuple.parts, multipartKey]
  | mapflepce id counter => simp [KeyTuple.key, KeyTuple.parts, multipartKey]
  | tracker id counter => simp [KeyTuple.key, KeyTuple.parts, multipartKey]

/-! ## Frames -/

/-- Whatever faults it meets and however it ends, the program leaves what `read_item_db`
reads of the ids and keys, and the index. -/
def LeavesItems {α : Type} (p : DbProg α) (others : DigitId → LeveldbKey → Prop) : Prop :=
  ∀ (F : Faults Str) (m : Machine Str Str Str),
    (∀ id key, others id key →
      (run (readItemDb id.1 key.1) (exec F p m).2.store).1 =
        (run (readItemDb id.1 key.1) m.store).1) ∧
    (exec F p m).2.store leveldbStoreUniqueId = m.store leveldbStoreUniqueId

/-- A program that writes keys of certain tuples leaves the items of other ones. -/
theorem leavesItems_of_writesOnly {α : Type} {p : DbProg α} {T : KeyTuple → Prop}
    {others : DigitId → LeveldbKey → Prop} (hp : WritesOnly (fun k => ∃ t, T t ∧ t.key = k) p)
    (hothers : ∀ id key, others id key → ¬ T (.item id key)) : LeavesItems p others := by
  intro F m
  constructor
  · intro id key hother
    have hkey : ¬ ∃ t, T t ∧ t.key = (KeyTuple.item id key).key := by
      rintro ⟨t, ht, heq⟩
      rw [key_injective heq] at ht
      exact hothers id key hother ht
    have hstore := hp.exec_store hkey F m
    -- an item is read from its own key only
    have hread : ∀ {s t : Db}, s (multipartKey [id.1, key.1]) = t (multipartKey [id.1, key.1]) →
        (run (readItemDb id.1 key.1) s).1 = (run (readItemDb id.1 key.1) t).1 := by
      intro s t hsame
      simp only [readItemDb, run_locked, getOrThrow, run_get, hsame]
      cases t (multipartKey [id.1, key.1]) with
      | none => rfl
      | some v => rfl
    exact hread hstore
  · apply hp.exec_store
    rintro ⟨t, -, heq⟩
    exact key_ne_index t heq

section Writers

variable {P : Str → Prop}

theorem writesOnly_addItemDb {id key : Str} (h : P (multipartKey [id, key])) (value : Str) :
    WritesOnly P (addItemDb id key value) := by
  apply WritesOnly.locked
  apply WritesOnly.writeOrThrow
  simp only [putBatch, List.forall_mem_cons]
  exact ⟨h, h, fun _ hop => absurd hop List.not_mem_nil⟩

theorem writesOnly_delItemDb {id key : Str} (h : P (multipartKey [id, key])) :
    WritesOnly P (delItemDb id key) := by
  apply WritesOnly.locked
  apply WritesOnly.writeOrThrow
  simp only [deleteBatch, List.forall_mem_cons]
  exact ⟨h, fun _ hop => absurd hop List.not_mem_nil⟩

/-- The loop of the two addendum writers, numbered on from a positive counter. -/
theorem writesOnly_writeEach {α : Type} {batch : Int → α → List (Op Str Str)}
    (h : ∀ n a, 0 < n → ∀ op ∈ batch n a, P op.key) {counter : Int} (hcounter : 0 < counter)
    (l : List α) : WritesOnly P (writeEach batch counter l) := by
  induction l generalizing counter with
  | nil => exact .ret true
  | cons a l ih =>
    rw [writeEach]
    apply WritesOnly.bind
    · apply WritesOnly.locked
      refine .write (h counter a hcounter) ?_
      intro x
      cases x with
      | none => exact .ret true
      | some e => exact .ret false
    · intro ok
      split
      · exact ih (by omega)
      · exact .ret false

end Writers

/-- The tuples of the files of a torrent, and those of its trackers. -/
def KeyTuple.IsFile (id : DigitId) (t : KeyTuple) : Prop :=
  ∃ counter, t = .file id counter ∨ t = .mapflepce id counter

def KeyTuple.IsTracker (id : DigitId) (t : KeyTuple) : Prop := ∃ counter, t = .tracker id counter

theorem writesOnly_writeTorrentFilesAddendum (id : DigitId) (files : List TorrentFile) :
    WritesOnly (fun k => ∃ t : KeyTuple, t.IsFile id ∧ t.key = k)
      (writeTorrentFilesAddendum files id.1) := by
  unfold writeTorrentFilesAddendum
  split
  · refine writesOnly_writeEach (fun n f hn => ?_) (by decide) files
    have hfile : ∃ t : KeyTuple, t.IsFile id ∧ t.key = fileKey id.1 n :=
      ⟨.file id ⟨n, hn⟩, ⟨⟨n, hn⟩, .inl rfl⟩, rfl⟩
    have hpieces : ∃ t : KeyTuple, t.IsFile id ∧ t.key = mapflepceKey id.1 n :=
      ⟨.mapflepce id ⟨n, hn⟩, ⟨⟨n, hn⟩, .inr rfl⟩, rfl⟩
    simp only [fileBatch, List.forall_mem_cons]
    exact ⟨hfile, hpieces, hfile, hpieces, fun _ hop => absurd hop List.not_mem_nil⟩
  · exact .ret false

theorem writesOnly_writeTorrentTrkrsAddendum (id : DigitId) (trackers : List TorrentTrackers) :
    WritesOnly (fun k => ∃ t : KeyTuple, t.IsTracker id ∧ t.key = k)
      (writeTorrentTrkrsAddendum trackers id.1) := by
  unfold writeTorrentTrkrsAddendum
  split
  · refine writesOnly_writeEach (fun n f hn => ?_) (by decide) trackers
    have htracker : ∃ t : KeyTuple, t.IsTracker id ∧ t.key = trackerKey id.1 n :=
      ⟨.tracker id ⟨n, hn⟩, ⟨⟨n, hn⟩, rfl⟩, rfl⟩
    simp only [trackerBatch, List.forall_mem_cons]
    exact ⟨htracker, htracker, fun _ hop => absurd hop List.not_mem_nil⟩
  · exact .ret true

/-- **The key space.** Keys of different tuples differ, and from that of the index. So
`add_item_db` and `del_item_db` leave every other item and the index, and the two writers
of the lists of a torrent leave every item and the index. -/
theorem keys_apart :
    Function.Injective KeyTuple.key ∧ (∀ t : KeyTuple, t.key ≠ leveldbStoreUniqueId) ∧
    (∀ (id : DigitId) (key : LeveldbKey) (value : Str),
      LeavesItems (addItemDb id.1 key.1 value) fun id' key' => (id', key') ≠ (id, key)) ∧
    (∀ (id : DigitId) (key : LeveldbKey),
      LeavesItems (delItemDb id.1 key.1) fun id' key' => (id', key') ≠ (id, key)) ∧
    (∀ (id : DigitId) (files : List TorrentFile),
      LeavesItems (writeTorrentFilesAddendum files id.1) fun _ _ => True) ∧
    (∀ (id : DigitId) (trackers : List TorrentTrackers),
      LeavesItems (writeTorrentTrkrsAddendum trackers id.1) fun _ _ => True) := by
  have hitem : ∀ (id : DigitId) (key : LeveldbKey), ∃ t : KeyTuple, t = .item id key ∧
      t.key = multipartKey [id.1, key.1] := fun id key => ⟨_, rfl, rfl⟩
  have hother : ∀ (id id' : DigitId) (key key' : LeveldbKey), (id', key') ≠ (id, key) →
      KeyTuple.item id' key' ≠ .item id key := by
    intro id id' key key' hne heq
    rcases KeyTuple.item.inj heq with ⟨rfl, rfl⟩
    exact hne rfl
  refine ⟨key_injective, key_ne_index, ?_, ?_, ?_, ?_⟩
  · intro id key value
    exact leavesItems_of_writesOnly (writesOnly_addItemDb (hitem id key) value)
      fun id' key' => hother id id' key key'
  · intro id key
    exact leavesItems_of_writesOnly (writesOnly_delItemDb (hitem id key))
      fun id' key' => hother id id' key key'
  · intro id files
    refine leavesItems_of_writesOnly (writesOnly_writeTorrentFilesAddendum id files) ?_
    -- a file writes its values under a counter, which no item has
    rintro id' key' - ⟨counter, heq | heq⟩
    · cases heq
    · cases heq
  · intro id trackers
    refine leavesItems_of_writesOnly (writesOnly_writeTorrentTrkrsAddendum id trackers) ?_
    rintro id' key' - ⟨counter, heq⟩
    cases heq

end FyreDL.Store
