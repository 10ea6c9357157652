import FyreDL.Store.TorrentRead

/-!
# FyreDL.Store.TorrentReadable — torrents that can be read

`readTorrentItems` returns something only if it can read every torrent that the index
lists.

1. **Rounds**: more fuel never changes what ends (`approx_readTorrentItem`), so that a
   torrent is *readable* when some number of rounds is enough.
2. **Writing nothing**: reading leaves the store as it is.
3. **Readable**: a list of readable torrents can be read with one number of rounds for
   all, and records come of such a list only (`readTorrentRecords_ret`).
   `torrentReadable_stored` and `TorrentReadable.of_stored` tell which stored torrents
   are readable.
4. **Shown**: `ShowsTorrents ord s records`.
-/

namespace FyreDL.Store

open Lib Lib.Kv Csv

/-! ## Rounds -/

section Rounds

variable {fuel fuel' : Nat}

theorem approx_readFileRows (hle : fuel ≤ fuel') (downloadKey : Str) (rd : GkCsvReader)
    (vars : Vars) (item : TorrentFile) (st : Statics) :
    Approx (readFileRows downloadKey rd fuel vars item st)
      (readFileRows downloadKey rd fuel' vars item st) := by
  induction fuel generalizing fuel' vars item st with
  | zero => exact .hang _
  | succ fuel ih =>
    obtain ⟨fuel', rfl⟩ : ∃ n, fuel' = n + 1 := ⟨fuel' - 1, by omega⟩
    rw [readFileRows, readFileRows]
    rcases readRow rd (List.range 8) vars st with _ | ⟨_ | _, vars', st'⟩
    · exact .hang _
    · exact .refl _
    · apply Approx.bind (.refl _)
      rintro ⟨item', st''⟩
      apply Approx.bind (ih (by omega) vars' item' st'')
      intro rest
      exact .refl _

theorem approx_readFileText (hle : fuel ≤ fuel') (downloadKey text : Str) :
    Approx (readFileText fuel downloadKey text) (readFileText fuel' downloadKey text) := by
  unfold readFileText
  split
  · apply Approx.bind (.refl _)
    rintro ⟨rd, st⟩
    exact approx_readFileRows hle downloadKey rd _ _ st
  · exact .refl _

theorem approx_readFilesFrom (hle : fuel ≤ fuel') (downloadKey : Str) (left : Nat) (counter : Int)
    (toFiles : List TorrentFile) :
    Approx (readFilesFrom fuel downloadKey left counter toFiles)
      (readFilesFrom fuel' downloadKey left counter toFiles) := by
  induction left generalizing counter toFiles with
  | zero => exact .refl _
  | succ left ih =>
    apply Approx.get
    intro answer
    cases answer with
    | found text =>
      apply Approx.bind (approx_readFileText hle downloadKey text)
      intro files
      exact ih _ _
    | notFound => exact .refl _
    | error e => exact .refl _

/-- More rounds do not change a reading that ends. -/
theorem approx_readTorrentItem (hle : fuel ≤ fuel') (minimalReadout : Bool) (e : Entry) :
    Approx (readTorrentItem fuel minimalReadout e) (readTorrentItem fuel' minimalReadout e) := by
  unfold readTorrentItem
  apply Approx.bind (.refl _)
  intro values
  refine Approx.bind ?_ fun files => .refl _
  unfold readTorrentFiles
  split
  · exact .refl _
  · refine Approx.bind ?_ fun files => .refl _
    unfold readTorrentFilesAddendum
    split
    · exact Approx.locked (approx_readFilesFrom hle _ _ _ _)
    · exact .refl _

theorem approx_readTorrentRecords (hle : fuel ≤ fuel') (minimalReadout : Bool) (es : List Entry) :
    Approx (readTorrentRecords fuel minimalReadout es)
      (readTorrentRecords fuel' minimalReadout es) := by
  induction es with
  | nil => exact .refl _
  | cons e es ih =>
    rw [readTorrentRecords, readTorrentRecords]
    split
    · apply Approx.bind (approx_readTorrentItem hle minimalReadout e)
      intro r
      apply Approx.bind ih
      intro rest
      exact .refl _
    · exact ih

theorem approx_readTorrentItems (hle : fuel ≤ fuel') (ord : IterOrder Entry)
    (minimalReadout : Bool) :
    Approx (readTorrentItems fuel ord minimalReadout)
      (readTorrentItems fuel' ord minimalReadout) := by
  apply Approx.tryCatch
  apply Approx.bind (.refl _)
  intro ids
  split
  · exact approx_readTorrentRecords hle minimalReadout _
  · exact .refl _

end Rounds

/-! ## Reading writes nothing -/

section NoWrites

theorem noWrites_openRows (columnCount : Nat) (data : Str) (headers columns : List Str)
    (downloadKey : Str) (st : Statics) :
    NoWrites (openRows columnCount data headers columns downloadKey st) := by
  unfold openRows
  split
  · exact .throw _
  · split
    · exact .throw _
    · exact .ret _
    · exact .warn (.ret _)

theorem noWrites_readFileRow (downloadKey : Str) (vars : Vars) (item : TorrentFile)
    (st : Statics) : NoWrites (readFileRow downloadKey vars item st) := by
  unfold readFileRow
  split
  · dsimp only
    split
    · have hget : NoWrites (getMapflepce downloadKey (vars 5)) := by
        apply NoWrites.get
        intro answer
        cases answer with
        | found v => exact .ret v
        | notFound => exact .throw _
        | error e => exact .throw _
      apply hget.bind
      intro data
      apply (noWrites_openRows _ _ _ _ _ _).bind
      rintro ⟨rd, st'⟩
      dsimp only
      split
      · exact .hang
      · exact .ret _
      · exact .ret _
    · exact .throw _
  · exact .ret _

theorem noWrites_readFileRows (downloadKey : Str) (rd : GkCsvReader) (fuel : Nat) (vars : Vars)
    (item : TorrentFile) (st : Statics) :
    NoWrites (readFileRows downloadKey rd fuel vars item st) := by
  induction fuel generalizing vars item st with
  | zero => exact .hang
  | succ fuel ih =>
    rw [readFileRows]
    rcases readRow rd (List.range 8) vars st with _ | ⟨_ | _, vars', st'⟩
    · exact .hang
    · exact .ret _
    · apply (noWrites_readFileRow downloadKey vars' item st').bind
      rintro ⟨item', st''⟩
      apply (ih vars' item' st'').bind
      intro rest
      exact .ret _

theorem noWrites_readFileText (fuel : Nat) (downloadKey text : Str) :
    NoWrites (readFileText fuel downloadKey text) := by
  unfold readFileText
  split
  · apply (noWrites_openRows _ _ _ _ _ _).bind
    rintro ⟨rd, st⟩
    exact noWrites_readFileRows downloadKey rd fuel _ _ st
  · exact .ret _

theorem noWrites_readFilesFrom (fuel : Nat) (downloadKey : Str) (left : Nat) (counter : Int)
    (toFiles : List TorrentFile) :
    NoWrites (readFilesFrom fuel downloadKey left counter toFiles) := by
  induction left generalizing counter toFiles with
  | zero => exact .ret _
  | succ left ih =>
    apply NoWrites.get
    intro answer
    cases answer with
    | found text => exact (noWrites_readFileText fuel downloadKey text).bind fun files => ih _ _
    | notFound => exact .ret _
    | error e => exact .ret _

theorem noWrites_readTrackerText (downloadKey text : Str) :
    NoWrites (readTrackerText downloadKey text) := by
  unfold readTrackerText
  split
  · apply (noWrites_openRows _ _ _ _ _ _).bind
    rintro ⟨rd, st⟩
    dsimp only
    split
    · exact .hang
    · split
      · exact .ret _
      · exact .ret _
  · exact .ret _

theorem noWrites_readTracker (downloadKey : Str) (counter : Int) :
    NoWrites (readTracker downloadKey counter) := by
  apply NoWrites.locked
  apply NoWrites.get
  intro answer
  cases answer with
  | found text => exact (noWrites_readTrackerText downloadKey text).bind fun _ => .ret _
  | notFound => exact .ret _
  | error e => exact .ret _

theorem noWrites_readTorrentTrkrsAddendum (numTrackers : Int) (downloadKey : Str) :
    NoWrites (readTorrentTrkrsAddendum numTrackers downloadKey) := by
  by_cases hpos : numTrackers > 0
  · rw [readTorrentTrkrsAddendum_pos hpos]
    exact (noWrites_readTracker downloadKey numTrackers).bind fun _ => .ret _
  · rw [readTorrentTrkrsAddendum, if_neg hpos]
    exact .ret _

theorem noWrites_readTorrentFiles (fuel : Nat) (minimalReadout : Bool) (genInfo : GeneralInfo) :
    NoWrites (readTorrentFiles fuel minimalReadout genInfo) := by
  unfold readTorrentFiles
  split
  · exact .ret _
  · refine NoWrites.bind ?_ fun files => ?_
    · unfold readTorrentFilesAddendum
      split
      · exact NoWrites.locked (noWrites_readFilesFrom _ _ _ _ _)
      · exact .ret _
    · split
      · exact .ret _
      · exact .throw _

theorem noWrites_readTorrentItem (fuel : Nat) (minimalReadout : Bool) (e : Entry) :
    NoWrites (readTorrentItem fuel minimalReadout e) := by
  unfold readTorrentItem
  apply (noWrites_readItems _ _).bind
  intro values
  -- first the files, then the trackers
  apply (noWrites_readTorrentFiles _ _ _).bind
  intro files
  apply (noWrites_readTorrentTrkrsAddendum _ _).bind
  intro trackers
  split
  · exact .ret _
  · exact .throw _

theorem noWrites_readTorrentRecords (fuel : Nat) (minimalReadout : Bool) (es : List Entry) :
    NoWrites (readTorrentRecords fuel minimalReadout es) := by
  induction es with
  | nil => exact .ret _
  | cons e es ih =>
    rw [readTorrentRecords]
    split
    · refine (noWrites_readTorrentItem fuel minimalReadout e).bind ?_
      intro r
      exact ih.bind fun rest => .ret _
    · exact ih

/-- Showing the torrents writes nothing. -/
theorem noWrites_readTorrentItems (fuel : Nat) (ord : IterOrder Entry) (minimalReadout : Bool) :
    NoWrites (readTorrentItems fuel ord minimalReadout) := by
  refine NoWrites.tryCatch ?_ fun e => .warn (.ret [])
  refine (readsOnly_extractDownloadIds true).noWrites.bind ?_
  intro ids
  split
  · exact noWrites_readTorrentRecords _ _ _
  · exact .ret _

end NoWrites

/-! ## The ids of the records -/

/-- A record has the id of its entry. -/
theorem ends_readTorrentItem (fuel : Nat) (minimalReadout : Bool) (e : Entry) :
    Ends (fun r => r.general.uniqueId = e.1) (fun _ => True)
      (readTorrentItem fuel minimalReadout e) := by
  refine (Ends.any _).bind ?_
  intro values _
  refine (Ends.any _).bind ?_
  intro files _
  refine (Ends.any _).bind ?_
  intro trackers _
  split
  · exact .ret rfl
  · exact .throw trivial

/-- Each record is that of a torrent of the list. -/
theorem ends_readTorrentRecords (fuel : Nat) (minimalReadout : Bool) (es : List Entry) :
    Ends (fun records => ∀ r ∈ records, ∃ e ∈ es, IsTorrent e ∧ r.general.uniqueId = e.1)
      (fun _ => True) (readTorrentRecords fuel minimalReadout es) := by
  induction es with
  | nil => exact .ret fun r hr => absurd hr List.not_mem_nil
  | cons e es ih =>
    rw [readTorrentRecords]
    split
    · rename_i htorrent
      refine (ends_readTorrentItem fuel minimalReadout e).bind ?_
      intro r hid
      refine ih.bind fun rest hrest => .ret ?_
      intro q hq
      rcases List.mem_cons.mp hq with rfl | hin
      · exact ⟨e, List.mem_cons_self, htorrent, hid⟩
      · rcases hrest q hin with ⟨d, hd, hdq⟩
        exact ⟨d, List.mem_cons_of_mem _ hd, hdq⟩
    · refine ih.mono ?_
      intro records h r hr
      rcases h r hr with ⟨d, hd, hdr⟩
      exact ⟨d, List.mem_cons_of_mem _ hd, hdr⟩

/-! ## Readable torrents -/

/-- Some number of rounds is enough to read the torrent of an entry. -/
def TorrentReadable (s : Db) (e : Entry) : Prop :=
  ∃ fuel r, (run (readTorrentItem fuel false e) s).1 = .ret r

section Readable

variable {s : Db} {e : Entry} {fuel fuel' : Nat} {r : TorrentInfo}

/-- A reading that ends does so with more rounds, and leaves the store as it is. -/
theorem run_readTorrentItem_of_le (h : (run (readTorrentItem fuel false e) s).1 = .ret r)
    (hle : fuel ≤ fuel') : run (readTorrentItem fuel' false e) s = (.ret r, s) := by
  rw [(approx_readTorrentItem hle false e).run s (by rw [h]; exact fun hc => by cases hc)]
  exact (noWrites_readTorrentItem fuel false e).run_eq h

/-- The id of a record is that of its entry. -/
theorem readTorrentItem_id {minimalReadout : Bool} {s' : Db}
    (h : run (readTorrentItem fuel minimalReadout e) s = (.ret r, s')) :
    r.general.uniqueId = e.1 := (ends_readTorrentItem fuel minimalReadout e).run_ret h

/-- One number of rounds for all of a list. -/
theorem readable_all {es : List Entry} (h : ∀ e ∈ es, IsTorrent e → TorrentReadable s e) :
    ∃ fuel, ∀ e ∈ es, IsTorrent e → ∃ r, run (readTorrentItem fuel false e) s = (.ret r, s) := by
  induction es with
  | nil => exact ⟨0, fun e he => absurd he List.not_mem_nil⟩
  | cons d es ih =>
    rcases ih fun e he => h e (List.mem_cons_of_mem _ he) with ⟨fuel, hall⟩
    by_cases hd : IsTorrent d
    · rcases h d List.mem_cons_self hd with ⟨own, r, hr⟩
      -- what one number of rounds reads, every larger one reads too
      refine ⟨max fuel own, ?_⟩
      intro e he htorrent
      rcases List.mem_cons.mp he with rfl | hin
      · exact ⟨r, run_readTorrentItem_of_le hr (Nat.le_max_right _ _)⟩
      · rcases hall e hin htorrent with ⟨q, hq⟩
        exact ⟨q, run_readTorrentItem_of_le (by rw [hq]) (Nat.le_max_left _ _)⟩
    · refine ⟨fuel, ?_⟩
      intro e he htorrent
      rcases List.mem_cons.mp he with rfl | hin
      · exact absurd htorrent hd
      · exact hall e hin htorrent

/-- All torrents of a list can be read: their records, under their ids. -/
theorem run_readTorrentRecords {es : List Entry}
    (h : ∀ e ∈ es, IsTorrent e → ∃ r, run (readTorrentItem fuel false e) s = (.ret r, s)) :
    ∃ records, run (readTorrentRecords fuel false es) s = (.ret records, s) ∧
      records.map (fun r => r.general.uniqueId) =
        (es.filter fun e => IsTorrent e).map Prod.fst := by
  induction es with
  | nil => exact ⟨[], rfl, rfl⟩
  | cons d es ih =>
    rcases ih fun e he => h e (List.mem_cons_of_mem _ he) with ⟨records, hrun, hids⟩
    rw [readTorrentRecords]
    by_cases hd : IsTorrent d
    · rcases h d List.mem_cons_self hd with ⟨r, hr⟩
      refine ⟨r :: records, ?_, ?_⟩
      · rw [if_pos hd, run_bind_ret hr, run_bind_ret hrun]
        rfl
      · rw [List.filter_cons_of_pos (by simpa using hd), List.map_cons, List.map_cons, hids,
          readTorrentItem_id hr]
    · -- the reader skips an HTTP/FTP download
      refine ⟨records, ?_, ?_⟩
      · rw [if_neg hd]
        exact hrun
      · rw [List.filter_cons_of_neg (by simpa using hd), hids]

/-- All torrents of a list are read, in its order. -/
theorem run_readTorrentRecords_each {minimalReadout : Bool} {record : Entry → TorrentInfo}
    {es : List Entry}
    (h : ∀ e ∈ es, IsTorrent e →
      run (readTorrentItem fuel minimalReadout e) s = (.ret (record e), s)) :
    run (readTorrentRecords fuel minimalReadout es) s =
      (.ret ((es.filter fun e => IsTorrent e).map record), s) := by
  induction es with
  | nil => rfl
  | cons e es ih =>
    have hrest := ih fun d hd => h d (List.mem_cons_of_mem _ hd)
    rw [readTorrentRecords]
    by_cases he : IsTorrent e
    · rw [if_pos he, run_bind_ret (h e List.mem_cons_self he), run_bind_ret hrest,
        List.filter_cons_of_pos (by simpa using he)]
      rfl
    · rw [if_neg he, hrest, List.filter_cons_of_neg (by simpa using he)]

/-- Records only come of a list of which every torrent can be read. -/
theorem readTorrentRecords_ret {s' : Db} {es : List Entry} {records : List TorrentInfo}
    (h : run (readTorrentRecords fuel false es) s = (.ret records, s')) :
    (∀ e ∈ es, IsTorrent e → TorrentReadable s e) ∧
      records.map (fun r => r.general.uniqueId) =
        (es.filter fun e => IsTorrent e).map Prod.fst := by
  induction es generalizing records s' with
  | nil =>
    cases h
    exact ⟨fun e he => absurd he List.not_mem_nil, rfl⟩
  | cons d es ih =>
    rw [readTorrentRecords] at h
    by_cases hd : IsTorrent d
    · rw [if_pos hd] at h
      rcases run_bind_eq_ret h with ⟨r, s₁, hr, hrest⟩
      -- the first torrent was read from the store that the others are read from
      obtain rfl : s₁ = s := (noWrites_readTorrentItem fuel false d).store_eq hr
      rcases run_bind_eq_ret hrest with ⟨rest, s₂, hrecords, hpure⟩
      cases hpure
      rcases ih hrecords with ⟨hread, hids⟩
      constructor
      · intro e he htorrent
        rcases List.mem_cons.mp he with rfl | hin
        · exact ⟨fuel, r, by rw [hr]⟩
        · exact hread e hin htorrent
      · rw [List.filter_cons_of_pos (by simpa using hd), List.map_cons, List.map_cons, hids,
          readTorrentItem_id hr]
    · rw [if_neg hd] at h
      rcases ih h with ⟨hread, hids⟩
      constructor
      · intro e he htorrent
        rcases List.mem_cons.mp he with rfl | hin
        · exact absurd htorrent hd
        · exact hread e hin htorrent
      · rw [List.filter_cons_of_neg (by simpa using hd), hids]

/-- A stored torrent is readable when it has files, trackers and clean SHA-1 fields. -/
theorem torrentReadable_stored {info : TorrentInfo} (h : TorrentStored s info)
    (hwf : WellFormed info) (hfiles : info.filesVec ≠ []) (htrackers : info.trackers ≠ [])
    (hhash : ∀ f ∈ info.filesVec, CleanCell f.sha1HashHex) :
    TorrentReadable s (torrentEntry info) :=
  ⟨2, readBackTorrent info, by rw [run_readTorrentItem h hwf hfiles htrackers hhash 0]⟩

/-- And only then, if the SHA-1 fields are clean or empty. Nothing is stored under the bare
texts of a boolean, as no writer does. -/
theorem TorrentReadable.of_stored {info : TorrentInfo} (h : TorrentStored s info)
    (hwf : WellFormed info) (hhex : HexOrEmpty info) (hbare : ∀ b : Bool, s (boolText b) = none)
    (hread : TorrentReadable s (torrentEntry info)) :
    info.trackers ≠ [] ∧ ∀ f ∈ info.filesVec, CleanCell f.sha1HashHex := by
  rcases hread with ⟨fuel, r, hr⟩
  constructor
  · intro hnil
    exact readTorrentItem_no_trackers h hwf hnil fuel r hr
  · intro f hf
    apply (hhex f hf).resolve_left
    intro hnil
    have hmore := run_readTorrentItem_of_le hr (Nat.le_add_right fuel 2)
    exact readTorrentItem_empty_hash h hwf hhex ⟨f, hf, hnil⟩ hbare fuel r (by rw [hmore])

end Readable

/-! ## Shown -/

/-- `readTorrentItems(false)` returns these records. -/
def ShowsTorrents (ord : IterOrder Entry) (s : Db) (records : List TorrentInfo) : Prop :=
  ∃ fuel, (run (readTorrentItems fuel ord false) s).1 = .ret records

section Shown

variable {s : Db} {cache : List Entry} {ord : IterOrder Entry}

/-- What is shown does not depend on the number of rounds. -/
theorem ShowsTorrents.unique {records records' : List TorrentInfo}
    (h : ShowsTorrents ord s records) (h' : ShowsTorrents ord s records') : records = records' := by
  rcases h with ⟨fuel, hret⟩
  rcases h' with ⟨fuel', hret'⟩
  have hmore : ∀ {f g : Nat} {rs : List TorrentInfo}, f ≤ g →
      (run (readTorrentItems f ord false) s).1 = .ret rs →
      (run (readTorrentItems g ord false) s).1 = .ret rs := by
    intro f g rs hle hf
    rw [(approx_readTorrentItems hle ord false).run s (by rw [hf]; exact fun hc => by cases hc)]
    exact hf
  have hleft := hmore (Nat.le_max_left fuel fuel') hret
  have hright := hmore (Nat.le_max_right fuel fuel') hret'
  rw [hleft] at hright
  exact Outcome.ret.inj hright

/-- The ids of a map whose entries are torrents, in any order. -/
theorem mem_ids_order (htorrent : ∀ e ∈ cache, IsTorrent e) {id : Str} :
    id ∈ ((ord.order cache).filter fun e => IsTorrent e).map Prod.fst ↔
      id ∈ cache.map Prod.fst := by
  have hall : ((ord.order cache).filter fun e => IsTorrent e) = ord.order cache := by
    rw [List.filter_eq_self]
    intro e he
    exact decide_eq_true (htorrent e (ord.mem_order.mp he))
  rw [hall]
  exact ((ord.perm cache).map Prod.fst).mem_iff

/-- All listed torrents can be read: they are all shown. -/
theorem showsTorrents_of_readable (h : run (extractDownloadIds true) s = (.ret cache, s))
    (htorrent : ∀ e ∈ cache, IsTorrent e) (hread : ∀ e ∈ cache, TorrentReadable s e) :
    ∃ records, ShowsTorrents ord s records ∧
      ∀ id, id ∈ records.map (fun r => r.general.uniqueId) ↔ id ∈ cache.map Prod.fst := by
  have hordered : ∀ e ∈ ord.order cache, IsTorrent e → TorrentReadable s e :=
    fun e he _ => hread e (ord.mem_order.mp he)
  rcases readable_all hordered with ⟨fuel, hall⟩
  rcases run_readTorrentRecords hall with ⟨records, hrun, hids⟩
  -- an empty map is not iterated
  by_cases hne : cache = []
  · subst hne
    refine ⟨[], ⟨fuel, ?_⟩, fun id => Iff.rfl⟩
    rw [readTorrentItems, run_tryCatch, run_bind_ret h, if_neg (fun hc => hc rfl)]
    rfl
  · refine ⟨records, ⟨fuel, ?_⟩, ?_⟩
    · rw [readTorrentItems, run_tryCatch, run_bind_ret h, if_pos hne, hrun]
    · intro id
      rw [hids]
      exact mem_ids_order htorrent

/-- A record that is shown is that of a listed torrent. -/
theorem readTorrentItems_mem {fuel : Nat} {minimalReadout : Bool} {s' : Db}
    {records : List TorrentInfo}
    (hrun : run (readTorrentItems fuel ord minimalReadout) s = (.ret records, s'))
    {r : TorrentInfo} (hr : r ∈ records) :
    ∃ cache e, run (extractDownloadIds true) s = (.ret cache, s) ∧ e ∈ cache ∧ IsTorrent e ∧
      r.general.uniqueId = e.1 := by
  rcases run_tryCatch_eq_ret hrun with hbody | ⟨what, s₁, -, hhandler⟩
  · rcases run_bind_eq_ret hbody with ⟨cache, s₁, hextract, hrecords⟩
    obtain rfl : s₁ = s := (readsOnly_extractDownloadIds true).noWrites.store_eq hextract
    split at hrecords
    · rcases (ends_readTorrentRecords _ _ _).run_ret hrecords r hr with ⟨e, he, htorrent, hid⟩
      exact ⟨cache, e, hextract, ord.mem_order.mp he, htorrent, hid⟩
    · cases hrecords
      exact absurd hr List.not_mem_nil
  · cases hhandler
    exact absurd hr List.not_mem_nil

/-- Something is shown: then every listed torrent can be read, and what is shown is
listed. -/
theorem ShowsTorrents.readable {records : List TorrentInfo} (hshown : ShowsTorrents ord s records)
    (h : run (extractDownloadIds true) s = (.ret cache, s)) (htorrent : ∀ e ∈ cache, IsTorrent e)
    (hne : records ≠ []) :
    (∀ e ∈ cache, TorrentReadable s e) ∧
      ∀ id, id ∈ records.map (fun r => r.general.uniqueId) ↔ id ∈ cache.map Prod.fst := by
  rcases hshown with ⟨fuel, hret⟩
  have hrun : run (readTorrentItems fuel ord false) s =
      (.ret records, (run (readTorrentItems fuel ord false) s).2) := Prod.ext hret rfl
  rcases run_tryCatch_eq_ret hrun with hbody | ⟨what, s₁, -, hhandler⟩
  · rw [run_bind_ret h] at hbody
    split at hbody
    · rcases readTorrentRecords_ret hbody with ⟨hread, hids⟩
      constructor
      · intro e he
        exact hread e (ord.mem_order.mpr he) (htorrent e he)
      · intro id
        rw [hids]
        exact mem_ids_order htorrent
    · have hnil : Outcome.ret [] = Outcome.ret records := congrArg Prod.fst hbody
      cases hnil
      exact absurd rfl hne
  · -- the handler shows nothing
    have hnil : Outcome.ret [] = Outcome.ret records := congrArg Prod.fst hhandler
    cases hnil
    exact absurd rfl hne

end Shown

end FyreDL.Store
