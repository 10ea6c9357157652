import FyreDL.Csv.Lines
import FyreDL.Store.Database

/-!
# FyreDL.Store.Index — the unique-id index as a list of entries

What the programs of `FyreDL.Store.Database` do to the index, in terms of the list
of its entries:

1. **Encoding**: the text of a list of clean entries.
2. **Any text**: the rows that a reader gets of a text (`textRows`), and what the three
   readers make of it (`copiedIndex_eq`, `run_extractDownloadIds_rows`,
   `run_determineDownloadId_rows`). Of the text of clean entries they get the visible ones
   (`textRows_indexText`).
3. **Specifications**: `run_addDownloadId`, `run_extractDownloadIds`,
   `run_determineDownloadId` and `run_delDownloadId`, one for each program.
4. **Frame**: an item key is never the key of the index, and different
   `(id, key)` pairs have different item keys.

A reader ignores a text of at most `CFG_CSV_MIN_PARSE_SIZE` characters. The part
of the entries that it sees is `visible`; ids as `createId` draws them are long
enough to be always seen (`visible_of_createId`).
-/

namespace FyreDL.Store

open Lib Lib.Kv Csv

/-! ## Encoding -/

/-- An entry that an unquoted line can carry. -/
structure CleanEntry (e : Entry) : Prop where
  uid : CleanCell e.1
  path : CleanCell e.2.1

instance (e : Entry) : Decidable (CleanEntry e) :=
  decidable_of_iff (CleanCell e.1 ∧ CleanCell e.2.1)
    ⟨fun h => ⟨h.1, h.2⟩, fun h => ⟨h.uid, h.path⟩⟩

/-- The cells of an entry's line. -/
def entryCells (e : Entry) : List Str := [e.1, e.2.1, boolText e.2.2]

/-- The line of an entry. -/
def entryLine (e : Entry) : Str := indexLine e.1 e.2.1 (boolText e.2.2)

/-- The text of the index. -/
def indexText (es : List Entry) : Str := es.flatMap entryLine

@[simp] theorem indexText_nil : indexText [] = [] := rfl

@[simp] theorem indexText_cons (e : Entry) (es : List Entry) :
    indexText (e :: es) = entryLine e ++ indexText es := rfl

@[simp] theorem indexText_single (e : Entry) : indexText [e] = entryLine e :=
  List.append_nil _

theorem indexText_append (xs ys : List Entry) :
    indexText (xs ++ ys) = indexText xs ++ indexText ys := List.flatMap_append

theorem cleanCell_boolText (b : Bool) : CleanCell (boolText b) := by
  cases b
  · exact ⟨by decide, by decide, by decide⟩
  · exact ⟨by decide, by decide, by decide⟩

theorem CleanEntry.row {e : Entry} (h : CleanEntry e) : CleanRow 3 (entryCells e) := by
  refine ⟨rfl, ?_⟩
  intro v hv
  simp only [entryCells, List.mem_cons, List.not_mem_nil, or_false] at hv
  rcases hv with rfl | rfl | rfl
  · exact h.uid
  · exact h.path
  · exact cleanCell_boolText _

theorem entryLine_eq (e : Entry) : entryLine e = encodeRow (entryCells e) ++ ['\n'] := by
  simp [entryLine, indexLine, encodeRow, entryCells]

theorem indexText_eq (es : List Entry) :
    indexText es = terminated '\n' ((es.map entryCells).map encodeRow) := by
  induction es with
  | nil => rfl
  | cons e es ih =>
    rw [indexText_cons, ih, entryLine_eq, List.map_cons, List.map_cons, terminated_cons,
      List.append_assoc, List.singleton_append]

theorem entryLine_ne_nil (e : Entry) : entryLine e ≠ [] := by
  rw [entryLine_eq]
  simp

/-- The flag at the end of a line keeps it from ending in a carriage return. -/
theorem getLast_encodeRow_entryCells (e : Entry) :
    (encodeRow (entryCells e)).getLast? ≠ some '\r' := by
  obtain ⟨uid, path, flag⟩ := e
  cases flag
  · simp [encodeRow, entryCells, boolText, List.getLast?_append, List.getLast?_cons]
  · simp [encodeRow, entryCells, boolText, List.getLast?_append, List.getLast?_cons]

section Decoding

variable {es : List Entry}

theorem cleanRows (h : ∀ e ∈ es, CleanEntry e) :
    ∀ vs ∈ es.map entryCells, CleanRow 3 vs := by
  intro vs hvs
  obtain ⟨e, he, rfl⟩ := List.mem_map.mp hvs
  exact (h e he).row

theorem no_lf_lines (h : ∀ e ∈ es, CleanEntry e) :
    ∀ line ∈ (es.map entryCells).map encodeRow, '\n' ∉ line := by
  intro line hl
  obtain ⟨vs, hvs, rfl⟩ := List.mem_map.mp hl
  exact encodeRow_no_lf (cleanRows h vs hvs).plainRow

theorem getLast_lines (es : List Entry) :
    ∀ line ∈ (es.map entryCells).map encodeRow, line.getLast? ≠ some '\r' := by
  intro line hl
  obtain ⟨vs, hvs, rfl⟩ := List.mem_map.mp hl
  obtain ⟨e, -, rfl⟩ := List.mem_map.mp hvs
  exact getLast_encodeRow_entryCells e

/-- No carriage return of a path is taken for a line ending. -/
theorem dropCr_indexText (h : ∀ e ∈ es, CleanEntry e) : dropCr (indexText es) = indexText es := by
  have hcr : hasCrLf (indexText es) = false := by
    rw [indexText_eq]
    exact hasCrLf_terminated (no_lf_lines h) (getLast_lines es)
  rw [dropCr, hcr, if_neg Bool.false_ne_true]

theorem getlines_indexText (h : ∀ e ∈ es, CleanEntry e) :
    getlines '\n' (dropCr (indexText es)) = (es.map entryCells).map encodeRow := by
  rw [dropCr_indexText h, indexText_eq, getlines_terminated (no_lf_lines h)]

theorem lf_mem_indexText (hne : es ≠ []) : '\n' ∈ indexText es := by
  obtain ⟨e, rest, rfl⟩ := List.exists_cons_of_ne_nil hne
  rw [indexText_cons, entryLine_eq]
  simp

/-- The triple of strings a reader sees of an entry. -/
def entryStrings (e : Entry) : Str × Str × Str := (e.1, e.2.1, boolText e.2.2)

end Decoding

/-- The entries that a reader of the text sees. -/
def visible (es : List Entry) : List Entry := if parsable (indexText es) then es else []

theorem visible_of_parsable {es : List Entry} (h : parsable (indexText es) = true) :
    visible es = es := by rw [visible, if_pos h]

theorem ne_nil_of_parsable {es : List Entry} (h : parsable (indexText es) = true) : es ≠ [] := by
  rintro rfl
  exact absurd h (by decide)

theorem visible_subset {es : List Entry} {e : Entry} (h : e ∈ visible es) : e ∈ es := by
  unfold visible at h
  split at h
  · exact h
  · exact absurd h List.not_mem_nil

theorem cleanCell_of_createId {id : Str} (h : IsCreateId id) : CleanCell id := by
  obtain ⟨hlen, hdig⟩ := h
  refine ⟨?_, fun hc => ?_, fun hl => ?_⟩
  · rintro rfl
    exact absurd hlen (by decide)
  · exact absurd (hdig _ hc) (by decide)
  · exact absurd (hdig _ hl) (by decide)

/-- One id as `createId` draws it makes the text long enough to be seen. -/
theorem visible_of_mem {es : List Entry} {e : Entry} (he : e ∈ es) (hid : IsCreateId e.1) :
    visible es = es := by
  obtain ⟨before, after, rfl⟩ := List.append_of_mem he
  have hlen : e.1.length = 31 := hid.1
  apply visible_of_parsable
  simp only [parsable, indexText_append, indexText_cons, entryLine, indexLine,
    decide_eq_true_eq, ne_eq, List.append_eq_nil_iff, List.length_append, List.length_cons,
    cfgCsvMinParseSize, hlen]
  exact ⟨by simp, by omega⟩

/-- With ids as `createId` draws them, every entry is seen. -/
theorem visible_of_createId {es : List Entry} (h : ∀ e ∈ es, IsCreateId e.1) :
    visible es = es := by
  cases es with
  | nil => rfl
  | cons e rest => exact visible_of_mem List.mem_cons_self (h e List.mem_cons_self)

@[simp] theorem convertBoolFromInt_boolText (b : Bool) :
    convertBoolFromInt (ofText (boolText b)) = b := by
  cases b <;> decide

/-! ## Specifications -/

/-- The index of the store is the text of these entries; no index stands for none. -/
def Indexed (s : Db) (es : List Entry) : Prop :=
  (s leveldbStoreUniqueId).getD [] = indexText es

/-- An index with an entry is a stored one. -/
theorem Indexed.stored {s : Db} {es : List Entry} (h : Indexed s es) (hne : es ≠ []) :
    s leveldbStoreUniqueId = some (indexText es) := by
  obtain ⟨e, rest, rfl⟩ := List.exists_cons_of_ne_nil hne
  cases hs : s leveldbStoreUniqueId with
  | none =>
    have htext : [] = indexText (e :: rest) := by rw [← h, hs, Option.getD_none]
    rw [indexText_cons] at htext
    exact absurd (List.append_eq_nil_iff.mp htext.symm).1 (entryLine_ne_nil e)
  | some text =>
    have htext : text = indexText (e :: rest) := by rw [← h, hs, Option.getD_some]
    rw [htext]

@[simp] theorem run_getOrEmpty {α : Type} (key : Str) (f : Str → DbProg α) (s : Db) :
    run (getOrEmpty key >>= f) s = run (f ((s key).getD [])) s := by
  have hget : run (getOrEmpty key) s = (.ret ((s key).getD []), s) := by
    cases h : s key <;> simp [getOrEmpty, h, Answer.ofOption]
  exact run_bind_ret hget f

theorem run_getOrThrow {α : Type} {key v : Str} {s : Db} (h : s key = some v)
    (f : Str → DbProg α) : run (getOrThrow key >>= f) s = run (f v) s :=
  run_bind_ret (by simp [getOrThrow, h, Answer.ofOption]) f

/-- All entries are copied as they are. -/
theorem copiedLines_entries {es : List Entry} (h : ∀ e ∈ es, CleanEntry e) :
    copiedLines (es.map entryStrings) = indexText es := by
  have hkeep : (es.map entryStrings).filter isCopied = es.map entryStrings := by
    rw [List.filter_eq_self]
    intro t ht
    obtain ⟨e, he, rfl⟩ := List.mem_map.mp ht
    have hu := (h e he).uid.ne_nil
    have hp := (h e he).path.ne_nil
    simp [isCopied, entryStrings, hu, hp]
  rw [copiedLines, hkeep, List.flatMap_map]
  rfl

/-! ## Any text -/

/-- The values of the three variables in a row. -/
def rowStrings (vs : List Str) : Str × Str × Str := (vs.getD 0 [], vs.getD 1 [], vs.getD 2 [])

/-- The rows that a reader gets of the text of the index; `none` if it throws or hangs. -/
def textRows (text : Str) : Option (List (Str × Str × Str)) :=
  if parsable text then
    if '\n' ∈ text then (delivered 3 (getlines '\n' (dropCr text))).map (·.map rowStrings)
    else none
  else some []

/-- A program that fails to read the index. -/
def FailsToRead {α : Type} (p : DbProg α) : Prop := p = .hang ∨ ∃ what, p = .throw what

/-- **Reading any text.** What a program makes of the rows, if it gets them. -/
theorem readIndex_eq {α : Type} (text : Str) (f : List (Str × Str × Str) → DbProg α) :
    (∀ rows, textRows text = some rows →
      (if parsable text then do
        let p ← openIndex text
        let rows ← indexRows p.1 p.2
        f rows
      else f [] : DbProg α) = f rows) ∧
    (textRows text = none → FailsToRead
      (if parsable text then do
        let p ← openIndex text
        let rows ← indexRows p.1 p.2
        f rows
      else f [] : DbProg α)) := by
  unfold textRows
  by_cases hp : parsable text = true
  · rw [if_pos hp, if_pos hp]
    by_cases hlf : '\n' ∈ text
    · -- the constructor returns, and the loop goes over the lines
      rw [if_pos hlf, openIndex, make_eq true 3 indexHeaders Statics.reset hlf]
      generalize hrd : (⟨text, indexHeaders.length, (dataLines true text).length, true,
        indexHeaders, parseLines indexHeaders.length 1 (dataLines true text)⟩ : GkCsvReader) = rd
      have hparsed : Parsed rd 3 (getlines '\n' (dropCr text)) := by
        rw [← hrd]
        exact ⟨rfl, rfl, rfl⟩
      have hread := readAll_delivered hparsed (by omega)
      simp only [Prog.ret_bind, indexRows]
      rw [← hread]
      cases readAll rd 3 (fun _ => []) Statics.reset with
      | none =>
        refine ⟨fun rows hrows => ?_, fun _ => .inl rfl⟩
        cases hrows
      | some p =>
        refine ⟨fun rows hrows => ?_, fun hnone => ?_⟩
        · cases hrows
          rfl
        · cases hnone
    · rw [if_neg hlf]
      refine ⟨fun rows hrows => ?_, fun _ => ?_⟩
      · cases hrows
      · have hne : text ≠ [] := by
          rintro rfl
          exact absurd hp (by decide)
        have hmake : GkCsvReader.make 3 true text indexHeaders Statics.reset =
            .error noLineEndings := by
          simp [GkCsvReader.make, parseCsv, readRows, hne, hasCrLf_of_no_lf hlf, hlf, bind,
            Except.bind]
        right
        exact ⟨noLineEndings, by rw [openIndex, hmake]; rfl⟩
  · rw [if_neg hp, if_neg hp]
    refine ⟨fun rows hrows => ?_, fun hnone => ?_⟩
    · cases hrows
      rfl
    · cases hnone

/-- What `add_download_id` copies of the value that it finds. -/
theorem copiedIndex_eq : ∃ c, copiedIndex = .get leveldbStoreUniqueId c ∧
    ∀ v : Option Str,
      (∀ rows, textRows (v.getD []) = some rows → c (.ofOption v) = .ret (copiedLines rows)) ∧
      (textRows (v.getD []) = none → FailsToRead (c (.ofOption v))) := by
  refine ⟨_, rfl, ?_⟩
  intro v
  cases v with
  | none => exact readIndex_eq [] fun rows => .ret (copiedLines rows)
  | some text => exact readIndex_eq text fun rows => .ret (copiedLines rows)

/-- The map that `extract_download_ids` builds of the entries it sees. -/
def extracted (torrentsOnly : Bool) (es : List Entry) : List Entry :=
  (es.filter fun e => e.2.2 = torrentsOnly).foldl (fun cache e => insertNew cache e.1 e.2) []

/-- The entry that `extract_download_ids` makes of a row. -/
def rowEntry (row : Str × Str × Str) : Entry :=
  (row.1, row.2.1, convertBoolFromInt (ofText row.2.2))

@[simp] theorem rowEntry_entryStrings (e : Entry) : rowEntry (entryStrings e) = e := by
  simp [rowEntry, entryStrings]

/-- What `extract_download_ids` makes of the value that it finds. -/
theorem extractDownloadIds_eq (torrentsOnly : Bool) :
    ∃ c, extractDownloadIds torrentsOnly = .lock (.get leveldbStoreUniqueId c) ∧
      ∀ v : Option Str,
        (∀ rows, textRows (v.getD []) = some rows →
          c (.ofOption v) = .unlock (.ret (extracted torrentsOnly (rows.map rowEntry)))) ∧
        (textRows (v.getD []) = none → c (.ofOption v) = .hang ∨
          ∃ what, c (.ofOption v) = .unlock (.throw what)) := by
  -- the loop over the rows is the one over the entries of the wanted kind
  have hrows : ∀ rows : List (Str × Str × Str), rows.foldl (fun cache row =>
      if convertBoolFromInt (ofText row.2.2) = torrentsOnly then
        insertNew cache row.1 (row.2.1, convertBoolFromInt (ofText row.2.2))
      else cache) [] = extracted torrentsOnly (rows.map rowEntry) := by
    intro rows
    simp only [extracted, List.foldl_filter, List.foldl_map, rowEntry, decide_eq_true_eq]
    rfl
  have hread : ∀ text, _ := fun text => readIndex_eq text fun rows =>
    (.ret (rows.foldl (fun cache row =>
      if convertBoolFromInt (ofText row.2.2) = torrentsOnly then
        insertNew cache row.1 (row.2.1, convertBoolFromInt (ofText row.2.2))
      else cache) []) : DbProg (List Entry))
  refine ⟨_, rfl, ?_⟩
  intro v
  constructor
  · intro rows hsome
    rw [← hrows]
    cases v with
    | none => exact congrArg Prog.unlockOut ((hread []).1 rows hsome)
    | some text => exact congrArg Prog.unlockOut ((hread text).1 rows hsome)
  · intro hnone
    have hfails : ∀ p : DbProg (List Entry), FailsToRead p →
        p.unlockOut = .hang ∨ ∃ what, p.unlockOut = .unlock (.throw what) := by
      rintro p (rfl | ⟨what, rfl⟩)
      · exact .inl rfl
      · exact .inr ⟨what, rfl⟩
    cases v with
    | none => exact hfails _ ((hread []).2 hnone)
    | some text => exact hfails _ ((hread text).2 hnone)

/-- The map of an index that can be read, and that there is none otherwise. -/
theorem run_extractDownloadIds_rows {s : Db} (torrentsOnly : Bool) :
    (∀ rows, textRows ((s leveldbStoreUniqueId).getD []) = some rows →
      run (extractDownloadIds torrentsOnly) s =
        (.ret (extracted torrentsOnly (rows.map rowEntry)), s)) ∧
    (textRows ((s leveldbStoreUniqueId).getD []) = none →
      ∀ cache s', run (extractDownloadIds torrentsOnly) s ≠ (.ret cache, s')) := by
  rcases extractDownloadIds_eq torrentsOnly with ⟨c, hprog, hc⟩
  have hrun : run (extractDownloadIds torrentsOnly) s =
      run (c (.ofOption (s leveldbStoreUniqueId))) s := by
    rw [hprog]
    rfl
  rw [hrun]
  constructor
  · intro rows hrows
    rw [(hc _).1 rows hrows]
    rfl
  · intro hnone cache s'
    rcases (hc _).2 hnone with hhang | ⟨what, hthrow⟩
    · rw [hhang]
      intro hret
      cases hret
    · rw [hthrow]
      intro hret
      cases hret

/-- A reader gets the visible ones of clean entries. -/
theorem textRows_indexText {es : List Entry} (hclean : ∀ e ∈ es, CleanEntry e) :
    textRows (indexText es) = some ((visible es).map entryStrings) := by
  unfold textRows
  by_cases hp : parsable (indexText es) = true
  · have hlf := lf_mem_indexText (ne_nil_of_parsable hp)
    have hlines := getlines_indexText hclean
    have hfields : ¬ ∀ line ∈ (es.map entryCells).map encodeRow, getlines ',' line = [] := by
      intro hblank
      rcases List.exists_mem_of_ne_nil es (ne_nil_of_parsable hp) with ⟨e, he⟩
      have hline := hblank _ (List.mem_map_of_mem (List.mem_map_of_mem he))
      rw [getlines_encodeRow (hclean e he).row.plainRow] at hline
      cases hline
    rw [if_pos hp, if_pos hlf, visible_of_parsable hp, hlines, delivered, if_neg hfields,
      deliver_rows (cleanRows hclean), Option.map_some, List.map_map]
    rfl
  · rw [if_neg hp, visible, if_neg hp]
    rfl

section Specs

variable {s : Db} {es : List Entry}

/-- A reader gets the visible ones of the entries. -/
theorem Indexed.textRows_eq (h : Indexed s es) (hclean : ∀ e ∈ es, CleanEntry e) :
    textRows ((s leveldbStoreUniqueId).getD []) = some ((visible es).map entryStrings) := by
  rw [h, textRows_indexText hclean]

theorem run_copiedIndex (h : Indexed s es) (hclean : ∀ e ∈ es, CleanEntry e) :
    run copiedIndex s = (.ret (indexText (visible es)), s) := by
  rcases copiedIndex_eq with ⟨c, hprog, hc⟩
  have hvisible : ∀ e ∈ visible es, CleanEntry e := fun e he => hclean e (visible_subset he)
  rw [hprog, run_get, (hc _).1 _ (h.textRows_eq hclean), copiedLines_entries hvisible]
  rfl

/-- `add_download_id` puts the new line behind those that it sees. -/
theorem run_addDownloadId (h : Indexed s es) (hclean : ∀ e ∈ es, CleanEntry e)
    (drawn path : Str) (isTorrent : Bool) (overrideUniqueId : Str) :
    run (addDownloadId drawn path isTorrent overrideUniqueId) s =
      (.ret (downloadKey drawn overrideUniqueId), Function.update s leveldbStoreUniqueId
        (some (indexText (visible es ++
          [(downloadKey drawn overrideUniqueId, path, isTorrent)])))) := by
  unfold addDownloadId
  rw [run_locked, run_bind_ret (run_copiedIndex h hclean), run_bind_ret (run_writeOrThrow _ _),
    applyBatch_replace, indexText_append, indexText_single]
  rfl

/-- With distinct ids the map is the entries of the wanted kind. -/
theorem extracted_of_nodup (torrentsOnly : Bool) (hnodup : (es.map Prod.fst).Nodup) :
    extracted torrentsOnly es = es.filter fun e => e.2.2 = torrentsOnly := by
  refine insertNew_foldl _ ?_
  rw [List.nil_append]
  exact hnodup.sublist (List.filter_sublist.map _)

theorem map_rowEntry_entryStrings (es : List Entry) :
    (es.map entryStrings).map rowEntry = es := by
  simp [Function.comp_def]

theorem run_extractDownloadIds (h : Indexed s es) (hclean : ∀ e ∈ es, CleanEntry e)
    (torrentsOnly : Bool) :
    run (extractDownloadIds torrentsOnly) s = (.ret (extracted torrentsOnly (visible es)), s) := by
  rw [(run_extractDownloadIds_rows torrentsOnly).1 _ (h.textRows_eq hclean),
    map_rowEntry_entryStrings]

/-- The `QMap` that `determine_download_id` builds of the entries it sees. -/
def orderedEntries (es : List Entry) : List Entry :=
  es.foldl (fun cache e => insertOrd e.1 e.2 cache) []

/-- The answer of `determine_download_id`. -/
def determined (es : List Entry) (path : Str) : Str × Bool :=
  match (orderedEntries es).find? fun e => e.2.1 = path with
  | some e => (e.1, e.2.2)
  | none => ([], false)

/-- With distinct ids the answer is an entry of the path, if there is one. -/
theorem determined_of_nodup (hnodup : (es.map Prod.fst).Nodup) (path : Str) :
    (∃ e ∈ es, e.2.1 = path ∧ determined es path = (e.1, e.2.2)) ∨
      ((∀ e ∈ es, e.2.1 ≠ path) ∧ determined es path = ([], false)) := by
  -- the `QMap` only sorts the entries
  have hperm : (orderedEntries es).Perm es := by
    have := @insertOrd_foldl_perm _ _ _ es [] (by rwa [List.nil_append])
    rwa [List.nil_append] at this
  unfold determined
  cases hfind : (orderedEntries es).find? fun e => e.2.1 = path with
  | some e =>
    left
    have hmem : e ∈ es := hperm.mem_iff.mp (List.mem_of_find?_eq_some hfind)
    have hpath : e.2.1 = path := by simpa using List.find?_some hfind
    exact ⟨e, hmem, hpath, rfl⟩
  | none =>
    right
    refine ⟨fun e he => ?_, rfl⟩
    have := List.find?_eq_none.mp hfind e (hperm.mem_iff.mpr he)
    simpa using this

/-- The reader over a text of which the rows can be read. -/
theorem openIndex_rows {text : Str} (hlf : '\n' ∈ text) {values : List (List Str)}
    (hvalues : delivered 3 (getlines '\n' (dropCr text)) = some values) :
    ∃ rd : GkCsvReader,
      (∀ s : Db, run (openIndex text) s = (.ret (rd, Statics.reset), s)) ∧
      (∀ s : Db, run (indexRows rd Statics.reset) s = (.ret (values.map rowStrings), s)) ∧
      ∀ name ∈ indexHeaders, hasColumn rd name = .ok true := by
  have hmake := make_eq true 3 indexHeaders Statics.reset hlf
  generalize hrd : (⟨text, indexHeaders.length, (dataLines true text).length, true,
    indexHeaders, parseLines indexHeaders.length 1 (dataLines true text)⟩ : GkCsvReader) = rd
    at hmake
  have hparsed : Parsed rd 3 (getlines '\n' (dropCr text)) := by
    rw [← hrd]
    exact ⟨rfl, rfl, rfl⟩
  have hread := readAll_delivered hparsed (by omega)
  rw [hvalues] at hread
  refine ⟨rd, fun s => ?_, fun s => ?_, fun name hname => ?_⟩
  · rw [openIndex, hmake]
    rfl
  · rw [indexRows]
    cases hall : readAll rd 3 (fun _ => []) Statics.reset with
    | none =>
      rw [hall] at hread
      cases hread
    | some p =>
      rw [hall] at hread
      cases hread
      rfl
  · rw [← hrd]
    simp only [hasColumn, if_true, hname, decide_true]
    rfl

/-- The loop of `determine_download_id` over the rows of an index that can be read. -/
theorem run_determineDownloadId_rows {text : Str} {rows : List (Str × Str × Str)}
    (hv : s leveldbStoreUniqueId = some text) (hrows : textRows text = some rows) (path : Str) :
    run (determineDownloadId path) s = (.ret (determined (rows.map rowEntry) path), s) := by
  rw [determineDownloadId, run_locked, run_getOrThrow hv]
  unfold textRows at hrows
  by_cases hp : parsable text = true
  · rw [if_pos hp] at hrows ⊢
    by_cases hlf : '\n' ∈ text
    · rw [if_pos hlf] at hrows
      obtain ⟨values, hvalues, hmap⟩ := Option.map_eq_some_iff.mp hrows
      obtain ⟨rd, hopen, hindex, hcol⟩ := openIndex_rows hlf hvalues
      rw [run_bind_ret (hopen s)]
      simp only [hcol leveldbCsvUidKey (by decide), hcol leveldbCsvUidValue1 (by decide),
        hcol leveldbCsvUidValue2 (by decide)]
      rw [run_bind_ret (hindex s), hmap]
      -- the `QMap` is filled row by row
      have hcache : rows.foldl (fun cache row =>
          insertOrd row.1 (row.2.1, convertBoolFromInt (ofText row.2.2)) cache) [] =
            orderedEntries (rows.map rowEntry) := by
        rw [orderedEntries, List.foldl_map]
        rfl
      rw [hcache, determined]
      cases (orderedEntries (rows.map rowEntry)).find? fun e => e.2.1 = path with
      | none => rfl
      | some e => rfl
    · rw [if_neg hlf] at hrows
      cases hrows
  · -- a short text is not looked at
    rw [if_neg hp] at hrows ⊢
    cases hrows
    rfl

theorem run_determineDownloadId (h : s leveldbStoreUniqueId = some (indexText es))
    (hclean : ∀ e ∈ es, CleanEntry e) (path : Str) :
    run (determineDownloadId path) s = (.ret (determined (visible es) path), s) := by
  rw [run_determineDownloadId_rows h (textRows_indexText hclean), map_rowEntry_entryStrings]

/-- `del_download_id` keeps what one map shows, less the id. -/
theorem run_delDownloadId {cache : List Entry} {isTorrent : Bool}
    (h : run (extractDownloadIds isTorrent) s = (.ret cache, s)) (ord : IterOrder Entry)
    (uniqueId : Str) :
    run (delDownloadId ord uniqueId isTorrent) s =
      (.ret true, Function.update s leveldbStoreUniqueId
        (some (indexText ((ord.order cache).filter fun e => e.1 ≠ uniqueId)))) := by
  unfold delDownloadId
  rw [run_bind_ret h]
  simp only [run_locked, run_write, run_ret, applyBatch_replace]
  rfl

/-- `add_download_id` returns the id it was called for. -/
theorem addDownloadId_key {drawn path overrideUniqueId key : Str} {isTorrent : Bool} {s' : Db}
    (h : run (addDownloadId drawn path isTorrent overrideUniqueId) s = (.ret key, s')) :
    key = downloadKey drawn overrideUniqueId := by
  unfold addDownloadId at h
  rw [run_locked] at h
  rcases run_bind_eq_ret h with ⟨csvOut, s₁, -, hrest⟩
  rcases run_bind_eq_ret hrest with ⟨-, s₂, -, hpure⟩
  cases hpure
  rfl

end Specs

/-! ## Reading programs -/

section Reading

/-- The key of the index. -/
abbrev IsIndexKey (key : Str) : Prop := key = leveldbStoreUniqueId

theorem readsOnly_openIndex (text : Str) : ReadsOnly IsIndexKey (openIndex text) := by
  unfold openIndex
  split
  · exact .throw _
  · exact .ret _

theorem readsOnly_indexRows (rd : GkCsvReader) (st : Statics) :
    ReadsOnly IsIndexKey (indexRows rd st) := by
  unfold indexRows
  split
  · exact .hang
  · exact .ret _

theorem readsOnly_getOrEmpty : ReadsOnly IsIndexKey (getOrEmpty leveldbStoreUniqueId) :=
  .get rfl fun x => by cases x <;> exact .ret _

theorem readsOnly_copiedIndex : ReadsOnly IsIndexKey copiedIndex := by
  refine readsOnly_getOrEmpty.bind ?_
  intro text
  split
  · refine (readsOnly_openIndex _).bind ?_
    intro p
    exact (readsOnly_indexRows _ _).bind fun rows => .ret _
  · exact .ret _

theorem readsOnly_extractDownloadIds (torrentsOnly : Bool) :
    ReadsOnly IsIndexKey (extractDownloadIds torrentsOnly) := by
  refine ReadsOnly.locked (readsOnly_getOrEmpty.bind fun text => ?_)
  split
  · refine (readsOnly_openIndex _).bind ?_
    intro p
    exact (readsOnly_indexRows _ _).bind fun rows => .ret _
  · exact .ret _

theorem readsOnly_determineDownloadId (path : Str) :
    ReadsOnly IsIndexKey (determineDownloadId path) := by
  have hget : ReadsOnly IsIndexKey (getOrThrow leveldbStoreUniqueId) := by
    refine .get rfl ?_
    intro x
    cases x with
    | found v => exact .ret v
    | notFound => exact .throw _
    | error e => exact .throw e
  refine ReadsOnly.locked (hget.bind fun text => ?_)
  split
  · refine (readsOnly_openIndex _).bind ?_
    intro p
    obtain ⟨rd, st⟩ := p
    dsimp only
    split
    · refine (readsOnly_indexRows _ _).bind ?_
      intro rows
      split
      · exact .ret _
      · exact .ret _
    all_goals exact .throw _
  · exact .ret _

/-- The maps depend on the stored index only. -/
theorem run_extractDownloadIds_congr {s t : Db}
    (h : s leveldbStoreUniqueId = t leveldbStoreUniqueId) (torrentsOnly : Bool) :
    (run (extractDownloadIds torrentsOnly) s).1 = (run (extractDownloadIds torrentsOnly) t).1 :=
  run_readsOnly_congr (readsOnly_extractDownloadIds torrentsOnly)
    fun k hk => by rw [show k = leveldbStoreUniqueId from hk, h]

/-- The map has each id once. -/
theorem extractDownloadIds_nodup {s s' : Db} {torrentsOnly : Bool} {cache : List Entry}
    (h : run (extractDownloadIds torrentsOnly) s = (.ret cache, s')) :
    (cache.map Prod.fst).Nodup := by
  unfold extractDownloadIds at h
  rw [run_locked, run_getOrEmpty] at h
  split at h
  · rcases run_bind_eq_ret h with ⟨⟨rd, st⟩, s₁, -, h⟩
    rcases run_bind_eq_ret h with ⟨rows, s₂, -, h⟩
    cases h
    refine List.foldlRecOn rows _ (motive := fun cache : List Entry => (cache.map Prod.fst).Nodup)
      List.nodup_nil fun cache hcache row _ => ?_
    dsimp only
    split
    · exact insertNew_nodup hcache _ _
    · exact hcache
  · cases h
    exact List.nodup_nil

/-- An index whose map can be built is one that `determine_download_id` gets to the end
of, if only with an exception. -/
theorem determineDownloadId_settles {s s' : Db} {torrentsOnly : Bool} {cache : List Entry}
    (h : run (extractDownloadIds torrentsOnly) s = (.ret cache, s')) (path : Str) :
    (∃ answer, run (determineDownloadId path) s = (.ret answer, s)) ∨
      ∃ what, run (determineDownloadId path) s = (.throw what, s) := by
  unfold extractDownloadIds at h
  rw [run_locked, run_getOrEmpty] at h
  unfold determineDownloadId
  rw [run_locked]
  cases hv : s leveldbStoreUniqueId with
  | none =>
    have hget : run (getOrThrow leveldbStoreUniqueId) s = (.throw notFoundText, s) := by
      rw [getOrThrow, run_get, hv]
      rfl
    exact .inr ⟨notFoundText, run_bind_throw hget _⟩
  | some text =>
    rw [run_getOrThrow hv]
    rw [hv, Option.getD_some] at h
    by_cases hp : parsable text = true
    · rw [if_pos hp] at h ⊢
      rcases run_bind_eq_ret h with ⟨⟨rd, st⟩, s₁, hopen, h⟩
      rcases run_bind_eq_ret h with ⟨rows, s₂, hrows, -⟩
      have hs₁ : s₁ = s := by
        have := run_readsOnly (readsOnly_openIndex text) s
        rwa [hopen] at this
      have hs₂ : s₂ = s₁ := by
        have := run_readsOnly (readsOnly_indexRows rd st) s₁
        rwa [hrows] at this
      subst hs₂ hs₁
      rw [run_bind_ret hopen]
      dsimp only
      -- the columns are there or not; the rows are those of the map
      split
      · rw [run_bind_ret hrows]
        split
        · exact .inl ⟨_, rfl⟩
        · exact .inl ⟨_, rfl⟩
      all_goals exact .inr ⟨_, rfl⟩
    · rw [if_neg hp]
      exact .inl ⟨_, rfl⟩

end Reading

/-! ## Frame -/

/-- The index is stored under a key of its own. -/
theorem multipartKey_ne_index (id key : Str) : multipartKey [id, key] ≠ leveldbStoreUniqueId := by
  intro h
  have hmem : '_' ∈ multipartKey [id, key] := by simp [multipartKey]
  rw [h] at hmem
  exact absurd hmem (by decide)

/-- Under one id, different keys are kept apart. -/
theorem multipartKey_right_inj {id key key' : Str} :
    multipartKey [id, key] = multipartKey [id, key'] ↔ key = key' := by
  simp [multipartKey]

/-- Keys without an underscore keep the records of different ids apart. -/
theorem multipartKey_inj {id id' key key' : Str} (hkey : '_' ∉ key) (hkey' : '_' ∉ key') :
    multipartKey [id, key] = multipartKey [id', key'] ↔ id = id' ∧ key = key' := by
  constructor
  · intro h
    exact eq_of_append_delim hkey hkey' h
  · rintro ⟨rfl, rfl⟩
    rfl

theorem indexed_update (s : Db) (es : List Entry) :
    Indexed (Function.update s leveldbStoreUniqueId (some (indexText es))) es := by
  simp [Indexed]

end FyreDL.Store
