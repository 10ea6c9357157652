import FyreDL.Store.Index

/-!
# FyreDL.Store.NewRow — an index with any line behind it

`add_download_id` puts the path into the index as it is. With commas or line feeds in it the
new line is read as another row, as several rows, or not at all; and with a `"\r\n"` the
lines in front of it lose their carriage returns.

* `lineRead` — the entries that a reader gets of the line of an entry.
* `textEntries_append` — the line stands behind the entries of an index, whatever it is
  read as.
* `lineRead_clean` — an entry with a clean path is read as it is.
-/

namespace FyreDL.Store

open Lib Lib.Kv Csv

/-- The entries that a reader gets of a text. -/
def textEntries (text : Str) : Option (List Entry) := (textRows text).map (·.map rowEntry)

/-- The entries that a reader gets of the lines, with the values that the variables have in
front of them. -/
def lineEntries (vars : Vars) (lines : List Str) : Option (List Entry) :=
  (deliver 3 vars lines).map (·.map fun vs => rowEntry (rowStrings vs))

/-- The entries that a reader gets of the line of an entry. -/
def lineRead (e : Entry) : Option (List Entry) :=
  lineEntries (fun _ => []) (getlines '\n' (dropCr (entryLine e)))

/-! ## Rows of entries -/

section Lines

/-- What the third variable stands for. -/
def flagOf (vars : Vars) : Bool := convertBoolFromInt (ofText (vars 2))

/-- The entry of a row of which two fields at least are taken. -/
theorem rowEntry_store {ws : List Str} (h : 2 ≤ ws.length) (vars : Vars) :
    rowEntry (rowStrings ((List.range 3).map (storeFrom ws 0 vars))) =
      (ws.getD 0 [], ws.getD 1 [], flagOf (storeFrom ws 0 vars)) := by
  have hshow : (List.range 3).map (storeFrom ws 0 vars) =
      [storeFrom ws 0 vars 0, storeFrom ws 0 vars 1, storeFrom ws 0 vars 2] := rfl
  have hzero : storeFrom ws 0 vars 0 = ws.getD 0 [] := by
    simp [storeFrom, show 0 < ws.length by omega]
  have hone : storeFrom ws 0 vars 1 = ws.getD 1 [] := by
    simp [storeFrom, show 1 < ws.length by omega]
  rw [hshow, hzero, hone]
  rfl

theorem flagOf_store {vars vars' : Vars} (h : flagOf vars = flagOf vars') (ws : List Str) :
    flagOf (storeFrom ws 0 vars) = flagOf (storeFrom ws 0 vars') := by
  have hstore : ∀ vars : Vars, storeFrom ws 0 vars 2 = (ws[2]?).getD (vars 2) := fun _ => rfl
  unfold flagOf
  rw [hstore, hstore]
  cases ws[2]? with
  | none => exact h
  | some w => rfl

/-- The line in front: it hangs, it ends the loop, or it is an entry. -/
theorem lineEntries_cons (vars : Vars) (line : Str) (lines : List Str) :
    lineEntries vars (line :: lines) =
      if ((getlines ',' line).take 3).length < 3 then none
      else if (taken ((getlines ',' line).take 3)).length + 1 < 3 then some []
      else (lineEntries (storeFrom (taken ((getlines ',' line).take 3)) 0 vars) lines).map
        (((taken ((getlines ',' line).take 3)).getD 0 [],
          (taken ((getlines ',' line).take 3)).getD 1 [],
          flagOf (storeFrom (taken ((getlines ',' line).take 3)) 0 vars)) :: ·) := by
  unfold lineEntries
  rw [deliver]
  dsimp only
  split
  · rfl
  · split
    · rfl
    · rw [Option.map_map, Option.map_map, ← rowEntry_store (by omega)]
      rfl

/-- Of the variables only the flag reaches the entries. -/
theorem lineEntries_congr {vars vars' : Vars} (h : flagOf vars = flagOf vars')
    (lines : List Str) : lineEntries vars lines = lineEntries vars' lines := by
  induction lines generalizing vars vars' with
  | nil => rfl
  | cons line lines ih =>
    have hstore := flagOf_store h (taken ((getlines ',' line).take 3))
    rw [lineEntries_cons, lineEntries_cons, ih hstore, hstore]

/-- What is taken of the line of an HTTP/FTP entry: an empty path is passed over. -/
theorem taken_httpLine {id : Str} (path : Str) (hid : id ≠ []) {vars : Vars}
    (hvars : flagOf vars = false) :
    ∃ ws, taken [id, path, boolText false] = ws ∧ 2 ≤ ws.length ∧ ws.getD 0 [] = id ∧
      flagOf (storeFrom ws 0 vars) = false := by
  have hflag : boolText false ≠ [] := by decide
  by_cases hpath : path = []
  · refine ⟨[id, boolText false], by simp [taken, hid, hpath, hflag], Nat.le_refl 2, rfl, ?_⟩
    -- the flag of the row before stays
    exact hvars
  · refine ⟨[id, path, boolText false], by simp [taken, hid, hpath, hflag], by simp, rfl, ?_⟩
    exact convertBoolFromInt_boolText false

/-- Lines of HTTP/FTP entries, of which the paths may be empty: their ids are read. -/
theorem lineEntries_append {rows : List (Str × Str)}
    (h : ∀ row ∈ rows, CleanCell row.1 ∧ Plain row.2) (rest : List Str) :
    ∀ {vars : Vars}, flagOf vars = false →
      ∃ es : List Entry, es.map Prod.fst = rows.map Prod.fst ∧ (∀ e ∈ es, e.2.2 = false) ∧
        lineEntries vars (rows.map (fun row => encodeRow [row.1, row.2, boolText false]) ++ rest) =
          (lineEntries (fun _ => []) rest).map (es ++ ·) := by
  induction rows with
  | nil =>
    intro vars hvars
    have hflag : flagOf vars = flagOf fun _ => [] := hvars.trans (by decide)
    refine ⟨[], rfl, fun e he => absurd he List.not_mem_nil, ?_⟩
    rw [List.map_nil, List.nil_append, lineEntries_congr hflag rest]
    simp
  | cons row rows ih =>
    intro vars hvars
    rcases h row List.mem_cons_self with ⟨hid, hpath⟩
    have hrow : PlainRow 3 [row.1, row.2, boolText false] := by
      refine ⟨rfl, ?_, ?_⟩
      · intro v hv
        simp only [List.mem_cons, List.not_mem_nil, or_false] at hv
        rcases hv with rfl | rfl | rfl
        · exact hid.plain
        · exact hpath
        · exact (cleanCell_boolText false).plain
      · intro v hv
        cases hv
        exact (cleanCell_boolText false).ne_nil
    -- with the path or without it, the row has its id and is no torrent's
    rcases taken_httpLine row.2 hid.ne_nil hvars with ⟨ws, hws, hlength, hfirst, hflag⟩
    rcases ih (fun r hr => h r (List.mem_cons_of_mem _ hr)) hflag with ⟨es, hids, hhttp, hrest⟩
    refine ⟨(ws.getD 0 [], ws.getD 1 [], false) :: es, ?_, ?_, ?_⟩
    · rw [List.map_cons, List.map_cons, hids, hfirst]
    · intro e he
      rcases List.mem_cons.mp he with rfl | hin
      · rfl
      · exact hhttp e hin
    · have htake : [row.1, row.2, boolText false].take 3 = [row.1, row.2, boolText false] := rfl
      rw [List.map_cons, List.cons_append, lineEntries_cons, getlines_encodeRow hrow, htake, hws,
        if_neg (by simp), if_neg (by omega), hrest, hflag, Option.map_map]
      rfl

end Lines

/-! ## The whole text -/

section Texts

variable {es : List Entry}

/-- The reader gets entries of a text with a line of an id as `createId` draws it. -/
theorem textEntries_line {before : Str} {e : Entry} (hid : IsCreateId e.1) :
    textEntries (before ++ entryLine e) =
      lineEntries (fun _ => []) (getlines '\n' (dropCr (before ++ entryLine e))) := by
  have hlength : e.1.length = 31 := hid.1
  rcases List.exists_mem_of_length_pos (by omega : 0 < e.1.length) with ⟨c, hc⟩
  have hdigit := hid.2 c hc
  have hparsable : parsable (before ++ entryLine e) = true := by
    apply decide_eq_true
    constructor
    · simp [entryLine_ne_nil]
    · simp [entryLine, indexLine, cfgCsvMinParseSize, hlength]
      omega
  have hlf : '\n' ∈ before ++ entryLine e := by simp [entryLine_eq]
  -- a digit of the id is in a field, so there is one
  have hkept : c ∈ dropCr (before ++ entryLine e) := by
    have hin : c ∈ before ++ entryLine e := by simp [entryLine, indexLine, hc]
    unfold dropCr
    split
    · refine List.mem_filter.mpr ⟨hin, decide_eq_true ?_⟩
      rintro rfl
      exact absurd hdigit (by decide)
    · exact hin
  have hfields : ¬ ∀ line ∈ getlines '\n' (dropCr (before ++ entryLine e)),
      getlines ',' line = [] := by
    intro hblank
    have hnlf : c ≠ '\n' := by
      rintro rfl
      exact absurd hdigit (by decide)
    have hcomma : c ≠ ',' := by
      rintro rfl
      exact absurd hdigit (by decide)
    rcases exists_mem_getlines hkept hnlf with ⟨line, hline, hmem⟩
    rcases exists_mem_getlines hmem hcomma with ⟨field, hfield, -⟩
    rw [hblank line hline] at hfield
    exact absurd hfield List.not_mem_nil
  rw [textEntries, textRows, if_pos hparsable, if_pos hlf, delivered, if_neg hfields,
    Option.map_map, lineEntries]
  congr 1
  funext rows
  exact List.map_map

/-- The carriage returns of an entry are in its path. -/
theorem stripCr_row {e : Entry} (hid : IsCreateId e.1) (hhttp : e.2.2 = false) (drop : Bool) :
    stripCr drop (encodeRow (entryCells e)) =
      encodeRow [e.1, stripCr drop e.2.1, boolText false] := by
  have hcr : '\r' ∉ e.1 := fun hc => absurd (hid.2 _ hc) (by decide)
  have hcomma : stripCr drop [','] = [','] := stripCr_of_no_cr (by decide) drop
  have hflag : stripCr drop (boolText false) = boolText false := stripCr_of_no_cr (by decide) drop
  have hjoined : ∀ path : Str, encodeRow [e.1, path, boolText false] =
      e.1 ++ ([','] ++ (path ++ ([','] ++ boolText false))) := fun _ => rfl
  rw [entryCells, hhttp, hjoined, hjoined, stripCr_append, stripCr_append, stripCr_append,
    stripCr_append, stripCr_of_no_cr hcr, hcomma, hflag]

/-- **The new line.** Behind HTTP/FTP entries any line is read as it is alone, and their ids
are read as well. -/
theorem textEntries_append (hclean : ∀ e ∈ es, CleanEntry e) (hids : ∀ e ∈ es, IsCreateId e.1)
    (hhttp : ∀ e ∈ es, e.2.2 = false) {new : Entry} (hnew : IsCreateId new.1) :
    ∃ es' : List Entry, es'.map Prod.fst = es.map Prod.fst ∧ (∀ e ∈ es', e.2.2 = false) ∧
      textEntries (indexText es ++ entryLine new) = (lineRead new).map (es' ++ ·) := by
  -- a "\r\n" of the new line costs the old paths their carriage returns, and nothing else
  have hlines : getlines '\n' (dropCr (indexText es ++ entryLine new)) =
      (es.map fun e => (e.1, stripCr (hasCrLf (entryLine new)) e.2.1)).map
          (fun row => encodeRow [row.1, row.2, boolText false]) ++
        getlines '\n' (dropCr (entryLine new)) := by
    have hstrip : ((es.map entryCells).map encodeRow).map (stripCr (hasCrLf (entryLine new))) =
        (es.map fun e => (e.1, stripCr (hasCrLf (entryLine new)) e.2.1)).map
          (fun row => encodeRow [row.1, row.2, boolText false]) := by
      rw [List.map_map, List.map_map, List.map_map]
      refine List.map_congr_left ?_
      intro e he
      exact stripCr_row (hids e he) (hhttp e he) _
    have hlf : ∀ line ∈ ((es.map entryCells).map encodeRow).map
        (stripCr (hasCrLf (entryLine new))), '\n' ∉ line := by
      intro line hline hmem
      rcases List.mem_map.mp hline with ⟨line', hline', rfl⟩
      exact no_lf_lines hclean line' hline' (mem_stripCr hmem)
    rw [indexText_eq, dropCr_terminated_append (no_lf_lines hclean) (getLast_lines es),
      getlines_terminated_append hlf, hstrip]
  have hrows : ∀ row ∈ es.map fun e => (e.1, stripCr (hasCrLf (entryLine new)) e.2.1),
      CleanCell row.1 ∧ Plain row.2 := by
    intro row hrow
    rcases List.mem_map.mp hrow with ⟨e, he, rfl⟩
    have hpath := (hclean e he).path
    exact ⟨(hclean e he).uid, fun hc => hpath.no_comma (mem_stripCr hc),
      fun hc => hpath.no_lf (mem_stripCr hc)⟩
  have hflag : flagOf (fun _ => []) = false := by decide
  rcases lineEntries_append hrows (getlines '\n' (dropCr (entryLine new))) hflag with
    ⟨es', hids', hhttp', hread⟩
  refine ⟨es', ?_, hhttp', ?_⟩
  · rw [hids', List.map_map]
    rfl
  · rw [textEntries_line hnew, hlines, hread]
    rfl

/-- A clean entry is read as it is. -/
theorem lineRead_clean {e : Entry} (h : CleanEntry e) : lineRead e = some [e] := by
  have hclean : ∀ d ∈ [e], CleanEntry d := by
    intro d hd
    rw [List.mem_singleton.mp hd]
    exact h
  have hlines := getlines_indexText hclean
  rw [indexText_single] at hlines
  rw [lineRead, hlines, lineEntries, deliver_rows (cleanRows hclean)]
  exact congrArg (fun d => some [d]) (rowEntry_entryStrings e)

/-- An HTTP/FTP download whose path has a comma is read as a torrent. -/
example : lineRead ("7".toList, "/dl/a,1.iso".toList, false) =
    some [("7".toList, "/dl/a".toList, true)] := by decide +kernel

/-- Whatever the text is: the id and the path of a row that a reader gets are clean. -/
theorem textRows_clean {text : Str} {rows : List (Str × Str × Str)}
    (h : textRows text = some rows) : ∀ e ∈ rows.map rowEntry, CleanEntry e := by
  unfold textRows delivered at h
  intro e he
  rcases List.mem_map.mp he with ⟨row, hrow, rfl⟩
  split at h
  · split at h
    · rcases Option.map_eq_some_iff.mp h with ⟨table, htable, rfl⟩
      rcases List.mem_map.mp hrow with ⟨vs, hvs, rfl⟩
      split at htable
      · cases htable
        exact absurd hvs List.not_mem_nil
      · have hlines : ∀ line ∈ getlines '\n' (dropCr text), '\n' ∉ line :=
          fun line hline => not_mem_of_mem_getlines hline
        exact ⟨cleanCell_of_deliver hlines htable hvs (by omega),
          cleanCell_of_deliver hlines htable hvs (by omega)⟩
    · cases h
  · cases h
    exact absurd hrow List.not_mem_nil

end Texts

end FyreDL.Store
