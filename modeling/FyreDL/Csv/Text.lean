import FyreDL.Csv.Table

/-!
# FyreDL.Csv.Text — a reader built over an encoded table

The writers of the program put a table down one row per line, without quoting.
This module ties such a text to the table a reader then holds:

* `make_holds` — the constructor over a text whose lines are the encoded rows;
* `readRowTimes_encoded` — every call of `read_row`, for a text with or without a
  header line and, behind a header, with or without a final line feed;
* `readAllFuel_enough` — the loop around `read_row` ends unless a single call does
  not: every `true` moves `rows_parsed` on.
-/

namespace FyreDL.Csv

open Lib

/-! ## Lines -/

/-- A string without the two delimiters. -/
def Plain (s : Str) : Prop := ',' ∉ s ∧ '\n' ∉ s

instance (s : Str) : Decidable (Plain s) := inferInstanceAs (Decidable (_ ∧ _))

/-- A cell that the unquoted encoding can carry. -/
structure CleanCell (s : Str) : Prop where
  ne_nil : s ≠ []
  no_comma : ',' ∉ s
  no_lf : '\n' ∉ s

instance (s : Str) : Decidable (CleanCell s) :=
  decidable_of_iff (s ≠ [] ∧ ',' ∉ s ∧ '\n' ∉ s)
    ⟨fun h => ⟨h.1, h.2.1, h.2.2⟩, fun h => ⟨h.ne_nil, h.no_comma, h.no_lf⟩⟩

/-- A row of a table with `n` columns. -/
structure CleanRow (n : Nat) (vs : List Str) : Prop where
  width : vs.length = n
  cells : ∀ v ∈ vs, CleanCell v

instance (n : Nat) (vs : List Str) : Decidable (CleanRow n vs) :=
  decidable_of_iff (vs.length = n ∧ ∀ v ∈ vs, CleanCell v)
    ⟨fun h => ⟨h.1, h.2⟩, fun h => ⟨h.width, h.cells⟩⟩

theorem CleanCell.plain {s : Str} (h : CleanCell s) : Plain s := ⟨h.no_comma, h.no_lf⟩

/-- A row that may have empty cells, though not as the last one. -/
structure PlainRow (n : Nat) (vs : List Str) : Prop where
  width : vs.length = n
  plain : ∀ v ∈ vs, Plain v
  last : ∀ v ∈ vs.getLast?, v ≠ []

theorem CleanRow.plainRow {n : Nat} {vs : List Str} (h : CleanRow n vs) : PlainRow n vs :=
  ⟨h.width, fun v hv => (h.cells v hv).plain,
    fun v hv => (h.cells v (List.mem_of_getLast? hv)).ne_nil⟩

/-- One line of the encoded table. -/
def encodeRow (vs : List Str) : Str := joined ',' vs

theorem getlines_encodeRow {n : Nat} {vs : List Str} (h : PlainRow n vs) :
    getlines ',' (encodeRow vs) = vs :=
  getlines_joined (fun v hv => (h.plain v hv).1) h.last

theorem encodeRow_no_lf {n : Nat} {vs : List Str} (h : PlainRow n vs) :
    '\n' ∉ encodeRow vs := by
  intro hmem
  rcases mem_joined hmem with hc | ⟨v, hv, hin⟩
  · exact absurd hc (by decide)
  · exact (h.plain v hv).2 hin

theorem encodeRow_ne_nil {n : Nat} {vs : List Str} (hn : 1 ≤ n) (h : CleanRow n vs) :
    encodeRow vs ≠ [] := by
  cases vs with
  | nil => exact absurd h.width (by simp; omega)
  | cons v vs =>
    have hv := (h.cells v List.mem_cons_self).ne_nil
    cases vs <;> simp [encodeRow, hv]

/-! ## Line endings -/

/-- What `read_rows` splits into lines: a text with a `"\r\n"` loses every `'\r'`. -/
def dropCr (s : Str) : Str := if hasCrLf s then s.filter (· ≠ '\r') else s

theorem readRows_eq (key : Bool) (rowsCount : Nat) {s : Str} (h : '\n' ∈ s) :
    readRows key rowsCount s =
      .ok (getlines '\n' (dropCr s),
        if key then (getlines '\n' (dropCr s)).length
        else (getlines '\n' (dropCr s)).length - 1) := by
  have hne : s ≠ [] := List.ne_nil_of_mem h
  unfold readRows dropCr
  rw [if_neg hne]
  split
  · rfl
  · rfl

theorem hasCrLf_of_no_cr {s : Str} (h : '\r' ∉ s) : hasCrLf s = false := by
  induction s with
  | nil => rfl
  | cons c cs ih =>
    have hc : c ≠ '\r' := fun e => h (e ▸ List.mem_cons_self)
    rw [hasCrLf]
    · exact ih fun hm => h (List.mem_cons_of_mem _ hm)
    · rintro rest rfl -
      exact hc rfl

theorem hasCrLf_of_no_lf {s : Str} (h : '\n' ∉ s) : hasCrLf s = false := by
  induction s with
  | nil => rfl
  | cons c cs ih =>
    have hcs : '\n' ∉ cs := fun hm => h (List.mem_cons_of_mem _ hm)
    rw [hasCrLf]
    · exact ih hcs
    · rintro rest - rfl
      exact hcs List.mem_cons_self

/-- In front of a line feed only a carriage return at the line's end counts. -/
theorem hasCrLf_line_append {line : Str} (hlf : '\n' ∉ line) (rest : Str) :
    hasCrLf (line ++ '\n' :: rest) =
      (decide (line.getLast? = some '\r') || hasCrLf rest) := by
  induction line with
  | nil =>
    rw [List.nil_append, hasCrLf]
    · simp
    · intro rest' h _
      exact absurd h (by decide)
  | cons c cs ih =>
    have hcs : '\n' ∉ cs := fun hm => hlf (List.mem_cons_of_mem _ hm)
    cases cs with
    | nil =>
      -- the last character of the line is the one in front of the line feed
      by_cases hc : c = '\r'
      · subst hc
        simp [hasCrLf]
      · rw [List.cons_append, List.nil_append, hasCrLf]
        · have := ih List.not_mem_nil
          simpa [hc] using this
        · intro rest' h _
          exact hc h
    | cons x xs =>
      have hx : x ≠ '\n' := fun e => hcs (e ▸ List.mem_cons_self)
      rw [List.cons_append, hasCrLf, ih hcs, List.getLast?_cons_cons]
      intro rest' _ h
      exact hx (List.cons.inj h).1

/-- Lines of which none ends in a carriage return have no `"\r\n"` between them. -/
theorem hasCrLf_terminated_append {lines : List Str} (hlf : ∀ line ∈ lines, '\n' ∉ line)
    (hcr : ∀ line ∈ lines, line.getLast? ≠ some '\r') (rest : Str) :
    hasCrLf (terminated '\n' lines ++ rest) = hasCrLf rest := by
  induction lines with
  | nil => rfl
  | cons line lines ih =>
    rw [terminated_cons, List.append_assoc, List.cons_append,
      hasCrLf_line_append (hlf line List.mem_cons_self),
      ih (fun l hl => hlf l (List.mem_cons_of_mem _ hl))
        (fun l hl => hcr l (List.mem_cons_of_mem _ hl))]
    simp [hcr line List.mem_cons_self]

theorem hasCrLf_terminated {lines : List Str} (hlf : ∀ line ∈ lines, '\n' ∉ line)
    (hcr : ∀ line ∈ lines, line.getLast? ≠ some '\r') :
    hasCrLf (terminated '\n' lines) = false := by
  have happend := hasCrLf_terminated_append hlf hcr []
  rw [List.append_nil] at happend
  exact happend

/-- The text without its carriage returns, if they are to be dropped. -/
def stripCr (drop : Bool) (s : Str) : Str := if drop then s.filter (· ≠ '\r') else s

theorem stripCr_append (drop : Bool) (s t : Str) :
    stripCr drop (s ++ t) = stripCr drop s ++ stripCr drop t := by
  cases drop with
  | false => rfl
  | true => exact List.filter_append s t

theorem stripCr_of_no_cr {s : Str} (h : '\r' ∉ s) (drop : Bool) : stripCr drop s = s := by
  cases drop with
  | false => rfl
  | true =>
    refine List.filter_eq_self.mpr fun c hc => decide_eq_true ?_
    rintro rfl
    exact h hc

theorem mem_stripCr {drop : Bool} {s : Str} {c : Char} (h : c ∈ stripCr drop s) : c ∈ s := by
  cases drop with
  | false => exact h
  | true => exact (List.mem_filter.mp h).1

theorem stripCr_terminated (drop : Bool) (lines : List Str) :
    stripCr drop (terminated '\n' lines) = terminated '\n' (lines.map (stripCr drop)) := by
  have hlf : stripCr drop ['\n'] = ['\n'] := stripCr_of_no_cr (by decide) drop
  induction lines with
  | nil => exact stripCr_of_no_cr List.not_mem_nil drop
  | cons line lines ih =>
    rw [terminated_cons, List.map_cons, terminated_cons, ← List.singleton_append,
      stripCr_append, stripCr_append, hlf, ih, List.singleton_append]

/-- A `"\r\n"` in the rest of a text costs the lines in front of it their carriage returns. -/
theorem dropCr_terminated_append {lines : List Str} (hlf : ∀ line ∈ lines, '\n' ∉ line)
    (hcr : ∀ line ∈ lines, line.getLast? ≠ some '\r') (rest : Str) :
    dropCr (terminated '\n' lines ++ rest) =
      terminated '\n' (lines.map (stripCr (hasCrLf rest))) ++ dropCr rest := by
  change stripCr (hasCrLf (terminated '\n' lines ++ rest)) _ = _ ++ stripCr (hasCrLf rest) rest
  rw [hasCrLf_terminated_append hlf hcr, stripCr_append, stripCr_terminated]

/-! ## Building the reader -/

theorem parseLine_eq {n row : Nat} (vs : List Str) :
    ∀ {col : Nat}, col + vs.length ≤ n → parseLine n row col vs = rowCells row (col + 1) vs := by
  induction vs with
  | nil => intro col _; rfl
  | cons v vs ih =>
    intro col hcol
    rw [List.length_cons] at hcol
    simp only [parseLine, rowCells, if_neg (show ¬ col ≥ n by omega)]
    rw [ih (by omega)]

theorem parseLines_eq {n : Nat} {rows : List (List Str)} (h : ∀ vs ∈ rows, PlainRow n vs) :
    ∀ row, parseLines n row (rows.map encodeRow) = tableCells row rows := by
  induction rows with
  | nil => intro row; rfl
  | cons vs rows ih =>
    intro row
    have hvs := h vs List.mem_cons_self
    rw [List.map_cons, parseLines, tableCells, getlines_encodeRow hvs,
      parseLine_eq vs (by rw [hvs.width, Nat.zero_add]),
      ih fun vs hm => h vs (List.mem_cons_of_mem _ hm)]

/-- The lines behind the header line, which a text with `key` does not have. -/
def dataLines (key : Bool) (text : Str) : List Str :=
  if key then getlines '\n' (dropCr text) else (getlines '\n' (dropCr text)).drop 1

/-- The constructor over a text with a line feed. -/
theorem make_eq (key : Bool) (columnCount : Nat) {text : Str} (headers : List Str) (st : Statics)
    (hlf : '\n' ∈ text) :
    GkCsvReader.make columnCount key text headers st =
      .ok (⟨text, headers.length, (dataLines key text).length, key, headers,
        parseLines headers.length 1 (dataLines key text)⟩, Statics.reset) := by
  have hne : text ≠ [] := List.ne_nil_of_mem hlf
  have hlength : (if key then (getlines '\n' (dropCr text)).length
      else (getlines '\n' (dropCr text)).length - 1) = (dataLines key text).length := by
    unfold dataLines
    cases key with
    | true => rfl
    | false => exact List.length_drop.symm
  have hparse : parseCsv key headers.length 0 text =
      .ok (parseLines headers.length 1 (dataLines key text), (dataLines key text).length) := by
    unfold parseCsv
    rw [readRows_eq key 0 hlf, hlength]
    -- without a line `parse_csv` returns no cell, as it does for no line
    by_cases hnil : getlines '\n' (dropCr text) = []
    · have hdata : dataLines key text = [] := by
        unfold dataLines
        rw [hnil]
        cases key with
        | true => rfl
        | false => rfl
      rw [hdata]
      simp [bind, Except.bind, pure, Except.pure, hnil, parseLines]
    · simp [bind, Except.bind, pure, Except.pure, hnil, dataLines]
  unfold GkCsvReader.make
  rw [if_neg hne, hparse]
  rfl

/-- The constructor over a text whose lines, behind a header unless `key`, are the
given rows. -/
theorem make_tabled {n : Nat} {rows : List (List Str)} {headers : List Str} (key : Bool)
    (header text : Str) (columnCount : Nat) (st : Statics)
    (hheaders : headers.length = n) (hrows : ∀ vs ∈ rows, PlainRow n vs) (hlf : '\n' ∈ text)
    (hlines : getlines '\n' (dropCr text) =
      if key then rows.map encodeRow else header :: rows.map encodeRow) :
    ∃ rd, GkCsvReader.make columnCount key text headers st = .ok (rd, Statics.reset) ∧
      Tabled rd n rows ∧ rd.headers = headers ∧ rd.key = key ∧ rd.csvRawData = text := by
  have hdata : dataLines key text = rows.map encodeRow := by
    unfold dataLines
    rw [hlines]
    cases key with
    | true => rfl
    | false => rfl
  refine ⟨_, make_eq key columnCount headers st hlf, ?_, rfl, rfl, rfl⟩
  rw [hdata, hheaders]
  exact ⟨parseLines_eq hrows 1, rfl, List.length_map _, fun vs hvs => (hrows vs hvs).width⟩

/-- The same over the rows of a table. -/
theorem make_holds {n : Nat} {rows : List (List Str)} {headers : List Str} (key : Bool)
    (header text : Str) (columnCount : Nat) (st : Statics)
    (hheaders : headers.length = n) (hrows : ∀ vs ∈ rows, CleanRow n vs) (hlf : '\n' ∈ text)
    (hlines : getlines '\n' (dropCr text) =
      if key then rows.map encodeRow else header :: rows.map encodeRow) :
    ∃ rd, GkCsvReader.make columnCount key text headers st = .ok (rd, Statics.reset) ∧
      Holds rd n rows ∧ rd.headers = headers ∧ rd.key = key ∧ rd.csvRawData = text := by
  rcases make_tabled key header text columnCount st hheaders
    (fun vs hvs => (hrows vs hvs).plainRow) hlf hlines with ⟨rd, hmake, htabled, hrest⟩
  exact ⟨rd, hmake, ⟨htabled, fun vs hvs v hv => ((hrows vs hvs).cells v hv).ne_nil⟩, hrest⟩

/-! ## One row behind a header line -/

/-- The text of a single row behind a header line, as the writers of the BitTorrent
records put it down. -/
def rowText (headers cells : List Str) : Str := encodeRow headers ++ '\n' :: encodeRow cells

section RowText

variable {n : Nat} {headers cells : List Str}

/-- A single row may hold carriage returns: no line feed is behind it. -/
theorem dropCr_rowText (hheaders : CleanRow n headers)
    (hcr : (encodeRow headers).getLast? ≠ some '\r') (hcells : PlainRow n cells) :
    dropCr (rowText headers cells) = rowText headers cells := by
  rw [dropCr, rowText, hasCrLf_line_append (encodeRow_no_lf hheaders.plainRow),
    hasCrLf_of_no_lf (encodeRow_no_lf hcells), decide_eq_false hcr, Bool.or_self,
    if_neg Bool.false_ne_true]

theorem make_rowText (hheaders : CleanRow n headers)
    (hcr : (encodeRow headers).getLast? ≠ some '\r') (hcells : PlainRow n cells)
    (hne : encodeRow cells ≠ []) (columnCount : Nat) (st : Statics) :
    ∃ rd, GkCsvReader.make columnCount false (rowText headers cells) headers st =
        .ok (rd, Statics.reset) ∧ Tabled rd n [cells] ∧
      ∀ name ∈ headers, hasColumn rd name = .ok true := by
  have hlf : '\n' ∈ rowText headers cells := by simp [rowText]
  -- the line of the row has no line feed behind it
  have hlines : getlines '\n' (dropCr (rowText headers cells)) =
      [encodeRow headers, encodeRow cells] := by
    rw [dropCr_rowText hheaders hcr hcells, rowText,
      getlines_append_delim (encodeRow_no_lf hheaders.plainRow),
      getlines_single (encodeRow_no_lf hcells) hne]
  rcases @make_tabled n [cells] headers false (encodeRow headers) (rowText headers cells)
    columnCount st hheaders.width (by simpa using hcells) hlf hlines with
    ⟨rd, hmake, htabled, -, hkey, hraw⟩
  refine ⟨rd, hmake, htabled, ?_⟩
  intro name hname
  rw [hasColumn, hkey, hraw, if_neg Bool.false_ne_true, readRows_eq false _ hlf, hlines]
  simp only [bind, Except.bind, pure, Except.pure, getlines_encodeRow hheaders.plainRow, hname,
    decide_true]

/-- The first call takes the cells of the row, unless two of them are empty. -/
theorem readRow_rowText {rd : GkCsvReader} (h : Tabled rd n [cells]) (hn : 2 ≤ n)
    (hfull : n ≤ (taken cells).length + 1) (vars : Vars) :
    ∃ st, readRow rd (List.range n) vars Statics.reset =
        some (true, storeFrom (taken cells) 0 vars, st) ∧ AtRow 1 st :=
  readRow_next h hn atRow_reset rfl hfull vars

end RowText

/-! ## Encoded tables -/

/-- The text of a table: a header line unless `key`, then one line per row. The
last line feed is there or not. -/
def encodeTable (key : Bool) (header : Str) (finalLf : Bool) (rows : List (List Str)) : Str :=
  (if key then [] else header ++ ['\n']) ++
    if finalLf then terminated '\n' (rows.map encodeRow)
    else joined '\n' (rows.map encodeRow)

theorem getlines_encoded_rows {n : Nat} (hn : 1 ≤ n) (finalLf : Bool) {rows : List (List Str)}
    (h : ∀ vs ∈ rows, CleanRow n vs) :
    getlines '\n' (if finalLf then terminated '\n' (rows.map encodeRow)
      else joined '\n' (rows.map encodeRow)) = rows.map encodeRow := by
  have hlf : ∀ line ∈ rows.map encodeRow, '\n' ∉ line := by
    intro line hl
    obtain ⟨vs, hvs, rfl⟩ := List.mem_map.mp hl
    exact encodeRow_no_lf (h vs hvs).plainRow
  cases finalLf with
  | true => exact getlines_terminated hlf
  | false =>
    refine getlines_joined hlf ?_
    intro line hl
    obtain ⟨vs, hvs, rfl⟩ := List.mem_map.mp (List.mem_of_getLast? hl)
    exact encodeRow_ne_nil hn (h vs hvs)

/-- A carriage return occurs in the rows of an encoded table only inside a cell. -/
theorem no_cr_encoded_rows {rows : List (List Str)} (finalLf : Bool)
    (hcr : ∀ vs ∈ rows, ∀ v ∈ vs, '\r' ∉ v) :
    '\r' ∉ (if finalLf then terminated '\n' (rows.map encodeRow)
      else joined '\n' (rows.map encodeRow)) := by
  -- the separators are no carriage returns
  have hline : ∀ line ∈ rows.map encodeRow, '\r' ∉ line := by
    intro line hl hmem
    obtain ⟨vs, hvs, rfl⟩ := List.mem_map.mp hl
    rcases mem_joined hmem with hc | ⟨v, hv, hin⟩
    · exact absurd hc (by decide)
    · exact hcr vs hvs v hv hin
  cases finalLf with
  | true =>
    intro hmem
    obtain ⟨line, hl, hin⟩ := List.mem_flatMap.mp hmem
    rcases List.mem_append.mp hin with hin | hin
    · exact hline line hl hin
    · exact absurd (List.mem_singleton.mp hin) (by decide)
  | false =>
    intro hmem
    rcases mem_joined hmem with hc | ⟨line, hl, hin⟩
    · exact absurd hc (by decide)
    · exact hline line hl hin

/-- Carriage returns of a header line do not reach the lines behind it. -/
theorem dropCr_header (header : Str) {body : Str} (hbody : '\r' ∉ body) :
    ∃ header', dropCr (header ++ '\n' :: body) = header' ++ '\n' :: body ∧
      ∀ c ∈ header', c ∈ header := by
  unfold dropCr
  split
  · refine ⟨header.filter (· ≠ '\r'), ?_, fun c hc => (List.mem_filter.mp hc).1⟩
    have hkeep : body.filter (· ≠ '\r') = body := by
      rw [List.filter_eq_self]
      intro c hc
      have : c ≠ '\r' := fun e => hbody (e ▸ hc)
      simp [this]
    rw [List.filter_append, List.filter_cons_of_pos (by decide), hkeep]
  · exact ⟨header, rfl, fun c hc => hc⟩

theorem make_encoded {n : Nat} (hn : 2 ≤ n) {rows : List (List Str)} (hm : rows ≠ [])
    (hrows : ∀ vs ∈ rows, CleanRow n vs) (hcr : ∀ vs ∈ rows, ∀ v ∈ vs, '\r' ∉ v)
    {headers : List Str} (hheaders : headers.length = n) {key finalLf : Bool} {header : Str}
    (hheader : '\n' ∉ header) (hfinal : key = true → finalLf = true) (columnCount : Nat)
    (st : Statics) :
    ∃ rd, GkCsvReader.make columnCount key (encodeTable key header finalLf rows) headers st =
        .ok (rd, Statics.reset) ∧ Holds rd n rows := by
  obtain ⟨vs, rest, rfl⟩ : ∃ vs rest, rows = vs :: rest := List.exists_cons_of_ne_nil hm
  have hlines := getlines_encoded_rows (by omega) finalLf hrows
  have hnocr := no_cr_encoded_rows finalLf hcr
  set body := if finalLf then terminated '\n' ((vs :: rest).map encodeRow)
    else joined '\n' ((vs :: rest).map encodeRow) with hbody
  cases key with
  | true =>
    -- without a header line the text is the rows, with a final line feed
    have htext : encodeTable true header finalLf (vs :: rest) = body := rfl
    have hlf : '\n' ∈ body := by
      rw [hbody, if_pos (hfinal rfl), List.map_cons, terminated_cons]
      simp
    have hdrop : dropCr body = body := by
      rw [dropCr, hasCrLf_of_no_cr hnocr, if_neg Bool.false_ne_true]
    obtain ⟨rd, hmake, hholds, -⟩ := make_holds true header body columnCount st
      hheaders hrows hlf (by rw [hdrop, hlines, if_pos rfl])
    exact ⟨rd, htext ▸ hmake, hholds⟩
  | false =>
    -- the header line may lose carriage returns, the rows have none
    have htext : encodeTable false header finalLf (vs :: rest) = header ++ '\n' :: body := by
      simp [encodeTable, hbody]
    obtain ⟨header', hdrop, hsub⟩ := dropCr_header header hnocr
    have hlf' : '\n' ∉ header' := fun hmem => hheader (hsub _ hmem)
    obtain ⟨rd, hmake, hholds, -⟩ := make_holds false header'
      (header ++ '\n' :: body) columnCount st hheaders hrows (by simp)
      (by rw [hdrop, getlines_append_delim hlf', hlines, if_neg Bool.false_ne_true])
    exact ⟨rd, htext ▸ hmake, hholds⟩

/-- **The reader delivers the table.** A fresh reader over an encoded table of `m`
rows: the first `m` calls of `read_row` return `true` with the rows in order in the
variables, and the call behind them returns `false`. -/
theorem readRowTimes_encoded {n : Nat} (hn : 2 ≤ n) {rows : List (List Str)} (hm : rows ≠ [])
    (hrows : ∀ vs ∈ rows, CleanRow n vs) (hcr : ∀ vs ∈ rows, ∀ v ∈ vs, '\r' ∉ v)
    {headers : List Str} (hheaders : headers.length = n) {key finalLf : Bool} {header : Str}
    (hheader : '\n' ∉ header) (hfinal : key = true → finalLf = true) (columnCount : Nat)
    (st : Statics) (vars : Vars) :
    ∃ rd st₀ vars' st',
      GkCsvReader.make columnCount key (encodeTable key header finalLf rows) headers st =
        .ok (rd, st₀) ∧
      readRowTimes rd n (rows.length + 1) vars st₀ =
        some (rows.map (fun vs => (true, vs)) ++ [(false, rows.getLast hm)], vars', st') := by
  obtain ⟨rd, hmake, hholds⟩ :=
    make_encoded hn hm hrows hcr hheaders hheader hfinal columnCount st
  obtain ⟨vars', st', hrun⟩ :=
    readRowTimes_from hholds hn rows vars List.drop_zero atRow_reset (Nat.zero_le _)
  rw [List.getLast?_eq_some_getLast hm, Option.getD_some] at hrun
  exact ⟨rd, Statics.reset, vars', st', hmake, hrun⟩

/-- Two rows of two cells behind a header, without a final line feed. -/
theorem readRowTimes_two_rows :
    ∃ rd st₀ vars' st',
      GkCsvReader.make 2 false
          (encodeTable false "tier,url".toList false
            [["0".toList, "udp://a".toList], ["1".toList, "udp://b".toList]])
          ["tier".toList, "url".toList] Statics.reset = .ok (rd, st₀) ∧
      readRowTimes rd 2 3 (fun _ => []) st₀ =
        some ([(true, ["0".toList, "udp://a".toList]), (true, ["1".toList, "udp://b".toList]),
          (false, ["1".toList, "udp://b".toList])], vars', st') :=
  @readRowTimes_encoded 2 (by decide)
    [["0".toList, "udp://a".toList], ["1".toList, "udp://b".toList]] (by decide) (by decide)
    (by decide) _ rfl false false _ (by decide) (by decide) 2 Statics.reset (fun _ => [])

/-! ## The loop around `read_row` ends -/

theorem readCsvHelper_rowsParsed {rd : GkCsvReader} {c r : Nat} {st st' : Statics} {data : Str}
    (h : readCsvHelper rd c r st = some (data, st')) : st'.rowsParsed = st.rowsParsed := by
  unfold readCsvHelper at h
  split at h
  · cases h; rfl
  · split at h
    · cases h; rfl
    · split at h
      · obtain ⟨p, -, hp⟩ := Option.map_eq_some_iff.mp h
        cases hp
        rfl
      · cases h; rfl

theorem readRowLoop_rowsParsed {rd : GkCsvReader} {var : Nat}
    {next : Vars → Statics → Option (Bool × Vars × Statics)}
    (hnext : ∀ vars st b vars' st', next vars st = some (b, vars', st') →
      st.rowsParsed ≤ st'.rowsParsed) (cols : List Nat) :
    ∀ {vars : Vars} {st : Statics} {vars' : Vars} {st' : Statics},
      readRowLoop rd var next cols vars st = some (vars', st') →
      st.rowsParsed ≤ st'.rowsParsed := by
  induction cols with
  | nil => intro vars st vars' st' h; cases h; exact Nat.le_refl _
  | cons c cols ih =>
    intro vars st vars' st' h
    rw [readRowLoop] at h
    obtain ⟨⟨data, st₁⟩, hread, h⟩ := Option.bind_eq_some_iff.mp h
    have h₁ := readCsvHelper_rowsParsed hread
    dsimp only at h
    -- the helper leaves the counter alone, the level below may move it
    split at h
    · exact h₁ ▸ ih h
    · obtain ⟨⟨b, vars₂, st₂⟩, hcall, h⟩ := Option.bind_eq_some_iff.mp h
      have h₂ := hnext _ _ _ _ _ hcall
      have h₃ : st₂.rowsParsed ≤ st'.rowsParsed := ih h
      omega

/-- `rows_parsed` never goes back, and a `true` moves it on from at most
`rows_count`. -/
theorem readRow_rowsParsed {rd : GkCsvReader} (vs : List Nat) :
    ∀ {vars : Vars} {st : Statics} {b : Bool} {vars' : Vars} {st' : Statics},
      readRow rd vs vars st = some (b, vars', st') →
      st.rowsParsed ≤ st'.rowsParsed ∧
        (b = true → st.rowsParsed < st'.rowsParsed ∧ st.rowsParsed ≤ rd.rowsCount) := by
  induction vs with
  | nil =>
    intro vars st b vars' st' h
    cases h
    exact ⟨Nat.le_refl _, fun hb => absurd hb Bool.false_ne_true⟩
  | cons var rest ih =>
    intro vars st b vars' st' h
    rw [readRow] at h
    split at h
    · obtain ⟨⟨vars₁, st₁⟩, hloop, h⟩ := Option.bind_eq_some_iff.mp h
      have hle := readRowLoop_rowsParsed (fun _ _ _ _ _ hc => (ih hc).1) _ hloop
      dsimp only at h
      split at h
      · cases h
        exact ⟨by simp; omega, fun _ => ⟨by simp; omega, by omega⟩⟩
      · -- the level counts a row
        cases h
        exact ⟨hle, fun hb => absurd hb Bool.false_ne_true⟩
    · cases h
      exact ⟨Nat.le_refl _, fun hb => absurd hb Bool.false_ne_true⟩

/-- More than `rows_count + 1 - rows_parsed` rounds are never needed. -/
theorem readAllFuel_stable {rd : GkCsvReader} {cols : Nat} (f : Nat) :
    ∀ (f' : Nat) {vars : Vars} {st : Statics}, rd.rowsCount + 1 - st.rowsParsed < f →
      rd.rowsCount + 1 - st.rowsParsed < f' →
      readAllFuel rd cols f vars st = readAllFuel rd cols f' vars st := by
  induction f with
  | zero => intro f' vars st h; omega
  | succ f ih =>
    intro f' vars st hf hf'
    obtain ⟨f', rfl⟩ : ∃ g, f' = g + 1 := ⟨f' - 1, by omega⟩
    rw [readAllFuel, readAllFuel]
    cases hcall : readRow rd (List.range cols) vars st with
    | none => rfl
    | some p =>
      obtain ⟨b, vars₁, st₁⟩ := p
      cases b with
      | false => rfl
      | true =>
        -- a call that returned a row has counted it
        obtain ⟨-, hmove⟩ := readRow_rowsParsed _ hcall
        obtain ⟨hlt, hle⟩ := hmove rfl
        simp only [bind, Option.bind, if_true]
        rw [ih f' (by omega) (by omega)]

/-- The rounds that `readAll` allows are enough. -/
theorem readAllFuel_enough {rd : GkCsvReader} {cols fuel : Nat} (vars : Vars) (st : Statics)
    (h : rd.rowsCount + 2 ≤ fuel) :
    readAllFuel rd cols fuel vars st = readAll rd cols vars st :=
  readAllFuel_stable fuel _ (by omega) (by omega)

/-- The loop over a table hands every row to its body, in order. -/
theorem readAll_holds {rd : GkCsvReader} {n : Nat} {rows : List (List Str)}
    (h : Holds rd n rows) (hn : 2 ≤ n) (vars : Vars) :
    ∃ st', readAll rd n vars Statics.reset = some (rows, st') :=
  readAllFuel_from h hn rows vars List.drop_zero atRow_reset (Nat.zero_le _)
    (by rw [h.count]; omega)

/-! ## Values of any text -/

theorem parseLine_plain {n row : Nat} (vs : List Str) (h : ∀ v ∈ vs, Plain v) :
    ∀ {col : Nat}, ∀ cell ∈ parseLine n row col vs, Plain cell.value := by
  induction vs with
  | nil =>
    intro col cell hcell
    exact absurd hcell List.not_mem_nil
  | cons v vs ih =>
    intro col cell hcell
    rw [parseLine] at hcell
    rcases List.mem_cons.mp hcell with rfl | hrest
    · exact h v List.mem_cons_self
    · exact ih (fun v hv => h v (List.mem_cons_of_mem _ hv)) cell hrest

theorem parseLines_plain {n : Nat} (lines : List Str) (h : ∀ line ∈ lines, '\n' ∉ line) :
    ∀ {row : Nat}, ∀ cell ∈ parseLines n row lines, Plain cell.value := by
  induction lines with
  | nil =>
    intro row cell hcell
    exact absurd hcell List.not_mem_nil
  | cons line lines ih =>
    intro row cell hcell
    rw [parseLines] at hcell
    rcases List.mem_append.mp hcell with hhere | hrest
    · refine parseLine_plain _ (fun v hv => ⟨not_mem_of_mem_getlines hv, fun hlf => ?_⟩) cell hhere
      exact h line List.mem_cons_self (mem_of_mem_getlines hv hlf)
    · exact ih (fun line hl => h line (List.mem_cons_of_mem _ hl)) cell hrest

theorem readRows_no_lf {key : Bool} {n m : Nat} {text : Str} {lines : List Str}
    (h : readRows key n text = .ok (lines, m)) : ∀ line ∈ lines, '\n' ∉ line := by
  unfold readRows at h
  split at h
  · cases h
    intro line hl
    exact absurd hl List.not_mem_nil
  · split at h
    · cases h
      exact fun line hl => not_mem_of_mem_getlines hl
    · split at h
      · cases h
      · cases h
        exact fun line hl => not_mem_of_mem_getlines hl

/-- No cell of a parsed text has a delimiter in it. -/
theorem make_plain {n : Nat} {key : Bool} {text : Str} {headers : List Str} {st st' : Statics}
    {rd : GkCsvReader} (h : GkCsvReader.make n key text headers st = .ok (rd, st')) :
    ∀ cell ∈ rd.csvData, Plain cell.value := by
  unfold GkCsvReader.make at h
  split at h
  · cases h
    intro cell hcell
    exact absurd hcell List.not_mem_nil
  · cases hparse : parseCsv key headers.length 0 text with
    | error e => rw [hparse] at h; cases h
    | ok p =>
      obtain ⟨cells, count⟩ := p
      rw [hparse] at h
      cases h
      unfold parseCsv at hparse
      -- cells are fields of lines, and both kinds of delimiters are gone
      cases hrows : readRows key 0 text with
      | error e => rw [hrows] at hparse; cases hparse
      | ok q =>
        obtain ⟨lines, m⟩ := q
        have hlf := readRows_no_lf hrows
        rw [hrows] at hparse
        simp only [bind, Except.bind, pure, Except.pure] at hparse
        split at hparse
        · cases hparse
          intro cell hcell
          exact absurd hcell List.not_mem_nil
        · cases hparse
          refine parseLines_plain _ ?_
          intro line hl
          split at hl
          · exact hlf line hl
          · exact hlf line (List.mem_of_mem_drop hl)

section Values

variable {rd : GkCsvReader} {P : Str → Prop}

theorem scanCells_value {c r : Nat} {proc proc' : List (Nat × Nat)} {cells : List Cell}
    {data : Str} (hcells : ∀ cell ∈ cells, P cell.value) (hnil : P [])
    (h : scanCells c r proc cells = some (data, proc')) : P data := by
  induction cells with
  | nil => cases h
  | cons cell rest ih =>
    rw [scanCells] at h
    split at h
    · cases h; exact hnil
    · split at h
      · split at h
        · cases h; exact hcells cell List.mem_cons_self
        · cases h; exact hnil
      · exact ih (fun cell hc => hcells cell (List.mem_cons_of_mem _ hc)) h

theorem readCsvHelper_value {c r : Nat} {st st' : Statics} {data : Str}
    (hcells : ∀ cell ∈ rd.csvData, P cell.value) (hnil : P [])
    (h : readCsvHelper rd c r st = some (data, st')) : P data := by
  unfold readCsvHelper at h
  split at h
  · cases h; exact hnil
  · split at h
    · cases h; exact hnil
    · split at h
      · obtain ⟨⟨data', proc⟩, hscan, heq⟩ := Option.map_eq_some_iff.mp h
        cases heq
        exact scanCells_value hcells hnil hscan
      · cases h; exact hnil

theorem readRowLoop_values {var : Nat}
    {next : Vars → Statics → Option (Bool × Vars × Statics)}
    (hcells : ∀ cell ∈ rd.csvData, P cell.value) (hnil : P [])
    (hnext : ∀ vars st b vars' st', (∀ i, P (vars i)) → next vars st = some (b, vars', st') →
      ∀ i, P (vars' i)) (cols : List Nat) :
    ∀ {vars : Vars} {st : Statics} {vars' : Vars} {st' : Statics}, (∀ i, P (vars i)) →
      readRowLoop rd var next cols vars st = some (vars', st') → ∀ i, P (vars' i) := by
  induction cols with
  | nil =>
    intro vars st vars' st' hvars h
    cases h
    exact hvars
  | cons c cols ih =>
    intro vars st vars' st' hvars h
    rw [readRowLoop] at h
    obtain ⟨⟨data, st₁⟩, hread, h⟩ := Option.bind_eq_some_iff.mp h
    dsimp only at h
    split at h
    · exact ih hvars h
    · obtain ⟨⟨b, vars₂, st₂⟩, hcall, h⟩ := Option.bind_eq_some_iff.mp h
      -- one variable changes, to the value of a cell or the empty string
      have hupd : ∀ i, P (Function.update vars var data i) := by
        intro i
        by_cases hi : i = var
        · subst hi
          rw [Function.update_self]
          exact readCsvHelper_value hcells hnil hread
        · rw [Function.update_of_ne hi]
          exact hvars i
      exact ih (hnext _ _ _ _ _ hupd hcall) h

theorem readRow_values (hcells : ∀ cell ∈ rd.csvData, P cell.value) (hnil : P [])
    (vs : List Nat) :
    ∀ {vars : Vars} {st : Statics} {b : Bool} {vars' : Vars} {st' : Statics}, (∀ i, P (vars i)) →
      readRow rd vs vars st = some (b, vars', st') → ∀ i, P (vars' i) := by
  induction vs with
  | nil =>
    intro vars st b vars' st' hvars h
    cases h
    exact hvars
  | cons var rest ih =>
    intro vars st b vars' st' hvars h
    rw [readRow] at h
    split at h
    · obtain ⟨⟨vars₁, st₁⟩, hloop, h⟩ := Option.bind_eq_some_iff.mp h
      -- the induction is on the variables; each is filled by a loop of its own
      have hvars₁ := readRowLoop_values hcells hnil
        (fun _ _ _ _ _ hv hc => ih hv hc) _ hvars hloop
      dsimp only at h
      split at h
      · cases h; exact hvars₁
      · cases h; exact hvars₁
    · cases h; exact hvars

/-- What a reader hands out are the empty string and values of its cells. -/
theorem readAll_values {cols : Nat} (hcells : ∀ cell ∈ rd.csvData, P cell.value) (hnil : P []) :
    ∀ {rows : List (List Str)} {st st' : Statics},
      readAll rd cols (fun _ => []) st = some (rows, st') → ∀ vs ∈ rows, ∀ v ∈ vs, P v := by
  -- the induction is on the rounds, with whatever variables the last one has left
  have general : ∀ (fuel : Nat) {vars : Vars} {st : Statics} {rows : List (List Str)}
      {st' : Statics}, (∀ i, P (vars i)) → readAllFuel rd cols fuel vars st = some (rows, st') →
      ∀ vs ∈ rows, ∀ v ∈ vs, P v := by
    intro fuel
    induction fuel with
    | zero => intro vars st rows st' _ h; cases h
    | succ fuel ih =>
      intro vars st rows st' hvars h
      rw [readAllFuel] at h
      obtain ⟨⟨b, vars₁, st₁⟩, hcall, h⟩ := Option.bind_eq_some_iff.mp h
      have hvars₁ := readRow_values hcells hnil _ hvars hcall
      dsimp only at h
      split at h
      · obtain ⟨⟨rest, st₂⟩, hrest, h⟩ := Option.bind_eq_some_iff.mp h
        cases h
        intro vs hvs v hv
        rcases List.mem_cons.mp hvs with rfl | hin
        · obtain ⟨i, -, rfl⟩ := List.mem_map.mp hv
          exact hvars₁ i
        · exact ih hvars₁ hrest vs hin v hv
      · cases h
        intro vs hvs
        exact absurd hvs List.not_mem_nil
  intro rows st st' h
  exact general _ (fun _ => hnil) h

end Values

end FyreDL.Csv
