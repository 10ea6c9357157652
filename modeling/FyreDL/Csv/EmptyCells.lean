import FyreDL.Csv.Text

/-!
# FyreDL.Csv.EmptyCells — tables with empty cells

Each argument of `read_row` is to signify the column that its data comes from. A level of
`read_row` takes the next cell that is not empty, whichever column it stands in.

* `VisitsRows` — the calls hand out the rows one after the other, each cell in the variable
  of its column, and then return `false`.
* `readRow_visits` — the first call in front of a row does so only if all cells are filled:
  one empty cell moves the later ones to the left, and two end the loop.
* `visitsRows_iff` — over any text, the calls visit its rows exactly if no cell is empty. The
  lines of a text are those that `read_rows` makes of it.
-/

namespace FyreDL.Csv

open Lib

/-- As many calls as there are rows return `true`, each with the cells of its row in the
variables, and the next one returns `false`. -/
def VisitsRows (rd : GkCsvReader) (n : Nat) (rows : List (List Str)) (vars : Vars) (st : Statics) :
    Prop :=
  ∃ left vars' st', readRowTimes rd n (rows.length + 1) vars st =
    some (rows.map (fun vs => (true, vs)) ++ [(false, left)], vars', st')

section Rows

variable {rd : GkCsvReader} {n : Nat} {rows : List (List Str)}

/-- What the variables show behind a call that took the cells `ws`. -/
theorem getElem?_storeFrom_map (ws : List Str) (vars : Vars) {i : Nat} (hi : i < n)
    (hws : i < ws.length) : ((List.range n).map (storeFrom ws 0 vars))[i]? = ws[i]? := by
  rw [List.getElem?_map, List.getElem?_range hi]
  simp [storeFrom, hws]

/-- A row that comes out as it is has no empty cell: at most one is missing in what the call
took, and the last one is not empty by itself. -/
theorem filled_of_shown {vs : List Str} (hrow : PlainRow n vs) (vars : Vars)
    (htaken : n ≤ (taken vs).length + 1)
    (hshow : (List.range n).map (storeFrom (taken vs) 0 vars) = vs) : ∀ v ∈ vs, v ≠ [] := by
  intro v hv
  rcases List.mem_iff_getElem?.mp hv with ⟨i, hi⟩
  have hin : i < n := hrow.width ▸ (List.getElem?_eq_some_iff.mp hi).1
  by_cases hlast : i + 1 = n
  · apply hrow.last v
    rw [Option.mem_def, List.getLast?_eq_getElem?, hrow.width, ← hlast]
    exact hi
  · -- the variable in front of the last one got a cell of this call
    have hcell : i < (taken vs).length := by omega
    rw [← hshow, getElem?_storeFrom_map (taken vs) vars hin hcell] at hi
    exact of_decide_eq_true (List.mem_filter.mp (List.mem_of_getElem? hi)).2

/-- The first call in front of a row hands it out only if it is filled. -/
theorem readRow_visits (h : Tabled rd n rows) (hn : 2 ≤ n) {r : Nat} {vs : List Str} {st : Statics}
    (hst : AtRow r st) (hrow : rows[r]? = some vs) (hplain : PlainRow n vs) {vars vars' : Vars}
    {st' : Statics} (hcall : readRow rd (List.range n) vars st = some (true, vars', st'))
    (hshow : (List.range n).map vars' = vs) : AtRow (r + 1) st' ∧ ∀ v ∈ vs, v ≠ [] := by
  rcases readRow_fresh hn hst (h.rowOf hrow) vars with ⟨proc, hfresh, hmarks, -⟩
  rw [hcall] at hfresh
  have heq := Option.some.inj hfresh
  have htaken : n ≤ (taken vs).length + 1 :=
    of_decide_eq_true (congrArg Prod.fst heq).symm
  rw [if_pos htaken, decide_eq_true htaken] at heq
  cases heq
  exact ⟨⟨rfl, rfl, hmarks⟩, filled_of_shown hplain vars htaken hshow⟩

/-- Calls that visit the rows that are left find them filled. The induction is on these
rows. -/
theorem filled_of_visits (h : Tabled rd n rows) (hn : 2 ≤ n) (hplain : ∀ vs ∈ rows, PlainRow n vs)
    (rest : List (List Str)) :
    ∀ {vars : Vars} {r : Nat} {st : Statics}, rows.drop r = rest → AtRow r st →
      VisitsRows rd n rest vars st → ∀ vs ∈ rest, ∀ v ∈ vs, v ≠ [] := by
  induction rest with
  | nil =>
    intro vars r st _ _ _ vs hvs
    exact absurd hvs List.not_mem_nil
  | cons vs rest ih =>
    intro vars r st hdrop hst hvisits
    rcases hvisits with ⟨left, vars', st', htimes⟩
    rcases of_drop_eq_cons hdrop with ⟨-, hrow, hdrop'⟩
    rw [List.length_cons, readRowTimes] at htimes
    rcases Option.bind_eq_some_iff.mp htimes with ⟨⟨b, vars₁, st₁⟩, hcall, hlater⟩
    rcases Option.bind_eq_some_iff.mp hlater with ⟨⟨out, vars₂, st₂⟩, hout, heq⟩
    have hout' := congrArg Prod.fst (Option.some.inj heq)
    rw [List.map_cons, List.cons_append] at hout'
    rcases List.cons.inj hout' with ⟨hhead, htail⟩
    rcases Prod.mk.inj hhead with ⟨rfl, hshow⟩
    -- the first call handed out this row, and the others hand out the rest
    rcases readRow_visits h hn hst hrow (hplain vs (List.mem_of_getElem? hrow)) hcall hshow with
      ⟨hst₁, hfilled⟩
    have hrest : VisitsRows rd n rest vars₁ st₁ := ⟨left, vars₂, st₂, by rw [hout, htail]⟩
    intro ws hws
    rcases List.mem_cons.mp hws with rfl | hin
    · exact hfilled
    · exact ih hdrop' hst₁ hrest ws hin

/-- **The rows are visited** exactly if they are filled. -/
theorem Tabled.visits_iff_filled (h : Tabled rd n rows) (hn : 2 ≤ n)
    (hplain : ∀ vs ∈ rows, PlainRow n vs) (vars : Vars) :
    VisitsRows rd n rows vars Statics.reset ↔ ∀ vs ∈ rows, ∀ v ∈ vs, v ≠ [] := by
  constructor
  · exact filled_of_visits h hn hplain rows List.drop_zero atRow_reset
  · intro hfilled
    rcases readRowTimes_from ⟨h, hfilled⟩ hn rows vars List.drop_zero atRow_reset
      (Nat.zero_le _) with ⟨vars', st', htimes⟩
    exact ⟨_, vars', st', htimes⟩

end Rows

/-! ## Texts -/

section Texts

variable {n columnCount : Nat} {key : Bool} {text : Str} {headers : List Str}
  {rows : List (List Str)} {rd : GkCsvReader} {st st₀ : Statics}

/-- A reader over the empty text returns `false` at once. -/
theorem visitsRows_emptyText (hn : 2 ≤ n)
    (hmake : GkCsvReader.make columnCount key [] headers st = .ok (rd, st₀)) (vars : Vars) :
    VisitsRows rd n [] vars st₀ := by
  rcases Nat.exists_eq_add_of_le' hn with ⟨j, rfl⟩
  cases hmake
  have hcall : ∀ st : Statics, readRow ⟨[], columnCount, 0, false, [], []⟩ (List.range (j + 2))
      vars st = some (false, vars, { st with retParsedCols := st.retParsedCols + 1 }) := by
    intro st
    rw [List.range_eq_range', List.range'_succ, readRow, if_neg (fun hc => hc.1 rfl)]
  refine ⟨(List.range (j + 2)).map vars, vars, ⟨0, 1, st.procCols⟩, ?_⟩
  rw [List.length_nil, readRowTimes, hcall]
  rfl

/-- The constructor accepts no other text without a line feed. -/
theorem lf_mem_of_make (hne : text ≠ [])
    (hmake : GkCsvReader.make columnCount key text headers st = .ok (rd, st₀)) : '\n' ∈ text := by
  by_contra hlf
  have hthrow : GkCsvReader.make columnCount key text headers st = .error noLineEndings := by
    simp [GkCsvReader.make, parseCsv, readRows, hne, hasCrLf_of_no_lf hlf, hlf, bind, Except.bind]
  rw [hthrow] at hmake
  cases hmake

/-- **Empty cells.** A fresh reader over any text whose data lines all have `n` fields, the
last one not empty, visits these lines cell by cell exactly if no field is empty at all. -/
theorem visitsRows_iff (hn : 2 ≤ n) (hheaders : headers.length = n)
    (hmake : GkCsvReader.make columnCount key text headers st = .ok (rd, st₀))
    (hlines : dataLines key text = rows.map encodeRow) (hrows : ∀ vs ∈ rows, PlainRow n vs)
    (vars : Vars) :
    VisitsRows rd n rows vars st₀ ↔ ∀ vs ∈ rows, ∀ v ∈ vs, v ≠ [] := by
  by_cases hne : text = []
  · -- there is no line at all
    subst hne
    have hnil : rows = [] := by
      have hdata : dataLines key [] = [] := by cases key <;> rfl
      rw [hdata] at hlines
      exact List.map_eq_nil_iff.mp hlines.symm
    subst hnil
    exact iff_of_true (visitsRows_emptyText hn hmake vars) fun vs hvs => absurd hvs List.not_mem_nil
  · rw [make_eq key columnCount headers st (lf_mem_of_make hne hmake), hheaders, hlines] at hmake
    cases hmake
    have htabled : Tabled ⟨text, n, (rows.map encodeRow).length, key, headers,
        parseLines n 1 (rows.map encodeRow)⟩ n rows :=
      ⟨parseLines_eq hrows 1, rfl, List.length_map _, fun vs hvs => (hrows vs hvs).width⟩
    exact htabled.visits_iff_filled hn hrows vars

end Texts

/-- An index with one line, which has an empty field in the middle. -/
def gapLine : Str := "1,,0\n".toList

def gapHeaders : List Str := ["uid_key".toList, "path".toList, "is_torrent".toList]

theorem plainRow_gap : ∀ vs ∈ [["1".toList, [], "0".toList]], PlainRow 3 vs := by
  intro vs hvs
  obtain rfl := List.mem_singleton.mp hvs
  exact ⟨rfl, by decide, by decide⟩

/-- The call hands out the third field in the variable of the second one. -/
theorem visitsRows_gap :
    ∃ rd st₀, GkCsvReader.make 3 true gapLine gapHeaders Statics.reset = .ok (rd, st₀) ∧
      dataLines true gapLine = [["1".toList, [], "0".toList]].map encodeRow ∧
      (∀ vs ∈ [["1".toList, [], "0".toList]], PlainRow 3 vs) ∧
      (readRowTimes rd 3 1 (fun _ => []) st₀).map Prod.fst =
        some [(true, ["1".toList, "0".toList, []])] ∧
      ¬ VisitsRows rd 3 [["1".toList, [], "0".toList]] (fun _ => []) st₀ := by
  refine ⟨_, _, rfl, by decide, plainRow_gap, by decide +kernel, ?_⟩
  rintro ⟨left, vars', st', htimes⟩
  -- the two calls of this run
  have hrun : (readRowTimes ⟨gapLine, 3, 1, true, gapHeaders,
      [⟨1, 1, "1".toList⟩, ⟨1, 2, []⟩, ⟨1, 3, "0".toList⟩]⟩ 3 2 (fun _ => []) Statics.reset).map
        Prod.fst = some [(true, ["1".toList, "0".toList, []]),
          (false, ["1".toList, "0".toList, []])] := by
    decide +kernel
  have hout := hrun.symm.trans (congrArg (Option.map Prod.fst) htimes)
  exact absurd (List.cons.inj (Option.some.inj hout)).1 (by decide)

/-- The condition for this text. -/
theorem visitsRows_gap_iff :
    ∃ rd st₀, GkCsvReader.make 3 true gapLine gapHeaders Statics.reset = .ok (rd, st₀) ∧
      (VisitsRows rd 3 [["1".toList, [], "0".toList]] (fun _ => []) st₀ ↔
        ∀ vs ∈ [["1".toList, [], "0".toList]], ∀ v ∈ vs, v ≠ []) :=
  ⟨_, _, rfl, @visitsRows_iff 3 3 true gapLine gapHeaders _ _ Statics.reset _ (by decide) rfl rfl
    (by decide) plainRow_gap _⟩

end FyreDL.Csv
