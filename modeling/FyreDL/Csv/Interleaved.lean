import FyreDL.Csv.Ending
import FyreDL.Lib.Run

/-!
# FyreDL.Csv.Interleaved — several readers on one thread

`rows_parsed`, `ret_parsed_cols` and `proc_cols` belong to the class, the data to its
objects. The machine of this module has any number of objects, numbered by `I`, over one
`Statics`; an action constructs an object or calls its `read_row`.

* `Independent` — up to its first `false` each object has delivered what it delivers alone.
* `Kept` — where a call is made, the counters stand where the object's own calls would have
  put them, or both are behind its last row.
* `read_row_independent` — in a run whose calls are all made so, the objects are independent.
* `read_row_interleaved` — after two constructions the second reader loses its first row to
  the first one.
-/

namespace FyreDL.Csv

open Lib

/-! ## The machine -/

/-- The arguments of a constructor call. -/
structure Source where
  columnCount : Nat
  key : Bool
  text : Str
  headers : List Str

/-- A rectangular text: a column at least, and the rows of a table behind the header line. -/
structure Source.WellFormed (src : Source) : Prop where
  columns : 1 ≤ src.headers.length
  rows : ∃ rows : List (List Str), (∀ vs ∈ rows, CleanRow src.headers.length vs) ∧
    dataLines src.key src.text = rows.map encodeRow

def Source.make (src : Source) (st : Statics) : Except Str (GkCsvReader × Statics) :=
  GkCsvReader.make src.columnCount src.key src.text src.headers st

/-- An object and the variables its caller reads into: the calls made so far, and what each
of them returned and left in the variables. -/
structure Use where
  reader : GkCsvReader
  vars : Vars
  calls : Nat
  delivered : List (Bool × List Str)

/-- The objects and the static members they share. -/
structure Shared (I : Type) where
  statics : Statics
  uses : I → Option Use

inductive CsvAction (I : Type) where
  | build (i : I)
  | readRow (i : I)

/-- `read_row` on `n` variables. A call that does not return delivers nothing. -/
def Use.readRow (n : Nat) (u : Use) (st : Statics) : Use × Statics :=
  match Csv.readRow u.reader (List.range n) u.vars st with
  | none => ({ u with calls := u.calls + 1 }, st)
  | some (ret, vars, st) =>
    (⟨u.reader, vars, u.calls + 1, u.delivered ++ [(ret, (List.range n).map vars)]⟩, st)

/-- A constructor that throws has reset the static members before. -/
def Shared.step {I : Type} [DecidableEq I] (src : I → Source) (s : Shared I) :
    CsvAction I → Shared I
  | .build i =>
    match (src i).make s.statics with
    | .ok (rd, st) => ⟨st, Function.update s.uses i (some ⟨rd, fun _ => [], 0, []⟩)⟩
    | .error _ => ⟨Statics.reset, Function.update s.uses i none⟩
  | .readRow i =>
    match s.uses i with
    | none => s
    | some u =>
      ⟨(u.readRow (src i).headers.length s.statics).2,
        Function.update s.uses i (some (u.readRow (src i).headers.length s.statics).1)⟩

/-- No object is constructed. -/
def Shared.start {I : Type} (st : Statics) : Shared I := ⟨st, fun _ => none⟩

/-! ## Independence -/

/-- The results of a sequence of calls up to the first `false`. -/
def untilFalse : List (Bool × List Str) → List (Bool × List Str)
  | [] => []
  | (false, cells) :: _ => [(false, cells)]
  | (true, cells) :: rest => (true, cells) :: untilFalse rest

/-- What the first calls deliver when no other object is in use. -/
def Source.alone (src : Source) (calls : Nat) : Option (List (Bool × List Str)) :=
  match src.make Statics.reset with
  | .ok (rd, st) => (readRowTimes rd src.headers.length calls (fun _ => []) st).map Prod.fst
  | .error _ => none

/-- Every object has delivered the rows and the final `false` that it delivers alone. -/
def Independent {I : Type} (src : I → Source) (s : Shared I) : Prop :=
  ∀ i u, s.uses i = some u →
    ∃ out, (src i).alone u.calls = some out ∧ untilFalse u.delivered = untilFalse out

/-- A call has returned `false`. -/
def Use.finished (u : Use) : Prop := false ∈ u.delivered.map Prod.fst

/-- A call finds no row and returns `false`. -/
def Beyond (rd : GkCsvReader) (st : Statics) : Prop :=
  rd.csvData = [] ∨ rd.rowsCount < st.rowsParsed ∨
    (rd.rowsCount = st.rowsParsed ∧ st.retParsedCols + 1 ≠ rd.colsCount)

/-- The object has had its final `false`, or the counters stand at the number of its own
calls, or both these and that number are behind its last row. -/
def Kept {I : Type} (s : Shared I) : CsvAction I → Prop
  | .build _ => True
  | .readRow i => ∀ u ∈ s.uses i, u.finished ∨ AtRow u.calls s.statics ∨
      (Beyond u.reader ⟨u.calls, 0, []⟩ ∧ Beyond u.reader s.statics)

instance (u : Use) : Decidable u.finished := inferInstanceAs (Decidable (_ ∈ _))

instance (rd : GkCsvReader) (st : Statics) : Decidable (Beyond rd st) :=
  inferInstanceAs (Decidable (_ ∨ _))

instance (r : Nat) (st : Statics) : Decidable (AtRow r st) :=
  decidable_of_iff (st.rowsParsed = r ∧ st.retParsedCols = 0 ∧ ∀ p ∈ st.procCols, p.1 ≤ r)
    ⟨fun h => ⟨h.1, h.2.1, h.2.2⟩, fun h => ⟨h.parsed, h.level, h.marks⟩⟩

instance {I : Type} (s : Shared I) : ∀ a, Decidable (Kept s a)
  | .build _ => inferInstanceAs (Decidable True)
  | .readRow i => inferInstanceAs (Decidable (∀ u ∈ s.uses i, _))

theorem mem_untilFalse {out : List (Bool × List Str)} :
    false ∈ (untilFalse out).map Prod.fst ↔ false ∈ out.map Prod.fst := by
  induction out with
  | nil => exact Iff.rfl
  | cons entry rest ih =>
    rcases entry with ⟨ret, cells⟩
    cases ret with
    | false => simp [untilFalse]
    | true => simpa [untilFalse] using ih

theorem untilFalse_append {out : List (Bool × List Str)} (h : false ∈ out.map Prod.fst)
    (later : List (Bool × List Str)) : untilFalse (out ++ later) = untilFalse out := by
  induction out with
  | nil => exact absurd h List.not_mem_nil
  | cons entry rest ih =>
    rcases entry with ⟨ret, cells⟩
    cases ret with
    | false => rfl
    | true =>
      have hrest : false ∈ rest.map Prod.fst := by simpa using h
      rw [List.cons_append, untilFalse, untilFalse, ih hrest]

/-! ## A call in front of a row -/

section Calls

variable {rd : GkCsvReader} {n : Nat} {rows : List (List Str)}

/-- What a reader over a rectangular text holds: a table, or nothing if the text is empty. -/
def HoldsTable (rd : GkCsvReader) (n : Nat) : Prop := rd.csvData = [] ∨ ∃ rows, Holds rd n rows

/-- A call on one variable takes the only cell of the row. -/
theorem readRow_single {r : Nat} {w : Str} (hw : w ≠ []) {st : Statics} (hst : AtRow r st)
    (h : RowOf rd 1 r [w]) (vars : Vars) :
    ∃ st', readRow rd [0] vars st = some (true, Function.update vars 0 w, st') ∧
      AtRow (r + 1) st' := by
  rcases hst with ⟨rfl, hret, hmarks⟩
  have hfresh : (st.rowsParsed + 1, 0 + 1) ∉ st.procCols := by
    intro hp
    have := hmarks _ hp
    omega
  have hread := readCsvHelper_fresh h (List.getElem?_cons_zero) hfresh
  rw [if_pos hw] at hread
  refine ⟨⟨st.rowsParsed + 1, 0, (st.rowsParsed + 1, 1) :: st.procCols⟩, ?_, rfl, rfl, ?_⟩
  · -- the only column yields the cell, and the level below is `read_row()`
    rw [readRow, if_pos ⟨h.csvData_ne_nil Nat.one_pos, Nat.le_of_lt h.inside⟩, h.cols]
    simp only [List.range'_one, readRowLoop, bind, Option.bind]
    rw [hread]
    simp only [if_neg hw, readRow, hret]
    rfl
  · intro p hp
    rcases List.mem_cons.mp hp with rfl | hold
    · exact Nat.le_refl _
    · exact Nat.le_succ_of_le (hmarks p hold)

theorem readRow_row (h : Holds rd n rows) (hn : 1 ≤ n) {r : Nat} {vs : List Str}
    (hrow : rows[r]? = some vs) (vars : Vars) :
    ∃ vars', ∀ st, AtRow r st →
      ∃ st', readRow rd (List.range n) vars st = some (true, vars', st') ∧ AtRow (r + 1) st' := by
  rcases Nat.eq_or_lt_of_le hn with rfl | hn
  · have hvs := List.mem_of_getElem? hrow
    rcases List.length_eq_one_iff.mp (h.width vs hvs) with ⟨w, rfl⟩
    have hw := h.filled _ hvs w (List.mem_singleton.mpr rfl)
    exact ⟨_, fun st hst => readRow_single hw hst (h.rowOf hrow) vars⟩
  · exact ⟨_, fun st hst => h.readRow_next hn hst hrow vars⟩

theorem readRow_beyond (hn : 1 ≤ n) {st : Statics} (h : Beyond rd st) (vars : Vars) :
    ∃ st', readRow rd (List.range n) vars st = some (false, vars, st') := by
  by_cases hcells : rd.csvData ≠ [] ∧ st.rowsParsed ≤ rd.rowsCount
  · -- the counter stands behind the last row, and the number of columns is not reached
    rcases h with hnil | hlt | ⟨hcount, hret⟩
    · exact absurd hnil hcells.1
    · exact absurd hcells.2 (Nat.not_le_of_lt hlt)
    · rw [readRow_idle hcells.1 hcells.2
        (fun c _ => readCsvHelper_beyond (Nat.le_of_eq hcount)) hn vars, if_neg hret]
      exact ⟨_, rfl⟩
  · obtain ⟨j, rfl⟩ : ∃ j, n = j + 1 := ⟨n - 1, by omega⟩
    rw [List.range_eq_range', List.range'_succ, readRow, if_neg hcells]
    exact ⟨_, rfl⟩

theorem beyond_atRow {r : Nat} {st : Statics} (hst : AtRow r st) :
    Beyond rd st ↔ Beyond rd ⟨r, 0, []⟩ := by
  rw [Beyond, Beyond, hst.parsed, hst.level]

/-- In front of a row number a call does the same whatever else is in the statics. -/
theorem readRow_atRow (h : HoldsTable rd n) (hn : 1 ≤ n) (r : Nat) (vars : Vars) :
    ∃ ret vars', ∀ st, AtRow r st →
      ∃ st', readRow rd (List.range n) vars st = some (ret, vars', st') ∧
        (ret = true → AtRow (r + 1) st') := by
  by_cases hbeyond : Beyond rd ⟨r, 0, []⟩
  · refine ⟨false, vars, ?_⟩
    intro st hst
    rcases readRow_beyond hn ((beyond_atRow hst).mpr hbeyond) vars with ⟨st', hcall⟩
    refine ⟨st', hcall, ?_⟩
    intro hfalse
    cases hfalse
  · rcases h with hnil | ⟨rows, h⟩
    · exact absurd (.inl hnil) hbeyond
    · rcases Nat.lt_or_ge r rows.length with hlt | hge
      · rcases readRow_row h hn (List.getElem?_eq_getElem hlt) vars with ⟨vars', hcall⟩
        refine ⟨true, vars', ?_⟩
        intro st hst
        rcases hcall st hst with ⟨st', hcall, hnext⟩
        exact ⟨st', hcall, fun _ => hnext⟩
      · -- a single column: the call behind the last row still returns `true`
        rw [Beyond, not_or, not_or, h.count, h.cols] at hbeyond
        rcases hbeyond with ⟨hne, hle, hcols⟩
        have hr : r = rows.length := Nat.le_antisymm (Nat.le_of_not_lt hle) hge
        have hone : 0 + 1 = n := by
          by_contra hmany
          exact hcols ⟨hr.symm, hmany⟩
        refine ⟨true, vars, ?_⟩
        intro st hst
        have hcount : rd.rowsCount = st.rowsParsed := by rw [h.count, hst.parsed, hr]
        rw [readRow_idle hne (Nat.le_of_eq hcount.symm)
          (fun c _ => readCsvHelper_beyond (Nat.le_of_eq hcount)) hn vars, hst.level, h.cols,
          if_pos hone]
        refine ⟨_, rfl, fun _ => ⟨congrArg (· + 1) hst.parsed, rfl, ?_⟩⟩
        intro p hp
        exact Nat.le_succ_of_le (hst.marks p hp)

theorem HoldsTable.noneMissing (h : HoldsTable rd n) : NoneMissing rd := by
  rcases h with hnil | ⟨rows, h⟩
  · exact .inl hnil
  · refine @noneMissing_of_rows rd n ?_
    intro r hr
    rw [h.count] at hr
    exact ⟨_, h.rowOf (List.getElem?_eq_getElem hr)⟩

/-- One call more. -/
theorem readRowTimes_snoc {k : Nat} {vars vars' vars'' : Vars} {st st' st'' : Statics} {ret : Bool}
    {out : List (Bool × List Str)} (h : readRowTimes rd n k vars st = some (out, vars', st'))
    (hcall : readRow rd (List.range n) vars' st' = some (ret, vars'', st'')) :
    readRowTimes rd n (k + 1) vars st =
      some (out ++ [(ret, (List.range n).map vars'')], vars'', st'') := by
  induction k generalizing vars st out with
  | zero =>
    cases h
    rw [readRowTimes, hcall]
    rfl
  | succ k ih =>
    rw [readRowTimes] at h
    rcases Option.bind_eq_some_iff.mp h with ⟨⟨b, vars₁, st₁⟩, hfirst, hrest⟩
    rcases Option.bind_eq_some_iff.mp hrest with ⟨⟨rest, vars₂, st₂⟩, htimes, heq⟩
    cases heq
    -- the first call is the same, and the last one is behind the rest
    rw [readRowTimes, hfirst]
    simp only [bind, Option.bind, ih htimes]
    rfl

end Calls

/-! ## Runs -/

section Runs

variable {I : Type} {src : I → Source}

theorem Source.WellFormed.make {src : Source} (h : src.WellFormed) {st st' : Statics}
    {rd : GkCsvReader} (hmake : src.make st = .ok (rd, st')) :
    src.make Statics.reset = .ok (rd, Statics.reset) ∧ HoldsTable rd src.headers.length := by
  rcases h.rows with ⟨rows, hrows, hlines⟩
  by_cases hlf : '\n' ∈ src.text
  · rw [Source.make, make_eq _ _ _ _ hlf] at hmake
    cases hmake
    refine ⟨make_eq _ _ _ _ hlf, .inr ⟨rows, ⟨?_, rfl, ?_, ?_⟩, ?_⟩⟩
    · show parseLines src.headers.length 1 (dataLines src.key src.text) = tableCells 1 rows
      rw [hlines, parseLines_eq fun vs hvs => (hrows vs hvs).plainRow]
    · show (dataLines src.key src.text).length = rows.length
      rw [hlines, List.length_map]
    · intro vs hvs
      exact (hrows vs hvs).width
    · intro vs hvs v hv
      exact ((hrows vs hvs).cells v hv).ne_nil
  · by_cases htext : src.text = []
    · rw [Source.make, GkCsvReader.make, if_pos htext] at hmake
      cases hmake
      rw [Source.make, GkCsvReader.make, if_pos htext]
      exact ⟨rfl, .inl rfl⟩
    · -- without a line feed the constructor throws
      exfalso
      have hcr : hasCrLf src.text = false := hasCrLf_of_no_lf hlf
      rw [Source.make, GkCsvReader.make, if_neg htext, parseCsv, readRows, if_neg htext, hcr,
        if_neg Bool.false_ne_true, if_pos hlf] at hmake
      cases hmake

/-- How far an object is: it has had its final `false`, or it delivered what the calls alone
deliver, which leave the counters at their number. -/
structure Follows (src : Source) (u : Use) : Prop where
  made : src.make Statics.reset = .ok (u.reader, Statics.reset)
  table : HoldsTable u.reader src.headers.length
  run : ∃ out vars st, readRowTimes u.reader src.headers.length u.calls (fun _ => [])
      Statics.reset = some (out, vars, st) ∧ untilFalse u.delivered = untilFalse out ∧
    (u.finished ∨ (out = u.delivered ∧ vars = u.vars ∧ AtRow u.calls st))

/-- Every object follows its source. -/
def Followed (src : I → Source) (s : Shared I) : Prop :=
  ∀ i u, s.uses i = some u → Follows (src i) u

theorem Followed.update [DecidableEq I] {s : Shared I} (h : Followed src s) {i : I}
    {use : Option Use} (huse : ∀ u, use = some u → Follows (src i) u) {st : Statics} :
    Followed src ⟨st, Function.update s.uses i use⟩ := by
  intro j u hu
  by_cases hj : j = i
  · rw [hj] at hu ⊢
    exact huse u ((Function.update_self i use s.uses).symm.trans hu)
  · exact h j u ((Function.update_of_ne hj use s.uses).symm.trans hu)

theorem Follows.alone {src : Source} {u : Use} (h : Follows src u) :
    ∃ out, src.alone u.calls = some out ∧ untilFalse u.delivered = untilFalse out := by
  rcases h.run with ⟨out, vars, st, htimes, hsame, -⟩
  refine ⟨out, ?_, hsame⟩
  rw [Source.alone, h.made]
  simp only [htimes, Option.map_some]

theorem Follows.fresh {src : Source} (h : src.WellFormed) {st st' : Statics} {rd : GkCsvReader}
    (hmake : src.make st = .ok (rd, st')) : Follows src ⟨rd, fun _ => [], 0, []⟩ := by
  rcases h.make hmake with ⟨hmade, htable⟩
  exact ⟨hmade, htable, [], _, _, rfl, rfl, .inr ⟨rfl, rfl, atRow_reset⟩⟩

/-- Behind the final `false` a call may do anything but hang. -/
theorem Follows.later {src : Source} {u : Use} (h : Follows src u) (hdone : u.finished)
    (st : Statics) : Follows src (u.readRow src.headers.length st).1 := by
  rcases h.run with ⟨out, vars, st₁, htimes, hsame, -⟩
  have hreturns := readRow_returns h.table.noneMissing (List.range src.headers.length)
  rcases Option.ne_none_iff_exists'.mp (hreturns u.vars st) with ⟨⟨ret, vars', st'⟩, hcall⟩
  rcases Option.ne_none_iff_exists'.mp (hreturns vars st₁) with ⟨⟨ret₁, vars₁, st₂⟩, hcall₁⟩
  have hout : false ∈ out.map Prod.fst := by
    rw [← mem_untilFalse, ← hsame, mem_untilFalse]
    exact hdone
  rw [Use.readRow, hcall]
  refine ⟨h.made, h.table, _, _, _, readRowTimes_snoc htimes hcall₁, ?_, .inl ?_⟩
  · show untilFalse (u.delivered ++ _) = untilFalse (out ++ _)
    rw [untilFalse_append hdone, untilFalse_append hout, hsame]
  · show false ∈ (u.delivered ++ _).map Prod.fst
    rw [List.map_append]
    exact List.mem_append_left _ hdone

/-- A call that returns what the call alone returns. -/
theorem Follows.next {src : Source} {u : Use} (h : Follows src u) {st st' : Statics}
    {ret : Bool} {vars' : Vars}
    (hcall : readRow u.reader (List.range src.headers.length) u.vars st = some (ret, vars', st'))
    (halone : ∀ st₁, AtRow u.calls st₁ → ∃ st₂,
      readRow u.reader (List.range src.headers.length) u.vars st₁ = some (ret, vars', st₂) ∧
        (ret = true → AtRow (u.calls + 1) st₂)) :
    Follows src (u.readRow src.headers.length st).1 := by
  rcases h.run with ⟨out, vars, st₁, htimes, -, hdone | ⟨rfl, rfl, hat⟩⟩
  · exact h.later hdone st
  · rcases halone st₁ hat with ⟨st₂, hcall₁, hnext⟩
    rw [Use.readRow, hcall]
    refine ⟨h.made, h.table, _, _, _, readRowTimes_snoc htimes hcall₁, rfl, ?_⟩
    -- a `true` keeps the counters at the number of calls, a `false` is the final one
    cases ret with
    | false =>
      left
      show false ∈ (u.delivered ++ _).map Prod.fst
      simp
    | true => exact .inr ⟨rfl, rfl, hnext rfl⟩

/-- **One step.** A construction leaves the other objects alone, and a call that is made where
the object's own calls would be made goes on as alone. -/
theorem followed_step [DecidableEq I] (hsrc : ∀ i, (src i).WellFormed) (s : Shared I)
    (a : CsvAction I) (h : Followed src s) (hkept : Kept s a) : Followed src (s.step src a) := by
  cases a with
  | build i =>
    rw [Shared.step]
    cases hmake : (src i).make s.statics with
    | error e =>
      apply h.update
      intro u hu
      cases hu
    | ok p =>
      rcases p with ⟨rd, st⟩
      apply h.update
      intro u hu
      rw [← Option.some.inj hu]
      exact Follows.fresh (hsrc i) hmake
  | readRow i =>
    cases hi : s.uses i with
    | none =>
      rw [Shared.step, hi]
      exact h
    | some u =>
      have hu := h i u hi
      have hn := (hsrc i).columns
      have hnext : Follows (src i) (u.readRow (src i).headers.length s.statics).1 := by
        rcases hkept u hi with hdone | hat | ⟨hown, hshared⟩
        · exact hu.later hdone s.statics
        · rcases readRow_atRow hu.table hn u.calls u.vars with ⟨ret, vars', hcall⟩
          rcases hcall s.statics hat with ⟨st', hhere, -⟩
          exact hu.next hhere hcall
        · -- neither the shared counters nor the object's own ones find a row
          rcases readRow_beyond hn hshared u.vars with ⟨st', hhere⟩
          refine hu.next hhere ?_
          intro st₁ hat
          rcases readRow_beyond hn ((beyond_atRow hat).mpr hown) u.vars with ⟨st₂, hcall⟩
          refine ⟨st₂, hcall, ?_⟩
          intro hfalse
          cases hfalse
      rw [Shared.step, hi]
      apply h.update
      intro v hv
      rw [← Option.some.inj hv]
      exact hnext

/-- **Readers that keep out of each other's way.** In a run in which every call of `read_row`
is made where the object's own calls would have put the counters, all objects deliver, up to
their final `false`, what they deliver alone. -/
theorem read_row_independent [DecidableEq I] (hsrc : ∀ i, (src i).WellFormed) (st : Statics)
    {as : List (CsvAction I)} (hkept : EachStep (Shared.step src) Kept (Shared.start st) as) :
    EachState (Shared.step src) (Independent src) (Shared.start st) as := by
  have hstart : Followed src (Shared.start st) := by
    intro i u hu
    cases hu
  refine eachState_of_invariant (followed_step hsrc) ?_ hstart hkept
  intro s hs i u hu
  exact (hs i u hu).alone

end Runs

/-- Two tables of two rows each. -/
def twoTables : Bool → Source
  | false => ⟨2, false, "url,tier\nudp://a,0\nudp://b,1\n".toList, ["url".toList, "tier".toList]⟩
  | true => ⟨2, false, "piece,offset\n4,10\n5,20\n".toList, ["piece".toList, "offset".toList]⟩

theorem twoTables_wellFormed (i : Bool) : (twoTables i).WellFormed := by
  cases i with
  | false =>
    refine ⟨by decide, [["udp://a".toList, "0".toList], ["udp://b".toList, "1".toList]], ?_, ?_⟩
    · decide +kernel
    · decide +kernel
  | true =>
    refine ⟨by decide, [["4".toList, "10".toList], ["5".toList, "20".toList]], ?_, ?_⟩
    · decide +kernel
    · decide +kernel

/-- Both are constructed, then each is read once: the second reader delivers its second row. -/
theorem read_row_interleaved :
    (∀ i, (twoTables i).WellFormed) ∧
      ¬ EachState (Shared.step twoTables) (Independent twoTables) (Shared.start Statics.reset)
        [.build false, .build true, .readRow false, .readRow true] := by
  refine ⟨twoTables_wellFormed, ?_⟩
  rintro ⟨-, -, -, -, hend⟩
  rcases hend true _ rfl with ⟨out, halone, hsame⟩
  have hfirst : (twoTables true).alone 1 = some [(true, ["4".toList, "10".toList])] := by
    decide +kernel
  rw [← Option.some.inj (hfirst.symm.trans halone)] at hsame
  exact absurd hsame (by decide +kernel)

/-- The second reader runs inside the loop of the first, behind its last row. -/
theorem read_row_independent_last_row :
    EachState (Shared.step twoTables) (Independent twoTables) (Shared.start Statics.reset)
      [.build false, .readRow false, .readRow false, .build true, .readRow true, .readRow true,
        .readRow false] :=
  read_row_independent twoTables_wellFormed Statics.reset (by decide +kernel)

end FyreDL.Csv
