import FyreDL.Csv.Ending

/-!
# FyreDL.Csv.Lines — what a reader hands out of any text

The loop `while (read_row(...))` over lines that need not be the rows of a table. It goes
from line to line:

* At a line with too few fields the call does not return.
* Of any other line the fields in the columns of the reader count, and of these the ones
  that are not empty. They fill the first variables; the other variables keep their values.
* A line with two empty fields or more ends the loop.

`delivered` says this without a reader, and `readAll_delivered` that the reader does it.
-/

namespace FyreDL.Csv

open Lib

/-- The rows that the loop hands out, with the variables that it starts from; `none` if it
does not end. -/
def deliver (n : Nat) : Vars → List Str → Option (List (List Str))
  | _, [] => some []
  | vars, line :: lines =>
    let fields := (getlines ',' line).take n
    if fields.length < n then none
    else if (taken fields).length + 1 < n then some []
    else
      let vars' := storeFrom (taken fields) 0 vars
      (deliver n vars' lines).map ((List.range n).map vars' :: ·)

/-- The same for a fresh reader. It finds nothing in lines without any field. -/
def delivered (n : Nat) (lines : List Str) : Option (List (List Str)) :=
  if ∀ line ∈ lines, getlines ',' line = [] then some [] else deliver n (fun _ => []) lines

section Deliver

variable {n : Nat} {rd : GkCsvReader} {lines : List Str}

/-- The induction is on the lines that are left. -/
theorem readAllFuel_deliver (h : Parsed rd n lines) (hn : 2 ≤ n) (hne : rd.csvData ≠ [])
    (rest : List Str) :
    ∀ (vars : Vars) {r fuel : Nat} {st : Statics}, lines.drop r = rest → AtRow r st →
      r ≤ lines.length → rest.length < fuel →
      (readAllFuel rd n fuel vars st).map Prod.fst = deliver n vars rest := by
  induction rest with
  | nil =>
    intro vars r fuel st hdrop hst hr hfuel
    obtain rfl : r = lines.length := Nat.le_antisymm hr (List.drop_eq_nil_iff.mp hdrop)
    obtain ⟨fuel, rfl⟩ : ∃ f, fuel = f + 1 := ⟨fuel - 1, by omega⟩
    rw [readAllFuel, readRow_end h.count h.cols hn hst vars]
    rfl
  | cons line rest ih =>
    intro vars r fuel st hdrop hst hr hfuel
    obtain ⟨fuel, rfl⟩ : ∃ f, fuel = f + 1 := ⟨fuel - 1, by omega⟩
    rcases of_drop_eq_cons hdrop with ⟨hlt, hline, hdrop'⟩
    rw [readAllFuel, deliver]
    dsimp only
    by_cases hshort : ((getlines ',' line).take n).length < n
    · -- a column is missing
      have hfields : (getlines ',' line).length < n := by
        rw [List.length_take] at hshort
        omega
      rw [hst.readRow_missing hn hne (h.missing hline hfields), if_pos hshort]
      rfl
    · have hfields : n ≤ (getlines ',' line).length := by
        rw [List.length_take] at hshort
        omega
      rcases readRow_fresh hn hst (h.row hline hfields) vars with ⟨proc, hcall, hmarks, -⟩
      rw [if_neg hshort, hcall]
      by_cases hfull : n ≤ (taken ((getlines ',' line).take n)).length + 1
      · have hst' : AtRow (r + 1) ⟨r + 1, 0, proc⟩ := ⟨rfl, rfl, hmarks⟩
        have hrest := ih (storeFrom (taken ((getlines ',' line).take n)) 0 vars) hdrop' hst' hlt
          (Nat.lt_of_succ_lt_succ hfuel)
        rw [if_neg (Nat.not_lt.mpr hfull), ← hrest, if_pos hfull, decide_eq_true hfull]
        simp only [bind, Option.bind, if_true]
        cases readAllFuel rd n fuel _ _ with
        | none => rfl
        | some p => rfl
      · -- the call returns `false`, and the loop ends
        rw [if_pos (Nat.lt_of_not_le hfull), decide_eq_false hfull]
        rfl

/-- **What the loop hands out of any lines.** -/
theorem readAll_delivered (h : Parsed rd n lines) (hn : 2 ≤ n) :
    (readAll rd n (fun _ => []) Statics.reset).map Prod.fst = delivered n lines := by
  unfold delivered
  split
  · rename_i hblank
    -- without a cell no column yields anything
    have hnil : rd.csvData = [] := by
      rw [h.cells, parseLines_eq_nil]
      exact hblank
    obtain ⟨j, rfl⟩ : ∃ j, n = j + 1 := ⟨n - 1, by omega⟩
    rw [readAll, readAllFuel, List.range_eq_range', List.range'_succ, readRow,
      if_neg (fun hc => hc.1 hnil)]
    rfl
  · rename_i hblank
    have hne : rd.csvData ≠ [] := by
      rw [h.cells, ne_eq, parseLines_eq_nil]
      exact hblank
    exact readAllFuel_deliver h hn hne lines _ List.drop_zero atRow_reset (Nat.zero_le _)
      (by rw [h.count]; omega)

/-- A line without an empty field, if not for one, hands over to the next one. -/
theorem deliver_cons {line : Str} (hfields : n ≤ (getlines ',' line).length)
    (htaken : n ≤ (taken ((getlines ',' line).take n)).length + 1) (vars : Vars) :
    deliver n vars (line :: lines) =
      (deliver n (storeFrom (taken ((getlines ',' line).take n)) 0 vars) lines).map
        ((List.range n).map (storeFrom (taken ((getlines ',' line).take n)) 0 vars) :: ·) := by
  rw [deliver]
  dsimp only
  rw [if_neg, if_neg (Nat.not_lt.mpr htaken)]
  rw [List.length_take]
  omega

/-- The rows of a table are handed out as they are. -/
theorem deliver_rows {rows : List (List Str)} (h : ∀ vs ∈ rows, CleanRow n vs) (vars : Vars) :
    deliver n vars (rows.map encodeRow) = some rows := by
  induction rows generalizing vars with
  | nil => rfl
  | cons vs rows ih =>
    have hrow := h vs List.mem_cons_self
    have hfields := getlines_encodeRow hrow.plainRow
    have htaken : taken (vs.take n) = vs := by
      rw [← hrow.width, List.take_length]
      exact taken_of_filled fun v hv => (hrow.cells v hv).ne_nil
    have hwidth := hrow.width
    rw [List.map_cons, deliver_cons (by rw [hfields]; omega) (by rw [hfields, htaken]; omega),
      hfields, htaken, ih fun vs' hvs' => h vs' (List.mem_cons_of_mem _ hvs')]
    have hshow : (List.range n).map (storeFrom vs 0 vars) = vs := by
      rw [← hwidth, storeFrom_zero_map]
    rw [hshow]
    rfl

/-- The fields that are taken of a line are clean cells. -/
theorem cleanCell_of_taken {line v : Str} (hline : '\n' ∉ line)
    (hv : v ∈ taken ((getlines ',' line).take n)) : CleanCell v := by
  rcases List.mem_filter.mp hv with ⟨hmem, hne⟩
  have hfield := List.mem_of_mem_take hmem
  exact ⟨of_decide_eq_true hne, not_mem_of_mem_getlines hfield,
    fun hlf => hline (mem_of_mem_getlines hfield hlf)⟩

/-- Of every row that is handed out all values but the last one are clean cells. -/
theorem cleanCell_of_deliver {rows : List (List Str)} (hlines : ∀ line ∈ lines, '\n' ∉ line)
    {vars : Vars} (h : deliver n vars lines = some rows) {vs : List Str} (hvs : vs ∈ rows) {i : Nat}
    (hi : i + 1 < n) : CleanCell (vs.getD i []) := by
  induction lines generalizing vars rows with
  | nil =>
    cases h
    exact absurd hvs List.not_mem_nil
  | cons line lines ih =>
    rw [deliver] at h
    dsimp only at h
    split at h
    · cases h
    · split at h
      · cases h
        exact absurd hvs List.not_mem_nil
      · rename_i hfull
        rcases Option.map_eq_some_iff.mp h with ⟨rest, hrest, rfl⟩
        rcases List.mem_cons.mp hvs with rfl | hin
        · have hlt : i < (taken ((getlines ',' line).take n)).length := by omega
          have hvalue : ((List.range n).map
              (storeFrom (taken ((getlines ',' line).take n)) 0 vars)).getD i [] =
                (taken ((getlines ',' line).take n))[i] := by
            simp [storeFrom, hlt, show i < n by omega]
          rw [hvalue]
          exact cleanCell_of_taken (hlines line List.mem_cons_self) (List.getElem_mem hlt)
        · exact ih (fun l hl => hlines l (List.mem_cons_of_mem _ hl)) hrest hin

end Deliver

end FyreDL.Csv
