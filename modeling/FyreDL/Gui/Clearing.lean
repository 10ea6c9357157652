import FyreDL.Gui.Agreement
import FyreDL.Store.AnyIndex

/-!
# FyreDL.Gui.Clearing — what a cleared history leaves in the database

`clearOldHistory` removes the row of every completed download. It deletes a download from
the database only if there is a regular file at the destination that the row shows, and
then the one that `determine_download_id` finds for this destination.

* `completedRows_entries` — the entries of the index after the loop over the rows, whatever
  the index is.
* `clearOldHistory_rows` — the rows that are left.
* `ShowsIndex.reached_iff` — in a table that shows what is stored, the deletions reach the
  downloads whose files are there.
* `clearOldHistory_forgets_iff` — the downloads of the removed rows are gone exactly if the
  deletions reach each of them.
-/

namespace FyreDL.Gui

open Lib Lib.Kv Store

/-- The `MN_HIDDEN_UNIQUE_ID` cell. -/
def hiddenId (cells : List Str) : Str := cells.getD mnHiddenUniqueId []

/-- There is a regular file at the destination that the row shows. -/
def OnDisk (files : FileStatus) (cells : List Str) : Prop :=
  files (cells.getD mnDestinationCol []) = .ok .regular

instance (files : FileStatus) (cells : List Str) : Decidable (OnDisk files cells) :=
  inferInstanceAs (Decidable (_ = _))

/-- The entries that a reader gets after a completed row. -/
def afterRow (ord : IterOrder Entry) (files : FileStatus) (es : List Entry) (cells : List Str) :
    List Entry :=
  if OnDisk files cells then afterDeletion ord (cells.getD mnDestinationCol []) es else es

/-- One of the completed rows takes the id out of the index, as the rows before leave it. -/
def Reached (ord : IterOrder Entry) (files : FileStatus) (id : Str) :
    List Entry → List (List Str) → Prop
  | _, [] => False
  | es, cells :: rest =>
    OnDisk files cells ∧ TakenOut ord (cells.getD mnDestinationCol []) es id ∨
      Reached ord files id (afterRow ord files es cells) rest

instance Reached.decidable (ord : IterOrder Entry) (files : FileStatus) (id : Str) :
    ∀ es rows, Decidable (Reached ord files id es rows)
  | _, [] => inferInstanceAs (Decidable False)
  | es, cells :: rest =>
    have _ := Reached.decidable ord files id (afterRow ord files es cells) rest
    inferInstanceAs (Decidable (OnDisk files cells ∧
      TakenOut ord (cells.getD mnDestinationCol []) es id ∨
        Reached ord files id (afterRow ord files es cells) rest))

section Entries

variable {ord : IterOrder Entry} {files : FileStatus} {s s' : Db}

/-- The ids that are listed after the rows. -/
theorem mem_afterRows_iff {id : Str} (rows : List (List Str)) (es : List Entry) :
    id ∈ (extracted false (rows.foldl (afterRow ord files) es)).map Prod.fst ↔
      id ∈ (extracted false es).map Prod.fst ∧ ¬ Reached ord files id es rows := by
  induction rows generalizing es with
  | nil => simp [Reached]
  | cons cells rows ih =>
    rw [List.foldl_cons, ih, Reached, not_or, ← and_assoc]
    refine and_congr_left ?_
    intro _
    unfold afterRow
    by_cases hdisk : OnDisk files cells
    · rw [if_pos hdisk, mem_afterDeletion_iff]
      simp [hdisk]
    · rw [if_neg hdisk]
      simp [hdisk]

theorem deleteCompleted_entries {vectorList : VectorList} {row : Nat} {cells : List Str}
    (hrow : vectorList[row]? = some cells) (hlength : cells.length = mnColCount)
    (hrun : run (deleteCompleted ord files vectorList row (cells.getD mnDestinationCol [])) s =
      (.ret (), s')) :
    indexEntries s' = (indexEntries s).map fun es => afterRow ord files es cells := by
  unfold deleteCompleted at hrun
  unfold afterRow
  cases hfile : files (cells.getD mnDestinationCol []) with
  | error what =>
    rw [hfile] at hrun
    cases hrun
  | ok kind =>
    rw [hfile] at hrun
    dsimp only at hrun
    by_cases hregular : kind = .regular
    · have hdisk : OnDisk files cells := by rw [OnDisk, hfile, hregular]
      rw [if_pos ⟨by rw [hregular]; decide, hregular⟩] at hrun
      obtain ⟨deleted, s₁, hdel, hret⟩ := run_bind_eq_ret hrun
      cases hret
      simp only [if_pos hdisk]
      exact delCurlItem_leaves hdel
    · have hdisk : ¬ OnDisk files cells := by
        intro hdisk
        rw [OnDisk, hfile] at hdisk
        exact hregular (Except.ok.inj hdisk)
      rw [if_neg fun hc => hregular hc.2, textAt_eq hrow hlength (by decide), Prog.ret_bind] at hrun
      cases hrun
      simp only [if_neg hdisk]
      exact Option.map_id'.symm

/-- The cells of a row. -/
def rowCells (vectorList : VectorList) (row : Nat) : List Str := vectorList.getD row []

/-- What the loop does with one row, if it gets to its end. -/
theorem completedRows_cons {vectorList : VectorList} {row : Nat} {rows indexes : List Nat}
    {cells : List Str} (hrow : vectorList[row]? = some cells) (hlength : cells.length = mnColCount)
    (hrun : run (completedRows ord files vectorList (row :: rows)) s =
      (.ret (some indexes), s')) :
    (¬ IsCompleted cells ∧
        run (completedRows ord files vectorList rows) s = (.ret (some indexes), s')) ∨
      IsCompleted cells ∧ ∃ s₁ found,
        run (deleteCompleted ord files vectorList row (cells.getD mnDestinationCol [])) s =
          (.ret (), s₁) ∧
        run (completedRows ord files vectorList rows) s₁ = (.ret (some found), s') ∧
        indexes = row :: found := by
  rw [completedRows, textAt_eq hrow hlength (by decide), Prog.ret_bind] at hrun
  by_cases hdone : cells.getD mnStatusCol [] = convDlStatToString .completed
  · rw [if_pos hdone, textAt_eq hrow hlength (by decide), Prog.ret_bind] at hrun
    obtain ⟨deleted, s₁, hdeleted, hloop⟩ := run_bind_eq_ret hrun
    cases deleted with
    | false => cases hloop
    | true =>
      -- the handler answers `false`, so that there was no exception
      rcases run_tryCatch_eq_ret hdeleted with hret | ⟨e, s₂, -, hwarn⟩
      · obtain ⟨_, s₂, hdelete, htrue⟩ := run_bind_eq_ret hret
        cases htrue
        obtain ⟨found, s₂, hfound, hmap⟩ := run_bind_eq_ret hloop
        cases found with
        | none => cases hmap
        | some found =>
          cases hmap
          exact .inr ⟨hdone, s₁, found, hdelete, hfound, rfl⟩
      · cases hwarn
  · rw [if_neg hdone] at hrun
    exact .inl ⟨hdone, hrun⟩

/-- The loop over some rows, if it gets to its end: the completed ones are found, and each of
them in turn has changed the index. -/
theorem completedRows_entries {vectorList : VectorList}
    (hcomplete : ∀ cells ∈ vectorList, cells.length = mnColCount) {rows indexes : List Nat}
    (hrows : ∀ row ∈ rows, row < vectorList.length)
    (hrun : run (completedRows ord files vectorList rows) s = (.ret (some indexes), s')) :
    indexes = rows.filter (fun row => IsCompleted (rowCells vectorList row)) ∧
      indexEntries s' = (indexEntries s).map fun es =>
        ((rows.map (rowCells vectorList)).filter fun cells => IsCompleted cells).foldl
          (afterRow ord files) es := by
  induction rows generalizing s indexes with
  | nil =>
    cases hrun
    exact ⟨rfl, Option.map_id'.symm⟩
  | cons row rows ih =>
    have hrest : ∀ r ∈ rows, r < vectorList.length :=
      fun r hr => hrows r (List.mem_cons_of_mem _ hr)
    obtain ⟨cells, hrow⟩ : ∃ cells, vectorList[row]? = some cells :=
      ⟨_, List.getElem?_eq_getElem (hrows row List.mem_cons_self)⟩
    have hlength := hcomplete cells (List.mem_of_getElem? hrow)
    have hcells : rowCells vectorList row = cells := by
      rw [rowCells, List.getD_eq_getElem?_getD, hrow, Option.getD_some]
    rw [List.map_cons, List.filter_cons, List.filter_cons, hcells]
    rcases completedRows_cons hrow hlength hrun with
      ⟨hnot, hloop⟩ | ⟨hdone, s₁, found, hdelete, hloop, rfl⟩
    · rw [if_neg (by simpa using hnot), if_neg (by simpa using hnot)]
      exact ih hrest hloop
    · obtain ⟨hindexes, hentries⟩ := ih hrest hloop
      rw [if_pos (decide_eq_true hdone), if_pos (decide_eq_true hdone), ← hindexes, hentries,
        deleteCompleted_entries hrow hlength hdelete, Option.map_map]
      exact ⟨rfl, rfl⟩

end Entries

/-! ## Tables that show what is stored -/

/-- The index has distinct ids as `createId` draws them, and the rows show the paths that it
has for their ids. -/
structure ShowsIndex (es : List Entry) (rows : List (List Str)) : Prop where
  distinct : (es.map Prod.fst).Nodup
  createId : ∀ e ∈ es, IsCreateId e.1
  paths : ∀ cells ∈ rows, ∀ e ∈ es,
    e.2.1 = cells.getD mnDestinationCol [] ↔ e.1 = hiddenId cells

section Shown

variable {ord : IterOrder Entry} {files : FileStatus} {es : List Entry} {rows : List (List Str)}
  {cells : List Str} {id : Str}

theorem ShowsIndex.tail (h : ShowsIndex es (cells :: rows)) : ShowsIndex es rows :=
  ⟨h.distinct, h.createId, fun c hc => h.paths c (List.mem_cons_of_mem _ hc)⟩

theorem ShowsIndex.deleted (h : ShowsIndex es rows) (ord : IterOrder Entry) (found : Str) :
    ShowsIndex (survivors ord es found) rows := by
  refine ⟨?_, fun e he => h.createId e (mem_survivors he).1,
    fun c hc e he => h.paths c hc e (mem_survivors he).1⟩
  have hperm : ((ord.order (extracted false es)).map Prod.fst).Nodup :=
    ((ord.perm _).map Prod.fst).nodup_iff.mpr (extracted_nodup false es)
  exact hperm.sublist (List.filter_sublist.map _)

/-- The download that is found for the destination of a row is that of the row, if it is in
the index. -/
theorem ShowsIndex.finds (h : ShowsIndex es (cells :: rows)) :
    ((determined es (cells.getD mnDestinationCol [])).1 = hiddenId cells ∧
        ∃ e ∈ es, e.1 = hiddenId cells) ∨
      (determined es (cells.getD mnDestinationCol [])).1 = [] ∧ ∀ e ∈ es, e.1 ≠ hiddenId cells := by
  have hpaths := h.paths cells List.mem_cons_self
  rcases determined_of_nodup h.distinct (cells.getD mnDestinationCol []) with
    ⟨e, he, hpath, hfound⟩ | ⟨hnone, hfound⟩
  · have hid := (hpaths e he).mp hpath
    exact .inl ⟨by rw [hfound, hid], e, he, hid⟩
  · exact .inr ⟨by rw [hfound], fun e he hid => hnone e he ((hpaths e he).mpr hid)⟩

/-- Another download stays in the index when that of the row is deleted. -/
theorem ShowsIndex.kept (h : ShowsIndex es rows) (ord : IterOrder Entry) {found : Str}
    (hid : ∃ e ∈ es, e.1 = id ∧ e.2.2 = false) (hne : id ≠ found) :
    (∃ e ∈ survivors ord es found, e.1 = id ∧ e.2.2 = false) ∧
      parsable (indexText (survivors ord es found)) = true := by
  obtain ⟨e, he, heid, hflag⟩ := hid
  have hmem : e ∈ survivors ord es found := by
    unfold survivors
    rw [List.mem_filter, IterOrder.mem_order, extracted_of_nodup false h.distinct]
    exact ⟨List.mem_filter.mpr ⟨he, decide_eq_true hflag⟩, decide_eq_true (heid ▸ hne)⟩
  refine ⟨⟨e, hmem, heid, hflag⟩, ?_⟩
  by_contra hshort
  have hseen := visible_of_mem hmem (h.createId e he)
  rw [visible, if_neg hshort] at hseen
  rw [← hseen] at hmem
  exact absurd hmem List.not_mem_nil

/-- In such a table a download is reached exactly if there is a regular file at the destination
of its row. -/
theorem ShowsIndex.reached_iff (h : ShowsIndex es rows)
    (hid : ∃ e ∈ es, e.1 = id ∧ e.2.2 = false) :
    Reached ord files id es rows ↔ ∃ cells ∈ rows, hiddenId cells = id ∧ OnDisk files cells := by
  induction rows generalizing es with
  | nil => simp [Reached]
  | cons cells rows ih =>
    rw [Reached, List.exists_mem_cons_iff]
    by_cases hdisk : OnDisk files cells
    · rcases h.finds with ⟨hfound, e, he, heid⟩ | ⟨hfound, hnone⟩
      · have hne : hiddenId cells ≠ [] := heid ▸ (cleanCell_of_createId (h.createId e he)).ne_nil
        by_cases hown : hiddenId cells = id
        · refine iff_of_true (Or.inl ⟨hdisk, ?_, Or.inl ?_⟩) (Or.inl ⟨hown, hdisk⟩)
          · rw [hfound]
            exact hne
          · rw [hfound, hown]
        · -- the deletion of another download
          obtain ⟨hkept, hlong⟩ := h.kept ord hid (Ne.symm hown)
          have htaken : ¬ TakenOut ord (cells.getD mnDestinationCol []) es id := by
            unfold TakenOut
            rw [hfound, hlong]
            simp [hown]
          have hafter : afterRow ord files es cells = survivors ord es (hiddenId cells) := by
            rw [afterRow, if_pos hdisk, afterDeletion, hfound, if_neg hne,
              visible_of_parsable hlong]
          rw [hafter, ih (h.tail.deleted ord _) hkept, or_iff_right fun hc => htaken hc.2,
            or_iff_right fun hc => hown hc.1]
      · obtain ⟨e, he, heid, hflag⟩ := hid
        have hown : hiddenId cells ≠ id := fun hown => hnone e he (heid.trans hown.symm)
        have hafter : afterRow ord files es cells = es := by
          rw [afterRow, if_pos hdisk, afterDeletion, if_pos hfound]
        rw [hafter, ih h.tail ⟨e, he, heid, hflag⟩, or_iff_right fun hc => hc.2.1 hfound,
          or_iff_right fun hc => hown hc.1]
    · rw [afterRow, if_neg hdisk, ih h.tail hid, or_iff_right fun hc => hdisk hc.1,
        or_iff_right fun hc => hdisk hc.2]

end Shown

/-! ## The rows -/

section Rows

variable {vectorList : VectorList}

/-- A last row stays where only rows in front of it are removed. -/
theorem removeFound_concat {indexes : List Nat} (cells : List Str)
    (hsorted : indexes.Pairwise (· < ·)) (hrows : ∀ row ∈ indexes, row < vectorList.length) :
    removeFound (vectorList ++ [cells]) indexes = removeFound vectorList indexes ++ [cells] := by
  induction indexes using List.reverseRecOn generalizing vectorList with
  | nil => rfl
  | append_singleton before last ih =>
    have hlast : last < vectorList.length := hrows last (by simp)
    have hsplit := List.pairwise_append.mp hsorted
    have hremove : removeRows (vectorList ++ [cells]) last 1 =
        removeRows vectorList last 1 ++ [cells] := by
      rw [removeRows_eq, removeRows_eq, List.take_append_of_le_length hlast.le,
        List.drop_append_of_le_length hlast, List.append_assoc]
    rw [removeFound_snoc, removeFound_snoc, hremove]
    refine ih hsplit.1 ?_
    intro row hrow
    have hbefore := hsplit.2.2 row hrow last (List.mem_singleton_self last)
    rw [removeRows_eq, List.length_append, List.length_take, List.length_drop]
    omega

theorem map_rowCells (vectorList : VectorList) :
    (List.range vectorList.length).map (rowCells vectorList) = vectorList := by
  refine List.ext_getElem (by simp) ?_
  intro i hi hi'
  rw [List.getElem_map, List.getElem_range, rowCells, List.getD_eq_getElem?_getD,
    List.getElem?_eq_getElem hi', Option.getD_some]

/-- What is left when the rows are removed that the loop has found. -/
theorem removeFound_completed (vectorList : VectorList) :
    removeFound vectorList ((List.range vectorList.length).filter fun row =>
        IsCompleted (rowCells vectorList row)) =
      vectorList.filter fun cells => ¬ IsCompleted cells := by
  induction vectorList using List.reverseRecOn with
  | nil => rfl
  | append_singleton vectorList cells ih =>
    have hlast : rowCells (vectorList ++ [cells]) vectorList.length = cells := by
      simp [rowCells]
    have hbefore : (List.range vectorList.length).filter (fun row =>
          IsCompleted (rowCells (vectorList ++ [cells]) row)) =
        (List.range vectorList.length).filter fun row =>
          IsCompleted (rowCells vectorList row) := by
      refine List.filter_congr ?_
      intro row hrow
      rw [rowCells, rowCells, List.getD_eq_getElem?_getD, List.getD_eq_getElem?_getD,
        List.getElem?_append_left (List.mem_range.mp hrow)]
    have hrows : ∀ row ∈ (List.range vectorList.length).filter (fun row =>
        IsCompleted (rowCells vectorList row)), row < vectorList.length :=
      fun row hrow => List.mem_range.mp (List.mem_filter.mp hrow).1
    rw [List.length_append, List.length_singleton, List.range_succ, List.filter_append,
      List.filter_append, hbefore, ← ih]
    by_cases hdone : IsCompleted cells
    · have hremove : removeRows (vectorList ++ [cells]) vectorList.length 1 = vectorList := by
        rw [removeRows_eq]
        simp
      rw [List.filter_singleton, List.filter_singleton, hlast]
      simp only [hdone, decide_true, not_true, decide_false, cond_true, cond_false,
        List.append_nil]
      rw [removeFound_snoc, hremove]
    · rw [List.filter_singleton, List.filter_singleton, hlast]
      simp only [hdone, decide_false, cond_false, not_false_eq_true, decide_true, cond_true,
        List.append_nil]
      exact removeFound_concat cells (List.pairwise_lt_range.filter _) hrows

end Rows

/-! ## `clearOldHistory` -/

section Clearing

variable {ord : IterOrder Entry} {files : FileStatus} {w w' : MainWindow} {s s' : Db}

/-- The status of the path of a completed row cannot be asked for, which ends the loop. -/
def Interrupted (files : FileStatus) (vectorList : VectorList) : Prop :=
  ∃ cells ∈ vectorList, IsCompleted cells ∧ Unreadable files cells

/-- A confirmed `clearOldHistory`: it is interrupted and leaves the rows, or the completed
ones are removed and each of them in turn has changed the index. -/
theorem clearOldHistory_rows (hcomplete : ∀ cells ∈ w.vectorList, cells.length = mnColCount)
    (hrun : run (clearOldHistory ord files .apply w) s = (.ret w', s')) :
    Interrupted files w.vectorList ∧ w' = w ∨
      ¬ Interrupted files w.vectorList ∧
        w'.vectorList = w.vectorList.filter (fun cells => ¬ IsCompleted cells) ∧
        indexEntries s' = (indexEntries s).map fun es =>
          (w.vectorList.filter fun cells => IsCompleted cells).foldl (afterRow ord files) es := by
  have hrows : ∀ row ∈ List.range w.vectorList.length, row < w.vectorList.length :=
    fun row => List.mem_range.mp
  rw [clearOldHistory, if_pos rfl] at hrun
  obtain ⟨found, s₁, hloop, hret⟩ := run_bind_eq_ret hrun
  have hfound := (ends_completedRows ord files hcomplete hrows).run_ret hloop
  cases found with
  | none =>
    cases hret
    exact .inl ⟨hfound, rfl⟩
  | some indexes =>
    cases hret
    obtain ⟨hindexes, hentries⟩ := completedRows_entries hcomplete hrows hloop
    refine .inr ⟨?_, ?_, ?_⟩
    · intro hinterrupted
      obtain ⟨cells, hmem, hdone, hbad⟩ := hinterrupted
      obtain ⟨row, hrow⟩ := List.mem_iff_getElem?.mp hmem
      have hlt : row < w.vectorList.length := (List.getElem?_eq_some_iff.mp hrow).1
      exact (hfound.2 row (List.mem_range.mpr hlt) cells hrow hdone).2 hbad
    · rw [hindexes]
      exact removeFound_completed w.vectorList
    · rw [hentries, map_rowCells]

/-- The completed rows are removed, and no other one. -/
theorem removed_iff (hcomplete : ∀ cells ∈ w.vectorList, cells.length = mnColCount)
    (hrun : run (clearOldHistory ord files .apply w) s = (.ret w', s')) {cells : List Str}
    (hmem : cells ∈ w.vectorList) :
    cells ∉ w'.vectorList ↔ IsCompleted cells ∧ ¬ Interrupted files w.vectorList := by
  rcases clearOldHistory_rows hcomplete hrun with ⟨hstop, hsame⟩ | ⟨hgoes, hrows, -⟩
  · rw [hsame]
    simp [hmem, hstop]
  · rw [hrows]
    simp [hmem, hgoes]

end Clearing

/-- After a confirmed `clearOldHistory` the listed downloads of the removed rows are gone
exactly if the loop is interrupted or reaches each of the completed rows' downloads: there is
a regular file at the destination of a completed row for which the download is found. -/
theorem clearOldHistory_forgets_iff (ord : IterOrder Entry) (files : FileStatus)
    (w w' : MainWindow) (s s' : Db) (hcomplete : ∀ cells ∈ w.vectorList, cells.length = mnColCount)
    (hrun : run (clearOldHistory ord files .apply w) s = (.ret w', s')) :
    (∀ cells ∈ w.vectorList, cells ∉ w'.vectorList → Listed s (hiddenId cells) →
        Gone s' (hiddenId cells)) ↔
      Interrupted files w.vectorList ∨
        ∀ cells ∈ w.vectorList, IsCompleted cells → Listed s (hiddenId cells) →
          ∃ es, indexEntries s = some es ∧ Reached ord files (hiddenId cells) es
            (w.vectorList.filter fun cells => IsCompleted cells) := by
  rcases clearOldHistory_rows hcomplete hrun with ⟨hstop, hsame⟩ | ⟨hgoes, -, hentries⟩
  · refine iff_of_true (fun cells hmem hgone => ?_) (Or.inl hstop)
    rw [hsame] at hgone
    exact absurd hmem hgone
  · rw [or_iff_right hgoes]
    refine forall₂_congr ?_
    intro cells hmem
    rw [removed_iff hcomplete hrun hmem, and_iff_left hgoes]
    refine imp_congr_right fun _ => imp_congr_right ?_
    intro hlisted
    cases hes : indexEntries s with
    | none => exact absurd hlisted (not_listed_of_none hes _)
    | some es =>
      rw [hes, Option.map_some] at hentries
      rw [gone_iff, listed_iff hentries, mem_afterRows_iff]
      have hbefore := (listed_iff hes _).mp hlisted
      simp only [hbefore, true_and, not_not, Option.some.injEq, exists_eq_left']

/-- The row of a completed download to `/dl/a`. -/
def doneRow : List Str :=
  (((List.replicate mnColCount []).set mnStatusCol (convDlStatToString .completed)).set
    mnDestinationCol "/dl/a".toList).set mnHiddenUniqueId (sampleId '1')

def doneWindow : MainWindow := ⟨[doneRow], []⟩

/-- A database that lists this download. -/
def doneDb : Db := (run (registerAll [⟨sampleId '1', "/dl/a".toList, false, []⟩]) emptyDb).2

/-- `clearOldHistory` where every file is there, or none. -/
def cleared (kind : FileKind) : Outcome Str MainWindow × Db :=
  run (clearOldHistory (IterOrder.insertion Entry) (fun _ => .ok kind) .apply doneWindow) doneDb

theorem listed_doneDb : Listed doneDb (hiddenId doneRow) :=
  ⟨[(sampleId '1', "/dl/a".toList, false)], doneDb, Prod.ext (by decide +kernel) rfl,
    by decide +kernel⟩

/-- The download whose file is there is gone. -/
theorem clearOldHistory_forgets_sample :
    Listed doneDb (hiddenId doneRow) ∧ Gone (cleared .regular).2 (hiddenId doneRow) := by
  have hforgets := (clearOldHistory_forgets_iff (IterOrder.insertion Entry) (fun _ => .ok .regular)
    doneWindow ⟨[], []⟩ doneDb (cleared .regular).2 (by decide)
    (Prod.ext (by decide +kernel) rfl)).mpr
    (Or.inr fun cells hmem _ _ => ⟨[(sampleId '1', "/dl/a".toList, false)], by decide +kernel, by
      rw [List.mem_singleton.mp hmem]
      decide +kernel⟩)
  exact ⟨listed_doneDb, hforgets doneRow List.mem_cons_self List.not_mem_nil listed_doneDb⟩

/-- The row of a download whose file was deleted is removed, and the download is still
listed. -/
theorem clearOldHistory_remembers_missing :
    ∃ w' s', cleared .missing = (.ret w', s') ∧
      ¬ ∀ cells ∈ doneWindow.vectorList, cells ∉ w'.vectorList → Listed doneDb (hiddenId cells) →
        Gone s' (hiddenId cells) := by
  have hstill : (run (extractDownloadIds false) (cleared .missing).2).1 =
      .ret [(sampleId '1', "/dl/a".toList, false)] := by decide +kernel
  refine ⟨⟨[], []⟩, (cleared .missing).2, Prod.ext (by decide +kernel) rfl, ?_⟩
  intro h
  have hgone := h doneRow List.mem_cons_self List.not_mem_nil listed_doneDb
  exact hgone.unlisted ⟨_, _, Prod.ext hstill rfl, by decide +kernel⟩

end FyreDL.Gui
