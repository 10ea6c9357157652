import FyreDL.Gui.Clearing

/-!
# FyreDL.Gui.Removals — the rows that are taken away

`downloadModel::removeRows` announces a range to the views and removes the rows that it
finds there. It checks nothing: that the range is one of rows of the table is up to its
three callers.

1. **The completed rows**: a confirmed `clearOldHistory` leaves the rows that are not
   completed (`clearOldHistory_clears`). It removes from the last row on, as each removal
   moves the rows behind it.
2. **The calls**: `removals` are the calls that an action makes, each with the table that it
   is made on. The table behind the action is what they leave, below the rows that are
   inserted (`perform_removals`).
3. **Runs**: over the actions, with cells and the database written by other slots in between,
   all calls are real exactly if each loading of the history finds downloads, and no more
   than there are rows by then (`realRemovals_iff`). The start loads the history into the
   empty table.
-/

namespace FyreDL.Gui

open Lib Lib.Kv Store

/-! ## The completed rows -/

section Completed

variable {vectorList : VectorList} {s : Db} {es : List Entry}

/-- What the loop of `clearOldHistory` has found in some of the rows: the completed ones in
their order, or nothing when it is interrupted. -/
def FindsCompleted (files : FileStatus) (vectorList : VectorList) (rows : List Nat) :
    Option (List Nat) → Prop
  | none => Interrupted files vectorList
  | some indexes => indexes = rows.filter fun row => IsCompleted (rowCells vectorList row)

theorem rowCells_eq {row : Nat} {cells : List Str} (hrow : vectorList[row]? = some cells) :
    rowCells vectorList row = cells := by
  rw [rowCells, List.getD_eq_getElem?_getD, hrow, Option.getD_some]

theorem ends_completedRows_filter (ord : IterOrder Entry) (files : FileStatus)
    (hcomplete : ∀ cells ∈ vectorList, cells.length = mnColCount) {rows : List Nat}
    (hrows : ∀ row ∈ rows, row < vectorList.length) :
    Ends (FindsCompleted files vectorList rows) (fun _ => False)
      (completedRows ord files vectorList rows) := by
  induction rows with
  | nil => exact .ret rfl
  | cons row rows ih =>
    obtain ⟨cells, hrow⟩ : ∃ cells, vectorList[row]? = some cells :=
      ⟨_, List.getElem?_eq_getElem (hrows row List.mem_cons_self)⟩
    have hmem := List.mem_of_getElem? hrow
    have hlength := hcomplete cells hmem
    have ih := ih fun r hr => hrows r (List.mem_cons_of_mem _ hr)
    have hcells := rowCells_eq hrow
    rw [completedRows, textAt_eq hrow hlength (by decide), Prog.ret_bind]
    by_cases hdone : cells.getD mnStatusCol [] = convDlStatToString .completed
    · have hnote : (row :: rows).filter (fun row => IsCompleted (rowCells vectorList row)) =
          row :: rows.filter fun row => IsCompleted (rowCells vectorList row) := by
        have hcompleted : IsCompleted cells := hdone
        rw [List.filter_cons, hcells, if_pos (decide_eq_true hcompleted)]
      rw [if_pos hdone, textAt_eq hrow hlength (by decide), Prog.ret_bind]
      refine (ends_deleteShown ord files hrow hlength).bind ?_
      intro deleted hdeleted
      cases deleted with
      | false =>
        have hbad : Unreadable files cells := by
          by_contra hread
          exact Bool.false_ne_true (hdeleted.mpr hread)
        exact .ret ⟨cells, hmem, hdone, hbad⟩
      | true =>
        refine ih.bind ?_
        intro found hfound
        cases found with
        | none => exact .ret hfound
        | some indexes =>
          refine .ret ?_
          change row :: indexes = _
          rw [hnote]
          exact congrArg (List.cons row) hfound
    · have hpass : (row :: rows).filter (fun row => IsCompleted (rowCells vectorList row)) =
          rows.filter fun row => IsCompleted (rowCells vectorList row) := by
        have hother : ¬ IsCompleted cells := hdone
        rw [List.filter_cons, hcells, if_neg fun h => hother (of_decide_eq_true h)]
      rw [if_neg hdone]
      refine ih.mono ?_
      intro found hfound
      cases found with
      | none => exact hfound
      | some indexes =>
        rw [FindsCompleted, hpass]
        exact hfound

/-- A deletion ends, and leaves an index that can be read. -/
theorem run_deleteCompleted (ord : IterOrder Entry) (files : FileStatus) {row : Nat}
    {cells : List Str} (hrow : vectorList[row]? = some cells)
    (hlength : cells.length = mnColCount) (hes : indexEntries s = some es) :
    ∃ s' es', indexEntries s' = some es' ∧
      (run (deleteCompleted ord files vectorList row (cells.getD mnDestinationCol [])) s =
          (.ret (), s') ∨
        ∃ what, run (deleteCompleted ord files vectorList row (cells.getD mnDestinationCol [])) s =
          (.throw what, s')) := by
  unfold deleteCompleted
  cases hfile : files (cells.getD mnDestinationCol []) with
  | error what => exact ⟨s, es, hes, .inr ⟨what, rfl⟩⟩
  | ok kind =>
    dsimp only
    split
    · rcases run_delCurlItem_any ord hes (cells.getD mnDestinationCol []) with
        ⟨deleted, s', hdel, hes'⟩
      refine ⟨s', _, hes', .inl ?_⟩
      rw [run_bind_ret hdel]
      rfl
    · rw [textAt_eq hrow hlength (by decide), Prog.ret_bind]
      exact ⟨s, es, hes, .inl rfl⟩

/-- The loop ends when the index can be read. -/
theorem run_completedRows (ord : IterOrder Entry) (files : FileStatus)
    (hcomplete : ∀ cells ∈ vectorList, cells.length = mnColCount) {rows : List Nat}
    (hrows : ∀ row ∈ rows, row < vectorList.length)
    (hes : indexEntries s = some es) :
    ∃ found s', run (completedRows ord files vectorList rows) s = (.ret found, s') := by
  induction rows generalizing s es with
  | nil => exact ⟨some [], s, rfl⟩
  | cons row rows ih =>
    obtain ⟨cells, hrow⟩ : ∃ cells, vectorList[row]? = some cells :=
      ⟨_, List.getElem?_eq_getElem (hrows row List.mem_cons_self)⟩
    have hlength := hcomplete cells (List.mem_of_getElem? hrow)
    have hrest : ∀ r ∈ rows, r < vectorList.length :=
      fun r hr => hrows r (List.mem_cons_of_mem _ hr)
    rw [completedRows, textAt_eq hrow hlength (by decide), Prog.ret_bind]
    split
    · rw [textAt_eq hrow hlength (by decide), Prog.ret_bind]
      rcases run_deleteCompleted ord files hrow hlength hes with
        ⟨s₁, es₁, hes₁, hdelete | ⟨what, hdelete⟩⟩
      · rcases ih hrest hes₁ with ⟨found, s', hloop⟩
        have hshown : run (Prog.tryCatch (do
            deleteCompleted ord files vectorList row (cells.getD mnDestinationCol [])
            pure true) fun e => .warn e (.ret false)) s = (.ret true, s₁) := by
          refine run_tryCatch_ret ?_ _
          rw [run_bind_ret hdelete]
          rfl
        refine ⟨found.map fun indexes => row :: indexes, s', ?_⟩
        rw [run_bind_ret hshown, if_pos rfl, run_bind_ret hloop]
        rfl
      · -- the handler shows the exception and ends the loop
        have hshown : run (Prog.tryCatch (do
            deleteCompleted ord files vectorList row (cells.getD mnDestinationCol [])
            pure true) fun e => .warn e (.ret false)) s = (.ret false, s₁) := by
          rw [run_tryCatch, run_bind_throw hdelete]
          rfl
        refine ⟨none, s₁, ?_⟩
        rw [run_bind_ret hshown]
        rfl
    · exact ih hrest hes

end Completed

/-- **The completed rows are removed.** When the status of each completed row's path can be
asked for, a confirmed `clearOldHistory` leaves the rows that are not completed in their
order, whatever the database answers. It returns if the index can be read. -/
theorem clearOldHistory_clears (ord : IterOrder Entry) (files : FileStatus) (w : MainWindow)
    (s : Db) (hcomplete : ∀ cells ∈ w.vectorList, cells.length = mnColCount)
    (hfiles : ∀ cells ∈ w.vectorList, IsCompleted cells →
      ∃ kind, files (cells.getD mnDestinationCol []) = .ok kind) :
    (∀ F w' m', exec F (clearOldHistory ord files .apply w) (Machine.start s) = (.ret w', m') →
        w' = { w with vectorList := w.vectorList.filter fun cells => ¬ IsCompleted cells }) ∧
      ((indexEntries s).isSome → ∃ s', run (clearOldHistory ord files .apply w) s =
        (.ret { w with vectorList := w.vectorList.filter fun cells => ¬ IsCompleted cells },
          s')) := by
  have hrows : ∀ row ∈ List.range w.vectorList.length, row < w.vectorList.length :=
    fun row => List.mem_range.mp
  have hgoes : ¬ Interrupted files w.vectorList := by
    rintro ⟨cells, hmem, hdone, what, hbad⟩
    rcases hfiles cells hmem hdone with ⟨kind, hkind⟩
    rw [hkind] at hbad
    cases hbad
  have hends : Ends (fun w' => w' =
        { w with vectorList := w.vectorList.filter fun cells => ¬ IsCompleted cells })
      (fun _ => False) (clearOldHistory ord files .apply w) := by
    rw [clearOldHistory, if_pos rfl]
    refine (ends_completedRows_filter ord files hcomplete hrows).bind ?_
    intro found hfound
    cases found with
    | none => exact absurd hfound hgoes
    | some indexes =>
      refine .ret ?_
      rw [hfound, removeFound_completed]
  constructor
  · intro F w' m' hexec
    exact hends.exec_ret hexec
  · intro hreadable
    rcases Option.isSome_iff_exists.mp hreadable with ⟨es, hes⟩
    rcases run_completedRows ord files hcomplete hrows hes with ⟨found, s', hloop⟩
    have hreturns : ∃ w', run (clearOldHistory ord files .apply w) s = (.ret w', s') := by
      rw [clearOldHistory, if_pos rfl, run_bind_ret hloop]
      cases found with
      | none => exact ⟨w, rfl⟩
      | some indexes => exact ⟨_, rfl⟩
    rcases hreturns with ⟨w', hrun⟩
    exact ⟨s', by rw [hrun, hends.run_ret hrun]⟩

/-- A row between two completed ones is left. -/
theorem clearOldHistory_clears_sample :
    ∃ s', run (clearOldHistory (IterOrder.insertion Entry) (fun _ => .ok .regular) .apply
        ⟨[doneRow, numberedRow, doneRow], []⟩) doneDb = (.ret ⟨[numberedRow], []⟩, s') :=
  (clearOldHistory_clears (IterOrder.insertion Entry) (fun _ => .ok .regular)
    ⟨[doneRow, numberedRow, doneRow], []⟩ doneDb (by decide) fun _ _ _ => ⟨.regular, rfl⟩).2
    (by decide +kernel)

/-! ## The calls of `removeRows` -/

/-- A call of `removeRows`, with the table that it is made on. -/
structure RemoveRowsCall where
  vectorList : VectorList
  position : Int
  rows : Nat
deriving DecidableEq, Repr

/-- The table behind the call. -/
def RemoveRowsCall.after (call : RemoveRowsCall) : VectorList :=
  removeRows call.vectorList call.position call.rows

/-- The last row that `beginRemoveRows` is called with. -/
def RemoveRowsCall.last (call : RemoveRowsCall) : Int := call.position + call.rows - 1

/-- The rows that are announced are there, and are the ones that are removed. -/
structure RemoveRowsCall.Real (call : RemoveRowsCall) : Prop where
  first : 0 ≤ call.position
  ordered : call.position ≤ call.last
  there : call.last < rowCount call.vectorList
  removed : call.after = call.vectorList.take call.position.toNat ++
    call.vectorList.drop (call.last + 1).toNat

/-- The call of `readFromHistoryFile`, behind the two readers. -/
def loadRemovals (rd : Reading) (w : MainWindow) : DbProg (List RemoveRowsCall) := do
  let (dlHistory, _) ← readHistory rd
  pure [⟨w.vectorList, 0, dlHistory.length⟩]

/-- The call of `removeSelRows`, behind the loop over the cache. -/
def selRemovals (ord : IterOrder Entry) (selected : Option Nat) (w : MainWindow) :
    DbProg (List RemoveRowsCall) :=
  match selected with
  | none => pure []
  | some row => Prog.tryCatch (do
      let fileDest ← textAt w.vectorList row mnDestinationCol
      let selRowUniqueId ← textAt w.vectorList row mnHiddenUniqueId
      let _ ← eraseCached ord fileDest selRowUniqueId w.gkDlInfoCache
      pure [⟨w.vectorList, row, 1⟩])
      fun e => .warn e (.ret [])

/-- The calls for some rows, each on the table that the one before leaves. -/
def callsFor (vectorList : VectorList) : List Nat → List RemoveRowsCall
  | [] => []
  | row :: rest => ⟨vectorList, row, 1⟩ :: callsFor (removeRows vectorList row 1) rest

/-- The calls of `clearOldHistory`, behind the loop over the rows. `removeRow` calls
`removeRows`. -/
def clearRemovals (ord : IterOrder Entry) (files : FileStatus) (answer : StandardButton)
    (w : MainWindow) : DbProg (List RemoveRowsCall) :=
  if answer = .apply then do
    let indexes ← completedRows ord files w.vectorList (List.range w.vectorList.length)
    match indexes with
    | none => pure []
    | some indexes => pure (callsFor w.vectorList indexes.reverse)
  else pure []

/-- The calls of an action, up to the last one. -/
def removals (w : MainWindow) : WindowAction → DbProg (List RemoveRowsCall)
  | .readFromHistoryFile rd => loadRemovals rd w
  | .sendDetails .. => pure []
  | .removeSelRows ord selected => selRemovals ord selected w
  | .clearOldHistory ord files answer => clearRemovals ord files answer w

/-- Each call is made on the table that the one before leaves, and the last one leaves
`final`. -/
def Chained (final : VectorList) : VectorList → List RemoveRowsCall → Prop
  | vectorList, [] => vectorList = final
  | vectorList, call :: rest => call.vectorList = vectorList ∧ Chained final call.after rest

section Calls

variable {vectorList : VectorList} {w : MainWindow}

theorem real_iff {position rows : Nat} :
    RemoveRowsCall.Real ⟨vectorList, position, rows⟩ ↔
      0 < rows ∧ position + rows ≤ vectorList.length := by
  constructor
  · intro h
    have hordered := h.ordered
    have hthere := h.there
    unfold RemoveRowsCall.last at hordered hthere
    unfold rowCount at hthere
    dsimp only at hordered hthere
    omega
  · rintro ⟨hrows, hle⟩
    refine ⟨Int.natCast_nonneg position, ?_, ?_, ?_⟩
    · unfold RemoveRowsCall.last
      dsimp only
      omega
    · unfold RemoveRowsCall.last rowCount
      dsimp only
      omega
    · have hlast : ((position : Int) + rows - 1 + 1).toNat = position + rows := by omega
      rw [RemoveRowsCall.after, removeRows_eq, RemoveRowsCall.last, hlast, Int.toNat_natCast]

theorem chained_callsFor (rows : List Nat) (vectorList : VectorList) :
    Chained (rows.foldl (fun (v : VectorList) (row : Nat) => removeRows v row 1) vectorList)
      vectorList (callsFor vectorList rows) := by
  induction rows generalizing vectorList with
  | nil => rfl
  | cons row rows ih => exact ⟨rfl, ih _⟩

theorem chained_removeFound (vectorList : VectorList) (indexes : List Nat) :
    Chained (removeFound vectorList indexes) vectorList (callsFor vectorList indexes.reverse) := by
  have h := chained_callsFor indexes.reverse vectorList
  rwa [List.foldl_reverse] at h

/-- Rows of the table that are removed from the last one on are there when it is their turn. -/
theorem callsFor_real {rows : List Nat} (hsorted : rows.Pairwise (· > ·))
    (hrows : ∀ row ∈ rows, row < vectorList.length) :
    ∀ call ∈ callsFor vectorList rows, call.Real := by
  induction rows generalizing vectorList with
  | nil => exact fun call hcall => absurd hcall List.not_mem_nil
  | cons row rows ih =>
    have hlt := hrows row List.mem_cons_self
    have hbelow := List.pairwise_cons.mp hsorted
    intro call hcall
    rcases List.mem_cons.mp hcall with rfl | hin
    · exact real_iff.mpr ⟨Nat.one_pos, hlt⟩
    · refine ih hbelow.2 ?_ call hin
      intro r hr
      -- the rows in front of the removed one stay where they are
      have hless := hbelow.1 r hr
      rw [removeRows_eq, List.length_append, List.length_take, List.length_drop]
      omega

/-- With complete rows, `removeSelRows` gets to its call behind the loop over the cache. -/
theorem removeSelRows_eq (ord : IterOrder Entry) (row : Nat) (ht : Tidy w) :
    ∃ fileDest selRowUniqueId,
      removeSelRows ord (some row) w = (do
        let cache ← eraseCached ord fileDest selRowUniqueId w.gkDlInfoCache
        pure ⟨removeRows w.vectorList row 1, cache⟩) ∧
      selRemovals ord (some row) w = (do
        let _ ← eraseCached ord fileDest selRowUniqueId w.gkDlInfoCache
        pure [⟨w.vectorList, row, 1⟩]) := by
  have htext : ∀ column : Nat, column < mnColCount →
      ∃ text, textAt w.vectorList row column = .ret text := by
    intro column hcolumn
    cases hrow : w.vectorList[row]? with
    | some cells =>
      exact ⟨_, textAt_eq hrow (ht.complete cells (List.mem_of_getElem? hrow)) hcolumn⟩
    | none => exact ⟨_, textAt_missing (List.getElem?_eq_none_iff.mp hrow) column⟩
  rcases htext mnDestinationCol (by decide) with ⟨fileDest, hdest⟩
  rcases htext mnHiddenUniqueId (by decide) with ⟨selRowUniqueId, hid⟩
  refine ⟨fileDest, selRowUniqueId, ?_, ?_⟩
  · rw [removeSelRows, hdest, Prog.ret_bind, hid, Prog.ret_bind]
    exact ((ends_eraseCached ord _ _ _).bind fun _ _ => .ret trivial).tryCatch_eq
      (R := fun _ => True) _
  · unfold selRemovals
    dsimp only
    rw [hdest, Prog.ret_bind, hid, Prog.ret_bind]
    exact ((ends_eraseCached ord _ _ _).bind fun _ _ => .ret trivial).tryCatch_eq
      (R := fun _ => True) _

/-- The calls of `clearOldHistory` are all real. -/
theorem ends_clearRemovals (ord : IterOrder Entry) (files : FileStatus) (answer : StandardButton)
    (ht : Tidy w) :
    Ends (fun calls : List RemoveRowsCall => ∀ call ∈ calls, call.Real) (fun _ => False)
      (clearRemovals ord files answer w) := by
  unfold clearRemovals
  split
  · have hrows : ∀ row ∈ List.range w.vectorList.length, row < w.vectorList.length :=
      fun row => List.mem_range.mp
    refine (ends_completedRows_filter ord files ht.complete hrows).bind ?_
    intro found hfound
    cases found with
    | none => exact .ret fun call hcall => absurd hcall List.not_mem_nil
    | some indexes =>
      refine .ret (callsFor_real ?_ ?_)
      · rw [List.pairwise_reverse, show indexes = _ from hfound]
        exact List.pairwise_lt_range.filter _
      · intro row hrow
        rw [List.mem_reverse, show indexes = _ from hfound] at hrow
        exact hrows row (List.mem_filter.mp hrow).1
  · exact .ret fun call hcall => absurd hcall List.not_mem_nil

/-! ### What the calls leave -/

theorem ends_loadCurlItems_suffix (qt : QtTexts) (rd : Reading) (infos : List CurlDlInfo)
    (w : MainWindow) :
    Ends (fun w' => w.vectorList <:+ w'.vectorList) (fun _ => False)
      (loadCurlItems qt rd w infos) := by
  induction infos generalizing w with
  | nil => exact .ret (List.suffix_refl _)
  | cons info infos ih =>
    rw [loadCurlItems]
    split
    · split
      · refine (ends_insertNewRow qt rd w (curlRow info)).bind ?_
        intro w₁ h₁
        refine (ih w₁).mono ?_
        intro w₂ h₂
        rw [h₁.1] at h₂
        exact (List.suffix_cons _ _).trans h₂
      · exact .warn (ih w)
    · refine .warn ?_
      split
      · exact (Ends.shown _ _ _).bind fun _ _ => ih w
      · exact ih w

theorem ends_loadTorrentItems_suffix (qt : QtTexts) (rd : Reading) (infos : List TorrentInfo)
    (w : MainWindow) :
    Ends (fun w' => w.vectorList <:+ w'.vectorList) (fun _ => False)
      (loadTorrentItems qt rd w infos) := by
  induction infos generalizing w with
  | nil => exact .ret (List.suffix_refl _)
  | cons info infos ih =>
    rw [loadTorrentItems]
    split
    · split
      · refine (ends_insertNewRow qt rd w (torrentRow info)).bind ?_
        intro w₁ h₁
        refine (ih w₁).mono ?_
        intro w₂ h₂
        rw [h₁.1] at h₂
        exact (List.suffix_cons _ _).trans h₂
      · exact .warn (ih w)
    · exact .warn (ih w)

/-- A download that is sent leaves the rows that are there. -/
theorem ends_sendDetails_suffix (qt : QtTexts) (rd : Reading) (drawn : Str) (now : Int)
    (hashSuccType : HashVerif) (details : Details) (w : MainWindow) :
    Ends (fun w' => w.vectorList <:+ w'.vectorList) (fun _ => False)
      (sendDetails qt rd drawn now hashSuccType details w) := by
  unfold sendDetails
  split
  · exact .warn (.ret (List.suffix_refl _))
  · refine (ends_insertNewRow qt rd w details.row).bind ?_
    intro w₁ h₁
    have hsuffix : w.vectorList <:+ w₁.vectorList := by
      rw [h₁.1]
      exact List.suffix_cons _ _
    split
    · refine Ends.bind (R := fun _ => True) ?_ fun _ _ => .ret hsuffix
      unfold addCurlItem
      split
      · exact Ends.tryCatch (Ends.any _) fun _ _ => .warn (.ret trivial)
      · exact .ret trivial
    · exact .ret hsuffix

/-- **The calls are those of the action.** When an action returns, its calls have been made
one after the other from the table before it, and the rows that they leave stand below those
that are inserted. -/
theorem perform_removals {qt : QtTexts} (ht : Tidy w) {F : Faults Str}
    {m m' : Machine Str Str Str} {w' : MainWindow} {a : WindowAction}
    (h : exec F (perform qt w a) m = (.ret w', m')) :
    ∃ calls m₁ final, exec F (removals w a) m = (.ret calls, m₁) ∧
      Chained final w.vectorList calls ∧ final <:+ w'.vectorList := by
  cases a with
  | readFromHistoryFile rd =>
    rcases exec_bind_eq_ret h with ⟨⟨dlHistory, gkTorrentHistory⟩, m₁, hread, hrest⟩
    refine ⟨[⟨w.vectorList, 0, dlHistory.length⟩], m₁, _, ?_, ⟨rfl, rfl⟩, ?_⟩
    · rw [removals, loadRemovals, exec_bind_ret hread]
      rfl
    · have hends := (ends_loadCurlItems_suffix qt rd dlHistory
          { w with vectorList := removeRows w.vectorList 0 dlHistory.length }).bind
        fun w₁ h₁ => (ends_loadTorrentItems_suffix qt rd gkTorrentHistory w₁).mono
          fun w₂ h₂ => h₁.trans h₂
      exact hends.exec_ret hrest
  | sendDetails rd drawn now hashSuccType details =>
    exact ⟨[], m, _, rfl, rfl,
      (ends_sendDetails_suffix qt rd drawn now hashSuccType details w).exec_ret h⟩
  | removeSelRows ord selected =>
    cases selected with
    | none =>
      cases h
      exact ⟨[], m, _, rfl, rfl, List.suffix_refl _⟩
    | some row =>
      rcases removeSelRows_eq ord row ht with ⟨fileDest, selRowUniqueId, hsel, hcalls⟩
      rw [perform, hsel] at h
      rcases exec_bind_eq_ret h with ⟨cache, m₁, herase, hret⟩
      cases hret
      refine ⟨[⟨w.vectorList, row, 1⟩], m', removeRows w.vectorList row 1, ?_, ⟨rfl, rfl⟩,
        List.suffix_refl _⟩
      rw [removals, hcalls, exec_bind_ret herase]
      rfl
  | clearOldHistory ord files answer =>
    rw [perform, clearOldHistory] at h
    rw [removals, clearRemovals]
    split at h
    · rename_i happly
      rcases exec_bind_eq_ret h with ⟨found, m₁, hloop, hret⟩
      rw [if_pos happly, exec_bind_ret hloop]
      cases found with
      | none =>
        cases hret
        exact ⟨[], _, _, rfl, rfl, List.suffix_refl _⟩
      | some indexes =>
        cases hret
        exact ⟨_, _, _, rfl, chained_removeFound w.vectorList indexes, List.suffix_refl _⟩
    · rename_i hother
      cases h
      rw [if_neg hother]
      exact ⟨[], m, _, rfl, rfl, List.suffix_refl _⟩

end Calls

/-! ## Runs -/

/-- What happens to a window: one of the actions above, or a slot that writes a cell, or one
that writes to the database. -/
inductive WindowEvent where
  | act (faults : Faults Str) (a : WindowAction)
  | updateCol (index : QModelIndex) (value : Str) (col : Int)
  | store (db : Db)

def Session.next (qt : QtTexts) (s : Session) : WindowEvent → Session
  | .act faults a => s.step qt (faults, a)
  | .updateCol index value col =>
    match updateCol s.window.vectorList index value col with
    | .ok (_, vectorList) => { s with window := { s.window with vectorList := vectorList } }
    | .error _ => s
  | .store db => { s with db := db }

/-- All calls of the event are real. -/
def RealRemovals (s : Session) : WindowEvent → Prop
  | .act faults a => ∀ calls m,
      exec faults (removals s.window a) (Machine.start s.db) = (.ret calls, m) →
        ∀ call ∈ calls, call.Real
  | _ => True

/-- A loading of the history finds HTTP/FTP downloads, and no more than there are rows, and a
`removeSelRows` that gets to its call has a row of the table. -/
def RemovesThere (s : Session) : WindowEvent → Prop
  | .act faults (.readFromHistoryFile rd) => ∀ dlHistory gkTorrentHistory m,
      exec faults (readHistory rd) (Machine.start s.db) =
          (.ret (dlHistory, gkTorrentHistory), m) →
        0 < dlHistory.length ∧ dlHistory.length ≤ s.window.vectorList.length
  | .act faults (.removeSelRows ord selected) => ∀ row calls m, selected = some row →
      exec faults (selRemovals ord selected s.window) (Machine.start s.db) = (.ret calls, m) →
        row < s.window.vectorList.length
  | _ => True

theorem assignCell_length {v cells : List Str} {position : Nat} {text : Str}
    (h : assignCell v position text = .ok cells) : cells.length = v.length := by
  unfold assignCell at h
  split at h
  · cases h
    exact List.length_set
  · cases h

/-- A row that is replaced by one of its length leaves the rows complete. -/
theorem replaceRow_complete {vectorList vectorList' : VectorList} {row : Int}
    {cells : List Str} (hcomplete : ∀ cells ∈ vectorList, cells.length = mnColCount)
    (hlength : cells.length = (rowAt vectorList row).length)
    (h : replaceRow vectorList row cells = .ok vectorList') :
    ∀ cells ∈ vectorList', cells.length = mnColCount := by
  unfold replaceRow at h
  split at h
  · rename_i hrow
    cases h
    have hlt : row.toNat < vectorList.length := by omega
    have hold : (rowAt vectorList row).length = mnColCount := by
      rw [rowAt, if_pos hrow.1, List.getD_eq_getElem?_getD, List.getElem?_eq_getElem hlt,
        Option.getD_some]
      exact hcomplete _ (List.getElem_mem hlt)
    intro other hother
    rcases List.mem_or_eq_of_mem_set hother with hmem | rfl
    · exact hcomplete other hmem
    · exact hlength.trans hold
  · cases h

/-- A cell that is written leaves the rows complete. -/
theorem updateCol_complete {vectorList vectorList' : VectorList} {index : QModelIndex}
    {value : Str} {col : Int} {b : Bool}
    (hcomplete : ∀ cells ∈ vectorList, cells.length = mnColCount)
    (h : updateCol vectorList index value col = .ok (b, vectorList')) :
    ∀ cells ∈ vectorList', cells.length = mnColCount := by
  -- both branches of `index.column = col` write a row of the old length back
  have hreplace : ∀ {cells}, cells.length = (rowAt vectorList index.row).length →
      (replaceRow vectorList index.row cells >>= fun vectorList => .ok (true, vectorList)) =
        .ok (b, vectorList') →
      ∀ cells ∈ vectorList', cells.length = mnColCount := by
    intro cells hlength hbind
    rcases hrow : replaceRow vectorList index.row cells with fault | rows
    · rw [hrow] at hbind
      cases hbind
    · rw [hrow, ok_bind] at hbind
      cases hbind
      exact replaceRow_complete hcomplete hlength hrow
  unfold updateCol at h
  split at h
  · split at h
    · dsimp only at h
      split at h
      · rcases hassign : assignCell (rowAt vectorList index.row) col.toNat value with
          fault | cells
        · rw [hassign] at h
          cases h
        · rw [hassign] at h
          exact hreplace (assignCell_length hassign) h
      · exact hreplace rfl h
    · cases h
  · cases h
    exact hcomplete

theorem tidy_next (qt : QtTexts) (s : Session) (event : WindowEvent) (ht : Tidy s.window) :
    Tidy (s.next qt event).window := by
  cases event with
  | act faults a => exact (step_agrees qt s (faults, a) ht).1
  | updateCol index value col =>
    rw [Session.next]
    split
    · rename_i hupdate
      exact ⟨updateCol_complete ht.complete hupdate, ht.named, ht.distinct⟩
    · exact ht
  | store db => exact ht

theorem loadRemovals_iff {s : Session} {faults : Faults Str} {rd : Reading} :
    RealRemovals s (.act faults (.readFromHistoryFile rd)) ↔
      RemovesThere s (.act faults (.readFromHistoryFile rd)) := by
  constructor
  · intro h dlHistory gkTorrentHistory m hread
    have hcalls : exec faults (removals s.window (.readFromHistoryFile rd)) (Machine.start s.db) =
        (.ret [⟨s.window.vectorList, 0, dlHistory.length⟩], m) := by
      rw [removals, loadRemovals, exec_bind_ret hread]
      rfl
    have hreal := real_iff.mp (h _ m hcalls _ List.mem_cons_self)
    exact ⟨hreal.1, (Nat.zero_add _).symm.trans_le hreal.2⟩
  · intro h calls m hcalls call hcall
    rcases exec_bind_eq_ret hcalls with ⟨⟨dlHistory, gkTorrentHistory⟩, m₁, hread, hret⟩
    cases hret
    have hthere := h dlHistory gkTorrentHistory m hread
    rw [List.mem_singleton.mp hcall]
    exact real_iff.mpr ⟨hthere.1, (Nat.zero_add _).trans_le hthere.2⟩

/-- **One event**: its calls are real exactly under the condition. -/
theorem realRemovals_step {s : Session} (ht : Tidy s.window) (event : WindowEvent) :
    RealRemovals s event ↔ RemovesThere s event := by
  cases event with
  | updateCol index value col => exact Iff.rfl
  | store db => exact Iff.rfl
  | act faults a =>
    cases a with
    | readFromHistoryFile rd => exact loadRemovals_iff
    | sendDetails rd drawn now hashSuccType details =>
      refine iff_of_true ?_ trivial
      intro calls m hcalls call hcall
      cases hcalls
      exact absurd hcall List.not_mem_nil
    | removeSelRows ord selected =>
      cases selected with
      | none =>
        refine iff_of_true ?_ fun row calls m hnone => nomatch hnone
        intro calls m hcalls call hcall
        cases hcalls
        exact absurd hcall List.not_mem_nil
      | some row =>
        -- there is one call, for the selected row
        have hone : ∀ {calls m}, exec faults (selRemovals ord (some row) s.window)
            (Machine.start s.db) = (.ret calls, m) →
              calls = [⟨s.window.vectorList, row, 1⟩] := by
          intro calls m hcalls
          rcases removeSelRows_eq ord row ht with ⟨fileDest, selRowUniqueId, -, hsel⟩
          rw [hsel] at hcalls
          rcases exec_bind_eq_ret hcalls with ⟨cache, m₁, -, hret⟩
          cases hret
          rfl
        constructor
        · intro h selected calls m hselected hcalls
          cases hselected
          have hreal := h calls m hcalls _ (hone hcalls ▸ List.mem_cons_self)
          exact (real_iff.mp hreal).2
        · intro h calls m hcalls call hcall
          have hlt := h row calls m rfl hcalls
          rw [hone hcalls] at hcall
          rw [List.mem_singleton.mp hcall]
          exact real_iff.mpr ⟨Nat.one_pos, hlt⟩
    | clearOldHistory ord files answer =>
      refine iff_of_true ?_ trivial
      intro calls m hcalls
      exact (ends_clearRemovals ord files answer ht).exec_ret hcalls

/-- **The removals of a run are real exactly in the runs of such events**, from the empty
window and any database. A run that starts with a loading of the history is none of them. -/
theorem realRemovals_iff (qt : QtTexts) (db : Db) (events : List WindowEvent) :
    (EachStep (Session.next qt) RealRemovals ⟨⟨[], []⟩, db⟩ events ↔
        EachStep (Session.next qt) RemovesThere ⟨⟨[], []⟩, db⟩ events) ∧
      ∀ faults rd history m, exec faults (readHistory rd) (Machine.start db) = (.ret history, m) →
        ¬ EachStep (Session.next qt) RealRemovals ⟨⟨[], []⟩, db⟩
          (.act faults (.readFromHistoryFile rd) :: events) := by
  constructor
  · exact @eachStep_iff_of_invariant _ _ _ (fun s : Session => Tidy s.window) (fun _ _ => True) _ _
      (fun s event ht _ _ => tidy_next qt s event ht) (fun s event ht => realRemovals_step ht event)
      _ tidy_empty events (eachStep_true _ events)
  · intro faults rd history m hread hreal
    have hthere := loadRemovals_iff.mp hreal.1 history.1 history.2 m hread
    exact absurd (hthere.1.trans_le hthere.2) (Nat.lt_irrefl 0)

/-- The loading of the history at the start. -/
def startUpLoad : WindowAction := .readFromHistoryFile ⟨IterOrder.insertion Entry, 1⟩

def loadedCalls (db : Db) : Outcome Str (List RemoveRowsCall) :=
  (exec Faults.none (removals ⟨[], []⟩ startUpLoad) (Machine.start db)).1

/-- The start with one download in the history, and with none: the first announces a row that
is not there, the second a range that ends in front of its beginning. -/
theorem realRemovals_startUp :
    loadedCalls sampleDb = .ret [⟨[], 0, 1⟩] ∧ loadedCalls emptyDb = .ret [⟨[], 0, 0⟩] ∧
      ¬ ∀ (db : Db) (events : List WindowEvent),
        EachStep (Session.next plainTexts) RealRemovals ⟨⟨[], []⟩, db⟩ events := by
  have hsample : loadedCalls sampleDb = .ret [⟨[], 0, 1⟩] := by decide +kernel
  refine ⟨hsample, by decide +kernel, ?_⟩
  intro h
  have hcalls : ∀ calls m, exec Faults.none (removals ⟨[], []⟩ startUpLoad)
      (Machine.start sampleDb) = (.ret calls, m) → ∀ call ∈ calls, call.Real :=
    (h sampleDb [.act Faults.none startUpLoad]).1
  rcases hexec : exec Faults.none (removals ⟨[], []⟩ startUpLoad) (Machine.start sampleDb) with
    ⟨o, m⟩
  have ho : o = .ret [⟨[], 0, 1⟩] := by
    rw [← hsample, loadedCalls, hexec]
  have hreal := hcalls _ m (hexec.trans (congrArg (·, m) ho)) _ List.mem_cons_self
  exact absurd (real_iff.mp hreal).2 (Nat.not_succ_le_zero _)

end FyreDL.Gui
