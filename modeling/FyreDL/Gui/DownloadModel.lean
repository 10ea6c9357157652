import FyreDL.Gui.DlFinished
import FyreDL.Lib.Ledger
import FyreDL.Lib.Run

/-!
# FyreDL.Gui.DownloadModel — the table of downloads

`downloadModel` of `dl_view.cpp`, a `QAbstractTableModel` over a list of vectors of
cells, and the calls by which `MainWindow::insertNewRow` fills a row of it.

* `setData` inserts a cell in front of the one that has its column, and does not assign
  it. A row is complete after the twelve calls of `insertNewRow`, in the order of the
  columns.
* What the source leaves undefined, a position behind the end of a vector or of the list,
  is a fault of its own beside the two exceptions.
* `table_refines` — over any run, the table shows a `Ledger`: its rows are complete, the
  newest one is on top, and each cell is the value last written to it.
* `setData_inserts` — in a complete row, `setData` moves the later cells by a column.
-/

namespace FyreDL.Gui

open Lib Store

/-! ## Indexes and cells -/

/-- `QModelIndex`. -/
structure QModelIndex where
  row : Int
  column : Int
deriving DecidableEq, Repr

/-- `QModelIndex::isValid`. -/
def QModelIndex.isValid (index : QModelIndex) : Bool := 0 ≤ index.row ∧ 0 ≤ index.column

/-- `Qt::ItemDataRole`. -/
inductive ItemDataRole where
  | displayRole
  | other (role : Nat)
deriving DecidableEq, Repr

/-- `vectorList`. -/
abbrev VectorList := List (List Str)

/-- How an operation of the table ends when it does not return. -/
inductive ModelFault where
  /-- undefined behaviour -/
  | undefined
  /-- `std::out_of_range` -/
  | outOfRange
  /-- "'col' is less than zero!" -/
  | invalidArgument
deriving DecidableEq, Repr

/-- `rowCount`. -/
def rowCount (vectorList : VectorList) : Int := vectorList.length

/-- `columnCount`. -/
def columnCount : Int := mnColCount

/-- `QAbstractTableModel::index`. -/
def modelIndex (vectorList : VectorList) (row column : Int) : QModelIndex :=
  if 0 ≤ row ∧ row < rowCount vectorList ∧ 0 ≤ column ∧ column < columnCount then ⟨row, column⟩
  else ⟨-1, -1⟩

/-- `QList::value`: a row that is not there is empty. -/
def rowAt (vectorList : VectorList) (row : Int) : List Str :=
  if 0 ≤ row then vectorList.getD row.toNat [] else []

/-- `QList::replace`. -/
def replaceRow (vectorList : VectorList) (row : Int) (cells : List Str) :
    Except ModelFault VectorList :=
  if 0 ≤ row ∧ row < vectorList.length then .ok (vectorList.set row.toNat cells)
  else .error .undefined

/-- `data`. -/
def data (vectorList : VectorList) (index : QModelIndex) (role : ItemDataRole) :
    Except ModelFault (Option Str) :=
  if index.isValid = false then .ok none
  else if index.row ≥ vectorList.length ∨ index.row < 0 then .ok none
  else if role = .displayRole then
    let vector := rowAt vectorList index.row
    -- the loop over the columns
    match (List.range mnColCount).find? fun i : Nat => index.column = i with
    | some i =>
      match vector[i]? with
      | some text => .ok (some text)
      | none => .error .outOfRange
    | none => .ok none
  else .ok none

/-! ## Writing -/

/-- The columns that `setData` tells apart. -/
def mnColumns : List Nat :=
  [mnFilenameCol, mnFilesizeCol, mnDownloadedCol, mnProgressCol, mnUpspeedCol, mnDownspeedCol,
   mnSeedersCol, mnLeechersCol, mnStatusCol, mnDestinationCol, mnUrlCol, mnHiddenUniqueId]

/-- `v.insert(v.begin() + position, text)`. -/
def insertCell (v : List Str) (position : Nat) (text : Str) : Except ModelFault (List Str) :=
  if position ≤ v.length then .ok (v.insertIdx position text) else .error .undefined

/-- `setData`. -/
def setData (vectorList : VectorList) (index : QModelIndex) (value : Str) (role : ItemDataRole) :
    Except ModelFault (Bool × VectorList) :=
  if index.isValid = true ∧ role = .displayRole then
    let v := rowAt vectorList index.row
    match mnColumns.find? fun column : Nat => index.column = column with
    | some column => do
      let v ← insertCell v column value
      let vectorList ← replaceRow vectorList index.row v
      return (true, vectorList)
    | none => .ok (false, vectorList)
  else .ok (false, vectorList)

/-- `QList::insert`: a position outside of the list is taken for one of its ends. -/
def insertRow (vectorList : VectorList) (position : Int) : VectorList :=
  vectorList.insertIdx (min position.toNat vectorList.length) []

/-- The loop of `insertRows`. -/
def insertRows (vectorList : VectorList) (position : Int) : Nat → VectorList
  | 0 => vectorList
  | rows + 1 => insertRows (insertRow vectorList position) position rows

/-- `QList::removeAt`: a position outside of the list is ignored. -/
def removeAt (vectorList : VectorList) (position : Int) : VectorList :=
  if 0 ≤ position then vectorList.eraseIdx position.toNat else vectorList

/-- The loop of `removeRows`. -/
def removeRows (vectorList : VectorList) (position : Int) : Nat → VectorList
  | 0 => vectorList
  | rows + 1 => removeRows (removeAt vectorList position) position rows

/-- `v.at(position) = text`. -/
def assignCell (v : List Str) (position : Nat) (text : Str) : Except ModelFault (List Str) :=
  if position < v.length then .ok (v.set position text) else .error .outOfRange

/-- `updateCol`. -/
def updateCol (vectorList : VectorList) (index : QModelIndex) (value : Str) (col : Int) :
    Except ModelFault (Bool × VectorList) :=
  if index.isValid = true then
    if col ≥ 0 then do
      let v := rowAt vectorList index.row
      let v ← if index.column = col then assignCell v col.toNat value else .ok v
      let vectorList ← replaceRow vectorList index.row v
      return (true, vectorList)
    else .error .invalidArgument
  else .ok (false, vectorList)

/-! ## A new row -/

/-- The functions of Qt that make a text: `QUrl::fileName`, and `QString::number` of a
`double`. -/
structure QtTexts where
  fileName : Str → Str
  number : ℚ → Str

/-- The arguments of `insertNewRow`. -/
structure NewRow where
  fileName : Str
  fileSize : ℚ
  downloaded : Int
  progress : ℚ
  upSpeed : Int
  downSpeed : Int
  status : DownloadStatus
  url : Str
  destination : Str
  uniqueId : Str
  downloadType : DownloadType
deriving DecidableEq, Repr

/-- `extractFilename`. -/
def extractFilename (qt : QtTexts) (url : Str) : Str := qt.fileName url

/-- "<N/A>". -/
def notAvailable : Str := "<N/A>".toList

/-- The columns and texts that `insertNewRow` writes, in its order. -/
def newRowCells (qt : QtTexts) (row : NewRow) : List (Nat × Str) :=
  [(mnFilenameCol, extractFilename qt row.fileName),
   (mnFilesizeCol, numberConverter row.fileSize),
   (mnDownloadedCol, toText row.downloaded),
   (mnProgressCol, qt.number row.progress),
   (mnUpspeedCol, toText row.upSpeed),
   (mnDownspeedCol, toText row.downSpeed),
   (mnSeedersCol, notAvailable),
   (mnLeechersCol, notAvailable),
   (mnStatusCol, convDlStatToString row.status),
   (mnDestinationCol, row.destination),
   (mnUrlCol, row.url),
   (mnHiddenUniqueId, row.uniqueId)]

/-- `setData` for each column and text, in the row on top. -/
def setCells (vectorList : VectorList) : List (Nat × Str) → Except ModelFault VectorList
  | [] => .ok vectorList
  | (column, text) :: rest => do
    let (_, vectorList) ← setData vectorList (modelIndex vectorList 0 column) text .displayRole
    setCells vectorList rest

/-- The part of `insertNewRow` that fills the table. -/
def insertNewCells (qt : QtTexts) (vectorList : VectorList) (row : NewRow) :
    Except ModelFault VectorList :=
  setCells (insertRows vectorList 0 1) (newRowCells qt row)

/-! ## What the operations do -/

section Operations

variable {vectorList : VectorList}

theorem ok_bind {ε α β : Type} (a : α) (f : α → Except ε β) : (Except.ok a >>= f) = f a := rfl

theorem modelIndex_of_lt {row column : Nat} (hrow : row < vectorList.length)
    (hcolumn : column < mnColCount) : modelIndex vectorList row column = ⟨row, column⟩ := by
  have hbounds : (0 : Int) ≤ row ∧ (row : Int) < rowCount vectorList ∧ (0 : Int) ≤ column ∧
      (column : Int) < columnCount := by
    unfold rowCount columnCount
    omega
  exact if_pos hbounds

@[simp] theorem isValid_nat (row column : Nat) : (QModelIndex.mk row column).isValid = true := by
  simp [QModelIndex.isValid]

theorem rowAt_nat (row : Nat) : rowAt vectorList row = vectorList.getD row [] := by
  simp [rowAt]

theorem replaceRow_nat {row : Nat} (h : row < vectorList.length) (cells : List Str) :
    replaceRow vectorList row cells = .ok (vectorList.set row cells) := by
  have hbounds : (0 : Int) ≤ row ∧ (row : Int) < vectorList.length := by omega
  rw [replaceRow, if_pos hbounds, Int.toNat_natCast]

theorem mnColumns_eq : mnColumns = List.range mnColCount := by decide

/-- The search for a column finds it. -/
theorem find?_column {column : Nat} (h : column < mnColCount) :
    (List.range mnColCount).find? (fun i : Nat => (column : Int) = i) = some column := by
  have hcolumn : (fun i : Nat => decide ((column : Int) = i)) = fun i => decide (column = i) := by
    funext i
    exact decide_eq_decide.mpr Int.ofNat_inj
  rw [hcolumn, List.find?_range_eq_some]
  refine ⟨decide_eq_true rfl, List.mem_range.mpr h, ?_⟩
  intro i hi
  simp only [Nat.ne_of_gt hi, decide_false, Bool.not_false]

/-- What `data` shows in a row and a column. -/
theorem data_nat {row column : Nat} {cells : List Str}
    (hrow : vectorList[row]? = some cells) (hcolumn : column < mnColCount) :
    data vectorList ⟨row, column⟩ .displayRole =
      match cells[column]? with
      | some text => .ok (some text)
      | none => .error .outOfRange := by
  have hlt : row < vectorList.length := (List.getElem?_eq_some_iff.mp hrow).1
  have hin : ¬ ((row : Int) ≥ vectorList.length ∨ (row : Int) < 0) := by omega
  have hcells : rowAt vectorList row = cells := by
    rw [rowAt_nat, List.getD_eq_getElem?_getD, hrow, Option.getD_some]
  unfold data
  rw [isValid_nat, if_neg Bool.true_eq_false_eq_False, if_neg hin, if_pos rfl]
  dsimp only
  rw [find?_column hcolumn, hcells]

/-- A cell of a complete row is shown. -/
theorem data_cell {row column : Nat} {cells : List Str} {text : Str}
    (hrow : vectorList[row]? = some cells) (hcolumn : column < mnColCount)
    (htext : cells[column]? = some text) :
    data vectorList ⟨row, column⟩ .displayRole = .ok (some text) := by
  rw [data_nat hrow hcolumn, htext]

/-- Nothing is shown outside of the table. -/
theorem data_outside {index : QModelIndex}
    (h : ¬ ∃ row column : Nat, index = ⟨row, column⟩ ∧ row < vectorList.length ∧
      column < mnColCount) : data vectorList index .displayRole = .ok none := by
  unfold data
  by_cases hvalid : index.isValid = true
  · by_cases hrow : index.row ≥ vectorList.length ∨ index.row < 0
    · rw [hvalid, if_neg Bool.true_eq_false_eq_False, if_pos hrow]
    · have hcolumn : (List.range mnColCount).find? (fun i : Nat => index.column = i) = none := by
        refine List.find?_eq_none.mpr fun i hi hc => h ⟨index.row.toNat, i, ?_, by omega, ?_⟩
        · rw [← of_decide_eq_true hc, Int.toNat_of_nonneg (by omega)]
        · exact List.mem_range.mp hi
      rw [hvalid, if_neg Bool.true_eq_false_eq_False, if_neg hrow, if_pos rfl]
      dsimp only
      rw [hcolumn]
  · rw [if_pos (Bool.eq_false_of_not_eq_true hvalid)]

/-- `setData` at an index of the table, in a row that is filled up to the column. -/
theorem setData_eq {row column : Nat} {cells : List Str}
    (hrow : vectorList[row]? = some cells) (hcolumn : column < mnColCount)
    (hle : column ≤ cells.length) (value : Str) :
    setData vectorList ⟨row, column⟩ value .displayRole =
      .ok (true, vectorList.set row (cells.insertIdx column value)) := by
  have hlt : row < vectorList.length := (List.getElem?_eq_some_iff.mp hrow).1
  have hcells : rowAt vectorList row = cells := by
    rw [rowAt_nat, List.getD_eq_getElem?_getD, hrow, Option.getD_some]
  have hinsert : insertCell cells column value = .ok (cells.insertIdx column value) := if_pos hle
  unfold setData
  rw [if_pos ⟨isValid_nat _ _, rfl⟩]
  dsimp only
  rw [mnColumns_eq, find?_column hcolumn, hcells]
  dsimp only
  rw [hinsert, ok_bind, replaceRow_nat hlt, ok_bind]
  rfl

/-- In a row that is filled up to a column, `setData` appends the cell. -/
theorem setData_next {cells : List Str} (hcolumn : cells.length < mnColCount) (text : Str) :
    setData (cells :: vectorList) (modelIndex (cells :: vectorList) 0 cells.length) text
        .displayRole = .ok (true, (cells ++ [text]) :: vectorList) := by
  have hindex : modelIndex (cells :: vectorList) (0 : Int) cells.length =
      ⟨(0 : Nat), cells.length⟩ := modelIndex_of_lt (Nat.succ_pos _) hcolumn
  have hset := @setData_eq (cells :: vectorList) 0 cells.length cells rfl hcolumn
    (Nat.le_refl _) text
  rw [List.insertIdx_length_self, List.set_cons_zero] at hset
  rw [hindex, hset]

/-- A row on top is filled with the next cells. -/
theorem setCells_eq {cells : List Str} {pairs : List (Nat × Str)}
    (hcolumns : pairs.map Prod.fst = List.range' cells.length pairs.length)
    (hlength : cells.length + pairs.length ≤ mnColCount) :
    setCells (cells :: vectorList) pairs = .ok ((cells ++ pairs.map Prod.snd) :: vectorList) := by
  induction pairs generalizing cells with
  | nil => rw [setCells, List.map_nil, List.append_nil]
  | cons pair pairs ih =>
    rcases pair with ⟨column, text⟩
    rw [List.map_cons, List.length_cons, List.range'_succ, List.cons.injEq] at hcolumns
    rw [List.length_cons] at hlength
    have hnext := @setData_next vectorList cells (by omega) text
    have hlen : (cells ++ [text]).length = cells.length + 1 := List.length_append
    have hrest := @ih (cells ++ [text]) (by rw [hlen]; exact hcolumns.2) (by rw [hlen]; omega)
    rcases hcolumns with ⟨rfl, -⟩
    rw [setCells, hnext, ok_bind]
    dsimp only
    rw [hrest, List.append_assoc]
    rfl

/-- **A new row** has its twelve cells and is on top. -/
theorem insertNewCells_eq (qt : QtTexts) (vectorList : VectorList) (row : NewRow) :
    insertNewCells qt vectorList row =
      .ok ((newRowCells qt row).map Prod.snd :: vectorList) := by
  have hinsert : insertRows vectorList 0 1 = [] :: vectorList := by
    rw [insertRows, insertRows, insertRow, Int.toNat_zero, Nat.zero_min, List.insertIdx_zero]
  rw [insertNewCells, hinsert, setCells_eq rfl (Nat.le_refl _), List.nil_append]

/-- `updateCol` writes one cell. -/
theorem updateCol_eq {row column : Nat} {cells : List Str} (hrow : vectorList[row]? = some cells)
    (hcolumn : column < cells.length) (value : Str) :
    updateCol vectorList ⟨row, column⟩ value column =
      .ok (true, vectorList.set row (cells.set column value)) := by
  have hlt : row < vectorList.length := (List.getElem?_eq_some_iff.mp hrow).1
  have hcells : rowAt vectorList row = cells := by
    rw [rowAt_nat, List.getD_eq_getElem?_getD, hrow, Option.getD_some]
  have hassign : assignCell cells (column : Int).toNat value = .ok (cells.set column value) :=
    if_pos hcolumn
  unfold updateCol
  rw [isValid_nat, if_pos rfl, if_pos (Int.natCast_nonneg column)]
  dsimp only
  rw [if_pos rfl, hcells, hassign, ok_bind, replaceRow_nat hlt, ok_bind]
  rfl

/-- `removeRows` takes the rows from a position on away. -/
theorem removeRows_eq (position rows : Nat) (vectorList : VectorList) :
    removeRows vectorList position rows =
      vectorList.take position ++ vectorList.drop (position + rows) := by
  induction rows generalizing vectorList with
  | zero => rw [removeRows, Nat.add_zero, List.take_append_drop]
  | succ rows ih =>
    have hremove : removeAt vectorList position =
        vectorList.take position ++ vectorList.drop (position + 1) := by
      rw [removeAt, if_pos (Int.natCast_nonneg position), Int.toNat_natCast,
        List.eraseIdx_eq_take_drop_succ]
    rw [removeRows, ih, hremove]
    rcases Nat.le_total position vectorList.length with hle | hge
    · have hlen : (vectorList.take position).length = position := List.length_take_of_le hle
      rw [List.take_left' hlen, ← List.drop_drop, List.drop_left' hlen, List.drop_drop,
        Nat.add_right_comm, Nat.add_assoc]
    · -- no row stands at the position or behind it
      have hnil : ∀ k, vectorList.drop (position + k) = [] := fun k =>
        List.drop_eq_nil_of_le (Nat.le_add_right_of_le hge)
      rw [hnil, hnil, List.append_nil, List.take_of_length_le hge, List.take_of_length_le hge,
        hnil, List.append_nil]

end Operations

/-! ## The table and its history -/

/-- What is done to the table. -/
inductive TableAction where
  | insertNewRow (row : NewRow)
  | updateCol (index : QModelIndex) (value : Str) (col : Int)
  | removeRows (position rows : Nat)

/-- The table after an action. -/
def tableStep (qt : QtTexts) (table : Except ModelFault VectorList) (a : TableAction) :
    Except ModelFault VectorList := do
  let vectorList ← table
  match a with
  | .insertNewRow row => insertNewCells qt vectorList row
  | .updateCol index value col =>
    let (_, vectorList) ← updateCol vectorList index value col
    return vectorList
  | .removeRows position rows => return removeRows vectorList position rows

/-- An update has an index of the table and its column, and the rows that are removed are
there. -/
def InRange (table : Except ModelFault VectorList) (a : TableAction) : Prop :=
  match table, a with
  | .error _, _ => False
  | .ok _, .insertNewRow _ => True
  | .ok vectorList, .updateCol index _ col =>
    index.isValid = true ∧ modelIndex vectorList index.row index.column = index ∧
      col = index.column
  | .ok vectorList, .removeRows position rows => position + rows ≤ vectorList.length

instance (table : Except ModelFault VectorList) (a : TableAction) :
    Decidable (InRange table a) := by
  unfold InRange
  split
  · exact inferInstanceAs (Decidable False)
  · exact inferInstanceAs (Decidable True)
  · exact inferInstanceAs (Decidable (_ ∧ _ ∧ _))
  · exact inferInstanceAs (Decidable (_ ≤ _))

/-- What the action is for. -/
def ledgerStep (qt : QtTexts) (ledger : Ledger Nat Str) : TableAction → Ledger Nat Str
  | .insertNewRow row => ledger.insert (newRowCells qt row)
  | .updateCol index value _ => ledger.update index.row.toNat index.column.toNat value
  | .removeRows position rows => ledger.remove position rows

/-- A valid index of the table is one of a row and a column. -/
theorem index_in_table {vectorList : VectorList} {index : QModelIndex}
    (hvalid : index.isValid = true)
    (hindex : modelIndex vectorList index.row index.column = index) :
    ∃ row column : Nat, index = ⟨row, column⟩ ∧ row < vectorList.length ∧ column < mnColCount := by
  rcases index with ⟨r, c⟩
  by_cases hin : 0 ≤ r ∧ r < rowCount vectorList ∧ 0 ≤ c ∧ c < columnCount
  · rcases hin with ⟨hr, hrow, hc, hcolumn⟩
    unfold rowCount at hrow
    unfold columnCount at hcolumn
    refine ⟨r.toNat, c.toNat, ?_, by omega, by omega⟩
    rw [Int.toNat_of_nonneg hr, Int.toNat_of_nonneg hc]
  · rw [modelIndex, if_neg hin] at hindex
    rw [← hindex] at hvalid
    exact absurd hvalid (by decide)

/-- The cells that a row of the history shows. -/
def shownCells (ledger : Ledger Nat Str) (row : Nat) : List (Option Str) :=
  (List.range mnColCount).map fun column => ledger.lastWritten row column

/-- The table shows the rows of the history, from the top, with the value last written to
each of their cells. -/
structure Shows (table : Except ModelFault VectorList) (ledger : Ledger Nat Str) : Prop where
  ordered : ledger.Ordered
  rows : ∃ vectorList, table = .ok vectorList ∧
    vectorList.map (fun cells => cells.map some) = ledger.live.map (shownCells ledger)

section Shows

variable {vectorList : VectorList} {ledger : Ledger Nat Str}

theorem newRowCells_columns (qt : QtTexts) (row : NewRow) :
    (newRowCells qt row).map Prod.fst = List.range mnColCount := rfl

/-- A row of the table and its row of the history. -/
theorem shown_row (h : vectorList.map (fun cells => cells.map some) =
    ledger.live.map (shownCells ledger)) {position : Nat} {cells : List Str}
    (hcells : vectorList[position]? = some cells) :
    ∃ row, ledger.live[position]? = some row ∧ cells.map some = shownCells ledger row := by
  have hget : (vectorList.map fun cells => cells.map some)[position]? =
      (ledger.live.map (shownCells ledger))[position]? := by rw [h]
  rw [List.getElem?_map, List.getElem?_map, hcells] at hget
  cases hrow : ledger.live[position]? with
  | none =>
    rw [hrow] at hget
    cases hget
  | some row =>
    rw [hrow] at hget
    exact ⟨row, rfl, Option.some.inj hget⟩

/-- A row of the table is complete, and each of its cells is the value last written. -/
theorem shown_cell {cells : List Str} {row column : Nat}
    (h : cells.map some = shownCells ledger row) (hcolumn : column < mnColCount) :
    ∃ text, cells[column]? = some text ∧ ledger.lastWritten row column = some text := by
  have hget : (cells.map some)[column]? = (shownCells ledger row)[column]? := by rw [h]
  rw [shownCells, List.getElem?_map, List.getElem?_map, List.getElem?_range hcolumn,
    Option.map_some] at hget
  cases htext : cells[column]? with
  | none =>
    rw [htext] at hget
    cases hget
  | some text =>
    rw [htext] at hget
    exact ⟨text, rfl, (Option.some.inj hget).symm⟩

theorem shown_length {cells : List Str} {row : Nat} (h : cells.map some = shownCells ledger row) :
    cells.length = mnColCount := by
  have hlen := congrArg List.length h
  rwa [List.length_map, shownCells, List.length_map, List.length_range] at hlen

/-- A new row shows what is written for it. -/
theorem shownCells_insert_self (qt : QtTexts) (row : NewRow) (ledger : Ledger Nat Str) :
    shownCells (ledger.insert (newRowCells qt row)) ledger.made =
      ((newRowCells qt row).map Prod.snd).map some := by
  have hnodup : ((newRowCells qt row).map Prod.fst).Nodup := by
    rw [newRowCells_columns]
    exact List.nodup_range
  rw [shownCells, ← newRowCells_columns qt row, List.map_map, List.map_map]
  refine List.map_congr_left ?_
  intro cell hcell
  exact Ledger.lastWritten_insert_self hnodup hcell

/-- The other rows show what they did. -/
theorem shownCells_insert (h : ledger.Ordered) (cells : List (Nat × Str)) :
    ledger.live.map (shownCells (ledger.insert cells)) = ledger.live.map (shownCells ledger) := by
  refine List.map_congr_left ?_
  intro row hrow
  refine List.map_congr_left ?_
  intro column _
  exact Ledger.lastWritten_insert (Nat.ne_of_lt (h.made row hrow)) cells

/-- An update shows in one cell of its row. -/
theorem shownCells_update_self {position target : Nat}
    (hlive : ledger.live[position]? = some target) (column : Nat) (value : Str) :
    shownCells (ledger.update position column value) target =
      (shownCells ledger target).set column (some value) := by
  refine List.ext_getElem? ?_
  intro i
  rw [List.getElem?_set, shownCells, shownCells, List.getElem?_map, List.getElem?_map,
    List.length_map, List.length_range]
  by_cases hi : i < mnColCount
  · rw [List.getElem?_range hi, Option.map_some, Option.map_some,
      Ledger.lastWritten_update hlive]
    by_cases hcolumn : column = i
    · rw [if_pos hcolumn, if_pos ⟨rfl, hcolumn.symm⟩, if_pos (hcolumn ▸ hi)]
    · rw [if_neg hcolumn, if_neg fun hc => hcolumn hc.2.symm]
  · -- there is no such column
    have hnone : (List.range mnColCount)[i]? = none :=
      List.getElem?_eq_none (by rw [List.length_range]; exact Nat.le_of_not_lt hi)
    rw [hnone, Option.map_none, Option.map_none]
    split
    · rw [if_neg (by omega)]
    · rfl

/-- An update shows in its row only. -/
theorem shownCells_update_ne {position target row : Nat}
    (hlive : ledger.live[position]? = some target) (hne : row ≠ target) (column : Nat)
    (value : Str) :
    shownCells (ledger.update position column value) row = shownCells ledger row := by
  refine List.map_congr_left ?_
  intro i _
  rw [Ledger.lastWritten_update hlive, if_neg fun hc => hne hc.1]

/-- A function that is changed at one element changes one element of the image. -/
theorem map_set_eq {α β : Type} {l : List α} (hnodup : l.Nodup) {position : Nat} {a : α}
    (ha : l[position]? = some a) {f g : α → β} (h : ∀ b, b ≠ a → g b = f b) :
    (l.map f).set position (g a) = l.map g := by
  refine List.ext_getElem? ?_
  intro i
  rw [List.getElem?_set, List.getElem?_map, List.getElem?_map, List.length_map]
  by_cases hi : position = i
  · subst hi
    have hlt : position < l.length := (List.getElem?_eq_some_iff.mp ha).1
    rw [if_pos rfl, if_pos hlt, ha, Option.map_some]
  · rw [if_neg hi]
    cases hb : l[i]? with
    | none => rfl
    | some b =>
      have hne : b ≠ a := by
        rintro rfl
        have hlt : position < l.length := (List.getElem?_eq_some_iff.mp ha).1
        exact hi ((List.getElem?_inj hlt hnodup).mp (ha.trans hb.symm))
      rw [Option.map_some, Option.map_some, h b hne]

/-- A step of the table is one of its history. -/
theorem shows_step (qt : QtTexts) (table : Except ModelFault VectorList)
    (ledger : Ledger Nat Str) (a : TableAction) (h : Shows table ledger) (ha : InRange table a) :
    Shows (tableStep qt table a) (ledgerStep qt ledger a) := by
  rcases h with ⟨hordered, vectorList, rfl, hrows⟩
  cases a with
  | insertNewRow row =>
    refine ⟨hordered.insert _, _, insertNewCells_eq qt vectorList row, ?_⟩
    change _ = (ledger.made :: ledger.live).map _
    rw [ledgerStep, List.map_cons, List.map_cons, shownCells_insert_self,
      shownCells_insert hordered, hrows]
  | updateCol index value col =>
    rcases ha with ⟨hvalid, hindex, rfl⟩
    rcases index_in_table hvalid hindex with ⟨row, column, rfl, hrow, hcolumn⟩
    have hcells := List.getElem?_eq_getElem hrow
    rcases shown_row hrows hcells with ⟨target, htarget, hshown⟩
    have hwidth : column < vectorList[row].length := by rwa [shown_length hshown]
    refine ⟨hordered.update _ _ _, vectorList.set row (vectorList[row].set column value), ?_, ?_⟩
    · rw [tableStep, ok_bind]
      dsimp only
      rw [updateCol_eq hcells hwidth, ok_bind]
      rfl
    · rw [List.map_set, hrows, List.map_set, hshown, ← shownCells_update_self htarget]
      rw [ledgerStep, Ledger.live_update, Int.toNat_natCast, Int.toNat_natCast]
      refine map_set_eq hordered.nodup htarget ?_
      intro r hne
      exact shownCells_update_ne htarget hne column value
  | removeRows position rows =>
    refine ⟨hordered.remove _ _, _, rfl, ?_⟩
    rw [removeRows_eq, List.map_append, List.map_take, List.map_drop, hrows]
    change _ = (ledger.live.take position ++ ledger.live.drop (position + rows)).map _
    rw [List.map_append, List.map_take, List.map_drop]
    rfl

end Shows

/-! ## Runs -/

/-- A run of the table is one of its history. -/
theorem shows_run (qt : QtTexts) (as : List TableAction) {table : Except ModelFault VectorList}
    {ledger : Ledger Nat Str} (h : Shows table ledger)
    (has : EachStep (tableStep qt) InRange table as) :
    Shows (as.foldl (tableStep qt) table) (as.foldl (ledgerStep qt) ledger) := by
  induction as generalizing table ledger with
  | nil => exact h
  | cons a as ih => exact ih (shows_step qt table ledger a h has.1) has.2

theorem shows_empty : Shows (.ok []) Ledger.empty := ⟨Ledger.ordered_empty, [], rfl, rfl⟩

/-- The rows of the table are complete records, the newest one on top: each cell has the
value last written for its row and column, and is shown. -/
structure ListsRecords (vectorList : VectorList) (ledger : Ledger Nat Str) : Prop where
  rows : vectorList.length = ledger.live.length
  newestFirst : ledger.live.Pairwise (· > ·)
  complete : ∀ cells ∈ vectorList, cells.length = mnColCount
  cells : ∀ position row column : Nat, ledger.live[position]? = some row → column < mnColCount →
    ∃ cells text, vectorList[position]? = some cells ∧ cells[column]? = some text ∧
      ledger.lastWritten row column = some text ∧
      data vectorList ⟨position, column⟩ .displayRole = .ok (some text)

theorem Shows.listsRecords {vectorList : VectorList} {ledger : Ledger Nat Str}
    (h : Shows (.ok vectorList) ledger) : ListsRecords vectorList ledger := by
  rcases h with ⟨hordered, _, ⟨⟩, hrows⟩
  have hlen : vectorList.length = ledger.live.length := by
    have hmap := congrArg List.length hrows
    rwa [List.length_map, List.length_map] at hmap
  refine ⟨hlen, hordered.descending, ?_, ?_⟩
  · intro cells hcells
    rcases List.mem_iff_getElem?.mp hcells with ⟨position, hposition⟩
    rcases shown_row hrows hposition with ⟨row, -, hshown⟩
    exact shown_length hshown
  · intro position row column hrow hcolumn
    have hlt : position < vectorList.length := hlen ▸ (List.getElem?_eq_some_iff.mp hrow).1
    have hcells := List.getElem?_eq_getElem hlt
    rcases shown_row hrows hcells with ⟨row', hrow', hshown⟩
    rw [hrow] at hrow'
    cases hrow'
    rcases shown_cell hshown hcolumn with ⟨text, htext, hwritten⟩
    exact ⟨_, text, hcells, htext, hwritten, data_cell hcells hcolumn htext⟩

/-- **The table is a list of complete records**, after any run from the empty table whose
updates and removals are in range. -/
theorem table_refines (qt : QtTexts) (as : List TableAction)
    (has : EachStep (tableStep qt) InRange (.ok []) as) :
    ∃ vectorList, as.foldl (tableStep qt) (.ok []) = .ok vectorList ∧
      ListsRecords vectorList (as.foldl (ledgerStep qt) Ledger.empty) := by
  have hshows := shows_run qt as shows_empty has
  rcases hshows.rows with ⟨vectorList, htable, -⟩
  rw [htable] at hshows
  exact ⟨vectorList, htable, hshows.listsRecords⟩

/-- Texts that show a name and a number as they are. -/
def plainTexts : QtTexts := ⟨id, fun value => toText value.num⟩

/-- A stopped download. -/
def sampleRow (uniqueId : Str) : NewRow where
  fileName := "a.iso".toList
  fileSize := 2048
  downloaded := 0
  progress := 0
  upSpeed := 0
  downSpeed := 0
  status := .stopped
  url := "http://h/a.iso".toList
  destination := sampleInfo.fileLoc
  uniqueId := uniqueId
  downloadType := .http

/-- Two rows, the older one is started and the newer one removed. -/
def sampleTable : List TableAction :=
  [.insertNewRow (sampleRow ['1']), .insertNewRow (sampleRow ['2']),
   .updateCol ⟨1, mnStatusCol⟩ "Downloading".toList mnStatusCol, .removeRows 0 1]

/-- The sample run meets what `table_refines` asks for. -/
theorem table_refines_sample :
    EachStep (tableStep plainTexts) InRange (.ok []) sampleTable ∧
      ∃ vectorList, sampleTable.foldl (tableStep plainTexts) (.ok []) = .ok vectorList ∧
        ListsRecords vectorList (sampleTable.foldl (ledgerStep plainTexts) Ledger.empty) :=
  have has : EachStep (tableStep plainTexts) InRange (.ok []) sampleTable := by decide +kernel
  ⟨has, table_refines plainTexts sampleTable has⟩

/-! ## A cell that is written again -/

/-- One cell of a complete table is assigned. -/
structure AssignsCell (before after : VectorList) (row column : Nat) (value : Str) : Prop where
  written : data after ⟨row, column⟩ .displayRole = .ok (some value)
  others : ∀ other : QModelIndex, other ≠ ⟨row, column⟩ →
    data after other .displayRole = data before other .displayRole
  complete : ∀ cells ∈ after, cells.length = mnColCount

/-- One cell is inserted: each cell behind it shows what the one before that did, and the
row is longer by a cell. -/
structure InsertsCell (before after : VectorList) (row column : Nat) (value : Str) : Prop where
  written : data after ⟨row, column⟩ .displayRole = .ok (some value)
  others : ∀ other : QModelIndex, other.row ≠ row ∨ other.column < column →
    data after other .displayRole = data before other .displayRole
  moved : ∀ behind : Nat, column ≤ behind → behind + 1 < mnColCount →
    data after ⟨row, (behind + 1 : Nat)⟩ .displayRole = data before ⟨row, behind⟩ .displayRole
  grown : after.map List.length = (before.map List.length).modify row (· + 1)

/-- **`setData` inserts a cell**, in any row that is filled up to the column. -/
theorem setData_inserts (vectorList : VectorList) (row column : Nat) (cells : List Str)
    (value : Str) (hrow : vectorList[row]? = some cells) (hcolumn : column < mnColCount)
    (hle : column ≤ cells.length) :
    ∃ after, setData vectorList ⟨row, column⟩ value .displayRole = .ok (true, after) ∧
      InsertsCell vectorList after row column value := by
  have hlt : row < vectorList.length := (List.getElem?_eq_some_iff.mp hrow).1
  have hafter : (vectorList.set row (cells.insertIdx column value))[row]? =
      some (cells.insertIdx column value) := List.getElem?_set_self hlt
  refine ⟨_, setData_eq hrow hcolumn hle value, ?_, ?_, ?_, ?_⟩
  · refine data_cell hafter hcolumn ?_
    rw [List.getElem?_insertIdx_self, if_pos hle]
  · intro other hother
    by_cases hin : ∃ r c : Nat, other = ⟨r, c⟩ ∧ r < vectorList.length ∧ c < mnColCount
    · rcases hin with ⟨r, c, rfl, hr, hc⟩
      by_cases hsame : row = r
      · -- the cells in front stay where they are
        subst hsame
        have hlower : c < column := by
          rcases hother with hne | hlower
          · exact absurd rfl hne
          · exact Int.ofNat_lt.mp hlower
        rw [data_nat hafter hc, data_nat hrow hc, List.getElem?_insertIdx_of_lt hlower]
      · have hcells := List.getElem?_eq_getElem hr
        have hkept := hcells
        rw [← List.getElem?_set_ne hsame] at hkept
        rw [data_nat hkept hc, data_nat hcells hc]
    · rw [data_outside hin, data_outside (by rwa [List.length_set])]
  · intro behind hbehind hlast
    rw [data_nat hafter hlast, data_nat hrow (Nat.lt_of_succ_lt hlast),
      List.getElem?_insertIdx_of_gt (Nat.lt_succ_of_le hbehind), Nat.succ_sub_one]
  · rw [List.map_set, List.length_insertIdx, if_pos hle, List.modify_eq_set_getElem?,
      List.getElem?_map, hrow]
    rfl

/-- The row in which each cell is the number of its column. -/
def numberedRow : List Str := (List.range mnColCount).map fun column => toText column

/-- The insertion, in a complete row. -/
theorem setData_inserts_numbered :
    ∃ after, setData [numberedRow] ⟨0, mnStatusCol⟩ "Paused".toList .displayRole =
        .ok (true, after) ∧
      InsertsCell [numberedRow] after 0 mnStatusCol "Paused".toList :=
  setData_inserts [numberedRow] 0 mnStatusCol numberedRow _ rfl (by decide) (by decide)

/-- A complete row does not stay one. -/
theorem setData_shifts :
    ¬ ∀ (vectorList after : VectorList) (row column : Nat) (value : Str),
      (∀ cells ∈ vectorList, cells.length = mnColCount) → row < vectorList.length →
      column < mnColCount →
      setData vectorList ⟨row, column⟩ value .displayRole = .ok (true, after) →
      AssignsCell vectorList after row column value := by
  intro h
  have hwidth : numberedRow.length = mnColCount := rfl
  have hset := @setData_eq [numberedRow] 0 0 numberedRow rfl (by decide) (Nat.zero_le _) []
  have hassigns := h [numberedRow] _ 0 0 [] (by simp [hwidth]) Nat.one_pos (by decide) hset
  exact absurd (hassigns.complete _ (List.mem_singleton_self _)) (by decide)

end FyreDL.Gui
