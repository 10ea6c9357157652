import Mathlib.Data.List.Nodup

/-!
# FyreDL.Lib.Ledger — a table with the history of its cells

What a table of rows is for: each row has a number, in the order in which the rows were
made, and each cell of it shows the value that was last written for this row and column.

* A `Ledger` has the numbers of the rows in the table, from the top, and all values that
  were ever written, the last one first.
* New rows are put on top, hence the numbers stay in descending order (`Ledger.Ordered`).
* `lastWritten_insert`, `lastWritten_update` — what an operation changes of the values.
-/

namespace FyreDL.Lib

variable {C V : Type}

structure Ledger (C V : Type) where
  /-- the rows made so far -/
  made : Nat
  /-- the rows in the table, from the top -/
  live : List Nat
  writes : List ((Nat × C) × V)
deriving DecidableEq, Repr

namespace Ledger

/-- No row has been made. -/
def empty : Ledger C V := ⟨0, [], []⟩

/-- A new row on top, with its cells written in order. -/
def insert (cells : List (C × V)) (l : Ledger C V) : Ledger C V where
  made := l.made + 1
  live := l.made :: l.live
  writes := (cells.map fun cell => ((l.made, cell.1), cell.2)).reverse ++ l.writes

/-- A value written for the row at a position. -/
def update (position : Nat) (column : C) (value : V) (l : Ledger C V) : Ledger C V :=
  match l.live[position]? with
  | some row => { l with writes := ((row, column), value) :: l.writes }
  | none => l

/-- The rows from a position on taken away. -/
def remove (position rows : Nat) (l : Ledger C V) : Ledger C V :=
  { l with live := l.live.take position ++ l.live.drop (position + rows) }

/-! ## The rows -/

/-- The newest row is on top, and every row has been made. -/
structure Ordered (l : Ledger C V) : Prop where
  descending : l.live.Pairwise (· > ·)
  made : ∀ row ∈ l.live, row < l.made

theorem ordered_empty : (empty : Ledger C V).Ordered :=
  ⟨List.Pairwise.nil, fun _ h => absurd h List.not_mem_nil⟩

section Ordered

variable {l : Ledger C V}

theorem Ordered.nodup (h : l.Ordered) : l.live.Nodup :=
  h.descending.imp fun hgt => Nat.ne_of_gt hgt

theorem Ordered.insert (h : l.Ordered) (cells : List (C × V)) : (l.insert cells).Ordered where
  descending := List.pairwise_cons.mpr ⟨h.made, h.descending⟩
  made := by
    intro row hrow
    rcases List.mem_cons.mp hrow with rfl | hold
    · exact Nat.lt_succ_self _
    · exact Nat.lt_succ_of_lt (h.made row hold)

@[simp] theorem live_update (position : Nat) (column : C) (value : V) :
    (l.update position column value).live = l.live := by
  unfold Ledger.update
  split
  · rfl
  · rfl

@[simp] theorem made_update (position : Nat) (column : C) (value : V) :
    (l.update position column value).made = l.made := by
  unfold Ledger.update
  split
  · rfl
  · rfl

theorem Ordered.update (h : l.Ordered) (position : Nat) (column : C) (value : V) :
    (l.update position column value).Ordered where
  descending := by
    rw [live_update]
    exact h.descending
  made := by
    rw [live_update, made_update]
    exact h.made

theorem live_remove_sublist (l : Ledger C V) (position rows : Nat) :
    (l.remove position rows).live.Sublist l.live := by
  have hdrop : (l.live.drop (position + rows)).Sublist (l.live.drop position) := by
    rw [← List.drop_drop]
    exact List.drop_sublist rows _
  have happend := (List.Sublist.refl (l.live.take position)).append hdrop
  rwa [List.take_append_drop] at happend

theorem Ordered.remove (h : l.Ordered) (position rows : Nat) :
    (l.remove position rows).Ordered where
  descending := h.descending.sublist (live_remove_sublist l position rows)
  made := fun row hrow => h.made row ((live_remove_sublist l position rows).subset hrow)

end Ordered

/-! ## The values -/

section Values

variable [DecidableEq C]

/-- The value of a key that is bound once. -/
theorem lookup_of_mem {K : Type} [BEq K] [LawfulBEq K] {m : List (K × V)}
    (h : (m.map Prod.fst).Nodup) {k : K} {v : V} (hp : (k, v) ∈ m) :
    m.lookup k = some v := by
  rcases List.append_of_mem hp with ⟨before, after, rfl⟩
  rw [List.lookup_eq_some_iff]
  refine ⟨before, after, rfl, ?_⟩
  intro q hq
  -- a binding in front has another key
  rw [List.map_append, List.nodup_append] at h
  have hne : q.1 ≠ k := h.2.2 q.1 (List.mem_map_of_mem hq) k List.mem_cons_self
  exact bne_iff_ne.mpr hne.symm

/-- The value that was last written for a row and a column. -/
def lastWritten (l : Ledger C V) (row : Nat) (column : C) : Option V :=
  l.writes.lookup (row, column)

variable {l : Ledger C V} {row : Nat} {column : C}

theorem lookup_writes_of_ne {made : Nat} (h : row ≠ made) (cells : List (C × V)) :
    (cells.map fun cell => ((made, cell.1), cell.2)).reverse.lookup (row, column) = none := by
  rw [List.lookup_eq_none_iff]
  intro p hp
  rcases List.mem_map.mp (List.mem_reverse.mp hp) with ⟨cell, -, rfl⟩
  have hne : (row, column) ≠ (made, cell.1) := fun heq => h (congrArg Prod.fst heq)
  exact bne_iff_ne.mpr hne

/-- A new row leaves the values of the other rows. -/
theorem lastWritten_insert (h : row ≠ l.made) (cells : List (C × V)) :
    (l.insert cells).lastWritten row column = l.lastWritten row column := by
  rw [lastWritten, Ledger.insert, List.lookup_append, lookup_writes_of_ne h, Option.none_or]
  rfl

/-- The values of a new row whose columns are written once each. -/
theorem lastWritten_insert_self {cells : List (C × V)} (hnodup : (cells.map Prod.fst).Nodup)
    {cell : C × V} (hcell : cell ∈ cells) :
    (l.insert cells).lastWritten l.made cell.1 = some cell.2 := by
  rw [lastWritten, Ledger.insert, List.lookup_append]
  have hkeys : ((cells.map fun cell => ((l.made, cell.1), cell.2)).reverse.map Prod.fst).Nodup := by
    have hcolumns : (cells.map fun cell => ((l.made, cell.1), cell.2)).map Prod.fst =
        (cells.map Prod.fst).map fun column => (l.made, column) := by
      rw [List.map_map, List.map_map]
      rfl
    rw [List.map_reverse, List.nodup_reverse, hcolumns]
    exact hnodup.map fun _ _ heq => congrArg Prod.snd heq
  have hmem : ((l.made, cell.1), cell.2) ∈
      (cells.map fun cell => ((l.made, cell.1), cell.2)).reverse :=
    List.mem_reverse.mpr (List.mem_map.mpr ⟨cell, hcell, rfl⟩)
  rw [lookup_of_mem hkeys hmem, Option.some_or]

theorem lastWritten_update {position : Nat} {value : V} {target : Nat}
    (htarget : l.live[position]? = some target) {column' : C} :
    (l.update position column' value).lastWritten row column =
      if row = target ∧ column = column' then some value else l.lastWritten row column := by
  rw [lastWritten, Ledger.update, htarget]
  dsimp only
  rw [List.lookup_cons]
  by_cases h : row = target ∧ column = column'
  · rw [if_pos h, h.1, h.2, beq_self_eq_true]
  · have hne : ((row, column) == (target, column')) = false := by
      refine beq_false_of_ne fun heq => h ?_
      exact ⟨congrArg Prod.fst heq, congrArg Prod.snd heq⟩
    rw [if_neg h, hne]
    rfl

@[simp] theorem lastWritten_remove (position rows : Nat) :
    (l.remove position rows).lastWritten row column = l.lastWritten row column := rfl

end Values

end Ledger

end FyreDL.Lib
