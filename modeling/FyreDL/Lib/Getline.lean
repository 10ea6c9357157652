import Mathlib.Data.List.Basic
import Mathlib.Data.List.Flatten

/-!
# FyreDL.Lib.Getline — delimiter-terminated pieces of a text

`std::getline` extracts characters up to a delimiter, drops the delimiter, and
fails once nothing is left to extract. The loop `while (getline(in, p, d))`
therefore reads a text as a list of pieces in which the last delimiter is
optional: `"a,b"` and `"a,b,"` read alike, and the empty text has no piece.

* `getline` is one extraction, `getlines` the whole loop; `getlines_eq` ties the
  two together.
* `getlines_terminated` and `getlines_joined` are the two decoding rules: pieces
  free of the delimiter, each followed by it or only separated by it, read back
  as they were written.
-/

namespace FyreDL.Lib

variable {α : Type}

/-! ## Writing pieces -/

/-- Pieces written one after the other, each closed by the delimiter. -/
def terminated (d : α) (pieces : List (List α)) : List α :=
  pieces.flatMap fun piece => piece ++ [d]

@[simp] theorem terminated_nil (d : α) : terminated d [] = [] := rfl

@[simp] theorem terminated_cons (d : α) (piece : List α) (pieces : List (List α)) :
    terminated d (piece :: pieces) = piece ++ d :: terminated d pieces := by
  simp [terminated]

/-- Pieces separated, but not closed, by the delimiter. -/
def joined (d : α) : List (List α) → List α
  | [] => []
  | [piece] => piece
  | piece :: pieces => piece ++ d :: joined d pieces

@[simp] theorem joined_nil (d : α) : joined d [] = [] := rfl

@[simp] theorem joined_single (d : α) (piece : List α) : joined d [piece] = piece := rfl

@[simp] theorem joined_cons_cons (d : α) (p q : List α) (ps : List (List α)) :
    joined d (p :: q :: ps) = p ++ d :: joined d (q :: ps) := rfl

/-- A character other than the delimiter occurs in a joined text only inside a
piece. -/
theorem mem_joined {d c : α} {pieces : List (List α)} (h : c ∈ joined d pieces) :
    c = d ∨ ∃ piece ∈ pieces, c ∈ piece := by
  induction pieces with
  | nil => simp at h
  | cons p ps ih =>
    cases ps with
    | nil => exact Or.inr ⟨p, List.mem_cons_self, h⟩
    | cons q qs =>
      rw [joined_cons_cons, List.mem_append, List.mem_cons] at h
      rcases h with hp | hd | hrest
      · exact Or.inr ⟨p, List.mem_cons_self, hp⟩
      · exact Or.inl hd
      · rcases ih hrest with hd | ⟨piece, hm, hc⟩
        · exact Or.inl hd
        · exact Or.inr ⟨piece, List.mem_cons_of_mem _ hm, hc⟩

/-- A delimiter in front of a piece without one marks where the piece starts. -/
theorem eq_of_append_delim {d : α} {xs ys p q : List α} (hp : d ∉ p) (hq : d ∉ q)
    (h : xs ++ d :: p = ys ++ d :: q) : xs = ys ∧ p = q := by
  rcases List.append_eq_append_iff.mp h with ⟨as, hys, htail⟩ | ⟨as, hxs, htail⟩
  · cases as with
    | nil =>
      have hpq : p = q := by simpa using htail
      exact ⟨by rw [hys, List.append_nil], hpq⟩
    | cons c cs =>
      have hmem : p = cs ++ d :: q := (List.cons.inj htail).2
      exact absurd (hmem ▸ by simp) hp
  · cases as with
    | nil =>
      have hpq : p = q := by simpa using htail.symm
      exact ⟨by rw [hxs, List.append_nil], hpq⟩
    | cons c cs =>
      have hmem : q = cs ++ d :: p := (List.cons.inj htail).2
      exact absurd (hmem ▸ by simp) hq

/-! ## Reading pieces -/

variable [DecidableEq α]

/-- One extraction: the piece before the first `d` and what is left behind it.
`none` when the stream is already at its end. -/
def getline (d : α) : List α → Option (List α × List α)
  | [] => none
  | c :: cs =>
    if c = d then some ([], cs)
    else match getline d cs with
      | none => some ([c], [])
      | some (piece, rest) => some (c :: piece, rest)

/-- All pieces that the loop `while (getline(in, piece, d))` reads. -/
def getlines (d : α) : List α → List (List α)
  | [] => []
  | c :: cs =>
    if c = d then [] :: getlines d cs
    else match getlines d cs with
      | [] => [[c]]
      | piece :: pieces => (c :: piece) :: pieces

/-- `getlines` is the iteration of `getline`. -/
theorem getlines_eq (d : α) (s : List α) :
    getlines d s =
      match getline d s with
      | none => []
      | some (piece, rest) => piece :: getlines d rest := by
  induction s with
  | nil => rfl
  | cons c cs ih =>
    by_cases hc : c = d
    · simp [getlines, getline, hc]
    · rw [getlines, getline, if_neg hc, if_neg hc, ih]
      cases getline d cs with
      | none => simp [getlines]
      | some pr => rfl

@[simp] theorem getlines_nil (d : α) : getlines d ([] : List α) = [] := rfl

/-- A delimiter ends the piece in front of it. -/
theorem getlines_append_delim {d : α} {piece : List α} (h : d ∉ piece) (rest : List α) :
    getlines d (piece ++ d :: rest) = piece :: getlines d rest := by
  induction piece with
  | nil => simp [getlines]
  | cons c cs ih =>
    have hc : c ≠ d := fun e => h (e ▸ List.mem_cons_self)
    have hcs : d ∉ cs := fun hm => h (List.mem_cons_of_mem _ hm)
    rw [List.cons_append, getlines, if_neg hc, ih hcs]

/-- A last piece without a delimiter behind it is read as well. -/
theorem getlines_single {d : α} {piece : List α} (h : d ∉ piece) (hne : piece ≠ []) :
    getlines d piece = [piece] := by
  induction piece with
  | nil => exact absurd rfl hne
  | cons c cs ih =>
    have hc : c ≠ d := fun e => h (e ▸ List.mem_cons_self)
    have hcs : d ∉ cs := fun hm => h (List.mem_cons_of_mem _ hm)
    rw [getlines, if_neg hc]
    cases cs with
    | nil => rfl
    | cons x xs => rw [ih hcs (List.cons_ne_nil x xs)]

/-- Closed pieces read back as they were written, also in front of further text. -/
theorem getlines_terminated_append {d : α} {pieces : List (List α)}
    (h : ∀ piece ∈ pieces, d ∉ piece) (rest : List α) :
    getlines d (terminated d pieces ++ rest) = pieces ++ getlines d rest := by
  induction pieces with
  | nil => rfl
  | cons piece pieces ih =>
    have hp : d ∉ piece := h piece List.mem_cons_self
    have hps : ∀ q ∈ pieces, d ∉ q := fun q hq => h q (List.mem_cons_of_mem _ hq)
    rw [terminated_cons, List.append_assoc, List.cons_append,
      getlines_append_delim hp, ih hps, List.cons_append]

theorem getlines_terminated {d : α} {pieces : List (List α)}
    (h : ∀ piece ∈ pieces, d ∉ piece) :
    getlines d (terminated d pieces) = pieces := by
  simpa using getlines_terminated_append h []

/-- Separated pieces read back as they were written, when the last one is not
empty: an empty last piece is not seen by `std::getline`. -/
theorem getlines_joined {d : α} {pieces : List (List α)}
    (h : ∀ piece ∈ pieces, d ∉ piece) (hlast : ∀ piece ∈ pieces.getLast?, piece ≠ []) :
    getlines d (joined d pieces) = pieces := by
  induction pieces with
  | nil => rfl
  | cons p ps ih =>
    have hp : d ∉ p := h p List.mem_cons_self
    cases ps with
    | nil => exact getlines_single hp (hlast p (by simp))
    | cons q qs =>
      have hrest : ∀ piece ∈ q :: qs, d ∉ piece :=
        fun piece hm => h piece (List.mem_cons_of_mem _ hm)
      rw [joined_cons_cons, getlines_append_delim hp,
        ih hrest (by simpa [List.getLast?_cons_cons] using hlast)]

/-- There are no more pieces than characters. -/
theorem length_getlines_le (d : α) (s : List α) : (getlines d s).length ≤ s.length := by
  induction s with
  | nil => exact Nat.le_refl _
  | cons c cs ih =>
    rw [getlines, List.length_cons]
    split
    · rw [List.length_cons]
      exact Nat.succ_le_succ ih
    · cases hcs : getlines d cs with
      | nil => exact Nat.succ_le_succ (Nat.zero_le _)
      | cons p ps =>
        rw [hcs] at ih
        exact Nat.le_succ_of_le ih

/-- A character other than the delimiter is in one of the pieces. -/
theorem exists_mem_getlines {d c : α} {s : List α} (hc : c ∈ s) (hne : c ≠ d) :
    ∃ piece ∈ getlines d s, c ∈ piece := by
  induction s with
  | nil => exact absurd hc List.not_mem_nil
  | cons x xs ih =>
    rw [getlines]
    split
    · rename_i hx
      rcases List.mem_cons.mp hc with rfl | hin
      · exact absurd hx hne
      · rcases ih hin with ⟨piece, hpiece, hmem⟩
        exact ⟨piece, List.mem_cons_of_mem _ hpiece, hmem⟩
    · cases hxs : getlines d xs with
      | nil =>
        rw [hxs] at ih
        rcases List.mem_cons.mp hc with rfl | hin
        · exact ⟨[c], List.mem_singleton_self _, List.mem_singleton_self _⟩
        · rcases ih hin with ⟨piece, hpiece, -⟩
          exact absurd hpiece List.not_mem_nil
      | cons p ps =>
        -- `x` is put in front of the first piece
        rw [hxs] at ih
        rcases List.mem_cons.mp hc with rfl | hin
        · exact ⟨c :: p, List.mem_cons_self, List.mem_cons_self⟩
        · rcases ih hin with ⟨piece, hpiece, hmem⟩
          rcases List.mem_cons.mp hpiece with rfl | hlater
          · exact ⟨x :: piece, List.mem_cons_self, List.mem_cons_of_mem _ hmem⟩
          · exact ⟨piece, List.mem_cons_of_mem _ hlater, hmem⟩

/-- No piece has a delimiter in it, whatever the text. -/
theorem not_mem_of_mem_getlines {d : α} {s piece : List α} (h : piece ∈ getlines d s) :
    d ∉ piece := by
  induction s generalizing piece with
  | nil => exact absurd h List.not_mem_nil
  | cons c cs ih =>
    rw [getlines] at h
    split at h
    · rcases List.mem_cons.mp h with rfl | hrest
      · exact List.not_mem_nil
      · exact ih hrest
    · rename_i hc
      -- `c` is no delimiter, and goes to the first piece of the rest
      have hfirst : ∀ q : List α, d ∉ q → d ∉ c :: q := by
        intro q hq hmem
        rcases List.mem_cons.mp hmem with rfl | hin
        · exact hc rfl
        · exact hq hin
      cases hcs : getlines d cs with
      | nil =>
        rw [hcs, List.mem_singleton] at h
        exact h ▸ hfirst [] List.not_mem_nil
      | cons p ps =>
        rw [hcs] at h ih
        rcases List.mem_cons.mp h with rfl | hrest
        · exact hfirst p (ih List.mem_cons_self)
        · exact ih (List.mem_cons_of_mem _ hrest)

/-- A piece is made of characters of the text. -/
theorem mem_of_mem_getlines {d : α} {s piece : List α} (h : piece ∈ getlines d s) {c : α}
    (hc : c ∈ piece) : c ∈ s := by
  induction s generalizing piece with
  | nil => exact absurd h List.not_mem_nil
  | cons x xs ih =>
    rw [getlines] at h
    split at h
    · rcases List.mem_cons.mp h with rfl | hrest
      · exact absurd hc List.not_mem_nil
      · exact List.mem_cons_of_mem _ (ih hrest hc)
    · cases hxs : getlines d xs with
      | nil =>
        rw [hxs, List.mem_singleton] at h
        rw [h, List.mem_singleton] at hc
        exact hc ▸ List.mem_cons_self
      | cons p ps =>
        rw [hxs] at h ih
        rcases List.mem_cons.mp h with rfl | hrest
        · rcases List.mem_cons.mp hc with rfl | hin
          · exact List.mem_cons_self
          · exact List.mem_cons_of_mem _ (ih List.mem_cons_self hin)
        · exact List.mem_cons_of_mem _ (ih (List.mem_cons_of_mem _ hrest) hc)

end FyreDL.Lib
