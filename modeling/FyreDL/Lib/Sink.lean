import Mathlib.Data.List.Infix

/-!
# FyreDL.Lib.Sink — a stream that writes to its end

A `Sink` has what it has written, and a flag that is down once a write has failed. It does
not write any more then.

* `put buffer fault` — a write of a buffer. A fault is the number of elements that still get
  through before it.
* `put_length_eq_iff` — no element of the buffer is lost exactly if the buffer is empty, or
  the stream is good and any fault comes behind the buffer.
-/

namespace FyreDL.Lib

variable {α : Type}

structure Sink (α : Type) where
  content : List α
  good : Bool
deriving DecidableEq, Repr

namespace Sink

/-- A buffer is written at the end. -/
def put (buffer : List α) (fault : Option Nat) (s : Sink α) : Sink α :=
  if s.good then
    match fault with
    | none => ⟨s.content ++ buffer, true⟩
    | some stored => ⟨s.content ++ buffer.take stored, false⟩
  else s

variable {s : Sink α} {buffer : List α} {fault : Option Nat}

/-- A stream that has failed stays as it is. -/
theorem put_bad (h : s.good = false) (buffer : List α) (fault : Option Nat) :
    s.put buffer fault = s := by
  unfold put
  rw [h, if_neg Bool.false_ne_true]

theorem put_none (h : s.good = true) (buffer : List α) :
    s.put buffer none = ⟨s.content ++ buffer, true⟩ := by
  rw [put, if_pos h]

theorem put_some (h : s.good = true) (buffer : List α) (stored : Nat) :
    s.put buffer (some stored) = ⟨s.content ++ buffer.take stored, false⟩ := by
  rw [put, if_pos h]

theorem put_length_le (s : Sink α) (buffer : List α) (fault : Option Nat) :
    (s.put buffer fault).content.length ≤ s.content.length + buffer.length := by
  cases hgood : s.good with
  | false =>
    rw [put_bad hgood]
    exact Nat.le_add_right _ _
  | true =>
    cases fault with
    | none => rw [put_none hgood, List.length_append]
    | some stored =>
      rw [put_some hgood, List.length_append, List.length_take]
      exact Nat.add_le_add_left (Nat.min_le_right _ _) _

/-- The stream takes the whole buffer. -/
def Takes (s : Sink α) (buffer : List α) (fault : Option Nat) : Prop :=
  buffer = [] ∨ (s.good = true ∧ ∀ stored ∈ fault, buffer.length ≤ stored)

/-- **Nothing is lost** exactly if the stream takes the whole buffer. -/
theorem put_length_eq_iff :
    (s.put buffer fault).content.length = s.content.length + buffer.length ↔
      s.Takes buffer fault := by
  have hempty : buffer.length = 0 ↔ buffer = [] := List.length_eq_zero_iff
  cases hgood : s.good with
  | false =>
    rw [put_bad hgood, Takes, hgood, ← hempty]
    constructor
    · intro h
      exact .inl (by omega)
    · rintro (h | ⟨h, -⟩)
      · omega
      · cases h
  | true =>
    cases fault with
    | none =>
      rw [put_none hgood, List.length_append]
      exact iff_of_true rfl (.inr ⟨hgood, nofun⟩)
    | some stored =>
      rw [put_some hgood, List.length_append, List.length_take, Takes, ← hempty, hgood]
      constructor
      · intro h
        refine .inr ⟨rfl, ?_⟩
        intro stored' h'
        cases h'
        omega
      · rintro (h | ⟨-, h⟩)
        · omega
        · have hle := h stored rfl
          omega

end Sink

end FyreDL.Lib
