import Mathlib.Data.Nat.Basic
import Mathlib.Data.List.Basic
import Mathlib.Data.List.TakeWhile
import Mathlib.Data.Rat.Cast.Defs
import Mathlib.Algebra.Order.Field.Rat
import Mathlib.Tactic.FieldSimp
import Mathlib.Tactic.Ring

/-!
# FyreDL.Lib.Decimal — decimal texts of numbers

`toText` is what `std::to_string` writes for an integer, `ofText` what the
`std::atoi` family reads: leading white space, an optional sign and the longest
run of digits, everything behind it ignored, `0` when no digit is found. The
range of the C types is not part of these functions; a reader whose type is too
narrow for the text has undefined behaviour in C.

`ofText_toText` is the round trip, `ofText_toText_append` the version a
fractional tail needs.

`toFixed6` and `ofDecimal` are `std::to_string` and `std::stod` of a floating-point
number, on rationals: plain decimal notation, without exponents, infinities and the
rounding to the nearest `double`. A whole number survives the two
(`ofDecimal_toFixed6`).
-/

namespace FyreDL.Lib

/-- `std::to_string` of an integer. -/
def toText (n : Int) : List Char :=
  if n < 0 then '-' :: Nat.toDigits 10 n.natAbs else Nat.toDigits 10 n.natAbs

/-- `std::isspace` in the C locale: the blank, and tab to carriage return. -/
def isSpace (c : Char) : Bool := c = ' ' || (9 ≤ c.toNat && c.toNat ≤ 13)

/-- The digits at the head of a text, as a number. -/
def digitsValue (s : List Char) : Nat :=
  Nat.ofDigitChars 10 (s.takeWhile Char.isDigit) 0

/-- `std::atoi`, `std::atol` and `std::atoll`. -/
def ofText (s : List Char) : Int :=
  match s.dropWhile isSpace with
  | '-' :: rest => -(digitsValue rest : Int)
  | '+' :: rest => digitsValue rest
  | rest => digitsValue rest

theorem isDigit_of_mem_toDigits {n : Nat} {c : Char} (h : c ∈ Nat.toDigits 10 n) :
    c.isDigit = true :=
  Nat.isDigit_of_mem_toDigits (by omega) (by omega) h

/-- The digits of a number, read back in front of a text that starts with none. -/
theorem digitsValue_toDigits_append (n : Nat) {rest : List Char}
    (h : ∀ c ∈ rest.head?, c.isDigit = false) :
    digitsValue (Nat.toDigits 10 n ++ rest) = n := by
  have htake : (Nat.toDigits 10 n ++ rest).takeWhile Char.isDigit = Nat.toDigits 10 n := by
    rw [List.takeWhile_append_of_pos (fun c hc => isDigit_of_mem_toDigits hc)]
    cases rest with
    | nil => simp
    | cons c cs => simp [h c (by simp)]
  rw [digitsValue, htake, Nat.ofDigitChars_ten_toDigits]

/-- No decimal text starts with a blank or, without a sign, with a sign. -/
theorem toDigits_eq_cons (n : Nat) :
    ∃ c cs, Nat.toDigits 10 n = c :: cs ∧ c.isDigit = true := by
  cases h : Nat.toDigits 10 n with
  | nil => exact absurd h Nat.toDigits_ne_nil
  | cons c cs => exact ⟨c, cs, rfl, isDigit_of_mem_toDigits (h ▸ List.mem_cons_self)⟩

theorem isSpace_of_isDigit {c : Char} (h : c.isDigit = true) : isSpace c = false := by
  have hlo : 48 ≤ c.toNat := by
    simp only [Char.isDigit, Bool.and_eq_true, decide_eq_true_eq] at h
    exact UInt32.le_iff_toNat_le.mp h.1
  simp only [isSpace, Bool.or_eq_false_iff, Bool.and_eq_false_iff, decide_eq_false_iff_not]
  refine ⟨?_, Or.inr (by omega)⟩
  rintro rfl
  exact absurd hlo (by decide)

theorem ofText_toText_append (n : Int) {rest : List Char}
    (h : ∀ c ∈ rest.head?, c.isDigit = false) : ofText (toText n ++ rest) = n := by
  obtain ⟨c, cs, hcs, hc⟩ := toDigits_eq_cons n.natAbs
  have hval := digitsValue_toDigits_append n.natAbs h
  -- a sign in front, or the digits at once
  by_cases hn : n < 0
  · have hmin : isSpace '-' = false := by decide
    simp only [toText, if_pos hn, ofText, List.cons_append, List.dropWhile_cons, hmin,
      Bool.false_eq_true, if_false, hval]
    omega
  · have hw : isSpace c = false := isSpace_of_isDigit hc
    rw [hcs, List.cons_append] at hval
    have hm : c ≠ '-' := by rintro rfl; exact absurd hc (by decide)
    have hp : c ≠ '+' := by rintro rfl; exact absurd hc (by decide)
    simp only [toText, if_neg hn, ofText, hcs, List.cons_append, List.dropWhile_cons, hw,
      Bool.false_eq_true, if_false]
    -- the first digit is none of the signs
    split
    · exact absurd (List.cons.inj ‹_›).1 hm
    · exact absurd (List.cons.inj ‹_›).1 hp
    · rw [hval]
      omega

/-- Round trip: `std::atoi(std::to_string(n))` is `n`. -/
@[simp] theorem ofText_toText (n : Int) : ofText (toText n) = n := by
  simpa using @ofText_toText_append n [] (by simp)

theorem toText_ne_nil (n : Int) : toText n ≠ [] := by
  unfold toText
  split
  · exact List.cons_ne_nil _ _
  · exact Nat.toDigits_ne_nil

/-- The characters of a decimal text: a sign or digits. -/
theorem mem_toText {n : Int} {c : Char} (h : c ∈ toText n) : c = '-' ∨ c.isDigit = true := by
  unfold toText at h
  split at h
  · rcases List.mem_cons.mp h with rfl | hd
    · exact Or.inl rfl
    · exact Or.inr (isDigit_of_mem_toDigits hd)
  · exact Or.inr (isDigit_of_mem_toDigits h)

theorem not_mem_toText {n : Int} {c : Char} (hm : c ≠ '-') (hd : c.isDigit = false) :
    c ∉ toText n := by
  intro h
  rcases mem_toText h with rfl | hdig
  · exact hm rfl
  · rw [hd] at hdig
    exact Bool.false_ne_true hdig

/-- Different numbers have different decimal texts. -/
theorem toText_injective : Function.Injective toText := by
  intro a b h
  rw [← ofText_toText a, h, ofText_toText]

/-! ## Fractions -/

/-- A non-negative ratio, rounded to the nearest whole number and halves to even. -/
def roundRatio (a b : Nat) : Nat :=
  if 2 * (a % b) < b then a / b
  else if b < 2 * (a % b) then a / b + 1
  else a / b + a / b % 2

/-- Six digits behind a decimal point. -/
def sixDigits (n : Nat) : List Char :=
  List.replicate (6 - (Nat.toDigits 10 n).length) '0' ++ Nat.toDigits 10 n

/-- `std::to_string` of a floating-point number. -/
def toFixed6 (q : ℚ) : List Char :=
  let millionths := roundRatio (q.num.natAbs * 10 ^ 6) q.den
  (if q.num < 0 then ['-'] else []) ++ Nat.toDigits 10 (millionths / 10 ^ 6) ++
    '.' :: sixDigits (millionths % 10 ^ 6)

/-- An unsigned decimal number at the head of a text. -/
def unsignedDecimal (s : List Char) : Option ℚ :=
  let whole := s.takeWhile Char.isDigit
  let fraction := match s.dropWhile Char.isDigit with
    | '.' :: rest => rest.takeWhile Char.isDigit
    | _ => []
  if whole = [] ∧ fraction = [] then none
  else some (Nat.ofDigitChars 10 (whole ++ fraction) 0 / 10 ^ fraction.length)

/-- `std::stod`; `none` is `std::invalid_argument`. -/
def ofDecimal (s : List Char) : Option ℚ :=
  match s.dropWhile isSpace with
  | '-' :: rest => (unsignedDecimal rest).map fun q => -q
  | '+' :: rest => unsignedDecimal rest
  | rest => unsignedDecimal rest

theorem unsignedDecimal_whole (n : Nat) :
    unsignedDecimal (Nat.toDigits 10 n ++ '.' :: sixDigits 0) = some (n : ℚ) := by
  have hsix : sixDigits 0 = List.replicate 6 '0' := by decide
  -- the point ends the digits of the whole part
  have hwhole : (Nat.toDigits 10 n ++ '.' :: sixDigits 0).takeWhile Char.isDigit =
      Nat.toDigits 10 n := by
    rw [List.takeWhile_append_of_pos (fun c hc => isDigit_of_mem_toDigits hc),
      List.takeWhile_cons_of_neg (by decide), List.append_nil]
  have hrest : (Nat.toDigits 10 n ++ '.' :: sixDigits 0).dropWhile Char.isDigit =
      '.' :: sixDigits 0 := by
    rw [List.dropWhile_append_of_pos (fun c hc => isDigit_of_mem_toDigits hc),
      List.dropWhile_cons_of_neg (by decide)]
  have hfraction : (sixDigits 0).takeWhile Char.isDigit = List.replicate 6 '0' := by decide
  unfold unsignedDecimal
  simp only [hwhole, hrest, hfraction]
  rw [if_neg fun h => Nat.toDigits_ne_nil h.1, Nat.ofDigitChars_append,
    Nat.ofDigitChars_ten_toDigits, Nat.ofDigitChars_replicate_zero, List.length_replicate]
  congr 1
  push_cast
  field_simp
  ring

/-- Round trip: `std::stod(std::to_string(x))` is `x` when `x` is a whole number. -/
theorem ofDecimal_toFixed6 (n : Int) : ofDecimal (toFixed6 n) = some (n : ℚ) := by
  -- a whole number needs no rounding
  have hround : roundRatio (n.natAbs * 10 ^ 6) 1 = n.natAbs * 10 ^ 6 := by
    unfold roundRatio
    rw [Nat.mod_one, Nat.div_one, if_pos (by omega)]
  have htext : toFixed6 n = (if n < 0 then ['-'] else []) ++
      (Nat.toDigits 10 n.natAbs ++ '.' :: sixDigits 0) := by
    unfold toFixed6
    simp only [Rat.num_intCast, Rat.den_intCast, hround]
    rw [Nat.mul_div_cancel _ (by omega), Nat.mul_mod_left, List.append_assoc]
    rfl
  obtain ⟨c, cs, hcs, hc⟩ := toDigits_eq_cons n.natAbs
  have hval := unsignedDecimal_whole n.natAbs
  rw [htext]
  by_cases hn : n < 0
  · have hmin : isSpace '-' = false := by decide
    simp only [if_pos hn, ofDecimal, List.singleton_append, List.dropWhile_cons, hmin,
      Bool.false_eq_true, if_false, hval, Option.map_some]
    rw [show n = -(n.natAbs : Int) by omega]
    simp
  · have hw : isSpace c = false := isSpace_of_isDigit hc
    rw [hcs, List.cons_append] at hval
    have hm : c ≠ '-' := by rintro rfl; exact absurd hc (by decide)
    have hp : c ≠ '+' := by rintro rfl; exact absurd hc (by decide)
    simp only [if_neg hn, ofDecimal, hcs, List.nil_append, List.cons_append,
      List.dropWhile_cons, hw, Bool.false_eq_true, if_false]
    -- the first digit is none of the signs
    split
    · exact absurd (List.cons.inj ‹_›).1 hm
    · exact absurd (List.cons.inj ‹_›).1 hp
    · rw [hval, show (n : ℚ) = ((n.natAbs : Int) : ℚ) by rw [show (n.natAbs : Int) = n by omega]]
      simp

end FyreDL.Lib
