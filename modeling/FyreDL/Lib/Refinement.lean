import FyreDL.Lib.Run

/-!
# FyreDL.Lib.Refinement — a machine behind another one

Two machines that answer the same calls: `impl` is what there is, `spec` what it is for.
`Refines spec impl Admits Rel` says that a call which the specification admits is answered by
both in the same way, and that related states lead to related states.

`Refines.run`: so it is for every sequence of admitted calls. The answers are the same, and the
states at the end are related.
-/

namespace FyreDL.Lib

variable {S H A R : Type}

/-- The state behind a call. -/
def behind (step : S → A → R × S) (s : S) (a : A) : S := (step s a).2

/-- The answers to a sequence of calls. -/
def answers (step : S → A → R × S) : S → List A → List R
  | _, [] => []
  | s, a :: as => (step s a).1 :: answers step (behind step s a) as

/-- One step of `impl` is one of `spec`. -/
structure Refines (spec : H → A → R × H) (impl : S → A → R × S) (Admits : H → A → Prop)
    (Rel : S → H → Prop) : Prop where
  answer : ∀ s h a, Rel s h → Admits h a → (impl s a).1 = (spec h a).1
  related : ∀ s h a, Rel s h → Admits h a → Rel (behind impl s a) (behind spec h a)

section Refines

variable {spec : H → A → R × H} {impl : S → A → R × S} {Admits : H → A → Prop}
  {Rel : S → H → Prop}

/-- **Runs.** The induction is on the calls, from any related states. -/
theorem Refines.run (hrefines : Refines spec impl Admits Rel) {s : S} {h : H} {as : List A}
    (hrel : Rel s h) (hadmits : EachStep (behind spec) Admits h as) :
    answers impl s as = answers spec h as ∧
      Rel (as.foldl (behind impl) s) (as.foldl (behind spec) h) := by
  induction as generalizing s h with
  | nil => exact ⟨rfl, hrel⟩
  | cons a as ih =>
    rcases hadmits with ⟨ha, has⟩
    have hanswer := hrefines.answer s h a hrel ha
    rcases ih (hrefines.related s h a hrel ha) has with ⟨hanswers, hend⟩
    refine ⟨?_, hend⟩
    rw [answers, answers, hanswer, hanswers]

end Refines

end FyreDL.Lib
