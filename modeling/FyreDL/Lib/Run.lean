import Mathlib.Algebra.GroupWithZero.Nat
import Mathlib.Data.List.Infix

/-!
# FyreDL.Lib.Run — runs of a machine

A machine is a step function `step : S → A → S`; whatever its environment chooses is
part of the action. A run is a list of actions, and `as.foldl step s` the state after it.

* `EachStep step P s as`: `P` holds of every action of the run, in the state in which it
  is taken. `EachState step Q s as`: `Q` holds of every state of the run.
* `run_invariant` — what every step of the run keeps holds at its end, and in each of its
  states (`eachState_of_invariant`).
* `eachState_iff_eachStep` — when, from a state with `Q`, a step leads to a state with
  `Q` exactly if the step satisfies `P`, then all states of a run have `Q` exactly if all
  its steps satisfy `P`.
* `size_run_eq_iff` — what grows by a share of its due at each step has grown by all that is
  due exactly if it has at each step.
-/

namespace FyreDL.Lib

variable {S A : Type} {step : S → A → S}

/-- Every action of the run satisfies `P` where it is taken. -/
def EachStep (step : S → A → S) (P : S → A → Prop) : S → List A → Prop
  | _, [] => True
  | s, a :: as => P s a ∧ EachStep step P (step s a) as

/-- Every state of the run satisfies `Q`. -/
def EachState (step : S → A → S) (Q : S → Prop) : S → List A → Prop
  | s, [] => Q s
  | s, a :: as => Q s ∧ EachState step Q (step s a) as

instance EachStep.decidable (P : S → A → Prop) [∀ s a, Decidable (P s a)] :
    ∀ s as, Decidable (EachStep step P s as)
  | _, [] => inferInstanceAs (Decidable True)
  | s, a :: as =>
    have := EachStep.decidable P (step s a) as
    inferInstanceAs (Decidable (P s a ∧ EachStep step P (step s a) as))

theorem eachStep_append {P : S → A → Prop} {s : S} {as bs : List A} :
    EachStep step P s (as ++ bs) ↔
      EachStep step P s as ∧ EachStep step P (as.foldl step s) bs := by
  induction as generalizing s with
  | nil =>
    constructor
    · intro h
      exact ⟨trivial, h⟩
    · intro h
      exact h.2
  | cons a as ih =>
    rw [List.cons_append, List.foldl_cons, EachStep, EachStep, ih]
    exact and_assoc.symm

/-- All states of a run are the states after its prefixes. -/
theorem eachState_iff_prefix {Q : S → Prop} {s : S} {as : List A} :
    EachState step Q s as ↔ ∀ pre, pre <+: as → Q (pre.foldl step s) := by
  induction as generalizing s with
  | nil =>
    constructor
    · intro h pre hpre
      rw [List.prefix_nil.mp hpre]
      exact h
    · intro h
      exact h [] (List.prefix_refl [])
  | cons a as ih =>
    rw [EachState, ih]
    constructor
    · rintro ⟨hs, hrest⟩ pre hpre
      -- a prefix is empty, or starts with the first step
      rcases List.prefix_cons_iff.mp hpre with rfl | ⟨pre', rfl, hpre'⟩
      · exact hs
      · exact hrest pre' hpre'
    · intro h
      constructor
      · exact h [] (List.nil_prefix)
      · intro pre hpre
        exact h (a :: pre) (List.cons_prefix_cons.mpr ⟨rfl, hpre⟩)

theorem eachStep_true (s : S) (as : List A) : EachStep step (fun _ _ => True) s as := by
  induction as generalizing s with
  | nil => trivial
  | cons a as ih => exact ⟨trivial, ih (step s a)⟩

/-- An invariant of all steps. -/
theorem run_invariant {Inv : S → Prop} {P : S → A → Prop}
    (hstep : ∀ s a, Inv s → P s a → Inv (step s a)) {s : S} {as : List A} (h : Inv s)
    (hsteps : EachStep step P s as) : Inv (as.foldl step s) := by
  induction as generalizing s with
  | nil => exact h
  | cons a as ih => exact ih (hstep s a h hsteps.1) hsteps.2

/-- An invariant that asks nothing of the steps. -/
theorem run_invariant_always {Inv : S → Prop} (hstep : ∀ s a, Inv s → Inv (step s a)) {s : S}
    (h : Inv s) (as : List A) : Inv (as.foldl step s) :=
  run_invariant (fun s a hs _ => hstep s a hs) h (eachStep_true s as)

/-- Steps that do not change the state are a run that does not. -/
theorem run_fixed {s : S} {as : List A} (h : ∀ a ∈ as, step s a = s) : as.foldl step s = s := by
  induction as with
  | nil => rfl
  | cons a as ih =>
    rw [List.foldl_cons, h a List.mem_cons_self]
    exact ih fun b hb => h b (List.mem_cons_of_mem _ hb)

/-- Two conditions that are met by every action of the run. -/
theorem EachStep.and {P P' : S → A → Prop} {s : S} {as : List A} (h : EachStep step P s as)
    (h' : EachStep step P' s as) : EachStep step (fun s a => P s a ∧ P' s a) s as := by
  induction as generalizing s with
  | nil => trivial
  | cons a as ih => exact ⟨⟨h.1, h'.1⟩, ih h.2 h'.2⟩

theorem eachStep_congr {P P' : S → A → Prop} (h : ∀ s a, P s a ↔ P' s a) (s : S) (as : List A) :
    EachStep step P s as ↔ EachStep step P' s as := by
  induction as generalizing s with
  | nil => exact Iff.rfl
  | cons a as ih => exact and_congr (h s a) (ih (step s a))

/-- What an invariant of the steps that satisfy `P` gives is true in every state of a run
of such steps. -/
theorem eachState_of_invariant {Inv Q : S → Prop} {P : S → A → Prop}
    (hstep : ∀ s a, Inv s → P s a → Inv (step s a)) (hQ : ∀ s, Inv s → Q s) {s : S}
    {as : List A} (h : Inv s) (hsteps : EachStep step P s as) : EachState step Q s as := by
  induction as generalizing s with
  | nil => exact hQ s h
  | cons a as ih => exact ⟨hQ s h, ih (hstep s a h hsteps.1) hsteps.2⟩

/-- A condition that an invariant gives is met by every action of the run. -/
theorem eachStep_of_invariant {Inv : S → Prop} {P D : S → A → Prop}
    (hstep : ∀ s a, Inv s → P s a → Inv (step s a)) (hD : ∀ s a, Inv s → P s a → D s a) {s : S}
    {as : List A} (h : Inv s) (hsteps : EachStep step P s as) : EachStep step D s as := by
  induction as generalizing s with
  | nil => trivial
  | cons a as ih =>
    exact ⟨hD s a h hsteps.1, ih (hstep s a h hsteps.1) hsteps.2⟩

/-- **Exact conditions.** A property that an admitted step keeps exactly under a condition is
kept by a whole run of admitted steps exactly if each of them meets the condition. The invariant
under which this is so may depend on the property and the condition. -/
theorem eachState_iff_eachStep_where {Inv Q : S → Prop} {R P : S → A → Prop}
    (hinv : ∀ s a, Inv s → Q s → R s a → P s a → Inv (step s a))
    (hstep : ∀ s a, Inv s → Q s → R s a → (Q (step s a) ↔ P s a)) {s : S} (h : Inv s) (hQ : Q s)
    {as : List A} (hR : EachStep step R s as) :
    EachState step Q s as ↔ EachStep step P s as := by
  induction as generalizing s with
  | nil =>
    constructor
    · intro _
      trivial
    · intro _
      exact hQ
  | cons a as ih =>
    rcases hR with ⟨hRa, hRas⟩
    constructor
    · rintro ⟨-, hrest⟩
      -- the state behind the first step is the first one of the rest
      have hQ' : Q (step s a) := by
        cases as with
        | nil => exact hrest
        | cons b bs => exact hrest.1
      have hP : P s a := (hstep s a h hQ hRa).mp hQ'
      exact ⟨hP, (ih (hinv s a h hQ hRa hP) hQ' hRas).mp hrest⟩
    · rintro ⟨hP, hrest⟩
      have hQ' : Q (step s a) := (hstep s a h hQ hRa).mpr hP
      exact ⟨hQ, (ih (hinv s a h hQ hRa hP) hQ' hRas).mpr hrest⟩

/-- The same where all steps are admitted. -/
theorem eachState_iff_eachStep_of {Inv Q : S → Prop} {P : S → A → Prop}
    (hinv : ∀ s a, Inv s → Q s → P s a → Inv (step s a))
    (hstep : ∀ s a, Inv s → Q s → (Q (step s a) ↔ P s a)) {s : S} (h : Inv s) (hQ : Q s)
    (as : List A) : EachState step Q s as ↔ EachStep step P s as :=
  eachState_iff_eachStep_where (fun s a hs hq _ => hinv s a hs hq)
    (fun s a hs hq _ => hstep s a hs hq) h hQ (eachStep_true s as)

/-- The same under an invariant of all steps. -/
theorem eachState_iff_eachStep {Inv Q : S → Prop} {P : S → A → Prop}
    (hinv : ∀ s a, Inv s → Inv (step s a))
    (hstep : ∀ s a, Inv s → Q s → (Q (step s a) ↔ P s a)) {s : S} (h : Inv s) (hQ : Q s)
    (as : List A) : EachState step Q s as ↔ EachStep step P s as :=
  eachState_iff_eachStep_of (fun s a hs _ _ => hinv s a hs) hstep h hQ as

/-- Two conditions that agree under an invariant agree on whole runs, even if the
invariant is only kept by the steps that satisfy them. -/
theorem eachStep_iff_of_invariant {Inv : S → Prop} {R P D : S → A → Prop}
    (hinv : ∀ s a, Inv s → R s a → P s a → Inv (step s a))
    (hiff : ∀ s a, Inv s → (D s a ↔ P s a)) {s : S} (h : Inv s) {as : List A}
    (hR : EachStep step R s as) : EachStep step D s as ↔ EachStep step P s as := by
  induction as generalizing s with
  | nil => exact Iff.rfl
  | cons a as ih =>
    rcases hR with ⟨hRa, hRas⟩
    constructor
    · rintro ⟨hD, hrest⟩
      have hP : P s a := (hiff s a h).mp hD
      exact ⟨hP, (ih (hinv s a h hRa hP) hRas).mp hrest⟩
    · rintro ⟨hP, hrest⟩
      exact ⟨(hiff s a h).mpr hP, (ih (hinv s a h hRa hP) hRas).mpr hrest⟩

/-! ## Growing by what is due -/

section Due

variable {size : S → Nat} {due : A → Nat}

theorem size_run_le (hle : ∀ s a, size (step s a) ≤ size s + due a) (s : S) (as : List A) :
    size (as.foldl step s) ≤ size s + (as.map due).sum := by
  induction as generalizing s with
  | nil => exact Nat.le_refl _
  | cons a as ih =>
    have hstep := hle s a
    have hrest := ih (step s a)
    rw [List.foldl_cons, List.map_cons, List.sum_cons]
    omega

/-- All that is due has come exactly if it has at each step. -/
theorem size_run_eq_iff (hle : ∀ s a, size (step s a) ≤ size s + due a) (s : S) (as : List A) :
    size (as.foldl step s) = size s + (as.map due).sum ↔
      EachStep step (fun s a => size (step s a) = size s + due a) s as := by
  induction as generalizing s with
  | nil => exact iff_of_true rfl trivial
  | cons a as ih =>
    have hstep := hle s a
    have hrest := size_run_le hle (step s a) as
    rw [List.foldl_cons, List.map_cons, List.sum_cons, EachStep, ← ih (step s a)]
    constructor
    · intro h
      constructor <;> omega
    · rintro ⟨ha, has⟩
      omega

end Due

end FyreDL.Lib
