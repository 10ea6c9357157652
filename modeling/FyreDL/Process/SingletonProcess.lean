import Mathlib.Logic.Function.Basic
import FyreDL.Lib.Run

/-!
# FyreDL.Process.SingletonProcess — one instance at a time

`main` asks a `SingletonProcess` whether it may go on. The object opens a socket and binds it
to a fixed port, and its destructor closes the socket. It lives in the `try` block around the
check, so that it is gone when the application runs.

* The processes are numbered by `P`. Each goes through the phases of `main` one operation
  after the other, in any interleaving, and may crash in any of them; the system then closes
  its socket.
* `bind` fails exactly if a socket that is open holds the port. A socket that cannot be
  created is an exception, which `main` catches and goes on.
* `holder_step` — the port is held by a process between its check and the end of the block.
* `atMostOne_iff` — at most one process is past the check in all states of a run exactly if
  none comes to its check while the application of another one runs.
-/

namespace FyreDL.Process

open Lib

/-! ## The processes -/

/-- How far `main` is in a process. -/
inductive Phase where
  /-- before `main` -/
  | notStarted
  /-- the object is there, with `socket_fd == -1` and `rc == 1` -/
  | constructed
  /-- `socket` has returned a descriptor -/
  | opened
  /-- `bind` has returned 0, and the object is still there -/
  | checked
  /-- `bind` has failed, and the object is still there -/
  | refused
  /-- behind the `try` block -/
  | running
  | exited
deriving DecidableEq, Repr

/-- The phases of the processes, and the one whose socket is bound to the port. -/
structure Machine (P : Type) where
  phase : P → Phase
  holder : Option P

def Machine.start {P : Type} : Machine P := ⟨fun _ => .notStarted, none⟩

/-- The next operation of a process, with what `socket` answers, or its crash. -/
inductive ProcAction (P : Type) where
  | next (p : P) (socketOk : Bool)
  | crash (p : P)

section Processes

variable {P : Type} [DecidableEq P]

def Machine.moveTo (s : Machine P) (p : P) (φ : Phase) : Machine P :=
  { s with phase := Function.update s.phase p φ }

/-- The process goes on without its socket. -/
def Machine.closeAndMoveTo (s : Machine P) (p : P) (φ : Phase) : Machine P where
  phase := Function.update s.phase p φ
  holder := if s.holder = some p then none else s.holder

@[simp] theorem Machine.moveTo_phase (s : Machine P) (p : P) (φ : Phase) :
    (s.moveTo p φ).phase = Function.update s.phase p φ := rfl

@[simp] theorem Machine.closeAndMoveTo_phase (s : Machine P) (p : P) (φ : Phase) :
    (s.closeAndMoveTo p φ).phase = Function.update s.phase p φ := rfl

/-- `bind`, and the result of the check. -/
def Machine.bindPort (s : Machine P) (p : P) : Machine P :=
  if s.holder = none then ⟨Function.update s.phase p .checked, some p⟩ else s.moveTo p .refused

/-- `main`, one operation at a time. -/
def Machine.step (s : Machine P) : ProcAction P → Machine P
  | .next p socketOk =>
    match s.phase p with
    | .notStarted => s.moveTo p .constructed
    | .constructed => if socketOk then s.moveTo p .opened else s.moveTo p .running
    | .opened => s.bindPort p
    | .checked => s.closeAndMoveTo p .running
    | .refused => s.closeAndMoveTo p .exited
    | .running => s.moveTo p .exited
    | .exited => s
  | .crash p => s.closeAndMoveTo p .exited

/-- Past the check and not exited. -/
def Phase.past : Phase → Bool
  | .checked => true
  | .running => true
  | _ => false

/-- At most one process is past the check. -/
def AtMostOne (phase : P → Phase) : Prop :=
  ∀ p q, (phase p).past = true → (phase q).past = true → p = q

/-- A process comes to its `bind` only while no other one is behind its `try` block, and goes
on without a socket only while no other one is past the check. -/
def Alone (s : Machine P) : ProcAction P → Prop
  | .next p socketOk =>
    (s.phase p = .opened → ∀ q, q ≠ p → s.phase q ≠ .running) ∧
      (s.phase p = .constructed → socketOk = false → ∀ q, q ≠ p → (s.phase q).past = false)
  | .crash _ => True

/-! ## The port -/

/-- The port is held by the process whose check has succeeded and whose object is there. -/
def Holder (s : Machine P) : Prop := ∀ p, s.holder = some p ↔ s.phase p = .checked

theorem Holder.moveTo {s : Machine P} (h : Holder s) {p : P} {φ : Phase}
    (hp : s.phase p ≠ .checked) (hφ : φ ≠ .checked) : Holder (s.moveTo p φ) := by
  intro q
  by_cases hq : q = p
  · subst hq
    simp only [Machine.moveTo, Function.update_self, hφ, iff_false]
    rw [h q]
    exact hp
  · simp only [Machine.moveTo, Function.update_of_ne hq]
    exact h q

theorem Holder.closeAndMoveTo {s : Machine P} (h : Holder s) {p : P} {φ : Phase}
    (hφ : φ ≠ .checked) : Holder (s.closeAndMoveTo p φ) := by
  intro q
  by_cases hq : q = p
  · subst hq
    simp only [Machine.closeAndMoveTo, Function.update_self, hφ, iff_false]
    split
    · exact (Option.some_ne_none q).symm
    · assumption
  · simp only [Machine.closeAndMoveTo, Function.update_of_ne hq]
    rw [← h q]
    split
    · rename_i hheld
      rw [hheld]
      simp [Ne.symm hq]
    · exact Iff.rfl

theorem Holder.bindPort {s : Machine P} (h : Holder s) {p : P} (hp : s.phase p = .opened) :
    Holder (s.bindPort p) := by
  rw [Machine.bindPort]
  split
  · rename_i hfree
    intro q
    by_cases hq : q = p
    · subst hq
      simp only [Function.update_self]
    · -- nobody else has the port
      have hother := h q
      rw [hfree] at hother
      simp only [Function.update_of_ne hq, Option.some.injEq, Ne.symm hq, false_iff]
      intro hchecked
      exact Option.some_ne_none q (hother.mpr hchecked).symm
  · apply h.moveTo
    · rw [hp]
      exact Phase.noConfusion
    · exact Phase.noConfusion

theorem holder_step (s : Machine P) (a : ProcAction P) (h : Holder s) : Holder (s.step a) := by
  cases a with
  | next p socketOk =>
    rw [Machine.step]
    cases hp : s.phase p with
    | notStarted => exact h.moveTo (by simp [hp]) Phase.noConfusion
    | constructed =>
      dsimp only
      split
      · exact h.moveTo (by simp [hp]) Phase.noConfusion
      · exact h.moveTo (by simp [hp]) Phase.noConfusion
    | opened => exact h.bindPort hp
    | checked => exact h.closeAndMoveTo Phase.noConfusion
    | refused => exact h.closeAndMoveTo Phase.noConfusion
    | running => exact h.moveTo (by simp [hp]) Phase.noConfusion
    | exited => exact h
  | crash p => exact h.closeAndMoveTo Phase.noConfusion

/-! ## Mutual exclusion -/

/-- A process that moves breaks the exclusion if it gets past the check beside another one. -/
theorem atMostOne_update {phase : P → Phase} (h : AtMostOne phase) (p : P) (φ : Phase) :
    AtMostOne (Function.update phase p φ) ↔
      (φ.past = true → ∀ q, q ≠ p → (phase q).past = false) := by
  constructor
  · intro hone hφ q hq
    by_contra hpast
    apply hq
    apply hone q p
    · rw [Function.update_of_ne hq]
      exact eq_true_of_ne_false hpast
    · rw [Function.update_self]
      exact hφ
  · intro halone q r hq hr
    -- two that are past the check: one of them may be `p`
    by_cases hqp : q = p
    · by_cases hrp : r = p
      · rw [hqp, hrp]
      · rw [hqp, Function.update_self] at hq
        rw [Function.update_of_ne hrp, halone hq r hrp] at hr
        cases hr
    · by_cases hrp : r = p
      · rw [hrp, Function.update_self] at hr
        rw [Function.update_of_ne hqp, halone hr q hqp] at hq
        cases hq
      · rw [Function.update_of_ne hqp] at hq
        rw [Function.update_of_ne hrp] at hr
        exact h q r hq hr

/-- A process that is past the check already breaks nothing. -/
theorem AtMostOne.update_past {phase : P → Phase} (h : AtMostOne phase) {p : P}
    (hp : (phase p).past = true) (φ : Phase) : AtMostOne (Function.update phase p φ) := by
  rw [atMostOne_update h]
  intro _ q hq
  by_contra hpast
  exact hq (h q p (eq_true_of_ne_false hpast) hp)

/-- Nor does one that does not get there. -/
theorem AtMostOne.update_not_past {phase : P → Phase} (h : AtMostOne phase) (p : P) {φ : Phase}
    (hφ : φ.past = false) : AtMostOne (Function.update phase p φ) := by
  rw [atMostOne_update h]
  intro hpast
  rw [hφ] at hpast
  cases hpast

/-- The check lets a second process through exactly if the first one runs its application. -/
theorem atMostOne_bindPort {s : Machine P} (hholder : Holder s) (h : AtMostOne s.phase) (p : P) :
    AtMostOne (s.bindPort p).phase ↔ ∀ q, q ≠ p → s.phase q ≠ .running := by
  rw [Machine.bindPort]
  cases hheld : s.holder with
  | none =>
    -- nobody is checked, so those past the check are running
    have hrunning : ∀ q, (s.phase q).past = false ↔ s.phase q ≠ .running := by
      intro q
      have hchecked : s.phase q ≠ .checked := by
        rw [ne_eq, ← hholder q, hheld]
        exact (Option.some_ne_none q).symm
      cases hq : s.phase q with
      | checked => exact absurd hq hchecked
      | _ => simp [Phase.past]
    rw [if_pos rfl, atMostOne_update h]
    constructor
    · intro halone q hq
      exact (hrunning q).mp (halone rfl q hq)
    · intro halone _ q hq
      exact (hrunning q).mpr (halone q hq)
  | some r =>
    rw [if_neg (Option.some_ne_none r)]
    have hr := (hholder r).mp hheld
    constructor
    · intro _ q _ hq
      -- the holder is past the check too
      have heq : q = r := by
        apply h q r
        · rw [hq]
          rfl
        · rw [hr]
          rfl
      rw [heq, hr] at hq
      cases hq
    · intro _
      exact h.update_not_past p rfl

/-- **One step.** From a state with at most one process past the check an operation leads to
one exactly if the process is alone there. -/
theorem atMostOne_step (s : Machine P) (a : ProcAction P) (hholder : Holder s)
    (h : AtMostOne s.phase) : AtMostOne (s.step a).phase ↔ Alone s a := by
  cases a with
  | next p socketOk =>
    rw [Machine.step, Alone]
    cases hp : s.phase p with
    | opened =>
      rw [atMostOne_bindPort hholder h]
      simp
    | constructed =>
      -- without a socket the process runs unchecked
      cases socketOk with
      | true => simpa using h.update_not_past p rfl
      | false =>
        simp [atMostOne_update h, show Phase.running.past = true from rfl]
    | notStarted => simpa using h.update_not_past p rfl
    | checked => simpa using h.update_past (by rw [hp]; rfl) .running
    | refused => simpa using h.update_not_past p rfl
    | running => simpa using h.update_not_past p rfl
    | exited => simpa using h
  | crash p =>
    constructor
    · intro _
      trivial
    · intro _
      exact h.update_not_past p rfl

/-- **One instance.** For any number of processes and any interleaving: at no time are two of
them past the check and not exited, exactly if none comes to its check while the application
of another one runs. -/
theorem atMostOne_iff (as : List (ProcAction P)) :
    EachState Machine.step (fun s : Machine P => AtMostOne s.phase) .start as ↔
      EachStep Machine.step Alone .start as := by
  have hholder : Holder (.start : Machine P) := by
    intro p
    constructor
    · intro hheld
      cases hheld
    · intro hchecked
      cases hchecked
  have hone : AtMostOne (Machine.start : Machine P).phase := by
    intro p q hp
    cases hp
  exact eachState_iff_eachStep holder_step atMostOne_step hholder hone as

end Processes

/-- The first process checks, leaves the block and runs; then the second one checks. -/
theorem atMostOne_second_start :
    ¬ EachState Machine.step (fun s : Machine Bool => AtMostOne s.phase) .start
      [.next false true, .next false true, .next false true, .next false true,
        .next true true, .next true true, .next true true] := by
  rintro ⟨-, -, -, -, -, -, -, hend⟩
  exact Bool.noConfusion (hend false true (by decide) (by decide))

end FyreDL.Process
