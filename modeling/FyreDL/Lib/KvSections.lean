import Mathlib.Data.Fintype.Basic
import FyreDL.Lib.KvProg
import FyreDL.Lib.Run

/-!
# FyreDL.Lib.KvSections — calls on an object with mutexes

An object has one mutex for the store, taken for one section at a time, and further ones that
stand around whole parts of a call. Any number of calls is under way, one thread each.

1. **Brackets**: `Bracketed R b p`. Whatever it is answered, `p` takes the mutex only when it
   does not hold it, accesses the store only when it does, and has released it when it ends.
2. **Sections**: `finishSection p s` runs `p` up to the release of the mutex.
3. **Calls**: a call does something first and then answers, or goes on with a `guarded` part:
   it takes another mutex for it, waits for this mutex, or is refused.
4. `Sound` — what every step keeps, and `exists_sections`: what any schedule leads to, steps of
   whole sections lead to as well.
-/

namespace FyreDL.Lib.Kv

variable {T G K V E α β : Type}

/-! ## Brackets -/

/-- The mutex is taken and released in turns, and the store is accessed only in between; `b`
tells whether it is held, `R` is what is returned. -/
inductive Bracketed (R : α → Prop) : Bool → Prog K V E α → Prop where
  | ret {a : α} (h : R a) : Bracketed R false (.ret a)
  | throw (e : E) : Bracketed R false (.throw e)
  | hang (b : Bool) : Bracketed R b .hang
  | get {k : K} {c : Answer V E → Prog K V E α} (h : ∀ x, Bracketed R true (c x)) :
      Bracketed R true (.get k c)
  | write {batch : List (Op K V)} {c : Option E → Prog K V E α}
      (h : ∀ x, Bracketed R true (c x)) : Bracketed R true (.write batch c)
  | warn {b : Bool} {e : E} {c : Prog K V E α} (h : Bracketed R b c) : Bracketed R b (.warn e c)
  | lock {c : Prog K V E α} (h : Bracketed R true c) : Bracketed R false (.lock c)
  | unlock {c : Prog K V E α} (h : Bracketed R false c) : Bracketed R true (.unlock c)

/-- A program that leaves the mutex alone. -/
inductive Plain : Prog K V E α → Prop where
  | ret (a : α) : Plain (.ret a)
  | throw (e : E) : Plain (.throw e)
  | hang : Plain .hang
  | get {k : K} {c : Answer V E → Prog K V E α} (h : ∀ x, Plain (c x)) : Plain (.get k c)
  | write {batch : List (Op K V)} {c : Option E → Prog K V E α} (h : ∀ x, Plain (c x)) :
      Plain (.write batch c)
  | warn {e : E} {c : Prog K V E α} (h : Plain c) : Plain (.warn e c)

theorem Plain.bind {p : Prog K V E α} (hp : Plain p) {f : α → Prog K V E β}
    (hf : ∀ a, Plain (f a)) : Plain (p >>= f) := by
  change Plain (p.bind f)
  induction hp with
  | ret a => exact hf a
  | throw e => exact .throw e
  | hang => exact .hang
  | get h ih => exact .get ih
  | write h ih => exact .write ih
  | warn h ih => exact .warn ih

theorem Plain.writeOrThrow (batch : List (Op K V)) :
    Plain (Prog.writeOrThrow batch : Prog K V E Unit) := by
  refine .write ?_
  intro failed
  cases failed with
  | none => exact .ret ()
  | some e => exact .throw e

section Bracketed

variable {R : α → Prop} {b : Bool}

/-- A scope that holds the mutex. -/
theorem Bracketed.locked {p : Prog K V E α} (hp : Plain p) :
    Bracketed (fun _ => True) false p.locked := by
  refine .lock ?_
  induction hp with
  | ret a => exact .unlock (.ret trivial)
  | throw e => exact .unlock (.throw e)
  | hang => exact .hang true
  | get h ih => exact .get ih
  | write h ih => exact .write ih
  | warn h ih => exact .warn ih

theorem Bracketed.bind {p : Prog K V E α} (hp : Bracketed R b p) {R' : β → Prop}
    {f : α → Prog K V E β} (hf : ∀ a, R a → Bracketed R' false (f a)) :
    Bracketed R' b (p >>= f) := by
  change Bracketed R' b (p.bind f)
  induction hp with
  | ret ha => exact hf _ ha
  | throw e => exact .throw e
  | hang b => exact .hang b
  | get hc ih => exact .get ih
  | write hc ih => exact .write ih
  | warn hc ih => exact .warn ih
  | lock hc ih => exact .lock ih
  | unlock hc ih => exact .unlock ih

/-- A handler is reached when the mutex is released. -/
theorem Bracketed.tryCatch {p : Prog K V E α} (hp : Bracketed R b p) {h : E → Prog K V E α}
    (hh : ∀ e, Bracketed R false (h e)) : Bracketed R b (p.tryCatch h) := by
  induction hp with
  | ret ha => exact .ret ha
  | throw e => exact hh e
  | hang b => exact .hang b
  | get hc ih => exact .get ih
  | write hc ih => exact .write ih
  | warn hc ih => exact .warn ih
  | lock hc ih => exact .lock ih
  | unlock hc ih => exact .unlock ih

end Bracketed

/-! ## Sections -/

section Sections

variable [DecidableEq K]

/-- What is left of a program that holds the mutex, and the store, when it releases it. -/
def finishSection : Prog K V E α → Store K V → Option (Prog K V E α × Store K V)
  | .ret _, _ => none
  | .throw _, _ => none
  | .hang, _ => none
  | .get k c, s => finishSection (c (.ofOption (s k))) s
  | .write b c, s => finishSection (c none) (applyBatch s b)
  | .warn _ c, s => finishSection c s
  | .lock _, _ => none
  | .unlock c, s => some (c, s)

theorem finishSection_bind {p p' : Prog K V E α} {s s' : Store K V}
    (h : finishSection p s = some (p', s')) (f : α → Prog K V E β) :
    finishSection (p >>= f) s = some (p' >>= f, s') := by
  change finishSection (p.bind f) s = some (p'.bind f, s')
  induction p generalizing s with
  | ret a => cases h
  | throw e => cases h
  | hang => cases h
  | get k c ih => exact ih _ h
  | write b c ih => exact ih _ h
  | warn e c ih => exact ih h
  | lock c ih => cases h
  | unlock c ih =>
    cases h
    rfl

theorem finishSection_tryCatch {p p' : Prog K V E α} {s s' : Store K V}
    (h : finishSection p s = some (p', s')) (handler : E → Prog K V E α) :
    finishSection (p.tryCatch handler) s = some (p'.tryCatch handler, s') := by
  induction p generalizing s with
  | ret a => cases h
  | throw e => cases h
  | hang => cases h
  | get k c ih => exact ih _ h
  | write b c ih => exact ih _ h
  | warn e c ih => exact ih h
  | lock c ih => cases h
  | unlock c ih =>
    cases h
    rfl

/-- A section that returns when it runs alone. -/
theorem finishSection_unlockOut {p : Prog K V E α} (hp : Plain p) {s s' : Store K V} {a : α}
    (h : run p s = (.ret a, s')) : finishSection p.unlockOut s = some (.ret a, s') := by
  induction hp generalizing s with
  | ret b =>
    cases h
    rfl
  | throw e => cases h
  | hang => cases h
  | get hc ih => exact ih _ h
  | write hc ih => exact ih _ h
  | warn hc ih => exact ih h

end Sections

/-! ## Calls -/

/-- How a call goes on: with its answer, or with a part under another mutex. It waits for this
mutex if `refused` is `none`; otherwise, if the mutex is taken, `refused` is its answer. -/
inductive Next (G K V E α : Type) where
  | answer (a : α)
  | guarded (g : G) (body : Prog K V E α) (refused : Option α)

/-- A call, up to its answer or its guarded part. -/
abbrev Call (G K V E α : Type) := Prog K V E (Next G K V E α)

/-- The guarded part of a call. -/
def Prog.answering (body : Prog K V E α) : Call G K V E α :=
  body.bind fun a => .ret (.answer a)

/-- The guarded part keeps to the brackets as well. -/
def Next.Bracketed : Next G K V E α → Prop
  | .answer _ => True
  | .guarded _ body _ => Kv.Bracketed (fun _ => True) false body

/-- The answer of a call is an answer. -/
def Next.IsAnswer : Next G K V E α → Prop
  | .answer _ => True
  | .guarded _ _ _ => False

theorem bracketed_answering {body : Prog K V E α} (h : Bracketed (fun _ => True) false body) :
    Bracketed Next.IsAnswer false (body.answering : Call G K V E α) :=
  h.bind fun _ _ => .ret (show Next.IsAnswer (.answer _) from trivial)

/-- A call under way: the mutex that it holds around its guarded part, and what it still has
to do. -/
structure Running (G K V E α : Type) where
  holds : Option G
  prog : Call G K V E α

/-- The call is at its end: it has answered or left by an exception, and holds no mutex. -/
def Running.Ended (r : Running G K V E α) : Prop :=
  r.holds = none ∧ ((∃ a, r.prog = .ret (.answer a)) ∨ ∃ e, r.prog = .throw e)

instance (r : Running G K V E α) : Decidable r.Ended :=
  match r with
  | ⟨none, .ret (.answer a)⟩ => .isTrue ⟨rfl, .inl ⟨a, rfl⟩⟩
  | ⟨none, .throw e⟩ => .isTrue ⟨rfl, .inr ⟨e, rfl⟩⟩
  | ⟨some _, _⟩ => .isFalse nofun
  | ⟨none, .ret (.guarded _ _ _)⟩ => .isFalse nofun
  | ⟨none, .hang⟩ => .isFalse nofun
  | ⟨none, .get _ _⟩ => .isFalse nofun
  | ⟨none, .write _ _⟩ => .isFalse nofun
  | ⟨none, .warn _ _⟩ => .isFalse nofun
  | ⟨none, .lock _⟩ => .isFalse nofun
  | ⟨none, .unlock _⟩ => .isFalse nofun

section Outside

variable [DecidableEq G]

/-- A call releases the mutex of its guarded part. -/
def Running.leave (guards : G → Option T) (r : Running G K V E α) :
    (G → Option T) × Running G K V E α :=
  match r.holds with
  | some g => (Function.update guards g none, ⟨none, r.prog⟩)
  | none => (guards, r)

/-- What a call does that is not about the store and its mutex. -/
def Running.outside (t : T) (guards : G → Option T) (r : Running G K V E α) :
    (G → Option T) × Running G K V E α :=
  match r.prog with
  | .ret (.guarded g body refused) =>
    if guards g = none then (Function.update guards g (some t), ⟨some g, body.answering⟩)
    else
      match refused with
      | some a => (guards, ⟨r.holds, .ret (.answer a)⟩)
      | none => (guards, r)
  | .ret (.answer _) => r.leave guards
  | .throw _ => r.leave guards
  | .warn _ c => (guards, ⟨r.holds, c⟩)
  | _ => (guards, r)

/-- What the program of a call may return: within its guarded part it goes on with no other. -/
def Running.Allowed (r : Running G K V E α) (next : Next G K V E α) : Prop :=
  match r.holds with
  | some _ => next.IsAnswer
  | none => next.Bracketed

theorem Running.bracketed_leave {guards : G → Option T} {r : Running G K V E α}
    (hprog : (∃ a, r.prog = .ret (.answer a)) ∨ ∃ e, r.prog = .throw e) :
    Bracketed (r.leave guards).2.Allowed false (r.leave guards).2.prog := by
  have hret : ∀ r' : Running G K V E α, r'.prog = r.prog → Bracketed r'.Allowed false r'.prog := by
    intro r' hsame
    rw [hsame]
    rcases hprog with ⟨a, hprog⟩ | ⟨e, hprog⟩
    · rw [hprog]
      apply Bracketed.ret
      unfold Allowed
      split <;> trivial
    · rw [hprog]
      exact .throw e
  unfold leave
  split
  · exact hret _ rfl
  · exact hret _ rfl

/-- It keeps to the brackets. -/
theorem Running.bracketed_outside {t : T} {guards : G → Option T} {r : Running G K V E α}
    {b : Bool} (h : Bracketed r.Allowed b r.prog) :
    Bracketed (r.outside t guards).2.Allowed b (r.outside t guards).2.prog := by
  unfold outside
  split
  · rename_i g body refused hprog
    have hprog' := hprog
    rw [hprog] at h
    cases h with
    | ret hallowed =>
      -- the call has no guarded part yet
      have hfree : r.holds = none := by
        cases hholds : r.holds with
        | none => rfl
        | some g' =>
          rw [Allowed, hholds] at hallowed
          exact hallowed.elim
      rw [Allowed, hfree] at hallowed
      split
      · exact bracketed_answering hallowed
      · cases refused with
        | some a =>
          apply Bracketed.ret
          unfold Allowed
          split <;> trivial
        | none =>
          dsimp only
          rw [hprog']
          apply Bracketed.ret
          rw [Allowed, hfree]
          exact hallowed
  · rename_i a hprog
    rw [hprog] at h
    cases h
    exact bracketed_leave (.inl ⟨a, hprog⟩)
  · rename_i e hprog
    rw [hprog] at h
    cases h
    exact bracketed_leave (.inr ⟨e, hprog⟩)
  · rename_i e c hprog
    rw [hprog] at h
    cases h with
    | warn hc => exact hc
  · exact h

/-- A step outside leaves the mutexes of the other calls alone. -/
theorem Running.outside_guards {t : T} {guards : G → Option T} {r : Running G K V E α}
    (h : ∃ b, Bracketed r.Allowed b r.prog) (hheld : ∀ g, guards g = some t → r.holds = some g)
    (g : G) :
    (∀ t', t' ≠ t → (r.outside t guards).1 g = some t' → guards g = some t') ∧
      ((r.outside t guards).1 g = some t → (r.outside t guards).2.holds = some g) := by
  have hsame : (∀ t', t' ≠ t → guards g = some t' → guards g = some t') ∧
      (guards g = some t → r.holds = some g) := ⟨fun _ _ hg => hg, hheld g⟩
  have hleave : (∀ t', t' ≠ t → (r.leave guards).1 g = some t' → guards g = some t') ∧
      ((r.leave guards).1 g = some t → (r.leave guards).2.holds = some g) := by
    unfold leave
    cases hholds : r.holds with
    | none =>
      dsimp only
      exact hsame
    | some g' =>
      dsimp only
      by_cases hg : g = g'
      · subst hg
        rw [Function.update_self]
        exact ⟨fun t' _ hc => absurd hc.symm (Option.some_ne_none t'),
          fun hc => absurd hc.symm (Option.some_ne_none t)⟩
      · rw [Function.update_of_ne hg]
        refine ⟨fun _ _ hguard => hguard, fun hguard => ?_⟩
        rw [hheld g hguard] at hholds
        exact absurd (Option.some.inj hholds) hg
  unfold outside
  split
  · rename_i g' body refused hprog
    rcases h with ⟨b, h⟩
    rw [hprog] at h
    cases h with
    | ret hallowed =>
      split
      · by_cases hg : g = g'
        · subst hg
          dsimp only
          rw [Function.update_self]
          exact ⟨fun t' hne hc => absurd (Option.some.inj hc).symm hne, fun _ => rfl⟩
        · dsimp only
          rw [Function.update_of_ne hg]
          refine ⟨fun _ _ hguard => hguard, fun hguard => ?_⟩
          -- a call that holds a mutex does not go on with another one
          rw [Allowed, hheld g hguard] at hallowed
          exact hallowed.elim
      · cases refused with
        | some a => exact hsame
        | none => exact hsame
  · exact hleave
  · exact hleave
  · exact hsame
  · exact hsame

end Outside

/-- The store, who holds its mutex, who holds each of the others, and the calls. -/
structure Object (T G K V E α : Type) where
  store : Store K V
  holder : Option T
  guards : G → Option T
  threads : T → Running G K V E α

namespace Object

/-- No call has begun. -/
def start (s : Store K V) (calls : T → Call G K V E α) : Object T G K V E α :=
  ⟨s, none, fun _ => none, fun t => ⟨none, calls t⟩⟩

section Place

variable [DecidableEq T] (w : Object T G K V E α) (t : T) (r : Running G K V E α)

/-- The object with a call at another place. -/
def place : Object T G K V E α := { w with threads := Function.update w.threads t r }

@[simp] theorem place_self : (w.place t r).threads t = r := Function.update_self _ _ _

theorem place_of_ne {t' : T} (h : t' ≠ t) : (w.place t r).threads t' = w.threads t' :=
  Function.update_of_ne h _ _

theorem place_threads : w.place t (w.threads t) = w := by
  unfold place
  rw [Function.update_eq_self]

/-- A call goes on. -/
def go (p : Call G K V E α) : Object T G K V E α := w.place t ⟨(w.threads t).holds, p⟩

end Place

section Steps

variable [DecidableEq T] [DecidableEq G] [DecidableEq K]

/-- A step that does not concern the store and its mutex. -/
def outside (w : Object T G K V E α) (t : T) : Object T G K V E α :=
  { w.place t ((w.threads t).outside t w.guards).2 with
    guards := ((w.threads t).outside t w.guards).1 }

/-- One operation of a call. -/
def step (w : Object T G K V E α) (t : T) : Object T G K V E α :=
  match (w.threads t).prog with
  | .get k c => w.go t (c (.ofOption (w.store k)))
  | .write b c => { w.go t (c none) with store := applyBatch w.store b }
  | .lock c => if w.holder = none then { w.go t c with holder := some t } else w
  | .unlock c => { w.go t c with holder := none }
  | _ => w.outside t

theorem threads_step_of_ne (w : Object T G K V E α) {t t' : T} (h : t' ≠ t) :
    (w.step t).threads t' = w.threads t' := by
  have hgo : ∀ p, (w.go t p).threads t' = w.threads t' := fun p => place_of_ne w t _ h
  unfold step
  split
  · exact hgo _
  · exact hgo _
  · split
    · exact hgo _
    · rfl
  · exact hgo _
  · exact place_of_ne w t _ h

/-- A call that has answered, and holds no mutex, is done. -/
theorem threads_of_answered {w : Object T G K V E α} {t : T} {a : α}
    (h : w.threads t = ⟨none, .ret (.answer a)⟩) (sched : List T) :
    (sched.foldl step w).threads t = ⟨none, .ret (.answer a)⟩ := by
  have hstep : ∀ (w : Object T G K V E α) (u : T), w.threads t = ⟨none, .ret (.answer a)⟩ →
      (w.step u).threads t = ⟨none, .ret (.answer a)⟩ := by
    intro w u h
    by_cases hu : t = u
    · subst hu
      have hout : w.step t = w.outside t := by
        unfold step
        rw [h]
      rw [hout]
      change (w.place t _).threads t = _
      rw [place_self, h]
      rfl
    · rw [threads_step_of_ne w hu, h]
  exact run_invariant_always hstep h sched

/-- A whole section of a call, or one operation outside. -/
def sectionStep (w : Object T G K V E α) (t : T) : Object T G K V E α :=
  match (w.threads t).prog with
  | .lock c =>
    match finishSection c w.store with
    | some (c', s') => { w.go t c' with store := s' }
    | none => w
  | _ => w.outside t

theorem sectionStep_of_lock {w : Object T G K V E α} {t : T} {c c' : Call G K V E α}
    {s : Store K V} (hprog : (w.threads t).prog = .lock c)
    (h : finishSection c w.store = some (c', s)) :
    w.sectionStep t = { w.go t c' with store := s } := by
  unfold sectionStep
  rw [hprog]
  dsimp only
  rw [h]

end Steps

end Object

/-! ## What every step keeps -/

/-- Each program is where it may be, and who has a mutex of a guarded part holds it. -/
structure Sound [DecidableEq T] (w : Object T G K V E α) : Prop where
  prog : ∀ t, Bracketed (w.threads t).Allowed (decide (w.holder = some t)) (w.threads t).prog
  held : ∀ g t, w.guards g = some t → (w.threads t).holds = some g

section Sound

variable [DecidableEq T] {w : Object T G K V E α} {t : T}

theorem sound_start {s : Store K V} {calls : T → Call G K V E α}
    (hcalls : ∀ t, Bracketed Next.Bracketed false (calls t)) : Sound (Object.start s calls) := by
  constructor
  · intro t
    exact hcalls t
  · intro g t hguard
    cases hguard

/-- The program of a call outside of a section. -/
theorem Sound.free (h : Sound w) (hout : w.holder ≠ some t) :
    Bracketed (w.threads t).Allowed false (w.threads t).prog := by
  have hprog := h.prog t
  rwa [decide_eq_false hout] at hprog

/-- And within one. -/
theorem Sound.inside (h : Sound w) (hin : w.holder = some t) :
    Bracketed (w.threads t).Allowed true (w.threads t).prog := by
  have hprog := h.prog t
  rwa [decide_eq_true hin] at hprog

/-- A call goes on, and with it who holds the mutex of the store. -/
theorem Sound.go (h : Sound w) {p : Call G K V E α} {s : Store K V} {holder : Option T}
    (hp : Bracketed (w.threads t).Allowed (decide (holder = some t)) p)
    (hholder : ∀ t', t' ≠ t → (holder = some t' ↔ w.holder = some t')) :
    Sound { w.go t p with store := s, holder := holder } := by
  have hself : (w.go t p).threads t = ⟨(w.threads t).holds, p⟩ := Object.place_self w t _
  constructor
  · intro t'
    change Bracketed ((w.go t p).threads t').Allowed _ ((w.go t p).threads t').prog
    by_cases hne : t' = t
    · subst hne
      rw [hself]
      exact hp
    · rw [Object.go, Object.place_of_ne w t _ hne, decide_eq_decide.mpr (hholder t' hne)]
      exact h.prog t'
  · intro g t' hguard
    change ((w.go t p).threads t').holds = some g
    by_cases hne : t' = t
    · subst hne
      rw [hself]
      exact h.held g t' hguard
    · rw [Object.go, Object.place_of_ne w t _ hne]
      exact h.held g t' hguard

variable [DecidableEq G]

theorem Sound.outside (h : Sound w) : Sound (w.outside t) := by
  constructor
  · intro t'
    change Bracketed ((w.place t _).threads t').Allowed _ ((w.place t _).threads t').prog
    by_cases hne : t' = t
    · subst hne
      rw [Object.place_self]
      exact Running.bracketed_outside (h.prog t')
    · rw [Object.place_of_ne w t _ hne]
      exact h.prog t'
  · intro g t' hguard
    change ((w.place t _).threads t').holds = some g
    rcases Running.outside_guards ⟨_, h.prog t⟩ (fun g => h.held g t) g with ⟨hothers, hself⟩
    by_cases hne : t' = t
    · subst hne
      rw [Object.place_self]
      exact hself hguard
    · rw [Object.place_of_ne w t _ hne]
      exact h.held g t' (hothers t' hne hguard)

variable [DecidableEq K]

/-- **Brackets.** Every step keeps them. -/
theorem Sound.step (h : Sound w) (t : T) : Sound (w.step t) := by
  have hprog := h.prog t
  unfold Object.step
  split
  · rename_i k c hget
    rw [hget] at hprog
    generalize hb : decide (w.holder = some t) = b at hprog
    cases hprog with
    | get hc =>
      exact h.go (hb ▸ hc _) fun t' _ => Iff.rfl
  · rename_i batch c hwrite
    rw [hwrite] at hprog
    generalize hb : decide (w.holder = some t) = b at hprog
    cases hprog with
    | write hc =>
      exact h.go (hb ▸ hc _) fun t' _ => Iff.rfl
  · rename_i c hlock
    rw [hlock] at hprog
    generalize hb : decide (w.holder = some t) = b at hprog
    cases hprog with
    | lock hc =>
      split
      · rename_i hfree
        refine h.go (by rw [decide_eq_true rfl]; exact hc) fun t' hne => ?_
        rw [hfree]
        exact ⟨fun heq => absurd (Option.some.inj heq).symm hne,
          fun heq => absurd heq.symm (Option.some_ne_none t')⟩
      · exact h
  · rename_i c hunlock
    rw [hunlock] at hprog
    generalize hb : decide (w.holder = some t) = b at hprog
    cases hprog with
    | unlock hc =>
      refine h.go (by rw [decide_eq_false fun hc => (by cases hc)]; exact hc) fun t' hne => ?_
      rw [of_decide_eq_true hb]
      exact ⟨fun heq => absurd heq.symm (Option.some_ne_none t'),
        fun heq => absurd (Option.some.inj heq).symm hne⟩
  · exact h.outside

end Sound

/-! ## Whole sections -/

/-- The object `a` is where `w` was before the section that is under way. -/
structure Reduces [DecidableEq K] (w a : Object T G K V E α) : Prop where
  guards : w.guards = a.guards
  free : a.holder = none
  others : ∀ t, w.holder ≠ some t → w.threads t = a.threads t
  store : w.holder = none → w.store = a.store
  inside : ∀ t, w.holder = some t → ∃ c, a.threads t = ⟨(w.threads t).holds, .lock c⟩ ∧
    finishSection c a.store = finishSection (w.threads t).prog w.store

section Reduction

variable [DecidableEq K] {w a : Object T G K V E α}

/-- Between the sections the two are one. -/
theorem Reduces.eq (h : Reduces w a) (hfree : w.holder = none) : w = a := by
  have hthreads : w.threads = a.threads := by
    funext t
    exact h.others t (hfree ▸ (Option.some_ne_none t).symm)
  have hstore := h.store hfree
  have hguards := h.guards
  have hholder : w.holder = a.holder := by rw [hfree, h.free]
  cases w
  cases a
  congr

variable [DecidableEq T] {t : T}

/-- What `t` has at another place is nothing to the other calls. -/
theorem Reduces.others_place (h : Reduces w a) {t' : T} (hne : t' ≠ t)
    (hout : w.holder ≠ some t') (r r' : Running G K V E α) :
    (w.place t r).threads t' = (a.place t r').threads t' := by
  rw [Object.place_of_ne w t r hne, Object.place_of_ne a t r' hne]
  exact h.others t' hout

/-- A step of the program that is in its section. -/
theorem Reduces.inside_go (h : Reduces w a) (hin : w.holder = some t) {p : Call G K V E α}
    {s : Store K V} (hsame : finishSection p s = finishSection (w.threads t).prog w.store) :
    Reduces { w.go t p with store := s } a := by
  have hself : (w.go t p).threads t = ⟨(w.threads t).holds, p⟩ := Object.place_self w t _
  refine ⟨h.guards, h.free, ?_, ?_, ?_⟩
  · intro t' hout
    have hne : t' ≠ t := by
      rintro rfl
      exact hout hin
    have hother := h.others_place hne hout ⟨(w.threads t).holds, p⟩ (a.threads t)
    rw [Object.place_threads] at hother
    exact hother
  · intro hfree
    exact absurd (hin.symm.trans hfree) (Option.some_ne_none t)
  · intro t' hholder
    obtain rfl : t = t' := Option.some.inj (hin.symm.trans hholder)
    rcases h.inside t hin with ⟨c, hthread, hfinish⟩
    refine ⟨c, ?_, ?_⟩
    · rw [hthread]
      exact congrArg (fun r => (⟨r.holds, .lock c⟩ : Running G K V E α)) hself.symm
    · rw [hfinish, ← hsame]
      exact congrArg (fun r => finishSection r.prog s) hself.symm

/-- The beginning of a section: the other object waits for its end. -/
theorem Reduces.outside_lock (h : Reduces w a) (hfree : w.holder = none) {c : Call G K V E α}
    (hprog : (w.threads t).prog = .lock c) : Reduces { w.go t c with holder := some t } a := by
  obtain rfl := h.eq hfree
  have hself : (w.go t c).threads t = ⟨(w.threads t).holds, c⟩ := Object.place_self w t _
  refine ⟨rfl, hfree, ?_, (fun hnone => absurd hnone (Option.some_ne_none t)), ?_⟩
  · intro t' hout
    have hne : t' ≠ t := by
      rintro rfl
      exact hout rfl
    exact Object.place_of_ne w t _ hne
  · intro t' hholder
    obtain rfl : t = t' := Option.some.inj hholder
    refine ⟨c, ?_, ?_⟩
    · rw [← hprog]
      exact congrArg (fun r => (⟨r.holds, (w.threads t).prog⟩ : Running G K V E α)) hself.symm
    · exact congrArg (fun r => finishSection r.prog w.store) hself.symm

variable [DecidableEq G]

/-- The end of a section: the other object makes it in one step. -/
theorem Reduces.inside_unlock (h : Reduces w a) (hin : w.holder = some t) {c : Call G K V E α}
    (hprog : (w.threads t).prog = .unlock c) :
    Reduces { w.go t c with holder := none } (a.sectionStep t) := by
  rcases h.inside t hin with ⟨c₀, hthread, hfinish⟩
  rw [hprog] at hfinish
  have hstep : a.sectionStep t = { a.go t c with store := w.store } :=
    Object.sectionStep_of_lock (by rw [hthread]) hfinish
  have hholds : (a.threads t).holds = (w.threads t).holds := by rw [hthread]
  rw [hstep]
  refine ⟨h.guards, h.free, ?_, fun _ => rfl, fun t' hholder => by cases hholder⟩
  intro t' _
  by_cases hne : t' = t
  · subst hne
    change (w.go t' c).threads t' = (a.go t' c).threads t'
    rw [Object.go, Object.go, Object.place_self, Object.place_self, hholds]
  · refine h.others_place hne ?_ _ _
    rw [hin]
    exact fun hc => hne (Option.some.inj hc).symm

/-- A step outside is one of the other object as well. -/
theorem Reduces.outside (h : Reduces w a) (hout : w.holder ≠ some t) :
    Reduces (w.outside t) (a.outside t) := by
  have hpair : (a.threads t).outside t a.guards = (w.threads t).outside t w.guards := by
    rw [h.others t hout, h.guards]
  unfold Object.outside
  rw [hpair]
  refine ⟨rfl, h.free, ?_, h.store, ?_⟩
  · intro t' hout'
    change (w.place t _).threads t' = (a.place t _).threads t'
    by_cases hne : t' = t
    · subst hne
      rw [Object.place_self, Object.place_self]
    · exact h.others_place hne hout' _ _
  · intro t' hin
    have hne : t' ≠ t := by
      rintro rfl
      exact hout hin
    rcases h.inside t' hin with ⟨c, hthread', hfinish⟩
    have hw := Object.place_of_ne w t ((w.threads t).outside t w.guards).2 hne
    refine ⟨c, ?_, ?_⟩
    · change (a.place t _).threads t' = _
      rw [Object.place_of_ne a t _ hne, hthread']
      exact congrArg (fun r => (⟨r.holds, .lock c⟩ : Running G K V E α)) hw.symm
    · exact hfinish.trans (congrArg (fun r => finishSection r.prog w.store) hw.symm)

/-- **One step** is nothing to the sections, or one of theirs. -/
theorem Reduces.step (h : Reduces w a) (hsound : Sound w) (t : T) :
    ∃ a', (a' = a ∨ a' = a.sectionStep t) ∧ Reduces (w.step t) a' := by
  by_cases hin : w.holder = some t
  · -- the section of `t` is under way
    have hbracketed := hsound.inside hin
    unfold Object.step
    cases hprog : (w.threads t).prog with
    | ret next =>
      rw [hprog] at hbracketed
      cases hbracketed
    | throw e =>
      rw [hprog] at hbracketed
      cases hbracketed
    | lock c =>
      rw [hprog] at hbracketed
      cases hbracketed
    | hang =>
      have hstay : w.outside t = w := by
        unfold Object.outside Running.outside
        rw [hprog]
        exact Object.place_threads w t
      refine ⟨a, .inl rfl, ?_⟩
      dsimp only
      rw [hstay]
      exact h
    | get k c => exact ⟨a, .inl rfl, h.inside_go hin (by rw [hprog]; rfl)⟩
    | write b c => exact ⟨a, .inl rfl, h.inside_go hin (by rw [hprog]; rfl)⟩
    | warn e c =>
      have hgo : w.outside t = { w.go t c with store := w.store } := by
        unfold Object.outside Running.outside
        rw [hprog]
        rfl
      dsimp only
      rw [hgo]
      exact ⟨a, .inl rfl, h.inside_go hin (by rw [hprog]; rfl)⟩
    | unlock c => exact ⟨_, .inr rfl, h.inside_unlock hin hprog⟩
  · -- `t` is outside
    have hbracketed := hsound.free hin
    have hsection : (∀ c, (w.threads t).prog ≠ .lock c) → a.sectionStep t = a.outside t := by
      intro hlock
      unfold Object.sectionStep
      rw [← h.others t hin]
      split
      · rename_i c hprog
        exact absurd hprog (hlock c)
      · rfl
    unfold Object.step
    cases hprog : (w.threads t).prog with
    | get k c =>
      rw [hprog] at hbracketed
      cases hbracketed
    | write b c =>
      rw [hprog] at hbracketed
      cases hbracketed
    | unlock c =>
      rw [hprog] at hbracketed
      cases hbracketed
    | lock c =>
      refine ⟨a, .inl rfl, ?_⟩
      dsimp only
      split
      · rename_i hfree
        exact h.outside_lock hfree hprog
      · exact h
    | ret next =>
      refine ⟨a.outside t, .inr (hsection ?_).symm, h.outside hin⟩
      rw [hprog]
      exact fun c hc => by cases hc
    | throw e =>
      refine ⟨a.outside t, .inr (hsection ?_).symm, h.outside hin⟩
      rw [hprog]
      exact fun c hc => by cases hc
    | warn e c =>
      refine ⟨a.outside t, .inr (hsection ?_).symm, h.outside hin⟩
      rw [hprog]
      exact fun c hc => by cases hc
    | hang =>
      refine ⟨a.outside t, .inr (hsection ?_).symm, h.outside hin⟩
      rw [hprog]
      exact fun c hc => by cases hc

variable {s : Store K V} {calls : T → Call G K V E α}

/-- **Whole sections.** Whatever the schedule: some sequence of whole sections leads to the
object, but for the section that is under way. -/
theorem exists_sections (hcalls : ∀ t, Bracketed Next.Bracketed false (calls t))
    (sched : List T) :
    ∃ order : List T, Reduces (sched.foldl Object.step (Object.start s calls))
      (order.foldl Object.sectionStep (Object.start s calls)) := by
  have hstart : Reduces (Object.start s calls) (Object.start s calls) :=
    ⟨rfl, rfl, fun _ _ => rfl, fun _ => rfl, fun _ hin => by cases hin⟩
  have hstep : ∀ (w : Object T G K V E α) (t : T),
      (Sound w ∧
        ∃ order : List T, Reduces w (order.foldl Object.sectionStep (Object.start s calls))) →
      Sound (w.step t) ∧ ∃ order : List T, Reduces (w.step t)
        (order.foldl Object.sectionStep (Object.start s calls)) := by
    rintro w t ⟨hsound, order, h⟩
    refine ⟨hsound.step t, ?_⟩
    rcases h.step hsound t with ⟨a', rfl | rfl, h'⟩
    · exact ⟨order, h'⟩
    · refine ⟨order ++ [t], ?_⟩
      rw [List.foldl_append]
      exact h'
  exact (run_invariant_always hstep ⟨sound_start hcalls, [], hstart⟩ sched).2

/-- **When all calls are at their end** the object is one that whole sections lead to. -/
theorem exists_sections_of_ended (hcalls : ∀ t, Bracketed Next.Bracketed false (calls t))
    {sched : List T} {w : Object T G K V E α}
    (hrun : sched.foldl Object.step (Object.start s calls) = w)
    (hended : ∀ t, (w.threads t).Ended) :
    ∃ order : List T, w = order.foldl Object.sectionStep (Object.start s calls) := by
  rcases exists_sections hcalls sched with ⟨order, h⟩
  rw [hrun] at h
  refine ⟨order, h.eq ?_⟩
  -- who holds the mutex is not at the end
  cases hholder : w.holder with
  | none => rfl
  | some t =>
    have hsound : Sound w := hrun ▸
      run_invariant_always (fun w t (h : Sound w) => h.step t) (sound_start hcalls) sched
    have hbracketed := hsound.inside hholder
    rcases (hended t).2 with ⟨b, hprog⟩ | ⟨e, hprog⟩
    · rw [hprog] at hbracketed
      cases hbracketed
    · rw [hprog] at hbracketed
      cases hbracketed

end Reduction

end FyreDL.Lib.Kv
