import FyreDL.Lib.KvProg
import FyreDL.Lib.Run

/-!
# FyreDL.Lib.KvThreads — programs interleaved on one store

Threads of type `T` run programs on a shared store, one operation at a time. Each thread
locks and unlocks one mutex, `mutexOf t`; threads with the same one exclude each other. A
schedule is the list of the threads that are to move, and a thread that waits for its mutex
does not move. `accesses` records which thread did a `Get` or a `Write`, in order.

* `Threads.step_cases` — all that a step can do.
* `ReadModifyWrite` — a thread reads one key once and later writes once what it makes of the
  value; it may release the mutex in between, and it may get stuck on a value.
* `Tracks.step` — such threads are tracked by a `View`, in which only the accesses count.
* `rmw_finished` — when all are through, each has accessed the store twice, and the value of
  the key is the one of the `View` after these accesses, whatever the mutexes are.
-/

namespace FyreDL.Lib.Kv

variable {T M K V E α : Type}

/-- The shared store, the holder of each mutex, what each thread still has to do, and the
threads that accessed the store. -/
structure Threads (T M K V E α : Type) where
  store : Store K V
  held : M → Option T
  prog : T → Prog K V E α
  accesses : List T

/-- The program is at its end, and not by an exception. -/
def Prog.returned : Prog K V E α → Bool
  | .ret _ => true
  | _ => false

namespace Threads

/-- No thread has moved, and no mutex is held. -/
def start (s : Store K V) (prog : T → Prog K V E α) : Threads T M K V E α :=
  ⟨s, fun _ => none, prog, []⟩

section Step

variable [DecidableEq T] [DecidableEq M] [DecidableEq K] {mutexOf : T → M}

/-- One operation of a thread. -/
def step (mutexOf : T → M) (w : Threads T M K V E α) (t : T) : Threads T M K V E α :=
  match w.prog t with
  | .ret _ => w
  | .throw _ => w
  | .hang => w
  | .get k c =>
    { w with prog := Function.update w.prog t (c (.ofOption (w.store k))),
             accesses := w.accesses ++ [t] }
  | .write b c =>
    { w with store := applyBatch w.store b, prog := Function.update w.prog t (c none),
             accesses := w.accesses ++ [t] }
  | .warn _ c => { w with prog := Function.update w.prog t c }
  | .lock c =>
    if w.held (mutexOf t) = none then
      { w with held := Function.update w.held (mutexOf t) (some t),
               prog := Function.update w.prog t c }
    else w
  | .unlock c =>
    { w with held := Function.update w.held (mutexOf t) none,
             prog := Function.update w.prog t c }

/-- A step of a program that leaves the store alone. -/
inductive Silent : Prog K V E α → Prog K V E α → Prop where
  | warn (e : E) (c : Prog K V E α) : Silent (.warn e c) c
  | lock (c : Prog K V E α) : Silent (.lock c) c
  | unlock (c : Prog K V E α) : Silent (.unlock c) c

/-- **All that a step can do**: nothing, a step that leaves the store alone, a `Get`, or a
`Write`. -/
theorem step_cases (mutexOf : T → M) (w : Threads T M K V E α) (t : T) :
    w.step mutexOf t = w ∨
    (∃ c held, Silent (w.prog t) c ∧
      w.step mutexOf t = ⟨w.store, held, Function.update w.prog t c, w.accesses⟩) ∨
    (∃ k c, w.prog t = .get k c ∧
      w.step mutexOf t = ⟨w.store, w.held,
        Function.update w.prog t (c (.ofOption (w.store k))), w.accesses ++ [t]⟩) ∨
    (∃ b c, w.prog t = .write b c ∧
      w.step mutexOf t = ⟨applyBatch w.store b, w.held,
        Function.update w.prog t (c none), w.accesses ++ [t]⟩) := by
  unfold step
  cases w.prog t with
  | ret a => exact .inl rfl
  | throw e => exact .inl rfl
  | hang => exact .inl rfl
  | get k c => exact .inr (.inr (.inl ⟨k, c, rfl, rfl⟩))
  | write b c => exact .inr (.inr (.inr ⟨b, c, rfl, rfl⟩))
  | warn e c => exact .inr (.inl ⟨c, _, .warn e c, rfl⟩)
  | lock c =>
    dsimp only
    -- the thread gets the mutex, or waits
    split
    · exact .inr (.inl ⟨c, _, .lock c, rfl⟩)
    · exact .inl rfl
  | unlock c => exact .inr (.inl ⟨c, _, .unlock c, rfl⟩)

end Step

/-- All threads have returned. -/
def Finished (w : Threads T M K V E α) : Prop := ∀ t, (w.prog t).returned = true

end Threads

/-! ## Reading, modifying and writing one key -/

/-- How far a thread is. `X` is what the value of the key stands for. -/
inductive Stage (X : Type) where
  | fresh
  | read (x : X)
  | wrote

/-- The accesses behind a stage. -/
def Stage.accesses {X : Type} : Stage X → Nat
  | .fresh => 0
  | .read _ => 1
  | .wrote => 2

/-- What the key stands for, and how far each thread is. -/
structure View (T X : Type) where
  value : X
  stage : T → Stage X

def View.start {X : Type} (x : X) : View T X := ⟨x, fun _ => .fresh⟩

/-- A first access of a thread reads, a second one writes what it makes of the value that it
has read. A thread that makes nothing of it does not get to its second one. -/
def View.access {X : Type} [DecidableEq T] (f : T → X → Option X) (v : View T X) (t : T) :
    View T X :=
  match v.stage t with
  | .fresh => { v with stage := Function.update v.stage t (.read v.value) }
  | .read x =>
    match f t x with
    | some y => ⟨y, Function.update v.stage t .wrote⟩
    | none => v
  | .wrote => v

section View

variable {X : Type} [DecidableEq T] {f : T → X → Option X} {v : View T X} {t : T} {x : X}

theorem View.access_fresh (h : v.stage t = .fresh) :
    v.access f t = ⟨v.value, Function.update v.stage t (.read v.value)⟩ := by
  rw [View.access, h]

theorem View.access_read {y : X} (h : v.stage t = .read x) (hf : f t x = some y) :
    v.access f t = ⟨y, Function.update v.stage t .wrote⟩ := by
  rw [View.access, h]
  dsimp only
  rw [hf]

theorem View.access_stuck (h : v.stage t = .read x) (hf : f t x = none) : v.access f t = v := by
  rw [View.access, h]
  dsimp only
  rw [hf]

/-- A first access reads what is there. -/
theorem View.stage_access_fresh (h : v.stage t = .fresh) :
    (v.access f t).stage t = .read v.value := by
  rw [View.access_fresh h]
  exact Function.update_self _ _ _

/-- An access that has written leaves what the function made of the value it had read. -/
theorem View.access_wrote (h : v.stage t = .read x) (hwrote : (v.access f t).stage t = .wrote) :
    f t x = some (v.access f t).value := by
  cases hf : f t x with
  | none =>
    rw [View.access_stuck h hf, h] at hwrote
    cases hwrote
  | some y => rw [View.access_read h hf]

/-- The other threads stay where they are. -/
theorem View.access_of_ne {t' : T} (h : t' ≠ t) : (v.access f t).stage t' = v.stage t' := by
  unfold View.access
  split
  · exact Function.update_of_ne h _ _
  · split
    · exact Function.update_of_ne h _ _
    · rfl
  · rfl

end View

section ReadModifyWrite

variable {X : Type} {key : K} {Rep : X → Option V → Prop}

/-- A program that has read, and replaces the value now or after it has released the mutex
and taken it again. -/
def Replaces (key : K) (value : V) (p : Prog K V E α) : Prop :=
  ∃ c a, (p = .write [.delete key, .put key value] c ∨
      p = .lock (.write [.delete key, .put key value] c) ∨
      p = .unlock (.lock (.write [.delete key, .put key value] c))) ∧
    c none = .unlock (.ret a)

/-- A program that neither accesses the store any more nor returns. -/
def Stuck (p : Prog K V E α) : Prop :=
  p = .hang ∨ ∃ e, p = .unlock (.throw e) ∨ p = .throw e

/-- A program that has read: it replaces the value by what is made of it, or is stuck. -/
def Modifies (key : K) (Rep : X → Option V → Prop) : Option X → Prog K V E α → Prop
  | some y, p => ∃ v', Rep y (some v') ∧ Replaces key v' p
  | none, p => Stuck p

/-- The program reads the key under the mutex, and replaces what stands for `x` by something
that stands for `f x`. -/
def ReadModifyWrite (key : K) (Rep : X → Option V → Prop) (f : X → Option X)
    (p : Prog K V E α) : Prop :=
  ∃ c, p = .lock (.get key c) ∧ ∀ x v, Rep x v → Modifies key Rep (f x) (c (.ofOption v))

theorem Modifies.silent {o : Option X} {q r : Prog K V E α} (h : Modifies key Rep o q)
    (hqr : Threads.Silent q r) : Modifies key Rep o r := by
  cases o with
  | some y =>
    -- the batch is ahead, and in front of it the mutex may be released and taken again
    rcases h with ⟨v', hrep, d, a, rfl | rfl | rfl, hd⟩
    · cases hqr
    · cases hqr
      exact ⟨v', hrep, d, a, .inl rfl, hd⟩
    · cases hqr
      exact ⟨v', hrep, d, a, .inr (.inl rfl), hd⟩
  | none =>
    rcases h with rfl | ⟨e, rfl | rfl⟩
    · cases hqr
    · cases hqr
      exact .inr ⟨e, .inr rfl⟩
    · cases hqr

theorem Modifies.not_get {o : Option X} {k : K} {c : Answer V E → Prog K V E α}
    (h : Modifies key Rep o (.get k c)) : False := by
  cases o with
  | some y =>
    rcases h with ⟨v', -, d, a, heq | heq | heq, -⟩
    all_goals cases heq
  | none =>
    rcases h with heq | ⟨e, heq | heq⟩
    all_goals cases heq

theorem Modifies.write {o : Option X} {b : List (Op K V)} {c : Option E → Prog K V E α}
    (h : Modifies key Rep o (.write b c)) :
    ∃ y v' a, o = some y ∧ Rep y (some v') ∧ b = [.delete key, .put key v'] ∧
      c none = .unlock (.ret a) := by
  cases o with
  | some y =>
    rcases h with ⟨v', hrep, d, a, heq | heq | heq, hd⟩
    · cases heq
      exact ⟨y, v', a, rfl, hrep, rfl, hd⟩
    all_goals cases heq
  | none =>
    rcases h with heq | ⟨e, heq | heq⟩
    all_goals cases heq

theorem Modifies.not_returned {o : Option X} {q : Prog K V E α} (h : Modifies key Rep o q) :
    q.returned = false := by
  cases o with
  | some y =>
    rcases h with ⟨v', -, d, a, rfl | rfl | rfl, -⟩
    all_goals rfl
  | none =>
    rcases h with rfl | ⟨e, rfl | rfl⟩
    all_goals rfl

/-- What a thread still has to do at a stage. -/
def AtStage (key : K) (Rep : X → Option V → Prop) (f : X → Option X) (p : Prog K V E α) :
    Stage X → Prog K V E α → Prop
  | .fresh, q => q = p ∨ p = .lock q
  | .read x, q => Modifies key Rep (f x) q
  | .wrote, q => ∃ a, q = .unlock (.ret a) ∨ q = .ret a

theorem AtStage.silent {f : X → Option X} {p q r : Prog K V E α}
    (hp : ReadModifyWrite key Rep f p) {σ : Stage X} (h : AtStage key Rep f p σ q)
    (hqr : Threads.Silent q r) : AtStage key Rep f p σ r := by
  rcases hp with ⟨c, rfl, -⟩
  cases σ with
  | fresh =>
    rcases h with rfl | heq
    · cases hqr
      exact .inr rfl
    · cases heq
      cases hqr
  | read x => exact Modifies.silent h hqr
  | wrote =>
    rcases h with ⟨a, rfl | rfl⟩
    · cases hqr
      exact ⟨a, .inr rfl⟩
    · cases hqr

/-- A `Get` is made at the first stage, of the key. -/
theorem AtStage.get {f : X → Option X} {p : Prog K V E α} (hp : ReadModifyWrite key Rep f p)
    {σ : Stage X} {k : K} {c : Answer V E → Prog K V E α}
    (h : AtStage key Rep f p σ (.get k c)) :
    σ = .fresh ∧ k = key ∧
      ∀ x v, Rep x v → AtStage key Rep f p (.read x) (c (.ofOption v)) := by
  rcases hp with ⟨c₀, rfl, hread⟩
  cases σ with
  | fresh =>
    rcases h with heq | heq
    · cases heq
    · cases heq
      exact ⟨rfl, rfl, hread⟩
  | read x => exact absurd h Modifies.not_get
  | wrote =>
    rcases h with ⟨a, heq | heq⟩
    all_goals cases heq

/-- A `Write` is made at the second one, of the modified value. -/
theorem AtStage.write {f : X → Option X} {p : Prog K V E α} (hp : ReadModifyWrite key Rep f p)
    {σ : Stage X} {b : List (Op K V)} {c : Option E → Prog K V E α}
    (h : AtStage key Rep f p σ (.write b c)) :
    ∃ x y v', σ = .read x ∧ f x = some y ∧ Rep y (some v') ∧ b = [.delete key, .put key v'] ∧
      AtStage key Rep f p .wrote (c none) := by
  rcases hp with ⟨c₀, rfl, -⟩
  cases σ with
  | fresh =>
    rcases h with heq | heq
    all_goals cases heq
  | read x =>
    rcases Modifies.write h with ⟨y, v', a, hf, hrep, hb, hc⟩
    exact ⟨x, y, v', rfl, hf, hrep, hb, a, .inl hc⟩
  | wrote =>
    rcases h with ⟨a, heq | heq⟩
    all_goals cases heq

theorem AtStage.returned {f : X → Option X} {p q : Prog K V E α}
    (hp : ReadModifyWrite key Rep f p) {σ : Stage X} (h : AtStage key Rep f p σ q)
    (hq : q.returned = true) : σ = .wrote := by
  rcases hp with ⟨c, rfl, -⟩
  cases σ with
  | fresh =>
    rcases h with rfl | heq
    · cases hq
    · cases heq
      cases hq
  | read x =>
    rw [Modifies.not_returned h] at hq
    cases hq
  | wrote => rfl

variable [DecidableEq T]

/-- The threads are where the view of their accesses has them. -/
structure Tracks (key : K) (Rep : X → Option V → Prop) (f : T → X → Option X)
    (prog : T → Prog K V E α) (x₀ : X) (w : Threads T M K V E α) (view : View T X) : Prop where
  folds : view = w.accesses.foldl (View.access f) (View.start x₀)
  value : Rep view.value (w.store key)
  progs : ∀ t, AtStage key Rep (f t) (prog t) (view.stage t) (w.prog t)
  counts : ∀ t, w.accesses.count t = (view.stage t).accesses

section Tracks

variable {f : T → X → Option X} {prog : T → Prog K V E α} {x₀ : X}

theorem tracks_start {s : Store K V} (h : Rep x₀ (s key)) :
    Tracks key Rep f prog x₀ (Threads.start s prog : Threads T M K V E α) (View.start x₀) :=
  ⟨rfl, h, fun _ => .inl rfl, fun _ => rfl⟩

/-- An access moves the view by one stage of the thread. -/
theorem Tracks.accessed {w : Threads T M K V E α} {v : View T X}
    (h : Tracks key Rep f prog x₀ w v) {t : T} {x : X} {σ : Stage X} {q : Prog K V E α}
    {s : Store K V} (haccess : v.access f t = ⟨x, Function.update v.stage t σ⟩)
    (hvalue : Rep x (s key)) (hprog : AtStage key Rep (f t) (prog t) σ q)
    (hcount : σ.accesses = (v.stage t).accesses + 1) :
    Tracks key Rep f prog x₀ ⟨s, w.held, Function.update w.prog t q, w.accesses ++ [t]⟩
      (v.access f t) := by
  constructor
  · rw [List.foldl_append, ← h.folds]
    rfl
  · rw [haccess]
    exact hvalue
  · intro t'
    rw [haccess]
    -- the other threads stay at their stages
    by_cases heq : t' = t
    · subst heq
      simp only [Function.update_self]
      exact hprog
    · simp only [Function.update_of_ne heq]
      exact h.progs t'
  · intro t'
    rw [haccess, List.count_append, h.counts t']
    -- only `t` has accessed the store
    by_cases heq : t' = t
    · subst heq
      simp only [List.count_singleton_self, Function.update_self, hcount]
    · simp [Function.update_of_ne heq, Ne.symm heq]

/-- **One step.** The view moves on with the accesses, and with nothing else. -/
theorem Tracks.step [DecidableEq M] [DecidableEq K]
    (hprog : ∀ t, ReadModifyWrite key Rep (f t) (prog t))
    {w : Threads T M K V E α} {v : View T X} (h : Tracks key Rep f prog x₀ w v) (mutexOf : T → M)
    (t : T) : ∃ v', Tracks key Rep f prog x₀ (w.step mutexOf t) v' := by
  have ht := h.progs t
  rcases w.step_cases mutexOf t with hstep | ⟨c, held, hsilent, hstep⟩ | ⟨k, c, hget, hstep⟩ |
    ⟨b, c, hwrite, hstep⟩
  · -- the thread waits for the mutex, or is through
    rw [hstep]
    exact ⟨v, h⟩
  · rw [hstep]
    -- the view stays, as a silent step is none of the accesses
    refine ⟨v, h.folds, h.value, ?_, h.counts⟩
    intro t'
    by_cases heq : t' = t
    · subst heq
      simp only [Function.update_self]
      exact ht.silent (hprog t') hsilent
    · simp only [Function.update_of_ne heq]
      exact h.progs t'
  · rw [hget] at ht
    -- the thread now knows the value that the key has
    rcases ht.get (hprog t) with ⟨hfresh, rfl, hread⟩
    rw [hstep]
    refine ⟨_, h.accessed (View.access_fresh hfresh) h.value (hread _ _ h.value) ?_⟩
    rw [hfresh]
    rfl
  · rw [hwrite] at ht
    -- the batch replaces the value by one that is computed from what has been read
    rcases ht.write (hprog t) with ⟨x, y, v', hread, hf, hrep, rfl, hdone⟩
    rw [hstep]
    refine ⟨_, h.accessed (View.access_read hread hf) ?_ hdone ?_⟩
    · rw [applyBatch_replace, Function.update_self]
      exact hrep
    · rw [hread]
      rfl

/-- **All schedules.** When all threads are through, each has accessed the store twice and
has replaced the value, and the key has the value that these accesses give. -/
theorem rmw_finished [DecidableEq M] [DecidableEq K]
    (hprog : ∀ t, ReadModifyWrite key Rep (f t) (prog t)) {s : Store K V} (h : Rep x₀ (s key))
    (mutexOf : T → M) (sched : List T) {w : Threads T M K V E α}
    (hrun : sched.foldl (Threads.step mutexOf) (Threads.start s prog) = w) (hw : w.Finished) :
    Rep (w.accesses.foldl (View.access f) (View.start x₀)).value (w.store key) ∧
      ∀ t, w.accesses.count t = 2 ∧
        (w.accesses.foldl (View.access f) (View.start x₀)).stage t = .wrote := by
  have hstep : ∀ (w : Threads T M K V E α) (t : T), (∃ v, Tracks key Rep f prog x₀ w v) →
      ∃ v, Tracks key Rep f prog x₀ (w.step mutexOf t) v := by
    rintro w t ⟨v, hv⟩
    exact hv.step hprog mutexOf t
  rcases run_invariant_always hstep ⟨_, tracks_start h⟩ sched with ⟨v, hv⟩
  rw [hrun] at hv
  constructor
  · rw [← hv.folds]
    exact hv.value
  · intro t
    have hwrote := (hv.progs t).returned (hprog t) (hw t)
    constructor
    · rw [hv.counts t, hwrote]
      rfl
    · rw [← hv.folds]
      exact hwrote

end Tracks

end ReadModifyWrite

end FyreDL.Lib.Kv
