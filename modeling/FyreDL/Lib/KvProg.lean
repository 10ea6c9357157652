import Mathlib.Logic.Function.Basic
import Mathlib.Data.List.Basic

/-!
# FyreDL.Lib.KvProg — programs over a key-value store

A program that works on a store with single `Get`s and atomic batch `Write`s, as a
tree of these operations. One tree has several readings:

* `run` — alone and without faults: the outcome and the final store;
* `exec` — alone, with a fault schedule: any `Get` may be answered with an error,
  and any `Write` may fail or be the point at which the program stops;
* the tree itself, for interleaving two programs operation by operation. `lock`
  and `unlock` mark the sections that a mutex keeps together; they have no effect
  on a program that runs alone.

`throw` is an exception, `hang` a loop that never ends, and `warn` a message to
the user. The rules below compute `run` and `exec` through `bind`, `tryCatch` and
`locked`; `exec_noFaults` says that `run` is `exec` without faults.
-/

namespace FyreDL.Lib.Kv

/-- One operation of a write batch. -/
inductive Op (K V : Type) where
  | put (key : K) (value : V)
  | delete (key : K)
deriving DecidableEq, Repr

/-- The answer to a `Get`. -/
inductive Answer (V E : Type) where
  | found (value : V)
  | notFound
  | error (e : E)
deriving DecidableEq, Repr

inductive Prog (K V E α : Type) where
  | ret (a : α)
  | throw (e : E)
  | hang
  | get (key : K) (cont : Answer V E → Prog K V E α)
  | write (batch : List (Op K V)) (cont : Option E → Prog K V E α)
  | warn (e : E) (cont : Prog K V E α)
  | lock (cont : Prog K V E α)
  | unlock (cont : Prog K V E α)

variable {K V E α β : Type}

namespace Prog

def bind : Prog K V E α → (α → Prog K V E β) → Prog K V E β
  | ret a, f => f a
  | throw e, _ => throw e
  | hang, _ => hang
  | get k c, f => get k fun x => (c x).bind f
  | write b c, f => write b fun x => (c x).bind f
  | warn e c, f => warn e (c.bind f)
  | lock c, f => lock (c.bind f)
  | unlock c, f => unlock (c.bind f)

instance : Monad (Prog K V E) where
  pure := ret
  bind := bind

@[simp] theorem pure_bind (a : α) (f : α → Prog K V E β) : (pure a >>= f) = f a := rfl

@[simp] theorem ret_bind (a : α) (f : α → Prog K V E β) : (ret a >>= f) = f a := rfl

@[simp] theorem throw_bind (e : E) (f : α → Prog K V E β) : (throw e >>= f) = throw e := rfl

@[simp] theorem hang_bind (f : α → Prog K V E β) : (hang >>= f) = hang := rfl

/-- `try { p } catch (e) { handler e }`. -/
def tryCatch : Prog K V E α → (E → Prog K V E α) → Prog K V E α
  | ret a, _ => ret a
  | throw e, h => h e
  | hang, _ => hang
  | get k c, h => get k fun x => (c x).tryCatch h
  | write b c, h => write b fun x => (c x).tryCatch h
  | warn e c, h => warn e (c.tryCatch h)
  | lock c, h => lock (c.tryCatch h)
  | unlock c, h => unlock (c.tryCatch h)

/-- Release the mutex on every way out. -/
def unlockOut : Prog K V E α → Prog K V E α
  | ret a => unlock (ret a)
  | throw e => unlock (throw e)
  | hang => hang
  | get k c => get k fun x => (c x).unlockOut
  | write b c => write b fun x => (c x).unlockOut
  | warn e c => warn e c.unlockOut
  | lock c => lock c.unlockOut
  | unlock c => unlock c.unlockOut

/-- A scope that holds the mutex, as with a `lock_guard`. -/
def locked (p : Prog K V E α) : Prog K V E α := lock p.unlockOut

/-- A `Write` whose failure is thrown. -/
def writeOrThrow (batch : List (Op K V)) : Prog K V E Unit :=
  write batch fun
    | none => ret ()
    | some e => throw e

/-- Batches written one after the other, each in a section of its own. -/
def writeAll : List (List (Op K V)) → Prog K V E Unit
  | [] => ret ()
  | batch :: rest => (writeOrThrow batch).locked >>= fun _ => writeAll rest

end Prog

/-! ## Programs that only read -/

/-- A program that reads keys with `P` only, writes nothing and shows nothing. -/
inductive ReadsOnly (P : K → Prop) : Prog K V E α → Prop where
  | ret (a : α) : ReadsOnly P (.ret a)
  | throw (e : E) : ReadsOnly P (.throw e)
  | hang : ReadsOnly P .hang
  | get {k : K} {c : Answer V E → Prog K V E α} (hk : P k) (h : ∀ x, ReadsOnly P (c x)) :
      ReadsOnly P (.get k c)
  | lock {c : Prog K V E α} (h : ReadsOnly P c) : ReadsOnly P (.lock c)
  | unlock {c : Prog K V E α} (h : ReadsOnly P c) : ReadsOnly P (.unlock c)

theorem ReadsOnly.bind {P : K → Prop} {p : Prog K V E α} (hp : ReadsOnly P p)
    {f : α → Prog K V E β} (hf : ∀ a, ReadsOnly P (f a)) : ReadsOnly P (p >>= f) := by
  change ReadsOnly P (p.bind f)
  induction hp with
  | ret a => exact hf a
  | throw e => exact .throw e
  | hang => exact .hang
  | get hk h ih => exact .get hk fun x => ih x
  | lock h ih => exact .lock ih
  | unlock h ih => exact .unlock ih

theorem ReadsOnly.locked {P : K → Prop} {p : Prog K V E α} (hp : ReadsOnly P p) :
    ReadsOnly P p.locked := by
  refine .lock ?_
  induction hp with
  | ret a => exact .unlock (.ret a)
  | throw e => exact .unlock (.throw e)
  | hang => exact .hang
  | get hk h ih => exact .get hk fun x => ih x
  | lock h ih => exact .lock ih
  | unlock h ih => exact .unlock ih

/-! ## Stores -/

/-- The content of the store. -/
abbrev Store (K V : Type) := K → Option V

section Store

variable [DecidableEq K]

def Op.apply (s : Store K V) : Op K V → Store K V
  | .put k v => Function.update s k (some v)
  | .delete k => Function.update s k none

/-- A batch, applied as one. -/
def applyBatch (s : Store K V) (batch : List (Op K V)) : Store K V :=
  batch.foldl Op.apply s

/-- The key an operation touches. -/
def Op.key : Op K V → K
  | .put k _ => k
  | .delete k => k

theorem applyBatch_of_notMem {batch : List (Op K V)} {k : K} (h : ∀ op ∈ batch, op.key ≠ k)
    (s : Store K V) : applyBatch s batch k = s k := by
  induction batch generalizing s with
  | nil => rfl
  | cons op batch ih =>
    have hop : k ≠ op.key := (h op List.mem_cons_self).symm
    have hstep : Op.apply s op k = s k := by
      cases op <;> exact Function.update_of_ne hop _ _
    rw [applyBatch, List.foldl_cons]
    exact (ih (fun o ho => h o (List.mem_cons_of_mem _ ho)) _).trans hstep

@[simp] theorem applyBatch_replace (s : Store K V) (k : K) (v : V) :
    applyBatch s [.delete k, .put k v] = Function.update s k (some v) := by
  simp [applyBatch, Op.apply]

@[simp] theorem applyBatch_delete (s : Store K V) (k : K) :
    applyBatch s [.delete k] = Function.update s k none := rfl

end Store

/-! ## Running alone, without faults -/

inductive Outcome (E α : Type) where
  | ret (a : α)
  | throw (e : E)
  | hung
  | stopped
deriving DecidableEq, Repr

/-- The answer of a store that has no fault. -/
def Answer.ofOption : Option V → Answer V E
  | some v => .found v
  | none => .notFound

section Run

variable [DecidableEq K]

def run : Prog K V E α → Store K V → Outcome E α × Store K V
  | .ret a, s => (.ret a, s)
  | .throw e, s => (.throw e, s)
  | .hang, s => (.hung, s)
  | .get k c, s => run (c (.ofOption (s k))) s
  | .write b c, s => run (c none) (applyBatch s b)
  | .warn _ c, s => run c s
  | .lock c, s => run c s
  | .unlock c, s => run c s

@[simp] theorem run_pure (a : α) (s : Store K V) :
    run (pure a : Prog K V E α) s = (.ret a, s) := rfl

@[simp] theorem run_throw (e : E) (s : Store K V) :
    run (.throw e : Prog K V E α) s = (.throw e, s) := rfl

@[simp] theorem run_hang (s : Store K V) : run (.hang : Prog K V E α) s = (.hung, s) := rfl

@[simp] theorem run_ret (a : α) (s : Store K V) :
    run (.ret a : Prog K V E α) s = (.ret a, s) := rfl

@[simp] theorem run_get (k : K) (c : Answer V E → Prog K V E α) (s : Store K V) :
    run (.get k c) s = run (c (.ofOption (s k))) s := rfl

@[simp] theorem run_write (b : List (Op K V)) (c : Option E → Prog K V E α) (s : Store K V) :
    run (.write b c) s = run (c none) (applyBatch s b) := rfl

@[simp] theorem run_warn (e : E) (c : Prog K V E α) (s : Store K V) :
    run (.warn e c) s = run c s := rfl

@[simp] theorem run_writeOrThrow (batch : List (Op K V)) (s : Store K V) :
    run (Prog.writeOrThrow batch : Prog K V E Unit) s = (.ret (), applyBatch s batch) := rfl

/-- Continue with the value a part returned, or leave the way it left. -/
def Outcome.andThen {S : Type} (r : Outcome E α × S) (f : α → S → Outcome E β × S) :
    Outcome E β × S :=
  match r with
  | (.ret a, s) => f a s
  | (.throw e, s) => (.throw e, s)
  | (.hung, s) => (.hung, s)
  | (.stopped, s) => (.stopped, s)

theorem run_bind (p : Prog K V E α) (f : α → Prog K V E β) (s : Store K V) :
    run (p >>= f) s = Outcome.andThen (run p s) fun a s' => run (f a) s' := by
  change run (p.bind f) s = _
  induction p generalizing s with
  | ret a => rfl
  | throw e => rfl
  | hang => rfl
  | get k c ih => exact ih _ s
  | write b c ih => exact ih _ _
  | warn e c ih => exact ih s
  | lock c ih => exact ih s
  | unlock c ih => exact ih s

theorem run_bind_ret {p : Prog K V E α} {s s' : Store K V} {a : α}
    (h : run p s = (.ret a, s')) (f : α → Prog K V E β) :
    run (p >>= f) s = run (f a) s' := by
  rw [run_bind, h]
  rfl

theorem run_bind_throw {p : Prog K V E α} {s s' : Store K V} {e : E}
    (h : run p s = (.throw e, s')) (f : α → Prog K V E β) :
    run (p >>= f) s = (.throw e, s') := by
  rw [run_bind, h]
  rfl

/-- A sequence that returns has returned from both parts. -/
theorem run_bind_eq_ret {p : Prog K V E α} {f : α → Prog K V E β} {s s' : Store K V} {b : β}
    (h : run (p >>= f) s = (.ret b, s')) :
    ∃ a s₁, run p s = (.ret a, s₁) ∧ run (f a) s₁ = (.ret b, s') := by
  rw [run_bind] at h
  rcases hp : run p s with ⟨o, s₁⟩
  rw [hp] at h
  cases o with
  | ret a => exact ⟨a, s₁, rfl, h⟩
  | throw e => cases h
  | hung => cases h
  | stopped => cases h

theorem run_tryCatch (p : Prog K V E α) (h : E → Prog K V E α) (s : Store K V) :
    run (p.tryCatch h) s =
      match run p s with
      | (.throw e, s') => run (h e) s'
      | r => r := by
  induction p generalizing s with
  | ret a => rfl
  | throw e => rfl
  | hang => rfl
  | get k c ih => exact ih _ s
  | write b c ih => exact ih _ _
  | warn e c ih => exact ih s
  | lock c ih => exact ih s
  | unlock c ih => exact ih s

/-- A guarded program that returns does so itself or by its handler. -/
theorem run_tryCatch_eq_ret {p : Prog K V E α} {h : E → Prog K V E α} {s s' : Store K V} {a : α}
    (hrun : run (p.tryCatch h) s = (.ret a, s')) :
    run p s = (.ret a, s') ∨
      ∃ e s₁, run p s = (.throw e, s₁) ∧ run (h e) s₁ = (.ret a, s') := by
  rw [run_tryCatch] at hrun
  rcases hp : run p s with ⟨o, s₁⟩
  rw [hp] at hrun
  cases o with
  | ret b => exact Or.inl hrun
  | throw e => exact Or.inr ⟨e, s₁, rfl, hrun⟩
  | hung => cases hrun
  | stopped => cases hrun

theorem run_tryCatch_ret {p : Prog K V E α} {s s' : Store K V} {a : α}
    (hp : run p s = (.ret a, s')) (h : E → Prog K V E α) :
    run (p.tryCatch h) s = (.ret a, s') := by
  rw [run_tryCatch, hp]

/-- Only a fault stops a program. -/
theorem run_ne_stopped (p : Prog K V E α) (s : Store K V) : (run p s).1 ≠ .stopped := by
  induction p generalizing s with
  | ret a => exact nofun
  | throw e => exact nofun
  | hang => exact nofun
  | get k c ih => exact ih _ s
  | write b c ih => exact ih _ _
  | warn e c ih => exact ih s
  | lock c ih => exact ih s
  | unlock c ih => exact ih s

@[simp] theorem run_locked (p : Prog K V E α) (s : Store K V) : run p.locked s = run p s := by
  change run p.unlockOut s = run p s
  induction p generalizing s with
  | ret a => rfl
  | throw e => rfl
  | hang => rfl
  | get k c ih => exact ih _ s
  | write b c ih => exact ih _ _
  | warn e c ih => exact ih s
  | lock c ih => exact ih s
  | unlock c ih => exact ih s

theorem run_writeAll (batches : List (List (Op K V))) (s : Store K V) :
    run (Prog.writeAll batches : Prog K V E Unit) s = (.ret (), batches.foldl applyBatch s) := by
  induction batches generalizing s with
  | nil => rfl
  | cons batch rest ih =>
    have hfirst : run (Prog.writeOrThrow batch : Prog K V E Unit).locked s =
        (.ret (), applyBatch s batch) := by rw [run_locked, run_writeOrThrow]
    rw [Prog.writeAll, run_bind_ret hfirst]
    exact ih _

/-- A read-only program leaves the store as it is. -/
theorem run_readsOnly {P : K → Prop} {p : Prog K V E α} (hp : ReadsOnly P p) (s : Store K V) :
    (run p s).2 = s := by
  induction hp with
  | ret a => rfl
  | throw e => rfl
  | hang => rfl
  | get hk h ih => exact ih _
  | lock h ih => exact ih
  | unlock h ih => exact ih

/-- What it returns depends on the keys it may read. -/
theorem run_readsOnly_congr {P : K → Prop} {p : Prog K V E α} (hp : ReadsOnly P p)
    {s t : Store K V} (h : ∀ k, P k → s k = t k) : (run p s).1 = (run p t).1 := by
  induction hp with
  | ret a => rfl
  | throw e => rfl
  | hang => rfl
  | get hk hc ih =>
    rename_i k c
    rw [run_get, run_get, h k hk]
    exact ih _
  | lock hc ih => exact ih
  | unlock hc ih => exact ih

end Run

/-! ## Running alone, with faults -/

/-- What becomes of a `Write`: applied, refused with an error, or not reached
because the program stops right before it. -/
inductive Fate (E : Type) where
  | done
  | fails (e : E)
  | stops
deriving DecidableEq, Repr

/-- The fault schedule, by the number of operations of the kind done before. -/
structure Faults (E : Type) where
  get : Nat → Option E
  write : Nat → Fate E

def Faults.none : Faults E := ⟨fun _ => .none, fun _ => .done⟩

/-- The only fault is the fate of the `Write` number `k`, counted from 0. -/
def Faults.atWrite (k : Nat) (fate : Fate E) : Faults E :=
  ⟨fun _ => .none, fun n => if n = k then fate else .done⟩

/-- Only `Get`s fail: the one number `n` with the error `get n`, counted from 0. -/
def Faults.atGets (get : Nat → Option E) : Faults E := ⟨get, fun _ => .done⟩

/-- The store, the operations done so far and the messages shown. -/
structure Machine (K V E : Type) where
  store : Store K V
  gets : Nat
  writes : Nat
  log : List E

def Machine.start (s : Store K V) : Machine K V E := ⟨s, 0, 0, []⟩

section Exec

variable [DecidableEq K]

def exec (F : Faults E) : Prog K V E α → Machine K V E → Outcome E α × Machine K V E
  | .ret a, m => (.ret a, m)
  | .throw e, m => (.throw e, m)
  | .hang, m => (.hung, m)
  | .get k c, m =>
    exec F (c (match F.get m.gets with
      | some e => .error e
      | none => .ofOption (m.store k))) { m with gets := m.gets + 1 }
  | .write b c, m =>
    match F.write m.writes with
    | .done =>
      exec F (c none) { m with store := applyBatch m.store b, writes := m.writes + 1 }
    | .fails e => exec F (c (some e)) { m with writes := m.writes + 1 }
    | .stops => (.stopped, m)
  | .warn e c, m => exec F c { m with log := m.log ++ [e] }
  | .lock c, m => exec F c m
  | .unlock c, m => exec F c m

theorem exec_bind (F : Faults E) (p : Prog K V E α) (f : α → Prog K V E β)
    (m : Machine K V E) :
    exec F (p >>= f) m = Outcome.andThen (exec F p m) fun a m' => exec F (f a) m' := by
  change exec F (p.bind f) m = _
  induction p generalizing m with
  | ret a => rfl
  | throw e => rfl
  | hang => rfl
  | get k c ih => exact ih _ _
  | write b c ih =>
    simp only [Prog.bind, exec]
    cases F.write m.writes with
    | done => exact ih _ _
    | fails e => exact ih _ _
    | stops => rfl
  | warn e c ih => exact ih _
  | lock c ih => exact ih m
  | unlock c ih => exact ih m

theorem exec_tryCatch (F : Faults E) (p : Prog K V E α) (h : E → Prog K V E α)
    (m : Machine K V E) :
    exec F (p.tryCatch h) m =
      match exec F p m with
      | (.throw e, m') => exec F (h e) m'
      | r => r := by
  induction p generalizing m with
  | ret a => rfl
  | throw e => rfl
  | hang => rfl
  | get k c ih => exact ih _ _
  | write b c ih =>
    simp only [Prog.tryCatch, exec]
    cases F.write m.writes with
    | done => exact ih _ _
    | fails e => exact ih _ _
    | stops => rfl
  | warn e c ih => exact ih _
  | lock c ih => exact ih m
  | unlock c ih => exact ih m

@[simp] theorem exec_locked (F : Faults E) (p : Prog K V E α) (m : Machine K V E) :
    exec F p.locked m = exec F p m := by
  change exec F p.unlockOut m = exec F p m
  induction p generalizing m with
  | ret a => rfl
  | throw e => rfl
  | hang => rfl
  | get k c ih => exact ih _ _
  | write b c ih =>
    simp only [Prog.unlockOut, exec]
    cases F.write m.writes with
    | done => exact ih _ _
    | fails e => exact ih _ _
    | stops => rfl
  | warn e c ih => exact ih _
  | lock c ih => exact ih m
  | unlock c ih => exact ih m

/-- When no `Get` fails, a read-only program is unaffected by the fate of writes. -/
theorem exec_readsOnly {P : K → Prop} {p : Prog K V E α} (hp : ReadsOnly P p) {F : Faults E}
    (hF : ∀ n, F.get n = .none) (m : Machine K V E) :
    ∃ gets, exec F p m = ((run p m.store).1, { m with gets := gets }) := by
  induction hp generalizing m with
  | ret a => exact ⟨m.gets, rfl⟩
  | throw e => exact ⟨m.gets, rfl⟩
  | hang => exact ⟨m.gets, rfl⟩
  | get hk h ih =>
    rename_i k c
    obtain ⟨gets, hexec⟩ := ih (.ofOption (m.store k)) { m with gets := m.gets + 1 }
    refine ⟨gets, ?_⟩
    rw [exec, hF m.gets]
    exact hexec
  | lock h ih => exact ih m
  | unlock h ih => exact ih m

/-- A read-only program leaves the store as it is, whatever fails. -/
theorem exec_readsOnly_store {P : K → Prop} {p : Prog K V E α} (hp : ReadsOnly P p)
    (F : Faults E) (m : Machine K V E) : (exec F p m).2.store = m.store := by
  induction hp generalizing m with
  | ret a => rfl
  | throw e => rfl
  | hang => rfl
  | get hk h ih => exact ih _ { m with gets := m.gets + 1 }
  | lock h ih => exact ih m
  | unlock h ih => exact ih m

/-- The program did not return, and left this store. -/
def Interrupted (r : Outcome E α × Machine K V E) (t : Store K V) : Prop :=
  (∀ a, r.1 ≠ .ret a) ∧ r.2.store = t

omit [DecidableEq K] in
theorem Interrupted.store {r : Outcome E α × Machine K V E} {t : Store K V}
    (h : Interrupted r t) : r.2.store = t := h.2

theorem Interrupted.bind {F : Faults E} {p : Prog K V E α} {m : Machine K V E} {t : Store K V}
    (h : Interrupted (exec F p m) t) (f : α → Prog K V E β) :
    Interrupted (exec F (p >>= f) m) t := by
  rcases h with ⟨hret, hstore⟩
  rw [exec_bind]
  rcases hp : exec F p m with ⟨o, m'⟩
  rw [hp] at hret hstore
  -- what did not return does not get to the rest
  cases o with
  | ret a => exact absurd rfl (hret a)
  | throw e =>
    refine ⟨fun b hb => ?_, hstore⟩
    cases hb
  | hung =>
    refine ⟨fun b hb => ?_, hstore⟩
    cases hb
  | stopped =>
    refine ⟨fun b hb => ?_, hstore⟩
    cases hb

/-- A part that returns hands over to the rest. -/
theorem exec_bind_ret {F : Faults E} {p : Prog K V E α} {m m' : Machine K V E} {a : α}
    (h : exec F p m = (.ret a, m')) (f : α → Prog K V E β) :
    exec F (p >>= f) m = exec F (f a) m' := by
  rw [exec_bind, h]
  rfl

/-- A sequence that returns has returned from both parts. -/
theorem exec_bind_eq_ret {F : Faults E} {p : Prog K V E α} {f : α → Prog K V E β}
    {m m' : Machine K V E} {b : β} (h : exec F (p >>= f) m = (.ret b, m')) :
    ∃ a m₁, exec F p m = (.ret a, m₁) ∧ exec F (f a) m₁ = (.ret b, m') := by
  rw [exec_bind] at h
  rcases hp : exec F p m with ⟨o, m₁⟩
  rw [hp] at h
  cases o with
  | ret a => exact ⟨a, m₁, rfl, h⟩
  | throw e => cases h
  | hung => cases h
  | stopped => cases h

/-- Reading in front of an interrupted part changes nothing. -/
theorem interrupted_readsOnly_bind {P : K → Prop} {p : Prog K V E α} (hp : ReadsOnly P p)
    {F : Faults E} (hF : ∀ n, F.get n = .none) {m : Machine K V E} {f : α → Prog K V E β}
    (hf : ∀ a gets, Interrupted (exec F (f a) { m with gets := gets }) m.store) :
    Interrupted (exec F (p >>= f) m) m.store := by
  rcases exec_readsOnly hp hF m with ⟨gets, hexec⟩
  rw [exec_bind, hexec]
  cases (run p m.store).1 with
  | ret a => exact hf a gets
  | throw e =>
    refine ⟨fun b hb => ?_, rfl⟩
    cases hb
  | hung =>
    refine ⟨fun b hb => ?_, rfl⟩
    cases hb
  | stopped =>
    refine ⟨fun b hb => ?_, rfl⟩
    cases hb

/-- The faulty `Write` itself. -/
theorem interrupted_writeOrThrow {k : Nat} {fate : Fate E} (hfate : fate ≠ .done)
    (batch : List (Op K V)) {m : Machine K V E} (hk : m.writes = k) :
    Interrupted (exec (Faults.atWrite k fate) (Prog.writeOrThrow batch) m) m.store := by
  subst hk
  simp only [Prog.writeOrThrow, exec, Faults.atWrite, if_true]
  cases fate with
  | done => exact absurd rfl hfate
  | fails e =>
    constructor
    · intro a ha
      cases ha
    · rfl
  | stops =>
    constructor
    · intro a ha
      cases ha
    · rfl

/-- Any other `Write`. -/
theorem exec_writeOrThrow {k : Nat} {fate : Fate E} (batch : List (Op K V))
    {m : Machine K V E} (hk : m.writes ≠ k) :
    exec (Faults.atWrite k fate) (Prog.writeOrThrow batch) m =
      (.ret (), { m with store := applyBatch m.store batch, writes := m.writes + 1 }) := by
  simp only [Prog.writeOrThrow, exec, Faults.atWrite, if_neg hk]

/-- A fault among the batches leaves those in front of it applied. The induction is
on the batches; the number of the faulty one counts down with it. -/
theorem interrupted_writeAll {k : Nat} {fate : Fate E} (hfate : fate ≠ .done)
    (batches : List (List (Op K V))) :
    ∀ {m : Machine K V E}, m.writes ≤ k → k < m.writes + batches.length →
      Interrupted (exec (Faults.atWrite k fate) (Prog.writeAll batches) m)
        ((batches.take (k - m.writes)).foldl applyBatch m.store) := by
  induction batches with
  | nil =>
    intro m hlo hhi
    rw [List.length_nil] at hhi
    omega
  | cons batch rest ih =>
    intro m hlo hhi
    rw [List.length_cons] at hhi
    rw [Prog.writeAll]
    by_cases hk : m.writes = k
    · -- the fault is here
      rw [hk, Nat.sub_self, List.take_zero, List.foldl_nil]
      apply Interrupted.bind
      rw [exec_locked]
      exact interrupted_writeOrThrow hfate batch hk
    · have hfirst : exec (Faults.atWrite k fate) (Prog.writeOrThrow batch).locked m =
          (.ret (), { m with store := applyBatch m.store batch, writes := m.writes + 1 }) := by
        rw [exec_locked, exec_writeOrThrow batch hk]
      have hcount : k - m.writes = (k - (m.writes + 1)) + 1 := by omega
      rw [exec_bind_ret hfirst, hcount, List.take_succ_cons, List.foldl_cons]
      apply ih
      · show m.writes + 1 ≤ k
        omega
      · show k < m.writes + 1 + rest.length
        omega

/-- A fault outside of the batches leaves them all applied. -/
theorem exec_writeAll {k : Nat} {fate : Fate E} (batches : List (List (Op K V))) :
    ∀ {m : Machine K V E}, k < m.writes ∨ m.writes + batches.length ≤ k →
      exec (Faults.atWrite k fate) (Prog.writeAll batches) m =
        (.ret (), { m with
          store := batches.foldl applyBatch m.store
          writes := m.writes + batches.length }) := by
  induction batches with
  | nil => intro m _; rfl
  | cons batch rest ih =>
    intro m hk
    rw [List.length_cons] at hk
    -- the fault is not at this batch, so it is applied
    have hne : m.writes ≠ k := by omega
    have hfirst : exec (Faults.atWrite k fate) (Prog.writeOrThrow batch).locked m =
        (.ret (), { m with store := applyBatch m.store batch, writes := m.writes + 1 }) := by
      rw [exec_locked, exec_writeOrThrow batch hne]
    have hrest : k < m.writes + 1 ∨ m.writes + 1 + rest.length ≤ k := by omega
    rw [Prog.writeAll, exec_bind_ret hfirst, ih hrest]
    simp only [List.foldl_cons, List.length_cons]
    rw [Nat.add_assoc, Nat.add_comm 1]

/-- When only `Get`s fail, all batches are applied. -/
theorem exec_writeAll_atGets (get : Nat → Option E) (batches : List (List (Op K V)))
    (m : Machine K V E) :
    exec (Faults.atGets get) (Prog.writeAll batches) m =
      (.ret (), { m with
        store := batches.foldl applyBatch m.store
        writes := m.writes + batches.length }) := by
  induction batches generalizing m with
  | nil => rfl
  | cons batch rest ih =>
    have hfirst : exec (Faults.atGets get) (Prog.writeOrThrow batch).locked m =
        (.ret (), { m with store := applyBatch m.store batch, writes := m.writes + 1 }) := by
      rw [exec_locked]
      rfl
    rw [Prog.writeAll, exec_bind_ret hfirst, ih]
    simp only [List.foldl_cons, List.length_cons]
    rw [Nat.add_assoc, Nat.add_comm 1]

/-- Without faults `exec` is `run`. -/
theorem exec_noFaults (p : Prog K V E α) (m : Machine K V E) :
    (exec Faults.none p m).1 = (run p m.store).1 ∧
      (exec Faults.none p m).2.store = (run p m.store).2 := by
  induction p generalizing m with
  | ret a => exact ⟨rfl, rfl⟩
  | throw e => exact ⟨rfl, rfl⟩
  | hang => exact ⟨rfl, rfl⟩
  | get k c ih => exact ih (.ofOption (m.store k)) { m with gets := m.gets + 1 }
  | write b c ih =>
    exact ih .none { m with store := applyBatch m.store b, writes := m.writes + 1 }
  | warn e c ih => exact ih { m with log := m.log ++ [e] }
  | lock c ih => exact ih m
  | unlock c ih => exact ih m

end Exec

end FyreDL.Lib.Kv
