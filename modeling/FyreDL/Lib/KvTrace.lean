import FyreDL.Lib.KvProg

/-!
# FyreDL.Lib.KvTrace — what a run looks at, and programs with fuel

1. **Keys.** `readKeys p s` are the keys a run of `p` on `s` looks at. Stores that agree
   on them give the same outcome (`run_congr_of_readKeys`), however the program
   chooses its keys. `LooksIn P p s` says that all of them satisfy `P`, and is proved
   part by part (`LooksIn.bind`).
2. **Writing nothing.** `NoWrites p`: no way through `p` reaches a `write`, so a run
   leaves the store as it is.
3. **Writing certain keys only.** `WritesOnly P p`: whatever faults a run of `p` meets, it
   leaves the keys without `P` (`WritesOnly.exec_store`).
4. **Ways out.** `Ends R T p`: whatever it is answered, `p` returns a value with `R`, throws
   an exception with `T`, or does not end (`Ends.exec`).
5. **Fuel.** A loop that need not end is a family of programs, one for each number of
   rounds, of which each is cut off by `hang`. `Approx p q` says that `q` is `p` with
   some of its `hang`s replaced; whatever `p` returns, `q` returns too (`Approx.run`).
-/

namespace FyreDL.Lib.Kv

variable {K V E α β : Type}

/-! ## Keys looked at -/

section Keys

variable [DecidableEq K]

/-- The keys of the `Get`s of a run, in order. -/
def readKeys : Prog K V E α → Store K V → List K
  | .ret _, _ => []
  | .throw _, _ => []
  | .hang, _ => []
  | .get k c, s => k :: readKeys (c (.ofOption (s k))) s
  | .write b c, s => readKeys (c none) (applyBatch s b)
  | .warn _ c, s => readKeys c s
  | .lock c, s => readKeys c s
  | .unlock c, s => readKeys c s

/-- A batch keeps the agreement of two stores at a key. -/
theorem applyBatch_congr {s t : Store K V} {k : K} (h : s k = t k) (batch : List (Op K V)) :
    applyBatch s batch k = applyBatch t batch k := by
  unfold applyBatch
  induction batch generalizing s t with
  | nil => exact h
  | cons op batch ih =>
    rw [List.foldl_cons, List.foldl_cons]
    apply ih
    cases op with
    | put k' v =>
      -- an operation on the key itself makes both stores agree there
      by_cases hk : k = k'
      · subst hk
        simp [Op.apply]
      · simp [Op.apply, Function.update_of_ne hk, h]
    | delete k' =>
      by_cases hk : k = k'
      · subst hk
        simp [Op.apply]
      · simp [Op.apply, Function.update_of_ne hk, h]

/-- **A run depends on the keys it looks at.** -/
theorem run_congr_of_readKeys {p : Prog K V E α} {s t : Store K V}
    (h : ∀ k ∈ readKeys p s, s k = t k) : (run p s).1 = (run p t).1 := by
  induction p generalizing s t with
  | ret a => rfl
  | throw e => rfl
  | hang => rfl
  | get k c ih =>
    have hk : s k = t k := h k List.mem_cons_self
    rw [run_get, run_get, ← hk]
    exact ih _ fun k' hk' => h k' (List.mem_cons_of_mem _ hk')
  | write b c ih =>
    rw [run_write, run_write]
    exact ih _ fun k' hk' => applyBatch_congr (h k' hk') b
  | warn e c ih => exact ih h
  | lock c ih => exact ih h
  | unlock c ih => exact ih h

/-- All keys that the run looks at satisfy `P`. -/
def LooksIn (P : K → Prop) (p : Prog K V E α) (s : Store K V) : Prop := ∀ k ∈ readKeys p s, P k

theorem LooksIn.ret {P : K → Prop} (a : α) (s : Store K V) :
    LooksIn P (.ret a : Prog K V E α) s := fun _ hk => absurd hk List.not_mem_nil

theorem LooksIn.throw {P : K → Prop} (e : E) (s : Store K V) :
    LooksIn P (.throw e : Prog K V E α) s := fun _ hk => absurd hk List.not_mem_nil

theorem LooksIn.hang {P : K → Prop} (s : Store K V) :
    LooksIn P (.hang : Prog K V E α) s := fun _ hk => absurd hk List.not_mem_nil

theorem LooksIn.warn {P : K → Prop} {e : E} {c : Prog K V E α} {s : Store K V}
    (hc : LooksIn P c s) : LooksIn P (.warn e c) s := hc

theorem LooksIn.get {P : K → Prop} {k : K} {c : Answer V E → Prog K V E α} {s : Store K V}
    (hk : P k) (hc : LooksIn P (c (.ofOption (s k))) s) : LooksIn P (.get k c) s := by
  intro k' hk'
  rcases List.mem_cons.mp hk' with rfl | hin
  · exact hk
  · exact hc k' hin

/-- The second part runs on what the first one left, if it left anything. -/
theorem LooksIn.bind {P : K → Prop} {p : Prog K V E α} {f : α → Prog K V E β} {s : Store K V}
    (hp : LooksIn P p s) (hf : ∀ a s', run p s = (.ret a, s') → LooksIn P (f a) s') :
    LooksIn P (p >>= f) s := by
  change LooksIn P (p.bind f) s
  induction p generalizing s with
  | ret a => exact hf a s rfl
  | throw e => exact LooksIn.throw e s
  | hang => exact LooksIn.hang s
  | get k c ih =>
    apply LooksIn.get (hp k List.mem_cons_self)
    exact ih _ (fun k' hk' => hp k' (List.mem_cons_of_mem _ hk')) hf
  | write b c ih => exact ih _ hp hf
  | warn e c ih => exact ih hp hf
  | lock c ih => exact ih hp hf
  | unlock c ih => exact ih hp hf

theorem LooksIn.locked {P : K → Prop} {p : Prog K V E α} {s : Store K V} (hp : LooksIn P p s) :
    LooksIn P p.locked s := by
  change LooksIn P p.unlockOut s
  induction p generalizing s with
  | ret a => exact hp
  | throw e => exact hp
  | hang => exact hp
  | get k c ih =>
    apply LooksIn.get (hp k List.mem_cons_self)
    exact ih _ fun k' hk' => hp k' (List.mem_cons_of_mem _ hk')
  | write b c ih => exact ih _ hp
  | warn e c ih => exact ih hp
  | lock c ih => exact ih hp
  | unlock c ih => exact ih hp

end Keys

/-! ## Writing nothing -/

/-- No way through the program reaches a `write`. -/
inductive NoWrites : Prog K V E α → Prop where
  | ret (a : α) : NoWrites (.ret a)
  | throw (e : E) : NoWrites (.throw e)
  | hang : NoWrites .hang
  | get {k : K} {c : Answer V E → Prog K V E α} (h : ∀ x, NoWrites (c x)) : NoWrites (.get k c)
  | warn {e : E} {c : Prog K V E α} (h : NoWrites c) : NoWrites (.warn e c)
  | lock {c : Prog K V E α} (h : NoWrites c) : NoWrites (.lock c)
  | unlock {c : Prog K V E α} (h : NoWrites c) : NoWrites (.unlock c)

theorem ReadsOnly.noWrites {P : K → Prop} {p : Prog K V E α} (h : ReadsOnly P p) : NoWrites p := by
  induction h with
  | ret a => exact .ret a
  | throw e => exact .throw e
  | hang => exact .hang
  | get _ _ ih => exact .get ih
  | lock _ ih => exact .lock ih
  | unlock _ ih => exact .unlock ih

theorem NoWrites.bind {p : Prog K V E α} (hp : NoWrites p) {f : α → Prog K V E β}
    (hf : ∀ a, NoWrites (f a)) : NoWrites (p >>= f) := by
  change NoWrites (p.bind f)
  induction hp with
  | ret a => exact hf a
  | throw e => exact .throw e
  | hang => exact .hang
  | get _ ih => exact .get ih
  | warn _ ih => exact .warn ih
  | lock _ ih => exact .lock ih
  | unlock _ ih => exact .unlock ih

theorem NoWrites.locked {p : Prog K V E α} (hp : NoWrites p) : NoWrites p.locked := by
  refine .lock ?_
  induction hp with
  | ret a => exact .unlock (.ret a)
  | throw e => exact .unlock (.throw e)
  | hang => exact .hang
  | get _ ih => exact .get ih
  | warn _ ih => exact .warn ih
  | lock _ ih => exact .lock ih
  | unlock _ ih => exact .unlock ih

theorem NoWrites.tryCatch {p : Prog K V E α} (hp : NoWrites p) {h : E → Prog K V E α}
    (hh : ∀ e, NoWrites (h e)) : NoWrites (p.tryCatch h) := by
  induction hp with
  | ret a => exact .ret a
  | throw e => exact hh e
  | hang => exact .hang
  | get _ ih => exact .get ih
  | warn _ ih => exact .warn ih
  | lock _ ih => exact .lock ih
  | unlock _ ih => exact .unlock ih

theorem NoWrites.run_store [DecidableEq K] {p : Prog K V E α} (hp : NoWrites p) (s : Store K V) :
    (run p s).2 = s := by
  induction hp with
  | ret a => rfl
  | throw e => rfl
  | hang => rfl
  | get _ ih => exact ih _
  | warn _ ih => exact ih
  | lock _ ih => exact ih
  | unlock _ ih => exact ih

/-- What such a run leaves is what it found. -/
theorem NoWrites.store_eq [DecidableEq K] {p : Prog K V E α} (hp : NoWrites p) {s s' : Store K V}
    {o : Outcome E α} (h : run p s = (o, s')) : s' = s := by
  have hstore := hp.run_store s
  rwa [h] at hstore

/-- The whole result, from its outcome. -/
theorem NoWrites.run_eq [DecidableEq K] {p : Prog K V E α} (hp : NoWrites p) {s : Store K V}
    {o : Outcome E α} (h : (run p s).1 = o) : run p s = (o, s) :=
  Prod.ext h (hp.run_store s)

/-! ## Writing certain keys only -/

/-- No way through the program reaches a `write` of a key without `P`. -/
inductive WritesOnly (P : K → Prop) : Prog K V E α → Prop where
  | ret (a : α) : WritesOnly P (.ret a)
  | throw (e : E) : WritesOnly P (.throw e)
  | hang : WritesOnly P .hang
  | get {k : K} {c : Answer V E → Prog K V E α} (h : ∀ x, WritesOnly P (c x)) :
      WritesOnly P (.get k c)
  | write {b : List (Op K V)} {c : Option E → Prog K V E α} (hb : ∀ op ∈ b, P op.key)
      (h : ∀ x, WritesOnly P (c x)) : WritesOnly P (.write b c)
  | warn {e : E} {c : Prog K V E α} (h : WritesOnly P c) : WritesOnly P (.warn e c)
  | lock {c : Prog K V E α} (h : WritesOnly P c) : WritesOnly P (.lock c)
  | unlock {c : Prog K V E α} (h : WritesOnly P c) : WritesOnly P (.unlock c)

section WritesOnly

variable {P : K → Prop}

theorem WritesOnly.bind {p : Prog K V E α} (hp : WritesOnly P p) {f : α → Prog K V E β}
    (hf : ∀ a, WritesOnly P (f a)) : WritesOnly P (p >>= f) := by
  change WritesOnly P (p.bind f)
  induction hp with
  | ret a => exact hf a
  | throw e => exact .throw e
  | hang => exact .hang
  | get _ ih => exact .get ih
  | write hb _ ih => exact .write hb ih
  | warn _ ih => exact .warn ih
  | lock _ ih => exact .lock ih
  | unlock _ ih => exact .unlock ih

theorem WritesOnly.locked {p : Prog K V E α} (hp : WritesOnly P p) : WritesOnly P p.locked := by
  refine .lock ?_
  induction hp with
  | ret a => exact .unlock (.ret a)
  | throw e => exact .unlock (.throw e)
  | hang => exact .hang
  | get _ ih => exact .get ih
  | write hb _ ih => exact .write hb ih
  | warn _ ih => exact .warn ih
  | lock _ ih => exact .lock ih
  | unlock _ ih => exact .unlock ih

theorem WritesOnly.writeOrThrow {batch : List (Op K V)} (h : ∀ op ∈ batch, P op.key) :
    WritesOnly P (Prog.writeOrThrow batch : Prog K V E Unit) := by
  refine .write h ?_
  intro x
  cases x with
  | none => exact .ret ()
  | some e => exact .throw e

/-- **The frame.** Whatever faults it meets and however it ends, such a program leaves the
other keys as they are. -/
theorem WritesOnly.exec_store [DecidableEq K] {p : Prog K V E α} (hp : WritesOnly P p) {k : K}
    (hk : ¬ P k) (F : Faults E) (m : Machine K V E) : (exec F p m).2.store k = m.store k := by
  induction hp generalizing m with
  | ret a => rfl
  | throw e => rfl
  | hang => rfl
  | get _ ih => exact ih _ _
  | write hb _ ih =>
    rename_i b c _
    have hbatch : applyBatch m.store b k = m.store k := by
      apply applyBatch_of_notMem
      rintro op hop rfl
      exact hk (hb op hop)
    rw [exec]
    -- a batch that fails, or is not reached, changes nothing
    split
    · exact (ih _ _).trans hbatch
    · exact ih _ _
    · rfl
  | warn _ ih => exact ih _
  | lock _ ih => exact ih m
  | unlock _ ih => exact ih m

end WritesOnly

/-! ## Ways out -/

/-- All values that the program may return satisfy `R`, all exceptions `T`. -/
inductive Ends (R : α → Prop) (T : E → Prop) : Prog K V E α → Prop where
  | ret {a : α} (h : R a) : Ends R T (.ret a)
  | throw {e : E} (h : T e) : Ends R T (.throw e)
  | hang : Ends R T .hang
  | get {k : K} {c : Answer V E → Prog K V E α} (h : ∀ x, Ends R T (c x)) : Ends R T (.get k c)
  | write {b : List (Op K V)} {c : Option E → Prog K V E α} (h : ∀ x, Ends R T (c x)) :
      Ends R T (.write b c)
  | warn {e : E} {c : Prog K V E α} (h : Ends R T c) : Ends R T (.warn e c)
  | lock {c : Prog K V E α} (h : Ends R T c) : Ends R T (.lock c)
  | unlock {c : Prog K V E α} (h : Ends R T c) : Ends R T (.unlock c)

section Ends

variable {R : α → Prop} {T : E → Prop}

/-- Nothing is said of the ways out. -/
theorem Ends.any (p : Prog K V E α) : Ends (fun _ => True) (fun _ => True) p := by
  induction p with
  | ret a => exact .ret trivial
  | throw e => exact .throw trivial
  | hang => exact .hang
  | get k c ih => exact .get ih
  | write b c ih => exact .write ih
  | warn e c ih => exact .warn ih
  | lock c ih => exact .lock ih
  | unlock c ih => exact .unlock ih

theorem Ends.mono {p : Prog K V E α} (hp : Ends R T p) {R' : α → Prop} (h : ∀ a, R a → R' a) :
    Ends R' T p := by
  induction hp with
  | ret ha => exact .ret (h _ ha)
  | throw he => exact .throw he
  | hang => exact .hang
  | get _ ih => exact .get ih
  | write _ ih => exact .write ih
  | warn _ ih => exact .warn ih
  | lock _ ih => exact .lock ih
  | unlock _ ih => exact .unlock ih

theorem Ends.bind {p : Prog K V E α} (hp : Ends R T p) {R' : β → Prop} {f : α → Prog K V E β}
    (hf : ∀ a, R a → Ends R' T (f a)) : Ends R' T (p >>= f) := by
  change Ends R' T (p.bind f)
  induction hp with
  | ret h => exact hf _ h
  | throw h => exact .throw h
  | hang => exact .hang
  | get _ ih => exact .get ih
  | write _ ih => exact .write ih
  | warn _ ih => exact .warn ih
  | lock _ ih => exact .lock ih
  | unlock _ ih => exact .unlock ih

theorem Ends.tryCatch {p : Prog K V E α} (hp : Ends R T p) {T' : E → Prop}
    {h : E → Prog K V E α} (hh : ∀ e, T e → Ends R T' (h e)) : Ends R T' (p.tryCatch h) := by
  induction hp with
  | ret h => exact .ret h
  | throw h => exact hh _ h
  | hang => exact .hang
  | get _ ih => exact .get ih
  | write _ ih => exact .write ih
  | warn _ ih => exact .warn ih
  | lock _ ih => exact .lock ih
  | unlock _ ih => exact .unlock ih

/-- Where nothing is thrown, a handler has nothing to do. -/
theorem Ends.tryCatch_eq {p : Prog K V E α} (hp : Ends R (fun _ => False) p)
    (h : E → Prog K V E α) : p.tryCatch h = p := by
  induction hp with
  | ret _ => rfl
  | throw he => exact he.elim
  | hang => rfl
  | get _ ih => exact congrArg _ (funext ih)
  | write _ ih => exact congrArg _ (funext ih)
  | warn _ ih => exact congrArg _ ih
  | lock _ ih => exact congrArg _ ih
  | unlock _ ih => exact congrArg _ ih

/-- An exception that is shown and replaced by a value. -/
theorem Ends.shown (p : Prog K V E α) (a : α) (T : E → Prop) :
    Ends (fun _ => True) T (p.tryCatch fun e => .warn e (.ret a)) :=
  (Ends.any p).tryCatch fun _ _ => .warn (.ret trivial)

section Exec

variable [DecidableEq K] {p : Prog K V E α}

/-- **A run ends as its program may**, whatever faults it meets. -/
theorem Ends.exec (h : Ends R T p) (F : Faults E) (m : Machine K V E) :
    (∀ a, (Kv.exec F p m).1 = .ret a → R a) ∧ (∀ e, (Kv.exec F p m).1 = .throw e → T e) := by
  induction h generalizing m with
  | ret h =>
    refine ⟨fun a ha => ?_, fun e he => by cases he⟩
    cases ha
    exact h
  | throw h =>
    refine ⟨fun a ha => (by cases ha), ?_⟩
    intro e he
    cases he
    exact h
  | hang => exact ⟨fun a ha => (by cases ha), fun e he => (by cases he)⟩
  | get _ ih => exact ih _ _
  | write _ ih =>
    rename_i b c _
    rw [Kv.exec]
    split
    · exact ih _ _
    · exact ih _ _
    · exact ⟨fun a ha => (by cases ha), fun e he => (by cases he)⟩
  | warn _ ih => exact ih _
  | lock _ ih => exact ih _
  | unlock _ ih => exact ih _

theorem Ends.exec_ret (h : Ends R T p) {F : Faults E} {m m' : Machine K V E} {a : α}
    (hexec : Kv.exec F p m = (.ret a, m')) : R a := (h.exec F m).1 a (by rw [hexec])

theorem Ends.run_ret (h : Ends R T p) {s s' : Store K V} {a : α}
    (hrun : Kv.run p s = (.ret a, s')) : R a := by
  have hsame := (exec_noFaults p (Machine.start s)).1
  refine (h.exec Faults.none (Machine.start s)).1 a (hsame.trans ?_)
  rw [show (Machine.start s).store = s from rfl, hrun]

end Exec

end Ends

/-! ## Fuel -/

/-- The second program is the first with some of its `hang`s replaced. -/
inductive Approx : Prog K V E α → Prog K V E α → Prop where
  | ret (a : α) : Approx (.ret a) (.ret a)
  | throw (e : E) : Approx (.throw e) (.throw e)
  | hang (q : Prog K V E α) : Approx .hang q
  | get {k : K} {c d : Answer V E → Prog K V E α} (h : ∀ x, Approx (c x) (d x)) :
      Approx (.get k c) (.get k d)
  | write {b : List (Op K V)} {c d : Option E → Prog K V E α} (h : ∀ x, Approx (c x) (d x)) :
      Approx (.write b c) (.write b d)
  | warn {e : E} {c d : Prog K V E α} (h : Approx c d) : Approx (.warn e c) (.warn e d)
  | lock {c d : Prog K V E α} (h : Approx c d) : Approx (.lock c) (.lock d)
  | unlock {c d : Prog K V E α} (h : Approx c d) : Approx (.unlock c) (.unlock d)

theorem Approx.refl (p : Prog K V E α) : Approx p p := by
  induction p with
  | ret a => exact .ret a
  | throw e => exact .throw e
  | hang => exact .hang _
  | get k c ih => exact .get ih
  | write b c ih => exact .write ih
  | warn e c ih => exact .warn ih
  | lock c ih => exact .lock ih
  | unlock c ih => exact .unlock ih

theorem Approx.bind {p q : Prog K V E α} (hp : Approx p q) {f g : α → Prog K V E β}
    (hf : ∀ a, Approx (f a) (g a)) : Approx (p >>= f) (q >>= g) := by
  change Approx (p.bind f) (q.bind g)
  induction hp with
  | ret a => exact hf a
  | throw e => exact .throw e
  | hang q => exact .hang _
  | get _ ih => exact .get ih
  | write _ ih => exact .write ih
  | warn _ ih => exact .warn ih
  | lock _ ih => exact .lock ih
  | unlock _ ih => exact .unlock ih

theorem Approx.locked {p q : Prog K V E α} (hp : Approx p q) : Approx p.locked q.locked := by
  refine .lock ?_
  induction hp with
  | ret a => exact .unlock (.ret a)
  | throw e => exact .unlock (.throw e)
  | hang q => exact .hang _
  | get _ ih => exact .get ih
  | write _ ih => exact .write ih
  | warn _ ih => exact .warn ih
  | lock _ ih => exact .lock ih
  | unlock _ ih => exact .unlock ih

theorem Approx.tryCatch {p q : Prog K V E α} (hp : Approx p q) (h : E → Prog K V E α) :
    Approx (p.tryCatch h) (q.tryCatch h) := by
  induction hp with
  | ret a => exact .ret a
  | throw e => exact Approx.refl (h e)
  | hang q => exact .hang _
  | get _ ih => exact .get ih
  | write _ ih => exact .write ih
  | warn _ ih => exact .warn ih
  | lock _ ih => exact .lock ih
  | unlock _ ih => exact .unlock ih

/-- What ends is not changed by more rounds. -/
theorem Approx.run [DecidableEq K] {p q : Prog K V E α} (h : Approx p q) (s : Store K V)
    (hends : (Kv.run p s).1 ≠ .hung) : Kv.run q s = Kv.run p s := by
  induction h generalizing s with
  | ret a => rfl
  | throw e => rfl
  | hang q => exact absurd rfl hends
  | get _ ih => exact ih _ s hends
  | write _ ih => exact ih _ _ hends
  | warn _ ih => exact ih s hends
  | lock _ ih => exact ih s hends
  | unlock _ ih => exact ih s hends

end FyreDL.Lib.Kv
