import FyreDL.Lib.KvSections
import FyreDL.Lib.KvTrace

/-!
# FyreDL.Lib.KvSerial — concurrent additions that are as good as serial ones

A call that adds something registers it in one section, on keys that all such calls share,
and then writes the rest under keys of its own, a section for each batch. Others may read in
between, and may read half of it.

* `Additions` — a family of such calls: what each one registers, and what it writes then.
* `Additions.effect` — what such a call does as a whole.
* `Serial` — the object against the serial execution of the calls that have registered: what is
  missing is what these calls still have to write.
* `Serial.sectionStep` — every section keeps this; the one that registers is where the
  serial execution makes its step.
* `serial_of_ended` — at the end nothing is missing.
-/

namespace FyreDL.Lib.Kv

variable {T G K V E α β : Type}

/-! ## The parts of a call -/

section Parts

variable [DecidableEq K]

/-- The program begins with a section, which leads it and the store on. -/
def FirstSection (p : Prog K V E α) (s : Store K V) (p' : Prog K V E α) (s' : Store K V) : Prop :=
  ∃ c, p = .lock c ∧ finishSection c s = some (p', s')

section FirstSection

variable {p p' : Prog K V E α} {s s' : Store K V}

theorem FirstSection.locked {a : α} (hp : Plain p) (h : run p s = (.ret a, s')) :
    FirstSection p.locked s (.ret a) s' := ⟨_, rfl, finishSection_unlockOut hp h⟩

theorem FirstSection.bind (h : FirstSection p s p' s') (f : α → Prog K V E β) :
    FirstSection (p >>= f) s (p' >>= f) s' := by
  rcases h with ⟨c, rfl, hc⟩
  exact ⟨_, rfl, finishSection_bind hc f⟩

theorem FirstSection.tryCatch (h : FirstSection p s p' s') (handler : E → Prog K V E α) :
    FirstSection (p.tryCatch handler) s (p'.tryCatch handler) s' := by
  rcases h with ⟨c, rfl, hc⟩
  exact ⟨_, rfl, finishSection_tryCatch hc handler⟩

theorem run_finishSection {c : Prog K V E α} (h : finishSection c s = some (p', s')) :
    run c s = run p' s' := by
  induction c generalizing s with
  | ret a => cases h
  | throw e => cases h
  | hang => cases h
  | get k c ih => exact ih _ h
  | write b c ih => exact ih _ h
  | warn e c ih => exact ih h
  | lock c _ => cases h
  | unlock c _ =>
    cases h
    rfl

theorem FirstSection.run_eq (h : FirstSection p s p' s') : run p s = run p' s' := by
  rcases h with ⟨c, rfl, hc⟩
  change run c s = run p' s'
  exact run_finishSection hc

end FirstSection

/-- The program writes these batches, each in a section of its own, and returns `a`. -/
inductive Fills (a : α) : List (List (Op K V)) → Prog K V E α → Prop where
  | ret : Fills a [] (.ret a)
  | write {batch : List (Op K V)} {rest : List (List (Op K V))} {c p : Prog K V E α}
      (hc : ∀ s, finishSection c s = some (p, applyBatch s batch)) (h : Fills a rest p) :
      Fills a (batch :: rest) (.lock c)

theorem Fills.bind {a : α} {l l' : List (List (Op K V))} {p : Prog K V E α} (hp : Fills a l p)
    {b : β} {f : α → Prog K V E β} (hf : Fills b l' (f a)) : Fills b (l ++ l') (p >>= f) := by
  induction hp with
  | ret => exact hf
  | write hc _ ih => exact .write (fun s => finishSection_bind (hc s) f) ih

theorem Fills.map {a : α} {l : List (List (Op K V))} {p : Prog K V E α} (hp : Fills a l p)
    (f : α → β) : Fills (f a) l (p >>= fun a => (.ret (f a) : Prog K V E β)) := by
  rw [← List.append_nil l]
  exact hp.bind .ret

theorem Fills.tryCatch {a : α} {l : List (List (Op K V))} {p : Prog K V E α} (hp : Fills a l p)
    (h : E → Prog K V E α) : Fills a l (p.tryCatch h) := by
  induction hp with
  | ret => exact .ret
  | write hc _ ih => exact .write (fun s => finishSection_tryCatch (hc s) h) ih

/-- It does so when it runs alone. -/
theorem Fills.run_eq {a : α} {l : List (List (Op K V))} {p : Prog K V E α} (hp : Fills a l p)
    (s : Store K V) : run p s = (.ret a, l.foldl applyBatch s) := by
  induction hp generalizing s with
  | ret => rfl
  | write hc _ ih =>
    rw [run, run_finishSection (hc s), ih]
    rfl

/-- A scope that writes one batch. -/
theorem Fills.locked {batch : List (Op K V)} {c : Option E → Prog K V E α} {a : α}
    (hc : c none = .ret a) : Fills a [batch] (Prog.write batch c).locked := by
  refine .write (p := .ret a) ?_ .ret
  intro s
  rw [Prog.unlockOut, finishSection, hc]
  rfl

/-- What is read in a section of a program without writes. -/
theorem NoWrites.finishSection {p p' : Prog K V E α} (hp : NoWrites p) {s s' : Store K V}
    (h : Kv.finishSection p s = some (p', s')) : NoWrites p' ∧ s' = s := by
  induction hp with
  | ret a => cases h
  | throw e => cases h
  | hang => cases h
  | get _ ih => exact ih _ h
  | warn _ ih => exact ih h
  | lock _ _ => cases h
  | unlock hc _ =>
    cases h
    exact ⟨hc, rfl⟩

theorem Ends.finishSection {R : α → Prop} {Q : E → Prop} {p p' : Prog K V E α}
    (hp : Ends R Q p) {s s' : Store K V} (h : Kv.finishSection p s = some (p', s')) :
    Ends R Q p' := by
  induction hp generalizing s with
  | ret _ => cases h
  | throw _ => cases h
  | hang => cases h
  | get _ ih => exact ih _ h
  | write _ ih => exact ih _ h
  | warn _ ih => exact ih h
  | lock _ _ => cases h
  | unlock hc _ =>
    cases h
    exact hc

end Parts

/-- The guarded part of a call has no writes. -/
def Next.ReadsOn : Next G K V E α → Prop
  | .answer _ => True
  | .guarded _ body _ => NoWrites body

/-- A call that only reads. -/
structure Reader (call : Call G K V E α) : Prop where
  noWrites : NoWrites call
  next : Ends Next.ReadsOn (fun _ => True) call

theorem reader_answer (a : α) : Reader (.ret (.answer a) : Call G K V E α) :=
  ⟨.ret _, .ret trivial⟩

theorem reader_answering {body : Prog K V E α} (h : NoWrites body) :
    Reader (body.answering : Call G K V E α) :=
  ⟨h.bind fun _ => .ret _, (Ends.any body).bind fun _ _ => .ret trivial⟩

theorem Reader.outside [DecidableEq G] {guards : G → Option T} {t : T} {r : Running G K V E α}
    (h : Reader r.prog) : Reader (r.outside t guards).2.prog := by
  have hleave : Reader (r.leave guards).2.prog := by
    unfold Running.leave
    split
    · exact h
    · exact h
  unfold Running.outside
  split
  · rename_i g body refused hprog
    rcases h with ⟨-, hnext⟩
    rw [hprog] at hnext
    cases hnext with
    | ret hbody =>
      split
      · exact reader_answering hbody
      · cases refused with
        | some a => exact reader_answer a
        | none =>
          dsimp only
          rw [hprog]
          exact ⟨.ret _, .ret hbody⟩
  · exact hleave
  · exact hleave
  · rename_i e c hprog
    rcases h with ⟨hwrites, hnext⟩
    rw [hprog] at hwrites hnext
    cases hwrites with
    | warn hwrites =>
      cases hnext with
      | warn hnext => exact ⟨hwrites, hnext⟩
  · exact h

/-! ## Additions -/

/-- A family of calls that add something: the registration, on the shared keys, and the batches
that are written afterwards. -/
structure Additions (T K V : Type) where
  adder : T → Prop
  shared : K → Prop
  own : T → K → Prop
  register : T → Store K V → Store K V
  batches : T → List (List (Op K V))
  /-- The calls that have registered, on the shared keys. -/
  Registered : List T → Store K V → Prop
  own_disjoint : ∀ {t u k}, t ≠ u → own t k → ¬ own u k
  own_not_shared : ∀ {t k}, own t k → ¬ shared k
  register_frame : ∀ {t s k}, ¬ shared k → register t s k = s k
  register_congr : ∀ {t s s'}, (∀ k, shared k → s k = s' k) →
    ∀ k, shared k → register t s k = register t s' k
  registered_congr : ∀ {l s s'}, (∀ k, shared k → s k = s' k) → Registered l s → Registered l s'

namespace Additions

variable [DecidableEq K] (P : Additions T K V)

/-- What a call does as a whole. -/
def effect (s : Store K V) (t : T) : Store K V := (P.batches t).foldl applyBatch (P.register t s)

/-- The program registers in its first section, and then writes the rest under its own keys. -/
structure Registers (yes : α) (t : T) (body : Prog K V E α) : Prop where
  own : ∀ batch ∈ P.batches t, ∀ op ∈ batch, P.own t op.key
  first : ∀ l s, t ∉ l → P.Registered l s → ∃ p, FirstSection body s p (P.register t s) ∧
    Fills yes (P.batches t) p ∧ P.Registered (l ++ [t]) (P.register t s)

/-- A call that adds: it answers `no`, or it tries to get its mutex and then answers `yes`. -/
inductive Adds (yes no : α) (t : T) : Call G K V E α → Prop where
  | refused : Adds yes no t (.ret (.answer no))
  | guarded {g : G} {body : Prog K V E α} (h : P.Registers yes t body) :
      Adds yes no t (.ret (.guarded g body (some no)))

/-- Where a call is, and what it still has to write; `l` are the calls that have registered. -/
inductive AtStage (yes no : α) (l : List T) (t : T) :
    Running G K V E α → List (List (Op K V)) → Prop where
  | waiting {call : Call G K V E α} (hadder : P.adder t) (hnot : t ∉ l)
      (h : P.Adds yes no t call) : AtStage yes no l t ⟨none, call⟩ []
  | entered {g : G} {body : Prog K V E α} (hadder : P.adder t) (hnot : t ∉ l)
      (h : P.Registers yes t body) : AtStage yes no l t ⟨some g, body.answering⟩ []
  | writing {holds : Option G} {rest : List (List (Op K V))} {p : Call G K V E α}
      (hadder : P.adder t) (hin : t ∈ l)
      (hown : ∀ batch ∈ rest, ∀ op ∈ batch, P.own t op.key)
      (h : Fills (.answer yes) rest p) : AtStage yes no l t ⟨holds, p⟩ rest
  | reading {r : Running G K V E α} (hadder : ¬ P.adder t) (hnot : t ∉ l) (h : Reader r.prog) :
      AtStage yes no l t r []

/-- The object against the serial execution. -/
structure Serial (yes no : α) (s : Store K V) (l : List T) (rest : T → List (List (Op K V)))
    (a : Object T G K V E α) : Prop where
  nodup : l.Nodup
  registered : P.Registered l a.store
  stage : ∀ t, P.AtStage yes no l t (a.threads t) (rest t)
  own : ∀ t k, P.own t k → l.foldl P.effect s k = (rest t).foldl applyBatch a.store k
  others : ∀ k, (∀ t, ¬ P.own t k) → l.foldl P.effect s k = a.store k

section Frames

variable {P} {s s' : Store K V} {l : List (List (Op K V))} {t u : T} {k : K}

theorem foldl_batches_congr (h : s k = s' k) (l : List (List (Op K V))) :
    l.foldl applyBatch s k = l.foldl applyBatch s' k := by
  induction l generalizing s s' with
  | nil => exact h
  | cons batch l ih => exact ih (applyBatch_congr h batch)

theorem foldl_batches_frame (hown : ∀ batch ∈ l, ∀ op ∈ batch, P.own t op.key)
    (hk : ¬ P.own t k) (s : Store K V) : l.foldl applyBatch s k = s k := by
  induction l generalizing s with
  | nil => rfl
  | cons batch l ih =>
    rw [List.foldl_cons, ih fun b hb => hown b (List.mem_cons_of_mem _ hb)]
    apply applyBatch_of_notMem
    rintro op hop rfl
    exact hk (hown batch List.mem_cons_self op hop)

omit [DecidableEq K] in
theorem not_own_of_shared (h : P.shared k) (t : T) : ¬ P.own t k :=
  fun hown => P.own_not_shared hown h

/-- The stage of another call, when one has registered. -/
theorem AtStage.of_ne {yes no : α} {order : List T} {r : Running G K V E α}
    (h : P.AtStage yes no order u r l) (hne : u ≠ t) : P.AtStage yes no (order ++ [t]) u r l := by
  have hlater : u ∉ order → u ∉ order ++ [t] := by
    intro hnot hin
    rcases List.mem_append.mp hin with hold | hnew
    · exact hnot hold
    · exact hne (List.mem_singleton.mp hnew)
  cases h with
  | waiting hadder hnot h => exact .waiting hadder (hlater hnot) h
  | entered hadder hnot h => exact .entered hadder (hlater hnot) h
  | writing hadder hin hown h => exact .writing hadder (List.mem_append_left _ hin) hown h
  | reading hadder hnot h => exact .reading hadder (hlater hnot) h

end Frames

section Steps

variable {P} [DecidableEq T] {yes no : α} {s : Store K V} {l : List T}
  {rest : T → List (List (Op K V))} {a : Object T G K V E α} {t : T}

/-- A call goes on without the store. -/
theorem Serial.place (h : P.Serial yes no s l rest a) (guards : G → Option T)
    {r : Running G K V E α} (hr : P.AtStage yes no l t r (rest t)) :
    P.Serial yes no s l rest { a.place t r with guards := guards } := by
  refine ⟨h.nodup, h.registered, ?_, h.own, h.others⟩
  intro u
  change P.AtStage yes no l u ((a.place t r).threads u) (rest u)
  by_cases hu : u = t
  · subst hu
    rw [Object.place_self]
    exact hr
  · rw [Object.place_of_ne a t r hu]
    exact h.stage u

/-- **Registration.** The serial execution makes the whole call. -/
theorem Serial.register (h : P.Serial yes no s l rest a) (hadder : P.adder t) (hnot : t ∉ l)
    (hnothing : rest t = []) (hown : ∀ batch ∈ P.batches t, ∀ op ∈ batch, P.own t op.key)
    {p : Call G K V E α}
    (hp : Fills (.answer yes) (P.batches t) p)
    (hregistered : P.Registered (l ++ [t]) (P.register t a.store)) :
    P.Serial yes no s (l ++ [t]) (Function.update rest t (P.batches t))
      { a.go t p with store := P.register t a.store } := by
  have hserial : (l ++ [t]).foldl P.effect s = P.effect (l.foldl P.effect s) t := by
    rw [List.foldl_append]
    rfl
  -- the shared keys are those of the serial execution
  have hshared : ∀ k, P.shared k → l.foldl P.effect s k = a.store k :=
    fun k hk => h.others k fun u => not_own_of_shared hk u
  have hbefore : ∀ k, P.own t k → l.foldl P.effect s k = a.store k := by
    intro k hk
    rw [h.own t k hk, hnothing]
    rfl
  refine ⟨?_, hregistered, ?_, ?_, ?_⟩
  · rw [List.nodup_append]
    refine ⟨h.nodup, List.nodup_singleton _, ?_⟩
    rintro u hu v hv rfl
    exact hnot (List.mem_singleton.mp hv ▸ hu)
  · intro u
    change P.AtStage yes no (l ++ [t]) u ((a.go t p).threads u) _
    by_cases hu : u = t
    · subst hu
      rw [Object.go, Object.place_self, Function.update_self]
      exact .writing hadder (List.mem_append_right _ (List.mem_singleton_self u)) hown hp
    · rw [Object.go, Object.place_of_ne a t _ hu, Function.update_of_ne hu]
      exact (h.stage u).of_ne hu
  · intro u k hk
    have hframe : P.register t (l.foldl P.effect s) k = l.foldl P.effect s k ∧
        P.register t a.store k = a.store k :=
      ⟨P.register_frame (P.own_not_shared hk), P.register_frame (P.own_not_shared hk)⟩
    rw [hserial]
    by_cases hu : u = t
    · subst hu
      rw [Function.update_self]
      apply foldl_batches_congr
      exact hframe.1.trans ((hbefore k hk).trans hframe.2.symm)
    · rw [Function.update_of_ne hu, effect,
        foldl_batches_frame hown (fun hc => P.own_disjoint hu hk hc), hframe.1,
        foldl_batches_congr hframe.2]
      exact h.own u k hk
  · intro k hk
    rw [hserial, effect, foldl_batches_frame hown (hk t)]
    change P.register t (l.foldl P.effect s) k = P.register t a.store k
    by_cases hkey : P.shared k
    · exact P.register_congr hshared k hkey
    · rw [P.register_frame hkey, P.register_frame hkey]
      exact h.others k hk

/-- **Writing.** The serial execution has it already. -/
theorem Serial.write (h : P.Serial yes no s l rest a) (hadder : P.adder t) (hin : t ∈ l)
    {batch : List (Op K V)} {tail : List (List (Op K V))} (hrest : rest t = batch :: tail)
    (hown : ∀ b ∈ batch :: tail, ∀ op ∈ b, P.own t op.key) {p : Call G K V E α}
    (hp : Fills (.answer yes) tail p) :
    P.Serial yes no s l (Function.update rest t tail)
      { a.go t p with store := applyBatch a.store batch } := by
  have hframe : ∀ k, ¬ P.own t k → applyBatch a.store batch k = a.store k := by
    intro k hk
    apply applyBatch_of_notMem
    rintro op hop rfl
    exact hk (hown batch List.mem_cons_self op hop)
  refine ⟨h.nodup, ?_, ?_, ?_, ?_⟩
  · refine P.registered_congr ?_ h.registered
    intro k hk
    exact (hframe k (not_own_of_shared hk t)).symm
  · intro u
    change P.AtStage yes no l u ((a.go t p).threads u) _
    by_cases hu : u = t
    · subst hu
      rw [Object.go, Object.place_self, Function.update_self]
      exact .writing hadder hin (fun b hb => hown b (List.mem_cons_of_mem _ hb)) hp
    · rw [Object.go, Object.place_of_ne a t _ hu, Function.update_of_ne hu]
      exact h.stage u
  · intro u k hk
    by_cases hu : u = t
    · subst hu
      rw [Function.update_self, h.own u k hk, hrest]
      rfl
    · rw [Function.update_of_ne hu, h.own u k hk]
      exact foldl_batches_congr (hframe k (P.own_disjoint hu hk)).symm _
  · intro k hk
    exact (h.others k hk).trans (hframe k (hk t)).symm

variable [DecidableEq G]

/-- **One section**, of whatever call. -/
theorem Serial.sectionStep (h : P.Serial yes no s l rest a) (t : T) :
    ∃ l' rest', P.Serial yes no s l' rest' (a.sectionStep t) := by
  have hstage := h.stage t
  generalize hr : a.threads t = r at hstage
  generalize hrest : rest t = left at hstage
  -- a step outside, to the same stage
  have houtside : (∀ c, r.prog ≠ .lock c) →
      P.AtStage yes no l t (r.outside t a.guards).2 left →
      ∃ l' rest', P.Serial yes no s l' rest' (a.sectionStep t) := by
    intro hlock hnext
    refine ⟨l, rest, ?_⟩
    have hstep : a.sectionStep t = { a.place t (r.outside t a.guards).2 with
        guards := (r.outside t a.guards).1 } := by
      unfold Object.sectionStep
      rw [hr]
      split
      · rename_i c hprog
        exact absurd hprog (hlock c)
      · rw [Object.outside, hr]
    rw [hstep]
    exact h.place _ (hrest ▸ hnext)
  cases hstage with
  | waiting hadder hnot hadds =>
    cases hadds with
    | refused => exact houtside (fun c hc => by cases hc) (.waiting hadder hnot .refused)
    | guarded hregisters =>
      refine houtside (fun c hc => by cases hc) ?_
      unfold Running.outside
      dsimp only
      split
      · exact .entered hadder hnot hregisters
      · exact .waiting hadder hnot .refused
  | entered hadder hnot hregisters =>
    rename_i g body
    rcases hregisters.first l a.store hnot h.registered with
      ⟨p, ⟨c, rfl, hfinish⟩, hfills, hregistered⟩
    have hnext : finishSection (c.answering : Call G K V E α) a.store =
        some (p.answering, P.register t a.store) := finishSection_bind hfinish _
    have hstep : a.sectionStep t =
        { a.go t p.answering with store := P.register t a.store } :=
      Object.sectionStep_of_lock (by rw [hr]; rfl) hnext
    refine ⟨l ++ [t], Function.update rest t (P.batches t), ?_⟩
    rw [hstep]
    exact h.register hadder hnot hrest hregisters.own (hfills.map _) hregistered
  | writing hadder hin hown hfills =>
    rename_i holds p
    cases hfills with
    | ret =>
      refine houtside (fun c hc => by cases hc) ?_
      unfold Running.outside Running.leave
      dsimp only
      split
      · exact .writing hadder hin hown .ret
      · exact .writing hadder hin hown .ret
    | write hc hfills =>
      rename_i batch tail c p'
      have hstep : a.sectionStep t =
          { a.go t p' with store := applyBatch a.store batch } :=
        Object.sectionStep_of_lock (by rw [hr]) (hc a.store)
      refine ⟨l, Function.update rest t tail, ?_⟩
      rw [hstep]
      exact h.write hadder hin hrest hown hfills
  | reading hadder hnot hreader =>
    by_cases hlock : ∃ c, r.prog = .lock c
    · rcases hlock with ⟨c, hprog⟩
      refine ⟨l, rest, ?_⟩
      rcases hreader with ⟨hwrites, hnext⟩
      rw [hprog] at hwrites hnext
      cases hwrites with
      | lock hwrites =>
        cases hnext with
        | lock hnext =>
          unfold Object.sectionStep
          rw [hr, hprog]
          dsimp only
          cases hfinish : finishSection c a.store with
          | none => exact h
          | some q =>
            rcases q with ⟨c', s'⟩
            rcases hwrites.finishSection hfinish with ⟨hwrites', rfl⟩
            exact h.place a.guards
              (hrest ▸ .reading hadder hnot ⟨hwrites', hnext.finishSection hfinish⟩)
    · refine houtside (fun c hc => hlock ⟨c, hc⟩) ?_
      exact .reading hadder hnot hreader.outside

end Steps

/-! ## At the end -/

/-- **Additions are serial.** Calls that add and calls that read, under whatever schedule: when
all are at their end, the store is what those that answered `yes` leave one after another. -/
theorem serial_of_ended [DecidableEq T] [DecidableEq G] {yes no : α} {s : Store K V}
    {calls : T → Call G K V E α} (hstart : P.Registered [] s)
    (hown : ∀ t, P.adder t → P.Adds yes no t (calls t))
    (hreads : ∀ t, ¬ P.adder t → Reader (calls t))
    (hcalls : ∀ t, Bracketed Next.Bracketed false (calls t)) {sched : List T}
    {w : Object T G K V E α} (hrun : sched.foldl Object.step (Object.start s calls) = w)
    (hended : ∀ t, (w.threads t).Ended) :
    ∃ order : List T, order.Nodup ∧ w.store = order.foldl P.effect s ∧
      (∀ t ∈ order, P.adder t ∧ (w.threads t).prog = .ret (.answer yes)) ∧
      ∀ t, t ∉ order → P.adder t → (w.threads t).prog = .ret (.answer no) := by
  rcases exists_sections_of_ended hcalls hrun hended with ⟨sections, hw⟩
  have hbegin : P.Serial yes no s [] (fun _ => []) (Object.start s calls) := by
    refine ⟨List.nodup_nil, hstart, ?_, fun _ _ _ => rfl, fun _ _ => rfl⟩
    intro t
    by_cases hadder : P.adder t
    · exact .waiting hadder List.not_mem_nil (hown t hadder)
    · exact .reading hadder List.not_mem_nil (hreads t hadder)
  have hstep : ∀ (a : Object T G K V E α) (t : T),
      (∃ l rest, P.Serial yes no s l rest a) →
      ∃ l rest, P.Serial yes no s l rest (a.sectionStep t) := by
    rintro a t ⟨l, rest, h⟩
    exact h.sectionStep t
  rcases run_invariant_always hstep ⟨[], fun _ => [], hbegin⟩ sections with ⟨l, rest, h⟩
  rw [← hw] at h
  -- whoever is at the end has nothing left to write
  have hat : ∀ t, rest t = [] ∧
      (t ∈ l → P.adder t ∧ (w.threads t).prog = .ret (.answer yes)) ∧
      (t ∉ l → P.adder t → (w.threads t).prog = .ret (.answer no)) := by
    intro t
    have hstage := h.stage t
    have hend := (hended t).2
    generalize w.threads t = r at hstage hend
    generalize rest t = left at hstage
    cases hstage with
    | waiting hadder hnot hadds =>
      refine ⟨rfl, fun hin => absurd hin hnot, fun _ _ => ?_⟩
      cases hadds with
      | refused => rfl
      | guarded _ =>
        rcases hend with ⟨b, hb⟩ | ⟨e, he⟩
        · cases hb
        · cases he
    | entered hadder hnot hregisters =>
      rcases hregisters.first l w.store hnot h.registered with ⟨p, ⟨c, rfl, -⟩, -⟩
      rcases hend with ⟨b, hb⟩ | ⟨e, he⟩
      · cases hb
      · cases he
    | writing hadder hin hown hfills =>
      cases hfills with
      | ret => exact ⟨rfl, fun _ => ⟨hadder, rfl⟩, fun hnot => absurd hin hnot⟩
      | write _ _ =>
        rcases hend with ⟨b, hb⟩ | ⟨e, he⟩
        · cases hb
        · cases he
    | reading hadder hnot hreader =>
      exact ⟨rfl, fun hin => absurd hin hnot, fun _ hc => absurd hc hadder⟩
  refine ⟨l, h.nodup, ?_, fun t => (hat t).2.1, fun t => (hat t).2.2⟩
  funext k
  by_cases hk : ∃ t, P.own t k
  · rcases hk with ⟨t, hk⟩
    rw [h.own t k hk, (hat t).1]
    rfl
  · exact (h.others k fun t ht => hk ⟨t, ht⟩).symm

end Additions

end FyreDL.Lib.Kv
