import FyreDL.Lib.KvSections

/-!
# FyreDL.Lib.KvCompletion — calls that come to their end

The calls of an object take one mutex for sections of operations on the store, and at most one
other around a whole part. So there is no circle of calls that wait for each other.

* `Sound.leads` — a call that nobody keeps from its section gets to its next answer alone.
* `Sound.exists_end_guarded`, `Sound.exists_end_free` — and to its end, if it holds the mutex of
  its guarded part or nobody holds one.
* `exists_completion` — whatever has been scheduled, the calls can be scheduled on so that all
  come to their end, unless one of them spins.
-/

namespace FyreDL.Lib.Kv

variable {T G K V E α : Type}

/-- The call is in a loop that never ends. -/
def Object.Spins (w : Object T G K V E α) (t : T) : Prop := (w.threads t).prog = .hang

section Completion

variable [DecidableEq T] [DecidableEq G] [DecidableEq K]

/-- Some steps of `t` alone bring it to a returned value with `R` or to an exception, outside of
all sections, or into a loop. -/
def LeadsOut (R : Next G K V E α → Prop) (t : T) (w : Object T G K V E α) : Prop :=
  ∃ l : List T, ∃ w', l.foldl Object.step w = w' ∧
    (∀ t', t' ≠ t → w'.threads t' = w.threads t') ∧
    (w'.Spins t ∨ w'.holder = none ∧ w'.guards = w.guards ∧
      (w'.threads t).holds = (w.threads t).holds ∧
      ((∃ next, R next ∧ (w'.threads t).prog = .ret next) ∨
        ∃ e, (w'.threads t).prog = .throw e))

section Leads

variable {R : Next G K V E α → Prop} {t : T} {w w₁ : Object T G K V E α}

theorem LeadsOut.of_step (h : LeadsOut R t w₁) (hstep : w.step t = w₁)
    (hguards : w₁.guards = w.guards) (hholds : (w₁.threads t).holds = (w.threads t).holds)
    (hothers : ∀ t', t' ≠ t → w₁.threads t' = w.threads t') : LeadsOut R t w := by
  rcases h with ⟨l, w', hrun, hsame, hend⟩
  refine ⟨t :: l, w', ?_, ?_, ?_⟩
  · rw [List.foldl_cons, hstep, hrun]
  · intro t' hne
    exact (hsame t' hne).trans (hothers t' hne)
  · rcases hend with hspins | ⟨hfree, hguards', hholds', hout⟩
    · exact .inl hspins
    · exact .inr ⟨hfree, hguards'.trans hguards, hholds'.trans hholds, hout⟩

/-- The same for a step that takes the call to a program, and perhaps changes the store and the
holder of its mutex. -/
theorem LeadsOut.of_go {p : Call G K V E α} {s : Store K V} {holder : Option T}
    (h : LeadsOut R t { w.go t p with store := s, holder := holder })
    (hstep : w.step t = { w.go t p with store := s, holder := holder }) : LeadsOut R t w := by
  refine h.of_step hstep rfl ?_ ?_
  · change ((w.go t p).threads t).holds = _
    rw [Object.go, Object.place_self]
  · intro t' hne
    exact Object.place_of_ne w t _ hne

/-- **Alone**, out of all sections. The induction is on the brackets of the program. -/
theorem leadsOut {b : Bool} {p : Call G K V E α} (hp : Bracketed R b p)
    (hprog : (w.threads t).prog = p) (hholder : w.holder = if b then some t else none) :
    LeadsOut R t w := by
  have hself : ∀ (w : Object T G K V E α) (p : Call G K V E α),
      ((w.go t p).threads t).prog = p := by
    intro w p
    exact congrArg Running.prog (Object.place_self w t _)
  induction hp generalizing w with
  | ret hR => exact ⟨[], w, rfl, fun _ _ => rfl, .inr ⟨hholder, rfl, rfl, .inl ⟨_, hR, hprog⟩⟩⟩
  | throw e => exact ⟨[], w, rfl, fun _ _ => rfl, .inr ⟨hholder, rfl, rfl, .inr ⟨e, hprog⟩⟩⟩
  | hang b => exact ⟨[], w, rfl, fun _ _ => rfl, .inl hprog⟩
  | get hc ih =>
    rename_i k c
    have hnext : LeadsOut R t (w.go t (c (.ofOption (w.store k)))) :=
      ih _ (hself w _) hholder
    refine hnext.of_go ?_
    unfold Object.step
    rw [hprog]
    rfl
  | write hc ih =>
    rename_i batch c
    have hnext : LeadsOut R t { w.go t (c none) with store := applyBatch w.store batch } :=
      ih none (hself w _) hholder
    refine hnext.of_go ?_
    unfold Object.step
    rw [hprog]
  | warn hc ih =>
    rename_i b e c
    have hnext : LeadsOut R t (w.go t c) := ih (hself w c) hholder
    refine hnext.of_go ?_
    unfold Object.step
    rw [hprog]
    dsimp only
    unfold Object.outside Running.outside
    rw [hprog]
    rfl
  | lock hc ih =>
    rename_i c
    have hnext : LeadsOut R t { w.go t c with holder := some t } := ih (hself w c) rfl
    refine hnext.of_go ?_
    unfold Object.step
    rw [hprog]
    dsimp only
    exact if_pos hholder
  | unlock hc ih =>
    rename_i c
    have hnext : LeadsOut R t { w.go t c with holder := none } := ih (hself w c) rfl
    refine hnext.of_go ?_
    unfold Object.step
    rw [hprog]

/-- A call that may enter its sections gets out of them. -/
theorem Sound.leads (h : Sound w) (hfree : w.holder = none ∨ w.holder = some t) :
    LeadsOut (w.threads t).Allowed t w := by
  have hprog := h.prog t
  rcases hfree with hfree | hfree
  · rw [decide_eq_false (hfree ▸ (Option.some_ne_none t).symm)] at hprog
    exact leadsOut hprog rfl hfree
  · rw [decide_eq_true hfree] at hprog
    exact leadsOut hprog rfl hfree

end Leads

/-- The object behind a schedule is sound. -/
theorem Sound.run {w : Object T G K V E α} (h : Sound w) (l : List T) :
    Sound (l.foldl Object.step w) :=
  run_invariant_always (fun w t (hw : Sound w) => hw.step t) h l

/-- Some steps of `t` alone bring it to its end, or into a loop; it takes no mutex with it. -/
def ComesToEnd (t : T) (w : Object T G K V E α) : Prop :=
  ∃ l : List T, ∃ w', l.foldl Object.step w = w' ∧
    (∀ t', t' ≠ t → w'.threads t' = w.threads t') ∧
    (w'.Spins t ∨ w'.holder = none ∧ (w'.threads t).Ended ∧
      ∀ g, w'.guards g = none ∨ w'.guards g = w.guards g)

section ComesToEnd

variable {t : T} {w : Object T G K V E α}

/-- A call in its guarded part. -/
theorem Sound.exists_end_guarded (h : Sound w) (hfree : w.holder = none ∨ w.holder = some t)
    {g : G} (hholds : (w.threads t).holds = some g) : ComesToEnd t w := by
  rcases h.leads hfree with ⟨l, w', hrun, hothers, hspins | ⟨hfree', hguards, hholds', hout⟩⟩
  · exact ⟨l, w', hrun, hothers, .inl hspins⟩
  · -- one more step releases the mutex
    have hleave : w'.step t = w'.outside t ∧ (w'.threads t).outside t w'.guards =
        (w'.threads t).leave w'.guards := by
      unfold Object.step Running.outside
      rcases hout with ⟨next, hallowed, hprog⟩ | ⟨e, hprog⟩
      · rw [hprog]
        rw [Running.Allowed, hholds] at hallowed
        cases next with
        | answer a => exact ⟨rfl, rfl⟩
        | guarded g body refused => exact hallowed.elim
      · rw [hprog]
        exact ⟨rfl, rfl⟩
    have hleft : (w'.threads t).leave w'.guards =
        (Function.update w'.guards g none, ⟨none, (w'.threads t).prog⟩) := by
      unfold Running.leave
      rw [hholds', hholds]
    have hself : (w'.outside t).threads t = ⟨none, (w'.threads t).prog⟩ := by
      change (w'.place t _).threads t = _
      rw [Object.place_self, hleave.2, hleft]
    refine ⟨l ++ [t], w'.outside t, ?_, ?_, .inr ⟨hfree', ?_, ?_⟩⟩
    · rw [List.foldl_append, hrun]
      exact hleave.1
    · intro t' hne
      change (w'.place t _).threads t' = _
      rw [Object.place_of_ne w' t _ hne]
      exact hothers t' hne
    · rw [Running.Ended, hself]
      refine ⟨rfl, ?_⟩
      rcases hout with ⟨next, hallowed, hprog⟩ | ⟨e, hprog⟩
      · rw [Running.Allowed, hholds] at hallowed
        cases next with
        | answer a => exact .inl ⟨a, hprog⟩
        | guarded g body refused => exact hallowed.elim
      · exact .inr ⟨e, hprog⟩
    · intro g'
      change ((w'.threads t).outside t w'.guards).1 g' = none ∨ _
      rw [hleave.2, hleft]
      by_cases hg : g' = g
      · subst hg
        exact .inl (Function.update_self _ _ _)
      · right
        change ((w'.threads t).outside t w'.guards).1 g' = _
        rw [hleave.2, hleft]
        exact (Function.update_of_ne hg _ _).trans (congrFun hguards g')

/-- A call that finds all mutexes free. -/
theorem Sound.exists_end_free (h : Sound w) (hfree : w.holder = none)
    (hguards : ∀ g, w.guards g = none) : ComesToEnd t w := by
  cases hholds : (w.threads t).holds with
  | some g => exact h.exists_end_guarded (.inl hfree) hholds
  | none =>
    rcases h.leads (.inl hfree) with
      ⟨l, w', hrun, hothers, hspins | ⟨hfree', hguards', hholds', hout⟩⟩
    · exact ⟨l, w', hrun, hothers, .inl hspins⟩
    · have hended : (∃ a, (w'.threads t).prog = .ret (.answer a)) ∨
          (∃ e, (w'.threads t).prog = .throw e) → ComesToEnd t w := by
        intro hend
        refine ⟨l, w', hrun, hothers, .inr ⟨hfree', ⟨hholds'.trans hholds, hend⟩, ?_⟩⟩
        intro g
        rw [hguards']
        exact .inr rfl
      rcases hout with ⟨next, -, hprog⟩ | ⟨e, hprog⟩
      · cases next with
        | answer a => exact hended (.inl ⟨a, hprog⟩)
        | guarded g body refused =>
          -- the mutex is free, so the call goes on with its guarded part
          have henter : (w'.threads t).outside t w'.guards =
              (Function.update w'.guards g (some t), ⟨some g, body.answering⟩) := by
            unfold Running.outside
            rw [hprog]
            dsimp only
            rw [hguards', hguards, if_pos rfl]
          have hstep : w'.step t = w'.outside t := by
            unfold Object.step
            rw [hprog]
          have hself : (w'.outside t).threads t = ⟨some g, body.answering⟩ := by
            change (w'.place t _).threads t = _
            rw [Object.place_self, henter]
          have hsound : Sound (w'.outside t) := (hrun ▸ h.run l : Sound w').outside
          rcases hsound.exists_end_guarded (.inl hfree') (congrArg Running.holds hself) with
            ⟨l', w'', hrun', hothers', hend⟩
          refine ⟨l ++ t :: l', w'', ?_, ?_, ?_⟩
          · rw [List.foldl_append, hrun, List.foldl_cons, hstep, hrun']
          · intro t' hne
            rw [hothers' t' hne]
            change (w'.place t _).threads t' = _
            rw [Object.place_of_ne w' t _ hne]
            exact hothers t' hne
          · rcases hend with hspins | ⟨hfree'', hended', hguards''⟩
            · exact .inl hspins
            · refine .inr ⟨hfree'', hended', ?_⟩
              -- the one mutex that was taken is the one that the call holds, and it ends
              intro g'
              rcases hguards'' g' with hnone | hsame
              · exact .inl hnone
              · by_cases hg : g' = g
                · subst hg
                  have hsound'' : Sound w'' := hrun' ▸ hsound.run l'
                  left
                  cases hwho : w''.guards g' with
                  | none => rfl
                  | some t' =>
                    have hmine : (w'.outside t).guards g' = some t := by
                      change ((w'.threads t).outside t w'.guards).1 g' = some t
                      rw [henter]
                      exact Function.update_self _ _ _
                    rw [hsame, hmine] at hwho
                    cases hwho
                    have hholds'' := hsound''.held g' t (hsame.trans hmine)
                    rw [hended'.1] at hholds''
                    cases hholds''
                · right
                  rw [hsame]
                  change ((w'.threads t).outside t w'.guards).1 g' = _
                  rw [henter]
                  change Function.update w'.guards g (some t) g' = _
                  rw [Function.update_of_ne hg, hguards']
      · exact hended (.inr ⟨e, hprog⟩)

end ComesToEnd

/-- Calls one after the other: the induction is on the list of those that are still to come to
their end, and `Q` is what the ones before have left. -/
theorem exists_each {Q : Object T G K V E α → Prop} {Done : Running G K V E α → Prop}
    (hone : ∀ w t, Q w → ∃ l : List T, ∃ w', l.foldl Object.step w = w' ∧
      (∀ t', t' ≠ t → w'.threads t' = w.threads t') ∧
      (w'.Spins t ∨ Q w' ∧ Done (w'.threads t)))
    {w : Object T G K V E α} (hQ : Q w) (ts : List T) :
    ∃ l : List T, ∃ w', l.foldl Object.step w = w' ∧
      ((∃ t, w'.Spins t) ∨ Q w' ∧ (∀ t ∈ ts, Done (w'.threads t)) ∧
        ∀ t, Done (w.threads t) → Done (w'.threads t)) := by
  induction ts generalizing w with
  | nil => exact ⟨[], w, rfl, .inr ⟨hQ, fun t ht => absurd ht List.not_mem_nil, fun _ h => h⟩⟩
  | cons t ts ih =>
    rcases hone w t hQ with ⟨l, w₁, hrun, hothers, hspins | ⟨hQ₁, hdone⟩⟩
    · exact ⟨l, w₁, hrun, .inl ⟨t, hspins⟩⟩
    · have hkept : ∀ t', Done (w.threads t') → Done (w₁.threads t') := by
        intro t' hdone'
        by_cases hne : t' = t
        · subst hne
          exact hdone
        · rw [hothers t' hne]
          exact hdone'
      rcases ih hQ₁ with ⟨l', w₂, hrun', hspins | ⟨hQ₂, hall, hstill⟩⟩
      · refine ⟨l ++ l', w₂, ?_, .inl hspins⟩
        rw [List.foldl_append, hrun, hrun']
      · refine ⟨l ++ l', w₂, ?_, .inr ⟨hQ₂, ?_, ?_⟩⟩
        · rw [List.foldl_append, hrun, hrun']
        · intro t' ht'
          rcases List.mem_cons.mp ht' with rfl | hin
          · exact hstill t' hdone
          · exact hall t' hin
        · intro t' hdone'
          exact hstill t' (hkept t' hdone')

/-- **Completion.** Whatever has been scheduled: the calls can be scheduled on so that all of
them come to their end, unless one of them gets into a loop. -/
theorem exists_completion [Fintype T] {s : Store K V} {calls : T → Call G K V E α}
    (hcalls : ∀ t, Bracketed Next.Bracketed false (calls t)) (sched : List T) :
    ∃ more : List T, ∃ w, (sched ++ more).foldl Object.step (Object.start s calls) = w ∧
      ((∀ t, (w.threads t).Ended) ∨ ∃ t, w.Spins t) := by
  have hsound : Sound (sched.foldl Object.step (Object.start s calls)) :=
    (sound_start hcalls).run sched
  simp only [List.foldl_append]
  generalize sched.foldl Object.step (Object.start s calls) = w at hsound ⊢
  -- first the section that is under way
  have hfirst : ∃ l : List T, ∃ w', l.foldl Object.step w = w' ∧
      ((∃ t, w'.Spins t) ∨ Sound w' ∧ w'.holder = none) := by
    cases hholder : w.holder with
    | none => exact ⟨[], w, rfl, .inr ⟨hsound, hholder⟩⟩
    | some t =>
      rcases hsound.leads (.inr hholder) with ⟨l, w', hrun, -, hspins | ⟨hfree, -⟩⟩
      · exact ⟨l, w', hrun, .inl ⟨t, hspins⟩⟩
      · exact ⟨l, w', hrun, .inr ⟨hrun ▸ hsound.run l, hfree⟩⟩
  rcases hfirst with ⟨l₁, w₁, hrun₁, hspins | hfree₁⟩
  · exact ⟨l₁, w₁, hrun₁, .inr hspins⟩
  -- then the guarded parts
  have hguarded : ∀ (w : Object T G K V E α) (t : T), Sound w ∧ w.holder = none →
      ∃ l : List T, ∃ w', l.foldl Object.step w = w' ∧
        (∀ t', t' ≠ t → w'.threads t' = w.threads t') ∧
        (w'.Spins t ∨ (Sound w' ∧ w'.holder = none) ∧ (w'.threads t).holds = none) := by
    rintro w t ⟨hw, hfree⟩
    cases hholds : (w.threads t).holds with
    | none => exact ⟨[], w, rfl, fun _ _ => rfl, .inr ⟨⟨hw, hfree⟩, hholds⟩⟩
    | some g =>
      rcases hw.exists_end_guarded (.inl hfree) hholds with
        ⟨l, w', hrun, hothers, hspins | ⟨hfree', hended, -⟩⟩
      · exact ⟨l, w', hrun, hothers, .inl hspins⟩
      · exact ⟨l, w', hrun, hothers, .inr ⟨⟨hrun ▸ hw.run l, hfree'⟩, hended.1⟩⟩
  rcases @exists_each _ _ _ _ _ _ _ _ _ _ (fun r => r.holds = none) hguarded w₁ hfree₁
    Finset.univ.toList with ⟨l₂, w₂, hrun₂, hspins | ⟨⟨hsound₂, hfree₂⟩, hnone, -⟩⟩
  · refine ⟨l₁ ++ l₂, w₂, ?_, .inr hspins⟩
    rw [List.foldl_append, hrun₁, hrun₂]
  have hguards₂ : ∀ g, w₂.guards g = none := by
    intro g
    cases hwho : w₂.guards g with
    | none => rfl
    | some t =>
      have hholds := hsound₂.held g t hwho
      rw [hnone t (Finset.mem_toList.mpr (Finset.mem_univ t))] at hholds
      cases hholds
  -- now all mutexes are free, and the calls end one after the other
  have hfreed : ∀ (w : Object T G K V E α) (t : T),
      Sound w ∧ w.holder = none ∧ (∀ g, w.guards g = none) →
      ∃ l : List T, ∃ w', l.foldl Object.step w = w' ∧
        (∀ t', t' ≠ t → w'.threads t' = w.threads t') ∧
        (w'.Spins t ∨ (Sound w' ∧ w'.holder = none ∧ ∀ g, w'.guards g = none) ∧
          (w'.threads t).Ended) := by
    rintro w t ⟨hw, hfree, hguards⟩
    rcases hw.exists_end_free hfree hguards (t := t) with
      ⟨l, w', hrun, hothers, hspins | ⟨hfree', hended, hguards'⟩⟩
    · exact ⟨l, w', hrun, hothers, .inl hspins⟩
    · refine ⟨l, w', hrun, hothers, .inr ⟨⟨hrun ▸ hw.run l, hfree', ?_⟩, hended⟩⟩
      intro g
      rcases hguards' g with hnone' | hsame
      · exact hnone'
      · rw [hsame, hguards g]
  rcases exists_each hfreed ⟨hsound₂, hfree₂, hguards₂⟩ Finset.univ.toList with
    ⟨l₃, w₃, hrun₃, hend⟩
  refine ⟨l₁ ++ (l₂ ++ l₃), w₃, ?_, ?_⟩
  · rw [List.foldl_append, hrun₁, List.foldl_append, hrun₂, hrun₃]
  · rcases hend with hspins | ⟨-, hended, -⟩
    · exact .inr hspins
    · exact .inl fun t => hended t (Finset.mem_toList.mpr (Finset.mem_univ t))

end Completion

end FyreDL.Lib.Kv
