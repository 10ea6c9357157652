import Mathlib.Data.List.Induction
import Mathlib.Data.List.Nodup
import Mathlib.Data.List.Perm.Basic
import Mathlib.Order.Lattice

/-!
# FyreDL.Lib.AssocMap — maps as association lists

* `insertNew` keeps a binding that is already there, as `insert` of a standard map
  does. The list is in order of insertion; the order in which a hash map shows its
  entries is an `IterOrder`, about which nothing is known but that it shows each
  entry once.
* `insertOrd` replaces the binding and keeps the keys in ascending order, as
  `QMap::insert` does.
* `assign` binds a key anew, as `m[k] = v` does, and `eraseKey` takes its binding away.
* `insertNew_foldl` and `insertOrd_foldl_perm`: over a list of bindings with
  distinct keys both build a map with exactly these bindings.
* `mem_insertNew_foldl` and `mem_insertOrd_foldl`: over any list, the first one builds
  the map of the first bindings, the second one that of the last bindings.
-/

namespace FyreDL.Lib

variable {K V : Type}

/-- The order in which a hash map shows its entries. -/
structure IterOrder (α : Type) where
  order : List α → List α
  perm : ∀ l, (order l).Perm l

/-- Entries shown in the order of their insertion. -/
def IterOrder.insertion (α : Type) : IterOrder α := ⟨id, fun l => List.Perm.refl l⟩

@[simp] theorem IterOrder.mem_order {α : Type} (o : IterOrder α) {l : List α} {a : α} :
    a ∈ o.order l ↔ a ∈ l := (o.perm l).mem_iff

/-- The search through the entries of a hash map. -/
theorem IterOrder.find?_some {α : Type} (o : IterOrder α) {l : List α} {p : α → Bool} {a : α}
    (h : (o.order l).find? p = some a) : a ∈ l ∧ p a = true :=
  ⟨o.mem_order.mp (List.mem_of_find?_eq_some h), List.find?_some h⟩

theorem IterOrder.find?_none {α : Type} (o : IterOrder α) {l : List α} {p : α → Bool}
    (h : (o.order l).find? p = none) : ∀ a ∈ l, ¬ p a = true := by
  intro a ha
  exact List.find?_eq_none.mp h a (o.mem_order.mpr ha)

/-! ## Binding and erasing -/

section Assign

variable [DecidableEq K]

/-- `m.erase(k)`. -/
def eraseKey (m : List (K × V)) (k : K) : List (K × V) := m.filter fun p => p.1 ≠ k

/-- `m[k] = v`. -/
def assign (m : List (K × V)) (k : K) (v : V) : List (K × V) := eraseKey m k ++ [(k, v)]

theorem mem_eraseKey {m : List (K × V)} {k : K} {p : K × V} :
    p ∈ eraseKey m k ↔ p ∈ m ∧ p.1 ≠ k := by
  rw [eraseKey, List.mem_filter, decide_eq_true_eq]

theorem mem_assign {m : List (K × V)} {k : K} {v : V} {p : K × V} :
    p ∈ assign m k v ↔ (p ∈ m ∧ p.1 ≠ k) ∨ p = (k, v) := by
  rw [assign, List.mem_append, mem_eraseKey, List.mem_singleton]

theorem eraseKey_sublist (m : List (K × V)) (k : K) : (eraseKey m k).Sublist m :=
  List.filter_sublist

theorem eraseKey_of_notMem {m : List (K × V)} {k : K} (h : k ∉ m.map Prod.fst) :
    eraseKey m k = m := by
  rw [eraseKey, List.filter_eq_self]
  intro p hp
  have hne : p.1 ≠ k := fun hk => h (hk ▸ List.mem_map_of_mem hp)
  exact decide_eq_true hne

/-- With distinct keys, a map is one of its bindings and the rest. -/
theorem perm_cons_eraseKey {m : List (K × V)} (h : (m.map Prod.fst).Nodup) {p : K × V}
    (hp : p ∈ m) : m.Perm (p :: eraseKey m p.1) := by
  induction m with
  | nil => exact absurd hp List.not_mem_nil
  | cons q m ih =>
    rw [List.map_cons, List.nodup_cons] at h
    rcases List.mem_cons.mp hp with rfl | hin
    · have hrest : eraseKey (p :: m) p.1 = m := by
        rw [eraseKey, List.filter_cons_of_neg (by simp)]
        exact eraseKey_of_notMem h.1
      rw [hrest]
    · have hne : q.1 ≠ p.1 := fun hk => h.1 (hk ▸ List.mem_map_of_mem hin)
      have hrest : eraseKey (q :: m) p.1 = q :: eraseKey m p.1 := by
        rw [eraseKey, List.filter_cons_of_pos (by simpa using hne)]
        rfl
      rw [hrest]
      exact ((ih h.2 hin).cons q).trans (List.Perm.swap p q _)

theorem nodup_eraseKey {m : List (K × V)} (h : (m.map Prod.fst).Nodup) (k : K) :
    ((eraseKey m k).map Prod.fst).Nodup :=
  h.sublist ((eraseKey_sublist m k).map _)

/-- What is read of the bindings stays distinct when the new one differs from all that
stay. -/
theorem nodup_map_assign {B : Type} {f : K × V → B} {m : List (K × V)} (h : (m.map f).Nodup)
    {k : K} {v : V} (hnew : ∀ p ∈ m, p.1 ≠ k → f p ≠ f (k, v)) : ((assign m k v).map f).Nodup := by
  rw [assign, List.map_append, List.nodup_append]
  refine ⟨h.sublist ((eraseKey_sublist m k).map _), List.nodup_singleton _, ?_⟩
  intro b hb c hc heq
  rcases List.mem_map.mp hb with ⟨p, hp, rfl⟩
  rw [List.map_singleton, List.mem_singleton] at hc
  rcases mem_eraseKey.mp hp with ⟨hmem, hne⟩
  exact hnew p hmem hne (heq.trans hc)

theorem nodup_assign {m : List (K × V)} (h : (m.map Prod.fst).Nodup) (k : K) (v : V) :
    ((assign m k v).map Prod.fst).Nodup :=
  nodup_map_assign h fun _ _ hne => hne

end Assign

/-! ## Inserting -/

section InsertNew

variable [DecidableEq K]

/-- `insert` of a standard map. -/
def insertNew (m : List (K × V)) (k : K) (v : V) : List (K × V) :=
  if k ∈ m.map Prod.fst then m else m ++ [(k, v)]

theorem insertNew_nodup {m : List (K × V)} (h : (m.map Prod.fst).Nodup) (k : K) (v : V) :
    ((insertNew m k v).map Prod.fst).Nodup := by
  unfold insertNew
  split
  · exact h
  · rw [List.map_append, List.nodup_append]
    refine ⟨h, List.nodup_singleton k, ?_⟩
    rintro a ha b hb rfl
    rw [List.map_singleton, List.mem_singleton] at hb
    exact absurd (hb ▸ ha) ‹_›

/-- What holds of every binding inserted holds of the map. -/
theorem forall_mem_insertNew {P : K × V → Prop} {m : List (K × V)} {k : K} {v : V}
    (hm : ∀ p ∈ m, P p) (hnew : P (k, v)) : ∀ p ∈ insertNew m k v, P p := by
  intro p hp
  unfold insertNew at hp
  split at hp
  · exact hm p hp
  · rcases List.mem_append.mp hp with hold | hin
    · exact hm p hold
    · exact List.mem_singleton.mp hin ▸ hnew

theorem mem_keys_insertNew {m : List (K × V)} {k k' : K} {v : V} :
    k' ∈ (insertNew m k v).map Prod.fst ↔ k' ∈ m.map Prod.fst ∨ k' = k := by
  unfold insertNew
  split
  · constructor
    · intro h
      exact Or.inl h
    · rintro (h | rfl)
      · exact h
      · assumption
  · simp

/-- The keys of the map are the keys inserted. -/
theorem mem_keys_insertNew_foldl (l : List (K × V)) {k' : K} :
    ∀ {m : List (K × V)}, k' ∈ (l.foldl (fun m p => insertNew m p.1 p.2) m).map Prod.fst ↔
      k' ∈ m.map Prod.fst ∨ k' ∈ l.map Prod.fst := by
  induction l with
  | nil => intro m; simp
  | cons p l ih =>
    intro m
    rw [List.foldl_cons, ih, mem_keys_insertNew, List.map_cons, List.mem_cons, or_assoc]

/-- Bindings with distinct keys are all kept, in order. -/
theorem insertNew_foldl (l : List (K × V)) :
    ∀ {m : List (K × V)}, ((m ++ l).map Prod.fst).Nodup →
      l.foldl (fun m p => insertNew m p.1 p.2) m = m ++ l := by
  induction l with
  | nil => intro m _; rw [List.foldl_nil, List.append_nil]
  | cons p l ih =>
    intro m h
    have hp : p.1 ∉ m.map Prod.fst := by
      rw [List.map_append, List.nodup_append] at h
      exact fun hm => h.2.2 _ hm _ (by simp) rfl
    rw [List.foldl_cons, insertNew, if_neg hp, ih (by simpa using h)]
    simp

/-- The first binding of a key in a list. -/
def firstBinding (l : List (K × V)) (k : K) : Option (K × V) := l.find? fun p => p.1 = k

theorem firstBinding_cons (p : K × V) (l : List (K × V)) (k : K) :
    firstBinding (p :: l) k = if p.1 = k then some p else firstBinding l k := by
  unfold firstBinding
  split
  · rename_i h
    exact List.find?_cons_of_pos (decide_eq_true h)
  · rename_i h
    exact List.find?_cons_of_neg (by rwa [decide_eq_true_eq])

theorem firstBinding_mem {l : List (K × V)} {k : K} {p : K × V} (h : firstBinding l k = some p) :
    p ∈ l := List.mem_of_find?_eq_some h

/-- A key that is bound has a first binding. -/
theorem exists_firstBinding {l : List (K × V)} {k : K} (h : k ∈ l.map Prod.fst) :
    ∃ p, firstBinding l k = some p ∧ p.1 = k := by
  rcases List.mem_map.mp h with ⟨q, hq, rfl⟩
  cases hfind : firstBinding l q.1 with
  | none => exact absurd (decide_eq_true rfl) (List.find?_eq_none.mp hfind q hq)
  | some p => exact ⟨p, rfl, by simpa using (List.find?_eq_some_iff_append.mp hfind).1⟩

/-- The bindings of a map that was filled by `insertNew` on top of `m`. -/
theorem mem_insertNew_foldl (l : List (K × V)) {p : K × V} :
    ∀ {m : List (K × V)}, p ∈ l.foldl (fun m p => insertNew m p.1 p.2) m ↔
      p ∈ m ∨ p.1 ∉ m.map Prod.fst ∧ firstBinding l p.1 = some p := by
  induction l with
  | nil => intro m; simp [firstBinding]
  | cons q l ih =>
    intro m
    rw [List.foldl_cons, ih, mem_keys_insertNew, firstBinding_cons]
    unfold insertNew
    by_cases hbound : q.1 ∈ m.map Prod.fst
    · -- the binding is not taken
      rw [if_pos hbound]
      by_cases heq : q.1 = p.1
      · have hkey : p.1 ∈ m.map Prod.fst := heq ▸ hbound
        constructor
        · rintro (hm | ⟨hnot, -⟩)
          · exact .inl hm
          · exact absurd (.inl hkey) hnot
        · rintro (hm | ⟨hnot, -⟩)
          · exact .inl hm
          · exact absurd hkey hnot
      · rw [if_neg heq, or_iff_left (Ne.symm heq)]
    · rw [if_neg hbound, List.mem_append, List.mem_singleton]
      by_cases heq : q.1 = p.1
      · have hkey : p.1 ∉ m.map Prod.fst := heq ▸ hbound
        rw [if_pos heq, or_assoc]
        refine or_congr_right ?_
        constructor
        · rintro (rfl | ⟨hnot, -⟩)
          · exact ⟨hkey, rfl⟩
          · exact absurd (.inr heq.symm) hnot
        · rintro ⟨-, hq⟩
          exact .inl (Option.some.inj hq).symm
      · have hne : p ≠ q := by
          rintro rfl
          exact heq rfl
        rw [if_neg heq, or_iff_left hne, or_iff_left (Ne.symm heq)]

end InsertNew

section InsertOrd

variable [LinearOrder K]

/-- `QMap::insert`, on the entries in ascending order of the keys. -/
def insertOrd (k : K) (v : V) : List (K × V) → List (K × V)
  | [] => [(k, v)]
  | p :: rest =>
    if k < p.1 then (k, v) :: p :: rest
    else if k = p.1 then (k, v) :: rest
    else p :: insertOrd k v rest

theorem insertOrd_perm {k : K} (v : V) {m : List (K × V)} (h : k ∉ m.map Prod.fst) :
    (insertOrd k v m).Perm ((k, v) :: m) := by
  induction m with
  | nil => exact List.Perm.refl _
  | cons p rest ih =>
    have hp : k ≠ p.1 := fun e => h (e ▸ List.mem_cons_self)
    have hrest : k ∉ rest.map Prod.fst := fun hm => h (List.mem_cons_of_mem _ hm)
    rw [insertOrd]
    split
    · exact List.Perm.refl _
    · exact ((ih hrest).cons p).trans (List.Perm.swap _ _ _)

/-- Bindings with distinct keys are all in the map. -/
theorem insertOrd_foldl_perm (l : List (K × V)) :
    ∀ {m : List (K × V)}, ((m ++ l).map Prod.fst).Nodup →
      (l.foldl (fun m p => insertOrd p.1 p.2 m) m).Perm (m ++ l) := by
  induction l with
  | nil => intro m _; rw [List.foldl_nil, List.append_nil]
  | cons p l ih =>
    intro m h
    have hp : p.1 ∉ m.map Prod.fst := by
      rw [List.map_append, List.nodup_append] at h
      exact fun hm => h.2.2 _ hm _ (by simp) rfl
    have hstep : (insertOrd p.1 p.2 m).Perm (p :: m) := insertOrd_perm p.2 hp
    have hshift : (insertOrd p.1 p.2 m ++ l).Perm (m ++ p :: l) :=
      (hstep.append_right l).trans (List.perm_middle.symm)
    rw [List.foldl_cons]
    refine (ih ?_).trans hshift
    rw [(hshift.map Prod.fst).nodup_iff]
    exact h

/-- The keys are in ascending order. -/
def Ascending (m : List (K × V)) : Prop := m.Pairwise fun p q => p.1 < q.1

/-- An insertion takes the place of the binding with its key. -/
theorem mem_insertOrd {k : K} {v : V} {m : List (K × V)} (h : Ascending m) {p : K × V} :
    p ∈ insertOrd k v m ↔ p = (k, v) ∨ p ∈ m ∧ p.1 ≠ k := by
  induction m with
  | nil => simp [insertOrd]
  | cons q rest ih =>
    rcases List.pairwise_cons.mp h with ⟨hq, hrest⟩
    rw [insertOrd]
    split
    · -- all keys are behind the new one
      rename_i hlt
      have hne : ∀ r ∈ q :: rest, r.1 ≠ k := by
        intro r hr
        rcases List.mem_cons.mp hr with rfl | hr
        · exact hlt.ne'
        · exact (hlt.trans (hq r hr)).ne'
      rw [List.mem_cons]
      exact or_congr_right ⟨fun hp => ⟨hp, hne p hp⟩, And.left⟩
    · split
      · rename_i heq
        have hne : ∀ r ∈ rest, r.1 ≠ k := fun r hr => (heq.trans_lt (hq r hr)).ne'
        rw [List.mem_cons, List.mem_cons]
        refine or_congr_right ⟨fun hp => ⟨.inr hp, hne p hp⟩, ?_⟩
        rintro ⟨rfl | hp, hpk⟩
        · exact absurd heq.symm hpk
        · exact hp
      · rename_i hne
        rw [List.mem_cons, ih hrest, List.mem_cons]
        constructor
        · rintro (rfl | rfl | ⟨hp, hpk⟩)
          · exact .inr ⟨.inl rfl, Ne.symm hne⟩
          · exact .inl rfl
          · exact .inr ⟨.inr hp, hpk⟩
        · rintro (rfl | ⟨rfl | hp, hpk⟩)
          · exact .inr (.inl rfl)
          · exact .inl rfl
          · exact .inr (.inr ⟨hp, hpk⟩)

theorem ascending_insertOrd (k : K) (v : V) {m : List (K × V)} (h : Ascending m) :
    Ascending (insertOrd k v m) := by
  induction m with
  | nil => exact List.pairwise_singleton _ _
  | cons q rest ih =>
    rcases List.pairwise_cons.mp h with ⟨hq, hrest⟩
    rw [insertOrd]
    split
    · rename_i hlt
      refine List.pairwise_cons.mpr ⟨fun r hr => ?_, h⟩
      rcases List.mem_cons.mp hr with rfl | hr
      · exact hlt
      · exact hlt.trans (hq r hr)
    · split
      · rename_i heq
        exact List.pairwise_cons.mpr ⟨fun r hr => heq.trans_lt (hq r hr), hrest⟩
      · rename_i hnlt hne
        refine List.pairwise_cons.mpr ⟨fun r hr => ?_, ih hrest⟩
        rcases (mem_insertOrd hrest).mp hr with rfl | ⟨hin, -⟩
        · exact lt_of_le_of_ne (not_lt.mp hnlt) (Ne.symm hne)
        · exact hq r hin

/-- The last binding of a key in a list. -/
def lastBinding (l : List (K × V)) (k : K) : Option (K × V) := firstBinding l.reverse k

theorem lastBinding_concat (l : List (K × V)) (p : K × V) (k : K) :
    lastBinding (l ++ [p]) k = if p.1 = k then some p else lastBinding l k := by
  rw [lastBinding, List.reverse_concat, firstBinding_cons]
  rfl

theorem lastBinding_mem {l : List (K × V)} {k : K} {p : K × V} (h : lastBinding l k = some p) :
    p ∈ l := List.mem_reverse.mp (firstBinding_mem h)

/-- A key that is bound has a last binding. -/
theorem exists_lastBinding {l : List (K × V)} {k : K} (h : k ∈ l.map Prod.fst) :
    ∃ p, lastBinding l k = some p ∧ p.1 = k := by
  apply exists_firstBinding
  rwa [List.map_reverse, List.mem_reverse]

/-- The map that `insertOrd` fills is in order, and has the last binding of each key. The
induction is on the list from its end. -/
theorem insertOrd_foldl (l : List (K × V)) :
    Ascending (l.foldl (fun m p => insertOrd p.1 p.2 m) []) ∧
      ∀ p, p ∈ l.foldl (fun m p => insertOrd p.1 p.2 m) [] ↔ lastBinding l p.1 = some p := by
  induction l using List.reverseRecOn with
  | nil =>
    refine ⟨List.Pairwise.nil, ?_⟩
    intro p
    simp [lastBinding, firstBinding]
  | append_singleton l q ih =>
    rcases ih with ⟨hasc, hmem⟩
    rw [List.foldl_concat]
    refine ⟨ascending_insertOrd _ _ hasc, ?_⟩
    intro p
    rw [mem_insertOrd hasc, hmem, lastBinding_concat]
    by_cases heq : q.1 = p.1
    · rw [if_pos heq]
      constructor
      · rintro (rfl | ⟨-, hne⟩)
        · rfl
        · exact absurd heq.symm hne
      · intro hq
        exact .inl (Option.some.inj hq).symm
    · have hne : p ≠ q := by
        rintro rfl
        exact heq rfl
      rw [if_neg heq]
      exact ⟨fun h => (h.resolve_left hne).1, fun h => .inr ⟨h, Ne.symm heq⟩⟩

theorem mem_insertOrd_foldl (l : List (K × V)) (p : K × V) :
    p ∈ l.foldl (fun m p => insertOrd p.1 p.2 m) [] ↔ lastBinding l p.1 = some p :=
  (insertOrd_foldl l).2 p

/-- A search through a map in order finds the binding with the least key. -/
theorem Ascending.find?_eq_some {m : List (K × V)} (h : Ascending m) {P : K × V → Bool}
    {p : K × V} :
    m.find? P = some p ↔ p ∈ m ∧ P p = true ∧ ∀ q ∈ m, P q = true → p.1 ≤ q.1 := by
  induction m with
  | nil => simp
  | cons r rest ih =>
    rcases List.pairwise_cons.mp h with ⟨hr, hrest⟩
    by_cases hP : P r = true
    · rw [List.find?_cons_of_pos hP]
      constructor
      · rintro ⟨rfl⟩
        refine ⟨List.mem_cons_self, hP, ?_⟩
        intro q hq _
        rcases List.mem_cons.mp hq with rfl | hq
        · exact le_refl _
        · exact (hr q hq).le
      · rintro ⟨hp, -, hleast⟩
        rcases List.mem_cons.mp hp with rfl | hin
        · rfl
        · exact absurd (hleast r List.mem_cons_self hP) (not_le.mpr (hr p hin))
    · rw [List.find?_cons_of_neg hP, ih hrest]
      constructor
      · rintro ⟨hp, hPp, hleast⟩
        refine ⟨List.mem_cons_of_mem _ hp, hPp, ?_⟩
        intro q hq hPq
        rcases List.mem_cons.mp hq with rfl | hq
        · exact absurd hPq hP
        · exact hleast q hq hPq
      · rintro ⟨hp, hPp, hleast⟩
        rcases List.mem_cons.mp hp with rfl | hin
        · exact absurd hPp hP
        · exact ⟨hin, hPp, fun q hq => hleast q (List.mem_cons_of_mem _ hq)⟩

end InsertOrd

end FyreDL.Lib
