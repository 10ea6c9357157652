import Mathlib.Data.Finset.Max
import Mathlib.Data.List.Infix

/-!
# FyreDL.Lib.Trie — forests of labelled nodes as sets of paths

A forest in which siblings have different labels is a trie: it is determined, up to the
order of siblings, by the paths that lead into it from the top.

* `hasPath_insertPath`, `distinct_insertPath` — insertion adds the prefixes of one path and
  keeps siblings apart.
* `insertPath_of_hasPath` — it changes nothing when the path is there.
* `leafPath_insertAll`, `exists_leafPath` — the leaves are the inserted paths that no other
  one extends, and every inserted path leads on to one of them.
-/

namespace FyreDL.Lib

universe u

/-- A node with its label and the forest below it. -/
inductive Rose (α : Type u) where
  | node (label : α) (children : List (Rose α))

namespace Rose

variable {α : Type u}

def label : Rose α → α
  | node a _ => a

def children : Rose α → List (Rose α)
  | node _ below => below

@[simp] theorem label_node (a : α) (below : List (Rose α)) : (node a below).label = a := rfl

@[simp] theorem children_node (a : α) (below : List (Rose α)) :
    (node a below).children = below := rfl

theorem eta (t : Rose α) : node t.label t.children = t := by
  cases t
  rfl

end Rose

namespace Trie

variable {α : Type u}

/-- The labels along the path lead from the top of the forest to one of its nodes. -/
def HasPath : List α → List (Rose α) → Prop
  | [], _ => True
  | a :: path, forest => ∃ t ∈ forest, t.label = a ∧ HasPath path t.children

/-- The labels along the path lead from the top of the forest to a node without children. -/
def LeafPath : List α → List (Rose α) → Prop
  | [], forest => forest = []
  | a :: path, forest => ∃ t ∈ forest, t.label = a ∧ LeafPath path t.children

instance decidableLeafPath [DecidableEq α] :
    ∀ (path : List α) (forest : List (Rose α)), Decidable (LeafPath path forest)
  | [], [] => isTrue rfl
  | [], _ :: _ => isFalse (List.cons_ne_nil _ _)
  | a :: path, forest =>
    have _ := decidableLeafPath path
    inferInstanceAs (Decidable (∃ t ∈ forest, t.label = a ∧ LeafPath path t.children))

/-- Siblings have different labels, at the top and below. -/
inductive Distinct : List (Rose α) → Prop where
  | mk {forest : List (Rose α)} (labels : (forest.map Rose.label).Nodup)
      (inner : ∀ t ∈ forest, Distinct t.children) : Distinct forest

theorem Distinct.labels {forest : List (Rose α)} (h : Distinct forest) :
    (forest.map Rose.label).Nodup := by
  cases h
  assumption

theorem Distinct.children {forest : List (Rose α)} (h : Distinct forest) :
    ∀ t ∈ forest, Distinct t.children := by
  cases h
  assumption

theorem distinct_nil : Distinct ([] : List (Rose α)) :=
  .mk List.nodup_nil fun _ ht => absurd ht List.not_mem_nil

/-- Siblings with one label are one node. -/
theorem Distinct.eq_of_label {forest : List (Rose α)} (h : Distinct forest) {t t' : Rose α}
    (ht : t ∈ forest) (ht' : t' ∈ forest) (heq : t.label = t'.label) : t = t' :=
  List.inj_on_of_nodup_map h.labels ht ht' heq

@[simp] theorem hasPath_nil (forest : List (Rose α)) : HasPath [] forest := trivial

theorem hasPath_cons {a : α} {path : List α} {forest : List (Rose α)} :
    HasPath (a :: path) forest ↔ ∃ t ∈ forest, t.label = a ∧ HasPath path t.children :=
  Iff.rfl

/-- Only the path of no labels leads into the empty forest. -/
theorem hasPath_empty {path : List α} : HasPath path ([] : List (Rose α)) ↔ path = [] := by
  cases path with
  | nil => simp
  | cons a path => simp [HasPath]

theorem hasPath_append {a : α} {path : List α} {forest forest' : List (Rose α)} :
    HasPath (a :: path) (forest ++ forest') ↔
      HasPath (a :: path) forest ∨ HasPath (a :: path) forest' := by
  simp only [hasPath_cons, List.mem_append, or_and_right, exists_or]

/-- In a trie the leaves are the paths that cannot be continued. -/
theorem leafPath_iff {path : List α} {forest : List (Rose α)} (h : Distinct forest) :
    LeafPath path forest ↔
      HasPath path forest ∧ ∀ a, ¬ HasPath (path ++ [a]) forest := by
  induction path generalizing forest with
  | nil =>
    cases forest with
    | nil => simp [LeafPath, HasPath]
    | cons t forest =>
      simp only [LeafPath, reduceCtorEq, hasPath_nil, true_and, false_iff, List.nil_append]
      intro hnone
      exact hnone t.label ⟨t, List.mem_cons_self, rfl, trivial⟩
  | cons a path ih =>
    constructor
    · intro hleaf
      obtain ⟨t, ht, hlabel, hleaf⟩ := hleaf
      have hends := (ih (h.children t ht)).mp hleaf
      refine ⟨⟨t, ht, hlabel, hends.1⟩, ?_⟩
      intro b hlonger
      obtain ⟨t', ht', hlabel', hlonger⟩ := hlonger
      have hsame := h.eq_of_label ht' ht (hlabel'.trans hlabel.symm)
      rw [hsame] at hlonger
      exact hends.2 b hlonger
    · intro hends
      obtain ⟨⟨t, ht, hlabel, hpath⟩, hnone⟩ := hends
      refine ⟨t, ht, hlabel, (ih (h.children t ht)).mpr ⟨hpath, ?_⟩⟩
      intro b hlonger
      exact hnone b ⟨t, ht, hlabel, hlonger⟩

section Insertion

variable [DecidableEq α]

/-- Follows the path down the forest and creates what is missing of it. -/
def insertPath : List α → List (Rose α) → List (Rose α)
  | [], forest => forest
  | a :: path, forest =>
    if a ∈ forest.map Rose.label then
      forest.map fun t => if t.label = a then .node a (insertPath path t.children) else t
    else
      forest ++ [.node a (insertPath path [])]

@[simp] theorem insertPath_nil (forest : List (Rose α)) : insertPath [] forest = forest := rfl

theorem insertPath_of_mem {a : α} {path : List α} {forest : List (Rose α)}
    (h : a ∈ forest.map Rose.label) :
    insertPath (a :: path) forest =
      forest.map fun t => if t.label = a then .node a (insertPath path t.children) else t := by
  rw [insertPath, if_pos h]

theorem insertPath_of_notMem {a : α} {path : List α} {forest : List (Rose α)}
    (h : a ∉ forest.map Rose.label) :
    insertPath (a :: path) forest = forest ++ [.node a (insertPath path [])] := by
  rw [insertPath, if_neg h]

/-- The labels at the top, of which the first of the path becomes one. -/
theorem map_label_insertPath {a : α} {path : List α} {forest : List (Rose α)}
    (h : a ∈ forest.map Rose.label) :
    (insertPath (a :: path) forest).map Rose.label = forest.map Rose.label := by
  rw [insertPath_of_mem h, List.map_map]
  refine List.map_congr_left ?_
  intro t ht
  by_cases hlabel : t.label = a
  · simp [hlabel]
  · simp [hlabel]

/-- A path through a forest whose trees with one label have other children. -/
theorem hasPath_map_children {a b : α} {path : List α} {forest : List (Rose α)}
    (f : List (Rose α) → List (Rose α)) :
    HasPath (b :: path)
        (forest.map fun t => if t.label = a then .node a (f t.children) else t) ↔
      ∃ t ∈ forest, t.label = b ∧
        HasPath path (if b = a then f t.children else t.children) := by
  simp only [hasPath_cons, List.mem_map, exists_exists_and_eq_and]
  refine exists_congr fun t => and_congr_right ?_
  intro _
  by_cases hta : t.label = a
  · rw [if_pos hta, hta]
    refine and_congr_right fun (hab : a = b) => ?_
    rw [if_pos hab.symm]
    rfl
  · rw [if_neg hta]
    refine and_congr_right ?_
    intro htb
    rw [if_neg fun hba => hta (htb.trans hba)]

/-- The insertion of a path adds its prefixes. -/
theorem hasPath_insertPath {path added : List α} {forest : List (Rose α)} :
    HasPath path (insertPath added forest) ↔ HasPath path forest ∨ path <+: added := by
  induction added generalizing path forest with
  | nil =>
    simp only [insertPath_nil, List.prefix_nil]
    constructor
    · exact Or.inl
    · rintro (h | rfl)
      · exact h
      · exact trivial
  | cons a added ih =>
    cases path with
    | nil => simp
    | cons b path =>
      rw [List.cons_prefix_cons]
      by_cases hmem : a ∈ forest.map Rose.label
      · rw [insertPath_of_mem hmem, hasPath_map_children]
        by_cases hba : b = a
        · -- the path goes on in the tree that was there
          subst hba
          obtain ⟨old, hold, hlabel⟩ := List.mem_map.mp hmem
          simp only [if_true, ih, and_or_left, exists_or, true_and]
          refine or_congr_right ⟨fun h => ?_, fun h => ⟨old, hold, hlabel, h⟩⟩
          obtain ⟨t, -, -, hnew⟩ := h
          exact hnew
        · simp only [hba, if_false, false_and, or_false]
          exact hasPath_cons.symm
      · rw [insertPath_of_notMem hmem, hasPath_append]
        refine or_congr_right ?_
        simp only [hasPath_cons, List.mem_singleton, exists_eq_left, Rose.label_node,
          Rose.children_node, ih, hasPath_empty]
        constructor
        · rintro ⟨hab, hnil | hnew⟩
          · exact ⟨hab.symm, hnil ▸ List.nil_prefix⟩
          · exact ⟨hab.symm, hnew⟩
        · rintro ⟨hba, hnew⟩
          exact ⟨hba.symm, Or.inr hnew⟩

/-- Insertion keeps siblings apart. -/
theorem distinct_insertPath {added : List α} {forest : List (Rose α)} (h : Distinct forest) :
    Distinct (insertPath added forest) := by
  induction added generalizing forest with
  | nil => exact h
  | cons a added ih =>
    by_cases hmem : a ∈ forest.map Rose.label
    · refine .mk ?_ fun t ht => ?_
      · rw [map_label_insertPath hmem]
        exact h.labels
      · rw [insertPath_of_mem hmem] at ht
        obtain ⟨old, hold, rfl⟩ := List.mem_map.mp ht
        by_cases hlabel : old.label = a
        · rw [if_pos hlabel]
          exact ih (h.children old hold)
        · rw [if_neg hlabel]
          exact h.children old hold
    · rw [insertPath_of_notMem hmem]
      refine .mk ?_ fun t ht => ?_
      · rw [List.map_append]
        refine List.nodup_append.mpr ⟨h.labels, List.nodup_singleton _, ?_⟩
        intro b hb c hc heq
        rw [List.map_singleton, List.mem_singleton, Rose.label_node] at hc
        exact hmem (hc ▸ heq ▸ hb)
      · rcases List.mem_append.mp ht with hold | hnew
        · exact h.children t hold
        · rw [List.mem_singleton.mp hnew]
          exact ih distinct_nil

/-- The insertion of a path that is there changes nothing. -/
theorem insertPath_of_hasPath {path : List α} {forest : List (Rose α)} (h : Distinct forest)
    (hpath : HasPath path forest) : insertPath path forest = forest := by
  induction path generalizing forest with
  | nil => rfl
  | cons a path ih =>
    obtain ⟨t, ht, hlabel, hbelow⟩ := hpath
    rw [insertPath_of_mem (List.mem_map.mpr ⟨t, ht, hlabel⟩)]
    refine (List.map_congr_left fun t' ht' => ?_).trans (List.map_id forest)
    by_cases hlabel' : t'.label = a
    · have hsame := h.eq_of_label ht' ht (hlabel'.trans hlabel.symm)
      subst hsame
      rw [if_pos hlabel', ih (h.children t' ht) hbelow, ← hlabel']
      exact t'.eta
    · rw [if_neg hlabel']
      rfl

/-- The paths one after the other. -/
def insertAll (paths : List (List α)) (forest : List (Rose α)) : List (Rose α) :=
  paths.foldl (fun forest path => insertPath path forest) forest

theorem distinct_insertAll {paths : List (List α)} {forest : List (Rose α)}
    (h : Distinct forest) : Distinct (insertAll paths forest) := by
  induction paths generalizing forest with
  | nil => exact h
  | cons path paths ih => exact ih (distinct_insertPath h)

theorem hasPath_insertAll {path : List α} {paths : List (List α)} {forest : List (Rose α)} :
    HasPath path (insertAll paths forest) ↔
      HasPath path forest ∨ ∃ added ∈ paths, path <+: added := by
  induction paths generalizing forest with
  | nil => simp [insertAll]
  | cons added paths ih =>
    change HasPath path (insertAll paths (insertPath added forest)) ↔ _
    rw [ih, hasPath_insertPath, or_assoc, List.exists_mem_cons_iff]

/-- The leaves of what is built from nothing. -/
theorem leafPath_insertAll {path : List α} {paths : List (List α)} (hne : path ≠ []) :
    LeafPath path (insertAll paths []) ↔
      path ∈ paths ∧ ∀ added ∈ paths, path <+: added → added = path := by
  rw [leafPath_iff (distinct_insertAll distinct_nil)]
  simp only [hasPath_insertAll, hasPath_empty, hne, false_or, List.append_eq_nil_iff,
    List.cons_ne_nil, and_false, not_exists, not_and]
  constructor
  · intro h
    obtain ⟨⟨added, hadded, hbelow⟩, hends⟩ := h
    have hmax : ∀ longer ∈ paths, path <+: longer → longer = path := by
      intro longer hlonger hp
      obtain ⟨rest, hrest⟩ := hp
      cases rest with
      | nil => rw [← hrest, List.append_nil]
      | cons a rest =>
        exact absurd ⟨rest, by rw [← hrest, List.append_assoc, List.singleton_append]⟩
          (hends a longer hlonger)
    exact ⟨hmax added hadded hbelow ▸ hadded, hmax⟩
  · intro h
    obtain ⟨hmem, hmax⟩ := h
    refine ⟨⟨path, hmem, List.prefix_rfl⟩, ?_⟩
    intro a longer hlonger hp
    have hlen := hp.length_le
    rw [hmax longer hlonger ((List.prefix_append path [a]).trans hp), List.length_append] at hlen
    exact absurd hlen (by simp)

/-- Every path of a list goes on to one that no other one extends. -/
theorem exists_longest {path : List α} {paths : List (List α)} (h : path ∈ paths) :
    ∃ longest ∈ paths, path <+: longest ∧
      ∀ added ∈ paths, longest <+: added → added = longest := by
  have hne : (paths.toFinset.filter fun added => path <+: added).Nonempty :=
    ⟨path, Finset.mem_filter.mpr ⟨List.mem_toFinset.mpr h, List.prefix_rfl⟩⟩
  obtain ⟨longest, hlongest, hmax⟩ := Finset.exists_max_image _ List.length hne
  obtain ⟨hmem, hbelow⟩ := Finset.mem_filter.mp hlongest
  refine ⟨longest, List.mem_toFinset.mp hmem, hbelow, ?_⟩
  intro added hadded hp
  have hlen := hmax added
    (Finset.mem_filter.mpr ⟨List.mem_toFinset.mpr hadded, hbelow.trans hp⟩)
  exact (hp.eq_of_length_le hlen).symm

/-- Every inserted path leads on to a leaf, which is one of them. -/
theorem exists_leafPath {path : List α} {paths : List (List α)} (h : path ∈ paths)
    (hne : path ≠ []) : ∃ leaf ∈ paths, path <+: leaf ∧ LeafPath leaf (insertAll paths []) := by
  obtain ⟨leaf, hmem, hbelow, hmax⟩ := exists_longest h
  have hleaf : leaf ≠ [] := by
    intro hnil
    rw [hnil, List.prefix_nil] at hbelow
    exact hne hbelow
  exact ⟨leaf, hmem, hbelow, (leafPath_insertAll hleaf).mpr ⟨hmem, hmax⟩⟩

end Insertion

end Trie

end FyreDL.Lib
