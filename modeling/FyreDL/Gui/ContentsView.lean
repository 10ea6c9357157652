import FyreDL.Lib.Trie
import FyreDL.Defaults

/-!
# FyreDL.Gui.ContentsView — the tree of `contentsView`

`cV_addItems` and the loop of `contentsView_update` that calls it.

* A `QStandardItem` is a node with its text and its children in the order of the rows. The
  invisible root is the list of its children.
* `cV_addItems` recurses on `elements`, of which each call has one less, so it terminates.
* `cvModel_trie` — the loop builds the trie of the names it is given.
-/

namespace FyreDL.Gui

open Lib Lib.Trie

/-- `QStandardItem`, as far as it is used. -/
abbrev StandardItem := Rose Str

/-- `childObjsList`: the row of the child with a text. A later child replaces an earlier one
of its text. -/
def childObjsList (children : List StandardItem) : Str → Option Nat :=
  children.zipIdx.foldl (fun hash child => Function.update hash child.1.label (some child.2))
    fun _ => none

/-- `cV_addItems`, from the children of `parent` before to those after. The loop over
`elements` returns in its first iteration. -/
def cvAddItems : List Str → List StandardItem → List StandardItem
  | [], children => children
  | element :: splitElements, children =>
    let newObj := .node element (cvAddItems splitElements [])
    if 0 < children.length then
      match childObjsList children element with
      | some i => children.modify i fun childObj =>
          .node childObj.label (cvAddItems splitElements childObj.children)
      | none => children ++ [newObj]
    else
      children ++ [newObj]

/-- What `QString::split` returns, which is never empty. -/
structure SplitName where
  names : List Str
  ne : names ≠ []

/-- `splitName[0]`. -/
def SplitName.root (splitName : SplitName) : Str := splitName.names.head splitName.ne

/-- `findItems(text, Qt::MatchFixedString)`: the items at the top level whose text is the
same up to case. -/
def findItems (foldCase : Str → Str) (text : Str) (cvModel : List StandardItem) :
    List StandardItem :=
  cvModel.filter fun item => foldCase item.label = foldCase text

/-- The body of the loop over `dir_list`. -/
def addSplitName (foldCase : Str → Str) (cvModel : List StandardItem) (splitName : SplitName) :
    List StandardItem :=
  let topLevelItem :=
    if (findItems foldCase splitName.root cvModel).length = 0 then
      cvModel ++ [.node splitName.root []]
    else cvModel
  cvAddItems splitName.names topLevelItem

/-- The loop over `dir_list`. -/
def cvModel (foldCase : Str → Str) (dirList : List SplitName) : List StandardItem :=
  dirList.foldl (addSplitName foldCase) []

/-! ## One name -/

section Adding

variable {children : List StandardItem} {element text : Str} {i : Nat}

theorem childObjsList_append (children : List StandardItem) (child : StandardItem) :
    childObjsList (children ++ [child]) =
      Function.update (childObjsList children) child.label (some children.length) := by
  simp [childObjsList, List.zipIdx_append]

/-- The row that the hash has for a text is that of a child with this text. -/
theorem childObjsList_eq_some (h : childObjsList children text = some i) :
    ∃ child, children[i]? = some child ∧ child.label = text := by
  induction children using List.reverseRecOn with
  | nil => simp [childObjsList] at h
  | append_singleton children child ih =>
    rw [childObjsList_append] at h
    by_cases hlabel : text = child.label
    · rw [hlabel, Function.update_self] at h
      obtain rfl := Option.some.inj h
      exact ⟨child, by simp, hlabel.symm⟩
    · rw [Function.update_of_ne hlabel] at h
      obtain ⟨child', hchild', hlabel'⟩ := ih h
      exact ⟨child', by rw [List.getElem?_append_left (List.getElem?_eq_some_iff.mp hchild').1,
        hchild'], hlabel'⟩

/-- It has no row for a text that no child has. -/
theorem childObjsList_eq_none :
    childObjsList children text = none ↔ text ∉ children.map Rose.label := by
  induction children using List.reverseRecOn with
  | nil => simp [childObjsList]
  | append_singleton children child ih =>
    rw [childObjsList_append, List.map_append, List.mem_append, not_or, ← ih,
      List.map_singleton, List.mem_singleton]
    by_cases hlabel : text = child.label
    · simp [hlabel]
    · simp [hlabel]

/-- A text that no child has becomes a new child. -/
theorem cvAddItems_new (h : element ∉ children.map Rose.label) (splitElements : List Str) :
    cvAddItems (element :: splitElements) children =
      children ++ [.node element (cvAddItems splitElements [])] := by
  rw [cvAddItems]
  by_cases hlen : 0 < children.length
  · simp only [if_pos hlen, childObjsList_eq_none.mpr h]
  · simp only [if_neg hlen]

/-- A text that a child has leads to this child. -/
theorem cvAddItems_old (h : element ∈ children.map Rose.label) (splitElements : List Str) :
    ∃ i, childObjsList children element = some i ∧
      cvAddItems (element :: splitElements) children =
        children.modify i fun childObj =>
          .node childObj.label (cvAddItems splitElements childObj.children) := by
  have hlen : 0 < children.length := by
    obtain ⟨child, hchild, -⟩ := List.mem_map.mp h
    exact List.length_pos_of_mem hchild
  cases hrow : childObjsList children element with
  | none => exact absurd h (childObjsList_eq_none.mp hrow)
  | some i =>
    refine ⟨i, rfl, ?_⟩
    rw [cvAddItems]
    simp only [if_pos hlen, hrow]

/-- Among siblings with different texts, one is modified by its row or by its text. -/
theorem modify_eq_map (h : Distinct children) (hrow : childObjsList children element = some i)
    (f : List StandardItem → List StandardItem) :
    (children.modify i fun childObj => .node childObj.label (f childObj.children)) =
      children.map fun t => if t.label = element then .node element (f t.children) else t := by
  obtain ⟨child, hchild, hlabel⟩ := childObjsList_eq_some hrow
  obtain ⟨hi, hget⟩ := List.getElem?_eq_some_iff.mp hchild
  refine List.ext_getElem? ?_
  intro j
  rw [List.getElem?_modify, List.getElem?_map]
  refine Option.map_congr ?_
  intro t ht
  obtain ⟨hj, hgetj⟩ := List.getElem?_eq_some_iff.mp ht
  by_cases hij : i = j
  · subst hij
    have hsame : t = child := hgetj.symm.trans hget
    rw [if_pos rfl, if_pos (hsame ▸ hlabel), hsame, hlabel]
  · have hother : t.label ≠ element := by
      intro heq
      have hdup := @List.Nodup.getElem_inj_iff _ _ h.labels i (by simpa) j (by simpa)
      simp only [List.getElem_map] at hdup
      exact hij (hdup.mp (by rw [hget, hgetj, hlabel, heq]))
    rw [if_neg hij, if_neg hother]

/-- Among siblings with different texts, `cV_addItems` is the insertion into a trie. -/
theorem cvAddItems_eq (h : Distinct children) (elements : List Str) :
    cvAddItems elements children = insertPath elements children := by
  induction elements generalizing children with
  | nil => rfl
  | cons element splitElements ih =>
    by_cases hmem : element ∈ children.map Rose.label
    · obtain ⟨i, hrow, hadd⟩ := cvAddItems_old hmem splitElements
      rw [hadd, modify_eq_map h hrow, insertPath_of_mem hmem]
      refine List.map_congr_left ?_
      intro t ht
      by_cases hlabel : t.label = element
      · rw [if_pos hlabel, if_pos hlabel, ih (h.children t ht)]
      · rw [if_neg hlabel, if_neg hlabel]
    · rw [cvAddItems_new hmem, insertPath_of_notMem hmem, ih distinct_nil]

end Adding

/-! ## The loop -/

section Loop

variable {foldCase : Str → Str} {tree : List StandardItem}

/-- No item is found for a text that is not there. -/
theorem notMem_of_findItems {text : Str} (h : (findItems foldCase text tree).length = 0) :
    text ∉ tree.map Rose.label := by
  intro hmem
  obtain ⟨item, hitem, hlabel⟩ := List.mem_map.mp hmem
  have hfound : item ∈ findItems foldCase text tree :=
    List.mem_filter.mpr ⟨hitem, by simp [hlabel]⟩
  rw [List.length_eq_zero_iff.mp h] at hfound
  exact List.not_mem_nil hfound

/-- The item that is added beforehand is the one that the insertion would add. -/
theorem insertPath_root {a : Str} (h : a ∉ tree.map Rose.label) (rest : List Str) :
    insertPath (a :: rest) (tree ++ [.node a []]) = insertPath (a :: rest) tree := by
  rw [insertPath_of_notMem h, insertPath_of_mem (by simp), List.map_append]
  refine congrArg₂ _ ?_ (by simp)
  refine (List.map_congr_left fun t ht => ?_).trans (List.map_id tree)
  exact if_neg fun hlabel => h (List.mem_map.mpr ⟨t, ht, hlabel⟩)

theorem addSplitName_eq (h : Distinct tree) (splitName : SplitName) :
    addSplitName foldCase tree splitName = insertPath splitName.names tree := by
  have hnames : splitName.names = splitName.root :: splitName.names.tail :=
    (List.cons_head_tail splitName.ne).symm
  unfold addSplitName
  by_cases hfound : (findItems foldCase splitName.root tree).length = 0
  · have hnew := notMem_of_findItems hfound
    have hroot : Distinct (tree ++ [.node splitName.root []]) := by
      have hins := @distinct_insertPath Str _ [splitName.root] tree h
      rwa [insertPath_of_notMem hnew, insertPath_nil] at hins
    simp only [if_pos hfound]
    rw [cvAddItems_eq hroot, hnames, insertPath_root hnew]
  · simp only [if_neg hfound]
    rw [cvAddItems_eq h]

/-- The loop inserts the names into a trie, whatever counts as equal up to case. -/
theorem foldl_addSplitName (dirList : List SplitName) (h : Distinct tree) :
    dirList.foldl (addSplitName foldCase) tree =
      insertAll (dirList.map SplitName.names) tree := by
  induction dirList generalizing tree with
  | nil => rfl
  | cons splitName dirList ih =>
    rw [List.foldl_cons, addSplitName_eq h, ih (distinct_insertPath h)]
    rfl

theorem cvModel_eq (foldCase : Str → Str) (dirList : List SplitName) :
    cvModel foldCase dirList = insertAll (dirList.map SplitName.names) [] :=
  foldl_addSplitName dirList distinct_nil

theorem distinct_cvModel (foldCase : Str → Str) (dirList : List SplitName) :
    Distinct (cvModel foldCase dirList) := by
  rw [cvModel_eq]
  exact distinct_insertAll distinct_nil

/-- The paths into the tree are the prefixes of the names. -/
theorem hasPath_cvModel {dirList : List SplitName} {path : List Str} (hne : path ≠ []) :
    HasPath path (cvModel foldCase dirList) ↔
      ∃ splitName ∈ dirList, path <+: splitName.names := by
  rw [cvModel_eq, hasPath_insertAll, hasPath_empty]
  simp [hne]

end Loop

/-- No two children of an item have the same text, the paths from the root are the non-empty
prefixes of the names that were processed, so their order does not matter, and to process one
of them again changes nothing. -/
theorem cvModel_trie (foldCase : Str → Str) (dirList : List SplitName) :
    Distinct (cvModel foldCase dirList) ∧
      (∀ path, path ≠ [] → (HasPath path (cvModel foldCase dirList) ↔
        ∃ splitName ∈ dirList, path <+: splitName.names)) ∧
      (∀ dirList', List.Perm dirList dirList' → ∀ path,
        HasPath path (cvModel foldCase dirList) ↔ HasPath path (cvModel foldCase dirList')) ∧
      ∀ splitName ∈ dirList,
        addSplitName foldCase (cvModel foldCase dirList) splitName =
          cvModel foldCase dirList := by
  refine ⟨distinct_cvModel foldCase dirList, fun path hne => hasPath_cvModel hne, ?_, ?_⟩
  · intro dirList' hperm path
    by_cases hne : path = []
    · rw [hne]
      exact iff_of_true trivial trivial
    · rw [hasPath_cvModel hne, hasPath_cvModel hne]
      simp only [hperm.mem_iff]
  · intro splitName hmem
    have hdistinct := distinct_cvModel foldCase dirList
    rw [addSplitName_eq hdistinct]
    exact insertPath_of_hasPath hdistinct
      ((hasPath_cvModel splitName.ne).mpr ⟨splitName, hmem, List.prefix_rfl⟩)

end FyreDL.Gui
