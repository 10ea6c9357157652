import FyreDL.Gui.ContentsView
import FyreDL.Lib.AssocMap
import Mathlib.Data.List.Dedup

/-!
# FyreDL.Gui.ContentsPaths — the paths of a torrent in `contentsView`

The part of `contentsView_update` that makes the names of the tree from the files of a
torrent.

* A path is taken apart with `boost::filesystem` and `QDir`, which are a parameter.
  `PathLib.Documented` is what their documentation says of paths made of plain names.
* Every component of a path becomes an entry under the whole directory of the file. An entry
  counts as a file if its name has an extension and is not that of the directory.
* `contentsTree_shows_iff` — the leaves are the files exactly if every file is taken for one,
  no file lies below another and what is wrongly taken for a file is covered by one.
-/

namespace FyreDL.Gui

open Lib Lib.Trie

/-! ## Paths -/

/-- What is used of `boost::filesystem::path` and `QDir`. -/
structure PathLib where
  /-- The elements that `path::begin` to `path::end` give. -/
  elements : Str → List Str
  parentPath : Str → Str
  hasExtension : Str → Bool
  /-- `QDir(path).dirName()`. -/
  dirName : Str → Str

/-- `QString::split(fs::path::preferred_separator)`. -/
def splitPath (path : Str) : List Str := path.splitOn preferredSeparator

/-- Names with separators between them. -/
def joinNames (names : List Str) : Str := [preferredSeparator].intercalate names

/-- What can stand between two separators of a path. -/
def IsName (name : Str) : Prop := name ≠ [] ∧ preferredSeparator ∉ name

/-- A relative path: names with separators between them, and at least one. -/
def IsRelative (path : Str) : Prop := ∀ name ∈ splitPath path, IsName name

/-- A name with a dot in it, `.` and `..` apart. -/
def HasExtension (name : Str) : Prop := '.' ∈ name ∧ name ≠ ['.'] ∧ name ≠ ['.', '.']

instance (name : Str) : Decidable (IsName name) := inferInstanceAs (Decidable (_ ∧ _))

instance (path : Str) : Decidable (IsRelative path) :=
  inferInstanceAs (Decidable (∀ _ ∈ _, _))

instance (name : Str) : Decidable (HasExtension name) := inferInstanceAs (Decidable (_ ∧ _))

/-- What is documented of the paths that are made of names. An empty path is the working
directory for `QDir`. -/
structure PathLib.Documented (lib : PathLib) : Prop where
  elements : ∀ {names}, (∀ name ∈ names, IsName name) → names ≠ [] →
    lib.elements (joinNames names) = names
  parentPath : ∀ {dirs name}, (∀ n ∈ dirs ++ [name], IsName n) →
    lib.parentPath (joinNames (dirs ++ [name])) = joinNames dirs
  hasExtension : ∀ {name}, IsName name → (lib.hasExtension name = true ↔ HasExtension name)
  dirName : ∀ {dirs name}, (∀ n ∈ dirs ++ [name], IsName n) →
    lib.dirName (joinNames (dirs ++ [name])) = name
  dirName_empty : lib.dirName [] = ['.']

/-! ## `contentsView_update` -/

/-- `columnData`: for every element of the path of a file, under the parent path of the file,
the element and this parent path. -/
def columnData (lib : PathLib) (filesVec : List TorrentFile) : List (Str × Str × Str) :=
  filesVec.flatMap fun gkTfElement =>
    (lib.elements gkTfElement.filePath).map fun indice =>
      let cvRoot := lib.parentPath gkTfElement.filePath
      (cvRoot, indice, cvRoot)

/-- `boost_child_path.has_extension() && dir_name != child`. -/
def likelyFile (lib : PathLib) (entry : Str × Str) : Bool :=
  lib.hasExtension entry.1 && decide (lib.dirName entry.2 ≠ entry.1)

/-- `files_toProc`, a set. -/
def filesToProc (lib : PathLib) (columns : List (Str × Str × Str)) : List Str :=
  (((columns.map Prod.snd).filter (likelyFile lib)).map fun entry =>
    entry.2 ++ preferredSeparator :: entry.1).dedup

/-- `item.split(fs::path::preferred_separator)`. -/
def splitItem (item : Str) : SplitName := ⟨splitPath item, List.splitOn_ne_nil _ _⟩

/-- `cV_model` from the files of a torrent. `qSort` puts the elements of the set in order. -/
def contentsTree (lib : PathLib) (qSort : IterOrder Str) (foldCase : Str → Str)
    (filesVec : List TorrentFile) : List StandardItem :=
  cvModel foldCase ((qSort.order (filesToProc lib (columnData lib filesVec))).map splitItem)

/-! ## The names that are processed -/

section Names

variable {names dirs : List Str} {name path : Str}

theorem joinNames_splitPath (path : Str) : joinNames (splitPath path) = path :=
  List.intercalate_splitOn _

theorem splitPath_joinNames (h : ∀ name ∈ names, preferredSeparator ∉ name) (hne : names ≠ []) :
    splitPath (joinNames names) = names :=
  List.splitOn_intercalate _ h hne

theorem joinNames_concat (hne : dirs ≠ []) (name : Str) :
    joinNames (dirs ++ [name]) = joinNames dirs ++ preferredSeparator :: name := by
  unfold joinNames
  induction dirs with
  | nil => exact absurd rfl hne
  | cons dir dirs ih =>
    cases dirs with
    | nil => simp
    | cons dir' dirs =>
      rw [List.cons_append, List.cons_append, List.intercalate_cons_cons,
        List.intercalate_cons_cons, ← List.cons_append, ih (by simp)]
      simp

/-- The names along the path to the item of an entry. An entry without a directory is put
under an item without a name. -/
def entryNames (dirs : List Str) (child : Str) : List Str :=
  if dirs = [] then [[], child] else dirs ++ [child]

/-- The item of an entry is split where its names meet. -/
theorem splitPath_entry {child : Str} (h : ∀ name ∈ dirs, IsName name) (hchild : IsName child) :
    splitPath (joinNames dirs ++ preferredSeparator :: child) = entryNames dirs child := by
  unfold entryNames
  by_cases hdirs : dirs = []
  · rw [if_pos hdirs, hdirs]
    have hjoin : joinNames [] ++ preferredSeparator :: child = joinNames [[], child] := by
      simp [joinNames]
    rw [hjoin]
    refine splitPath_joinNames (fun name hname => ?_) (by simp)
    rcases List.mem_cons.mp hname with hempty | hlast
    · rw [hempty]
      exact List.not_mem_nil
    · rw [List.mem_singleton.mp hlast]
      exact hchild.2
  · rw [if_neg hdirs, ← joinNames_concat hdirs]
    refine splitPath_joinNames (fun name hname => ?_) (by simp)
    rcases List.mem_append.mp hname with hdir | hlast
    · exact (h name hdir).2
    · rw [List.mem_singleton.mp hlast]
      exact hchild.2

/-- The name of the last directory, of which there may be none. -/
theorem dirName_joinNames {lib : PathLib} (hlib : lib.Documented)
    (h : ∀ name ∈ dirs, IsName name) : lib.dirName (joinNames dirs) = dirs.getLastD ['.'] := by
  rcases List.eq_nil_or_concat dirs with hnil | ⟨front, last, hdirs⟩
  · rw [hnil]
    exact hlib.dirName_empty
  · rw [List.concat_eq_append] at hdirs
    rw [hdirs] at h ⊢
    rw [hlib.dirName h]
    simp

/-- The names of the path of each file. -/
def fileNames (filesVec : List TorrentFile) : List (List Str) :=
  filesVec.map fun file => splitPath file.filePath

/-- A name is taken for that of a file in a directory. -/
def TakenForFile (dirs : List Str) (child : Str) : Prop :=
  HasExtension child ∧ dirs.getLast? ≠ some child

instance (dirs : List Str) (child : Str) : Decidable (TakenForFile dirs child) :=
  inferInstanceAs (Decidable (_ ∧ _))

theorem likelyFile_iff {lib : PathLib} (hlib : lib.Documented)
    (h : ∀ name ∈ dirs, IsName name) {child : Str} (hchild : IsName child) :
    likelyFile lib (child, joinNames dirs) = true ↔ TakenForFile dirs child := by
  unfold likelyFile TakenForFile
  rw [Bool.and_eq_true, decide_eq_true_eq, hlib.hasExtension hchild, dirName_joinNames hlib h]
  refine and_congr_right fun hext => not_congr ?_
  rw [List.getLastD_eq_getLast?]
  cases hlast : dirs.getLast? with
  | none =>
    rw [Option.getD_none]
    exact iff_of_false (fun heq => hext.2.1 heq.symm) (by simp)
  | some last => simp

/-- The directories of a relative path and its last name. -/
theorem IsRelative.exists_names (h : IsRelative path) :
    ∃ dirs name, splitPath path = dirs ++ [name] ∧ path = joinNames (dirs ++ [name]) ∧
      ∀ n ∈ dirs ++ [name], IsName n := by
  rcases List.eq_nil_or_concat (splitPath path) with hnil | ⟨dirs, name, hnames⟩
  · exact absurd hnil (List.splitOn_ne_nil _ _)
  · rw [List.concat_eq_append] at hnames
    refine ⟨dirs, name, hnames, ?_, ?_⟩
    · rw [← hnames, joinNames_splitPath]
    · rw [← hnames]
      exact h

section Files

variable {lib : PathLib} {filesVec : List TorrentFile}

theorem isName_of_mem_fileNames (hrel : ∀ file ∈ filesVec, IsRelative file.filePath)
    (h : names ∈ fileNames filesVec) : ∀ name ∈ names, IsName name := by
  obtain ⟨file, hfile, hnames⟩ := List.mem_map.mp h
  rw [← hnames]
  exact hrel file hfile

/-- The entries: every component of a path with the directory of the file. -/
theorem mem_columnData (hlib : lib.Documented)
    (hrel : ∀ file ∈ filesVec, IsRelative file.filePath) {entry : Str × Str} :
    entry ∈ (columnData lib filesVec).map Prod.snd ↔
      ∃ dirs name, dirs ++ [name] ∈ fileNames filesVec ∧
        ∃ child ∈ dirs ++ [name], entry = (child, joinNames dirs) := by
  simp only [columnData, fileNames, List.mem_map, List.mem_flatMap]
  constructor
  · intro h
    obtain ⟨column, ⟨file, hfile, indice, hindice, hcolumn⟩, hentry⟩ := h
    obtain ⟨dirs, name, hpath, hjoin, hall⟩ := (hrel file hfile).exists_names
    rw [hjoin, hlib.elements hall (by simp)] at hindice
    refine ⟨dirs, name, ⟨file, hfile, hpath⟩, indice, hindice, ?_⟩
    rw [← hentry, ← hcolumn, hjoin, hlib.parentPath hall]
  · intro h
    obtain ⟨dirs, name, ⟨file, hfile, hpath⟩, child, hchild, hentry⟩ := h
    have hjoin : file.filePath = joinNames (dirs ++ [name]) := by
      rw [← hpath, joinNames_splitPath]
    have hall : ∀ n ∈ dirs ++ [name], IsName n := hpath ▸ hrel file hfile
    refine ⟨_, ⟨file, hfile, child, ?_, rfl⟩, ?_⟩
    · rw [hjoin, hlib.elements hall (by simp)]
      exact hchild
    · rw [hentry, hjoin, hlib.parentPath hall]

/-- The names of an entry that is taken for a file. -/
def Processed (files : List (List Str)) (names : List Str) : Prop :=
  ∃ dirs name, dirs ++ [name] ∈ files ∧
    ∃ child ∈ dirs ++ [name], TakenForFile dirs child ∧ names = entryNames dirs child

theorem mem_filesToProc (hlib : lib.Documented)
    (hrel : ∀ file ∈ filesVec, IsRelative file.filePath) :
    names ∈ (filesToProc lib (columnData lib filesVec)).map splitPath ↔
      Processed (fileNames filesVec) names := by
  simp only [Processed, filesToProc, List.mem_map, List.mem_dedup, List.mem_filter]
  constructor
  · intro h
    obtain ⟨item, ⟨entry, ⟨hentry, hlikely⟩, hitem⟩, hnames⟩ := h
    obtain ⟨dirs, name, hfile, child, hchild, hpair⟩ :=
      (mem_columnData hlib hrel).mp (List.mem_map.mpr hentry)
    have hall := isName_of_mem_fileNames hrel hfile
    have hdirs : ∀ n ∈ dirs, IsName n := fun n hn => hall n (List.mem_append_left _ hn)
    rw [hpair] at hlikely hitem
    refine ⟨dirs, name, hfile, child, hchild,
      (likelyFile_iff hlib hdirs (hall child hchild)).mp hlikely, ?_⟩
    rw [← hnames, ← hitem, splitPath_entry hdirs (hall child hchild)]
  · intro h
    obtain ⟨dirs, name, hfile, child, hchild, htaken, hnames⟩ := h
    have hall := isName_of_mem_fileNames hrel hfile
    have hdirs : ∀ n ∈ dirs, IsName n := fun n hn => hall n (List.mem_append_left _ hn)
    refine ⟨_, ⟨(child, joinNames dirs), ⟨?_, ?_⟩, rfl⟩, ?_⟩
    · exact List.mem_map.mp
        ((mem_columnData hlib hrel).mpr ⟨dirs, name, hfile, child, hchild, rfl⟩)
    · exact (likelyFile_iff hlib hdirs (hall child hchild)).mpr htaken
    · rw [splitPath_entry hdirs (hall child hchild), hnames]

/-- The names in the order in which the loop takes them. -/
def processedNames (lib : PathLib) (qSort : IterOrder Str) (filesVec : List TorrentFile) :
    List (List Str) :=
  (qSort.order (filesToProc lib (columnData lib filesVec))).map splitPath

theorem contentsTree_eq (lib : PathLib) (qSort : IterOrder Str) (foldCase : Str → Str)
    (filesVec : List TorrentFile) :
    contentsTree lib qSort foldCase filesVec =
      insertAll (processedNames lib qSort filesVec) [] := by
  rw [contentsTree, cvModel_eq, List.map_map]
  rfl

theorem mem_processedNames (hlib : lib.Documented)
    (hrel : ∀ file ∈ filesVec, IsRelative file.filePath) (qSort : IterOrder Str) :
    names ∈ processedNames lib qSort filesVec ↔ Processed (fileNames filesVec) names := by
  rw [← mem_filesToProc hlib hrel, processedNames, List.mem_map, List.mem_map]
  simp only [IterOrder.mem_order]

end Files

end Names

/-! ## The files that are shown -/

/-- The leaves of the tree are the files. -/
def ShowsFiles (tree : List StandardItem) (files : List (List Str)) : Prop :=
  ∀ path, path ≠ [] → (LeafPath path tree ↔ path ∈ files)

/-- The files can be told from the directories: each one is in a directory and taken for a
file, none lies below another, and where a directory is taken for a file of the last
directory there is one of its name, or one below it. -/
structure ToldApart (files : List (List Str)) : Prop where
  taken : ∀ names ∈ files, names.dropLast ≠ [] ∧
    ∀ name ∈ names.getLast?, TakenForFile names.dropLast name
  apart : ∀ names ∈ files, ∀ names' ∈ files, names <+: names' → names = names'
  covered : ∀ names ∈ files, ∀ child ∈ names.dropLast, TakenForFile names.dropLast child →
    ∃ names' ∈ files, names.dropLast ++ [child] <+: names'

instance (files : List (List Str)) : Decidable (ToldApart files) :=
  decidable_of_iff
    ((∀ names ∈ files, names.dropLast ≠ [] ∧
        ∀ name ∈ names.getLast?, TakenForFile names.dropLast name) ∧
      (∀ names ∈ files, ∀ names' ∈ files, names <+: names' → names = names') ∧
      ∀ names ∈ files, ∀ child ∈ names.dropLast, TakenForFile names.dropLast child →
        ∃ names' ∈ files, names.dropLast ++ [child] <+: names')
    ⟨fun h => ⟨h.1, h.2.1, h.2.2⟩, fun h => ⟨h.taken, h.apart, h.covered⟩⟩

section Shown

variable {files : List (List Str)} {names : List Str}

theorem entryNames_ne_nil (dirs : List Str) (child : Str) : entryNames dirs child ≠ [] := by
  unfold entryNames
  by_cases hdirs : dirs = []
  · rw [if_pos hdirs]
    exact List.cons_ne_nil _ _
  · rw [if_neg hdirs]
    simp

theorem Processed.ne_nil (h : Processed files names) : names ≠ [] := by
  obtain ⟨dirs, -, -, child, -, -, hnames⟩ := h
  rw [hnames]
  exact entryNames_ne_nil dirs child

/-- A file that is processed was so in its own directory. -/
theorem taken_of_processed (hfiles : ∀ names ∈ files, ∀ name ∈ names, IsName name)
    {dirs : List Str} {name : Str} (hmem : dirs ++ [name] ∈ files)
    (h : Processed files (dirs ++ [name])) : dirs ≠ [] ∧ TakenForFile dirs name := by
  obtain ⟨dirs', -, -, child, -, htaken, hnames⟩ := h
  unfold entryNames at hnames
  by_cases hdirs : dirs' = []
  · -- The item above it has no name, and every name of a file is one.
    rw [if_pos hdirs] at hnames
    have hempty : ([] : Str) ∈ dirs ++ [name] := by
      rw [hnames]
      exact List.mem_cons_self
    exact absurd rfl (hfiles _ hmem [] hempty).1
  · rw [if_neg hdirs] at hnames
    obtain ⟨hsame, hlast⟩ := List.append_inj' hnames rfl
    rw [hsame, List.singleton_inj.mp hlast]
    exact ⟨hdirs, htaken⟩

/-- A file that is taken for one is processed. -/
theorem processed_of_taken {dirs : List Str} {name : Str} (hmem : dirs ++ [name] ∈ files)
    (hdirs : dirs ≠ []) (htaken : TakenForFile dirs name) : Processed files (dirs ++ [name]) := by
  refine ⟨dirs, name, hmem, name, by simp, htaken, ?_⟩
  rw [entryNames, if_neg hdirs]

theorem ToldApart.taken_last (h : ToldApart files) {dirs : List Str} {name : Str}
    (hmem : dirs ++ [name] ∈ files) : dirs ≠ [] ∧ TakenForFile dirs name := by
  have htaken := h.taken _ hmem
  rw [List.dropLast_concat, List.getLast?_concat] at htaken
  exact ⟨htaken.1, htaken.2 name rfl⟩

/-- Where the files can be told apart, what is processed is above a file. -/
theorem ToldApart.above (h : ToldApart files) (hproc : Processed files names) :
    ∃ names' ∈ files, names <+: names' := by
  obtain ⟨dirs, name, hmem, child, hchild, htaken, hnames⟩ := hproc
  have hdirs := (h.taken_last hmem).1
  rw [entryNames, if_neg hdirs] at hnames
  rw [hnames]
  rcases List.mem_append.mp hchild with hdir | hlast
  · have hcovered := h.covered _ hmem
    rw [List.dropLast_concat] at hcovered
    exact hcovered child hdir htaken
  · rw [List.mem_singleton.mp hlast]
    exact ⟨_, hmem, List.prefix_rfl⟩

theorem ToldApart.processed (h : ToldApart files) (hne : names ≠ []) (hmem : names ∈ files) :
    Processed files names := by
  rcases List.eq_nil_or_concat names with hnil | ⟨dirs, name, hnames⟩
  · exact absurd hnil hne
  · rw [List.concat_eq_append] at hnames
    rw [hnames] at hmem ⊢
    obtain ⟨hdirs, htaken⟩ := h.taken_last hmem
    exact processed_of_taken hmem hdirs htaken

end Shown

/-- The leaves are the files exactly if these can be told from the directories. -/
theorem contentsTree_shows_iff (lib : PathLib) (hlib : lib.Documented) (qSort : IterOrder Str)
    (foldCase : Str → Str) (filesVec : List TorrentFile)
    (hrel : ∀ file ∈ filesVec, IsRelative file.filePath) :
    ShowsFiles (contentsTree lib qSort foldCase filesVec) (fileNames filesVec) ↔
      ToldApart (fileNames filesVec) := by
  have hmem : ∀ names, names ∈ processedNames lib qSort filesVec ↔
      Processed (fileNames filesVec) names := fun _ => mem_processedNames hlib hrel qSort
  have hnames : ∀ names ∈ fileNames filesVec, names ≠ [] := by
    intro names h
    obtain ⟨file, -, hsplit⟩ := List.mem_map.mp h
    rw [← hsplit]
    exact List.splitOn_ne_nil _ _
  rw [contentsTree_eq]
  constructor
  · intro hshows
    -- A file is a leaf, so it was processed and nothing that was processed extends it.
    have hleaf := fun names h =>
      (leafPath_insertAll (hnames names h)).mp ((hshows names (hnames names h)).mpr h)
    refine ⟨fun names h => ?_, fun names h names' h' hbelow => ?_,
      fun names h child hchild htaken => ?_⟩
    · have hproc := (hmem _).mp (hleaf names h).1
      rcases List.eq_nil_or_concat names with hnil | ⟨dirs, name, hconcat⟩
      · exact absurd hnil (hnames names h)
      · rw [List.concat_eq_append] at hconcat
        rw [hconcat] at h hproc
        obtain ⟨hdirs, htaken⟩ :=
          taken_of_processed (fun names h => isName_of_mem_fileNames hrel h) h hproc
        rw [hconcat, List.dropLast_concat, List.getLast?_concat]
        exact ⟨hdirs, fun name' hname' => Option.some.inj hname' ▸ htaken⟩
    · exact ((hleaf names h).2 names' (hleaf names' h').1 hbelow).symm
    · have hproc : Processed (fileNames filesVec) (names.dropLast ++ [child]) := by
        refine ⟨names.dropLast, names.getLast (hnames names h), ?_, child,
          List.mem_append_left _ hchild, htaken, ?_⟩
        · rw [List.dropLast_concat_getLast]
          exact h
        · rw [entryNames, if_neg (List.ne_nil_of_mem hchild)]
      obtain ⟨leaf, -, hbelow, hpath⟩ := exists_leafPath ((hmem _).mpr hproc) hproc.ne_nil
      have hne : leaf ≠ [] := by
        intro hnil
        rw [hnil, List.prefix_nil] at hbelow
        exact hproc.ne_nil hbelow
      exact ⟨leaf, (hshows leaf hne).mp hpath, hbelow⟩
  · intro happart path hne
    rw [leafPath_insertAll hne]
    constructor
    · intro h
      obtain ⟨hproc, hmax⟩ := h
      obtain ⟨names, hfile, hbelow⟩ := happart.above ((hmem path).mp hproc)
      have hlonger := (hmem names).mpr (happart.processed (hnames names hfile) hfile)
      exact hmax names hlonger hbelow ▸ hfile
    · intro hfile
      refine ⟨(hmem path).mpr (happart.processed hne hfile), ?_⟩
      intro longer hlonger hbelow
      obtain ⟨names, hfile', habove⟩ := happart.above ((hmem longer).mp hlonger)
      have hsame := happart.apart path hfile names hfile' (hbelow.trans habove)
      rw [← hsame] at habove
      exact habove.eq_of_length_le hbelow.length_le

/-! ### Two torrents -/

/-- The libraries on paths that are made of names. -/
def posixLib : PathLib where
  elements := splitPath
  parentPath := fun path => joinNames (splitPath path).dropLast
  hasExtension := fun name => decide (HasExtension name)
  dirName := fun path => if path = [] then ['.'] else (splitPath path).getLastD []

theorem posixLib_documented : posixLib.Documented where
  elements h hne := splitPath_joinNames (fun name hname => (h name hname).2) hne
  parentPath {dirs name} h := by
    change joinNames (splitPath (joinNames (dirs ++ [name]))).dropLast = joinNames dirs
    rw [splitPath_joinNames (fun n hn => (h n hn).2) (by simp), List.dropLast_concat]
  hasExtension _ := decide_eq_true_iff
  dirName {dirs name} h := by
    have hsplit := splitPath_joinNames (fun n hn => (h n hn).2) (by simp)
    have hne : joinNames (dirs ++ [name]) ≠ [] := by
      intro hnil
      rw [hnil] at hsplit
      have hempty : ([] : Str) ∈ dirs ++ [name] := by
        rw [← hsplit]
        exact List.mem_singleton_self _
      exact (h [] hempty).1 rfl
    change (if joinNames (dirs ++ [name]) = [] then _ else _) = name
    rw [if_neg hne, hsplit]
    simp
  dirName_empty := rfl

/-- A file of a torrent. -/
def sampleFile (path : String) : TorrentFile :=
  { uniqueId := [], filePath := path.toList, sha1HashHex := [], flags := 0, contentLength := 1,
    fileOffset := 0, mtime := 0, mapFilePiece := (0, 0), downloaded := false }

theorem contentsTree_shows_disc :
    ShowsFiles (contentsTree posixLib (IterOrder.insertion Str) id
        [sampleFile "disc/a.txt", sampleFile "disc/v1.0/b.txt", sampleFile "disc/v1.0/v1.0.txt"])
      [["disc".toList, "a.txt".toList], ["disc".toList, "v1.0".toList, "b.txt".toList],
        ["disc".toList, "v1.0".toList, "v1.0.txt".toList]] :=
  (contentsTree_shows_iff posixLib posixLib_documented (IterOrder.insertion Str) id
    [sampleFile "disc/a.txt", sampleFile "disc/v1.0/b.txt", sampleFile "disc/v1.0/v1.0.txt"]
    (by decide +kernel)).mpr (by decide +kernel)

/-- The single file of a torrent is shown under an item without a name. -/
theorem contentsTree_hides_single :
    LeafPath [[], "a.txt".toList]
        (contentsTree posixLib (IterOrder.insertion Str) id [sampleFile "a.txt"]) ∧
      ¬ ShowsFiles (contentsTree posixLib (IterOrder.insertion Str) id [sampleFile "a.txt"])
        (fileNames [sampleFile "a.txt"]) := by
  have hleaf : LeafPath [[], "a.txt".toList]
      (contentsTree posixLib (IterOrder.insertion Str) id [sampleFile "a.txt"]) := by
    decide +kernel
  refine ⟨hleaf, ?_⟩
  intro h
  have hshown := (h [[], "a.txt".toList] (by simp)).mp hleaf
  revert hshown
  decide +kernel

end FyreDL.Gui
