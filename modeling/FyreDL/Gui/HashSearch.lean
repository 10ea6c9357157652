import FyreDL.Gui.FileHash

/-!
# FyreDL.Gui.HashSearch — the search for an unknown hash type

`cryptoFileHash` tries six algorithms on a file of unknown hash type, one pass over the
file for each. The passes share one open file, and none of them goes back to its start.

* `OpenFile`, `hashPasses` — the passes over a file with a read position;
  `hashPasses_fresh` connects them with the checksums that `cryptoFileHash` compares.
* `searchVerifies_iff` — which given hashes are found: the MD5 digest of the content, and
  the other digests of the empty text.
* `search_exact_iff` — the given hashes for which this is the right answer.
-/

namespace FyreDL.Gui

/-- An open `QFile`: its bytes and the read position. -/
structure OpenFile where
  data : Str
  pos : Nat
deriving DecidableEq, Repr

namespace OpenFile

/-- `QFile::open`: the position is at the start. -/
def opened (data : Str) : OpenFile := ⟨data, 0⟩

/-- `QCryptographicHash::addData(QIODevice *)`: everything from the position to the end is
taken, and the position stays there. -/
def addData (f : OpenFile) : Str × OpenFile := (f.data.drop f.pos, { f with pos := f.data.length })

@[simp] theorem addData_data (f : OpenFile) : f.addData.2.data = f.data := rfl

@[simp] theorem addData_pos (f : OpenFile) : f.addData.2.pos = f.data.length := rfl

/-- The first pass takes the whole content. -/
theorem addData_opened (data : Str) : (opened data).addData.1 = data := rfl

/-- From the end nothing is taken. -/
theorem addData_atEnd {f : OpenFile} (h : f.data.length ≤ f.pos) : f.addData.1 = [] :=
  List.drop_eq_nil_of_le h

end OpenFile

/-- The loop over the algorithms: one pass for each. -/
def hashPasses (digest : Digest) : List HashType → OpenFile → List Str
  | [], _ => []
  | hashType :: rest, f =>
    digest (convHashTypeToAlgo hashType) f.addData.1 :: hashPasses digest rest f.addData.2

/-- The types behind the first one. -/
def laterTypes : List HashType := [.sha1, .sha256, .sha512, .sha3_256, .sha3_512]

/-- The given hash is one that the search is to find: a digest of the whole content. -/
def IsDigestOf (digest : Digest) (hashTypes : List HashType) (givenHashVal data : Str) : Prop :=
  ∃ hashType ∈ hashTypes, givenHashVal = digest (convHashTypeToAlgo hashType) data

/-- `cryptoFileHash(file, CannotDetermine, g)` returns `Verified`. -/
def SearchVerifies (digest : Digest) (disk : Str → DiskFile) (fileDest givenHashVal : Str) :
    Prop :=
  ∃ fileHash, cryptoFileHash digest disk fileDest .cannotDetermine givenHashVal = .ok fileHash ∧
    fileHash.hashVerif = .verified

section Passes

variable (digest : Digest)

/-- At the end of the file every pass hashes the empty text, and the next one starts at
the end again. -/
theorem hashPasses_atEnd (hashTypes : List HashType) {f : OpenFile} (h : f.data.length ≤ f.pos) :
    hashPasses digest hashTypes f =
      hashTypes.map fun hashType => digest (convHashTypeToAlgo hashType) [] := by
  induction hashTypes generalizing f with
  | nil => rfl
  | cons hashType rest ih =>
    have hnext : f.addData.2.data.length ≤ f.addData.2.pos := le_refl _
    rw [hashPasses, OpenFile.addData_atEnd h, ih hnext]
    rfl

/-- The six passes over a file that was just opened. -/
theorem hashPasses_fresh (data : Str) :
    hashPasses digest triedTypes (.opened data) = triedChecksums digest data := by
  have hnext : (OpenFile.opened data).addData.2.data.length ≤
    (OpenFile.opened data).addData.2.pos := le_refl _
  have hrest := hashPasses_atEnd digest laterTypes hnext
  rw [triedTypes, hashPasses, OpenFile.addData_opened]
  exact congrArg _ hrest

/-- The checksums that a search compares with the given hash. -/
theorem mem_hashPasses_fresh (data givenHashVal : Str) :
    givenHashVal ∈ hashPasses digest triedTypes (.opened data) ↔
      givenHashVal = digest .md5 data ∨ IsDigestOf digest laterTypes givenHashVal [] := by
  have hlater : givenHashVal ∈ laterTypes.map (fun hashType =>
      digest (convHashTypeToAlgo hashType) []) ↔ IsDigestOf digest laterTypes givenHashVal [] := by
    rw [List.mem_map]
    constructor
    · rintro ⟨hashType, hmem, heq⟩
      exact ⟨hashType, hmem, heq.symm⟩
    · rintro ⟨hashType, hmem, heq⟩
      exact ⟨hashType, hmem, heq.symm⟩
  rw [hashPasses_fresh]
  exact List.mem_cons.trans (or_congr_right hlater)

end Passes

section Search

variable (digest : Digest) {disk : Str → DiskFile} {fileDest data givenHashVal : Str}

/-- The digests of a content: the MD5 one and the later ones. -/
theorem isDigestOf_triedTypes :
    IsDigestOf digest triedTypes givenHashVal data ↔
      givenHashVal = digest .md5 data ∨ IsDigestOf digest laterTypes givenHashVal data := by
  have h : triedTypes = .md5 :: laterTypes := rfl
  unfold IsDigestOf
  rw [h]
  exact List.exists_mem_cons_iff _ _ _

/-- A search succeeds exactly if the given hash is among the checksums of its passes. -/
theorem searchVerifies_iff_mem (h : disk fileDest = .content data) (hgiven : givenHashVal ≠ []) :
    SearchVerifies digest disk fileDest givenHashVal ↔
      givenHashVal ∈ hashPasses digest triedTypes (.opened data) := by
  have hunknown : ¬ IsKnown .cannotDetermine := by decide
  rw [hashPasses_fresh]
  unfold SearchVerifies cryptoFileHash
  rw [h]
  dsimp only
  rw [if_neg hunknown, if_neg (by decide)]
  cases hfind : (triedChecksums digest data).find? fun checksum =>
      givenHashVal ≠ [] ∧ checksum = givenHashVal with
  | none =>
    have hnone := List.find?_eq_none.mp hfind
    constructor
    · rintro ⟨fileHash, hok, hverif⟩
      cases hok
      cases hverif
    · intro hmem
      exact absurd (decide_eq_true ⟨hgiven, rfl⟩) (hnone _ hmem)
  | some checksum =>
    have hfound : decide (givenHashVal ≠ [] ∧ checksum = givenHashVal) = true :=
      (List.find?_eq_some_iff_append.mp hfind).1
    refine ⟨fun _ => ?_, fun _ => ⟨_, rfl, rfl⟩⟩
    rw [← (of_decide_eq_true hfound).2]
    exact List.mem_of_find?_eq_some hfind

/-- **What the search finds**: the MD5 digest of the content, and the five other digests
of the empty text. -/
theorem searchVerifies_iff (h : disk fileDest = .content data) (hgiven : givenHashVal ≠ []) :
    SearchVerifies digest disk fileDest givenHashVal ↔
      givenHashVal = digest .md5 data ∨ IsDigestOf digest laterTypes givenHashVal [] :=
  (searchVerifies_iff_mem digest h hgiven).trans (mem_hashPasses_fresh digest data givenHashVal)

/-- A file of any content passes for one with the SHA1 digest of the empty text. -/
theorem searchVerifies_empty (h : disk fileDest = .content data)
    (hgiven : digest .sha1 [] ≠ []) :
    SearchVerifies digest disk fileDest (digest .sha1 []) :=
  (searchVerifies_iff digest h hgiven).mpr (.inr ⟨.sha1, List.mem_cons_self, rfl⟩)

/-- **The search is exact for a given hash** that is the MD5 digest of the content, or
one of the later digests of both the content and the empty text or of neither. -/
theorem search_exact_iff (h : disk fileDest = .content data) (hgiven : givenHashVal ≠ []) :
    (SearchVerifies digest disk fileDest givenHashVal ↔
        IsDigestOf digest triedTypes givenHashVal data) ↔
      (givenHashVal = digest .md5 data ∨
        (IsDigestOf digest laterTypes givenHashVal [] ↔
          IsDigestOf digest laterTypes givenHashVal data)) := by
  rw [searchVerifies_iff digest h hgiven, isDigestOf_triedTypes]
  by_cases hmd5 : givenHashVal = digest .md5 data
  · exact iff_of_true (iff_of_true (.inl hmd5) (.inl hmd5)) (.inl hmd5)
  · rw [or_iff_right hmd5, or_iff_right hmd5, or_iff_right hmd5]

end Search

/-- The digests of the empty text and of "abc". -/
def abcDigest : Digest
  | .md5, [] => "d41d8cd98f00b204e9800998ecf8427e".toList
  | .md5, _ => "900150983cd24fb0d6963f7d28e17f72".toList
  | .sha1, [] => "da39a3ee5e6b4b0d3255bfef95601890afd80709".toList
  | .sha1, _ => "a9993e364706816aba3e25717850c26c9cd0d89d".toList
  | .sha256, [] =>
    "e3b0c44298fc1c149afbf4c8996fb92427ae41e4649b934ca495991b7852b855".toList
  | .sha256, _ =>
    "ba7816bf8f01cfea414140de5dae2223b00361a396177a9cb410ff61f20015ad".toList
  | .sha512, [] =>
    "cf83e1357eefb8bdf1542850d66d8007d620e4050b5715dc83f4a921d36ce9ce".toList ++
      "47d0d13c5d85f2b0ff8318d2877eec2f63b931bd47417a81a538327af927da3e".toList
  | .sha512, _ =>
    "ddaf35a193617abacc417349ae20413112e6fa4e89a97ea20a9eeee64b55d39a".toList ++
      "2192992a274fc1a836ba3c23a3feebbd454d4423643ce80e2a9ac94fa54ca49f".toList
  | .sha3_256, [] =>
    "a7ffc6f8bf1ed76651c14756a061d662f580ff4de43b49fa82d80a4b80f8434a".toList
  | .sha3_256, _ =>
    "3a985da74fe225b2045c172d6bd390bd855f086e3e9d525b46bfe24511431532".toList
  | .sha3_512, [] =>
    "a69f73cca23a9ac5c8b567dc185a756e97c982164fe25859e0d1dcc1475c80a6".toList ++
      "15b2123af1f5f94c11e3e9402c3ac558f500199d95b6d3e301758586281dcd26".toList
  | .sha3_512, _ =>
    "b751850b1a57168a5693cd924b6b096e08f621827444f70d884f5d0240d2712e".toList ++
      "10e116e9192af3c91a7ec57647e3934057340b4cf408d5a56592f8274eec53f0".toList
  | .md4, [] => "31d6cfe0d16ae931b73c59d7e0c089c0".toList
  | .md4, _ => "a448017aaf21d8525fc10ae87aa6729d".toList

/-- A disk on which every path has the three bytes "abc". -/
def abcDisk : Str → DiskFile := fun _ => .content "abc".toList

/-- A file with the bytes "abc" is not found under its SHA1 digest. -/
theorem search_abc_sha1 :
    "a9993e364706816aba3e25717850c26c9cd0d89d".toList ≠ [] ∧
      ¬ (SearchVerifies abcDigest abcDisk "/d/abc".toList
          "a9993e364706816aba3e25717850c26c9cd0d89d".toList ↔
        IsDigestOf abcDigest triedTypes "a9993e364706816aba3e25717850c26c9cd0d89d".toList
          "abc".toList) := by
  have hgiven : "a9993e364706816aba3e25717850c26c9cd0d89d".toList ≠ [] := by decide
  refine ⟨hgiven, ?_⟩
  intro hiff
  have hdigest : IsDigestOf abcDigest triedTypes
      "a9993e364706816aba3e25717850c26c9cd0d89d".toList "abc".toList :=
    ⟨.sha1, by decide, rfl⟩
  rcases hiff.mpr hdigest with ⟨fileHash, hok, hverif⟩
  have hrun : cryptoFileHash abcDigest abcDisk "/d/abc".toList .cannotDetermine
      "a9993e364706816aba3e25717850c26c9cd0d89d".toList =
      .ok ⟨.cannotDetermine, .notApplicable, []⟩ := by decide +kernel
  rw [hrun] at hok
  cases hok
  cases hverif

/-- The MD5 digest of the same file is found. -/
theorem search_abc_md5 :
    (SearchVerifies abcDigest abcDisk "/d/abc".toList
        "900150983cd24fb0d6963f7d28e17f72".toList ↔
        IsDigestOf abcDigest triedTypes "900150983cd24fb0d6963f7d28e17f72".toList
          "abc".toList) ↔
      ("900150983cd24fb0d6963f7d28e17f72".toList = abcDigest .md5 "abc".toList ∨
        (IsDigestOf abcDigest laterTypes "900150983cd24fb0d6963f7d28e17f72".toList [] ↔
          IsDigestOf abcDigest laterTypes "900150983cd24fb0d6963f7d28e17f72".toList
            "abc".toList)) :=
  @search_exact_iff abcDigest abcDisk "/d/abc".toList _ _ rfl (by decide)

end FyreDL.Gui
