import FyreDL.Store.CurlItems

/-!
# FyreDL.Gui.FileHash — `cryptoFileHash`

The checksum of a file and its comparison with a given one.

* `QCryptographicHash` is a function `digest` from an algorithm and the bytes of the
  file to the lower-case hexadecimal text of the result.
* All attempts to find an unknown hash type read from one open file: the first one
  reads it to its end, the later ones hash nothing.
* `cryptoFileHash_content` — for the six known types the verdict is the right one.
-/

namespace FyreDL.Gui

/-- `QCryptographicHash::Algorithm`, as far as it is used. -/
inductive Algorithm where
  | md4 | md5 | sha1 | sha256 | sha512 | sha3_256 | sha3_512
deriving DecidableEq, Repr

/-- `convHashType_toAlgo`. -/
def convHashTypeToAlgo : HashType → Algorithm
  | .md5 => .md5
  | .sha1 => .sha1
  | .sha256 => .sha256
  | .sha512 => .sha512
  | .sha3_256 => .sha3_256
  | .sha3_512 => .sha3_512
  | .cannotDetermine => .md4
  | .none => .md4

/-- `QCryptographicHash`: the digest in hexadecimal. -/
abbrev Digest := Algorithm → Str → Str

/-- What stands at a path of the disk: no file (or a directory), a file that cannot be
opened, one that can be opened and not read, or a file with its bytes. -/
inductive DiskFile where
  | missing
  | locked
  | broken
  | content (data : Str)
deriving DecidableEq, Repr

/-- `GkFile::FileHash`. -/
structure FileHash where
  hashType : HashType
  hashVerif : HashVerif
  checksum : Str
deriving DecidableEq, Repr

/-- The result when there is nothing to hash. -/
def noFileHash : FileHash := ⟨.none, .notApplicable, []⟩

/-- The six hash types that are computed. -/
def IsKnown (hashType : HashType) : Prop := hashType ≠ .none ∧ hashType ≠ .cannotDetermine

instance (hashType : HashType) : Decidable (IsKnown hashType) :=
  inferInstanceAs (Decidable (_ ∧ _))

/-- The verdict on a checksum. -/
def verdict (checksum givenHashVal : Str) : HashVerif :=
  if givenHashVal ≠ [] then if checksum = givenHashVal then .verified else .corrupt
  else .notApplicable

/-- The hash types that are tried on a file of unknown type, in order. -/
def triedTypes : List HashType := [.md5, .sha1, .sha256, .sha512, .sha3_256, .sha3_512]

/-- Their checksums: the first one takes all of the file. -/
def triedChecksums (digest : Digest) (data : Str) : List Str :=
  match triedTypes with
  | [] => []
  | first :: rest =>
    digest (convHashTypeToAlgo first) data ::
      rest.map fun hashType => digest (convHashTypeToAlgo hashType) []

/-- "The file, ..., is already opened by another application." -/
def alreadyOpened (fileDest : Str) : Str :=
  "Unable to continue! The file, \"".toList ++ fileDest ++
    "\", is already opened by another application.".toList

/-- `cryptoFileHash`. -/
def cryptoFileHash (digest : Digest) (disk : Str → DiskFile) (fileDest : Str)
    (hashType : HashType) (givenHashVal : Str) : Except Str FileHash :=
  match disk fileDest with
  | .missing => .ok noFileHash
  | .locked => .error (alreadyOpened fileDest)
  | .broken =>
    if hashType = .cannotDetermine then .ok ⟨.cannotDetermine, .notApplicable, []⟩
    else .ok noFileHash
  | .content data =>
    if IsKnown hashType then
      let checksum := digest (convHashTypeToAlgo hashType) data
      .ok ⟨hashType, verdict checksum givenHashVal, checksum⟩
    else if hashType = .none then .ok noFileHash
    else
      match (triedChecksums digest data).find? fun checksum =>
        givenHashVal ≠ [] ∧ checksum = givenHashVal with
      | some checksum => .ok ⟨.cannotDetermine, .verified, checksum⟩
      | none => .ok ⟨.cannotDetermine, .notApplicable, []⟩

section Content

variable (digest : Digest) {disk : Str → DiskFile} {fileDest data : Str}

/-- **The verdict of `cryptoFileHash`** on a file with a known hash type. -/
theorem cryptoFileHash_content (h : disk fileDest = .content data) {hashType : HashType}
    (hknown : IsKnown hashType) (givenHashVal : Str) :
    cryptoFileHash digest disk fileDest hashType givenHashVal =
      .ok ⟨hashType, verdict (digest (convHashTypeToAlgo hashType) data) givenHashVal,
        digest (convHashTypeToAlgo hashType) data⟩ := by
  unfold cryptoFileHash
  rw [h]
  exact if_pos hknown

/-- An exception comes from a file that cannot be opened, whatever the type. -/
theorem cryptoFileHash_error_iff {hashType : HashType} {givenHashVal : Str} :
    (∃ what, cryptoFileHash digest disk fileDest hashType givenHashVal = .error what) ↔
      disk fileDest = .locked := by
  unfold cryptoFileHash
  cases disk fileDest with
  | locked => exact iff_of_true ⟨_, rfl⟩ rfl
  | missing => simp
  | broken =>
    dsimp only
    split
    · simp
    · simp
  | content data =>
    -- known, none or to be searched for: there is a result
    dsimp only
    split
    · simp
    · split
      · simp
      · split
        · simp
        · simp

/-- A file that can be read is hashed without an exception, whatever its type. -/
theorem cryptoFileHash_ok (h : disk fileDest = .content data) (hashType : HashType)
    (givenHashVal : Str) :
    ∃ fileHash, cryptoFileHash digest disk fileDest hashType givenHashVal = .ok fileHash := by
  cases hrun : cryptoFileHash digest disk fileDest hashType givenHashVal with
  | ok fileHash => exact ⟨fileHash, rfl⟩
  | error what =>
    have hlocked := (cryptoFileHash_error_iff digest).mp ⟨what, hrun⟩
    rw [h] at hlocked
    cases hlocked

end Content

end FyreDL.Gui
