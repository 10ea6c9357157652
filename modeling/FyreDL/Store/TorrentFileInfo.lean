import FyreDL.Store.History

/-!
# FyreDL.Store.TorrentFileInfo — from a torrent file to a record

`load_file` and `torrentFileInfo`. What libtorrent makes of the bytes is a parameter; so is
what the C library answers while the file is read.

* The nodes are left out, which nobody reads, and the printed messages.
* A torrent that libtorrent does not take for one ends in an exception that is a bare text.
* `torrentFileInfo_ok_iff` — exactly when there is a record, and which one.
-/

namespace FyreDL.Store

open Lib Csv

/-! ## `load_file` -/

/-- What the C library answers. `bytes` is what `fread` finds. -/
structure FileAccess where
  opens : Bool
  seekEnd : Int
  tell : Int
  seekSet : Int
  bytes : Str
deriving DecidableEq, Repr

/-- `load_file`: what it returns, and the buffer. -/
def loadFile (file : FileAccess) (limit : Int) : Int × Str :=
  if file.opens = false then (-1, [])
  else if file.seekEnd ≠ 0 then (-1, [])
  else if file.tell < 0 then (-1, [])
  else if file.tell > limit then (-2, [])
  else if file.seekSet ≠ 0 then (-1, [])
  else if file.tell = 0 then (0, [])
  else
    let bytes := file.bytes.take file.tell.toNat
    let v := bytes ++ List.replicate (file.tell.toNat - bytes.length) '\x00'
    if (bytes.length : Int) ≠ file.tell then (-3, v) else (0, v)

/-! ## libtorrent -/

/-- `lt::announce_entry`. -/
structure AnnounceEntry where
  url : Str
  tier : Int
deriving DecidableEq, Repr

/-- A file of `lt::file_storage`; `piece` is the piece that an offset in it is in. -/
structure StoredFile where
  hash : Str
  filePath : Str
  fileOffset : Int
  fileSize : Int
  mtime : Int
  fileFlags : Int
  piece : Int → Int

/-- `lt::torrent_info`, and the URI that `make_magnet_uri` makes of it. -/
structure LtTorrentInfo where
  trackers : List AnnounceEntry
  numPieces : Int
  pieceLength : Int
  name : Str
  comment : Str
  creator : Str
  magnetUri : Str
  files : List StoredFile

/-- What comes of a buffer: `bdecode` fails, or `torrent_info` does, or neither. -/
inductive Decoded where
  | undecodable (message : Str) (pos : Int)
  | invalid (message : Str)
  | torrent (t : LtTorrentInfo)

/-- libtorrent, with the limits of depth and of items. -/
abbrev Libtorrent := Str → Int → Int → Decoded

/-! ## `torrentFileInfo` -/

/-- What is thrown: a `std::exception`, or a bare `std::string`. -/
inductive Thrown where
  | exception (what : Str)
  | text (message : Str)
deriving DecidableEq, Repr

def fileTooBig (fileDest : Str) : Str :=
  "BitTorrent file, \"".toList ++ fileDest ++ "\", too big. Aborting...".toList

def failedToLoad (fileDest : Str) : Str :=
  "Failed to load file, \"".toList ++ fileDest ++ "\".".toList

def failedToDecode (message : Str) (pos : Int) : Str :=
  "Failed to decode: '".toList ++ message ++ "' at character: ".toList ++ toText pos

def noTrackersGiven (fileDest : Str) : Str :=
  "No trackers were given for BitTorrent download, \"".toList ++ fileDest ++ "\".".toList

def noDownloadableItems (torrentName : Str) : Str :=
  "No downloadable items were specified for BitTorrent item, \"".toList ++ torrentName ++
    "\".".toList

def invalidMagnetUri (torrentName : Str) : Str :=
  "An invalid Magnet URI was given for BitTorrent item, \"".toList ++ torrentName ++ "\".".toList

def tooManyFiles (torrentName : Str) (numFiles itemLimit : Int) : Str :=
  "The BitTorrent item, \"".toList ++ torrentName ++
    "\", contains more internal files (".toList ++ toText numFiles ++
    ") than the maximum specified allowable amount: ".toList ++ toText itemLimit ++ ".".toList

/-- The limit of `load_file`. -/
def torrentFileLimit : Int := 40 * 1000000

/-- The loop over the trackers. -/
def readTrackers (fileDest uniqueId : Str) (total : Nat) :
    (badTrackers : Nat) → List AnnounceEntry → Except Thrown (List TorrentTrackers)
  | _, [] => .ok []
  | badTrackers, i :: rest =>
    if i.url ≠ [] then
      match readTrackers fileDest uniqueId total badTrackers rest with
      | .error thrown => .error thrown
      | .ok trackers => .ok (⟨uniqueId, i.tier, i.url, true⟩ :: trackers)
    else if total ≥ badTrackers + 1 then .error (.exception (noTrackersGiven fileDest))
    else readTrackers fileDest uniqueId total (badTrackers + 1) rest

/-- One file. The SHA-1 hash is not turned into hexadecimal digits. -/
def torrentFileOf (uniqueId : Str) (st : StoredFile) : TorrentFile where
  uniqueId := uniqueId
  filePath := st.filePath
  sha1HashHex := st.hash
  flags := st.fileFlags
  contentLength := if st.fileSize ≥ 0 then st.fileSize else 0
  fileOffset := if st.fileOffset ≥ 0 then st.fileOffset else 0
  mtime := if st.mtime ≥ 0 then st.mtime % 2 ^ 32 else 0
  mapFilePiece := (st.piece 0, st.piece (max (st.fileSize - 1) 0))
  downloaded := false

/-- The translation of a torrent. -/
def translateTorrent (fileDest uniqueId : Str) (itemLimit : Int) (t : LtTorrentInfo) :
    Except Thrown TorrentInfo :=
  match readTrackers fileDest uniqueId t.trackers.length 0 t.trackers with
  | .error thrown => .error thrown
  | .ok trackers =>
    -- The name of the torrent is not known yet to the texts of these two.
    if t.numPieces < 0 then .error (.exception (noDownloadableItems []))
    else if t.pieceLength < 0 then .error (.exception (noDownloadableItems []))
    else if t.magnetUri = [] then .error (.exception (invalidMagnetUri t.name))
    else if (t.files.length : Int) > itemLimit then
      .error (.exception (tooManyFiles t.name t.files.length itemLimit))
    else
      .ok
        { general :=
            { uniqueId := uniqueId
              downDest := []
              insertTimestamp := 0
              compltTimestamp := 0
              creatnTimestamp := 0
              dlStatus := .failed
              comment := t.comment
              creator := t.creator
              magnetUri := t.magnetUri
              torrentName := t.name
              numFiles := t.files.length
              numTrackers := trackers.length
              numPieces := t.numPieces
              pieceLength := t.pieceLength }
          trackers := trackers
          filesVec := t.files.map (torrentFileOf uniqueId) }

/-- `torrentFileInfo`. `uniqueId` is what `createId` draws. -/
def torrentFileInfo (lt : Libtorrent) (file : FileAccess) (fileDest uniqueId : Str)
    (itemLimit depthLimit : Int) : Except Thrown TorrentInfo :=
  let (ret, buf) := loadFile file torrentFileLimit
  if ret = -1 then .error (.exception (fileTooBig fileDest))
  else if ret ≠ 0 then .error (.exception (failedToLoad fileDest))
  else
    match lt buf depthLimit itemLimit with
    | .undecodable message pos => .error (.exception (failedToDecode message pos))
    | .invalid message => .error (.text message)
    | .torrent t => translateTorrent fileDest uniqueId itemLimit t

/-! ## The record -/

/-- The file is loaded whole. -/
structure Loads (file : FileAccess) (buf : Str) : Prop where
  opens : file.opens = true
  seekEnd : file.seekEnd = 0
  seekSet : file.seekSet = 0
  size : file.tell = buf.length
  limit : file.tell ≤ torrentFileLimit
  bytes : file.bytes.take buf.length = buf

/-- A torrent that makes a record: it has a magnet URI, no tracker without a URL and no more
files than items are allowed. -/
structure Recordable (itemLimit : Int) (t : LtTorrentInfo) : Prop where
  trackers : ∀ i ∈ t.trackers, i.url ≠ []
  numPieces : 0 ≤ t.numPieces
  pieceLength : 0 ≤ t.pieceLength
  magnetUri : t.magnetUri ≠ []
  files : (t.files.length : Int) ≤ itemLimit

/-- The record of a torrent. -/
def torrentRecord (uniqueId : Str) (t : LtTorrentInfo) : TorrentInfo where
  general :=
    { uniqueId := uniqueId
      downDest := []
      insertTimestamp := 0
      compltTimestamp := 0
      creatnTimestamp := 0
      dlStatus := .failed
      comment := t.comment
      creator := t.creator
      magnetUri := t.magnetUri
      torrentName := t.name
      numFiles := t.files.length
      numTrackers := t.trackers.length
      numPieces := t.numPieces
      pieceLength := t.pieceLength }
  trackers := t.trackers.map fun i => ⟨uniqueId, i.tier, i.url, true⟩
  filesVec := t.files.map (torrentFileOf uniqueId)

section Record

variable {file : FileAccess} {fileDest uniqueId : Str}

/-- The buffer has the whole file exactly if 0 is returned. -/
theorem loadFile_ok_iff {buf : Str} :
    loadFile file torrentFileLimit = (0, buf) ↔ Loads file buf := by
  constructor
  · intro h
    unfold loadFile at h
    by_cases hopens : file.opens = false
    · rw [if_pos hopens] at h
      cases h
    by_cases hend : file.seekEnd ≠ 0
    · rw [if_neg hopens, if_pos hend] at h
      cases h
    by_cases htell : file.tell < 0
    · rw [if_neg hopens, if_neg hend, if_pos htell] at h
      cases h
    by_cases hlimit : file.tell > torrentFileLimit
    · rw [if_neg hopens, if_neg hend, if_neg htell, if_pos hlimit] at h
      cases h
    by_cases hset : file.seekSet ≠ 0
    · rw [if_neg hopens, if_neg hend, if_neg htell, if_neg hlimit, if_pos hset] at h
      cases h
    rw [if_neg hopens, if_neg hend, if_neg htell, if_neg hlimit, if_neg hset] at h
    have hopened : file.opens = true := (Bool.not_eq_false _).mp hopens
    by_cases hzero : file.tell = 0
    · rw [if_pos hzero] at h
      cases h
      exact ⟨hopened, not_not.mp hend, not_not.mp hset, hzero, by omega, rfl⟩
    · rw [if_neg hzero] at h
      dsimp only at h
      split at h
      · cases h
      · rename_i hshort
        rw [not_not] at hshort
        have hlength : (file.bytes.take file.tell.toNat).length = file.tell.toNat := by omega
        rw [hlength, Nat.sub_self, List.replicate_zero, List.append_nil] at h
        cases h
        refine ⟨hopened, not_not.mp hend, not_not.mp hset, hshort.symm, by omega, ?_⟩
        rw [hlength]
  · intro h
    have hsize := h.size
    have hlimit := h.limit
    have htake := h.bytes
    unfold loadFile
    rw [if_neg (by rw [h.opens]; decide), if_neg (not_not_intro h.seekEnd), if_neg (by omega),
      if_neg (by omega), if_neg (not_not_intro h.seekSet)]
    by_cases hzero : file.tell = 0
    · rw [if_pos hzero]
      have hnil : buf = [] := List.eq_nil_of_length_eq_zero (by omega)
      rw [hnil]
    · rw [if_neg hzero]
      have hnat : file.tell.toNat = buf.length := by omega
      dsimp only
      rw [hnat, htake, Nat.sub_self, List.replicate_zero, List.append_nil,
        if_neg (not_not_intro hsize.symm)]

/-- One tracker without a URL refuses the torrent. -/
theorem readTrackers_ok_iff {total badTrackers : Nat} {entries : List AnnounceEntry}
    (htotal : badTrackers + entries.length ≤ total) {trackers : List TorrentTrackers} :
    readTrackers fileDest uniqueId total badTrackers entries = .ok trackers ↔
      (∀ i ∈ entries, i.url ≠ []) ∧
        trackers = entries.map fun i => ⟨uniqueId, i.tier, i.url, true⟩ := by
  induction entries generalizing trackers with
  | nil =>
    rw [readTrackers]
    constructor
    · intro h
      cases h
      exact ⟨fun _ hi => absurd hi List.not_mem_nil, rfl⟩
    · rintro ⟨-, rfl⟩
      rfl
  | cons i entries ih =>
    rw [List.length_cons] at htotal
    rw [readTrackers, List.forall_mem_cons, List.map_cons]
    by_cases hurl : i.url ≠ []
    · rw [if_pos hurl]
      constructor
      · intro h
        cases hrest : readTrackers fileDest uniqueId total badTrackers entries with
        | error thrown =>
          rw [hrest] at h
          cases h
        | ok rest =>
          rw [hrest] at h
          cases h
          rcases (ih (by omega)).mp hrest with ⟨hall, rfl⟩
          exact ⟨⟨hurl, hall⟩, rfl⟩
      · rintro ⟨⟨-, hall⟩, rfl⟩
        rw [(ih (by omega)).mpr ⟨hall, rfl⟩]
    · -- at the first of them an exception is thrown, whatever else there is
      rw [if_neg hurl, if_pos (by omega)]
      constructor
      · intro h
        cases h
      · rintro ⟨⟨hne, -⟩, -⟩
        exact absurd hne hurl

theorem translateTorrent_ok_iff {itemLimit : Int} {t : LtTorrentInfo} {info : TorrentInfo} :
    translateTorrent fileDest uniqueId itemLimit t = .ok info ↔
      Recordable itemLimit t ∧ info = torrentRecord uniqueId t := by
  have htrackers : ∀ {trackers : List TorrentTrackers},
      readTrackers fileDest uniqueId t.trackers.length 0 t.trackers = .ok trackers ↔ _ :=
    readTrackers_ok_iff (Nat.le_of_eq (Nat.zero_add _))
  unfold translateTorrent
  constructor
  · intro h
    cases hread : readTrackers fileDest uniqueId t.trackers.length 0 t.trackers with
    | error thrown =>
      rw [hread] at h
      cases h
    | ok trackers =>
      rw [hread] at h
      dsimp only at h
      rcases htrackers.mp hread with ⟨hurls, rfl⟩
      split_ifs at h with hpieces hlength hmagnet hfiles
      cases h
      refine ⟨⟨hurls, not_lt.mp hpieces, not_lt.mp hlength, hmagnet, not_lt.mp hfiles⟩, ?_⟩
      rw [torrentRecord, List.length_map]
  · rintro ⟨h, rfl⟩
    rw [htrackers.mpr ⟨h.trackers, rfl⟩]
    dsimp only
    rw [if_neg (not_lt.mpr h.numPieces), if_neg (not_lt.mpr h.pieceLength), if_neg h.magnetUri,
      if_neg (not_lt.mpr h.files), torrentRecord, List.length_map]

/-- **`torrentFileInfo`** makes a record exactly of a torrent that is loaded and decoded, and
that has what a record needs. -/
theorem torrentFileInfo_ok_iff {lt : Libtorrent} {itemLimit depthLimit : Int} {info : TorrentInfo} :
    torrentFileInfo lt file fileDest uniqueId itemLimit depthLimit = .ok info ↔
      ∃ buf t, Loads file buf ∧ lt buf depthLimit itemLimit = .torrent t ∧
        Recordable itemLimit t ∧ info = torrentRecord uniqueId t := by
  unfold torrentFileInfo
  constructor
  · intro h
    rcases hload : loadFile file torrentFileLimit with ⟨ret, buf⟩
    rw [hload] at h
    dsimp only at h
    split_ifs at h with hfailed hzero
    rw [not_not] at hzero
    subst hzero
    cases hdecoded : lt buf depthLimit itemLimit with
    | undecodable message pos =>
      rw [hdecoded] at h
      cases h
    | invalid message =>
      rw [hdecoded] at h
      cases h
    | torrent t =>
      rw [hdecoded] at h
      exact ⟨buf, t, loadFile_ok_iff.mp hload, hdecoded, translateTorrent_ok_iff.mp h⟩
  · rintro ⟨buf, t, hload, hdecoded, hrecord⟩
    rw [loadFile_ok_iff.mpr hload]
    dsimp only
    rw [if_neg (by decide), if_neg (by decide), hdecoded]
    exact translateTorrent_ok_iff.mpr hrecord

end Record

end FyreDL.Store
