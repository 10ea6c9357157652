import FyreDL.Lib.Decimal

/-!
# FyreDL.Defaults — `default_var.hpp`

The constants, enumerations and records that the other modules read. Names are
the source's own in lower camel case (`LEVELDB_KEY_CURL_STAT` is
`leveldbKeyCurlStat`).

* A `std::string` is a list of characters; a character stands for one byte of
  it, so every byte string is covered.
* An enumeration of the source is unscoped, hence `std::to_string` of one of its
  values writes the position of the enumerator. `rawHashType` and `rawHashVerif`
  are these positions.
-/

namespace FyreDL

open Lib

/-- `std::string` and `QString`. -/
abbrev Str := List Char

/-! ## Constants -/

/-- `CFG_CSV_MIN_PARSE_SIZE`: a stored CSV text of at most this size is ignored. -/
def cfgCsvMinParseSize : Nat := 12

/-- `FYREDL_UNIQUE_ID_DIGIT_COUNT`. `createId` draws one digit less. -/
def fyredlUniqueIdDigitCount : Nat := 32

/-- `fs::path::preferred_separator`. -/
def preferredSeparator : Char := '/'

/-- `FREE_DSK_SPACE_MULTIPLIER`: a download needs so many times its size. -/
def freeDskSpaceMultiplier : Nat := 3

def leveldbStoreUniqueId : Str := "store-unique-id".toList

def leveldbKeyCurlStat : Str := "curl-stat".toList
def leveldbKeyCurlInsertDate : Str := "curl-insrt-date".toList
def leveldbKeyCurlCompltDate : Str := "curl-complt-date".toList
def leveldbKeyCurlStatmsg : Str := "curl-statmsg".toList
def leveldbKeyCurlEffecUrl : Str := "curl-effec-url".toList
def leveldbKeyCurlRespCode : Str := "curl-resp-code".toList
def leveldbKeyCurlContLngth : Str := "curl-cont-lngth".toList
def leveldbKeyCurlHashType : Str := "curl-hash-type".toList
def leveldbKeyCurlHashValGiven : Str := "curl-hash-val-given".toList
def leveldbKeyCurlHashValRtrnd : Str := "curl-hash-val-rtrnd".toList
def leveldbKeyCurlHashSuccType : Str := "curl-hash-succ-type".toList

def leveldbKeyTorrentInsertDate : Str := "to-insert-date".toList
def leveldbKeyTorrentCompltDate : Str := "to-complt-date".toList
def leveldbKeyTorrentCreatnDate : Str := "to-creatn-date".toList
def leveldbKeyTorrentDlstatus : Str := "to-status".toList
def leveldbKeyTorrentTorrntComment : Str := "to-comment".toList
def leveldbKeyTorrentTorrntCreator : Str := "to-creator".toList
def leveldbKeyTorrentMagnetUri : Str := "to-magnet-uri".toList
def leveldbKeyTorrentTorrntName : Str := "to-name".toList
def leveldbKeyTorrentNumFiles : Str := "num-files".toList
def leveldbKeyTorrentNumTrackers : Str := "num-trackers".toList
def leveldbKeyTorrentTorrntPieces : Str := "num-pieces".toList
def leveldbKeyTorrentTorrntPieceLength : Str := "piece-length".toList
def leveldbKeyTorrentTorrentFiles : Str := "to-files".toList
def leveldbChildNodeTorrentFilesMapflepce : Str := "map-file-piece".toList
def leveldbKeyTorrentTrackers : Str := "to-extra-trackers".toList

def leveldbCsvUidKey : Str := "unique-id".toList
def leveldbCsvUidValue1 : Str := "file-loc".toList
def leveldbCsvUidValue2 : Str := "is-torrent".toList

def leveldbCsvTorrentFilePath : Str := "file-path".toList
def leveldbCsvTorrentFileSha1 : Str := "sha1-hash".toList
def leveldbCsvTorrentFileFlags : Str := "flags".toList
def leveldbCsvTorrentFileContentLength : Str := "content-length".toList
def leveldbCsvTorrentFileFileOffset : Str := "file-offset".toList
def leveldbCsvTorrentFileMtime : Str := "mod-time".toList
def leveldbCsvTorrentFileMapflepceKey : Str := "mapflepce-key".toList
def leveldbCsvTorrentFileBoolDled : Str := "downloaded-bool".toList

def leveldbCsvTorrentMapflepce1 : Str := "mapflepce-1".toList
def leveldbCsvTorrentMapflepce2 : Str := "mapflepce-2".toList

def leveldbCsvTorrentTrackerTier : Str := "tier".toList
def leveldbCsvTorrentTrackerUrl : Str := "url".toList
def leveldbCsvTorrentTrackerBoolEnabled : Str := "bool-enabled".toList

/-! Columns of a CSV file that is imported. -/

def urlAddCsvFieldUrl : Str := "url".toList
def urlAddCsvFieldDest : Str := "destination".toList
def urlAddCsvFieldHash : Str := "hash".toList

/-! Columns of the table of downloads. -/

def mnColCount : Nat := 12

def mnFilenameCol : Nat := 0
def mnFilesizeCol : Nat := 1
def mnDownloadedCol : Nat := 2
def mnProgressCol : Nat := 3
def mnUpspeedCol : Nat := 4
def mnDownspeedCol : Nat := 5
def mnSeedersCol : Nat := 6
def mnLeechersCol : Nat := 7
def mnStatusCol : Nat := 8
def mnDestinationCol : Nat := 9
def mnUrlCol : Nat := 10
def mnHiddenUniqueId : Nat := 11

/-! ## Enumerations -/

inductive DownloadStatus where
  | downloading | completed | failed | paused | stopped | unknown | invalid
deriving DecidableEq, Repr

inductive DownloadType where
  | http | ftp | torrent | torrentMagnetLink
deriving DecidableEq, Repr

inductive HashType where
  | sha1 | sha256 | sha512 | sha3_256 | sha3_512 | md5 | cannotDetermine | none
deriving DecidableEq, Repr

inductive HashVerif where
  | analyzing | verified | corrupt | notApplicable
deriving DecidableEq, Repr

/-- The integer an unscoped `HashType` converts to. -/
def rawHashType : HashType → Int
  | .sha1 => 0
  | .sha256 => 1
  | .sha512 => 2
  | .sha3_256 => 3
  | .sha3_512 => 4
  | .md5 => 5
  | .cannotDetermine => 6
  | .none => 7

/-- The integer an unscoped `HashVerif` converts to. -/
def rawHashVerif : HashVerif → Int
  | .analyzing => 0
  | .verified => 1
  | .corrupt => 2
  | .notApplicable => 3

def enumGekkofyreHashVerifAnalyzing : Int := 1
def enumGekkofyreHashVerifNotApplic : Int := 0
def enumGekkofyreHashVerifVerified : Int := 2
def enumGekkofyreHashVerifCorrupt : Int := -1

/-! ## Records -/

/-- `GkCurl::CurlInfo`. -/
structure CurlInfo where
  responseCode : Int
  effectiveUrl : Str
deriving DecidableEq, Repr

/-- `GkCurl::CurlInfoExt`. A `double` is a rational number. A `status_ok` that nobody has set
has no value. -/
structure CurlInfoExt where
  statusOk : Option Bool
  statusMsg : Str
  responseCode : Int
  elapsed : ℚ
  effectiveUrl : Str
  contentLength : ℚ
deriving DecidableEq, Repr

/-- `GkCurl::DlStatusMsg`. -/
structure DlStatusMsg where
  contentLen : ℚ
  url : Str
  fileLoc : Str
deriving DecidableEq, Repr

/-- `GkCurl::CurlDlInfo`. -/
structure CurlDlInfo where
  fileLoc : Str
  insertTimestamp : Int
  compltTimestamp : Int
  dlStatus : DownloadStatus
  extInfo : CurlInfoExt
  uniqueId : Str
  hashType : HashType
  hashValGiven : Str
  hashValRtrnd : Str
  hashSuccType : HashVerif
deriving DecidableEq, Repr

/-- `GkTorrent::TorrentFile`. -/
structure TorrentFile where
  uniqueId : Str
  filePath : Str
  sha1HashHex : Str
  flags : Int
  contentLength : Int
  fileOffset : Int
  mtime : Int
  mapFilePiece : Int × Int
  downloaded : Bool
deriving DecidableEq, Repr

/-- `GkTorrent::TorrentTrackers`. -/
structure TorrentTrackers where
  uniqueId : Str
  tier : Int
  url : Str
  enabled : Bool
deriving DecidableEq, Repr

/-- `GkTorrent::GeneralInfo`. -/
structure GeneralInfo where
  uniqueId : Str
  downDest : Str
  insertTimestamp : Int
  compltTimestamp : Int
  creatnTimestamp : Int
  dlStatus : DownloadStatus
  comment : Str
  creator : Str
  magnetUri : Str
  torrentName : Str
  numFiles : Int
  numTrackers : Int
  numPieces : Int
  pieceLength : Int
deriving DecidableEq, Repr

/-- `GkTorrent::TorrentInfo`, without the resume data and the nodes, which the
database knows nothing of. -/
structure TorrentInfo where
  general : GeneralInfo
  trackers : List TorrentTrackers
  filesVec : List TorrentFile
deriving DecidableEq, Repr

end FyreDL
