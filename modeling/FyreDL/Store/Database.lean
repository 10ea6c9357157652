import Mathlib.Data.Char
import Mathlib.Data.List.Lex
import FyreDL.Csv.Text
import FyreDL.Lib.KvProg
import FyreDL.Lib.AssocMap

/-!
# FyreDL.Store.Database — keys, items and the unique-id index

The part of `cmnroutines.cpp` that talks to LevelDB. All records of all downloads
live in one flat key space: an item is stored under `<id>_<key>`, and one more
entry, the *unique-id index*, lists every download as a line `<id>,<path>,<flag>`
of unquoted comma-separated values.

* Each function is a program over the store (`FyreDL.Lib.KvProg`). `db_mutex` is
  the mutex of these programs; the `try_lock` mutexes of the item functions always
  succeed on a program that runs alone and are left out.
* A failed `Get` is told apart from a missing key only by the text of its status.
* What `createId` would draw is the parameter `drawn`.
* Lines written to `std::cerr` are left out, message boxes are `warn`.
-/

namespace FyreDL.Store

open Lib Lib.Kv Csv

/-- Programs on the database: byte-string keys, values and error texts. -/
abbrev DbProg := Prog Str Str Str

abbrev Db := Kv.Store Str Str

/-! ## Keys -/

/-- `multipart_key`. -/
def multipartKey (args : List Str) : Str := joined '_' args

/-- The shape of what `createId` draws: decimal digits, one fewer than the count. -/
def IsCreateId (id : Str) : Prop :=
  id.length = fyredlUniqueIdDigitCount - 1 ∧ ∀ c ∈ id, c.isDigit = true

instance (id : Str) : Decidable (IsCreateId id) :=
  decidable_of_iff (id.length = fyredlUniqueIdDigitCount - 1 ∧ id.all Char.isDigit = true)
    (by rw [IsCreateId, List.all_eq_true])

/-- `leveldb::Status::ToString` of a `Get` that found no key. -/
def notFoundText : Str := "NotFound: ".toList

/-! ## Items -/

/-- The batch of `add_item_db`. -/
def putBatch (downloadId key value : Str) : List (Op Str Str) :=
  [.delete (multipartKey [downloadId, key]), .put (multipartKey [downloadId, key]) value]

/-- The batch of `del_item_db`. -/
def deleteBatch (downloadId key : Str) : List (Op Str Str) :=
  [.delete (multipartKey [downloadId, key])]

/-- `add_item_db`. -/
def addItemDb (downloadId key value : Str) : DbProg Unit :=
  Prog.locked (Prog.writeOrThrow (putBatch downloadId key value))

/-- `del_item_db`. -/
def delItemDb (downloadId key : Str) : DbProg Unit :=
  Prog.locked (Prog.writeOrThrow (deleteBatch downloadId key))

/-- A `Get` whose failure is thrown. -/
def getOrThrow (key : Str) : DbProg Str :=
  Prog.get key fun
    | .found v => .ret v
    | .notFound => .throw notFoundText
    | .error e => .throw e

/-- `read_item_db`. -/
def readItemDb (downloadId key : Str) : DbProg Str :=
  Prog.locked (getOrThrow (multipartKey [downloadId, key]))

/-- A `Get` whose status is not looked at: the value stays empty when it fails. -/
def getOrEmpty (key : Str) : DbProg Str :=
  Prog.get key fun
    | .found v => .ret v
    | .notFound => .ret []
    | .error _ => .ret []

/-! ## The index -/

/-- `convertBool_fromInt`: anything but 0 and 1 is reported and taken for `false`. -/
def convertBoolFromInt (value : Int) : Bool :=
  if value = 0 then false else if value = 1 then true else false

/-- A `bool` as `operator<<` and `std::to_string` print it. -/
def boolText (b : Bool) : Str := if b then ['1'] else ['0']

/-- One line of the index as the writers put it down. -/
def indexLine (uniqueId path flag : Str) : Str :=
  uniqueId ++ ',' :: path ++ ',' :: flag ++ ['\n']

/-- The headers that every reader of the index is built with. -/
def indexHeaders : List Str := [leveldbCsvUidKey, leveldbCsvUidValue1, leveldbCsvUidValue2]

/-- `GkCsvReader csv_in(3, true, csv_read_data, ...)`. -/
def openIndex (csvReadData : Str) : DbProg (GkCsvReader × Statics) :=
  match GkCsvReader.make 3 true csvReadData indexHeaders Statics.reset with
  | .error what => .throw what
  | .ok r => .ret r

/-- `while (csv_in.read_row(unique_id, path, is_torrent_csv_str))`: the values of
the three variables in each round. -/
def indexRows (rd : GkCsvReader) (st : Statics) : DbProg (List (Str × Str × Str)) :=
  match readAll rd 3 (fun _ => []) st with
  | none => .hang
  | some (rows, _) => .ret (rows.map fun vs => (vs.getD 0 [], vs.getD 1 [], vs.getD 2 []))

/-- The text that is long enough to be parsed at all. -/
def parsable (csvReadData : Str) : Bool :=
  decide (csvReadData ≠ [] ∧ csvReadData.length > cfgCsvMinParseSize)

/-- The id that `add_download_id` works with. -/
def downloadKey (drawn overrideUniqueId : Str) : Str :=
  if overrideUniqueId ≠ [] then overrideUniqueId else drawn

/-- The rows that `add_download_id` copies: those with an id and a path. -/
def isCopied (row : Str × Str × Str) : Bool := row.1 ≠ [] ∧ row.2.1 ≠ []

/-- What the loop of `add_download_id` copies of the old index. -/
def copiedLines (rows : List (Str × Str × Str)) : Str :=
  (rows.filter isCopied).flatMap fun row => indexLine row.1 row.2.1 row.2.2

/-- The part of `add_download_id` that reads the old index: the text it puts in
front of the new line. -/
def copiedIndex : DbProg Str := do
  let csvReadData ← getOrEmpty leveldbStoreUniqueId
  if parsable csvReadData then do
    let (rd, st) ← openIndex csvReadData
    let rows ← indexRows rd st
    pure (copiedLines rows)
  else pure []

/-- `add_download_id`. -/
def addDownloadId (drawn filePath : Str) (isTorrent : Bool) (overrideUniqueId : Str) :
    DbProg Str := do
  let key := downloadKey drawn overrideUniqueId
  Prog.locked do
    let csvOut ← copiedIndex
    Prog.writeOrThrow [.delete leveldbStoreUniqueId,
      .put leveldbStoreUniqueId (csvOut ++ indexLine key filePath (boolText isTorrent))]
    pure key

/-- An entry of the maps the index is read into: id, path and BitTorrent flag. -/
abbrev Entry := Str × (Str × Bool)

/-- `extract_download_ids`. The map is in order of insertion. -/
def extractDownloadIds (torrentsOnly : Bool) : DbProg (List Entry) :=
  Prog.locked do
    let csvReadData ← getOrEmpty leveldbStoreUniqueId
    if parsable csvReadData then
      let (rd, st) ← openIndex csvReadData
      let rows ← indexRows rd st
      pure <| rows.foldl (fun cache (uniqueId, path, isTorrentCsvStr) =>
        let isTorrentCsv := convertBoolFromInt (ofText isTorrentCsvStr)
        if isTorrentCsv = torrentsOnly then insertNew cache uniqueId (path, isTorrentCsv)
        else cache) []
    else pure []

/-- "Information provided from database is invalid!" -/
def invalidInformation : Str := "Information provided from database is invalid!".toList

/-- `determine_download_id`. -/
def determineDownloadId (filePath : Str) : DbProg (Str × Bool) :=
  Prog.locked do
    let csvReadData ← getOrThrow leveldbStoreUniqueId
    if parsable csvReadData then
      let (rd, st) ← openIndex csvReadData
      match hasColumn rd leveldbCsvUidKey, hasColumn rd leveldbCsvUidValue1,
        hasColumn rd leveldbCsvUidValue2 with
      | .ok true, .ok true, .ok true =>
        let rows ← indexRows rd st
        let cache := rows.foldl (fun cache (uniqueId, path, isTorrentCsvStr) =>
          insertOrd uniqueId (path, convertBoolFromInt (ofText isTorrentCsvStr)) cache) []
        match cache.find? fun item => item.2.1 = filePath with
        | some item => pure (item.1, item.2.2)
        | none => pure ([], false)
      | .error what, _, _ => .throw what
      | .ok true, .error what, _ => .throw what
      | .ok true, .ok true, .error what => .throw what
      | _, _, _ => .throw invalidInformation
    else pure ([], false)

/-- The message box of a `del_download_id` whose `Write` fails. -/
def deleteIssueText (uniqueId status : Str) : Str :=
  "There was an issue while deleting Unique ID, \"".toList ++ uniqueId ++
    "\", from the database. See below.\n\n".toList ++ status

/-- `del_download_id`. The map it rewrites is the one of the same kind of download
only: HTTP/FTP, or BitTorrent. -/
def delDownloadId (ord : IterOrder Entry) (uniqueId : Str) (isTorrent : Bool) :
    DbProg Bool := do
  let downloadIds ← extractDownloadIds isTorrent
  let csvData := ((ord.order downloadIds).filter fun id => id.1 ≠ uniqueId).flatMap
    fun id => indexLine id.1 id.2.1 (boolText id.2.2)
  Prog.locked (Prog.write [.delete leveldbStoreUniqueId, .put leveldbStoreUniqueId csvData] fun
    | none => .ret true
    | some e => .warn (deleteIssueText uniqueId e) (.ret false))

end FyreDL.Store
