import FyreDL.Defaults
import FyreDL.Lib.Getline
import FyreDL.Lib.Run

/-!
# FyreDL.Csv.LineReader — lines of a file, through a buffer of three blocks

`LineReader` of `fast-cpp-csv-parser/csv.h`, which the import of CSV files goes through. Two
blocks of the buffer hold what is being read, and a thread fills the third one in the meantime.

* The buffer is memory that nothing has been written to at first, so what is in it is a
  parameter; so is the length of a block.
* The thread writes to the third block only. What the reader finds there before it has waited for
  the thread makes no difference to it, so the thread is modelled as reading when it is started.
* An `assert` that fails and a wait that never ends are results of their own.
* `Stores` says which part of the file is in the buffer and what is behind it; `lines_make` is
  what comes out line by line.
-/

namespace FyreDL.FastCsv

open Lib

/-! ## The buffer -/

/-- A byte for each address. -/
abbrev Memory := Nat → Char

/-- Bytes that are read to an address. -/
def Memory.write (m : Memory) (address : Nat) (bytes : Str) : Memory := fun i =>
  if address ≤ i then bytes[i - address]?.getD (m i) else m i

/-- `memcpy`. -/
def Memory.copy (m : Memory) (destination source length : Nat) : Memory := fun i =>
  if destination ≤ i ∧ i < destination + length then m (source + (i - destination)) else m i

section Memory

variable (m : Memory)

theorem Memory.write_of_getElem? {address i : Nat} {bytes : Str} {c : Char}
    (h : bytes[i]? = some c) : m.write address bytes (address + i) = c := by
  rw [write, if_pos (Nat.le_add_right _ _), Nat.add_sub_cancel_left, h]
  rfl

theorem Memory.write_of_lt {address i : Nat} (bytes : Str) (h : i < address) :
    m.write address bytes i = m i := if_neg (by omega)

theorem Memory.write_of_le {address i : Nat} {bytes : Str} (h : address + bytes.length ≤ i) :
    m.write address bytes i = m i := by
  rw [write, if_pos (by omega), List.getElem?_eq_none (by omega)]
  rfl

theorem Memory.copy_of_mem {destination source length i : Nat} (h : i < length) :
    m.copy destination source length (destination + i) = m (source + i) := by
  rw [copy, if_pos (by omega), Nat.add_sub_cancel_left]

theorem Memory.copy_of_le {destination source length i : Nat} (h : destination + length ≤ i) :
    m.copy destination source length i = m i := if_neg (by omega)

theorem Memory.copy_of_lt {destination source length i : Nat} (h : i < destination) :
    m.copy destination source length i = m i := if_neg (by omega)

end Memory

/-! ## `AsynchronousReader` -/

/-- The thread that fills the third block. It ends when it gets no more bytes; `count` is what
the last read gave, if there was anyone to do it. -/
structure AsynchronousReader where
  alive : Bool
  count : Option Nat
deriving DecidableEq, Repr

/-- `LineReader`. `source` is what has not been read of the file. -/
structure LineReader where
  buffer : Memory
  reader : Option AsynchronousReader
  source : Str
  dataBegin : Nat
  dataEnd : Nat
  fileLine : Nat

/-- What `next_line` gives. -/
inductive NextLine where
  | done
  | line (text : Str) (next : LineReader)
  | lineLengthLimitExceeded (fileLine : Nat)
  | assertion
  | hang

/-- The byte-order mark that is skipped. -/
def byteOrderMark : Str := [Char.ofNat 0xEF, Char.ofNat 0xBB, Char.ofNat 0xBF]

/-- A line as a C string: without the `\r` at its end, up to the first `\0`. -/
def cLine (piece : Str) : Str :=
  (if piece.getLast? = some '\r' then piece.dropLast else piece).takeWhile (· ≠ '\x00')

/-- The search for the end of a line: `left` bytes are left in the buffer from `i` on. -/
def lineEnd (buffer : Memory) : (left i : Nat) → Nat
  | 0, i => i
  | left + 1, i => if buffer i = '\n' then i else lineEnd buffer left (i + 1)

/-- The bytes from an address on. -/
def Memory.bytes (m : Memory) : (length i : Nat) → Str
  | 0, _ => []
  | length + 1, i => m i :: m.bytes length (i + 1)

/-- A line of the buffer becomes a C string; `\r\n` may end it as well. -/
def Memory.terminate (m : Memory) (dataBegin stop : Nat) : Memory :=
  let terminated := Function.update m stop '\x00'
  if stop ≠ dataBegin ∧ terminated (stop - 1) = '\r' then
    Function.update terminated (stop - 1) '\x00'
  else terminated

namespace LineReader

variable (blockLen : Nat)

/-- `start_read`, for the third block. -/
def startRead (r : LineReader) (reader : AsynchronousReader) : LineReader :=
  if reader.alive then
    let bytes := r.source.take blockLen
    { r with
      buffer := r.buffer.write (2 * blockLen) bytes
      source := r.source.drop blockLen
      reader := some ⟨decide (bytes ≠ []), some bytes.length⟩ }
  else { r with reader := some ⟨false, none⟩ }

/-- The constructor, on a file that could be opened. -/
def make (memory : Memory) (file : Str) : LineReader :=
  let bytes := file.take (2 * blockLen)
  let r : LineReader :=
    { buffer := memory.write 0 bytes
      reader := none
      source := file.drop (2 * blockLen)
      dataBegin := if bytes.take 3 = byteOrderMark then 3 else 0
      dataEnd := bytes.length
      fileLine := 0 }
  if r.dataEnd = 2 * blockLen then r.startRead blockLen ⟨true, none⟩ else r

/-- The data is moved by a block. -/
def moved (r : LineReader) : LineReader :=
  { r with
    buffer := r.buffer.copy 0 blockLen blockLen
    dataBegin := r.dataBegin - blockLen
    dataEnd := r.dataEnd - blockLen }

/-- The third block comes to the data. -/
def filled (r : LineReader) (count : Nat) : LineReader :=
  { r with
    dataEnd := r.dataEnd + count
    buffer := r.buffer.copy blockLen (2 * blockLen) blockLen }

/-- The part of `next_line` that moves on by a block; `none` if the wait never ends. -/
def refill (r : LineReader) : Option LineReader :=
  if blockLen ≤ r.dataBegin then
    match r.reader with
    | none => some (r.moved blockLen)
    | some reader =>
      match reader.count with
      | none => none
      | some count => some (((r.moved blockLen).filled blockLen count).startRead blockLen reader)
  else some r

/-- The rest of `next_line`: the line that begins at `data_begin`. -/
def takeLine (r : LineReader) : NextLine :=
  let stop := lineEnd r.buffer (r.dataEnd - r.dataBegin) r.dataBegin
  if stop - r.dataBegin + 1 > blockLen then .lineLengthLimitExceeded r.fileLine
  else
    -- The last line may lack its `\n`; what is behind the data is looked at nevertheless.
    let dataEnd := if r.buffer stop = '\n' then r.dataEnd else r.dataEnd + 1
    let buffer := r.buffer.terminate r.dataBegin stop
    .line ((Memory.bytes buffer (stop - r.dataBegin) r.dataBegin).takeWhile (· ≠ '\x00'))
      { r with buffer := buffer, dataBegin := stop + 1, dataEnd := dataEnd }

/-- `next_line`. -/
def nextLine (r : LineReader) : NextLine :=
  if r.dataBegin = r.dataEnd then .done
  else if ¬ (r.dataBegin < r.dataEnd ∧ r.dataEnd ≤ 2 * blockLen) then .assertion
  else
    match ({ r with fileLine := r.fileLine + 1 } : LineReader).refill blockLen with
    | none => .hang
    | some r => r.takeLine blockLen

end LineReader

/-- How reading a file line by line ends. -/
inductive Ending where
  | done
  | lineLengthLimitExceeded (fileLine : Nat)
  | assertion
  | hang
deriving DecidableEq, Repr

/-- The lines up to the end, for so many calls of `next_line` at most. -/
def LineReader.lines (blockLen : Nat) : Nat → LineReader → List Str × Ending
  | 0, _ => ([], .hang)
  | fuel + 1, r =>
    match r.nextLine blockLen with
    | .done => ([], .done)
    | .lineLengthLimitExceeded fileLine => ([], .lineLengthLimitExceeded fileLine)
    | .assertion => ([], .assertion)
    | .hang => ([], .hang)
    | .line text next =>
      let (texts, ending) := lines blockLen fuel next
      (text :: texts, ending)

section FileLine

variable {blockLen : Nat} {r r' : LineReader}

theorem LineReader.fileLine_of_refill (h : r.refill blockLen = some r') :
    r'.fileLine = r.fileLine := by
  unfold LineReader.refill at h
  split at h
  · split at h
    · cases h
      rfl
    · split at h
      · cases h
      · cases h
        rw [startRead]
        split
        · rfl
        · rfl
  · cases h
    rfl

theorem LineReader.fileLine_of_takeLine {text : Str} (h : r.takeLine blockLen = .line text r') :
    r'.fileLine = r.fileLine := by
  unfold LineReader.takeLine at h
  dsimp only at h
  split at h
  · cases h
  · cases h
    rfl

/-- `next_line` counts the lines. -/
theorem LineReader.fileLine_of_nextLine {text : Str} (h : r.nextLine blockLen = .line text r') :
    r'.fileLine = r.fileLine + 1 := by
  unfold LineReader.nextLine at h
  split at h
  · cases h
  · split at h
    · cases h
    · split at h
      · cases h
      · rename_i r'' hrefill
        rw [fileLine_of_takeLine h, fileLine_of_refill hrefill]

end FileLine

/-! ## Lines of a text -/

/-- The first line of a text, without its end. -/
def firstLine (text : Str) : Str := text.takeWhile (· ≠ '\n')

section FirstLine

variable {text : Str}

@[simp] theorem firstLine_nil : firstLine [] = [] := rfl

theorem firstLine_cons_lf (text : Str) : firstLine ('\n' :: text) = [] := rfl

theorem firstLine_cons {c : Char} (h : c ≠ '\n') (text : Str) :
    firstLine (c :: text) = c :: firstLine text :=
  List.takeWhile_cons_of_pos (decide_eq_true h)

theorem getlines_of_ne_nil (h : text ≠ []) : getlines '\n' text =
    firstLine text :: getlines '\n' (text.drop ((firstLine text).length + 1)) := by
  induction text with
  | nil => exact absurd rfl h
  | cons c text ih =>
    by_cases hc : c = '\n'
    · subst hc
      rfl
    · rw [getlines, if_neg hc, firstLine_cons hc, List.length_cons, List.drop_succ_cons]
      cases text with
      | nil => rfl
      | cons d text => rw [ih (List.cons_ne_nil d text)]

theorem getElem?_firstLine_length (h : (firstLine text).length < text.length) :
    text[(firstLine text).length]? = some '\n' := by
  induction text with
  | nil => cases h
  | cons c text ih =>
    by_cases hc : c = '\n'
    · subst hc
      rfl
    · rw [firstLine_cons hc] at h ⊢
      exact ih (Nat.lt_of_succ_lt_succ h)

theorem firstLine_length_le (text : Str) : (firstLine text).length ≤ text.length :=
  (List.takeWhile_prefix _).length_le

theorem take_firstLine (text : Str) : text.take (firstLine text).length = firstLine text :=
  List.prefix_iff_eq_take.mp (List.takeWhile_prefix _) |>.symm

/-- The last line of the text lacks its end. -/
def EndsOpen (text : Str) : Prop := text ≠ [] ∧ text.getLast? ≠ some '\n'

instance (text : Str) : Decidable (EndsOpen text) := inferInstanceAs (Decidable (_ ∧ _))

/-- A text behind its first line ends as the text does. -/
theorem endsOpen_drop (h : (firstLine text).length + 1 < text.length) :
    EndsOpen (text.drop ((firstLine text).length + 1)) ↔ EndsOpen text := by
  have hne : text ≠ [] := by
    rintro rfl
    cases h
  have hne' : text.drop ((firstLine text).length + 1) ≠ [] := by
    intro hnil
    have hlength := List.drop_eq_nil_iff.mp hnil
    omega
  rw [EndsOpen, EndsOpen, List.getLast?_drop, if_neg (by omega)]
  exact ⟨fun hopen => ⟨hne, hopen.2⟩, fun hopen => ⟨hne', hopen.2⟩⟩

/-- The only line of a text. -/
theorem endsOpen_of_firstLine (h : text ≠ [])
    (hlength : text.length ≤ (firstLine text).length + 1) :
    EndsOpen text ↔ (firstLine text).length = text.length := by
  have hpos := List.length_pos_of_ne_nil h
  have hlast : text.getLast? = text[text.length - 1]? := List.getLast?_eq_getElem? 
  constructor
  · rintro ⟨-, hopen⟩
    by_contra hne
    have hlt : (firstLine text).length < text.length :=
      Nat.lt_of_le_of_ne (firstLine_length_le text) hne
    have hend : text.length - 1 = (firstLine text).length := by omega
    rw [hlast, hend, getElem?_firstLine_length hlt] at hopen
    exact hopen rfl
  · intro hsame
    refine ⟨h, ?_⟩
    have hall : firstLine text = text := by
      rw [← take_firstLine, hsame, List.take_length]
    rw [hlast]
    intro hlf
    have hmem : '\n' ∈ firstLine text := by
      rw [hall]
      exact List.mem_of_getElem? hlf
    have hne := List.mem_takeWhile_imp (show '\n' ∈ text.takeWhile (· ≠ '\n') from hmem)
    exact absurd hne (by decide)

end FirstLine

/-! ## What the buffer holds -/

/-- The bytes of the memory from `i` on are those of the text, as far as `length`. -/
def Memory.Shows (m : Memory) (text : Str) (length i : Nat) : Prop :=
  ∀ j, j < length → text[j]? = some (m (i + j))

section Shows

variable {m : Memory} {text : Str} {length i : Nat}

theorem Memory.Shows.length_le (h : m.Shows text length i) : length ≤ text.length := by
  by_contra hlt
  have hlast := h text.length (by omega)
  rw [List.getElem?_eq_none (Nat.le_refl _)] at hlast
  cases hlast

theorem Memory.Shows.tail {c : Char} (h : m.Shows (c :: text) (length + 1) i) :
    m i = c ∧ m.Shows text length (i + 1) := by
  constructor
  · exact (Option.some.inj (h 0 (Nat.succ_pos _))).symm
  · intro j hj
    have hnext := h (j + 1) (Nat.succ_lt_succ hj)
    rwa [List.getElem?_cons_succ, show i + (j + 1) = i + 1 + j by omega] at hnext

theorem Memory.Shows.bytes (h : m.Shows text length i) : m.bytes length i = text.take length := by
  induction length generalizing text i with
  | zero => rfl
  | succ length ih =>
    cases text with
    | nil => cases h 0 (Nat.succ_pos _)
    | cons c text =>
      rcases h.tail with ⟨hfirst, hrest⟩
      rw [Memory.bytes, List.take_succ_cons, hfirst, ih hrest]

theorem Memory.Shows.mono (h : m.Shows text length i) {length' : Nat} (hle : length' ≤ length) :
    m.Shows text length' i := fun j hj => h j (Nat.lt_of_lt_of_le hj hle)

/-- The search stops at the end of the first line, or where the data ends. -/
theorem lineEnd_eq (h : m.Shows text length i) :
    lineEnd m length i = i + min length (firstLine text).length := by
  induction length generalizing text i with
  | zero =>
    rw [lineEnd, Nat.zero_min]
    rfl
  | succ length ih =>
    cases text with
    | nil => cases h 0 (Nat.succ_pos _)
    | cons c text =>
      rcases h.tail with ⟨hfirst, hrest⟩
      rw [lineEnd, hfirst]
      by_cases hc : c = '\n'
      · subst hc
        rw [if_pos rfl, firstLine_cons_lf]
        rfl
      · rw [if_neg hc, ih hrest, firstLine_cons hc, List.length_cons, Nat.succ_min_succ]
        omega

end Shows

/-- The byte that is behind the data when all of the file is in the buffer: it is left from a
block earlier, or nobody has written it. -/
def fence (blockLen : Nat) (memory : Memory) (file : Str) : Char :=
  if file.length < 3 * blockLen then memory file.length
  else file.getD (file.length - blockLen) '\x00'

variable {blockLen : Nat} {memory : Memory} {file : Str}

/-- The data in the buffer; `base` is the place in the file that the buffer begins at. -/
structure Holds (file : Str) (r : LineReader) (base : Nat) : Prop where
  begin_le : r.dataBegin ≤ r.dataEnd
  shows : r.buffer.Shows (file.drop (base + r.dataBegin)) (r.dataEnd - r.dataBegin) r.dataBegin

/-- All of the file is in the buffer, and the thread has ended or never was. -/
structure Loaded (blockLen : Nat) (memory : Memory) (file : Str) (r : LineReader) (base : Nat) :
    Prop extends Holds file r base where
  all : base + r.dataEnd = file.length
  room : r.dataEnd < 2 * blockLen
  idle : ∀ reader, r.reader = some reader → reader.alive = false ∧
    (reader.count = some 0 ∨ reader.count = none ∧ r.dataEnd ≤ blockLen)
  fenced : r.buffer r.dataEnd = fence blockLen memory file

/-- The thread has read the block behind the data. -/
structure Ahead (blockLen : Nat) (memory : Memory) (file : Str) (r : LineReader) (base : Nat) :
    Prop extends Holds file r base where
  full : r.dataEnd = 2 * blockLen
  inside : r.dataBegin < 2 * blockLen
  count : r.reader = some ⟨decide (base + 2 * blockLen < file.length),
    some (min blockLen (file.length - (base + 2 * blockLen)))⟩
  source : r.source = file.drop (base + 3 * blockLen)
  third : r.buffer.Shows (file.drop (base + 2 * blockLen))
    (min blockLen (file.length - (base + 2 * blockLen))) (2 * blockLen)
  fenced : file.length < base + 3 * blockLen →
    r.buffer (file.length - base) = fence blockLen memory file

/-- What the reader has in store. -/
def Stores (blockLen : Nat) (memory : Memory) (file : Str) (r : LineReader) (base : Nat) : Prop :=
  Loaded blockLen memory file r base ∨ Ahead blockLen memory file r base

section Refill

variable {r : LineReader} {base : Nat}

theorem Ahead.le_length (h : Ahead blockLen memory file r base) :
    base + 2 * blockLen ≤ file.length := by
  have hle := h.shows.length_le
  have hinside := h.inside
  have hfull := h.full
  rw [List.length_drop] at hle
  omega

/-- The thread reads the next block. -/
theorem ahead_startRead (hblock : 0 < blockLen) (hholds : Holds file r base)
    (hfull : r.dataEnd = 2 * blockLen) (hinside : r.dataBegin < 2 * blockLen)
    (hsource : r.source = file.drop (base + 2 * blockLen))
    (hfence : base + 2 * blockLen ≤ file.length → file.length < base + 3 * blockLen →
      r.buffer (file.length - base) = fence blockLen memory file)
    {count : Option Nat} :
    Ahead blockLen memory file (r.startRead blockLen ⟨true, count⟩) base := by
  have hlength : (r.source.take blockLen).length =
      min blockLen (file.length - (base + 2 * blockLen)) := by
    rw [hsource, List.length_take, List.length_drop]
  have hle : base + 2 * blockLen ≤ file.length := by
    have hshown := hholds.shows.length_le
    rw [List.length_drop] at hshown
    omega
  rw [LineReader.startRead, if_pos rfl]
  refine ⟨⟨hholds.begin_le, ?_⟩, hfull, hinside, ?_, ?_, ?_, ?_⟩
  · intro j hj
    have hj' : j < r.dataEnd - r.dataBegin := hj
    change _ = some (r.buffer.write (2 * blockLen) _ (r.dataBegin + j))
    rw [Memory.write_of_lt _ _ (by omega)]
    exact hholds.shows j hj'
  · -- there are bytes exactly if the file goes on
    change some (AsynchronousReader.mk _ _) = _
    rw [hlength]
    congr 2
    rw [decide_eq_decide, ← List.length_pos_iff_ne_nil, hlength]
    omega
  · change r.source.drop blockLen = _
    rw [hsource, List.drop_drop]
    congr 1
    omega
  · intro j hj
    change _ = some (r.buffer.write (2 * blockLen) _ (2 * blockLen + j))
    have hbyte : (r.source.take blockLen)[j]? = (file.drop (base + 2 * blockLen))[j]? := by
      rw [List.getElem?_take_of_lt (by omega), hsource]
    have hin : j < (file.drop (base + 2 * blockLen)).length := by
      rw [List.length_drop]
      omega
    rw [List.getElem?_eq_getElem hin] at hbyte ⊢
    rw [Memory.write_of_getElem? _ hbyte]
  · intro hshort
    change r.buffer.write (2 * blockLen) _ (file.length - base) = _
    rw [Memory.write_of_le _ (by rw [hlength]; omega)]
    exact hfence hle hshort

/-- The two copies of a refill move everything by a block. -/
theorem refill_buffer (m : Memory) {i : Nat} (hi : i < 2 * blockLen) :
    (m.copy 0 blockLen blockLen).copy blockLen (2 * blockLen) blockLen i = m (i + blockLen) := by
  by_cases hlow : i < blockLen
  · rw [Memory.copy_of_lt _ hlow, ← Nat.zero_add i, Memory.copy_of_mem _ hlow, Nat.zero_add,
      Nat.add_comm]
  · obtain ⟨j, rfl⟩ := Nat.exists_eq_add_of_le (Nat.le_of_not_lt hlow)
    rw [Memory.copy_of_mem _ (by omega), Memory.copy_of_le _ (by omega)]
    congr 1
    omega

/-- What is moved by a block is the same data. -/
theorem Holds.moved {r' : LineReader} (h : Holds file r base) (hblock : blockLen ≤ r.dataBegin)
    (hbegin : r'.dataBegin = r.dataBegin - blockLen) (hend : r.dataEnd - blockLen ≤ r'.dataEnd)
    (hshows : r'.buffer.Shows (file.drop (base + r.dataBegin)) (r'.dataEnd - r'.dataBegin)
      r'.dataBegin) : Holds file r' (base + blockLen) := by
  have hle := h.begin_le
  constructor
  · omega
  · rw [show base + blockLen + r'.dataBegin = base + r.dataBegin by omega]
    exact hshows

/-- All of the file is there: the data moves, and nothing comes to it. -/
theorem Loaded.refill (h : Loaded blockLen memory file r base) (hlt : r.dataBegin < r.dataEnd)
    (hblock : blockLen ≤ r.dataBegin) :
    ∃ r', r.refill blockLen = some r' ∧ Loaded blockLen memory file r' (base + blockLen) ∧
      r'.dataBegin = r.dataBegin - blockLen ∧ r'.fileLine = r.fileLine := by
  have hroom := h.room
  have hall := h.all
  -- whatever is copied behind it, the data and the byte behind it have moved
  have hloaded : ∀ r' : LineReader, r'.dataBegin = r.dataBegin - blockLen →
      r'.dataEnd = r.dataEnd - blockLen →
      (∀ i, i < blockLen → r'.buffer i = r.buffer (i + blockLen)) →
      (∀ reader, r'.reader = some reader → reader.alive = false ∧
        (reader.count = some 0 ∨ reader.count = none ∧ r'.dataEnd ≤ blockLen)) →
      Loaded blockLen memory file r' (base + blockLen) := by
    intro r' hbegin hend hbuffer hidle
    refine ⟨h.toHolds.moved hblock hbegin (by omega) ?_, by omega, by omega, hidle, ?_⟩
    · intro j hj
      rw [h.shows j (by omega), hbuffer _ (by omega), hbegin]
      congr 2
      omega
    · rw [hend, hbuffer _ (by omega), Nat.sub_add_cancel (by omega)]
      exact h.fenced
  have hcopy : ∀ i, i < blockLen →
      r.buffer.copy 0 blockLen blockLen i = r.buffer (i + blockLen) := by
    intro i hi
    rw [← Nat.zero_add i, Memory.copy_of_mem _ hi, Nat.zero_add, Nat.add_comm]
  unfold LineReader.refill
  rw [if_pos hblock]
  cases hreader : r.reader with
  | none =>
    refine ⟨_, rfl, hloaded _ rfl rfl hcopy ?_, rfl, rfl⟩
    intro reader hc
    exact absurd (hreader.symm.trans hc) (Option.some_ne_none reader).symm
  | some reader =>
    rcases h.idle reader hreader with ⟨halive, hcount | ⟨-, hshort⟩⟩
    · dsimp only
      rw [hcount]
      refine ⟨_, rfl, ?_⟩
      rw [LineReader.startRead, halive]
      refine ⟨hloaded _ rfl rfl ?_ ?_, rfl, rfl⟩
      · intro i hi
        change (r.buffer.copy 0 blockLen blockLen).copy blockLen (2 * blockLen) blockLen i = _
        exact refill_buffer _ (by omega)
      · intro reader' hreader'
        cases hreader'
        refine ⟨rfl, .inr ⟨rfl, ?_⟩⟩
        change r.dataEnd - blockLen + 0 ≤ blockLen
        omega
    · omega

/-- There is another block: it comes to the data, and the thread goes on. -/
theorem Ahead.refill (h : Ahead blockLen memory file r base) (hpos : 0 < blockLen)
    (hblock : blockLen ≤ r.dataBegin) :
    ∃ r', r.refill blockLen = some r' ∧ Stores blockLen memory file r' (base + blockLen) ∧
      r'.dataBegin = r.dataBegin - blockLen ∧ r'.fileLine = r.fileLine := by
  have hfull := h.full
  have hinside := h.inside
  have hlength := h.le_length
  have hthird := h.third
  generalize hcount : min blockLen (file.length - (base + 2 * blockLen)) = count at hthird
  unfold LineReader.refill
  rw [if_pos hblock, h.count, hcount]
  dsimp only
  refine ⟨_, rfl, ?_⟩
  generalize hr' : (r.moved blockLen).filled blockLen count = r'
  have hbegin : r'.dataBegin = r.dataBegin - blockLen := by
    rw [← hr']
    rfl
  have hend : r'.dataEnd = blockLen + count := by
    rw [← hr']
    change r.dataEnd - blockLen + count = _
    omega
  have hbuffer : ∀ i, i < 2 * blockLen → r'.buffer i = r.buffer (i + blockLen) := by
    intro i hi
    rw [← hr']
    exact refill_buffer _ hi
  have hholds : Holds file r' (base + blockLen) := by
    refine h.toHolds.moved hblock hbegin (by omega) ?_
    intro j hj
    rw [hbuffer _ (by omega), hbegin]
    -- the byte is in the second block, or in the third one
    by_cases hsecond : r.dataBegin + j < 2 * blockLen
    · rw [h.shows j (by omega)]
      congr 2
      omega
    · have hbyte := hthird (r.dataBegin + j - 2 * blockLen) (by omega)
      rw [List.getElem?_drop] at hbyte ⊢
      rw [show base + r.dataBegin + j = base + 2 * blockLen + (r.dataBegin + j - 2 * blockLen) by
        omega, hbyte]
      congr 2
      omega
  by_cases hmore : base + 3 * blockLen ≤ file.length
  · -- a whole block: the thread reads the next one
    have hwhole : count = blockLen := by omega
    rw [decide_eq_true (by omega)]
    have hahead : Ahead blockLen memory file (r'.startRead blockLen ⟨true, some count⟩)
        (base + blockLen) := by
      refine ahead_startRead hpos hholds (by omega) (by omega) ?_ ?_
      · rw [← hr']
        change r.source = _
        rw [h.source]
        congr 1
        omega
      · intro hle hshort
        have hplace : file.length - (base + blockLen) =
            2 * blockLen + (file.length - (base + 3 * blockLen)) := by omega
        have hstale : file.length - blockLen =
            base + 2 * blockLen + (file.length - (base + 3 * blockLen)) := by omega
        have hbyte := hthird (file.length - (base + 3 * blockLen)) (by omega)
        rw [List.getElem?_drop] at hbyte
        rw [fence, if_neg (by omega), hplace, ← hr']
        change (r.buffer.copy 0 blockLen blockLen).copy blockLen (2 * blockLen) blockLen _ = _
        rw [Memory.copy_of_le _ (by omega), Memory.copy_of_le _ (by omega),
          List.getD_eq_getElem?_getD, hstale, hbyte]
        rfl
    refine ⟨.inr hahead, ?_, ?_⟩
    · rw [LineReader.startRead]
      exact hbegin
    · rw [LineReader.startRead, ← hr']
      rfl
  · -- the last part of the file
    have hpart : count = file.length - (base + 2 * blockLen) := by omega
    have hsource : r'.source = [] := by
      rw [← hr']
      change r.source = []
      rw [h.source, List.drop_eq_nil_iff]
      omega
    have hloaded : ∀ r'' : LineReader, r''.buffer = r'.buffer → r''.dataBegin = r'.dataBegin →
        r''.dataEnd = r'.dataEnd →
        (∀ reader, r''.reader = some reader → reader.alive = false ∧
          (reader.count = some 0 ∨ reader.count = none ∧ r''.dataEnd ≤ blockLen)) →
        Loaded blockLen memory file r'' (base + blockLen) := by
      intro r'' hbuffer'' hbegin'' hend'' hidle
      refine ⟨⟨?_, ?_⟩, ?_, ?_, hidle, ?_⟩
      · rw [hbegin'', hend'']
        exact hholds.begin_le
      · rw [hbuffer'', hbegin'', hend'']
        exact hholds.shows
      · omega
      · omega
      · rw [hbuffer'', hend'', hbuffer _ (by omega), hend]
        rw [show blockLen + count + blockLen = file.length - base by omega]
        exact h.fenced (by omega)
    by_cases hsome : base + 2 * blockLen < file.length
    · rw [decide_eq_true hsome]
      refine ⟨.inl (hloaded _ ?_ rfl rfl ?_), hbegin, ?_⟩
      · rw [LineReader.startRead, if_pos rfl, hsource]
        funext i
        by_cases hi : i < 2 * blockLen
        · exact Memory.write_of_lt _ _ hi
        · exact Memory.write_of_le _ (by simpa using hi)
      · intro reader hreader
        rw [LineReader.startRead, if_pos rfl, hsource] at hreader
        cases hreader
        refine ⟨?_, .inl ?_⟩
        · simp
        · simp
      · rw [← hr']
        rfl
    · rw [decide_eq_false hsome]
      refine ⟨.inl (hloaded _ rfl rfl rfl ?_), hbegin, ?_⟩
      · intro reader hreader
        cases hreader
        refine ⟨rfl, .inr ⟨rfl, ?_⟩⟩
        change r'.dataEnd ≤ blockLen
        omega
      · rw [← hr']
        rfl

/-- **Refilling** moves the data so that the next line begins in the first block. -/
theorem Stores.refill (h : Stores blockLen memory file r base) (hpos : 0 < blockLen)
    (hlt : r.dataBegin < r.dataEnd) :
    ∃ r' base', r.refill blockLen = some r' ∧ Stores blockLen memory file r' base' ∧
      base' + r'.dataBegin = base + r.dataBegin ∧ r'.dataBegin < blockLen ∧
      r'.fileLine = r.fileLine := by
  by_cases hblock : blockLen ≤ r.dataBegin
  · rcases h with hloaded | hahead
    · have hroom := hloaded.room
      rcases hloaded.refill hlt hblock with ⟨r', hrefill, hstores, hbegin, hline⟩
      exact ⟨r', base + blockLen, hrefill, .inl hstores, by omega, by omega, hline⟩
    · have hinside := hahead.inside
      rcases hahead.refill hpos hblock with ⟨r', hrefill, hstores, hbegin, hline⟩
      exact ⟨r', base + blockLen, hrefill, hstores, by omega, by omega, hline⟩
  · refine ⟨r, base, ?_, h, rfl, by omega, rfl⟩
    rw [LineReader.refill, if_neg hblock]

end Refill

section TakeLine

variable {r : LineReader} {base : Nat}

theorem Memory.bytes_append_singleton (m : Memory) (length i : Nat) :
    m.bytes (length + 1) i = m.bytes length i ++ [m (i + length)] := by
  induction length generalizing i with
  | zero => rfl
  | succ length ih =>
    rw [Memory.bytes, ih, Memory.bytes, List.cons_append]
    congr 4
    omega

theorem Memory.bytes_update_of_le (m : Memory) {length i address : Nat} (h : i + length ≤ address)
    (c : Char) : Memory.bytes (Function.update m address c) length i = m.bytes length i := by
  induction length generalizing i with
  | zero => rfl
  | succ length ih =>
    rw [Memory.bytes, Memory.bytes, Function.update_of_ne (by omega), ih (by omega)]

theorem Memory.terminate_of_lt (m : Memory) {dataBegin stop i : Nat} (h : stop < i) :
    m.terminate dataBegin stop i = m i := by
  unfold Memory.terminate
  split
  · rw [Function.update_of_ne (by omega), Function.update_of_ne (by omega)]
  · rw [Function.update_of_ne (by omega)]

/-- What `next_line` makes of the bytes of a line is the line as a C string. -/
theorem takeWhile_bytes_terminate (m : Memory) (length i : Nat) :
    ((m.terminate i (i + length)).bytes length i).takeWhile (· ≠ '\x00') =
      cLine (m.bytes length i) := by
  unfold Memory.terminate
  dsimp only
  cases length with
  | zero =>
    rw [if_neg fun h => h.1 rfl]
    rfl
  | succ length =>
    have hlast : Function.update m (i + (length + 1)) '\x00' (i + (length + 1) - 1) =
        m (i + length) := Function.update_of_ne (by omega) _ _
    rw [cLine, hlast, Memory.bytes_append_singleton m, List.getLast?_concat, List.dropLast_concat]
    by_cases hcr : m (i + length) = '\r'
    · rw [if_pos ⟨by omega, hcr⟩, if_pos (congrArg some hcr), Memory.bytes_append_singleton,
        show i + (length + 1) - 1 = i + length by omega, Function.update_self,
        Memory.bytes_update_of_le _ (Nat.le_refl _), Memory.bytes_update_of_le _ (by omega),
        List.takeWhile_append]
      split
      · rename_i hall
        rw [List.takeWhile_cons_of_neg (by decide), List.append_nil,
          (List.takeWhile_prefix _).eq_of_length hall]
      · rfl
    · rw [if_neg fun h => hcr h.2, if_neg fun h => hcr (Option.some.inj h),
        Memory.bytes_update_of_le _ (by omega), Memory.bytes_append_singleton]

/-- A line that ends inside the data, or where the data ends. -/
theorem takeLine_line (h : Holds file r base) {line : Str}
    (hline : firstLine (file.drop (base + r.dataBegin)) = line)
    (hin : line.length ≤ r.dataEnd - r.dataBegin) (hshort : line.length < blockLen) :
    r.takeLine blockLen = .line (cLine line)
      { r with
        buffer := r.buffer.terminate r.dataBegin (r.dataBegin + line.length)
        dataBegin := r.dataBegin + line.length + 1
        dataEnd := if r.buffer (r.dataBegin + line.length) = '\n' then r.dataEnd
          else r.dataEnd + 1 } := by
  have hstop : lineEnd r.buffer (r.dataEnd - r.dataBegin) r.dataBegin =
      r.dataBegin + line.length := by
    rw [lineEnd_eq h.shows, hline, Nat.min_eq_right hin]
  have hbytes : r.buffer.bytes line.length r.dataBegin = line := by
    rw [(h.shows.mono hin).bytes, ← hline, take_firstLine]
  unfold LineReader.takeLine
  dsimp only
  rw [hstop, Nat.add_sub_cancel_left, if_neg (by omega), takeWhile_bytes_terminate, hbytes]

/-- A line that is too long. -/
theorem takeLine_long (h : Holds file r base) {line : Str}
    (hline : firstLine (file.drop (base + r.dataBegin)) = line) (hlong : blockLen ≤ line.length)
    (hdata : blockLen ≤ r.dataEnd - r.dataBegin) :
    r.takeLine blockLen = .lineLengthLimitExceeded r.fileLine := by
  unfold LineReader.takeLine
  dsimp only
  rw [lineEnd_eq h.shows, hline, if_pos (by omega)]

theorem Stores.holds (h : Stores blockLen memory file r base) : Holds file r base :=
  h.elim (·.toHolds) (·.toHolds)

/-- What is before the data does not matter. -/
theorem Stores.advance {r' : LineReader} (h : Stores blockLen memory file r base)
    (hbegin : r.dataBegin ≤ r'.dataBegin) (hin : r'.dataBegin ≤ r.dataEnd)
    (hinside : r'.dataBegin < 2 * blockLen) (hend : r'.dataEnd = r.dataEnd)
    (hreader : r'.reader = r.reader) (hsource : r'.source = r.source)
    (hbuffer : ∀ i, r'.dataBegin ≤ i → r'.buffer i = r.buffer i) :
    Stores blockLen memory file r' base := by
  have hholds : Holds file r base → Holds file r' base := by
    intro hholds
    refine ⟨by omega, ?_⟩
    intro j hj
    have hbyte := hholds.shows (r'.dataBegin - r.dataBegin + j) (by omega)
    rw [List.getElem?_drop] at hbyte ⊢
    rw [hbuffer _ (by omega), show base + r'.dataBegin + j =
      base + r.dataBegin + (r'.dataBegin - r.dataBegin + j) by omega, hbyte]
    congr 2
    omega
  rcases h with hloaded | hahead
  · left
    refine ⟨hholds hloaded.toHolds, ?_, ?_, ?_, ?_⟩
    · rw [hend]
      exact hloaded.all
    · rw [hend]
      exact hloaded.room
    · rw [hreader, hend]
      exact hloaded.idle
    · rw [hend, hbuffer _ hin]
      exact hloaded.fenced
  · right
    have hlength := hahead.le_length
    refine ⟨hholds hahead.toHolds, hend.trans hahead.full, hinside, hreader.trans hahead.count,
      hsource.trans hahead.source, ?_, ?_⟩
    · intro j hj
      rw [hbuffer _ (by omega)]
      exact hahead.third j hj
    · intro hshort
      rw [hbuffer _ (by omega)]
      exact hahead.fenced hshort

/-- A line with its end behind it: what comes next is in store. -/
theorem Stores.takeLine_closed (h : Stores blockLen memory file r base) {line : Str}
    (hbegin : r.dataBegin < blockLen)
    (hline : firstLine (file.drop (base + r.dataBegin)) = line)
    (hclosed : base + r.dataBegin + line.length < file.length) (hshort : line.length < blockLen) :
    ∃ r', r.takeLine blockLen = .line (cLine line) r' ∧ Stores blockLen memory file r' base ∧
      r'.dataBegin = r.dataBegin + line.length + 1 ∧ r'.fileLine = r.fileLine := by
  have hholds := h.holds
  have hend : r.dataBegin + line.length < r.dataEnd := by
    rcases h with hloaded | hahead
    · have hall := hloaded.all
      omega
    · have hfull := hahead.full
      omega
  -- the end of the line is in the buffer
  have hlf : r.buffer (r.dataBegin + line.length) = '\n' := by
    have hbyte := hholds.shows line.length (by omega)
    rw [← hline, getElem?_firstLine_length (by
      rw [hline, List.length_drop]
      omega), hline] at hbyte
    exact (Option.some.inj hbyte).symm
  refine ⟨_, takeLine_line hholds hline (by omega) hshort, ?_, rfl, rfl⟩
  refine h.advance ?_ ?_ ?_ (if_pos hlf) rfl rfl ?_
  · change r.dataBegin ≤ r.dataBegin + line.length + 1
    omega
  · exact hend
  · change r.dataBegin + line.length + 1 < 2 * blockLen
    omega
  · intro i hi
    exact Memory.terminate_of_lt _ hi

/-- The last line, without its end: the reader goes past its data. -/
theorem Stores.takeLine_open (h : Stores blockLen memory file r base) {line : Str}
    (hbegin : r.dataBegin < blockLen)
    (hline : firstLine (file.drop (base + r.dataBegin)) = line)
    (hopen : base + r.dataBegin + line.length = file.length) (hshort : line.length < blockLen) :
    ∃ r', r.takeLine blockLen = .line (cLine line) r' ∧ r'.dataBegin = r.dataEnd + 1 ∧
      r'.dataEnd = if fence blockLen memory file = '\n' then r.dataEnd else r.dataEnd + 1 := by
  rcases h with hloaded | hahead
  · have hall := hloaded.all
    have hend : r.dataBegin + line.length = r.dataEnd := by omega
    refine ⟨_, takeLine_line hloaded.toHolds hline (by omega) hshort, ?_, ?_⟩
    · rw [← hend]
    · rw [← hloaded.fenced, ← hend]
  · -- the data is longer than a block
    have hlength := hahead.le_length
    omega

theorem Stores.takeLine_long (h : Stores blockLen memory file r base)
    (hbegin : r.dataBegin < blockLen)
    (hlong : blockLen ≤ (firstLine (file.drop (base + r.dataBegin))).length) :
    r.takeLine blockLen = .lineLengthLimitExceeded r.fileLine := by
  have hholds := h.holds
  refine FastCsv.takeLine_long hholds rfl hlong ?_
  rcases h with hloaded | hahead
  · have hall := hloaded.all
    have hle := firstLine_length_le (file.drop (base + r.dataBegin))
    rw [List.length_drop] at hle
    omega
  · have hfull := hahead.full
    omega

theorem Stores.dataEnd_le (h : Stores blockLen memory file r base) : r.dataEnd ≤ 2 * blockLen := by
  rcases h with hloaded | hahead
  · exact Nat.le_of_lt hloaded.room
  · exact Nat.le_of_eq hahead.full

/-- The data is at its end where the file is. -/
theorem Stores.done_iff (h : Stores blockLen memory file r base) :
    r.dataBegin = r.dataEnd ↔ file.length ≤ base + r.dataBegin := by
  have hle := h.holds.begin_le
  rcases h with hloaded | hahead
  · have hall := hloaded.all
    omega
  · have hlength := hahead.le_length
    have hinside := hahead.inside
    have hfull := hahead.full
    omega

/-- **`next_line`** comes to the search for the end of the line, in the first block. -/
theorem Stores.nextLine (h : Stores blockLen memory file r base) (hpos : 0 < blockLen)
    (hmore : base + r.dataBegin < file.length) :
    ∃ r' base', r.nextLine blockLen = r'.takeLine blockLen ∧
      Stores blockLen memory file r' base' ∧ base' + r'.dataBegin = base + r.dataBegin ∧
      r'.dataBegin < blockLen ∧ r'.fileLine = r.fileLine + 1 := by
  have hne : r.dataBegin ≠ r.dataEnd := fun heq => Nat.not_le.mpr hmore (h.done_iff.mp heq)
  have hend := h.dataEnd_le
  have hlt : r.dataBegin < r.dataEnd := Nat.lt_of_le_of_ne h.holds.begin_le hne
  have hcounted : Stores blockLen memory file { r with fileLine := r.fileLine + 1 } base :=
    h.advance (Nat.le_refl _) (Nat.le_of_lt hlt) (Nat.lt_of_lt_of_le hlt hend) rfl rfl rfl
      fun _ _ => rfl
  rcases hcounted.refill hpos hlt with ⟨r', base', hrefill, hstores, hplace, hfirst, hnumber⟩
  refine ⟨r', base', ?_, hstores, hplace, hfirst, hnumber⟩
  rw [LineReader.nextLine, if_neg hne, if_neg (not_not_intro ⟨hlt, hend⟩), hrefill]

end TakeLine

/-! ## All lines -/

theorem length_takeWhile_lt_iff {α : Type} (p : α → Bool) (xs : List α) :
    (xs.takeWhile p).length < xs.length ↔ ∃ x ∈ xs, ¬ p x = true := by
  induction xs with
  | nil => simp
  | cons x xs ih =>
    by_cases hx : p x = true
    · rw [List.takeWhile_cons_of_pos hx, List.length_cons, List.length_cons, Nat.succ_lt_succ_iff,
        ih, List.exists_mem_cons_iff]
      exact ⟨.inr, fun h => h.resolve_left fun hn => hn hx⟩
    · rw [List.takeWhile_cons_of_neg hx]
      exact iff_of_true (Nat.succ_pos _) ⟨x, List.mem_cons_self, hx⟩

/-- What the reader reads: a byte-order mark in front is skipped. -/
def withoutMark (file : Str) : Str := if file.take 3 = byteOrderMark then file.drop 3 else file

/-- The first two blocks hold the file as far as they reach. -/
theorem shows_write (memory : Memory) (file : Str) {length i : Nat}
    (h : i + length ≤ (file.take (2 * blockLen)).length) :
    Memory.Shows (memory.write 0 (file.take (2 * blockLen))) (file.drop i) length i := by
  intro j hj
  have hin : i + j < (file.take (2 * blockLen)).length := by omega
  have hbyte : (file.take (2 * blockLen))[i + j]? = some (file.take (2 * blockLen))[i + j] :=
    List.getElem?_eq_getElem hin
  have hwritten : memory.write 0 (file.take (2 * blockLen)) (0 + (i + j)) = _ :=
    memory.write_of_getElem? hbyte
  rw [Nat.zero_add] at hwritten
  rw [hwritten, ← hbyte, List.getElem?_drop]
  rw [List.length_take] at hin
  exact (List.getElem?_take_of_lt (by omega)).symm

/-- **The constructor** puts the beginning of the file in store, behind a byte-order mark. -/
theorem stores_make (memory : Memory) (file : Str) (hblock : 2 ≤ blockLen) :
    ∃ r, LineReader.make blockLen memory file = r ∧ Stores blockLen memory file r 0 ∧
      file.drop r.dataBegin = withoutMark file ∧ r.fileLine = 0 := by
  have hlength : (file.take (2 * blockLen)).length = min (2 * blockLen) file.length :=
    List.length_take
  have hmark : (file.take (2 * blockLen)).take 3 = file.take 3 := by
    rw [List.take_take, Nat.min_eq_left (by omega)]
  generalize hskip : (if file.take 3 = byteOrderMark then 3 else 0) = skip
  have hle : skip ≤ (file.take (2 * blockLen)).length ∧ skip ≤ 3 := by
    by_cases h : file.take 3 = byteOrderMark
    · have hthree : (file.take 3).length = 3 := by
        rw [h]
        rfl
      rw [if_pos h] at hskip
      rw [List.length_take] at hthree
      omega
    · rw [if_neg h] at hskip
      omega
  have htext : file.drop skip = withoutMark file := by
    rw [withoutMark, ← hskip]
    split
    · rfl
    · rfl
  refine ⟨_, rfl, ?_⟩
  unfold LineReader.make
  dsimp only
  rw [hmark, hskip]
  by_cases hfull : (file.take (2 * blockLen)).length = 2 * blockLen
  · -- there may be more: the thread is started
    rw [if_pos hfull]
    refine ⟨.inr (ahead_startRead (by omega) ⟨hle.1, ?_⟩ hfull ?_ ?_ ?_), htext, rfl⟩
    · rw [Nat.zero_add]
      exact shows_write memory file (Nat.le_of_eq (Nat.add_sub_of_le hle.1))
    · change skip < 2 * blockLen
      omega
    · rw [Nat.zero_add]
    · intro _ hshort
      rw [fence, if_pos (by omega), Nat.sub_zero]
      change memory.write 0 _ file.length = memory file.length
      refine memory.write_of_le ?_
      omega
  · rw [if_neg hfull]
    refine ⟨.inl ⟨⟨hle.1, ?_⟩, ?_, ?_, ?_, ?_⟩, htext, rfl⟩
    · rw [Nat.zero_add]
      exact shows_write memory file (Nat.le_of_eq (Nat.add_sub_of_le hle.1))
    · change 0 + (file.take (2 * blockLen)).length = file.length
      omega
    · change (file.take (2 * blockLen)).length < 2 * blockLen
      omega
    · intro reader hreader
      cases hreader
    · change memory.write 0 _ (file.take (2 * blockLen)).length = _
      rw [Memory.write_of_le _ (by omega), fence, if_pos (by omega)]
      congr 1
      omega

/-- The lines that are in store, by induction on the calls. -/
theorem lines_stores (hblock : 0 < blockLen) {r : LineReader} {base : Nat}
    (h : Stores blockLen memory file r base) {text : Str}
    (htext : file.drop (base + r.dataBegin) = text) {fuel : Nat}
    (hfuel : (getlines '\n' text).length < fuel) {short : List Str}
    (hshort : (getlines '\n' text).takeWhile (·.length < blockLen) = short) :
    r.lines blockLen fuel = (short.map cLine,
      if short.length < (getlines '\n' text).length then
        .lineLengthLimitExceeded (r.fileLine + short.length + 1)
      else if EndsOpen text ∧ fence blockLen memory file = '\n' then .assertion
      else .done) := by
  induction fuel generalizing r base text short with
  | zero => omega
  | succ fuel ih =>
    have hlength : text.length = file.length - (base + r.dataBegin) := by
      rw [← htext, List.length_drop]
    by_cases hnil : text = []
    · have hdone : r.dataBegin = r.dataEnd := by
        rw [h.done_iff]
        rw [hnil, List.length_nil] at hlength
        omega
      subst hnil hshort
      rw [LineReader.lines, LineReader.nextLine, if_pos hdone, getlines_nil]
      have hclosed : ¬ (EndsOpen [] ∧ fence blockLen memory file = '\n') := fun h => h.1.1 rfl
      rw [List.takeWhile_nil, if_neg (Nat.lt_irrefl _), if_neg hclosed]
      rfl
    · have hpos := List.length_pos_of_ne_nil hnil
      rcases h.nextLine hblock (by omega) with ⟨r', base', hnext, hstores, hplace, hfirst, hnumber⟩
      have htext' : file.drop (base' + r'.dataBegin) = text := by
        rw [hplace, htext]
      rw [getlines_of_ne_nil hnil] at hshort hfuel ⊢
      rw [List.length_cons] at hfuel ⊢
      generalize hline : firstLine text = line at hshort hfuel ⊢
      have hle : line.length ≤ text.length := hline ▸ firstLine_length_le text
      rw [LineReader.lines, hnext]
      by_cases hlong : blockLen ≤ line.length
      · -- the line is too long
        rw [List.takeWhile_cons_of_neg (by simpa using hlong)] at hshort
        subst hshort
        rw [hstores.takeLine_long hfirst (by rwa [htext', hline]), hnumber]
        rfl
      · rw [List.takeWhile_cons_of_pos (by simpa using hlong)] at hshort
        subst hshort
        simp only [List.map_cons, List.length_cons, Nat.add_lt_add_iff_right]
        by_cases hclosed : line.length < text.length
        · -- the line has its end
          rcases hstores.takeLine_closed hfirst (htext' ▸ hline) (by omega) (by omega) with
            ⟨r'', htake, hstores', hbegin, hnumber'⟩
          have hrest : file.drop (base' + r''.dataBegin) = text.drop (line.length + 1) := by
            rw [hbegin, ← htext', List.drop_drop, Nat.add_assoc, Nat.add_assoc]
          have hopen : EndsOpen text ↔ EndsOpen (text.drop (line.length + 1)) := by
            by_cases hmore : line.length + 1 < text.length
            · subst hline
              exact (endsOpen_drop hmore).symm
            · subst hline
              rw [endsOpen_of_firstLine hnil (by omega), List.drop_of_length_le (by omega)]
              exact iff_of_false (by omega) fun hopen => hopen.1 rfl
          rw [htake]
          dsimp only
          rw [ih hstores' hrest (by omega) rfl, hnumber', hnumber]
          simp only [hopen, Nat.add_assoc, Nat.add_comm 1]
        · -- the last line, without its end
          rcases hstores.takeLine_open hfirst (htext' ▸ hline) (by omega) (by omega) with
            ⟨r'', htake, hbegin, hend⟩
          have hopen : EndsOpen text := by
            subst hline
            rw [endsOpen_of_firstLine hnil (by omega)]
            omega
          obtain ⟨fuel, rfl⟩ : ∃ f, fuel = f + 1 := ⟨fuel - 1, by omega⟩
          rw [List.drop_of_length_le (by omega), getlines_nil, htake]
          dsimp only
          rw [LineReader.lines, LineReader.nextLine, hbegin, hend]
          by_cases hfence : fence blockLen memory file = '\n'
          · rw [if_pos hfence, if_neg (by omega), if_pos (by omega), if_neg (by simp),
              if_pos ⟨hopen, hfence⟩]
            rfl
          · rw [if_neg hfence, if_pos rfl, if_neg (by simp), if_neg fun hboth => hfence hboth.2]
            rfl

/-- The lines of a file, as they are counted. -/
theorem lines_file (memory : Memory) (file : Str) (hblock : 2 ≤ blockLen) {fuel : Nat}
    (hfuel : file.length < fuel) {short : List Str}
    (hshort : (getlines '\n' (withoutMark file)).takeWhile (·.length < blockLen) = short) :
    (LineReader.make blockLen memory file).lines blockLen fuel = (short.map cLine,
      if short.length < (getlines '\n' (withoutMark file)).length then
        .lineLengthLimitExceeded (short.length + 1)
      else if EndsOpen (withoutMark file) ∧ fence blockLen memory file = '\n' then .assertion
      else .done) := by
  rcases stores_make memory file hblock with ⟨r, hmake, hstores, htext, hnumber⟩
  have hshorter : (withoutMark file).length ≤ file.length := by
    rw [← htext, List.length_drop]
    omega
  have hcount := length_getlines_le '\n' (withoutMark file)
  rw [← Nat.zero_add r.dataBegin] at htext
  rw [hmake, lines_stores (by omega) hstores htext (by omega) hshort, hnumber, Nat.zero_add]

/-- **Lines through the buffer.** Whatever the length of a block, what the memory held and how
the file is cut by the blocks, `next_line` hands out the lines of the file in their order, up to
the first one that does not fit into a block, which is reported with its number. The end of the
file is found unless its last line lacks its `\n` and the byte that is left behind the data
happens to be one: then the reader has gone past its data. -/
theorem lines_make (memory : Memory) (file : Str) (hblock : 2 ≤ blockLen) {fuel : Nat}
    (hfuel : file.length < fuel) :
    (LineReader.make blockLen memory file).lines blockLen fuel =
      (((getlines '\n' (withoutMark file)).takeWhile (·.length < blockLen)).map cLine,
        if ∃ line ∈ getlines '\n' (withoutMark file), blockLen ≤ line.length then
          .lineLengthLimitExceeded
            (((getlines '\n' (withoutMark file)).takeWhile (·.length < blockLen)).length + 1)
        else if EndsOpen (withoutMark file) ∧ fence blockLen memory file = '\n' then .assertion
        else .done) := by
  rw [lines_file memory file hblock hfuel rfl]
  simp only [length_takeWhile_lt_iff, decide_eq_true_eq, Nat.not_lt]

/-- A buffer of newlines, and a file that does not end with one. -/
theorem lines_make_sample :
    (LineReader.make 4 (fun _ => '\n') "ab\r\ncde\nf".toList).lines 4 20 =
      (["ab".toList, "cde".toList, "f".toList], .assertion) :=
  (lines_make (fun _ => '\n') "ab\r\ncde\nf".toList (by decide) (by decide)).trans
    (by decide +kernel)

end FyreDL.FastCsv
