import FyreDL.Lib.Sink
import FyreDL.Transfer.Disk

/-!
# FyreDL.Transfer.WriteCallback — bytes acknowledged and bytes stored

`curl_write_file_callback` writes a chunk to the stream of its file, flushes it, and returns
the size of the chunk. It does not look at the state of the stream.

* The stream is a `Sink`. It is flushed in each call, so that a chunk has reached the file
  at the end of the call, or has not. A failure keeps a beginning of the chunk, and the
  stream stays failed.
* `acknowledged_stored_iff` — over any chunks and failures, the file has grown by what was
  acknowledged exactly if the stream has taken each of the chunks.
-/

namespace FyreDL.Transfer

open Lib

/-- The arguments of `curl_write_file_callback`: the buffer has `size * nmemb` bytes, which a
`long` can count. -/
structure WriteChunk where
  buffer : List UInt8
  size : Nat
  nmemb : Nat
  sized : buffer.length = size * nmemb
  counted : size * nmemb < 2 ^ 63
deriving DecidableEq

/-- `curl_write_file_callback`: what it returns, and the stream that it leaves. -/
def curlWriteFileStream (chunk : WriteChunk) (fault : Option Nat) (astream : Sink UInt8) :
    Nat × Sink UInt8 :=
  let bufSize := chunk.size * chunk.nmemb % 2 ^ 64
  (bufSize, astream.put (chunk.buffer.take bufSize) fault)

/-- The stream after a call, with the fault that the call meets. -/
def streamStep (astream : Sink UInt8) (call : WriteChunk × Option Nat) : Sink UInt8 :=
  (curlWriteFileStream call.1 call.2 astream).2

/-- What a call returns to libcurl. -/
def acknowledged (astream : Sink UInt8) (call : WriteChunk × Option Nat) : Nat :=
  (curlWriteFileStream call.1 call.2 astream).1

/-- What the calls for a stream return, altogether. -/
def acknowledgedAll (astream : Sink UInt8) : List (WriteChunk × Option Nat) → Nat
  | [] => 0
  | call :: rest => acknowledged astream call + acknowledgedAll (streamStep astream call) rest

/-- The stream takes the whole chunk: it is empty, or the stream is good and no failure cuts
it short. -/
def TakesChunk (astream : Sink UInt8) (call : WriteChunk × Option Nat) : Prop :=
  astream.Takes call.1.buffer call.2

section Calls

variable {chunk : WriteChunk} {fault : Option Nat} {astream : Sink UInt8}

/-- The size of a chunk does not overflow. -/
theorem bufSize_eq (chunk : WriteChunk) :
    chunk.size * chunk.nmemb % 2 ^ 64 = chunk.buffer.length := by
  have hcounted := chunk.counted
  rw [chunk.sized, Nat.mod_eq_of_lt (by omega)]

theorem curlWriteFileStream_eq (chunk : WriteChunk) (fault : Option Nat) (astream : Sink UInt8) :
    curlWriteFileStream chunk fault astream =
      (chunk.buffer.length, astream.put chunk.buffer fault) := by
  rw [curlWriteFileStream, bufSize_eq, List.take_length]

/-- Without a failure, the stream does to its file what the transfers do. -/
theorem curlWriteFileStream_disk {files : Files} {fileLoc : Str} (hgood : astream.good = true)
    (hfile : files fileLoc = some astream.content) (chunk : WriteChunk) :
    curlWriteFileCallback fileLoc chunk.buffer files fileLoc =
      some (curlWriteFileStream chunk none astream).2.content := by
  rw [curlWriteFileStream_eq, Sink.put_none hgood, curlWriteFileCallback, if_pos rfl, hfile,
    Option.getD_some]

/-- The size of the chunk is returned, whatever the stream says. -/
theorem acknowledged_eq (astream : Sink UInt8) (call : WriteChunk × Option Nat) :
    acknowledged astream call = call.1.buffer.length := by
  rw [acknowledged, curlWriteFileStream_eq]

theorem acknowledgedAll_eq (astream : Sink UInt8) (calls : List (WriteChunk × Option Nat)) :
    acknowledgedAll astream calls = (calls.map fun call => call.1.buffer.length).sum := by
  induction calls generalizing astream with
  | nil => rfl
  | cons call calls ih =>
    rw [acknowledgedAll, ih, acknowledged_eq, List.map_cons, List.sum_cons]

theorem streamStep_length_le (astream : Sink UInt8) (call : WriteChunk × Option Nat) :
    (streamStep astream call).content.length ≤
      astream.content.length + call.1.buffer.length := by
  rw [streamStep, curlWriteFileStream_eq]
  exact Sink.put_length_le _ _ _

theorem streamStep_length_eq_iff (astream : Sink UInt8) (call : WriteChunk × Option Nat) :
    (streamStep astream call).content.length =
        astream.content.length + call.1.buffer.length ↔ TakesChunk astream call := by
  rw [streamStep, curlWriteFileStream_eq]
  exact Sink.put_length_eq_iff

end Calls

/-- **Acknowledged bytes are stored bytes** exactly if the stream takes each chunk, over any
calls for one stream. -/
theorem acknowledged_stored_iff (astream : Sink UInt8) (calls : List (WriteChunk × Option Nat)) :
    (calls.foldl streamStep astream).content.length =
        astream.content.length + acknowledgedAll astream calls ↔
      EachStep streamStep TakesChunk astream calls := by
  have hsizes := @size_run_eq_iff _ _ streamStep (fun astream => astream.content.length)
    (fun call => call.1.buffer.length) streamStep_length_le astream calls
  rw [acknowledgedAll_eq]
  exact hsizes.trans (eachStep_congr streamStep_length_eq_iff astream calls)

/-- Three bytes. -/
def threeBytes : WriteChunk := ⟨[1, 2, 3], 1, 3, rfl, by decide⟩

/-- Three chunks. The disk is full after the first byte of the second one. -/
def fullDisk : List (WriteChunk × Option Nat) :=
  [(threeBytes, none), (threeBytes, some 1), (threeBytes, none)]

/-- Nine bytes are acknowledged, and four are stored. -/
theorem acknowledged_fullDisk :
    acknowledgedAll ⟨[], true⟩ fullDisk = 9 ∧
      (fullDisk.foldl streamStep ⟨[], true⟩).content = [1, 2, 3, 1] ∧
      ¬ (fullDisk.foldl streamStep ⟨[], true⟩).content.length =
        0 + acknowledgedAll ⟨[], true⟩ fullDisk := by
  have hstored : (fullDisk.foldl streamStep ⟨[], true⟩).content = [1, 2, 3, 1] := by decide
  refine ⟨by decide, hstored, ?_⟩
  rw [hstored]
  decide

end FyreDL.Transfer
