import CuMetal.Lib.Checked
import Mathlib.Data.List.DropRight
import Mathlib.Data.List.Infix

/-!
# PTX in CUDA fat binaries

`runtime/common/fatbin_ptx.cpp`.  A pointer is an index into the memory that it points
into; a read is checked against that memory, not against the size that goes with the
pointer.  The functions get what `*out_ptx` holds and return what it holds afterwards.
-/

namespace CuMetal.Fatbin

/-- `PtxExtractStatus` (`fatbin_ptx.h:9-15`). -/
inductive PtxExtractStatus
  | notFatbin | found | noPtx | malformed | unsupported
  deriving DecidableEq, Repr

def fatbinMagic : Nat := 0xBA55ED50
def fatbinVersion : Nat := 1
def outerHeaderSize : Nat := 16
def ptxEntryKind : Nat := 1
def entryVersion : Nat := 0x0101
def minimumEntryHeaderSize : Nat := 64
def flagCompressedLz4 : Nat := 0x2000
def flagCompressedZstd : Nat := 0x8000
def maximumModuleBytes : Nat := 64 * 1024 * 1024
def versionText : Text := text ".version"
def entryText : Text := text ".entry"

/-- The decompression libraries.  Each gets the compressed bytes and the capacity of the
    destination, and gives its result and the bytes of the destination afterwards; a
    `none` of `ZSTD_decompress` is an error code. -/
structure Codecs where
  lz4DecompressSafe : Text → Nat → Int × Text
  zstdDecompress : Text → Nat → Option Nat × Text

/-- LZ4 and zstd write into the destination that they are given, and only there. -/
structure Codecs.RespectSizes (codecs : Codecs) : Prop where
  lz4 : ∀ payload capacity, (codecs.lz4DecompressSafe payload capacity).2.length = capacity
  zstd : ∀ payload capacity, (codecs.zstdDecompress payload capacity).2.length = capacity

/-- `checked_range` (`fatbin_ptx.cpp:33-35`). -/
def checkedRange (offset size limit : Nat) : Bool := offset ≤ limit && size ≤ limit - offset

/-- The bytes up to the last `}`, if there is one (`fatbin_ptx.cpp:106-115`). -/
def upToLastBrace (program : Text) : Text :=
  if program.contains 125 then program.rdropWhile (· ≠ 125) else program

/-- The candidate at `begin`: up to the first NUL and then the last `}`. -/
def candidateIn (rest : Text) : Text := upToLastBrace (rest.takeWhile (· ≠ 0))

/-- One offset of the search (`fatbin_ptx.cpp:96-121`). -/
def searchPtx (memory : Text) (bytes size : Nat) (out : Text) (offset : Nat) :
    Checked (Nat ⊕ (Bool × Text)) :=
  if add64 offset versionText.length ≤ size then do
    let found ← readBytes memory (bytes + offset) versionText.length
    if found ≠ versionText then return .inl (offset + 1)
    else
      let rest ← readBytes memory (bytes + offset) (size - offset)
      let candidate := candidateIn rest
      if candidate = [] then return .inl (offset + 1)
      else if ¬ entryText <:+: candidate then return .inl (offset + 1)
      else return .inr (true, candidate)
  else return .inr (false, out)

/-- `extract_ptx_bytes` (`fatbin_ptx.cpp:86-123`). -/
def extractPtxBytes (memory : Text) (bytes size : Nat) (out : Text) : Checked (Bool × Text) :=
  if size < versionText.length || maximumModuleBytes < size then return (false, out)
  else loop (searchPtx memory bytes size out) (size + 1) 0

/-- `found ? status : other`, with what was written. -/
def foundOr (other : PtxExtractStatus) (result : Bool × Text) : PtxExtractStatus × Text :=
  (if result.1 then .found else other, result.2)

/-- The result of a decompression, `none` for an error, and the bytes of the destination
    (`fatbin_ptx.cpp:59-75`). -/
def Codecs.decompress (codecs : Codecs) (lz4 : Bool) (compressed : Text) (capacity : Nat) :
    Option Nat × Text :=
  if lz4 then
    let (result, decompressed) := codecs.lz4DecompressSafe compressed capacity
    (if result < 0 then none else some result.toNat, decompressed)
  else codecs.zstdDecompress compressed capacity

/-- `decompress_entry` (`fatbin_ptx.cpp:42-82`). -/
def decompressEntry (codecs : Codecs) (memory : Text)
    (payload compressedSize uncompressedSize flags : Nat) (out : Text) :
    Checked (PtxExtractStatus × Text) :=
  if compressedSize = 0 || uncompressedSize = 0 || maximumModuleBytes < uncompressedSize ||
      2 ^ 31 - 1 < compressedSize || 2 ^ 31 - 1 < uncompressedSize then return (.malformed, out)
  else
    let lz4 := flags &&& flagCompressedLz4 != 0
    let zstd := flags &&& flagCompressedZstd != 0
    if lz4 = zstd then return (.unsupported, out)
    else do
      let compressed ← readBytes memory payload compressedSize
      let (actualSize, decompressed) := codecs.decompress lz4 compressed uncompressedSize
      if actualSize ≠ some uncompressedSize then return (.malformed, out)
      else
        let result ← extractPtxBytes decompressed 0 decompressed.length out
        return foundOr .malformed result

/-- `all_zero` (`fatbin_ptx.cpp:37-40`). -/
def allZero (memory : Text) (bytes size : Nat) : Checked Bool := do
  let found ← readBytes memory bytes size
  return found.all (· == 0)

/-- A PTX entry (`fatbin_ptx.cpp:208-228`); `none` goes on to the next entry. -/
def extractEntry (codecs : Codecs) (memory : Text)
    (payload payloadSize compressedSize flags encodedUncompressed : Nat) (out : Text) :
    Checked (Option (PtxExtractStatus × Text)) :=
  if flags &&& (flagCompressedLz4 ||| flagCompressedZstd) ≠ 0 then
    if maximumModuleBytes < encodedUncompressed then return some (.malformed, out)
    else do
      let result ← decompressEntry codecs memory payload compressedSize encodedUncompressed flags out
      return if result.1 ≠ .noPtx then some result else none
  else if compressedSize ≠ 0 then return some (.unsupported, out)
  else if maximumModuleBytes < payloadSize then return some (.malformed, out)
  else do
    let result ← extractPtxBytes memory payload payloadSize out
    return if result.1 then some (.found, result.2) else none

/-- One pass of the loop over the entries (`fatbin_ptx.cpp:181-231`). -/
def nextEntry (codecs : Codecs) (memory : Text) (data dataSize : Nat) (out : Text) (cursor : Nat) :
    Checked (Nat ⊕ (PtxExtractStatus × Text)) :=
  if dataSize ≤ cursor then return .inr (.noPtx, out)
  else if dataSize - cursor < minimumEntryHeaderSize then do
    let padding ← allZero memory (data + cursor) (dataSize - cursor)
    return .inr (if padding then .noPtx else .malformed, out)
  else do
    let entry := data + cursor
    let kind ← readWord memory (entry + 0) 2
    let version ← readWord memory (entry + 2) 2
    let headerSize ← readWord memory (entry + 4) 4
    let payloadSize ← readWord memory (entry + 8) 4
    let compressedSize ← readWord memory (entry + 16) 4
    let flags ← readWord memory (entry + 40) 8
    let encodedUncompressed ← readWord memory (entry + 56) 8
    if version ≠ entryVersion then return .inr (.unsupported, out)
    else if headerSize < minimumEntryHeaderSize || dataSize - cursor < headerSize then
      return .inr (.malformed, out)
    else
      let storedSize := max payloadSize compressedSize
      if !checkedRange (add64 cursor headerSize) storedSize dataSize then
        return .inr (.malformed, out)
      else
        let next := add64 cursor (add64 headerSize storedSize)
        if kind = ptxEntryKind then
          match ← extractEntry codecs memory (entry + headerSize) payloadSize compressedSize flags
              encodedUncompressed out with
          | some result => return .inr result
          | none => return .inl next
        else return .inl next

/-- A word of the payload, 0 if it is too short. -/
def readIfRoom (memory : Text) (data dataSize room offset width : Nat) : Checked Nat :=
  if room ≤ dataSize then readWord memory (data + offset) width else return 0

/-- The payload is framed (`fatbin_ptx.cpp:156-173`). -/
def isStructured (memory : Text) (data dataSize : Nat) : Checked Bool := do
  let firstKind ← readIfRoom memory data dataSize 2 0 2
  let firstHeaderSize ← readIfRoom memory data dataSize 8 4 4
  let plausibleEntryHeader := minimumEntryHeaderSize ≤ dataSize &&
    minimumEntryHeaderSize ≤ firstHeaderSize && firstHeaderSize ≤ dataSize
  return minimumEntryHeaderSize ≤ dataSize &&
    (firstKind = ptxEntryKind || firstKind = 2 || plausibleEntryHeader)

/-- `extract_fatbin_ptx` (`fatbin_ptx.cpp:125-233`) for pointers that are not null. -/
def extractFatbinPtx (codecs : Codecs) (memory : Text) (bytes maxImageBytes : Nat) (out : Text) :
    Checked (PtxExtractStatus × Text) :=
  if maxImageBytes < outerHeaderSize then return (.notFatbin, out)
  else do
    let magic ← readWord memory (bytes + 0) 4
    if magic ≠ fatbinMagic then return (.notFatbin, out)
    else
      let version ← readWord memory (bytes + 4) 2
      let headerSize ← readWord memory (bytes + 6) 2
      let encodedSize ← readWord memory (bytes + 8) 8
      if version ≠ fatbinVersion || headerSize < outerHeaderSize || maxImageBytes < headerSize ||
          encodedSize = 0 || maximumModuleBytes < encodedSize ||
          maxImageBytes - headerSize < encodedSize then return (.malformed, out)
      else
        let data := bytes + headerSize
        if ← isStructured memory data encodedSize then
          loop (nextEntry codecs memory data encodedSize out) (encodedSize + 1) 0
        else
          let result ← extractPtxBytes memory data encodedSize out
          return foundOr .noPtx result

end CuMetal.Fatbin
