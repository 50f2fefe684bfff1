import CuMetal.Lib.Checked
import Mathlib.Data.List.Dedup

/-!
# Metallib inspection

The parsers of `compiler/common/src/metallib.cpp`.  A `std::vector<std::uint8_t>` is a
`ByteVector`, a `std::string` the list of its bytes, a `std::size_t` a number below 2^64;
sums are `add64` where they can wrap.
-/

namespace CuMetal.Metallib

/-- `std::to_string`. -/
def toText (n : Nat) : Text := text (toString n)

def rawBitcodeSig : Text := [0x42, 0x43, 0xC0, 0xDE]
def wrappedBitcodeSig : Text := [0xDE, 0xC0, 0x17, 0x0B]
def cumetalMagic : Text := text "MTLB"
def cumetalHeaderSize : Nat := 40
def cumetalFunctionEntrySize : Nat := 32
def metallibHeaderSize : Nat := 88

/-- `KernelMetadataField` (`metallib.h:29-32`). -/
structure KernelMetadataField where
  key : Text
  value : Text
  deriving DecidableEq

/-- `KernelRecord` (`metallib.h:34-40`). -/
structure KernelRecord where
  name : Text := []
  bitcodeOffset : Nat := 0
  bitcodeSize : Nat := 0
  bitcodeSignatureOk : Bool := false
  metadata : List KernelMetadataField := []
  deriving DecidableEq

/-- `CumetalContainerInfo` (`metallib.h:42-53`). -/
structure CumetalContainerInfo where
  parsed : Bool := false
  version : Nat := 0
  flags : Nat := 0
  functionTableOffset : Nat := 0
  functionCount : Nat := 0
  stringTableOffset : Nat := 0
  stringTableSize : Nat := 0
  payloadOffset : Nat := 0
  payloadSize : Nat := 0
  kernels : List KernelRecord := []
  deriving DecidableEq

/-- `BitcodeSection` (`metallib.h:13-22`). -/
structure BitcodeSection where
  kind : String := ""
  offset : Nat := 0
  size : Nat := 0
  reliableSize : Bool := false
  wrapperVersion : Nat := 0
  wrapperOffset : Nat := 0
  wrapperSize : Nat := 0
  wrapperCpuType : Nat := 0
  deriving DecidableEq

/-- `StringCandidate` (`metallib.h:24-27`). -/
structure StringCandidate where
  offset : Nat := 0
  value : Text := []
  deriving DecidableEq

/-- `MetallibSummary` (`metallib.h:55-67`). -/
structure MetallibSummary where
  path : String := ""
  fileSize : Nat := 0
  magic : Text := [0, 0, 0, 0]
  magicAscii : Text := []
  word1Le : Nat := 0
  word2Le : Nat := 0
  bitcodeSections : List BitcodeSection := []
  strings : List StringCandidate := []
  functionListParsed : Bool := false
  functionListParser : String := ""
  kernels : List KernelRecord := []
  cumetal : CumetalContainerInfo := {}
  deriving DecidableEq

/-- `read_u16_le`, `read_u32_le` and `read_u64_le`: the sum of the check can wrap. -/
def readLe (width : Nat) (bytes : ByteVector) (offset : Nat) : Checked (Option Nat) :=
  if bytes.size < add64 offset width then return none
  else do
    let value ← readWord bytes.data offset width
    return some value

/-- `read_u16_le` (`metallib.cpp:25-34`). -/
def readU16Le : ByteVector → Nat → Checked (Option Nat) := readLe 2

/-- `read_u32_le` (`metallib.cpp:36-47`). -/
def readU32Le : ByteVector → Nat → Checked (Option Nat) := readLe 4

/-- `read_u64_le` (`metallib.cpp:49-59`). -/
def readU64Le : ByteVector → Nat → Checked (Option Nat) := readLe 8

/-- `matches_sig_at` (`metallib.cpp:61-66`). -/
def matchesSigAt (bytes : ByteVector) (offset : Nat) (sig : Text) : Checked Bool :=
  if add64 offset sig.length ≤ bytes.size then do
    let found ← readBytes bytes.data offset sig.length
    return found == sig
  else return false

/-- `looks_like_bitcode_signature` (`metallib.cpp:150-153`). -/
def looksLikeBitcodeSignature (bytes : ByteVector) (offset : Nat) : Checked Bool := do
  if ← matchesSigAt bytes offset rawBitcodeSig then return true
  else matchesSigAt bytes offset wrappedBitcodeSig

/-- `is_visible_ascii` (`metallib.cpp:68-70`). -/
def isVisibleAscii (c : UInt8) : Bool := 32 ≤ c && c ≤ 126

def isDigit (c : UInt8) : Bool := 48 ≤ c && c ≤ 57

def isAlpha (c : UInt8) : Bool := (65 ≤ c && c ≤ 90) || (97 ≤ c && c ≤ 122)

/-- `is_valid_symbol_char` (`metallib.cpp:72-75`): letters, digits and `_.$+-`. -/
def isValidSymbolChar (c : UInt8) : Bool :=
  isAlpha c || isDigit c || (text "_.$+-").contains c

/-- `sanitize_magic` (`metallib.cpp:77-84`). -/
def sanitizeMagic (magic : Text) : Text := magic.map fun c => if isVisibleAscii c then c else 46

/-- What `parse_cstring` accepts inside a name. -/
def isNameByte (c : UInt8) : Bool := isVisibleAscii c && (isValidSymbolChar c || c == 32)

/-- One pass of the loop of `parse_cstring`; the state is `i` and `value`. -/
def scanCString (bytes : ByteVector) (stop : Nat) (state : Nat × Text) :
    Checked ((Nat × Text) ⊕ Option Text) :=
  if state.1 < stop then do
    let byte ← readByte bytes.data state.1
    if byte = 0 then return .inr (if state.2 = [] then none else some state.2)
    else if isNameByte byte then return .inl (state.1 + 1, state.2 ++ [byte])
    else return .inr none
  else return .inr none

/-- `parse_cstring` (`metallib.cpp:86-112`). -/
def parseCString (bytes : ByteVector) (offset stop : Nat) : Checked (Option Text) :=
  if stop ≤ offset || bytes.size < stop then return none
  else loop (scanCString bytes stop) (bytes.size + 1) (offset, [])

/-- Step back over a zero byte at the end of a string (`metallib.cpp:121-124`). -/
def trimZeros (bytes : ByteVector) (offset stop : Nat) : Checked (Nat ⊕ Nat) :=
  if offset < stop then do
    if (← readByte bytes.data (stop - 1)) = 0 then return .inl (stop - 1) else return .inr stop
  else return .inr stop

/-- `parse_cstring_from_blob` (`metallib.cpp:114-135`). -/
def parseCStringFromBlob (bytes : ByteVector) (offset size : Nat) : Checked (Option Text) :=
  if bytes.size < add64 offset size || size = 0 then return none
  else do
    let stop ← loop (trimZeros bytes offset) (bytes.size + 1) (add64 offset size)
    if stop ≤ offset then return none
    else do
      let value ← readBytes bytes.data offset (stop - offset)
      return if value.all isVisibleAscii then some value else none

def hexDigit (n : Nat) : UInt8 := UInt8.ofNat (if n < 10 then 48 + n else 87 + n)

/-- `to_hex_prefix` (`metallib.cpp:137-148`). -/
def toHexPrefix (bytes : ByteVector) (offset size maxBytes : Nat) : Checked Text := do
  let read ← readBytes bytes.data offset (min size maxBytes)
  return read.flatMap fun byte => [hexDigit (byte.toNat / 16), hexDigit (byte.toNat % 16)]

/-- The field of a line `key=value` with a key and a value (`metallib.cpp:169-173`). -/
def metadataField (line : Text) : Option KernelMetadataField :=
  let key := line.takeWhile (· ≠ 61)
  let value := (line.dropWhile (· ≠ 61)).drop 1
  if key ≠ [] && value ≠ [] then some { key, value } else none

/-- `parse_metadata_blob` (`metallib.cpp:155-181`). -/
def parseMetadataBlob (bytes : ByteVector) (offset size : Nat) :
    Checked (List KernelMetadataField) :=
  if size = 0 || bytes.size < add64 offset size then return []
  else do
    let blob ← readBytes bytes.data offset size
    return (blob.splitOn 10).filterMap metadataField

/-- One entry of the function table (`metallib.cpp:237-277`). -/
def parseEntry (bytes : ByteVector) (info : CumetalContainerInfo) (stringsEnd i : Nat) :
    Checked (Option KernelRecord) := do
  let entryOffset := add64 info.functionTableOffset (i * cumetalFunctionEntrySize)
  let nameRel ← readU32Le bytes (add64 entryOffset 0)
  let bitcodeRel ← readU32Le bytes (add64 entryOffset 4)
  let bitcodeSize ← readU32Le bytes (add64 entryOffset 8)
  let metadataRel ← readU32Le bytes (add64 entryOffset 12)
  let metadataSize ← readU32Le bytes (add64 entryOffset 16)
  match nameRel, bitcodeRel, bitcodeSize, metadataRel, metadataSize with
  | some nameRel, some bitcodeRel, some bitcodeSize, some metadataRel, some metadataSize =>
    match ← parseCString bytes (add32 info.stringTableOffset nameRel) stringsEnd with
    | none => return none
    | some name =>
      let bitcodeAbs := add64 info.payloadOffset bitcodeRel
      let metadataAbs := add64 info.payloadOffset metadataRel
      if bytes.size < add64 bitcodeAbs bitcodeSize ||
          bytes.size < add64 metadataAbs metadataSize then return none
      else do
        let bitcodeSignatureOk ← looksLikeBitcodeSignature bytes bitcodeAbs
        let metadata ← parseMetadataBlob bytes metadataAbs metadataSize
        return some
          { name, bitcodeOffset := bitcodeAbs, bitcodeSize, bitcodeSignatureOk, metadata }
  | _, _, _, _, _ => return none

/-- The entries from the `i`-th on; `none` if one is malformed. -/
def parseEntries (bytes : ByteVector) (info : CumetalContainerInfo) (stringsEnd : Nat) :
    Nat → Nat → List KernelRecord → Checked (Option (List KernelRecord))
  | 0, _, kernels => return some kernels
  | remaining + 1, i, kernels => do
    match ← parseEntry bytes info stringsEnd i with
    | none => return none
    | some record => parseEntries bytes info stringsEnd remaining (i + 1) (kernels ++ [record])

/-- The header checks (`metallib.cpp:208-222`). -/
def headerAccepted (bytes : ByteVector) (totalSize : Nat) (info : CumetalContainerInfo) : Bool :=
  2 ≤ info.version && totalSize ≤ bytes.size &&
    add64 info.functionTableOffset (info.functionCount * cumetalFunctionEntrySize) ≤ bytes.size &&
    add32 info.stringTableOffset info.stringTableSize ≤ bytes.size &&
    add32 info.payloadOffset info.payloadSize ≤ bytes.size

/-- `parse_cumetal_container` (`metallib.cpp:183-281`). -/
def parseCumetalContainer (bytes : ByteVector) : Checked CumetalContainerInfo := do
  if bytes.size < cumetalHeaderSize then return {}
  else if !(← matchesSigAt bytes 0 cumetalMagic) then return {}
  else
    let version ← readU32Le bytes 4
    let totalSize ← readU32Le bytes 8
    let functionTableOffset ← readU32Le bytes 12
    let functionCount ← readU32Le bytes 16
    let stringTableOffset ← readU32Le bytes 20
    let stringTableSize ← readU32Le bytes 24
    let payloadOffset ← readU32Le bytes 28
    let payloadSize ← readU32Le bytes 32
    let flags ← readU32Le bytes 36
    match version, totalSize, functionTableOffset, functionCount, stringTableOffset,
      stringTableSize, payloadOffset, payloadSize, flags with
    | some version, some totalSize, some functionTableOffset, some functionCount,
      some stringTableOffset, some stringTableSize, some payloadOffset, some payloadSize,
      some flags =>
        let info : CumetalContainerInfo :=
          { version, flags, functionTableOffset, functionCount, stringTableOffset,
            stringTableSize, payloadOffset, payloadSize }
        if headerAccepted bytes totalSize info then
          match ← parseEntries bytes info (add32 stringTableOffset stringTableSize)
              functionCount 0 [] with
          | none => return info
          | some kernels => return { info with parsed := true, kernels }
        else return {}
    | _, _, _, _, _, _, _, _, _ => return {}

/-! ## Apple metallibs -/

/-- What the tags of a group have set so far (`metallib.cpp:346-352`). -/
structure TagState where
  kernel : KernelRecord := {}
  bitcodeRel : Nat := 0
  bitcodeSize : Nat := 0
  haveOfft : Bool := false
  haveMdsz : Bool := false
  deriving DecidableEq

/-- Append fields to the metadata of the kernel. -/
def TagState.push (state : TagState) (fields : List KernelMetadataField) : TagState :=
  { state with kernel := { state.kernel with metadata := state.kernel.metadata ++ fields } }

/-- The branches over the tag name, without `ENDT` (`metallib.cpp:369-417`). -/
def applyTag (bytes : ByteVector) (tag : Text) (dataOffset tagSize : Nat) (state : TagState) :
    Checked TagState := do
  if tag = text "NAME" then
    match ← parseCStringFromBlob bytes dataOffset tagSize with
    | some name => return { state with kernel := { state.kernel with name } }
    | none => return state
  else if tag = text "MDSZ" then
    match ← readU64Le bytes dataOffset with
    | some mdsz => return { state with bitcodeSize := mdsz, haveMdsz := true }
    | none => return state
  else if tag = text "OFFT" then
    let publicOff ← readU64Le bytes dataOffset
    let privateOff ← readU64Le bytes (add64 dataOffset 8)
    let bcodeOff ← readU64Le bytes (add64 dataOffset 16)
    match publicOff, privateOff, bcodeOff with
    | some publicOff, some privateOff, some bcodeOff =>
      return { state.push [⟨text "offt.public", toText publicOff⟩,
          ⟨text "offt.private", toText privateOff⟩, ⟨text "offt.bitcode", toText bcodeOff⟩] with
        bitcodeRel := bcodeOff
        haveOfft := true }
    | _, _, _ => return state
  else if tag = text "TYPE" && 1 ≤ tagSize then
    let type ← readByte bytes.data dataOffset
    return state.push (⟨text "function.type", toText type.toNat⟩ ::
      if type = 2 then [⟨text "air.kernel", text "true"⟩] else [])
  else if tag = text "VERS" && 8 ≤ tagSize then
    let airMajor ← readU16Le bytes (add64 dataOffset 0)
    let airMinor ← readU16Le bytes (add64 dataOffset 2)
    let langMajor ← readU16Le bytes (add64 dataOffset 4)
    let langMinor ← readU16Le bytes (add64 dataOffset 6)
    match airMajor, airMinor, langMajor, langMinor with
    | some airMajor, some airMinor, some langMajor, some langMinor =>
      return state.push
        [⟨text "air.version", toText airMajor ++ text "." ++ toText airMinor⟩,
          ⟨text "language.version", toText langMajor ++ text "." ++ toText langMinor⟩]
    | _, _, _, _ => return state
  else if tag = text "HASH" && 0 < tagSize then
    let hash ← toHexPrefix bytes dataOffset tagSize 8
    return state.push [⟨text "function.hash.prefix", hash⟩]
  else return state

/-- One pass of the loop over the tags of a group; `none` is `parse_failed`. -/
def parseTag (bytes : ByteVector) (groupEnd : Nat) (current : Nat × TagState) :
    Checked ((Nat × TagState) ⊕ Option TagState) :=
  if add64 current.1 6 ≤ groupEnd then do
    let tag ← readBytes bytes.data current.1 4
    match ← readU16Le bytes (add64 current.1 4) with
    | none => return .inr none
    | some tagSize =>
      let dataOffset := add64 current.1 6
      let dataEnd := add64 dataOffset tagSize
      if groupEnd < dataEnd then return .inr none
      else if tag = text "ENDT" then return .inr (some current.2)
      else do
        let next ← applyTag bytes tag dataOffset tagSize current.2
        return .inl (dataEnd, next)
  else return .inr (some current.2)

/-- The record of a group (`metallib.cpp:428-435`). -/
def finishGroup (bytes : ByteVector) (sectionOffset : Nat) (state : TagState) :
    Checked KernelRecord :=
  if state.haveOfft && state.haveMdsz then
    let bitcodeOffset := add64 sectionOffset state.bitcodeRel
    if add64 bitcodeOffset state.bitcodeSize ≤ bytes.size then do
      let bitcodeSignatureOk ← looksLikeBitcodeSignature bytes bitcodeOffset
      return { state.kernel with
        bitcodeOffset, bitcodeSize := state.bitcodeSize, bitcodeSignatureOk }
    else return { state.kernel with bitcodeOffset, bitcodeSize := state.bitcodeSize }
  else return state.kernel

/-- One group (`metallib.cpp:331-438`): its record and the cursor after it. -/
def parseGroup (bytes : ByteVector) (sectionOffset listEnd entry cursor : Nat) :
    Checked (Option (KernelRecord × Nat)) :=
  if listEnd < add64 cursor 4 then return none
  else do
    match ← readU32Le bytes cursor with
    | none => return none
    | some groupSize =>
      if groupSize < 4 || listEnd < add64 cursor groupSize then return none
      else do
        let start : TagState := { kernel := { name := text "function_" ++ toText entry } }
        match ← loop (parseTag bytes (add64 cursor groupSize)) (bytes.size + 1)
            (add64 cursor 4, start) with
        | none => return none
        | some state => do
          let record ← finishGroup bytes sectionOffset state
          return some (record, add64 cursor groupSize)

/-- The groups from the `entry`-th on. -/
def parseGroups (bytes : ByteVector) (sectionOffset listEnd : Nat) :
    Nat → Nat → Nat → List KernelRecord → Checked (Option (List KernelRecord))
  | 0, _, _, kernels => return some kernels
  | remaining + 1, entry, cursor, kernels => do
    match ← parseGroup bytes sectionOffset listEnd entry cursor with
    | none => return none
    | some (record, next) =>
      parseGroups bytes sectionOffset listEnd remaining (entry + 1) next (kernels ++ [record])

/-- The function list up to one end candidate (`metallib.cpp:317-443`). -/
def parseFunctionList (bytes : ByteVector) (listOffset sectionOffset listEnd : Nat) :
    Checked (Option (List KernelRecord)) := do
  match ← readU32Le bytes listOffset with
  | none => return none
  | some entryCount =>
    parseGroups bytes sectionOffset listEnd entryCount 0 (add64 listOffset 4) []

/-- The first end candidate whose function list parses. -/
def firstFunctionList (bytes : ByteVector) (listOffset sectionOffset : Nat) :
    List Nat → Checked (Option (List KernelRecord))
  | [] => return none
  | listEnd :: rest => do
    match ← parseFunctionList bytes listOffset sectionOffset listEnd with
    | some kernels => return some kernels
    | none => firstFunctionList bytes listOffset sectionOffset rest

/-- `function_list_end_candidates` (`metallib.cpp:304-315`). -/
def listEndCandidates (bytes : ByteVector) (listOffset listSize : Nat) : List Nat :=
  let base := add64 listOffset listSize
  let withCount := add64 base 4
  (if base ≤ bytes.size then [base] else []) ++
    if withCount ≤ bytes.size && withCount ≠ base then [withCount] else []

/-- `parse_real_metallib` (`metallib.cpp:283-452`); `none` is `false`. -/
def parseRealMetallib (bytes : ByteVector) : Checked (Option (List KernelRecord)) := do
  if bytes.size < metallibHeaderSize then return none
  else if !(← matchesSigAt bytes 0 cumetalMagic) then return none
  else
    let listOffset ← readU64Le bytes 24
    let listSize ← readU64Le bytes 32
    let sectionOffset ← readU64Le bytes 72
    let sectionSize ← readU64Le bytes 80
    match listOffset, listSize, sectionOffset, sectionSize with
    | some listOffset, some listSize, some sectionOffset, some sectionSize =>
      if bytes.size < add64 sectionOffset sectionSize then return none
      else
        firstFunctionList bytes listOffset sectionOffset
          (listEndCandidates bytes listOffset listSize)
    | _, _, _, _ => return none

/-- The digits of a number from `cursor` on; the state is `cursor`, `index` and `have_digit`
    (`metallib.cpp:594-602`). -/
def scanIndex (bytes : ByteVector) (state : Nat × Nat × Bool) :
    Checked ((Nat × Nat × Bool) ⊕ (Nat × Nat × Bool)) :=
  if state.1 < bytes.size then do
    let byte ← readByte bytes.data state.1
    if isDigit byte then
      return .inl (state.1 + 1, (state.2.1 * 10 + (byte.toNat - 48)) % 2 ^ 64, true)
    else return .inr state
  else return .inr state

/-- One position of the search for parameter names (`metallib.cpp:591-610`). -/
def markParameter (bytes : ByteVector) (param : Text) (i : Nat) (seen : List Bool) :
    Checked (List Bool) := do
  let found ← readBytes bytes.data i param.length
  if found ≠ param then return seen
  else
    let (cursor, index, haveDigit) ←
      loop (scanIndex bytes) (bytes.size + 1) (i + param.length, 0, false)
    if haveDigit && index < seen.length && cursor < bytes.size then
      let byte ← readByte bytes.data cursor
      return if byte = 0 || byte = 95 then seen.set index true else seen
    else return seen

/-- The number of parameters if they are the first ones (`metallib.cpp:613-624`). -/
def argumentCount (seen : List Bool) : Option Nat :=
  if seen.head? = some true then
    let count := (seen.takeWhile id).length
    if (seen.drop count).any id then none else some count
  else none

/-- One kernel of `infer_air_reflection_argument_counts` (`metallib.cpp:583-628`). -/
def inferArgumentCount (bytes : ByteVector) (kernel : KernelRecord) : Checked KernelRecord :=
  if kernel.name = [] then return kernel
  else do
    let param := kernel.name ++ text "_param_"
    -- both sizes are below 2^63, so this sum does not wrap
    let seen ← forLoop (fun i => i + param.length < bytes.size) (markParameter bytes param)
      (bytes.size + 1) 0 (List.replicate 32 false)
    match argumentCount seen with
    | some count =>
      return { kernel with
        metadata := kernel.metadata ++ [⟨text "kernel.arg_count", toText count⟩] }
    | none => return kernel

/-- `infer_air_reflection_argument_counts` (`metallib.cpp:577-629`). -/
def inferArgumentCounts (bytes : ByteVector) (parsed : Bool) (kernels : List KernelRecord) :
    Checked (List KernelRecord) :=
  if parsed then return kernels else kernels.mapM (inferArgumentCount bytes)

/-- The section of a kernel with bitcode (`metallib.cpp:459-470`). -/
def kernelSection (bytes : ByteVector) (kernel : KernelRecord) : Option BitcodeSection :=
  if kernel.bitcodeSize = 0 then none
  else some
    { kind := "kernel-bitcode"
      offset := kernel.bitcodeOffset
      size := kernel.bitcodeSize
      reliableSize := add64 kernel.bitcodeOffset kernel.bitcodeSize ≤ bytes.size }

/-- A wrapped signature (`metallib.cpp:477-502`). -/
def wrapperSection (bytes : ByteVector) (i : Nat) : Checked BitcodeSection := do
  let version ← readU32Le bytes (add64 i 4)
  let innerOffset ← readU32Le bytes (add64 i 8)
  let innerSize ← readU32Le bytes (add64 i 12)
  let cpuType ← readU32Le bytes (add64 i 16)
  match version, innerOffset, innerSize, cpuType with
  | some version, some innerOffset, some innerSize, some cpuType =>
    let size := add64 innerOffset innerSize
    return {
      kind := "llvm-bitcode-wrapper"
      offset := i
      size
      reliableSize := add64 i size ≤ bytes.size
      wrapperVersion := version
      wrapperOffset := innerOffset
      wrapperSize := innerSize
      wrapperCpuType := cpuType }
  | _, _, _, _ => return { kind := "llvm-bitcode-wrapper", offset := i, size := 4 }

/-- One position of the first scan (`metallib.cpp:476-507`); the state is
    `bitcode_sections` and `all_sigs`. -/
def scanSignature (bytes : ByteVector) (i : Nat) (state : List BitcodeSection × List Nat) :
    Checked (List BitcodeSection × List Nat) := do
  if ← matchesSigAt bytes i wrappedBitcodeSig then
    let found ← wrapperSection bytes i
    return (state.1 ++ [found], state.2 ++ [i])
  else if ← matchesSigAt bytes i rawBitcodeSig then return (state.1, state.2 ++ [i])
  else return state

/-- One position of the second scan (`metallib.cpp:512-531`). -/
def scanRaw (bytes : ByteVector) (sigs : List Nat) (i : Nat) (sections : List BitcodeSection) :
    Checked (List BitcodeSection) := do
  if ← matchesSigAt bytes i rawBitcodeSig then
    let next := (sigs.find? fun sig => i < sig).getD bytes.size
    return sections ++ [{
      kind := "llvm-bitcode-raw"
      offset := i
      size := if i ≤ next then next - i else 0
      reliableSize := i < next }]
  else return sections

/-- `scan_bitcode_sections` (`metallib.cpp:454-532`). -/
def scanBitcodeSections (bytes : ByteVector) (kernels : List KernelRecord) :
    Checked (List BitcodeSection) :=
  if kernels ≠ [] then return kernels.filterMap (kernelSection bytes)
  else do
    let (sections, sigs) ← forLoop (fun i => add64 i 4 ≤ bytes.size) (scanSignature bytes)
      (bytes.size + 1) 0 ([], [])
    forLoop (fun i => add64 i 4 ≤ bytes.size) (scanRaw bytes (sigs.mergeSort.dedup))
      (bytes.size + 1) 0 sections

/-- One character of a string candidate; the state is `j`, `value` and `seen_alpha`
    (`metallib.cpp:554-563`). -/
def scanStringByte (bytes : ByteVector) (state : Nat × Text × Bool) :
    Checked ((Nat × Text × Bool) ⊕ (Nat × Text × Bool)) :=
  if state.1 < bytes.size && state.2.1.length ≤ 96 then do
    let byte ← readByte bytes.data state.1
    if byte = 0 then return .inr state
    else if !isVisibleAscii byte || !isValidSymbolChar byte then
      return .inr (state.1, [], state.2.2)
    else return .inl (state.1 + 1, state.2.1 ++ [byte], state.2.2 || isAlpha byte)
  else return .inr state

/-- `i > 0 && bytes[i - 1] != 0`. -/
def precededByText (bytes : ByteVector) (i : Nat) : Checked Bool :=
  if 0 < i then do
    let before ← readByte bytes.data (i - 1)
    return before != 0
  else return false

/-- The candidate that starts at `i` and the index of its zero byte (`metallib.cpp:542-573`). -/
def stringCandidateAt (bytes : ByteVector) (i : Nat) : Checked (Option (StringCandidate × Nat)) := do
  let afterText ← precededByText bytes i
  if afterText then return none
  else if !isVisibleAscii (← readByte bytes.data i) then return none
  else
    let (j, value, seenAlpha) ← loop (scanStringByte bytes) (bytes.size + 1) (i, [], false)
    if value.length < 4 || 96 < value.length || !seenAlpha then return none
    else if j < bytes.size then
      if (← readByte bytes.data j) = 0 then return some ({ offset := i, value }, j)
      else return none
    else return none

/-- One position of `scan_string_candidates`. -/
def scanString (bytes : ByteVector) (maxStrings : Nat) (state : Nat × List StringCandidate) :
    Checked ((Nat × List StringCandidate) ⊕ List StringCandidate) :=
  if state.1 < bytes.size && state.2.length < maxStrings then do
    match ← stringCandidateAt bytes state.1 with
    | some (candidate, j) => return .inl (j + 1, state.2 ++ [candidate])
    | none => return .inl (state.1 + 1, state.2)
  else return .inr state.2

/-- `scan_string_candidates` (`metallib.cpp:534-575`). -/
def scanStringCandidates (bytes : ByteVector) (maxStrings : Nat) : Checked (List StringCandidate) :=
  if maxStrings = 0 then return []
  else loop (scanString bytes maxStrings) (bytes.size + 1) (0, [])

/-- The order of the sections (`metallib.cpp:725-731`). -/
def sectionBefore (a b : BitcodeSection) : Bool :=
  if a.offset = b.offset then a.kind ≤ b.kind else a.offset < b.offset

/-- The kernels of the container or of the function list (`metallib.cpp:708-715`). -/
def listKernels (bytes : ByteVector) (cumetal : CumetalContainerInfo) :
    Checked (Option (List KernelRecord)) :=
  if cumetal.parsed then return some cumetal.kernels else parseRealMetallib bytes

/-- `inspect_metallib_bytes` (`metallib.cpp:689-735`). -/
def inspectMetallibBytes (path : String) (bytes : ByteVector) (maxStrings : Nat) :
    Checked MetallibSummary := do
  let found ← readBytes bytes.data 0 (min 4 bytes.size)
  let magic := found ++ List.replicate (4 - found.length) 0
  let word1 ← readU32Le bytes 4
  let word2 ← readU32Le bytes 8
  let cumetal ← parseCumetalContainer bytes
  let listed ← listKernels bytes cumetal
  let kernels ← inferArgumentCounts bytes cumetal.parsed (listed.getD [])
  let sections ← scanBitcodeSections bytes kernels
  let strings ← scanStringCandidates bytes maxStrings
  return {
    path
    fileSize := bytes.size
    magic
    magicAscii := sanitizeMagic magic
    word1Le := word1.getD 0
    word2Le := word2.getD 0
    bitcodeSections := sections.mergeSort sectionBefore
    strings
    functionListParsed := listed.isSome
    functionListParser :=
      if cumetal.parsed then "cumetal-experimental"
      else if listed.isSome then "metallib-function-list" else ""
    kernels
    cumetal }

end CuMetal.Metallib
