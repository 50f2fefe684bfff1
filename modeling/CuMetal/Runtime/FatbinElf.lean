import CuMetal.Runtime.FatbinPtx

/-!
# PTX in ELF images

`runtime/common/fatbin_elf.cpp`.
-/

namespace CuMetal.Fatbin

/-- `ElfPtxStatus` (`fatbin_elf.h:8-14`). -/
inductive ElfPtxStatus
  | notElf | found | noPtx | malformed | unsupported
  deriving DecidableEq, Repr

/-- `SectionView` (`fatbin_elf.cpp:17-22`). -/
structure SectionView where
  nameOffset : Nat := 0
  link : Nat := 0
  offset : Nat := 0
  size : Nat := 0

/-- `ElfLayout` (`fatbin_elf.cpp:24-36`). -/
structure ElfLayout where
  headerSize : Nat
  sectionHeaderSize : Nat
  sectionTableOffsetField : Nat
  headerSizeField : Nat
  sectionEntrySizeField : Nat
  sectionCountField : Nat
  stringTableIndexField : Nat
  sectionOffsetField : Nat
  sectionSizeField : Nat
  sectionLinkField : Nat
  fieldsAre64Bit : Bool

/-- The layout of ELF32 images (`fatbin_elf.cpp:143-155`). -/
def elf32Layout : ElfLayout where
  headerSize := 52
  sectionHeaderSize := 40
  sectionTableOffsetField := 32
  headerSizeField := 40
  sectionEntrySizeField := 46
  sectionCountField := 48
  stringTableIndexField := 50
  sectionOffsetField := 16
  sectionSizeField := 20
  sectionLinkField := 24
  fieldsAre64Bit := false

/-- The layout of ELF64 images (`fatbin_elf.cpp:157-169`). -/
def elf64Layout : ElfLayout where
  headerSize := 64
  sectionHeaderSize := 64
  sectionTableOffsetField := 40
  headerSizeField := 52
  sectionEntrySizeField := 58
  sectionCountField := 60
  stringTableIndexField := 62
  sectionOffsetField := 24
  sectionSizeField := 32
  sectionLinkField := 40
  fieldsAre64Bit := true

/-- The bytes of an address, an offset or a size. -/
def ElfLayout.fieldWidth (layout : ElfLayout) : Nat := if layout.fieldsAre64Bit then 8 else 4

/-- `checked_table_range` (`fatbin_elf.cpp:51-60`). -/
def checkedTableRange (offset entrySize entryCount limit : Nat) : Bool :=
  if entryCount = 0 || entrySize = 0 || limit < offset then false
  else entryCount ≤ (limit - offset) / entrySize

/-- `read_section` (`fatbin_elf.cpp:62-85`); the address is a 64-bit word. -/
def readSection (memory : Text) (tableOffset entrySize index : Nat) (layout : ElfLayout) :
    Checked SectionView := do
  let base := add64 tableOffset (entrySize * index % 2 ^ 64)
  let nameOffset ← readWord memory base 4
  let offset ← readWord memory (base + layout.sectionOffsetField) layout.fieldWidth
  let size ← readWord memory (base + layout.sectionSizeField) layout.fieldWidth
  let link ← readWord memory (base + layout.sectionLinkField) 4
  return { nameOffset, link, offset, size }

/-- `is_ptx_section_name` (`fatbin_elf.cpp:87-90`). -/
def isPtxSectionName (name : Text) : Bool :=
  name == text ".nv_fatbin" || name == text ".nvFatBinSegment" || name == text ".ptx" ||
    name == text ".nv_ptx"

/-- The result for a fat binary in a section; `none` goes on with the search
    (`fatbin_elf.cpp:106-112`). -/
def sectionResult : PtxExtractStatus × Text → Option (ElfPtxStatus × Text)
  | (.found, out) => some (.found, out)
  | (.malformed, out) => some (.malformed, out)
  | (.unsupported, out) => some (.unsupported, out)
  | (.notFatbin, _) | (.noPtx, _) => none

/-- One position of the search for fat binaries (`fatbin_elf.cpp:99-113`). -/
def searchFatbin (codecs : Codecs) (memory : Text) (bytes size : Nat) (out : Text) (i : Nat) :
    Checked (Nat ⊕ Option (ElfPtxStatus × Text)) :=
  if add64 i outerHeaderSize ≤ size then do
    let magic ← readWord memory (bytes + i) 4
    if magic ≠ fatbinMagic then return .inl (i + 1)
    else
      match sectionResult (← extractFatbinPtx codecs memory (bytes + i) (size - i) out) with
      | some result => return .inr (some result)
      | none => return .inl (i + 1)
  else return .inr none

/-- `extract_from_section` (`fatbin_elf.cpp:92-118`). -/
def extractFromSection (codecs : Codecs) (memory : Text) (view : SectionView) (out : Text) :
    Checked (ElfPtxStatus × Text) := do
  match ← loop (searchFatbin codecs memory view.offset view.size out) (view.size + 1) 0 with
  | some result => return result
  | none =>
    let (found, out) ← extractPtxBytes memory view.offset view.size out
    return (if found then .found else .noPtx, out)

/-- What the loop over the sections needs of the header. -/
structure SectionTable where
  layout : ElfLayout
  offset : Nat
  entrySize : Nat
  count : Nat
  names : Nat
  namesSize : Nat

/-- One section (`fatbin_elf.cpp:230-254`). -/
def nextSection (codecs : Codecs) (memory : Text) (maxImageBytes : Nat) (table : SectionTable)
    (out : Text) (index : Nat) : Checked (Nat ⊕ (ElfPtxStatus × Text)) :=
  if index < table.count then do
    let view ← readSection memory table.offset table.entrySize index table.layout
    if table.namesSize ≤ view.nameOffset || !checkedRange view.offset view.size maxImageBytes then
      return .inr (.malformed, out)
    else
      let rest ← readBytes memory (table.names + view.nameOffset) (table.namesSize - view.nameOffset)
      if ¬ rest.contains 0 then return .inr (.malformed, out)
      else if !isPtxSectionName (rest.takeWhile (· ≠ 0)) then return .inl (index + 1)
      else
        let result ← extractFromSection codecs memory view out
        if result.1 ≠ .noPtx then return .inr result else return .inl (index + 1)
  else return .inr (.noPtx, out)

/-- `section_count`: the first section header holds a count that the header cannot. -/
def sectionCountOf (encodedCount : Nat) (sectionZero : SectionView) : Nat :=
  if encodedCount = 0 then sectionZero.size else encodedCount

/-- `string_table_index`, with the escape `SHN_XINDEX`. -/
def stringTableIndexOf (encodedIndex : Nat) (sectionZero : SectionView) : Nat :=
  if encodedIndex = 0xffff then sectionZero.link else encodedIndex

/-- The section table of an image (`fatbin_elf.cpp:177-228`); `none` is malformed. -/
def readSectionTable (memory : Text) (maxImageBytes : Nat) (layout : ElfLayout) :
    Checked (Option SectionTable) := do
  let tableOffset ← readWord memory layout.sectionTableOffsetField layout.fieldWidth
  let elfHeaderSize ← readWord memory layout.headerSizeField 2
  let entrySize ← readWord memory layout.sectionEntrySizeField 2
  let encodedCount ← readWord memory layout.sectionCountField 2
  let encodedIndex ← readWord memory layout.stringTableIndexField 2
  if elfHeaderSize < layout.headerSize || tableOffset < elfHeaderSize ||
      entrySize < layout.sectionHeaderSize || !checkedRange tableOffset entrySize maxImageBytes then
    return none
  else
    let sectionZero ← readSection memory tableOffset entrySize 0 layout
    let count := sectionCountOf encodedCount sectionZero
    let index := stringTableIndexOf encodedIndex sectionZero
    if index = 0 || count ≤ index || !checkedTableRange tableOffset entrySize count maxImageBytes then
      return none
    else
      let stringTable ← readSection memory tableOffset entrySize index layout
      if !checkedRange stringTable.offset stringTable.size maxImageBytes then return none
      else
        let table : SectionTable :=
          { layout, offset := tableOffset, entrySize, count,
            names := stringTable.offset, namesSize := stringTable.size }
        return some table

def layoutOf (elfClass : UInt8) : Option ElfLayout :=
  if elfClass = 1 then some elf32Layout else if elfClass = 2 then some elf64Layout else none

/-- `extract_elf_ptx` (`fatbin_elf.cpp:122-257`) for pointers that are not null. -/
def extractElfPtx (codecs : Codecs) (memory : Text) (maxImageBytes : Nat) (out : Text) :
    Checked (ElfPtxStatus × Text) :=
  if maxImageBytes < 4 then return (.notElf, out)
  else do
    let ident ← readBytes memory 0 4
    if ident ≠ [0x7f, 0x45, 0x4c, 0x46] then return (.notElf, out)
    else if maxImageBytes < 7 then return (.malformed, out)
    else
      let encoding ← readByte memory 5
      let version ← readByte memory 6
      if encoding ≠ 1 || version ≠ 1 then return (.unsupported, out)
      else
        match layoutOf (← readByte memory 4) with
        | none => return (.unsupported, out)
        | some layout =>
          if maxImageBytes < layout.headerSize then return (.malformed, out)
          else
            match ← readSectionTable memory maxImageBytes layout with
            | none => return (.malformed, out)
            | some table =>
              loop (nextSection codecs memory maxImageBytes table out) (maxImageBytes + 1) 0

end CuMetal.Fatbin
