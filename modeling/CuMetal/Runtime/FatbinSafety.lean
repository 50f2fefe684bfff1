import CuMetal.Runtime.FatbinElf

/-!
# Extraction is safe

Every range that the extraction checks covers the reads that follow, so it reads inside of
the image only; it ends; and it writes its output exactly when it reports a program.
-/

namespace CuMetal.Fatbin

open List Meets

variable {codecs : Codecs} {memory out : Text}

/-! ## Programs -/

/-- A PTX program as it stands in a source. -/
structure ProgramOf (source ptx : Text) : Prop where
  version : versionText <+: ptx
  entry : entryText <:+: ptx
  noNul : (0 : UInt8) ∉ ptx
  contiguous : ptx <:+: source

/-- A program of the image, or of the destination of one decompression of a part of it that
    fills the destination. -/
def Extracted (codecs : Codecs) (image ptx : Text) : Prop :=
  ProgramOf image ptx ∨ ∃ payload capacity, payload <:+: image ∧
    (((codecs.lz4DecompressSafe payload capacity).1 = (capacity : Int) ∧
        ProgramOf (codecs.lz4DecompressSafe payload capacity).2 ptx) ∨
      ((codecs.zstdDecompress payload capacity).1 = some capacity ∧
        ProgramOf (codecs.zstdDecompress payload capacity).2 ptx))

/-- The output holds an extracted program if one was found, and is unchanged otherwise. -/
def WritesIfFound (codecs : Codecs) (image out : Text) (found : Prop) (written : Text) : Prop :=
  (found → Extracted codecs image written) ∧ (¬ found → written = out)

theorem bytesAt_isInfix (memory : Text) (index count : Nat) :
    bytesAt memory index count <:+: memory := by
  have taken : bytesAt memory index count <+: memory.drop index := take_prefix _ _
  exact taken.isInfix.trans (drop_suffix _ _).isInfix

theorem upToLastBrace_isPrefix (program : Text) : upToLastBrace program <+: program := by
  unfold upToLastBrace
  split
  · exact rdropWhile_prefix _ _
  · exact prefix_refl _

theorem start_isPrefix_upToLastBrace {start program : Text} (begins : start <+: program)
    (noBrace : (125 : UInt8) ∉ start) : start <+: upToLastBrace program := by
  unfold upToLastBrace
  split
  · next brace =>
      obtain ⟨rest, rfl⟩ := begins
      have inRest : (125 : UInt8) ∈ rest := by
        rcases mem_append.mp (contains_iff_mem.mp brace) with early | late
        · exact absurd early noBrace
        · exact late
      have kept : rest.reverse.dropWhile (fun c => decide (c ≠ 125)) ≠ [] := by
        intro empty
        have all := dropWhile_eq_nil_iff.mp empty 125 (mem_reverse.mpr inRest)
        simp at all
      rw [rdropWhile, reverse_append, dropWhile_append,
        if_neg (by simpa using kept), reverse_append, reverse_reverse]
      exact prefix_append _ _
  · exact begins

/-- A candidate that starts like a program and has an entry is a program. -/
theorem programOf_candidateIn {source rest : Text} (begins : versionText <+: rest)
    (inside : rest <:+: source) (entry : entryText <:+: candidateIn rest) :
    ProgramOf source (candidateIn rest) := by
  have upToNul : candidateIn rest <+: rest.takeWhile (· ≠ 0) := upToLastBrace_isPrefix _
  refine ⟨?_, entry, ?_, ?_⟩
  · apply start_isPrefix_upToLastBrace
    · obtain ⟨more, rfl⟩ := begins
      have noNul : versionText.all (fun c => decide (c ≠ 0)) = true := by decide
      rw [takeWhile_append_of_pos (all_eq_true.mp noNul)]
      exact prefix_append _ _
    · decide
  · intro zero
    have := mem_takeWhile_imp (upToNul.subset zero)
    simp at this
  · have start : rest.takeWhile (· ≠ 0) <+: rest := takeWhile_prefix _
    exact (upToNul.trans start).isInfix.trans inside

variable {bytes size data dataSize offset entrySize limit : Nat} {layout : ElfLayout}

theorem returns_extractPtxBytes (small : memory.length < 2 ^ 63)
    (inside : bytes + size ≤ memory.length) (out : Text) :
    Returns (extractPtxBytes memory bytes size out) fun result =>
      (result.1 = true → ProgramOf memory result.2) ∧ (result.1 = false → result.2 = out) := by
  unfold extractPtxBytes
  split
  · exact pure ⟨fun h => by simp at h, fun _ => rfl⟩
  refine Meets.loop _ (fun offset => offset ≤ size) (fun offset => size - offset) ?_ _ _
    (Nat.zero_le _) (by omega)
  intro offset bound
  have eight : versionText.length = 8 := by decide
  unfold searchPtx
  rw [eight, add64_of_lt (by omega)]
  split
  swap
  · exact pure ⟨fun h => by simp at h, fun _ => rfl⟩
  next room =>
  refine bind_of_eq (readBytes_eq (by omega)) ?_
  split
  · exact ⟨by omega, by omega⟩
  next found =>
  rw [not_not] at found
  refine bind_of_eq (readBytes_eq (by omega)) ?_
  simp only
  split
  · exact ⟨by omega, by omega⟩
  split
  · exact ⟨by omega, by omega⟩
  next entry =>
  rw [not_not] at entry
  refine pure ⟨fun _ => ?_, fun h => by simp at h⟩
  refine programOf_candidateIn ?_ (bytesAt_isInfix memory _ _) entry
  rw [← found, bytesAt, bytesAt]
  exact take_prefix_take_left (by omega)

theorem WritesIfFound.foundOr {other : PtxExtractStatus} (different : other ≠ .found)
    {result : Bool × Text} (found : result.1 = true → Extracted codecs memory result.2)
    (missed : result.1 = false → result.2 = out) :
    WritesIfFound codecs memory out ((Fatbin.foundOr other result).1 = .found)
      (Fatbin.foundOr other result).2 := by
  unfold Fatbin.foundOr WritesIfFound
  cases success : result.1 with
  | true => exact ⟨fun _ => found success, fun h => absurd rfl h⟩
  | false => exact ⟨fun h => absurd h different, fun _ => missed success⟩

theorem WritesIfFound.unchanged {found : Prop} (missed : ¬ found) :
    WritesIfFound codecs memory out found out :=
  ⟨fun h => absurd h missed, fun _ => rfl⟩

theorem Codecs.RespectSizes.decompress_length (sizes : codecs.RespectSizes) (lz4 : Bool)
    (compressed : Text) (capacity : Nat) :
    (codecs.decompress lz4 compressed capacity).2.length = capacity := by
  cases lz4 with
  | true => exact sizes.lz4 compressed capacity
  | false => exact sizes.zstd compressed capacity

theorem extracted_of_decompress {lz4 : Bool} {compressed ptx : Text} {capacity : Nat}
    (part : compressed <:+: memory)
    (filled : (codecs.decompress lz4 compressed capacity).1 = some capacity)
    (program : ProgramOf (codecs.decompress lz4 compressed capacity).2 ptx) :
    Extracted codecs memory ptx := by
  refine .inr ⟨compressed, capacity, part, ?_⟩
  cases lz4 with
  | false => exact .inr ⟨filled, program⟩
  | true =>
    refine .inl ⟨?_, program⟩
    change (if (codecs.lz4DecompressSafe compressed capacity).1 < 0 then none
      else some (codecs.lz4DecompressSafe compressed capacity).1.toNat) = some capacity at filled
    split at filled
    · simp at filled
    · have := Option.some.inj filled
      omega

theorem returns_decompressEntry (sizes : codecs.RespectSizes) {payload compressedSize : Nat}
    (inside : payload + compressedSize ≤ memory.length) (uncompressedSize flags : Nat)
    (out : Text) :
    Returns (decompressEntry codecs memory payload compressedSize uncompressedSize flags out)
      fun result => WritesIfFound codecs memory out (result.1 = .found) result.2 := by
  unfold decompressEntry
  split
  · exact pure (.unchanged (by simp))
  next accepted =>
  simp only [Bool.or_eq_true, decide_eq_true_eq, not_or, not_lt] at accepted
  have few : uncompressedSize ≤ maximumModuleBytes := accepted.1.1.2
  unfold maximumModuleBytes at few
  simp only
  split
  · exact pure (.unchanged (by simp))
  refine bind_of_eq (readBytes_eq inside) ?_
  have part := bytesAt_isInfix memory payload compressedSize
  generalize bytesAt memory payload compressedSize = compressed at part
  generalize (flags &&& flagCompressedLz4 != 0) = lz4
  have length := sizes.decompress_length lz4 compressed uncompressedSize
  split
  · exact pure (.unchanged (by simp))
  next filled =>
  rw [not_not] at filled
  refine (returns_extractPtxBytes (by omega) (by omega) out).bind fun result outcome => ?_
  refine pure (.foundOr (by simp) (fun success => ?_) outcome.2)
  exact extracted_of_decompress part filled (outcome.1 success)

theorem returns_extractEntry (sizes : codecs.RespectSizes) (small : memory.length < 2 ^ 63)
    {payload payloadSize compressedSize : Nat} (stored : payload + payloadSize ≤ memory.length)
    (compressed : payload + compressedSize ≤ memory.length) (flags encodedUncompressed : Nat)
    (out : Text) :
    Returns (extractEntry codecs memory payload payloadSize compressedSize flags
        encodedUncompressed out) fun result => ∀ written, result = some written →
      WritesIfFound codecs memory out (written.1 = .found) written.2 := by
  have stop : ∀ status : PtxExtractStatus, status ≠ .found → Returns
      (return some (status, out) : Checked (Option (PtxExtractStatus × Text))) fun result =>
        ∀ written, result = some written →
          WritesIfFound codecs memory out (written.1 = .found) written.2 := by
    intro status missed
    refine pure fun written same => ?_
    cases same
    exact .unchanged missed
  unfold extractEntry
  split
  · split
    · exact stop _ (by decide)
    · refine (returns_decompressEntry sizes compressed _ flags out).bind fun result outcome => ?_
      refine pure fun written same => ?_
      split at same
      · cases same
        exact outcome
      · simp at same
  split
  · exact stop _ (by decide)
  split
  · exact stop _ (by decide)
  refine (returns_extractPtxBytes small stored out).bind fun result outcome => ?_
  refine pure fun written same => ?_
  split at same
  · next success =>
      cases same
      exact ⟨fun _ => .inl (outcome.1 success), fun h => absurd rfl h⟩
  · simp at same

/-- One pass over the entries: it reads inside of the data and ends, or goes on behind the
    header of the entry. -/
theorem returns_nextEntry (sizes : codecs.RespectSizes) (small : memory.length < 2 ^ 63)
 (inside : data + dataSize ≤ memory.length) (out : Text) (cursor : Nat) :
    Returns (nextEntry codecs memory data dataSize out cursor) fun
      | .inl next => cursor + 64 ≤ next ∧ next ≤ dataSize
      | .inr result => WritesIfFound codecs memory out (result.1 = .found) result.2 := by
  unfold nextEntry
  split
  · exact pure (.unchanged (by simp))
  next more =>
  split
  · refine seq (fun _ => True) ?_ fun padding _ => ?_
    · exact bind_of_eq (readBytes_eq (by omega)) trivial
    · refine pure (.unchanged ?_)
      cases padding <;> simp
  next header =>
  unfold minimumEntryHeaderSize at header ⊢
  simp only
  refine bind_of_eq (readWord_eq (by omega)) ?_
  refine bind_of_eq (readWord_eq (by omega)) ?_
  refine bind_of_eq (readWord_eq (by omega)) ?_
  refine bind_of_eq (readWord_eq (by omega)) ?_
  refine bind_of_eq (readWord_eq (by omega)) ?_
  refine bind_of_eq (readWord_eq (by omega)) ?_
  refine bind_of_eq (readWord_eq (by omega)) ?_
  generalize wordAt memory (data + cursor + 4) 4 = headerSize
  generalize wordAt memory (data + cursor + 8) 4 = payloadSize
  generalize wordAt memory (data + cursor + 16) 4 = compressedSize
  split
  · exact pure (.unchanged (by simp))
  split
  · exact pure (.unchanged (by simp))
  next headerFits =>
  simp only [Bool.or_eq_true, decide_eq_true_eq, not_or, not_lt] at headerFits
  rw [add64_of_lt (show cursor + headerSize < 2 ^ 64 by omega)]
  split
  · exact pure (.unchanged (by simp))
  next payloadFits =>
  simp only [Bool.not_eq_true', Bool.not_eq_false, checkedRange, Bool.and_eq_true,
    decide_eq_true_eq] at payloadFits
  have payload := le_max_left payloadSize compressedSize
  have compressed := le_max_right payloadSize compressedSize
  rw [add64_of_lt (show headerSize + max payloadSize compressedSize < 2 ^ 64 by omega),
    add64_of_lt (by omega)]
  have onwards : cursor + 64 ≤ cursor + (headerSize + max payloadSize compressedSize) ∧
      cursor + (headerSize + max payloadSize compressedSize) ≤ dataSize := by omega
  split
  · refine (returns_extractEntry sizes small (by omega) (by omega) _ _ out).bind
      fun result outcome => ?_
    cases result with
    | none => exact onwards
    | some result => exact outcome result rfl
  · exact onwards

theorem returns_readIfRoom {room width : Nat}
    (inside : data + dataSize ≤ memory.length) (fits : offset + width ≤ room) :
    Returns (readIfRoom memory data dataSize room offset width) fun _ => True := by
  unfold readIfRoom
  split
  · exact of_eq (readWord_eq (by omega)) trivial
  · trivial

theorem returns_isStructured (inside : data + dataSize ≤ memory.length) :
    Returns (isStructured memory data dataSize) fun _ => True :=
  (returns_readIfRoom inside (by omega)).bind fun _ _ =>
    (returns_readIfRoom inside (by omega)).bind fun _ _ => trivial

/-- The fat binary at a pointer, with a size that does not lead out of its memory. -/
theorem returns_extractFatbinPtx (sizes : codecs.RespectSizes) (small : memory.length < 2 ^ 63)
    {maxImageBytes : Nat} (inside : bytes + maxImageBytes ≤ memory.length) (out : Text) :
    Returns (extractFatbinPtx codecs memory bytes maxImageBytes out) fun result =>
      WritesIfFound codecs memory out (result.1 = .found) result.2 := by
  unfold extractFatbinPtx
  split
  · exact pure (.unchanged (by simp))
  next long =>
  unfold outerHeaderSize at long ⊢
  refine bind_of_eq (readWord_eq (by omega)) ?_
  split
  · exact pure (.unchanged (by simp))
  refine bind_of_eq (readWord_eq (by omega)) ?_
  refine bind_of_eq (readWord_eq (by omega)) ?_
  refine bind_of_eq (readWord_eq (by omega)) ?_
  generalize wordAt memory (bytes + 6) 2 = headerSize
  generalize wordAt memory (bytes + 8) 8 = encodedSize
  split
  · exact pure (.unchanged (by simp))
  next accepted =>
  simp only [Bool.or_eq_true, decide_eq_true_eq, not_or, not_lt] at accepted
  have dataFits : bytes + headerSize + encodedSize ≤ memory.length := by omega
  simp only
  refine (returns_isStructured dataFits).bind fun structured _ => ?_
  split
  · -- every pass ends the walk or moves the cursor on inside of the data
    refine Meets.loop _ (fun _ => True) (fun cursor => encodedSize - cursor) ?_ _ _ trivial (by omega)
    intro cursor _
    refine (returns_nextEntry sizes small dataFits out cursor).mono fun step outcome => ?_
    cases step with
    | inl next => exact ⟨trivial, by have := outcome.1; have := outcome.2; omega⟩
    | inr result => exact outcome
  · refine (returns_extractPtxBytes small dataFits out).bind fun result outcome => ?_
    exact pure (.foundOr (by simp) (fun success => .inl (outcome.1 success)) outcome.2)

/-! ## ELF images -/

theorem returns_searchFatbin (sizes : codecs.RespectSizes) (small : memory.length < 2 ^ 63)
 (inside : bytes + size ≤ memory.length) (out : Text) {i : Nat} (bound : i ≤ size) :
    Returns (searchFatbin codecs memory bytes size out i) fun
      | .inl next => next = i + 1 ∧ i < size
      | .inr none => True
      | .inr (some result) => WritesIfFound codecs memory out (result.1 = .found) result.2 := by
  unfold searchFatbin outerHeaderSize
  rw [add64_of_lt (by omega)]
  split
  swap
  · trivial
  refine bind_of_eq (readWord_eq (by omega)) ?_
  split
  · exact ⟨rfl, by omega⟩
  refine (returns_extractFatbinPtx sizes small (by omega) out).bind fun result outcome => ?_
  obtain ⟨status, written⟩ := result
  cases status with
  | found => exact ⟨fun _ => outcome.1 rfl, fun h => absurd rfl h⟩
  | malformed | unsupported => exact ⟨fun h => by simp at h, fun _ => outcome.2 (by simp)⟩
  | notFatbin | noPtx => exact ⟨rfl, by omega⟩

theorem returns_extractFromSection (sizes : codecs.RespectSizes) (small : memory.length < 2 ^ 63)
    {view : SectionView} (inside : view.offset + view.size ≤ memory.length) (out : Text) :
    Returns (extractFromSection codecs memory view out) fun result =>
      WritesIfFound codecs memory out (result.1 = .found) result.2 := by
  unfold extractFromSection
  refine seq (fun found => ∀ result, found = some result →
    WritesIfFound codecs memory out (result.1 = .found) result.2) ?_ fun found outcome => ?_
  · refine Meets.loop _ (fun i => i ≤ view.size) (fun i => view.size - i) ?_ _ _ (Nat.zero_le _)
      (by omega)
    intro i bound
    refine (returns_searchFatbin sizes small inside out bound).mono fun step outcome => ?_
    match step, outcome with
    | .inl next, ⟨same, room⟩ => exact ⟨by omega, by omega⟩
    | .inr none, _ => simp
    | .inr (some result), outcome =>
      intro other same
      cases same
      exact outcome
  · cases found with
    | some result => exact outcome result rfl
    | none =>
      refine (returns_extractPtxBytes small inside out).bind fun result program => ?_
      obtain ⟨success, written⟩ := result
      cases success with
      | true => exact ⟨fun _ => .inl (program.1 rfl), fun h => absurd rfl h⟩
      | false => exact ⟨fun h => by simp at h, fun _ => program.2 rfl⟩

/-- The fields that are read of a header and of a section header are inside of them. -/
structure ElfLayout.Fits (layout : ElfLayout) : Prop where
  tableOffset : layout.sectionTableOffsetField + layout.fieldWidth ≤ layout.headerSize
  headerSize : layout.headerSizeField + 2 ≤ layout.headerSize
  entrySize : layout.sectionEntrySizeField + 2 ≤ layout.headerSize
  count : layout.sectionCountField + 2 ≤ layout.headerSize
  index : layout.stringTableIndexField + 2 ≤ layout.headerSize
  sectionOffset : layout.sectionOffsetField + layout.fieldWidth ≤ layout.sectionHeaderSize
  sectionSize : layout.sectionSizeField + layout.fieldWidth ≤ layout.sectionHeaderSize
  sectionLink : layout.sectionLinkField + 4 ≤ layout.sectionHeaderSize
  name : 4 ≤ layout.sectionHeaderSize

theorem fits_of_layoutOf {elfClass : UInt8}
    (known : layoutOf elfClass = some layout) : layout.Fits := by
  have both : elf32Layout.Fits ∧ elf64Layout.Fits := by
    constructor <;> constructor <;> decide
  unfold layoutOf at known
  split at known
  · exact Option.some.inj known ▸ both.1
  · split at known
    · exact Option.some.inj known ▸ both.2
    · simp at known

theorem returns_readSection (fits : layout.Fits)
    (small : memory.length < 2 ^ 63) {tableOffset index : Nat}
    (large : layout.sectionHeaderSize ≤ entrySize)
    (inside : tableOffset + entrySize * index + entrySize ≤ memory.length) :
    Returns (readSection memory tableOffset entrySize index layout) fun _ => True := by
  have base : add64 tableOffset (entrySize * index % 2 ^ 64) = tableOffset + entrySize * index := by
    rw [Nat.mod_eq_of_lt (by omega), add64_of_lt (by omega)]
  have offset := fits.sectionOffset
  have size := fits.sectionSize
  have link := fits.sectionLink
  have name := fits.name
  unfold readSection
  rw [base]
  refine bind_of_eq (readWord_eq (by omega)) ?_
  refine bind_of_eq (readWord_eq (by omega)) ?_
  refine bind_of_eq (readWord_eq (by omega)) ?_
  exact bind_of_eq (readWord_eq (by omega)) trivial

/-- The sections and the names of a table are inside of the image. -/
structure SectionTable.Inside (table : SectionTable) (maxImageBytes : Nat) : Prop where
  fits : table.layout.Fits
  large : table.layout.sectionHeaderSize ≤ table.entrySize
  sections : table.offset + table.entrySize * table.count ≤ maxImageBytes
  names : table.names + table.namesSize ≤ maxImageBytes

theorem le_of_checkedRange (checked : checkedRange offset size limit = true) :
    offset + size ≤ limit := by
  simp only [checkedRange, Bool.and_eq_true, decide_eq_true_eq] at checked
  omega

theorem le_of_checkedTableRange {entryCount : Nat}
    (checked : checkedTableRange offset entrySize entryCount limit = true) :
    offset + entrySize * entryCount ≤ limit := by
  unfold checkedTableRange at checked
  split at checked
  · simp at checked
  · next accepted =>
      simp only [Bool.or_eq_true, decide_eq_true_eq, not_or, not_lt] at accepted
      have few : entrySize * entryCount ≤ limit - offset := by
        rw [mul_comm]
        exact (Nat.le_div_iff_mul_le (Nat.pos_of_ne_zero accepted.1.2)).mp (of_decide_eq_true checked)
      omega

theorem section_inside {tableOffset index count : Nat}
    (sections : tableOffset + entrySize * count ≤ limit) (bound : index < count) :
    tableOffset + entrySize * index + entrySize ≤ limit := by
  have next : entrySize * index + entrySize ≤ entrySize * count := by
    rw [← Nat.mul_succ]
    exact Nat.mul_le_mul_left _ bound
  omega

theorem returns_readSectionTable (small : memory.length < 2 ^ 63)
    (fits : layout.Fits) (long : layout.headerSize ≤ memory.length) :
    Returns (readSectionTable memory memory.length layout) fun table =>
      ∀ found, table = some found → found.Inside memory.length := by
  have refused : Returns (return none : Checked (Option SectionTable)) fun table =>
      ∀ found, table = some found → found.Inside memory.length := pure (by simp)
  have tableOffset := fits.tableOffset
  have headerSize := fits.headerSize
  have entrySize := fits.entrySize
  have count := fits.count
  have index := fits.index
  unfold readSectionTable
  refine bind_of_eq (readWord_eq (by omega)) ?_
  refine bind_of_eq (readWord_eq (by omega)) ?_
  refine bind_of_eq (readWord_eq (by omega)) ?_
  refine bind_of_eq (readWord_eq (by omega)) ?_
  refine bind_of_eq (readWord_eq (by omega)) ?_
  split
  · exact refused
  next accepted =>
  simp only [Bool.or_eq_true, decide_eq_true_eq, not_or, not_lt, Bool.not_eq_true',
    Bool.not_eq_false] at accepted
  have first := le_of_checkedRange accepted.2
  refine (returns_readSection fits small accepted.1.2 (by omega)).bind fun sectionZero _ => ?_
  simp only
  split
  · exact refused
  next indexed =>
  simp only [Bool.or_eq_true, decide_eq_true_eq, not_or, not_le, Bool.not_eq_true',
    Bool.not_eq_false] at indexed
  have sections := le_of_checkedTableRange indexed.2
  refine (returns_readSection fits small accepted.1.2
    (section_inside sections indexed.1.2)).bind fun stringTable _ => ?_
  split
  · exact refused
  next names =>
  simp only [Bool.not_eq_true', Bool.not_eq_false] at names
  refine pure fun found same => ?_
  cases same
  exact ⟨fits, accepted.1.2, sections, le_of_checkedRange names⟩

theorem returns_nextSection (sizes : codecs.RespectSizes) (small : memory.length < 2 ^ 63)
    {table : SectionTable} (inside : table.Inside memory.length) (out : Text) (index : Nat) :
    Returns (nextSection codecs memory memory.length table out index) fun
      | .inl next => next = index + 1 ∧ index < table.count
      | .inr result => WritesIfFound codecs memory out (result.1 = .found) result.2 := by
  have names := inside.names
  unfold nextSection
  split
  swap
  · exact pure (.unchanged (by simp))
  next bound =>
  refine (returns_readSection inside.fits small inside.large
    (section_inside inside.sections bound)).bind fun view _ => ?_
  split
  · exact pure (.unchanged (by simp))
  next accepted =>
  simp only [Bool.or_eq_true, decide_eq_true_eq, not_or, not_le, Bool.not_eq_true',
    Bool.not_eq_false] at accepted
  have view := le_of_checkedRange accepted.2
  refine bind_of_eq (readBytes_eq (by omega)) ?_
  split
  · exact pure (.unchanged (by simp))
  split
  · exact ⟨rfl, bound⟩
  refine (returns_extractFromSection sizes small view out).bind fun result outcome => ?_
  split
  · exact outcome
  · exact ⟨rfl, bound⟩

theorem returns_extractElfPtx (sizes : codecs.RespectSizes) (small : memory.length < 2 ^ 63)
    (out : Text) :
    Returns (extractElfPtx codecs memory memory.length out) fun result =>
      WritesIfFound codecs memory out (result.1 = .found) result.2 := by
  unfold extractElfPtx
  split
  · exact pure (.unchanged (by simp))
  refine bind_of_eq (readBytes_eq (by omega)) ?_
  split
  · exact pure (.unchanged (by simp))
  split
  · exact pure (.unchanged (by simp))
  refine bind_of_eq (readByte_eq (by omega)) ?_
  refine bind_of_eq (readByte_eq (by omega)) ?_
  split
  · exact pure (.unchanged (by simp))
  refine bind_of_eq (readByte_eq (by omega)) ?_
  split
  · exact pure (.unchanged (by simp))
  next layout known =>
  split
  · exact pure (.unchanged (by simp))
  next long =>
  have fits := fits_of_layoutOf known
  refine (returns_readSectionTable small fits (not_lt.mp long)).bind fun table inside => ?_
  cases table with
  | none => exact pure (.unchanged (by simp))
  | some table =>
    have within := inside table rfl
    -- every pass ends the walk or goes on with the next of at most `memory.length` sections
    have few : table.count ≤ memory.length := by
      have sections := within.sections
      have name := within.fits.name
      have large := within.large
      have : table.count ≤ table.entrySize * table.count := Nat.le_mul_of_pos_left _ (by omega)
      omega
    refine Meets.loop _ (fun _ => True) (fun index => table.count - index) ?_ _ _ trivial
      (by omega)
    intro index _
    refine (returns_nextSection sizes small within out index).mono fun step outcome => ?_
    cases step with
    | inl next => exact ⟨trivial, by have := outcome.1; have := outcome.2; omega⟩
    | inr result => exact outcome

/-- The extraction of an image with its own size: it delivers a status, so it ended and read
    inside of the image only, and it wrote an extracted program exactly if it found one. -/
theorem extraction_safe (codecs : Codecs) (sizes : codecs.RespectSizes) (image : ByteVector)
    (out : Text) :
    (∃ status written, extractElfPtx codecs image.data image.size out = .ok (status, written) ∧
      WritesIfFound codecs image.data out (status = .found) written) ∧
    (∃ status written,
      extractFatbinPtx codecs image.data 0 image.size out = .ok (status, written) ∧
      WritesIfFound codecs image.data out (status = .found) written) := by
  constructor
  · obtain ⟨result, delivers, outcome⟩ :=
      returns_iff.mp (returns_extractElfPtx sizes image.size_lt out)
    exact ⟨result.1, result.2, delivers, outcome⟩
  · obtain ⟨result, delivers, outcome⟩ := returns_iff.mp
      (returns_extractFatbinPtx sizes image.size_lt (le_of_eq (zero_add _)) out)
    exact ⟨result.1, result.2, delivers, outcome⟩

/-- LZ4 on blocks that are one run of 15 to 269 literals; everything else is an error here. -/
def literalCodecs : Codecs where
  lz4DecompressSafe payload capacity :=
    match payload with
    | 0xF0 :: more :: literals =>
      if more < 255 ∧ literals.length = 15 + more.toNat ∧ literals.length ≤ capacity then
        (literals.length, literals ++ List.replicate (capacity - literals.length) 0)
      else (-1, List.replicate capacity 0)
    | _ => (-1, List.replicate capacity 0)
  zstdDecompress _ capacity := (none, List.replicate capacity 0)

theorem literalCodecs_respectSizes : literalCodecs.RespectSizes := by
  constructor
  · intro payload capacity
    unfold literalCodecs
    simp only
    split
    · split
      · next fits =>
          have room := fits.2.2
          simp only [length_append, length_replicate]
          omega
      · simp
    · simp
  · intro payload capacity
    exact length_replicate

/-- A fat binary with one LZ4 entry that holds `.version`, a line feed and `.entry`. -/
def lz4Image : ByteVector :=
  { data := [0x50, 0xED, 0x55, 0xBA, 1, 0, 16, 0, 81, 0, 0, 0, 0, 0, 0, 0] ++
      [1, 0, 1, 1, 64, 0, 0, 0, 17, 0, 0, 0, 0, 0, 0, 0, 17, 0, 0, 0] ++ List.replicate 20 0 ++
      [0, 0x20, 0, 0, 0, 0, 0, 0] ++ List.replicate 8 0 ++ [15, 0, 0, 0, 0, 0, 0, 0] ++
      [0xF0, 0] ++ text ".version\n.entry"
    size_lt := by decide }

theorem extraction_safe_lz4 :
    (∃ status written,
      extractElfPtx literalCodecs lz4Image.data lz4Image.size [] = .ok (status, written) ∧
      WritesIfFound literalCodecs lz4Image.data [] (status = .found) written) ∧
    (∃ status written,
      extractFatbinPtx literalCodecs lz4Image.data 0 lz4Image.size [] = .ok (status, written) ∧
      WritesIfFound literalCodecs lz4Image.data [] (status = .found) written) :=
  extraction_safe literalCodecs literalCodecs_respectSizes lz4Image []

example : extractFatbinPtx literalCodecs lz4Image.data 0 lz4Image.size [] =
    .ok (.found, text ".version\n.entry") := by decide +kernel

end CuMetal.Fatbin
