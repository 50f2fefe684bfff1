import CuMetal.Common.Metallib

/-!
# Reads of the metallib parsers

The checked reads deliver the words of the file wherever their sums do not wrap, and the
container parser accepts exactly the well-formed containers.
-/

namespace CuMetal.Metallib

open Meets

variable {bytes : ByteVector}

def u32At (bytes : ByteVector) (offset : Nat) : Nat := wordAt bytes.data offset 4

def u64At (bytes : ByteVector) (offset : Nat) : Nat := wordAt bytes.data offset 8

theorem u32At_lt (bytes : ByteVector) (offset : Nat) : u32At bytes offset < 2 ^ 32 :=
  wordAt_lt bytes.data offset 4

theorem u64At_lt (bytes : ByteVector) (offset : Nat) : u64At bytes offset < 2 ^ 64 :=
  wordAt_lt bytes.data offset 8

variable {offset : Nat}

theorem readLe_eq {width : Nat} (fits : offset + width < 2 ^ 64) :
    readLe width bytes offset =
      .ok (if offset + width ≤ bytes.size then some (wordAt bytes.data offset width) else none) := by
  unfold readLe
  rw [add64_of_lt fits]
  by_cases inside : offset + width ≤ bytes.size
  · rw [if_neg (by omega), if_pos inside, readWord_eq inside]
    rfl
  · rw [if_pos (by omega), if_neg inside]
    rfl

theorem readLe_some {width : Nat} (inside : offset + width ≤ bytes.size) :
    readLe width bytes offset = .ok (some (wordAt bytes.data offset width)) := by
  have small := bytes.size_lt
  rw [readLe_eq (by unfold ByteVector.size at inside; omega), if_pos inside]

theorem readU32Le_some (inside : offset + 4 ≤ bytes.size) :
    readU32Le bytes offset = .ok (some (u32At bytes offset)) := readLe_some inside

theorem readU64Le_some (inside : offset + 8 ≤ bytes.size) :
    readU64Le bytes offset = .ok (some (u64At bytes offset)) := readLe_some inside

theorem readU32Le_at {base : Nat} (inside : base + offset + 4 ≤ bytes.size) :
    readU32Le bytes (add64 base offset) = .ok (some (u32At bytes (base + offset))) := by
  have small : bytes.size < 2 ^ 63 := bytes.size_lt
  rw [add64_of_lt (by omega), readU32Le_some inside]

theorem matchesSigAt_eq (sig : Text) (fits : offset + sig.length < 2 ^ 64) :
    matchesSigAt bytes offset sig =
      .ok (decide (offset + sig.length ≤ bytes.size ∧ bytesAt bytes.data offset sig.length = sig)) := by
  unfold matchesSigAt
  rw [add64_of_lt fits]
  by_cases inside : offset + sig.length ≤ bytes.size
  · rw [if_pos inside, readBytes_eq inside]
    by_cases same : bytesAt bytes.data offset sig.length = sig <;> simp [inside, same]
  · rw [if_neg inside]
    simp [inside]
    rfl

theorem returns_looksLikeBitcodeSignature (fits : offset + 4 < 2 ^ 64) :
    Returns (looksLikeBitcodeSignature bytes offset) fun _ => True := by
  refine bind_of_eq (matchesSigAt_eq rawBitcodeSig fits) ?_
  split
  · trivial
  · exact .of_eq (matchesSigAt_eq wrappedBitcodeSig fits) trivial

/-- From an offset on there is a name, one byte at least, with a zero byte after it and
    before the end of its table. -/
def NameAt (bytes : ByteVector) (offset stop : Nat) : Prop :=
  stop ≤ bytes.size ∧ ∃ last, offset < last ∧ last < stop ∧ bytes.data[last]? = some 0 ∧
    ∀ i, offset ≤ i → i < last → ∃ byte, bytes.data[i]? = some byte ∧ isNameByte byte = true

theorem returns_parseCString (offset stop : Nat) :
    Returns (parseCString bytes offset stop) fun name =>
      name.isSome = true ↔ NameAt bytes offset stop := by
  unfold parseCString
  by_cases refused : stop ≤ offset || bytes.size < stop
  · rw [if_pos refused]
    simp only [Bool.or_eq_true, decide_eq_true_eq] at refused
    refine .pure ⟨fun h => by simp at h, ?_⟩
    rintro ⟨inside, last, after, before, -⟩
    omega
  rw [if_neg refused]
  simp only [Bool.or_eq_true, decide_eq_true_eq, not_or, Nat.not_le, Nat.not_lt] at refused
  -- all bytes before `i` belong to a name, and `value` holds them
  refine Meets.loop _ (fun state => offset ≤ state.1 ∧ state.1 ≤ stop ∧
      (state.2 = [] ↔ state.1 = offset) ∧ ∀ i, offset ≤ i → i < state.1 →
        ∃ byte, bytes.data[i]? = some byte ∧ isNameByte byte = true)
    (fun state => stop - state.1) ?_ _ _ ⟨Nat.le_refl _, by omega, by simp, fun i h₁ h₂ => ?_⟩
    (by omega)
  · rintro ⟨i, value⟩ ⟨start, bound, empty, named⟩
    unfold scanCString
    by_cases inside : i < stop
    · have within : i < bytes.data.length := by
        have := refused.2
        unfold ByteVector.size at this
        omega
      simp only [inside, if_true]
      refine bind_of_eq (readByte_eq within) ?_
      have here : bytes.data[i]? = some bytes.data[i] := List.getElem?_eq_getElem within
      generalize bytes.data[i] = byte at here
      split
      · next zero =>
          subst zero
          by_cases none : value = []
          · -- an empty name
            rw [if_pos none]
            refine pure ⟨fun h => by simp at h, ?_⟩
            rintro ⟨-, last, after, -, -, names⟩
            obtain ⟨byte, found, name⟩ := names offset (Nat.le_refl _) after
            obtain rfl := empty.mp none
            rw [here] at found
            cases found
            exact absurd name (by decide)
          · rw [if_neg none]
            refine pure ⟨fun _ => ⟨refused.2, i, ?_, inside, here, named⟩, fun _ => rfl⟩
            have : i ≠ offset := fun same => none (empty.mpr same)
            omega
      · next nonzero =>
          split
          · next name =>
              refine pure ⟨⟨by simp only; omega, by simp only; omega, ?_, ?_⟩, by simp only; omega⟩
              · simp only [List.append_eq_nil_iff, List.cons_ne_self, and_false, false_iff]
                omega
              · intro j low high
                rcases Nat.lt_succ_iff_lt_or_eq.mp high with earlier | rfl
                · exact named j low earlier
                · exact ⟨byte, here, name⟩
          · next other =>
              refine pure ⟨fun h => by simp at h, ?_⟩
              rintro ⟨-, last, after, -, zero, names⟩
              have same : i = last ∨ i < last ∨ last < i := by omega
              rcases same with rfl | less | more
              · rw [here] at zero
                exact absurd (Option.some.inj zero) nonzero
              · obtain ⟨byte', found, name⟩ := names i start less
                rw [here] at found
                cases found
                exact absurd name other
              · obtain ⟨byte', found, name⟩ := named last (by omega) more
                rw [zero] at found
                cases found
                exact absurd name (by decide)
    · simp only [inside, if_false]
      refine pure ⟨fun h => by simp at h, ?_⟩
      rintro ⟨-, last, after, before, zero, names⟩
      obtain ⟨byte, found, name⟩ := named last (by omega) (by simp only; omega)
      rw [zero] at found
      cases found
      exact absurd name (by decide)
  · simp only at h₂
    omega

theorem returns_parseMetadataBlob {size : Nat} (fits : offset + size < 2 ^ 64) :
    Returns (parseMetadataBlob bytes offset size) fun _ => True := by
  unfold parseMetadataBlob
  rw [add64_of_lt fits]
  split
  · trivial
  · next kept =>
      simp only [Bool.or_eq_true, decide_eq_true_eq, not_or, Nat.not_lt] at kept
      exact bind_of_eq (readBytes_eq kept.2) trivial

/-! ## Containers -/

/-- The name and the two ranges of the `i`-th entry of the function table. -/
structure EntryAccepted (bytes : ByteVector) (info : CumetalContainerInfo) (i : Nat) : Prop where
  name : NameAt bytes
    (add32 info.stringTableOffset (u32At bytes (info.functionTableOffset + i * 32)))
    (add32 info.stringTableOffset info.stringTableSize)
  bitcode : info.payloadOffset + u32At bytes (info.functionTableOffset + i * 32 + 4) +
    u32At bytes (info.functionTableOffset + i * 32 + 8) ≤ bytes.size
  metadata : info.payloadOffset + u32At bytes (info.functionTableOffset + i * 32 + 12) +
    u32At bytes (info.functionTableOffset + i * 32 + 16) ≤ bytes.size

/-- The words of a container header. -/
structure HeaderWords (info : CumetalContainerInfo) : Prop where
  functionTableOffset : info.functionTableOffset < 2 ^ 32
  functionCount : info.functionCount < 2 ^ 32
  payloadOffset : info.payloadOffset < 2 ^ 32

variable {info : CumetalContainerInfo}

/-- The parser reads an entry of a table inside of the file, and takes it exactly if it
    is accepted. -/
theorem returns_parseEntry (words : HeaderWords info) {i : Nat} (inTable : i < info.functionCount)
    (table : info.functionTableOffset + info.functionCount * 32 ≤ bytes.size) :
    Returns (parseEntry bytes info (add32 info.stringTableOffset info.stringTableSize) i)
      fun record => record.isSome = true ↔ EntryAccepted bytes info i := by
  have small : bytes.size < 2 ^ 63 := bytes.size_lt
  have payload := words.payloadOffset
  have entry : info.functionTableOffset + i * 32 + 32 ≤ bytes.size := by omega
  have base : add64 info.functionTableOffset (i * cumetalFunctionEntrySize) =
      info.functionTableOffset + i * 32 := add64_of_lt (by unfold cumetalFunctionEntrySize; omega)
  unfold parseEntry
  simp only [base]
  refine bind_of_eq (readU32Le_at (by omega)) ?_
  refine bind_of_eq (readU32Le_at (by omega)) ?_
  refine bind_of_eq (readU32Le_at (by omega)) ?_
  refine bind_of_eq (readU32Le_at (by omega)) ?_
  refine bind_of_eq (readU32Le_at (by omega)) ?_
  have rel := u32At_lt bytes (info.functionTableOffset + i * 32 + 4)
  have size := u32At_lt bytes (info.functionTableOffset + i * 32 + 8)
  have metadataRel := u32At_lt bytes (info.functionTableOffset + i * 32 + 12)
  have metadataSize := u32At_lt bytes (info.functionTableOffset + i * 32 + 16)
  refine (returns_parseCString _ _).bind fun name named => ?_
  cases name with
  | none =>
    refine pure ⟨fun h => by simp at h, fun accepted => ?_⟩
    exact absurd (named.mpr accepted.name) (by simp)
  | some name =>
    have isName := named.mp rfl
    rw [add64_of_lt (show info.payloadOffset + _ < 2 ^ 64 by omega),
      add64_of_lt (show info.payloadOffset + _ < 2 ^ 64 by omega)]
    simp only
    split
    · next outside =>
        simp only [Bool.or_eq_true, decide_eq_true_eq] at outside
        rw [add64_of_lt (by omega), add64_of_lt (by omega)] at outside
        refine pure ⟨fun h => by simp at h, fun accepted => ?_⟩
        have := accepted.bitcode
        have := accepted.metadata
        omega
    · next inside =>
        simp only [Bool.or_eq_true, decide_eq_true_eq, not_or, Nat.not_lt] at inside
        rw [add64_of_lt (by omega), add64_of_lt (by omega)] at inside
        refine bind (returns_looksLikeBitcodeSignature (by omega)) fun _ _ => ?_
        refine bind (returns_parseMetadataBlob (by omega)) fun _ _ => ?_
        exact pure ⟨fun _ => ⟨isName, inside.1, inside.2⟩, fun _ => rfl⟩

theorem returns_parseEntries (words : HeaderWords info)
    (table : info.functionTableOffset + info.functionCount * 32 ≤ bytes.size) :
    ∀ (remaining i : Nat) (kernels : List KernelRecord), i + remaining = info.functionCount →
      (∀ j < i, EntryAccepted bytes info j) →
      Returns (parseEntries bytes info (add32 info.stringTableOffset info.stringTableSize)
          remaining i kernels)
        fun records => records.isSome = true ↔ ∀ j < info.functionCount, EntryAccepted bytes info j := by
  intro remaining
  induction remaining with
  | zero =>
    intro i kernels last accepted
    exact pure ⟨fun _ j bound => accepted j (by omega), fun _ => rfl⟩
  | succ remaining ih =>
    intro i kernels position accepted
    refine (returns_parseEntry words (by omega) table).bind fun record taken => ?_
    cases record with
    | none =>
      refine pure ⟨fun h => by simp at h, fun all => ?_⟩
      exact absurd (taken.mpr (all i (by omega))) (by simp)
    | some record =>
      refine ih (i + 1) _ (by omega) fun j bound => ?_
      rcases Nat.lt_succ_iff_lt_or_eq.mp bound with earlier | rfl
      · exact accepted j earlier
      · exact taken.mp rfl

/-- The header of a container (`metallib.cpp:185-222`) with its words. -/
def headerInfo (bytes : ByteVector) : CumetalContainerInfo :=
  { version := u32At bytes 4
    flags := u32At bytes 36
    functionTableOffset := u32At bytes 12
    functionCount := u32At bytes 16
    stringTableOffset := u32At bytes 20
    stringTableSize := u32At bytes 24
    payloadOffset := u32At bytes 28
    payloadSize := u32At bytes 32 }

/-- A CuMetal container: its header, and all entries of its function table. -/
structure IsContainer (bytes : ByteVector) : Prop where
  size : 40 ≤ bytes.size
  magic : bytesAt bytes.data 0 4 = cumetalMagic
  version : 2 ≤ u32At bytes 4
  total : u32At bytes 8 ≤ bytes.size
  table : u32At bytes 12 + u32At bytes 16 * 32 ≤ bytes.size
  strings : add32 (u32At bytes 20) (u32At bytes 24) ≤ bytes.size
  payload : add32 (u32At bytes 28) (u32At bytes 32) ≤ bytes.size
  entries : ∀ i < u32At bytes 16, EntryAccepted bytes (headerInfo bytes) i

theorem headerWords (bytes : ByteVector) : HeaderWords (headerInfo bytes) :=
  ⟨u32At_lt bytes 12, u32At_lt bytes 16, u32At_lt bytes 28⟩

theorem headerAccepted_iff (bytes : ByteVector) :
    headerAccepted bytes (u32At bytes 8) (headerInfo bytes) = true ↔
      2 ≤ u32At bytes 4 ∧ u32At bytes 8 ≤ bytes.size ∧
        u32At bytes 12 + u32At bytes 16 * 32 ≤ bytes.size ∧
        add32 (u32At bytes 20) (u32At bytes 24) ≤ bytes.size ∧
        add32 (u32At bytes 28) (u32At bytes 32) ≤ bytes.size := by
  have offset := u32At_lt bytes 12
  have count := u32At_lt bytes 16
  have table : add64 (u32At bytes 12) (u32At bytes 16 * cumetalFunctionEntrySize) =
      u32At bytes 12 + u32At bytes 16 * 32 := add64_of_lt (by unfold cumetalFunctionEntrySize; omega)
  simp only [headerAccepted, Bool.and_eq_true, decide_eq_true_eq, and_assoc]
  simp only [headerInfo, table]

/-- The container parser reads inside of the file and parses exactly the containers. -/
theorem returns_parseCumetalContainer (bytes : ByteVector) :
    Returns (parseCumetalContainer bytes) fun info => info.parsed = true ↔ IsContainer bytes := by
  unfold parseCumetalContainer
  split
  · next short =>
      refine pure ⟨fun h => by simp at h, fun container => ?_⟩
      have := container.size
      unfold cumetalHeaderSize at short
      omega
  next long =>
  unfold cumetalHeaderSize at long
  refine bind_of_eq (matchesSigAt_eq cumetalMagic (by decide)) ?_
  split
  · next other =>
      refine pure ⟨fun h => by simp at h, fun container => ?_⟩
      simp only [Bool.not_eq_true', decide_eq_false_iff_not] at other
      have long' : 0 + cumetalMagic.length ≤ bytes.size := by
        have : cumetalMagic.length = 4 := by decide
        omega
      exact absurd ⟨long', container.magic⟩ other
  next same =>
  simp only [Bool.not_eq_true', decide_eq_false_iff_not, not_not] at same
  refine bind_of_eq (readU32Le_some (by omega)) ?_
  refine bind_of_eq (readU32Le_some (by omega)) ?_
  refine bind_of_eq (readU32Le_some (by omega)) ?_
  refine bind_of_eq (readU32Le_some (by omega)) ?_
  refine bind_of_eq (readU32Le_some (by omega)) ?_
  refine bind_of_eq (readU32Le_some (by omega)) ?_
  refine bind_of_eq (readU32Le_some (by omega)) ?_
  refine bind_of_eq (readU32Le_some (by omega)) ?_
  refine bind_of_eq (readU32Le_some (by omega)) ?_
  change Meets False (if headerAccepted bytes (u32At bytes 8) (headerInfo bytes) = true then _
    else _) _
  split
  · next header =>
      obtain ⟨version, total, table, strings, payload⟩ := (headerAccepted_iff bytes).mp header
      refine (returns_parseEntries (headerWords bytes) table _ 0 [] (zero_add _)
        fun j bound => absurd bound (Nat.not_lt_zero j)).bind fun records taken => ?_
      cases records with
      | none =>
        refine pure ⟨fun h => by simp at h, fun container => ?_⟩
        exact absurd (taken.mpr container.entries) (by simp)
      | some kernels =>
        refine pure ⟨fun _ => ?_, fun _ => rfl⟩
        exact ⟨by omega, same.2, version, total, table, strings, payload, taken.mp rfl⟩
  · next header =>
      refine pure ⟨fun h => by simp at h, fun container => ?_⟩
      refine absurd ((headerAccepted_iff bytes).mpr ?_) header
      exact ⟨container.version, container.total, container.table, container.strings,
        container.payload⟩

end CuMetal.Metallib
