import CuMetal.Common.MetallibContainer

/-!
# Which reads the inspection makes

The inspection of a file reads inside of it and ends, unless its function list starts in
the last four addresses or lists a kernel whose bitcode does: there the check of a
signature or of a word wraps.
-/

namespace CuMetal.Metallib

open Meets ByteVector List Option

variable {bytes : ByteVector}

variable {offset size cursor listEnd listOffset i : Nat}

theorem returns_parseCStringFromBlob (inside : offset + size ≤ bytes.size) :
    Returns (parseCStringFromBlob bytes offset size) fun _ => True := by
  have small : bytes.size < 2 ^ 63 := bytes.size_lt
  unfold parseCStringFromBlob
  rw [add64_of_lt (by omega)]
  split
  · trivial
  · refine seq (fun stop => stop ≤ offset + size) ?_ fun stop bound => ?_
    · refine Meets.loop _ (fun stop => stop ≤ offset + size) id ?_ _ _ (Nat.le_refl _)
        (by simp only [id]; omega)
      intro stop bound
      unfold trimZeros
      split
      · refine bind_of_eq (readByte_eq (by unfold ByteVector.size at inside; omega)) ?_
        split
        · exact ⟨by omega, by simp only [id]; omega⟩
        · exact bound
      · exact bound
    · split
      · trivial
      · exact bind_of_eq (readBytes_eq (by unfold ByteVector.size at inside; omega)) trivial

theorem returns_toHexPrefix (maxBytes : Nat) (inside : offset + size ≤ bytes.size) :
    Returns (toHexPrefix bytes offset size maxBytes) fun _ => True := by
  unfold toHexPrefix
  refine bind_of_eq (readBytes_eq ?_) trivial
  have := Nat.min_le_left size maxBytes
  unfold ByteVector.size at inside
  omega

/-! ## Groups of tags -/

def tagAt (bytes : ByteVector) (cursor : Nat) : Text := bytesAt bytes.data cursor 4

def tagEnd (bytes : ByteVector) (cursor : Nat) : Nat :=
  cursor + 6 + wordAt bytes.data (cursor + 4) 2

/-- The bitcode offset and the bitcode size that the tags of a group give. -/
structure BitcodeTags where
  offset : Option Nat := none
  size : Option Nat := none

/-- A tag changes them if its words are in the file. -/
def BitcodeTags.after (bytes : ByteVector) (cursor : Nat) (tags : BitcodeTags) : BitcodeTags :=
  if tagAt bytes cursor = text "MDSZ" ∧ cursor + 14 ≤ bytes.size then
    { tags with size := some (u64At bytes (cursor + 6)) }
  else if tagAt bytes cursor = text "OFFT" ∧ cursor + 30 ≤ bytes.size then
    { tags with offset := some (u64At bytes (cursor + 22)) }
  else tags

/-- The tags from a cursor on fit into the group, up to `ENDT` or its last bytes, and
    leave these values. -/
inductive TagsLeave (bytes : ByteVector) (groupEnd : Nat) :
    Nat → BitcodeTags → BitcodeTags → Prop
  | short {cursor : Nat} {tags : BitcodeTags} : groupEnd < cursor + 6 →
      TagsLeave bytes groupEnd cursor tags tags
  | last {cursor : Nat} {tags : BitcodeTags} : tagEnd bytes cursor ≤ groupEnd →
      tagAt bytes cursor = text "ENDT" → TagsLeave bytes groupEnd cursor tags tags
  | tag {cursor : Nat} {tags left : BitcodeTags} : tagEnd bytes cursor ≤ groupEnd →
      tagAt bytes cursor ≠ text "ENDT" →
      TagsLeave bytes groupEnd (tagEnd bytes cursor) (tags.after bytes cursor) left →
      TagsLeave bytes groupEnd cursor tags left

def TagState.tags (state : TagState) : BitcodeTags :=
  { offset := if state.haveOfft then some state.bitcodeRel else none
    size := if state.haveMdsz then some state.bitcodeSize else none }

theorem BitcodeTags.after_mdsz (tags : BitcodeTags) (mdsz : tagAt bytes cursor = text "MDSZ") :
    tags.after bytes cursor =
      if cursor + 14 ≤ bytes.size then { tags with size := some (u64At bytes (cursor + 6)) }
      else tags := by
  have differ : text "MDSZ" ≠ text "OFFT" := by decide
  simp [after, mdsz, differ]

theorem BitcodeTags.after_offt (tags : BitcodeTags) (offt : tagAt bytes cursor = text "OFFT") :
    tags.after bytes cursor =
      if cursor + 30 ≤ bytes.size then { tags with offset := some (u64At bytes (cursor + 22)) }
      else tags := by
  have differ : text "OFFT" ≠ text "MDSZ" := by decide
  simp [after, offt, differ]

theorem BitcodeTags.after_other (tags : BitcodeTags)
    (mdsz : tagAt bytes cursor ≠ text "MDSZ") (offt : tagAt bytes cursor ≠ text "OFFT") :
    tags.after bytes cursor = tags := by
  simp [after, mdsz, offt]

theorem returns_applyTag (state : TagState) (inside : tagEnd bytes cursor ≤ bytes.size) :
    Returns (applyTag bytes (tagAt bytes cursor) (cursor + 6) (wordAt bytes.data (cursor + 4) 2) state)
      fun next => next.tags = state.tags.after bytes cursor := by
  have small : bytes.size < 2 ^ 63 := bytes.size_lt
  unfold tagEnd at inside
  generalize wordAt bytes.data (cursor + 4) 2 = size at inside ⊢
  unfold applyTag
  by_cases mdsz : tagAt bytes cursor = text "MDSZ"
  · have differ : text "MDSZ" ≠ text "NAME" := by decide
    rw [state.tags.after_mdsz mdsz, mdsz, if_neg differ, if_pos rfl]
    refine bind_of_eq (readLe_eq (by omega)) ?_
    by_cases fits : cursor + 6 + 8 ≤ bytes.size
    · rw [if_pos fits, if_pos (by omega)]
      rfl
    · rw [if_neg fits, if_neg (by omega)]
      rfl
  by_cases offt : tagAt bytes cursor = text "OFFT"
  · have differ : text "OFFT" ≠ text "NAME" ∧ text "OFFT" ≠ text "MDSZ" := by decide
    rw [state.tags.after_offt offt, offt, if_neg differ.1, if_neg differ.2, if_pos rfl,
      add64_of_lt (by omega), add64_of_lt (by omega)]
    refine bind_of_eq (readLe_eq (by omega)) ?_
    refine bind_of_eq (readLe_eq (by omega)) ?_
    refine bind_of_eq (readLe_eq (by omega)) ?_
    by_cases fits : cursor + 30 ≤ bytes.size
    · rw [if_pos (show cursor + 6 + 8 ≤ bytes.size by omega),
        if_pos (show cursor + 6 + 8 + 8 ≤ bytes.size by omega),
        if_pos (show cursor + 6 + 16 + 8 ≤ bytes.size by omega), if_pos fits]
      rfl
    · rw [if_neg (show ¬ cursor + 6 + 16 + 8 ≤ bytes.size by omega), if_neg fits]
      split
      · next h => simp at h
      · rfl
  rw [state.tags.after_other mdsz offt, if_neg mdsz, if_neg offt]
  split
  · refine (returns_parseCStringFromBlob inside).bind fun value _ => ?_
    cases value <;> rfl
  split
  · next type =>
      simp only [Bool.and_eq_true, decide_eq_true_eq] at type
      exact bind_of_eq (readByte_eq (by unfold ByteVector.size at inside; omega)) rfl
  split
  · next vers =>
      simp only [Bool.and_eq_true, decide_eq_true_eq] at vers
      refine bind_of_eq (readLe_some (by rw [add64_of_lt (by omega)]; omega)) ?_
      refine bind_of_eq (readLe_some (by rw [add64_of_lt (by omega)]; omega)) ?_
      refine bind_of_eq (readLe_some (by rw [add64_of_lt (by omega)]; omega)) ?_
      refine bind_of_eq (readLe_some (by rw [add64_of_lt (by omega)]; omega)) ?_
      rfl
  split
  · exact (returns_toHexPrefix 8 inside).bind fun _ _ => rfl
  · rfl

theorem tagsLeave_short {groupEnd : Nat} {tags left : BitcodeTags}
    (short : groupEnd < cursor + 6) : TagsLeave bytes groupEnd cursor tags left ↔ left = tags := by
  constructor
  · intro leave
    cases leave with
    | short => rfl
    | last ends => unfold tagEnd at ends; omega
    | tag ends => unfold tagEnd at ends; omega
  · rintro rfl
    exact .short short

/-- The loop over the tags of a group ends and tells what they leave, if they fit. -/
theorem returns_parseTags {groupEnd : Nat} (start : TagState) (inside : groupEnd ≤ bytes.size)
    (before : cursor ≤ groupEnd) :
    Returns (loop (parseTag bytes groupEnd) (bytes.size + 1) (cursor, start)) fun state =>
      ∀ left, TagsLeave bytes groupEnd cursor start.tags left ↔ state.map TagState.tags = some left := by
  have small : bytes.size < 2 ^ 63 := bytes.size_lt
  -- what the tags leave does not change from tag to tag
  refine Meets.loop _ (fun current => current.1 ≤ groupEnd ∧ ∀ left,
      TagsLeave bytes groupEnd cursor start.tags left ↔
        TagsLeave bytes groupEnd current.1 current.2.tags left)
    (fun current => groupEnd - current.1) ?_ _ _ ⟨before, fun left => Iff.rfl⟩ (by simp only; omega)
  rintro ⟨i, state⟩ ⟨bound, same⟩
  simp only at bound same
  unfold parseTag
  simp only [add64_of_lt (show i + 6 < 2 ^ 64 by omega), add64_of_lt (show i + 4 < 2 ^ 64 by omega)]
  by_cases room : i + 6 ≤ groupEnd
  swap
  · rw [if_neg room]
    refine pure fun left => ?_
    rw [same, tagsLeave_short (by omega), map_some, some.injEq]
    exact eq_comm
  rw [if_pos room]
  have size := wordAt_lt bytes.data (i + 4) 2
  refine bind_of_eq (readBytes_eq (by unfold ByteVector.size at inside; omega)) ?_
  refine bind_of_eq (readLe_some (by omega)) ?_
  simp only [add64_of_lt (show i + 6 + wordAt bytes.data (i + 4) 2 < 2 ^ 64 by omega)]
  change Meets False (if groupEnd < tagEnd bytes i then _
    else if tagAt bytes i = text "ENDT" then _ else _) _
  split
  · next long =>
      refine pure fun left => ?_
      rw [same, map_none]
      constructor
      · intro leave
        cases leave <;> omega
      · intro h
        simp at h
  next fits =>
  rw [Nat.not_lt] at fits
  split
  · next isLast =>
      refine pure fun left => ?_
      rw [same, map_some, some.injEq]
      constructor
      · intro leave
        cases leave with
        | short short => omega
        | last => rfl
        | tag _ other => exact absurd isLast other
      · rintro rfl
        exact .last fits isLast
  · next other =>
      refine (returns_applyTag state (Nat.le_trans fits inside)).bind fun next tags => ?_
      refine pure ⟨⟨fits, fun left => ?_⟩, ?_⟩
      · rw [same, tags]
        constructor
        · intro leave
          cases leave with
          | short short => omega
          | last _ isLast => exact absurd isLast other
          | tag _ _ rest => exact rest
        · exact fun rest => .tag fits other rest
      · simp only [tagEnd] at fits ⊢
        omega

/-- The group at a cursor fits into the function list, and its tags fit into it. -/
structure GroupFits (bytes : ByteVector) (listEnd cursor : Nat) : Prop where
  count : cursor + 4 ≤ listEnd
  large : 4 ≤ u32At bytes cursor
  inside : cursor + u32At bytes cursor ≤ listEnd
  tags : ∃ left, TagsLeave bytes (cursor + u32At bytes cursor) (cursor + 4) {} left

/-- The group at a cursor gives a bitcode offset in the last four addresses, with an end
    that wraps into the file. -/
def StrayBitcode (bytes : ByteVector) (sectionOffset cursor : Nat) : Prop :=
  ∃ offset size,
    TagsLeave bytes (cursor + u32At bytes cursor) (cursor + 4) {}
      { offset := some offset, size := some size } ∧
    2 ^ 64 - 4 ≤ add64 sectionOffset offset ∧
    add64 (add64 sectionOffset offset) size ≤ bytes.size

theorem looksLikeBitcodeSignature_escapes (long : 4 ≤ bytes.size)
    (address : offset < 2 ^ 64) (stray : 2 ^ 64 - 4 ≤ offset) :
    looksLikeBitcodeSignature bytes offset = .error (.outOfBounds offset) := by
  have small : bytes.size < 2 ^ 63 := bytes.size_lt
  have wraps : add64 offset rawBitcodeSig.length ≤ bytes.size := by
    have four : rawBitcodeSig.length = 4 := by decide
    unfold add64
    omega
  unfold looksLikeBitcodeSignature matchesSigAt
  rw [if_pos wraps, show rawBitcodeSig.length = 3 + 1 by decide,
    readBytes_outside (by unfold size at small; omega)]
  rfl

theorem TagState.tags_eq_some {state : TagState} :
    state.tags = { offset := some offset, size := some size } ↔
      (state.haveOfft && state.haveMdsz) = true ∧ state.bitcodeRel = offset ∧
        state.bitcodeSize = size := by
  unfold TagState.tags
  cases state.haveOfft <;> cases state.haveMdsz <;> simp

/-- The record of a group makes a stray read exactly if its bitcode is stray. -/
theorem meets_finishGroup (long : 4 ≤ bytes.size) (sectionOffset cursor : Nat) {state : TagState}
    (tags : ∀ left, TagsLeave bytes (cursor + u32At bytes cursor) (cursor + 4) {} left ↔
      state.tags = left) :
    Meets (StrayBitcode bytes sectionOffset cursor) (finishGroup bytes sectionOffset state)
      fun _ => ¬ StrayBitcode bytes sectionOffset cursor := by
  have small : bytes.size < 2 ^ 63 := bytes.size_lt
  have stray : StrayBitcode bytes sectionOffset cursor ↔
      (state.haveOfft && state.haveMdsz) = true ∧
        2 ^ 64 - 4 ≤ add64 sectionOffset state.bitcodeRel ∧
        add64 (add64 sectionOffset state.bitcodeRel) state.bitcodeSize ≤ bytes.size := by
    unfold StrayBitcode
    constructor
    · rintro ⟨offset, size, leave, low, high⟩
      obtain ⟨both, rfl, rfl⟩ := TagState.tags_eq_some.mp ((tags _).mp leave)
      exact ⟨both, low, high⟩
    · rintro ⟨both, low, high⟩
      exact ⟨_, _, (tags _).mpr (TagState.tags_eq_some.mpr ⟨both, rfl, rfl⟩), low, high⟩
  rw [stray]
  unfold finishGroup
  have address := add64_lt sectionOffset state.bitcodeRel
  split
  · next both =>
      simp only
      split
      · next fits =>
          by_cases low : 2 ^ 64 - 4 ≤ add64 sectionOffset state.bitcodeRel
          · rw [looksLikeBitcodeSignature_escapes long address low]
            exact ⟨both, low, fits⟩
          · refine bind (returns_looksLikeBitcodeSignature (by omega)).meets fun _ _ => ?_
            exact fun h => low h.2.1
      · next outside => exact fun h => outside h.2.2
  · next other => exact fun h => other h.1

/-- One group: its stray read, or whether it fits and where the next one starts. -/
theorem meets_parseGroup (long : 4 ≤ bytes.size) (sectionOffset : Nat)
    (inside : listEnd ≤ bytes.size) (entry : Nat) (bound : cursor ≤ bytes.size) :
    Meets (GroupFits bytes listEnd cursor ∧ StrayBitcode bytes sectionOffset cursor)
      (parseGroup bytes sectionOffset listEnd entry cursor) fun
        | none => ¬ GroupFits bytes listEnd cursor
        | some (_, next) => GroupFits bytes listEnd cursor ∧
            ¬ StrayBitcode bytes sectionOffset cursor ∧ next = cursor + u32At bytes cursor := by
  have small : bytes.size < 2 ^ 63 := bytes.size_lt
  have size := u32At_lt bytes cursor
  unfold parseGroup
  rw [add64_of_lt (show cursor + 4 < 2 ^ 64 by omega)]
  split
  · next short => exact fun fits => by have := fits.count; omega
  next room =>
  rw [Nat.not_lt] at room
  refine bind_of_eq (readU32Le_some (Nat.le_trans room inside)) ?_
  simp only [add64_of_lt (show cursor + u32At bytes cursor < 2 ^ 64 by omega)]
  split
  · next refused =>
      simp only [Bool.or_eq_true, decide_eq_true_eq] at refused
      exact fun fits => by have := fits.large; have := fits.inside; omega
  next kept =>
  simp only [Bool.or_eq_true, decide_eq_true_eq, not_or, Nat.not_lt] at kept
  refine (returns_parseTags _ (Nat.le_trans kept.2 inside) (by omega)).meets.bind fun state tags => ?_
  cases state with
  | none =>
    intro fits
    obtain ⟨left, leave⟩ := fits.tags
    simpa using (tags left).mp leave
  | some state =>
    simp only [map_some, some.injEq] at tags
    have fits : GroupFits bytes listEnd cursor :=
      ⟨room, kept.1, kept.2, _, (tags _).mpr rfl⟩
    have finished := meets_finishGroup long sectionOffset cursor tags
    refine (finished.escapes_mono fun stray => ⟨fits, stray⟩).bind fun record fine => ?_
    exact ⟨fits, fine, rfl⟩

/-! ## The function list -/

/-- Where the groups of a function list start, each after the one before it. -/
def groupCursor (bytes : ByteVector) (listOffset : Nat) : Nat → Nat
  | 0 => listOffset + 4
  | k + 1 => groupCursor bytes listOffset k + u32At bytes (groupCursor bytes listOffset k)

/-- A group of the list is stray, and it and all groups before it fit. -/
def ListsStray (bytes : ByteVector) (listOffset sectionOffset listEnd : Nat) : Prop :=
  ∃ k < u32At bytes listOffset,
    (∀ j ≤ k, GroupFits bytes listEnd (groupCursor bytes listOffset j)) ∧
    StrayBitcode bytes sectionOffset (groupCursor bytes listOffset k)

theorem meets_parseGroups (long : 4 ≤ bytes.size) (listOffset sectionOffset : Nat)
    (inside : listEnd ≤ bytes.size) :
    ∀ (remaining entry cursor : Nat) (kernels : List KernelRecord),
      entry + remaining = u32At bytes listOffset → cursor = groupCursor bytes listOffset entry →
      cursor ≤ bytes.size →
      (∀ j < entry, GroupFits bytes listEnd (groupCursor bytes listOffset j) ∧
        ¬ StrayBitcode bytes sectionOffset (groupCursor bytes listOffset j)) →
      Meets (ListsStray bytes listOffset sectionOffset listEnd)
        (parseGroups bytes sectionOffset listEnd remaining entry cursor kernels) fun records =>
          ¬ ListsStray bytes listOffset sectionOffset listEnd ∧ (records.isSome = true →
            ∀ j < u32At bytes listOffset, GroupFits bytes listEnd (groupCursor bytes listOffset j)) := by
  intro remaining
  induction remaining with
  | zero =>
    rintro entry cursor kernels total - - done
    refine pure ⟨?_, fun _ j bound => (done j (by omega)).1⟩
    rintro ⟨k, bound, -, stray⟩
    exact (done k (by omega)).2 stray
  | succ remaining ih =>
    rintro entry cursor kernels total rfl bound done
    have group := meets_parseGroup long sectionOffset inside entry bound
    refine (group.escapes_mono ?_).bind fun result outcome => ?_
    · rintro ⟨fits, stray⟩
      refine ⟨entry, by omega, fun j upTo => ?_, stray⟩
      rcases Nat.lt_or_eq_of_le upTo with earlier | rfl
      · exact (done j earlier).1
      · exact fits
    · match result, outcome with
      | none, misfit =>
        refine pure ⟨?_, fun h => by simp at h⟩
        rintro ⟨k, few, fit, stray⟩
        -- the groups before this one are not stray, this one and later ones do not fit
        by_cases earlier : k < entry
        · exact (done k earlier).2 stray
        · exact misfit (fit entry (by omega))
      | some (record, next), ⟨fits, fine, hnext⟩ =>
        refine ih (entry + 1) next _ (by omega) hnext ?_ fun j upTo => ?_
        · have := fits.inside
          omega
        · rcases Nat.lt_succ_iff_lt_or_eq.mp upTo with earlier | rfl
          · exact done j earlier
          · exact ⟨fits, fine⟩

/-- The list up to one end candidate, if its first word can be read or there is no room for
    it in the file. -/
theorem meets_parseFunctionList (long : 4 ≤ bytes.size) (sectionOffset : Nat)
 (inside : listEnd ≤ bytes.size) (low : listOffset < 2 ^ 64 - 4) :
    Meets (listOffset + 4 ≤ bytes.size ∧ ListsStray bytes listOffset sectionOffset listEnd)
      (parseFunctionList bytes listOffset sectionOffset listEnd) fun records =>
        ¬ (listOffset + 4 ≤ bytes.size ∧ ListsStray bytes listOffset sectionOffset listEnd) ∧
          (records.isSome = true → listOffset + 4 ≤ bytes.size ∧
            ∀ j < u32At bytes listOffset, GroupFits bytes listEnd (groupCursor bytes listOffset j)) := by
  unfold parseFunctionList
  refine bind_of_eq (readLe_eq (by omega)) ?_
  by_cases room : listOffset + 4 ≤ bytes.size
  · rw [if_pos room, add64_of_lt (by omega)]
    have groups := meets_parseGroups long listOffset sectionOffset inside
      (u32At bytes listOffset) 0 _ [] (zero_add _) rfl room
      fun j bound => absurd bound (Nat.not_lt_zero j)
    refine (groups.escapes_mono fun stray => ⟨room, stray⟩).mono fun records outcome => ?_
    exact ⟨fun stray => outcome.1 stray.2, fun accepted => ⟨room, outcome.2 accepted⟩⟩
  · rw [if_neg room]
    exact ⟨fun stray => room stray.1, fun h => by simp at h⟩

theorem meets_firstFunctionList (long : 4 ≤ bytes.size) (sectionOffset : Nat)
    (low : listOffset < 2 ^ 64 - 4) :
    ∀ ends : List Nat, (∀ listEnd ∈ ends, listEnd ≤ bytes.size) →
      Meets (listOffset + 4 ≤ bytes.size ∧
          ∃ listEnd ∈ ends, ListsStray bytes listOffset sectionOffset listEnd)
        (firstFunctionList bytes listOffset sectionOffset ends) fun _ =>
          ¬ (listOffset + 4 ≤ bytes.size ∧
            ∃ listEnd ∈ ends, ListsStray bytes listOffset sectionOffset listEnd) := by
  intro ends
  induction ends with
  | nil => exact fun _ => pure (by simp)
  | cons listEnd rest ih =>
    intro inside
    have list := meets_parseFunctionList long sectionOffset (inside listEnd mem_cons_self) low
    refine (list.escapes_mono fun stray => ⟨stray.1, listEnd, mem_cons_self, stray.2⟩).bind
      fun records outcome => ?_
    cases records with
    | none =>
      refine ((ih fun other member => inside other (mem_cons_of_mem _ member)).escapes_mono
        ?_).mono fun _ fine => ?_
      · rintro ⟨room, other, member, stray⟩
        exact ⟨room, other, mem_cons_of_mem _ member, stray⟩
      · rintro ⟨room, other, member, stray⟩
        rcases mem_cons.mp member with rfl | later
        · exact outcome.1 ⟨room, stray⟩
        · exact fine ⟨room, other, later, stray⟩
    | some kernels =>
      -- the list fits, so another end gives the same groups
      refine pure ?_
      rintro ⟨room, other, -, k, few, -, stray⟩
      have fit := (outcome.2 rfl).2
      exact outcome.1 ⟨room, k, few, fun j upTo => fit j (by omega), stray⟩

/-- An Apple metallib by its header: the magic and a bitcode section whose end, as a
    64-bit word, is in the file. -/
structure IsMetallib (bytes : ByteVector) : Prop where
  size : 88 ≤ bytes.size
  magic : bytesAt bytes.data 0 4 = cumetalMagic
  section_inside : add64 (u64At bytes 72) (u64At bytes 80) ≤ bytes.size

/-- The function list starts in the last four addresses although one of its end candidates
    is in the file, or some end candidate in the file lists stray bitcode. -/
def StrayFunctionList (bytes : ByteVector) : Prop :=
  (listEndCandidates bytes (u64At bytes 24) (u64At bytes 32) ≠ [] ∧
      2 ^ 64 - 4 ≤ u64At bytes 24) ∨
    (u64At bytes 24 + 4 ≤ bytes.size ∧
      ∃ listEnd ∈ listEndCandidates bytes (u64At bytes 24) (u64At bytes 32),
        ListsStray bytes (u64At bytes 24) (u64At bytes 72) listEnd)

theorem le_size_of_listEndCandidates (bytes : ByteVector) (listOffset listSize : Nat) :
    ∀ listEnd ∈ listEndCandidates bytes listOffset listSize, listEnd ≤ bytes.size := by
  intro listEnd member
  unfold listEndCandidates at member
  simp only [mem_append] at member
  rcases member with first | second
  · split at first
    · next inside =>
        rw [mem_singleton.mp first]
        exact inside
    · simp at first
  · split at second
    · next inside =>
        simp only [Bool.and_eq_true, decide_eq_true_eq] at inside
        rw [mem_singleton.mp second]
        exact inside.1
    · simp at second

/-- A function list in the last four addresses: its first word is read there. -/
theorem firstFunctionList_escapes (long : 4 ≤ bytes.size) (sectionOffset : Nat)
    (address : listOffset < 2 ^ 64) (stray : 2 ^ 64 - 4 ≤ listOffset) {ends : List Nat}
    (nonempty : ends ≠ []) :
    firstFunctionList bytes listOffset sectionOffset ends = .error (.outOfBounds listOffset) := by
  have small : bytes.size < 2 ^ 63 := bytes.size_lt
  cases ends with
  | nil => exact absurd rfl nonempty
  | cons listEnd rest =>
    have wraps : ¬ bytes.size < add64 listOffset 4 := by
      unfold add64
      omega
    unfold firstFunctionList parseFunctionList readU32Le readLe
    rw [if_neg wraps, readWord_outside (by unfold size at small; omega)]
    rfl

/-- The parser of Apple metallibs makes a stray read exactly if the function list is stray. -/
theorem meets_parseRealMetallib (bytes : ByteVector) :
    Meets (IsMetallib bytes ∧ StrayFunctionList bytes) (parseRealMetallib bytes) fun _ =>
      ¬ (IsMetallib bytes ∧ StrayFunctionList bytes) := by
  have small : bytes.size < 2 ^ 63 := bytes.size_lt
  unfold parseRealMetallib
  split
  · next short =>
      unfold metallibHeaderSize at short
      exact pure fun stray => by have := stray.1.size; omega
  next long =>
  unfold metallibHeaderSize at long
  refine bind_of_eq (matchesSigAt_eq cumetalMagic (by decide)) ?_
  split
  · next other =>
      simp only [Bool.not_eq_true', decide_eq_false_iff_not] at other
      refine pure fun stray => other ⟨?_, stray.1.magic⟩
      have : cumetalMagic.length = 4 := by decide
      omega
  next same =>
  simp only [Bool.not_eq_true', decide_eq_false_iff_not, not_not] at same
  refine bind_of_eq (readU64Le_some (by omega)) ?_
  refine bind_of_eq (readU64Le_some (by omega)) ?_
  refine bind_of_eq (readU64Le_some (by omega)) ?_
  refine bind_of_eq (readU64Le_some (by omega)) ?_
  simp only
  split
  · next outside => exact pure fun stray => by have := stray.1.section_inside; omega
  next inside =>
  have isMetallib : IsMetallib bytes := ⟨by omega, same.2, by omega⟩
  have candidates := le_size_of_listEndCandidates bytes (u64At bytes 24) (u64At bytes 32)
  have address := u64At_lt bytes 24
  simp only [isMetallib, true_and]
  unfold StrayFunctionList
  by_cases low : u64At bytes 24 < 2 ^ 64 - 4
  · have list := meets_firstFunctionList (by omega) (u64At bytes 72) low _ candidates
    refine (list.escapes_mono .inr).mono fun _ fine => ?_
    rintro (⟨-, high⟩ | stray)
    · omega
    · exact fine stray
  · by_cases none : listEndCandidates bytes (u64At bytes 24) (u64At bytes 32) = []
    · rw [none]
      refine pure ?_
      rintro (⟨some, -⟩ | ⟨-, listEnd, member, -⟩)
      · exact some rfl
      · simp at member
    · rw [firstFunctionList_escapes (by omega) _ address (by omega) none]
      exact .inl ⟨none, by omega⟩

/-! ## Scans of the whole file -/

theorem returns_markParameter {param : Text} (inside : i + param.length ≤ bytes.size)
    (seen : List Bool) : Returns (markParameter bytes param i seen) fun _ => True := by
  unfold markParameter
  refine bind_of_eq (readBytes_eq (by unfold size at inside; omega)) ?_
  split
  · trivial
  refine seq (fun _ => True) ?_ ?_
  · refine Meets.loop _ (fun state => state.1 ≤ bytes.size) (fun state => bytes.size - state.1) ?_ _ _
      inside (by simp only; omega)
    rintro ⟨cursor, index, haveDigit⟩ bound
    unfold scanIndex
    split
    · next within =>
        refine bind_of_eq (readByte_eq within) ?_
        split
        · exact ⟨within, by simp only at within ⊢; omega⟩
        · trivial
    · trivial
  · rintro ⟨cursor, index, haveDigit⟩ -
    simp only
    split
    · next found =>
        simp only [Bool.and_eq_true, decide_eq_true_eq] at found
        exact bind_of_eq (readByte_eq found.2) trivial
    · trivial

theorem returns_inferArgumentCount (kernel : KernelRecord) :
    Returns (inferArgumentCount bytes kernel) fun _ => True := by
  unfold inferArgumentCount
  split
  · trivial
  refine seq (fun _ => True) ?_ fun seen _ => ?_
  · refine Meets.forLoop (fun _ _ => True) bytes.size ?_ ?_ (fun _ _ _ => trivial) trivial
      (Nat.zero_le _) (by omega)
    · intro i _ go
      have := of_decide_eq_true go
      omega
    · intro i seen _ go _
      have := of_decide_eq_true go
      exact returns_markParameter (by omega) seen
  · cases argumentCount seen <;> trivial

theorem returns_inferArgumentCounts (parsed : Bool) (kernels : List KernelRecord) :
    Returns (inferArgumentCounts bytes parsed kernels) fun _ => True := by
  unfold inferArgumentCounts
  split
  · trivial
  · induction kernels with
    | nil => trivial
    | cons kernel kernels ih =>
      rw [mapM_cons]
      exact (returns_inferArgumentCount kernel).bind fun _ _ => ih.bind fun _ _ => trivial

theorem lt_size_of_signatureRoom (bound : i ≤ bytes.size)
    (room : decide (add64 i 4 ≤ bytes.size) = true) : i < bytes.size := by
  have small : bytes.size < 2 ^ 63 := bytes.size_lt
  have := of_decide_eq_true room
  rw [add64_of_lt (by omega)] at this
  omega

theorem returns_wrapperSection (bound : i < bytes.size) :
    Returns (wrapperSection bytes i) fun _ => True := by
  have small : bytes.size < 2 ^ 63 := bytes.size_lt
  unfold wrapperSection
  rw [add64_of_lt (show i + 4 < 2 ^ 64 by omega), add64_of_lt (show i + 8 < 2 ^ 64 by omega),
    add64_of_lt (show i + 12 < 2 ^ 64 by omega), add64_of_lt (show i + 16 < 2 ^ 64 by omega)]
  refine bind_of_eq (readLe_eq (by omega)) ?_
  refine bind_of_eq (readLe_eq (by omega)) ?_
  refine bind_of_eq (readLe_eq (by omega)) ?_
  refine bind_of_eq (readLe_eq (by omega)) ?_
  split <;> trivial

theorem returns_scanBitcodeSections (kernels : List KernelRecord) :
    Returns (scanBitcodeSections bytes kernels) fun _ => True := by
  have small : bytes.size < 2 ^ 63 := bytes.size_lt
  unfold scanBitcodeSections
  split
  · trivial
  refine seq (fun _ => True) ?_ ?_
  · refine Meets.forLoop (fun _ _ => True) bytes.size (fun i => lt_size_of_signatureRoom) ?_
      (fun _ _ _ => trivial) trivial (Nat.zero_le _) (by omega)
    intro i state bound _ _
    unfold scanSignature
    refine bind_of_eq (matchesSigAt_eq wrappedBitcodeSig
      (show i + 4 < 2 ^ 64 by omega)) ?_
    split
    · exact (returns_wrapperSection bound).bind fun _ _ => trivial
    · refine bind_of_eq (matchesSigAt_eq rawBitcodeSig
        (show i + 4 < 2 ^ 64 by omega)) ?_
      split <;> trivial
  · rintro ⟨sections, sigs⟩ -
    refine Meets.forLoop (fun _ _ => True) bytes.size (fun i => lt_size_of_signatureRoom) ?_
      (fun _ _ _ => trivial) trivial (Nat.zero_le _) (by omega)
    intro i found bound _ _
    unfold scanRaw
    refine bind_of_eq (matchesSigAt_eq rawBitcodeSig
      (show i + 4 < 2 ^ 64 by omega)) ?_
    split <;> trivial

theorem returns_stringCandidateAt (bound : i < bytes.size) :
    Returns (stringCandidateAt bytes i) fun found => ∀ candidate j, found = some (candidate, j) →
      i ≤ j := by
  unfold stringCandidateAt
  refine seq (fun _ => True) ?_ fun afterText _ => ?_
  · unfold precededByText
    split
    · exact bind_of_eq (readByte_eq (by unfold size at bound; omega)) trivial
    · trivial
  split
  · exact pure (by simp)
  refine bind_of_eq (readByte_eq bound) ?_
  split
  · exact pure (by simp)
  refine seq (fun state => i ≤ state.1) ?_ ?_
  · refine Meets.loop _ (fun state => i ≤ state.1 ∧ state.1 ≤ bytes.size)
      (fun state => bytes.size - state.1) ?_ _ _ ⟨Nat.le_refl _, Nat.le_of_lt bound⟩
      (by simp only; omega)
    rintro ⟨j, value, seenAlpha⟩ ⟨after, below⟩
    unfold scanStringByte
    split
    · next within =>
        simp only [Bool.and_eq_true, decide_eq_true_eq] at within
        refine bind_of_eq (readByte_eq within.1) ?_
        split
        · exact after
        · split
          · exact after
          · exact ⟨⟨Nat.le_succ_of_le after, within.1⟩, by simp only; omega⟩
    · exact after
  · rintro ⟨j, value, seenAlpha⟩ after
    simp only
    split
    · exact pure (by simp)
    split
    · next within =>
        refine bind_of_eq (readByte_eq within) ?_
        split
        · refine pure fun candidate k same => ?_
          injection same with same
          injection same with _ same
          exact same ▸ after
        · exact pure (by simp)
    · exact pure (by simp)

theorem returns_scanStringCandidates (maxStrings : Nat) :
    Returns (scanStringCandidates bytes maxStrings) fun _ => True := by
  unfold scanStringCandidates
  split
  · trivial
  refine Meets.loop _ (fun _ => True) (fun state => bytes.size - state.1) ?_ _ _ trivial
    (by simp only; omega)
  rintro ⟨i, strings⟩ -
  unfold scanString
  split
  · next within =>
      simp only [Bool.and_eq_true, decide_eq_true_eq] at within
      refine (returns_stringCandidateAt within.1).bind fun found later => ?_
      cases found with
      | none => exact ⟨trivial, by simp only; omega⟩
      | some result =>
        obtain ⟨candidate, j⟩ := result
        have := later candidate j rfl
        exact ⟨trivial, by simp only; omega⟩
  · trivial

/-- A file that is no container, whose function list leads out of the file. -/
def ReadsOutside (bytes : ByteVector) : Prop :=
  ¬ IsContainer bytes ∧ IsMetallib bytes ∧ StrayFunctionList bytes

/-- The inspection of a file reads outside of it exactly if its function list leads there,
    and it always ends. -/
theorem meets_inspectMetallibBytes (path : String) (bytes : ByteVector) (maxStrings : Nat) :
    Meets (ReadsOutside bytes) (inspectMetallibBytes path bytes maxStrings) fun _ =>
      ¬ ReadsOutside bytes := by
  have small : bytes.size < 2 ^ 63 := bytes.size_lt
  unfold inspectMetallibBytes
  refine bind_of_eq (readBytes_eq ?_) ?_
  · have := Nat.min_le_right 4 bytes.size
    unfold size at this ⊢
    omega
  refine bind_of_eq (readLe_eq (by decide)) ?_
  refine bind_of_eq (readLe_eq (by decide)) ?_
  refine (returns_parseCumetalContainer bytes).meets.bind fun cumetal container => ?_
  refine seq (fun _ => ¬ ReadsOutside bytes) ?_ fun listed fine => ?_
  · unfold listKernels
    split
    · next parsed => exact pure fun outside => outside.1 (container.mp parsed)
    · next other =>
        have none : ¬ IsContainer bytes := fun h => other (container.mpr h)
        exact ((meets_parseRealMetallib bytes).escapes_mono fun stray => ⟨none, stray⟩).mono
          fun _ fine outside => fine outside.2
  · refine bind (returns_inferArgumentCounts _ _).meets fun kernels _ => ?_
    refine bind (returns_scanBitcodeSections _).meets fun sections _ => ?_
    refine bind (returns_scanStringCandidates _).meets fun strings _ => ?_
    exact pure fine

/-- The inspection delivers a summary, reading only inside of the file, exactly if the file
    is a container, is no metallib, or has a function list that does not lead outside. -/
theorem inspectMetallibBytes_ok_iff (path : String) (bytes : ByteVector) (maxStrings : Nat) :
    (∃ summary, inspectMetallibBytes path bytes maxStrings = .ok summary) ↔
      ¬ ReadsOutside bytes := by
  have meets := meets_inspectMetallibBytes path bytes maxStrings
  cases result : inspectMetallibBytes path bytes maxStrings with
  | ok summary =>
    rw [result] at meets
    exact ⟨fun _ => meets, fun _ => ⟨summary, rfl⟩⟩
  | error fault =>
    rw [result] at meets
    constructor
    · rintro ⟨summary, same⟩
      simp at same
    · intro inside
      cases fault with
      | outOfBounds index => exact absurd meets inside
      | outOfFuel => exact meets.elim

/-- 88 bytes with the magic, a function list at 2^64 - 4 of 4 bytes and an empty bitcode
    section. -/
def strayListBytes : ByteVector :=
  { data := cumetalMagic ++ List.replicate 20 0 ++
      [0xFC, 0xFF, 0xFF, 0xFF, 0xFF, 0xFF, 0xFF, 0xFF] ++ [4, 0, 0, 0, 0, 0, 0, 0] ++
      List.replicate 48 0
    size_lt := by decide }

/-- The word that counts the groups is read behind the end of the file. -/
theorem inspection_reads_outside :
    inspectMetallibBytes "stray.metallib" strayListBytes 64 =
      .error (.outOfBounds (2 ^ 64 - 4)) := by
  decide +kernel

end CuMetal.Metallib
