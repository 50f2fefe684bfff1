import CuMetal.Runtime.RegistrationMetadata

/-!
# The metadata of a cached kernel is read as it was written

The reader takes from the offset on exactly what the writer puts there, and so the bytes of a record
are read as the record, and what is read as a record is its bytes.
-/

namespace CuMetal.RegistrationMetadata

open List

def word (value : BitVec 32) : List UInt8 := [0, 8, 16, 24].map (byteAt value)

theorem appendU32Le_eq (bytes : List UInt8) (value : BitVec 32) :
    appendU32Le bytes value = bytes ++ word value := rfl

@[simp] theorem length_word (value : BitVec 32) : (word value).length = 4 := rfl

/-- The word of four bytes, the lowest first, as the loop puts it together. -/
def assemble (a b c d : UInt8) : BitVec 32 :=
  0 ||| a.toBitVec.setWidth 32 <<< 0 ||| b.toBitVec.setWidth 32 <<< 8 |||
    c.toBitVec.setWidth 32 <<< 16 ||| d.toBitVec.setWidth 32 <<< 24

theorem ones_bit : ∀ i : Fin 8, (255#8)[i.val] = true := by decide

theorem byteAt_bit (value : BitVec 32) (shift : Nat) {i : Nat} (inside : i < 8) :
    (byteAt value shift).toBitVec.getLsbD i = value.getLsbD (shift + i) := by
  have set : (255#8)[i] = true := ones_bit ⟨i, inside⟩
  simp [byteAt, inside, set]

theorem assemble_bit (a b c d : UInt8) (i : Nat) :
    (assemble a b c d).getLsbD i =
      if i < 8 then a.toBitVec.getLsbD i else if i < 16 then b.toBitVec.getLsbD (i - 8)
      else if i < 24 then c.toBitVec.getLsbD (i - 16) else d.toBitVec.getLsbD (i - 24) := by
  have far (x : UInt8) (k : Nat) (outside : 8 ≤ k) : x.toBitVec.getLsbD k = false :=
    BitVec.getLsbD_of_ge _ _ outside
  simp only [assemble, BitVec.getLsbD_or, BitVec.getLsbD_shiftLeft, BitVec.getLsbD_setWidth]
  split
  · grind
  split
  · grind
  split
  · grind
  · grind

theorem word_assemble (a b c d : UInt8) : word (assemble a b c d) = [a, b, c, d] := by
  have byte (x : UInt8) (shift : Nat)
      (bits : ∀ i < 8, (assemble a b c d).getLsbD (shift + i) = x.toBitVec.getLsbD i) :
      byteAt (assemble a b c d) shift = x := by
    apply UInt8.eq_of_toBitVec_eq
    apply BitVec.eq_of_getLsbD_eq
    intro i inside
    rw [byteAt_bit _ _ inside, bits i inside]
  have first : byteAt (assemble a b c d) 0 = a := byte a 0 fun i inside => by
    rw [assemble_bit, if_pos (by omega), zero_add]
  have second : byteAt (assemble a b c d) 8 = b := byte b 8 fun i inside => by
    rw [assemble_bit, if_neg (by omega), if_pos (by omega), Nat.add_sub_cancel_left]
  have third : byteAt (assemble a b c d) 16 = c := byte c 16 fun i inside => by
    rw [assemble_bit, if_neg (by omega), if_neg (by omega), if_pos (by omega),
      Nat.add_sub_cancel_left]
  have fourth : byteAt (assemble a b c d) 24 = d := byte d 24 fun i inside => by
    rw [assemble_bit, if_neg (by omega), if_neg (by omega), if_neg (by omega),
      Nat.add_sub_cancel_left]
  simp only [word, map_cons, map_nil, first, second, third, fourth]

theorem word_injective {value other : BitVec 32} (same : word value = word other) :
    value = other := by
  simp only [word, map_cons, map_nil, cons.injEq, and_true] at same
  obtain ⟨first, second, third, fourth⟩ := same
  apply BitVec.eq_of_getLsbD_eq
  intro i inside
  have bit (shift : Nat) (bytes : byteAt value shift = byteAt other shift) (low : shift ≤ i)
      (high : i < shift + 8) : value.getLsbD i = other.getLsbD i := by
    have split : shift + (i - shift) = i := by omega
    rw [← split, ← byteAt_bit value shift (by omega), ← byteAt_bit other shift (by omega), bytes]
  by_cases low : i < 8
  · exact bit 0 first (by omega) low
  by_cases below : i < 16
  · exact bit 8 second (by omega) below
  by_cases above : i < 24
  · exact bit 16 third (by omega) above
  · exact bit 24 fourth (by omega) (by omega)

variable {bytes : List UInt8} {offset : Nat}

theorem consumeU32Le_inside (inside : offset + 4 ≤ bytes.length) :
    ∃ value, consumeU32Le bytes offset = .ok (some (value, offset + 4)) ∧
      bytes.drop offset = word value ++ bytes.drop (offset + 4) := by
  refine ⟨assemble bytes[offset] bytes[offset + 1] bytes[offset + 2] bytes[offset + 3], ?_, ?_⟩
  · simp only [consumeU32Le, consumeBytes, readByte_eq (show offset < bytes.length by omega),
      readByte_eq (show offset + 1 < bytes.length by omega),
      readByte_eq (show offset + 1 + 1 < bytes.length by omega),
      readByte_eq (show offset + 1 + 1 + 1 < bytes.length by omega)]
    rw [if_neg (by omega)]
    rfl
  · rw [word_assemble, drop_eq_getElem_cons (show offset < bytes.length by omega),
      drop_eq_getElem_cons (show offset + 1 < bytes.length by omega),
      drop_eq_getElem_cons (show offset + 1 + 1 < bytes.length by omega),
      drop_eq_getElem_cons (show offset + 1 + 1 + 1 < bytes.length by omega)]
    rfl

theorem consumeU32Le_outside
    (outside : bytes.length < offset + 4) : consumeU32Le bytes offset = .ok none := by
  unfold consumeU32Le
  rw [if_pos (by omega)]
  rfl

theorem consumeU32Le_word (before after : List UInt8) (value : BitVec 32) :
    consumeU32Le (before ++ (word value ++ after)) before.length =
      .ok (some (value, before.length + 4)) := by
  have inside : before.length + 4 ≤ (before ++ (word value ++ after)).length := by simp
  obtain ⟨read, taken, same⟩ := consumeU32Le_inside inside
  rw [drop_left] at same
  have equal := (append_inj same rfl).1
  rw [taken, word_injective equal]

/-- The bytes of some formats, each after its size. -/
def body (formats : List Text) : List UInt8 :=
  formats.flatMap fun format => word (BitVec.ofNat 32 format.length) ++ format

def Short (format : Text) : Prop := format.length < 2 ^ 32

theorem Short.toNat {format : Text} (short : Short format) :
    (BitVec.ofNat 32 format.length).toNat = format.length := by
  rw [BitVec.toNat_ofNat, Nat.mod_eq_of_lt short]

variable {parsed : List Text} {size : BitVec 32}

/-- A format is read with the bytes after its size, and the loop goes on after it. -/
theorem readFormats_inside {count : Nat}
    (taken : consumeU32Le bytes offset = .ok (some (size, offset + 4)))
    (inside : offset + 4 + size.toNat ≤ bytes.length) :
    readFormats bytes (count + 1) offset parsed =
      readFormats bytes count (offset + 4 + size.toNat)
        (parsed ++ [bytesAt bytes (offset + 4) size.toNat]) := by
  rw [readFormats, taken]
  change (if _ then _ else _) = _
  rw [if_neg (by omega), readBytes_eq inside]
  rfl

theorem readFormats_outside {count : Nat}
    (taken : consumeU32Le bytes offset = .ok (some (size, offset + 4)))
    (outside : bytes.length < offset + 4 + size.toNat) :
    readFormats bytes (count + 1) offset parsed = .ok none := by
  rw [readFormats, taken]
  change (if _ then _ else _) = _
  rw [if_pos (by omega)]
  rfl

theorem readFormats_body (formats : List Text) (short : ∀ format ∈ formats, Short format)
    (before : List UInt8) (parsed : List Text) :
    readFormats (before ++ body formats) formats.length before.length parsed =
      .ok (some (parsed ++ formats, (before ++ body formats).length)) := by
  induction formats generalizing before parsed with
  | nil => simp [readFormats, body]; rfl
  | cons format rest ih =>
    have size := (short format (by simp)).toNat
    have more := ih (fun other found => short other (.tail _ found))
      (before ++ (word (BitVec.ofNat 32 format.length) ++ format)) (parsed ++ [format])
    have text : before ++ (word (BitVec.ofNat 32 format.length) ++ format) ++ body rest =
        before ++ (word (BitVec.ofNat 32 format.length) ++ (format ++ body rest)) := by
      simp
    have whole : before ++ body (format :: rest) =
        before ++ (word (BitVec.ofNat 32 format.length) ++ (format ++ body rest)) := by
      simp [body]
    have read : bytesAt (before ++ (word (BitVec.ofNat 32 format.length) ++
        (format ++ body rest))) (before.length + 4) format.length = format := by
      have skip : before.length + 4 =
          (before ++ word (BitVec.ofNat 32 format.length)).length := by simp
      rw [bytesAt, ← append_assoc, skip, drop_left, take_left]
    have ends : before.length + 4 + format.length =
        (before ++ (word (BitVec.ofNat 32 format.length) ++ format)).length := by
      simp [add_assoc]
    rw [whole, length_cons, readFormats_inside (consumeU32Le_word _ _ _)
      (by rw [size]; simp; omega), size, read, ends, ← text, more]
    simp

theorem readFormats_sound (bytes : List UInt8) (count offset : Nat) (parsed : List Text)
    (inside : offset ≤ bytes.length) :
    readFormats bytes count offset parsed = .ok none ∨
      ∃ formats stop, readFormats bytes count offset parsed = .ok (some (parsed ++ formats, stop)) ∧
        formats.length = count ∧ (∀ format ∈ formats, Short format) ∧ stop ≤ bytes.length ∧
        bytes.drop offset = body formats ++ bytes.drop stop := by
  induction count generalizing offset parsed with
  | zero => exact .inr ⟨[], offset, by simp [readFormats]; rfl, rfl, by simp, inside, rfl⟩
  | succ count ih =>
    by_cases room : offset + 4 ≤ bytes.length
    · obtain ⟨size, taken, here⟩ := consumeU32Le_inside room
      by_cases fits : offset + 4 + size.toNat ≤ bytes.length
      · rw [readFormats_inside taken fits]
        obtain stops | ⟨formats, stop, reads, number, short, within, rest⟩ :=
          ih (offset + 4 + size.toNat) (parsed ++ [bytesAt bytes (offset + 4) size.toNat]) fits
        · exact .inl stops
        · have length : (bytesAt bytes (offset + 4) size.toNat).length = size.toNat := by
            simp [bytesAt]
            omega
          have later : bytes.drop (offset + 4 + size.toNat) =
              (bytes.drop (offset + 4)).drop size.toNat := by
            rw [drop_drop]
          refine .inr ⟨bytesAt bytes (offset + 4) size.toNat :: formats, stop, ?_, ?_, ?_, within,
            ?_⟩
          · rw [reads, append_assoc, singleton_append]
          · rw [length_cons, number]
          · rintro format (_ | ⟨_, found⟩)
            · rw [Short, length]
              exact size.isLt
            · exact short format found
          · calc bytes.drop offset
                = word size ++ bytes.drop (offset + 4) := here
              _ = word size ++ (bytesAt bytes (offset + 4) size.toNat ++
                    bytes.drop (offset + 4 + size.toNat)) := by
                  rw [bytesAt, later, take_append_drop]
              _ = body (bytesAt bytes (offset + 4) size.toNat :: formats) ++ bytes.drop stop := by
                  rw [rest]
                  simp [body, length]
      · exact .inl (readFormats_outside taken (by omega))
    · rw [readFormats, consumeU32Le_outside (by omega)]
      exact .inl rfl

def header (metadata : RegistrationCacheMetadata) : List UInt8 :=
  kRegistrationMetadataMagic ++
    (word (flagsOf metadata) ++ word (BitVec.ofNat 32 metadata.printfFormats.length))

theorem length_magic : kRegistrationMetadataMagic.length = 8 := by decide

theorem length_header (metadata : RegistrationCacheMetadata) : (header metadata).length = 16 := by
  simp [header, length_magic]

/-- The writer's loop appends the formats, as long as there is room for them. -/
theorem writeFormats_iff (formats : List Text) (bytes written : List UInt8)
    (start : bytes.length ≤ kMaxRegistrationMetadataBytes) :
    writeFormats bytes formats = some written ↔
      written = bytes ++ body formats ∧ (∀ format ∈ formats, Short format) ∧
        written.length ≤ kMaxRegistrationMetadataBytes := by
  induction formats generalizing bytes with
  | nil =>
    simp only [writeFormats, body, flatMap_nil, append_nil, Option.some.injEq,
      not_mem_nil, false_imp_iff, implies_true, true_and]
    constructor
    · rintro rfl
      exact ⟨rfl, start⟩
    · rintro ⟨rfl, -⟩
      rfl
  | cons format rest ih =>
    have size : (body (format :: rest)).length = 4 + format.length + (body rest).length := by
      simp [body, add_assoc]
    simp only [writeFormats, appendU32Le_eq]
    split
    · rename_i long
      refine ⟨(fun stopped => by cases stopped), ?_⟩
      rintro ⟨rfl, short, fits⟩
      have own := short format (by simp)
      unfold Short at own
      rw [length_append, size] at fits
      omega
    · rename_i fits
      have next : (bytes ++ word (BitVec.ofNat 32 format.length) ++ format).length ≤
          kMaxRegistrationMetadataBytes := by
        simp only [length_append, length_word]
        omega
      have own : Short format := by
        unfold Short
        omega
      rw [ih _ next]
      simp [body, own]

theorem writeRegistrationMetadata_iff (metadata : RegistrationCacheMetadata)
    (written : List UInt8) :
    writeRegistrationMetadata metadata = some written ↔
      metadata.printfFormats.length ≤ kMaxRegistrationPrintfFormats ∧
        written = header metadata ++ body metadata.printfFormats ∧
        (∀ format ∈ metadata.printfFormats, Short format) ∧
        written.length ≤ kMaxRegistrationMetadataBytes := by
  have start : (header metadata).length ≤ kMaxRegistrationMetadataBytes := by
    rw [length_header]
    decide
  have loop := writeFormats_iff metadata.printfFormats (header metadata) written start
  have same : appendU32Le (appendU32Le kRegistrationMetadataMagic (flagsOf metadata))
      (BitVec.ofNat 32 metadata.printfFormats.length) = header metadata := by
    simp [appendU32Le_eq, header]
  rw [writeRegistrationMetadata, same]
  split
  · rename_i many
    exact ⟨(fun stopped => by cases stopped), fun ⟨few, _⟩ => by omega⟩
  · rename_i few
    rw [loop]
    exact ⟨fun written => ⟨by omega, written⟩, fun written => written.2⟩

theorem flagsOf_known (metadata : RegistrationCacheMetadata) : flagsOf metadata &&& ~~~3 = 0 := by
  cases heap : metadata.usesDeviceHeap <;> cases queue : metadata.usesDeviceLaunchQueue <;>
    simp [flagsOf, heap, queue]

/-- The record that the reader makes of flags and formats. -/
def recordOf (flags : BitVec 32) (formats : List Text) : RegistrationCacheMetadata :=
  ⟨formats, flags &&& 1 ≠ 0, flags &&& 2 ≠ 0⟩

theorem recordOf_flagsOf (metadata : RegistrationCacheMetadata) :
    recordOf (flagsOf metadata) metadata.printfFormats = metadata := by
  obtain ⟨formats, heap, queue⟩ := metadata
  cases heap <;> cases queue <;> simp [recordOf, flagsOf]

variable {flags : BitVec 32}

theorem flagsOf_recordOf (known : flags &&& ~~~3 = 0) (formats : List Text) :
    flagsOf (recordOf flags formats) = flags := by
  have low : flags = flags &&& 3 := by
    apply BitVec.eq_of_getLsbD_eq
    intro i inside
    have other := congrArg (fun word => word.getLsbD i) known
    cases bit : flags.getLsbD i with
    | false => simp [bit]
    | true =>
      simp only [BitVec.getLsbD_and, BitVec.getLsbD_not, bit, inside] at other ⊢
      simpa using other
  have small : flags.toNat ≤ 3 := by
    rw [low, BitVec.toNat_and]
    exact Nat.and_le_right
  have cases : flags = 0 ∨ flags = 1 ∨ flags = 2 ∨ flags = 3 := by bv_omega
  obtain rfl | rfl | rfl | rfl := cases <;> simp [flagsOf, recordOf]

/-- The reader behind the magic number, on bytes that have room for the flags and the count. -/
theorem readRegistrationMetadata_eq {count : BitVec 32} (caller : RegistrationCacheMetadata)
    (room : 16 ≤ bytes.length) (small : bytes.length ≤ kMaxRegistrationMetadataBytes)
    (magic : bytesAt bytes 0 8 = kRegistrationMetadataMagic)
    (first : consumeU32Le bytes 8 = .ok (some (flags, 12)))
    (second : consumeU32Le bytes 12 = .ok (some (count, 16))) :
    readRegistrationMetadata bytes caller =
      if flags &&& ~~~3 ≠ 0 ∨ kMaxRegistrationPrintfFormats < count.toNat then .ok (false, caller)
      else do
        match ← readFormats bytes count.toNat 16 [] with
        | none => return (false, caller)
        | some (formats, stop) =>
          if stop ≠ bytes.length then return (false, caller)
          else return (true, recordOf flags formats) := by
  have start : readBytes bytes 0 8 = .ok kRegistrationMetadataMagic := by
    rw [readBytes_eq (by omega), magic]
  have enough : ¬ (bytes.length < 8 + 8 ∨ kMaxRegistrationMetadataBytes < bytes.length) := by omega
  unfold readRegistrationMetadata
  simp only [length_magic, enough, if_false, start, first, second, bind, Except.bind, ne_eq,
    not_true_eq_false]
  rfl

theorem read_written {metadata : RegistrationCacheMetadata}
    (written : writeRegistrationMetadata metadata = some bytes)
    (caller : RegistrationCacheMetadata) :
    readRegistrationMetadata bytes caller = .ok (true, metadata) := by
  obtain ⟨few, rfl, short, small⟩ := (writeRegistrationMetadata_iff metadata bytes).mp written
  have number : (BitVec.ofNat 32 metadata.printfFormats.length).toNat =
      metadata.printfFormats.length := by
    unfold kMaxRegistrationPrintfFormats at few
    rw [BitVec.toNat_ofNat, Nat.mod_eq_of_lt (by omega)]
  have flags : header metadata ++ body metadata.printfFormats = kRegistrationMetadataMagic ++
      (word (flagsOf metadata) ++ (word (BitVec.ofNat 32 metadata.printfFormats.length) ++
        body metadata.printfFormats)) := by
    simp [header]
  have count : header metadata ++ body metadata.printfFormats =
      (kRegistrationMetadataMagic ++ word (flagsOf metadata)) ++
        (word (BitVec.ofNat 32 metadata.printfFormats.length) ++ body metadata.printfFormats) := by
    simp [header]
  have first := consumeU32Le_word kRegistrationMetadataMagic
    (word (BitVec.ofNat 32 metadata.printfFormats.length) ++ body metadata.printfFormats)
    (flagsOf metadata)
  have second := consumeU32Le_word (kRegistrationMetadataMagic ++ word (flagsOf metadata))
    (body metadata.printfFormats) (BitVec.ofNat 32 metadata.printfFormats.length)
  have loop := readFormats_body metadata.printfFormats short (header metadata) []
  rw [← flags, length_magic] at first
  rw [← count, length_append, length_magic, length_word] at second
  rw [length_header] at loop
  have magic : bytesAt (header metadata ++ body metadata.printfFormats) 0 8 =
      kRegistrationMetadataMagic := by
    rw [flags, bytesAt, drop_zero, ← length_magic, take_left]
  rw [readRegistrationMetadata_eq caller (by rw [length_append, length_header]; omega) small
    magic first second, number, loop]
  have known : ¬ (flagsOf metadata &&& ~~~3 ≠ 0 ∨
      kMaxRegistrationPrintfFormats < metadata.printfFormats.length) := by
    rintro (other | many)
    · exact other (flagsOf_known metadata)
    · omega
  rw [if_neg known]
  change (if (header metadata ++ body metadata.printfFormats).length ≠
    (header metadata ++ body metadata.printfFormats).length then _ else _) = _
  rw [if_neg (fun other => other rfl), nil_append, recordOf_flagsOf]
  rfl

/-- The reader fails and leaves the caller's record, or the bytes are those of the record. -/
theorem read_sound (bytes : List UInt8) (caller : RegistrationCacheMetadata) :
    readRegistrationMetadata bytes caller = .ok (false, caller) ∨
      ∃ metadata, readRegistrationMetadata bytes caller = .ok (true, metadata) ∧
        writeRegistrationMetadata metadata = some bytes := by
  by_cases room : bytes.length < 8 + 8 ∨ kMaxRegistrationMetadataBytes < bytes.length
  · left
    unfold readRegistrationMetadata
    simp only [length_magic, room, if_true]
    rfl
  have long : 16 ≤ bytes.length := by omega
  by_cases magic : bytesAt bytes 0 8 = kRegistrationMetadataMagic
  · obtain ⟨flags, first, here⟩ := @consumeU32Le_inside bytes 8 (by omega)
    obtain ⟨count, second, there⟩ := @consumeU32Le_inside bytes 12 (by omega)
    rw [readRegistrationMetadata_eq caller long (by omega) magic first second]
    split
    · exact .inl rfl
    · rename_i known
      obtain stops | ⟨formats, stop, reads, number, short, within, rest⟩ :=
        readFormats_sound bytes count.toNat 16 [] long
      · rw [stops]
        exact .inl rfl
      · rw [reads]
        by_cases whole : stop = bytes.length
        · have all : bytes = header (recordOf flags formats) ++ body formats := by
            have flagsKnown : flags &&& ~~~3 = 0 := by
              by_contra other
              exact known (.inl other)
            calc bytes
                = bytesAt bytes 0 8 ++ bytes.drop 8 := by simp [bytesAt]
              _ = kRegistrationMetadataMagic ++ (word flags ++ (word count ++ body formats)) := by
                  rw [magic, here, there, rest, whole, drop_length, append_nil]
              _ = header (recordOf flags formats) ++ body formats := by
                  rw [header, flagsOf_recordOf flagsKnown, append_assoc, append_assoc]
                  simp [recordOf, number]
          refine .inr ⟨recordOf flags formats, ?_, ?_⟩
          · change (if stop ≠ bytes.length then _ else _) = _
            rw [if_neg (fun other => other whole)]
            rfl
          · rw [writeRegistrationMetadata_iff]
            exact ⟨by rw [not_or] at known; exact number ▸ Nat.le_of_not_lt known.2, all, short,
              by omega⟩
        · left
          change (if stop ≠ bytes.length then _ else _) = _
          rw [if_pos whole]
          rfl
  · left
    have start : readBytes bytes 0 8 = .ok (bytesAt bytes 0 8) := readBytes_eq (by omega)
    unfold readRegistrationMetadata
    simp only [length_magic, room, if_false, start]
    change (if bytesAt bytes 0 8 ≠ kRegistrationMetadataMagic then _ else _) = _
    rw [if_pos magic]
    rfl

/-- **Round trip.** What the writer accepts is read as the same record, and the reader, which never
reads outside of the bytes, fails without a change of the caller's record or gives the one record
whose bytes they are. -/
theorem metadata_roundTrip :
    (∀ (metadata caller : RegistrationCacheMetadata) (bytes : List UInt8),
      writeRegistrationMetadata metadata = some bytes →
        readRegistrationMetadata bytes caller = .ok (true, metadata)) ∧
    ∀ (bytes : List UInt8) (caller : RegistrationCacheMetadata),
      readRegistrationMetadata bytes caller = .ok (false, caller) ∨
        ∃ metadata, readRegistrationMetadata bytes caller = .ok (true, metadata) ∧
          writeRegistrationMetadata metadata = some bytes :=
  ⟨fun _ caller _ written => read_written written caller, read_sound⟩

/-- A record with a format that is empty and one with a zero byte. -/
example : readRegistrationMetadata
    (kRegistrationMetadataMagic ++ [2, 0, 0, 0, 2, 0, 0, 0, 0, 0, 0, 0, 2, 0, 0, 0, 37, 0])
      ⟨[], false, false⟩ = .ok (true, ⟨[[], [37, 0]], false, true⟩) := by
  decide

end CuMetal.RegistrationMetadata
