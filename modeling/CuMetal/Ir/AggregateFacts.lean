import CuMetal.Ir.AggregateFields

/-!
# Reassembled aggregates

A by-value parameter or return is a row of words of four bytes or of bytes. Its aggregate is built
exactly if there is one field for each of these words, which is a tiling by fields of this size, and
it has the bytes of the fields.
-/

namespace CuMetal.Ir

open IrType Tiling List Operand

variable {fields : Fields} {literal : Operand → List UInt8} {values : Values}

def AgreeBelow (next : ValueId) (first second : Values) : Prop := ∀ v < next, first v = second v

variable {next : ValueId} {field : Operand} {count : Nat} {offset : Int} {parameter : PtxParameter}
  {other : Values}

theorem Operand.bytes_congr {operand : Operand}
    (old : operand.kind = .value → operand.value < next) (same : AgreeBelow next other values) :
    operand.bytes literal other = operand.bytes literal values := by
  rw [bytes, bytes]
  split
  next value => exact same _ (old value)
  · rfl

theorem computeAll_append (first second : List Operation) (values : Values) :
    computeAll literal (first ++ second) values =
      computeAll literal second (computeAll literal first values) :=
  foldl_append

/-- The value of an element has the bytes of its field, also once later values are computed. -/
theorem elementOf_spec (literal : Operand → List UInt8) (values : Values)
    (location : SourceLocation) (elementType : IrType) (old : field.kind = .value → field.value < next) :
    let element := elementOf location field elementType next
    AgreeBelow next (computeAll literal element.2 values) values ∧
      ∀ later, AgreeBelow (next + element.2.length) later (computeAll literal element.2 values) →
        element.1.bytes literal later = field.bytes literal values := by
  unfold elementOf
  split
  · exact ⟨fun _ _ => rfl, fun later same => bytes_congr old same⟩
  · have computed : computeAll literal
        [{ opcode := .convert, location, operands := [field], attributes := [("bitcast", "true")]
           results := [next], resultTypes := [elementType] }] values =
        Function.update values next (field.bytes literal values) := by
      simp [computeAll, Operation.compute, AssocMap.find?]
    refine ⟨fun v below => ?_, fun later same => ?_⟩
    · rw [computed, Function.update_of_ne (ne_of_lt below)]
    · rw [valueRef, bytes, if_pos rfl, same _ (Nat.lt_succ_self next), computed,
        Function.update_self]

def HasField (fields : Fields) (elementType : IrType) (offset : Int) : Prop :=
  ∃ field, fields.find? offset = some field ∧ typeSize field.type = typeSize elementType

def fieldBytes (literal : Operand → List UInt8) (values : Values) (fields : Fields)
    (offset : Int) : List UInt8 :=
  (fields.find? offset).elim [] (·.bytes literal values)

/-- The fields refer to values that are computed already. -/
def Old (fields : Fields) (next : ValueId) : Prop :=
  ∀ offset field, fields.find? offset = some field → field.kind = .value → field.value < next

/-- What the loop gives for a row of elements of one type. -/
structure Gathers (fields : Fields) (elementType : IrType) (count : Nat) (offset : Int)
    (next : ValueId) (gathered : Gathered) : Prop where
  byteOffset : gathered.byteOffset = offset + count * typeSize elementType
  grows : next ≤ gathered.next
  keeps : ∀ literal values, Old fields next →
    AgreeBelow next (computeAll literal gathered.operations values) values
  bytes : ∀ literal values, Old fields next →
    gathered.operands.flatMap (·.bytes literal (computeAll literal gathered.operations values)) =
      (List.range count).flatMap fun i : Nat =>
        fieldBytes literal values fields (offset + i * typeSize elementType)

theorem Old.mono {later : ValueId} (old : Old fields next) (le : next ≤ later) :
    Old fields later := fun offset field found value =>
  lt_of_lt_of_le (old offset field found value) le

theorem fieldBytes_congr (old : Old fields next) (same : AgreeBelow next other values)
    (offset : Int) :
    fieldBytes literal other fields offset = fieldBytes literal values fields offset := by
  rw [fieldBytes, fieldBytes]
  cases found : fields.find? offset with
  | none => rfl
  | some field => exact bytes_congr (old offset field found) same

theorem next_offset (offset : Int) (size i : Nat) :
    offset + size + i * size = offset + ((i + 1 : Nat) : Int) * size := by
  push_cast
  ring

variable {elementType : IrType}

theorem Gathers.cons {rest : Gathered} (location : SourceLocation)
    (found : fields.find? offset = some field)
    (gathers : Gathers fields elementType count (offset + typeSize elementType) (next + (elementOf
      location field elementType next).2.length) rest) :
    Gathers fields elementType (count + 1) offset next
      ⟨(elementOf location field elementType next).1 :: rest.operands,
        (elementOf location field elementType next).2 ++ rest.operations, rest.byteOffset,
        rest.next⟩ := by
  have later : next ≤ next + (elementOf location field elementType next).2.length :=
    Nat.le_add_right _ _
  have element : ∀ literal values, Old fields next → _ := fun literal values old =>
    elementOf_spec literal values location elementType
      (old offset field found)
  constructor
  · rw [gathers.byteOffset]
    exact next_offset offset (typeSize elementType) count
  · exact later.trans gathers.grows
  · intro literal values old v below
    rw [computeAll_append, gathers.keeps literal _ (old.mono later) v (below.trans_le later)]
    exact (element literal values old).1 v below
  · intro literal values old
    obtain ⟨keeps, bytes⟩ := element literal values old
    rw [computeAll_append, flatMap_cons,
      bytes _ (gathers.keeps literal _ (old.mono later)), gathers.bytes literal _ (old.mono later),
      range_succ_eq_map, flatMap_cons, flatMap_map]
    congr 1
    · simp [fieldBytes, found]
    · apply flatMap_congr
      intro i _
      rw [next_offset]
      exact fieldBytes_congr old keeps _

theorem gatherFields_replicate (fields : Fields) (description : String)
    (location : SourceLocation) (elementType : IrType) (count : Nat) (offset : Int)
    (next : ValueId) :
    (∃ message, gatherFields fields description location (List.replicate count elementType) offset
        next = .error message ∧
      ¬ ∀ i < count, HasField fields elementType (offset + i * typeSize elementType)) ∨
    ∃ gathered, gatherFields fields description location (List.replicate count elementType) offset
        next = .ok gathered ∧
      (∀ i < count, HasField fields elementType (offset + i * typeSize elementType)) ∧
      Gathers fields elementType count offset next gathered := by
  induction count generalizing offset next with
  | zero =>
    refine .inr ⟨_, rfl, fun i below => absurd below (Nat.not_lt_zero i), ?_⟩
    exact ⟨by simp, le_rfl, fun _ _ _ _ _ => rfl, fun _ _ _ => rfl⟩
  | succ count ih =>
    rw [replicate_succ, gatherFields]
    cases found : fields.find? offset with
    | none =>
      refine .inl ⟨_, rfl, fun all => ?_⟩
      obtain ⟨field, present, -⟩ := all 0 (Nat.succ_pos count)
      rw [Nat.cast_zero, zero_mul, add_zero, found] at present
      cases present
    | some field =>
      simp only
      by_cases size : typeSize field.type = typeSize elementType
      · rw [if_neg (not_not.mpr size)]
        have here : HasField fields elementType offset := ⟨field, found, size⟩
        rcases ih (offset + typeSize elementType)
          (next + (elementOf location field elementType next).2.length) with
          ⟨message, refused, lacking⟩ | ⟨rest, gathered, all, gathers⟩
        · rw [refused]
          refine .inl ⟨_, rfl, fun whole => lacking fun i below => ?_⟩
          rw [next_offset]
          exact whole (i + 1) (Nat.succ_lt_succ below)
        · rw [gathered]
          refine .inr ⟨_, rfl, fun i below => ?_, ?_⟩
          · cases i with
            | zero => simpa using here
            | succ i =>
              rw [← next_offset]
              exact all i (Nat.lt_of_succ_lt_succ below)
          · exact gathers.cons location found
      · rw [if_pos size]
        refine .inl ⟨_, rfl, fun all => ?_⟩
        obtain ⟨other, present, same⟩ := all 0 (Nat.succ_pos count)
        rw [Nat.cast_zero, zero_mul, add_zero, found] at present
        cases present
        exact size same

/-- The field that was stored last at an offset. -/
def lastStored (stores : List (Int × Operand)) (offset : Int) : Option Operand :=
  (stores.reverse.find? fun store => store.1 = offset).map Prod.snd

variable {stores : List (Int × Operand)}

theorem storeFields_append {last : Int × Operand} {after : Fields}
    (stored : storeFields (stores ++ [last]) = .ok after) :
    ∃ before, storeFields stores = .ok before ∧ after = before.assign last.1 last.2 := by
  rw [storeFields, foldlM_append] at stored
  change (storeFields stores).bind _ = _ at stored
  cases first : storeFields stores with
  | error message =>
    rw [first] at stored
    cases stored
  | ok before =>
    rw [first] at stored
    refine ⟨before, rfl, ?_⟩
    simp only [Except.bind, foldlM_cons, foldlM_nil, storeField] at stored
    split at stored
    · cases stored
    · cases stored
      rfl

/-- The table of the fields has one field for each offset, the last one. -/
theorem storeFields_spec {fields : Fields} (stored : storeFields stores = .ok fields) :
    (fields.map Prod.fst).Nodup ∧ ∀ offset, fields.find? offset = lastStored stores offset := by
  induction stores using reverseRecOn generalizing fields with
  | nil =>
    cases stored
    exact ⟨nodup_nil, fun _ => rfl⟩
  | append_singleton stores last ih =>
    obtain ⟨before, earlier, rfl⟩ := storeFields_append stored
    obtain ⟨distinct, finds⟩ := ih earlier
    refine ⟨AssocMap.nodup_assign distinct _ _, fun offset => ?_⟩
    rw [AssocMap.find?_assign, finds, lastStored, lastStored, reverse_append]
    simp only [reverse_singleton, singleton_append, find?_cons]
    by_cases same : last.1 = offset
    · simp [same]
    · simp [same]

/-- The size of the words of an aggregate parameter. -/
def wordSize (parameter : PtxParameter) : Nat :=
  if parameter.byteSize % 4 = 0 ∧ 4 ≤ parameter.alignment then 4 else 1

theorem totalSize_replicate (count : Nat) (elementType : IrType) :
    totalSize (List.replicate count elementType) = count * typeSize elementType % 2 ^ 32 := by
  induction count with
  | zero => simp [totalSize]
  | succ count ih =>
    rw [replicate_succ, totalSize, ih, Nat.add_mod_mod, Nat.succ_mul, add_comm]

theorem ptxScalarType_kind (spelling : String) : (ptxScalarType spelling).kind ≠ .aggregate := by
  unfold ptxScalarType
  split
  · decide
  · split <;> simp [floating, integer]

theorem parameterType_spec (aggregate : (parameterType parameter).kind = .aggregate) :
    ∃ elementType count, 0 < count ∧ parameter.byteSize = count * wordSize parameter ∧
      typeSize elementType = wordSize parameter ∧
      (parameterType parameter).elements = List.replicate count elementType ∧
      typeSize (parameterType parameter) = parameter.byteSize % 2 ^ 32 := by
  unfold parameterType at aggregate ⊢
  split at aggregate
  · cases aggregate
  next value =>
    rw [if_neg value]
    dsimp only at aggregate ⊢
    split at aggregate
    · exact absurd aggregate (ptxScalarType_kind _)
    next large =>
      rw [if_neg large]
      have words : typeSize (integer 32) = 4 := by decide
      have bytes : typeSize (integer 8) = 1 := by decide
      by_cases packed : parameter.byteSize % 4 = 0 ∧ 4 ≤ parameter.alignment
      · rw [if_pos packed, wordSize, if_pos packed]
        refine ⟨.integer 32, parameter.byteSize / 4, by omega, by omega, words, rfl, ?_⟩
        change totalSize _ = _
        rw [totalSize_replicate, words, Nat.div_mul_cancel (Nat.dvd_of_mod_eq_zero packed.1)]
      · rw [if_neg packed, wordSize, if_neg packed]
        refine ⟨.integer 8, parameter.byteSize, by omega, by omega, bytes, rfl, ?_⟩
        change totalSize _ = _
        rw [totalSize_replicate, bytes, mul_one]

theorem wordSize_pos (parameter : PtxParameter) : 0 < wordSize parameter := by
  unfold wordSize
  split <;> decide

def pieces (fields : Fields) : List (Int × Nat) :=
  fields.map fun field => (field.1, typeSize field.2.type)

theorem keys_pieces (fields : Fields) : (pieces fields).map Prod.fst = fields.map Prod.fst := by
  simp [pieces]

theorem mem_pieces (distinct : (fields.map Prod.fst).Nodup) {size : Nat} :
    (offset, size) ∈ pieces fields ↔
      ∃ field, fields.find? offset = some field ∧ typeSize field.type = size := by
  simp only [pieces, mem_map, Prod.mk.injEq, AssocMap.find?_eq_some_iff distinct]
  constructor
  · rintro ⟨⟨offset', field⟩, mem, rfl, rfl⟩
    exact ⟨field, mem, rfl⟩
  · rintro ⟨field, mem, rfl⟩
    exact ⟨_, mem, rfl, rfl⟩

/-- One field for each word, and no others. -/
structure FillsWords (parameter : PtxParameter) (fields : Fields) : Prop where
  small : parameter.byteSize < 2 ^ 32
  tiles : Tiles parameter.byteSize (pieces fields)
  words : ∀ piece ∈ pieces fields, piece.2 = wordSize parameter

theorem fillsWords_iff (distinct : (fields.map Prod.fst).Nodup)
    (size : parameter.byteSize = count * wordSize parameter)
    (element : typeSize elementType = wordSize parameter) :
    FillsWords parameter fields ↔ parameter.byteSize < 2 ^ 32 ∧ fields.length = count ∧
      ∀ i < count, HasField fields elementType (0 + i * typeSize elementType) := by
  have length : (pieces fields).length = fields.length := length_map _
  have keys : ((pieces fields).map Prod.fst).Nodup := by rw [keys_pieces]; exact distinct
  have positive := wordSize_pos parameter
  have field_iff : ∀ i : Nat, HasField fields elementType (0 + i * typeSize elementType) ↔
      ((i : Int) * wordSize parameter, wordSize parameter) ∈ pieces fields := by
    intro i
    rw [mem_pieces distinct, zero_add, element, HasField, element]
  simp only [field_iff]
  constructor
  · rintro ⟨small, tiles, words⟩
    rw [size] at tiles
    obtain ⟨count_eq, all⟩ := (tiles_even_iff positive keys words).mp tiles
    exact ⟨small, length ▸ count_eq, all⟩
  · rintro ⟨small, count_eq, all⟩
    have words : ∀ piece ∈ pieces fields, piece.2 = wordSize parameter := by
      intro piece mem
      have perm := perm_evenPieces positive (length.trans count_eq) all
      obtain ⟨i, -, rfl⟩ := mem_evenPieces.mp (perm.mem_iff.mpr mem)
      rfl
    refine ⟨small, ?_, words⟩
    rw [size]
    exact (tiles_even_iff positive keys words).mpr ⟨length.trans count_eq, all⟩

/-! ## The aggregate -/

/-- The aggregate of an aggregate parameter: it is refused, or it is gathered from the words. -/
theorem materializeAggregate_spec (aggregate : (parameterType parameter).kind = .aggregate)
    (distinct : (fields.map Prod.fst).Nodup) (description : String) (location : SourceLocation)
    (next : ValueId) :
    (¬ FillsWords parameter fields ∧ ∃ message, materializeAggregate (parameterType parameter)
      fields description location next = .error message) ∨
    (FillsWords parameter fields ∧ ∃ elementType count gathered,
      parameter.byteSize = count * wordSize parameter ∧
      typeSize elementType = wordSize parameter ∧
      (∀ i < count, HasField fields elementType (0 + i * typeSize elementType)) ∧
      Gathers fields elementType count 0 next gathered ∧
      materializeAggregate (parameterType parameter) fields description location next =
        .ok (.valueRef gathered.next (parameterType parameter), gathered.operations ++
          [{ opcode := .aggregateConstruct, attributes := [("aggregate_init", "true")], location
             operands := gathered.operands, results := [gathered.next]
             resultTypes := [parameterType parameter] }])) := by
  obtain ⟨elementType, count, positive, size, element, elements, total⟩ :=
    parameterType_spec aggregate
  rw [fillsWords_iff distinct size element]
  have nonempty : ¬ ((parameterType parameter).kind ≠ .aggregate ∨
      (parameterType parameter).elements.isEmpty = true) := by
    rw [elements, not_or, not_not, List.isEmpty_iff, ← List.length_eq_zero_iff,
      length_replicate]
    exact ⟨aggregate, positive.ne'⟩
  rw [materializeAggregate, if_neg nonempty, elements, length_replicate]
  by_cases counted : fields.length = count
  · rw [if_neg (not_not.mpr counted)]
    rcases gatherFields_replicate fields description location elementType count 0 next with
      ⟨message, refused, lacking⟩ | ⟨gathered, gathering, all, gathers⟩
    · rw [refused]
      exact .inl ⟨fun fills => lacking fills.2.2, _, rfl⟩
    · rw [gathering]
      simp only [gathers.byteOffset, total, element]
      by_cases small : parameter.byteSize < 2 ^ 32
      · refine .inr ⟨⟨small, counted, ?_⟩, elementType, count, gathered, size, element, all,
          gathers, ?_⟩
        · simpa only [element] using all
        · rw [if_neg (by rw [Nat.mod_eq_of_lt small, size]; push_cast; omega)]
      · refine .inl ⟨fun fills => small fills.1, ?_⟩
        rw [if_pos (by rw [size] at small ⊢; push_cast; omega)]
        exact ⟨_, rfl⟩
  · rw [if_pos counted]
    exact .inl ⟨fun fills => counted fills.2.1, _, rfl⟩

variable {bytes : Nat → List UInt8}

theorem getElem?_flatMap_words {width : Nat} (even : ∀ i < count, (bytes i).length = width)
    {i k : Nat} (word : i < count) (byte : k < width) :
    ((List.range count).flatMap bytes)[i * width + k]? = (bytes i)[k]? := by
  induction count generalizing i bytes with
  | zero => exact absurd word (Nat.not_lt_zero i)
  | succ count ih =>
    have first := even 0 (Nat.succ_pos count)
    rw [range_succ_eq_map, flatMap_cons, flatMap_map]
    cases i with
    | zero => rw [getElem?_append_left (by omega), Nat.zero_mul, zero_add]
    | succ i =>
      rw [getElem?_append_right (by rw [first, Nat.succ_mul]; omega), first]
      have index : (i + 1) * width + k - width = i * width + k := by
        rw [Nat.succ_mul]
        omega
      rw [index]
      exact ih (fun j below => even (j + 1) (Nat.succ_lt_succ below))
        (Nat.lt_of_succ_lt_succ word)

theorem length_flatMap_words {width : Nat} (even : ∀ i < count, (bytes i).length = width) :
    ((List.range count).flatMap bytes).length = count * width := by
  have lengths : (range count).map (fun i => (bytes i).length) =
      replicate count width := by
    rw [eq_replicate_iff]
    refine ⟨by simp, fun length mem => ?_⟩
    obtain ⟨i, below, rfl⟩ := mem_map.mp mem
    exact even i (mem_range.mp below)
  rw [length_flatMap, lengths, sum_replicate_nat]

theorem FillsWords.exists_word (fills : FillsWords parameter fields)
    (distinct : (fields.map Prod.fst).Nodup)
    (size : parameter.byteSize = count * wordSize parameter)
    (found : fields.find? offset = some field) :
    typeSize field.type = wordSize parameter ∧
      ∃ i < count, offset = (i : Int) * wordSize parameter := by
  have mem := (mem_pieces distinct).mpr ⟨field, found, rfl⟩
  have word := fills.words _ mem
  refine ⟨word, ?_⟩
  have positive := wordSize_pos parameter
  have keys : ((pieces fields).map Prod.fst).Nodup := by rw [keys_pieces]; exact distinct
  obtain ⟨length, all⟩ := (tiles_even_iff positive keys fills.words).mp (size ▸ fills.tiles)
  obtain ⟨i, below, same⟩ := mem_evenPieces.mp
    ((perm_evenPieces positive length all).mem_iff.mpr mem)
  exact ⟨i, below, (congrArg Prod.fst same).symm⟩

/-- The bytes of the fields' values have the sizes of their types. -/
def WellTyped (literal : Operand → List UInt8) (values : Values) (fields : Fields) : Prop :=
  ∀ offset field, fields.find? offset = some field →
    (field.bytes literal values).length = typeSize field.type

/-- An aggregate parameter or return is built exactly if the fields that were stored tile its bytes
word by word, and then its bytes are those of the fields stored last. -/
theorem materializeAggregate_exact {parameter : PtxParameter}
    (aggregate : (parameterType parameter).kind = .aggregate) {stores : List (Int × Operand)}
    {fields : Fields} (stored : storeFields stores = .ok fields) (description : String)
    (location : SourceLocation) (next : ValueId) :
    ((∃ built, materializeAggregate (parameterType parameter) fields description location next =
        .ok built) ↔ FillsWords parameter fields) ∧
    ∀ value operations, materializeAggregate (parameterType parameter) fields description location
        next = .ok (value, operations) →
      ∀ literal values, Old fields next → WellTyped literal values fields →
        (value.bytes literal (computeAll literal operations values)).length = parameter.byteSize ∧
        ∀ offset field, lastStored stores offset = some field → ∀ k < typeSize field.type,
          (value.bytes literal (computeAll literal operations values))[offset.toNat + k]? =
            (field.bytes literal values)[k]? := by
  obtain ⟨distinct, finds⟩ := storeFields_spec stored
  rcases materializeAggregate_spec aggregate distinct description location next with
    ⟨misfit, message, refused⟩ |
    ⟨fills, elementType, count, gathered, size, element, all, gathers, built⟩
  · rw [refused]
    exact ⟨⟨fun ⟨_, succeeds⟩ => (by cases succeeds), fun fills => absurd fills misfit⟩,
      fun _ _ succeeds => (by cases succeeds)⟩
  · rw [built]
    refine ⟨⟨fun _ => fills, fun _ => ⟨_, rfl⟩⟩, ?_⟩
    rintro value operations succeeds literal values old typed
    cases succeeds
    have computed : (valueRef gathered.next (parameterType parameter)).bytes literal
        (computeAll literal (gathered.operations ++
          [{ opcode := .aggregateConstruct, attributes := [("aggregate_init", "true")], location
             operands := gathered.operands, results := [gathered.next]
             resultTypes := [parameterType parameter] }]) values) =
        (range count).flatMap fun i : Nat =>
          fieldBytes literal values fields (0 + i * typeSize elementType) := by
      rw [← gathers.bytes literal values old, computeAll_append, valueRef, bytes,
        if_pos rfl]
      exact Function.update_self ..
    have even : ∀ i < count,
        (fieldBytes literal values fields (0 + i * typeSize elementType)).length =
          wordSize parameter := by
      intro i below
      obtain ⟨field, found, same⟩ := all i below
      rw [fieldBytes, found, Option.elim_some, typed _ field found, same, element]
    rw [computed]
    refine ⟨by rw [length_flatMap_words even, size], ?_⟩
    intro offset field last k inside
    rw [← finds] at last
    obtain ⟨word, i, below, rfl⟩ := fills.exists_word distinct size last
    rw [word] at inside
    have index : ((i : Int) * wordSize parameter).toNat = i * wordSize parameter := by
      rw [← Nat.cast_mul, Int.toNat_natCast]
    rw [index, getElem?_flatMap_words even below inside, fieldBytes, zero_add, element, last,
      Option.elim_some]

def eightBytes : PtxParameter := ⟨".b8", "record", false, 8, 8⟩

/-- Its two words, the second one first, and one of them twice. -/
def twoWords : List (Int × Operand) :=
  [(4, .valueRef 1 (floating 32)), (0, .valueRef 1 (integer 32)), (0, .valueRef 2 (integer 32))]

theorem materializeAggregate_exact_twoWords :
    ∃ value operations, materializeAggregate (parameterType eightBytes)
      [(4, .valueRef 1 (floating 32)), (0, .valueRef 2 (integer 32))] "return" {} 3 =
        .ok (value, operations) ∧
      (value.bytes (fun _ => []) (computeAll (fun _ => []) operations
        fun v => List.replicate 4 (UInt8.ofNat v))).length = 8 := by
  have aggregate : (parameterType eightBytes).kind = .aggregate := by decide +kernel
  have stored : storeFields twoWords =
    .ok [(4, .valueRef 1 (floating 32)), (0, .valueRef 2 (integer 32))] := rfl
  have words : ∀ binding ∈
      ([(4, .valueRef 1 (floating 32)), (0, .valueRef 2 (integer 32))] : Fields),
      binding.2.value < 3 ∧ binding.2.kind = .value ∧ typeSize binding.2.type = 4 := by
    decide +kernel
  cases built : materializeAggregate (parameterType eightBytes)
      [(4, .valueRef 1 (floating 32)), (0, .valueRef 2 (integer 32))] "return" {} 3 with
  | error message => cases built
  | ok result =>
    refine ⟨result.1, result.2, rfl,
      ((materializeAggregate_exact aggregate stored "return" {} 3).2 result.1 result.2 built _ _
        ?_ ?_).1⟩
    · intro offset field found _
      exact (words _ (AssocMap.mem_of_find? found)).1
    · intro offset field found
      obtain ⟨-, kind, size⟩ := words _ (AssocMap.mem_of_find? found)
      rw [bytes, if_pos kind, length_replicate, size]

/-- One field of eight bytes. -/
theorem wideField_refused : ¬ ∀ (parameter : PtxParameter) (stores : List (Int × Operand))
    (fields : Fields) (description : String) (location : SourceLocation) (next : ValueId),
    (parameterType parameter).kind = .aggregate → storeFields stores = .ok fields →
      ((∃ built, materializeAggregate (parameterType parameter) fields description location next =
        .ok built) ↔ Tiles parameter.byteSize (pieces fields)) := by
  intro tiling
  have tiles : Tiles 8 [(0, 8)] := by
    constructor
    · intro piece mem
      cases mem_singleton.mp mem
      decide
    · intro byte low high
      exact ⟨_, mem_singleton_self _, low, by simpa using high⟩
    · intro piece mem other mem' _ _ _
      exact (mem_singleton.mp mem).trans (mem_singleton.mp mem').symm
  obtain ⟨built, succeeds⟩ := (tiling eightBytes [(0, .valueRef 1 (integer 64))] _ "return" {} 2
    (by decide +kernel) rfl).mpr tiles
  cases succeeds

end CuMetal.Ir
