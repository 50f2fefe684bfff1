import CuMetal.Ir.MemoryAddresses
import CuMetal.Lib.Except
import CuMetal.Lib.TextSearch

/-!
# What emitted accesses address

The opcodes of PTX accesses, and what the operations that are emitted for them access.
-/

namespace CuMetal.Ir

open List

open Ptx (rootOpcode firstRegister registersIn parameterNameFromOperand memoryOperandOffset
  memoryOperand BaseName Displacement)
open IrType

/-- How many elements an access moves. -/
inductive VectorWidth
  | one | two | four | eight
  deriving DecidableEq, Repr

namespace VectorWidth

def lanes : VectorWidth → Nat
  | .one => 1 | .two => 2 | .four => 4 | .eight => 8

def words : VectorWidth → List String
  | .one => [] | .two => ["v2"] | .four => ["v4"] | .eight => ["v8"]

end VectorWidth

/-- The element types of memory accesses and their sizes in bytes. -/
def elementTypes : List (String × Nat) :=
  [("b8", 1), ("b16", 2), ("b32", 4), ("b64", 8), ("b128", 16),
    ("u8", 1), ("u16", 2), ("u32", 4), ("u64", 8), ("s8", 1), ("s16", 2), ("s32", 4), ("s64", 8),
    ("f16", 2), ("f32", 4), ("f64", 8), ("f16x2", 4), ("bf16", 2), ("bf16x2", 4)]

/-- The opcode of a memory access. -/
structure AccessOpcode where
  root : String
  modifiers : List String
  width : VectorWidth
  type : String
  bytes : Nat
  root_known : root ∈ ["ld", "st", "atom", "red"]
  /-- Parameters are not in memory. -/
  modifiers_clean : ∀ modifier ∈ modifiers, '.' ∉ modifier.toList ∧
    modifier ∉ ["v2", "v4", "v8"] ∧ ¬ "param".toList <+: modifier.toList
  type_known : (type, bytes) ∈ elementTypes

namespace AccessOpcode

variable (opcode : AccessOpcode)

def words : List String := opcode.modifiers ++ opcode.width.words ++ [opcode.type]

def spelling : String :=
  String.ofList (withSeparators '.' opcode.root.toList (opcode.words.map String.toList))

theorem clean_root : '.' ∉ opcode.root.toList := by
  have all : ∀ root ∈ ["ld", "st", "atom", "red"], '.' ∉ root.toList := by decide
  exact all _ opcode.root_known

theorem clean_words : ∀ word ∈ opcode.words.map String.toList, '.' ∉ word := by
  intro word mem
  obtain ⟨word, listed, rfl⟩ := mem_map.mp mem
  have widths : ∀ width : VectorWidth, ∀ word ∈ width.words, '.' ∉ word.toList := by
    intro width
    cases width <;> decide
  have types : ∀ entry ∈ elementTypes, '.' ∉ entry.1.toList := by decide
  rcases mem_append.mp listed with front | last
  · rcases mem_append.mp front with modifier | width
    · exact (opcode.modifiers_clean word modifier).1
    · exact widths _ word width
  · rw [mem_singleton.mp last]
    exact types _ opcode.type_known

theorem rootOpcode_spelling : rootOpcode opcode.spelling = opcode.root := by
  have some_ : opcode.words.map String.toList ≠ [] := by simp [words]
  have kept : ∀ c ∈ opcode.root.toList, decide (c ≠ '.') = true := by
    intro c mem
    rw [decide_eq_true_iff]
    rintro rfl
    exact opcode.clean_root mem
  obtain ⟨word, rest, same⟩ := exists_cons_of_ne_nil some_
  rw [rootOpcode, spelling, String.toList_ofList, same, withSeparators,
    takeWhile_append_of_pos kept, flatMap_cons, cons_append,
    takeWhile_cons_of_neg (by simp), append_nil, String.ofList_toList]

theorem mentions_inner (word : String) (clean : '.' ∉ word.toList)
    (known : word ∈ ["v2", "v4", "v8"]) :
    mentions opcode.spelling ("." ++ word ++ ".") = true ↔ word ∈ opcode.width.words := by
  have pattern : ("." ++ word ++ ".").toList = '.' :: (word.toList ++ ['.']) := by simp
  rw [mentions, decide_eq_true_iff, pattern, spelling, String.toList_ofList,
    inner_word clean opcode.clean_root opcode.clean_words, words, map_append, map_append,
    map_singleton, dropLast_concat, mem_append, or_iff_right]
  · rw [mem_map_of_injective fun _ _ same => String.toList_inj.mp same]
  · intro mem
    obtain ⟨modifier, mem, same⟩ := mem_map.mp mem
    rw [String.toList_inj.mp same] at mem
    exact (opcode.modifiers_clean word mem).2.1 known

/-- The lanes that the importer makes of a width. -/
def lanesFound : Nat :=
  match opcode.width with
  | .eight => 1
  | width => width.lanes

theorem memoryVectorWidth_spelling : memoryVectorWidth opcode.spelling = opcode.lanesFound := by
  have four := opcode.mentions_inner "v4" (by decide) (by decide)
  have two := opcode.mentions_inner "v2" (by decide) (by decide)
  have fours : "." ++ "v4" ++ "." = ".v4." := by decide
  have twos : "." ++ "v2" ++ "." = ".v2." := by decide
  rw [fours] at four
  rw [twos] at two
  unfold memoryVectorWidth lanesFound
  simp only [four, two]
  cases opcode.width <;> rfl

theorem bytes_le : opcode.bytes ≤ 16 := by
  have all : ∀ entry ∈ elementTypes, entry.2 ≤ 16 := by decide
  exact all _ opcode.type_known

end AccessOpcode

/-- What the values of a function and the names in it stand for. -/
structure Meaning where
  value : ValueId → BitVec 64
  symbol : String → BitVec 64

/-- What an access moves. -/
inductive Transfer
  | into (results : List ValueId)
  | from_ (stored : BitVec 64)
  deriving DecidableEq

/-- An access to memory. -/
structure Access where
  address : BitVec 64
  transfer : Transfer
  deriving DecidableEq

namespace Meaning

def decimal (text : String) : Option Int :=
  match Numerals.leadingInt text.toList with
  | some number => if toString number = text then some number else none
  | none => none

/-- What an operand stands for: an immediate that spells no number stands for anything. -/
def operand (meaning : Meaning) (operand : Operand) : BitVec 64 :=
  match operand.kind with
  | .value => meaning.value operand.value
  | .symbol => meaning.symbol operand.text
  | .immediate =>
    match decimal operand.text with
    | some number => BitVec.ofInt 64 number
    | none => meaning.symbol operand.text

def assign (meaning : Meaning) (result : ValueId) (word : BitVec 64) : Meaning :=
  { meaning with value := fun value => if value = result then word else meaning.value value }

/-- The meaning in which one name stands for a word and everything else for zero. -/
def point (name : String) (word : BitVec 64) : Meaning where
  value := fun _ => 0
  symbol := fun other => if other = name then word else 0

def offsetUnit (operation : Operation) : Nat :=
  if operation.attributes.find? "offset_unit" = some "bytes" then 1
  else
    match operation.operands with
    | base :: _ => (base.type.elements.head?.map typeSize).getD 1
    | [] => 1

/-- One operation. What is loaded is not followed: no address of the instruction depends on it. -/
def step (meaning : Meaning) (operation : Operation) : Meaning × List Access :=
  match operation.opcode, operation.results, operation.operands with
  | .pointerOffset, [result], [base, offset] =>
    (meaning.assign result (meaning.operand base +
      meaning.operand offset * BitVec.ofNat 64 (offsetUnit operation)), [])
  | .addressSpaceCast, [result], [source] => (meaning.assign result (meaning.operand source), [])
  | .convert, [result], [source] => (meaning.assign result (meaning.operand source), [])
  | .load, results, address :: _ => (meaning, [⟨meaning.operand address, .into results⟩])
  | .atomic, results, address :: _ => (meaning, [⟨meaning.operand address, .into results⟩])
  | .store, _, address :: stored :: _ =>
    (meaning, [⟨meaning.operand address, .from_ (meaning.operand stored)⟩])
  | _, _, _ => (meaning, [])

/-- The accesses of operations in order. -/
def run : Meaning → List Operation → Meaning × List Access
  | meaning, [] => (meaning, [])
  | meaning, operation :: operations =>
    let (next, accesses) := meaning.step operation
    let (last, rest) := run next operations
    (last, accesses ++ rest)

theorem run_append (meaning : Meaning) (first second : List Operation) :
    meaning.run (first ++ second) =
      (((meaning.run first).1.run second).1,
        (meaning.run first).2 ++ ((meaning.run first).1.run second).2) := by
  induction first generalizing meaning with
  | nil => rfl
  | cons operation first ih =>
    simp only [cons_append, run, ih, append_assoc]

theorem run_snoc (meaning : Meaning) (operations : List Operation) (operation : Operation) :
    meaning.run (operations ++ [operation]) =
      (((meaning.run operations).1.step operation).1,
        (meaning.run operations).2 ++ ((meaning.run operations).1.step operation).2) := by
  rw [run_append]
  simp [run]

theorem decimal_toString (number : Int) : decimal (toString number) = some number := by
  rw [decimal, Numerals.leadingInt_toString]
  exact if_pos rfl

@[simp] theorem operand_immediate (meaning : Meaning) (number : Int) (type : IrType) :
    meaning.operand (.immediate (toString number) type) = BitVec.ofInt 64 number := by
  show (match decimal (toString number) with
    | some number => BitVec.ofInt 64 number
    | none => meaning.symbol (toString number)) = _
  rw [decimal_toString]

@[simp] theorem operand_valueRef (meaning : Meaning) (value : ValueId) (type : IrType) :
    meaning.operand (.valueRef value type) = meaning.value value := rfl

@[simp] theorem operand_retyped (meaning : Meaning) (operand : Operand) (type : IrType) :
    meaning.operand { operand with type := type } = meaning.operand operand := rfl

end Meaning

/-- An operand whose value, if it is one, is below the next free value. -/
def Operand.Below (operand : Operand) (next : ValueId) : Prop :=
  operand.kind = .value → operand.value < next

variable {operand : Operand} {next : ValueId}

theorem Operand.Below.mono {later : ValueId} (below : operand.Below next) (le : next ≤ later) :
    operand.Below later :=
  fun kind => lt_of_lt_of_le (below kind) le

theorem Operand.below_valueRef {value : ValueId} (less : value < next) (type : IrType) :
    (Operand.valueRef value type).Below next := fun _ => less

/-- From one emission to a later one: the values so far keep their meaning, and the new operations
make the accesses. -/
structure Emission.Step (start : Meaning) (first : Emission) (last : Emission)
    (accesses : List Access) : Prop where
  grows : first.next ≤ last.next
  keeps : ∀ operand : Operand, operand.Below first.next →
    (start.run last.operations).1.operand operand = (start.run first.operations).1.operand operand
  accessed : (start.run last.operations).2 = (start.run first.operations).2 ++ accesses

namespace Emission

variable {start : Meaning} {first middle last emission : Emission} {accesses more : List Access}

theorem Step.refl (start : Meaning) (emission : Emission) : emission.Step start emission [] :=
  ⟨Nat.le.refl, fun _ _ => rfl, (append_nil _).symm⟩

theorem Step.trans (before : first.Step start middle accesses)
    (after : middle.Step start last more) :
    first.Step start last (accesses ++ more) where
  grows := le_trans before.grows after.grows
  keeps operand below := by
    rw [after.keeps operand (below.mono before.grows), before.keeps operand below]
  accessed := by rw [after.accessed, before.accessed, append_assoc]

theorem operand_assign {meaning : Meaning} (word : BitVec 64) (below : operand.Below next) :
    (meaning.assign next word).operand operand =
      meaning.operand operand := by
  unfold Meaning.operand
  cases kind : operand.kind with
  | value =>
    have other : operand.value ≠ next := ne_of_lt (below kind)
    simp [Meaning.assign, other]
  | symbol => rfl
  | immediate => rfl

theorem emit_step (start : Meaning) (emission : Emission) (operation : Operation) (type : IrType)
    (word : BitVec 64)
    (assigns : (start.run emission.operations).1.step
      { operation with results := [emission.next], resultTypes := [type] } =
        ((start.run emission.operations).1.assign emission.next word, [])) :
    emission.Step start (emission.emit operation type).2 [] ∧
      (emission.emit operation type).1.Below (emission.emit operation type).2.next ∧
        (start.run (emission.emit operation type).2.operations).1.operand
          (emission.emit operation type).1 = word := by
  have ran := start.run_snoc emission.operations
    { operation with results := [emission.next], resultTypes := [type] }
  rw [assigns] at ran
  refine ⟨⟨Nat.le_succ _, fun operand below => ?_, ?_⟩, fun _ => Nat.lt_succ_self _, ?_⟩
  · rw [emit, ran]
    exact operand_assign word below
  · rw [emit, ran]
  · rw [emit, ran, Meaning.operand_valueRef]
    simp [Meaning.assign]

theorem push_step {operation : Operation} {access : Access}
    (accesses : (start.run emission.operations).1.step operation =
      ((start.run emission.operations).1, [access])) :
    emission.Step start (emission.push operation) [access] := by
  have ran := start.run_snoc emission.operations operation
  rw [accesses] at ran
  exact ⟨Nat.le.refl, fun operand below => by rw [push, ran], by rw [push, ran]⟩

/-- What an emission of a new operand does. -/
structure Gives (start : Meaning) (emission : Emission) (given : Operand × Emission)
    (word : BitVec 64) : Prop where
  step : emission.Step start given.2 []
  below : given.1.Below given.2.next
  word_eq : (start.run given.2.operations).1.operand given.1 = word

theorem gives_self (below : operand.Below emission.next) :
    emission.Gives start (operand, emission)
      ((start.run emission.operations).1.operand operand) :=
  ⟨.refl start emission, below, rfl⟩

theorem Gives.trans {given next : Operand × Emission} {word word' : BitVec 64}
    (before : emission.Gives start given word) (after : given.2.Gives start next word') :
    emission.Gives start next word' :=
  ⟨before.step.trans after.step, after.below, after.word_eq⟩

theorem offsetBytes_gives (start : Meaning) (emission : Emission) (base : Operand) (bytes : Int) :
    emission.Gives start (emission.offsetBytes base bytes)
      ((start.run emission.operations).1.operand base + BitVec.ofInt 64 bytes) := by
  have emitted := emit_step start emission
    { opcode := .pointerOffset, operands := [base, .immediate (toString bytes) (.integer 64)]
      attributes := [("offset_unit", "bytes")] } base.type
    ((start.run emission.operations).1.operand base + BitVec.ofInt 64 bytes)
    (by
      have unit : Meaning.offsetUnit
          { opcode := .pointerOffset, results := [emission.next], resultTypes := [base.type]
            operands := [base, .immediate (toString bytes) (.integer 64)]
            attributes := [("offset_unit", "bytes")] } = 1 := rfl
      simp only [Meaning.step, unit, Meaning.operand_immediate]
      rw [show BitVec.ofNat 64 1 = 1#64 from rfl, BitVec.mul_one])
  exact ⟨emitted.1, emitted.2.1, emitted.2.2⟩

theorem container_gives (start : Meaning) (below : operand.Below emission.next)
    (expected : IrType) :
    emission.Gives start (emission.container operand expected)
      ((start.run emission.operations).1.operand operand) := by
  unfold container bitContainerOf
  split
  · next converted same =>
    split at same
    · simp at same
    · simp only [Prod.mk.injEq] at same
      rw [← same.1]
      exact gives_self below
  · next converted conversions _ same =>
    split at same
    · simp only [Prod.mk.injEq] at same
      obtain ⟨rfl, rfl⟩ := same
      have emitted := emit_step start emission
        { opcode := .convert, operands := [operand], attributes := [("bitcast", "true")] } expected
        ((start.run emission.operations).1.operand operand) rfl
      exact ⟨emitted.1, emitted.2.1, emitted.2.2⟩
    · simp_all

/-- Operations for each lane: each lane makes its access wherever its operations begin. -/
theorem lanes_step {emitLane : Emission → Nat → Except String Emission} (access : Nat → Access)
    (each : ∀ {emission next : Emission} {lane : Nat} {accesses : List Access},
      first.Step start emission accesses → emitLane emission lane = .ok next →
        emission.Step start next [access lane])
    {lanes : List Nat} (before : first.Step start emission accesses)
    (emitted : lanes.foldlM emitLane emission = .ok last) :
    emission.Step start last (lanes.map access) := by
  induction lanes generalizing emission accesses with
  | nil =>
    cases emitted
    exact .refl start _
  | cons lane lanes ih =>
    rw [foldlM_cons] at emitted
    obtain ⟨next, here, emitted⟩ := bind_eq_ok emitted
    have step := each before here
    exact step.trans (ih (before.trans step) emitted)

end Emission

end CuMetal.Ir
