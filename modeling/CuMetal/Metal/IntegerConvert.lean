import CuMetal.Ir.PtxImport
import CuMetal.Metal.LowerIntegers
import CuMetal.Metal.MslSemantics

/-!
# Conversions between PTX integers

The MSL that is made of `cvt` between integer types. The source register may be wider than the
source type of the instruction, and its value may have come from an instruction of another type: the
variable in MSL then holds the low bits of the register only.
-/

namespace CuMetal.Metal

open AstLowerer IntegerValue Ir

open Ir (Operand Operation ValueId)

def integerWidths : List Nat := [8, 16, 32, 64]

def integerPart (signed : Bool) (bits : Nat) : String :=
  (if signed then ".s" else ".u") ++ toString bits

/-- The opcode of a conversion between integer types. -/
def cvtOpcode (resultSigned : Bool) (resultBits : Nat) (sourceSigned : Bool) (sourceBits : Nat) :
    String :=
  "cvt" ++ integerPart resultSigned resultBits ++ integerPart sourceSigned sourceBits

section Prescribed

variable (signed : Bool) (sourceBits resultBits : Nat) {width : Nat} (register : BitVec width)

/-- The low bits of the register as a number of the source type, in the result type. -/
def prescribedConversion : BitVec resultBits :=
  let low := register.setWidth sourceBits
  if signed then low.signExtend resultBits else low.setWidth resultBits

/-- Between the width of the variable and that of the source type, below that of the result, the
bits of the register repeat the sign of the narrower one, or are zero: the variable then has the
source value extended. -/
def ExtendsLow (held : Nat) : Prop :=
  ∀ i, min held sourceBits ≤ i → i < min resultBits (max held sourceBits) →
    register.getLsbD i = (signed && register.getLsbD (min held sourceBits - 1))

end Prescribed

variable {resultBits sourceBits width bits : Nat}

theorem importer_on_cvt (resultSigned sourceSigned : Bool)
    (result : resultBits ∈ integerWidths) (source : sourceBits ∈ integerWidths) :
    let opcode := cvtOpcode resultSigned resultBits sourceSigned sourceBits
    ptxCvtResultType opcode = .integer resultBits ∧
      ptxCvtSourceType opcode = .integer sourceBits ∧
      cvtHasSignedSource opcode = sourceSigned := by
  have all : ∀ resultSigned sourceSigned : Bool, ∀ resultBits ∈ integerWidths,
      ∀ sourceBits ∈ integerWidths,
        let opcode := cvtOpcode resultSigned resultBits sourceSigned sourceBits
        ptxCvtResultType opcode = .integer resultBits ∧
          ptxCvtSourceType opcode = .integer sourceBits ∧
          cvtHasSignedSource opcode = sourceSigned := by
    decide +kernel
  exact all resultSigned sourceSigned resultBits result sourceBits source

/-- The operation that a conversion between integer types is imported as. -/
def convertOperation (sourceSigned : Bool) (resultBits : Nat) (register : Operand)
    (result : ValueId) : Operation :=
  { opcode := .convert, results := [result], resultTypes := [.integer resultBits]
    operands := [register]
    attributes := if sourceSigned then [("signed_input", "true")] else [] }

theorem translateConvert_cvt (resultSigned sourceSigned : Bool)
    (knownResult : resultBits ∈ integerWidths) (knownSource : sourceBits ∈ integerWidths)
    (register : Operand) (result fresh : ValueId) :
    let (operand, conversions) := bitContainerOf register (.integer sourceBits) fresh
    translateConvert (cvtOpcode resultSigned resultBits sourceSigned sourceBits) register result
        fresh =
      conversions ++ [convertOperation sourceSigned resultBits operand result] := by
  obtain ⟨resultType, sourceType, signed⟩ :=
    importer_on_cvt resultSigned sourceSigned knownResult knownSource
  rw [translateConvert, resultType, sourceType, signed]
  rfl

/-- The types of the values that a register can have, with the widths of their variables: an integer
type, the bits of a floating-point number of the source type's width, or a double, which is kept as
its bits. Another floating-point number is converted by its value. -/
inductive HeldAs (sourceBits : Nat) : IrType → Nat → Prop
  | integer {held : Nat} (known : held ∈ integerWidths) : HeldAs sourceBits (.integer held) held
  | float : HeldAs sourceBits (.floating sourceBits) sourceBits
  | double : HeldAs sourceBits (.floating 64) 64

/-- The operand of the conversion is an integer, after the bits of a floating-point number of the
source type's width were taken, or a double. -/
theorem HeldAs.container {register : Operand} {held : Nat}
    (type : HeldAs sourceBits register.type held) (knownSource : sourceBits ∈ integerWidths)
    (fresh : ValueId) :
    held ∈ integerWidths ∧
      ((bitContainerOf register (.integer sourceBits) fresh).1.type = .integer held ∨
        (bitContainerOf register (.integer sourceBits) fresh).1.type = .floating 64 ∧
          held = 64) := by
  generalize same : register.type = registerType at type
  cases type with
  | integer known =>
    refine ⟨known, .inl ?_⟩
    simp [bitContainerOf, same, Ir.IrType.integer]
  | float =>
    refine ⟨knownSource, .inl ?_⟩
    simp [bitContainerOf, same, Ir.IrType.integer, Ir.IrType.floating, Ir.Operand.valueRef]
  | double =>
    refine ⟨by decide, ?_⟩
    by_cases whole : sourceBits = 64
    · left
      simp [bitContainerOf, same, whole, Ir.IrType.integer, Ir.IrType.floating,
        Ir.Operand.valueRef]
    · right
      simp [bitContainerOf, same, Ne.symm whole, Ir.IrType.integer, Ir.IrType.floating]

theorem spelledWidth_of_mem (known : bits ∈ integerWidths) : spelledWidth bits = bits := by
  have all : ∀ bits ∈ integerWidths, spelledWidth bits = bits := by decide
  exact all bits known

theorem lowerType_of_mem (known : bits ∈ integerWidths) :
    lowerType (.integer bits) = .uint bits := by
  have all : ∀ bits ∈ integerWidths, bits ≠ 1 := by decide
  exact if_neg (all bits known)

theorem evaluate_integerCast {locals : Locals} {machine : Machine} {e : MslExpression}
    {x : IntegerValue} (value : (evaluate locals e).run machine = some (.integer x, machine))
 (known : bits ∈ integerWidths) (signed : Bool) :
    (evaluate locals
        (.convertTo (if signed then .sint bits else .uint bits) e)).run machine =
      some (.integer ⟨signed, bits, x.converted bits⟩, machine) := by
  cases signed with
  | true =>
    have cast : convert (.sint bits) (.integer x) =
        some (.integer ⟨true, bits, x.converted bits⟩) := by
      rw [convert, spelledWidth_of_mem known]
    simp [evaluate, value, cast]
  | false =>
    have cast : convert (.uint bits) (.integer x) =
        some (.integer ⟨false, bits, x.converted bits⟩) := by
      rw [convert, spelledWidth_of_mem known]
    simp [evaluate, value, cast]

theorem lowerOperation_convertOperation (lowerer : AstLowerer) (sourceSigned : Bool)
    (resultBits : Nat) (register : Operand) (result : ValueId) :
    let operation := convertOperation sourceSigned resultBits register result
    lowerer.lowerOperation operation =
      if register.type = .integer resultBits then
        lowerer.declareResult operation (lowerer.expressionFor register)
      else
        lowerer.declareResult operation
          (.convertTo (lowerType (.integer resultBits))
            (signedCast operation "signed_input" register.type (lowerer.expressionFor register))) :=
  rfl

theorem getLsbD_converted (signed : Bool) (x : BitVec width) (target i : Nat) :
    (IntegerValue.converted ⟨signed, width, x⟩ target).getLsbD i =
      (decide (i < target) &&
        if i < width then x.getLsbD i else signed && x.getLsbD (width - 1)) := by
  unfold IntegerValue.converted
  cases signed with
  | true =>
    simp only [if_pos, Bool.true_and, BitVec.getLsbD_signExtend, BitVec.msb_eq_getLsbD_last]
  | false =>
    simp only [Bool.false_eq_true, if_false, BitVec.getLsbD_setWidth, Bool.false_and]
    by_cases inside : i < width
    · rw [if_pos inside]
    · rw [if_neg inside, BitVec.getLsbD_of_ge _ _ (Nat.le_of_not_lt inside)]

theorem converted_unsigned (signed : Bool) (x : BitVec width) {target : Nat}
    (narrow : target ≤ width) :
    converted ⟨false, width, x⟩ target = converted ⟨signed, width, x⟩ target := by
  apply BitVec.eq_of_getLsbD_eq
  intro i inside
  rw [getLsbD_converted, getLsbD_converted, if_pos (by omega), if_pos (by omega)]

/-- What a conversion makes of the variable of its operand. -/
theorem evaluate_convertOperation {sourceSigned : Bool}
    (knownResult : resultBits ∈ integerWidths) (knownWidth : width ∈ integerWidths)
    {operand : Operand}
    (type : operand.type = .integer width ∨ operand.type = .floating 64 ∧ width = 64)
    {result : ValueId} {lowerer after : AstLowerer} {statement : MslStatement}
    (lowered : lowerer.lowerOperation (convertOperation sourceSigned resultBits operand result) =
      .ok (after, statement)) :
    ∃ initializer, statement.assigned = some initializer ∧
      ∀ (locals : Locals) (machine : Machine) (content : BitVec width),
        (evaluate locals (lowerer.expressionFor operand)).run machine =
            some (.integer ⟨false, width, content⟩, machine) →
          (evaluate locals initializer).run machine =
            some (.integer ⟨false, resultBits,
              converted ⟨sourceSigned, width, content⟩ resultBits⟩, machine) := by
  rw [lowerOperation_convertOperation] at lowered
  rcases type with type | ⟨type, rfl⟩
  · rw [type] at lowered
    split at lowered
    · next same =>
        -- the variable has the width of the result and is passed on
        have width_ : width = resultBits := congrArg Ir.IrType.bitWidth same
        subst width_
        refine ⟨_, assigned_of_declareResult lowered, fun locals machine content value => ?_⟩
        rw [converted_self]
        exact value
    · refine ⟨_, assigned_of_declareResult lowered, fun locals machine content value => ?_⟩
      rw [lowerType_of_mem knownResult]
      refine evaluate_integerCast (x := ⟨sourceSigned, width, content⟩) ?_ knownResult false
      cases sourceSigned with
      | false => exact value
      | true =>
        have signed := evaluate_integerCast value knownWidth true
        rw [converted_self] at signed
        exact signed
  · -- no cast to a signed type; no result is wider than a double
    have float : Ir.IrType.floating 64 ≠ .integer resultBits := by
      simp [Ir.IrType.floating, Ir.IrType.integer]
    rw [type, if_neg float] at lowered
    refine ⟨_, assigned_of_declareResult lowered, fun locals machine content value => ?_⟩
    have most : ∀ bits ∈ integerWidths, bits ≤ 64 := by decide
    rw [lowerType_of_mem knownResult,
      ← converted_unsigned sourceSigned content (most _ knownResult)]
    have uncast : ∀ e, signedCast (convertOperation sourceSigned resultBits operand result)
        "signed_input" (.floating 64) e = e := fun e => if_neg fun both => nomatch both.2
    rw [uncast]
    exact evaluate_integerCast value knownResult false

theorem prescribedConversion_eq (signed : Bool) (sourceBits resultBits : Nat)
    (register : BitVec width) :
    prescribedConversion signed sourceBits resultBits register =
      converted ⟨signed, sourceBits, register.setWidth sourceBits⟩ resultBits := rfl

theorem converted_eq_prescribed_iff {signed : Bool} {held : Nat}
    (some_ : 0 < sourceBits) (heldSome : 0 < held) (register : BitVec width) :
    converted ⟨signed, held, register.setWidth held⟩ resultBits =
        prescribedConversion signed sourceBits resultBits register ↔
      ExtendsLow signed sourceBits resultBits register held := by
  have low : ∀ width i, i < width → (register.setWidth width).getLsbD i = register.getLsbD i :=
    fun width i inside => by rw [BitVec.getLsbD_setWidth, decide_eq_true inside, Bool.true_and]
  rw [prescribedConversion_eq]
  constructor
  · intro same i above below
    have bit := congrArg (BitVec.getLsbD · i) same
    simp only [getLsbD_converted] at bit
    rw [decide_eq_true (by omega), Bool.true_and, Bool.true_and] at bit
    rcases Nat.le_total held sourceBits with narrow | wide
    · rw [if_neg (by omega), if_pos (by omega), low _ _ (by omega), low _ _ (by omega)] at bit
      rw [Nat.min_eq_left narrow]
      exact bit.symm
    · rw [if_pos (by omega), if_neg (by omega), low _ _ (by omega), low _ _ (by omega)] at bit
      rw [Nat.min_eq_right wide]
      exact bit
  · intro extends_
    apply BitVec.eq_of_getLsbD_eq
    intro i inside
    rw [getLsbD_converted, getLsbD_converted, decide_eq_true inside, Bool.true_and, Bool.true_and,
      low held (held - 1) (by omega), low sourceBits (sourceBits - 1) (by omega)]
    -- the bits from one width up to the other are those of the condition, and above both the last
    -- of them is repeated
    have sign : ∀ j, min held sourceBits ≤ j → j < min resultBits (max held sourceBits) →
        (signed && register.getLsbD j) = (signed && register.getLsbD (min held sourceBits - 1)) :=
      fun j above below => by rw [extends_ j above below, Bool.and_self_left]
    unfold ExtendsLow at extends_
    rcases Nat.le_total held sourceBits with narrow | wide
    · rw [Nat.min_eq_left narrow, Nat.max_eq_right narrow] at sign extends_
      by_cases own : i < held
      · rw [if_pos own, if_pos (by omega), low _ _ own, low _ _ (by omega)]
      · rw [if_neg own]
        by_cases source : i < sourceBits
        · rw [if_pos source, low _ _ source]
          exact (extends_ i (by omega) (by omega)).symm
        · rw [if_neg source]
          by_cases equal : held = sourceBits
          · rw [equal]
          · exact (sign (sourceBits - 1) (by omega) (by omega)).symm
    · rw [Nat.min_eq_right wide, Nat.max_eq_left wide] at sign extends_
      by_cases own : i < sourceBits
      · rw [if_pos (by omega), if_pos own, low _ _ own, low _ _ (by omega)]
      · rw [if_neg own]
        by_cases inVariable : i < held
        · rw [if_pos inVariable, low _ _ inVariable]
          exact extends_ i (by omega) (by omega)
        · rw [if_neg inVariable]
          by_cases equal : held = sourceBits
          · rw [equal]
          · exact sign (held - 1) (by omega) (by omega)

/-- A variable of 32 bits that holds more than a byte, and one of a byte. -/
def wideByte : Locals := fun name =>
  if name = valueName 1 then some (.uint 0x1ff#32)
  else if name = valueName 2 then some (.integer ⟨false, 8, 0xff#8⟩) else none

theorem evaluate_wideByte (machine : Machine) :
    (evaluate wideByte (expressionFor ⟨[], false⟩ (.valueRef 1 (.integer 32)))).run
      machine = some (.uint 0x1ff#32, machine) :=
  evaluate_identifier (if_pos rfl) (by decide) machine

theorem translated_wideByte :
    translateConvert "cvt.u32.u8" (.valueRef 1 (.integer 32)) 2 3 =
      [convertOperation false 32 (.valueRef 1 (.integer 32)) 2] :=
  translateConvert_cvt false false (by decide : 32 ∈ integerWidths)
    (by decide : 8 ∈ integerWidths) (.valueRef 1 (.integer 32)) 2 3

end CuMetal.Metal
