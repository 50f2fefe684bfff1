import CuMetal.Ir.Syntax
import Mathlib.Data.List.Infix

/-!
# Importing PTX shuffles, conversions and comparisons

`Importer::translate_instruction` (`compiler/ir/src/ptx_importer.cpp`) on `shfl`, on `cvt` between
integers and on `setp`. The modifiers are found in the text of the opcode. The conversions from and
to floating point are left out.
-/

namespace CuMetal.Ir

/-- `find(part) != npos`. -/
def mentions (opcode part : String) : Bool := decide (part.toList <:+: opcode.toList)

/-- `ends_with`. -/
def endsWith (opcode part : String) : Bool := decide (part.toList <:+ opcode.toList)

/-- `ptx_type_bits` (`137-144`). -/
def ptxTypeBits (type : String) : Nat :=
  (([8, 16, 32, 64] : List Nat).find? fun bits => mentions type (toString bits)).getD 32

/-- `ptx_scalar_type` (`146-155`). -/
def ptxScalarType (spelling : String) : IrType :=
  if mentions spelling ".pred" then .predicate
  else if mentions spelling ".f" then .floating (ptxTypeBits spelling)
  else .integer (ptxTypeBits spelling)

/-- The parts of an opcode between its dots, after the first. -/
def opcodeParts (opcode : String) : List (List Char) :=
  (opcode.toList.splitOn '.').tail

/-- The type that a part of a `cvt` spells (`164-173`, `188-197`). -/
def partType (part : List Char) : Option IrType :=
  match part with
  | kind :: digit :: digits =>
    if (kind == 'u' || kind == 's' || kind == 'b' || kind == 'f') &&
        (digit :: digits).all Char.isDigit then
      let bits := Nat.ofDigitChars 10 (digit :: digits) 0
      some (if kind = 'f' then .floating bits else .integer bits)
    else none
  | _ => none

/-- `ptx_cvt_result_type` (`157-178`): the first type. -/
def ptxCvtResultType (opcode : String) : IrType :=
  ((opcodeParts opcode).findSome? partType).getD (ptxScalarType opcode)

/-- `ptx_cvt_source_type` (`180-202`): the last type. -/
def ptxCvtSourceType (opcode : String) : IrType :=
  ((opcodeParts opcode).reverse.findSome? partType).getD (ptxScalarType opcode)

/-- `has_signed_integer_type` (`1190-1195`). -/
def hasSignedIntegerType (opcode : String) : Bool :=
  mentions opcode ".s8" || mentions opcode ".s16" || mentions opcode ".s32" ||
    mentions opcode ".s64"

/-- `cvt_has_signed_source` (`1204-1207`). -/
def cvtHasSignedSource (opcode : String) : Bool :=
  endsWith opcode ".s8" || endsWith opcode ".s16" || endsWith opcode ".s32" ||
    endsWith opcode ".s64"

/-- `comparison_predicate` (`1176-1188`). -/
def ptxComparisonPredicate (opcode : String) : String :=
  ((["eq", "ne", "lt", "le", "gt", "ge", "lo", "ls", "hi", "hs", "equ", "neu", "ltu", "leu", "gtu",
    "geu", "num", "nan"] : List String).find? fun predicate =>
      mentions opcode ("." ++ predicate ++ ".")).getD "eq"

/-- A source operand, and the bitcast that goes before the operation (`1921-1961`). -/
def bitContainerOf (operand : Operand) (expected : IrType) (fresh : ValueId) :
    Operand × List Operation :=
  if operand.type.bitWidth = expected.bitWidth ∧
      (operand.type.kind = .float ∧ expected.kind = .integer ∨
        operand.type.kind = .integer ∧ expected.kind = .float) then
    (.valueRef fresh expected,
      [{ opcode := .convert, operands := [operand], results := [fresh], resultTypes := [expected]
         attributes := [("bitcast", "true")] }])
  else (operand, [])

/-- The `kind` of a shuffle (`2741-2749`). -/
def shuffleKind (opcode : String) : String :=
  if mentions opcode ".down." then "down"
  else if mentions opcode ".up." then "up"
  else if mentions opcode ".bfly." then "xor"
  else "index"

/-- `translate_instruction` on `shfl` (`2739-2763`), from the operands after the destination. -/
def translateShuffle (opcode : String) (sources : List Operand) (results : List ValueId)
    (resultTypes : List IrType) (fresh : ValueId) : Except String (List Operation) :=
  match sources with
  | value :: lane :: control :: rest =>
    let (container, conversions) := bitContainerOf value (ptxScalarType opcode) fresh
    .ok (conversions ++
      [{ opcode := .shuffle, results, resultTypes
         operands := container :: lane :: control :: rest
         attributes := [("kind", shuffleKind opcode)] }])
  | _ => .error "malformed PTX shuffle instruction"

/-- `translate_instruction` on `cvt` between integers (`2796-2802`, `2871-2874`). -/
def translateConvert (opcode : String) (source : Operand) (result fresh : ValueId) :
    List Operation :=
  let (container, conversions) := bitContainerOf source (ptxCvtSourceType opcode) fresh
  conversions ++
    [{ opcode := .convert, results := [result], resultTypes := [ptxCvtResultType opcode]
       operands := [container]
       attributes := if cvtHasSignedSource opcode then [("signed_input", "true")] else [] }]

/-- `translate_instruction` on `setp` (`1872-1902`, `2648-2657`), with the `fp64_mode` of the module:
the operands after the second source are not read. -/
def translateSetp (opcode fp64Mode : String) (left right : Operand) (results : List ValueId)
    (resultTypes : List IrType) (freshLeft freshRight : ValueId) : List Operation :=
  let (leftContainer, leftConversions) := bitContainerOf left (ptxScalarType opcode) freshLeft
  let (rightContainer, rightConversions) := bitContainerOf right (ptxScalarType opcode) freshRight
  leftConversions ++ rightConversions ++
    [{ opcode := .compare, results
       resultTypes :=
         if mentions opcode ".f64" then resultTypes.map fun _ => .floating 64 else resultTypes
       operands := [leftContainer, rightContainer]
       attributes :=
         (if mentions opcode ".f64" then [("fp64_mode", fp64Mode)] else []) ++
           [("predicate", ptxComparisonPredicate opcode)] ++
           (if hasSignedIntegerType opcode then [("signed", "true")] else []) }]

end CuMetal.Ir
