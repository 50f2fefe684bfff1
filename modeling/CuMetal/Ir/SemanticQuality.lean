import CuMetal.Ir.LlvmTypes
import Mathlib.Data.List.Infix
import Mathlib.Order.Lattice

/-!
# The semantic quality of an imported module

What `Importer` of `compiler/ir/src/nvvm_importer.cpp` writes to `semantic_quality` and
`semantic_caveats` while it imports the instructions of a module: for a demoted multiplication, for
an instruction on binary64 values, for a read of the device clock, for an expanded math function,
and for inline PTX.
-/

namespace CuMetal.Ir.Quality

/-- `SemanticQuality` (`ir.h:152-159`), from the best to the worst. -/
inductive SemanticQuality
  | exact | toleranceBounded | semanticEmulation | performanceDegraded | cpuFallback | unsupported
  deriving DecidableEq, Repr

namespace SemanticQuality

theorem ctorIdx_injective : Function.Injective SemanticQuality.ctorIdx := by
  intro a b same
  cases a <;> cases b <;> first | rfl | cases same

/-- The order of the enumeration. -/
instance : LinearOrder SemanticQuality := LinearOrder.lift' SemanticQuality.ctorIdx ctorIdx_injective

end SemanticQuality

/-! ## Instructions -/

/-- An operand: its type, the instruction that defines it, and whether it is a `ConstantFP`. -/
structure LlvmOperand where
  type : LlvmType
  definition : Option ℕ := none
  isFloatConstant : Bool := false

/-- What a call calls: a function by its name (whose body may be that of an empty device assertion,
`is_empty_device_assert`, `620-628`), inline assembly with its text and the opcodes of the PTX
instructions in it, or a pointer. -/
inductive LlvmCallee
  | function (name : String) (emptyAssert : Bool)
  | inlineAsm (text : String) (opcodes : List String)
  | indirect

/-- The kinds of instructions that the import tells apart here. -/
inductive LlvmKind
  | phi
  | alloca
  | fpExt
  | fpTrunc
  | binary (isFMul : Bool)
  | call (callee : LlvmCallee)
  | other

/-- An instruction with the operands that are values; those of a call are its arguments. -/
structure LlvmInstruction where
  id : ℕ
  type : LlvmType
  kind : LlvmKind
  operands : List LlvmOperand

/-- A function: its blocks. -/
structure LlvmFunction where
  blocks : List (List LlvmInstruction)

namespace LlvmFunction

variable (function : LlvmFunction)

/-- The instructions in the order in which they are imported (`import_function`, `3012-3018`). -/
def instructions : List LlvmInstruction := function.blocks.flatten

/-- How often an instruction has the value of another one as an operand. -/
def usesOf (user : LlvmInstruction) (id : ℕ) : ℕ :=
  (user.operands.filter fun operand => operand.definition == some id).length

/-- `hasOneUse`. -/
def hasOneUse (id : ℕ) : Bool :=
  (function.instructions.flatMap fun user =>
    user.operands.filter fun operand => operand.definition == some id).length == 1

/-- Whether a user of the value has a property; `*user_begin()` of a value with one use has it then. -/
def userIs (id : ℕ) (property : LlvmInstruction → Bool) : Bool :=
  function.instructions.any fun user => usesOf user id != 0 && property user

/-- Whether the instruction that defines an operand has a property. -/
def definitionIs (operand : Option LlvmOperand) (property : LlvmInstruction → Bool) : Bool :=
  function.instructions.any fun definition =>
    operand.any (·.definition == some definition.id) && property definition

end LlvmFunction

namespace LlvmInstruction

/-- The types are compared with `isFloatTy` and `isDoubleTy`. -/
def isFloat : LlvmType → Bool
  | .float => true
  | _ => false

def isDouble : LlvmType → Bool
  | .double => true
  | _ => false

def isPhi (instruction : LlvmInstruction) : Bool :=
  match instruction.kind with
  | .phi => true
  | _ => false

def isFpExt (instruction : LlvmInstruction) : Bool :=
  match instruction.kind with
  | .fpExt => true
  | _ => false

def isFpTrunc (instruction : LlvmInstruction) : Bool :=
  match instruction.kind with
  | .fpTrunc => true
  | _ => false

def isBinary (instruction : LlvmInstruction) : Bool :=
  match instruction.kind with
  | .binary _ => true
  | _ => false

def isAlloca (instruction : LlvmInstruction) : Bool :=
  match instruction.kind with
  | .alloca => true
  | _ => false

/-- `getOpcode() == FMul`. -/
def isFMul (instruction : LlvmInstruction) : Bool :=
  match instruction.kind with
  | .binary isFMul => isFMul
  | _ => false

/-- `getCalledFunction() != nullptr` with this name. -/
def callsNamed (instruction : LlvmInstruction) (name : String) : Bool :=
  match instruction.kind with
  | .call (.function callee _) => callee == name
  | _ => false

/-- A call of an empty device assertion. -/
def callsEmptyAssert (instruction : LlvmInstruction) : Bool :=
  match instruction.kind with
  | .call (.function _ emptyAssert) => emptyAssert
  | _ => false

end LlvmInstruction

open LlvmInstruction

section

variable (function : LlvmFunction) (instruction : LlvmInstruction)

/-- `float_frexp_truncation` is not null (`2255-2273`): a call of `__nv_frexp` on an extended float,
whose only use is the truncation of its result. -/
def isFloatFrexp : Bool :=
  instruction.callsNamed "__nv_frexp" && instruction.operands.length == 2 &&
    function.hasOneUse instruction.id &&
    function.definitionIs instruction.operands[0]? (fun extension =>
      extension.isFpExt && (extension.operands[0]?).any (isFloat ·.type) &&
        isDouble extension.type) &&
    function.userIs instruction.id (fun truncation =>
      truncation.isFpTrunc && isFloat truncation.type) &&
    function.definitionIs instruction.operands[1]? isAlloca

/-- One of the operands of the multiplication is the extension of a float that has no other use, and
the other one is a constant (`322-332`). -/
def hasExtensionAndConstant (extension constant : Option LlvmOperand) : Bool :=
  function.definitionIs extension (fun definition =>
      definition.isFpExt && (definition.operands[0]?).any (isFloat ·.type) &&
        function.hasOneUse definition.id) &&
    constant.any (·.isFloatConstant)

/-- `match_demotable_float_multiply` has a value (`307-334`): the truncation to float of a product of
an extended float and a constant. -/
def isDemotable : Bool :=
  instruction.isFpTrunc && isFloat instruction.type &&
    function.definitionIs instruction.operands[0]? fun multiply =>
      multiply.isFMul && isDouble multiply.type && function.hasOneUse multiply.id &&
        (hasExtensionAndConstant function multiply.operands[0]? multiply.operands[1]? ||
          hasExtensionAndConstant function multiply.operands[1]? multiply.operands[0]?)

/-- The extension before a call of `__nv_frexp` that is imported as one of floats (`2274-2281`). -/
def isFrexpExtension : Bool :=
  instruction.isFpExt && function.hasOneUse instruction.id &&
    function.userIs instruction.id (isFloatFrexp function)

/-- The truncation after such a call (`2309-2314`). -/
def isFrexpTruncation : Bool :=
  instruction.isFpTrunc &&
    function.definitionIs instruction.operands[0]? (isFloatFrexp function)

/-- The multiplication of a demoted chain (`2354-2362`): its only user is the truncation. -/
def isDemotedMultiply : Bool :=
  instruction.isBinary && function.hasOneUse instruction.id &&
    function.userIs instruction.id (isDemotable function)

/-- The extension of a demoted chain (`2342-2353`): the only user of its only user is the
truncation. -/
def isDemotedExtension : Bool :=
  instruction.isFpExt && function.hasOneUse instruction.id &&
    function.userIs instruction.id fun multiply =>
      function.hasOneUse multiply.id && function.userIs multiply.id (isDemotable function)

/-- `uses_fp64` (`2363-2367`). -/
def usesFp64 : Bool :=
  instruction.type.containsFp64 || instruction.operands.any (·.type.containsFp64)

end

/-- A lossy rewrite, by the place in the importer that performs it; `inlineFp64` is the emulation of
binary64 instructions of inline PTX. -/
inductive Rewrite
  | demotedMultiply | emulatedFp64 | deviceClock | expandedMath | inlineFp64
  deriving DecidableEq, Repr

/-- The quality of what a rewrite yields. -/
def Rewrite.level : Rewrite → SemanticQuality
  | .demotedMultiply => .performanceDegraded
  | .emulatedFp64 | .deviceClock | .inlineFp64 => .semanticEmulation
  | .expandedMath => .toleranceBounded

/-- The caveats that are added to `semantic_caveats`. -/
inductive Caveat
  | demotedMultiply | fp64Storage | deviceClock | expandedMath | fp64ViaF32
  deriving DecidableEq, Repr

def Caveat.text : Caveat → String
  | .demotedMultiply =>
    "Metal lacks FP64; demoted isolated float-to-double multiply-to-float chains"
  | .fp64Storage => "FP64 uses raw binary64 storage with the selected software ALU mode"
  | .deviceClock => "CUDA device clock uses a monotonic atomic quantum, not GPU cycles"
  | .expandedMath => "Metal-missing float math functions use numerically tested typed expansions"
  | .fp64ViaF32 => "FP64 libdevice calls evaluate through binary32 under emulation"

/-- The caveat that goes with a rewrite. -/
def Rewrite.caveat : Rewrite → Caveat
  | .demotedMultiply => .demotedMultiply
  | .emulatedFp64 | .inlineFp64 => .fp64Storage
  | .deviceClock => .deviceClock
  | .expandedMath => .expandedMath

/-- `semantic_quality` and `semantic_caveats` of the module that is being imported. -/
structure Report where
  quality : SemanticQuality := .exact
  caveats : List Caveat := []

namespace Report

/-- A caveat is added once. -/
def addCaveat (report : Report) (caveat : Caveat) : Report :=
  if caveat ∈ report.caveats then report
  else { report with caveats := report.caveats ++ [caveat] }

/-- The demoted multiplication (`2333-2341`). -/
def demoteMultiply (report : Report) : Report :=
  { report with quality := .performanceDegraded }.addCaveat .demotedMultiply

/-- An instruction on binary64 values (`2371-2382`). -/
def emulateFp64 (report : Report) : Report :=
  { report with quality := .semanticEmulation }.addCaveat .fp64Storage

/-- A read of the clock (`1636-1645`). -/
def readClock (report : Report) : Report :=
  { report with
    quality := if report.quality = SemanticQuality.exact then .semanticEmulation else report.quality
  }.addCaveat .deviceClock

/-- A math function that Metal does not have (`2010-2020`). -/
def expandMath (report : Report) : Report :=
  { report with
    quality := if report.quality = SemanticQuality.exact then .toleranceBounded else report.quality
  }.addCaveat .expandedMath

/-- The caveats of inline PTX (`1527-1536`): its importer sets the quality of a module of its own
(`ptx_importer.cpp:1892-1903`, `3900-3903`). -/
def inlineFp64 (report : Report) : Report := report.addCaveat .fp64Storage

end Report

/-- The names of the clock (`1630-1632`). -/
def clockNames : List String :=
  ["llvm.nvvm.read.ptx.sreg.clock", "llvm.nvvm.read.ptx.sreg.clock64",
    "llvm.nvvm.read.ptx.sreg.globaltimer"]

/-- `kExpandedMath` (`1998-2008`). -/
def expandedMathNames : List String :=
  ["__nv_expm1f", "__nv_log1pf", "__nv_cbrtf", "__nv_erff", "__nv_erfcf", "__nv_hypotf",
    "__nv_remainderf", "__nv_rcbrtf", "__nv_frsqrt_rn", "__nv_remquof", "__nv_norm3df",
    "__nv_norm4df", "__nv_rnorm3df", "__nv_rnorm4df", "__nv_rhypotf", "__nv_erfcxf",
    "__nv_normcdff", "__nv_normcdfinvf", "__nv_erfinvf", "__nv_erfcinvf", "__nv_tgammaf",
    "__nv_lgammaf"]

/-- `kFp64ViaF32` (`2028-2048`). -/
def fp64ViaF32Names : List String :=
  ["__nv_exp", "__nv_exp2", "__nv_exp10", "__nv_expm1", "__nv_log", "__nv_log2", "__nv_log10",
    "__nv_log1p", "__nv_sin", "__nv_cos", "__nv_tan", "__nv_asin", "__nv_acos", "__nv_atan",
    "__nv_atan2", "__nv_sinh", "__nv_cosh", "__nv_tanh", "__nv_asinh", "__nv_acosh", "__nv_atanh",
    "__nv_cbrt", "__nv_erf", "__nv_erfc", "__nv_pow", "__nv_powi", "__nv_fmod", "__nv_fdim",
    "__nv_hypot", "__nv_ldexp", "__nv_scalbn", "__nv_nextafter", "__nv_rcbrt", "__nv_sincos",
    "__nv_modf", "__nv_frexp", "__nv_sinpi", "__nv_cospi", "__nv_sincospi", "__nv_logb",
    "__nv_ilogb", "__nv_llrint", "__nv_llround", "__nv_remquo", "__nv_norm3d", "__nv_norm4d",
    "__nv_rnorm3d", "__nv_rnorm4d", "__nv_rhypot", "__nv_erfcx", "__nv_normcdf", "__nv_normcdfinv",
    "__nv_erfinv", "__nv_erfcinv", "__nv_tgamma", "__nv_lgamma"]

/-- The assembly is a float atomic addition or one of the idioms with operations of their own
(`is_float_atomic_add_asm`, `is_direct_asm_idiom`, `1406-1430`). -/
def isDirectAsm (text : String) : Bool :=
  ["atom.global.add.f32", "atom.add.f32", "mov.u32 $0, %activemask", "mov.u32 $0, %laneid",
    "shfl.sync.idx.b32", "shfl.sync.down.b32", "shfl.sync.up.b32"].any fun idiom =>
      decide (idiom.toList <:+: text.toList)

/-- An opcode of binary64 (`ptx_importer.cpp:1892`). -/
def isFp64Opcode (opcode : String) : Bool := decide (".f64".toList <:+: opcode.toList)

/-- What `import_call` and `import_inline_asm` report for a call. -/
def importCall (report : Report) : LlvmCallee → Report
  | .indirect => report
  | .inlineAsm text opcodes =>
    if isDirectAsm text then report
    else if opcodes.any isFp64Opcode then report.inlineFp64 else report
  | .function name _ =>
    if name ∈ clockNames then report.readClock
    else
      let report := if name ∈ expandedMathNames then report.expandMath else report
      if name ∈ fp64ViaF32Names then report.addCaveat .fp64ViaF32 else report

/-- What `import_instruction` reports for an instruction that it imports by itself (`2363-2387`,
`2792-2821`). -/
def importOperation (report : Report) (instruction : LlvmInstruction) : Report :=
  let report := if usesFp64 instruction then report.emulateFp64 else report
  match instruction.kind with
  | .call callee => importCall report callee
  | _ => report

/-- `import_instruction` (`2251-2387`). -/
def importInstruction (function : LlvmFunction) (report : Report) (instruction : LlvmInstruction) :
    Report :=
  if instruction.isPhi then report
  else if isFrexpExtension function instruction then report
  else if instruction.callsEmptyAssert then report
  else if isFloatFrexp function instruction then report
  else if isFrexpTruncation function instruction then report
  else if isDemotable function instruction then report.demoteMultiply
  else if isDemotedExtension function instruction then report
  else if isDemotedMultiply function instruction then report
  else importOperation report instruction

/-- `import_function` (`3012-3018`). -/
def importFunction (report : Report) (function : LlvmFunction) : Report :=
  function.instructions.foldl (importInstruction function) report

/-- The report for the functions of a module, in the order in which they are imported
(`run`, `3143-3182`). -/
def importModule (functions : List LlvmFunction) : Report := functions.foldl importFunction {}

end CuMetal.Ir.Quality
