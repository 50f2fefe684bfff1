import CuMetal.Ir.KernelSignature
import CuMetal.Lib.Search

/-!
# Hidden arguments of device functions

Which functions of an LLVM module refer to its external globals or print, the hidden arguments that
the importer gives them, and the operands that it appends to their calls
(`compiler/ir/src/nvvm_importer.cpp`).
-/

namespace CuMetal.Ir

/-- A call of a named function. `demoted` tells whether `float_frexp_truncation` (`2252-2273`) finds
the truncation of its result. -/
structure NvvmCall where
  callee : String
  argumentCount : Nat
  demoted : Bool

/-- An instruction: the global variables that its operands refer to (`referenced_global`), and its
call, if it is one. -/
structure NvvmInstruction where
  globals : List String
  call : Option NvvmCall
  isReturn : Bool

/-- A function with a body. -/
structure NvvmFunction where
  name : String
  isKernel : Bool
  parameters : List NvvmParameter
  blocks : List (List NvvmInstruction)

/-- The functions of a module that have a body, and its external globals. -/
structure NvvmModule where
  functions : List NvvmFunction
  externalGlobals : List ExternalGlobalInfo
  distinct : (functions.map NvvmFunction.name).Nodup
  distinctGlobals : (externalGlobals.map ExternalGlobalInfo.name).Nodup
  /-- LLVM intrinsics have no body. -/
  notIntrinsic : ∀ function ∈ functions, ¬ "llvm.".toList <+: function.name.toList

namespace NvvmModule

def function? (module_ : NvvmModule) (name : String) : Option NvvmFunction :=
  module_.functions.find? fun function => function.name = name

/-- The function that an instruction calls, if it has a body. -/
def callee? (module_ : NvvmModule) (instruction : NvvmInstruction) : Option NvvmFunction :=
  instruction.call.bind fun call => module_.function? call.callee

def instructions (module_ : NvvmModule) (name : String) : List NvvmInstruction :=
  ((module_.function? name).map fun function => function.blocks.flatten).getD []

/-- The body of a function for a search: an instruction may end it, and descends to the function
that it calls. -/
def searchBody (module_ : NvvmModule) (ends : NvvmInstruction → Bool) (name : String) :
    List (Bool × Option String) :=
  (module_.instructions name).map fun instruction =>
    (ends instruction, (module_.callee? instruction).map NvvmFunction.name)

/-- A search from a function through all it calls. -/
def searchFrom (module_ : NvvmModule) (ends : NvvmInstruction → Bool)
    (function : NvvmFunction) : Bool :=
  (search (module_.searchBody ends) (module_.functions.length + 1) [] function.name).1

/-- `function_references_global` (`640-663`). -/
def functionReferencesGlobal (module_ : NvvmModule) (function : NvvmFunction)
    (global : ExternalGlobalInfo) : Bool :=
  module_.searchFrom (fun instruction => instruction.globals.contains global.name) function

/-- `function_uses_vprintf` (`665-683`). -/
def functionUsesVprintf (module_ : NvvmModule) (function : NvvmFunction) : Bool :=
  module_.searchFrom
    (fun instruction => instruction.call.any fun call => call.callee = "vprintf") function

end NvvmModule

/-- `FunctionState`, as far as it concerns hidden arguments: where the arguments for the globals and
for the ring stand among the function's arguments. -/
structure FunctionScope where
  parameterCount : Nat
  state : NvvmState
  externalGlobals : AssocMap String Nat
  printf : Option (Nat × Nat)

namespace FunctionScope

abbrev arguments (scope : FunctionScope) : List (String × IrType) := scope.state.signature.arguments

/-- A module global (`1172-1209`): constants are found by the name of their buffer. -/
def global (isKernel : Bool) (references : ExternalGlobalInfo → Bool) (scope : FunctionScope)
    (info : ExternalGlobalInfo) : Except String FunctionScope := do
  let state ← scope.state.global isKernel references info
  if !references info then return scope
  let existing := scope.arguments.findIdx? fun argument =>
    argument.1 = "__cumetal_constant_symbols"
  let base := if info.constant then existing.getD scope.arguments.length else scope.arguments.length
  return { scope with
    state := state
    externalGlobals := scope.externalGlobals.assign info.name base }

end FunctionScope

/-- What `allocate_function` leaves (`1105-1304`). -/
def allocateScope (isKernel : Bool) (parameters : List NvvmParameter)
    (references : ExternalGlobalInfo → Bool) (externalGlobals : List ExternalGlobalInfo)
    (usesVprintf : Bool) : Except String FunctionScope := do
  let started : FunctionScope :=
    ⟨parameters.length, parameters.foldl NvvmState.parameter ⟨0, .start isKernel⟩, [], none⟩
  let scope ← externalGlobals.foldlM (FunctionScope.global isKernel references) started
  if !usesVprintf then return scope
  if isKernel ∧ 29 ≤ scope.state.argumentIndex + 1 then
    throw "typed vprintf hidden arguments conflict with reserved Metal bindings"
  return { scope with
    state := { scope.state with
      signature := scope.state.signature.declarePrintf scope.state.argumentIndex }
    printf := some (scope.arguments.length, scope.arguments.length + 1) }

/-- What `allocate_function` leaves for a function of a module. -/
def NvvmModule.scope (module_ : NvvmModule) (function : NvvmFunction) :
    Except String FunctionScope :=
  allocateScope function.isKernel function.parameters (module_.functionReferencesGlobal function)
    module_.externalGlobals (module_.functionUsesVprintf function)

/-- An operand of a call: an argument of the LLVM call, or an argument of the calling function. -/
inductive CallOperand
  | passed (argument : Nat)
  | own (position : Nat)
  deriving DecidableEq

/-- `is_empty_device_assert` (`631-638`). -/
def NvvmFunction.isEmptyDeviceAssert (function : NvvmFunction) : Bool :=
  (function.name = "_Z12__assert_rtnPKcS0_iS0_" || function.name = "__assert_fail") &&
    match function.blocks with
    | [[instruction]] => instruction.isReturn
    | _ => false

/-- Whether a name is that of a conversion from or to `double` (`1718-1766`). -/
def isDoubleConversion (name : String) : Bool :=
  let letters := name.toList
  let suffix := (letters.reverse.takeWhile (· ≠ '_')).reverse
  let separator := letters.length - suffix.length - 1
  let body := if 5 ≤ separator then (letters.take separator).drop 5 else letters.drop 5
  let source := String.ofList (body.takeWhile (· ≠ '2'))
  let destination := String.ofList ((body.dropWhile (· ≠ '2')).drop 1)
  let integers := ["int", "ll", "uint", "ull"]
  "double".toList <:+: letters && letters.contains '_' &&
    ["rn", "rz", "rd", "ru"].contains (String.ofList suffix) && body.contains '2' &&
    (destination == "double" && integers.contains source ||
      source == "double" && (integers.contains destination || destination == "float"))

/-- The names of functions whose calls become operations of their own, without hidden operands
(`1606-1787`). -/
def replacedNames : List String :=
  ["vprintf", "__cumetal_grid_sync",
    "__nv_float_as_int", "__nv_float_as_uint", "__nv_int_as_float", "__nv_uint_as_float",
    "__nv_double_as_longlong", "__nv_longlong_as_double",
    "__nv_int2float_rn", "__nv_int2float_rz", "__nv_int2float_ru",
    "__nv_int2float_rd", "__nv_uint2float_rn", "__nv_uint2float_rz",
    "__nv_uint2float_ru", "__nv_uint2float_rd", "__nv_ll2float_rn",
    "__nv_ll2float_rz", "__nv_ll2float_ru", "__nv_ll2float_rd",
    "__nv_ull2float_rn", "__nv_ull2float_rz", "__nv_ull2float_ru", "__nv_ull2float_rd",
    "__nv_dadd_rn", "__nv_dsub_rn", "__nv_dmul_rn", "__nv_ddiv_rn",
    "__nv_fadd_rn", "__nv_fsub_rn", "__nv_fmul_rn", "__nv_fdiv_rn",
    "__nv_fmaf_rn", "__nv_fmaf_ieee_rn"]

/-- Whether a call leaves no operation, or one that passes no hidden operands. -/
def isReplaced (callee : NvvmFunction) (call : NvvmCall) : Bool :=
  callee.isEmptyDeviceAssert || (call.callee == "__nv_frexp" && call.demoted) ||
    replacedNames.contains call.callee || isDoubleConversion call.callee

/-- The operands for the globals that the callee refers to (`2091-2102`). -/
def appendGlobals (references : ExternalGlobalInfo → Bool) (caller : FunctionScope) :
    Bool → List ExternalGlobalInfo → Except String (List CallOperand)
  | _, [] => .ok []
  | passedConstantSymbols, info :: rest =>
    if !references info then appendGlobals references caller passedConstantSymbols rest
    else
      match caller.externalGlobals.find? info.name with
      | none => .error "missing transitive CUDA global binding for device helper"
      | some base =>
        if info.constant && passedConstantSymbols then
          appendGlobals references caller passedConstantSymbols rest
        else do
          let others ← appendGlobals references caller
            (passedConstantSymbols || info.constant) rest
          return .own base :: others

/-- The operands of the operation that a call of a function with a body becomes (`2274-2300`,
`1577-2114`), if that is a call. -/
def NvvmModule.importCall (module_ : NvvmModule) (caller : FunctionScope) (callee : NvvmFunction)
    (call : NvvmCall) : Except String (Option (List CallOperand)) :=
  if isReplaced callee call then .ok none
  else do
    let globals ← appendGlobals (module_.functionReferencesGlobal callee) caller false
      module_.externalGlobals
    let passed := (List.range call.argumentCount).map CallOperand.passed
    if !module_.functionUsesVprintf callee then return some (passed ++ globals)
    match caller.printf with
    | none => throw "missing transitive printf binding for device helper"
    | some (buffer, capacity) => return some (passed ++ globals ++ [.own buffer, .own capacity])

end CuMetal.Ir
