import CuMetal.Lib.Propagate
import CuMetal.Ir.Syntax
import CuMetal.Metal.Msl
import Mathlib.Data.List.Sort
import Mathlib.Data.String.Basic

/-!
# Hidden parameters

What a lowered function takes besides its own arguments (`compiler/metal/src/lower_to_msl.cpp`):
threadgroup memory, the lock bank, the clock and barrier counters and the thread attributes.
Three analyses close the needs of a function under its calls; the call site, the parameters of
a helper and the attributes of a kernel each spell the list out from them.
-/

namespace CuMetal.Metal

open Ir

/-- The operations of a function, block by block. -/
def operationsOf (function : Function) : List Operation :=
  function.blocks.flatMap BasicBlock.operations

/-- `BuiltinUsage` (`lower_to_msl.cpp:1300-1307`). -/
structure BuiltinUsage where
  threadPosition : Bool := false
  threadgroupPosition : Bool := false
  threadsPerThreadgroup : Bool := false
  threadgroupsPerGrid : Bool := false
  laneId : Bool := false
  deviceClock : Bool := false
  gridBarrier : Bool := false
  deriving DecidableEq, Repr, Inhabited

/-- The value `BuiltinUsage::merge` leaves (`1309-1317`); what it returns is whether that differs
from the value before. -/
def BuiltinUsage.merge (usage other : BuiltinUsage) : BuiltinUsage where
  threadPosition := usage.threadPosition || other.threadPosition
  threadgroupPosition := usage.threadgroupPosition || other.threadgroupPosition
  threadsPerThreadgroup := usage.threadsPerThreadgroup || other.threadsPerThreadgroup
  threadgroupsPerGrid := usage.threadgroupsPerGrid || other.threadgroupsPerGrid
  laneId := usage.laneId || other.laneId
  deviceClock := usage.deviceClock || other.deviceClock
  gridBarrier := usage.gridBarrier || other.gridBarrier

def calleeOf (operation : Operation) : Option String :=
  if operation.opcode = .call then operation.attributes.find? "callee" else none

/-- What one operation needs itself (`1394-1420`). -/
def directNeeds (operation : Operation) : BuiltinUsage where
  threadPosition :=
    operation.opcode == .metalThreadPosition || calleeOf operation == some "cm_grid_sync"
  threadgroupPosition := operation.opcode == .metalThreadgroupPosition
  threadsPerThreadgroup := operation.opcode == .metalThreadsPerThreadgroup
  threadgroupsPerGrid :=
    operation.opcode == .metalThreadgroupsPerGrid || calleeOf operation == some "cm_grid_sync"
  laneId :=
    operation.opcode == .metalLaneId || operation.opcode == .metalShuffle ||
      operation.opcode == .metalBallot || operation.opcode == .metalVote
  deviceClock := calleeOf operation == some "cm_device_clock"
  gridBarrier := calleeOf operation == some "cm_grid_sync"

/-- `direct` of a function (`1391-1421`). -/
def directUsage (function : Function) : BuiltinUsage :=
  (operationsOf function).foldl (fun direct operation => direct.merge (directNeeds operation)) {}

/-- The calls that the loop of `analyze_builtin_usage` follows (`1428-1436`): a call that carries
the attribute `builtin` is skipped. -/
def followedCalls (module : IrModule) : List (String × String) :=
  module.functions.flatMap fun function => (operationsOf function).filterMap fun operation =>
    if operation.attributes.contains "builtin" then none
    else (calleeOf operation).map fun callee => (function.name, callee)

/-- `usage[caller]` merged with the usage of the callee, if it has one (`1437-1440`). -/
def mergeCallee (usage : AssocMap String BuiltinUsage) (site : String × String) : BuiltinUsage :=
  match usage.find? site.2 with
  | some calleeUsage => (valueAt usage site.1).merge calleeUsage
  | none => valueAt usage site.1

def tabulate {ν : Type} (module : IrModule) (direct : Function → ν) : AssocMap String ν :=
  module.functions.foldl (fun usage function => usage.assign function.name (direct function)) []

/-- `analyze_builtin_usage` (`1388-1446`). A function has seven flags to raise, so the bound on
the passes is not met. -/
def analyzeBuiltinUsage (module : IrModule) : AssocMap String BuiltinUsage :=
  propagate Prod.fst mergeCallee (followedCalls module) (module.functions.length * 7 + 1)
    (tabulate module directUsage)

/-- A set of names as the sorted vector that `std::sort` leaves of it. -/
def sortedNames (names : List String) : List String := names.dedup.insertionSort (· ≤ ·)

/-- The threadgroup globals that an operation names (`1454-1460`). -/
def sharedSymbols (operation : Operation) : List String :=
  operation.operands.filterMap fun operand =>
    if operand.kind = .symbol ∧ operand.type.isPointer ∧
        operand.type.addressSpace = .threadgroup then some operand.text
    else none

/-- The threadgroup globals that a function names itself (`1451-1464`). -/
def directShared (function : Function) : List String :=
  sortedNames ((operationsOf function).flatMap sharedSymbols)

/-- The names of a function and of everything it calls (`1471-1486`). -/
def mergeShared (usage : AssocMap String (List String)) (function : Function) : List String :=
  sortedNames (valueAt usage function.name ++
    ((operationsOf function).filterMap calleeOf).flatMap (valueAt usage))

/-- `analyze_shared_usage` (`1448-1494`). -/
def analyzeSharedUsage (module : IrModule) : AssocMap String (List String) :=
  propagate Function.name mergeShared module.functions
    (module.functions.length * (module.functions.flatMap directShared).length + 1)
    (tabulate module directShared)

/-- Whether an operation is an atomic with one 64-bit integer result (`1535-1542`). -/
def isWideAtomic (operation : Operation) : Bool :=
  operation.opcode == .metalAtomic &&
    match operation.resultTypes with
    | [type] => type.kind == .integer && type.bitWidth == 64
    | _ => false

/-- `direct` of a function (`1533-1544`). -/
def directWideAtomic (function : Function) : Bool := (operationsOf function).any isWideAtomic

/-- Whether a function or something it calls needs the lock bank (`1550-1563`). -/
def mergeWideAtomic (usage : AssocMap String Bool) (function : Function) : Bool :=
  valueAt usage function.name ||
    ((operationsOf function).filterMap calleeOf).any (valueAt usage)

/-- `analyze_wide_atomic_usage` (`1530-1568`). -/
def analyzeWideAtomicUsage (module : IrModule) : AssocMap String Bool :=
  propagate Function.name mergeWideAtomic module.functions (module.functions.length * 1 + 1)
    (tabulate module directWideAtomic)

/-- The three tables that `lower_to_msl` computes once (`5817-5821`). -/
structure UsageTables where
  builtin : AssocMap String BuiltinUsage
  shared : AssocMap String (List String)
  wideAtomic : AssocMap String Bool

def usageTables (module : IrModule) : UsageTables where
  builtin := analyzeBuiltinUsage module
  shared := analyzeSharedUsage module
  wideAtomic := analyzeWideAtomicUsage module

/-- The words that `sanitize_identifier` avoids (`msl_ast.cpp:689-706`). -/
def reservedWords : List String :=
  ["alignas", "alignof", "and", "asm", "atomic", "auto", "bool", "break", "case",
    "char", "class", "constant", "continue", "default", "device", "do", "double",
    "else", "enum", "false", "float", "for", "friend", "goto", "half", "if", "inline",
    "int", "kernel", "long", "namespace", "operator", "or", "private", "protected",
    "public", "register", "return", "short", "signed", "sizeof", "static", "struct",
    "switch", "template", "this", "thread", "threadgroup", "true", "typedef", "typename",
    "uint", "ulong", "union", "unsigned", "using", "virtual", "void", "volatile", "while",
    "constinit", "consteval", "concept", "requires", "co_await", "co_return", "co_yield",
    "char8_t", "constexpr", "const", "export", "new", "delete", "try", "catch", "throw",
    "nullptr", "static_assert", "static_cast", "reinterpret_cast", "const_cast",
    "dynamic_cast", "decltype", "noexcept", "explicit", "extern", "mutable", "not",
    "xor", "compl", "bitand", "bitor", "typeid", "wchar_t", "char16_t", "char32_t"]

/-- `sanitize_identifier` (`msl_ast.cpp:688-717`); a byte that is no letter, digit or underscore
becomes an underscore. -/
def sanitizeIdentifier (name : String) : String :=
  let cleaned := name.toList.flatMap fun c =>
    if c.isAlphanum || c == '_' then [c] else List.replicate c.utf8Size '_'
  let named := if cleaned.isEmpty then "unnamed".toList else cleaned
  let started := if (named.head?.map Char.isDigit).getD false then '_' :: named else named
  let out := String.ofList started
  if reservedWords.contains out || started.take 2 == ['_', '_'] then "cm_" ++ out else out

/-- `shared_parameter_name` (`1334-1336`). -/
def sharedParameterName (global : String) : String := "cm_shared_" ++ sanitizeIdentifier global

/-- The type of threadgroup memory that is passed on (`2988-2989`, `5325-5326`). -/
def sharedPointer : MslType := .pointer (.uint 8) .threadgroup

/-- A pointer to a device counter, `atomic_uint_type` (`89-91`). -/
def atomicUintPointer : MslType := .pointer (.struct "atomic_uint") .device

/-- The counters and attributes that a callee needs (`3006-3037`). -/
def builtinArguments (required : BuiltinUsage) : List MslExpression :=
  (if required.deviceClock then
    [.identifier "cm_device_clock_counter" atomicUintPointer] else []) ++
  (if required.gridBarrier then [.identifier "cm_grid_barrier" atomicUintPointer] else []) ++
  (if required.threadPosition then [.identifier "cm_thread_position" uint3] else []) ++
  (if required.threadgroupPosition then [.identifier "cm_threadgroup_position" uint3] else []) ++
  (if required.threadsPerThreadgroup then
    [.identifier "cm_threads_per_threadgroup" uint3] else []) ++
  (if required.threadgroupsPerGrid then
    [.identifier "cm_threadgroups_per_grid" uint3] else []) ++
  (if required.laneId then [.identifier "cm_lane_id" (.uint 32)] else [])

def sharedArgument (global : String) : MslExpression :=
  .identifier (sharedParameterName global) sharedPointer

/-- The hidden arguments that a call of `callee` appends (`2984-3039`). -/
def hiddenArguments (tables : UsageTables) (callee : String) : List MslExpression :=
  (match tables.shared.find? callee with
    | some globals => globals.map sharedArgument
    | none => []) ++
  (match tables.wideAtomic.find? callee with
    | some true => [.identifier "cm_atomic_lock_bank" atomicUintPointer]
    | _ => []) ++
  match tables.builtin.find? callee with
  | some required => builtinArguments required
  | none => []

/-- Whether a call is replaced before the counters are asked for: software floating point for a
function that is not in the module, and bit manipulations (`2018-2594`). -/
def isBitExpansion (module : IrModule) (operation : Operation) (callee : String) : Bool :=
  (operation.attributes.contains "fp64_mode" &&
      !module.functions.any fun candidate => candidate.name == callee) ||
    ["__cumetal_signed_abs", "__cumetal_ffs", "__cumetal_float_as_uint",
      "__cumetal_uint_as_float"].contains callee ||
    "__cumetal_float2int_".isPrefixOf callee || "__cumetal_float2uint_".isPrefixOf callee

/-- Functions that are expanded in place for a number of arguments (`2692-2873`). -/
def expandedArities : List (String × Nat) :=
  [("expm1", 1), ("log1p", 1), ("cbrt", 1), ("erf", 1), ("erfc", 1), ("hypot", 2), ("rint", 1),
    ("remainder", 2), ("frexp", 2), ("modf", 2), ("sincos", 3), ("__cumetal_fdivide", 2),
    ("__cumetal_rcbrt", 1), ("rcp", 1), ("frsqrt_rn", 1), ("sinpi", 1), ("cospi", 1),
    ("sincospi", 3), ("remquo", 3), ("ilogb", 1), ("llrint", 1), ("llround", 1)]

/-- The directed-rounding functions (`2879-2901`). -/
def directedNames : List String :=
  ["fadd", "fsub", "fmul", "fdiv", "fsqrt", "fmaf", "frcp"].flatMap fun stem =>
    ["_rd", "_ru", "_rz"].map fun suffix => stem ++ suffix

/-- `kLibdeviceHelpers` (`2943-2947`). -/
def libdeviceHelpers : List String :=
  ["logb", "erfcx", "normcdf", "normcdfinv", "erfinv", "erfcinv", "tgamma", "lgamma",
    "norm3d", "norm4d", "rhypot", "rnorm3d", "rnorm4d"]

/-- Whether a call is replaced by an expression or by a call of the support library once it is no
call of a counter (`2692-2954`). -/
def isMathExpansion (operation : Operation) (callee : String) : Bool :=
  expandedArities.contains (callee, operation.operands.length) ||
    directedNames.contains callee || libdeviceHelpers.contains callee

/-- What a call becomes: an expansion, a call of one of the two counter helpers with the hidden
arguments it gets, or a call by name with the hidden arguments that follow the ordinary ones. -/
inductive LoweredCall
  | expanded
  | counter (helper : String) (arguments : List MslExpression)
  | byName (callee : String) (hidden : List MslExpression)

/-- The call branch of `lower_operation` (`2000-3167`), as far as it decides which hidden
arguments are passed. A call of a helper that is specialised by address space casts ordinary
arguments and spells another name; its hidden arguments are these. -/
def lowerCall (module : IrModule) (tables : UsageTables) (operation : Operation) :
    Except String LoweredCall :=
  match operation.attributes.find? "callee" with
  | none => .error "direct call is missing a callee"
  | some callee =>
    if isBitExpansion module operation callee then .ok .expanded
    else if callee = "cm_device_clock" then
      .ok (.counter callee [.identifier "cm_device_clock_counter" atomicUintPointer])
    else if callee = "cm_grid_sync" then
      .ok (.counter callee
        [.identifier "cm_grid_barrier" atomicUintPointer,
          .identifier "cm_thread_position" uint3,
          .identifier "cm_threadgroups_per_grid" uint3])
    else if isMathExpansion operation callee then .ok .expanded
    else .ok (.byName callee (hiddenArguments tables callee))

/-- `MslAttribute` (`msl_ast.h:209-212`). -/
structure MslAttribute where
  name : String
  index : Option Nat := none

/-- `MslParameter` with its attributes (`msl_ast.h:214-218`). -/
structure HiddenParameter extends MslParameter where
  attributes : List MslAttribute := []

/-- What a lowered function declares besides its own arguments: parameters, and the threadgroup
arrays at the top of its body (`MslStatement::threadgroup_byte_array`). -/
structure HiddenSignature where
  parameters : List HiddenParameter := []
  arrays : List (String × Nat) := []

/-- An attribute that only a kernel's parameter carries. -/
def kernelAttribute (function : Function) (name : String) (index : Option Nat) :
    List MslAttribute :=
  if function.isKernel then [{ name, index }] else []

/-- A parameter of type `type` that a kernel binds by the attribute `binding`. -/
def hiddenParameter (function : Function) (type : MslType) (name binding : String)
    (index : Option Nat) : HiddenParameter :=
  { type, name, attributes := kernelAttribute function binding index }

/-- One threadgroup global of a kernel (`5284-5322`), with the number of dynamic ones so far. -/
def declareShared (module : IrModule) (state : HiddenSignature × Nat) (global : String) :
    Except String (HiddenSignature × Nat) :=
  match module.globalThreadgroups.find? fun candidate => candidate.name == global with
  | none => .error ("missing threadgroup declaration for '" ++ global ++ "'")
  | some declaration =>
    if declaration.isDynamic then
      if 0 < state.2 then
        .error ("multiple dynamic threadgroup globals are ambiguous for Metal threadgroup " ++
          "binding 0")
      else
        .ok ({ state.1 with
            parameters := state.1.parameters ++
              [{ type := sharedPointer, name := sharedParameterName global
                 attributes := [{ name := "threadgroup", index := some 0 }] }] },
          state.2 + 1)
    else if declaration.byteSize = 0 then
      .error ("static threadgroup declaration for '" ++ global ++ "' has zero size")
    else
      .ok ({ state.1 with
          arrays := state.1.arrays ++ [(sharedParameterName global, declaration.byteSize)] },
        state.2)

/-- The threadgroup memory of a function (`5279-5334`). -/
def sharedSignature (module : IrModule) (tables : UsageTables) (function : Function) :
    Except String HiddenSignature :=
  match tables.shared.find? function.name with
  | none => .ok {}
  | some globals =>
    if function.isKernel then
      (globals.foldlM (declareShared module) ({}, 0)).map Prod.fst
    else
      .ok { parameters := globals.map fun global =>
        { type := sharedPointer, name := sharedParameterName global } }

/-- The flags of the lowerer after the body (`1622-1630`, `1765-1791`, `3573`): those of the
analysis, and those that lowering an operation raises. -/
def raisedNeeds (operation : Operation) : BuiltinUsage where
  threadPosition := operation.opcode == .metalThreadPosition
  threadgroupPosition := operation.opcode == .metalThreadgroupPosition
  threadsPerThreadgroup := operation.opcode == .metalThreadsPerThreadgroup
  threadgroupsPerGrid := operation.opcode == .metalThreadgroupsPerGrid
  laneId :=
    operation.opcode == .metalLaneId ||
      operation.opcode == .metalShuffle &&
        ["index", "down", "up", "xor"].contains ((operation.attributes.find? "kind").getD "")

/-- The needs of a function once the operations in `lowered` have been lowered. -/
def needsAfter (tables : UsageTables) (function : Function) (lowered : List Operation) :
    BuiltinUsage :=
  lowered.foldl (fun needs operation => needs.merge (raisedNeeds operation))
    (valueAt tables.builtin function.name)

/-- The hidden parameters of a function (`5279-5375`, `5432-5474`): the counters are declared
before the body, the thread attributes after it. -/
def hiddenSignature (module : IrModule) (tables : UsageTables) (function : Function)
    (lowered : List Operation) : Except String HiddenSignature := do
  let shared ← sharedSignature module tables function
  let required := valueAt tables.builtin function.name
  let needs := needsAfter tables function lowered
  let parameter := hiddenParameter function
  return { shared with
    parameters := shared.parameters ++
      (if valueAt tables.wideAtomic function.name then
        [parameter atomicUintPointer "cm_atomic_lock_bank" "buffer" (some 29)] else []) ++
      (if required.deviceClock then
        [parameter atomicUintPointer "cm_device_clock_counter" "buffer" (some 28)] else []) ++
      (if required.gridBarrier then
        [parameter atomicUintPointer "cm_grid_barrier" "buffer" (some 27)] else []) ++
      (if needs.threadPosition then
        [parameter uint3 "cm_thread_position" "thread_position_in_threadgroup" none] else []) ++
      (if needs.threadgroupPosition then
        [parameter uint3 "cm_threadgroup_position" "threadgroup_position_in_grid" none]
        else []) ++
      (if needs.threadsPerThreadgroup then
        [parameter uint3 "cm_threads_per_threadgroup" "threads_per_threadgroup" none] else []) ++
      (if needs.threadgroupsPerGrid then
        [parameter uint3 "cm_threadgroups_per_grid" "threadgroups_per_grid" none] else []) ++
      (if needs.laneId then
        [parameter (.uint 32) "cm_lane_id" "thread_index_in_simdgroup" none] else []) }

def HiddenParameter.argument (parameter : HiddenParameter) : MslExpression :=
  .identifier parameter.name parameter.type

end CuMetal.Metal
