import CuMetal.Ir.Syntax

/-!
# Signatures of imported functions

The arguments that the two importers give a function, its own and the hidden ones, and the Metal
buffer indices that they choose for a kernel (`compiler/ir/src/nvvm_importer.cpp`,
`compiler/ir/src/ptx_importer.cpp`). Values, sizes, alignments and provenance are left out.
-/

namespace CuMetal.Ir

/-- `ArgumentKind` (`ir.h:86-91`). -/
inductive ArgumentKind
  | pointer
  | scalar
  | aggregate
  | dynamicThreadgroupMemory
  deriving DecidableEq, Repr

/-- `BindingKind` (`ir.h:106-111`). -/
inductive BindingKind
  | buffer
  | bytes
  | threadgroupMemory
  | builtin
  deriving DecidableEq, Repr

/-- `ArgumentDescriptor` (`ir.h:93-104`), with its bindings. -/
structure KernelArgument where
  name : String
  kind : ArgumentKind
  type : IrType
  bindingIndices : List Nat
  hiddenRole : Option String

/-- `BindingDescriptor` (`ir.h:113-121`). -/
structure KernelBinding where
  kind : BindingKind
  bindingIndex : Nat
  logicalArgumentIndex : Nat
  type : IrType
  hiddenRole : Option String

/-- The two lists of `KernelAbi` (`ir.h:123-129`). -/
structure KernelBindings where
  arguments : List KernelArgument
  bindings : List KernelBinding

/-- The arguments of a function under construction, and what a kernel binds. -/
structure Signature where
  arguments : List (String × IrType)
  kernelAbi : Option KernelBindings

namespace Signature

def start (isKernel : Bool) : Signature :=
  ⟨[], if isKernel then some ⟨[], []⟩ else none⟩

/-- The next argument, with its descriptor and its binding if the function is a kernel. -/
def declare (signature : Signature) (name : String) (type : IrType) (kind : ArgumentKind)
    (bindingKind : BindingKind) (bindingIndex : Nat) (role bindingRole : Option String) :
    Signature where
  arguments := signature.arguments ++ [(name, type)]
  kernelAbi := signature.kernelAbi.map fun abi =>
    { arguments := abi.arguments ++ [⟨name, kind, type, [bindingIndex], role⟩]
      bindings := abi.bindings ++
        [⟨bindingKind, bindingIndex, abi.arguments.length, type, bindingRole⟩] }

def bytePointer (space : AddressSpace) : IrType := .pointer (.integer 8) space

/-- The ring and its capacity (`nvvm_importer.cpp:1241-1303`, `ptx_importer.cpp:3411-3478`). -/
def declarePrintf (signature : Signature) (bindingIndex : Nat) : Signature :=
  (signature.declare "__cumetal_printf_buffer" (.pointer (.integer 32) .device) .pointer .buffer
      bindingIndex (some "printf_buffer") (some "printf_buffer")).declare
    "__cumetal_printf_capacity" (.integer 32) .scalar .bytes (bindingIndex + 1)
    (some "printf_capacity") (some "printf_capacity")

end Signature

/-- A parameter of an LLVM function; the name is empty if it has none. -/
structure NvvmParameter where
  name : String
  type : IrType
  byval : Bool

/-- `ExternalGlobalInfo` (`nvvm_importer.cpp:539-545`). -/
structure ExternalGlobalInfo where
  name : String
  constant : Bool

/-- `allocate_function` under way: `argument_index` and the arguments so far. -/
structure NvvmState where
  argumentIndex : Nat
  signature : Signature

/-- A parameter (`1115-1170`). -/
def NvvmState.parameter (state : NvvmState) (parameter : NvvmParameter) : NvvmState where
  argumentIndex := state.argumentIndex + 1
  signature := state.signature.declare
    (if parameter.name = "" then "arg" ++ toString state.argumentIndex else parameter.name)
    parameter.type
    (if parameter.byval then .aggregate else if parameter.type.isPointer then .pointer else .scalar)
    (if parameter.type.isPointer then .buffer else .bytes) state.argumentIndex none none

/-- A module global (`1172-1234`): all constants that a function refers to share one buffer. -/
def NvvmState.global (isKernel : Bool) (references : ExternalGlobalInfo → Bool)
    (state : NvvmState) (info : ExternalGlobalInfo) : Except String NvvmState :=
  if !references info then .ok state
  else if info.constant then
    if state.signature.arguments.any (fun argument => argument.1 = "__cumetal_constant_symbols") then
      .ok state
    else
      .ok { state with
        signature := state.signature.declare "__cumetal_constant_symbols"
          (Signature.bytePointer .constant) .pointer .buffer 30 (some "constant_symbols")
          (some "constant_symbols") }
  else if isKernel ∧ 29 ≤ state.argumentIndex then
    .error "CUDA device global conflicts with reserved Metal bindings"
  else
    .ok { argumentIndex := state.argumentIndex + 1
          signature := state.signature.declare ("__cumetal_global_" ++ info.name)
            (Signature.bytePointer .device) .pointer .buffer state.argumentIndex
            (some ("global_symbol:" ++ info.name)) (some ("global_symbol:" ++ info.name)) }

/-- The signature that `allocate_function` gives a function (`1105-1304`). -/
def allocateFunction (isKernel : Bool) (parameters : List NvvmParameter)
    (references : ExternalGlobalInfo → Bool) (externalGlobals : List ExternalGlobalInfo)
    (usesVprintf : Bool) : Except String Signature := do
  let started := parameters.foldl NvvmState.parameter ⟨0, .start isKernel⟩
  let state ← externalGlobals.foldlM (NvvmState.global isKernel references) started
  if !usesVprintf then return state.signature
  if isKernel ∧ 29 ≤ state.argumentIndex + 1 then
    throw "typed vprintf hidden arguments conflict with reserved Metal bindings"
  return state.signature.declarePrintf state.argumentIndex

/-- A parameter (`ptx_importer.cpp:3302-3344`); its index is the number of those before it. -/
def Signature.ptxParameter (signature : Signature) (parameter : String × IrType) : Signature :=
  signature.declare parameter.1 parameter.2
    (if parameter.2.isPointer then .pointer else .scalar)
    (if parameter.2.isPointer then .buffer else .bytes) signature.arguments.length none none

/-- A module global (`3351-3401`). -/
def Signature.ptxGlobal (signature : Signature) (symbol : String) : Except String Signature :=
  if 29 ≤ signature.arguments.length then
    .error "CUDA device global conflicts with reserved Metal bindings"
  else
    .ok (signature.declare ("__cumetal_global_" ++ symbol) (bytePointer .device) .pointer .buffer
      signature.arguments.length (some ("global_symbol:" ++ symbol))
      (some ("global_symbol:" ++ symbol)))

/-- The signature that `materialize_function` gives a function (`3300-3523`). `globals` and
`constants` are `module_global_symbols` and `module_constant_symbols`, the symbols that the entry or
one of its helpers refers to. -/
def materializeFunction (isKernel : Bool) (parameters : List (String × IrType))
    (globals constants : List String) (usesPrintf : Bool) : Except String Signature := do
  let declared := parameters.foldl Signature.ptxParameter (.start isKernel)
  let bound ← if isKernel then globals.foldlM Signature.ptxGlobal declared else pure declared
  if usesPrintf ∧ isKernel ∧ 29 ≤ bound.arguments.length + 1 then
    throw "typed printf hidden arguments conflict with reserved Metal bindings"
  let printing := if usesPrintf then bound.declarePrintf bound.arguments.length else bound
  if !isKernel ∨ constants.isEmpty then return printing
  if 30 < printing.arguments.length then
    throw "kernel argument ABI conflicts with reserved constant buffer index 30"
  return printing.declare "__cumetal_constant_buffer" (Signature.bytePointer .constant) .pointer
    .buffer 30 none (some "constant_symbols")

/-- What a binding is for. -/
inductive Role
  | parameter (index : Nat)
  | globalSymbol (name : String)
  | constantSymbols
  | printfBuffer
  | printfCapacity
  deriving DecidableEq

/-- What `hidden_role` says; an argument without one is a parameter. -/
def roleOf (logicalArgumentIndex : Nat) : Option String → Role
  | none => .parameter logicalArgumentIndex
  | some role =>
    if role = "constant_symbols" then .constantSymbols
    else if role = "printf_buffer" then .printfBuffer
    else if role = "printf_capacity" then .printfCapacity
    else .globalSymbol (String.ofList (role.toList.drop "global_symbol:".length))

def KernelBinding.role (binding : KernelBinding) : Role :=
  roleOf binding.logicalArgumentIndex binding.hiddenRole

/-- A kernel that one of the importers takes in. -/
inductive KernelSource
  | nvvm (parameters : List NvvmParameter) (references : ExternalGlobalInfo → Bool)
      (externalGlobals : List ExternalGlobalInfo) (usesVprintf : Bool)
  | ptx (parameters : List (String × IrType)) (globals constants : List String)
      (usesPrintf : Bool)

namespace KernelSource

def signature : KernelSource → Except String Signature
  | nvvm parameters references externalGlobals usesVprintf =>
    allocateFunction true parameters references externalGlobals usesVprintf
  | ptx parameters globals constants usesPrintf =>
    materializeFunction true parameters globals constants usesPrintf

def parameterCount : KernelSource → Nat
  | nvvm parameters _ _ _ => parameters.length
  | ptx parameters _ _ _ => parameters.length

/-- The `__device__` variables that it refers to. -/
def globalNames : KernelSource → List String
  | nvvm _ references externalGlobals _ =>
    (externalGlobals.filter fun info => references info && !info.constant).map
      ExternalGlobalInfo.name
  | ptx _ globals _ _ => globals

/-- Whether it refers to constants that are registered. -/
def refersToConstants : KernelSource → Bool
  | nvvm _ references externalGlobals _ =>
    externalGlobals.any fun info => references info && info.constant
  | ptx _ _ constants _ => !constants.isEmpty

/-- Whether a parameter has the name that the buffer of all constants has. -/
def shadowsConstants : KernelSource → Bool
  | nvvm parameters _ _ _ =>
    parameters.any fun parameter => parameter.name = "__cumetal_constant_symbols"
  | ptx .. => false

def usesPrintf : KernelSource → Bool
  | nvvm _ _ _ usesVprintf => usesVprintf
  | ptx _ _ _ usesPrintf => usesPrintf

def numbered (source : KernelSource) : Nat :=
  source.parameterCount + source.globalNames.length + if source.usesPrintf then 2 else 0

/-- Whether the importer declares a buffer for the constants. -/
def usesConstants (source : KernelSource) : Bool :=
  source.refersToConstants && !source.shadowsConstants

/-- The indices that the importer gives out, with their roles. -/
def declared (source : KernelSource) : List (Nat × Role) :=
  (List.range source.parameterCount).map (fun i => (i, .parameter i)) ++
    (source.globalNames.zipIdx source.parameterCount).map
      (fun (name, index) => (index, .globalSymbol name)) ++
    (if source.usesPrintf then
      [(source.parameterCount + source.globalNames.length, .printfBuffer),
        (source.parameterCount + source.globalNames.length + 1, .printfCapacity)] else []) ++
    (if source.usesConstants then [(30, .constantSymbols)] else [])

end KernelSource

end CuMetal.Ir
