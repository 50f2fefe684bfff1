import CuMetal.Lib.AssocMap

/-!
# The GPU intermediate representation

The value types of `compiler/ir/include/cumetal/ir/ir.h`.  Maps and sets of the
source are lists of bindings (`AssocMap`) or lists of members; `std::uint32_t`
identifiers are naturals.  Fields that no modelled function reads are left out.
-/

namespace CuMetal.Ir

abbrev ValueId := Nat
abbrev BlockId := Nat

/-- `kInvalidValue` (`ir.h:16`). -/
def invalidValue : ValueId := 0

/-- `kInvalidBlock` (`ir.h:17`). -/
def invalidBlock : BlockId := 0

/-- `AddressSpace` (`ir.h:19-25`). -/
inductive AddressSpace where
  | none
  | device
  | constant
  | threadgroup
  | privateSpace
  deriving DecidableEq, Repr, Inhabited

/-- `MemoryScope` (`ir.h:27-33`). -/
inductive MemoryScope where
  | none
  | simdgroup
  | threadgroup
  | device
  | system
  deriving DecidableEq, Repr, Inhabited

/-- `MemoryOrdering` (`ir.h:35-42`). -/
inductive MemoryOrdering where
  | none
  | relaxed
  | acquire
  | release
  | acquireRelease
  | sequentiallyConsistent
  deriving DecidableEq, Repr, Inhabited

/-- `TypeKind` (`ir.h:44-52`). -/
inductive TypeKind where
  | void
  | predicate
  | integer
  | float
  | vector
  | pointer
  | aggregate
  deriving DecidableEq, Repr, Inhabited

/-- `Type` (`ir.h:54-76`), under a name that is free in Lean. -/
structure IrType where
  kind : TypeKind := .void
  bitWidth : Nat := 0
  lanes : Nat := 1
  addressSpace : AddressSpace := .none
  elements : List IrType := []
  name : String := ""
  deriving Repr, Inhabited

namespace IrType

mutual

/-- Member-wise equality of types, `operator==` of `Type` (`ir.h:75`). -/
def decideEq : (left right : IrType) → Decidable (left = right)
  | ⟨k, b, l, s, es, n⟩, ⟨k', b', l', s', es', n'⟩ =>
    match (inferInstance : Decidable ((k, b, l, s, n) = (k', b', l', s', n'))),
      decideEqList es es' with
    | isTrue h, isTrue hes => isTrue (by simp_all)
    | isFalse h, _ => isFalse (by intro e; injection e; simp_all)
    | _, isFalse h => isFalse (by intro e; injection e; simp_all)

def decideEqList : (left right : List IrType) → Decidable (left = right)
  | [], [] => isTrue rfl
  | [], _ :: _ => isFalse (by simp)
  | _ :: _, [] => isFalse (by simp)
  | x :: xs, y :: ys =>
    match decideEq x y, decideEqList xs ys with
    | isTrue h, isTrue hs => isTrue (by rw [h, hs])
    | isFalse h, _ => isFalse (by simp [h])
    | _, isFalse h => isFalse (by simp [h])

end

instance : DecidableEq IrType := decideEq

/-- `Type::void_type` (`ir.cpp:48-50`). -/
def voidType : IrType := {}

/-- `Type::integer` (`ir.cpp:57-59`). -/
def integer (bits : Nat) : IrType := { kind := .integer, bitWidth := bits }

/-- `Type::predicate` (`ir.cpp:52-55`): PTX predicates are ordinary `i1` values. -/
def predicate : IrType := integer 1

/-- `Type::floating` (`ir.cpp:61-63`). -/
def floating (bits : Nat) : IrType := { kind := .float, bitWidth := bits }

/-- `Type::pointer` (`ir.cpp:74-81`). -/
def pointer (pointeeType : IrType) (space : AddressSpace) : IrType :=
  { kind := .pointer, bitWidth := 64, addressSpace := space, elements := [pointeeType] }

/-- `Type::is_pointer` (`ir.cpp:95-97`). -/
def isPointer (type : IrType) : Bool := type.kind == .pointer

end IrType

/-- `SourceLocation` (`ir.h:78-84`). -/
structure SourceLocation where
  file : String := ""
  line : Nat := 0
  column : Nat := 0
  deriving DecidableEq, Repr, Inhabited

/-- `ArgumentDescriptor` (`ir.h:93-104`). -/
structure ArgumentDescriptor where
  name : String := ""
  type : IrType := {}
  size : Nat := 0
  alignment : Nat := 0
  addressSpace : AddressSpace := .none
  deriving DecidableEq, Repr, Inhabited

/-- `KernelAbi` (`ir.h:123-129`). -/
structure KernelAbi where
  arguments : List ArgumentDescriptor := []
  requiredSimdWidth : Nat := 32
  deriving DecidableEq, Repr, Inhabited

/-- `PointerBaseKind` (`ir.h:131-137`). -/
inductive PointerBaseKind where
  | unknown
  | kernelArgument
  | allocation
  | dynamicThreadgroupMemory
  | integerRoundTrip
  deriving DecidableEq, Repr, Inhabited

/-- `PointerProvenance` (`ir.h:139-150`). -/
structure PointerProvenance where
  baseKind : PointerBaseKind := .unknown
  memoryLayout : String := ""
  knownByteOffset : Option Int := none
  knownLayoutOffset : Option Int := none
  deriving DecidableEq, Repr, Inhabited

/-- `IrStage` (`ir.h:161-164`). -/
inductive IrStage where
  | gpuSemantic
  | metalLegalized
  deriving DecidableEq, Repr, Inhabited

/-- `OpCode` (`ir.h:166-228`), in the order of the source: `is_gpu_semantic_opcode`
    and `is_metal_opcode` compare positions. -/
inductive OpCode where
  | invalid | constant | parameter | add | sub | mul | div | remainder | fma | negate
  | bitAnd | bitOr | bitXor | shiftLeft | shiftRight | compare | select
  | aggregateConstruct | aggregateExtract | convert | addressSpaceCast | alloca
  | pointerOffset | load | store | call | printf
  | threadId | threadgroupId | threadgroupSize | gridSize | laneId | simdgroupSize
  | barrier | fence | atomic | shuffle | ballot | vote | reduction
  | branch | condBranch | «return» | trap
  | metalThreadPosition | metalThreadgroupPosition | metalThreadsPerThreadgroup
  | metalThreadgroupsPerGrid | metalLaneId | metalBarrier | metalFence | metalAtomic
  | metalShuffle | metalBallot | metalVote | metalReduction
  | metalBufferArgument | metalThreadgroupArgument
  deriving DecidableEq, Repr, Inhabited

/-- `is_gpu_semantic_opcode` (`ir.cpp:233-235`). -/
def isGpuSemanticOpcode (opcode : OpCode) : Bool :=
  OpCode.threadId.ctorIdx ≤ opcode.ctorIdx && opcode.ctorIdx ≤ OpCode.reduction.ctorIdx

/-- `is_metal_opcode` (`ir.cpp:237-240`). -/
def isMetalOpcode (opcode : OpCode) : Bool :=
  OpCode.metalThreadPosition.ctorIdx ≤ opcode.ctorIdx &&
    opcode.ctorIdx ≤ OpCode.metalThreadgroupArgument.ctorIdx

/-- `OperandKind` (`ir.h:230-234`). -/
inductive OperandKind where
  | value
  | immediate
  | symbol
  deriving DecidableEq, Repr, Inhabited

/-- `Operand` (`ir.h:236-245`). -/
structure Operand where
  kind : OperandKind := .immediate
  value : ValueId := invalidValue
  type : IrType := {}
  text : String := ""
  deriving DecidableEq, Repr, Inhabited

/-- `Operand::value_ref` (`ir.cpp:147-149`). -/
def Operand.valueRef (value : ValueId) (type : IrType) : Operand :=
  { kind := .value, value, type }

/-- `Successor` (`ir.h:247-250`). -/
structure Successor where
  block : BlockId := invalidBlock
  arguments : List ValueId := []
  deriving DecidableEq, Repr, Inhabited

/-- `Operation` (`ir.h:252-264`). -/
structure Operation where
  opcode : OpCode := .invalid
  results : List ValueId := []
  resultTypes : List IrType := []
  operands : List Operand := []
  successors : List Successor := []
  attributes : AssocMap String String := []
  memoryScope : MemoryScope := .none
  memoryOrdering : MemoryOrdering := .none
  location : SourceLocation := {}
  deriving DecidableEq, Repr, Inhabited

/-- `Operation::is_terminator` (`ir.cpp:167-170`). -/
def Operation.isTerminator (operation : Operation) : Bool :=
  operation.opcode == .branch || operation.opcode == .condBranch ||
    operation.opcode == .return || operation.opcode == .trap

/-- `BlockArgument` (`ir.h:266-270`). -/
structure BlockArgument where
  value : ValueId := invalidValue
  type : IrType := {}
  name : String := ""
  deriving DecidableEq, Repr, Inhabited

/-- `BasicBlock` (`ir.h:272-277`). -/
structure BasicBlock where
  id : BlockId := invalidBlock
  name : String := ""
  arguments : List BlockArgument := []
  operations : List Operation := []
  deriving DecidableEq, Repr, Inhabited

/-- `FunctionArgument` (`ir.h:279-283`). -/
structure FunctionArgument where
  value : ValueId := invalidValue
  name : String := ""
  type : IrType := {}
  deriving DecidableEq, Repr, Inhabited

/-- `Function` (`ir.h:285-310`). -/
structure Function where
  name : String := ""
  isKernel : Bool := false
  returnType : IrType := {}
  arguments : List FunctionArgument := []
  blocks : List BasicBlock := []
  kernelAbi : Option KernelAbi := none
  pointerProvenance : AssocMap ValueId PointerProvenance := []
  genericPointerValues : List ValueId := []
  genericNullPointerValues : List ValueId := []
  mixedPointerAddressSpaces : AssocMap ValueId Nat := []
  mixedPointerReturnSpaces : Nat := 0
  genericPointerReturn : Bool := false
  deriving DecidableEq, Repr, Inhabited

/-- `GlobalThreadgroup` (`ir.h:318-323`). -/
structure GlobalThreadgroup where
  name : String := ""
  byteSize : Nat := 0
  isDynamic : Bool := false
  deriving DecidableEq, Repr, Inhabited

/-- `Module` (`ir.h:335-345`), under a name that is free in Lean. -/
structure IrModule where
  stage : IrStage := .gpuSemantic
  globalThreadgroups : List GlobalThreadgroup := []
  functions : List Function := []
  deriving DecidableEq, Repr, Inhabited

/-- `Diagnostic` (`ir.h:347-350`). -/
structure Diagnostic where
  location : SourceLocation := {}
  message : String := ""
  deriving DecidableEq, Repr, Inhabited

end CuMetal.Ir
