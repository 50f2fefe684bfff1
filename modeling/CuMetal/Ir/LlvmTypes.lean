import Mathlib.Data.Nat.Notation

/-!
# LLVM types

The types of the LLVM modules that `compiler/ir/src/nvvm_importer.cpp` imports.
-/

namespace CuMetal.Ir

/-- The first-class types of LLVM; a structure has its elements and the flag that packs them. -/
inductive LlvmType
  | void
  | int (bits : ℕ)
  | half
  | bfloat
  | float
  | double
  | x86fp80
  | fp128
  | ppcfp128
  | pointer (addressSpace : ℕ)
  | vector (element : LlvmType) (lanes : ℕ)
  | array (element : LlvmType) (count : ℕ)
  | struct (elements : List LlvmType) (packed : Bool)
  deriving Inhabited

mutual

/-- `contains_fp64` (`nvvm_importer.cpp:202-216`). -/
def LlvmType.containsFp64 : LlvmType → Bool
  | .double => true
  | .vector element _ | .array element _ => element.containsFp64
  | .struct elements _ => anyContainsFp64 elements
  | _ => false

/-- Whether an element of a structure does (`212-213`). -/
def anyContainsFp64 : List LlvmType → Bool
  | [] => false
  | element :: rest => element.containsFp64 || anyContainsFp64 rest

end

end CuMetal.Ir
