import CuMetal.Runtime.LaunchArguments
import Mathlib.Algebra.GroupWithZero.Nat

/-!
# The ABI sidecar of a kernel

`load_function_argument_count` of `runtime/driver/cuda_driver.cpp:219-328`: the blocks of a
`.cumetal-abi` file, one for each kernel, and what a function record keeps of the one that names its
kernel.
-/

namespace CuMetal.Driver

open CuMetal.Runtime.Launch (ArgKind ArgInfo)

/-- `std::strtoull` of a string of digits, which stops at the largest value. -/
def strtoull (digits : List Char) : Nat :=
  min (digits.foldl (fun value digit => 10 * value + (digit.toNat - 48)) 0) (2 ^ 64 - 1)

/-- `parse_unsigned` (`cuda_driver.cpp:221-232`). -/
def parseUnsigned (text : List Char) (limit : Nat) : Option Nat :=
  if text.isEmpty || 20 < text.length || !text.all Char.isDigit then none
  else if limit < strtoull text then none
  else some (strtoull text)

/-- The arguments of a block (`265-292`) and the tokens after it; `none` where the block is
malformed. -/
def readArguments : List String → List ArgInfo → Option (List ArgInfo × List String)
  | [], info => some (info, [])
  | token :: rest, info =>
    if token = "kernel" then some (info, token :: rest)
    else if token = "shared" then
      match rest with
      | [] => none
      | bytes :: rest =>
        if (parseUnsigned bytes.toList (16 * 1024 * 1024)).isSome then readArguments rest info
        else none
    else
      match rest with
      | kind :: size :: rest =>
        match parseUnsigned size.toList 4096 with
        | none => none
        | some bytes =>
          if token ≠ "arg" ∨ (kind ≠ "buffer" ∧ kind ≠ "bytes") ∨ bytes = 0 ∨
              31 ≤ info.length then none
          else
            readArguments rest
              (info ++ [⟨if kind = "buffer" then .buffer else .bytes, bytes⟩])
      | _ => none

/-- The block loop (`258-300`): the arguments of the first block that names the kernel and has
any. A block has at least the tokens `kernel` and its name, so the number of tokens bounds the
number of blocks. -/
def readKernels (kernelName : String) : Nat → List String → Option (List ArgInfo)
  | 0, _ => none
  | blocks + 1, keyword :: name :: tokens =>
    if keyword ≠ "kernel" then none
    else
      match readArguments tokens [] with
      | none => none
      | some (info, rest) =>
        if name = kernelName ∧ info ≠ [] then some info
        else readKernels kernelName blocks rest
  | _ + 1, _ => none

/-- The file next to the metallib: its first line, and the words of the others. -/
structure Sidecar where
  header : String
  words : List String

/-- The tokens that are looked at (`242-255`). -/
def Sidecar.tokens (sidecar : Sidecar) : List String :=
  if (sidecar.header = "CUMETAL_ABI_V1" ∨ sidecar.header = "CUMETAL_ABI_V2") ∧
      sidecar.words.length ≤ 4096 then sidecar.words
  else []

/-- The arguments that the sidecar declares for a kernel. -/
def Sidecar.arguments (sidecar : Sidecar) (kernelName : String) : Option (List ArgInfo) :=
  readKernels kernelName sidecar.tokens.length sidecar.tokens

/-- `CUfunc_st` (`cuda_driver.cpp:44-50`), without its module. -/
structure DriverFunction where
  kernelName : String
  argumentCount : Nat := 0
  hasArgumentCount : Bool := false
  argumentInfo : List ArgInfo := []

/-- `load_function_argument_count`, given the sidecar, if there is one, and the number that the
metallib records for the kernel (`302-327`), if it is at most 31. -/
def loadFunctionArgumentCount (sidecar : Option Sidecar) (recorded : Option Nat)
    (function : DriverFunction) : DriverFunction :=
  match sidecar.bind fun sidecar => sidecar.arguments function.kernelName with
  | some info =>
    { function with
      argumentCount := info.length, hasArgumentCount := true, argumentInfo := info }
  | none =>
    match recorded with
    | some count => { function with argumentCount := count, hasArgumentCount := true }
    | none => function

/-- What is accepted as the description of a kernel: at most 31 arguments, each of between 1 and
4096 bytes. -/
structure AcceptedInfo (info : List ArgInfo) : Prop where
  count : info.length ≤ 31
  sizes : ∀ argument ∈ info, 0 < argument.sizeBytes ∧ argument.sizeBytes ≤ 4096

theorem parseUnsigned_le {text : List Char} {limit value : Nat}
    (parsed : parseUnsigned text limit = some value) : value ≤ limit := by
  unfold parseUnsigned at parsed
  split at parsed
  · cases parsed
  · split at parsed
    · cases parsed
    · next small =>
        cases parsed
        exact Nat.le_of_not_lt small

variable {info : List ArgInfo} {kernelName : String}

theorem AcceptedInfo.snoc {argument : ArgInfo} (accepted : AcceptedInfo info)
    (room : info.length < 31) (positive : 0 < argument.sizeBytes)
    (small : argument.sizeBytes ≤ 4096) : AcceptedInfo (info ++ [argument]) := by
  refine ⟨by rw [List.length_append]; exact room, ?_⟩
  intro other member
  rcases List.mem_append.mp member with earlier | last
  · exact accepted.sizes other earlier
  · obtain rfl := List.mem_singleton.mp last
    exact ⟨positive, small⟩

theorem readArguments_accepted (tokens : List String) (info : List ArgInfo)
    (accepted : AcceptedInfo info) :
    ∀ result, readArguments tokens info = some result → AcceptedInfo result.1 := by
  fun_induction readArguments tokens info with
  | case1 info =>
    intro result read
    cases read
    exact accepted
  | case2 info rest =>
    intro result read
    cases read
    exact accepted
  | case4 info bytes rest _ _ ih => exact ih accepted
  | case8 token info _ _ kind size rest bytes parsed valid ih =>
    have small := parseUnsigned_le parsed
    have room : ¬ 31 ≤ info.length := fun full => valid (.inr (.inr (.inr full)))
    have positive : bytes ≠ 0 := fun zero => valid (.inr (.inr (.inl zero)))
    exact ih (accepted.snoc (Nat.lt_of_not_le room) (Nat.pos_of_ne_zero positive) small)
  | _ => exact fun _ read => by cases read

theorem readKernels_accepted :
    ∀ (blocks : Nat) (tokens : List String), readKernels kernelName blocks tokens = some info →
      AcceptedInfo info ∧ info ≠ [] := by
  intro blocks
  induction blocks with
  | zero => intro tokens read; cases read
  | succ blocks ih =>
    intro tokens read
    match tokens with
    | [] => cases read
    | [_] => cases read
    | keyword :: name :: tokens =>
      rw [readKernels] at read
      split at read
      · cases read
      · split at read
        · cases read
        · next block rest parsed =>
            split at read
            · next named =>
                cases read
                have accepted := readArguments_accepted tokens [] ⟨by simp, by simp⟩ _ parsed
                exact ⟨accepted, named.2⟩
            · exact ih rest read

theorem Sidecar.arguments_accepted {sidecar : Sidecar}
    (read : sidecar.arguments kernelName = some info) : AcceptedInfo info ∧ info ≠ [] :=
  readKernels_accepted _ _ read

end CuMetal.Driver
