import CuMetal.Lib.Transition
import Mathlib.Algebra.GroupWithZero.Nat

/-!
# The device printf ring

The records that kernels write (`compiler/metal/src/lower_to_msl.cpp`,
`compiler/ptx/src/lower_to_metal.cpp`) and the host reads back
(`runtime/rt/cuda_runtime.cpp`). The first word of the buffer is a cursor; a thread reserves the
words of a record there and writes them after the position it was given.
-/

namespace CuMetal.Printf

/-- An argument of a typed printf operation, 32 or 64 bits wide, with the bits of its value. -/
structure Argument where
  wide : Bool
  raw : BitVec 64
  deriving DecidableEq

/-- A printf call. -/
structure Call where
  formatId : BitVec 32
  arguments : List Argument
  deriving DecidableEq

/-- `argument_bits / 32`. -/
def Argument.words (argument : Argument) : Nat := if argument.wide then 2 else 1

def Argument.low (argument : Argument) : BitVec 32 := argument.raw.setWidth 32

def Argument.high (argument : Argument) : BitVec 32 := (argument.raw >>> 32).setWidth 32

/-- The payload of a call: the words of its arguments. -/
def Call.payload (call : Call) : List (BitVec 32) :=
  call.arguments.flatMap fun argument =>
    if argument.wide then [argument.low, argument.high] else [argument.low]

/-- `payload_words` (`lower_to_msl.cpp:4068-4069`). -/
def payloadWords (arguments : List Argument) : Nat :=
  arguments.foldl (fun words argument => words + argument.words) 0

/-- `record_words` (`lower_to_msl.cpp:4070`). -/
def Call.recordWords (call : Call) : Nat := 2 + payloadWords call.arguments

/-- The writes of the arguments from a payload offset on, each with its place after the position
of the record (`lower_to_msl.cpp:4116-4152`). -/
def writeArguments : Nat → List Argument → List (Nat × BitVec 32)
  | _, [] => []
  | payloadOffset, argument :: rest =>
    if argument.wide then
      (3 + payloadOffset, argument.low) :: (4 + payloadOffset, argument.high) ::
        writeArguments (payloadOffset + 2) rest
    else (3 + payloadOffset, argument.low) :: writeArguments (payloadOffset + 1) rest

/-- The writes of a record (`lower_to_msl.cpp:4099-4152`). -/
def Call.writes (call : Call) : List (Nat × BitVec 32) :=
  (1, call.formatId) :: (2, BitVec.ofNat 32 (payloadWords call.arguments)) ::
    writeArguments 0 call.arguments

/-- An argument of `emit_printf_record`: its type in Metal, the bits of its value, and what the
conversion to an unsigned integer makes of the value. -/
structure TypedValue where
  type : String
  bits : BitVec 64
  number : BitVec 64

/-- The word of which an argument's are taken (`lower_to_metal.cpp:1561-1584`): a pointer's address
or the converted value for 64 bits, and for 32 bits the bits of the types that are not converted. -/
def TypedValue.stored (value : TypedValue) (wide : Bool) : BitVec 64 :=
  if wide then
    if value.type = "device_ptr" ∨ '*' ∈ value.type.toList then value.bits else value.number
  else if value.type = "float" ∨ value.type = "double" ∨ value.type = "ulong" then value.bits
  else value.number

/-- The writes of the arguments by `emit_printf_record` (`lower_to_metal.cpp:1553-1590`), where a
width that is missing from the table is 32 bits. -/
def emitArguments (argumentBits : List Nat) :
    Nat → Nat → List TypedValue → List (Nat × BitVec 32)
  | _, _, [] => []
  | i, payloadOffset, value :: rest =>
    if (argumentBits[i]?).getD 32 = 64 then
      let raw := value.stored true
      (3 + payloadOffset, raw.setWidth 32) :: (4 + payloadOffset, (raw >>> 32).setWidth 32) ::
        emitArguments argumentBits (i + 1) (payloadOffset + 2) rest
    else
      (3 + payloadOffset, (value.stored false).setWidth 32) ::
        emitArguments argumentBits (i + 1) (payloadOffset + 1) rest

/-- The writes of a record by `emit_printf_record` (`lower_to_metal.cpp:1535-1593`), under the
same reservation and the same check as those of `lower_to_msl.cpp`. -/
def emitPrintfRecord (fmtId : BitVec 32) (values : List TypedValue) (argumentBits : List Nat) :
    List (Nat × BitVec 32) :=
  let words := (List.range values.length).foldl (fun words i =>
    words + if (argumentBits[i]?).getD 0 = 64 then 2 else 1) 0
  (1, fmtId) :: (2, BitVec.ofNat 32 words) :: emitArguments argumentBits 0 0 values

/-- Where a thread is in its printf calls. -/
inductive Progress
  | ready (calls : List Call)
  | storing (position : BitVec 32) (pending : List (Nat × BitVec 32)) (calls : List Call)

/-- The words of the buffer, and of the memory behind it, and the threads of the kernel. -/
structure State (ι : Type) where
  words : Nat → BitVec 32
  threads : ι → Progress

/-- What a thread does to the buffer. -/
inductive Event (ι : Type)
  | reserve (thread : ι) (call : Call) (position : BitVec 32)
  | store (thread : ι) (index : Nat) (word : BitVec 32)

section Steps

variable {ι : Type} [DecidableEq ι] (capacity : BitVec 32)

/-- `position + record_words < capacity`, in machine words. -/
def fits (call : Call) (position : BitVec 32) : Bool :=
  position + BitVec.ofNat 32 call.recordWords < capacity

def State.advance (state : State ι) (thread : ι) (progress : Progress) : State ι :=
  { state with threads := fun other => if other = thread then progress else state.threads other }

def State.put (state : State ι) (index : Nat) (word : BitVec 32) : State ι :=
  { state with words := fun other => if other = index then word else state.words other }

/-- One step of one thread: the atomic reservation of a record, the store of one of its words, or
going on to the next call. -/
inductive Step : State ι → Option (Event ι) → State ι → Prop
  | reserve {state : State ι} {thread : ι} {call : Call} {calls : List Call}
      (next : state.threads thread = .ready (call :: calls)) :
      Step state (some (.reserve thread call (state.words 0)))
        ((state.put 0 (state.words 0 + BitVec.ofNat 32 call.recordWords)).advance thread
          (if fits capacity call (state.words 0) then .storing (state.words 0) call.writes calls
            else .ready calls))
  | store {state : State ι} {thread : ι} {position : BitVec 32} {relative : Nat}
      {word : BitVec 32} {pending : List (Nat × BitVec 32)} {calls : List Call}
      (next : state.threads thread = .storing position ((relative, word) :: pending) calls) :
      Step state (some (.store thread (position + BitVec.ofNat 32 relative).toNat word))
        ((state.put (position + BitVec.ofNat 32 relative).toNat word).advance thread
          (.storing position pending calls))
  | finish {state : State ι} {thread : ι} {position : BitVec 32} {calls : List Call}
      (next : state.threads thread = .storing position [] calls) :
      Step state none (state.advance thread (.ready calls))

/-- A zero-filled buffer, with its cursor, before the kernel starts. -/
structure Initial (calls : ι → List Call) (state : State ι) : Prop where
  zero : ∀ i, i < max capacity.toNat 1 → state.words i = 0
  ready : ∀ thread, state.threads thread = .ready (calls thread)

def State.Ended (state : State ι) : Prop := ∀ thread, state.threads thread = .ready []

end Steps

section Drain

variable (formats : List String) (words : Nat → BitVec 32)

/-- The loop of `drain_printf_buffer` (`cuda_runtime.cpp:926-937`) from an index on: the formats
and argument words that `drain_one_printf_record` is called with. It has no answer when the fuel
runs out. -/
def drainRecords (available : BitVec 32) :
    Nat → BitVec 32 → Option (List (String × List (BitVec 32)))
  | 0, _ => none
  | fuel + 1, i =>
    if i + 1 ≤ available then
      let fmtId := words i.toNat
      let nArgs := words (i + 1).toNat
      if available < nArgs ∨ available + 1 < i + 2 + nArgs then some []
      else
        let drained :=
          match formats[fmtId.toNat]? with
          | some format =>
            [(format, (List.range nArgs.toNat).map fun k => words (i.toNat + 2 + k))]
          | none => []
        (drainRecords available fuel (i + (2 + nArgs))).map (drained ++ ·)
    else some []

/-- `drain_printf_buffer` (`cuda_runtime.cpp:905-938`). -/
def drainPrintfBuffer (capWords : BitVec 32) (fuel : Nat) :
    Option (List (String × List (BitVec 32))) :=
  if capWords = 0 ∨ formats = [] then some []
  else
    let totalWords := words 0
    if totalWords = 0 then some []
    else
      let availableWords := if capWords - 1 < totalWords then capWords - 1 else totalWords
      drainRecords formats words availableWords fuel 1

end Drain

end CuMetal.Printf
