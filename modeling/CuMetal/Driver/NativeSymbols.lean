import CuMetal.Lib.TextSearch
import CuMetal.Runtime.LaunchArguments
import Mathlib.Algebra.Order.Group.Nat
import Mathlib.Data.List.TakeWhile

/-!
# Symbols of a native executable

The records of a module's external symbols in the generated Metal text
(`compiler/metal/src/lower_to_msl.cpp`), and what the executable driver reads back from the text: the
symbols, and for each kernel the ones that it binds (`compiler/cumetalc/main.cpp`), which become those
of its record (`runtime/registration/native_registration.cpp`). Initial values are left out.
-/

namespace CuMetal.Driver

/-- `ExternalSymbol` (`ir.h`); `initializer` has two digits for each byte. -/
structure ExternalSymbol where
  name : String
  byteSize : Nat
  alignment : Nat
  constantOffset : Nat
  constant : Bool
  modulePrivate : Bool
  initializer : List Char

/-- `NativeSourceSymbol` (`main.cpp:601-609`). -/
structure NativeSourceSymbol where
  name : String
  size : Nat
  alignment : Nat
  constantOffset : Nat
  constant : Bool
  modulePrivate : Bool
  deriving DecidableEq

def recordPrefix : String := "// cumetal-native-symbol: "

def ExternalSymbol.kind (symbol : ExternalSymbol) : String :=
  if symbol.constant then "constant " else if symbol.modulePrivate then "private-global "
  else "global "

/-- The record of a symbol (`lower_to_msl.cpp:5706-5715`, `msl_ast.cpp:57`). -/
def ExternalSymbol.record (symbol : ExternalSymbol) : String :=
  recordPrefix ++ symbol.kind ++ symbol.name ++ " " ++ toString symbol.byteSize ++ " " ++
    toString symbol.alignment ++ " " ++ toString symbol.constantOffset ++ "\n"

/-- The record of the initial value (`5716-5727`). -/
def ExternalSymbol.initializerRecord (symbol : ExternalSymbol) : String :=
  if symbol.initializer.isEmpty then ""
  else "// cumetal-native-symbol-initializer: " ++ symbol.name ++ " " ++
    String.ofList symbol.initializer ++ "\n"

def symbolRecords : List ExternalSymbol → String
  | [] => ""
  | symbol :: rest => symbol.record ++ symbol.initializerRecord ++ symbolRecords rest

def expect (literal : String) (text : List Char) : Option (List Char) :=
  if literal.toList <+: text then some (text.drop literal.toList.length) else none

/-- A run of at least one character, and the text after it. -/
def run (accepts : Char → Bool) (text : List Char) : Option (List Char × List Char) :=
  if text.takeWhile accepts = [] then none
  else some (text.takeWhile accepts, text.dropWhile accepts)

/-- A decimal number as 32 bits, and the text after it. -/
def number (text : List Char) : Option (Nat × List Char) :=
  (run Char.isDigit text).map fun found => (Nat.ofDigitChars 10 found.1 0 % 2 ^ 32, found.2)

/-- The kind of a symbol: whether it is a constant, and whether it is private. -/
def matchKind (text : List Char) : Option ((Bool × Bool) × List Char) :=
  match expect "constant " text with
  | some rest => some ((true, false), rest)
  | none =>
    match expect "global " text with
    | some rest => some ((false, false), rest)
    | none => (expect "private-global " text).map fun rest => ((false, true), rest)

/-- A match of the record's expression at the start of a text (`613-615`). -/
def matchRecord (text : List Char) : Option (NativeSourceSymbol × List Char) := do
  let text ← expect recordPrefix text
  let (kind, text) ← matchKind text
  let (name, text) ← run (· ≠ ' ') text
  let text ← expect " " text
  let (size, text) ← number text
  let text ← expect " " text
  let (alignment, text) ← number text
  let text ← expect " " text
  let (constantOffset, text) ← number text
  return (⟨String.ofList name, size, alignment, constantOffset, kind.1, kind.2⟩, text)

/-- The matches in a text, from left to right; `fuel` bounds the length of the text. -/
def matchRecords : Nat → List Char → List NativeSourceSymbol
  | 0, _ => []
  | _ + 1, [] => []
  | fuel + 1, c :: rest =>
    match matchRecord (c :: rest) with
    | some found => found.1 :: matchRecords fuel found.2
    | none => matchRecords fuel rest

/-- `parse_native_source_symbols` (`611-628`). -/
def parseNativeSourceSymbols (text : List Char) : List NativeSourceSymbol :=
  matchRecords text.length text

/-- The text of a kernel's signature in the generated text (`1098-1115`). -/
def kernelSignature (text : List Char) (metalName : String) : Option (List Char) :=
  (fromFirst ("kernel void " ++ metalName ++ "(").toList text).bind (beforeFirst ") \x7b".toList)

/-- The text that stands for a symbol in a signature. -/
def searchText (name : String) : List Char := ("cm___cumetal_global_" ++ name).toList

def constantsText : List Char := "cm___cumetal_constant_symbols".toList

/-- The `symbol_indices` of a kernel (`1093-1136`). -/
def symbolIndices (text : List Char) (metalName : String) : Option (List Nat) :=
  (kernelSignature text metalName).map fun signature =>
    ((parseNativeSourceSymbols text).zipIdx.filter fun entry =>
      entry.1.constant && constantsText <:+: signature ||
        !entry.1.constant && searchText entry.1.name <:+: signature).map Prod.snd

/-- `CuMetalKernelDescriptor`, as far as a launch depends on it. -/
structure KernelDescriptor where
  arguments : List Runtime.Launch.ArgInfo
  symbolIndices : List Nat
  printfFormats : List String

def constantAt (symbols : List NativeSourceSymbol) (index : Nat) :
    Option Runtime.Launch.ConstantSymbol :=
  (symbols[index]?).bind fun symbol =>
    if symbol.constant then some ⟨symbol.name, true, symbol.constantOffset, symbol.size⟩ else none

/-- The variable that an index stands for, with the buffer that was allocated for it. -/
def globalAt (symbols : List NativeSourceSymbol) (buffer : Nat → Nat) (index : Nat) :
    Option Runtime.Launch.GlobalSymbol :=
  (symbols[index]?).bind fun symbol =>
    if symbol.constant then none else some ⟨symbol.name, some (buffer index), symbol.size⟩

/-- The record of a kernel (`native_registration.cpp:282-337`). -/
def registerKernel (symbols : List NativeSourceSymbol) (buffer : Nat → Nat)
    (descriptor : KernelDescriptor) : Runtime.Launch.RegisteredKernel where
  argInfo := descriptor.arguments
  argInfoResolved := true
  printfFormats := descriptor.printfFormats
  usesDeviceHeap := false
  usesDeviceLaunchQueue := false
  constantSymbols := descriptor.symbolIndices.filterMap (constantAt symbols)
  constantBufferSize := (descriptor.symbolIndices.filterMap (constantAt symbols)).foldl
    (fun size symbol => max size (symbol.offset + symbol.size)) 0
  globalSymbols := descriptor.symbolIndices.filterMap (globalAt symbols buffer)

end CuMetal.Driver
