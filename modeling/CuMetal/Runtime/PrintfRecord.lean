import CuMetal.Runtime.AllocationTable

/-!
# Printing one printf record

`drain_one_printf_record` of `runtime/rt/cuda_runtime.cpp`, with the scanner that counts the words
that the rest of a format needs, and the strings that it finds. What goes to `stderr` is the list of
the calls of `fputc`, `fputs` and `fprintf`; each comes with the argument words that were read for
it.
-/

open CuMetal.Runtime (AllocationTable)

namespace CuMetal.PrintfRecord

/-- `std::strchr(set, c) != nullptr`: the terminator of the set is found as well. -/
def strchr (set : String) (c : Char) : Bool := set.toList.contains c || c == '\x00'

/-- The words and the end of a width, or of a precision after its point (`624-629`, `632-637`). -/
def skipField : List Char → Nat × List Char
  | '*' :: text => (1, text)
  | text => (0, text.dropWhile Char.isDigit)

/-- The words and the end of a precision with its point, if there is one. -/
def skipPrecision : List Char → Nat × List Char
  | '.' :: text => skipField text
  | text => (0, text)

/-- `'l'`, `'z'`, `'j'` or `'t'`. -/
def isWide (c : Char) : Bool := c == 'l' || c == 'z' || c == 'j' || c == 't'

/-- The words of a conversion, and the text after it, from the text after its `%` (`623-645`). -/
def minimumConversion (text : List Char) : Nat × List Char :=
  let text := text.dropWhile (strchr "-+ #0")
  let (width, text) := skipField text
  let (precision, text) := skipPrecision text
  let modifiers := text.takeWhile (strchr "lhzjt")
  match text.dropWhile (strchr "lhzjt") with
  | [] => (width + precision, [])
  | conv :: text =>
    (width + precision +
      if modifiers.any isWide || conv == 'p' || conv == 's' then 2 else 1, text)

def minimumWords : Nat → List Char → Nat
  | 0, _ => 0
  | _ + 1, [] => 0
  | fuel + 1, c :: text =>
    if c ≠ '%' then minimumWords fuel text
    else
      match text with
      | [] => 0
      | '%' :: text => minimumWords fuel text
      | text =>
        let (words, text) := minimumConversion text
        words + minimumWords fuel text

/-- `minimum_printf_words` (`616-647`). -/
def minimumPrintfWords (fmt : List Char) : Nat := minimumWords fmt.length fmt % 2 ^ 32

/-- A Metal buffer: the bytes are missing where `contents()` is null. -/
structure StringBuffer where
  deviceAddress : BitVec 64
  hostAddress : BitVec 64
  bytes : Option (List UInt8)
  deriving DecidableEq

/-- What the runtime can read strings from. -/
structure StringMemory where
  allocations : AllocationTable StringBuffer
  registered : List StringBuffer

/-- The bytes of a registered buffer from an address on (`690-706`). -/
def registeredBytes (raw : BitVec 64) (buffer : StringBuffer) : Option (List UInt8) :=
  match buffer.bytes with
  | none => none
  | some bytes =>
    ([buffer.deviceAddress, buffer.hostAddress] : List (BitVec 64)).findSome? fun base =>
      if base = 0 ∨ raw < base then none
      else if bytes.length ≤ (raw - base).toNat then none
      else some (bytes.drop (raw - base).toNat)

/-- `resolve_printf_string_pointer` (`667-711`): the bytes from a pointer on. -/
def resolvePrintfStringPointer (memory : StringMemory) (raw : BitVec 64) : Option (List UInt8) :=
  if raw = 0 then none
  else
    let found := (memory.allocations.resolve raw).bind fun resolved =>
      (resolved.buffer.bind StringBuffer.bytes).map fun bytes =>
        (bytes.drop resolved.offset.toNat).take resolved.remainingSize.toNat
    match found with
    | some bytes => some bytes
    | none => memory.registered.findSome? (registeredBytes raw)

def kMaxDeviceStringBytes : Nat := 256

def asciiBytes (text : String) : List UInt8 := text.toList.map fun c => UInt8.ofNat c.toNat

/-- The text that is printed for a string (`800-823`). -/
def materialized (memory : StringMemory) (raw : BitVec 64) : List UInt8 :=
  match resolvePrintfStringPointer memory raw with
  | none => asciiBytes "[string]"
  | some bytes =>
    if 0 ∈ bytes.take kMaxDeviceStringBytes then bytes.takeWhile (· ≠ 0)
    else asciiBytes "[unterminated-string]"

/-- A value that is handed to `fprintf`. -/
inductive Value
  | int (value : BitVec 32)
  | unsigned (value : BitVec 32)
  | longLong (value : BitVec 64)
  | unsignedLongLong (value : BitVec 64)
  | pointer (value : BitVec 64)
  | double (bits : BitVec 64)
  /-- A `float` that is converted to `double`. -/
  | float (bits : BitVec 32)
  | text (bytes : List UInt8)
  deriving DecidableEq

inductive Output
  | fputc (c : Char)
  | fputs (text : List Char)
  /-- `emit_printf_value`, with the dynamic width and precision where there are some. -/
  | fprintf (spec : List Char) (width precision : Option Int) (value : Value)
  deriving DecidableEq

/-- What is printed, and the words from `start` to `stop` that were read for it. -/
structure Piece where
  start : Nat
  stop : Nat
  output : Output
  deriving DecidableEq

/-- Two words as a 64-bit value, the low one first. -/
def raw64 (args : List (BitVec 32)) (argIdx : Nat) : BitVec 64 :=
  (args.getD argIdx 0).setWidth 64 ||| (args.getD (argIdx + 1) 0).setWidth 64 <<< 32

/-- The conversion character (`788-899`): what it prints, and the next word. -/
def convert (memory : StringMemory) (args : List (BitVec 32)) (rest : List Char)
    (spec : List Char) (width precision : Option Int) (wideModifier : Bool) (conv : Char)
    (argIdx : Nat) : Output × Nat :=
  let nArgs := args.length
  if nArgs ≤ argIdx then (.fputs (spec ++ [conv]), argIdx)
  else if conv = 's' then
    if nArgs ≤ argIdx + 1 then (.fputs "[string]".toList, nArgs)
    else
      (.fprintf (spec ++ ['s']) width precision
        (.text (materialized memory (raw64 args argIdx))), argIdx + 2)
  else if conv = 'p' ∧ argIdx + 1 < nArgs then
    (.fprintf (spec ++ ['p']) width precision (.pointer (raw64 args argIdx)), argIdx + 2)
  else if wideModifier = true ∧ argIdx + 1 < nArgs then
    let spec := spec ++ ['l', 'l'] ++ [conv]
    if conv = 'd' ∨ conv = 'i' then
      (.fprintf spec width precision (.longLong (raw64 args argIdx)), argIdx + 2)
    else if conv = 'u' ∨ conv = 'o' ∨ conv = 'x' ∨ conv = 'X' then
      (.fprintf spec width precision (.unsignedLongLong (raw64 args argIdx)), argIdx + 2)
    else (.fputs spec, argIdx + 2)
  else
    let raw := args.getD argIdx 0
    let spec := spec ++ [conv]
    if conv = 'f' ∨ conv = 'e' ∨ conv = 'g' ∨ conv = 'F' ∨ conv = 'E' ∨ conv = 'G' ∨
        conv = 'a' ∨ conv = 'A' then
      if argIdx + 1 < nArgs ∧ minimumPrintfWords rest ≤ nArgs - (argIdx + 1 + 1) then
        (.fprintf spec width precision (.double (raw64 args argIdx)), argIdx + 2)
      else (.fprintf spec width precision (.float raw), argIdx + 1)
    else if conv = 'd' ∨ conv = 'i' then (.fprintf spec width precision (.int raw), argIdx + 1)
    else if conv = 'u' ∨ conv = 'o' ∨ conv = 'x' ∨ conv = 'X' then
      (.fprintf spec width precision (.unsigned raw), argIdx + 1)
    else if conv = 'c' then (.fprintf spec width precision (.int raw), argIdx + 1)
    else (.fputs spec, argIdx + 1)

/-- What was read of a width or a precision. -/
structure Field where
  spec : List Char
  /-- The value, if it is dynamic. -/
  value : Option Int
  argIdx : Nat
  text : List Char

/-- A width, or a precision after its point (`740-751`, `757-767`). -/
def readField (args : List (BitVec 32)) (argIdx : Nat) : List Char → Field
  | '*' :: text =>
    match args[argIdx]? with
    | some word => ⟨['*'], some word.toInt, argIdx + 1, text⟩
    | none => ⟨['*'], some 0, argIdx, text⟩
  | text => ⟨text.takeWhile Char.isDigit, none, argIdx, text.dropWhile Char.isDigit⟩

/-- A precision with its point, if there is one. -/
def readPrecision (args : List (BitVec 32)) (argIdx : Nat) : List Char → Field
  | '.' :: text =>
    let field := readField args argIdx text
    { field with spec := '.' :: field.spec }
  | text => ⟨[], none, argIdx, text⟩

def isFlag (c : Char) : Bool := c == '-' || c == '+' || c == ' ' || c == '#' || c == '0'

def isModifier (c : Char) : Bool := c == 'l' || c == 'h' || c == 'z' || c == 'j' || c == 't'

/-- A conversion, from the text after its `%` (`731-899`): what it prints, the next word and the
text after it, unless the text ends in it. -/
def drainConversion (memory : StringMemory) (args : List (BitVec 32)) (argIdx : Nat)
    (text : List Char) : Option (Output × Nat × List Char) :=
  let width := readField args argIdx (text.dropWhile isFlag)
  let precision := readPrecision args width.argIdx width.text
  match precision.text.dropWhile isModifier with
  | [] => none
  | conv :: rest =>
    let spec := '%' :: text.takeWhile isFlag ++ width.spec ++ precision.spec
    let (output, next) := convert memory args rest spec width.value precision.value
      ((precision.text.takeWhile isModifier).any isWide) conv precision.argIdx
    some (output, next, rest)

def drainFrom (memory : StringMemory) (args : List (BitVec 32)) :
    Nat → Nat → List Char → List Piece
  | 0, _, _ => []
  | _ + 1, _, [] => []
  | fuel + 1, argIdx, c :: text =>
    if c ≠ '%' then ⟨argIdx, argIdx, .fputc c⟩ :: drainFrom memory args fuel argIdx text
    else
      match text with
      | [] => []
      | '%' :: text => ⟨argIdx, argIdx, .fputc '%'⟩ :: drainFrom memory args fuel argIdx text
      | text =>
        match drainConversion memory args argIdx text with
        | none => []
        | some (output, next, text) =>
          ⟨argIdx, next, output⟩ :: drainFrom memory args fuel next text

/-- `drain_one_printf_record` (`713-903`). -/
def drainOnePrintfRecord (memory : StringMemory) (fmt : List Char) (args : List (BitVec 32)) :
    List Piece :=
  drainFrom memory args fmt.length 0 fmt

end CuMetal.PrintfRecord
