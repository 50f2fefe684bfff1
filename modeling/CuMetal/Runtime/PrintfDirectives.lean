import CuMetal.Lib.TextRuns
import CuMetal.Runtime.PrintfRecord

/-!
# Printf formats and their argument words

A format as the literal characters and the conversions that it spells, each conversion with the
argument that the caller packed for it. `drain_one_printf_record` is compared with what every item
reads and prints by itself.
-/

namespace CuMetal.PrintfRecord

open CuMetal.Runs

/-! ## Conversions -/

/-- A length modifier. `L` is left out: the decoder has no branch for it and takes it for the
conversion. -/
inductive Length
  | none | hh | h | l | ll | j | z | t
  deriving DecidableEq

/-- How the modifier is written. -/
def Length.text : Length → List Char
  | .none => []
  | .hh => ['h', 'h']
  | .h => ['h']
  | .l => ['l']
  | .ll => ['l', 'l']
  | .j => ['j']
  | .z => ['z']
  | .t => ['t']

/-- The modifier makes an integer a 64-bit one, and a character or a string a wide one. -/
def Length.wide : Length → Bool
  | .none | .hh | .h => false
  | _ => true

/-- The bits of a promoted integer that its conversion prints. -/
def Length.bits : Length → Nat
  | .hh => 8
  | .h => 16
  | _ => 32

/-- What a conversion takes its argument for. -/
inductive Kind
  | signed | unsigned | character | string | pointer | floating
  deriving DecidableEq

/-- A conversion character. -/
inductive Letter
  | d | i | u | o | x | upperX | c | s | p | f | upperF | e | upperE | g | upperG | a | upperA
  deriving DecidableEq

def Letter.char : Letter → Char
  | .d => 'd'
  | .i => 'i'
  | .u => 'u'
  | .o => 'o'
  | .x => 'x'
  | .upperX => 'X'
  | .c => 'c'
  | .s => 's'
  | .p => 'p'
  | .f => 'f'
  | .upperF => 'F'
  | .e => 'e'
  | .upperE => 'E'
  | .g => 'g'
  | .upperG => 'G'
  | .a => 'a'
  | .upperA => 'A'

def Letter.kind : Letter → Kind
  | .d | .i => .signed
  | .u | .o | .x | .upperX => .unsigned
  | .c => .character
  | .s => .string
  | .p => .pointer
  | _ => .floating

attribute [local simp] Length.wide Length.bits Letter.char Letter.kind

/-- The conversion characters of floating values. -/
def floating : List Char := ['f', 'e', 'g', 'F', 'E', 'G', 'a', 'A']

variable {letter : Letter}

theorem signed_char (kind : letter.kind = .signed) : letter.char = 'd' ∨ letter.char = 'i' := by
  cases letter <;> simp_all

theorem unsigned_char (kind : letter.kind = .unsigned) :
    letter.char = 'u' ∨ letter.char = 'o' ∨ letter.char = 'x' ∨ letter.char = 'X' := by
  cases letter <;> simp_all

theorem floating_char (kind : letter.kind = .floating) : letter.char ∈ floating := by
  cases letter <;> simp_all [floating]

theorem other_letter :
    (letter.kind = .character → letter = .c) ∧ (letter.kind = .string → letter = .s) ∧
      (letter.kind = .pointer → letter = .p) := by
  cases letter <;> simp

/-- A width or a precision. -/
inductive Count
  | fixed (digits : List Char) (decimal : ∀ c ∈ digits, c.isDigit = true)
  | star (value : BitVec 32)

def Count.text : Count → List Char
  | .fixed digits _ => digits
  | .star _ => ['*']

/-- The word that a star takes from the arguments. -/
def Count.words : Count → List (BitVec 32)
  | .fixed _ _ => []
  | .star value => [value]

/-- What is handed to `fprintf` for a star. -/
def Count.value : Count → Option Int
  | .fixed _ _ => none
  | .star value => some value.toInt

/-- A conversion and its argument; `text` are the characters of a string. -/
structure Directive where
  flags : List Char
  flagged : ∀ c ∈ flags, isFlag c = true
  width : Count
  /-- A zero at the start would be a flag. -/
  unpadded : width.text.head? ≠ some '0'
  precision : Option Count
  length : Length
  letter : Letter
  value : BitVec 64
  text : List UInt8

namespace Directive

variable (directive : Directive)

def precisionText : List Char :=
  match directive.precision with
  | none => []
  | some count => '.' :: count.text

def precisionWords : List (BitVec 32) :=
  match directive.precision with
  | none => []
  | some count => count.words

/-- The text after the `%`. -/
def body : List Char :=
  directive.flags ++ (directive.width.text ++ (directive.precisionText ++
    (directive.length.text ++ [directive.letter.char])))

/-- The argument takes two words. -/
def paired : Bool :=
  match directive.letter.kind with
  | .signed | .unsigned => directive.length.wide
  | .character => false
  | _ => true

/-- The words of the argument itself, the low one first. -/
def argument : List (BitVec 32) :=
  directive.value.setWidth 32 ::
    if directive.paired then [(directive.value >>> 32).setWidth 32] else []

/-- All words that the directive takes. -/
def words : List (BitVec 32) :=
  directive.width.words ++ (directive.precisionWords ++ directive.argument)

/-- The modifier that `fprintf` needs for the value. -/
def modifier : List Char :=
  if directive.length.wide then
    match directive.letter.kind with
    | .signed | .unsigned => ['l', 'l']
    | .character | .string => ['l']
    | _ => []
  else []

def shape : List Char :=
  '%' :: directive.flags ++ directive.width.text ++ directive.precisionText

/-- The value that the conversion prints. -/
def printed : Value :=
  match directive.letter.kind with
  | .signed =>
    if directive.length.wide then .longLong directive.value
    else .int ((directive.value.setWidth directive.length.bits).signExtend 32)
  | .unsigned =>
    if directive.length.wide then .unsignedLongLong directive.value
    else .unsigned ((directive.value.setWidth directive.length.bits).setWidth 32)
  | .character => .int (directive.value.setWidth 32)
  | .string => .text directive.text
  | .pointer => .pointer directive.value
  | .floating => .double directive.value

/-- What the directive prints. -/
def output : Output :=
  .fprintf (directive.shape ++ directive.modifier ++ [directive.letter.char]) directive.width.value
    (directive.precision.bind Count.value) directive.printed

end Directive

namespace StringMemory

variable (memory : StringMemory) (raw : BitVec 64) (text : List UInt8)

/-- The memory has the string at the address, as far as the runtime finds the address. -/
structure Stores : Prop where
  terminated : 0 ∉ text
  agrees : ∀ bytes, resolvePrintfStringPointer memory raw = some bytes →
    bytes.take (text.length + 1) <+: text ++ [0]

/-- The runtime finds the whole string, and it is short. -/
def Readable : Prop :=
  text.length < kMaxDeviceStringBytes ∧
    ∃ bytes, resolvePrintfStringPointer memory raw = some bytes ∧ text.length < bytes.length

/-- What is printed for a string that the runtime does not read. -/
def placeholder : List UInt8 :=
  match resolvePrintfStringPointer memory raw with
  | none => asciiBytes "[string]"
  | some _ => asciiBytes "[unterminated-string]"

end StringMemory

/-- A part of a format. -/
inductive Item
  | literal (c : Char) (plain : c ≠ '%')
  | percent
  | conversion (directive : Directive)

namespace Item

def text : Item → List Char
  | .literal c _ => [c]
  | .percent => ['%', '%']
  | .conversion directive => '%' :: directive.body

def words : Item → List (BitVec 32)
  | .conversion directive => directive.words
  | _ => []

def output : Item → Output
  | .literal c _ => .fputc c
  | .percent => .fputc '%'
  | .conversion directive => directive.output

/-- The string of an item is where its pointer says. -/
def Stored (memory : StringMemory) : Item → Prop
  | .conversion directive => directive.letter = .s → memory.Stores directive.value directive.text
  | _ => True

end Item

/-- The decoder reads and prints the conversion as it is: a short or a `char` prints as the promoted
value, a character, a string and a floating value have no wide modifier, and a string can be read.
-/
def Directive.Plain (memory : StringMemory) (directive : Directive) : Prop :=
  match directive.letter.kind with
  | .signed => directive.length.wide = true ∨
      (directive.value.setWidth directive.length.bits).signExtend 32 = directive.value.setWidth 32
  | .unsigned => directive.length.wide = true ∨
      (directive.value.setWidth directive.length.bits).setWidth 32 = directive.value.setWidth 32
  | .character | .floating => directive.length.wide = false
  | .string => directive.length.wide = false ∧
      (memory.Readable directive.value directive.text ∨
        directive.text = memory.placeholder directive.value)
  | .pointer => True

def Item.Plain (memory : StringMemory) : Item → Prop
  | .conversion directive => directive.Plain memory
  | _ => True

/-- The format that the items spell. -/
def formatOf (items : List Item) : List Char := items.flatMap Item.text

/-- The argument words of the items. -/
def wordsOf (items : List Item) : List (BitVec 32) := items.flatMap Item.words

/-- What the items print, each with the words of its own arguments. -/
def pieces (start : Nat) : List Item → List Piece
  | [] => []
  | item :: items =>
    ⟨start, start + item.words.length, item.output⟩ ::
      pieces (start + item.words.length) items

end CuMetal.PrintfRecord
