import CuMetal.Metal.Msl
import Mathlib.Data.BitVec

/-!
# MSL values

The values of the scalar integer expressions and the operators on them: operands narrower than
`int` are promoted, mixed operands are brought to their common type, and a shift uses the low bits
of its amount.
-/

namespace CuMetal.Metal

/-- An integer of a type such as `int` (signed, 32) or `ulong` (unsigned, 64). -/
structure IntegerValue where
  signed : Bool
  width : Nat
  bits : BitVec width
  deriving DecidableEq, Repr

namespace IntegerValue

abbrev uint (bits : BitVec 32) : IntegerValue := ⟨false, 32, bits⟩
abbrev ulong (bits : BitVec 64) : IntegerValue := ⟨false, 64, bits⟩

/-- The bits after a conversion to an integer type of the given width. -/
def converted (x : IntegerValue) (width : Nat) : BitVec width :=
  if x.signed then x.bits.signExtend width else x.bits.setWidth width

/-- Integer promotion: every type narrower than `int` fits in `int`. -/
def promoted (x : IntegerValue) : IntegerValue :=
  if x.width < 32 then ⟨true, 32, x.converted 32⟩ else x

/-- The signedness of the common type of two promoted operands. -/
def commonSigned (x y : IntegerValue) : Bool :=
  if x.width = y.width then x.signed && y.signed
  else if x.width < y.width then y.signed else x.signed

/-- The width of the common type of two promoted operands. -/
def commonWidth (x y : IntegerValue) : Nat := max x.width y.width

end IntegerValue

/-- The object that a pointer points to: the device memory or the memory of one threadgroup,
with the address that the pointer has as a number. -/
structure Location where
  threadgroup : Option Nat
  address : BitVec 64
  deriving DecidableEq, Repr

/-- The values of expressions; a symbol is an enumerator of the Metal library. -/
inductive Value
  | void
  | bool (value : Bool)
  | integer (value : IntegerValue)
  | vector (components : List IntegerValue)
  | pointer (location : Location)
  | symbol (name : String)
  deriving DecidableEq, Repr

namespace Value

abbrev uint (bits : BitVec 32) : Value := .integer (.uint bits)
abbrev ulong (bits : BitVec 64) : Value := .integer (.ulong bits)

end Value

/-! ## Operators -/

/-- The arithmetic operators at the common type; division by zero and a signed result that does not
fit have no value. -/
def arithmetic (operation : String) (signed : Bool) {width : Nat} (x y : BitVec width) :
    Option (BitVec width) :=
  match operation with
  | "+" => if signed && x.saddOverflow y then none else some (x + y)
  | "-" => if signed && x.ssubOverflow y then none else some (x - y)
  | "*" => if signed && x.smulOverflow y then none else some (x * y)
  | "/" =>
    if y = 0 then none
    else if signed && x.sdivOverflow y then none
    else some (if signed then x.sdiv y else x / y)
  | "%" =>
    if y = 0 then none
    else if signed && x.sdivOverflow y then none
    else some (if signed then x.srem y else x % y)
  | "&" => some (x &&& y)
  | "|" => some (x ||| y)
  | "^" => some (x ^^^ y)
  | _ => none

/-- The comparison operators at the common type. -/
def comparison (operation : String) (signed : Bool) {width : Nat} (x y : BitVec width) :
    Option Bool :=
  match operation with
  | "==" => some (x == y)
  | "!=" => some (x != y)
  | "<" => some (if signed then x.slt y else x.ult y)
  | "<=" => some (if signed then x.sle y else x.ule y)
  | ">" => some (if signed then y.slt x else y.ult x)
  | ">=" => some (if signed then y.sle x else y.ule x)
  | _ => none

/-- The shift operators: the result has the type of the promoted left operand. -/
def shift (operation : String) (x y : IntegerValue) : Option IntegerValue :=
  let amount := y.bits.toNat % x.width
  match operation with
  | "<<" => some { x with bits := x.bits <<< amount }
  | ">>" => some { x with bits := if x.signed then x.bits.sshiftRight amount else x.bits >>> amount }
  | _ => none

/-- An arithmetic or comparison operator at a common type. -/
def operateAt (operation : String) (signed : Bool) (width : Nat) (x y : IntegerValue) :
    Option Value :=
  match arithmetic operation signed (x.converted width) (y.converted width) with
  | some bits => some (.integer ⟨signed, width, bits⟩)
  | none => (comparison operation signed (x.converted width) (y.converted width)).map .bool

def integerBinary (operation : String) (left right : IntegerValue) : Option Value :=
  let x := left.promoted
  let y := right.promoted
  match shift operation x y with
  | some result => some (.integer result)
  | none => operateAt operation (x.commonSigned y) (x.commonWidth y) x y

/-- An operand of a binary operator as an integer; `bool` is promoted to `int`. -/
def Value.asInteger : Value → Option IntegerValue
  | .integer x => some x
  | .bool value => some ⟨true, 32, if value then 1 else 0⟩
  | _ => none

/-- A binary operator; the operands of the ones modelled are integers and truth values. -/
def binaryValue (operation : String) (left right : Value) : Option Value := do
  let x ← left.asInteger
  let y ← right.asInteger
  integerBinary operation x y

theorem binaryValue_integer (operation : String) (x y : IntegerValue) :
    binaryValue operation (.integer x) (.integer y) = integerBinary operation x y := rfl

/-! The operators at one type that needs no promotion. -/

variable {signed : Bool} {width : Nat} {operation : String}

theorem IntegerValue.promoted_of_wide (wide : 32 ≤ width) (bits : BitVec width) :
    (⟨signed, width, bits⟩ : IntegerValue).promoted = ⟨signed, width, bits⟩ := by
  simp [IntegerValue.promoted, not_lt.mpr wide]

@[simp] theorem IntegerValue.converted_self (bits : BitVec width) :
    (⟨signed, width, bits⟩ : IntegerValue).converted width = bits := by
  cases signed <;> simp [IntegerValue.converted]

theorem integerBinary_of_same (operation : String) (wide : 32 ≤ width) (x y : BitVec width)
    (plain : shift operation ⟨signed, width, x⟩ ⟨signed, width, y⟩ = none) :
    integerBinary operation ⟨signed, width, x⟩ ⟨signed, width, y⟩ =
      operateAt operation signed width ⟨signed, width, x⟩ ⟨signed, width, y⟩ := by
  simp [integerBinary, IntegerValue.promoted_of_wide wide, plain, IntegerValue.commonSigned,
    IntegerValue.commonWidth]

theorem binaryValue_arithmetic (wide : 32 ≤ width) {x y bits : BitVec width}
    (defined : arithmetic operation signed x y = some bits) :
    binaryValue operation (.integer ⟨signed, width, x⟩) (.integer ⟨signed, width, y⟩) =
      some (.integer ⟨signed, width, bits⟩) := by
  have plain : shift operation ⟨signed, width, x⟩ ⟨signed, width, y⟩ = none := by
    unfold shift
    split
    · simp [arithmetic] at defined
    · simp [arithmetic] at defined
    · rfl
  simp [binaryValue_integer, integerBinary_of_same operation wide x y plain, operateAt, defined]

theorem binaryValue_comparison (wide : 32 ≤ width) {x y : BitVec width} {value : Bool}
    (defined : comparison operation signed x y = some value) :
    binaryValue operation (.integer ⟨signed, width, x⟩) (.integer ⟨signed, width, y⟩) =
      some (.bool value) := by
  have plain : shift operation ⟨signed, width, x⟩ ⟨signed, width, y⟩ = none := by
    unfold shift
    split
    · simp [comparison] at defined
    · simp [comparison] at defined
    · rfl
  have compares : arithmetic operation signed x y = none := by
    unfold comparison at defined
    split at defined
    all_goals first
      | rfl
      | simp at defined
  simp [binaryValue_integer, integerBinary_of_same operation wide x y plain, operateAt, compares,
    defined]

theorem binaryValue_shift {x y : IntegerValue} {result : IntegerValue}
    (wideLeft : 32 ≤ x.width) (wideRight : 32 ≤ y.width)
    (defined : shift operation x y = some result) :
    binaryValue operation (.integer x) (.integer y) = some (.integer result) := by
  simp [binaryValue_integer, integerBinary, IntegerValue.promoted_of_wide wideLeft,
    IntegerValue.promoted_of_wide wideRight, defined]

/-- A unary operator on a value. -/
def unaryValue (operation : String) (operand : Value) : Option Value :=
  match operation, operand with
  | "!", .bool value => some (.bool !value)
  | "~", .integer x => some (.integer { x.promoted with bits := ~~~x.promoted.bits })
  | "-", .integer x =>
    if x.promoted.signed && x.promoted.bits.negOverflow then none
    else some (.integer { x.promoted with bits := -x.promoted.bits })
  | _, _ => none

/-- The width of the integer type that `MslType::str` spells (`msl_ast.cpp:464-473`). -/
def spelledWidth (lanes : Nat) : Nat :=
  if lanes = 8 then 8 else if lanes = 16 then 16 else if lanes = 64 then 64 else 32

/-- The conversion of a value to a type, as an initialiser, an assignment or a cast makes it. -/
def convert : MslType → Value → Option Value
  | .int bits, .integer x =>
    some (.integer ⟨true, spelledWidth bits, x.converted (spelledWidth bits)⟩)
  | .uint bits, .integer x =>
    some (.integer ⟨false, spelledWidth bits, x.converted (spelledWidth bits)⟩)
  | .bool, .bool value => some (.bool value)
  | .bool, .integer x => some (.bool (x.bits != 0))
  | .int bits, .bool value => some (.integer ⟨true, spelledWidth bits, if value then 1 else 0⟩)
  | .uint bits, .bool value => some (.integer ⟨false, spelledWidth bits, if value then 1 else 0⟩)
  | .pointer _ _, .pointer location => some (.pointer location)
  | .void, .void => some .void
  | _, _ => none

/-- `reinterpret_cast`: a pointer keeps its location, or becomes the number of its address. -/
def reinterpretCast : MslType → Value → Option Value
  | .uint 64, .pointer location => some (.ulong location.address)
  | .pointer _ _, .pointer location => some (.pointer location)
  | _, _ => none

/-- `as_type`: the same bits at a type of the same width. -/
def asType : MslType → Value → Option Value
  | .int bits, .integer x => if x.width = bits then some (.integer ⟨true, bits, x.converted bits⟩)
      else none
  | .uint bits, .integer x => if x.width = bits then some (.integer ⟨false, bits, x.converted bits⟩)
      else none
  | _, _ => none

/-- The value of a decimal integer literal: the suffix and the size fix its type. One that is too
large for `long` is taken as unsigned. -/
def integerLiteral (value : Nat) (suffix : List Char) : Option Value :=
  match suffix with
  | [] => if value < 2 ^ 31 then some (.integer ⟨true, 32, BitVec.ofNat 32 value⟩)
      else if value < 2 ^ 63 then some (.integer ⟨true, 64, BitVec.ofNat 64 value⟩)
      else if value < 2 ^ 64 then some (.ulong (BitVec.ofNat 64 value)) else none
  | ['u'] => if value < 2 ^ 32 then some (.uint (BitVec.ofNat 32 value))
      else if value < 2 ^ 64 then some (.ulong (BitVec.ofNat 64 value)) else none
  | ['u', 'l'] => if value < 2 ^ 64 then some (.ulong (BitVec.ofNat 64 value)) else none
  | _ => none

/-- The value of a literal that starts with its digits. -/
def numberValue (letters : List Char) : Option Value :=
  integerLiteral (Nat.ofDigitChars 10 (letters.takeWhile Char.isDigit) 0)
    (letters.dropWhile Char.isDigit)

/-- The value of a literal's spelling; one that is no number is an enumerator. -/
def literalValue (spelling : String) : Option Value :=
  if spelling = "true" then some (.bool true)
  else if spelling = "false" then some (.bool false)
  else
    match spelling.toList with
    | '-' :: letters => (numberValue letters).bind (unaryValue "-")
    | letters =>
      if letters.takeWhile Char.isDigit = [] then some (.symbol spelling)
      else numberValue letters

end CuMetal.Metal
