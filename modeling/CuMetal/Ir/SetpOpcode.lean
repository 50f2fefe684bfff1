import CuMetal.Ir.PtxImport
import CuMetal.Lib.TextSearch
import Mathlib.Data.List.Find

/-!
# The opcodes of `setp`

What the comparisons of PTX mean, how their opcodes are spelled, and what the importer finds in
them.
-/

namespace CuMetal.Ir

open List

/-! ## Meaning -/

/-- How two numbers compare; a NaN compares with nothing. -/
inductive Relation
  | less | equal | greater | unordered
  deriving DecidableEq, Repr

namespace Relation

/-- How two numbers relate. -/
def ofInts (a b : Int) : Relation := if a < b then .less else if a = b then .equal else .greater

theorem ofInts_less (a b : Int) : ofInts a b = .less ↔ a < b := by
  unfold ofInts
  split
  · simp [*]
  · split <;> simp [*]

theorem ofInts_equal (a b : Int) : ofInts a b = .equal ↔ a = b := by
  unfold ofInts
  split
  · simp
    omega
  · split <;> simp [*]

theorem ofInts_greater (a b : Int) : ofInts a b = .greater ↔ b < a := by
  unfold ofInts
  split
  · simp
    omega
  · split
    · simp
      omega
    · simp
      omega

/-- The relation of the same numbers the other way round. -/
def swap : Relation → Relation
  | .less => .greater
  | .greater => .less
  | relation => relation

end Relation

/-- The comparison operators of `setp`. -/
inductive SetpOperator
  | eq | ne | lt | le | gt | ge | lo | ls | hi | hs | equ | neu | ltu | leu | gtu | geu | num | nan
  deriving DecidableEq, Repr

namespace SetpOperator

def spelling : SetpOperator → String
  | .eq => "eq" | .ne => "ne" | .lt => "lt" | .le => "le" | .gt => "gt" | .ge => "ge"
  | .lo => "lo" | .ls => "ls" | .hi => "hi" | .hs => "hs"
  | .equ => "equ" | .neu => "neu" | .ltu => "ltu" | .leu => "leu" | .gtu => "gtu" | .geu => "geu"
  | .num => "num" | .nan => "nan"

/-- The ordered operators are false and the unordered ones true of a NaN. -/
def holds : SetpOperator → Relation → Bool
  | .eq, relation => relation == .equal
  | .ne, relation => relation == .less || relation == .greater
  | .lt, relation | .lo, relation => relation == .less
  | .le, relation | .ls, relation => relation == .less || relation == .equal
  | .gt, relation | .hi, relation => relation == .greater
  | .ge, relation | .hs, relation => relation == .greater || relation == .equal
  | .equ, relation => relation == .equal || relation == .unordered
  | .neu, relation => relation != .equal
  | .ltu, relation => relation == .less || relation == .unordered
  | .leu, relation => relation != .greater
  | .gtu, relation => relation == .greater || relation == .unordered
  | .geu, relation => relation != .less
  | .num, relation => relation != .unordered
  | .nan, relation => relation == .unordered

/-- The operators that every number type has, false of NaN. -/
def ordered : List SetpOperator := [.eq, .ne, .lt, .le, .gt, .ge]

/-- The unsigned operators. -/
def unsigned : List SetpOperator := [.lo, .ls, .hi, .hs]

/-- The operators of floating-point numbers only. -/
def floating : List SetpOperator := [.equ, .neu, .ltu, .leu, .gtu, .geu, .num, .nan]

end SetpOperator

/-- The operators that combine the comparison with another predicate. -/
inductive BoolOp
  | and | or | xor
  deriving DecidableEq, Repr

namespace BoolOp

def spelling : BoolOp → String
  | .and => "and"
  | .or => "or"
  | .xor => "xor"

/-- A comparison combined with the predicate operand. -/
def apply : BoolOp → Bool → Bool → Bool
  | .and, compared, other => compared && other
  | .or, compared, other => compared || other
  | .xor, compared, other => compared ^^ other

end BoolOp

/-- The comparison combined with the other predicate, where there is one. -/
def combined (combining : Option BoolOp) (compared other : Bool) : Bool :=
  match combining with
  | none => compared
  | some operator => operator.apply compared other

/-- The kinds of integer types of `setp`. -/
inductive IntegerKind
  | signed | unsigned | untyped
  deriving DecidableEq, Repr

/-- The types of `setp`. -/
inductive SetpType
  | integer (kind : IntegerKind) (bits : Nat)
  | float32
  | float64
  deriving DecidableEq, Repr

namespace SetpType

def letter : SetpType → Char
  | .integer .signed _ => 's'
  | .integer .unsigned _ => 'u'
  | .integer .untyped _ => 'b'
  | .float32 | .float64 => 'f'

def bits : SetpType → Nat
  | .integer _ bits => bits
  | .float32 => 32
  | .float64 => 64

def spelling (type : SetpType) : String := String.singleton type.letter ++ toString type.bits

def all : List SetpType :=
  [.integer .signed 16, .integer .signed 32, .integer .signed 64, .integer .unsigned 16,
    .integer .unsigned 32, .integer .unsigned 64, .integer .untyped 16, .integer .untyped 32,
    .integer .untyped 64, .float32, .float64]

/-- The operators that PTX has for the type. -/
def operators : SetpType → List SetpOperator
  | .integer .signed _ => SetpOperator.ordered
  | .integer .unsigned _ => SetpOperator.ordered ++ SetpOperator.unsigned
  | .integer .untyped _ => [.eq, .ne]
  | .float32 | .float64 => SetpOperator.ordered ++ SetpOperator.floating

end SetpType

def setpTail (combining : Option BoolOp) (type : SetpType) : String :=
  match combining with
  | none => type.spelling
  | some operator => operator.spelling ++ "." ++ type.spelling

/-- The opcode of a `setp`. -/
def setpOpcode (operator : SetpOperator) (combining : Option BoolOp) (type : SetpType) : String :=
  "setp." ++ operator.spelling ++ "." ++ setpTail combining type

theorem setpOpcode_toList (operator : SetpOperator) (combining : Option BoolOp) (type : SetpType) :
    (setpOpcode operator combining type).toList =
      "setp".toList ++ '.' ::
        (operator.spelling.toList ++ '.' :: (setpTail combining type).toList) := by
  simp [setpOpcode]

theorem clean_operator (operator : SetpOperator) : '.' ∉ operator.spelling.toList := by
  cases operator <;> decide

theorem clean_boolOp (operator : BoolOp) : '.' ∉ operator.spelling.toList := by
  cases operator <;> decide

variable {type : SetpType} {word : String}

theorem clean_type (known : type ∈ SetpType.all) :
    '.' ∉ type.spelling.toList := by
  have every : ∀ type ∈ SetpType.all, '.' ∉ type.spelling.toList := by decide
  exact every type known

theorem word_in_tail {word : List Char} (clean : '.' ∉ word) (combining : Option BoolOp)
 (known : type ∈ SetpType.all) :
    (word ++ ['.'] <+: (setpTail combining type).toList ∨
        '.' :: (word ++ ['.']) <:+: (setpTail combining type).toList) ↔
      ∃ operator ∈ combining, word = operator.spelling.toList := by
  have dotless := clean_type known
  have noPrefix : ¬ word ++ ['.'] <+: type.spelling.toList :=
    fun found => dotless (found.subset (by simp))
  have noInfix : ¬ '.' :: (word ++ ['.']) <:+: type.spelling.toList :=
    fun found => dotless (found.subset (by simp))
  cases combining with
  | none => simp [setpTail, noPrefix, noInfix]
  | some operator =>
    have text : (setpTail (some operator) type).toList =
        operator.spelling.toList ++ '.' :: type.spelling.toList := by simp [setpTail]
    rw [text, word_prefix clean (clean_boolOp operator),
      infix_at_separator (clean_boolOp operator)]
    simp [noPrefix, noInfix]

theorem mentions_word (clean : '.' ∉ word.toList) (operator : SetpOperator)
    (combining : Option BoolOp) (known : type ∈ SetpType.all) :
    mentions (setpOpcode operator combining type) ("." ++ word ++ ".") = true ↔
      word = operator.spelling ∨ ∃ operator ∈ combining, word = operator.spelling := by
  have pattern : ("." ++ word ++ ".").toList = '.' :: (word.toList ++ ['.']) := by simp
  rw [mentions, decide_eq_true_iff, pattern, setpOpcode_toList,
    infix_at_separator (by decide), infix_at_separator (clean_operator operator),
    word_prefix clean (clean_operator operator), word_in_tail clean combining known]
  simp only [String.toList_inj]

/-- The operators in the order of the importer's search. -/
def searched : List String :=
  ["eq", "ne", "lt", "le", "gt", "ge", "lo", "ls", "hi", "hs", "equ", "neu", "ltu", "leu", "gtu",
    "geu", "num", "nan"]

theorem ptxComparisonPredicate_setp (operator : SetpOperator) (combining : Option BoolOp)
 (known : type ∈ SetpType.all) :
    ptxComparisonPredicate (setpOpcode operator combining type) = operator.spelling := by
  have finds : ∀ word ∈ searched, mentions (setpOpcode operator combining type)
      ("." ++ word ++ ".") = decide (word = operator.spelling) := by
    intro word mem
    have clean : ∀ word ∈ searched, '.' ∉ word.toList := by decide
    have other : ∀ word ∈ searched, ∀ operator : BoolOp, word ≠ operator.spelling := by
      intro word mem operator
      revert word
      cases operator <;> decide
    rw [Bool.eq_iff_iff, mentions_word (clean word mem) operator combining known,
      decide_eq_true_iff]
    exact or_iff_left fun ⟨operator, _, same⟩ => other word mem operator same
  rw [ptxComparisonPredicate, ← searched, find?_congr finds]
  cases operator <;> rfl

theorem mentions_start (clean : '.' ∉ word.toList) (operator : SetpOperator)
    (combining : Option BoolOp) (known : type ∈ SetpType.all) :
    mentions (setpOpcode operator combining type) ("." ++ word) = true ↔
      word.toList <+: operator.spelling.toList ∨
        (∃ operator ∈ combining, word.toList <+: operator.spelling.toList) ∨
          word.toList <+: type.spelling.toList := by
  have pattern : ("." ++ word).toList = '.' :: word.toList := by simp
  have noInfix : ¬ '.' :: word.toList <:+: type.spelling.toList :=
    fun found => clean_type known (found.subset mem_cons_self)
  rw [mentions, decide_eq_true_iff, pattern, setpOpcode_toList,
    infix_at_separator (by decide), infix_at_separator (clean_operator operator),
    prefix_before_separator clean]
  cases combining with
  | none => simp [setpTail, noInfix]
  | some combining =>
    have text : (setpTail (some combining) type).toList =
        combining.spelling.toList ++ '.' :: type.spelling.toList := by simp [setpTail]
    rw [text, prefix_before_separator clean, infix_at_separator (clean_boolOp combining)]
    simp [noInfix]

/-- The words that the importer looks for in types. -/
def typeWords : List String := ["s8", "s16", "s32", "s64", "f64", "f", "pred"]

theorem mentions_type (mem : word ∈ typeWords) (operator : SetpOperator)
    (combining : Option BoolOp) (known : type ∈ SetpType.all) :
    mentions (setpOpcode operator combining type) ("." ++ word) =
      decide (word.toList <+: type.spelling.toList) := by
  have clean : ∀ word ∈ typeWords, '.' ∉ word.toList := by decide
  have noOperator : ∀ word ∈ typeWords, ¬ word.toList <+: operator.spelling.toList := by
    cases operator <;> decide
  have noBoolOp : ∀ word ∈ typeWords, ∀ operator : BoolOp,
      ¬ word.toList <+: operator.spelling.toList := by
    intro word mem operator
    revert word
    cases operator <;> decide
  rw [Bool.eq_iff_iff, mentions_start (clean word mem) operator combining known,
    decide_eq_true_iff, or_iff_right (noOperator word mem)]
  exact or_iff_right fun ⟨operator, _, found⟩ => noBoolOp word mem operator found

theorem hasSignedIntegerType_setp (operator : SetpOperator) (combining : Option BoolOp)
 (known : type ∈ SetpType.all) :
    hasSignedIntegerType (setpOpcode operator combining type) = (type.letter == 's') := by
  have every : ∀ type ∈ SetpType.all,
      (decide ("s8".toList <+: type.spelling.toList) ||
        decide ("s16".toList <+: type.spelling.toList) ||
        decide ("s32".toList <+: type.spelling.toList) ||
        decide ("s64".toList <+: type.spelling.toList)) = (type.letter == 's') := by
    decide
  have finds : ∀ word ∈ typeWords, _ := fun _ mem => mentions_type mem operator combining known
  rw [hasSignedIntegerType]
  have s8 := finds "s8" (by decide)
  have s16 := finds "s16" (by decide)
  have s32 := finds "s32" (by decide)
  have s64 := finds "s64" (by decide)
  rw [← every type known, ← s8, ← s16, ← s32, ← s64]
  rfl

theorem mentions_float64 (operator : SetpOperator) (combining : Option BoolOp)
 (known : type ∈ SetpType.all) :
    mentions (setpOpcode operator combining type) ".f64" = decide (type = .float64) := by
  have every : ∀ type ∈ SetpType.all,
      decide ("f64".toList <+: type.spelling.toList) = decide (type = .float64) := by decide
  have found := mentions_type (by decide : "f64" ∈ typeWords) operator combining known
  exact found.trans (every type known)

def beforeType (operator : SetpOperator) (combining : Option BoolOp) : List Char :=
  "setp.".toList ++ operator.spelling.toList ++ '.' ::
    (combining.elim [] fun operator => operator.spelling.toList ++ ['.'])

theorem setpOpcode_eq_beforeType (operator : SetpOperator) (combining : Option BoolOp)
    (type : SetpType) :
    (setpOpcode operator combining type).toList =
      beforeType operator combining ++ type.spelling.toList := by
  cases combining <;> simp [setpOpcode, setpTail, beforeType]

theorem mentions_number {bits : Nat} (mem : bits ∈ ([8, 16, 32, 64] : List Nat))
    (operator : SetpOperator) (combining : Option BoolOp) (type : SetpType) :
    mentions (setpOpcode operator combining type) (toString bits) =
      decide ((toString bits).toList <:+: type.spelling.toList) := by
  have letters : (beforeType operator combining).all (fun c => !c.isDigit) = true := by
    cases combining with
    | none => cases operator <;> rfl
    | some combining => cases operator <;> cases combining <;> rfl
  have absent : ∀ c ∈ ['8', '1', '3', '6'], c ∉ beforeType operator combining := by
    intro c digit inside
    have letter := all_eq_true.mp letters c inside
    simp only [mem_cons, not_mem_nil, or_false] at digit
    rcases digit with rfl | rfl | rfl | rfl <;> exact absurd letter (by decide)
  have shape : ∀ bits ∈ ([8, 16, 32, 64] : List Nat), ∃ c ∈ ['8', '1', '3', '6'],
      ∃ digits, (toString bits).toList = c :: digits := by
    intro bits mem
    simp only [mem_cons, not_mem_nil, or_false] at mem
    rcases mem with rfl | rfl | rfl | rfl <;> exact ⟨_, by decide, _, rfl⟩
  obtain ⟨c, first, digits, same⟩ := shape bits mem
  rw [mentions, setpOpcode_eq_beforeType, same, decide_eq_decide]
  exact infix_of_head (absent c first)

theorem ptxScalarType_setp (operator : SetpOperator) (combining : Option BoolOp)
 (known : type ∈ SetpType.all) :
    ptxScalarType (setpOpcode operator combining type) =
      if type.letter = 'f' then .floating type.bits else .integer type.bits := by
  have every : ∀ type ∈ SetpType.all, ((([8, 16, 32, 64] : List Nat).find? fun bits =>
      decide ((toString bits).toList <:+: type.spelling.toList)).getD 32) = type.bits := by
    decide
  have bits : ptxTypeBits (setpOpcode operator combining type) = type.bits := by
    rw [← every type known, ptxTypeBits,
      find?_congr fun bits mem => mentions_number mem operator combining type]
  have pred := mentions_type (by decide : "pred" ∈ typeWords) operator combining known
  have letter := mentions_type (by decide : "f" ∈ typeWords) operator combining known
  have facts : ∀ type ∈ SetpType.all,
      decide ("pred".toList <+: type.spelling.toList) = false ∧
        decide ("f".toList <+: type.spelling.toList) = decide (type.letter = 'f') := by
    decide
  rw [(facts type known).1] at pred
  rw [(facts type known).2] at letter
  rw [ptxScalarType, bits]
  have pred : mentions (setpOpcode operator combining type) ".pred" = false := pred
  have letter : mentions (setpOpcode operator combining type) ".f" =
      decide (type.letter = 'f') := letter
  rw [pred, letter]
  simp

end CuMetal.Ir
