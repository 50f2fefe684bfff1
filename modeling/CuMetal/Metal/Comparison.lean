import CuMetal.Ir.SetpOpcode
import CuMetal.Metal.LowerIntegers
import CuMetal.Metal.MslIntegers
import CuMetal.Metal.MslSemantics

/-!
# PTX comparisons

The MSL that is made of `setp` (`compiler/metal/src/lower_to_msl.cpp:3185-3277`). Integers are
compared by their values; for floating-point operands it counts how they relate. Comparisons of
pointers are left out.
-/

namespace CuMetal.Metal

open AstLowerer Ir

open Ir (BoolOp IntegerKind IrType Operand Operation Relation SetpOperator SetpType ValueId combined
  setpOpcode translateSetp)

/-- A comparison through the FP64 library (`3201-3224`). -/
def fp64Comparison (mode predicate : String) (left right : MslExpression) : MslExpression :=
  let start := if mode = "fast48" then "cm_fp64_fast_" else "vf64_"
  let relation :=
    if predicate = "le" ∨ predicate = "ge" then "le"
    else if predicate = "lt" ∨ predicate = "gt" then "lt"
    else "eq"
  let compared : MslExpression :=
    if predicate = "gt" ∨ predicate = "ge" then .call (start ++ relation) [right, left] .boolean
    else .call (start ++ relation) [left, right] .boolean
  if predicate = "ne" ∨ predicate = "neu" then .unary "!" compared .boolean else compared

/-- The spellings of the predicates that no operator has (`3237-3272`). -/
def unorderedForm (predicate : String) (left right : MslExpression) : Option MslExpression :=
  let compare := fun operation : String => MslExpression.binary operation left right .boolean
  let negate := fun e : MslExpression => MslExpression.unary "!" e .boolean
  let unordered := MslExpression.call "isunordered" [left, right] .boolean
  if predicate = "equ" then some (.binary "||" (compare "==") unordered .boolean)
  else if predicate = "one" then some (.binary "||" (compare "<") (compare ">") .boolean)
  else if predicate = "ltu" then some (negate (compare ">="))
  else if predicate = "leu" then some (negate (compare ">"))
  else if predicate = "gtu" then some (negate (compare "<="))
  else if predicate = "geu" then some (negate (compare "<"))
  else if predicate = "nan" then some unordered
  else if predicate = "num" then some (negate unordered)
  else none

/-- The comparison of two expressions (`3201-3276`), with the type of the left operand. -/
def compareExpression (operation : Operation) (type : IrType) (left right : MslExpression) :
    MslExpression :=
  let predicate := (operation.attributes.find? "predicate").getD "eq"
  match operation.attributes.find? "fp64_mode" with
  | some mode => fp64Comparison mode predicate left right
  | none =>
    let left := signedCast operation "signed" type left
    let right := signedCast operation "signed" type right
    let ordinary : MslExpression := .binary (compareSpelling operation) left right .boolean
    if type.kind = .float then (unorderedForm predicate left right).getD ordinary else ordinary

/-- `lower_operation` on a comparison (`3185-3277`). -/
def AstLowerer.lowerCompare (lowerer : AstLowerer) (operation : Operation) :
    Except String (AstLowerer × MslStatement) :=
  match operation.operands with
  | left :: right :: _ =>
    lowerer.declareResult operation
      (compareExpression operation left.type (lowerer.expressionFor left)
        (lowerer.expressionFor right))
  | _ => .error "malformed comparison"

/-- The relational operators of C++ on floating-point numbers. -/
def relationHolds : String → Relation → Option Bool
  | "==", relation => some (relation == .equal)
  | "!=", relation => some (relation != .equal)
  | "<", relation => some (relation == .less)
  | "<=", relation => some (relation == .less || relation == .equal)
  | ">", relation => some (relation == .greater)
  | ">=", relation => some (relation == .greater || relation == .equal)
  | _, _ => none

/-- The truth of a comparison, from the relation of the values of any two operands; a library has
functions of two operands. -/
def floatTruth (library : String → Relation → Option Bool)
    (relation : MslExpression → MslExpression → Relation) : MslExpression → Option Bool
  | .binary "||" first second _ => do
    let x ← floatTruth library relation first
    let y ← floatTruth library relation second
    pure (x || y)
  | .binary operation left right _ => relationHolds operation (relation left right)
  | .unary "!" operand _ => (floatTruth library relation operand).map (!·)
  | .call "isunordered" [left, right] _ => some (relation left right == .unordered)
  | .call callee [left, right] _ => library callee (relation left right)
  | _ => none

/-- The comparisons of the FP64 library are the ordered ones: false of a NaN. -/
structure ComparesOrdered (library : String → Relation → Option Bool) : Prop where
  eq : ∀ start ∈ ["vf64_", "cm_fp64_fast_"], ∀ relation,
    library (start ++ "eq") relation = some (relation == .equal)
  lt : ∀ start ∈ ["vf64_", "cm_fp64_fast_"], ∀ relation,
    library (start ++ "lt") relation = some (relation == .less)
  le : ∀ start ∈ ["vf64_", "cm_fp64_fast_"], ∀ relation,
    library (start ++ "le") relation = some (relation == .less || relation == .equal)

/-- The operator says of this relation what its spelling in MSL says. The spelling of `ne` is true
of a NaN, and the FP64 library is asked for equality in place of every operator that is not ordered.
-/
def SpelledRight : SetpType → SetpOperator → Relation → Prop
  | .float32, .ne, relation => relation ≠ .unordered
  | .float64, .ne, relation | .float64, .equ, relation => relation ≠ .unordered
  | .float64, .ltu, relation => relation = .greater
  | .float64, .leu, relation => relation = .equal ∨ relation = .greater
  | .float64, .gtu, relation => relation = .less
  | .float64, .geu, relation => relation = .less ∨ relation = .equal
  | .float64, .num, relation => relation = .equal ∨ relation = .unordered
  | .float64, .nan, relation => relation = .less ∨ relation = .greater
  | _, _, _ => True

/-- What the spelling in MSL says. -/
def spelledTruth : SetpType → SetpOperator → Relation → Bool
  | .float32, .ne, relation => relation != .equal
  | .float64, .ne, relation => relation != .equal
  | .float64, .equ, relation | .float64, .ltu, relation | .float64, .leu, relation
  | .float64, .gtu, relation | .float64, .geu, relation | .float64, .num, relation
  | .float64, .nan, relation => relation == .equal
  | _, operator, relation => operator.holds relation

theorem spelledTruth_eq_iff (type : SetpType) (operator : SetpOperator) (relation : Relation) :
    spelledTruth type operator relation = operator.holds relation ↔
      SpelledRight type operator relation := by
  cases type with
  | integer kind bits =>
    exact iff_of_true (by cases operator <;> rfl) (by cases operator <;> trivial)
  | float32 =>
    cases operator <;> cases relation <;> simp [spelledTruth, SpelledRight, SetpOperator.holds]
    decide
  | float64 =>
    cases operator <;> cases relation <;>
      simp [spelledTruth, SpelledRight, SetpOperator.holds] <;> decide

variable {operation : Operation}

section Floats

variable {library : String → Relation → Option Bool}
  {relation : MslExpression → MslExpression → Relation} {left right : MslExpression}

theorem floatTruth_call {callee : String} (other : callee ≠ "isunordered") (type : MslType) :
    floatTruth library relation (.call callee [left, right] type) =
      library callee (relation left right) := by
  simp [floatTruth]

/-- A comparison through functions of the FP64 library that are the ordered ones. -/
theorem fp64Comparison_truth (ordered : ComparesOrdered library)
    (turned : relation right left = (relation left right).swap) (mode : String)
    {operator : SetpOperator} (valid : operator ∈ SetpType.float64.operators) :
    floatTruth library relation (fp64Comparison mode operator.spelling left right) =
      some (spelledTruth .float64 operator (relation left right)) := by
  obtain ⟨start, known, same⟩ : ∃ start ∈ ["vf64_", "cm_fp64_fast_"],
      (if mode = "fast48" then "cm_fp64_fast_" else "vf64_") = start := by
    by_cases fast : mode = "fast48"
    · exact ⟨_, by decide, if_pos fast⟩
    · exact ⟨_, by decide, if_neg fast⟩
  have names : ∀ start ∈ ["vf64_", "cm_fp64_fast_"], start ++ "eq" ≠ "isunordered" ∧
      start ++ "lt" ≠ "isunordered" ∧ start ++ "le" ≠ "isunordered" := by decide
  obtain ⟨eqName, ltName, leName⟩ := names start known
  have eq : ∀ (a b : MslExpression) type,
      floatTruth library relation (.call (start ++ "eq") [a, b] type) =
        some (relation a b == .equal) :=
    fun a b type => (floatTruth_call eqName type).trans (ordered.eq start known _)
  have lt : ∀ (a b : MslExpression) type,
      floatTruth library relation (.call (start ++ "lt") [a, b] type) =
        some (relation a b == .less) :=
    fun a b type => (floatTruth_call ltName type).trans (ordered.lt start known _)
  have le : ∀ (a b : MslExpression) type,
      floatTruth library relation (.call (start ++ "le") [a, b] type) =
        some (relation a b == .less || relation a b == .equal) :=
    fun a b type => (floatTruth_call leName type).trans (ordered.le start known _)
  have negated : ∀ (a : MslExpression) type, floatTruth library relation (.unary "!" a type) =
      (floatTruth library relation a).map (!·) := fun a type => by rw [floatTruth]
  cases operator with
  | lo | ls | hi | hs => exact absurd valid (by decide)
  | eq | equ | ltu | leu | gtu | geu | num | nan =>
    simp [fp64Comparison, same, SetpOperator.spelling, eq, spelledTruth, SetpOperator.holds]
  | ne | neu =>
    simp [fp64Comparison, same, SetpOperator.spelling, eq, negated, spelledTruth,
      SetpOperator.holds, bne]
  | lt | le =>
    simp [fp64Comparison, same, SetpOperator.spelling, lt, le, spelledTruth, SetpOperator.holds]
  | gt | ge =>
    simp only [fp64Comparison, same, SetpOperator.spelling]
    simp [lt, le, turned, spelledTruth, SetpOperator.holds]
    cases relation left right <;> decide

/-- The operators of C++ and `isunordered`, for operands of type `float`. -/
theorem float32_truth {operator : SetpOperator} (valid : operator ∈ SetpType.float32.operators)
    (predicate : operation.attributes.find? "predicate" = some operator.spelling) :
    floatTruth library relation
        ((unorderedForm operator.spelling left right).getD
          (.binary (compareSpelling operation) left right .boolean)) =
      some (spelledTruth .float32 operator (relation left right)) := by
  cases operator with
  | lo | ls | hi | hs => exact absurd valid (by decide)
  | eq | ne | lt | le | gt | ge | neu =>
    simp [unorderedForm, compareSpelling, predicate, SetpOperator.spelling, floatTruth,
      relationHolds, spelledTruth, SetpOperator.holds]
  | equ | nan =>
    simp [unorderedForm, SetpOperator.spelling, floatTruth, relationHolds, spelledTruth,
      SetpOperator.holds]
  | ltu | leu | gtu | geu | num =>
    simp [unorderedForm, SetpOperator.spelling, floatTruth, relationHolds, spelledTruth,
      SetpOperator.holds]
    cases relation left right <;> rfl

end Floats

/-- The numbers that a comparison of two integers compares: those of the operands at their common
type. -/
def comparedNumbers (x y : IntegerValue) : Int × Int :=
  let p := x.promoted
  let q := y.promoted
  let at_ := fun z : IntegerValue =>
    (⟨p.commonSigned q, p.commonWidth q, z.converted (p.commonWidth q)⟩ : IntegerValue).toInt
  (at_ p, at_ q)

variable {onInt : Int → Int → Bool}

theorem ComparisonOperator.value {operation : String}
    (compare : ComparisonOperator operation onInt) (x y : IntegerValue) :
    integerBinary operation x y =
      some (.bool (onInt (comparedNumbers x y).1 (comparedNumbers x y).2)) := by
  unfold integerBinary comparedNumbers
  simp only [compare.plain]
  unfold operateAt
  rw [compare.compares]
  cases signed : x.promoted.commonSigned y.promoted with
  | true =>
    simp only [compare.signed]
    rfl
  | false =>
    simp only [compare.unsigned]
    rfl

theorem ComparisonOperator.congr {operation other : String} {onInt' : Int → Int → Bool}
    (compare : ComparisonOperator operation onInt) (same : other = operation)
    (equal : ∀ m n, onInt' m n = onInt m n) : ComparisonOperator other onInt' := by
  rw [same, funext fun m => funext fun n => equal m n]
  exact compare

/-- The operators of integers are spelled as the operators of C++ that compare numbers so. -/
theorem comparisonOperator_of_predicate {operator : SetpOperator}
    (valid : operator ∈ SetpOperator.ordered ++ SetpOperator.unsigned)
    (predicate : operation.attributes.find? "predicate" = some operator.spelling) :
    ComparisonOperator (compareSpelling operation)
      (fun m n => operator.holds (Relation.ofInts m n)) := by
  have less := Relation.ofInts_less
  have equal := Relation.ofInts_equal
  have greater := Relation.ofInts_greater
  cases operator with
  | equ | neu | ltu | leu | gtu | geu | num | nan => exact absurd valid (by decide)
  | eq =>
    refine comparisonOperator_eq.congr
      (by simp [compareSpelling, predicate, SetpOperator.spelling]) fun m n => ?_
    simp [SetpOperator.holds, beq_eq_decide, equal]
  | ne =>
    refine comparisonOperator_ne.congr
      (by simp [compareSpelling, predicate, SetpOperator.spelling]) fun m n => ?_
    simp only [SetpOperator.holds, beq_eq_decide, less, greater, ← Bool.decide_or,
      decide_eq_decide]
    omega
  | lt | lo =>
    refine comparisonOperator_lt.congr
      (by simp [compareSpelling, predicate, SetpOperator.spelling]) fun m n => ?_
    simp [SetpOperator.holds, beq_eq_decide, less]
  | le | ls =>
    refine comparisonOperator_le.congr
      (by simp [compareSpelling, predicate, SetpOperator.spelling]) fun m n => ?_
    simp only [SetpOperator.holds, beq_eq_decide, less, equal, ← Bool.decide_or,
      decide_eq_decide]
    omega
  | gt | hi =>
    refine comparisonOperator_gt.congr
      (by simp [compareSpelling, predicate, SetpOperator.spelling]) fun m n => ?_
    simp [SetpOperator.holds, beq_eq_decide, greater]
  | ge | hs =>
    refine comparisonOperator_ge.congr
      (by simp [compareSpelling, predicate, SetpOperator.spelling]) fun m n => ?_
    simp only [SetpOperator.holds, beq_eq_decide, greater, equal, ← Bool.decide_or,
      decide_eq_decide]
    omega

/-- A signed comparison casts both operands to the signed type of the left one's width. -/
def castInteger (signed : Bool) (leftBits : Nat) (x : IntegerValue) : IntegerValue :=
  if signed then ⟨true, spelledWidth leftBits, x.converted (spelledWidth leftBits)⟩ else x

theorem evaluate_signedCast {signed : Bool}
    (marked : operation.attributes.find? "signed" = if signed then some "true" else none)
    {type : IrType} (integer : type.kind = .integer) {locals : Locals} {machine : Machine}
    {e : MslExpression} {x : IntegerValue}
    (value : (evaluate locals e).run machine = some (.integer x, machine)) :
    (evaluate locals (signedCast operation "signed" type e)).run machine =
      some (.integer (castInteger signed type.bitWidth x), machine) := by
  unfold signedCast castInteger
  rw [marked]
  cases signed with
  | true =>
    rw [if_pos ⟨rfl, integer⟩]
    simp [evaluate, value, convert]
  | false =>
    rw [if_neg (by simp), if_neg (by decide)]
    exact value

def seenRelation (kind : IntegerKind) (leftBits : Nat) (x y : IntegerValue) : Relation :=
  let numbers := comparedNumbers (castInteger (kind == .signed) leftBits x)
    (castInteger (kind == .signed) leftBits y)
  .ofInts numbers.1 numbers.2

def prescribedRelation (kind : IntegerKind) {bits : Nat} (a b : BitVec bits) : Relation :=
  if kind = .signed then .ofInts a.toInt b.toInt else .ofInts a.toNat b.toNat

theorem converted_own (signed : Bool) {width own : Nat} (same : own = width) (a : BitVec width) :
    (⟨signed, own, IntegerValue.converted ⟨signed, width, a⟩ own⟩ : IntegerValue) =
      ⟨signed, width, a⟩ := by
  subst same
  rw [IntegerValue.converted_self]

theorem comparedNumbers_same (signed : Bool) {width : Nat} (a b : BitVec width) :
    comparedNumbers ⟨signed, width, a⟩ ⟨signed, width, b⟩ =
      ((⟨signed, width, a⟩ : IntegerValue).toInt, (⟨signed, width, b⟩ : IntegerValue).toInt) := by
  by_cases narrow : width < 32
  · have promoted : ∀ c : BitVec width, (⟨signed, width, c⟩ : IntegerValue).promoted =
        ⟨true, 32, IntegerValue.converted ⟨signed, width, c⟩ 32⟩ := fun c => if_pos narrow
    unfold comparedNumbers
    rw [← IntegerValue.toInt_promoted ⟨signed, width, a⟩,
      ← IntegerValue.toInt_promoted ⟨signed, width, b⟩, promoted, promoted]
    simp only [IntegerValue.commonSigned, IntegerValue.commonWidth, Bool.and_self, if_true,
      converted_own _ (Nat.max_self _)]
  · have promoted : ∀ c : BitVec width, (⟨signed, width, c⟩ : IntegerValue).promoted =
        ⟨signed, width, c⟩ := fun c => if_neg narrow
    unfold comparedNumbers
    rw [promoted, promoted]
    simp only [IntegerValue.commonSigned, IntegerValue.commonWidth, Bool.and_self, if_true,
      converted_own _ (Nat.max_self _)]

theorem toInt_at_common {signed : Bool} {width : Nat} (x : IntegerValue) (nonneg : 0 ≤ x.toInt)
    (room : x.width ≤ width) (kept : signed = true → (x.converted width).toInt = x.toInt) :
    (⟨signed, width, x.converted width⟩ : IntegerValue).toInt = x.toInt := by
  cases signed with
  | true => exact kept rfl
  | false =>
    have below : x.toInt < 2 ^ width := by
      refine lt_of_lt_of_le ?_ (pow_le_pow_right₀ (by decide) room)
      unfold IntegerValue.toInt
      split
      · exact lt_of_lt_of_le BitVec.toInt_lt (pow_le_pow_right₀ (by decide) (by omega))
      · exact_mod_cast x.bits.isLt
    rw [IntegerValue.converted_eq_ofInt]
    change ((BitVec.ofInt width x.toInt).toNat : Int) = x.toInt
    have power : ((2 ^ width : Nat) : Int) = 2 ^ width := by simp
    rw [BitVec.toNat_ofInt, power, Int.emod_eq_of_lt nonneg below, Int.toNat_of_nonneg nonneg]

/-- Numbers that are not negative are compared as they are. -/
theorem comparedNumbers_nonneg {x y : IntegerValue} (left : 0 ≤ x.toInt) (right : 0 ≤ y.toInt) :
    comparedNumbers x y = (x.toInt, y.toInt) := by
  have kept := fun signed => IntegerValue.toInt_converted_common (y := y.promoted)
    (IntegerValue.width_promoted x) signed
  rw [← IntegerValue.toInt_promoted] at left right
  rw [← IntegerValue.toInt_promoted x, ← IntegerValue.toInt_promoted y]
  exact Prod.ext
    (toInt_at_common _ left (le_max_left ..) fun signed => (kept signed).1)
    (toInt_at_common _ right (le_max_right ..) fun signed => (kept signed).2)

/-- At an unsigned common type the numbers are those of the converted operands. -/
theorem comparedNumbers_of_unsigned {x y : IntegerValue} {width : Nat}
    (unsigned : x.promoted.commonSigned y.promoted = false)
    (common : x.promoted.commonWidth y.promoted = width) :
    comparedNumbers x y =
      (((x.promoted.converted width).toNat : Int), ((y.promoted.converted width).toNat : Int)) := by
  subst common
  unfold comparedNumbers
  simp only [unsigned]
  rfl

/-- Beside an unsigned operand that is at least as wide as it and as `int`, a number is compared in
the type of that operand. -/
theorem comparedNumbers_unsigned {x : IntegerValue} {width : Nat} (wide : 32 ≤ width)
    (narrow : x.width ≤ width) (b : BitVec width) :
    comparedNumbers x ⟨false, width, b⟩ = (((x.converted width).toNat : Int), (b.toNat : Int)) ∧
      comparedNumbers ⟨false, width, b⟩ x =
        ((b.toNat : Int), ((x.converted width).toNat : Int)) := by
  have promoted : (⟨false, width, b⟩ : IntegerValue).promoted = ⟨false, width, b⟩ :=
    if_neg (not_lt.mpr wide)
  have room : x.promoted.width ≤ width := by
    unfold IntegerValue.promoted
    split
    · exact wide
    · exact narrow
  have number : x.promoted.converted width = x.converted width := by
    rw [IntegerValue.converted_eq_ofInt, IntegerValue.converted_eq_ofInt,
      IntegerValue.toInt_promoted]
  have self : (⟨false, width, b⟩ : IntegerValue).converted width = b :=
    IntegerValue.converted_self b
  have left : x.promoted.commonSigned ⟨false, width, b⟩ = false := by
    unfold IntegerValue.commonSigned
    split
    · exact Bool.and_false _
    · next other => exact if_pos (lt_of_le_of_ne room other)
  have right : (⟨false, width, b⟩ : IntegerValue).commonSigned x.promoted = false := by
    unfold IntegerValue.commonSigned
    split
    · rfl
    · exact if_neg (not_lt.mpr room)
  have commonLeft : x.promoted.commonWidth ⟨false, width, b⟩ = width := Nat.max_eq_right room
  have commonRight : (⟨false, width, b⟩ : IntegerValue).commonWidth x.promoted = width :=
    Nat.max_eq_left room
  rw [← promoted] at left right commonLeft commonRight
  constructor
  · rw [comparedNumbers_of_unsigned left commonLeft, promoted, number, self]
  · rw [comparedNumbers_of_unsigned right commonRight, promoted, number, self]

/-! ## Operands -/

section Operands

variable {bits : Nat}

/-- The value in MSL of an operand: a variable has the low bits of the register, as many as the type
of its value has; a literal is taken modulo the instruction's width. -/
def Shows (operand : Operand) (a : BitVec bits) (x : IntegerValue) : Prop :=
  if operand.kind = .immediate then a = x.converted bits
  else x = ⟨false, operand.type.bitWidth, a.setWidth operand.type.bitWidth⟩

/-- The variable has room for the content of the register; the literal is an unsigned number of the
instruction's type. -/
def Unextended (operand : Operand) (a : BitVec bits) (x : IntegerValue) : Prop :=
  if operand.kind = .immediate then 0 ≤ x.toInt ∧ x.toInt < 2 ^ bits
  else a.toNat < 2 ^ operand.type.bitWidth

/-- A literal that is no wider than the variable beside it, which has the instruction's type and is
not promoted. -/
def TakesType (bits : Nat) (literal variable_ : Operand) (x : IntegerValue) : Prop :=
  literal.kind = .immediate ∧ variable_.kind ≠ .immediate ∧ variable_.type.bitWidth = bits ∧
    32 ≤ bits ∧ x.width ≤ bits

/-- Two variables of one width have registers with sign-extended contents. -/
def SignExtended (left right : Operand) (a b : BitVec bits) : Prop :=
  let width := left.type.bitWidth
  left.kind ≠ .immediate ∧ right.kind ≠ .immediate ∧ right.type.bitWidth = width ∧ 0 < width ∧
    width ≤ bits ∧ IntegerValue.Fits width a.toInt ∧ IntegerValue.Fits width b.toInt

/-- The types, widths and literals of two operands let MSL compare their numbers. A signed
comparison takes the type of the left one for both, so the numbers have to fit it; an unsigned one
makes no casts, so a narrow variable is right if the register has nothing above it, or if both
registers repeat the signs of their variables. -/
def ComparesNumbers (kind : IntegerKind) (left right : Operand) (a b : BitVec bits)
    (x y : IntegerValue) : Prop :=
  left.type.kind = .integer ∧
    match kind with
    | .signed =>
      let width := left.type.bitWidth
      width ∈ ([8, 16, 32, 64] : List Nat) ∧ width ≤ bits ∧ IntegerValue.Fits width a.toInt ∧
        IntegerValue.Fits width b.toInt ∧
          (right.kind = .immediate ∨ width ≤ right.type.bitWidth ∨
            b.toNat < 2 ^ right.type.bitWidth)
    | .unsigned | .untyped =>
      Unextended left a x ∧ Unextended right b y ∨ TakesType bits left right x ∨
        TakesType bits right left y ∨ SignExtended left right a b

variable {operand left right : Operand} {a b : BitVec bits} {x y : IntegerValue} {width : Nat}

theorem Unextended.number (plain : Unextended operand a x) (shown : Shows operand a x) :
    x.toInt = a.toNat := by
  unfold Unextended at plain
  unfold Shows at shown
  by_cases literal : operand.kind = .immediate
  · rw [if_pos literal] at plain shown
    have power : ((2 ^ bits : Nat) : Int) = 2 ^ bits := by simp
    rw [shown, IntegerValue.converted_eq_ofInt, BitVec.toNat_ofInt, power,
      Int.emod_eq_of_lt plain.1 plain.2, Int.toNat_of_nonneg plain.1]
  · rw [if_neg literal] at plain shown
    rw [shown]
    change ((a.setWidth _).toNat : Int) = a.toNat
    rw [BitVec.toNat_setWidth, Nat.mod_eq_of_lt plain]

theorem toInt_setWidth_of_fits (room : 0 < width) (narrow : width ≤ bits)
    (fits : IntegerValue.Fits width a.toInt) : (a.setWidth width).toInt = a.toInt := by
  rw [← BitVec.signExtend_eq_setWidth_of_le a narrow]
  exact BitVec.toInt_ofInt_eq_self room fits.1 fits.2

/-- A cast to a type that is not wider than the instruction's takes the low bits of the register. -/
theorem Shows.cast (shown : Shows operand a x) (narrow : width ≤ bits)
    (kept : operand.kind = .immediate ∨ width ≤ operand.type.bitWidth ∨
      a.toNat < 2 ^ operand.type.bitWidth) : x.converted width = a.setWidth width := by
  unfold Shows at shown
  by_cases literal : operand.kind = .immediate
  · rw [if_pos literal] at shown
    rw [shown, IntegerValue.converted_eq_ofInt, IntegerValue.converted_eq_ofInt,
      ← BitVec.signExtend_eq_setWidth_of_le _ narrow]
    apply BitVec.eq_of_toInt_eq
    change _ = (BitVec.ofInt width (BitVec.ofInt bits x.toInt).toInt).toInt
    rw [BitVec.toInt_ofInt, BitVec.toInt_ofInt, BitVec.toInt_ofInt,
      Int.bmod_bmod_of_dvd (pow_dvd_pow 2 narrow)]
  · rw [if_neg literal] at shown
    rw [shown]
    change (a.setWidth _).setWidth width = a.setWidth width
    rcases kept.resolve_left literal with wide | small
    · exact BitVec.setWidth_setWidth_of_le a wide
    · apply BitVec.eq_of_toNat_eq
      rw [BitVec.toNat_setWidth, BitVec.toNat_setWidth, BitVec.toNat_setWidth,
        Nat.mod_eq_of_lt small]

theorem TakesType.numbers {literal variable_ : Operand} (takes : TakesType bits literal variable_ x)
    (shownLiteral : Shows literal a x) (shownVariable : Shows variable_ b y) :
    comparedNumbers x y = ((a.toNat : Int), (b.toNat : Int)) ∧
      comparedNumbers y x = ((b.toNat : Int), (a.toNat : Int)) := by
  obtain ⟨kind, other, own, wide, narrow⟩ := takes
  unfold Shows at shownLiteral shownVariable
  rw [if_pos kind] at shownLiteral
  rw [if_neg other, own, BitVec.setWidth_eq] at shownVariable
  subst shownLiteral shownVariable
  exact comparedNumbers_unsigned wide narrow b

/-- A content that fits a narrower signed type, with the sign of its low bits above them. -/
theorem toNat_of_fits (room : 0 < width) (narrow : width ≤ bits)
    (fits : IntegerValue.Fits width a.toInt) :
    let low := (a.setWidth width).toNat
    a.toNat = low + if 2 ^ (width - 1) ≤ low then 2 ^ bits - 2 ^ width else 0 := by
  have extended : a = (a.setWidth width).signExtend bits := by
    apply BitVec.eq_of_toInt_eq
    rw [BitVec.toInt_signExtend_of_le narrow, toInt_setWidth_of_fits room narrow fits]
  have low : ((a.setWidth width).setWidth bits).toNat = (a.setWidth width).toNat := by
    rw [BitVec.toNat_setWidth, Nat.mod_eq_of_lt]
    exact lt_of_lt_of_le (a.setWidth width).isLt (Nat.pow_le_pow_right (by decide) narrow)
  have sign := BitVec.toNat_signExtend (a.setWidth width) (v := bits)
  rw [← extended, low] at sign
  simp only [BitVec.msb_eq_decide, decide_eq_true_eq] at sign
  exact sign

/-- Sign-extended contents are ordered as their low bits. -/
theorem SignExtended.relation (extended : SignExtended left right a b)
    (shownLeft : Shows left a x) (shownRight : Shows right b y) :
    Relation.ofInts (comparedNumbers x y).1 (comparedNumbers x y).2 =
      Relation.ofInts a.toNat b.toNat := by
  obtain ⟨plainLeft, plainRight, same, room, narrow, fitsLeft, fitsRight⟩ := extended
  unfold Shows at shownLeft shownRight
  rw [if_neg plainLeft] at shownLeft
  rw [if_neg plainRight, same] at shownRight
  have numberLeft := toNat_of_fits room narrow fitsLeft
  have numberRight := toNat_of_fits room narrow fitsRight
  have belowLeft := (a.setWidth left.type.bitWidth).isLt
  have belowRight := (b.setWidth left.type.bitWidth).isLt
  have power : 2 ^ left.type.bitWidth ≤ 2 ^ bits := Nat.pow_le_pow_right (by decide) narrow
  rw [shownLeft, shownRight, comparedNumbers_same]
  change Relation.ofInts (a.setWidth left.type.bitWidth).toNat
    (b.setWidth left.type.bitWidth).toNat = _
  generalize (a.setWidth left.type.bitWidth).toNat = m at *
  generalize (b.setWidth left.type.bitWidth).toNat = n at *
  have order : (m < n ↔ a.toNat < b.toNat) ∧ (m = n ↔ a.toNat = b.toNat) := by
    simp only at numberLeft numberRight
    split at numberLeft <;> split at numberRight <;> omega
  unfold Relation.ofInts
  simp only [Nat.cast_lt, Nat.cast_inj, order.1, order.2]

/-- The numbers that a comparison in MSL sees are those of the operands. -/
theorem seenRelation_eq {kind : IntegerKind} (compares : ComparesNumbers kind left right a b x y)
    (shownLeft : Shows left a x) (shownRight : Shows right b y) :
    seenRelation kind left.type.bitWidth x y = prescribedRelation kind a b := by
  have unsigned : Unextended left a x ∧ Unextended right b y ∨ TakesType bits left right x ∨
      TakesType bits right left y ∨ SignExtended left right a b →
      Relation.ofInts (comparedNumbers x y).1 (comparedNumbers x y).2 =
        Relation.ofInts a.toNat b.toNat := by
    rintro (⟨plainLeft, plainRight⟩ | takes | takes | extended)
    · have numberLeft := plainLeft.number shownLeft
      have numberRight := plainRight.number shownRight
      rw [comparedNumbers_nonneg (by omega) (by omega), numberLeft, numberRight]
    · rw [(takes.numbers shownLeft shownRight).1]
    · rw [(takes.numbers shownRight shownLeft).2]
    · exact extended.relation shownLeft shownRight
  unfold seenRelation prescribedRelation
  obtain ⟨-, compares⟩ := compares
  cases kind with
  | unsigned | untyped => exact unsigned compares
  | signed =>
    obtain ⟨known, narrow, fitsLeft, fitsRight, kept⟩ := compares
    have every : ∀ width ∈ ([8, 16, 32, 64] : List Nat),
        spelledWidth width = width ∧ 0 < width := by
      decide
    obtain ⟨spelled, room⟩ := every _ known
    have castLeft := shownLeft.cast narrow (.inr (.inl le_rfl))
    have castRight := shownRight.cast narrow kept
    have numbers : comparedNumbers (castInteger true left.type.bitWidth x)
        (castInteger true left.type.bitWidth y) = (a.toInt, b.toInt) := by
      unfold castInteger
      rw [if_pos rfl, if_pos rfl, spelled, castLeft, castRight, comparedNumbers_same]
      exact Prod.ext (toInt_setWidth_of_fits room narrow fitsLeft)
        (toInt_setWidth_of_fits room narrow fitsRight)
    exact congrArg (fun n => Relation.ofInts n.1 n.2) numbers

end Operands

/-! ## The imported comparison -/

section Imported

variable (operator : SetpOperator) (combining : Option BoolOp) {type : SetpType}
  (known : type ∈ SetpType.all) (mode : String) (left right : Operand) (results : List ValueId)
  (resultTypes : List IrType) (freshLeft freshRight : ValueId)

include known in
/-- What a comparison is imported as, after the bitcasts of its operands. The combining operator and
its operand are not there. -/
theorem translateSetp_last
    (last : (translateSetp (setpOpcode operator combining type) mode left right results
      resultTypes freshLeft freshRight).getLast? = some operation) :
    let expected : IrType := if type.letter = 'f' then .floating type.bits else .integer type.bits
    operation.operands = [(bitContainerOf left expected freshLeft).1,
        (bitContainerOf right expected freshRight).1] ∧
      operation.attributes.find? "predicate" = some operator.spelling ∧
      operation.attributes.find? "fp64_mode" =
        (if type = .float64 then some mode else none) ∧
      operation.attributes.find? "signed" = if type.letter = 's' then some "true" else none := by
  unfold translateSetp at last
  rw [ptxScalarType_setp operator combining known,
    ptxComparisonPredicate_setp operator combining known,
    hasSignedIntegerType_setp operator combining known,
    mentions_float64 operator combining known] at last
  simp only [List.getLast?_append, List.getLast?_singleton, Option.some_or,
    Option.some.injEq] at last
  subst last
  refine ⟨rfl, ?_⟩
  by_cases wide : type = .float64
  · subst wide
    exact ⟨rfl, rfl, rfl⟩
  · by_cases signed : type.letter = 's'
    · simp [wide, signed, AssocMap.find?]
    · simp [wide, signed, AssocMap.find?]

theorem assigned_of_lowerCompare {lowerer after : AstLowerer} {statement : MslStatement}
    {l r : Operand} (operands : operation.operands = [l, r])
    (lowered : lowerer.lowerCompare operation = .ok (after, statement)) :
    statement.assigned = some (compareExpression operation l.type (lowerer.expressionFor l)
      (lowerer.expressionFor r)) := by
  unfold lowerCompare at lowered
  rw [operands] at lowered
  exact assigned_of_declareResult lowered

/-- A truth that is the compared one under a condition is the combined one if the condition holds
and the combination leaves the compared one, or if it fails and the combination inverts it. -/
def KeepsCombination (combining : Option BoolOp) (right : Prop) (compared other : Bool) : Prop :=
  right ∧ combined combining compared other = compared ∨
    ¬ right ∧ combined combining compared other = !compared

theorem truth_eq_combined_iff {truth compared : Bool} {right : Prop}
    (spelled : truth = compared ↔ right) (combining : Option BoolOp) (other : Bool) :
    truth = combined combining compared other ↔
      KeepsCombination combining right compared other := by
  rw [KeepsCombination, ← spelled]
  cases truth <;> cases compared <;> cases combined combining _ other <;> decide

/-- What a comparison of integers tells of operands whose numbers MSL compares. -/
def TellsIntegers (operator : SetpOperator) (combining : Option BoolOp) (kind : IntegerKind)
    (bits : Nat) (l r : Operand) (left right initializer : MslExpression) : Prop :=
  ∀ (locals : Locals) (machine : Machine) (a b : BitVec bits) (x y : IntegerValue),
    Shows l a x → Shows r b y → ComparesNumbers kind l r a b x y →
    (evaluate locals left).run machine = some (.integer x, machine) →
    (evaluate locals right).run machine = some (.integer y, machine) →
    ∃ truth, (evaluate locals initializer).run machine = some (.bool truth, machine) ∧
      ∀ other, truth = combined combining (operator.holds (prescribedRelation kind a b)) other ↔
        combined combining (operator.holds (prescribedRelation kind a b)) other =
          operator.holds (prescribedRelation kind a b)

/-- What a comparison of floating-point numbers tells. -/
def TellsFloats (operator : SetpOperator) (combining : Option BoolOp) (type : SetpType)
    (left right initializer : MslExpression) : Prop :=
  ∀ (library : String → Relation → Option Bool)
    (relation : MslExpression → MslExpression → Relation), ComparesOrdered library →
    relation right left = (relation left right).swap →
    ∃ truth, floatTruth library relation initializer = some truth ∧
      ∀ other, truth = combined combining (operator.holds (relation left right)) other ↔
        KeepsCombination combining (SpelledRight type operator (relation left right))
          (operator.holds (relation left right)) other

variable {leftType : IrType}

theorem tellsIntegers {operator : SetpOperator} (combining : Option BoolOp) {kind : IntegerKind}
    {bits : Nat} (valid : operator ∈ (SetpType.integer kind bits).operators)
    (predicate : operation.attributes.find? "predicate" = some operator.spelling)
    (plain : operation.attributes.find? "fp64_mode" = none)
    (signed : operation.attributes.find? "signed" = if (kind == .signed) = true then some "true"
      else none) (l r : Operand) (left right : MslExpression) :
    TellsIntegers operator combining kind bits l r left right
      (compareExpression operation l.type left right) := by
  intro locals machine a b x y shownLeft shownRight compares leftValue rightValue
  have integer := compares.1
  have valid : operator ∈ SetpOperator.ordered ++ SetpOperator.unsigned := by
    cases kind with
    | signed => exact List.mem_append_left _ valid
    | unsigned => exact valid
    | untyped =>
      have every : ∀ operator ∈ (SetpType.integer .untyped bits).operators,
          operator ∈ SetpOperator.ordered ++ SetpOperator.unsigned := by
        intro operator mem
        revert operator
        exact (by decide : ∀ operator ∈ [SetpOperator.eq, .ne],
          operator ∈ SetpOperator.ordered ++ SetpOperator.unsigned)
      exact every operator valid
  have compare := comparisonOperator_of_predicate valid predicate
  have shape : compareExpression operation l.type left right =
      .binary (compareSpelling operation) (signedCast operation "signed" l.type left)
        (signedCast operation "signed" l.type right) .boolean := by
    unfold compareExpression
    rw [plain]
    exact if_neg (by rw [integer]; decide)
  refine ⟨_, ?_, fun other => eq_comm⟩
  rw [shape, ← seenRelation_eq compares shownLeft shownRight]
  exact evaluate_binary _ (evaluate_signedCast signed integer leftValue)
    (evaluate_signedCast signed integer rightValue)
    ((binaryValue_integer ..).trans (compare.value _ _))

theorem tellsFloats {operator : SetpOperator} (combining : Option BoolOp) {type : SetpType}
    (float : type = .float32 ∨ type = .float64) (valid : operator ∈ type.operators)
    {mode : String} (kind : type = .float32 → leftType.kind = .float)
    (predicate : operation.attributes.find? "predicate" = some operator.spelling)
    (fp64 : operation.attributes.find? "fp64_mode" = if type = .float64 then some mode else none)
    (left right : MslExpression) (unsigned : operation.attributes.find? "signed" = none) :
    TellsFloats operator combining type left right
      (compareExpression operation leftType left right) := by
  intro library relation ordered turned
  refine ⟨_, ?_, fun other => truth_eq_combined_iff (spelledTruth_eq_iff ..) combining other⟩
  unfold compareExpression
  rw [fp64, predicate]
  rcases float with rfl | rfl
  · have noCast : ∀ e, signedCast operation "signed" leftType e = e := fun e =>
      if_neg (by rw [unsigned]; simp)
    simp only [if_neg (show SetpType.float32 ≠ .float64 by decide), kind rfl, if_true, noCast,
      Option.getD_some]
    exact float32_truth valid predicate
  · exact fp64Comparison_truth ordered turned mode valid

omit known in
/-- A left operand of 32 bits is compared as a `float`. -/
theorem bitContainerOf_float {left : Operand}
    (fits : left.type = .floating 32 ∨ left.type = .integer 32) (fresh : ValueId) :
    (bitContainerOf left (.floating 32) fresh).1.type.kind = .float := by
  rcases fits with same | same
  · simp [bitContainerOf, same, IrType.floating]
  · simp [bitContainerOf, same, IrType.floating, IrType.integer, Operand.valueRef]

end Imported

theorem setp_accepted (opcode mode : String) (left right : Operand) (result : ValueId)
    (resultType : IrType) (freshLeft freshRight : ValueId) (lowerer : AstLowerer) :
    ∃ operation after statement,
      (translateSetp opcode mode left right [result] [resultType] freshLeft freshRight).getLast? =
        some operation ∧
      lowerer.lowerCompare operation = .ok (after, statement) := by
  have single : (if mentions opcode ".f64" = true then
      [resultType].map fun _ => IrType.floating 64 else [resultType]) =
      [if mentions opcode ".f64" = true then .floating 64 else resultType] := by
    split <;> rfl
  unfold translateSetp
  rw [single]
  simp only [List.getLast?_append, List.getLast?_singleton, Option.some_or]
  exact ⟨_, _, _, rfl, rfl⟩

def orderedLibrary (callee : String) (relation : Relation) : Option Bool :=
  if callee = "vf64_eq" ∨ callee = "cm_fp64_fast_eq" then some (relation == .equal)
  else if callee = "vf64_lt" ∨ callee = "cm_fp64_fast_lt" then some (relation == .less)
  else if callee = "vf64_le" ∨ callee = "cm_fp64_fast_le" then
    some (relation == .less || relation == .equal)
  else none

theorem orderedLibrary_compares : ComparesOrdered orderedLibrary where
  eq start known relation := by
    have names : ∀ start ∈ ["vf64_", "cm_fp64_fast_"],
        start ++ "eq" = "vf64_eq" ∨ start ++ "eq" = "cm_fp64_fast_eq" := by decide
    exact if_pos (names start known)
  lt start known relation := by
    have names : ∀ start ∈ ["vf64_", "cm_fp64_fast_"],
        ¬ (start ++ "lt" = "vf64_eq" ∨ start ++ "lt" = "cm_fp64_fast_eq") ∧
          (start ++ "lt" = "vf64_lt" ∨ start ++ "lt" = "cm_fp64_fast_lt") := by decide
    obtain ⟨other, own⟩ := names start known
    exact (if_neg other).trans (if_pos own)
  le start known relation := by
    have names : ∀ start ∈ ["vf64_", "cm_fp64_fast_"],
        ¬ (start ++ "le" = "vf64_eq" ∨ start ++ "le" = "cm_fp64_fast_eq") ∧
          ¬ (start ++ "le" = "vf64_lt" ∨ start ++ "le" = "cm_fp64_fast_lt") ∧
            (start ++ "le" = "vf64_le" ∨ start ++ "le" = "cm_fp64_fast_le") := by decide
    obtain ⟨other, other', own⟩ := names start known
    exact (if_neg other).trans ((if_neg other').trans (if_pos own))

/-- A variable of a byte. -/
def signByte : Locals := fun name =>
  if name = valueName 1 then some (.integer ⟨false, 8, 0xff#8⟩) else none

def equalRegisters : Locals := fun name =>
  if name = valueName 1 ∨ name = valueName 2 then some (.uint 1#32) else none

end CuMetal.Metal
