import CuMetal.Metal.MslValues
import Mathlib.Tactic.Linarith

/-!
# Integer operators of MSL on numbers

What the operators of `MslValues` compute, in terms of the numbers that their operands stand for. An
operand `Reads` a bit vector if its number agrees with the bits modulo the width of the vector, as
the operands of an instruction of that width do.
-/

namespace CuMetal.Metal

namespace IntegerValue

def toInt (x : IntegerValue) : Int := if x.signed then x.bits.toInt else x.bits.toNat

theorem converted_eq_ofInt (x : IntegerValue) (width : Nat) :
    x.converted width = BitVec.ofInt width x.toInt := by
  unfold converted toInt
  cases x.signed
  · rw [if_neg Bool.false_ne_true, if_neg Bool.false_ne_true, BitVec.ofInt_natCast,
      BitVec.ofNat_toNat]
  · rfl

variable {width : Nat} {x : IntegerValue}

theorem toInt_ofInt {n : Int} (wide : 0 < width) (low : -2 ^ (width - 1) ≤ n)
    (high : n < 2 ^ (width - 1)) : (⟨true, width, BitVec.ofInt width n⟩ : IntegerValue).toInt = n :=
  BitVec.toInt_ofInt_eq_self wide low high

theorem toInt_signed_range (signed : x.signed = true) :
    -2 ^ (x.width - 1) ≤ x.toInt ∧ x.toInt < 2 ^ (x.width - 1) := by
  rw [toInt, if_pos signed]
  exact ⟨x.bits.le_toInt, BitVec.toInt_lt⟩

theorem toInt_unsigned_range (unsigned : x.signed = false) :
    0 ≤ x.toInt ∧ x.toInt < 2 ^ x.width := by
  rw [toInt, if_neg (by simp [unsigned])]
  exact ⟨Int.natCast_nonneg _, by exact_mod_cast x.bits.isLt⟩

theorem bits_eq_zero_iff (x : IntegerValue) : x.bits = 0 ↔ x.toInt = 0 := by
  unfold toInt
  split
  · rw [← BitVec.toInt_inj]
    simp
  · rw [← BitVec.toNat_inj]
    simp

theorem toInt_converted
    (wider : if x.signed then x.width ≤ width else x.width < width) (wide : 0 < width) :
    (x.converted width).toInt = x.toInt := by
  rw [converted_eq_ofInt]
  refine BitVec.toInt_ofInt_eq_self wide ?_ ?_
  · cases signed : x.signed with
    | true =>
      rw [signed, if_pos rfl] at wider
      have power : (2 : Int) ^ (x.width - 1) ≤ 2 ^ (width - 1) :=
        pow_le_pow_right₀ (by decide) (by omega)
      linarith [(toInt_signed_range signed).1]
    | false =>
      have power : (0 : Int) < 2 ^ (width - 1) := by positivity
      linarith [(toInt_unsigned_range signed).1]
  · cases signed : x.signed with
    | true =>
      rw [signed, if_pos rfl] at wider
      have power : (2 : Int) ^ (x.width - 1) ≤ 2 ^ (width - 1) :=
        pow_le_pow_right₀ (by decide) (by omega)
      linarith [(toInt_signed_range signed).2]
    | false =>
      rw [signed, if_neg Bool.false_ne_true] at wider
      have power : (2 : Int) ^ x.width ≤ 2 ^ (width - 1) :=
        pow_le_pow_right₀ (by decide) (by omega)
      linarith [(toInt_unsigned_range signed).2]

theorem toInt_promoted (x : IntegerValue) : x.promoted.toInt = x.toInt := by
  unfold promoted
  split
  · next narrow =>
      have kept : (x.converted 32).toInt = x.toInt :=
        toInt_converted (by split <;> omega) (by decide)
      exact kept
  · rfl

theorem width_promoted (x : IntegerValue) : 32 ≤ x.promoted.width := by
  unfold promoted
  split
  · exact le_rfl
  · next wide => exact Nat.le_of_not_lt wide

theorem promoted_promoted (x : IntegerValue) : x.promoted.promoted = x.promoted :=
  promoted_of_wide (width_promoted x) _

theorem toInt_converted_common {y : IntegerValue} (wide : 32 ≤ x.width)
    (signed : x.commonSigned y = true) :
    (x.converted (x.commonWidth y)).toInt = x.toInt ∧
      (y.converted (x.commonWidth y)).toInt = y.toInt := by
  unfold commonSigned at signed
  unfold commonWidth
  constructor
  · refine toInt_converted ?_ (by omega)
    split at signed
    · rw [Bool.and_eq_true] at signed
      rw [if_pos signed.1]
      omega
    · split at signed
      · split <;> omega
      · rw [if_pos signed]
        omega
  · refine toInt_converted ?_ (by omega)
    split at signed
    · rw [Bool.and_eq_true] at signed
      rw [if_pos signed.2]
      omega
    · split at signed
      · rw [if_pos signed]
        omega
      · split <;> omega

/-- Whether a number fits the signed type of a width. -/
def Fits (width : Nat) (n : Int) : Prop := -2 ^ (width - 1) ≤ n ∧ n < 2 ^ (width - 1)

theorem converted_ofInt_of_fits {n : Int} (wide : 0 < width) (fits : Fits width n) (target : Nat) :
    (⟨true, width, BitVec.ofInt width n⟩ : IntegerValue).converted target =
      BitVec.ofInt target n := by
  rw [converted_eq_ofInt, toInt_ofInt wide fits.1 fits.2]

end IntegerValue

open IntegerValue

/-- A promoted operand stands for a number that agrees with the bits modulo their width, and an
unsigned one has their width. -/
structure Reads (x : IntegerValue) {width : Nat} (bits : BitVec width) : Prop where
  wide : 32 ≤ x.width
  own : x.signed = false → x.width = width
  low : BitVec.ofInt width x.toInt = bits
  above : -2 ^ (width - 1) ≤ x.toInt
  below : x.toInt < 2 ^ width

variable {x y : IntegerValue} {width : Nat} {a b : BitVec width} {target : Nat}

theorem Reads.setWidth (reads : Reads x a) (narrower : target ≤ width) :
    BitVec.ofInt target x.toInt = a.setWidth target := by
  have divides : (2 ^ target : Nat) ∣ 2 ^ width := pow_dvd_pow 2 narrower
  rw [← BitVec.signExtend_eq_setWidth_of_le a narrower, ← reads.low]
  apply BitVec.eq_of_toInt_eq
  change _ = (BitVec.ofInt target (BitVec.ofInt width x.toInt).toInt).toInt
  rw [BitVec.toInt_ofInt, BitVec.toInt_ofInt, BitVec.toInt_ofInt, Int.bmod_bmod_of_dvd divides]

/-- The common type of two operands is signed, or the unsigned one of the instruction's width. -/
theorem Reads.common (left : Reads x a) (right : Reads y b) :
    x.commonSigned y = true ∨ x.commonSigned y = false ∧ x.commonWidth y = width := by
  unfold commonSigned commonWidth
  cases signedLeft : x.signed with
  | false =>
    have own := left.own signedLeft
    cases signedRight : y.signed with
    | false =>
      have own' := right.own signedRight
      right
      split <;> simp <;> omega
    | true =>
      split
      · right
        simp
        omega
      · split
        · left
          rfl
        · right
          simp
          omega
  | true =>
    cases signedRight : y.signed with
    | false =>
      have own' := right.own signedRight
      split
      · right
        simp
        omega
      · split
        · right
          simp
          omega
        · left
          rfl
    | true =>
      left
      split
      · rfl
      · split <;> rfl

/-- An operand that is not negative stands for its bits as an unsigned number. -/
theorem Reads.toInt_of_nonneg (reads : Reads x a) (nonneg : 0 ≤ x.toInt) : x.toInt = a.toNat := by
  obtain ⟨n, value⟩ := Int.eq_ofNat_of_zero_le nonneg
  have bound := reads.below
  rw [value] at bound ⊢
  rw [← reads.low, value, BitVec.ofInt_natCast, BitVec.toNat_ofNat,
    Nat.mod_eq_of_lt (by exact_mod_cast bound)]

/-- A negative operand stands for the number that its bits have as a signed one. -/
theorem Reads.toInt_of_neg (reads : Reads x a) (negative : x.toInt < 0) :
    (a.toNat : Int) = x.toInt + 2 ^ width := by
  have above := reads.above
  have half : (2 : Int) ^ (width - 1) ≤ 2 ^ width := pow_le_pow_right₀ (by decide) (by omega)
  have power : ((2 ^ width : Nat) : Int) = 2 ^ width := by simp
  rw [← reads.low, BitVec.toNat_ofInt, power,
    Int.toNat_of_nonneg (Int.emod_nonneg _ (by positivity)), ← Int.add_emod_right,
    Int.emod_eq_of_lt] <;> linarith

theorem Reads.converted (reads : Reads x a) : x.converted width = a := by
  rw [converted_eq_ofInt, reads.low]

variable {operation : String} {c : Nat}

theorem integerBinary_of_plain (left : Reads x a) (right : Reads y b)
    (plain : shift operation x y = none) :
    integerBinary operation x y =
      operateAt operation (x.commonSigned y) (x.commonWidth y) x y := by
  unfold integerBinary
  rw [show x.promoted = x from promoted_of_wide left.wide x.bits,
    show y.promoted = y from promoted_of_wide right.wide y.bits]
  simp [plain]

/-- What an operator does at the common type of its operands: at a signed type on their numbers, at
an unsigned one on the bits of the instruction. -/
theorem integerBinary_cases (left : Reads x a) (right : Reads y b)
    (plain : shift operation x y = none) :
    (x.commonSigned y = true ∧ ∃ c, c = x.commonWidth y ∧ 32 ≤ c ∧ ∃ p q : BitVec c,
        p.toInt = x.toInt ∧ q.toInt = y.toInt ∧ p = BitVec.ofInt c x.toInt ∧
        q = BitVec.ofInt c y.toInt ∧
        integerBinary operation x y =
          match arithmetic operation true p q with
          | some bits => some (.integer ⟨true, c, bits⟩)
          | none => (comparison operation true p q).map .bool) ∨
      x.commonSigned y = false ∧
        integerBinary operation x y =
          match arithmetic operation false a b with
          | some bits => some (.integer ⟨false, width, bits⟩)
          | none => (comparison operation false a b).map .bool := by
  rw [integerBinary_of_plain left right plain]
  rcases left.common right with signed | ⟨unsigned, own⟩
  · refine .inl ⟨signed, _, rfl, le_max_of_le_left left.wide, _, _,
      (toInt_converted_common left.wide signed).1, (toInt_converted_common left.wide signed).2,
      converted_eq_ofInt .., converted_eq_ofInt .., ?_⟩
    rw [signed]
    rfl
  · refine .inr ⟨unsigned, ?_⟩
    rw [unsigned, own, ← left.converted, ← right.converted]
    rfl

/-- An operator that is one on numbers, modulo every power of two. -/
structure RingOperator (operation : String) (onInt : Int → Int → Int)
    (onBits : ∀ {w : Nat}, BitVec w → BitVec w → BitVec w) : Prop where
  plain : ∀ x y, shift operation x y = none
  unsigned : ∀ {w : Nat} (p q : BitVec w), arithmetic operation false p q = some (onBits p q)
  signed : ∀ {w : Nat} (p q : BitVec w), Fits w (onInt p.toInt q.toInt) →
    arithmetic operation true p q = some (onBits p q)
  ofInt : ∀ (w : Nat) (m n : Int),
    onBits (BitVec.ofInt w m) (BitVec.ofInt w n) = BitVec.ofInt w (onInt m n)

theorem ringOperator_add : RingOperator "+" (· + ·) (· + ·) where
  plain _ _ := rfl
  unsigned _ _ := rfl
  signed p q fits := by
    have none_ : p.saddOverflow q = false := by
      simp [BitVec.saddOverflow, fits.1, fits.2]
    simp [arithmetic, none_]
  ofInt _ m n := (BitVec.ofInt_add m n).symm

theorem ringOperator_sub : RingOperator "-" (· - ·) (· - ·) where
  plain _ _ := rfl
  unsigned _ _ := rfl
  signed p q fits := by
    have none_ : p.ssubOverflow q = false := by
      simp [BitVec.ssubOverflow, fits.1, fits.2]
    simp [arithmetic, none_]
  ofInt _ m n := by
    rw [Int.sub_eq_add_neg, BitVec.ofInt_add, BitVec.ofInt_neg, BitVec.sub_eq_add_neg]

theorem ringOperator_mul : RingOperator "*" (· * ·) (· * ·) where
  plain _ _ := rfl
  unsigned _ _ := rfl
  signed p q fits := by
    have none_ : p.smulOverflow q = false := by
      simp [BitVec.smulOverflow, fits.1, fits.2]
    simp [arithmetic, none_]
  ofInt _ m n := (BitVec.ofInt_mul m n).symm

variable {onBits : ∀ {w : Nat}, BitVec w → BitVec w → BitVec w}

/-- Addition, subtraction and multiplication, where a signed result fits. -/
theorem RingOperator.value {onInt : Int → Int → Int} (ring : RingOperator operation onInt onBits)
    (left : Reads x a) (right : Reads y b)
    (fits : x.commonSigned y = true → Fits (x.commonWidth y) (onInt x.toInt y.toInt)) :
    ∃ v, integerBinary operation x y = some (.integer v) ∧ v.converted width = onBits a b := by
  rcases integerBinary_cases left right (ring.plain x y) with
    ⟨signed, c, rfl, wide, p, q, numberLeft, numberRight, rfl, rfl, same⟩ | ⟨_, same⟩
  · rw [ring.signed _ _ (by rw [numberLeft, numberRight]; exact fits signed)] at same
    refine ⟨_, same, ?_⟩
    rw [ring.ofInt, converted_ofInt_of_fits (by omega) (fits signed), ← ring.ofInt, left.low,
      right.low]
  · rw [ring.unsigned] at same
    exact ⟨_, same, converted_self _⟩

/-- An operator that works bit by bit. -/
structure BitOperator (operation : String)
    (onBits : ∀ {w : Nat}, BitVec w → BitVec w → BitVec w) : Prop where
  plain : ∀ x y, shift operation x y = none
  value : ∀ (signed : Bool) {w : Nat} (p q : BitVec w),
    arithmetic operation signed p q = some (onBits p q)
  signExtend : ∀ {w v : Nat} (p q : BitVec w),
    (onBits p q).signExtend v = onBits (p.signExtend v) (q.signExtend v)

theorem bitOperator_and : BitOperator "&" (· &&& ·) :=
  ⟨fun _ _ => rfl, fun _ _ _ _ => rfl, fun _ _ => BitVec.signExtend_and⟩

theorem bitOperator_or : BitOperator "|" (· ||| ·) :=
  ⟨fun _ _ => rfl, fun _ _ _ _ => rfl, fun _ _ => BitVec.signExtend_or⟩

theorem bitOperator_xor : BitOperator "^" (· ^^^ ·) :=
  ⟨fun _ _ => rfl, fun _ _ _ _ => rfl, fun _ _ => BitVec.signExtend_xor⟩

theorem BitOperator.result (bitwise : BitOperator operation onBits) (left : Reads x a)
    (right : Reads y b) :
    ∃ v, integerBinary operation x y = some (.integer v) ∧ v.converted width = onBits a b := by
  rcases integerBinary_cases left right (bitwise.plain x y) with
    ⟨_, c, rfl, _, p, q, numberLeft, numberRight, _, _, same⟩ | ⟨_, same⟩
  · rw [bitwise.value] at same
    refine ⟨_, same, ?_⟩
    change (onBits p q).signExtend width = _
    rw [bitwise.signExtend, BitVec.signExtend, BitVec.signExtend, numberLeft, numberRight, left.low,
      right.low]
  · rw [bitwise.value] at same
    exact ⟨_, same, converted_self _⟩

/-- A promoted operand that was cast to the signed type of the instruction's width. -/
structure SignedReads (x : IntegerValue) {width : Nat} (bits : BitVec width) : Prop where
  wide : 32 ≤ x.width
  signed : x.signed = true
  widened : width ≤ x.width
  number : x.toInt = bits.toInt

theorem SignedReads.reads (reads : SignedReads x a) : Reads x a where
  wide := reads.wide
  own unsigned := by simp [reads.signed] at unsigned
  low := by rw [reads.number, BitVec.ofInt_toInt]
  above := by
    rw [reads.number]
    exact a.le_toInt
  below := by
    rw [reads.number]
    exact lt_of_lt_of_le BitVec.toInt_lt (pow_le_pow_right₀ (by decide) (by omega))

theorem SignedReads.common (left : SignedReads x a) (right : SignedReads y b) :
    x.commonSigned y = true := by
  simp [commonSigned, left.signed, right.signed]

/-- The quotient or the remainder of a division. -/
structure DivisionOperator (operation : String) (onInt : Int → Int → Int)
    (unsigned signed : ∀ {w : Nat}, BitVec w → BitVec w → BitVec w) : Prop where
  plain : ∀ x y, shift operation x y = none
  value : ∀ (s : Bool) {w : Nat} (p q : BitVec w), q ≠ 0 → ¬ (s && p.sdivOverflow q) = true →
    arithmetic operation s p q = some (if s then signed p q else unsigned p q)
  toInt : ∀ {w : Nat} (p q : BitVec w), 0 < w → p.sdivOverflow q = false →
    (signed p q).toInt = onInt p.toInt q.toInt
  toNat : ∀ {w : Nat} (p q : BitVec w), onInt p.toNat q.toNat = (unsigned p q).toNat

theorem divisionOperator_div : DivisionOperator "/" Int.tdiv (· / ·) BitVec.sdiv where
  plain _ _ := rfl
  value s _ p q nonzero fits := by
    change (if q = 0 then none else if (s && p.sdivOverflow q) = true then none else _) = _
    rw [if_neg nonzero, if_neg fits]
  toInt p q wide fits := by
    refine BitVec.toInt_sdiv_of_ne_or_ne p q ?_
    rw [BitVec.sdivOverflow_eq] at fits
    by_contra both
    rw [not_or, not_not, not_not, BitVec.neg_one_eq_allOnes] at both
    simp [both, wide] at fits
  toNat p q := by rw [BitVec.toNat_udiv, Int.ofNat_tdiv]

theorem divisionOperator_rem : DivisionOperator "%" Int.tmod (· % ·) BitVec.srem where
  plain _ _ := rfl
  value s _ p q nonzero fits := by
    change (if q = 0 then none else if (s && p.sdivOverflow q) = true then none else _) = _
    rw [if_neg nonzero, if_neg fits]
  toInt p q _ _ := BitVec.toInt_srem p q
  toNat p q := by rw [BitVec.toNat_umod, Int.ofNat_tmod]

variable {p q : BitVec c}

theorem nonneg_divides (nonzero : b ≠ 0) (numberLeft : p.toInt = a.toNat)
    (numberRight : q.toInt = b.toNat) : q ≠ 0 ∧ p.sdivOverflow q = false := by
  have positive : 0 < b.toNat := pos_of_ne_zero fun zero =>
    nonzero (BitVec.eq_of_toNat_eq (by simpa using zero))
  constructor
  · rintro rfl
    simp at numberRight
    omega
  · have bound : p.toInt < 2 ^ (c - 1) := BitVec.toInt_lt
    have quotient : ((a.toNat / b.toNat : Nat) : Int) ≤ a.toNat := by
      exact_mod_cast Nat.div_le_self _ _
    have low := Int.natCast_nonneg (a.toNat / b.toNat)
    have power : (0 : Int) < 2 ^ (c - 1) := by positivity
    rw [numberLeft] at bound
    simp only [BitVec.sdivOverflow, numberLeft, numberRight, Bool.or_eq_false_iff,
      decide_eq_false_iff_not, ← Int.natCast_ediv]
    constructor <;> linarith

section Division

variable {onInt : Int → Int → Int} {unsigned signed : ∀ {w : Nat}, BitVec w → BitVec w → BitVec w}
  (divide : DivisionOperator operation onInt unsigned signed)

include divide

/-- Unsigned division, where no operand is negative at a signed common type. -/
theorem DivisionOperator.unsigned_value (left : Reads x a) (right : Reads y b) (nonzero : b ≠ 0)
    (nonneg : x.commonSigned y = true → 0 ≤ x.toInt ∧ 0 ≤ y.toInt) :
    ∃ v, integerBinary operation x y = some (.integer v) ∧ v.converted width = unsigned a b := by
  rcases integerBinary_cases left right (divide.plain x y) with
    ⟨common, c, rfl, wide, p, q, numberLeft, numberRight, _, _, same⟩ | ⟨_, same⟩
  · obtain ⟨low, low'⟩ := nonneg common
    rw [left.toInt_of_nonneg low] at numberLeft
    rw [right.toInt_of_nonneg low'] at numberRight
    obtain ⟨divisor, fits⟩ := nonneg_divides nonzero numberLeft numberRight
    rw [divide.value true p q divisor (by simp [fits]), if_pos rfl] at same
    refine ⟨_, same, ?_⟩
    rw [converted_eq_ofInt]
    change BitVec.ofInt width (signed p q).toInt = _
    rw [divide.toInt p q (by omega) fits, numberLeft, numberRight, divide.toNat,
      BitVec.ofInt_natCast, BitVec.ofNat_toNat, BitVec.setWidth_eq]
  · rw [divide.value false a b nonzero (by simp), if_neg Bool.false_ne_true] at same
    exact ⟨_, same, converted_self _⟩

omit divide in
theorem signed_divides (wider : width ≤ c) (nonzero : b ≠ 0) (fits : a.sdivOverflow b = false)
    (numberLeft : p.toInt = a.toInt) (numberRight : q.toInt = b.toInt) :
    q ≠ 0 ∧ p.sdivOverflow q = false := by
  constructor
  · rintro rfl
    refine nonzero (BitVec.eq_of_toInt_eq ?_)
    rw [← numberRight]
    simp
  · simp only [BitVec.sdivOverflow, Bool.or_eq_false_iff, decide_eq_false_iff_not] at fits ⊢
    have power : (2 : Int) ^ (width - 1) ≤ 2 ^ (c - 1) :=
      pow_le_pow_right₀ (by decide) (by omega)
    rw [numberLeft, numberRight]
    constructor
    · linarith [fits.1]
    · linarith [fits.2]

theorem DivisionOperator.signed_value (left : SignedReads x a) (right : SignedReads y b)
    (nonzero : b ≠ 0) (fits : a.sdivOverflow b = false) :
    ∃ v, integerBinary operation x y = some (.integer v) ∧ v.converted width = signed a b := by
  rcases integerBinary_cases left.reads right.reads (divide.plain x y) with
    ⟨_, c, rfl, wide, p, q, numberLeft, numberRight, _, _, same⟩ | ⟨unsigned, _⟩
  · rw [left.number] at numberLeft
    rw [right.number] at numberRight
    have wider : width ≤ x.commonWidth y := le_max_of_le_left left.widened
    obtain ⟨divisor, within⟩ := signed_divides wider nonzero fits numberLeft numberRight
    rw [divide.value true p q divisor (by simp [within]), if_pos rfl] at same
    refine ⟨_, same, ?_⟩
    rw [converted_eq_ofInt]
    change BitVec.ofInt width (signed p q).toInt = _
    rw [divide.toInt p q (by omega) within, numberLeft, numberRight]
    rcases eq_zero_or_pos width with rfl | positive
    · exact Subsingleton.elim _ _
    · rw [← divide.toInt a b positive fits, BitVec.ofInt_toInt]
  · rw [left.common right] at unsigned
    cases unsigned

end Division

/-! ### Shifts -/

theorem ofInt_shiftLeft (c : Nat) (m : Int) (n : Nat) :
    BitVec.ofInt c m <<< n = BitVec.ofInt c (m * 2 ^ n) := by
  have power : BitVec.twoPow c n = BitVec.ofInt c (2 ^ n) := by
    apply BitVec.eq_of_toNat_eq
    rw [BitVec.toNat_twoPow, show ((2 : Int) ^ n) = ((2 ^ n : Nat) : Int) by simp,
      BitVec.ofInt_natCast, BitVec.toNat_ofNat]
  rw [BitVec.shiftLeft_eq_mul_twoPow, power, ← BitVec.ofInt_mul]

theorem ofInt_toInt (x : IntegerValue) : BitVec.ofInt x.width x.toInt = x.bits := by
  rw [← converted_eq_ofInt]
  exact converted_self x.bits

theorem converted_ofInt_of_le (signed : Bool) (narrower : target ≤ c) (m : Int) :
    (⟨signed, c, BitVec.ofInt c m⟩ : IntegerValue).converted target = BitVec.ofInt target m := by
  have narrowed : (BitVec.ofInt c m).setWidth target = BitVec.ofInt target m := by
    have positive : ∀ k : Nat, ((2 ^ k : Nat) : Int) ≠ 0 := by simp
    have divides : ((2 ^ target : Nat) : Int) ∣ ((2 ^ c : Nat) : Int) := by
      exact_mod_cast pow_dvd_pow 2 narrower
    apply BitVec.eq_of_toNat_eq
    zify
    rw [BitVec.toNat_setWidth, BitVec.toNat_ofInt, BitVec.toNat_ofInt, Int.natCast_emod,
      Int.toNat_of_nonneg (Int.emod_nonneg _ (positive _)),
      Int.toNat_of_nonneg (Int.emod_nonneg _ (positive _)), Int.emod_emod_of_dvd _ divides]
  unfold converted
  cases signed
  · exact narrowed
  · exact (BitVec.signExtend_eq_setWidth_of_le _ narrower).trans narrowed

theorem Reads.amount (right : Reads y b) (defined : b.toNat < width) :
    y.bits.toNat = b.toNat := by
  have nonneg : 0 ≤ y.toInt := by
    by_contra negative
    have wrapped := right.toInt_of_neg (not_le.mp negative)
    have half : (2 : Int) ^ width = 2 * 2 ^ (width - 1) := by
      rw [← pow_succ', Nat.sub_add_cancel (by omega)]
    have large : ((width - 1 : Nat) : Int) < 2 ^ (width - 1) := by
      exact_mod_cast Nat.lt_two_pow_self
    have above := right.above
    omega
  have number := right.toInt_of_nonneg nonneg
  unfold toInt at number
  split at number
  · rw [BitVec.toInt_eq_toNat_cond] at number
    split at number
    · exact_mod_cast number
    · have := y.bits.isLt
      omega
  · exact_mod_cast number

theorem integerBinary_of_shift {amount : Nat} {result : IntegerValue}
    (left : Reads x a) (right : Reads y b) (amounts : y.bits.toNat % x.width = amount)
    (shifted : ∀ y : IntegerValue, y.bits.toNat % x.width = amount →
      shift operation x y = some result) :
    integerBinary operation x y = some (.integer result) := by
  unfold integerBinary
  rw [show x.promoted = x from promoted_of_wide left.wide x.bits,
    show y.promoted = y from promoted_of_wide right.wide y.bits]
  simp [shifted y amounts]

/-- A shift to the left, where the type of the left operand holds the result or is wide enough. -/
theorem shl_value (left : Reads x a) (right : Reads y b) (defined : b.toNat < width)
    (amount : b.toNat < x.width)
    (holds : width ≤ x.width ∨ Fits x.width (x.toInt * 2 ^ b.toNat)) :
    ∃ v, integerBinary "<<" x y = some (.integer v) ∧ v.converted width = a <<< b.toNat := by
  have places : y.bits.toNat % x.width = b.toNat := by
    rw [right.amount defined, Nat.mod_eq_of_lt amount]
  refine ⟨{ x with bits := x.bits <<< b.toNat },
    integerBinary_of_shift left right places fun y same => by simp [shift, same], ?_⟩
  rw [← left.low, ofInt_shiftLeft, ← ofInt_toInt x, ofInt_shiftLeft]
  rcases holds with narrower | fits
  · exact converted_ofInt_of_le _ narrower _
  · cases signed : x.signed with
    | true => exact converted_ofInt_of_fits (by have := left.wide; omega) fits _
    | false => exact converted_ofInt_of_le _ (left.own signed).ge _

theorem lshr_value (left : Reads x a) (right : Reads y b) (defined : b.toNat < width)
    (holds : b.toNat = 0 ∨ b.toNat < x.width ∧ 0 ≤ x.toInt) :
    ∃ v, integerBinary ">>" x y = some (.integer v) ∧ v.converted width = a >>> b.toNat := by
  have positive := left.wide
  have amount : b.toNat < x.width := by omega
  have places : y.bits.toNat % x.width = b.toNat := by
    rw [right.amount defined, Nat.mod_eq_of_lt amount]
  refine ⟨_, integerBinary_of_shift left right places fun y same => by
    simp only [shift, same]; rfl, ?_⟩
  rcases holds with zero | ⟨_, nonneg⟩
  · have same : (if x.signed = true then x.bits.sshiftRight b.toNat else x.bits >>> b.toNat) =
        x.bits := by simp [zero]
    rw [same, zero, BitVec.ushiftRight_zero]
    exact left.converted
  · have number := left.toInt_of_nonneg nonneg
    have result : (⟨x.signed, x.width, if x.signed = true then x.bits.sshiftRight b.toNat
        else x.bits >>> b.toNat⟩ : IntegerValue).toInt = (a.toNat >>> b.toNat : Nat) := by
      unfold toInt at number ⊢
      cases signed : x.signed with
      | true =>
        rw [signed, if_pos rfl] at number
        simp only [if_true]
        rw [BitVec.toInt_sshiftRight, number]
        rfl
      | false =>
        rw [signed, if_neg Bool.false_ne_true] at number
        have same : x.bits.toNat = a.toNat := by exact_mod_cast number
        simp [same]
    rw [converted_eq_ofInt, result, BitVec.ofInt_natCast]
    apply BitVec.eq_of_toNat_eq
    rw [BitVec.toNat_ofNat, BitVec.toNat_ushiftRight, Nat.mod_eq_of_lt]
    exact lt_of_le_of_lt (Nat.shiftRight_le _ _) a.isLt

theorem ashr_value (left : SignedReads x a) (right : SignedReads y b) (defined : b.toNat < width) :
    ∃ v, integerBinary ">>" x y = some (.integer v) ∧ v.converted width =
      a.sshiftRight b.toNat := by
  have wider := left.widened
  have places : y.bits.toNat % x.width = b.toNat := by
    rw [right.reads.amount defined, Nat.mod_eq_of_lt (by omega)]
  refine ⟨{ x with bits := x.bits.sshiftRight b.toNat },
    integerBinary_of_shift left.reads right.reads places fun y same => by
      simp [shift, same, left.signed], ?_⟩
  rw [converted_eq_ofInt]
  have result : ({ x with bits := x.bits.sshiftRight b.toNat } : IntegerValue).toInt =
      a.toInt >>> b.toNat := by
    have number := left.number
    unfold toInt at number ⊢
    rw [left.signed, if_pos rfl] at number
    simp only [left.signed, if_true]
    rw [BitVec.toInt_sshiftRight, number]
  rw [result]
  rfl

/-- A comparison of numbers. -/
structure ComparisonOperator (operation : String) (onInt : Int → Int → Bool) : Prop where
  plain : ∀ x y, shift operation x y = none
  compares : ∀ (signed : Bool) {w : Nat} (p q : BitVec w), arithmetic operation signed p q = none
  signed : ∀ {w : Nat} (p q : BitVec w),
    comparison operation true p q = some (onInt p.toInt q.toInt)
  unsigned : ∀ {w : Nat} (p q : BitVec w),
    comparison operation false p q = some (onInt p.toNat q.toNat)
  shifts : ∀ m n k : Int, onInt (m + k) (n + k) = onInt m n

theorem comparisonOperator_eq : ComparisonOperator "==" (fun m n => decide (m = n)) where
  plain _ _ := rfl
  compares _ _ _ _ := rfl
  signed p q := by
    change some (p == q) = _
    rw [beq_eq_decide, decide_eq_decide.mpr BitVec.toInt_inj.symm]
  unsigned p q := by
    change some (p == q) = _
    rw [beq_eq_decide, decide_eq_decide.mpr (BitVec.toNat_inj.symm.trans Int.natCast_inj.symm)]
  shifts _ _ _ := by simp

theorem comparisonOperator_ne : ComparisonOperator "!=" (fun m n => decide (m ≠ n)) where
  plain _ _ := rfl
  compares _ _ _ _ := rfl
  signed p q := by
    change some (!(p == q)) = _
    rw [beq_eq_decide, decide_eq_decide.mpr BitVec.toInt_inj.symm, decide_not]
  unsigned p q := by
    change some (!(p == q)) = _
    rw [beq_eq_decide, decide_eq_decide.mpr (BitVec.toNat_inj.symm.trans Int.natCast_inj.symm),
      decide_not]
  shifts _ _ _ := by simp

theorem comparisonOperator_lt : ComparisonOperator "<" (fun m n => decide (m < n)) where
  plain _ _ := rfl
  compares _ _ _ _ := rfl
  signed _ _ := rfl
  unsigned p q := by
    change some (decide (p.toNat < q.toNat)) = _
    rw [decide_eq_decide.mpr Int.ofNat_lt.symm]
  shifts _ _ _ := by simp

theorem comparisonOperator_le : ComparisonOperator "<=" (fun m n => decide (m ≤ n)) where
  plain _ _ := rfl
  compares _ _ _ _ := rfl
  signed _ _ := rfl
  unsigned p q := by
    change some (decide (p.toNat ≤ q.toNat)) = _
    rw [decide_eq_decide.mpr Int.ofNat_le.symm]
  shifts _ _ _ := by simp

theorem comparisonOperator_gt : ComparisonOperator ">" (fun m n => decide (n < m)) where
  plain _ _ := rfl
  compares _ _ _ _ := rfl
  signed _ _ := rfl
  unsigned p q := by
    change some (decide (q.toNat < p.toNat)) = _
    rw [decide_eq_decide.mpr Int.ofNat_lt.symm]
  shifts _ _ _ := by simp

theorem comparisonOperator_ge : ComparisonOperator ">=" (fun m n => decide (n ≤ m)) where
  plain _ _ := rfl
  compares _ _ _ _ := rfl
  signed _ _ := rfl
  unsigned p q := by
    change some (decide (q.toNat ≤ p.toNat)) = _
    rw [decide_eq_decide.mpr Int.ofNat_le.symm]
  shifts _ _ _ := by simp

variable {operation : String} {onInt : Int → Int → Bool}

/-- An unsigned comparison, where the operands have one sign at a signed common type. -/
theorem ComparisonOperator.unsigned_value (compare : ComparisonOperator operation onInt)
    (left : Reads x a) (right : Reads y b)
    (sameSign : x.commonSigned y = true → (0 ≤ x.toInt ↔ 0 ≤ y.toInt)) :
    integerBinary operation x y = some (.bool (onInt a.toNat b.toNat)) := by
  rcases integerBinary_cases left right (compare.plain x y) with
    ⟨signed, c, rfl, wide, p, q, numberLeft, numberRight, _, _, same⟩ | ⟨_, same⟩
  · rw [same, compare.compares, compare.signed, numberLeft, numberRight]
    by_cases nonneg : 0 ≤ x.toInt
    · rw [left.toInt_of_nonneg nonneg, right.toInt_of_nonneg ((sameSign signed).mp nonneg)]
      rfl
    · have negative := fun low => nonneg ((sameSign signed).mpr low)
      rw [left.toInt_of_neg (not_le.mp nonneg), right.toInt_of_neg (not_le.mp negative),
        compare.shifts]
      rfl
  · rw [same, compare.compares, compare.unsigned]
    rfl

theorem ComparisonOperator.signed_value (compare : ComparisonOperator operation onInt)
    (left : SignedReads x a) (right : SignedReads y b) :
    integerBinary operation x y = some (.bool (onInt a.toInt b.toInt)) := by
  rcases integerBinary_cases left.reads right.reads (compare.plain x y) with
    ⟨_, c, rfl, _, p, q, numberLeft, numberRight, _, _, same⟩ | ⟨unsigned, _⟩
  · rw [same, compare.compares, compare.signed, numberLeft, numberRight, left.number,
      right.number]
    rfl
  · rw [left.common right] at unsigned
    cases unsigned

end CuMetal.Metal
