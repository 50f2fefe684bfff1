import Mathlib.Algebra.Group.Nat.Defs
import Mathlib.Data.List.Basic
import Mathlib.Data.List.Induction

/-!
# Numerals

The integer that a text starts with, and the same digits read to two bases.
-/

namespace CuMetal.Numerals

open List

def leadingNat (text : List Char) : Option Nat :=
  if text.takeWhile Char.isDigit = [] then none
  else some (Nat.ofDigitChars 10 (text.takeWhile Char.isDigit) 0)

def leadingInt : List Char → Option Int
  | '-' :: text => (leadingNat text).map fun n : Nat => -(n : Int)
  | '+' :: text => (leadingNat text).map fun n : Nat => (n : Int)
  | text => (leadingNat text).map fun n : Nat => (n : Int)

variable {digits text : List Char} {c : Char}

theorem leadingNat_digits {rest : List Char} (nonempty : digits ≠ [])
    (all : ∀ c ∈ digits, c.isDigit = true) (ends : ∀ c ∈ rest.head?, c.isDigit = false) :
    leadingNat (digits ++ rest) = some (Nat.ofDigitChars 10 digits 0) := by
  have taken : (digits ++ rest).takeWhile Char.isDigit = digits := by
    rw [takeWhile_append_of_pos all]
    cases rest with
    | nil => simp
    | cons c rest => simp [ends c rfl]
  rw [leadingNat, taken, if_neg nonempty]

theorem leadingNat_of_head (other : c.isDigit = false) : leadingNat (c :: text) = none := by
  simp [leadingNat, other]

theorem leadingInt_of_head (minus : c ≠ '-') (plus : c ≠ '+') :
    leadingInt (c :: text) = (leadingNat (c :: text)).map fun n : Nat => (n : Int) := by
  unfold leadingInt
  split
  · next same => exact absurd (cons.inj same).1 minus
  · next same => exact absurd (cons.inj same).1 plus
  · rfl

theorem isDigit_toDigits {n : Nat} (mem : c ∈ Nat.toDigits 10 n) : c.isDigit = true :=
  Nat.isDigit_of_mem_toDigits (by decide) (by decide) mem

theorem leadingNat_toString (n : Nat) : leadingNat (toString n).toList = some n := by
  have read : leadingNat (Nat.toDigits 10 n ++ []) = _ :=
    leadingNat_digits Nat.toDigits_ne_nil (fun c mem => isDigit_toDigits mem) (by simp)
  rw [append_nil, Nat.ofDigitChars_ten_toDigits] at read
  rw [Nat.toString_eq_ofList_toDigits, String.toList_ofList, read]

theorem leadingInt_toString (n : Int) : leadingInt (toString n).toList = some n := by
  cases n with
  | ofNat n =>
    have read := leadingNat_toString n
    have same : (toString (Int.ofNat n)).toList = (toString n).toList := rfl
    rw [same]
    cases letters : (toString n).toList with
    | nil => simp only [letters, leadingNat, takeWhile_nil, if_true, reduceCtorEq] at read
    | cons c text =>
      have digit : c.isDigit = true := by
        apply isDigit_toDigits (n := n)
        rw [Nat.toString_eq_ofList_toDigits, String.toList_ofList] at letters
        rw [letters]
        exact mem_cons_self
      have minus : c ≠ '-' := by
        rintro rfl
        exact absurd digit (by decide)
      have plus : c ≠ '+' := by
        rintro rfl
        exact absurd digit (by decide)
      rw [leadingInt_of_head minus plus, ← letters, read]
      rfl
  | negSucc n =>
    have same : (toString (Int.negSucc n)).toList = '-' :: (toString (n + 1)).toList := by
      show ("-" ++ toString (n + 1)).toList = _
      simp
    rw [same, leadingInt, leadingNat_toString]
    rfl

variable {b b' : Nat} {m : Nat}

theorem ofDigitChars_le (bases : b ≤ b') (digits : List Char) {m' : Nat} (start : m ≤ m') :
    Nat.ofDigitChars b digits m ≤ Nat.ofDigitChars b' digits m' := by
  induction digits generalizing m m' with
  | nil => simpa using start
  | cons c digits ih =>
    rw [Nat.ofDigitChars_cons, Nat.ofDigitChars_cons]
    exact ih (Nat.add_le_add_right (Nat.mul_le_mul bases start) _)

theorem ofDigitChars_lt_of_lt (bases : b ≤ b') (positive : 0 < b') (digits : List Char) {m' : Nat}
    (less : m < m') : Nat.ofDigitChars b digits m < Nat.ofDigitChars b' digits m' := by
  induction digits generalizing m m' with
  | nil => simpa using less
  | cons c digits ih =>
    rw [Nat.ofDigitChars_cons, Nat.ofDigitChars_cons]
    apply ih
    have scaled : b * m < b' * m' :=
      Nat.lt_of_le_of_lt (Nat.mul_le_mul_right m bases) (Nat.mul_lt_mul_of_pos_left less positive)
    omega

theorem ofDigitChars_lt (bases : b < b') (nonempty : digits ≠ []) (start : 0 < m) :
    Nat.ofDigitChars b digits m < Nat.ofDigitChars b' digits m := by
  obtain ⟨c, digits, rfl⟩ := exists_cons_of_ne_nil nonempty
  rw [Nat.ofDigitChars_cons, Nat.ofDigitChars_cons]
  apply ofDigitChars_lt_of_lt (Nat.le_of_lt bases) (by omega)
  have scaled : b * m < b' * m := Nat.mul_lt_mul_of_pos_right bases start
  omega

theorem self_le_ofDigitChars (base : 0 < b) (digits : List Char) (m : Nat) :
    m ≤ Nat.ofDigitChars b digits m := by
  induction digits generalizing m with
  | nil => simp
  | cons c digits ih =>
    rw [Nat.ofDigitChars_cons]
    have scaled : m ≤ b * m := Nat.le_mul_of_pos_left m base
    exact Nat.le_trans (by omega) (ih _)

theorem le_ofDigitChars (base : 0 < b) (nonempty : digits ≠ []) (m : Nat) :
    b * m ≤ Nat.ofDigitChars b digits m := by
  obtain ⟨c, digits, rfl⟩ := exists_cons_of_ne_nil nonempty
  rw [Nat.ofDigitChars_cons]
  exact Nat.le_trans (Nat.le_add_right ..) (self_le_ofDigitChars base digits _)

/-- Digits mean the same to both bases exactly when the number is a single digit. -/
theorem ofDigitChars_eq_iff (base : 0 < b) (bases : b < b') (digits : List Char)
    (all : ∀ c ∈ digits, c.toNat - '0'.toNat < b) :
    Nat.ofDigitChars b digits 0 = Nat.ofDigitChars b' digits 0 ↔
      Nat.ofDigitChars b digits 0 < b := by
  induction digits with
  | nil => simpa using base
  | cons c digits ih =>
    have digit := all c mem_cons_self
    rw [Nat.ofDigitChars_cons, Nat.ofDigitChars_cons, Nat.mul_zero, Nat.mul_zero, zero_add]
    by_cases zero : c.toNat - '0'.toNat = 0
    · rw [zero]
      exact ih fun c mem => all c (mem_cons_of_mem _ mem)
    · have positive : 0 < c.toNat - '0'.toNat := Nat.pos_of_ne_zero zero
      cases digits with
      | nil => simpa using digit
      | cons d digits =>
        have more := ofDigitChars_lt bases (cons_ne_nil d digits) positive
        have large := le_ofDigitChars base (cons_ne_nil d digits) (c.toNat - '0'.toNat)
        have scaled : b ≤ b * (c.toNat - '0'.toNat) := Nat.le_mul_of_pos_right b positive
        constructor
        · intro same
          omega
        · intro small
          omega

theorem isDigit_toNat (digit : c.isDigit = true) :
    c.toNat - '0'.toNat < 10 ∧ (c.toNat - '0'.toNat).digitChar = c := by
  have bounds : 48 ≤ c.toNat ∧ c.toNat ≤ 57 := by
    simpa [Char.isDigit, UInt32.le_iff_toNat_le] using digit
  have less : c.toNat - '0'.toNat < 10 := by
    have zero : '0'.toNat = 48 := rfl
    omega
  refine ⟨less, Char.toNat_inj.mp ?_⟩
  rw [Nat.toNat_digitChar_of_lt_ten less]
  have zero : '0'.toNat = 48 := rfl
  omega

theorem head_toDigits {n : Nat} (positive : 0 < n) : (Nat.toDigits 10 n).head? ≠ some '0' := by
  induction n using Nat.strongRecOn with
  | ind n ih =>
    by_cases small : n < 10
    · rw [Nat.toDigits_of_lt_base small]
      simp only [head?_cons, ne_eq, Option.some.injEq, Nat.digitChar_eq_zero]
      exact Nat.pos_iff_ne_zero.mp positive
    · rw [Nat.toDigits_of_base_le (by decide) (Nat.le_of_not_lt small),
        head?_append_of_ne_nil _ Nat.toDigits_ne_nil]
      exact ih (n / 10) (by omega) (by omega)

theorem ofDigitChars_pos (nonempty : digits ≠ []) (all : ∀ c ∈ digits, c.isDigit = true)
    (head : digits.head? ≠ some '0') : 0 < Nat.ofDigitChars 10 digits 0 := by
  obtain ⟨c, digits, rfl⟩ := exists_cons_of_ne_nil nonempty
  have digit := isDigit_toNat (all c mem_cons_self)
  have positive : c.toNat - '0'.toNat ≠ 0 := by
    intro zero
    rw [zero] at digit
    exact head (congrArg some digit.2.symm)
  rw [Nat.ofDigitChars_cons, Nat.mul_zero, zero_add]
  exact Nat.lt_of_lt_of_le (Nat.pos_of_ne_zero positive) (self_le_ofDigitChars (by decide) digits _)

theorem toDigits_ofDigitChars (nonempty : digits ≠ []) (all : ∀ c ∈ digits, c.isDigit = true)
    (head : digits.head? ≠ some '0') : Nat.toDigits 10 (Nat.ofDigitChars 10 digits 0) = digits := by
  induction digits using reverseRecOn with
  | nil => exact absurd rfl nonempty
  | append_singleton digits c ih =>
    have digit := isDigit_toNat (all c (by simp))
    rw [Nat.ofDigitChars_append, Nat.ofDigitChars_cons, Nat.ofDigitChars_nil]
    by_cases first : digits = []
    · rw [first, Nat.ofDigitChars_nil, Nat.mul_zero, zero_add,
        Nat.toDigits_of_lt_base digit.1, digit.2, nil_append]
    · have before : ∀ c ∈ digits, c.isDigit = true := fun c member =>
        all c (mem_append_left _ member)
      rw [head?_append_of_ne_nil _ first] at head
      rw [← Nat.toDigits_append_toDigits (by decide) (ofDigitChars_pos first before head) digit.1,
        ih first before head, Nat.toDigits_of_lt_base digit.1, digit.2]

theorem ofDigitChars_append_value (digits rest : List Char) :
    Nat.ofDigitChars 10 (digits ++ rest) 0 =
      10 ^ rest.length * Nat.ofDigitChars 10 digits 0 + Nat.ofDigitChars 10 rest 0 := by
  rw [Nat.ofDigitChars_append, Nat.ofDigitChars_eq_ofDigitChars_zero]

end CuMetal.Numerals
