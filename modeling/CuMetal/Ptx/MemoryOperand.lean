import CuMetal.Lib.Numerals
import CuMetal.Ptx.Instruction
import Mathlib.Algebra.GroupWithZero.Nat
import Mathlib.Algebra.Ring.Int.Defs
import Mathlib.Data.List.TakeWhile

/-!
# Memory operands

The helpers of `compiler/ir/src/ptx_importer.cpp` that read the text of a memory operand, and what
each of them finds in `[base]`, `[base+c]` and `[base-c]`.
-/

namespace CuMetal.Ptx

open Numerals List Option

/-- `std::stoll` to the base 10, without the exception's kind. -/
def stoll (text : List Char) : Option Int :=
  match leadingInt (text.dropWhile isSpace) with
  | some n => if -2 ^ 63 ≤ n ∧ n < 2 ^ 63 then some n else none
  | none => none

/-- `parameter_name_from_operand` (`234-247`). -/
def parameterNameFromOperand (operand : String) : String :=
  let text := operand.toList
  match text.idxOf? '[', text.idxOf? ']' with
  | some opening, some closing =>
    if closing ≤ opening + 1 then trim operand
    else
      let inside := trimChars ((text.take closing).drop (opening + 1))
      String.ofList (inside.takeWhile fun c => c != ' ' && c != '+')
  | _, _ => trim operand

/-- `memory_operand_offset` (`1120-1135`). -/
def memoryOperandOffset (operand : String) : Int :=
  let text := operand.toList
  match text.idxOf? '[', text.idxOf? ']' with
  | some opening, some closing =>
    if closing ≤ opening then 0
    else
      let inside := trimChars ((text.take closing).drop (opening + 1))
      match inside.dropWhile fun c => c != '+' && c != '-' with
      | [] => 0
      | sign :: rest =>
        match stoll (trimChars rest) with
        | some magnitude => if sign = '-' then -magnitude else magnitude
        | none => 0
  | _, _ => 0

/-- How an integer literal is spelled. -/
inductive Radix
  | decimal
  | octal
  | hexadecimal (capital : Bool)
  deriving DecidableEq, Repr

namespace Radix

def base : Radix → Nat
  | .decimal => 10
  | .octal => 8
  | .hexadecimal _ => 16

def mark : Radix → List Char
  | .decimal => []
  | .octal => ['0']
  | .hexadecimal capital => ['0', if capital then 'X' else 'x']

/-- A digit of the radix. -/
def isDigit (radix : Radix) (c : Char) : Bool :=
  match radix with
  | .decimal => c.isDigit
  | .octal => c.isDigit && c != '8' && c != '9'
  | .hexadecimal _ => "0123456789abcdefABCDEF".toList.contains c

end Radix

def digitValue (c : Char) : Nat :=
  if c.isDigit then c.toNat - '0'.toNat else c.toLower.toNat - 'a'.toNat + 10

/-- An integer literal: a decimal one begins with no zero, unless it is zero. -/
structure IntegerLiteral where
  radix : Radix
  digits : List Char
  suffixed : Bool
  nonempty : digits ≠ []
  spelled : digits.all radix.isDigit = true
  canonical : radix = .decimal → digits = ['0'] ∨ digits.head? ≠ some '0'

namespace IntegerLiteral

def text (literal : IntegerLiteral) : List Char :=
  literal.radix.mark ++ literal.digits ++ if literal.suffixed then ['U'] else []

/-- The number that PTX means. -/
def value (literal : IntegerLiteral) : Nat :=
  literal.digits.foldl (fun number c => literal.radix.base * number + digitValue c) 0

end IntegerLiteral

/-- What a memory operand adds to its base. -/
inductive Displacement
  | none
  | plus (literal : IntegerLiteral)
  | minus (literal : IntegerLiteral)

namespace Displacement

def text : Displacement → List Char
  | .none => []
  | .plus literal => '+' :: literal.text
  | .minus literal => '-' :: literal.text

def value : Displacement → Int
  | .none => 0
  | .plus literal => literal.value
  | .minus literal => -literal.value

end Displacement

/-- The name of a register or of a variable. -/
structure BaseName where
  register : Bool
  letters : List Char
  nonempty : letters ≠ []
  spelled : letters.all isRegisterChar = true

namespace BaseName

def text (base : BaseName) : List Char := (if base.register then ['%'] else []) ++ base.letters

def name (base : BaseName) : String := String.ofList base.text

end BaseName

/-- The operand as the text has it, without blanks. -/
def memoryOperand (base : BaseName) (displacement : Displacement) : String :=
  String.ofList ('[' :: (base.text ++ displacement.text) ++ [']'])

/-- The characters of a base and of what is added to it. -/
def isOperandChar (c : Char) : Bool := isRegisterChar c || c == '%' || c == '+' || c == '-'

variable {c : Char} {first : List Char}

theorem isSpace_of_operandChar (plain : isOperandChar c = true) : isSpace c = false := by
  by_contra space
  simp only [isSpace, Bool.or_eq_true, beq_iff_eq, Bool.not_eq_false] at space
  rcases space with ((((rfl | rfl) | rfl) | rfl) | rfl) | rfl <;> exact absurd plain (by decide)

theorem isAlnum_of_digit (digit : c.isDigit = true) : isAlnum c = true := by
  simp [isAlnum, Char.isAlphanum, digit]

theorem isAlnum_of_radix {radix : Radix} (digit : radix.isDigit c = true) : isAlnum c = true := by
  cases radix with
  | decimal => exact isAlnum_of_digit digit
  | octal =>
    simp only [Radix.isDigit, Bool.and_eq_true] at digit
    exact isAlnum_of_digit digit.1.1
  | hexadecimal capital =>
    have all : "0123456789abcdefABCDEF".toList.all isAlnum = true := by decide +kernel
    exact all_eq_true.mp all c (by simpa [Radix.isDigit] using digit)

theorem IntegerLiteral.isAlnum_text (literal : IntegerLiteral) (mem : c ∈ literal.text) :
    isAlnum c = true := by
  simp only [IntegerLiteral.text, mem_append] at mem
  rcases mem with (mark | digit) | suffix
  · cases radix : literal.radix with
    | decimal => simp [radix, Radix.mark] at mark
    | octal =>
      rw [radix, Radix.mark, mem_singleton] at mark
      subst mark
      decide
    | hexadecimal capital =>
      rw [radix] at mark
      cases capital <;> simp only [Radix.mark, if_true, Bool.false_eq_true, if_false,
        mem_cons, not_mem_nil, or_false] at mark <;>
        rcases mark with rfl | rfl <;> decide
  · exact isAlnum_of_radix (all_eq_true.mp literal.spelled c digit)
  · split at suffix
    · rw [mem_singleton] at suffix
      subst suffix
      decide
    · simp at suffix

theorem BaseName.isOperandChar_text (base : BaseName) (mem : c ∈ base.text) :
    c = '%' ∨ isRegisterChar c = true := by
  rcases mem_append.mp mem with sigil | letter
  · split at sigil
    · exact .inl (mem_singleton.mp sigil)
    · simp at sigil
  · exact .inr (all_eq_true.mp base.spelled c letter)

theorem Displacement.isOperandChar_text (displacement : Displacement)
    (mem : c ∈ displacement.text) : c = '+' ∨ c = '-' ∨ isAlnum c = true := by
  cases displacement with
  | none => simp [Displacement.text] at mem
  | plus literal =>
    rcases mem_cons.mp mem with same | digit
    · exact .inl same
    · exact .inr (.inr (literal.isAlnum_text digit))
  | minus literal =>
    rcases mem_cons.mp mem with same | digit
    · exact .inr (.inl same)
    · exact .inr (.inr (literal.isAlnum_text digit))

theorem isOperandChar_inside (base : BaseName) (displacement : Displacement)
    (mem : c ∈ base.text ++ displacement.text) : isOperandChar c = true := by
  rcases mem_append.mp mem with letter | letter
  · rcases base.isOperandChar_text letter with rfl | letter
    · decide
    · simp [isOperandChar, letter]
  · rcases displacement.isOperandChar_text letter with rfl | rfl | letter
    · decide
    · decide
    · simp [isOperandChar, isRegisterChar, letter]

theorem trimChars_of_plain {text : List Char} (plain : ∀ c ∈ text, isSpace c = false) :
    trimChars text = text := by
  have kept : ∀ {text : List Char}, (∀ c ∈ text, isSpace c = false) →
      text.dropWhile isSpace = text := by
    intro text plain
    cases text with
    | nil => rfl
    | cons c text => simp [plain c mem_cons_self]
  rw [trimChars, kept plain, kept fun c mem => plain c (mem_reverse.mp mem),
    reverse_reverse]

theorem idxOf?_of_notMem (rest : List Char) (absent : c ∉ first) :
    (first ++ c :: rest).idxOf? c = some first.length := by
  rw [idxOf?_eq_some_iff]
  refine ⟨by simp, by simp, ?_⟩
  intro j before
  rw [getElem_append_left before]
  intro same
  exact absent (same ▸ getElem_mem before)

section

variable (base : BaseName) (displacement : Displacement)

theorem opening_memoryOperand : (memoryOperand base displacement).toList.idxOf? '[' = some 0 := by
  rw [memoryOperand, String.toList_ofList, List.cons_append]
  exact idxOf?_of_notMem _ (List.not_mem_nil : '[' ∉ [])

theorem closing_memoryOperand :
    (memoryOperand base displacement).toList.idxOf? ']' =
      some ((base.text ++ displacement.text).length + 1) := by
  rw [memoryOperand, String.toList_ofList]
  refine idxOf?_of_notMem [] (?_ : ']' ∉ '[' :: (base.text ++ displacement.text))
  intro mem
  rcases List.mem_cons.mp mem with same | inside
  · exact absurd same (by decide)
  · exact absurd (isOperandChar_inside base displacement inside) (by decide)

theorem inside_memoryOperand :
    trimChars (((memoryOperand base displacement).toList.take
      ((base.text ++ displacement.text).length + 1)).drop (0 + 1)) =
        base.text ++ displacement.text := by
  have same : ((memoryOperand base displacement).toList.take
      ((base.text ++ displacement.text).length + 1)).drop (0 + 1) =
        base.text ++ displacement.text := by
    rw [memoryOperand, String.toList_ofList, cons_append, take_succ_cons,
      take_left, drop_succ_cons, drop_zero]
  rw [same]
  exact trimChars_of_plain fun c mem =>
    isSpace_of_operandChar (isOperandChar_inside base displacement mem)

theorem BaseName.text_ne_nil : base.text ≠ [] := by
  simp [BaseName.text, base.nonempty]

theorem inside_pos : 0 < (base.text ++ displacement.text).length := by
  rw [length_append]
  have some_ := length_pos_iff.mpr base.text_ne_nil
  omega

theorem BaseName.ne_of_mem {d : Char} (mem : c ∈ base.text) (sigil : d ≠ '%')
    (other : isRegisterChar d = false) : c ≠ d := by
  rintro rfl
  rcases base.isOperandChar_text mem with same | letter
  · exact sigil same
  · rw [other] at letter
    cases letter

/-- The name stops before a `+`, and not before a `-`. -/
def namedBase : String :=
  match displacement with
  | .minus literal => String.ofList (base.text ++ '-' :: literal.text)
  | _ => base.name

theorem parameterNameFromOperand_memoryOperand :
    parameterNameFromOperand (memoryOperand base displacement) = namedBase base displacement := by
  have some_ := inside_pos base displacement
  unfold parameterNameFromOperand
  simp only [opening_memoryOperand, closing_memoryOperand]
  rw [if_neg (by omega), inside_memoryOperand]
  have kept : ∀ c ∈ base.text, (c != ' ' && c != '+') = true := by
    intro c mem
    have blank := base.ne_of_mem mem (d := ' ') (by decide) (by decide)
    have plus := base.ne_of_mem mem (d := '+') (by decide) (by decide)
    simp [blank, plus]
  cases displacement with
  | none =>
    rw [Displacement.text, append_nil, takeWhile_eq_self_iff.mpr kept]
    rfl
  | plus literal =>
    rw [Displacement.text, takeWhile_append_of_pos kept,
      takeWhile_cons_of_neg (by simp), append_nil]
    rfl
  | minus literal =>
    have all : ∀ c ∈ base.text ++ '-' :: literal.text, (c != ' ' && c != '+') = true := by
      intro c mem
      rcases mem_append.mp mem with letter | letter
      · exact kept c letter
      · have blank : c ≠ ' ' := by
          rintro rfl
          rcases mem_cons.mp letter with same | digit
          · exact absurd same (by decide)
          · exact absurd (literal.isAlnum_text digit) (by decide)
        have plus : c ≠ '+' := by
          rintro rfl
          rcases mem_cons.mp letter with same | digit
          · exact absurd same (by decide)
          · exact absurd (literal.isAlnum_text digit) (by decide)
        simp [blank, plus]
    rw [Displacement.text, takeWhile_eq_self_iff.mpr all]
    rfl

theorem registersInChars_append (absent : '%' ∉ first) (rest : List Char) :
    registersInChars (first ++ rest) = registersInChars rest := by
  induction first with
  | nil => rfl
  | cons c first ih =>
    have other : c ≠ '%' := fun same => absent (same ▸ mem_cons_self)
    rw [cons_append, registersInChars, if_neg (by simp [other]),
      ih fun mem => absent (mem_cons_of_mem _ mem)]

theorem firstRegister_memoryOperand :
    firstRegister (memoryOperand base displacement) = if base.register then base.name else "" := by
  have after : '%' ∉ displacement.text ++ [']'] := by
    intro mem
    rcases mem_append.mp mem with letter | same
    · rcases displacement.isOperandChar_text letter with same | same | digit
      · exact absurd same (by decide)
      · exact absurd same (by decide)
      · exact absurd digit (by decide)
    · exact absurd (mem_singleton.mp same) (by decide)
  have letters : '%' ∉ base.letters := fun mem =>
    absurd (all_eq_true.mp base.spelled _ mem) (by decide)
  have ends : ∀ c ∈ (displacement.text ++ [']']).head?, isRegisterChar c = false := by
    intro c head
    cases displacement with
    | none =>
      simp only [Displacement.text, nil_append, head?_cons,
        mem_some_iff] at head
      rw [← head]
      decide
    | plus literal =>
      simp only [Displacement.text, cons_append, head?_cons,
        mem_some_iff] at head
      rw [← head]
      decide
    | minus literal =>
      simp only [Displacement.text, cons_append, head?_cons,
        mem_some_iff] at head
      rw [← head]
      decide
  have text : (memoryOperand base displacement).toList =
      ['['] ++ (base.text ++ (displacement.text ++ [']'])) := by
    simp [memoryOperand]
  unfold firstRegister registersIn
  rw [text, registersInChars_append (by decide)]
  by_cases register : base.register = true
  · have taken : (base.letters ++ (displacement.text ++ [']'])).takeWhile isRegisterChar =
        base.letters := by
      rw [takeWhile_append_of_pos fun c mem => all_eq_true.mp base.spelled c mem]
      cases rest : displacement.text ++ [']'] with
      | nil => simp
      | cons c rest' =>
        rw [rest] at ends
        simp [ends c rfl]
    rw [if_pos register]
    simp only [BaseName.text, BaseName.name, register, if_true, cons_append, nil_append,
      registersInChars]
    rw [taken, if_pos (by simp [base.nonempty]), headD_cons]
  · rw [if_neg register]
    simp only [BaseName.text, register, Bool.false_eq_true, if_false, nil_append]
    rw [registersInChars_append letters, ← append_nil (displacement.text ++ [']']),
      registersInChars_append after]
    rfl

end

namespace IntegerLiteral

variable (literal : IntegerLiteral)

/-- The number that is read: a hexadecimal literal ends before its `x`, and an octal one is read
as a decimal one. -/
def read : Nat :=
  match literal.radix with
  | .hexadecimal _ => 0
  | _ => Nat.ofDigitChars 10 literal.digits 0

theorem isDigit_digits (small : ∀ capital, literal.radix ≠ .hexadecimal capital)
    (mem : c ∈ literal.digits) : c.isDigit = true := by
  have digit := all_eq_true.mp literal.spelled c mem
  cases radix : literal.radix with
  | decimal => rwa [radix] at digit
  | octal =>
    rw [radix] at digit
    simp only [Radix.isDigit, Bool.and_eq_true] at digit
    exact digit.1.1
  | hexadecimal capital => exact absurd radix (small capital)

theorem leadingNat_text : leadingNat literal.text = some literal.read := by
  have suffix : ∀ c ∈ (if literal.suffixed then ['U'] else []).head?, c.isDigit = false := by
    intro c head
    split at head
    · rw [head?_cons, mem_some_iff] at head
      rw [← head]
      decide
    · simp at head
  unfold text read
  cases radix : literal.radix with
  | decimal =>
    simp only [Radix.mark, nil_append]
    exact leadingNat_digits literal.nonempty
      (fun c mem => literal.isDigit_digits (by simp [radix]) mem) suffix
  | octal =>
    have all : ∀ c ∈ '0' :: literal.digits, c.isDigit = true := by
      intro c mem
      rcases mem_cons.mp mem with rfl | mem
      · decide
      · exact literal.isDigit_digits (by simp [radix]) mem
    simp only [Radix.mark, singleton_append]
    rw [leadingNat_digits (cons_ne_nil _ _) all suffix, Nat.ofDigitChars_cons]
    rfl
  | hexadecimal capital =>
    have ends : ∀ c ∈ ((if capital then 'X' else 'x') :: literal.digits ++
        if literal.suffixed then ['U'] else []).head?, c.isDigit = false := by
      intro c head
      rw [cons_append, head?_cons,
        mem_some_iff] at head
      rw [← head]
      cases capital <;> decide
    have zero : ∀ c ∈ ['0'], c.isDigit = true := fun c mem => by
      rw [mem_singleton.mp mem]
      decide
    exact leadingNat_digits (cons_ne_nil '0' []) zero ends

theorem stoll_text :
    stoll (trimChars literal.text) =
      if literal.read < 2 ^ 63 then some ↑literal.read else none := by
  have plain : ∀ c ∈ literal.text, isSpace c = false := fun c mem =>
    isSpace_of_operandChar (by simp [isOperandChar, isRegisterChar, literal.isAlnum_text mem])
  have read := literal.leadingNat_text
  rw [trimChars_of_plain plain, stoll]
  cases letters : literal.text with
  | nil => simp [letters, leadingNat] at read
  | cons c text =>
    have letter := literal.isAlnum_text (letters ▸ mem_cons_self : c ∈ literal.text)
    have minus : c ≠ '-' := by
      rintro rfl
      exact absurd letter (by decide)
    have plus : c ≠ '+' := by
      rintro rfl
      exact absurd letter (by decide)
    have kept : (c :: text).dropWhile isSpace = c :: text := by
      rw [dropWhile_cons_of_neg]
      rw [plain c (letters ▸ mem_cons_self)]
      decide
    rw [kept, leadingInt_of_head minus plus, ← letters, read, map_some]
    by_cases small : literal.read < 2 ^ 63
    · simp only [if_pos small]
      rw [if_pos (by omega)]
    · simp only [if_neg small]
      rw [if_neg (by omega)]

end IntegerLiteral

/-- The displacement that the importer reads. -/
def Displacement.read : Displacement → Int
  | .none => 0
  | .plus literal => if literal.read < 2 ^ 63 then literal.read else 0
  | .minus literal => if literal.read < 2 ^ 63 then -literal.read else 0

theorem memoryOperandOffset_memoryOperand (base : BaseName) (displacement : Displacement) :
    memoryOperandOffset (memoryOperand base displacement) = displacement.read := by
  have skipped : ∀ c ∈ base.text, (c != '+' && c != '-') = true := by
    intro c mem
    have plus := base.ne_of_mem mem (d := '+') (by decide) (by decide)
    have minus := base.ne_of_mem mem (d := '-') (by decide) (by decide)
    simp [plus, minus]
  unfold memoryOperandOffset
  simp only [opening_memoryOperand, closing_memoryOperand]
  rw [if_neg (by omega), inside_memoryOperand, dropWhile_append_of_pos skipped]
  cases displacement with
  | none => rfl
  | plus literal =>
    simp only [Displacement.text, Displacement.read, bne_self_eq_false, Bool.false_and,
      Bool.false_eq_true, not_false_eq_true, dropWhile_cons_of_neg, literal.stoll_text]
    by_cases small : literal.read < 2 ^ 63
    · simp only [if_pos small, if_false, Char.reduceEq]
    · simp only [if_neg small]
  | minus literal =>
    simp only [Displacement.text, Displacement.read, bne_self_eq_false, Bool.and_false,
      Bool.false_eq_true, not_false_eq_true, dropWhile_cons_of_neg, literal.stoll_text]
    by_cases small : literal.read < 2 ^ 63
    · simp only [if_pos small, if_true]
    · simp only [if_neg small]

namespace IntegerLiteral

variable (literal : IntegerLiteral)

/-- The number that is read is, modulo `2 ^ 64`, the one that the literal spells. -/
def Exact : Prop :=
  literal.value % 2 ^ 64 = 0 ∨ literal.radix = .decimal ∧ literal.value < 2 ^ 63 ∨
    literal.radix = .octal ∧ literal.value < 8

theorem value_eq (small : ∀ capital, literal.radix ≠ .hexadecimal capital) :
    literal.value = Nat.ofDigitChars literal.radix.base literal.digits 0 := by
  have same : ∀ (digits : List Char) (number : Nat), (∀ c ∈ digits, c.isDigit = true) →
      digits.foldl (fun number c => literal.radix.base * number + digitValue c) number =
        Nat.ofDigitChars literal.radix.base digits number := by
    intro digits
    induction digits with
    | nil => intro number _; rfl
    | cons c digits ih =>
      intro number all
      rw [foldl_cons, Nat.ofDigitChars_cons,
        ih _ fun d mem => all d (mem_cons_of_mem _ mem), digitValue,
        if_pos (all c mem_cons_self)]
  exact same literal.digits 0 fun c mem => literal.isDigit_digits small mem

theorem read_decimal (radix : literal.radix = .decimal) : literal.read = literal.value := by
  rw [literal.value_eq (by simp [radix]), read, radix]
  rfl

theorem toNat_octal (digit : Radix.octal.isDigit c = true) : c.toNat - '0'.toNat < 8 := by
  simp only [Radix.isDigit, Bool.and_eq_true, bne_iff_ne, ne_eq] at digit
  obtain ⟨⟨decimal, not8⟩, not9⟩ := digit
  have ne8 : c.toNat ≠ 56 := fun same => not8 (Char.toNat_inj.mp same)
  have ne9 : c.toNat ≠ 57 := fun same => not9 (Char.toNat_inj.mp same)
  have range : 48 ≤ c.toNat ∧ c.toNat ≤ 57 := by
    simpa [Char.isDigit, UInt32.le_iff_toNat_le] using decimal
  show c.toNat - 48 < 8
  omega

theorem read_octal (radix : literal.radix = .octal) :
    literal.value ≤ literal.read ∧ (literal.read = literal.value ↔ literal.value < 8) := by
  have spelled : ∀ c ∈ literal.digits, c.toNat - '0'.toNat < 8 := fun c mem =>
    toNat_octal (radix ▸ all_eq_true.mp literal.spelled c mem)
  have read : literal.read = Nat.ofDigitChars 10 literal.digits 0 := by
    rw [IntegerLiteral.read, radix]
  have value : literal.value = Nat.ofDigitChars 8 literal.digits 0 := by
    rw [literal.value_eq (by simp [radix]), radix]
    rfl
  rw [read, value]
  refine ⟨ofDigitChars_le (by decide) _ Nat.le.refl, ?_⟩
  rw [← ofDigitChars_eq_iff (by decide) (by decide : 8 < 10) _ spelled]
  exact eq_comm

theorem read_mod_iff :
    (if literal.read < 2 ^ 63 then literal.read else 0) % 2 ^ 64 = literal.value % 2 ^ 64 ↔
      literal.Exact := by
  unfold Exact
  cases radix : literal.radix with
  | decimal =>
    rw [literal.read_decimal radix]
    simp only [true_and, reduceCtorEq, false_and, or_false]
    split <;> omega
  | octal =>
    obtain ⟨le, same⟩ := literal.read_octal radix
    simp only [true_and, reduceCtorEq, false_and, false_or]
    split <;> omega
  | hexadecimal capital =>
    have read : literal.read = 0 := by rw [IntegerLiteral.read, radix]
    simp only [read, ite_self, reduceCtorEq, false_and, or_false, Nat.zero_mod]
    exact eq_comm

end IntegerLiteral

/-- What is read as the displacement is the one that the operand spells. -/
def Displacement.Exact : Displacement → Prop
  | .none => True
  | .plus literal | .minus literal => literal.Exact

theorem Displacement.read_eq_iff (displacement : Displacement) :
    BitVec.ofInt 64 displacement.read = BitVec.ofInt 64 displacement.value ↔
      displacement.Exact := by
  rw [← BitVec.toNat_inj, BitVec.toNat_ofInt, BitVec.toNat_ofInt]
  cases displacement with
  | none => simp [read, value, Exact]
  | plus literal =>
    rw [Exact, ← literal.read_mod_iff, read, value]
    split <;> omega
  | minus literal =>
    rw [Exact, ← literal.read_mod_iff, read, value]
    split <;> omega

end CuMetal.Ptx
