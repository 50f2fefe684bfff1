import CuMetal.Driver.AbiSidecar
import CuMetal.Lib.Numerals
import CuMetal.Lib.TextSearch
import Mathlib.Data.List.DropRight

/-!
# The names of host stubs

`device_symbol_from_stub` (`compiler/cumetalc/main.cpp:698-719`): Clang names the host stub of a
kernel by putting `__device_stub__` before the kernel's own identifier, inside the mangled name, and
the driver program takes it out again.
-/

namespace CuMetal.Cumetalc

open List

open CuMetal.Driver (strtoull)
open CuMetal.Numerals

/-- `marker` (`main.cpp:699`). -/
def stubMarker : List Char :=
  ['_', '_', 'd', 'e', 'v', 'i', 'c', 'e', '_', 's', 't', 'u', 'b', '_', '_']

/-- `std::to_string` of an unsigned number. -/
def decimal (n : Nat) : List Char := Nat.toDigits 10 n

/-- `device_symbol_from_stub` (`main.cpp:698-719`). The empty name is the failure. -/
def deviceSymbolFromStub (symbol : List Char) : List Char :=
  match beforeFirst stubMarker symbol with
  | none => []
  | some [] => symbol.drop stubMarker.length
  | some before =>
    let digits := before.rtakeWhile Char.isDigit
    let componentSize := strtoull digits
    if digits = [] then []
    else if componentSize < stubMarker.length then []
    else
      before.rdropWhile Char.isDigit ++ decimal (componentSize - stubMarker.length) ++
        symbol.drop (before.length + stubMarker.length)

/-- A mangled kernel name: what stands before the kernel's own identifier (`_Z`, or `_ZN` and the
enclosing namespaces and classes with their template arguments), the identifier, which the mangling
writes after its length, and the rest (template arguments and parameters). -/
structure MangledName where
  before : List Char
  id : List Char
  after : List Char
  named : id ≠ []

/-- A kernel name: of an `extern "C"` kernel, or mangled. -/
inductive KernelName
  | plain (name : List Char)
  | mangled (name : MangledName)

namespace MangledName

variable (name : MangledName)

/-- `<len><id>`, the component of an identifier. -/
def component (id : List Char) : List Char := decimal id.length ++ id

/-- The mangled name. -/
def symbol : List Char := name.before ++ component name.id ++ name.after

/-- The mangled name of the stub. -/
def stub : List Char := name.before ++ component (stubMarker ++ name.id) ++ name.after

/-- The digits that an enclosing component ends in. -/
def endDigits : List Char := name.before.rtakeWhile Char.isDigit

/-- What is read backwards from the marker: the digits of the enclosing component and the length of
the stub's component. -/
def scannedDigits : List Char :=
  name.endDigits ++ decimal (stubMarker ++ name.id).length

/-- When the name is recovered: the marker is not part of an enclosing component; no digits stand
before the length, or digits without a zero in front, and the length has as many digits as without
the marker; and the digits up to the marker fit in 64 bits. -/
structure Recoverable : Prop where
  unmarked : ¬ stubMarker <:+: name.before
  apart : name.endDigits ≠ [] → name.endDigits.head? ≠ some '0' ∧
    (decimal (stubMarker ++ name.id).length).length = (decimal name.id.length).length
  small : Nat.ofDigitChars 10 name.scannedDigits 0 < 2 ^ 64

end MangledName

/-- The kernel's name. -/
def KernelName.symbol : KernelName → List Char
  | .plain name => name
  | .mangled name => name.symbol

/-- The name that Clang gives to the kernel's host stub. -/
def KernelName.stub : KernelName → List Char
  | .plain name => stubMarker ++ name
  | .mangled name => name.stub

/-- When a kernel's name is recovered from its stub. -/
def KernelName.Recoverable : KernelName → Prop
  | .plain _ => True
  | .mangled name => name.Recoverable

variable {n : Nat} {c : Char} {digits : List Char}

theorem isDigit_decimal (member : c ∈ decimal n) : c.isDigit = true :=
  isDigit_toDigits member

theorem decimal_ne_nil (n : Nat) : decimal n ≠ [] := Nat.toDigits_ne_nil

theorem not_mem_stubMarker (digit : c.isDigit = true) : c ∉ stubMarker := by
  intro member
  have plain : stubMarker.all (fun c => !c.isDigit) = true := rfl
  have other := all_eq_true.mp plain c member
  simp [digit] at other

theorem stubMarker_ne_nil : stubMarker ≠ [] := by decide

theorem strtoull_eq (digits : List Char) :
    strtoull digits = min (Nat.ofDigitChars 10 digits 0) (2 ^ 64 - 1) := rfl

/-- The digits of two numbers, where only the second one is known to be a numeral. -/
theorem isDigit_append (all : ∀ c ∈ digits, c.isDigit = true) (n : Nat) :
    ∀ c ∈ digits ++ decimal n, c.isDigit = true := by
  intro c member
  rcases mem_append.mp member with first | last
  · exact all c first
  · exact isDigit_decimal last

namespace MangledName

variable (name : MangledName)

theorem isDigit_endDigits (member : c ∈ name.endDigits) : c.isDigit = true :=
  mem_rtakeWhile_imp member

/-- What stands before the digits that are read backwards. -/
def beforeDigits : List Char := name.before.rdropWhile Char.isDigit

theorem before_eq : name.before = name.beforeDigits ++ name.endDigits :=
  (rdropWhile_append_rtakeWhile ..).symm

theorem endDigits_append (all : ∀ c ∈ digits, c.isDigit = true) :
    (name.before ++ digits).rtakeWhile Char.isDigit = name.endDigits ++ digits ∧
      (name.before ++ digits).rdropWhile Char.isDigit = name.beforeDigits := by
  induction digits using reverseRecOn with
  | nil => exact ⟨by simp [endDigits], by simp [beforeDigits]⟩
  | append_singleton digits c ih =>
    have digit : c.isDigit = true := all c (by simp)
    have before := ih fun c member => all c (mem_append_left _ member)
    rw [← append_assoc, rtakeWhile_concat_pos _ _ _ digit,
      rdropWhile_concat_pos _ _ _ digit, before.1, before.2, append_assoc]
    exact ⟨rfl, rfl⟩

/-- The text after the marker. -/
def rest : List Char := name.id ++ name.after

theorem stub_eq : name.stub =
    (name.before ++ decimal (stubMarker ++ name.id).length) ++ (stubMarker ++ name.rest) := by
  simp [stub, component, rest]

theorem symbol_eq : name.symbol = (name.before ++ decimal name.id.length) ++ name.rest := by
  simp [symbol, component, rest]

/-- Without a marker in the enclosing components, the first one is that of the stub. -/
theorem beforeFirst_stub (unmarked : ¬ stubMarker <:+: name.before) :
    beforeFirst stubMarker name.stub =
      some (name.before ++ decimal (stubMarker ++ name.id).length) := by
  have nonempty := decimal_ne_nil (stubMarker ++ name.id).length
  have digits : ∀ c ∈ decimal (stubMarker ++ name.id).length, c.isDigit = true :=
    fun _ => isDigit_decimal
  obtain ⟨init, last, same⟩ := eq_nil_or_concat' _ |>.resolve_left nonempty
  have clean : ¬ stubMarker <:+: name.before ++ decimal (stubMarker ++ name.id).length := by
    obtain ⟨c, digits', first⟩ := exists_cons_of_ne_nil nonempty
    rw [first] at digits ⊢
    rw [infix_separator (not_mem_stubMarker (digits c mem_cons_self)) stubMarker_ne_nil,
      not_or]
    refine ⟨unmarked, fun here => ?_⟩
    have marked : '_' ∈ digits' := here.subset (by decide)
    exact absurd (digits _ (mem_cons_of_mem _ marked)) (by decide)
  have skips : Skips stubMarker (name.before ++ decimal (stubMarker ++ name.id).length)
      (stubMarker ++ name.rest) := by
    rw [same, ← append_assoc] at clean ⊢
    exact skips_of_end (not_mem_stubMarker (digits last (by rw [same]; simp))) clean
  have here : beforeFirst stubMarker (stubMarker ++ name.rest) = some [] :=
    beforeFirst_here (prefix_append _ _) (append_ne_nil_of_left_ne_nil stubMarker_ne_nil _)
  rw [name.stub_eq, beforeFirst_append skips, here, Option.map_some, append_nil]

theorem symbol_ne_nil : name.symbol ≠ [] := by
  rw [name.symbol_eq]
  simp [decimal_ne_nil]

/-- A text that has the marker before the identifier is not the kernel's name, which has the last
digit of the length there. -/
theorem marked_ne_symbol (text : List Char) : (text ++ stubMarker) ++ name.rest ≠ name.symbol := by
  rw [name.symbol_eq, ne_eq, append_cancel_right_eq]
  intro same
  obtain ⟨init, last, digits⟩ :=
    eq_nil_or_concat' (decimal name.id.length) |>.resolve_left (decimal_ne_nil _)
  have digit : last.isDigit = true := isDigit_decimal (n := name.id.length) (by rw [digits]; simp)
  have ends := congrArg getLast? same
  rw [digits, ← append_assoc, getLast?_concat,
    getLast?_append_of_ne_nil _ stubMarker_ne_nil] at ends
  obtain rfl : '_' = last := by simpa [stubMarker] using ends
  exact absurd digit (by decide)

end MangledName

/-- What is returned for a marker that has something before it. -/
theorem deviceSymbolFromStub_of_before {symbol before : List Char}
    (found : beforeFirst stubMarker symbol = some before) (nonempty : before ≠ []) :
    deviceSymbolFromStub symbol =
      if before.rtakeWhile Char.isDigit = [] then []
      else if strtoull (before.rtakeWhile Char.isDigit) < stubMarker.length then []
      else
        before.rdropWhile Char.isDigit ++
          decimal (strtoull (before.rtakeWhile Char.isDigit) - stubMarker.length) ++
          symbol.drop (before.length + stubMarker.length) := by
  obtain ⟨c, before, rfl⟩ := exists_cons_of_ne_nil nonempty
  rw [deviceSymbolFromStub, found]

/-- With the marker in an enclosing component, the name is not recovered. -/
theorem MangledName.not_recovered_of_marked (name : MangledName)
    (marked : stubMarker <:+: name.before) :
    deviceSymbolFromStub name.stub ≠ name.symbol := by
  obtain ⟨before, after, found, same⟩ := beforeFirst_infix marked
    (decimal (stubMarker ++ name.id).length ++ (stubMarker ++ name.rest))
  rw [← append_assoc, ← name.stub_eq] at found
  have dropped : name.stub.drop (before.length + stubMarker.length) =
      (after ++ decimal (stubMarker ++ name.id).length ++ stubMarker) ++ name.rest := by
    rw [name.stub_eq, same, ← length_append]
    simp only [append_assoc]
    rw [← append_assoc before, drop_left]
  cases before with
  | nil =>
    rw [deviceSymbolFromStub, found]
    have whole := dropped
    rw [length_nil, zero_add] at whole
    show name.stub.drop stubMarker.length ≠ _
    rw [whole]
    exact name.marked_ne_symbol _
  | cons c before =>
    rw [deviceSymbolFromStub_of_before found (cons_ne_nil _ _), dropped]
    split
    · exact name.symbol_ne_nil.symm
    · split
      · exact name.symbol_ne_nil.symm
      · rw [← append_assoc, ← append_assoc]
        exact name.marked_ne_symbol _

/-! ## The length -/

theorem ofDigitChars_decimal (n : Nat) : Nat.ofDigitChars 10 (decimal n) 0 = n :=
  Nat.ofDigitChars_ten_toDigits

theorem decimal_inj {m : Nat} : decimal m = decimal n ↔ m = n := by
  constructor
  · intro same
    rw [← ofDigitChars_decimal m, same, ofDigitChars_decimal]
  · rintro rfl
    rfl

theorem length_decimal_le_iff {k : Nat} (positive : 0 < k) : (decimal n).length ≤ k ↔ n < 10 ^ k :=
  Nat.length_toDigits_le_iff (by decide) positive

theorem length_decimal_pos (n : Nat) : 0 < (decimal n).length :=
  length_pos_iff.mpr (decimal_ne_nil n)

theorem value_append_decimal (digits : List Char) (n : Nat) :
    Nat.ofDigitChars 10 (digits ++ decimal n) 0 =
      10 ^ (decimal n).length * Nat.ofDigitChars 10 digits 0 + n := by
  rw [ofDigitChars_append_value, ofDigitChars_decimal]

variable {length : Nat}

/-- A number below a power of ten that reaches it with 15 more, after other digits, is no end of the
largest 64-bit number less 15. -/
theorem no_carry {power value : Nat} (ends : power % 100 = 0 ∨ power = 10) (positive : 0 < length)
    (less : length < power) (reaches : power ≤ length + 15) :
    power * value + length ≠ 2 ^ 64 - 1 - 15 := by
  intro same
  rcases ends with hundred | rfl
  · obtain ⟨q, rfl⟩ := Nat.dvd_of_mod_eq_zero hundred
    rw [mul_assoc] at same
    omega
  · omega

/-- The number that is read, less 15, has the numeral that was there before: only if nothing stands
in front, or no zero and the lengths have the same number of digits. -/
theorem decimal_strtoull_iff (all : ∀ c ∈ digits, c.isDigit = true) (positive : 0 < length) :
    decimal (strtoull (digits ++ decimal (length + 15)) - 15) = digits ++ decimal length ↔
      (digits ≠ [] → digits.head? ≠ some '0' ∧
        (decimal (length + 15)).length = (decimal length).length) ∧
      Nat.ofDigitChars 10 (digits ++ decimal (length + 15)) 0 < 2 ^ 64 := by
  rw [strtoull_eq, value_append_decimal]
  by_cases first : digits = []
  · subst first
    simp only [Nat.ofDigitChars_nil, nil_append, Nat.mul_zero, zero_add, ne_eq,
      not_true_eq_false, false_implies, true_and, decimal_inj]
    omega
  · constructor
    · intro same
      have head : digits.head? ≠ some '0' := by
        intro zero
        have starts : (digits ++ decimal length).head? = some '0' := by
          rw [head?_append_of_ne_nil _ first, zero]
        rw [← same] at starts
        have none_ := Nat.eq_zero_of_not_pos fun positive => head_toDigits positive starts
        rw [none_] at same
        have long := congrArg List.length same
        have one : (decimal 0).length = 1 := rfl
        rw [length_append, one] at long
        have some_ := length_pos_iff.mpr first
        have more := length_decimal_pos length
        omega
      have value := congrArg (Nat.ofDigitChars 10 · 0) same
      simp only [ofDigitChars_decimal, value_append_decimal] at value
      have front := ofDigitChars_pos first all head
      generalize Nat.ofDigitChars 10 digits 0 = front_ at *
      have less : length < 10 ^ (decimal length).length :=
        (length_decimal_le_iff (length_decimal_pos _)).mp (le_refl _)
      by_cases small : 10 ^ (decimal (length + 15)).length * front_ + (length + 15) < 2 ^ 64
      · refine ⟨fun _ => ⟨head, ?_⟩, small⟩
        rw [min_eq_left (by omega)] at value
        have powers : 10 ^ (decimal (length + 15)).length * front_ =
            10 ^ (decimal length).length * front_ := by omega
        exact Nat.pow_right_injective (le_refl 2 |>.trans (by decide))
          (Nat.eq_of_mul_eq_mul_right front powers)
      · exfalso
        rw [min_eq_right (by omega)] at value
        by_cases long : (decimal (length + 15)).length = (decimal length).length
        · rw [long] at small
          omega
        · have shorter : (decimal length).length ≤ (decimal (length + 15)).length :=
            (length_decimal_le_iff (length_decimal_pos _)).mpr (by
              have := (length_decimal_le_iff (length_decimal_pos (length + 15))).mp (le_refl _)
              omega)
          have reaches : ¬ length + 15 < 10 ^ (decimal length).length := fun below =>
            absurd ((length_decimal_le_iff (length_decimal_pos _)).mpr below) (by omega)
          have ends : 10 ^ (decimal length).length % 100 = 0 ∨
              10 ^ (decimal length).length = 10 := by
            obtain ⟨k, count⟩ := Nat.exists_eq_succ_of_ne_zero (length_decimal_pos length).ne'
            rw [count]
            cases k with
            | zero => exact .inr rfl
            | succ k =>
              left
              rw [pow_succ, pow_succ, mul_assoc]
              exact Nat.mul_mod_left _ _
          exact no_carry ends positive less (by omega) value.symm
    · rintro ⟨apart, small⟩
      obtain ⟨head, long⟩ := apart first
      rw [min_eq_left (by omega), long]
      have value := value_append_decimal digits length
      have read : 10 ^ (decimal length).length * Nat.ofDigitChars 10 digits 0 + (length + 15) - 15 =
          Nat.ofDigitChars 10 (digits ++ decimal length) 0 := by omega
      rw [read]
      exact toDigits_ofDigitChars (append_ne_nil_of_left_ne_nil first _)
        (isDigit_append all length) (by rw [head?_append_of_ne_nil _ first]; exact head)

/-- The name of an `extern "C"` kernel comes back, and a mangled name exactly under the condition. -/
theorem deviceSymbolFromStub_iff (kernel : KernelName) :
    deviceSymbolFromStub kernel.stub = kernel.symbol ↔ kernel.Recoverable := by
  cases kernel with
  | plain name =>
    have here : beforeFirst stubMarker (stubMarker ++ name) = some [] :=
      beforeFirst_here (prefix_append _ _)
        (append_ne_nil_of_left_ne_nil stubMarker_ne_nil _)
    refine ⟨fun _ => trivial, fun _ => ?_⟩
    show deviceSymbolFromStub (stubMarker ++ name) = name
    rw [deviceSymbolFromStub, here]
    exact drop_left
  | mangled name =>
    show deviceSymbolFromStub name.stub = name.symbol ↔ name.Recoverable
    by_cases unmarked : stubMarker <:+: name.before
    · exact ⟨fun same => absurd same (name.not_recovered_of_marked unmarked),
        fun recoverable => absurd unmarked recoverable.unmarked⟩
    have length : (stubMarker ++ name.id).length = name.id.length + 15 := by
      rw [length_append, add_comm]
      rfl
    have taken := name.endDigits_append fun _ => isDigit_decimal
      (n := (stubMarker ++ name.id).length)
    have scanned : name.scannedDigits ≠ [] :=
      append_ne_nil_of_right_ne_nil _ (decimal_ne_nil _)
    have dropped : name.stub.drop ((name.before ++
        decimal (stubMarker ++ name.id).length).length + stubMarker.length) = name.rest := by
      rw [name.stub_eq, ← length_append, ← append_assoc, drop_left]
    have positive : 0 < name.id.length := length_pos_iff.mpr name.named
    have enough : ¬ strtoull name.scannedDigits < stubMarker.length := by
      have value := value_append_decimal name.endDigits (stubMarker ++ name.id).length
      have marker : stubMarker.length = 15 := rfl
      rw [strtoull_eq, MangledName.scannedDigits, value, length, marker]
      omega
    rw [deviceSymbolFromStub_of_before (name.beforeFirst_stub unmarked)
      (append_ne_nil_of_right_ne_nil _ (decimal_ne_nil _)), taken.1, taken.2, dropped]
    change (if name.scannedDigits = [] then [] else if
      strtoull name.scannedDigits < stubMarker.length then [] else _) = _ ↔ _
    rw [if_neg scanned, if_neg enough, name.symbol_eq, append_cancel_right_eq, name.before_eq,
      append_assoc, append_cancel_left_eq]
    have numeral := decimal_strtoull_iff (fun _ member => name.isDigit_endDigits member) positive
    rw [← length] at numeral
    refine numeral.trans ⟨fun ⟨apart, small⟩ => ⟨unmarked, apart, small⟩,
      fun recoverable => ⟨recoverable.apart, recoverable.small⟩⟩

/-- `namespace { __global__ void kernel(); }`: the anonymous namespace is the component
`12_GLOBAL__N_1`, which ends in a digit. -/
def anonymousKernel : KernelName :=
  .mangled ⟨['_', 'Z', 'N', '1', '2', '_', 'G', 'L', 'O', 'B', 'A', 'L', '_', '_', 'N', '_', '1'],
    ['k', 'e', 'r', 'n', 'e', 'l'], ['E', 'v'], by decide⟩

/-- The stub `_ZN12_GLOBAL__N_121__device_stub__kernelEv` becomes `_ZN12_GLOBAL__N_106kernelEv`. -/
theorem anonymousKernel_not_recovered :
    ¬ ∀ kernel : KernelName, deviceSymbolFromStub kernel.stub = kernel.symbol :=
  fun recovers => absurd (recovers anonymousKernel) (by decide)

end CuMetal.Cumetalc
