import CuMetal.Lib.CppTokens

/-!
# Expressions of C++

The grammar of expressions over tokens, as far as expressions without assignment operators other
than `=`, increments, casts in C notation and lambdas go, with `as_type` of Metal. A level is a
place in the chain of the grammar, from full expressions (1) and assignment expressions (2) over the
binary operators (3 to 12) to unary expressions (13), postfix expressions (14) and what is closed in
itself (15).
-/

namespace CuMetal.Cpp

open List

/-- The tree of an expression; parentheses are not in it. A type that is more than one word can
stand in angle brackets, but neither before a parenthesis nor before a brace. -/
inductive Tree
  | name (parts : List (List Char))
  | typeName (type : List Token)
  | number (spelling : List Char)
  | unary (operation : List Char) (operand : Tree)
  | binary (operation : List Char) (left right : Tree)
  | conditional (condition trueValue falseValue : Tree)
  | subscript (base index : Tree)
  | member (base : Tree) (member : List Char)
  | apply (callee : Tree) (arguments : List Tree)
  | braces (type : List Token) (elements : List Tree)
  | reinterpretCast (type : List Token) (operand : Tree)
  | asType (type : List Token) (arguments : List Tree)

/-- The binary operators, each with its level and those of its operands: `=` is the one that groups
to the right. -/
def binaryOperators : List (String × Nat × Nat × Nat) :=
  [(",", 1, 1, 2), ("=", 2, 3, 2), ("||", 3, 3, 4), ("&&", 4, 4, 5), ("|", 5, 5, 6),
    ("^", 6, 6, 7), ("&", 7, 7, 8), ("==", 8, 8, 9), ("!=", 8, 8, 9), ("<", 9, 9, 10),
    ("<=", 9, 9, 10), (">", 9, 9, 10), (">=", 9, 9, 10), ("<<", 10, 10, 11), (">>", 10, 10, 11),
    ("+", 11, 11, 12), ("-", 11, 11, 12), ("*", 12, 12, 13), ("/", 12, 12, 13), ("%", 12, 12, 13)]

def levelsOf (operation : List Char) : Option (Nat × Nat × Nat) :=
  (binaryOperators.find? fun row => row.1.toList == operation).map Prod.snd

def unaryOperators : List (List Char) := [['*'], ['&'], ['+'], ['-'], ['!'], ['~']]

/-- Words that are no names: operators that are spelled as words, and what starts a construct of its
own. -/
def reservedWords : List String :=
  ["as_type", "reinterpret_cast", "static_cast", "const_cast", "dynamic_cast", "and", "and_eq",
    "bitand", "bitor", "compl", "not", "not_eq", "or", "or_eq", "xor", "xor_eq", "sizeof", "alignof",
    "typeid", "noexcept", "new", "delete", "throw", "co_await", "co_yield", "operator", "template",
    "typename", "thread_local"]

def reinterpretCastWord : List Char := "reinterpret_cast".toList

def asTypeWord : List Char := "as_type".toList

def isPlain (c : Char) : Bool := c != '(' && c != ')'

def isName (spelling : List Char) : Bool :=
  spelling != [] && spelling.all isPlain &&
    !reservedWords.any fun reserved => reserved.toList == spelling

def isTypeToken : Token → Bool
  | .word spelling | .number spelling => spelling.all isPlain
  | .mark spelling => spelling == ['*'] || spelling == ['&'] || spelling == ['&', '&']

def nameTokens : List (List Char) → List Token
  | [] => []
  | [part] => [.word part]
  | part :: next :: rest => .word part :: scope :: nameTokens (next :: rest)

def separated : List (List Token) → List Token
  | [] => []
  | [L] => L
  | L :: next :: rest => L ++ sign ',' :: separated (next :: rest)

/-- The tokens make an expression of a level. The arguments of a call come as the tokens and the
tree of each. -/
inductive Derives : Nat → List Token → Tree → Prop
  | loosen {level : Nat} {L : List Token} {a : Tree} : Derives (level + 1) L a → Derives level L a
  | binary {operation : List Char} {level left right : Nat} {A B : List Token} {a b : Tree} :
      levelsOf operation = some (level, left, right) → Derives left A a → Derives right B b →
      Derives level (A ++ .mark operation :: B) (.binary operation a b)
  | conditional {C A B : List Token} {c a b : Tree} : Derives 3 C c → Derives 1 A a →
      Derives 2 B b → Derives 2 (C ++ sign '?' :: (A ++ sign ':' :: B)) (.conditional c a b)
  | unary {operation : List Char} {A : List Token} {a : Tree} : operation ∈ unaryOperators →
      Derives 13 A a → Derives 13 (.mark operation :: A) (.unary operation a)
  | subscript {A B : List Token} {a b : Tree} : Derives 14 A a → Derives 1 B b →
      Derives 14 (A ++ sign '[' :: (B ++ [sign ']'])) (.subscript a b)
  | member {A : List Token} {a : Tree} {member : List Char} : Derives 14 A a →
      isName member = true → Derives 14 (A ++ [sign '.', .word member]) (.member a member)
  | apply {F : List Token} {f : Tree} {parts : List (List Token × Tree)} : Derives 14 F f →
      (∀ part ∈ parts, Derives 2 part.1 part.2) →
      Derives 14 (F ++ sign '(' :: (separated (parts.map Prod.fst) ++ [sign ')']))
        (.apply f (parts.map Prod.snd))
  | name {part : List Char} {rest : List (List Char)} : (∀ p ∈ part :: rest, isName p = true) →
      Derives 15 (nameTokens (part :: rest)) (.name (part :: rest))
  | number {spelling : List Char} : spelling.all isPlain = true → spelling ≠ [] →
      Derives 15 [.number spelling] (.number spelling)
  | braces {type : List Char} {parts : List (List Token × Tree)} : isName type = true →
      (∀ part ∈ parts, Derives 2 part.1 part.2) →
      Derives 15 (.word type :: sign '{' :: (separated (parts.map Prod.fst) ++ [sign '}']))
        (.braces [.word type] (parts.map Prod.snd))
  | reinterpretCast {type A : List Token} {a : Tree} : type.all isTypeToken = true →
      Derives 1 A a →
      Derives 15 (.word reinterpretCastWord :: sign '<' ::
        (type ++ sign '>' :: sign '(' :: (A ++ [sign ')']))) (.reinterpretCast type a)
  | asType {type : List Token} {parts : List (List Token × Tree)} : type.all isTypeToken = true →
      (∀ part ∈ parts, Derives 2 part.1 part.2) →
      Derives 15 (.word asTypeWord :: sign '<' ::
        (type ++ sign '>' :: sign '(' :: (separated (parts.map Prod.fst) ++ [sign ')'])))
        (.asType type (parts.map Prod.snd))
  | parenthesized {A : List Token} {a : Tree} : Derives 1 A a →
      Derives 15 (sign '(' :: (A ++ [sign ')'])) a

/-- The tokens make a list of expressions between commas. -/
def DerivesAll (L : List Token) (arguments : List Tree) : Prop :=
  ∃ parts : List (List Token × Tree), (∀ part ∈ parts, Derives 2 part.1 part.2) ∧
    separated (parts.map Prod.fst) = L ∧ parts.map Prod.snd = arguments

theorem Derives.le {level level' : Nat} {L : List Token} {a : Tree} (derives : Derives level' L a)
    (looser : level ≤ level') : Derives level L a := by
  induction level' with
  | zero =>
    obtain rfl : level = 0 := by omega
    exact derives
  | succ level' ih =>
    rcases Nat.eq_or_lt_of_le looser with rfl | looser
    · exact derives
    · exact ih (.loosen derives) (by omega)

variable {operation A : List Char} {levels : Nat × Nat × Nat}

theorem row_of_levelsOf (known : levelsOf operation = some levels) :
    ∃ row ∈ binaryOperators, row.1.toList = operation ∧ row.2 = levels := by
  obtain ⟨row, found, rfl⟩ := Option.map_eq_some_iff.mp known
  have same := find?_some found
  exact ⟨row, mem_of_find?_eq_some found, beq_iff_eq.mp same, rfl⟩

theorem levelsOf_cases {P : List Char → Nat × Nat × Nat → Bool}
 (known : levelsOf operation = some levels)
    (all : binaryOperators.all (fun row => P row.1.toList row.2) = true) :
    P operation levels = true := by
  obtain ⟨row, mem, rfl, rfl⟩ := row_of_levelsOf known
  exact all_eq_true.mp all row mem

theorem operation_plain (known : levelsOf operation = some levels) :
    operation.all isPlain = true ∧ operation ≠ [] := by
  have plain := levelsOf_cases (P := fun spelling _ => spelling.all isPlain && spelling != [])
    known (by decide)
  rw [Bool.and_eq_true, bne_iff_ne] at plain
  exact plain

theorem unary_plain (known : operation ∈ unaryOperators) :
    operation.all isPlain = true ∧ operation ≠ [] := by
  simp only [unaryOperators, mem_cons, not_mem_nil, or_false] at known
  rcases known with rfl | rfl | rfl | rfl | rfl | rfl <;> exact ⟨by decide, by decide⟩

/-- How deep in parentheses a text ends that starts at a depth, unless it closes more than there
is. -/
def depth : Nat → List Char → Option Nat
  | d, [] => some d
  | d, c :: rest =>
    if c = '(' then depth (d + 1) rest
    else if c = ')' then if d = 0 then none else depth (d - 1) rest
    else depth d rest

attribute [local simp] depth

def Nested (text : List Char) : Prop := depth 0 text = some 0

theorem depth_append (d : Nat) (A B : List Char) :
    depth d (A ++ B) = (depth d A).bind fun e => depth e B := by
  induction A generalizing d with
  | nil => rfl
  | cons c rest ih =>
    rw [cons_append, depth, depth]
    by_cases opens : c = '('
    · rw [if_pos opens, if_pos opens, ih]
    · rw [if_neg opens, if_neg opens]
      by_cases closes : c = ')'
      · rw [if_pos closes, if_pos closes]
        by_cases zero : d = 0
        · rw [if_pos zero, if_pos zero]
          rfl
        · rw [if_neg zero, if_neg zero, ih]
      · rw [if_neg closes, if_neg closes, ih]

theorem depth_shift {d e : Nat} (ends_ : depth d A = some e) (k : Nat) :
    depth (d + k) A = some (e + k) := by
  induction A generalizing d with
  | nil =>
    cases ends_
    rfl
  | cons c rest ih =>
    rw [depth] at ends_ ⊢
    by_cases opens : c = '('
    · rw [if_pos opens] at ends_ ⊢
      rw [Nat.add_right_comm]
      exact ih ends_
    · rw [if_neg opens] at ends_ ⊢
      by_cases closes : c = ')'
      · rw [if_pos closes] at ends_ ⊢
        by_cases zero : d = 0
        · rw [if_pos zero] at ends_
          cases ends_
        · rw [if_neg zero] at ends_
          have back : d + k - 1 = d - 1 + k := by omega
          rw [if_neg (by omega), back]
          exact ih ends_
      · rw [if_neg closes] at ends_ ⊢
        exact ih ends_

theorem Nested.append {B : List Char} (left : Nested A) (right : Nested B) : Nested (A ++ B) := by
  rw [Nested, depth_append, left]
  exact right

theorem nested_nil : Nested [] := rfl

theorem nested_plain (plain : A.all isPlain = true) : Nested A := by
  induction A with
  | nil => rfl
  | cons c rest ih =>
    rw [all_cons, Bool.and_eq_true, isPlain, Bool.and_eq_true, bne_iff_ne, bne_iff_ne]
      at plain
    rw [Nested, depth, if_neg plain.1.1, if_neg plain.1.2]
    exact ih plain.2

theorem Nested.wrap (nested : Nested A) : Nested ('(' :: (A ++ [')'])) := by
  have inside := depth_shift nested 1
  rw [Nested, depth, if_pos rfl, depth_append, inside]
  rfl

/-- What is in parentheses as a whole does not start with a shorter text whose parentheses match. -/
theorem Nested.not_wrapped {X Z : List Char} (inside : Nested A) (nested : Nested X)
    (some_ : X ≠ []) (more : Z ≠ []) (same : X ++ Z = '(' :: (A ++ [')'])) : False := by
  cases X with
  | nil => exact some_ rfl
  | cons c X =>
    rw [cons_append, cons.injEq] at same
    obtain ⟨rfl, same⟩ := same
    rcases eq_nil_or_concat Z with rfl | ⟨Y, last, rfl⟩
    · exact more rfl
    · rw [concat_eq_append, ← append_assoc] at same
      obtain ⟨rfl, -⟩ := append_inj' same rfl
      rw [Nested, depth_append] at inside
      rw [Nested, depth, if_pos rfl] at nested
      cases start : depth 0 X with
      | none =>
        rw [start] at inside
        cases inside
      | some e =>
        have shifted := depth_shift start 1
        rw [Nat.zero_add] at shifted nested
        rw [shifted] at nested
        cases nested

end CuMetal.Cpp
