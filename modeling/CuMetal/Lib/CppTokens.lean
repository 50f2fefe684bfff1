import Mathlib.Data.List.Basic

/-!
# Tokens of C++ text

The division of a text into tokens by maximal munch: a token takes each character that makes a
longer token of it. Every prefix of an operator is an operator, so one character at a time will do.
Comments, and literals between quotes, are left out.
-/

namespace CuMetal.Cpp

open List

/-- A token: an identifier or keyword, a number (`pp-number`), or an operator or punctuator. -/
inductive Token
  | word (spelling : List Char)
  | number (spelling : List Char)
  | mark (spelling : List Char)
  deriving DecidableEq

def Token.spelling : Token → List Char
  | .word spelling | .number spelling | .mark spelling => spelling

/-- The operator or punctuator of one character. -/
def sign (c : Char) : Token := .mark [c]

@[simp] theorem spelling_sign (c : Char) : (sign c).spelling = [c] := rfl

@[simp] theorem spelling_word (spelling : List Char) :
    (Token.word spelling).spelling = spelling := rfl

@[simp] theorem spelling_number (spelling : List Char) :
    (Token.number spelling).spelling = spelling := rfl

@[simp] theorem spelling_mark (spelling : List Char) :
    (Token.mark spelling).spelling = spelling := rfl

/-- `::`. -/
def scope : Token := .mark [':', ':']

/-- The operators and punctuators of more than one character. -/
def longOperators : List String :=
  ["<<=", ">>=", "->*", "++", "--", "->", "<<", ">>", "<=", ">=", "==", "!=", "&&", "||", "+=",
    "-=", "*=", "/=", "%=", "&=", "|=", "^=", "::", ".*", "##"]

def isWordCharacter (c : Char) : Bool := c.isAlphanum || c == '_'

/-- The sign of an exponent belongs to a number. -/
def afterExponent (spelling : List Char) (c : Char) : Bool :=
  (c == '+' || c == '-') &&
    (match spelling.getLast? with
      | some last => last == 'e' || last == 'E' || last == 'p' || last == 'P'
      | none => false)

/-- The token with one more character, where that is a token. -/
def Token.extend (c : Char) : Token → Option Token
  | .word spelling => if isWordCharacter c then some (.word (spelling ++ [c])) else none
  | .number spelling =>
    if isWordCharacter c || c == '.' || afterExponent spelling c then
      some (.number (spelling ++ [c]))
    else none
  | .mark spelling =>
    if spelling == ['.'] && c.isDigit then some (.number ['.', c])
    else if longOperators.any fun long => long.toList == spelling ++ [c] then
      some (.mark (spelling ++ [c]))
    else none

/-- The token that a character starts, if it is no space. -/
def start (c : Char) : Option Token :=
  if c == ' ' || c == '\n' || c == '\t' then none
  else if c.isDigit then some (.number [c])
  else if isWordCharacter c then some (.word [c])
  else some (.mark [c])

/-- The tokens of a text that follows an unfinished token. -/
def scan : Option Token → List Char → List Token
  | pending, [] => pending.toList
  | none, c :: rest => scan (start c) rest
  | some token, c :: rest =>
    match token.extend c with
    | some longer => scan (some longer) rest
    | none => token :: scan (start c) rest

def tokens (text : List Char) : List Token := scan none text

/-- The token that is unfinished at the end of a text. -/
def pendingAfter : Option Token → List Char → Option Token
  | pending, [] => pending
  | none, c :: rest => pendingAfter (start c) rest
  | some token, c :: rest =>
    match token.extend c with
    | some longer => pendingAfter (some longer) rest
    | none => pendingAfter (start c) rest

/-- A character that ends every token before it. -/
def Breaks (c : Char) : Prop := ∀ token : Token, token.extend c = none

/-- A text that starts a new token after a token. -/
def Apart (token : Token) (text : List Char) : Prop := ∀ c ∈ text.head?, token.extend c = none

variable {c : Char} {token : Token}

theorem scan_cons (pending : Option Token) (breaks : ∀ t ∈ pending, t.extend c = none)
    (rest : List Char) : scan pending (c :: rest) = pending.toList ++ scan (start c) rest := by
  cases pending with
  | none => rw [scan, Option.toList_none, nil_append]
  | some token =>
    rw [scan, breaks token rfl]
    rfl

theorem scan_apart {text : List Char} (apart : Apart token text) :
    scan (some token) text = token :: tokens text := by
  cases text with
  | nil => rfl
  | cons c rest =>
    rw [scan_cons (some token) fun t mem => by cases mem; exact apart c rfl]
    rfl

/-- What follows a text is scanned after the token that the text leaves unfinished. -/
theorem scan_append (pending : Option Token) (first second : List Char) :
    ∃ front, scan pending first = front ++ (pendingAfter pending first).toList ∧
      scan pending (first ++ second) = front ++ scan (pendingAfter pending first) second := by
  induction first generalizing pending with
  | nil => exact ⟨[], by simp [scan, pendingAfter], by simp [pendingAfter]⟩
  | cons c rest ih =>
    cases pending with
    | none =>
      obtain ⟨front, own, all⟩ := ih (start c)
      exact ⟨front, by rw [scan, own, pendingAfter],
        by rw [cons_append, scan, all, pendingAfter]⟩
    | some token =>
      cases longer : token.extend c with
      | some longer_ =>
        obtain ⟨front, own, all⟩ := ih (some longer_)
        exact ⟨front, by simp only [scan, longer, own, pendingAfter],
          by simp only [cons_append, scan, longer, all, pendingAfter]⟩
      | none =>
        obtain ⟨front, own, all⟩ := ih (start c)
        exact ⟨token :: front, by simp only [scan, longer, own, pendingAfter, cons_append],
          by simp only [cons_append, scan, longer, all, pendingAfter]⟩

/-- Two texts are scanned on their own when the second one extends no token that the first one
leaves unfinished. -/
theorem tokens_append {first second : List Char}
    (apart : ∀ token ∈ pendingAfter none first, Apart token second) :
    tokens (first ++ second) = tokens first ++ tokens second := by
  obtain ⟨front, own, all⟩ := scan_append none first second
  rw [tokens, tokens, own, all]
  cases pending : pendingAfter none first with
  | none => simp [tokens]
  | some token =>
    rw [scan_apart (apart token pending), Option.toList_some, append_assoc]
    rfl

/-- A bracket or another character that is a token of its own wherever it stands. -/
def isPunctuator (c : Char) : Bool :=
  c == '(' || c == ')' || c == '[' || c == ']' || c == '{' || c == '}' || c == ',' || c == '?'

theorem longOperators_last
    (no : longOperators.all (fun long => long.toList.getLast? != some c) = true)
    (spelling : List Char) :
    (longOperators.any fun long => long.toList == spelling ++ [c]) = false := by
  rw [any_eq_false]
  intro long mem same
  have other := all_eq_true.mp no long mem
  rw [beq_iff_eq.mp same] at other
  simp at other

/-- A character that is no part of a name, a number or the end of an operator ends every token. -/
theorem breaks_of_plain (plain : isWordCharacter c = false) (dot : (c == '.') = false)
    (sign : (c == '+' || c == '-') = false) (digit : c.isDigit = false)
    (last : longOperators.all (fun long => long.toList.getLast? != some c) = true) : Breaks c := by
  rintro (spelling | spelling | spelling)
  · rw [Token.extend, plain]
    rfl
  · rw [Token.extend, plain, dot, afterExponent, sign]
    rfl
  · rw [Token.extend, digit, Bool.and_false, longOperators_last last spelling]
    rfl

theorem breaks_space : Breaks ' ' :=
  breaks_of_plain (by decide) (by decide) (by decide) (by decide) (by decide)

/-- What a punctuator does to the tokens around it. -/
structure Alone (c : Char) : Prop where
  breaks : Breaks c
  start : start c = some (.mark [c])
  closed : ∀ d, (Token.mark [c]).extend d = none

variable {spelling : List Char}

theorem closed_mark (dot : (spelling == ['.']) = false)
    (no : longOperators.all (fun long => long.toList.dropLast != spelling) = true) (d : Char) :
    (Token.mark spelling).extend d = none := by
  have none_ : (longOperators.any fun long => long.toList == spelling ++ [d]) = false := by
    rw [any_eq_false]
    intro long mem same
    have other := all_eq_true.mp no long mem
    rw [beq_iff_eq.mp same, dropLast_concat] at other
    simp at other
  rw [Token.extend, dot, none_]
  rfl

theorem alone_of_punctuator (punctuator : isPunctuator c = true) : Alone c := by
  simp only [isPunctuator, Bool.or_eq_true, beq_iff_eq, or_assoc] at punctuator
  rcases punctuator with rfl | rfl | rfl | rfl | rfl | rfl | rfl | rfl
  all_goals exact
    ⟨breaks_of_plain (by decide) (by decide) (by decide) (by decide) (by decide), by decide,
      closed_mark (by decide) (by decide)⟩

theorem tokens_breaks (breaks : Breaks c) (first rest : List Char) :
    tokens (first ++ c :: rest) = tokens first ++ scan (start c) rest := by
  obtain ⟨front, own, all⟩ := scan_append none first (c :: rest)
  rw [tokens, tokens, own, all, scan_cons _ fun token _ => breaks token, append_assoc]

theorem tokens_space (first rest : List Char) :
    tokens (first ++ ' ' :: rest) = tokens first ++ tokens rest :=
  tokens_breaks breaks_space first rest

/-- A punctuator stands between what is before it and what is after it. -/
theorem tokens_punctuator (punctuator : isPunctuator c = true) (first rest : List Char) :
    tokens (first ++ c :: rest) = tokens first ++ sign c :: tokens rest := by
  have alone := alone_of_punctuator punctuator
  rw [tokens_breaks alone.breaks, alone.start, scan_apart fun d _ => alone.closed d, sign]

theorem tokens_operator (single : tokens spelling = [token]) (first rest : List Char) :
    tokens (first ++ ' ' :: (spelling ++ ' ' :: rest)) = tokens first ++ token :: tokens rest := by
  rw [tokens_space, tokens_space, single, singleton_append]

def isSpace (c : Char) : Bool := c == ' ' || c == '\n' || c == '\t'

def letters (list : List Token) : List Char := list.flatMap Token.spelling

theorem spelling_extend {longer : Token} (extends_ : token.extend c = some longer) :
    longer.spelling = token.spelling ++ [c] := by
  rcases token with spelling | spelling | spelling
  · rw [Token.extend] at extends_
    split at extends_
    · cases extends_
      rfl
    · cases extends_
  · rw [Token.extend] at extends_
    split at extends_
    · cases extends_
      rfl
    · cases extends_
  · rw [Token.extend] at extends_
    split at extends_
    · rename_i dot
      rw [Bool.and_eq_true, beq_iff_eq] at dot
      cases extends_
      rw [Token.spelling, Token.spelling, dot.1]
      rfl
    · split at extends_
      · cases extends_
        rfl
      · cases extends_

theorem letters_start (c : Char) :
    letters (start c).toList = if isSpace c then [] else [c] := by
  rw [start, isSpace]
  split
  · rfl
  · split
    · rfl
    · split <;> rfl

theorem letters_scan (pending : Option Token) (text : List Char) :
    letters (scan pending text) =
      letters pending.toList ++ text.filter fun c => !isSpace c := by
  induction text generalizing pending with
  | nil => cases pending <;> simp [scan, letters]
  | cons c rest ih =>
    have started := letters_start c
    cases pending with
    | none =>
      rw [scan, ih, started, filter_cons]
      cases isSpace c <;> simp [letters]
    | some token =>
      cases longer : token.extend c with
      | some longer_ =>
        have space : isSpace c = false := by
          by_contra space
          rw [Bool.not_eq_false, isSpace, Bool.or_eq_true, Bool.or_eq_true, beq_iff_eq,
            beq_iff_eq, beq_iff_eq] at space
          rcases space with (rfl | rfl) | rfl
          · exact nomatch longer.symm.trans (breaks_space token)
          · exact nomatch longer.symm.trans (breaks_of_plain (by decide) (by decide)
              (by decide) (by decide) (by decide) token)
          · exact nomatch longer.symm.trans (breaks_of_plain (by decide) (by decide)
              (by decide) (by decide) (by decide) token)
        simp only [scan, longer]
        rw [ih, filter_cons]
        simp [letters, spelling_extend longer, space]
      | none =>
        simp only [scan, longer]
        rw [letters, flatMap_cons, ← letters, ih, started, filter_cons]
        cases isSpace c <;> simp [letters]

/-- The characters of the tokens of a text are those of the text but the spaces. -/
theorem letters_tokens (text : List Char) :
    letters (tokens text) = text.filter fun c => !isSpace c := by
  rw [tokens, letters_scan]
  rfl

@[simp] theorem letters_append (first second : List Token) :
    letters (first ++ second) = letters first ++ letters second := flatMap_append

@[simp] theorem letters_cons (token : Token) (rest : List Token) :
    letters (token :: rest) = token.spelling ++ letters rest := flatMap_cons

end CuMetal.Cpp
