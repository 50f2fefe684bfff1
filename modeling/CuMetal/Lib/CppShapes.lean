import CuMetal.Lib.CppExpressions

/-!
# Shapes of tokens

Which tokens a text has, by its characters, and which token its end leaves unfinished.
-/

namespace CuMetal.Cpp

open List Token

/-- The end of a text is scanned after what its beginning leaves unfinished. -/
theorem pendingAfter_append (pending : Option Token) (first second : List Char) :
    pendingAfter pending (first ++ second) = pendingAfter (pendingAfter pending first) second := by
  induction first generalizing pending with
  | nil => rw [nil_append, pendingAfter]
  | cons c rest ih =>
    cases pending with
    | none => rw [cons_append, pendingAfter, pendingAfter, ih]
    | some token =>
      cases longer : token.extend c with
      | some longer_ => simp only [cons_append, pendingAfter, longer, ih]
      | none => simp only [cons_append, pendingAfter, longer, ih]

variable {c : Char} {text : List Char} {token : Token}

theorem pendingAfter_isSome (letter : isSpace c = false) (first : List Char) :
    (pendingAfter none (first ++ [c])).isSome = true := by
  have begun : (start c).isSome = true := by
    rw [isSpace] at letter
    rw [start, letter, if_neg (by decide)]
    split
    · rfl
    · split <;> rfl
  rw [pendingAfter_append]
  cases pendingAfter none first with
  | none => exact begun
  | some token =>
    cases longer : token.extend c with
    | some longer_ => simp only [pendingAfter, longer, Option.isSome_some]
    | none => simp only [pendingAfter, longer, begun]

theorem getLast?_tokens
    (pending : pendingAfter none text = some token) : (tokens text).getLast? = some token := by
  obtain ⟨front, own, -⟩ := scan_append none text []
  rw [tokens, own, pending, Option.toList_some, getLast?_append_of_ne_nil _ (by simp)]
  rfl

/-- Words and numbers are not empty, and there is no parenthesis in them. -/
def Token.IsPlain : Token → Prop
  | .word spelling | .number spelling => spelling ≠ [] ∧ spelling.all isPlain = true
  | .mark _ => True

theorem isPlain_of_word (word : isWordCharacter c = true) : isPlain c = true := by
  rw [isPlain, Bool.and_eq_true, bne_iff_ne, bne_iff_ne]
  constructor <;> rintro rfl <;> exact absurd word (by decide)

variable {longer : Token} {spelling : List Char}

theorem plain_extend (plain : token.IsPlain) (extends_ : token.extend c = some longer) :
    longer.IsPlain := by
  rcases token with spelling | spelling | spelling
  · rw [extend] at extends_
    split at extends_
    · next word =>
        cases extends_
        exact ⟨by simp, by simp [plain.2, isPlain_of_word word]⟩
    · cases extends_
  · rw [extend] at extends_
    split at extends_
    · next word =>
        have own : isPlain c = true := by
          rw [Bool.or_eq_true, Bool.or_eq_true, beq_iff_eq, afterExponent, Bool.and_eq_true,
            Bool.or_eq_true, beq_iff_eq, beq_iff_eq] at word
          rcases word with (word | rfl) | ⟨rfl | rfl, -⟩
          · exact isPlain_of_word word
          · decide
          · decide
          · decide
        cases extends_
        exact ⟨by simp, by simp [plain.2, own]⟩
    · cases extends_
  · rw [extend] at extends_
    split at extends_
    · next dot =>
        rw [Bool.and_eq_true] at dot
        have own : isPlain c = true :=
          isPlain_of_word (by rw [isWordCharacter, Char.isAlphanum, dot.2, Bool.or_true]; rfl)
        cases extends_
        exact ⟨by simp, by simp [own]; decide⟩
    · split at extends_
      · cases extends_
        trivial
      · cases extends_

theorem plain_start (starts : start c = some token) :
    token.IsPlain := by
  rw [start] at starts
  split at starts
  · cases starts
  · split at starts
    · next digit =>
        have own : isPlain c = true :=
          isPlain_of_word (by rw [isWordCharacter, Char.isAlphanum, digit, Bool.or_true]; rfl)
        cases starts
        exact ⟨by simp, by simp [own]⟩
    · split at starts
      · next word =>
          cases starts
          exact ⟨by simp, by simp [isPlain_of_word word]⟩
      · cases starts
        trivial

/-- What holds of every token that a character starts, and of every longer one, holds of every
token of a text. -/
theorem scan_forall {P : Token → Prop} {Q : Char → Prop}
    (begins : ∀ c token, Q c → start c = some token → P token)
    (extends_ : ∀ c token longer, Q c → P token → token.extend c = some longer → P longer)
    {pending : Option Token} (first : ∀ token ∈ pending, P token)
    (letters : ∀ c ∈ text, Q c) : ∀ token ∈ scan pending text, P token := by
  induction text generalizing pending with
  | nil =>
    intro token mem
    rw [scan, Option.mem_toList] at mem
    exact first token mem
  | cons c rest ih =>
    have own := letters c mem_cons_self
    have others : ∀ d ∈ rest, Q d := fun d mem => letters d (mem_cons_of_mem _ mem)
    have fresh : ∀ token ∈ start c, P token := fun token starts => begins c token own starts
    cases pending with
    | none =>
      rw [scan]
      exact ih fresh others
    | some token =>
      cases longer : token.extend c with
      | some longer_ =>
        simp only [scan, longer]
        refine ih ?_ others
        rintro _ ⟨⟩
        exact extends_ c token longer_ own (first token rfl) longer
      | none =>
        simp only [scan, longer, mem_cons]
        rintro other (rfl | mem)
        · exact first other rfl
        · exact ih fresh others other mem

theorem tokens_plain (text : List Char) : ∀ token ∈ tokens text, token.IsPlain :=
  scan_forall (Q := fun _ => True) (fun _ _ _ => plain_start)
    (fun _ _ _ _ plain => plain_extend plain)
    (fun token mem => absurd mem (Option.not_mem_none token)) fun _ _ => trivial

theorem scan_word (letters : ∀ c ∈ text, isWordCharacter c = true) :
    scan (some (.word spelling)) text = [.word (spelling ++ text)] := by
  induction text generalizing spelling with
  | nil => rw [scan, append_nil, Option.toList_some]
  | cons c rest ih =>
    have longer : (word spelling).extend c = some (.word (spelling ++ [c])) :=
      if_pos (letters c mem_cons_self)
    simp only [scan, longer]
    rw [ih fun d mem => letters d (mem_cons_of_mem _ mem), append_assoc]
    rfl

theorem start_word (word : isWordCharacter c = true) (first : c.isDigit = false) :
    start c = some (.word [c]) := by
  have space : (c == ' ' || c == '\n' || c == '\t') = false := by
    rw [Bool.eq_false_iff]
    intro space
    rw [Bool.or_eq_true, Bool.or_eq_true, beq_iff_eq, beq_iff_eq, beq_iff_eq] at space
    rcases space with (rfl | rfl) | rfl <;> exact absurd word (by decide)
  rw [start, space, if_neg (by decide), first, if_neg (by decide), if_pos word]

theorem tokens_word {rest : List Char} (first : c.isDigit = false)
    (letters : ∀ d ∈ c :: rest, isWordCharacter d = true) :
    tokens (c :: rest) = [.word (c :: rest)] := by
  rw [tokens, scan, start_word (letters c mem_cons_self) first,
    scan_word fun d mem => letters d (mem_cons_of_mem _ mem)]
  rfl

theorem tokens_first (word : isWordCharacter c = true) (first : c.isDigit = false)
    (rest : List Char) : ∃ spelling more, tokens (c :: rest) = .word spelling :: more := by
  have go : ∀ spelling,
      ∃ longer more, scan (some (.word spelling)) rest = .word longer :: more := by
    induction rest with
    | nil => exact fun spelling => ⟨spelling, [], rfl⟩
    | cons d rest ih =>
      intro spelling
      cases longer : (Token.word spelling).extend d with
      | some longer_ =>
        have same : longer_ = .word (spelling ++ [d]) := by
          rw [extend] at longer
          split at longer
          · exact (Option.some.inj longer).symm
          · cases longer
        simp only [scan, longer, same]
        exact ih _
      | none =>
        simp only [scan, longer]
        exact ⟨_, _, rfl⟩
  rw [tokens, scan, start_word word first]
  exact go [c]

/-! ## Types -/

def isTypeCharacter (c : Char) : Bool := isWordCharacter c || c == ' ' || c == '*' || c == '&'

theorem mark_extend (dot : spelling ≠ ['.'])
    (extends_ : (mark spelling).extend c = some longer) :
    longer = .mark (spelling ++ [c]) ∧ ∃ long ∈ longOperators, long.toList = spelling ++ [c] := by
  have noDot : (spelling == ['.']) = false := beq_eq_false_iff_ne.mpr dot
  rw [extend, noDot] at extends_
  split at extends_
  · next digit => exact absurd digit (by simp)
  · split at extends_
    · next known =>
        obtain ⟨long, mem, same⟩ := any_eq_true.mp known
        exact ⟨(Option.some.inj extends_).symm, long, mem, beq_iff_eq.mp same⟩
    · cases extends_

/-- The tokens of a text of names, blanks and marks of indirection are those of a type. -/
theorem tokens_type (letters : ∀ c ∈ text, isTypeCharacter c = true) :
    (tokens text).all isTypeToken = true := by
  have typed : ∀ token ∈ tokens text, token.IsPlain ∧ isTypeToken token = true := by
    refine scan_forall (Q := fun c => isTypeCharacter c = true) ?_ ?_ ?_ letters
    · intro c token type starts
      refine ⟨plain_start starts, ?_⟩
      have plain := plain_start starts
      rw [start] at starts
      split at starts
      · cases starts
      · next space =>
          split at starts
          · cases starts
            exact plain.2
          · split at starts
            · cases starts
              exact plain.2
            · next word =>
                cases starts
                rw [isTypeCharacter, Bool.or_eq_true, Bool.or_eq_true, Bool.or_eq_true, beq_iff_eq,
                  beq_iff_eq, beq_iff_eq] at type
                rcases type with ((word' | rfl) | rfl) | rfl
                · exact absurd word' word
                · exact absurd rfl space
                · decide
                · decide
    · intro c token longer type own extends_
      have plain := plain_extend own.1 extends_
      refine ⟨plain, ?_⟩
      rcases longer with spelling | spelling | spelling
      · exact plain.2
      · exact plain.2
      · rcases token with start | start | start
        · rw [extend] at extends_
          split at extends_ <;> cases extends_
        · rw [extend] at extends_
          split at extends_ <;> cases extends_
        · have marks := own.2
          rw [isTypeToken, Bool.or_eq_true, Bool.or_eq_true, beq_iff_eq, beq_iff_eq,
            beq_iff_eq] at marks
          have dot : start ≠ ['.'] := by rcases marks with (rfl | rfl) | rfl <;> decide
          obtain ⟨same, long, mem, letters⟩ := mark_extend dot extends_
          cases same
          have ends_ : c = '=' ∨ start = ['&'] ∧ c = '&' := by
            rcases marks with (rfl | rfl) | rfl
            · have all : longOperators.all (fun long => long.toList.dropLast != ['*'] ||
                  long.toList.getLast? == some '=') = true := by decide
              have own := all_eq_true.mp all long mem
              rw [letters] at own
              exact .inl (by simpa using own)
            · have all : longOperators.all (fun long => long.toList.dropLast != ['&'] ||
                  (long.toList.getLast? == some '=' || long.toList.getLast? == some '&')) =
                    true := by decide
              have own := all_eq_true.mp all long mem
              rw [letters] at own
              have own : c = '=' ∨ c = '&' := by simpa using own
              exact own.imp_right fun same => ⟨rfl, same⟩
            · have all : (longOperators.all fun long => long.toList.dropLast != ['&', '&']) =
                  true := by decide
              have own := all_eq_true.mp all long mem
              rw [letters] at own
              simp at own
          rcases ends_ with rfl | ⟨rfl, rfl⟩
          · exact absurd type (by decide)
          · decide
    · exact fun token mem => absurd mem (Option.not_mem_none token)
  exact all_eq_true.mpr fun token mem => (typed token mem).2

theorem tokens_brackets {opening closing : Char} (opens : isPunctuator opening = true)
    (closes : isPunctuator closing = true) (first inside : List Char) :
    tokens (first ++ opening :: (inside ++ [closing])) =
      tokens first ++ sign opening :: (tokens inside ++ [sign closing]) := by
  rw [tokens_punctuator opens, tokens_punctuator closes]
  rfl

theorem tokens_angles (letters : ∀ c ∈ text, isTypeCharacter c = true)
    (front inside : List Char) {keyword : List Char}
    (opening : tokens front = [.word keyword, sign '<'])
    (pending : pendingAfter none front = some (sign '<')) :
    tokens (front ++ (text ++ '>' :: '(' :: (inside ++ [')']))) =
      .word keyword :: sign '<' ::
        (tokens text ++ sign '>' :: sign '(' :: (tokens inside ++ [sign ')'])) := by
  have less : ∀ token ∈ pendingAfter none front,
      Apart token (text ++ '>' :: '(' :: (inside ++ [')'])) := by
    intro token mem c head
    rw [pending, Option.mem_some] at mem
    subst mem
    cases extends_ : (sign '<').extend c with
    | none => rfl
    | some longer =>
      obtain ⟨-, long, known, same⟩ := mark_extend (by decide) extends_
      have all : longOperators.all (fun long => long.toList.dropLast != ['<'] ||
          (long.toList.getLast? == some '<' || long.toList.getLast? == some '=')) = true := by
        decide
      have own := all_eq_true.mp all long known
      rw [same] at own
      have ends_ : c = '<' ∨ c = '=' := by simpa using own
      have type : c = '>' ∨ isTypeCharacter c = true := by
        cases text with
        | nil => exact .inl (Option.some.inj head).symm
        | cons d text =>
          obtain rfl : d = c := Option.some.inj head
          exact .inr (letters d mem_cons_self)
      rcases ends_ with rfl | rfl <;> exact absurd type (by decide)
  have greater : ∀ token ∈ pendingAfter none text, Apart token ('>' :: '(' :: (inside ++ [')'])) := by
    rintro token mem _ ⟨⟩
    have typed := all_eq_true.mp (tokens_type letters) token
      (mem_of_getLast? (getLast?_tokens mem))
    rcases token with spelling | spelling | spelling
    · rfl
    · rfl
    · rw [isTypeToken, Bool.or_eq_true, Bool.or_eq_true, beq_iff_eq, beq_iff_eq,
        beq_iff_eq] at typed
      rcases typed with (rfl | rfl) | rfl <;> decide
  have closing : tokens ('>' :: '(' :: (inside ++ [')'])) =
      sign '>' :: sign '(' :: (tokens inside ++ [sign ')']) :=
    tokens_brackets (by decide) (by decide) ['>'] inside
  rw [tokens_append less, opening, tokens_append greater, closing]
  rfl

theorem pendingAfter_punctuator (punctuator : isPunctuator c = true)
    (first : List Char) : pendingAfter none (first ++ [c]) = some (sign c) := by
  have alone := alone_of_punctuator punctuator
  rw [pendingAfter_append]
  cases pendingAfter none first with
  | none => exact alone.start
  | some token =>
    simp only [pendingAfter, alone.breaks token]
    exact alone.start

theorem extend_dot (other : ∀ digits, token ≠ .number digits) :
    token.extend '.' = none := by
  rcases token with spelling | spelling | spelling
  · rfl
  · exact absurd rfl (other spelling)
  · have last := longOperators_last (c := '.') (by decide) spelling
    rw [extend, last]
    simp

section Members

variable {c : Char} {rest : List Char} (first : c.isDigit = false)
  (words : ∀ d ∈ c :: rest, isWordCharacter d = true)

include first words

theorem extend_dot_word : (sign '.').extend c = none := by
  have noLong : longOperators.all (fun long => long.toList.dropLast != ['.'] ||
      long.toList.getLast?.any fun d => !isWordCharacter d) = true := by decide
  have none_ : (longOperators.any fun long => long.toList == ['.', c]) = false := by
    rw [any_eq_false]
    intro long mem same
    have own := all_eq_true.mp noLong long mem
    rw [beq_iff_eq.mp same] at own
    have word := words c mem_cons_self
    simp [word] at own
  rw [sign, Token.extend, first, Bool.and_false, if_neg (by decide), singleton_append, none_]
  rfl

theorem tokens_member {text : List Char}
    (ends_ : ∀ digits, pendingAfter none text ≠ some (.number digits)) :
    tokens (text ++ '.' :: c :: rest) = tokens text ++ [sign '.', .word (c :: rest)] ∧
      pendingAfter none (text ++ '.' :: c :: rest) = some (.word (c :: rest)) := by
  have dot : ∀ token ∈ pendingAfter none text, token.extend '.' = none :=
    fun token mem => extend_dot fun digits same => ends_ digits (mem.trans (congrArg some same))
  have last : Apart (sign '.') (c :: rest) := by
    rintro _ ⟨⟩
    exact extend_dot_word first words
  have all : tokens (text ++ '.' :: c :: rest) =
      tokens text ++ [sign '.', .word (c :: rest)] := by
    rw [tokens_append (by rintro token mem _ ⟨⟩; exact dot token mem)]
    have own : tokens ('.' :: c :: rest) = scan (some (sign '.')) (c :: rest) := rfl
    rw [own, scan_apart last, tokens_word first words]
  refine ⟨all, ?_⟩
  have shape : text ++ '.' :: c :: rest = (text ++ '.' :: (c :: rest).dropLast) ++
      [(c :: rest).getLast (by simp)] := by
    rw [append_assoc, cons_append, dropLast_append_getLast]
  have space : isSpace ((c :: rest).getLast (by simp)) = false := by
    have word := words _ (getLast_mem (by simp : c :: rest ≠ []))
    rw [Bool.eq_false_iff, isSpace]
    intro space
    rw [Bool.or_eq_true, Bool.or_eq_true, beq_iff_eq, beq_iff_eq, beq_iff_eq] at space
    rcases space with (same | same) | same <;> rw [same] at word <;> exact absurd word (by decide)
  have some_ := pendingAfter_isSome space (text ++ '.' :: (c :: rest).dropLast)
  rw [← shape] at some_
  obtain ⟨token, pending⟩ := Option.isSome_iff_exists.mp some_
  have lastToken := getLast?_tokens pending
  rw [all, getLast?_append_of_ne_nil _ (by simp)] at lastToken
  rw [pending]
  exact lastToken.symm

omit first in
theorem pendingAfter_numberMember {text digits : List Char}
    (ends_ : pendingAfter none text = some (.number digits)) :
    ∃ longer, pendingAfter none (text ++ '.' :: c :: rest) = some (.number longer) := by
  have go : ∀ (more digits : List Char), (∀ d ∈ more, isWordCharacter d = true) →
      ∃ longer, pendingAfter (some (.number digits)) more = some (.number longer) := by
    intro more
    induction more with
    | nil => exact fun digits _ => ⟨digits, rfl⟩
    | cons d more ih =>
      intro digits letters
      have longer : (number digits).extend d = some (.number (digits ++ [d])) := by
        rw [extend, letters d mem_cons_self]
        rfl
      simp only [pendingAfter, longer]
      exact ih _ fun e mem => letters e (mem_cons_of_mem _ mem)
  have dot : (number digits).extend '.' = some (.number (digits ++ ['.'])) := by
    rw [extend]
    simp
  rw [pendingAfter_append, ends_]
  simp only [pendingAfter, dot]
  exact go (c :: rest) _ words

end Members

/-- The first token of what is scanned after an unfinished token goes on with that. -/
theorem scan_first (token : Token) (text : List Char) : ∃ t more,
    scan (some token) text = t :: more ∧ token.spelling.length ≤ t.spelling.length := by
  induction text generalizing token with
  | nil => exact ⟨token, [], rfl, Nat.le_refl _⟩
  | cons c rest ih =>
    cases longer : token.extend c with
    | some longer_ =>
      obtain ⟨t, more, same, length⟩ := ih longer_
      refine ⟨t, more, by simp only [scan, longer, same], ?_⟩
      rw [spelling_extend longer, length_append] at length
      omega
    | none => exact ⟨token, scan (start c) rest, by simp only [scan, longer], Nat.le_refl _⟩

variable {operation : List Char}

theorem start_unary (known : operation ∈ unaryOperators) :
    ∃ d, operation = [d] ∧ start d = some (.mark [d]) := by
  simp only [unaryOperators, mem_cons, not_mem_nil, or_false] at known
  rcases known with rfl | rfl | rfl | rfl | rfl | rfl <;> exact ⟨_, rfl, by decide⟩

theorem tokens_unary {text : List Char} (known : operation ∈ unaryOperators)
    (apart : Apart (.mark operation) text) :
    tokens (operation ++ text) = .mark operation :: tokens text := by
  obtain ⟨d, rfl, started⟩ := start_unary known
  rw [singleton_append, tokens, scan, started, scan_apart apart]

theorem tokens_merged {rest : List Char} {c : Char} (known : operation ∈ unaryOperators)
    (longer : ((mark operation).extend c).isSome = true) :
    ∃ t more, tokens (operation ++ c :: rest) = t :: more ∧ t ≠ .mark operation ∧
      t ≠ sign '(' := by
  obtain ⟨d, rfl, started⟩ := start_unary known
  obtain ⟨token, extends_⟩ := Option.isSome_iff_exists.mp longer
  obtain ⟨t, more, same, length⟩ := scan_first token rest
  rw [spelling_extend extends_] at length
  refine ⟨t, more, ?_, ?_, ?_⟩
  · simp only [List.singleton_append, tokens, scan, started, extends_, same]
  · rintro rfl
    simp at length
  · rintro rfl
    simp at length

end CuMetal.Cpp
