import CuMetal.Lib.CppReadings

/-!
# Reading expressions

Tokens are read as one tree at most: a reader by recursive descent finds every tree that the grammar
allows, and it finds one.
-/

namespace CuMetal.Cpp

open List Option

def expect (c : Char) : List Token → Option (List Token)
  | t :: rest => if t = sign c then some rest else none
  | [] => none

/-- The unary operator at the start, and what follows it. -/
def readUnary : List Token → Option (List Char × List Token)
  | .mark operation :: rest => if operation ∈ unaryOperators then some (operation, rest) else none
  | _ => none

/-- The name of one word at the start, and what follows it. -/
def readWord : List Token → Option (List Char × List Token)
  | .word part :: rest => if isName part = true then some (part, rest) else none
  | _ => none

def readName : List Token → List (List Char) × List Token
  | t :: .word part :: rest =>
    if t = scope then (part :: (readName rest).1, (readName rest).2)
    else ([], t :: .word part :: rest)
  | L => ([], L)

/-- The type in angle brackets, and what follows the brackets. -/
def readType (L : List Token) : Option (List Token × List Token) := do
  let rest ← expect '<' L
  let after ← expect '>' (rest.dropWhile isTypeToken)
  return (rest.takeWhile isTypeToken, after)

mutual

/-- An expression of a level. -/
def readLevel : Nat → Nat → List Token → Option (Tree × List Token)
  | 0, _, _ => none
  | fuel + 1, level, L =>
    if 15 ≤ level then readClosed fuel L
    else if level = 13 then
      match readUnary L with
      | some (operation, rest) =>
        (readLevel fuel 13 rest).bind fun (a, R) => some (.unary operation a, R)
      | none => readLevel fuel 14 L
    else (readLevel fuel (level + 1) L).bind fun (a, R) => readMore fuel level a R

/-- What goes on with an expression of a level. -/
def readMore : Nat → Nat → Tree → List Token → Option (Tree × List Token)
  | 0, _, _, _ => none
  | fuel + 1, level, a, .mark spelling :: rest =>
    if level = 14 then
      if spelling = ['['] then
        (readLevel fuel 1 rest).bind fun (b, R) =>
          (expect ']' R).bind fun R => readMore fuel 14 (.subscript a b) R
      else if spelling = ['.'] then
        (readWord rest).bind fun (member, R) => readMore fuel 14 (.member a member) R
      else if spelling = ['('] then
        (readArguments fuel ')' rest).bind fun (arguments, R) =>
          readMore fuel 14 (.apply a arguments) R
      else some (a, .mark spelling :: rest)
    else if level = 2 ∧ spelling = ['?'] then
      (readLevel fuel 1 rest).bind fun (b, R) =>
        (expect ':' R).bind fun R =>
          (readLevel fuel 2 R).bind fun (c, R) => some (.conditional a b c, R)
    else
      match levelsOf spelling with
      | some (own, _, right) =>
        if own = level then
          (readLevel fuel right rest).bind fun (b, R) =>
            if level = 2 then some (.binary spelling a b, R)
            else readMore fuel level (.binary spelling a b) R
        else some (a, .mark spelling :: rest)
      | none => some (a, .mark spelling :: rest)
  | _ + 1, _, a, L => some (a, L)

def readArguments : Nat → Char → List Token → Option (List Tree × List Token)
  | 0, _, _ => none
  | fuel + 1, closer, L =>
    if L.head? = some (sign closer) then some ([], L.tail) else readRest fuel closer L

/-- One argument at least, up to a closing bracket. -/
def readRest : Nat → Char → List Token → Option (List Tree × List Token)
  | 0, _, _ => none
  | fuel + 1, closer, L =>
    (readLevel fuel 2 L).bind fun (a, R) =>
      if R.head? = some (sign closer) then some ([a], R.tail)
      else
        (expect ',' R).bind fun R =>
          (readRest fuel closer R).bind fun (arguments, R) => some (a :: arguments, R)

/-- What is closed in itself. -/
def readClosed : Nat → List Token → Option (Tree × List Token)
  | 0, _ => none
  | _ + 1, [] => none
  | _ + 1, .number spelling :: rest => some (.number spelling, rest)
  | fuel + 1, .mark _ :: rest =>
    (readLevel fuel 1 rest).bind fun (a, R) => (expect ')' R).bind fun R => some (a, R)
  | fuel + 1, .word word :: rest =>
    if word = reinterpretCastWord then
      (readType rest).bind fun (type, R) =>
        (expect '(' R).bind fun R =>
          (readLevel fuel 1 R).bind fun (a, R) =>
            (expect ')' R).bind fun R => some (.reinterpretCast type a, R)
    else if word = asTypeWord then
      (readType rest).bind fun (type, R) =>
        (expect '(' R).bind fun R =>
          (readArguments fuel ')' R).bind fun (arguments, R) => some (.asType type arguments, R)
    else if (expect '{' rest).isSome then
      (expect '{' rest).bind fun R =>
        (readArguments fuel '}' R).bind fun (elements, R) =>
          some (.braces [.word word] elements, R)
    else some (.name (word :: (readName rest).1), (readName rest).2)

end

attribute [local simp] readLevel readMore readArguments readRest readClosed

/-- The highest level at which an expression goes on with a token. -/
def goesOn : Token → Nat
  | .mark spelling =>
    if spelling = ['{'] ∨ spelling = [':', ':'] then 15
    else if spelling = ['['] ∨ spelling = ['.'] ∨ spelling = ['('] then 14
    else if spelling = ['?'] then 2
    else ((levelsOf spelling).map Prod.fst).getD 0
  | .word _ | .number _ => 0

/-- An expression of a level ends before the tokens. -/
def Stops (level : Nat) (R : List Token) : Prop := ∀ t ∈ R.head?, goesOn t < level

/-- The tokens are read as the tree, whatever follows that ends it. -/
def Reads (level : Nat) (L : List Token) (a : Tree) : Prop :=
  ∀ R, Stops level R → ∃ n, ∀ m, n ≤ m → readLevel m level (L ++ R) = some (a, R)

/-- The tokens are read as the tree, and the reader goes on from there. -/
def Arrives (level : Nat) (L : List Token) (a : Tree) : Prop :=
  ∀ R, Stops (level + 1) R →
    ∃ k n, ∀ m, n ≤ m → readLevel (m + k) level (L ++ R) = readMore m level a R

variable {level : Nat} {R : List Token} {operation : List Char}

theorem Stops.mono {level' : Nat} (stops : Stops level R)
    (le : level ≤ level') : Stops level' R := fun t mem => Nat.lt_of_lt_of_le (stops t mem) le

theorem stops_cons {t : Token} (ends_ : goesOn t < level) :
    Stops level (t :: R) := by
  rintro _ ⟨⟩
  exact ends_

theorem goesOn_binary {levels : Nat × Nat × Nat}
    (known : levelsOf operation = some levels) : goesOn (.mark operation) = levels.1 := by
  have same := levelsOf_cases (P := fun spelling levels => goesOn (.mark spelling) == levels.1)
    known (by decide)
  exact beq_iff_eq.mp same

theorem readMore_stops (stops : Stops level R) (a : Tree)
    (fuel : Nat) : readMore (fuel + 1) level a R = some (a, R) := by
  cases R with
  | nil => simp [readMore]
  | cons t R =>
    have ends_ : goesOn t < level := stops t rfl
    rcases t with spelling | spelling | spelling
    · simp [readMore]
    · simp [readMore]
    · rw [readMore]
      by_cases last : level = 14
      · have others : spelling ≠ ['['] ∧ spelling ≠ ['.'] ∧ spelling ≠ ['('] := by
          refine ⟨?_, ?_, ?_⟩
          all_goals
            rintro rfl
            rw [last] at ends_
            exact absurd ends_ (by decide)
        rw [if_pos last, if_neg others.1, if_neg others.2.1, if_neg others.2.2]
      · have question : ¬ (level = 2 ∧ spelling = ['?']) := by
          rintro ⟨rfl, rfl⟩
          exact absurd ends_ (by decide)
        rw [if_neg last, if_neg question]
        cases known : levelsOf spelling with
        | none => rfl
        | some levels =>
          have other : levels.1 ≠ level := by
            rw [← goesOn_binary known]
            omega
          obtain ⟨own, left, right⟩ := levels
          exact if_neg other

theorem readLevel_closed (fuel : Nat) (L : List Token) :
    readLevel (fuel + 1) 15 L = readClosed fuel L := by
  rw [readLevel, if_pos (Nat.le_refl _)]

theorem readLevel_chain (bound : level < 15) (other : level ≠ 13) (fuel : Nat)
    (L : List Token) : readLevel (fuel + 1) level L =
      (readLevel fuel (level + 1) L).bind fun (a, R) => readMore fuel level a R := by
  rw [readLevel, if_neg (by omega), if_neg other]

theorem readMore_binary {own left right : Nat}
    (known : levelsOf operation = some (own, left, right)) (a : Tree) (rest : List Token)
    (fuel : Nat) : readMore (fuel + 1) own a (.mark operation :: rest) =
      (readLevel fuel right rest).bind fun (b, R) =>
        if own = 2 then some (.binary operation a b, R)
        else readMore fuel own (.binary operation a b) R := by
  have row := levelsOf_cases (P := fun spelling levels => levels.1 != 14 && spelling != ['?'])
    known (by decide)
  rw [Bool.and_eq_true, bne_iff_ne, bne_iff_ne] at row
  rw [readMore, if_neg row.1, if_neg fun question => row.2 question.2, known]
  exact if_pos rfl

theorem levels_binary {own left right : Nat}
    (known : levelsOf operation = some (own, left, right)) :
    own ≤ 12 ∧ (own = 2 ∧ left = 3 ∧ right = 2 ∨ own ≠ 2 ∧ left = own ∧ right = own + 1) := by
  have row := levelsOf_cases (P := fun _ levels => decide (levels.1 ≤ 12 ∧
    (levels.1 = 2 ∧ levels.2.1 = 3 ∧ levels.2.2 = 2 ∨
      levels.1 ≠ 2 ∧ levels.2.1 = levels.1 ∧ levels.2.2 = levels.1 + 1))) known (by decide)
  exact of_decide_eq_true row

/-- The first token of an expression is a word, a number, a parenthesis or a unary operator. -/
theorem Derives.first {L : List Token} {a : Tree} (derives : Derives level L a) :
    ∃ t R, L = t :: R ∧ (t = sign '(' ∨ (∀ spelling, t ≠ .mark spelling) ∨
      level ≤ 13 ∧ ∃ operation ∈ unaryOperators, t = .mark operation) := by
  have front : ∀ {A : List Token} {level level' : Nat}, level' ≤ 13 ∨ level' = level →
      (∃ t R, A = t :: R ∧ (t = sign '(' ∨ (∀ spelling, t ≠ .mark spelling) ∨
        level ≤ 13 ∧ ∃ operation ∈ unaryOperators, t = .mark operation)) → ∀ B,
      ∃ t R, A ++ B = t :: R ∧ (t = sign '(' ∨ (∀ spelling, t ≠ .mark spelling) ∨
        level' ≤ 13 ∧ ∃ operation ∈ unaryOperators, t = .mark operation) := by
    rintro _ level level' looser ⟨t, R, rfl, starts⟩ B
    refine ⟨t, R ++ B, rfl, starts.imp_right fun starts => starts.imp_right ?_⟩
    rintro ⟨bound, operation⟩
    exact ⟨by omega, operation⟩
  induction derives with
  | loosen _ ih =>
    obtain ⟨t, R, rfl, starts⟩ := ih
    exact ⟨t, R, rfl, starts.imp_right fun starts =>
      starts.imp_right fun ⟨bound, operation⟩ => ⟨by omega, operation⟩⟩
  | binary known _ _ ih _ =>
    have bound := (levels_binary known).1
    exact front (.inl (by omega)) ih _
  | conditional _ _ _ ih _ _ => exact front (.inl (by omega)) ih _
  | unary known => exact ⟨_, _, rfl, .inr (.inr ⟨Nat.le_refl _, _, known, rfl⟩)⟩
  | subscript _ _ ih _ => exact front (.inr rfl) ih _
  | member _ _ ih => exact front (.inr rfl) ih _
  | apply _ _ ih _ => exact front (.inr rfl) ih _
  | @name part rest _ => cases rest <;> exact ⟨_, _, rfl, .inr (.inl nofun)⟩
  | parenthesized => exact ⟨_, _, rfl, .inl rfl⟩
  | _ => exact ⟨_, _, rfl, .inr (.inl nofun)⟩

theorem Derives.head_ne {level : Nat} {L : List Token} {a : Tree} (derives : Derives level L a)
    {closer : Char} (closes : closer = ')' ∨ closer = '}') (R : List Token) :
    (L ++ R).head? ≠ some (sign closer) := by
  obtain ⟨t, rest, rfl, starts⟩ := derives.first
  rintro same
  obtain rfl : t = sign closer := Option.some.inj same
  rcases starts with opens | word | ⟨-, operation, known, operator⟩
  · rcases closes with rfl | rfl <;> exact absurd opens (by decide)
  · exact word _ rfl
  · obtain rfl : [closer] = operation := Token.mark.inj operator
    rcases closes with rfl | rfl <;> exact absurd known (by decide)

theorem Derives.readUnary {L : List Token} {a : Tree} (derives : Derives 14 L a)
    (R : List Token) : readUnary (L ++ R) = none := by
  obtain ⟨t, rest, rfl, starts⟩ := derives.first
  rcases starts with rfl | word | ⟨bound, -⟩
  · rfl
  · rcases t with spelling | spelling | spelling
    · rfl
    · rfl
    · exact absurd rfl (word spelling)
  · omega

section Runs

variable {level : Nat} {L X : List Token} {a b : Tree}

theorem Arrives.reads (arrives : Arrives level L a) : Reads level L a := by
  intro R stops
  obtain ⟨k, n, all⟩ := arrives R (stops.mono (Nat.le_succ _))
  refine ⟨n + 1 + k, fun m large => ?_⟩
  obtain ⟨m, rfl⟩ : ∃ m', m = m' + 1 + k := ⟨m - 1 - k, by omega⟩
  rw [all (m + 1) (by omega)]
  exact readMore_stops stops a m

theorem Reads.arrives (reads : Reads (level + 1) L a) (bound : level < 15) (other : level ≠ 13) :
    Arrives level L a := by
  intro R stops
  obtain ⟨n, all⟩ := reads R stops
  refine ⟨1, n, fun m large => ?_⟩
  rw [readLevel_chain bound other, all m large]
  rfl

theorem Arrives.more (arrives : Arrives level L a) (stops : ∀ R, Stops (level + 1) (X ++ R))
    (step : ∀ R, Stops (level + 1) R →
      ∃ n, ∀ m, n ≤ m → readMore (m + 1) level a (X ++ R) = readMore m level b R) :
    Arrives level (L ++ X) b := by
  intro R ends_
  obtain ⟨k, n, all⟩ := arrives (X ++ R) (stops R)
  obtain ⟨n', more⟩ := step R ends_
  refine ⟨k + 1, n + n', fun m large => ?_⟩
  have fuel : m + (k + 1) = m + 1 + k := by omega
  rw [fuel, append_assoc, all (m + 1) (by omega), more m (by omega)]

theorem Reads.more (reads : Reads 3 L a) (stops : ∀ R, Stops 2 R → Stops 3 (X ++ R))
    (step : ∀ R, Stops 2 R →
      ∃ n, ∀ m, n ≤ m → readMore (m + 1) 2 a (X ++ R) = some (b, R)) :
    Reads 2 (L ++ X) b := by
  intro R ends_
  obtain ⟨n, all⟩ := reads (X ++ R) (stops R ends_)
  obtain ⟨n', more⟩ := step R ends_
  refine ⟨n + n' + 2, fun m large => ?_⟩
  obtain ⟨m, rfl⟩ : ∃ m', m = m' + 1 + 1 := ⟨m - 2, by omega⟩
  rw [readLevel_chain (by decide) (by decide), append_assoc, all (m + 1) (by omega)]
  exact more m (by omega)

end Runs

theorem expect_cons (c : Char) (R : List Token) : expect c (sign c :: R) = some R := if_pos rfl

theorem stops_closer {closer : Char} (closes : closer = ')' ∨ closer = '}') (R : List Token) :
    Stops 1 (sign closer :: R) :=
  stops_cons (by rcases closes with rfl | rfl <;> decide)

theorem stops_comma (R : List Token) : Stops 2 (sign ',' :: R) := stops_cons (by decide)

theorem readRest_separated {closer : Char} (closes : closer = ')' ∨ closer = '}')
    (part : List Token × Tree) (parts : List (List Token × Tree))
    (reads : ∀ p ∈ part :: parts, Reads 2 p.1 p.2) (R : List Token) :
    ∃ n, ∀ m, n ≤ m →
      readRest m closer (separated ((part :: parts).map Prod.fst) ++ sign closer :: R) =
        some ((part :: parts).map Prod.snd, R) := by
  have own := reads part List.mem_cons_self
  induction parts generalizing part with
  | nil =>
    obtain ⟨n, all⟩ := own _ ((stops_closer closes R).mono (by decide))
    refine ⟨n + 1, fun m large => ?_⟩
    obtain ⟨m, rfl⟩ : ∃ m', m = m' + 1 := ⟨m - 1, by omega⟩
    rw [readRest, List.map_cons, List.map_nil, separated, all m (by omega)]
    exact if_pos rfl
  | cons next parts ih =>
    obtain ⟨n, all⟩ := own _ (stops_comma (separated ((next :: parts).map Prod.fst) ++
      sign closer :: R))
    obtain ⟨n', rest⟩ := ih next (fun p mem => reads p (List.mem_cons_of_mem _ mem))
      (reads next (List.mem_cons_of_mem _ List.mem_cons_self))
    refine ⟨n + n' + 1, fun m large => ?_⟩
    obtain ⟨m, rfl⟩ : ∃ m', m = m' + 1 := ⟨m - 1, by omega⟩
    have comma : (some (sign ',') : Option Token) ≠ some (sign closer) := by
      rcases closes with rfl | rfl <;> decide
    have shape : separated ((part :: next :: parts).map Prod.fst) ++ sign closer :: R =
        part.1 ++ sign ',' :: (separated ((next :: parts).map Prod.fst) ++
          sign closer :: R) := by
      rw [List.map_cons, List.map_cons, separated, List.append_assoc]
      rfl
    rw [shape, readRest, all m (by omega)]
    refine (if_neg comma).trans ?_
    rw [expect_cons, Option.bind_some, rest m (by omega)]
    rfl

theorem readArguments_separated {closer : Char} (closes : closer = ')' ∨ closer = '}')
    {parts : List (List Token × Tree)} (derives : ∀ part ∈ parts, Derives 2 part.1 part.2)
    (reads : ∀ part ∈ parts, Reads 2 part.1 part.2) (R : List Token) :
    ∃ n, ∀ m, n ≤ m →
      readArguments m closer (separated (parts.map Prod.fst) ++ sign closer :: R) =
        some (parts.map Prod.snd, R) := by
  cases parts with
  | nil =>
    refine ⟨1, fun m large => ?_⟩
    obtain ⟨m, rfl⟩ : ∃ m', m = m' + 1 := ⟨m - 1, by omega⟩
    rw [readArguments]
    exact if_pos rfl
  | cons part parts =>
    obtain ⟨n, all⟩ := readRest_separated closes part parts reads R
    have first : (separated ((part :: parts).map Prod.fst) ++ sign closer :: R).head? ≠
        some (sign closer) := by
      have own := derives part List.mem_cons_self
      cases parts with
      | nil => exact own.head_ne closes _
      | cons next parts =>
        rw [List.map_cons, List.map_cons, separated, List.append_assoc]
        exact own.head_ne closes _
    refine ⟨n + 1, fun m large => ?_⟩
    obtain ⟨m, rfl⟩ : ∃ m', m = m' + 1 := ⟨m - 1, by omega⟩
    rw [readArguments, if_neg first]
    exact all m (by omega)

theorem readType_type {type : List Token} (known : type.all isTypeToken = true)
    (R : List Token) : readType (sign '<' :: (type ++ sign '>' :: R)) = some (type, R) := by
  have other : isTypeToken (sign '>') = false := by decide
  have tokens := all_eq_true.mp known
  rw [readType, expect_cons, bind_eq_bind, bind_some,
    dropWhile_append_of_pos tokens, takeWhile_append_of_pos tokens,
    dropWhile_cons_of_neg (by rw [other]; decide),
    takeWhile_cons_of_neg (by rw [other]; decide), expect_cons, append_nil]
  rfl

theorem readName_parts (part : List Char) (rest : List (List Char)) {R : List Token}
    (stops : Stops 15 R) :
    nameTokens (part :: rest) ++ R = .word part :: (nameTokens (part :: rest) ++ R).tail ∧
      readName (nameTokens (part :: rest) ++ R).tail = (rest, R) := by
  induction rest generalizing part with
  | nil =>
    refine ⟨rfl, ?_⟩
    have plain : ∀ t ∈ R.head?, t ≠ scope := by
      rintro t mem rfl
      exact absurd (stops _ mem) (by decide)
    rw [nameTokens, singleton_append, tail_cons, readName.eq_def]
    split
    · next t word rest => exact if_neg (plain t rfl)
    · rfl
  | cons next rest ih =>
    obtain ⟨start, all⟩ := ih next
    refine ⟨rfl, ?_⟩
    rw [nameTokens, cons_append, cons_append, tail_cons, start, readName,
      if_pos rfl, all]

/-! ## Completeness -/

section Completeness

variable {level : Nat} {A B C L : List Token} {a b c : Tree}

theorem reads_closed (closed : ∀ R, Stops 15 R →
    ∃ n, ∀ m, n ≤ m → readClosed m (L ++ R) = some (a, R)) : Reads 15 L a := by
  intro R stops
  obtain ⟨n, all⟩ := closed R stops
  refine ⟨n + 1, fun m large => ?_⟩
  obtain ⟨m, rfl⟩ : ∃ m', m = m' + 1 := ⟨m - 1, by omega⟩
  rw [readLevel_closed]
  exact all m (by omega)

variable {operation : List Char} {parts : List (List Token × Tree)}

theorem Arrives.binary {own : Nat}
    (known : levelsOf operation = some (own, own, own + 1)) (other : own ≠ 2)
    (left : Arrives own A a) (right : Reads (own + 1) B b) :
    Arrives own (A ++ .mark operation :: B) (.binary operation a b) := by
  refine left.more (fun R => stops_cons ?_) fun R stops => ?_
  · rw [goesOn_binary known]
    exact Nat.lt_succ_self own
  · obtain ⟨n, all⟩ := right R stops
    refine ⟨n, fun m large => ?_⟩
    rw [cons_append, readMore_binary known, all m large]
    exact if_neg other

theorem Reads.assignment (known : levelsOf operation = some (2, 3, 2))
    (left : Reads 3 A a) (right : Reads 2 B b) :
    Reads 2 (A ++ .mark operation :: B) (.binary operation a b) := by
  refine left.more (fun R _ => stops_cons ?_) fun R stops => ?_
  · rw [goesOn_binary known]
    decide
  · obtain ⟨n, all⟩ := right R stops
    refine ⟨n, fun m large => ?_⟩
    rw [cons_append, readMore_binary known, all m large, bind_some]
    exact if_pos rfl

theorem Reads.conditional (condition : Reads 3 C c) (trueValue : Reads 1 A a)
    (falseValue : Reads 2 B b) :
    Reads 2 (C ++ sign '?' :: (A ++ sign ':' :: B)) (.conditional c a b) := by
  refine condition.more (fun R _ => stops_cons (by decide)) fun R stops => ?_
  obtain ⟨n, all⟩ := trueValue (sign ':' :: (B ++ R)) (stops_cons (by decide))
  obtain ⟨n', all'⟩ := falseValue R stops
  refine ⟨n + n', fun m large => ?_⟩
  rw [cons_append, append_assoc, cons_append, sign, readMore,
    if_neg (by decide), if_pos ⟨rfl, rfl⟩]
  simp only [all m (by omega), all' m (by omega), expect_cons, bind_some]

theorem Arrives.subscript (base : Arrives 14 A a) (index : Reads 1 B b) :
    Arrives 14 (A ++ sign '[' :: (B ++ [sign ']'])) (.subscript a b) := by
  refine base.more (fun R => stops_cons (by decide)) fun R _ => ?_
  obtain ⟨n, all⟩ := index (sign ']' :: R) (stops_cons (by decide))
  refine ⟨n, fun m large => ?_⟩
  rw [cons_append, append_assoc, singleton_append, sign, readMore, if_pos rfl,
    if_pos rfl]
  simp only [all m large, expect_cons, bind_some]

theorem Arrives.member {member : List Char} (base : Arrives 14 A a)
    (known : isName member = true) :
    Arrives 14 (A ++ [sign '.', .word member]) (.member a member) := by
  refine base.more (fun R => stops_cons (by decide)) fun R _ => ⟨0, fun m _ => ?_⟩
  rw [cons_append, singleton_append, sign, readMore, if_pos rfl, if_neg (by decide),
    if_pos rfl, readWord, if_pos known]
  rfl

theorem Arrives.apply (callee : Arrives 14 A a) (derives : ∀ part ∈ parts, Derives 2 part.1 part.2)
    (reads : ∀ part ∈ parts, Reads 2 part.1 part.2) :
    Arrives 14 (A ++ sign '(' :: (separated (parts.map Prod.fst) ++ [sign ')']))
      (.apply a (parts.map Prod.snd)) := by
  refine callee.more (fun R => stops_cons (by decide)) fun R _ => ?_
  obtain ⟨n, all⟩ := readArguments_separated (.inl rfl) derives reads R
  refine ⟨n, fun m large => ?_⟩
  rw [cons_append, append_assoc, singleton_append, sign, readMore, if_pos rfl,
    if_neg (by decide), if_neg (by decide), if_pos rfl, all m large]
  rfl

theorem Reads.unary (known : operation ∈ unaryOperators)
    (operand : Reads 13 A a) : Reads 13 (.mark operation :: A) (.unary operation a) := by
  intro R stops
  obtain ⟨n, all⟩ := operand R stops
  refine ⟨n + 1, fun m large => ?_⟩
  obtain ⟨m, rfl⟩ : ∃ m', m = m' + 1 := ⟨m - 1, by omega⟩
  rw [cons_append, readLevel, if_neg (by decide), if_pos rfl, readUnary, if_pos known]
  simp only [all m (by omega), bind_some]

theorem reads_name {part : List Char} {rest : List (List Char)} (known : isName part = true) :
    Reads 15 (nameTokens (part :: rest)) (.name (part :: rest)) := by
  refine reads_closed fun R stops => ⟨1, fun m large => ?_⟩
  obtain ⟨m, rfl⟩ : ∃ m', m = m' + 1 := ⟨m - 1, by omega⟩
  obtain ⟨start, all⟩ := readName_parts part rest stops
  have noBrace : expect '{' (nameTokens (part :: rest) ++ R).tail = none := by
    cases rest with
    | cons next rest => rfl
    | nil =>
      cases R with
      | nil => rfl
      | cons t R =>
        refine if_neg fun same => ?_
        have ends_ : goesOn t < 15 := stops t rfl
        rw [same] at ends_
        exact absurd ends_ (by decide)
  have words : part ≠ reinterpretCastWord ∧ part ≠ asTypeWord := by
    constructor <;> rintro rfl <;> exact absurd known (by decide)
  rw [start, readClosed, if_neg words.1, if_neg words.2, noBrace, isSome_none,
    if_neg (by decide), all]

theorem reads_number {spelling : List Char} : Reads 15 [.number spelling] (.number spelling) := by
  refine reads_closed fun R _ => ⟨1, fun m large => ?_⟩
  obtain ⟨m, rfl⟩ : ∃ m', m = m' + 1 := ⟨m - 1, by omega⟩
  rw [singleton_append, readClosed]

theorem Reads.parenthesized (inside : Reads 1 A a) : Reads 15 (sign '(' :: (A ++ [sign ')'])) a := by
  refine reads_closed fun R _ => ?_
  obtain ⟨n, all⟩ := inside (sign ')' :: R) (stops_closer (.inl rfl) R)
  refine ⟨n + 1, fun m large => ?_⟩
  obtain ⟨m, rfl⟩ : ∃ m', m = m' + 1 := ⟨m - 1, by omega⟩
  rw [cons_append, append_assoc, singleton_append, sign, readClosed]
  simp only [all m (by omega), expect_cons, bind_some]

theorem reads_braces {type : List Char}
    (known : isName type = true) (derives : ∀ part ∈ parts, Derives 2 part.1 part.2)
    (reads : ∀ part ∈ parts, Reads 2 part.1 part.2) :
    Reads 15 (.word type :: sign '{' :: (separated (parts.map Prod.fst) ++ [sign '}']))
      (.braces [.word type] (parts.map Prod.snd)) := by
  refine reads_closed fun R _ => ?_
  obtain ⟨n, all⟩ := readArguments_separated (.inr rfl) derives reads R
  refine ⟨n + 1, fun m large => ?_⟩
  obtain ⟨m, rfl⟩ : ∃ m', m = m' + 1 := ⟨m - 1, by omega⟩
  have words : type ≠ reinterpretCastWord ∧ type ≠ asTypeWord := by
    constructor <;> rintro rfl <;> exact absurd known (by decide)
  rw [cons_append, cons_append, append_assoc, singleton_append, readClosed,
    if_neg words.1, if_neg words.2, expect_cons, isSome_some, if_pos rfl,
    bind_some, all m (by omega)]
  rfl

theorem reads_asType {type : List Token}
    (known : type.all isTypeToken = true) (derives : ∀ part ∈ parts, Derives 2 part.1 part.2)
    (reads : ∀ part ∈ parts, Reads 2 part.1 part.2) :
    Reads 15 (.word asTypeWord :: sign '<' ::
        (type ++ sign '>' :: sign '(' :: (separated (parts.map Prod.fst) ++ [sign ')'])))
      (.asType type (parts.map Prod.snd)) := by
  refine reads_closed fun R _ => ?_
  obtain ⟨n, all⟩ := readArguments_separated (.inl rfl) derives reads R
  refine ⟨n + 1, fun m large => ?_⟩
  obtain ⟨m, rfl⟩ : ∃ m', m = m' + 1 := ⟨m - 1, by omega⟩
  rw [cons_append, cons_append, append_assoc, cons_append, cons_append,
    append_assoc, singleton_append, readClosed, if_neg (by decide), if_pos rfl]
  simp only [readType_type known, all m (by omega), expect_cons, bind_some]

theorem Reads.reinterpretCast {type : List Token} (known : type.all isTypeToken = true)
    (operand : Reads 1 A a) :
    Reads 15 (.word reinterpretCastWord :: sign '<' ::
        (type ++ sign '>' :: sign '(' :: (A ++ [sign ')']))) (.reinterpretCast type a) := by
  refine reads_closed fun R _ => ?_
  obtain ⟨n, all⟩ := operand (sign ')' :: R) (stops_closer (.inl rfl) R)
  refine ⟨n + 1, fun m large => ?_⟩
  obtain ⟨m, rfl⟩ : ∃ m', m = m' + 1 := ⟨m - 1, by omega⟩
  rw [cons_append, cons_append, append_assoc, cons_append, cons_append,
    append_assoc, singleton_append, readClosed, if_pos rfl]
  simp only [readType_type known, all m (by omega), expect_cons, bind_some]

theorem Derives.reads (derives : Derives level L a) :
    Reads level L a ∧ (level < 15 → level ≠ 2 → level ≠ 13 → Arrives level L a) := by
  have chain : ∀ {level : Nat} {L : List Token} {a : Tree}, Arrives level L a →
      Reads level L a ∧ (level < 15 → level ≠ 2 → level ≠ 13 → Arrives level L a) :=
    fun arrives => ⟨arrives.reads, fun _ _ _ => arrives⟩
  induction derives with
  | @loosen level L a inside ih =>
    have bound := inside.level_le
    by_cases unary : level = 13
    · subst unary
      refine ⟨fun R stops => ?_, fun _ _ other => absurd rfl other⟩
      obtain ⟨n, all⟩ := ih.1 R (stops.mono (by decide))
      refine ⟨n + 1, fun m large => ?_⟩
      obtain ⟨m, rfl⟩ : ∃ m', m = m' + 1 := ⟨m - 1, by omega⟩
      rw [readLevel, if_neg (by decide), if_pos rfl, inside.readUnary R]
      exact all m (by omega)
    · by_cases right : level = 2
      · subst right
        refine ⟨?_, fun _ other => absurd rfl other⟩
        have same : L ++ [] = L := append_nil L
        rw [← same]
        exact ih.1.more (fun R stops => stops.mono (by decide)) fun R stops =>
          ⟨0, fun m _ => readMore_stops stops a m⟩
      · exact chain (ih.1.arrives (by omega) unary)
  | @binary operation own left right A B a b known _ _ ih ih' =>
    obtain ⟨bound, ⟨rfl, rfl, rfl⟩ | ⟨other, rfl, rfl⟩⟩ := levels_binary known
    · exact ⟨ih.1.assignment known ih'.1, fun _ other => absurd rfl other⟩
    · exact chain ((ih.2 (by omega) other (by omega)).binary known other ih'.1)
  | conditional _ _ _ ih ih' ih'' =>
    exact ⟨ih.1.conditional ih'.1 ih''.1, fun _ other => absurd rfl other⟩
  | unary known _ ih => exact ⟨ih.1.unary known, fun _ _ other => absurd rfl other⟩
  | subscript _ _ ih ih' =>
    exact chain ((ih.2 (by decide) (by decide) (by decide)).subscript ih'.1)
  | member _ known ih => exact chain ((ih.2 (by decide) (by decide) (by decide)).member known)
  | apply _ given ih ih' =>
    exact chain ((ih.2 (by decide) (by decide) (by decide)).apply given fun part mem =>
      (ih' part mem).1)
  | name known => exact ⟨reads_name (known _ mem_cons_self), nofun⟩
  | number => exact ⟨reads_number, nofun⟩
  | braces known given ih => exact ⟨reads_braces known given fun part mem => (ih part mem).1, nofun⟩
  | reinterpretCast known _ ih => exact ⟨ih.1.reinterpretCast known, nofun⟩
  | asType known given ih => exact ⟨reads_asType known given fun part mem => (ih part mem).1, nofun⟩
  | parenthesized _ ih => exact ⟨ih.1.parenthesized, nofun⟩

theorem Derives.unique (first : Derives level L a) (second : Derives level L b) : a = b := by
  obtain ⟨n, all⟩ := first.reads.1 [] nofun
  obtain ⟨n', all'⟩ := second.reads.1 [] nofun
  have same := (all (n + n') (by omega)).symm.trans (all' (n + n') (by omega))
  exact (Prod.mk.inj (some.inj same)).1

end Completeness

end CuMetal.Cpp
