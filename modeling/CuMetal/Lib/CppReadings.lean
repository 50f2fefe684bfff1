import CuMetal.Lib.CppExpressions

/-!
# What tokens can be read as

The tokens of an expression spell its tree, up to parentheses. Where it is known what the parts of a
list of tokens spell, the list is read as a tree only part by part.
-/

namespace CuMetal.Cpp

open Bool List

/-! ## Spelling -/

mutual

/-- The characters of a tree, in order. -/
def Tree.yield : Tree → List Char
  | .name parts => letters (nameTokens parts)
  | .typeName type => letters type
  | .number spelling => spelling
  | .unary operation a => operation ++ a.yield
  | .binary operation a b => a.yield ++ (operation ++ b.yield)
  | .conditional c a b => c.yield ++ '?' :: (a.yield ++ ':' :: b.yield)
  | .subscript a b => a.yield ++ '[' :: (b.yield ++ [']'])
  | .member a member => a.yield ++ '.' :: member
  | .apply f arguments => f.yield ++ '(' :: (yieldAll arguments ++ [')'])
  | .braces type elements => letters type ++ '{' :: (yieldAll elements ++ ['}'])
  | .reinterpretCast type a =>
    reinterpretCastWord ++ '<' :: (letters type ++ '>' :: '(' :: (a.yield ++ [')']))
  | .asType type arguments =>
    asTypeWord ++ '<' :: (letters type ++ '>' :: '(' :: (yieldAll arguments ++ [')']))

/-- The characters of some trees, with commas between them. -/
def yieldAll : List Tree → List Char
  | [] => []
  | [a] => a.yield
  | a :: b :: rest => a.yield ++ ',' :: yieldAll (b :: rest)

end

attribute [local simp] Tree.yield yieldAll

def bare (text : List Char) : List Char := text.filter isPlain

@[simp] theorem bare_append (A B : List Char) : bare (A ++ B) = bare A ++ bare B :=
  filter_append ..

/-- The tokens are those of the tree, up to parentheses, and their parentheses match. -/
structure Spells (L : List Token) (a : Tree) : Prop where
  present : letters L ≠ []
  nested : Nested (letters L)
  bare : bare (letters L) = bare a.yield

theorem Nested.cons (token : Token) {L : List Token} (plain : token.spelling.all isPlain = true)
    (nested : Nested (letters L)) : Nested (letters (token :: L)) := by
  rw [letters_cons]
  exact (nested_plain plain).append nested

theorem Nested.join {A B : List Token} (left : Nested (letters A)) (right : Nested (letters B)) :
    Nested (letters (A ++ B)) := by
  rw [letters_append]
  exact left.append right

theorem Nested.inParens {L : List Token} (nested : Nested (letters L)) :
    Nested (letters (sign '(' :: (L ++ [sign ')']))) := by
  rw [letters_cons, letters_append]
  exact nested.wrap

theorem nested_sign (c : Char) (plain : isPlain c = true) : Nested (letters [sign c]) :=
  nested_plain (by simpa [letters] using plain)

theorem bare_cons (c : Char) (text : List Char) : bare (c :: text) = bare [c] ++ bare text := by
  rw [← bare_append, singleton_append]

theorem letters_separated {parts : List (List Token × Tree)}
    (spells : ∀ part ∈ parts, Spells part.1 part.2) :
    Nested (letters (separated (parts.map Prod.fst))) ∧
      bare (letters (separated (parts.map Prod.fst))) =
        bare (yieldAll (parts.map Prod.snd)) := by
  match parts with
  | [] => exact ⟨nested_nil, rfl⟩
  | [part] =>
    have own := spells part mem_cons_self
    exact ⟨own.nested, own.bare⟩
  | part :: next :: rest =>
    have own := spells part mem_cons_self
    obtain ⟨nested, same⟩ := @letters_separated (next :: rest) fun other mem =>
      spells other (mem_cons_of_mem _ mem)
    simp only [map_cons] at nested same ⊢
    rw [separated, yieldAll]
    refine ⟨own.nested.join (nested.cons _ (by decide)), ?_⟩
    simp only [letters_append, letters_cons, spelling_sign, bare_append, own.bare, same,
      bare_cons ',' (yieldAll _)]

theorem nested_type {type : List Token} (known : type.all isTypeToken = true) :
    Nested (letters type) := by
  induction type with
  | nil => exact nested_nil
  | cons token rest ih =>
    rw [all_cons, and_eq_true] at known
    refine (ih known.2).cons _ ?_
    have own := known.1
    cases token with
    | word => exact own
    | number => exact own
    | mark spelling =>
      rw [isTypeToken, or_eq_true, or_eq_true, beq_iff_eq, beq_iff_eq,
        beq_iff_eq] at own
      rcases own with (rfl | rfl) | rfl <;> decide

variable {spelling : List Char}

theorem isPlain_of_isName (known : isName spelling = true) :
    spelling.all isPlain = true := by
  rw [isName, and_eq_true, and_eq_true] at known
  exact known.1.2

theorem ne_nil_of_isName (known : isName spelling = true) :
    spelling ≠ [] := by
  rw [isName, and_eq_true, and_eq_true, bne_iff_ne] at known
  exact known.1.1

theorem nested_name {parts : List (List Char)} (plain : ∀ p ∈ parts, p.all isPlain = true) :
    Nested (letters (nameTokens parts)) := by
  match parts with
  | [] => exact nested_nil
  | [part] =>
    rw [nameTokens]
    exact nested_nil.cons (L := []) (.word part) (plain part mem_cons_self)
  | part :: next :: rest =>
    have others := @nested_name (next :: rest) fun p mem =>
      plain p (mem_cons_of_mem _ mem)
    rw [nameTokens]
    exact (others.cons scope (by decide)).cons (.word part) (plain part mem_cons_self)

theorem spells_name {part : List Char} {rest : List (List Char)} (some_ : part ≠ [])
    (plain : ∀ p ∈ part :: rest, p.all isPlain = true) :
    Spells (nameTokens (part :: rest)) (.name (part :: rest)) := by
  refine ⟨?_, nested_name plain, rfl⟩
  cases rest <;> simp [nameTokens, some_]

theorem spells_number (some_ : spelling ≠ [])
    (plain : spelling.all isPlain = true) : Spells [.number spelling] (.number spelling) :=
  ⟨by simpa [letters] using some_, by simpa [letters] using nested_plain plain,
    by simp [letters, Tree.yield]⟩

section Brackets

variable {F A type : List Token} {f a : Tree} {arguments : List Tree}

theorem spells_apply (callee : Spells F f) (nested : Nested (letters A))
    (same : bare (letters A) = bare (yieldAll arguments)) :
    Spells (F ++ sign '(' :: (A ++ [sign ')'])) (.apply f arguments) := by
  refine ⟨by simp [callee.present], callee.nested.join nested.inParens, ?_⟩
  simp only [letters_append, letters_cons, spelling_sign, bare_append, callee.bare, same,
    Tree.yield, bare_cons '(' (_ ++ _)]
  rfl

theorem spells_braces (known : type.all isTypeToken = true) (nested : Nested (letters A))
    (same : bare (letters A) = bare (yieldAll arguments)) :
    Spells (type ++ sign '{' :: (A ++ [sign '}'])) (.braces type arguments) := by
  have inside := nested.join (nested_sign '}' (by decide))
  refine ⟨by simp, (nested_type known).join (inside.cons (sign '{') (by decide)), ?_⟩
  simp only [letters_append, letters_cons, spelling_sign, bare_append, same,
    Tree.yield, bare_cons '{' (_ ++ _)]
  simp [letters, bare]

theorem spells_asType (known : type.all isTypeToken = true) (nested : Nested (letters A))
    (same : bare (letters A) = bare (yieldAll arguments)) :
    Spells (.word asTypeWord :: sign '<' :: (type ++ sign '>' :: sign '(' :: (A ++ [sign ')'])))
      (.asType type arguments) := by
  have rest := (nested_type known).join (nested.inParens.cons (sign '>') (by decide))
  refine ⟨by simp, (rest.cons (sign '<') (by decide)).cons (.word _) (by decide), ?_⟩
  simp only [letters_append, letters_cons, spelling_sign, spelling_word, bare_append, same,
    Tree.yield, bare_cons '<' (_ ++ _), bare_cons '>' (_ :: _), bare_cons '(' (_ ++ _)]
  rfl

theorem Spells.reinterpretCast (operand : Spells A a) (known : type.all isTypeToken = true) :
    Spells (.word reinterpretCastWord :: sign '<' ::
      (type ++ sign '>' :: sign '(' :: (A ++ [sign ')']))) (.reinterpretCast type a) := by
  have rest := (nested_type known).join (operand.nested.inParens.cons (sign '>') (by decide))
  refine ⟨by simp, (rest.cons (sign '<') (by decide)).cons (.word _) (by decide), ?_⟩
  simp only [letters_append, letters_cons, spelling_sign, spelling_word, bare_append,
    operand.bare, Tree.yield, bare_cons '<' (_ ++ _), bare_cons '>' (_ :: _),
    bare_cons '(' (_ ++ _)]
  rfl

end Brackets

theorem Derives.spells {level : Nat} {L : List Token} {a : Tree} (derives : Derives level L a) :
    Spells L a := by
  induction derives with
  | loosen _ ih => exact ih
  | @binary operation level left right A B a b known _ _ ih ih' =>
    obtain ⟨plain, -⟩ := operation_plain known
    refine ⟨by simp [ih.present], ih.nested.join (ih'.nested.cons (.mark operation) plain), ?_⟩
    rw [letters_append, letters_cons, spelling_mark, bare_append, bare_append, ih.bare, ih'.bare,
      Tree.yield, bare_append, bare_append]
  | conditional _ _ _ ih ih' ih'' =>
    have rest := ih'.nested.join (ih''.nested.cons (sign ':') (by decide))
    refine ⟨by simp [ih.present], ih.nested.join (rest.cons (sign '?') (by decide)), ?_⟩
    simp only [letters_append, letters_cons, spelling_sign, bare_append, ih.bare, ih'.bare,
      ih''.bare, Tree.yield, bare_cons '?' (_ ++ _), bare_cons ':' (Tree.yield _)]
  | @unary operation A a known _ ih =>
    refine ⟨by simp [ih.present], ih.nested.cons (.mark operation) (unary_plain known).1, ?_⟩
    simp only [letters_cons, spelling_mark, bare_append, ih.bare, Tree.yield]
  | subscript _ _ ih ih' =>
    have rest := ih'.nested.join (nested_sign ']' (by decide))
    refine ⟨by simp [ih.present], ih.nested.join (rest.cons (sign '[') (by decide)), ?_⟩
    simp only [letters_append, letters_cons, spelling_sign, bare_append, ih.bare, ih'.bare,
      Tree.yield, bare_cons '[' (_ ++ _)]
    rfl
  | @member A a member _ known ih =>
    have last : Nested (letters [.word member]) :=
      nested_nil.cons (L := []) (.word member) (isPlain_of_isName known)
    refine ⟨by simp [ih.present], ih.nested.join (last.cons (sign '.') (by decide)), ?_⟩
    simp only [letters_append, letters_cons, spelling_sign, spelling_word, bare_append, ih.bare,
      Tree.yield, bare_cons '.' member]
    simp [letters, bare]
  | apply _ _ ih ih' =>
    obtain ⟨nested, same⟩ := letters_separated ih'
    exact spells_apply ih nested same
  | name known =>
    exact spells_name (ne_nil_of_isName (known _ mem_cons_self)) fun p mem =>
      isPlain_of_isName (known p mem)
  | number plain some_ => exact spells_number some_ plain
  | @braces type _ known _ ih =>
    obtain ⟨nested, same⟩ := letters_separated ih
    have typed : [Token.word type].all isTypeToken = true := by
      rw [List.all_cons, List.all_nil, Bool.and_true]
      exact isPlain_of_isName known
    exact spells_braces typed nested same
  | reinterpretCast known _ ih => exact ih.reinterpretCast known
  | asType known _ ih =>
    obtain ⟨nested, same⟩ := letters_separated ih
    exact spells_asType known nested same
  | @parenthesized A a _ ih =>
    refine ⟨by simp, ih.nested.inParens, ?_⟩
    simp only [letters_append, letters_cons, spelling_sign, bare_append, ih.bare]
    simp [bare, isPlain, letters]

/-! ## Parts of a list of tokens -/

/-- A list is divided in one way at a token, when it is known what is spelled before it. -/
theorem divide {X Y X' Y' : List Token} {t t' : Token} (left : bare t.spelling ≠ [])
    (right : bare t'.spelling ≠ []) (spelled : bare (letters X) = bare (letters X'))
    (same : X ++ t :: Y = X' ++ t' :: Y') : X = X' ∧ t = t' ∧ Y = Y' := by
  -- a token more on one side is a character more there
  have shorter : ∀ {X Y X' Y' : List Token} {t t' : Token}, bare t.spelling ≠ [] →
      bare (letters X) = bare (letters X') → X ++ t :: Y = X' ++ t' :: Y' →
      ¬ X.length < X'.length := by
    intro X Y X' Y' t t' some_ spelled same less
    rcases append_eq_append_iff.mp same with ⟨Z, rfl, rest⟩ | ⟨Z, rfl, -⟩
    · cases Z with
      | nil => simp at less
      | cons u Z =>
        obtain ⟨rfl, -⟩ := cons.inj rest
        rw [letters_append, letters_cons, bare_append, bare_append] at spelled
        have short := congrArg length spelled
        have long := length_pos_of_ne_nil some_
        simp only [length_append] at short
        omega
    · rw [length_append] at less
      omega
  have length : X.length = X'.length :=
    Nat.le_antisymm (Nat.le_of_not_lt (shorter right spelled.symm same.symm))
      (Nat.le_of_not_lt (shorter left spelled same))
  obtain ⟨first, rest⟩ := append_inj same length
  obtain ⟨rfl, rfl⟩ := cons.inj rest
  exact ⟨first, rfl, rfl⟩

/-- What starts with the tokens of a tree and goes on is not in parentheses as a whole. -/
theorem Spells.not_wrapped {A X Z : List Token} {a b : Tree} (inside : Spells A a)
    (front : Spells X b) (more : letters Z ≠ []) (same : X ++ Z = sign '(' :: (A ++ [sign ')'])) :
    False := by
  have all := congrArg letters same
  rw [letters_append, letters_cons, letters_append] at all
  exact inside.nested.not_wrapped front.nested front.present more all

theorem spelling_bare {spelling : List Char} (plain : spelling.all isPlain = true)
    (some_ : spelling ≠ []) : bare spelling ≠ [] := by
  rw [bare, filter_eq_self.mpr (all_eq_true.mp plain)]
  exact some_

section Readings

variable {level : Nat} {A B C L : List Token} {a b c : Tree}

theorem Derives.level_le (derives : Derives level L a) : level ≤ 15 := by
  induction derives with
  | loosen _ ih => omega
  | @binary operation level left right A B a b known _ _ _ _ =>
    have bound := levelsOf_cases (P := fun _ levels => decide (levels.1 ≤ 15)) known (by decide)
    exact of_decide_eq_true bound
  | _ => decide

theorem derives_parens_iff (nested : Nested (letters A)) (closed : level ≤ 15) :
    Derives level (sign '(' :: (A ++ [sign ')'])) a ↔ Derives 1 A a := by
  constructor
  · intro derives
    clear closed
    generalize same : sign '(' :: (A ++ [sign ')']) = L at derives
    have impossible : ∀ {X Z : List Token} {x : Tree}, Spells X x → letters Z ≠ [] →
        X ++ Z = sign '(' :: (A ++ [sign ')']) → False := by
      intro X Z x front more all
      have all := congrArg letters all
      rw [letters_append, letters_cons, letters_append] at all
      exact nested.not_wrapped front.nested front.present more all
    induction derives with
    | loosen _ ih => exact ih same
    | @binary operation _ _ _ X Y x y known left _ _ _ =>
      exact (impossible left.spells (by simp [(operation_plain known).2]) same.symm).elim
    | conditional left _ _ _ _ _ => exact (impossible left.spells (by simp) same.symm).elim
    | @unary operation X x known _ _ =>
      obtain ⟨plain, -⟩ := unary_plain known
      cases same
      exact absurd plain (by decide)
    | subscript left _ _ _ => exact (impossible left.spells (by simp) same.symm).elim
    | member left _ _ => exact (impossible left.spells (by simp) same.symm).elim
    | apply left _ _ _ => exact (impossible left.spells (by simp) same.symm).elim
    | @name part rest _ => cases rest <;> cases same
    | number => cases same
    | braces => cases same
    | reinterpretCast => cases same
    | asType => cases same
    | parenthesized inside _ =>
      obtain ⟨-, same⟩ := cons.inj same
      obtain ⟨rfl, -⟩ := append_inj' same rfl
      exact inside
  · intro inside
    exact (Derives.parenthesized inside).le closed

variable {operation : List Char} {type : List Token} {arguments : List Tree}

theorem derives_binary_iff {own left right : Nat}
    (known : levelsOf operation = some (own, left, right)) (spells : Spells A a) :
    Derives level (A ++ .mark operation :: B) (.binary operation a b) ↔
      level ≤ own ∧ Derives left A a ∧ Derives right B b := by
  constructor
  · intro derives
    generalize same : A ++ .mark operation :: B = L at derives
    generalize tree : Tree.binary operation a b = t at derives
    induction derives with
    | loosen _ ih =>
      obtain ⟨bound, rest⟩ := ih same tree
      exact ⟨by omega, rest⟩
    | @binary operation' _ _ _ X Y x y known' left' right' _ _ =>
      cases tree
      rw [known] at known'
      cases known'
      obtain ⟨plain, some_⟩ := operation_plain known
      have present : bare (Token.mark operation).spelling ≠ [] := spelling_bare plain some_
      obtain ⟨rfl, -, rfl⟩ := divide present present
        (spells.bare.trans left'.spells.bare.symm) same
      exact ⟨Nat.le_refl _, left', right'⟩
    | parenthesized inside _ =>
      exact (inside.spells.not_wrapped spells (by simp [(operation_plain known).2]) same).elim
    | _ => cases tree
  · rintro ⟨bound, left', right'⟩
    exact (Derives.binary known left' right').le bound

theorem derives_conditional_iff (spells : Spells C c) (spells' : Spells A a) :
    Derives level (C ++ sign '?' :: (A ++ sign ':' :: B)) (.conditional c a b) ↔
      level ≤ 2 ∧ Derives 3 C c ∧ Derives 1 A a ∧ Derives 2 B b := by
  constructor
  · intro derives
    generalize same : C ++ sign '?' :: (A ++ sign ':' :: B) = L at derives
    generalize tree : Tree.conditional c a b = t at derives
    induction derives with
    | loosen _ ih =>
      obtain ⟨bound, rest⟩ := ih same tree
      exact ⟨by omega, rest⟩
    | conditional first second third _ _ _ =>
      cases tree
      obtain ⟨rfl, -, same⟩ := divide (by decide) (by decide)
        (spells.bare.trans first.spells.bare.symm) same
      obtain ⟨rfl, -, rfl⟩ := divide (by decide) (by decide)
        (spells'.bare.trans second.spells.bare.symm) same
      exact ⟨Nat.le_refl _, first, second, third⟩
    | parenthesized inside _ =>
      exact (inside.spells.not_wrapped spells (by simp) same).elim
    | _ => cases tree
  · rintro ⟨bound, first, second, third⟩
    exact (Derives.conditional first second third).le bound

theorem derives_unary_iff (known : operation ∈ unaryOperators) :
    Derives level (.mark operation :: A) (.unary operation a) ↔ level ≤ 13 ∧ Derives 13 A a := by
  constructor
  · intro derives
    generalize same : Token.mark operation :: A = L at derives
    generalize tree : Tree.unary operation a = t at derives
    induction derives with
    | loosen _ ih =>
      obtain ⟨bound, rest⟩ := ih same tree
      exact ⟨by omega, rest⟩
    | unary _ inside _ =>
      cases tree
      cases same
      exact ⟨Nat.le_refl _, inside⟩
    | parenthesized =>
      obtain ⟨plain, -⟩ := unary_plain known
      cases same
      exact absurd plain (by decide)
    | _ => cases tree
  · rintro ⟨bound, inside⟩
    exact (Derives.unary known inside).le bound

theorem derives_subscript_iff (spells : Spells A a) :
    Derives level (A ++ sign '[' :: (B ++ [sign ']'])) (.subscript a b) ↔
      level ≤ 14 ∧ Derives 14 A a ∧ Derives 1 B b := by
  constructor
  · intro derives
    generalize same : A ++ sign '[' :: (B ++ [sign ']']) = L at derives
    generalize tree : Tree.subscript a b = t at derives
    induction derives with
    | loosen _ ih =>
      obtain ⟨bound, rest⟩ := ih same tree
      exact ⟨by omega, rest⟩
    | subscript base index _ _ =>
      cases tree
      obtain ⟨rfl, -, same⟩ := divide (by decide) (by decide)
        (spells.bare.trans base.spells.bare.symm) same
      obtain ⟨rfl, -⟩ := append_inj' same rfl
      exact ⟨Nat.le_refl _, base, index⟩
    | parenthesized inside _ =>
      exact (inside.spells.not_wrapped spells (by simp) same).elim
    | _ => cases tree
  · rintro ⟨bound, base, index⟩
    exact (Derives.subscript base index).le bound

variable {part member word : List Char} {rest : List (List Char)} {t : Token}

theorem derives_member_iff (spells : Spells A a) :
    Derives level (A ++ [sign '.', .word member]) (.member a member) ↔
      level ≤ 14 ∧ Derives 14 A a ∧ isName member = true := by
  constructor
  · intro derives
    generalize same : A ++ [sign '.', .word member] = L at derives
    generalize tree : Tree.member a member = t at derives
    induction derives with
    | loosen _ ih =>
      obtain ⟨bound, rest⟩ := ih same tree
      exact ⟨by omega, rest⟩
    | member base known _ =>
      cases tree
      obtain ⟨rfl, -⟩ := append_inj' same rfl
      exact ⟨Nat.le_refl _, base, known⟩
    | parenthesized inside _ =>
      exact (inside.spells.not_wrapped spells (by simp) same).elim
    | _ => cases tree
  · rintro ⟨bound, base, known⟩
    exact (Derives.member base known).le bound

theorem Derives.unary_first (derives : Derives level (t :: L) (.unary operation a)) :
    t = .mark operation ∨ t = sign '(' := by
  generalize same : t :: L = M at derives
  generalize tree : Tree.unary operation a = u at derives
  induction derives with
  | loosen _ ih => exact ih same tree
  | unary =>
    cases tree
    cases same
    exact Or.inl rfl
  | parenthesized =>
    cases same
    exact Or.inr rfl
  | _ => cases tree

theorem Derives.member_last (derives : Derives level (L ++ [t]) (.member a member)) :
    t = .word member ∨ t = sign ')' := by
  generalize same : L ++ [t] = M at derives
  generalize tree : Tree.member a member = u at derives
  induction derives with
  | loosen _ ih => exact ih same tree
  | @member A _ _ _ _ _ =>
    cases tree
    have same : L ++ [t] = (A ++ [sign '.']) ++ [.word member] := by
      rw [same, List.append_assoc]
      rfl
    obtain ⟨-, last⟩ := List.append_inj' same rfl
    cases last
    exact Or.inl rfl
  | @parenthesized A _ _ _ =>
    rw [← List.cons_append] at same
    obtain ⟨-, last⟩ := List.append_inj' same rfl
    cases last
    exact Or.inr rfl
  | _ => cases tree

theorem Derives.name_tokens {parts : List (List Char)}
    (derives : Derives level (.word word :: L) (.name parts)) :
    .word word :: L = nameTokens parts ∧ ∀ p ∈ parts, isName p = true := by
  generalize same : Token.word word :: L = M at derives ⊢
  generalize tree : Tree.name parts = u at derives
  induction derives with
  | loosen _ ih => exact ih same tree
  | name known =>
    cases tree
    exact ⟨rfl, known⟩
  | parenthesized => cases same
  | _ => cases tree

theorem not_derives_typeName : ¬ Derives level L (.typeName type) := by
  intro derives
  generalize tree : Tree.typeName type = u at derives
  induction derives with
  | loosen _ ih => exact ih tree
  | parenthesized _ ih => exact ih tree
  | _ => cases tree

theorem derives_name_iff :
    Derives level (nameTokens (part :: rest)) (.name (part :: rest)) ↔
      level ≤ 15 ∧ ∀ p ∈ part :: rest, isName p = true := by
  constructor
  · intro derives
    refine ⟨derives.level_le, ?_⟩
    cases rest with
    | nil => exact derives.name_tokens.2
    | cons next rest => exact derives.name_tokens.2
  · rintro ⟨bound, known⟩
    exact (Derives.name known).le bound

/-! ## Arguments -/

/-- Arguments that spell the same trees and stand together as the same tokens are the same. -/
theorem separated_injective {parts parts' : List (List Token × Tree)}
    (spells : ∀ part ∈ parts, Spells part.1 part.2)
    (spells' : ∀ part ∈ parts', Spells part.1 part.2)
    (trees : parts.map Prod.snd = parts'.map Prod.snd)
    (same : separated (parts.map Prod.fst) = separated (parts'.map Prod.fst)) :
    parts = parts' := by
  match parts, parts' with
  | [], [] => rfl
  | [], _ :: _ => cases trees
  | _ :: _, [] => cases trees
  | [part], [part'] =>
    have tree := (cons.inj trees).1
    exact congrArg (fun p => [p]) (Prod.ext same tree)
  | [_], _ :: _ :: _ => exact nomatch (cons.inj trees).2
  | _ :: _ :: _, [_] => exact nomatch (cons.inj trees).2
  | part :: next :: rest, part' :: next' :: rest' =>
    obtain ⟨tree, others⟩ := cons.inj trees
    simp only [map_cons, separated] at same
    have spelled := (spells part mem_cons_self).bare.trans
      ((congrArg (fun tree => bare tree.yield) tree).trans
        (spells' part' mem_cons_self).bare.symm)
    obtain ⟨first, -, same⟩ := divide (by decide) (by decide) spelled same
    have tail := @separated_injective (next :: rest) (next' :: rest')
      (fun other mem => spells other (mem_cons_of_mem _ mem))
      (fun other mem => spells' other (mem_cons_of_mem _ mem)) others same
    rw [tail, Prod.ext first tree]

theorem derivesAll_iff {parts : List (List Token × Tree)}
    (spells : ∀ part ∈ parts, Spells part.1 part.2) :
    DerivesAll (separated (parts.map Prod.fst)) (parts.map Prod.snd) ↔
      ∀ part ∈ parts, Derives 2 part.1 part.2 := by
  constructor
  · rintro ⟨parts', derives, same, trees⟩
    have equal := separated_injective spells (fun part mem => (derives part mem).spells)
      trees.symm same.symm
    rw [equal]
    exact derives
  · intro derives
    exact ⟨parts, derives, rfl, rfl⟩

theorem derivesAll_single (spells : Spells L a) : DerivesAll L [a] ↔ Derives 2 L a := by
  have all := @derivesAll_iff [(L, a)] fun part mem => by
    rw [mem_singleton.mp mem]
    exact spells
  refine all.trans ⟨fun derives => derives _ mem_cons_self, fun derives part mem => ?_⟩
  rw [mem_singleton.mp mem]
  exact derives

theorem derives_apply_iff :
    Derives level (nameTokens (part :: rest) ++ sign '(' :: (L ++ [sign ')']))
        (.apply (.name (part :: rest)) arguments) ↔
      level ≤ 14 ∧ (∀ p ∈ part :: rest, isName p = true) ∧ DerivesAll L arguments := by
  obtain ⟨tail, start⟩ : ∃ tail, nameTokens (part :: rest) = .word part :: tail := by
    cases rest with
    | nil => exact ⟨[], rfl⟩
    | cons next rest => exact ⟨_, rfl⟩
  constructor
  · intro derives
    generalize same : nameTokens (part :: rest) ++ sign '(' :: (L ++ [sign ')']) = M at derives
    generalize tree : Tree.apply (.name (part :: rest)) arguments = u at derives
    induction derives with
    | loosen _ ih =>
      obtain ⟨bound, rest⟩ := ih same tree
      exact ⟨by omega, rest⟩
    | @apply F f parts callee given _ _ =>
      cases tree
      -- the callee starts with a word, so that it is not in parentheses
      have present := callee.spells.present
      cases F with
      | nil => exact absurd rfl present
      | cons t F =>
        rw [start] at same
        obtain ⟨rfl, -⟩ := cons.inj same
        obtain ⟨all, known⟩ := callee.name_tokens
        rw [← start] at same
        rw [all] at same
        have same := append_cancel_left same
        obtain ⟨-, same⟩ := cons.inj same
        obtain ⟨rfl, -⟩ := append_inj' same rfl
        exact ⟨Nat.le_refl _, known, parts, given, rfl, rfl⟩
    | parenthesized =>
      rw [start] at same
      cases same
    | _ => cases tree
  · rintro ⟨bound, known, parts, given, rfl, rfl⟩
    exact (Derives.apply ((Derives.name known).le (by decide)) given).le bound

theorem not_derives_apply_typeName :
    ¬ Derives level L (.apply (.typeName type) arguments) := by
  intro derives
  generalize tree : Tree.apply (.typeName type) arguments = u at derives
  induction derives with
  | loosen _ ih => exact ih tree
  | apply callee =>
    cases tree
    exact not_derives_typeName callee
  | parenthesized _ ih => exact ih tree
  | _ => cases tree

theorem derives_braces_iff {elements : List Tree} :
    Derives level (.word word :: type ++ sign '{' :: (L ++ [sign '}']))
        (.braces (.word word :: type) elements) ↔
      level ≤ 15 ∧ type = [] ∧ isName word = true ∧ DerivesAll L elements := by
  constructor
  · intro derives
    refine ⟨derives.level_le, ?_⟩
    generalize same : Token.word word :: type ++ sign '{' :: (L ++ [sign '}']) = M at derives
    generalize tree : Tree.braces (.word word :: type) elements = u at derives
    induction derives with
    | loosen _ ih => exact ih same tree
    | @braces type' parts known given _ =>
      cases tree
      obtain ⟨-, same⟩ := cons.inj same
      obtain ⟨-, same⟩ := cons.inj same
      obtain ⟨rfl, -⟩ := append_inj' same rfl
      exact ⟨rfl, known, parts, given, rfl, rfl⟩
    | parenthesized => cases same
    | _ => cases tree
  · rintro ⟨bound, rfl, known, parts, given, rfl, rfl⟩
    exact (Derives.braces known given).le bound

theorem inside_inj {s : Token} {A B : List Token}
    (same : s :: sign '<' :: (type ++ sign '>' :: sign '(' :: (A ++ [sign ')'])) = t :: sign '<'
      :: (type ++ sign '>' :: sign '(' :: (B ++ [sign ')']))) : A = B := by
  simp only [cons.injEq, append_cancel_left_eq, append_cancel_right_eq] at same
  exact same.2.2.2.2

theorem derives_asType_iff :
    Derives level (.word asTypeWord :: sign '<' ::
        (type ++ sign '>' :: sign '(' :: (L ++ [sign ')']))) (.asType type arguments) ↔
      level ≤ 15 ∧ type.all isTypeToken = true ∧ DerivesAll L arguments := by
  constructor
  · intro derives
    refine ⟨derives.level_le, ?_⟩
    generalize same : Token.word asTypeWord :: sign '<' ::
      (type ++ sign '>' :: sign '(' :: (L ++ [sign ')'])) = M at derives
    generalize tree : Tree.asType type arguments = u at derives
    induction derives with
    | loosen _ ih => exact ih same tree
    | @asType type' parts known given _ =>
      cases tree
      obtain rfl := inside_inj same
      exact ⟨known, parts, given, rfl, rfl⟩
    | parenthesized => cases same
    | _ => cases tree
  · rintro ⟨bound, known, parts, given, rfl, rfl⟩
    exact (Derives.asType known given).le bound

theorem derives_reinterpretCast_iff :
    Derives level (.word reinterpretCastWord :: sign '<' ::
        (type ++ sign '>' :: sign '(' :: (A ++ [sign ')']))) (.reinterpretCast type a) ↔
      level ≤ 15 ∧ type.all isTypeToken = true ∧ Derives 1 A a := by
  constructor
  · intro derives
    refine ⟨derives.level_le, ?_⟩
    generalize same : Token.word reinterpretCastWord :: sign '<' ::
      (type ++ sign '>' :: sign '(' :: (A ++ [sign ')'])) = M at derives
    generalize tree : Tree.reinterpretCast type a = u at derives
    induction derives with
    | loosen _ ih => exact ih same tree
    | reinterpretCast known inside _ =>
      cases tree
      obtain rfl := inside_inj same
      exact ⟨known, inside⟩
    | parenthesized => cases same
    | _ => cases tree
  · rintro ⟨bound, known, inside⟩
    exact (Derives.reinterpretCast known inside).le bound

end Readings

end CuMetal.Cpp
