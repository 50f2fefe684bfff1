import CuMetal.Metal.MslPrinter
import CuMetal.Lib.CppShapes

/-!
# Reading printed expressions

The tokens of a printed expression spell its tree, and are read as it exactly when the expression is
faithful.
-/

namespace CuMetal.Metal

open Cpp List Option Token

theorem startedLetters_head (name : String) :
    ∃ c rest, startedLetters name = c :: rest ∧ c.isDigit = false := by
  have named : namedLetters name ≠ [] := by
    unfold namedLetters
    split
    · decide
    · next some_ => simpa using some_
  obtain ⟨c, rest, shape⟩ := exists_cons_of_ne_nil named
  rw [startedLetters, shape, head?_cons, map_some, getD_some]
  split
  · exact ⟨_, _, rfl, by decide⟩
  · next digit => exact ⟨_, _, rfl, Bool.not_eq_true _ ▸ digit⟩

theorem sanitizeIdentifier_head (name : String) :
    ∃ c rest, (sanitizeIdentifier name).toList = c :: rest ∧ c.isDigit = false := by
  rw [sanitizeIdentifier_eq]
  split
  · rw [String.toList_append]
    exact ⟨'c', _, rfl, by decide⟩
  · rw [String.toList_ofList]
    exact startedLetters_head name

theorem tokens_sanitizeIdentifier (name : String) :
    tokens (sanitizeIdentifier name).toList = [.word (sanitizeIdentifier name).toList] := by
  obtain ⟨c, rest, shape, digit⟩ := sanitizeIdentifier_head name
  have words := fun d (mem : d ∈ (sanitizeIdentifier name).toList) =>
    sanitizeIdentifier_word name mem
  rw [shape] at words ⊢
  exact tokens_word digit words

theorem MslType.text_head (type : MslType) :
    ∃ c rest, type.text.toList = c :: rest ∧ isWordCharacter c = true ∧ c.isDigit = false := by
  have indirect : ∀ (element : MslType) (space : MslAddressSpace) (mark : String),
      (∃ c rest, element.text.toList = c :: rest ∧ isWordCharacter c = true ∧
        c.isDigit = false) →
      ∃ c rest, (indirectText element element.text space mark).toList = c :: rest ∧
        isWordCharacter c = true ∧ c.isDigit = false := by
    rintro element space mark ⟨c, rest, shape, word, digit⟩
    unfold indirectText
    split
    · rw [String.toList_append, String.toList_append, shape]
      exact ⟨c, _, rfl, word, digit⟩
    · rw [String.toList_append, String.toList_append]
      cases space with
      | none =>
        rw [shape]
        exact ⟨c, _, rfl, word, digit⟩
      | device => exact ⟨'d', _, rfl, by decide, by decide⟩
      | constant => exact ⟨'c', _, rfl, by decide, by decide⟩
      | threadgroup => exact ⟨'t', _, rfl, by decide, by decide⟩
      | thread => exact ⟨'t', _, rfl, by decide, by decide⟩
  have scalar : ∀ (bits : Nat) {narrow short long plain : String},
      (∀ text ∈ [narrow, short, long, plain],
        ∃ c rest, text.toList = c :: rest ∧ isWordCharacter c = true ∧ c.isDigit = false) →
      ∃ c rest, (integerSpelling bits narrow short long plain).toList = c :: rest ∧
        isWordCharacter c = true ∧ c.isDigit = false := by
    intro bits narrow short long plain all
    unfold integerSpelling
    split_ifs
    all_goals exact all _ (by simp)
  induction type with
  | pointer element space ih => exact indirect element space "*" ih
  | reference element space ih => exact indirect element space "&" ih
  | vector element lanes ih =>
    obtain ⟨c, rest, shape, word⟩ := ih
    rw [MslType.text, String.toList_append, shape]
    exact ⟨c, _, rfl, word⟩
  | struct name =>
    obtain ⟨c, rest, shape, digit⟩ := sanitizeIdentifier_head name
    refine ⟨c, rest, shape, sanitizeIdentifier_word name ?_, digit⟩
    rw [shape]
    exact mem_cons_self
  | int bits =>
    refine scalar bits fun text mem => ?_
    simp only [mem_cons, not_mem_nil, or_false] at mem
    rcases mem with rfl | rfl | rfl | rfl <;> exact ⟨_, _, rfl, by decide, by decide⟩
  | uint bits =>
    refine scalar bits fun text mem => ?_
    simp only [mem_cons, not_mem_nil, or_false] at mem
    rcases mem with rfl | rfl | rfl | rfl <;> exact ⟨_, _, rfl, by decide, by decide⟩
  | _ => exact ⟨_, _, rfl, by decide, by decide⟩

theorem isTypeCharacter_text (type : MslType) :
    ∀ c ∈ type.text.toList, isTypeCharacter c = true := by
  intro c mem
  rcases type.text_chars mem with word | mark
  · rw [isTypeCharacter, show isWordCharacter c = true from word]
    rfl
  · simp only [mem_cons, not_mem_nil, or_false] at mark
    rcases mark with rfl | rfl | rfl <;> decide

theorem isTypeCharacter_alias (type : MslType) :
    ∀ c ∈ (mayAliasSpelling type).toList, isTypeCharacter c = true := by
  have aliased : ∀ (element : MslType) (space : MslAddressSpace) (mark : String),
      mark.toList.all isTypeCharacter = true →
      ∀ c ∈ (aliasText element space mark).toList, isTypeCharacter c = true := by
    intro element space mark marked c mem
    simp only [aliasText, String.toList_append, mem_append] at mem
    rcases mem with ((mem | mem) | mem) | mem
    · have spaced : ((if space.spelling = "" then "" else space.spelling ++ " ").toList.all
          isTypeCharacter) = true := by cases space <;> decide
      exact all_eq_true.mp spaced c mem
    · exact all_eq_true.mp (by decide : "cm_alias_".toList.all isTypeCharacter = true) c mem
    · exact isTypeCharacter_text element c mem
    · exact all_eq_true.mp marked c mem
  intro c mem
  unfold mayAliasSpelling at mem
  split at mem
  · split at mem
    · exact aliased _ _ _ (by decide) c mem
    · exact isTypeCharacter_text _ c mem
  · split at mem
    · exact aliased _ _ _ (by decide) c mem
    · exact isTypeCharacter_text _ c mem
  · exact isTypeCharacter_text _ c mem

theorem tokens_text_first (type : MslType) :
    ∃ word rest, tokens type.text.toList = .word word :: rest := by
  obtain ⟨c, rest, shape, word, digit⟩ := type.text_head
  rw [shape]
  exact tokens_first word digit rest

/-! ## Spelling

Which characters are printed does not depend on how they are divided into tokens. -/

def unspaced (text : List Char) : List Char := text.filter fun c => !isSpace c

@[simp] theorem unspaced_append (first second : List Char) :
    unspaced (first ++ second) = unspaced first ++ unspaced second := filter_append ..

@[simp] theorem unspaced_blank (rest : List Char) : unspaced (' ' :: rest) = unspaced rest := rfl

theorem unspaced_cons {c : Char} (letter : isSpace c = false) (rest : List Char) :
    unspaced (c :: rest) = c :: unspaced rest := by
  rw [unspaced, filter_cons_of_pos (by rw [letter]; rfl), unspaced]

/-- The text spells the tree, however it is divided into tokens. -/
def Writes (text : List Char) (a : Tree) : Prop := Spells (tokens text) a

variable {text : List Char}

theorem writes_iff {a : Tree} : Writes text a ↔
    unspaced text ≠ [] ∧ Nested (unspaced text) ∧ bare (unspaced text) = bare a.yield := by
  have letters := letters_tokens text
  constructor
  · rintro ⟨present, nested, same⟩
    rw [letters] at present nested same
    exact ⟨present, nested, same⟩
  · rintro ⟨present, nested, same⟩
    exact ⟨by rw [letters]; exact present, by rw [letters]; exact nested,
      by rw [letters]; exact same⟩

variable {operation : List Char}

section Writing

variable {first second third : List Char} {a b c : Tree}

theorem Writes.enclose (writes : Writes first a) (parent : Nat) (expression : MslExpression) :
    Writes (enclose parent expression first) a := by
  unfold CuMetal.Metal.enclose
  split
  · obtain ⟨-, nested, same⟩ := writes_iff.mp writes
    refine writes_iff.mpr ?_
    rw [unspaced_cons (by decide), unspaced_append]
    exact ⟨nofun, nested.wrap, by simpa [bare, isPlain, unspaced, isSpace] using same⟩
  · exact writes

theorem Writes.unary (known : operation ∈ unaryOperators) (writes : Writes first a) :
    Writes (operation ++ first) (.unary operation a) := by
  obtain ⟨-, nested, same⟩ := writes_iff.mp writes
  obtain ⟨plain, some_⟩ := unary_plain known
  have own : unspaced operation = operation := by
    simp only [unaryOperators, mem_cons, not_mem_nil, or_false] at known
    rcases known with rfl | rfl | rfl | rfl | rfl | rfl <;> rfl
  refine writes_iff.mpr ⟨?_, ?_, ?_⟩
  · rw [unspaced_append, own]
    exact append_ne_nil_of_left_ne_nil some_ _
  · rw [unspaced_append, own]
    exact (nested_plain plain).append nested
  · rw [unspaced_append, own, bare_append, same, Tree.yield, bare_append]

theorem Writes.binary {levels : Nat × Nat × Nat} (known : levelsOf operation = some levels)
    (left : Writes first a) (right : Writes second b) :
    Writes (first ++ ' ' :: (operation ++ ' ' :: second)) (.binary operation a b) := by
  obtain ⟨present, nested, same⟩ := writes_iff.mp left
  obtain ⟨-, nested', same'⟩ := writes_iff.mp right
  have own : unspaced operation = operation := by
    have row := levelsOf_cases (P := fun spelling _ => unspaced spelling == spelling) known
      (by decide)
    exact beq_iff_eq.mp row
  refine writes_iff.mpr ?_
  rw [unspaced_append, unspaced_blank, unspaced_append, unspaced_blank, own]
  refine ⟨append_ne_nil_of_left_ne_nil present _,
    nested.append ((nested_plain (operation_plain known).1).append nested'), ?_⟩
  rw [bare_append, bare_append, same, same', Tree.yield, bare_append, bare_append]

theorem Writes.conditional (condition : Writes first c) (trueValue : Writes second a)
    (falseValue : Writes third b) :
    Writes (first ++ ' ' :: (['?'] ++ ' ' :: (second ++ ' ' :: ([':'] ++ ' ' :: third))))
      (.conditional c a b) := by
  obtain ⟨present, nested, same⟩ := writes_iff.mp condition
  obtain ⟨-, nested', same'⟩ := writes_iff.mp trueValue
  obtain ⟨-, nested'', same''⟩ := writes_iff.mp falseValue
  refine writes_iff.mpr ?_
  have question : unspaced ['?'] = ['?'] := rfl
  have colon : unspaced [':'] = [':'] := rfl
  have plain : ∀ mark ∈ ['?', ':'], Nested [mark] := by
    intro mark mem
    simp only [mem_cons, not_mem_nil, or_false] at mem
    rcases mem with rfl | rfl <;> rfl
  simp only [unspaced_append, unspaced_blank, question, colon]
  refine ⟨append_ne_nil_of_left_ne_nil present _,
    nested.append ((plain '?' (by decide)).append
      (nested'.append ((plain ':' (by decide)).append nested''))), ?_⟩
  simp only [bare_append, same, same', same'', Tree.yield, bare_cons '?' (_ ++ _),
    bare_cons ':' (Tree.yield _)]

theorem Writes.subscript (base : Writes first a) (index : Writes second b) :
    Writes (first ++ '[' :: (second ++ [']'])) (.subscript a b) := by
  obtain ⟨present, nested, same⟩ := writes_iff.mp base
  obtain ⟨-, nested', same'⟩ := writes_iff.mp index
  refine writes_iff.mpr ?_
  have closing : unspaced [']'] = [']'] := rfl
  have nestedMarks : Nested ['['] ∧ Nested [']'] := ⟨rfl, rfl⟩
  rw [unspaced_append, unspaced_cons (by decide), unspaced_append, closing]
  refine ⟨append_ne_nil_of_left_ne_nil present _, nested.append
    (nestedMarks.1.append (nested'.append nestedMarks.2)), ?_⟩
  simp only [bare_append, same, same', Tree.yield, bare_cons '[' (_ ++ _)]

theorem Writes.member (base : Writes first a) (name : String) :
    Writes (first ++ '.' :: (sanitizeIdentifier name).toList)
      (.member a (sanitizeIdentifier name).toList) := by
  obtain ⟨present, nested, same⟩ := writes_iff.mp base
  have own : unspaced (sanitizeIdentifier name).toList = (sanitizeIdentifier name).toList := by
    rw [unspaced, ← letters_tokens, tokens_sanitizeIdentifier]
    exact append_nil _
  have plain : (sanitizeIdentifier name).toList.all isPlain = true :=
    all_eq_true.mpr fun c mem => isPlain_of_word (sanitizeIdentifier_word name mem)
  have dot : Nested ['.'] := rfl
  refine writes_iff.mpr ?_
  rw [unspaced_append, unspaced_cons (by decide), own]
  refine ⟨append_ne_nil_of_left_ne_nil present _,
    nested.append (dot.append (nested_plain plain)), ?_⟩
  simp only [bare_append, same, Tree.yield, bare_cons '.' (String.toList _)]

end Writing

variable {L : List Token}

theorem nameParts_tokens {parts : List (List Char)} (named : nameParts L = some parts) :
    ∃ part rest, parts = part :: rest ∧ nameTokens parts = L := by
  fun_induction nameParts generalizing parts with
  | case1 part =>
    cases named
    exact ⟨part, [], rfl, rfl⟩
  | case2 part rest ih =>
    obtain ⟨others, known, rfl⟩ := map_eq_some_iff.mp named
    obtain ⟨next, more, rfl, same⟩ := ih known
    exact ⟨part, next :: more, rfl, by rw [nameTokens, same]⟩
  | case3 => cases named
  | case4 => cases named

theorem mem_nameTokens {p : List Char} {parts : List (List Char)} (mem : p ∈ parts) :
    word p ∈ nameTokens parts := by
  match parts with
  | [part] =>
    rw [mem_singleton.mp mem]
    exact mem_singleton.mpr rfl
  | part :: next :: rest =>
    rw [nameTokens]
    rcases mem_cons.mp mem with rfl | mem
    · exact mem_cons_self
    · exact mem_cons_of_mem _ (mem_cons_of_mem _ (mem_nameTokens mem))

theorem derives_number {digits : List Char} (some_ : digits ≠ [])
    (plain : digits.all isPlain = true) {g : Nat} (bound : g ≤ 15) :
    Derives g [.number digits] (.number digits) :=
  (Derives.number plain some_).le bound

def namesKnown (L : List Token) : Bool :=
  match nameParts L with
  | some parts => parts.all isName
  | none => true

theorem literalTree_reads {a : Tree} (plain : ∀ token ∈ L, token.IsPlain)
    (known : literalTree L = some a) :
    Spells L a ∧ ∀ g, g ≤ 14 →
      (Derives g L a ↔ g ≤ (if L.head? == some (sign '-') then 13 else 14) ∧
        namesKnown L = true) := by
  have number : ∀ digits : List Char, number digits ∈ L →
      digits ≠ [] ∧ digits.all isPlain = true := fun digits mem => plain _ mem
  unfold literalTree at known
  split at known
  · next digits =>
      cases known
      obtain ⟨some_, own⟩ := number digits (by simp)
      refine ⟨spells_number some_ own, fun g bound => ?_⟩
      exact iff_of_true (derives_number some_ own (by omega)) ⟨bound, rfl⟩
  · next minus digits =>
      split at known
      · next same =>
          cases known
          subst same
          obtain ⟨some_, own⟩ := number digits (by simp)
          have inside := derives_number some_ own (g := 13) (by decide)
          refine ⟨(Derives.unary (by decide) inside).spells, fun g _ => ?_⟩
          rw [sign, derives_unary_iff (by decide)]
          exact and_congr_right fun _ => iff_of_true inside rfl
      · cases known
  · next word less type greater opening bits closing =>
      split at known
      · next same =>
          cases known
          simp only [cons.injEq, and_true] at same
          obtain ⟨rfl, rfl, rfl, rfl, rfl⟩ := same
          obtain ⟨some_, own⟩ := number bits (by simp)
          have typed : [word type].all isTypeToken = true := by
            rw [all_cons, all_nil, Bool.and_true]
            exact (plain (.word type) (by simp)).2
          have inside := (derivesAll_single (spells_number some_ own)).mpr
            (derives_number some_ own (by decide))
          have shape : Derives 15 _ _ := ((@derives_asType_iff 15 [.number bits] [.word type] _).mpr
            ⟨le_refl _, typed, inside⟩)
          exact ⟨shape.spells, fun g bound =>
            iff_of_true (shape.le (by omega)) ⟨bound, rfl⟩⟩
      · cases known
  · obtain ⟨parts, named, rfl⟩ := map_eq_some_iff.mp known
    obtain ⟨part, rest, rfl, rfl⟩ := nameParts_tokens named
    have words := fun p (mem : p ∈ part :: rest) => plain _ (mem_nameTokens mem)
    have first : (nameTokens (part :: rest)).head? = some (.word part) := by cases rest <;> rfl
    refine ⟨spells_name (words part mem_cons_self).1 fun p mem => (words p mem).2,
      fun g bound => ?_⟩
    have other : (some (word part) == some (sign '-')) = false := by simp [sign]
    rw [derives_name_iff, first, other, namesKnown, named, List.all_eq_true]
    exact and_congr_left fun _ => iff_of_true (by omega) (by simpa using bound)

theorem operatorPrecedence_eq {operation : String} {own left right : Nat}
    (known : levelsOf operation.toList = some (own, left, right)) :
    operatorPrecedence operation = own := by
  obtain ⟨row, mem, same, levels⟩ := row_of_levelsOf known
  have all : ∀ row ∈ binaryOperators, operatorPrecedence row.1 = row.2.1 := by decide
  have own := all row mem
  rw [String.toList_inj.mp same, levels] at own
  exact own

variable {type : MslType}

theorem binary_tree {operation : String} {left right : MslExpression} {t : Tree}
    (tree : (MslExpression.binary operation left right type).tree = some t) :
    ∃ own l r, levelsOf operation.toList = some (own, l, r) ∧ ∃ a b, left.tree = some a ∧
      right.tree = some b ∧ t = .binary operation.toList a b := by
  rw [MslExpression.tree] at tree
  split at tree
  · next known =>
      obtain ⟨⟨own, l, r⟩, known⟩ := isSome_iff_exists.mp known
      obtain ⟨a, leftTree, rest⟩ := bind_eq_some_iff.mp tree
      obtain ⟨b, rightTree, rfl⟩ := map_eq_some_iff.mp rest
      exact ⟨own, l, r, known, a, b, leftTree, rightTree, rfl⟩
  · cases tree

theorem unary_tree {operation : String} {operand : MslExpression} {t : Tree}
    (tree : (MslExpression.unary operation operand type).tree = some t) :
    operation.toList ∈ unaryOperators ∧
      ∃ a, operand.tree = some a ∧ t = .unary operation.toList a := by
  rw [MslExpression.tree] at tree
  split at tree
  · next known =>
      obtain ⟨a, operandTree, rfl⟩ := map_eq_some_iff.mp tree
      exact ⟨contains_iff_mem.mp known, a, operandTree, rfl⟩
  · cases tree

/-! ## The ends of a text -/

/-- A character that ends no operator makes no longer operator of a unary one. -/
theorem unary_extend {operation : List Char} (known : operation ∈ unaryOperators) {c : Char}
    (last : isWordCharacter c = true ∨ c = '(' ∨ c = '[' ∨ c = '.') :
    (mark operation).extend c = none := by
  have dot : operation ≠ ['.'] := by
    rintro rfl
    exact absurd known (by decide)
  cases extends_ : (mark operation).extend c with
  | none => rfl
  | some longer =>
    obtain ⟨-, long, mem, same⟩ := mark_extend dot extends_
    have all : longOperators.all (fun long => long.toList.getLast?.any fun c =>
        !isWordCharacter c && c != '(' && c != '[' && c != '.') = true := by decide
    have own := List.all_eq_true.mp all long mem
    rw [same, List.getLast?_concat, Option.any_some] at own
    rcases last with word | rfl | rfl | rfl
    · rw [word] at own
      cases own
    · cases own
    · cases own
    · cases own

/-- A longer operator starts with the operator and the character. -/
def goesOnWith (operation : List Char) (first : Option Char) : Bool :=
  first.any fun c => ((Token.mark operation).extend c).isSome

theorem goesOnWith_eq_false {operation : List Char} (known : operation ∈ unaryOperators)
    {text : List Char}
    (first : ∀ c ∈ text.head?, isWordCharacter c = true ∨ c = '(' ∨ c = '[' ∨ c = '.') :
    goesOnWith operation text.head? = false := by
  cases text with
  | nil => rfl
  | cons c rest =>
    rw [goesOnWith, List.head?_cons, Option.any_some, unary_extend known (first c rfl)]
    rfl

theorem head_of_cons {c : Char} {rest : List Char} (shape : text = c :: rest)
    (word : isWordCharacter c = true) (more : List Char) :
    ∀ d ∈ (text ++ more).head?, isWordCharacter d = true ∨ d = '(' ∨ d = '[' ∨ d = '.' := by
  rw [shape]
  rintro _ ⟨⟩
  exact .inl word

theorem sanitizeIdentifier_first (name : String) (more : List Char) :
    ∀ d ∈ ((sanitizeIdentifier name).toList ++ more).head?,
      isWordCharacter d = true ∨ d = '(' ∨ d = '[' ∨ d = '.' := by
  obtain ⟨c, rest, shape, -⟩ := sanitizeIdentifier_head name
  refine head_of_cons shape (sanitizeIdentifier_word name ?_) more
  rw [shape]
  exact List.mem_cons_self

theorem text_first (type : MslType) (more : List Char) :
    ∀ d ∈ (type.text.toList ++ more).head?,
      isWordCharacter d = true ∨ d = '(' ∨ d = '[' ∨ d = '.' := by
  obtain ⟨c, rest, shape, word, -⟩ := type.text_head
  exact head_of_cons shape word more

variable {expression : MslExpression} {parent : Nat}

theorem enclose_loose (loose : precedence expression < parent) (text : List Char) :
    enclose parent expression text = '(' :: (text ++ [')']) := if_pos loose

theorem enclose_tight (tight : parent ≤ precedence expression) (text : List Char) :
    enclose parent expression text = text := if_neg (not_lt.mpr tight)

theorem goesOnWith_append {operation : List Char} (known : operation ∈ unaryOperators)
    (text : List Char) {c : Char} (mark : c = '[' ∨ c = '.') (more : List Char) :
    goesOnWith operation (text ++ c :: more).head? = goesOnWith operation text.head? := by
  cases text with
  | nil =>
    refine goesOnWith_eq_false known ?_
    rintro _ ⟨⟩
    exact .inr (.inr mark)
  | cons => rfl

/-- Whether a unary operator merges with its operand shows at the operand's first character. -/
theorem merges_eq (known : operation ∈ unaryOperators) (e : MslExpression) {a : Tree}
    (tree : e.tree = some a) :
    goesOnWith operation (enclose 13 e (printBody e)).head? = goesOnWith operation e.leading := by
  have plain : ∀ {text : List Char},
      (∀ c ∈ text.head?, isWordCharacter c = true ∨ c = '(' ∨ c = '[' ∨ c = '.') →
      goesOnWith operation text.head? = goesOnWith operation none :=
    fun first => goesOnWith_eq_false known first
  have loose : ∀ {e : MslExpression}, precedence e < 13 →
      goesOnWith operation (enclose 13 e (printBody e)).head? = goesOnWith operation none := by
    intro e loose
    rw [enclose_loose loose]
    exact plain (by rintro _ ⟨⟩; decide)
  -- the base of a subscript or a member is printed first
  have afterBase : ∀ (base : MslExpression) {c : Char} (more : List Char), c = '[' ∨ c = '.' →
      (14 ≤ precedence base → goesOnWith operation (enclose 13 base (printBody base)).head? =
        goesOnWith operation base.leading) →
      goesOnWith operation (enclose 14 base (printBody base) ++ c :: more).head? =
        goesOnWith operation (if 14 ≤ precedence base then base.leading else none) := by
    intro base c more mark ih
    rw [goesOnWith_append known _ mark]
    by_cases tight : 14 ≤ precedence base
    · rw [if_pos tight, ← ih tight, enclose_tight tight, enclose_tight (by omega)]
    · rw [if_neg tight, enclose_loose (by omega)]
      exact plain (by rintro _ ⟨⟩; decide)
  have tight : 13 ≤ 14 := by decide
  match e, tree with
  | .identifier name _, _ =>
    have first := sanitizeIdentifier_first name []
    rw [append_nil] at first
    rw [enclose_tight tight, printBody]
    exact plain first
  | .literal spelling _, _ =>
    rw [enclose_tight tight, printBody]
    rfl
  | .unary operation' operand _, tree =>
    obtain ⟨known', -⟩ := unary_tree tree
    obtain ⟨c, rest, shape⟩ := exists_cons_of_ne_nil (unary_plain known').2
    rw [enclose_tight (le_refl 13), printBody, MslExpression.leading, shape]
    rfl
  | .binary operation' left right _, tree =>
    refine loose ?_
    obtain ⟨own, left, right, known', -⟩ := binary_tree tree
    have bound := (levels_binary known').1
    rw [precedence, operatorPrecedence_eq known']
    omega
  | .call callee arguments _, _ =>
    rw [enclose_tight tight, printBody]
    exact plain (sanitizeIdentifier_first callee _)
  | .aggregateInit type elements, _ =>
    rw [enclose_tight tight, printBody]
    exact plain (text_first type _)
  | .cast target operand reinterpret bitcast, _ =>
    rw [enclose_tight (le_refl 13), printBody]
    refine plain ?_
    split
    · exact head_of_cons rfl (by decide) _
    · split
      · exact head_of_cons rfl (by decide) _
      · exact text_first target _
  | .subscript base index _, tree =>
    obtain ⟨a, known', -⟩ := bind_eq_some_iff.mp tree
    rw [enclose_tight tight, printBody, MslExpression.leading]
    exact afterBase base _ (.inl rfl) fun _ => merges_eq known base known'
  | .member base member _, tree =>
    obtain ⟨a, known', -⟩ := map_eq_some_iff.mp tree
    rw [enclose_tight tight, printBody, MslExpression.leading]
    exact afterBase base _ (.inr rfl) fun _ => merges_eq known base known'
  | .conditional _ _ _ _, _ => exact loose (by simp [precedence])
  | .voteMask vote, _ =>
    rw [enclose_tight tight, printBody]
    exact plain (head_of_cons rfl (by decide) _)

def LeavesNumber (text : List Char) : Prop :=
  ∃ digits, pendingAfter none text = some (.number digits)

theorem not_leavesNumber_punctuator {c : Char} (punctuator : isPunctuator c = true)
    (first : List Char) : ¬ LeavesNumber (first ++ [c]) := by
  rintro ⟨digits, pending⟩
  rw [pendingAfter_punctuator punctuator] at pending
  cases pending

theorem literal_leaves {spelling : List Char} (letters : spelling.any isSpace = false)
    (some_ : tokens spelling ≠ []) : ∃ token, pendingAfter none spelling = some token ∧
      (tokens spelling).getLast? = some token := by
  rcases eq_nil_or_concat spelling with rfl | ⟨front, c, shape⟩
  · exact absurd rfl some_
  · rw [concat_eq_append] at shape
    have letter : isSpace c = false :=
      Bool.eq_false_iff.mpr (any_eq_false.mp letters c (by rw [shape]; simp))
    have pending := pendingAfter_isSome letter front
    rw [← shape] at pending
    obtain ⟨token, pending⟩ := isSome_iff_exists.mp pending
    exact ⟨token, pending, getLast?_tokens pending⟩

theorem endsInNumber_iff (e : MslExpression) {a : Tree} (tree : e.tree = some a) :
    LeavesNumber (enclose 14 e (printBody e)) ↔ e.endsInNumber = true := by
  have closed : ∀ {text : List Char} {c : Char}, isPunctuator c = true →
      (LeavesNumber (text ++ [c]) ↔ false = true) := fun punctuator =>
    iff_of_false (not_leavesNumber_punctuator punctuator _) (by decide)
  have loose : ∀ {e : MslExpression}, precedence e < 14 →
      (LeavesNumber (enclose 14 e (printBody e)) ↔ false = true) := by
    intro e loose
    rw [enclose_loose loose, ← cons_append]
    exact closed (by decide)
  have bracket : ∀ {first inside : List Char} {opening closing : Char},
      isPunctuator closing = true →
      (LeavesNumber (first ++ opening :: (inside ++ [closing])) ↔ false = true) := by
    intro first inside opening closing punctuator
    have shape : first ++ opening :: (inside ++ [closing]) =
        (first ++ opening :: inside) ++ [closing] := by
      rw [append_assoc, cons_append]
    rw [shape]
    exact closed punctuator
  have tight : 14 ≤ 14 := le_refl 14
  match e, tree with
  | .identifier name _, _ =>
    rw [enclose_tight tight, printBody]
    refine iff_of_false ?_ (by simp [MslExpression.endsInNumber])
    rintro ⟨digits, pending⟩
    have last := getLast?_tokens pending
    rw [tokens_sanitizeIdentifier] at last
    cases last
  | .literal spelling _, tree =>
    rw [enclose_tight tight, printBody, MslExpression.endsInNumber]
    rw [MslExpression.tree] at tree
    split at tree
    · cases tree
    · next letters =>
        have some_ : tokens spelling.toList ≠ [] := by
          intro none_
          rw [none_] at tree
          cases tree
        obtain ⟨token, pending, last⟩ := literal_leaves (Bool.not_eq_true _ ▸ letters) some_
        rw [LeavesNumber, pending, last]
        cases token <;> simp
  | .unary _ _ _, _ => exact loose (by simp [precedence])
  | .binary operation left right _, tree =>
    refine loose ?_
    obtain ⟨own, l, r, known, -⟩ := binary_tree tree
    have bound := (levels_binary known).1
    rw [precedence, operatorPrecedence_eq known]
    omega
  | .call callee arguments _, _ =>
    rw [enclose_tight tight, printBody]
    exact bracket (by decide)
  | .aggregateInit type elements, _ =>
    rw [enclose_tight tight, printBody]
    exact bracket (by decide)
  | .cast _ _ _ _, _ => exact loose (by simp [precedence])
  | .subscript base index _, _ =>
    rw [enclose_tight tight, printBody]
    exact bracket (by decide)
  | .member base member _, tree =>
    obtain ⟨b, baseTree, -⟩ := map_eq_some_iff.mp tree
    have ih := endsInNumber_iff base baseTree
    rw [enclose_tight tight, printBody, MslExpression.endsInNumber, ← ih]
    obtain ⟨c, rest, shape, digit⟩ := sanitizeIdentifier_head member
    have words : ∀ d ∈ c :: rest, isWordCharacter d = true := fun d mem =>
      sanitizeIdentifier_word member (by rw [shape]; exact mem)
    rw [shape]
    constructor
    · intro whole
      by_contra other
      have pending := (tokens_member digit words fun digits ends_ => other ⟨digits, ends_⟩).2
      obtain ⟨digits, number⟩ := whole
      rw [pending] at number
      cases number
    · rintro ⟨digits, pending⟩
      exact pendingAfter_numberMember words pending
  | .conditional _ _ _ _, _ => exact loose (by simp [precedence])
  | .voteMask vote, _ =>
    have shape : voteText ++ (printBody vote ++ [')', ')']) =
        (voteText ++ (printBody vote ++ [')'])) ++ [')'] := by
      rw [append_assoc, append_assoc]
      rfl
    rw [enclose_tight tight, printBody, shape]
    exact closed (by decide)

end CuMetal.Metal
