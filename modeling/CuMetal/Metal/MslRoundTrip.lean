import CuMetal.Metal.MslReading

/-!
# Expressions are read back

An expression is read back from its text where it is faithful, and nowhere else: one lemma for each
kind of expression, from those for its parts.
-/

namespace CuMetal.Metal

open Cpp List Option

/-- The text spells the tree of the expression, and is read as it just where the expression is
faithful. -/
def ReadsBack (e : MslExpression) : Prop :=
  ∀ a, e.tree = some a → Spells (tokens (printBody e)) a ∧
    ∀ g, g ≤ 14 → (Derives g (tokens (printBody e)) a ↔ g ≤ e.level ∧ e.faithful = true)

theorem operatorPrecedence_pos (operation : String) : 1 ≤ operatorPrecedence operation := by
  unfold operatorPrecedence
  repeat' split
  all_goals omega

theorem precedence_pos (e : MslExpression) : 1 ≤ precedence e := by
  cases e with
  | binary operation => exact operatorPrecedence_pos operation
  | _ => simp [precedence]

variable {e : MslExpression}

theorem level_eq (loose : precedence e < 13) : e.level = precedence e := by
  cases e with
  | binary => rfl
  | conditional => rfl
  | _ => simp [precedence] at loose

theorem level_tight (tight : 13 ≤ precedence e) : 13 ≤ e.level := by
  cases e with
  | cast => simp [MslExpression.level]
  | literal =>
    rw [MslExpression.level]
    · split
      · exact le_refl 13
      · exact tight
    · nofun
  | _ => exact tight

variable {g : Nat}

theorem le_level (bound : g ≤ 13) (tight : g ≤ precedence e) : g ≤ e.level := by
  by_cases loose : precedence e < 13
  · rw [level_eq loose]
    exact tight
  · have := level_tight (Nat.le_of_not_lt loose)
    omega

theorem level_base :
    precedence e < 14 ∨ 14 ≤ e.level ↔ e.isNegative = false := by
  cases e with
  | cast => simp [MslExpression.level, MslExpression.isNegative]
  | literal spelling type =>
    rw [MslExpression.level]
    · have own : precedence (.literal spelling type) = 14 := rfl
      rw [own]
      cases (MslExpression.literal spelling type).isNegative <;> simp
    · nofun
  | binary operation =>
    refine iff_of_true ?_ rfl
    exact lt_or_ge _ _
  | _ => exact iff_of_true (by simp [precedence, MslExpression.level, MslExpression.isNegative]) rfl

section Positions

variable {e : MslExpression} {a : Tree} (readsBack : ReadsBack e) (tree : e.tree = some a)

include readsBack tree

/-- An expression within the parentheses that it gets below a precedence. -/
theorem ReadsBack.enclosed (parent : Nat) (bound : g ≤ 14) :
    Spells (tokens (enclose parent e (printBody e))) a ∧
      (Derives g (tokens (enclose parent e (printBody e))) a ↔
        (precedence e < parent ∨ g ≤ e.level) ∧ e.faithful = true) := by
  obtain ⟨spells, derives⟩ := readsBack a tree
  refine ⟨Writes.enclose spells parent e, ?_⟩
  by_cases loose : precedence e < parent
  · have shape : tokens ('(' :: (printBody e ++ [')'])) =
        sign '(' :: (tokens (printBody e) ++ [sign ')']) :=
      tokens_brackets (by decide) (by decide) [] (printBody e)
    rw [enclose_loose loose, shape, derives_parens_iff spells.nested (by omega),
      derives 1 (by decide)]
    exact and_congr_left fun _ =>
      iff_of_true (le_level (by decide) (precedence_pos e)) (.inl loose)
  · rw [enclose_tight (Nat.le_of_not_lt loose), derives g bound, or_iff_right loose]

/-- Below a precedence that is not looser than the level, every operand fits. -/
theorem ReadsBack.operand {parent : Nat} (fits : g ≤ parent) (bound : parent ≤ 13) :
    Derives g (tokens (enclose parent e (printBody e))) a ↔ e.faithful = true := by
  rw [(readsBack.enclosed tree parent (by omega)).2]
  refine and_iff_right ((lt_or_ge (precedence e) parent).imp_right fun tight => ?_)
  exact le_level (by omega) (by omega)

theorem ReadsBack.condition : Derives 3 (tokens (enclose 2 e (printBody e))) a ↔
    precedence e ≠ 2 ∧ e.faithful = true := by
  rw [(readsBack.enclosed tree 2 (by decide)).2]
  refine and_congr_left fun _ => ⟨fun fits same => ?_, fun other => ?_⟩
  · rw [level_eq (by omega)] at fits
    omega
  · by_cases loose : precedence e < 2
    · exact .inl loose
    · exact .inr (le_level (by decide) (by omega))

theorem ReadsBack.argument : Derives 2 (tokens (printBody e)) a ↔
    precedence e ≠ 1 ∧ e.faithful = true := by
  rw [(readsBack a tree).2 2 (by decide)]
  refine and_congr_left fun _ => ⟨fun fits same => ?_, fun other => ?_⟩
  · rw [level_eq (by omega)] at fits
    omega
  · have := precedence_pos e
    exact le_level (by decide) (by omega)

theorem ReadsBack.whole : Derives 1 (tokens (printBody e)) a ↔ e.faithful = true := by
  rw [(readsBack a tree).2 1 (by decide)]
  exact and_iff_right (le_level (by decide) (precedence_pos e))

theorem ReadsBack.base : Derives 14 (tokens (enclose 14 e (printBody e))) a ↔
    e.isNegative = false ∧ e.faithful = true := by
  rw [(readsBack.enclosed tree 14 (by decide)).2, level_base]

end Positions

variable {arguments : List MslExpression} {operation : String} {operand : MslExpression}
  {trees : List Tree} {base : MslExpression}

theorem arguments_parts (all : ∀ e ∈ arguments, ReadsBack e)
    (tree : treeAll arguments = some trees) :
    ∃ parts : List (List Token × Tree),
      tokens (printArguments arguments) = separated (parts.map Prod.fst) ∧
      parts.map Prod.snd = trees ∧ (∀ part ∈ parts, Spells part.1 part.2) ∧
      ((∀ part ∈ parts, Derives 2 part.1 part.2) ↔ argumentsFaithful arguments = true) := by
  induction arguments generalizing trees with
  | nil =>
    cases tree
    exact ⟨[], rfl, rfl, nofun, iff_of_true nofun rfl⟩
  | cons e rest ih =>
    rw [treeAll] at tree
    obtain ⟨a, own, others⟩ := bind_eq_some_iff.mp tree
    obtain ⟨as, rest_, rfl⟩ := map_eq_some_iff.mp others
    obtain ⟨parts, text, same, spells, derives⟩ :=
      ih (fun e mem => all e (mem_cons_of_mem _ mem)) rest_
    have readsBack := all e mem_cons_self
    refine ⟨(tokens (printBody e), a) :: parts, ?_, by rw [map_cons, same], ?_, ?_⟩
    · cases rest with
      | nil =>
        cases rest_
        rw [map_eq_nil_iff.mp same]
        rfl
      | cons next rest =>
        cases parts with
        | nil =>
          rw [← same, treeAll] at rest_
          obtain ⟨_, -, rest_⟩ := bind_eq_some_iff.mp rest_
          obtain ⟨_, -, rest_⟩ := map_eq_some_iff.mp rest_
          cases rest_
        | cons part parts =>
          rw [printArguments, tokens_punctuator (by decide), map_cons, map_cons,
            separated, ← map_cons, ← text]
          rfl
    · intro part mem
      rcases mem_cons.mp mem with rfl | mem
      · exact (readsBack a own).1
      · exact spells part mem
    · rw [forall_mem_cons, derives, readsBack.argument own, argumentsFaithful,
        Bool.and_eq_true, Bool.and_eq_true, bne_iff_ne]

theorem arguments_read (all : ∀ e ∈ arguments, ReadsBack e)
    (tree : treeAll arguments = some trees) :
    Nested (letters (tokens (printArguments arguments))) ∧
      bare (letters (tokens (printArguments arguments))) = bare (yieldAll trees) ∧
      (DerivesAll (tokens (printArguments arguments)) trees ↔ argumentsFaithful arguments = true) := by
  obtain ⟨parts, text, rfl, spells, derives⟩ := arguments_parts all tree
  obtain ⟨nested, same⟩ := letters_separated spells
  rw [text]
  exact ⟨nested, same, (derivesAll_iff spells).trans derives⟩

theorem argument_read {e : MslExpression} {a : Tree} (readsBack : ReadsBack e)
    (tree : e.tree = some a) : Nested (letters (tokens (printBody e))) ∧
      bare (letters (tokens (printBody e))) = bare (yieldAll [a]) ∧
      (DerivesAll (tokens (printBody e)) [a] ↔
        precedence e ≠ 1 ∧ e.faithful = true) := by
  have spells := (readsBack a tree).1
  exact ⟨spells.nested, spells.bare,
    (derivesAll_single spells).trans (readsBack.argument tree)⟩

/-! ## One kind of expression at a time -/

theorem sanitizeIdentifier_plain (name : String) : (sanitizeIdentifier name).toList ≠ [] ∧
    (sanitizeIdentifier name).toList.all isPlain = true := by
  obtain ⟨c, rest, shape, -⟩ := sanitizeIdentifier_head name
  refine ⟨by rw [shape]; exact cons_ne_nil c rest, all_eq_true.mpr fun c mem => ?_⟩
  exact isPlain_of_word (sanitizeIdentifier_word name mem)

theorem spells_sanitizeIdentifier (name : String) :
    Spells [.word (sanitizeIdentifier name).toList] (.name [(sanitizeIdentifier name).toList]) := by
  obtain ⟨some_, plain⟩ := sanitizeIdentifier_plain name
  exact @spells_name _ [] some_ fun p mem => by
    rw [mem_singleton.mp mem]
    exact plain

theorem readsBack_identifier (name : String) (type : MslType) :
    ReadsBack (.identifier name type) := by
  rintro a ⟨⟩
  rw [printBody, tokens_sanitizeIdentifier]
  refine ⟨spells_sanitizeIdentifier name, fun g bound => ?_⟩
  have read := @derives_name_iff g (sanitizeIdentifier name).toList []
  rw [forall_mem_singleton] at read
  exact read.trans (and_congr_left fun _ => iff_of_true (by omega) bound)

theorem readsBack_literal (spelling : String) (type : MslType) :
    ReadsBack (.literal spelling type) := by
  intro a tree
  rw [MslExpression.tree] at tree
  split at tree
  · cases tree
  · exact literalTree_reads (tokens_plain spelling.toList) tree

theorem readsBack_unary (type : MslType)
    (readsBack : ReadsBack operand) : ReadsBack (.unary operation operand type) := by
  intro a tree
  obtain ⟨known, x, operandTree, rfl⟩ := unary_tree tree
  obtain ⟨spells, -⟩ := readsBack.enclosed operandTree 13 (g := 13) (by decide)
  have merge := merges_eq known operand operandTree
  rw [printBody]
  refine ⟨Writes.unary known spells, fun g bound => ?_⟩
  have own : (MslExpression.unary operation operand type).level = 13 := rfl
  rw [own, MslExpression.faithful, merges, ← goesOnWith, ← merge]
  have merging : goesOnWith operation.toList (enclose 13 operand (printBody operand)).head? =
      true → ¬ Derives g (tokens (operation.toList ++ enclose 13 operand (printBody operand)))
        (.unary operation.toList x) := by
    intro longer derives
    obtain ⟨c, first, longer⟩ := (any_eq_true _ _).mp longer
    obtain ⟨rest, shape⟩ : ∃ rest, enclose 13 operand (printBody operand) = c :: rest :=
      head?_eq_some_iff.mp first
    rw [shape] at derives
    obtain ⟨t, more, same, other, open_⟩ := tokens_merged known longer
    rw [same] at derives
    exact derives.unary_first.elim other open_
  have alone : goesOnWith operation.toList (enclose 13 operand (printBody operand)).head? =
      false → tokens (operation.toList ++ enclose 13 operand (printBody operand)) =
        .mark operation.toList :: tokens (enclose 13 operand (printBody operand)) := by
    intro short
    refine tokens_unary known fun c first => ?_
    rw [goesOnWith, mem_def.mp first, any_some, isSome_eq_false_iff,
      isNone_iff_eq_none] at short
    exact short
  cases longer : goesOnWith operation.toList (enclose 13 operand (printBody operand)).head? with
  | true => exact iff_of_false (merging longer) (fun both => Bool.noConfusion both.2)
  | false =>
    rw [alone longer, derives_unary_iff known,
      readsBack.operand operandTree (le_refl 13) (le_refl 13)]
    rfl

/-! The binary operators. -/

theorem tokens_binary {operation : List Char} {levels : Nat × Nat × Nat}
    (known : levelsOf operation = some levels) : tokens operation = [.mark operation] := by
  have row := levelsOf_cases (P := fun spelling _ => tokens spelling == [.mark spelling]) known
    (by decide)
  exact beq_iff_eq.mp row

theorem assignment_iff {own left right : Nat}
    (known : levelsOf operation.toList = some (own, left, right)) :
    (operation == "=") = (own == 2) := by
  obtain ⟨row, mem, same, levels⟩ := row_of_levelsOf known
  have all : ∀ row ∈ binaryOperators, (row.1 == "=") = (row.2.1 == 2) := by decide
  have own := all row mem
  rw [String.toList_inj.mp same, levels] at own
  exact own

theorem readsBack_binary {left right : MslExpression} (type : MslType)
    (readsLeft : ReadsBack left) (readsRight : ReadsBack right) :
    ReadsBack (.binary operation left right type) := by
  intro t tree
  obtain ⟨own, l, r, known, a, b, leftTree, rightTree, rfl⟩ := binary_tree tree
  have precedences := operatorPrecedence_eq known
  obtain ⟨spells, -⟩ := readsLeft.enclosed leftTree own (g := 0) (by decide)
  obtain ⟨spells', -⟩ := readsRight.enclosed rightTree (own + 1) (g := 0) (by decide)
  rw [printBody, precedences]
  refine ⟨Writes.binary known spells spells', fun g bound => ?_⟩
  have level : (MslExpression.binary operation left right type).level = own := precedences
  rw [tokens_operator (tokens_binary known), derives_binary_iff known spells, level,
    MslExpression.faithful, assignment_iff known]
  refine and_congr_right fun _ => ?_
  obtain ⟨small, ⟨rfl, rfl, rfl⟩ | ⟨other, rfl, rfl⟩⟩ := levels_binary known
  · rw [readsLeft.condition leftTree, readsRight.operand rightTree (by decide) (by decide)]
    simp
  · rw [readsLeft.operand leftTree (le_refl _) (by omega),
      readsRight.operand rightTree (le_refl _) (by omega)]
    simp [other]

theorem readsBack_conditional {condition trueValue falseValue : MslExpression} (type : MslType)
    (readsCondition : ReadsBack condition) (readsTrue : ReadsBack trueValue)
    (readsFalse : ReadsBack falseValue) :
    ReadsBack (.conditional condition trueValue falseValue type) := by
  intro t tree
  rw [MslExpression.tree] at tree
  obtain ⟨c, conditionTree, rest⟩ := bind_eq_some_iff.mp tree
  obtain ⟨a, trueTree, rest⟩ := bind_eq_some_iff.mp rest
  obtain ⟨b, falseTree, rfl⟩ := map_eq_some_iff.mp rest
  obtain ⟨spells, -⟩ := readsCondition.enclosed conditionTree 2 (g := 0) (by decide)
  obtain ⟨spells', -⟩ := readsTrue.enclosed trueTree 2 (g := 0) (by decide)
  obtain ⟨spells'', -⟩ := readsFalse.enclosed falseTree 2 (g := 0) (by decide)
  rw [printBody]
  refine ⟨Writes.conditional spells spells' spells'', fun g bound => ?_⟩
  have question : tokens ['?'] = [sign '?'] := by decide
  have colon : tokens [':'] = [sign ':'] := by decide
  have level : (MslExpression.conditional condition trueValue falseValue type).level = 2 := rfl
  rw [tokens_operator question, tokens_operator colon, derives_conditional_iff spells spells',
    level, readsCondition.condition conditionTree,
    readsTrue.operand trueTree (by decide) (by decide),
    readsFalse.operand falseTree (by decide) (by decide), MslExpression.faithful]
  simp [and_assoc]

/-! The expressions that end in a bracket, and members. -/

theorem readsBack_subscript {index : MslExpression} (type : MslType) (readsBase : ReadsBack base)
    (readsIndex : ReadsBack index) : ReadsBack (.subscript base index type) := by
  intro t tree
  rw [MslExpression.tree] at tree
  obtain ⟨a, baseTree, rest⟩ := bind_eq_some_iff.mp tree
  obtain ⟨b, indexTree, rfl⟩ := map_eq_some_iff.mp rest
  obtain ⟨spells, -⟩ := readsBase.enclosed baseTree 14 (g := 0) (by decide)
  rw [printBody]
  refine ⟨Writes.subscript spells (readsIndex b indexTree).1, fun g bound => ?_⟩
  have level : (MslExpression.subscript base index type).level = 14 := rfl
  rw [tokens_brackets (by decide) (by decide), derives_subscript_iff spells, level,
    readsBase.base baseTree, readsIndex.whole indexTree, MslExpression.faithful]
  simp [and_assoc]

theorem endsInNumber_of_isNegative {e : MslExpression} {a : Tree} (tree : e.tree = some a)
    (negative : e.isNegative = true) : e.endsInNumber = true := by
  cases e with
  | literal spelling type =>
    rw [MslExpression.isNegative, beq_iff_eq] at negative
    rw [MslExpression.tree] at tree
    split at tree
    · cases tree
    · rw [MslExpression.endsInNumber]
      revert tree negative
      generalize tokens spelling.toList = L
      intro negative tree
      unfold literalTree at tree
      split at tree
      · rfl
      · rfl
      · cases negative
        simp [sign] at tree
      · obtain ⟨parts, named, rfl⟩ := map_eq_some_iff.mp tree
        obtain ⟨part, rest, rfl, rfl⟩ := nameParts_tokens named
        cases rest <;> cases negative
  | _ => cases negative

theorem readsBack_member (member : String) (type : MslType) (readsBase : ReadsBack base) :
    ReadsBack (.member base member type) := by
  intro t tree
  rw [MslExpression.tree] at tree
  obtain ⟨a, baseTree, rfl⟩ := map_eq_some_iff.mp tree
  obtain ⟨spells, -⟩ := readsBase.enclosed baseTree 14 (g := 0) (by decide)
  rw [printBody]
  refine ⟨Writes.member spells member, fun g bound => ?_⟩
  have level : (MslExpression.member base member type).level = 14 := rfl
  obtain ⟨c, rest, shape, digit⟩ := sanitizeIdentifier_head member
  have words : ∀ d ∈ c :: rest, isWordCharacter d = true := fun d mem =>
    sanitizeIdentifier_word member (by rw [shape]; exact mem)
  have ends_ := endsInNumber_iff base baseTree
  rw [level, MslExpression.faithful, shape]
  cases number : base.endsInNumber with
  | true =>
    -- the name goes on with the number, and the last token is no name
    refine iff_of_false (fun derives => ?_) (fun both => Bool.noConfusion both.2)
    obtain ⟨digits, pending⟩ := ends_.mpr number
    obtain ⟨longer, pending⟩ := pendingAfter_numberMember words pending
    have last := getLast?_tokens pending
    rw [← dropLast_append_getLast? _ last] at derives
    rcases derives.member_last with same | same <;> cases same
  | false =>
    have alone := (tokens_member digit words fun digits pending =>
      absurd (ends_.mp ⟨digits, pending⟩) (by rw [number]; decide)).1
    have positive : base.isNegative = false := by
      rw [Bool.eq_false_iff]
      intro negative
      rw [endsInNumber_of_isNegative baseTree negative] at number
      cases number
    rw [alone, derives_member_iff spells, readsBase.base baseTree, positive]
    simp [and_comm]

theorem readsBack_call (callee : String) (type : MslType)
    (all : ∀ e ∈ arguments, ReadsBack e) : ReadsBack (.call callee arguments type) := by
  intro t tree
  rw [MslExpression.tree] at tree
  obtain ⟨trees, argumentTrees, rfl⟩ := map_eq_some_iff.mp tree
  obtain ⟨nested, same, derives⟩ := arguments_read all argumentTrees
  rw [printBody, tokens_brackets (by decide) (by decide), tokens_sanitizeIdentifier]
  refine ⟨spells_apply (spells_sanitizeIdentifier callee) nested same, fun g bound => ?_⟩
  have read := @derives_apply_iff g (tokens (printArguments arguments)) trees
    (sanitizeIdentifier callee).toList []
  rw [forall_mem_singleton, derives] at read
  refine read.trans ?_
  have level : (MslExpression.call callee arguments type).level = 14 := rfl
  rw [level, MslExpression.faithful, Bool.and_eq_true]

theorem tokens_text (type : MslType) : (tokens type.text.toList).all isTypeToken = true :=
  tokens_type (isTypeCharacter_text type)

theorem readsBack_aggregateInit (type : MslType) {elements : List MslExpression}
    (all : ∀ e ∈ elements, ReadsBack e) : ReadsBack (.aggregateInit type elements) := by
  intro t tree
  rw [MslExpression.tree] at tree
  obtain ⟨trees, elementTrees, rfl⟩ := map_eq_some_iff.mp tree
  obtain ⟨nested, same, derives⟩ := arguments_read all elementTrees
  rw [printBody, tokens_brackets (by decide) (by decide)]
  refine ⟨spells_braces (tokens_text type) nested same, fun g bound => ?_⟩
  have level : (MslExpression.aggregateInit type elements).level = 14 := rfl
  obtain ⟨word, rest, shape⟩ := tokens_text_first type
  rw [level, MslExpression.faithful, namesType, shape, derives_braces_iff, derives]
  cases rest with
  | nil => simp; omega
  | cons => simp

theorem spells_typeTree (type : MslType) :
    Spells (tokens type.text.toList) (typeTree (tokens type.text.toList)) := by
  obtain ⟨word, rest, shape⟩ := tokens_text_first type
  have typed := tokens_text type
  have plain := tokens_plain type.text.toList (.word word) (by rw [shape]; exact mem_cons_self)
  rw [shape] at typed ⊢
  cases rest with
  | nil =>
    have only : ∀ p ∈ [word], p.all isPlain = true :=
      forall_mem_singleton.mpr plain.2
    exact spells_name plain.1 only
  | cons => exact ⟨by simp [plain.1], nested_type typed, rfl⟩

theorem reinterpretOpening : tokens reinterpretText = [.word reinterpretCastWord, sign '<'] ∧
    pendingAfter none reinterpretText = some (sign '<') := ⟨by decide, by decide⟩

theorem asTypeOpening : tokens asTypeText = [.word asTypeWord, sign '<'] ∧
    pendingAfter none asTypeText = some (sign '<') := ⟨by decide, by decide⟩

theorem readsBack_functional (target : MslType)
    (readsBack : ReadsBack operand) : ReadsBack (.cast target operand false false) := by
  intro t tree
  rw [MslExpression.tree] at tree
  obtain ⟨a, operandTree, rfl⟩ := map_eq_some_iff.mp tree
  obtain ⟨nested, same, derives⟩ := argument_read readsBack operandTree
  rw [printBody, if_neg (by decide), if_neg (by decide), if_neg (by decide), if_neg (by decide),
    tokens_brackets (by decide) (by decide)]
  refine ⟨spells_apply (spells_typeTree target) nested same, fun g bound => ?_⟩
  have level : (MslExpression.cast target operand false false).level = 14 := rfl
  obtain ⟨word, rest, shape⟩ := tokens_text_first target
  rw [level, MslExpression.faithful, namesType, shape]
  cases rest with
  | nil =>
    have read := @derives_apply_iff g (tokens (printBody operand)) [a] word []
    rw [forall_mem_singleton, derives] at read
    refine read.trans ?_
    simp [and_assoc]
  | cons => exact iff_of_false not_derives_apply_typeName (by simp)

theorem readsBack_reinterpret (target : MslType)
    (readsBack : ReadsBack operand) : ReadsBack (.cast target operand true false) := by
  intro t tree
  rw [MslExpression.tree] at tree
  obtain ⟨a, operandTree, rfl⟩ := map_eq_some_iff.mp tree
  have typed := tokens_type (isTypeCharacter_alias target)
  rw [printBody, if_neg (by decide), if_pos rfl, if_neg (by decide), if_pos rfl,
    tokens_angles (isTypeCharacter_alias target) reinterpretText _
      reinterpretOpening.1 reinterpretOpening.2]
  refine ⟨(readsBack a operandTree).1.reinterpretCast typed, fun g bound => ?_⟩
  have level : (MslExpression.cast target operand true false).level = 14 := rfl
  rw [derives_reinterpretCast_iff, readsBack.whole operandTree, level, MslExpression.faithful]
  simp [typed]
  omega

theorem readsBack_bitcast (target : MslType) (reinterpret : Bool)
    (readsBack : ReadsBack operand) : ReadsBack (.cast target operand reinterpret true) := by
  intro t tree
  rw [MslExpression.tree] at tree
  obtain ⟨a, operandTree, rfl⟩ := map_eq_some_iff.mp tree
  obtain ⟨nested, same, derives⟩ := argument_read readsBack operandTree
  have typed := tokens_text target
  rw [printBody, if_pos rfl, if_pos rfl,
    tokens_angles (isTypeCharacter_text target) asTypeText _
      asTypeOpening.1 asTypeOpening.2]
  refine ⟨spells_asType typed nested same, fun g bound => ?_⟩
  have level : (MslExpression.cast target operand reinterpret true).level = 14 := rfl
  rw [derives_asType_iff, derives, level, MslExpression.faithful]
  simp [typed]
  omega

theorem tokens_voteNames : tokens "uint".toList = nameTokens ["uint".toList] ∧
    tokens "simd_vote::vote_t".toList = nameTokens ["simd_vote".toList, "vote_t".toList] :=
  ⟨by decide, by decide⟩

theorem voteNames_known : (∀ p ∈ ["uint".toList], isName p = true) ∧
    ∀ p ∈ ["simd_vote".toList, "vote_t".toList], isName p = true := by decide

theorem readsBack_voteMask {vote : MslExpression} (readsBack : ReadsBack vote) :
    ReadsBack (.voteMask vote) := by
  intro t tree
  rw [MslExpression.tree] at tree
  obtain ⟨a, voteTree_, rfl⟩ := map_eq_some_iff.mp tree
  obtain ⟨nested, same, derives⟩ := argument_read readsBack voteTree_
  have plain : ∀ {parts : List (List Char)}, (∀ p ∈ parts, isName p = true) →
      ∀ p ∈ parts, p.all isPlain = true := fun known p mem => isPlain_of_isName (known p mem)
  have shape : printBody (.voteMask vote) = "uint".toList ++ '(' ::
      (("simd_vote::vote_t".toList ++ '(' :: (printBody vote ++ [')'])) ++ [')']) := by
    rw [printBody, append_assoc, cons_append, append_assoc]
    rfl
  have inner : Spells _ _ := spells_apply
    (spells_name (by decide) (plain voteNames_known.2)) nested same
  rw [shape, tokens_brackets (by decide) (by decide), tokens_brackets (by decide) (by decide),
    tokens_voteNames.1, tokens_voteNames.2]
  refine ⟨spells_apply (spells_name (by decide) (plain voteNames_known.1)) inner.nested inner.bare,
    fun g bound => ?_⟩
  have level : (MslExpression.voteMask vote).level = 14 := rfl
  rw [voteTree, derives_apply_iff, derivesAll_single inner, derives_apply_iff, derives, level,
    MslExpression.faithful, Bool.and_eq_true, bne_iff_ne]
  have known := voteNames_known
  exact and_congr_right fun _ =>
    ⟨fun read => read.2.2.2, fun faithful => ⟨known.1, by decide, known.2, faithful⟩⟩

mutual

theorem readsBack (e : MslExpression) : ReadsBack e :=
  match e with
  | .identifier name type => readsBack_identifier name type
  | .literal spelling type => readsBack_literal spelling type
  | .unary _ operand type => readsBack_unary type (readsBack operand)
  | .binary _ left right type => readsBack_binary type (readsBack left) (readsBack right)
  | .call callee arguments type => readsBack_call callee type (readsBackAll arguments)
  | .aggregateInit type elements => readsBack_aggregateInit type (readsBackAll elements)
  | .cast target operand reinterpret true =>
    readsBack_bitcast target reinterpret (readsBack operand)
  | .cast target operand true false => readsBack_reinterpret target (readsBack operand)
  | .cast target operand false false => readsBack_functional target (readsBack operand)
  | .subscript base index type => readsBack_subscript type (readsBack base) (readsBack index)
  | .member base member type => readsBack_member member type (readsBack base)
  | .conditional condition trueValue falseValue type =>
    readsBack_conditional type (readsBack condition) (readsBack trueValue) (readsBack falseValue)
  | .voteMask vote => readsBack_voteMask (readsBack vote)

theorem readsBackAll (arguments : List MslExpression) : ∀ e ∈ arguments, ReadsBack e :=
  match arguments with
  | [] => fun _ mem => nomatch mem
  | e :: rest => forall_mem_cons.mpr ⟨readsBack e, readsBackAll rest⟩

end

/-- The printed text is read as the tree and as no other, as a full expression and where an
initialiser or an assigned value stands. -/
def PrintsFaithfully (e : MslExpression) (tree : Tree) : Prop :=
  ∀ other, (Derives 1 (tokens (printExpression 0 e)) other ↔ other = tree) ∧
    (Derives 2 (tokens (printExpression 2 e)) other ↔ other = tree)

/-- A variable of type `uint`. -/
def uintNamed (name : String) : MslExpression := .identifier name (.uint 32)

/-- `(a + b) * c`. -/
def productOfSum : MslExpression :=
  .binary "*" (.binary "+" (uintNamed "a") (uintNamed "b") (.uint 32)) (uintNamed "c") (.uint 32)

/-- The tree of `(a + b) * c`. -/
def productTree : Tree :=
  .binary ['*'] (.binary ['+'] (.name [['a']]) (.name [['b']])) (.name [['c']])

/-- A conditional whose condition is a conditional. -/
def chosenTwice : MslExpression :=
  .conditional (.conditional (uintNamed "a") (uintNamed "b") (uintNamed "c") .bool)
    (uintNamed "d") (uintNamed "f") (.uint 32)

def chosenTwiceTree : Tree :=
  .conditional (.conditional (.name [['a']]) (.name [['b']]) (.name [['c']])) (.name [['d']])
    (.name [['f']])

/-- The tree that `a ? b : c ? d : f` is read as. -/
def chosenElseTree : Tree :=
  .conditional (.name [['a']]) (.name [['b']])
    (.conditional (.name [['c']]) (.name [['d']]) (.name [['f']]))

end CuMetal.Metal
