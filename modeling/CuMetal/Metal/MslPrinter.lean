import CuMetal.Lib.CppReader
import CuMetal.Metal.KernelText

/-!
# Printing expressions

`Printer::print_expression` (`compiler/metal/src/msl_ast.cpp:26-271`), the tree that an expression
stands for when its text is read as C++, and when the reader finds that tree.
-/

namespace CuMetal.Metal

open Cpp (Tree Token tokens sign scope isName asTypeWord levelsOf unaryOperators)

/-- The precedence of a binary operator (`28-42`). -/
def operatorPrecedence (operation : String) : Nat :=
  if operation = "," then 1
  else if operation = "=" then 2
  else if operation = "||" then 3
  else if operation = "&&" then 4
  else if operation = "|" then 5
  else if operation = "^" then 6
  else if operation = "&" then 7
  else if operation = "==" ∨ operation = "!=" then 8
  else if operation = "<" ∨ operation = "<=" ∨ operation = ">" ∨ operation = ">=" then 9
  else if operation = "<<" ∨ operation = ">>" then 10
  else if operation = "+" ∨ operation = "-" then 11
  else if operation = "*" ∨ operation = "/" ∨ operation = "%" then 12
  else 14

/-- `precedence` (`26-48`). -/
def precedence : MslExpression → Nat
  | .conditional _ _ _ _ => 2
  | .binary operation _ _ _ => operatorPrecedence operation
  | .unary _ _ _ | .cast _ _ _ _ => 13
  | _ => 14

/-- A scalar that has an aliasing spelling (`444-446`). -/
def MslType.aliasesAlone : MslType → Bool
  | .bool | .int _ | .uint _ | .half | .float => true
  | _ => false

/-- An element that has an aliasing spelling (`444-454`). -/
def MslType.aliases : MslType → Bool
  | .vector element lanes => decide (2 ≤ lanes ∧ lanes ≤ 4) && element.aliasesAlone
  | type => type.aliasesAlone

/-- The aliasing spelling of an indirection (`455-457`). -/
def aliasText (element : MslType) (space : MslAddressSpace) (mark : String) : String :=
  (if space.spelling = "" then "" else space.spelling ++ " ") ++ "cm_alias_" ++ element.text ++ mark

/-- `may_alias_spelling` (`438-458`). -/
def mayAliasSpelling : MslType → String
  | .pointer element space =>
    if element.aliases then aliasText element space "*" else (MslType.pointer element space).text
  | .reference element space =>
    if element.aliases then aliasText element space "&"
    else (MslType.reference element space).text
  | type => type.text

/-- The text of an expression below a precedence: in parentheses if it is looser (`202-204`,
`270`). -/
def enclose (parent : Nat) (expression : MslExpression) (text : List Char) : List Char :=
  if precedence expression < parent then '(' :: (text ++ [')']) else text

/-- What a cast that keeps the bits starts with (`234`). -/
def asTypeText : List Char := "as_type<".toList

/-- What a reinterpreting cast starts with (`238`). -/
def reinterpretText : List Char := "reinterpret_cast<".toList

/-- What a vote mask starts with (`263`). -/
def voteText : List Char := "uint(simd_vote::vote_t(".toList

mutual

/-- `print_expression` (`206-268`), within the parentheses. -/
def printBody : MslExpression → List Char
  | .identifier name _ => (sanitizeIdentifier name).toList
  | .literal spelling _ => spelling.toList
  | .unary operation operand _ => operation.toList ++ enclose 13 operand (printBody operand)
  | .binary operation left right _ =>
    enclose (operatorPrecedence operation) left (printBody left) ++
      ' ' :: (operation.toList ++
        ' ' :: enclose (operatorPrecedence operation + 1) right (printBody right))
  | .call callee arguments _ =>
    (sanitizeIdentifier callee).toList ++ '(' :: (printArguments arguments ++ [')'])
  | .aggregateInit type elements =>
    type.text.toList ++ '{' :: (printArguments elements ++ ['}'])
  | .cast target operand reinterpret bitcast =>
    if bitcast then
      asTypeText ++ (target.text.toList ++ '>' :: '(' :: (printBody operand ++ [')']))
    else if reinterpret then
      reinterpretText ++
        ((mayAliasSpelling target).toList ++ '>' :: '(' :: (printBody operand ++ [')']))
    else target.text.toList ++ '(' :: (printBody operand ++ [')'])
  | .subscript base index _ =>
    enclose 14 base (printBody base) ++ '[' :: (printBody index ++ [']'])
  | .member base member _ =>
    enclose 14 base (printBody base) ++ '.' :: (sanitizeIdentifier member).toList
  | .conditional condition trueValue falseValue _ =>
    enclose 2 condition (printBody condition) ++
      ' ' :: (['?'] ++ ' ' :: (enclose 2 trueValue (printBody trueValue) ++
        ' ' :: ([':'] ++ ' ' :: enclose 2 falseValue (printBody falseValue))))
  | .voteMask vote => voteText ++ (printBody vote ++ [')', ')'])

/-- The arguments of a call or the elements of an initialiser (`220-223`, `227-230`). -/
def printArguments : List MslExpression → List Char
  | [] => []
  | [argument] => printBody argument
  | argument :: next :: rest => printBody argument ++ ',' :: ' ' :: printArguments (next :: rest)

end

/-- `print_expression` (`196-271`). -/
def printExpression (parent : Nat) (expression : MslExpression) : List Char :=
  enclose parent expression (printBody expression)

def nameParts : List Token → Option (List (List Char))
  | [.word part] => some [part]
  | .word part :: t :: rest => if t = scope then (nameParts rest).map (part :: ·) else none
  | _ => none

/-- The tree of a literal: a number, a negative one, a number whose bits are taken as another type,
or the name of a constant. -/
def literalTree : List Token → Option Tree
  | [.number digits] => some (.number digits)
  | [minus, .number digits] =>
    if minus = sign '-' then some (.unary ['-'] (.number digits)) else none
  | [word, less, .word type, greater, opening, .number bits, closing] =>
    if [word, less, greater, opening, closing] =
        [.word asTypeWord, sign '<', sign '>', sign '(', sign ')'] then
      some (.asType [.word type] [.number bits])
    else none
  | list => (nameParts list).map .name

def typeTree : List Token → Tree
  | [.word word] => .name [word]
  | type => .typeName type

def voteTree (a : Tree) : Tree :=
  .apply (.name ["uint".toList]) [.apply (.name ["simd_vote".toList, "vote_t".toList]) [a]]

mutual

/-- The tree of an expression, with its names as they are printed; none where an operator is not
one of the table or a literal is not spelled as one. -/
def MslExpression.tree : MslExpression → Option Tree
  | .identifier name _ => some (.name [(sanitizeIdentifier name).toList])
  | .literal spelling _ =>
    if spelling.toList.any Cpp.isSpace then none else literalTree (tokens spelling.toList)
  | .unary operation operand _ =>
    if unaryOperators.contains operation.toList then operand.tree.map (.unary operation.toList)
    else none
  | .binary operation left right _ =>
    if (levelsOf operation.toList).isSome then
      left.tree.bind fun a => right.tree.map (.binary operation.toList a)
    else none
  | .call callee arguments _ =>
    (treeAll arguments).map (.apply (.name [(sanitizeIdentifier callee).toList]))
  | .aggregateInit type elements =>
    (treeAll elements).map (.braces (tokens type.text.toList))
  | .cast target operand reinterpret bitcast =>
    operand.tree.map fun a =>
      if bitcast then .asType (tokens target.text.toList) [a]
      else if reinterpret then .reinterpretCast (tokens (mayAliasSpelling target).toList) a
      else .apply (typeTree (tokens target.text.toList)) [a]
  | .subscript base index _ => base.tree.bind fun a => index.tree.map (.subscript a)
  | .member base member _ => base.tree.map (.member · (sanitizeIdentifier member).toList)
  | .conditional condition trueValue falseValue _ =>
    condition.tree.bind fun c => trueValue.tree.bind fun a =>
      falseValue.tree.map (.conditional c a)
  | .voteMask vote => vote.tree.map voteTree

def treeAll : List MslExpression → Option (List Tree)
  | [] => some []
  | argument :: rest => argument.tree.bind fun a => (treeAll rest).map (a :: ·)

end

/-- A literal whose text starts with a minus sign. -/
def MslExpression.isNegative : MslExpression → Bool
  | .literal spelling _ => (tokens spelling.toList).head? == some (sign '-')
  | _ => false

/-- The level at which the text is read as a whole. -/
def MslExpression.level : MslExpression → Nat
  | .cast _ _ _ _ => 14
  | expression => if expression.isNegative then 13 else precedence expression

/-- The text ends in a number. -/
def MslExpression.endsInNumber : MslExpression → Bool
  | .literal spelling _ =>
    match (tokens spelling.toList).getLast? with
    | some (.number _) => true
    | _ => false
  | .member base _ _ => base.endsInNumber
  | _ => false

/-- The first character of an operand, where it may be that of an operator. -/
def MslExpression.leading : MslExpression → Option Char
  | .unary operation _ _ => operation.toList.head?
  | .literal spelling _ => spelling.toList.head?
  | .subscript base _ _ | .member base _ _ => if 14 ≤ precedence base then base.leading else none
  | _ => none

/-- A unary operator and the first character of its operand make a longer operator. -/
def merges (operation : String) (operand : MslExpression) : Bool :=
  operand.leading.any fun c => ((Token.mark operation.toList).extend c).isSome

def namesType (type : MslType) : Bool :=
  match tokens type.text.toList with
  | [.word word] => isName word
  | _ => false

def literalNames (spelling : String) : Bool :=
  match nameParts (tokens spelling.toList) with
  | some parts => parts.all isName
  | none => true

mutual

/-- No unary operator merges with its operand, no argument is a comma expression, no condition and
no target of an assignment is a conditional or an assignment, no literal with a sign is subscripted,
no number has members, only types of one name stand before an argument, and names are no keywords. -/
def MslExpression.faithful : MslExpression → Bool
  | .identifier name _ => isName (sanitizeIdentifier name).toList
  | .literal spelling _ => literalNames spelling
  | .unary operation operand _ => !merges operation operand && operand.faithful
  | .binary operation left right _ =>
    !(operation == "=" && precedence left == 2) && left.faithful && right.faithful
  | .call callee arguments _ =>
    isName (sanitizeIdentifier callee).toList && argumentsFaithful arguments
  | .aggregateInit type elements => namesType type && argumentsFaithful elements
  | .cast target operand reinterpret bitcast =>
    (bitcast || reinterpret || namesType target) &&
      (reinterpret && !bitcast || precedence operand != 1) && operand.faithful
  | .subscript base index _ => !base.isNegative && base.faithful && index.faithful
  | .member base member _ =>
    !base.endsInNumber && isName (sanitizeIdentifier member).toList && base.faithful
  | .conditional condition trueValue falseValue _ =>
    precedence condition != 2 && condition.faithful && trueValue.faithful && falseValue.faithful
  | .voteMask vote => precedence vote != 1 && vote.faithful

/-- Arguments that are no comma expressions and are faithful. -/
def argumentsFaithful : List MslExpression → Bool
  | [] => true
  | argument :: rest => precedence argument != 1 && argument.faithful && argumentsFaithful rest

end

end CuMetal.Metal
