import Mathlib.Logic.Function.Basic

/-!
# The MSL syntax tree

`compiler/metal/include/cumetal/metal/msl_ast.h`: the types, expressions and statements that the
lowerer builds. Operators, callees and literals keep their spelling.
-/

namespace CuMetal.Metal

/-- `MslAddressSpace` (`msl_ast.h:14-20`). -/
inductive MslAddressSpace
  | none | device | constant | threadgroup | thread
  deriving DecidableEq, Repr

/-- `MslType` (`msl_ast.h:22-52`), a constructor for each kind that carries what the kind uses. -/
inductive MslType
  | void
  | bool
  | int (bits : Nat)
  | uint (bits : Nat)
  | half
  | float
  | double
  | vector (element : MslType) (lanes : Nat)
  | pointer (element : MslType) (addressSpace : MslAddressSpace)
  | reference (element : MslType) (addressSpace : MslAddressSpace)
  | struct (name : String)
  deriving DecidableEq, Repr

/-- `MslType::boolean` (`msl_ast.h:43`). -/
abbrev MslType.boolean : MslType := .bool

/-- `MslType::sint` (`msl_ast.h:44`). -/
abbrev MslType.sint (bits : Nat) : MslType := .int bits

def uint3 : MslType := .vector (.uint 32) 3

/-- `MslExpression` (`msl_ast.h:107-134`). -/
inductive MslExpression
  | identifier (name : String) (type : MslType)
  | literal (spelling : String) (type : MslType)
  | unary (operation : String) (operand : MslExpression) (type : MslType)
  | binary (operation : String) (left right : MslExpression) (type : MslType)
  | call (callee : String) (arguments : List MslExpression) (type : MslType)
  | aggregateInit (type : MslType) (elements : List MslExpression)
  | cast (target : MslType) (operand : MslExpression) (reinterpret bitcast : Bool)
  | subscript (base index : MslExpression) (type : MslType)
  | member (base : MslExpression) (member : String) (type : MslType)
  | conditional (condition trueValue falseValue : MslExpression) (type : MslType)
  | voteMask (vote : MslExpression)

/-- `MslExpression::cast` without `reinterpret` (`msl_ast.cpp:540-552`). -/
abbrev MslExpression.convertTo (target : MslType) (operand : MslExpression) : MslExpression :=
  .cast target operand false false

/-- `MslStatement` (`msl_ast.h:187-207`); arrays, switches, `break` and `continue` are not
modelled. -/
inductive MslStatement
  | variable (type : MslType) (name : String) (initializer : Option MslExpression)
      (isConst : Bool)
  | assignment (target value : MslExpression)
  | expression (expression : MslExpression)
  | ifStatement (condition : MslExpression) (thenStatements elseStatements : List MslStatement)
  | whileStatement (condition : MslExpression) (statements : List MslStatement)
  | returnStatement (value : Option MslExpression)

/-- `MslParameter` (`msl_ast.h:214-218`). -/
structure MslParameter where
  type : MslType
  name : String

/-- `MslFunction` (`msl_ast.h:220-226`). -/
structure MslFunction where
  name : String
  returnType : MslType := .void
  parameters : List MslParameter
  statements : List MslStatement

end CuMetal.Metal
