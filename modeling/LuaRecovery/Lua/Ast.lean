import Mathlib.Data.List.Basic

/-!
# The syntax tree

The node types of the tool's `ast/nodes.js`. Every name position holds a
node, as in the source, so that a pass can put any node there. The parser's
`inParens` mark is kept on the nodes whose number of values it changes;
`loc` is always null and is left out.
-/

set_option autoImplicit false

namespace LuaRecovery.Lua

abbrev ByteString := List UInt8

/-- The bytes of an ASCII identifier. -/
def identBytes (name : String) : ByteString := name.toList.map (fun c => UInt8.ofNat c.toNat)

inductive UnaryOperator where
  | minus
  | not
  | length
  deriving DecidableEq, Repr

inductive BinaryOperator where
  | add
  | sub
  | mul
  | div
  | mod
  | pow
  | concat
  | lt
  | le
  | gt
  | ge
  | eq
  | ne
  deriving DecidableEq, Repr

inductive LogicalOperator where
  | and
  | or
  deriving DecidableEq, Repr

mutual

inductive Expr (N : Type) : Type where
  | identifier (name : String)
  | numericLiteral (value : N) (raw : String)
  | stringLiteral (value : ByteString)
  | booleanLiteral (value : Bool)
  | nilLiteral
  | varargLiteral (inParens : Bool)
  | unaryExpression (operator : UnaryOperator) (argument : Expr N)
  | binaryExpression (operator : BinaryOperator) (left right : Expr N)
  | logicalExpression (operator : LogicalOperator) (left right : Expr N)
  | callExpression (base : Expr N) (args : List (Expr N)) (inParens : Bool)
  | methodCallExpression (base method : Expr N) (args : List (Expr N)) (inParens : Bool)
  | memberExpression (base property : Expr N)
  | indexExpression (base index : Expr N)
  | functionExpression (params : List (Expr N)) (isVararg : Bool) (body : List (Stmt N))
  | tableConstructor (fields : List (TableField N))

inductive TableField (N : Type) : Type where
  | tableKey (key value : Expr N)
  | tableKeyString (key value : Expr N)
  | tableValue (value : Expr N)

inductive Stmt (N : Type) : Type where
  | localStatement (vars init : List (Expr N))
  | assignmentStatement (vars init : List (Expr N))
  | localFunctionStatement (identifier : Expr N) (params : List (Expr N)) (isVararg : Bool)
      (body : List (Stmt N))
  | functionDeclaration (name : Expr N) (params : List (Expr N)) (isVararg : Bool)
      (body : List (Stmt N)) (isMethod : Bool)
  | callStatement (expression : Expr N)
  | ifStatement (clauses : List (IfClause N)) (elseBody : Option (List (Stmt N)))
  | whileStatement (condition : Expr N) (body : List (Stmt N))
  | repeatStatement (condition : Expr N) (body : List (Stmt N))
  | numericForStatement (variableName start stop : Expr N) (step : Option (Expr N))
      (body : List (Stmt N))
  | genericForStatement (vars iterators : List (Expr N)) (body : List (Stmt N))
  | doStatement (body : List (Stmt N))
  | returnStatement (args : List (Expr N))
  | breakStatement
  | continueStatement
  | emptyStatement

inductive IfClause (N : Type) : Type where
  | mk (condition : Expr N) (body : List (Stmt N))

end

abbrev Block (N : Type) := List (Stmt N)

/-- A chunk is the block of its top-level statements. -/
structure Chunk (N : Type) where
  body : Block N

namespace Expr
variable {N : Type}

/-- The `name` property, which only identifiers have. -/
def name? : Expr N → Option String
  | .identifier name => some name
  | _ => none

/-- Whether the node can yield another number of values than one. -/
def isMulti : Expr N → Bool
  | .varargLiteral inParens => !inParens
  | .callExpression _ _ inParens => !inParens
  | .methodCallExpression _ _ _ inParens => !inParens
  | _ => false

end Expr

end LuaRecovery.Lua
