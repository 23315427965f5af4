import LuaRecovery.Lua.Legibility
import LuaRecovery.Lua.ParserRuns

/-!
# The parser on the tokens of a tree

What it makes of them: the tree again, without the marks that the text does
not show. A negative number comes back as the negation of its magnitude, and
takes a power that follows it along.
-/

set_option autoImplicit false

namespace LuaRecovery.Lua
open LuaRecovery.Lib LuaGenerator Spelling

section
variable {N : Type} [Numerals N]

def atomNode (text : List Char) : Expr N :=
  if startsName text then .identifier (String.ofList text)
  else .numericLiteral (Numerals.number text) (String.ofList text)

def numberNode (text : List Char) : Expr N :=
  match text with
  | '-' :: text => .unaryExpression .minus (atomNode text)
  | text => atomNode text

/-- The magnitude of a number that is written with a sign. -/
def negated : Expr N → Option (List Char)
  | .numericLiteral value raw =>
    match (numericText value raw).toList with
    | '-' :: text => some text
    | _ => none
  | _ => none

/-- A power binds closer than the sign of the number before it. -/
def binaryNode (operator : BinaryOperator) (magnitude : Option (List Char))
    (left right : Expr N) : Expr N :=
  match operator, magnitude with
  | .pow, some text => .unaryExpression .minus (.binaryExpression .pow (atomNode text) right)
  | operator, _ => .binaryExpression operator left right

mutual

def Expr.reread : Expr N → Expr N
  | .identifier name => .identifier name
  | .numericLiteral value raw => numberNode (numericText value raw).toList
  | .stringLiteral value =>
      .stringLiteral (ByteString.fromLuaLiteral (ByteString.toLuaLiteral value '"'))
  | .booleanLiteral value => .booleanLiteral value
  | .nilLiteral => .nilLiteral
  | .varargLiteral inParens => .varargLiteral inParens
  | .unaryExpression operator argument => .unaryExpression operator argument.reread
  | .binaryExpression operator left right =>
      binaryNode operator (negated left) left.reread right.reread
  | .logicalExpression operator left right => .logicalExpression operator left.reread right.reread
  | .callExpression base args _ => .callExpression base.reread (exprsReread args) false
  | .methodCallExpression base method args _ =>
      .methodCallExpression base.reread method (exprsReread args) false
  | .memberExpression base property => .memberExpression base.reread property
  | .indexExpression base index => .indexExpression base.reread index.reread
  | .functionExpression params isVararg body =>
      .functionExpression params isVararg (blockReread body)
  | .tableConstructor fields => .tableConstructor (fieldsReread fields)

def exprsReread : List (Expr N) → List (Expr N)
  | [] => []
  | e::es => e.reread :: exprsReread es

def fieldReread : TableField N → TableField N
  | .tableKey key value => .tableKey key.reread value.reread
  | .tableKeyString key value => .tableKeyString key value.reread
  | .tableValue value => .tableValue value.reread

def fieldsReread : List (TableField N) → List (TableField N)
  | [] => []
  | f::fs => fieldReread f :: fieldsReread fs

def Stmt.reread : Stmt N → Stmt N
  | .localStatement vars init => .localStatement vars (exprsReread init)
  | .assignmentStatement vars init => .assignmentStatement (exprsReread vars) (exprsReread init)
  | .localFunctionStatement identifier params isVararg body =>
      .localFunctionStatement identifier params isVararg (blockReread body)
  | .functionDeclaration name params isVararg body _ =>
      .functionDeclaration name params isVararg (blockReread body) false
  | .callStatement expression => .callStatement expression.reread
  | .ifStatement clauses elseBody =>
      .ifStatement (clausesReread clauses) (match elseBody with
        | some (s::ss) =>
            some (if s.IsPrinted then s.reread :: blockReread ss else blockReread ss)
        | _ => none)
  | .whileStatement condition body => .whileStatement condition.reread (blockReread body)
  | .repeatStatement condition body => .repeatStatement condition.reread (blockReread body)
  | .numericForStatement variableName start stop step body =>
      .numericForStatement variableName start.reread stop.reread (match step with
        | some step => some step.reread
        | none => none) (blockReread body)
  | .genericForStatement vars iterators body =>
      .genericForStatement vars (exprsReread iterators) (blockReread body)
  | .doStatement body => .doStatement (blockReread body)
  | .returnStatement args => .returnStatement (exprsReread args)
  | .breakStatement => .breakStatement
  | .continueStatement => .continueStatement
  | .emptyStatement => .emptyStatement

/-- Nothing is left of an empty statement. -/
def blockReread : List (Stmt N) → List (Stmt N)
  | [] => []
  | s::ss => if s.IsPrinted then s.reread :: blockReread ss else blockReread ss

def clausesReread : List (IfClause N) → List (IfClause N)
  | [] => []
  | .mk condition body :: clauses =>
      .mk condition.reread (blockReread body) :: clausesReread clauses

end

attribute [simp] Stmt.reread

/-- The least precedence that binds closer than what the text ends in. -/
def bound (node : Expr N) : ℕ :=
  match node with
  | .numericLiteral value raw =>
      if (numericText value raw).toList.head? = some '-' then 7 else 9
  | .unaryExpression _ _ => 7
  | .binaryExpression operator _ _ =>
      if operator = .pow then 7
      else if operator = .concat then 4 else binaryPrecedence operator + 1
  | .logicalExpression operator _ _ => logicalPrecedence operator + 1
  | _ => 9

end
end LuaRecovery.Lua
