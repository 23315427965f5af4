import LuaRecovery.Lua.Ast

/-!
# The nodes of a program

`traverse` of `ast/visitor.js` enters every node before its children, the
children in the order of the node's properties. The recursive visitors of the
analyses go the same way. Table fields and clauses are walked through but not
listed. A compound assignment, whose target the parser puts on both sides,
counts as the two copies that it stands for.
-/

set_option autoImplicit false

namespace LuaRecovery.Lua

inductive Node (N : Type) : Type where
  | expr (e : Expr N)
  | stmt (s : Stmt N)

section Nodes
variable {N : Type}

mutual

def exprNodes : Expr N → List (Node N)
  | .identifier name => [.expr (.identifier name)]
  | .numericLiteral value raw => [.expr (.numericLiteral value raw)]
  | .stringLiteral value => [.expr (.stringLiteral value)]
  | .booleanLiteral value => [.expr (.booleanLiteral value)]
  | .nilLiteral => [.expr .nilLiteral]
  | .varargLiteral inParens => [.expr (.varargLiteral inParens)]
  | .unaryExpression operator argument =>
      .expr (.unaryExpression operator argument) :: exprNodes argument
  | .binaryExpression operator left right =>
      .expr (.binaryExpression operator left right) :: (exprNodes left ++ exprNodes right)
  | .logicalExpression operator left right =>
      .expr (.logicalExpression operator left right) :: (exprNodes left ++ exprNodes right)
  | .callExpression base args inParens =>
      .expr (.callExpression base args inParens) :: (exprNodes base ++ exprsNodes args)
  | .methodCallExpression base method args inParens =>
      .expr (.methodCallExpression base method args inParens) ::
        (exprNodes base ++ exprNodes method ++ exprsNodes args)
  | .memberExpression base property =>
      .expr (.memberExpression base property) :: (exprNodes base ++ exprNodes property)
  | .indexExpression base index =>
      .expr (.indexExpression base index) :: (exprNodes base ++ exprNodes index)
  | .functionExpression params isVararg body =>
      .expr (.functionExpression params isVararg body) :: (exprsNodes params ++ blockNodes body)
  | .tableConstructor fields => .expr (.tableConstructor fields) :: fieldsNodes fields

def exprsNodes : List (Expr N) → List (Node N)
  | [] => []
  | e::es => exprNodes e ++ exprsNodes es

def fieldsNodes : List (TableField N) → List (Node N)
  | [] => []
  | .tableKey key value :: fs => exprNodes key ++ exprNodes value ++ fieldsNodes fs
  | .tableKeyString key value :: fs => exprNodes key ++ exprNodes value ++ fieldsNodes fs
  | .tableValue value :: fs => exprNodes value ++ fieldsNodes fs

def stmtNodes : Stmt N → List (Node N)
  | .localStatement vars init =>
      .stmt (.localStatement vars init) :: (exprsNodes vars ++ exprsNodes init)
  | .assignmentStatement vars init =>
      .stmt (.assignmentStatement vars init) :: (exprsNodes vars ++ exprsNodes init)
  | .localFunctionStatement identifier params isVararg body =>
      .stmt (.localFunctionStatement identifier params isVararg body) ::
        (exprNodes identifier ++ exprsNodes params ++ blockNodes body)
  | .functionDeclaration name params isVararg body isMethod =>
      .stmt (.functionDeclaration name params isVararg body isMethod) ::
        (exprNodes name ++ exprsNodes params ++ blockNodes body)
  | .callStatement expression => .stmt (.callStatement expression) :: exprNodes expression
  | .ifStatement clauses elseBody =>
      .stmt (.ifStatement clauses elseBody) :: (clausesNodes clauses ++ (match elseBody with
        | none => []
        | some body => blockNodes body))
  | .whileStatement condition body =>
      .stmt (.whileStatement condition body) :: (exprNodes condition ++ blockNodes body)
  | .repeatStatement condition body =>
      .stmt (.repeatStatement condition body) :: (exprNodes condition ++ blockNodes body)
  | .numericForStatement variableName start stop step body =>
      .stmt (.numericForStatement variableName start stop step body) ::
        (exprNodes variableName ++ exprNodes start ++ exprNodes stop ++ (match step with
          | none => []
          | some e => exprNodes e) ++ blockNodes body)
  | .genericForStatement vars iterators body =>
      .stmt (.genericForStatement vars iterators body) ::
        (exprsNodes vars ++ exprsNodes iterators ++ blockNodes body)
  | .doStatement body => .stmt (.doStatement body) :: blockNodes body
  | .returnStatement args => .stmt (.returnStatement args) :: exprsNodes args
  | .breakStatement => [.stmt .breakStatement]
  | .continueStatement => [.stmt .continueStatement]
  | .emptyStatement => [.stmt .emptyStatement]

def blockNodes : List (Stmt N) → List (Node N)
  | [] => []
  | s::ss => stmtNodes s ++ blockNodes ss

def clausesNodes : List (IfClause N) → List (Node N)
  | [] => []
  | .mk condition body :: cs => exprNodes condition ++ blockNodes body ++ clausesNodes cs

end

def Chunk.nodes (chunk : Chunk N) : List (Node N) := blockNodes chunk.body

end Nodes
end LuaRecovery.Lua
