import LuaRecovery.Transforms.Rewriting

/-!
# The cleanup passes

`CleanupPasses` of `transforms/cleanup.js`. Three of the four passes walk the
tree with the visitor's `transform`; they are one walk here, with what each
pass does as a parameter. Constants are substituted block by block from the
outside in, so an identifier gets the constant of the outermost block that has
one for its name. The statistics are left out.
-/

set_option autoImplicit false

namespace LuaRecovery.Transforms
open LuaRecovery.Lib LuaRecovery.Lua LuaRecovery.Evaluator

/-- What stands for a name. -/
abbrev Consts (N : Type) := String → Option (Expr N)

section FindAssignments
variable {N : Type}

/-- The literals that one local statement gives its names. -/
def localConstants (K : Consts N) : List (Expr N) → List (Expr N) → Consts N
  | x::xs, e::es => match x.name? with
      | some name => localConstants
          (if (literalValue e).isSome then Function.update K name (some e) else K) xs es
      | none => localConstants K xs es
  | _, _ => K

def collectConstants (K : Consts N) : Block N → Consts N
  | [] => K
  | .localStatement vars init :: ss => collectConstants (localConstants K vars init) ss
  | _::ss => collectConstants K ss

/-- Names that an assignment of the block itself reassigns. -/
def reassigned : Block N → List String
  | [] => []
  | .assignmentStatement vars _ :: ss => vars.filterMap Expr.name? ++ reassigned ss
  | _::ss => reassigned ss

/-- Later declarations overwrite earlier ones; nested blocks are not looked into. -/
def findAssignments (body : Block N) : Consts N := fun x =>
  if x ∈ reassigned body then none else collectConstants (fun _ => none) body x

end FindAssignments

section Walk
variable {N : Type}

/-- The replacement of an `if` whose first condition is a literal. -/
def deadBranch : Stmt N → List (Stmt N)
  | .ifStatement (.mk (.booleanLiteral true) body :: _) _ => body
  | .ifStatement (.mk (.booleanLiteral false) _ :: c :: cs) els => [.ifStatement (c::cs) els]
  | .ifStatement [.mk (.booleanLiteral false) _] (some (s::ss)) => s::ss
  | .ifStatement [.mk (.booleanLiteral false) _] _ => [.emptyStatement]
  | s => [s]

def cleanBlock (ss : List (Stmt N)) : List (Stmt N) := ss.filter (fun s => !isVacuous s)

/-- What a pass collects from a block, and what it does to statements and to the
`body` of a node once their parts are done. -/
structure Pass (N : Type) where
  constants : Block N → Consts N
  prunes : Bool
  cleans : Bool

namespace Pass

def enter (p : Pass N) (K : Consts N) (body : Block N) : Consts N :=
  fun x => (K x).or (p.constants body x)

def replace (p : Pass N) (s : Stmt N) : List (Stmt N) := if p.prunes then deadBranch s else [s]

def tidy (p : Pass N) (body : Block N) : Block N := if p.cleans then cleanBlock body else body

end Pass

mutual

def visit (p : Pass N) (K : Consts N) : Expr N → Expr N
  | .identifier name => (K name).getD (.identifier name)
  | .numericLiteral value raw => .numericLiteral value raw
  | .stringLiteral value => .stringLiteral value
  | .booleanLiteral value => .booleanLiteral value
  | .nilLiteral => .nilLiteral
  | .varargLiteral inParens => .varargLiteral inParens
  | .unaryExpression operator argument => .unaryExpression operator (visit p K argument)
  | .binaryExpression operator left right =>
      .binaryExpression operator (visit p K left) (visit p K right)
  | .logicalExpression operator left right =>
      .logicalExpression operator (visit p K left) (visit p K right)
  | .callExpression base args inParens =>
      .callExpression (visit p K base) (visitList p K args) inParens
  | .methodCallExpression base method args inParens =>
      .methodCallExpression (visit p K base) (visit p K method) (visitList p K args) inParens
  -- the property of a member expression is the one name that is never replaced
  | .memberExpression base property => .memberExpression (visit p K base) property
  | .indexExpression base index => .indexExpression (visit p K base) (visit p K index)
  | .functionExpression params isVararg body =>
      .functionExpression (visitList p K params) isVararg
        (p.tidy (visitBlock p (p.enter K body) body))
  | .tableConstructor fields => .tableConstructor (visitFields p K fields)

def visitList (p : Pass N) (K : Consts N) : List (Expr N) → List (Expr N)
  | [] => []
  | e::es => visit p K e :: visitList p K es

/-- The children of a local statement and the targets of an assignment: names stay. -/
def visitDirect (p : Pass N) (K : Consts N) : List (Expr N) → List (Expr N)
  | [] => []
  | e::es => (if e.name?.isSome then e else visit p K e) :: visitDirect p K es

def visitFields (p : Pass N) (K : Consts N) : List (TableField N) → List (TableField N)
  | [] => []
  | .tableKey key value :: fs => .tableKey (visit p K key) (visit p K value) :: visitFields p K fs
  | .tableKeyString key value :: fs =>
      .tableKeyString (visit p K key) (visit p K value) :: visitFields p K fs
  | .tableValue value :: fs => .tableValue (visit p K value) :: visitFields p K fs

def visitStmt (p : Pass N) (K : Consts N) : Stmt N → Stmt N
  | .localStatement vars init => .localStatement (visitDirect p K vars) (visitDirect p K init)
  | .assignmentStatement vars init => .assignmentStatement (visitDirect p K vars) (visitList p K init)
  | .localFunctionStatement identifier params isVararg body =>
      .localFunctionStatement (visit p K identifier) (visitList p K params) isVararg
        (p.tidy (visitBlock p (p.enter K body) body))
  | .functionDeclaration name params isVararg body isMethod =>
      .functionDeclaration (visit p K name) (visitList p K params) isVararg
        (p.tidy (visitBlock p (p.enter K body) body)) isMethod
  | .callStatement expression => .callStatement (visit p K expression)
  | .ifStatement clauses elseBody => .ifStatement (visitClauses p K clauses) (match elseBody with
      | none => none
      | some body => some (visitBlock p K body))
  | .whileStatement condition body =>
      .whileStatement (visit p K condition) (p.tidy (visitBlock p (p.enter K body) body))
  | .repeatStatement condition body =>
      .repeatStatement (visit p K condition) (p.tidy (visitBlock p (p.enter K body) body))
  | .numericForStatement variableName start stop step body =>
      .numericForStatement (visit p K variableName) (visit p K start) (visit p K stop)
        (match step with
          | none => none
          | some e => some (visit p K e)) (p.tidy (visitBlock p (p.enter K body) body))
  | .genericForStatement vars iterators body =>
      .genericForStatement (visitList p K vars) (visitList p K iterators)
        (p.tidy (visitBlock p (p.enter K body) body))
  | .doStatement body => .doStatement (p.tidy (visitBlock p (p.enter K body) body))
  | .returnStatement args => .returnStatement (visitList p K args)
  | .breakStatement => .breakStatement
  | .continueStatement => .continueStatement
  | .emptyStatement => .emptyStatement

def visitBlock (p : Pass N) (K : Consts N) : List (Stmt N) → List (Stmt N)
  | [] => []
  | s::ss => p.replace (visitStmt p K s) ++ visitBlock p K ss

/-- Clauses are no nodes: their constants are collected, but no callback sees them. -/
def visitClauses (p : Pass N) (K : Consts N) : List (IfClause N) → List (IfClause N)
  | [] => []
  | .mk condition body :: cs =>
      .mk (visit p K condition) (visitBlock p (p.enter K body) body) :: visitClauses p K cs

end

/-- A pass over a chunk, whose statements are the `body` of its node. -/
def Pass.over (p : Pass N) (body : Block N) : Block N :=
  p.tidy (visitBlock p (p.enter (fun _ => none) body) body)

end Walk

section Cleanup
variable {N : Type}

def propagation : Pass N := ⟨findAssignments, false, false⟩

def pruning : Pass N := ⟨fun _ _ => none, true, false⟩

def cleaning : Pass N := ⟨fun _ _ => none, false, true⟩

def propagateLocalConstants (body : Block N) : Block N := propagation.over body

def eliminateDeadBranches (body : Block N) : Block N := pruning.over body

def eliminateEmptyBlocks (body : Block N) : Block N := cleaning.over body

variable [LuaNumber N]

def cleanupRound (body : Block N) : Block N :=
  eliminateEmptyBlocks (eliminateDeadBranches (foldBlock (propagateLocalConstants body)))

/-- The source leaves the loop after a round without a change, which leaves the
tree as it is; the rounds it saves would do the same. -/
def run : ℕ → Block N → Block N
  | 0, body => body
  | maxPasses+1, body => run maxPasses (cleanupRound body)

end Cleanup
end LuaRecovery.Transforms
