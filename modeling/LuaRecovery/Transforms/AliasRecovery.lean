import LuaRecovery.Lua.ByteString
import LuaRecovery.Lua.Nodes
import Mathlib.Logic.Function.Basic

/-!
# Strings and aliases put back

`StringRecoveryTransform` and `AliasRecoveryTransform` rewrite expressions from
the bottom up: a lookup in the string pool becomes the string, a lookup in the
environment the name of a builtin, and a call of an alias a call of what it
stands for. Aliases are told by their names alone, over the whole program.
-/

set_option autoImplicit false

namespace LuaRecovery.Transforms
open LuaRecovery.Lua

section Transform
variable {N : Type} (f : Expr N → Expr N)

mutual

/-- `transform` of `ast/visitor.js` with a transformer that answers for expressions only. -/
def transformExpr : Expr N → Expr N
  | .identifier name => f (.identifier name)
  | .numericLiteral value raw => f (.numericLiteral value raw)
  | .stringLiteral value => f (.stringLiteral value)
  | .booleanLiteral value => f (.booleanLiteral value)
  | .nilLiteral => f .nilLiteral
  | .varargLiteral inParens => f (.varargLiteral inParens)
  | .unaryExpression operator argument => f (.unaryExpression operator (transformExpr argument))
  | .binaryExpression operator left right =>
      f (.binaryExpression operator (transformExpr left) (transformExpr right))
  | .logicalExpression operator left right =>
      f (.logicalExpression operator (transformExpr left) (transformExpr right))
  | .callExpression base args inParens =>
      f (.callExpression (transformExpr base) (transformExprs args) inParens)
  | .methodCallExpression base method args inParens =>
      f (.methodCallExpression (transformExpr base) (transformExpr method) (transformExprs args)
        inParens)
  | .memberExpression base property =>
      f (.memberExpression (transformExpr base) (transformExpr property))
  | .indexExpression base index => f (.indexExpression (transformExpr base) (transformExpr index))
  | .functionExpression params isVararg body =>
      f (.functionExpression (transformExprs params) isVararg (transformBlock body))
  | .tableConstructor fields => f (.tableConstructor (transformFields fields))

def transformExprs : List (Expr N) → List (Expr N)
  | [] => []
  | e::es => transformExpr e :: transformExprs es

def transformFields : List (TableField N) → List (TableField N)
  | [] => []
  | .tableKey key value :: fs =>
      .tableKey (transformExpr key) (transformExpr value) :: transformFields fs
  | .tableKeyString key value :: fs =>
      .tableKeyString (transformExpr key) (transformExpr value) :: transformFields fs
  | .tableValue value :: fs => .tableValue (transformExpr value) :: transformFields fs

def transformStmt : Stmt N → Stmt N
  | .localStatement vars init => .localStatement (transformExprs vars) (transformExprs init)
  | .assignmentStatement vars init =>
      .assignmentStatement (transformExprs vars) (transformExprs init)
  | .localFunctionStatement identifier params isVararg body =>
      .localFunctionStatement (transformExpr identifier) (transformExprs params) isVararg
        (transformBlock body)
  | .functionDeclaration name params isVararg body isMethod =>
      .functionDeclaration (transformExpr name) (transformExprs params) isVararg
        (transformBlock body) isMethod
  | .callStatement expression => .callStatement (transformExpr expression)
  | .ifStatement clauses elseBody =>
      .ifStatement (transformClauses clauses) (match elseBody with
        | none => none
        | some body => some (transformBlock body))
  | .whileStatement condition body =>
      .whileStatement (transformExpr condition) (transformBlock body)
  | .repeatStatement condition body =>
      .repeatStatement (transformExpr condition) (transformBlock body)
  | .numericForStatement variableName start stop step body =>
      .numericForStatement (transformExpr variableName) (transformExpr start)
        (transformExpr stop) (match step with
          | none => none
          | some step => some (transformExpr step)) (transformBlock body)
  | .genericForStatement vars iterators body =>
      .genericForStatement (transformExprs vars) (transformExprs iterators) (transformBlock body)
  | .doStatement body => .doStatement (transformBlock body)
  | .returnStatement args => .returnStatement (transformExprs args)
  | .breakStatement => .breakStatement
  | .continueStatement => .continueStatement
  | .emptyStatement => .emptyStatement

def transformBlock : List (Stmt N) → List (Stmt N)
  | [] => []
  | s::ss => transformStmt s :: transformBlock ss

def transformClauses : List (IfClause N) → List (IfClause N)
  | [] => []
  | .mk condition body :: clauses =>
      .mk (transformExpr condition) (transformBlock body) :: transformClauses clauses

end

/-- The transformer has nothing to say about these nodes. -/
def Fixes (nodes : List (Lua.Node N)) : Prop := ∀ e, .expr e ∈ nodes → f e = e

variable {f}

theorem Fixes.head {e : Expr N} {ns : List (Lua.Node N)} (h : Fixes f (.expr e :: ns)) : f e = e :=
  h e List.mem_cons_self

theorem Fixes.tail {n : Lua.Node N} {ns : List (Lua.Node N)} (h : Fixes f (n::ns)) : Fixes f ns :=
  fun e he => h e (List.mem_cons_of_mem _ he)

theorem Fixes.left {ns ms : List (Lua.Node N)} (h : Fixes f (ns ++ ms)) : Fixes f ns :=
  fun e he => h e (List.mem_append_left _ he)

theorem Fixes.right {ns ms : List (Lua.Node N)} (h : Fixes f (ns ++ ms)) : Fixes f ms :=
  fun e he => h e (List.mem_append_right _ he)

mutual

theorem transformExpr_self : ∀ e : Expr N, Fixes f (exprNodes e) → transformExpr f e = e
  | .identifier _, h => h.head
  | .numericLiteral _ _, h => h.head
  | .stringLiteral _, h => h.head
  | .booleanLiteral _, h => h.head
  | .nilLiteral, h => h.head
  | .varargLiteral _, h => h.head
  | .unaryExpression _ argument, h => by
    rw [transformExpr, transformExpr_self argument h.tail]
    exact h.head
  | .binaryExpression _ left right, h => by
    rw [transformExpr, transformExpr_self left h.tail.left, transformExpr_self right h.tail.right]
    exact h.head
  | .logicalExpression _ left right, h => by
    rw [transformExpr, transformExpr_self left h.tail.left, transformExpr_self right h.tail.right]
    exact h.head
  | .callExpression base args _, h => by
    rw [transformExpr, transformExpr_self base h.tail.left, transformExprs_self args h.tail.right]
    exact h.head
  | .methodCallExpression base method args _, h => by
    rw [transformExpr, transformExpr_self base h.tail.left.left,
      transformExpr_self method h.tail.left.right, transformExprs_self args h.tail.right]
    exact h.head
  | .memberExpression base property, h => by
    rw [transformExpr, transformExpr_self base h.tail.left,
      transformExpr_self property h.tail.right]
    exact h.head
  | .indexExpression base index, h => by
    rw [transformExpr, transformExpr_self base h.tail.left, transformExpr_self index h.tail.right]
    exact h.head
  | .functionExpression params _ body, h => by
    rw [transformExpr, transformExprs_self params h.tail.left,
      transformBlock_self body h.tail.right]
    exact h.head
  | .tableConstructor fields, h => by
    rw [transformExpr, transformFields_self fields h.tail]
    exact h.head

theorem transformExprs_self : ∀ es : List (Expr N), Fixes f (exprsNodes es) →
    transformExprs f es = es
  | [], _ => rfl
  | e::es, h => by
    rw [transformExprs, transformExpr_self e h.left, transformExprs_self es h.right]

theorem transformFields_self : ∀ fs : List (TableField N), Fixes f (fieldsNodes fs) →
    transformFields f fs = fs
  | [], _ => rfl
  | .tableKey key value :: fs, h => by
    rw [transformFields, transformExpr_self key h.left.left, transformExpr_self value h.left.right,
      transformFields_self fs h.right]
  | .tableKeyString key value :: fs, h => by
    rw [transformFields, transformExpr_self key h.left.left, transformExpr_self value h.left.right,
      transformFields_self fs h.right]
  | .tableValue value :: fs, h => by
    rw [transformFields, transformExpr_self value h.left, transformFields_self fs h.right]

theorem transformStmt_self : ∀ s : Stmt N, Fixes f (stmtNodes s) → transformStmt f s = s
  | .localStatement vars init, h => by
    rw [transformStmt, transformExprs_self vars h.tail.left, transformExprs_self init h.tail.right]
  | .assignmentStatement vars init, h => by
    rw [transformStmt, transformExprs_self vars h.tail.left, transformExprs_self init h.tail.right]
  | .localFunctionStatement identifier params _ body, h => by
    rw [transformStmt, transformExpr_self identifier h.tail.left.left,
      transformExprs_self params h.tail.left.right, transformBlock_self body h.tail.right]
  | .functionDeclaration name params _ body _, h => by
    rw [transformStmt, transformExpr_self name h.tail.left.left,
      transformExprs_self params h.tail.left.right, transformBlock_self body h.tail.right]
  | .callStatement expression, h => by
    rw [transformStmt, transformExpr_self expression h.tail]
  | .ifStatement clauses none, h => by
    rw [transformStmt, transformClauses_self clauses h.tail.left]
  | .ifStatement clauses (some body), h => by
    rw [transformStmt, transformClauses_self clauses h.tail.left,
      transformBlock_self body h.tail.right]
  | .whileStatement condition body, h => by
    rw [transformStmt, transformExpr_self condition h.tail.left,
      transformBlock_self body h.tail.right]
  | .repeatStatement condition body, h => by
    rw [transformStmt, transformExpr_self condition h.tail.left,
      transformBlock_self body h.tail.right]
  | .numericForStatement variableName start stop none body, h => by
    rw [transformStmt, transformExpr_self variableName h.tail.left.left.left.left,
      transformExpr_self start h.tail.left.left.left.right,
      transformExpr_self stop h.tail.left.left.right, transformBlock_self body h.tail.right]
  | .numericForStatement variableName start stop (some step) body, h => by
    rw [transformStmt, transformExpr_self variableName h.tail.left.left.left.left,
      transformExpr_self start h.tail.left.left.left.right,
      transformExpr_self stop h.tail.left.left.right, transformExpr_self step h.tail.left.right,
      transformBlock_self body h.tail.right]
  | .genericForStatement vars iterators body, h => by
    rw [transformStmt, transformExprs_self vars h.tail.left.left,
      transformExprs_self iterators h.tail.left.right, transformBlock_self body h.tail.right]
  | .doStatement body, h => by
    rw [transformStmt, transformBlock_self body h.tail]
  | .returnStatement args, h => by
    rw [transformStmt, transformExprs_self args h.tail]
  | .breakStatement, _ => rfl
  | .continueStatement, _ => rfl
  | .emptyStatement, _ => rfl

theorem transformBlock_self : ∀ ss : List (Stmt N), Fixes f (blockNodes ss) →
    transformBlock f ss = ss
  | [], _ => rfl
  | s::ss, h => by
    rw [transformBlock, transformStmt_self s h.left, transformBlock_self ss h.right]

theorem transformClauses_self : ∀ cs : List (IfClause N), Fixes f (clausesNodes cs) →
    transformClauses f cs = cs
  | [], _ => rfl
  | .mk condition body :: clauses, h => by
    rw [transformClauses, transformExpr_self condition h.left.left,
      transformBlock_self body h.left.right, transformClauses_self clauses h.right]

end

end Transform

section Aliases
variable {N : Type}

structure KnownBuiltin where
  name : String

def standardBuiltins : List String := [
  "assert", "collectgarbage", "dofile", "error", "getfenv", "getmetatable",
  "ipairs", "load", "loadfile", "loadstring", "next", "pairs", "pcall",
  "print", "rawequal", "rawget", "rawset", "select", "setfenv", "setmetatable",
  "tonumber", "tostring", "type", "unpack", "xpcall", "_G", "_VERSION",
  "string", "table", "math", "os", "io", "debug", "coroutine", "bit32", "utf8",
  "game", "workspace", "script", "Instance", "Vector3", "CFrame", "Color3",
  "UDim2", "Enum", "task", "typeof", "warn", "tick", "time", "delay", "spawn",
  "wait", "newproxy"]

abbrev KnownAliases := String → Option KnownBuiltin

/-- What a local is an alias of, by its initial value. -/
def aliasOf : Expr N → Option KnownBuiltin
  | .memberExpression (.identifier base) (.identifier property) => some ⟨base ++ "." ++ property⟩
  | .identifier name => if name ∈ standardBuiltins then some ⟨name⟩ else none
  | _ => none

def noteAliases (knownAliases : KnownAliases) : List (Expr N) → List (Expr N) → KnownAliases
  | v::vars, e::init =>
    match v.name?, aliasOf e with
    | some name, some builtin =>
        noteAliases (Function.update knownAliases name (some builtin)) vars init
    | _, _ => noteAliases knownAliases vars init
  | _, _ => knownAliases

def noteNode (knownAliases : KnownAliases) : Lua.Node N → KnownAliases
  | .stmt (.localStatement vars init) =>
      if vars.length = init.length then noteAliases knownAliases vars init
      else knownAliases
  | _ => knownAliases

def findAliases (body : Block N) : KnownAliases :=
  (blockNodes body).foldl noteNode fun _ => none

/-- `toString('latin1')` of a byte string. -/
def latin1Text (value : ByteString) : String :=
  String.ofList (value.map fun b => Char.ofNat b.toNat)

def callee (builtin : KnownBuiltin) : Expr N :=
  match builtin.name.splitOn "." with
  | [library, function] => .memberExpression (.identifier library) (.identifier function)
  | _ => .identifier builtin.name

/-- The transformer of `AliasRecoveryTransform`. -/
def rewriteAlias (envVarNames : List String) (knownAliases : KnownAliases) : Expr N → Expr N
  | .indexExpression (.identifier base) (.stringLiteral value) =>
      if base ∈ envVarNames ∧ latin1Text value ∈ standardBuiltins then
        .identifier (latin1Text value)
      else .indexExpression (.identifier base) (.stringLiteral value)
  | .callExpression (.identifier name) args inParens =>
      match knownAliases name with
      | some builtin => .callExpression (callee builtin) args inParens
      | none => .callExpression (.identifier name) args inParens
  | e => e

def aliasRecovery (envVarNames : List String) (body : Block N) : Block N :=
  transformBlock (rewriteAlias envVarNames (findAliases body)) body

/-- No local is an alias, and no builtin is looked up in an environment. -/
structure NoAliases (envVarNames : List String) (nodes : List (Lua.Node N)) : Prop where
  locals : ∀ vars init, .stmt (.localStatement vars init) ∈ nodes → ∀ e ∈ init, aliasOf e = none
  lookups : ∀ base value, .expr (.indexExpression (.identifier base) (.stringLiteral value)) ∈
    nodes → base ∈ envVarNames → latin1Text value ∉ standardBuiltins

theorem noteAliases_none {knownAliases : KnownAliases} {vars init : List (Expr N)}
    (h : ∀ e ∈ init, aliasOf e = none) : noteAliases knownAliases vars init = knownAliases := by
  induction vars generalizing init with
  | nil => rw [noteAliases.eq_def]
  | cons v vars ih =>
    cases init with
    | nil => rw [noteAliases.eq_def]
    | cons e init =>
      obtain ⟨he, hinit⟩ := List.forall_mem_cons.mp h
      rw [noteAliases, he]
      cases v.name? <;> exact ih hinit

theorem noteNode_none {envVarNames : List String} {nodes : List (Lua.Node N)}
    (h : NoAliases envVarNames nodes) (knownAliases : KnownAliases) {n : Lua.Node N}
    (hn : n ∈ nodes) : noteNode knownAliases n = knownAliases := by
  unfold noteNode
  split
  next vars init =>
    rw [noteAliases_none (h.locals vars init hn), ite_self]
  next => rfl

theorem findAliases_none {envVarNames : List String} {body : Block N}
    (h : NoAliases envVarNames (blockNodes body)) : findAliases body = fun _ => none := by
  unfold findAliases
  suffices hfold : ∀ ns : List (Lua.Node N), ns ⊆ blockNodes body →
      ns.foldl noteNode (fun _ => none) = fun _ => none from hfold _ (List.Subset.refl _)
  intro ns hns
  induction ns with
  | nil => rfl
  | cons n ns ih =>
    obtain ⟨hn, hns⟩ := List.cons_subset.mp hns
    rw [List.foldl_cons, noteNode_none h _ hn]
    exact ih hns

/-- Without aliases the program stays as it is. -/
theorem aliasRecovery_self {envVarNames : List String} {body : Block N}
    (h : NoAliases envVarNames (blockNodes body)) : aliasRecovery envVarNames body = body := by
  rw [aliasRecovery, findAliases_none h]
  apply transformBlock_self
  intro e he
  unfold rewriteAlias
  split
  next base value =>
    refine if_neg fun hlookup => ?_
    exact h.lookups base value he hlookup.1 hlookup.2
  all_goals rfl

end Aliases
end LuaRecovery.Transforms
