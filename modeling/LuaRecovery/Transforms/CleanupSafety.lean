import LuaRecovery.Transforms.Cleanup
import LuaRecovery.Transforms.FoldSafety

/-!
# Where a cleanup pass is safe

A check of a program against a pass, before the pass is run. Walking down the
scopes it asks three things: that a constant is put only where the name in fact
refers to a local declared with that literal and nowhere assigned while that
declaration is in sight; that no name position is overwritten; and that no name
is used where a spliced branch has left a declaration of it in the block.
-/

set_option autoImplicit false

namespace LuaRecovery.Transforms
open LuaRecovery.Lib LuaRecovery.Lua LuaRecovery.Evaluator

deriving instance DecidableEq for Value

section Names
variable {N : Type}

mutual

/-- The names that a statement declares in its block once decided branches are spliced. -/
def surfacing : Stmt N → List String
  | .localStatement vars _ => vars.filterMap Expr.name?
  | .localFunctionStatement identifier _ _ _ => identifier.name?.toList
  | .ifStatement (.mk (.booleanLiteral true) body :: _) _ => surfacingBlock body
  | .ifStatement [.mk (.booleanLiteral false) _] (some body) => surfacingBlock body
  | _ => []

def surfacingBlock : List (Stmt N) → List String
  | [] => []
  | s::ss => surfacing s ++ surfacingBlock ss

end

mutual

/-- Whether a `continue` may leave the statement. -/
def hasContinue : Stmt N → Bool
  | .continueStatement => true
  | .ifStatement clauses elseBody => continueInClauses clauses || match elseBody with
      | none => false
      | some body => continueInBlock body
  | .doStatement body => continueInBlock body
  | _ => false

def continueInBlock : List (Stmt N) → Bool
  | [] => false
  | s::ss => hasContinue s || continueInBlock ss

def continueInClauses : List (IfClause N) → Bool
  | [] => false
  | .mk _ body :: cs => continueInBlock body || continueInClauses cs

end

end Names

section Scopes
variable {N : Type} [DecidableEq N]

/-- A literal of the same value as the one known. -/
def agrees (e : Expr N) : Status N → Bool
  | .constant e' => (literalValue e).isSome && decide (literalValue e = literalValue e')
  | _ => false

def notLeaked : Status N → Bool
  | .leaked => false
  | _ => true

def isUnknown : Status N → Bool
  | .unknown => true
  | _ => false

/-- An occurrence of a name, where the pass puts what `K` has for it. -/
def fitsName (K : Consts N) (σ : Scope N) (x : String) : Bool :=
  match K x with
  | none => notLeaked (σ x)
  | some e => agrees e (σ x)

/-- A name that the pass leaves alone. -/
def keeps (K : Consts N) (e : Expr N) : Bool :=
  match e.name? with
  | some x => (K x).isNone
  | none => false

/-- What is known of a name declared with the given initialiser. -/
def declaredStatus (K : Consts N) (name : String) (init : List (Expr N)) : Status N :=
  match init, K name with
  | e::_, some e' => if agrees e' (.constant e) then .constant e else .unknown
  | _, _ => .unknown

def declareScope (K : Consts N) (σ : Scope N) : List (Expr N) → List (Expr N) → Scope N
  | [], _ => σ
  | x::xs, init => match x.name? with
      | some name =>
          declareScope K (Function.update σ name (declaredStatus K name init)) xs init.tail
      | none => σ

def afterStmt (p : Pass N) (K : Consts N) (σ : Scope N) : Stmt N → Scope N
  | .localStatement vars init => declareScope K σ vars init
  | .localFunctionStatement identifier _ _ _ => bindAll σ [identifier]
  | .ifStatement clauses elseBody =>
      if p.prunes then leakAll σ (surfacing (.ifStatement clauses elseBody)) else σ
  | _ => σ

def afterBlock (p : Pass N) (K : Consts N) (σ : Scope N) : Block N → Scope N
  | [] => σ
  | s::ss => afterBlock p K (afterStmt p K σ s) ss

/-- The scopes in which a `continue` may leave the block. -/
def exitScopes (p : Pass N) (K : Consts N) (σ : Scope N) : Block N → List (Scope N)
  | [] => []
  | s::ss => (if hasContinue s then [afterStmt p K σ s] else []) ++
      exitScopes p K (afterStmt p K σ s) ss

omit [DecidableEq N] in
/-- A condition that a pruning pass takes for decided. -/
def Pass.decided (p : Pass N) (c : Expr N) : Option Bool :=
  match p.prunes, c with
  | true, .booleanLiteral b => some b
  | _, _ => none

end Scopes

section Fits
variable {N : Type} [DecidableEq N]

mutual

def fits (p : Pass N) (K : Consts N) (σ : Scope N) : Expr N → Bool
  | .identifier x => fitsName K σ x
  | .numericLiteral _ _ => true
  | .stringLiteral _ => true
  | .booleanLiteral _ => true
  | .nilLiteral => true
  | .varargLiteral _ => true
  | .unaryExpression _ a => fits p K σ a
  | .binaryExpression _ l r => fits p K σ l && fits p K σ r
  | .logicalExpression _ l r => fits p K σ l && fits p K σ r
  | .callExpression base args _ => fits p K σ base && fitsList p K σ args
  | .methodCallExpression base method args _ =>
      fits p K σ base && keeps K method && fitsList p K σ args
  | .memberExpression base _ => fits p K σ base
  | .indexExpression base index => fits p K σ base && fits p K σ index
  | .functionExpression params _ body =>
      params.all (keeps K) && fitsBlock p (p.enter K body) (bindAll σ params) body
  | .tableConstructor fields => fitsFields p K σ fields

def fitsList (p : Pass N) (K : Consts N) (σ : Scope N) : List (Expr N) → Bool
  | [] => true
  | e::es => fits p K σ e && fitsList p K σ es

/-- Initialisers of a local statement, where names stay. -/
def fitsInit (p : Pass N) (K : Consts N) (σ : Scope N) : List (Expr N) → Bool
  | [] => true
  | e::es => (match e.name? with
      | some x => notLeaked (σ x)
      | none => fits p K σ e) && fitsInit p K σ es

def fitsFields (p : Pass N) (K : Consts N) (σ : Scope N) : List (TableField N) → Bool
  | [] => true
  | .tableKey key value :: fs => fits p K σ key && fits p K σ value && fitsFields p K σ fs
  | .tableKeyString key value :: fs => keeps K key && fits p K σ value && fitsFields p K σ fs
  | .tableValue value :: fs => fits p K σ value && fitsFields p K σ fs

/-- Targets of an assignment. A local listed as a constant is none, replaced anywhere or not. -/
def fitsTargets (p : Pass N) (K : Consts N) (σ : Scope N) : List (Expr N) → Bool
  | [] => true
  | e::es => (match e.name? with
      | some x => isUnknown (σ x)
      | none => fits p K σ e) && fitsTargets p K σ es

def fitsStmt (p : Pass N) (K : Consts N) (σ : Scope N) : Stmt N → Bool
  | .localStatement vars init => vars.all isName && fitsInit p K σ init
  | .assignmentStatement vars init => fitsTargets p K σ vars && fitsList p K σ init
  | .localFunctionStatement identifier params _ body =>
      keeps K identifier && params.all (keeps K) &&
        fitsBlock p (p.enter K body) (bindAll (bindAll σ [identifier]) params) body
  | .functionDeclaration name params _ body isMethod => params.all (keeps K) &&
      (match functionName name with
        | some (root, path) => (K root).isNone && notLeaked (σ root) &&
            (isUnknown (σ root) || !path.isEmpty)
        | none => false) &&
      fitsBlock p (p.enter K body)
        (bindAll σ (if isMethod then .identifier "self" :: params else params)) body
  | .callStatement expression => fits p K σ expression
  | .ifStatement [] elseBody => (match elseBody with
      | none => true
      | some body => fitsBlock p K σ body)
  | .ifStatement (.mk c body :: cs) elseBody => match p.decided c with
      | some true => fitsBlock p (p.enter K body) σ body
      | some false => fitsClauses p K σ cs && (match elseBody with
          | none => true
          | some els => fitsBlock p K σ els)
      | none => fits p K σ c && fitsBlock p (p.enter K body) σ body && fitsClauses p K σ cs &&
          (match elseBody with
            | none => true
            | some els => fitsBlock p K σ els)
  | .whileStatement condition body =>
      fits p K σ condition && fitsBlock p (p.enter K body) σ body
  | .repeatStatement condition body => fitsBlock p (p.enter K body) σ body &&
      (afterBlock p (p.enter K body) σ body :: exitScopes p (p.enter K body) σ body).all
        (fun τ => fits p K τ condition)
  | .numericForStatement variableName start stop step body =>
      keeps K variableName && fits p K σ start && fits p K σ stop && (match step with
        | none => true
        | some e => fits p K σ e) &&
      fitsBlock p (p.enter K body) (bindAll σ [variableName]) body
  | .genericForStatement vars iterators body => vars.all (keeps K) && fitsList p K σ iterators &&
      fitsBlock p (p.enter K body) (bindAll σ vars) body
  | .doStatement body => fitsBlock p (p.enter K body) σ body
  | .returnStatement args => fitsList p K σ args
  | .breakStatement => true
  | .continueStatement => true
  | .emptyStatement => true

def fitsBlock (p : Pass N) (K : Consts N) (σ : Scope N) : List (Stmt N) → Bool
  | [] => true
  | s::ss => fitsStmt p K σ s && fitsBlock p K (afterStmt p K σ s) ss

def fitsClauses (p : Pass N) (K : Consts N) (σ : Scope N) : List (IfClause N) → Bool
  | [] => true
  | .mk condition body :: cs => fits p K σ condition &&
      fitsBlock p (p.enter K body) σ body && fitsClauses p K σ cs

end

/-- Nothing is known of any name where a chunk starts. -/
def Pass.fitsChunk (p : Pass N) (body : Block N) : Bool :=
  fitsBlock p (p.enter (fun _ => none) body) (fun _ => .unknown) body

end Fits
end LuaRecovery.Transforms
