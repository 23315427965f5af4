import LuaRecovery.Lua.TargetTokens

/-!
# Well-formed assignments and blocks

The parser takes any prefix expressions for the targets of an assignment, any
number of them before `+=`, and goes on after a return statement. Where it
comes to none of these, its tree is one that Lua's grammar allows.
-/

set_option autoImplicit false

namespace LuaRecovery.Lua
open LuaRecovery.Lib Comp

section Trees
variable {N : Type}

def Stmt.isReturn : Stmt N → Bool
  | .returnStatement _ => true
  | _ => false

mutual

/-- Everywhere in the tree, assignments are to names, members and index expressions, and a return
statement is the last of its block. -/
def WellFormedExpr : Expr N → Prop
  | .identifier _ => True
  | .numericLiteral _ _ => True
  | .stringLiteral _ => True
  | .booleanLiteral _ => True
  | .nilLiteral => True
  | .varargLiteral _ => True
  | .unaryExpression _ argument => WellFormedExpr argument
  | .binaryExpression _ left right => WellFormedExpr left ∧ WellFormedExpr right
  | .logicalExpression _ left right => WellFormedExpr left ∧ WellFormedExpr right
  | .callExpression base args _ => WellFormedExpr base ∧ WellFormedExprs args
  | .methodCallExpression base method args _ =>
      WellFormedExpr base ∧ WellFormedExpr method ∧ WellFormedExprs args
  | .memberExpression base property => WellFormedExpr base ∧ WellFormedExpr property
  | .indexExpression base index => WellFormedExpr base ∧ WellFormedExpr index
  | .functionExpression params _ body => WellFormedExprs params ∧ WellFormedBlock body
  | .tableConstructor fields => WellFormedFields fields

def WellFormedExprs : List (Expr N) → Prop
  | [] => True
  | e::es => WellFormedExpr e ∧ WellFormedExprs es

def WellFormedField : TableField N → Prop
  | .tableKey key value => WellFormedExpr key ∧ WellFormedExpr value
  | .tableKeyString key value => WellFormedExpr key ∧ WellFormedExpr value
  | .tableValue value => WellFormedExpr value

def WellFormedFields : List (TableField N) → Prop
  | [] => True
  | f::fs => WellFormedField f ∧ WellFormedFields fs

def WellFormedStmt : Stmt N → Prop
  | .localStatement vars init => WellFormedExprs vars ∧ WellFormedExprs init
  | .assignmentStatement vars init =>
      (∀ v ∈ vars, v.isTarget = true) ∧ WellFormedExprs vars ∧ WellFormedExprs init
  | .localFunctionStatement identifier params _ body =>
      WellFormedExpr identifier ∧ WellFormedExprs params ∧ WellFormedBlock body
  | .functionDeclaration name params _ body _ =>
      WellFormedExpr name ∧ WellFormedExprs params ∧ WellFormedBlock body
  | .callStatement expression => WellFormedExpr expression
  | .ifStatement clauses elseBody => WellFormedClauses clauses ∧ WellFormedElse elseBody
  | .whileStatement condition body => WellFormedExpr condition ∧ WellFormedBlock body
  | .repeatStatement condition body => WellFormedExpr condition ∧ WellFormedBlock body
  | .numericForStatement variableName start stop step body =>
      WellFormedExpr variableName ∧ WellFormedExpr start ∧ WellFormedExpr stop ∧
        WellFormedStep step ∧ WellFormedBlock body
  | .genericForStatement vars iterators body =>
      WellFormedExprs vars ∧ WellFormedExprs iterators ∧ WellFormedBlock body
  | .doStatement body => WellFormedBlock body
  | .returnStatement args => WellFormedExprs args
  | .breakStatement => True
  | .continueStatement => True
  | .emptyStatement => True

def WellFormedBlock : List (Stmt N) → Prop
  | [] => True
  | s::ss => WellFormedStmt s ∧ (s.isReturn = true → ss = []) ∧ WellFormedBlock ss

def WellFormedElse : Option (List (Stmt N)) → Prop
  | none => True
  | some body => WellFormedBlock body

def WellFormedStep : Option (Expr N) → Prop
  | none => True
  | some e => WellFormedExpr e

def WellFormedClauses : List (IfClause N) → Prop
  | [] => True
  | .mk condition body :: cs => WellFormedExpr condition ∧ WellFormedBlock body ∧
      WellFormedClauses cs

end

end Trees

namespace Parser
variable {N : Type}

/-- The expressions that a function of the parser goes on with are well-formed. -/
def Given : {α : Type} → Rule N α → Prop
  | _, .moreName name => WellFormedExpr name
  | _, .parseOperators _ left => WellFormedExpr left
  | _, .parseSuffixes base => WellFormedExpr base
  | _, _ => True

/-- What a function of the parser returns is well-formed. -/
def Good : {α : Type} → Rule N α → α → Prop
  | _, .moreIdentifiers _, es => WellFormedExprs es
  | _, .moreParams, params => WellFormedExprs params.1
  | _, .moreName _, e => WellFormedExpr e
  | _, .parseBlock, ss => WellFormedBlock ss
  | _, .parseStatement, s => WellFormedStmt s
  | _, .parseLocalFunction, s => WellFormedStmt s
  | _, .parseLocalVariables, s => WellFormedStmt s
  | _, .parseFunctionDeclaration, s => WellFormedStmt s
  | _, .parseFunctionBody, f => WellFormedExprs f.1 ∧ WellFormedBlock f.2.2
  | _, .parseIfStatement, s => WellFormedStmt s
  | _, .parseElseifs, cs => WellFormedClauses cs
  | _, .parseWhileStatement, s => WellFormedStmt s
  | _, .parseRepeatStatement, s => WellFormedStmt s
  | _, .parseForStatement, s => WellFormedStmt s
  | _, .parseCallOrAssignment, s => WellFormedStmt s
  | _, .moreTargets, es => (∀ e ∈ es, e.isTarget = true) ∧ WellFormedExprs es
  | _, .parseExpression, e => WellFormedExpr e
  | _, .parseExpressions, es => WellFormedExprs es
  | _, .moreExpressions, es => WellFormedExprs es
  | _, .parseSubExpression _, e => WellFormedExpr e
  | _, .parseOperators _ _, e => WellFormedExpr e
  | _, .parseSimpleExpression, e => WellFormedExpr e
  | _, .parsePrefixExp, e => WellFormedExpr e
  | _, .parseSuffixes _, e => WellFormedExpr e
  | _, .parseCallArgs, es => WellFormedExprs es
  | _, .parseTableConstructor, e => WellFormedExpr e
  | _, .parseFields, fs => WellFormedFields fs
  | _, .parseField, f => WellFormedField f

/-- There is a return statement with more of the block after it. -/
def ReturnsEarly (ts : List (Lexeme N)) : Prop :=
  nextType ts = .returnWord ∧ ∃ s rest, parser.call .parseStatement ts = some (.ok (s, rest)) ∧
    nextType rest ∉ endsBlock

/-- There are several targets before the operator of a compound assignment. -/
def SeveralTargets (ts : List (Lexeme N)) : Prop :=
  nextType ts = .comma ∧ ∃ more rest, parser.call .moreTargets ts = some (.ok (more, rest)) ∧
    nextType rest ≠ .assign

/-- The places at which the parser takes a target of the given kind, or several targets of a
compound assignment. -/
def Assigns (wrong : List (Lexeme N) → List (Lexeme N) → Prop) :
    {α : Type} → Rule N α → List (Lexeme N) → Prop
  | _, .parseCallOrAssignment, ts => ∃ e rest,
      parser.call .parsePrefixExp ts = some (.ok (e, rest)) ∧ nextType rest ∈ assignmentTypes ∧
        (wrong ts rest ∨ SeveralTargets rest)
  | _, .moreTargets, ts => nextType ts = .comma ∧ ∃ e rest,
      parser.call .parsePrefixExp ts.tail = some (.ok (e, rest)) ∧ wrong ts.tail rest
  | _, _, _ => False

/-- What the tree does not show: a target in parentheses, or several of a compound assignment. -/
def Hidden {α : Type} (r : Rule N α) (ts : List (Lexeme N)) : Prop := Assigns InParentheses r ts

/-- A target that does not end with a name or a bracket, several targets of a compound assignment,
or a return statement before the end of a block. -/
def Misplaced : {α : Type} → Rule N α → List (Lexeme N) → Prop
  | _, .parseBlock, ts => ReturnsEarly ts
  | _, r, ts => Assigns (fun before after => ¬ EndsInPlace before after) r ts

theorem wellFormed_infixNode {operator : TokenType.Infix} {left right : Expr N} :
    WellFormedExpr (infixNode operator left right) ↔ WellFormedExpr left ∧ WellFormedExpr right := by
  cases operator <;> rfl

theorem wellFormed_inParens {e : Expr N} : WellFormedExpr (inParens e) ↔ WellFormedExpr e := by
  cases e <;> rfl

theorem wellFormed_nameOf (t : Lexeme N) : WellFormedExpr (nameOf t) := by
  unfold nameOf
  split <;> exact trivial

theorem wellFormed_literal {t : Lexeme N} {e : Expr N} (h : literal t = some e) :
    WellFormedExpr e := by
  unfold literal at h
  split at h <;> cases h <;> exact trivial

/-- What is given to a function is part of what it returns. -/
abbrev Includes (self : Rules N) : Prop :=
  ∀ {α : Type} (r : Rule N α), Ensures (self.call r) fun a => Good r a → Given r

theorem includes_body {self : Rules N} (h : Includes self) {α : Type} (r : Rule N α) :
    Ensures (body self r) fun a => Good r a → Given r := by
  cases r
  case moreName name =>
    refine .bind (.any _) fun _ _ => .ite ?_ (.pure id)
    refine .bind (.any _) fun prop _ => (h _).imp fun e he hgood => ?_
    exact (he hgood).1
  case parseOperators minPrec left =>
    refine .bind (.any _) fun t _ => ?_
    dsimp only
    split
    · exact .pure id
    · refine .ite (.pure id) (.bind (.any _) fun _ _ => .bind (.any _) fun right _ =>
        (h _).imp fun e he hgood => ?_)
      exact (wellFormed_infixNode.mp (he hgood)).1
  case parseSuffixes base =>
    refine .bind (.any _) fun _ _ => .ite ?_ (.bind (.any _) fun _ _ => .ite ?_
      (.bind (.any _) fun _ _ => .ite ?_ (.bind (.any _) fun _ _ => .ite ?_ (.pure id))))
    · exact .bind (.any _) fun index _ => .bind (.any _) fun _ _ =>
        (h _).imp fun e he hgood => (he hgood).1
    · exact .bind (.any _) fun prop _ => (h _).imp fun e he hgood => (he hgood).1
    · exact .bind (.any _) fun method _ => .bind (.any _) fun args _ =>
        (h _).imp fun e he hgood => (he hgood).1
    · exact .bind (.any _) fun args _ => (h _).imp fun e he hgood => (he hgood).1
  all_goals exact (Ensures.any _).imp fun _ _ _ => trivial

theorem ensures_fail {α : Type} (message : String) (Q : α → Prop) :
    Ensures (fail message : Parser N α) Q := by
  intro ts a ts' h
  cases h

theorem ensures_identifier (errorMsg : String) :
    Ensures (identifier errorMsg : Parser N (Expr N)) WellFormedExpr :=
  .bind (.any _) fun t _ => .pure (wellFormed_nameOf t)

/-- The functions of which the source checks less than the grammar asks for. -/
def Lenient : {α : Type} → Rule N α → Prop
  | _, .parseBlock => True
  | _, .parseCallOrAssignment => True
  | _, .moreTargets => True
  | _, _ => False

theorem good_body {self : Rules N}
    (h : ∀ {α : Type} (r : Rule N α), Given r → Ensures (self.call r) (Good r)) {α : Type}
    (r : Rule N α) (hr : ¬ Lenient r) (hgiven : Given r) : Ensures (body self r) (Good r) := by
  cases r
  case parseBlock => exact absurd trivial hr
  case parseCallOrAssignment => exact absurd trivial hr
  case moreTargets => exact absurd trivial hr
  -- what is put together is well-formed if its parts are
  all_goals
    dsimp only [body]
    repeat' with_reducible first
      | refine Ensures.bind_bind ?_
      | refine Ensures.bind_ite ?_ ?_
      | refine Ensures.pure_bind ?_
      | refine Ensures.bind (h _ ?_) fun _ _ => ?_
      | refine Ensures.bind (ensures_identifier _) fun _ _ => ?_
      | refine Ensures.bind (.any _) fun _ _ => ?_
      | refine Ensures.ite ?_ ?_
      | refine Ensures.pure ?_
      | exact Ensures.throw _
      | exact ensures_fail _ _
      | refine (h _ ?_).imp fun _ _ => ?_
      | split
  all_goals clear h
  all_goals first
    | exact wellFormed_literal ‹_›
    | simp_all only [Good, Given, WellFormedExpr, WellFormedExprs, WellFormedFields,
        WellFormedField, WellFormedStmt, WellFormedClauses, WellFormedElse, WellFormedStep,
        wellFormed_infixNode, wellFormed_inParens, wellFormed_nameOf, and_self]

theorem keeps_body {self self' : Rules N} (hincludes : Includes self)
    (h : ∀ {α : Type} (r : Rule N α), Keeps (self.call r) (self'.call r) (Good r)) {α : Type}
    (r : Rule N α) : Keeps (body self r) (body self' r) (Good r) := by
  cases r
  -- a result is kept if what each call returned is well-formed in it
  all_goals
    dsimp only [body]
    repeat' with_reducible first
      | refine Keeps.bind_bind ?_
      | refine Keeps.bind_ite ?_ ?_
      | refine Keeps.bind (h _) (fun _ => ?_) fun _ => ?_
      | refine Keeps.ite ?_ ?_
      | exact Keeps.same _ _
      | refine Keeps.weaken (h _) ?_
      | refine Keeps.bind (Keeps.same _ (fun _ => True))
          (fun _ => (Ensures.any _).imp fun _ _ _ => trivial) fun _ => ?_
      | split
  all_goals
    repeat' with_reducible first
      | refine Ensures.bind_bind ?_
      | refine Ensures.bind_ite ?_ ?_
      | refine Ensures.pure_bind ?_
      | refine Ensures.bind (.any _) fun _ _ => ?_
      | refine Ensures.ite ?_ ?_
      | refine Ensures.pure ?_
      | exact Ensures.throw _
      | exact ensures_fail _ _
      | refine (hincludes _).imp fun _ hgiven hgood => ?_
      | split
  all_goals clear h hincludes
  all_goals simp_all only [Good, Given, WellFormedExpr, WellFormedExprs, WellFormedFields,
    WellFormedField, WellFormedStmt, WellFormedBlock, WellFormedClauses, WellFormedElse,
    WellFormedStep, List.forall_mem_cons, wellFormed_infixNode, wellFormed_inParens, implies_true,
    and_self, true_and, and_true]

end Parser
end LuaRecovery.Lua
