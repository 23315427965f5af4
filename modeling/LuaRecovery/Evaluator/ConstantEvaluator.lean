import LuaRecovery.Lua.Number
import LuaRecovery.Lua.Ast

/-!
# Constant folding

`ConstantEvaluator` of `evaluator/constant-evaluator.js`. `fold` rewrites a
tree bottom-up, as the visitor's `transform` does: the children of a node are
replaced before the node itself is looked at. The counters of its statistics
are left out.
-/

set_option autoImplicit false

namespace LuaRecovery.Evaluator
open LuaRecovery.Lua

section Rules
variable {N : Type} [LuaNumber N]

/-- `numericLiteral(value, String(value))`. -/
def numericResult (value : N) : Expr N := .numericLiteral value (LuaNumber.text value)

def ifFinite (value : N) : Option (Expr N) :=
  if LuaNumber.isFinite value then some (numericResult value) else none

def evalUnary (operator : UnaryOperator) (argument : Expr N) : Option (Expr N) :=
  match operator, argument with
  | .minus, .numericLiteral value _ => some (numericResult (LuaNumber.neg value))
  | .not, .booleanLiteral value => some (.booleanLiteral (!value))
  | .not, .nilLiteral => some (.booleanLiteral true)
  | .not, .numericLiteral _ _ => some (.booleanLiteral false)
  | .not, .stringLiteral _ => some (.booleanLiteral false)
  | .not, .tableConstructor _ => some (.booleanLiteral false)
  | .length, .stringLiteral value => some (numericResult (LuaNumber.ofNat value.length))
  | _, _ => none

/-- The rules for two numeric literals. -/
def evalNumbers (operator : BinaryOperator) (l r : N) : Option (Expr N) :=
  match operator with
  | .add => ifFinite (LuaNumber.add l r)
  | .sub => ifFinite (LuaNumber.sub l r)
  | .mul => ifFinite (LuaNumber.mul l r)
  | .div => if LuaNumber.eq r LuaNumber.zero then none else ifFinite (LuaNumber.div l r)
  | .mod => if LuaNumber.eq r LuaNumber.zero then none else ifFinite (LuaNumber.mod l r)
  | .pow =>
      if LuaNumber.le (LuaNumber.abs r) (LuaNumber.ofNat 64) &&
          LuaNumber.le (LuaNumber.abs l) (LuaNumber.ofNat 1000000000) then
        ifFinite (LuaNumber.pow l r)
      else none
  | .concat => none
  | .lt => some (.booleanLiteral (LuaNumber.lt l r))
  | .le => some (.booleanLiteral (LuaNumber.le l r))
  | .gt => some (.booleanLiteral (LuaNumber.lt r l))
  | .ge => some (.booleanLiteral (LuaNumber.le r l))
  | .eq => some (.booleanLiteral (LuaNumber.eq l r))
  | .ne => some (.booleanLiteral (!LuaNumber.eq l r))

/-- The rules for equality of other literals; unlisted pairs are left alone. -/
def evalEquality (isEq : Bool) (left right : Expr N) : Option (Expr N) :=
  match left, right with
  | .booleanLiteral a, .booleanLiteral b => some (.booleanLiteral (if isEq then a == b else a != b))
  | .nilLiteral, .nilLiteral => some (.booleanLiteral isEq)
  | .nilLiteral, .numericLiteral _ _ => some (.booleanLiteral (!isEq))
  | .nilLiteral, .stringLiteral _ => some (.booleanLiteral (!isEq))
  | .nilLiteral, .booleanLiteral _ => some (.booleanLiteral (!isEq))
  | .numericLiteral _ _, .nilLiteral => some (.booleanLiteral (!isEq))
  | .stringLiteral _, .nilLiteral => some (.booleanLiteral (!isEq))
  | .booleanLiteral _, .nilLiteral => some (.booleanLiteral (!isEq))
  | .stringLiteral a, .stringLiteral b =>
      some (.booleanLiteral (if isEq then a == b else !(a == b)))
  | .numericLiteral _ _, .stringLiteral _ => some (.booleanLiteral (!isEq))
  | .stringLiteral _, .numericLiteral _ _ => some (.booleanLiteral (!isEq))
  | .booleanLiteral _, .numericLiteral _ _ => some (.booleanLiteral (!isEq))
  | .numericLiteral _ _, .booleanLiteral _ => some (.booleanLiteral (!isEq))
  | _, _ => none

def evalBinary (operator : BinaryOperator) (left right : Expr N) : Option (Expr N) :=
  match left, right with
  | .numericLiteral l _, .numericLiteral r _ => evalNumbers operator l r
  | left, right => match operator with
      | .concat => match left, right with
          | .stringLiteral a, .stringLiteral b => some (.stringLiteral (a++b))
          | _, _ => none
      | .eq => evalEquality true left right
      | .ne => evalEquality false left right
      | _ => none

omit [LuaNumber N] in
/-- `none` where the truth of the node is not known. -/
def isStaticallyTruthy : Expr N → Option Bool
  | .booleanLiteral value => some value
  | .nilLiteral => some false
  | .numericLiteral _ _ => some true
  | .stringLiteral _ => some true
  | .tableConstructor _ => some true
  | .functionExpression _ _ _ => some true
  | _ => none

omit [LuaNumber N] in
def evalLogical (operator : LogicalOperator) (left right : Expr N) : Option (Expr N) :=
  match isStaticallyTruthy left, operator with
  | some leftTruthy, .and => some (if leftTruthy then right else left)
  | some leftTruthy, .or => some (if leftTruthy then left else right)
  | none, _ => none

def tryEvaluate : Expr N → Option (Expr N)
  | .unaryExpression operator argument => evalUnary operator argument
  | .binaryExpression operator left right => evalBinary operator left right
  | .logicalExpression operator left right => evalLogical operator left right
  | _ => none

/-- The visitor's replacement of a node whose children are folded. -/
def reduce (e : Expr N) : Expr N := (tryEvaluate e).getD e

end Rules

section Fold
variable {N : Type} [LuaNumber N]

mutual

def fold : Expr N → Expr N
  | .identifier name => .identifier name
  | .numericLiteral value raw => .numericLiteral value raw
  | .stringLiteral value => .stringLiteral value
  | .booleanLiteral value => .booleanLiteral value
  | .nilLiteral => .nilLiteral
  | .varargLiteral inParens => .varargLiteral inParens
  | .unaryExpression operator argument => reduce (.unaryExpression operator (fold argument))
  | .binaryExpression operator left right =>
      reduce (.binaryExpression operator (fold left) (fold right))
  | .logicalExpression operator left right =>
      reduce (.logicalExpression operator (fold left) (fold right))
  | .callExpression base args inParens => .callExpression (fold base) (foldList args) inParens
  | .methodCallExpression base method args inParens =>
      .methodCallExpression (fold base) (fold method) (foldList args) inParens
  | .memberExpression base property => .memberExpression (fold base) (fold property)
  | .indexExpression base index => .indexExpression (fold base) (fold index)
  | .functionExpression params isVararg body =>
      .functionExpression (foldList params) isVararg (foldBlock body)
  | .tableConstructor fields => .tableConstructor (foldFields fields)

def foldList : List (Expr N) → List (Expr N)
  | [] => []
  | e::es => fold e :: foldList es

def foldFields : List (TableField N) → List (TableField N)
  | [] => []
  | .tableKey key value :: fs => .tableKey (fold key) (fold value) :: foldFields fs
  | .tableKeyString key value :: fs => .tableKeyString (fold key) (fold value) :: foldFields fs
  | .tableValue value :: fs => .tableValue (fold value) :: foldFields fs

def foldStmt : Stmt N → Stmt N
  | .localStatement vars init => .localStatement (foldList vars) (foldList init)
  | .assignmentStatement vars init => .assignmentStatement (foldList vars) (foldList init)
  | .localFunctionStatement identifier params isVararg body =>
      .localFunctionStatement (fold identifier) (foldList params) isVararg (foldBlock body)
  | .functionDeclaration name params isVararg body isMethod =>
      .functionDeclaration (fold name) (foldList params) isVararg (foldBlock body) isMethod
  | .callStatement expression => .callStatement (fold expression)
  | .ifStatement clauses elseBody => .ifStatement (foldClauses clauses) (match elseBody with
      | none => none
      | some body => some (foldBlock body))
  | .whileStatement condition body => .whileStatement (fold condition) (foldBlock body)
  | .repeatStatement condition body => .repeatStatement (fold condition) (foldBlock body)
  | .numericForStatement variableName start stop step body =>
      .numericForStatement (fold variableName) (fold start) (fold stop) (match step with
        | none => none
        | some e => some (fold e)) (foldBlock body)
  | .genericForStatement vars iterators body =>
      .genericForStatement (foldList vars) (foldList iterators) (foldBlock body)
  | .doStatement body => .doStatement (foldBlock body)
  | .returnStatement args => .returnStatement (foldList args)
  | .breakStatement => .breakStatement
  | .continueStatement => .continueStatement
  | .emptyStatement => .emptyStatement

def foldBlock : List (Stmt N) → List (Stmt N)
  | [] => []
  | s::ss => foldStmt s :: foldBlock ss

def foldClauses : List (IfClause N) → List (IfClause N)
  | [] => []
  | .mk condition body :: cs => .mk (fold condition) (foldBlock body) :: foldClauses cs

end

/-- `foldConstants` of a whole chunk. -/
def foldConstants (chunk : Chunk N) : Chunk N := ⟨foldBlock chunk.body⟩

end Fold

section Idempotence
variable {N : Type} [LuaNumber N]

theorem fold_reduce {e : Expr N} (hop : ∀ e', tryEvaluate e = some e' → fold e' = e')
    (hnone : fold e = reduce e) : fold (reduce e) = reduce e := by
  unfold reduce at hnone ⊢
  cases h : tryEvaluate e with
  | none => simpa [h] using hnone
  | some e' => exact hop e' h

theorem fold_evalUnary {operator : UnaryOperator} {argument e' : Expr N}
    (h : evalUnary operator argument = some e') : fold e' = e' := by
  unfold evalUnary at h
  split at h <;> cases h <;> simp [numericResult, fold]

theorem fold_ifFinite {value : N} {e' : Expr N} (h : ifFinite value = some e') :
    fold e' = e' := by
  unfold ifFinite at h
  split at h <;> cases h
  simp [numericResult, fold]

theorem fold_evalNumbers {operator : BinaryOperator} {l r : N} {e' : Expr N}
    (h : evalNumbers operator l r = some e') : fold e' = e' := by
  cases operator with
  | add => exact fold_ifFinite h
  | sub => exact fold_ifFinite h
  | mul => exact fold_ifFinite h
  | div =>
    simp only [evalNumbers] at h
    split at h
    · cases h
    · exact fold_ifFinite h
  | mod =>
    simp only [evalNumbers] at h
    split at h
    · cases h
    · exact fold_ifFinite h
  | pow =>
    simp only [evalNumbers] at h
    split at h
    · exact fold_ifFinite h
    · cases h
  | concat => cases h
  | lt => cases h; simp [fold]
  | le => cases h; simp [fold]
  | gt => cases h; simp [fold]
  | ge => cases h; simp [fold]
  | eq => cases h; simp [fold]
  | ne => cases h; simp [fold]

theorem fold_evalEquality {isEq : Bool} {left right e' : Expr N}
    (h : evalEquality isEq left right = some e') : fold e' = e' := by
  unfold evalEquality at h
  split at h <;> cases h <;> simp [fold]

theorem fold_evalBinary {operator : BinaryOperator} {left right e' : Expr N}
    (h : evalBinary operator left right = some e') : fold e' = e' := by
  unfold evalBinary at h
  split at h
  · exact fold_evalNumbers h
  · split at h
    · split at h <;> cases h
      simp [fold]
    · exact fold_evalEquality h
    · exact fold_evalEquality h
    · cases h

theorem fold_evalLogical {operator : LogicalOperator} {left right e' : Expr N}
    (hl : fold left = left) (hr : fold right = right)
    (h : evalLogical operator left right = some e') : fold e' = e' := by
  unfold evalLogical at h
  split at h
  · cases h
    split <;> assumption
  · cases h
    split <;> assumption
  · cases h

mutual

/-- Folding again changes nothing. -/
theorem fold_fold : ∀ e : Expr N, fold (fold e) = fold e
  | .identifier _ => by simp [fold]
  | .numericLiteral _ _ => by simp [fold]
  | .stringLiteral _ => by simp [fold]
  | .booleanLiteral _ => by simp [fold]
  | .nilLiteral => by simp [fold]
  | .varargLiteral _ => by simp [fold]
  | .unaryExpression operator argument => by
      have ih := fold_fold argument
      rw [fold]
      exact fold_reduce (fun e' h => fold_evalUnary h) (by rw [fold, ih])
  | .binaryExpression operator left right => by
      have ihl := fold_fold left
      have ihr := fold_fold right
      rw [fold]
      exact fold_reduce (fun e' h => fold_evalBinary h) (by rw [fold, ihl, ihr])
  | .logicalExpression operator left right => by
      have ihl := fold_fold left
      have ihr := fold_fold right
      rw [fold]
      exact fold_reduce (fun e' h => fold_evalLogical ihl ihr h) (by rw [fold, ihl, ihr])
  | .callExpression base args _ => by
      simp [fold, fold_fold base, foldList_foldList args]
  | .methodCallExpression base method args _ => by
      simp [fold, fold_fold base, fold_fold method, foldList_foldList args]
  | .memberExpression base property => by simp [fold, fold_fold base, fold_fold property]
  | .indexExpression base index => by simp [fold, fold_fold base, fold_fold index]
  | .functionExpression params _ body => by
      simp [fold, foldList_foldList params, foldBlock_foldBlock body]
  | .tableConstructor fields => by simp [fold, foldFields_foldFields fields]

theorem foldList_foldList : ∀ es : List (Expr N), foldList (foldList es) = foldList es
  | [] => by simp [foldList]
  | e::es => by simp [foldList, fold_fold e, foldList_foldList es]

theorem foldFields_foldFields : ∀ fs : List (TableField N),
    foldFields (foldFields fs) = foldFields fs
  | [] => by simp [foldFields]
  | .tableKey key value :: fs => by
      simp [foldFields, fold_fold key, fold_fold value, foldFields_foldFields fs]
  | .tableKeyString key value :: fs => by
      simp [foldFields, fold_fold key, fold_fold value, foldFields_foldFields fs]
  | .tableValue value :: fs => by simp [foldFields, fold_fold value, foldFields_foldFields fs]

theorem foldStmt_foldStmt : ∀ s : Stmt N, foldStmt (foldStmt s) = foldStmt s
  | .localStatement vars init => by simp [foldStmt, foldList_foldList vars, foldList_foldList init]
  | .assignmentStatement vars init => by
      simp [foldStmt, foldList_foldList vars, foldList_foldList init]
  | .localFunctionStatement identifier params _ body => by
      simp [foldStmt, fold_fold identifier, foldList_foldList params, foldBlock_foldBlock body]
  | .functionDeclaration name params _ body _ => by
      simp [foldStmt, fold_fold name, foldList_foldList params, foldBlock_foldBlock body]
  | .callStatement expression => by simp [foldStmt, fold_fold expression]
  | .ifStatement clauses none => by simp [foldStmt, foldClauses_foldClauses clauses]
  | .ifStatement clauses (some body) => by
      simp [foldStmt, foldClauses_foldClauses clauses, foldBlock_foldBlock body]
  | .whileStatement condition body => by
      simp [foldStmt, fold_fold condition, foldBlock_foldBlock body]
  | .repeatStatement condition body => by
      simp [foldStmt, fold_fold condition, foldBlock_foldBlock body]
  | .numericForStatement variableName start stop none body => by
      simp [foldStmt, fold_fold variableName, fold_fold start, fold_fold stop,
        foldBlock_foldBlock body]
  | .numericForStatement variableName start stop (some step) body => by
      simp [foldStmt, fold_fold variableName, fold_fold start, fold_fold stop, fold_fold step,
        foldBlock_foldBlock body]
  | .genericForStatement vars iterators body => by
      simp [foldStmt, foldList_foldList vars, foldList_foldList iterators,
        foldBlock_foldBlock body]
  | .doStatement body => by simp [foldStmt, foldBlock_foldBlock body]
  | .returnStatement args => by simp [foldStmt, foldList_foldList args]
  | .breakStatement => by simp [foldStmt]
  | .continueStatement => by simp [foldStmt]
  | .emptyStatement => by simp [foldStmt]

theorem foldBlock_foldBlock : ∀ ss : List (Stmt N), foldBlock (foldBlock ss) = foldBlock ss
  | [] => by simp [foldBlock]
  | s::ss => by simp [foldBlock, foldStmt_foldStmt s, foldBlock_foldBlock ss]

theorem foldClauses_foldClauses : ∀ cs : List (IfClause N),
    foldClauses (foldClauses cs) = foldClauses cs
  | [] => by simp [foldClauses]
  | .mk condition body :: cs => by
      simp [foldClauses, fold_fold condition, foldBlock_foldBlock body,
        foldClauses_foldClauses cs]

end
/-- The node that stays in the tree when an argument is folded in place: its children are
folded, its own replacement is only returned. -/
def foldInPlace : Expr N → Expr N
  | .unaryExpression operator argument => .unaryExpression operator (fold argument)
  | .binaryExpression operator left right => .binaryExpression operator (fold left) (fold right)
  | .logicalExpression operator left right => .logicalExpression operator (fold left) (fold right)
  | e => fold e

theorem fold_foldInPlace (e : Expr N) : fold (foldInPlace e) = fold e := by
  cases e with
  | unaryExpression operator argument => simp [foldInPlace, fold, fold_fold]
  | binaryExpression operator left right => simp [foldInPlace, fold, fold_fold]
  | logicalExpression operator left right => simp [foldInPlace, fold, fold_fold]
  | _ => exact fold_fold _

end Idempotence
end LuaRecovery.Evaluator
