import LuaRecovery.Evaluator.ConstantEvaluator
import LuaRecovery.Lua.Sites

/-!
# What folding in place leaves of a chunk

`fold` of `evaluator/constant-evaluator.js` replaces the nodes below the one it
is given. The analyses fold the arguments and right sides that they read and
keep the node that they gave, so that everything below it has changed in the
chunk. Each node of the chunk is listed here with what has become of it: an
operator node may be gone, and with it the operands that do not take its place.
-/

set_option autoImplicit false

namespace LuaRecovery.Analysis
open LuaRecovery.Lua LuaRecovery.Evaluator

/-- Whether a node was given to the evaluator, or lies below one that was. -/
inductive Touch where
  | untouched
  | inPlace
  | folded
  deriving DecidableEq

def Touch.below : Touch → Touch
  | .untouched => .untouched
  | .inPlace => .folded
  | .folded => .folded

def Touch.read : Touch → Touch
  | .untouched => .inPlace
  | .inPlace => .folded
  | .folded => .folded

section Folding
variable {N : Type} [LuaNumber N]

/-- The evaluator puts another node in the place of this one. -/
def isReplaced (e : Expr N) : Bool := (tryEvaluate (foldInPlace e)).isSome

/-- The operand that takes the place of a logical expression. -/
def keptOperand : Expr N → Option ℕ
  | .logicalExpression operator left _ => match isStaticallyTruthy (fold left), operator with
      | some leftTruthy, .and => some (if leftTruthy then 1 else 0)
      | some leftTruthy, .or => some (if leftTruthy then 0 else 1)
      | none, _ => none
  | _ => none

/-- The operand goes with the node that it belongs to. -/
def drops : Node N → ℕ → Bool
  | .expr e, i => isReplaced e && keptOperand e != some i
  | .stmt _, _ => false

/-- The node as it stands in the chunk afterwards; `none` where another one has taken its place. -/
def Touch.form : Touch → Node N → Option (Node N)
  | .untouched, n => some n
  | .inPlace, .expr e => some (.expr (foldInPlace e))
  | .folded, .expr e => if isReplaced e then none else some (.expr (foldInPlace e))
  | _, .stmt s => some (.stmt (foldStmt s))

/-- What an analysis gives to the evaluator: the first arguments of calls by name, and the first
right side of assignments to a name. -/
structure Reads where
  arguments : String → ℕ
  rightSide : String → Bool

def Reads.reads (r : Reads) : Node N → ℕ → Bool
  | .expr (.callExpression (.identifier name) _ _), i => decide (0 < i ∧ i ≤ r.arguments name)
  | .stmt (.assignmentStatement (.identifier name :: vars) _), i =>
      i == vars.length+1 && r.rightSide name
  | _, _ => false

/-- What becomes of an operand of the node; `none` for a node that is gone. -/
def Reads.enter (r : Reads) : Option Touch → Node N → ℕ → Option Touch
  | none, _, _ => none
  | some .folded, n, i => if drops n i then none else some .folded
  | some touch, n, i => some (if r.reads n i then touch.read else touch.below)

def Reads.sites (r : Reads) (chunk : Chunk N) : List (Site (Option Touch) N) :=
  chunk.sites r.enter (some .untouched)

/-- The nodes of the chunk that are left, as they stand in it afterwards. -/
def leftNodes (sites : List (Site (Option Touch) N)) : List (Node N) :=
  sites.filterMap (fun s => s.1.bind (fun touch => touch.form s.2))

end Folding

def callOf {N : Type} : Node N → Option (Expr N)
  | .expr (.callExpression base args inParens) => some (.callExpression base args inParens)
  | _ => none

/-- The calls among the nodes, one for each occurrence. -/
def calls {N : Type} (nodes : List (Node N)) : List (Expr N) := nodes.filterMap callOf

section Calls
variable {N : Type}

theorem calls_append (l l' : List (Node N)) : calls (l ++ l') = calls l ++ calls l' :=
  List.filterMap_append

@[simp] theorem calls_stmt (s : Stmt N) (l : List (Node N)) : calls (.stmt s :: l) = calls l := rfl

theorem calls_expr (e : Expr N) (l : List (Node N)) :
    calls (.expr e :: l) = (callOf (.expr e)).toList ++ calls l := by
  unfold calls
  cases h : callOf (.expr e) with
  | none => rw [List.filterMap_cons_none h]; rfl
  | some c => rw [List.filterMap_cons_some h]; rfl

end Calls

/-! ### The calls of a folded expression -/

section Folded
variable {N : Type} [LuaNumber N]

/-- The calls that are left of the sites. -/
def leftCalls (sites : List (Site (Option Touch) N)) : List (Expr N) := calls (leftNodes sites)

@[simp] theorem leftCalls_append (l l' : List (Site (Option Touch) N)) :
    leftCalls (l ++ l') = leftCalls l ++ leftCalls l' := by
  rw [leftCalls, leftNodes, List.filterMap_append, calls_append]
  rfl

@[simp] theorem leftCalls_nil : leftCalls ([] : List (Site (Option Touch) N)) = [] := rfl

@[simp] theorem leftCalls_stmt (touch : Touch) (s : Stmt N) (l : List (Site (Option Touch) N)) :
    leftCalls ((some touch, .stmt s) :: l) = leftCalls l := by
  cases touch <;> rfl

@[simp] theorem leftCalls_none (n : Node N) (l : List (Site (Option Touch) N)) :
    leftCalls ((none, n) :: l) = leftCalls l := rfl

theorem leftCalls_folded (e : Expr N) (l : List (Site (Option Touch) N)) :
    leftCalls ((some .folded, .expr e) :: l) =
      (if isReplaced e then [] else (callOf (.expr (foldInPlace e))).toList) ++ leftCalls l := by
  cases h : isReplaced e with
  | true => simp [leftCalls, leftNodes, Touch.form, h]
  | false => simp [leftCalls, leftNodes, Touch.form, h, calls_expr]

/-- Nothing is left below a node that goes with its parent. -/
theorem leftCalls_exprSites_none (r : Reads) (e : Expr N) :
    leftCalls (exprSites r.enter none e) = [] := by
  have hnone := @inherits_exprSites _ _ r.enter (fun touch => touch = none)
    (fun c n i hc => by rw [hc]; rfl) e none rfl
  have hleft : leftNodes (exprSites r.enter none e) = [] := by
    refine List.filterMap_eq_nil_iff.mpr (fun s hs => ?_)
    rw [hnone s hs]
    rfl
  rw [leftCalls, hleft]
  rfl

theorem enter_folded (r : Reads) {n : Node N} {i : ℕ} (h : drops n i = false) :
    r.enter (some .folded) n i = some .folded := by
  rw [Reads.enter, h]
  rfl

theorem drops_of_stays {e : Expr N} (h : isReplaced e = false) (i : ℕ) :
    drops (.expr e) i = false := by
  rw [drops, h, Bool.false_and]

theorem calls_evalUnary {operator : UnaryOperator} {argument e : Expr N}
    (h : evalUnary operator argument = some e) : calls (exprNodes e) = [] := by
  unfold evalUnary at h
  split at h <;> cases h <;> rfl

theorem calls_ifFinite {value : N} {e : Expr N} (h : ifFinite value = some e) :
    calls (exprNodes e) = [] := by
  unfold ifFinite at h
  split at h <;> cases h
  rfl

theorem calls_evalNumbers {operator : BinaryOperator} {l r : N} {e : Expr N}
    (h : evalNumbers operator l r = some e) : calls (exprNodes e) = [] := by
  cases operator with
  | add => exact calls_ifFinite h
  | sub => exact calls_ifFinite h
  | mul => exact calls_ifFinite h
  | div =>
    simp only [evalNumbers] at h
    split at h
    · cases h
    · exact calls_ifFinite h
  | mod =>
    simp only [evalNumbers] at h
    split at h
    · cases h
    · exact calls_ifFinite h
  | pow =>
    simp only [evalNumbers] at h
    split at h
    · exact calls_ifFinite h
    · cases h
  | concat => cases h
  | lt => cases h; rfl
  | le => cases h; rfl
  | gt => cases h; rfl
  | ge => cases h; rfl
  | eq => cases h; rfl
  | ne => cases h; rfl

theorem calls_evalBinary {operator : BinaryOperator} {left right e : Expr N}
    (h : evalBinary operator left right = some e) : calls (exprNodes e) = [] := by
  unfold evalBinary at h
  split at h
  · exact calls_evalNumbers h
  · split at h
    · split at h <;> cases h
      rfl
    · unfold evalEquality at h
      split at h <;> cases h <;> rfl
    · unfold evalEquality at h
      split at h <;> cases h <;> rfl
    · cases h

/-- The operand that is kept decides what is left of a logical expression that is replaced. -/
theorem leftCalls_logical (r : Reads) (operator : LogicalOperator) (left right : Expr N)
    (hl : leftCalls (exprSites r.enter (some .folded) left) = calls (exprNodes (fold left)))
    (hr : leftCalls (exprSites r.enter (some .folded) right) = calls (exprNodes (fold right))) :
    leftCalls (exprSites r.enter (some .folded) (.logicalExpression operator left right)) =
      calls (exprNodes (fold (.logicalExpression operator left right))) := by
  have hform : foldInPlace (.logicalExpression operator left right) =
      .logicalExpression operator (fold left) (fold right) := rfl
  rw [exprSites, leftCalls_folded, leftCalls_append, fold, reduce]
  cases htruth : isStaticallyTruthy (fold left) with
  | none =>
    have hstays : isReplaced (.logicalExpression operator left right) = false := by
      simp [isReplaced, hform, tryEvaluate, evalLogical, htruth]
    simp [hstays, enter_folded r (drops_of_stays hstays _), hl, hr, hform, tryEvaluate, evalLogical,
      htruth, callOf, exprNodes, calls_expr, calls_append]
  | some leftTruthy =>
    have hreplaced : isReplaced (.logicalExpression operator left right) = true := by
      cases operator <;> simp [isReplaced, hform, tryEvaluate, evalLogical, htruth]
    have henter : ∀ i, r.enter (some .folded) (.expr (.logicalExpression operator left right)) i =
        if keptOperand (.logicalExpression operator left right) = some i then some .folded
        else none := by
      intro i
      simp only [Reads.enter, drops, hreplaced, Bool.true_and, bne_iff_ne, ne_eq, ite_not]
    rw [if_pos hreplaced, henter, henter]
    cases operator <;> cases leftTruthy <;>
      simp [keptOperand, htruth, tryEvaluate, evalLogical, hl, hr, leftCalls_exprSites_none]

/-- An operator whose result is a constant leaves no call, and nor did its operands. -/
theorem leftCalls_unary (r : Reads) (operator : UnaryOperator) (argument : Expr N)
    (ih : leftCalls (exprSites r.enter (some .folded) argument) =
      calls (exprNodes (fold argument))) :
    leftCalls (exprSites r.enter (some .folded) (.unaryExpression operator argument)) =
      calls (exprNodes (fold (.unaryExpression operator argument))) := by
  have hform : foldInPlace (.unaryExpression operator argument) =
      .unaryExpression operator (fold argument) := rfl
  rw [exprSites, leftCalls_folded, fold, reduce]
  cases heval : evalUnary operator (fold argument) with
  | none =>
    have hstays : isReplaced (.unaryExpression operator argument) = false := by
      simp [isReplaced, hform, tryEvaluate, heval]
    simp [hstays, enter_folded r (drops_of_stays hstays _), ih, hform, tryEvaluate, heval, callOf,
      exprNodes, calls_expr]
  | some e =>
    have hreplaced : isReplaced (.unaryExpression operator argument) = true := by
      simp [isReplaced, hform, tryEvaluate, heval]
    simp [hreplaced, Reads.enter, drops, keptOperand, leftCalls_exprSites_none, tryEvaluate, heval,
      calls_evalUnary heval]

theorem leftCalls_binary (r : Reads) (operator : BinaryOperator) (left right : Expr N)
    (hl : leftCalls (exprSites r.enter (some .folded) left) = calls (exprNodes (fold left)))
    (hr : leftCalls (exprSites r.enter (some .folded) right) = calls (exprNodes (fold right))) :
    leftCalls (exprSites r.enter (some .folded) (.binaryExpression operator left right)) =
      calls (exprNodes (fold (.binaryExpression operator left right))) := by
  have hform : foldInPlace (.binaryExpression operator left right) =
      .binaryExpression operator (fold left) (fold right) := rfl
  rw [exprSites, leftCalls_folded, leftCalls_append, fold, reduce]
  cases heval : evalBinary operator (fold left) (fold right) with
  | none =>
    have hstays : isReplaced (.binaryExpression operator left right) = false := by
      simp [isReplaced, hform, tryEvaluate, heval]
    simp [hstays, enter_folded r (drops_of_stays hstays _), hl, hr, hform, tryEvaluate, heval,
      callOf, exprNodes, calls_expr, calls_append]
  | some e =>
    have hreplaced : isReplaced (.binaryExpression operator left right) = true := by
      simp [isReplaced, hform, tryEvaluate, heval]
    simp [hreplaced, Reads.enter, drops, keptOperand, leftCalls_exprSites_none, tryEvaluate, heval,
      calls_evalBinary heval]

/-- A node that no rule applies to hands the folding on to everything below it. -/
theorem enter_plain (r : Reads) {e : Expr N} (h : tryEvaluate (foldInPlace e) = none) :
    r.enter (some .folded) (.expr e) = fun _ => some .folded := by
  funext i
  exact enter_folded r (drops_of_stays (by rw [isReplaced, h]; rfl) i)

theorem leftCalls_plain {e : Expr N} (h : tryEvaluate (foldInPlace e) = none)
    (l : List (Site (Option Touch) N)) : leftCalls ((some .folded, .expr e) :: l) =
      (callOf (.expr (foldInPlace e))).toList ++ leftCalls l := by
  rw [leftCalls_folded, isReplaced, h]
  rfl

theorem enter_stmt (r : Reads) (s : Stmt N) :
    r.enter (some .folded) (.stmt s) = fun _ => some .folded := by
  funext i
  exact enter_folded r rfl

mutual

/-- Of a folded expression the listed calls are left, in the order in which they stand there. -/
theorem leftCalls_exprSites (r : Reads) : ∀ e : Expr N,
    leftCalls (exprSites r.enter (some .folded) e) = calls (exprNodes (fold e))
  | .identifier _ => rfl
  | .numericLiteral _ _ => rfl
  | .stringLiteral _ => rfl
  | .booleanLiteral _ => rfl
  | .nilLiteral => rfl
  | .varargLiteral _ => rfl
  | .unaryExpression operator argument =>
      leftCalls_unary r operator argument (leftCalls_exprSites r argument)
  | .binaryExpression operator left right =>
      leftCalls_binary r operator left right (leftCalls_exprSites r left)
        (leftCalls_exprSites r right)
  | .logicalExpression operator left right =>
      leftCalls_logical r operator left right (leftCalls_exprSites r left)
        (leftCalls_exprSites r right)
  | .callExpression base args inParens => by
      have hplain : tryEvaluate (foldInPlace (.callExpression base args inParens)) = none := rfl
      rw [exprSites, leftCalls_plain hplain, enter_plain r hplain]
      simp [leftCalls_exprSites r base, leftCalls_exprsSites r args, foldInPlace, fold, callOf,
        exprNodes, calls_expr, calls_append]
  | .methodCallExpression base method args inParens => by
      have hplain : tryEvaluate (foldInPlace (.methodCallExpression base method args inParens)) =
        none := rfl
      rw [exprSites, leftCalls_plain hplain, enter_plain r hplain]
      simp [leftCalls_exprSites r base, leftCalls_exprSites r method, leftCalls_exprsSites r args,
        foldInPlace, fold, callOf, exprNodes, calls_expr, calls_append]
  | .memberExpression base property => by
      have hplain : tryEvaluate (foldInPlace (.memberExpression base property)) = none := rfl
      rw [exprSites, leftCalls_plain hplain, enter_plain r hplain]
      simp [leftCalls_exprSites r base, leftCalls_exprSites r property, foldInPlace, fold, callOf,
        exprNodes, calls_expr, calls_append]
  | .indexExpression base index => by
      have hplain : tryEvaluate (foldInPlace (.indexExpression base index)) = none := rfl
      rw [exprSites, leftCalls_plain hplain, enter_plain r hplain]
      simp [leftCalls_exprSites r base, leftCalls_exprSites r index, foldInPlace, fold, callOf,
        exprNodes, calls_expr, calls_append]
  | .functionExpression params isVararg body => by
      have hplain : tryEvaluate (foldInPlace (.functionExpression params isVararg body)) = none :=
        rfl
      rw [exprSites, leftCalls_plain hplain, enter_plain r hplain]
      simp [leftCalls_exprsSites r params, leftCalls_blockSites r body, foldInPlace, fold, callOf,
        exprNodes, calls_expr, calls_append]
  | .tableConstructor fields => by
      have hplain : tryEvaluate (foldInPlace (.tableConstructor fields)) = none := rfl
      rw [exprSites, leftCalls_plain hplain, enter_plain r hplain]
      simp [leftCalls_fieldsSites r fields, foldInPlace, fold, callOf, exprNodes, calls_expr]

theorem leftCalls_exprsSites (r : Reads) : ∀ (es : List (Expr N)) (k : ℕ),
    leftCalls (exprsSites r.enter (fun _ => some .folded) k es) = calls (exprsNodes (foldList es))
  | [], _ => rfl
  | e::es, _ => by
      simp [exprsSites, exprsNodes, foldList, leftCalls_exprSites r e, leftCalls_exprsSites r es,
        calls_append]

theorem leftCalls_fieldsSites (r : Reads) : ∀ (fs : List (TableField N)) (k : ℕ),
    leftCalls (fieldsSites r.enter (fun _ => some .folded) k fs) =
      calls (fieldsNodes (foldFields fs))
  | [], _ => rfl
  | .tableKey key value :: fs, _ => by
      simp [fieldsSites, fieldsNodes, foldFields, leftCalls_exprSites r key,
        leftCalls_exprSites r value, leftCalls_fieldsSites r fs, calls_append]
  | .tableKeyString key value :: fs, _ => by
      simp [fieldsSites, fieldsNodes, foldFields, leftCalls_exprSites r key,
        leftCalls_exprSites r value, leftCalls_fieldsSites r fs, calls_append]
  | .tableValue value :: fs, _ => by
      simp [fieldsSites, fieldsNodes, foldFields, leftCalls_exprSites r value,
        leftCalls_fieldsSites r fs, calls_append]

theorem leftCalls_stmtSites (r : Reads) : ∀ s : Stmt N,
    leftCalls (stmtSites r.enter (some .folded) s) = calls (stmtNodes (foldStmt s))
  | .localStatement vars init => by
      simp [stmtSites, stmtNodes, foldStmt, enter_stmt, leftCalls_exprsSites r vars,
        leftCalls_exprsSites r init, calls_append]
  | .assignmentStatement vars init => by
      simp [stmtSites, stmtNodes, foldStmt, enter_stmt, leftCalls_exprsSites r vars,
        leftCalls_exprsSites r init, calls_append]
  | .localFunctionStatement identifier params _ body => by
      simp [stmtSites, stmtNodes, foldStmt, enter_stmt, leftCalls_exprSites r identifier,
        leftCalls_exprsSites r params, leftCalls_blockSites r body, calls_append]
  | .functionDeclaration name params _ body _ => by
      simp [stmtSites, stmtNodes, foldStmt, enter_stmt, leftCalls_exprSites r name,
        leftCalls_exprsSites r params, leftCalls_blockSites r body, calls_append]
  | .callStatement expression => by
      simp [stmtSites, stmtNodes, foldStmt, enter_stmt, leftCalls_exprSites r expression]
  | .ifStatement clauses none => by
      simp [stmtSites, stmtNodes, foldStmt, enter_stmt, leftCalls_clausesSites r clauses]
  | .ifStatement clauses (some body) => by
      simp [stmtSites, stmtNodes, foldStmt, enter_stmt, leftCalls_clausesSites r clauses,
        leftCalls_blockSites r body, calls_append]
  | .whileStatement condition body => by
      simp [stmtSites, stmtNodes, foldStmt, enter_stmt, leftCalls_exprSites r condition,
        leftCalls_blockSites r body, calls_append]
  | .repeatStatement condition body => by
      simp [stmtSites, stmtNodes, foldStmt, enter_stmt, leftCalls_exprSites r condition,
        leftCalls_blockSites r body, calls_append]
  | .numericForStatement variableName start stop none body => by
      simp [stmtSites, stmtNodes, foldStmt, enter_stmt, leftCalls_exprSites r variableName,
        leftCalls_exprSites r start, leftCalls_exprSites r stop, leftCalls_blockSites r body,
        calls_append]
  | .numericForStatement variableName start stop (some step) body => by
      simp [stmtSites, stmtNodes, foldStmt, enter_stmt, leftCalls_exprSites r variableName,
        leftCalls_exprSites r start, leftCalls_exprSites r stop, leftCalls_exprSites r step,
        leftCalls_blockSites r body, calls_append]
  | .genericForStatement vars iterators body => by
      simp [stmtSites, stmtNodes, foldStmt, enter_stmt, leftCalls_exprsSites r vars,
        leftCalls_exprsSites r iterators, leftCalls_blockSites r body, calls_append]
  | .doStatement body => by
      simp [stmtSites, stmtNodes, foldStmt, enter_stmt, leftCalls_blockSites r body]
  | .returnStatement args => by
      simp [stmtSites, stmtNodes, foldStmt, enter_stmt, leftCalls_exprsSites r args]
  | .breakStatement => rfl
  | .continueStatement => rfl
  | .emptyStatement => rfl

theorem leftCalls_blockSites (r : Reads) : ∀ (ss : List (Stmt N)) (k : ℕ),
    leftCalls (blockSites r.enter (fun _ => some .folded) k ss) = calls (blockNodes (foldBlock ss))
  | [], _ => rfl
  | s::ss, _ => by
      simp [blockSites, blockNodes, foldBlock, leftCalls_stmtSites r s, leftCalls_blockSites r ss,
        calls_append]

theorem leftCalls_clausesSites (r : Reads) : ∀ (cs : List (IfClause N)) (k : ℕ),
    leftCalls (clausesSites r.enter (fun _ => some .folded) k cs) =
      calls (clausesNodes (foldClauses cs))
  | [], _ => rfl
  | .mk condition body :: cs, _ => by
      simp [clausesSites, clausesNodes, foldClauses, leftCalls_exprSites r condition,
        leftCalls_blockSites r body, leftCalls_clausesSites r cs, calls_append]

end

theorem enter_inPlace (r : Reads) (n : Node N) :
    r.enter (some .inPlace) n = fun _ => some .folded := by
  funext i
  simp [Reads.enter, Touch.read, Touch.below]

theorem leftCalls_inPlaceNode (e : Expr N) (l : List (Site (Option Touch) N)) :
    leftCalls ((some .inPlace, .expr e) :: l) =
      (callOf (.expr (foldInPlace e))).toList ++ leftCalls l := by
  simp [leftCalls, leftNodes, Touch.form, calls_expr]

/-- What is left of an expression that was given to the evaluator, and kept: the calls of the
expression folded in place. -/
theorem leftCalls_read (r : Reads) (e : Expr N) :
    leftCalls (exprSites r.enter (some .inPlace) e) = calls (exprNodes (foldInPlace e)) := by
  have hsame : tryEvaluate (foldInPlace e) = none → foldInPlace e = fold e →
      exprSites r.enter (some .inPlace) e = (some .inPlace, .expr e) ::
        (exprSites r.enter (some .folded) e).tail →
      exprSites r.enter (some .folded) e = (some .folded, .expr e) ::
        (exprSites r.enter (some .folded) e).tail →
      leftCalls (exprSites r.enter (some .inPlace) e) = calls (exprNodes (foldInPlace e)) := by
    intro hplain hform hread hfolded
    rw [hform, ← leftCalls_exprSites r e, hread, hfolded, leftCalls_inPlaceNode,
      leftCalls_plain hplain]
    rfl
  cases e with
  | unaryExpression operator argument =>
    rw [exprSites, leftCalls_inPlaceNode, enter_inPlace]
    simp [foldInPlace, callOf, exprNodes, calls_expr, leftCalls_exprSites r argument]
  | binaryExpression operator left right =>
    rw [exprSites, leftCalls_inPlaceNode, enter_inPlace]
    simp [foldInPlace, callOf, exprNodes, calls_expr, calls_append, leftCalls_exprSites r left,
      leftCalls_exprSites r right]
  | logicalExpression operator left right =>
    rw [exprSites, leftCalls_inPlaceNode, enter_inPlace]
    simp [foldInPlace, callOf, exprNodes, calls_expr, calls_append, leftCalls_exprSites r left,
      leftCalls_exprSites r right]
  | callExpression base args inParens =>
    refine hsame rfl rfl ?_ rfl
    rw [exprSites, exprSites, enter_inPlace, enter_plain r rfl]
    rfl
  | methodCallExpression base method args inParens =>
    refine hsame rfl rfl ?_ rfl
    rw [exprSites, exprSites, enter_inPlace, enter_plain r rfl]
    rfl
  | memberExpression base property =>
    refine hsame rfl rfl ?_ rfl
    rw [exprSites, exprSites, enter_inPlace, enter_plain r rfl]
    rfl
  | indexExpression base index =>
    refine hsame rfl rfl ?_ rfl
    rw [exprSites, exprSites, enter_inPlace, enter_plain r rfl]
    rfl
  | functionExpression params isVararg body =>
    refine hsame rfl rfl ?_ rfl
    rw [exprSites, exprSites, enter_inPlace, enter_plain r rfl]
    rfl
  | tableConstructor fields =>
    refine hsame rfl rfl ?_ rfl
    rw [exprSites, exprSites, enter_inPlace, enter_plain r rfl]
    rfl
  | identifier name => exact hsame rfl rfl rfl rfl
  | numericLiteral value raw => exact hsame rfl rfl rfl rfl
  | stringLiteral value => exact hsame rfl rfl rfl rfl
  | booleanLiteral value => exact hsame rfl rfl rfl rfl
  | nilLiteral => exact hsame rfl rfl rfl rfl
  | varargLiteral inParens => exact hsame rfl rfl rfl rfl

/-- An analysis that gives nothing to the evaluator leaves the chunk as it is. -/
theorem leftNodes_unread {r : Reads} (harguments : ∀ name, r.arguments name = 0)
    (hrightSide : ∀ name, r.rightSide name = false) (chunk : Chunk N) :
    leftNodes (r.sites chunk) = chunk.nodes := by
  have hunread : ∀ (n : Node N) (i : ℕ), r.reads n i = false := by
    intro n i
    unfold Reads.reads
    split
    · simp only [harguments, decide_eq_false_iff_not]
      omega
    · simp [hrightSide]
    · rfl
  have henter : ∀ (c : Option Touch) (n : Node N) (i : ℕ), c = some .untouched →
      r.enter c n i = some .untouched := by
    rintro c n i rfl
    rw [Reads.enter, hunread, if_neg (by simp)]
    · rfl
    · nofun
  have huntouched : ∀ s ∈ r.sites chunk, s.1 = some .untouched :=
    inherits_blockSites henter chunk.body (fun _ => rfl) 0
  have hform : ∀ s ∈ r.sites chunk, (s.1.bind fun touch => touch.form s.2) = some s.2 := by
    intro s hs
    rw [huntouched s hs]
    rfl
  rw [leftNodes, List.filterMap_congr hform, List.filterMap_eq_map', Reads.sites, Chunk.map_sites]

end Folded

end LuaRecovery.Analysis
