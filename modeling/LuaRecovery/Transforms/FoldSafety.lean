import LuaRecovery.Transforms.Rewriting

/-!
# Where folding is safe

What an expression amounts to is read off the program as it stands: a constant,
a table or function constructor, a variable, or some value of a run. Folding
goes wrong in three ways only. It drops a table constructor whose fields have
effects, where `not`, `and` or `or` asks for its truth; it lets a call or `...`
out of an `and` or `or`, where the number of values counts; and it turns a
target that Lua cannot assign into one that it can.
-/

set_option autoImplicit false

namespace LuaRecovery.Transforms
open LuaRecovery.Lib LuaRecovery.Lua LuaRecovery.Evaluator

inductive Shape (N : Type) : Type where
  | constant (value : Value N)
  | table
  | function
  | place
  | several
  | single

namespace Shape
variable {N : Type}

/-- Whether a condition of this shape holds, where it is known. -/
def truth : Shape N → Option Bool
  | .constant value => some value.truthy
  | .table => some true
  | .function => some true
  | _ => none

def isTable : Shape N → Bool
  | .table => true
  | _ => false

def isConstant : Shape N → Bool
  | .constant _ => true
  | _ => false

def isPlace : Shape N → Bool
  | .place => true
  | _ => false

def isSeveral : Shape N → Bool
  | .several => true
  | _ => false

end Shape

section Shapes
variable {N : Type} [LuaNumber N]

def literalOf : Value N → Option (Expr N)
  | .number value => some (numericResult value)
  | .string value => some (.stringLiteral value)
  | .boolean value => some (.booleanLiteral value)
  | .nil => some .nilLiteral
  | _ => none

omit [LuaNumber N] in
/-- The shape of a node taken as it stands. -/
def outward : Expr N → Shape N
  | .numericLiteral value _ => .constant (.number value)
  | .stringLiteral value => .constant (.string value)
  | .booleanLiteral value => .constant (.boolean value)
  | .nilLiteral => .constant .nil
  | .tableConstructor _ => .table
  | .functionExpression _ _ _ => .function
  | .identifier _ => .place
  | .memberExpression _ _ => .place
  | .indexExpression _ _ => .place
  | .varargLiteral inParens => if inParens then .single else .several
  | .callExpression _ _ inParens => if inParens then .single else .several
  | .methodCallExpression _ _ _ inParens => if inParens then .single else .several
  | .unaryExpression _ _ => .single
  | .binaryExpression _ _ _ => .single
  | .logicalExpression _ _ _ => .single

def unaryShape : UnaryOperator → Shape N → Option (Shape N)
  | .minus, .constant (.number value) => some (.constant (.number (LuaNumber.neg value)))
  | .not, .constant value => some (.constant (.boolean (!value.truthy)))
  | .not, .table => some (.constant (.boolean false))
  | .length, .constant (.string value) =>
      some (.constant (.number (LuaNumber.ofNat value.length)))
  | _, _ => none

/-- Two constants, by the rules for two literals. -/
def binaryShape (op : BinaryOperator) : Shape N → Shape N → Option (Shape N)
  | .constant v, .constant w => match literalOf v, literalOf w with
      | some a, some b => (evalBinary op a b).map outward
      | _, _ => none
  | _, _ => none

/-- What an expression amounts to before the program runs. -/
def shape : Expr N → Shape N
  | .unaryExpression op a => (unaryShape op (shape a)).getD .single
  | .binaryExpression op l r => (binaryShape op (shape l) (shape r)).getD .single
  | .logicalExpression op l r => match (shape l).truth with
      | some b => if b = stopsAt op then shape l else shape r
      | none => .single
  | e => outward e

/-- A call or `...` that an `and` or `or` comes down to. -/
def spills (e : Expr N) : Bool := !e.isMulti && (shape e).isSeveral

def validKeyShape : Shape N → Bool
  | .constant value => validKey value
  | _ => false

mutual

/-- What is left of the expression once constants are folded has no effect. -/
def quiet (test : Bool) : Expr N → Bool
  | .identifier _ => true
  | .numericLiteral _ _ => true
  | .stringLiteral _ => true
  | .booleanLiteral _ => true
  | .nilLiteral => true
  | .varargLiteral _ => true
  | .unaryExpression op a => (unaryShape op (shape a)).isSome || (op = .not && quiet true a)
  | .binaryExpression op l r => (binaryShape op (shape l) (shape r)).isSome ||
      ((op = .eq || op = .ne) && quiet false l && quiet false r &&
        ((shape l).isConstant || (shape r).isConstant))
  | .logicalExpression op l r => match (shape l).truth with
      | some b => if b = stopsAt op then quiet test l else quiet test r
      | none => quiet (op = .and || test) l && quiet test r
  | .functionExpression _ _ _ => test
  | .tableConstructor fields => test && quietFields fields
  | .callExpression _ _ _ => false
  | .methodCallExpression _ _ _ _ => false
  | .memberExpression _ _ => false
  | .indexExpression _ _ => false

def quietFields : List (TableField N) → Bool
  | [] => true
  | .tableKey key value :: fs => validKeyShape (shape key) && quiet true value && quietFields fs
  | .tableKeyString key value :: fs => key.name?.isSome && quiet true value && quietFields fs
  | .tableValue value :: fs => quiet true value && quietFields fs

end

/-- A condition whose value folding drops: no table constructor with effects. -/
def droppable (e : Expr N) : Bool := !(shape e).isTable || quiet true e

end Shapes

section Safety
variable {N : Type} [LuaNumber N]

mutual

def foldSafe : Expr N → Bool
  | .identifier _ => true
  | .numericLiteral _ _ => true
  | .stringLiteral _ => true
  | .booleanLiteral _ => true
  | .nilLiteral => true
  | .varargLiteral _ => true
  | .unaryExpression op a => foldSafe a && (op ≠ .not || droppable a)
  | .binaryExpression _ l r => foldSafe l && foldSafe r
  | .logicalExpression op l r => foldSafe l && match (shape l).truth with
      | some b => b = stopsAt op || (droppable l && foldSafe r)
      | none => foldSafe r
  | .callExpression base args _ => foldSafe base && safeList true args
  | .methodCallExpression base _ args _ => foldSafe base && safeList true args
  | .memberExpression base _ => foldSafe base
  | .indexExpression base index => foldSafe base && foldSafe index
  | .functionExpression _ _ body => safeBlock body
  | .tableConstructor fields => safeFields fields

/-- With `multi`, all values of the last expression count. -/
def safeList (multi : Bool) : List (Expr N) → Bool
  | [] => true
  | [e] => foldSafe e && !(multi && spills e)
  | e::f::es => foldSafe e && safeList multi (f::es)

def safeFields : List (TableField N) → Bool
  | [] => true
  | [.tableValue e] => foldSafe e && !spills e
  | .tableValue e :: f :: fs => foldSafe e && safeFields (f::fs)
  | .tableKey key value :: fs => foldSafe key && foldSafe value && safeFields fs
  | .tableKeyString _ value :: fs => foldSafe value && safeFields fs

def safeTargets : List (Expr N) → Bool
  | [] => true
  | e::es => foldSafe e && (isLvalue e || !(shape e).isPlace) && safeTargets es

def safeStmt : Stmt N → Bool
  | .localStatement vars init => safeList (init.length < vars.length) init
  | .assignmentStatement vars init => safeTargets vars && safeList (init.length < vars.length) init
  | .localFunctionStatement _ _ _ body => safeBlock body
  | .functionDeclaration _ _ _ body _ => safeBlock body
  | .callStatement expression => foldSafe expression
  | .ifStatement clauses elseBody => safeClauses clauses && match elseBody with
      | none => true
      | some body => safeBlock body
  | .whileStatement condition body => foldSafe condition && safeBlock body
  | .repeatStatement condition body => foldSafe condition && safeBlock body
  | .numericForStatement _ start stop step body =>
      foldSafe start && foldSafe stop && safeBlock body && match step with
        | none => true
        | some e => foldSafe e
  | .genericForStatement _ iterators body =>
      safeList (iterators.length < 3) iterators && safeBlock body
  | .doStatement body => safeBlock body
  | .returnStatement args => safeList true args
  | .breakStatement => true
  | .continueStatement => true
  | .emptyStatement => true

def safeBlock : List (Stmt N) → Bool
  | [] => true
  | s::ss => safeStmt s && safeBlock ss

def safeClauses : List (IfClause N) → Bool
  | [] => true
  | .mk condition body :: cs => foldSafe condition && safeBlock body && safeClauses cs

end

end Safety

section Parsed
variable {N : Type}

def isName (e : Expr N) : Bool := e.name?.isSome

mutual

/-- The parser's trees: names where the grammar has names. -/
def parsed : Expr N → Bool
  | .identifier _ => true
  | .numericLiteral _ _ => true
  | .stringLiteral _ => true
  | .booleanLiteral _ => true
  | .nilLiteral => true
  | .varargLiteral _ => true
  | .unaryExpression _ a => parsed a
  | .binaryExpression _ l r => parsed l && parsed r
  | .logicalExpression _ l r => parsed l && parsed r
  | .callExpression base args _ => parsed base && parsedList args
  | .methodCallExpression base method args _ => parsed base && isName method && parsedList args
  | .memberExpression base property => parsed base && isName property
  | .indexExpression base index => parsed base && parsed index
  | .functionExpression params _ body => params.all isName && parsedBlock body
  | .tableConstructor fields => parsedFields fields

def parsedList : List (Expr N) → Bool
  | [] => true
  | e::es => parsed e && parsedList es

def parsedFields : List (TableField N) → Bool
  | [] => true
  | .tableValue e :: fs => parsed e && parsedFields fs
  | .tableKey key value :: fs => parsed key && parsed value && parsedFields fs
  | .tableKeyString key value :: fs => isName key && parsed value && parsedFields fs

def parsedStmt : Stmt N → Bool
  | .localStatement vars init => vars.all isName && parsedList init
  | .assignmentStatement vars init => parsedList vars && parsedList init
  | .localFunctionStatement identifier params _ body =>
      isName identifier && params.all isName && parsedBlock body
  | .functionDeclaration name params _ body _ =>
      (functionName name).isSome && params.all isName && parsedBlock body
  | .callStatement expression => parsed expression
  | .ifStatement clauses elseBody => parsedClauses clauses && match elseBody with
      | none => true
      | some body => parsedBlock body
  | .whileStatement condition body => parsed condition && parsedBlock body
  | .repeatStatement condition body => parsed condition && parsedBlock body
  | .numericForStatement variableName start stop step body =>
      isName variableName && parsed start && parsed stop && parsedBlock body && match step with
        | none => true
        | some e => parsed e
  | .genericForStatement vars iterators body =>
      vars.all isName && parsedList iterators && parsedBlock body
  | .doStatement body => parsedBlock body
  | .returnStatement args => parsedList args
  | .breakStatement => true
  | .continueStatement => true
  | .emptyStatement => true

def parsedBlock : List (Stmt N) → Bool
  | [] => true
  | s::ss => parsedStmt s && parsedBlock ss

def parsedClauses : List (IfClause N) → Bool
  | [] => true
  | .mk condition body :: cs => parsed condition && parsedBlock body && parsedClauses cs

end

end Parsed

section ShapeLemmas
variable {N : Type} [LuaNumber N]

omit [LuaNumber N] in
theorem isStaticallyTruthy_eq (e : Expr N) : isStaticallyTruthy e = (outward e).truth := by
  cases e with
  | varargLiteral inParens => cases inParens <;> rfl
  | callExpression base args inParens => cases inParens <;> rfl
  | methodCallExpression base method args inParens => cases inParens <;> rfl
  | _ => rfl

omit [LuaNumber N] in
theorem isMulti_eq (e : Expr N) : e.isMulti = (outward e).isSeveral := by
  cases e with
  | varargLiteral inParens => cases inParens <;> rfl
  | callExpression base args inParens => cases inParens <;> rfl
  | methodCallExpression base method args inParens => cases inParens <;> rfl
  | _ => rfl

omit [LuaNumber N] in
theorem isLvalue_eq (e : Expr N) : isLvalue e = (outward e).isPlace := by
  cases e with
  | varargLiteral inParens => cases inParens <;> rfl
  | callExpression base args inParens => cases inParens <;> rfl
  | methodCallExpression base method args inParens => cases inParens <;> rfl
  | _ => rfl

omit [LuaNumber N] in
theorem literalValue_eq {e : Expr N} {v : Value N} :
    literalValue e = some v ↔ outward e = .constant v := by
  cases e with
  | varargLiteral inParens => cases inParens <;> simp [literalValue, outward]
  | callExpression base args inParens => cases inParens <;> simp [literalValue, outward]
  | methodCallExpression base method args inParens => cases inParens <;> simp [literalValue, outward]
  | _ => simp [literalValue, outward]

omit [LuaNumber N] in
theorem literalValue_isSome (e : Expr N) :
    (literalValue e).isSome = (outward e).isConstant := by
  cases e with
  | varargLiteral inParens => cases inParens <;> rfl
  | callExpression base args inParens => cases inParens <;> rfl
  | methodCallExpression base method args inParens => cases inParens <;> rfl
  | _ => rfl

theorem evalUnary_outward (op : UnaryOperator) (a : Expr N) :
    (evalUnary op a).map outward = unaryShape op (outward a) := by
  cases a with
  | varargLiteral inParens => cases op <;> cases inParens <;> rfl
  | callExpression base args inParens => cases op <;> cases inParens <;> rfl
  | methodCallExpression base method args inParens => cases op <;> cases inParens <;> rfl
  | _ => cases op <;> rfl

theorem evalBinary_left {op : BinaryOperator} {l : Expr N} (r : Expr N)
    (hl : literalValue l = none) : evalBinary op l r = none := by
  cases l <;> cases op <;> first | rfl | cases hl

theorem evalBinary_right {op : BinaryOperator} (l : Expr N) {r : Expr N}
    (hr : literalValue r = none) : evalBinary op l r = none := by
  cases l <;> first
    | exact evalBinary_left r rfl
    | (cases r <;> cases op <;> first | rfl | cases hr)

theorem binaryShape_left (op : BinaryOperator) {s : Shape N} (t : Shape N)
    (hs : s.isConstant = false) : binaryShape op s t = none := by
  cases s with
  | constant v => cases hs
  | _ => rfl

theorem binaryShape_right (op : BinaryOperator) (s : Shape N) {t : Shape N}
    (ht : t.isConstant = false) : binaryShape op s t = none := by
  cases s with
  | constant v => cases t with
    | constant w => cases ht
    | _ => rfl
  | _ => rfl

theorem evalBinary_outward (op : BinaryOperator) (l r : Expr N) :
    (evalBinary op l r).map outward = binaryShape op (outward l) (outward r) := by
  cases hl : literalValue l with
  | none =>
    have hconstant : (outward l).isConstant = false := by rw [← literalValue_isSome, hl]; rfl
    rw [evalBinary_left r hl, binaryShape_left op _ hconstant]
    rfl
  | some v => cases hr : literalValue r with
    | none =>
      have hconstant : (outward r).isConstant = false := by rw [← literalValue_isSome, hr]; rfl
      rw [evalBinary_right l hr, binaryShape_right op _ hconstant]
      rfl
    | some w => cases l <;> cases hl <;> cases r <;> cases hr <;> rfl

theorem outward_reduce_unary (op : UnaryOperator) (a : Expr N) :
    outward (reduce (.unaryExpression op a)) = (unaryShape op (outward a)).getD .single := by
  rw [reduce_unary, ← evalUnary_outward]
  cases evalUnary op a <;> rfl

theorem outward_reduce_binary (op : BinaryOperator) (l r : Expr N) :
    outward (reduce (.binaryExpression op l r)) =
      (binaryShape op (outward l) (outward r)).getD .single := by
  rw [reduce_binary, ← evalBinary_outward]
  cases evalBinary op l r <;> rfl

omit [LuaNumber N] in
theorem evalLogical_stop {op : LogicalOperator} {l : Expr N} (r : Expr N)
    (h : isStaticallyTruthy l = some (stopsAt op)) : evalLogical op l r = some l := by
  cases op with
  | and => rw [evalLogical_and h]; rfl
  | or => rw [evalLogical_or h]; rfl

omit [LuaNumber N] in
theorem evalLogical_go {op : LogicalOperator} {l : Expr N} (r : Expr N)
    (h : isStaticallyTruthy l = some (!stopsAt op)) : evalLogical op l r = some r := by
  cases op with
  | and => rw [evalLogical_and h]; rfl
  | or => rw [evalLogical_or h]; rfl

/-- Folding brings an expression into the shape that was foreseen. -/
theorem outward_fold : ∀ e : Expr N, outward (fold e) = shape e
  | .identifier _ => rfl
  | .numericLiteral _ _ => rfl
  | .stringLiteral _ => rfl
  | .booleanLiteral _ => rfl
  | .nilLiteral => rfl
  | .varargLiteral _ => rfl
  | .callExpression _ _ _ => rfl
  | .methodCallExpression _ _ _ _ => rfl
  | .memberExpression _ _ => rfl
  | .indexExpression _ _ => rfl
  | .functionExpression _ _ _ => rfl
  | .tableConstructor _ => rfl
  | .unaryExpression op a => by
      rw [fold, outward_reduce_unary, outward_fold a]
      rfl
  | .binaryExpression op l r => by
      rw [fold, outward_reduce_binary, outward_fold l, outward_fold r]
      rfl
  | .logicalExpression op l r => by
      have htruth := isStaticallyTruthy_eq (fold l)
      rw [outward_fold l] at htruth
      rw [fold, reduce_logical, shape]
      cases hl : (shape l).truth with
      | none =>
        rw [evalLogical_none (htruth.trans hl)]
        rfl
      | some b =>
        by_cases hb : b = stopsAt op
        · subst hb
          rw [evalLogical_stop _ (htruth.trans hl)]
          exact (outward_fold l).trans (if_pos rfl).symm
        · have hgo : b = !stopsAt op := Bool.eq_not_of_ne hb
          subst hgo
          rw [evalLogical_go _ (htruth.trans hl)]
          exact (outward_fold r).trans (if_neg hb).symm

theorem fold_truth (e : Expr N) : isStaticallyTruthy (fold e) = (shape e).truth := by
  rw [isStaticallyTruthy_eq, outward_fold]

theorem exposes_fold (e : Expr N) : Exposes e (fold e) ↔ spills e = true := by
  rw [Exposes, spills, isMulti_eq (fold e), outward_fold, Bool.and_eq_true, Bool.not_eq_true']
  exact And.comm

theorem isLvalue_fold (e : Expr N) : isLvalue (fold e) = (shape e).isPlace := by
  rw [isLvalue_eq, outward_fold]

theorem literalValue_fold_isSome (e : Expr N) :
    (literalValue (fold e)).isSome = (shape e).isConstant := by
  rw [literalValue_isSome, outward_fold]

theorem validLiteralKey_fold (e : Expr N) :
    validLiteralKey (fold e) = validKeyShape (shape e) := by
  rw [validLiteralKey, ← outward_fold e]
  cases h : literalValue (fold e) with
  | some v => rw [literalValue_eq.mp h]; rfl
  | none =>
    cases hs : outward (fold e) with
    | constant v => rw [literalValue_eq.mpr hs] at h; cases h
    | _ => rfl

end ShapeLemmas

section Quiet
variable {N : Type} [LuaNumber N]

theorem inert_literal (test : Bool) {e : Expr N} (h : (outward e).isConstant = true) :
    inert test e = true := by
  rw [← literalValue_isSome] at h
  cases e <;> first | rfl | cases h

theorem unaryShape_isConstant {op : UnaryOperator} {s t : Shape N}
    (h : unaryShape op s = some t) : t.isConstant = true := by
  unfold unaryShape at h
  split at h <;> cases h <;> rfl

theorem evalUnary_isConstant {op : UnaryOperator} {a e : Expr N} (he : evalUnary op a = some e) :
    (outward e).isConstant = true := by
  have hshape : unaryShape op (outward a) = some (outward e) := by
    rw [← evalUnary_outward, he]
    rfl
  exact unaryShape_isConstant hshape

theorem evalBinary_isConstant {op : BinaryOperator} {l r e : Expr N}
    (he : evalBinary op l r = some e) : (outward e).isConstant = true := by
  let m : Machine N := ⟨fun _ heap => .values heap [], fun _ _ => malformed, 0⟩
  obtain ⟨_, _, u, _, _, hu, _⟩ := evalBinary_value m he
  rw [literalValue_eq.mp hu]
  rfl

mutual

theorem inert_fold : ∀ (e : Expr N) (test : Bool), quiet test e = true → inert test (fold e) = true
  | .identifier _, _, _ => rfl
  | .numericLiteral _ _, _, _ => rfl
  | .stringLiteral _, _, _ => rfl
  | .booleanLiteral _, _, _ => rfl
  | .nilLiteral, _, _ => rfl
  | .varargLiteral _, _, _ => rfl
  | .functionExpression _ _ _, _, h => h
  | .tableConstructor fields, test, h => by
      rw [quiet, Bool.and_eq_true] at h
      rw [fold, inert, Bool.and_eq_true]
      exact ⟨h.1, inert_foldFields fields h.2⟩
  | .unaryExpression op a, test, h => by
      rw [fold, reduce_unary]
      cases he : evalUnary op (fold a) with
      | some e => exact inert_literal test (evalUnary_isConstant he)
      | none =>
        have hshape := evalUnary_outward op (fold a)
        rw [he, outward_fold] at hshape
        rw [quiet, ← hshape] at h
        simp only [Option.map_none, Option.isSome_none, Bool.false_or, Bool.and_eq_true,
          decide_eq_true_eq] at h
        obtain ⟨rfl, ha⟩ := h
        exact inert_fold a true ha
  | .binaryExpression op l r, test, h => by
      rw [fold, reduce_binary]
      cases he : evalBinary op (fold l) (fold r) with
      | some e => exact inert_literal test (evalBinary_isConstant he)
      | none =>
        have hshape := evalBinary_outward op (fold l) (fold r)
        rw [he, outward_fold, outward_fold] at hshape
        rw [quiet, ← hshape] at h
        simp only [Option.map_none, Option.isSome_none, Bool.false_or, Bool.and_eq_true] at h
        obtain ⟨⟨⟨hop, hl⟩, hr⟩, hconstant⟩ := h
        show inert test (.binaryExpression op (fold l) (fold r)) = true
        simp only [inert, Bool.and_eq_true]
        refine ⟨⟨⟨hop, inert_fold l false hl⟩, inert_fold r false hr⟩, ?_⟩
        rw [literalValue_fold_isSome, literalValue_fold_isSome]
        exact hconstant
  | .logicalExpression op l r, test, h => by
      rw [fold, reduce_logical]
      rw [quiet] at h
      cases hl : (shape l).truth with
      | none =>
        rw [evalLogical_none ((fold_truth l).trans hl)]
        rw [hl, Bool.and_eq_true] at h
        show inert test (.logicalExpression op (fold l) (fold r)) = true
        have hleft := inert_fold l _ h.1
        have hright := inert_fold r _ h.2
        cases op with
        | and =>
          rw [inert, Bool.and_eq_true]
          exact ⟨hleft, hright⟩
        | or =>
          rw [inert, Bool.and_eq_true]
          exact ⟨hleft, hright⟩
      | some b =>
        have hside : (if b = stopsAt op then quiet test l else quiet test r) = true := by
          rw [hl] at h
          exact h
        by_cases hb : b = stopsAt op
        · rw [if_pos hb] at hside
          subst hb
          rw [evalLogical_stop _ ((fold_truth l).trans hl)]
          exact inert_fold l test hside
        · rw [if_neg hb] at hside
          have hgo : b = !stopsAt op := Bool.eq_not_of_ne hb
          subst hgo
          rw [evalLogical_go _ ((fold_truth l).trans hl)]
          exact inert_fold r test hside

theorem inert_foldFields : ∀ fields : List (TableField N), quietFields fields = true →
    inertFields (foldFields fields) = true
  | [], _ => rfl
  | .tableKey key value :: fs, h => by
      simp only [quietFields, Bool.and_eq_true] at h
      simp only [foldFields, inertFields, Bool.and_eq_true]
      exact ⟨⟨(validLiteralKey_fold key).trans h.1.1, inert_fold value true h.1.2⟩,
        inert_foldFields fs h.2⟩
  | .tableKeyString key value :: fs, h => by
      simp only [quietFields, Bool.and_eq_true] at h
      simp only [foldFields, inertFields, Bool.and_eq_true]
      refine ⟨⟨?_, inert_fold value true h.1.2⟩, inert_foldFields fs h.2⟩
      cases key with
      | identifier name => rfl
      | _ => cases h.1.1
  | .tableValue value :: fs, h => by
      simp only [quietFields, Bool.and_eq_true] at h
      simp only [foldFields, inertFields, Bool.and_eq_true]
      exact ⟨inert_fold value true h.1, inert_foldFields fs h.2⟩

end

/-- What a `not`, `and` or `or` drops when it is decided is without effect. -/
theorem inert_of_droppable {e : Expr N} {b : Bool} (h : droppable e = true)
    (htruth : (shape e).truth = some b) : inert true (fold e) = true := by
  have hshape := outward_fold e
  cases hs : shape e with
  | constant v =>
    apply inert_literal
    rw [hshape, hs]
    rfl
  | function =>
    rw [hs] at hshape
    cases hfold : fold e with
    | functionExpression params isVararg body => rfl
    | varargLiteral inParens => rw [hfold] at hshape; cases inParens <;> cases hshape
    | callExpression base args inParens => rw [hfold] at hshape; cases inParens <;> cases hshape
    | methodCallExpression base method args inParens =>
      rw [hfold] at hshape
      cases inParens <;> cases hshape
    | _ => rw [hfold] at hshape; cases hshape
  | table =>
    rw [droppable, hs] at h
    exact inert_fold e true h
  | place => rw [hs] at htruth; cases htruth
  | several => rw [hs] at htruth; cases htruth
  | single => rw [hs] at htruth; cases htruth

end Quiet
end LuaRecovery.Transforms
