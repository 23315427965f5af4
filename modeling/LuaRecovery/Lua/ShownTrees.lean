import LuaRecovery.Lua.GeneratedText

/-!
# Trees that their text shows

What is read back is the tree itself, but for the raw texts of its numbers, the
marks of calls in parentheses and its empty statements, where no number has a
sign, no string is spelled like another one, no method stands for a function
and no `else` is empty. Its text is then the same again.
-/

set_option autoImplicit false

namespace LuaRecovery.Lua
open LuaRecovery.Lib Lexer LuaGenerator Spelling Lua.Parser

section
variable {N : Type}

mutual

/-- The tree without what a round trip may change. -/
def Expr.plain : Expr N → Expr N
  | .identifier name => .identifier name
  | .numericLiteral value _ => .numericLiteral value ""
  | .stringLiteral value => .stringLiteral value
  | .booleanLiteral value => .booleanLiteral value
  | .nilLiteral => .nilLiteral
  | .varargLiteral inParens => .varargLiteral inParens
  | .unaryExpression operator argument => .unaryExpression operator argument.plain
  | .binaryExpression operator left right => .binaryExpression operator left.plain right.plain
  | .logicalExpression operator left right => .logicalExpression operator left.plain right.plain
  | .callExpression base args _ => .callExpression base.plain (exprsPlain args) false
  | .methodCallExpression base method args _ =>
      .methodCallExpression base.plain method (exprsPlain args) false
  | .memberExpression base property => .memberExpression base.plain property
  | .indexExpression base index => .indexExpression base.plain index.plain
  | .functionExpression params isVararg body => .functionExpression params isVararg (blockPlain body)
  | .tableConstructor fields => .tableConstructor (fieldsPlain fields)

def exprsPlain : List (Expr N) → List (Expr N)
  | [] => []
  | e::es => e.plain :: exprsPlain es

def fieldPlain : TableField N → TableField N
  | .tableKey key value => .tableKey key.plain value.plain
  | .tableKeyString key value => .tableKeyString key value.plain
  | .tableValue value => .tableValue value.plain

def fieldsPlain : List (TableField N) → List (TableField N)
  | [] => []
  | f::fs => fieldPlain f :: fieldsPlain fs

def Stmt.plain : Stmt N → Stmt N
  | .localStatement vars init => .localStatement vars (exprsPlain init)
  | .assignmentStatement vars init => .assignmentStatement (exprsPlain vars) (exprsPlain init)
  | .localFunctionStatement identifier params isVararg body =>
      .localFunctionStatement identifier params isVararg (blockPlain body)
  | .functionDeclaration name params isVararg body isMethod =>
      .functionDeclaration name params isVararg (blockPlain body) isMethod
  | .callStatement expression => .callStatement expression.plain
  | .ifStatement clauses elseBody =>
      .ifStatement (clausesPlain clauses) (match elseBody with
        | some body => some (blockPlain body)
        | none => none)
  | .whileStatement condition body => .whileStatement condition.plain (blockPlain body)
  | .repeatStatement condition body => .repeatStatement condition.plain (blockPlain body)
  | .numericForStatement variableName start stop step body =>
      .numericForStatement variableName start.plain stop.plain (match step with
        | some step => some step.plain
        | none => none) (blockPlain body)
  | .genericForStatement vars iterators body =>
      .genericForStatement vars (exprsPlain iterators) (blockPlain body)
  | .doStatement body => .doStatement (blockPlain body)
  | .returnStatement args => .returnStatement (exprsPlain args)
  | .breakStatement => .breakStatement
  | .continueStatement => .continueStatement
  | .emptyStatement => .emptyStatement

def blockPlain : List (Stmt N) → List (Stmt N)
  | [] => []
  | s::ss => if s.IsPrinted then s.plain :: blockPlain ss else blockPlain ss

def clausesPlain : List (IfClause N) → List (IfClause N)
  | [] => []
  | .mk condition body :: clauses => .mk condition.plain (blockPlain body) :: clausesPlain clauses

end

attribute [simp] Stmt.plain

end

section
variable {N : Type} [Numerals N]

mutual

def Expr.Shown : Expr N → Prop
  | .identifier _ => True
  | .numericLiteral value raw =>
      IsNumeral (numericText value raw).toList ∧
        Numerals.number (numericText value raw).toList = value
  | .stringLiteral value => ByteString.fromLuaLiteral (ByteString.toLuaLiteral value '"') = value
  | .booleanLiteral _ => True
  | .nilLiteral => True
  | .varargLiteral _ => True
  | .unaryExpression _ argument => argument.Shown
  | .binaryExpression _ left right => left.Shown ∧ right.Shown
  | .logicalExpression _ left right => left.Shown ∧ right.Shown
  | .callExpression base args _ => base.Shown ∧ exprsShown args
  | .methodCallExpression base _ args _ => base.Shown ∧ exprsShown args
  | .memberExpression base _ => base.Shown
  | .indexExpression base index => base.Shown ∧ index.Shown
  | .functionExpression _ _ body => blockShown body
  | .tableConstructor fields => fieldsShown fields

def exprsShown : List (Expr N) → Prop
  | [] => True
  | e::es => e.Shown ∧ exprsShown es

def fieldsShown : List (TableField N) → Prop
  | [] => True
  | .tableKey key value :: fs => key.Shown ∧ value.Shown ∧ fieldsShown fs
  | .tableKeyString _ value :: fs => value.Shown ∧ fieldsShown fs
  | .tableValue value :: fs => value.Shown ∧ fieldsShown fs

def Stmt.Shown : Stmt N → Prop
  | .localStatement _ init => exprsShown init
  | .assignmentStatement vars init => exprsShown vars ∧ exprsShown init
  | .localFunctionStatement _ _ _ body => blockShown body
  | .functionDeclaration _ _ _ body isMethod => isMethod = false ∧ blockShown body
  | .callStatement expression => expression.Shown
  | .ifStatement clauses elseBody => clausesShown clauses ∧ (match elseBody with
      | none => True
      | some body => body.any Stmt.IsPrinted = true ∧ blockShown body)
  | .whileStatement condition body => condition.Shown ∧ blockShown body
  | .repeatStatement condition body => condition.Shown ∧ blockShown body
  | .numericForStatement _ start stop step body =>
      start.Shown ∧ stop.Shown ∧ (match step with
        | none => True
        | some step => step.Shown) ∧ blockShown body
  | .genericForStatement _ iterators body => exprsShown iterators ∧ blockShown body
  | .doStatement body => blockShown body
  | .returnStatement args => exprsShown args
  | .breakStatement => True
  | .continueStatement => True
  | .emptyStatement => True

def blockShown : List (Stmt N) → Prop
  | [] => True
  | s::ss => s.Shown ∧ blockShown ss

def clausesShown : List (IfClause N) → Prop
  | [] => True
  | .mk condition body :: clauses => condition.Shown ∧ blockShown body ∧ clausesShown clauses

end

theorem unsigned_numeral {text : List Char} (h : IsNumeral text) :
    ∀ ds, text = '-'::ds → False := by
  rintro ds rfl
  obtain ⟨⟨c, cs, heq, hc⟩, -⟩ := h
  cases heq
  rcases hc with hc | ⟨hc, -⟩ <;> cases hc

/-- An unsigned number is read back as a number. -/
theorem numberNode_numeral {text : List Char} (h : IsNumeral text) :
    (numberNode text : Expr N) = .numericLiteral (Numerals.number text) (String.ofList text) := by
  rw [numberNode.eq_2 text (unsigned_numeral h), atomNode, startsName_numeral h]
  rfl

theorem negated_shown {e : Expr N} (h : e.Shown) : negated e = none := by
  cases e with
  | numericLiteral value raw =>
    rw [Expr.Shown] at h
    rw [negated]
    split
    next ds heq => exact (unsigned_numeral h.1 ds heq).elim
    next => rfl
  | _ => rfl

theorem binaryNode_shown (operator : BinaryOperator) {e : Expr N} (h : e.Shown)
    (left right : Expr N) :
    binaryNode operator (negated e) left right = .binaryExpression operator left right := by
  rw [negated_shown h]
  cases operator <;> rfl

omit [Numerals N] in
theorem ne_nil_of_printed {body : List (Stmt N)} (h : body.any Stmt.IsPrinted = true) :
    body ≠ [] := by
  rintro rfl
  cases h

theorem blockReread_ne_nil {body : List (Stmt N)} (h : body.any Stmt.IsPrinted = true) :
    blockReread body ≠ [] := by
  induction body with
  | nil => cases h
  | cons s ss ih =>
    rw [blockReread]
    split
    next => exact List.cons_ne_nil _ _
    next hprinted =>
      rw [List.any_cons, Bool.eq_false_iff.mpr hprinted, Bool.false_or] at h
      exact ih h

theorem reread_else (clauses : List (IfClause N)) {body : List (Stmt N)} (h : body ≠ []) :
    (Stmt.ifStatement clauses (some body)).reread =
      .ifStatement (clausesReread clauses) (some (blockReread body)) := by
  cases body with
  | nil => exact absurd rfl h
  | cons s ss =>
    rw [Stmt.reread.eq_def, blockReread]

theorem isPrinted_reread (s : Stmt N) : s.reread.IsPrinted = s.IsPrinted := by
  cases s with
  | ifStatement clauses elseBody =>
    rw [Stmt.reread.eq_def]
    rfl
  | _ => rfl

mutual

theorem plain_expr : ∀ e : Expr N, e.Shown → e.reread.plain = e.plain
  | .identifier _, _ => rfl
  | .numericLiteral value raw, h => by
    rw [Expr.Shown] at h
    rw [Expr.reread, numberNode_numeral h.1, h.2]
    rfl
  | .stringLiteral _, h => congrArg Expr.stringLiteral h
  | .booleanLiteral _, _ => rfl
  | .nilLiteral, _ => rfl
  | .varargLiteral _, _ => rfl
  | .unaryExpression operator argument, h =>
    congrArg (Expr.unaryExpression operator) (plain_expr argument h)
  | .binaryExpression operator left right, h => by
    rw [Expr.reread, binaryNode_shown operator h.1, Expr.plain, plain_expr left h.1,
      plain_expr right h.2]
    rfl
  | .logicalExpression operator left right, h =>
    congrArg₂ (Expr.logicalExpression operator) (plain_expr left h.1) (plain_expr right h.2)
  | .callExpression base args _, h => by
    rw [Expr.reread, Expr.plain, plain_expr base h.1, plain_exprs args h.2]
    rfl
  | .methodCallExpression base method args _, h => by
    rw [Expr.reread, Expr.plain, plain_expr base h.1, plain_exprs args h.2]
    rfl
  | .memberExpression base property, h => by
    rw [Expr.reread, Expr.plain, plain_expr base h]
    rfl
  | .indexExpression base index, h =>
    congrArg₂ Expr.indexExpression (plain_expr base h.1) (plain_expr index h.2)
  | .functionExpression params isVararg body, h =>
    congrArg (Expr.functionExpression params isVararg) (plain_block body h)
  | .tableConstructor fields, h => congrArg Expr.tableConstructor (plain_fields fields h)

theorem plain_exprs : ∀ es : List (Expr N), exprsShown es →
    exprsPlain (exprsReread es) = exprsPlain es
  | [], _ => rfl
  | e::es, h => congrArg₂ List.cons (plain_expr e h.1) (plain_exprs es h.2)

theorem plain_fields : ∀ fs : List (TableField N), fieldsShown fs →
    fieldsPlain (fieldsReread fs) = fieldsPlain fs
  | [], _ => rfl
  | .tableKey key value :: fs, h => by
    rw [fieldsReread, fieldReread, fieldsPlain, fieldPlain, plain_expr key h.1,
      plain_expr value h.2.1, plain_fields fs h.2.2]
    rfl
  | .tableKeyString key value :: fs, h => by
    rw [fieldsReread, fieldReread, fieldsPlain, fieldPlain, plain_expr value h.1,
      plain_fields fs h.2]
    rfl
  | .tableValue value :: fs, h => by
    rw [fieldsReread, fieldReread, fieldsPlain, fieldPlain, plain_expr value h.1,
      plain_fields fs h.2]
    rfl

theorem plain_stmt : ∀ s : Stmt N, s.Shown → s.reread.plain = s.plain
  | .localStatement vars init, h => congrArg (Stmt.localStatement vars) (plain_exprs init h)
  | .assignmentStatement vars init, h =>
    congrArg₂ Stmt.assignmentStatement (plain_exprs vars h.1) (plain_exprs init h.2)
  | .localFunctionStatement identifier params isVararg body, h =>
    congrArg (Stmt.localFunctionStatement identifier params isVararg) (plain_block body h)
  | .functionDeclaration name params isVararg body isMethod, h => by
    rw [Stmt.Shown] at h
    simp [plain_block body h.2, h.1]
  | .callStatement expression, h => congrArg Stmt.callStatement (plain_expr expression h)
  | .ifStatement clauses none, h => by
    simp [plain_clauses clauses h.1]
  | .ifStatement clauses (some body), h => by
    rw [reread_else clauses (ne_nil_of_printed h.2.1)]
    simp [plain_clauses clauses h.1, plain_block body h.2.2]
  | .whileStatement condition body, h =>
    congrArg₂ Stmt.whileStatement (plain_expr condition h.1) (plain_block body h.2)
  | .repeatStatement condition body, h =>
    congrArg₂ Stmt.repeatStatement (plain_expr condition h.1) (plain_block body h.2)
  | .numericForStatement variableName start stop none body, h => by
    simp [plain_expr start h.1, plain_expr stop h.2.1, plain_block body h.2.2.2]
  | .numericForStatement variableName start stop (some step) body, h => by
    simp [plain_expr start h.1, plain_expr stop h.2.1, plain_expr step h.2.2.1,
      plain_block body h.2.2.2]
  | .genericForStatement vars iterators body, h =>
    congrArg₂ (Stmt.genericForStatement vars) (plain_exprs iterators h.1) (plain_block body h.2)
  | .doStatement body, h => congrArg Stmt.doStatement (plain_block body h)
  | .returnStatement args, h => congrArg Stmt.returnStatement (plain_exprs args h)
  | .breakStatement, _ => rfl
  | .continueStatement, _ => rfl
  | .emptyStatement, _ => rfl

theorem plain_block : ∀ ss : List (Stmt N), blockShown ss →
    blockPlain (blockReread ss) = blockPlain ss
  | [], _ => rfl
  | s::ss, h => by
    rw [blockReread, blockPlain]
    by_cases hprinted : s.IsPrinted = true
    · rw [if_pos hprinted, if_pos hprinted, blockPlain, isPrinted_reread, if_pos hprinted,
        plain_stmt s h.1, plain_block ss h.2]
    · rw [if_neg hprinted, if_neg hprinted, plain_block ss h.2]

theorem plain_clauses : ∀ cs : List (IfClause N), clausesShown cs →
    clausesPlain (clausesReread cs) = clausesPlain cs
  | [], _ => rfl
  | .mk condition body :: clauses, h => by
    rw [clausesReread, clausesPlain, plain_expr condition h.1, plain_block body h.2.1,
      plain_clauses clauses h.2.2]
    rfl

end

theorem head_reread {e : Expr N} (h : e.Shown) :
    getPrecedence e.reread = getPrecedence e ∧ isFunction e.reread = isFunction e := by
  cases e with
  | numericLiteral value raw =>
    rw [Expr.Shown] at h
    rw [Expr.reread, numberNode_numeral h.1]
    exact ⟨rfl, rfl⟩
  | binaryExpression operator left right =>
    rw [Expr.Shown] at h
    rw [Expr.reread, binaryNode_shown operator h.1]
    exact ⟨rfl, rfl⟩
  | _ => exact ⟨rfl, rfl⟩

theorem fieldsReread_isEmpty (fs : List (TableField N)) :
    (fieldsReread fs).isEmpty = fs.isEmpty := by
  cases fs <;> rfl

theorem fieldsReread_eq_map (fs : List (TableField N)) : fieldsReread fs = fs.map fieldReread := by
  induction fs with
  | nil => rfl
  | cons f fs ih => rw [fieldsReread, ih, List.map_cons]

theorem isTableValue_reread (f : TableField N) : isTableValue (fieldReread f) = isTableValue f := by
  cases f <;> rfl

theorem numericText_reread {value : N} {raw : String} (h : IsNumeral (numericText value raw).toList)
    (value' : N) :
    numericText value' (String.ofList (numericText value raw).toList) = numericText value raw := by
  rw [String.ofList_toList]
  obtain ⟨⟨c, cs, heq, -⟩, -⟩ := h
  refine if_neg fun hempty => ?_
  rw [hempty] at heq
  cases heq

section Texts
variable (indentStr : String)

theorem generateNode_else (level : ℕ) (clauses : List (IfClause N)) {body : List (Stmt N)}
    (h : body ≠ []) :
    generateNode indentStr level (.ifStatement clauses (some body)) =
      generateClauses indentStr level "if " clauses ++
        (writeln indentStr level "else" ++ generateBlock indentStr (level + 1) body) ++
        writeln indentStr level "end" := by
  cases body with
  | nil => exact absurd rfl h
  | cons s ss =>
    rw [generateNode.eq_def, generateBlock]
    simp only [String.append_assoc]

mutual

theorem text_expr : ∀ e : Expr N, e.Shown → ∀ level p,
    exprToString indentStr level e.reread p = exprToString indentStr level e p
  | .identifier _, _, _, _ => rfl
  | .numericLiteral value raw, h, level, p => by
    rw [Expr.Shown] at h
    rw [Expr.reread, numberNode_numeral h.1, exprToString, exprToString]
    rw [numericText_reread h.1]
    rfl
  | .stringLiteral value, h, level, p => by
    rw [Expr.Shown] at h
    rw [Expr.reread, h]
  | .booleanLiteral _, _, _, _ => rfl
  | .nilLiteral, _, _, _ => rfl
  | .varargLiteral _, _, _, _ => rfl
  | .unaryExpression operator argument, h, level, p => by
    rw [Expr.Shown] at h
    rw [Expr.reread, exprToString, exprToString]
    rw [text_expr argument h]
    rfl
  | .binaryExpression operator left right, h, level, p => by
    rw [Expr.Shown] at h
    rw [Expr.reread, binaryNode_shown operator h.1, exprToString, exprToString]
    rw [text_expr left h.1, text_expr right h.2]
    rfl
  | .logicalExpression operator left right, h, level, p => by
    rw [Expr.Shown] at h
    rw [Expr.reread, exprToString, exprToString]
    rw [text_expr left h.1, text_expr right h.2]
    rfl
  | .callExpression base args _, h, level, p => by
    rw [Expr.Shown] at h
    rw [Expr.reread, exprToString, exprToString]
    rw [text_expr base h.1, text_exprs args h.2, (head_reread h.1).2]
    rfl
  | .methodCallExpression base method args _, h, level, p => by
    rw [Expr.Shown] at h
    rw [Expr.reread, exprToString, exprToString]
    rw [text_expr base h.1, text_exprs args h.2, (head_reread h.1).2]
    rfl
  | .memberExpression base property, h, level, p => by
    rw [Expr.Shown] at h
    rw [Expr.reread, exprToString, exprToString]
    rw [text_expr base h, (head_reread h).2]
    rfl
  | .indexExpression base index, h, level, p => by
    rw [Expr.Shown] at h
    rw [Expr.reread, exprToString, exprToString]
    rw [text_expr base h.1, text_expr index h.2, (head_reread h.1).2]
    rfl
  | .functionExpression params isVararg body, h, level, p => by
    rw [Expr.Shown] at h
    rw [Expr.reread, exprToString, exprToString]
    rw [text_block body h]
    rfl
  | .tableConstructor fields, h, level, p => by
    rw [Expr.Shown] at h
    rw [Expr.reread, exprToString, exprToString]
    rw [text_fields fields h, text_fields fields h, fieldsReread_isEmpty, fieldsReread_eq_map,
      List.length_map, List.all_map]
    simp only [Function.comp_def, isTableValue_reread]
    rfl

theorem text_exprs : ∀ es : List (Expr N), exprsShown es → ∀ level,
    exprsToStrings indentStr level (exprsReread es) = exprsToStrings indentStr level es
  | [], _, _ => rfl
  | e::es, h, level => congrArg₂ List.cons (text_expr e h.1 level 0) (text_exprs es h.2 level)

theorem text_fields : ∀ fs : List (TableField N), fieldsShown fs → ∀ level innerIndent,
    fieldsToStrings indentStr level innerIndent (fieldsReread fs) =
      fieldsToStrings indentStr level innerIndent fs
  | [], _, _, _ => rfl
  | .tableKey key value :: fs, h, level, innerIndent => by
    rw [fieldsReread, fieldReread, fieldsToStrings, fieldsToStrings, fieldToString, fieldToString,
      text_expr key h.1, text_expr value h.2.1, text_fields fs h.2.2]
  | .tableKeyString key value :: fs, h, level, innerIndent => by
    rw [fieldsReread, fieldReread, fieldsToStrings, fieldsToStrings, fieldToString, fieldToString,
      text_expr value h.1, text_fields fs h.2]
  | .tableValue value :: fs, h, level, innerIndent => by
    rw [fieldsReread, fieldReread, fieldsToStrings, fieldsToStrings, fieldToString, fieldToString,
      text_expr value h.1, text_fields fs h.2]

theorem text_stmt : ∀ s : Stmt N, s.Shown → ∀ level,
    generateNode indentStr level s.reread = generateNode indentStr level s
  | .localStatement vars init, h, level => by
    rw [Stmt.Shown] at h
    rw [Stmt.reread, generateNode, generateNode, text_exprs init h]
    cases init <;> rfl
  | .assignmentStatement vars init, h, level => by
    rw [Stmt.Shown] at h
    rw [Stmt.reread, generateNode, generateNode, text_exprs vars h.1, text_exprs init h.2]
  | .localFunctionStatement identifier params isVararg body, h, level => by
    rw [Stmt.Shown] at h
    rw [Stmt.reread, generateNode, generateNode, text_block body h]
  | .functionDeclaration name params isVararg body isMethod, h, level => by
    rw [Stmt.Shown] at h
    rw [Stmt.reread, generateNode, generateNode, text_block body h.2]
  | .callStatement expression, h, level => by
    rw [Stmt.Shown] at h
    rw [Stmt.reread, generateNode, generateNode, text_expr expression h]
  | .ifStatement clauses none, h, level => by
    rw [Stmt.reread.eq_def, generateNode.eq_def,
      generateNode.eq_def indentStr level (.ifStatement _ _)]
    dsimp only
    rw [text_clauses clauses h.1]
  | .ifStatement clauses (some body), h, level => by
    have hprinted := h.2.1
    rw [reread_else clauses (ne_nil_of_printed hprinted),
      generateNode_else indentStr level _ (blockReread_ne_nil hprinted),
      generateNode_else indentStr level _ (ne_nil_of_printed hprinted), text_clauses clauses h.1,
      text_block body h.2.2]
  | .whileStatement condition body, h, level => by
    rw [Stmt.Shown] at h
    rw [Stmt.reread, generateNode, generateNode, text_expr condition h.1, text_block body h.2]
  | .repeatStatement condition body, h, level => by
    rw [Stmt.Shown] at h
    rw [Stmt.reread, generateNode, generateNode, text_expr condition h.1, text_block body h.2]
  | .numericForStatement variableName start stop none body, h, level => by
    rw [Stmt.reread.eq_def, generateNode.eq_def,
      generateNode.eq_def indentStr level (.numericForStatement _ _ _ _ _)]
    dsimp only
    rw [text_expr start h.1, text_expr stop h.2.1, text_block body h.2.2.2]
  | .numericForStatement variableName start stop (some step) body, h, level => by
    rw [Stmt.reread.eq_def, generateNode.eq_def,
      generateNode.eq_def indentStr level (.numericForStatement _ _ _ _ _)]
    dsimp only
    rw [text_expr start h.1, text_expr stop h.2.1, text_expr step h.2.2.1, text_block body h.2.2.2]
  | .genericForStatement vars iterators body, h, level => by
    rw [Stmt.Shown] at h
    rw [Stmt.reread, generateNode, generateNode, text_exprs iterators h.1, text_block body h.2]
  | .doStatement body, h, level => by
    rw [Stmt.Shown] at h
    rw [Stmt.reread, generateNode, generateNode, text_block body h]
  | .returnStatement args, h, level => by
    rw [Stmt.Shown] at h
    rw [Stmt.reread, generateNode, generateNode, text_exprs args h]
    cases args <;> rfl
  | .breakStatement, _, _ => rfl
  | .continueStatement, _, _ => rfl
  | .emptyStatement, _, _ => rfl

theorem text_block : ∀ ss : List (Stmt N), blockShown ss → ∀ level,
    generateBlock indentStr level (blockReread ss) = generateBlock indentStr level ss
  | [], _, _ => rfl
  | s::ss, h, level => by
    rw [blockReread, generateBlock]
    by_cases hprinted : s.IsPrinted = true
    · rw [if_pos hprinted, generateBlock, text_stmt s h.1, text_block ss h.2]
    · rw [if_neg hprinted, text_block ss h.2]
      cases s with
      | emptyStatement => exact (String.empty_append).symm
      | _ => exact absurd rfl hprinted

theorem text_clauses : ∀ cs : List (IfClause N), clausesShown cs → ∀ level keyword,
    generateClauses indentStr level keyword (clausesReread cs) =
      generateClauses indentStr level keyword cs
  | [], _, _, _ => rfl
  | .mk condition body :: clauses, h, level, keyword => by
    rw [clausesReread, generateClauses, generateClauses, text_expr condition h.1,
      text_block body h.2.1, text_clauses clauses h.2.2]

end

/-- A legible program that its text shows whole is read back as it is, and printed the same again. -/
theorem round_trip (hindent : IsIndent indentStr) {chunk : Chunk N} (h : blockLegible chunk.body)
    (hshown : blockShown chunk.body) :
    ∃ (tokens : List (Token N)) (depth : ℕ) (chunk' : Chunk N),
      tokenize (generate indentStr chunk) = .ok tokens ∧
        parseChunk depth tokens = some (.ok chunk') ∧
        blockPlain chunk'.body = blockPlain chunk.body ∧
        generate indentStr chunk' = generate indentStr chunk := by
  obtain ⟨tokens, htokens, hlexemes⟩ := lexes_generate indentStr hindent h ⟨1, 1, 0⟩
  obtain ⟨depth, hparse⟩ := parseChunk_tokens h hlexemes
  refine ⟨tokens, depth, _, htokens, hparse, plain_block chunk.body hshown, ?_⟩
  rw [generate, generate, text_block indentStr chunk.body hshown 0]

end Texts

end
end LuaRecovery.Lua
