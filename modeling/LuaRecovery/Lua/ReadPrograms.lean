import LuaRecovery.Lua.ProgramRereading

/-!
# Every legible program is read back

The readings of the constructs, put together over the tree.
-/

set_option autoImplicit false

namespace LuaRecovery.Lua
open LuaRecovery.Lib Comp LuaGenerator Spelling Lua.Parser

section
variable {N : Type} [Numerals N]

omit [Numerals N] in
theorem Expr.IsTarget.base {e : Expr N} (h : e.IsTarget) : e.IsBase := by
  cases e <;> first | exact h | trivial

omit [Numerals N] in
theorem Expr.IsCall.target {e : Expr N} (h : e.IsCall) : e.IsTarget := by
  cases e <;> trivial

omit [Numerals N] in
theorem Expr.IsTarget.precedence {e : Expr N} (h : e.IsTarget) : getPrecedence e = 99 := by
  cases e <;> first | rfl | exact h.elim

omit [Numerals N] in
theorem Expr.IsTarget.isFunction {e : Expr N} (h : e.IsTarget) : isFunction e = false := by
  cases e <;> first | rfl | exact h.elim

/-- A target, or a call, where no suffix follows. -/
theorem parse_target {e : Expr N} (h : ReadsBase e) (htarget : e.IsTarget) {k : List (Lexeme N)}
    (hk : nextType k ∉ suffixTypes) :
    parser.call .parsePrefixExp (exprTokens e 0 k) = some (.ok (e.reread, k)) := by
  have hread := h k
  rw [htarget.isFunction] at hread
  rw [← exprTokens_primary htarget.precedence le_rfl]
  exact hread.trans (parseSuffixes_stop hk _)

theorem notMem_suffixTypes_more (vars : List (Expr N)) (k : List (Lexeme N)) :
    nextType (moreExprsTokens vars (assign::k)) ∉ suffixTypes ∧
      nextType (moreExprsTokens vars (assign::k)) ∈ assignmentTypes := by
  cases vars with
  | nil =>
    rw [moreExprsTokens]
    exact ⟨show TokenType.assign ∉ suffixTypes by decide,
      show TokenType.assign ∈ assignmentTypes by decide⟩
  | cons v vars =>
    rw [moreExprsTokens]
    exact ⟨show TokenType.comma ∉ suffixTypes by decide,
      show TokenType.comma ∈ assignmentTypes by decide⟩

theorem moreTargets_eq {vars : List (Expr N)} (h : ∀ v ∈ vars, ReadsBase v)
    (htargets : ∀ v ∈ vars, v.IsTarget) (k : List (Lexeme N)) :
    parser.call .moreTargets (moreExprsTokens vars (assign::k)) =
      some (.ok (exprsReread vars, assign::k)) := by
  induction vars with
  | nil =>
    rw [call_eq]
    simp only [body]
    rw [moreExprsTokens, accept_miss (fun h => by cases h), if_neg Bool.false_ne_true]
    rfl
  | cons v vars ih =>
    have hrest := ih (fun w hw => h w (List.mem_cons_of_mem _ hw))
      fun w hw => htargets w (List.mem_cons_of_mem _ hw)
    rw [call_eq]
    simp only [body]
    rw [moreExprsTokens, accept_hit (by rfl), if_pos rfl,
      bind_ok (parse_target (h v List.mem_cons_self) (htargets v List.mem_cons_self)
        (notMem_suffixTypes_more vars k).1), bind_ok hrest]
    rfl

theorem nextType_target {e : Expr N} (htarget : e.IsTarget) (h : e.Legible)
    (k : List (Lexeme N)) : nextType (exprTokens e 0 k) ∈ prefixStarts := by
  have hbase := nextType_base e h htarget.base k
  rw [htarget.isFunction] at hbase
  rw [← exprTokens_primary htarget.precedence le_rfl]
  exact hbase

theorem readsStmt_assignment {vars init : List (Expr N)} (hvars : vars ≠ [])
    (htargets : ∀ v ∈ vars, v.IsTarget) (hlegible : ∀ v ∈ vars, v.Legible)
    (hbases : ∀ v ∈ vars, ReadsBase v) (hinit : init ≠ []) (hreads : ReadsAll init) :
    ReadsStmt (.assignmentStatement vars init) := by
  intro k hk
  obtain ⟨v, vars, rfl⟩ := List.exists_cons_of_ne_nil hvars
  obtain ⟨e, es, rfl⟩ := List.exists_cons_of_ne_nil hinit
  have htarget := htargets v List.mem_cons_self
  have hmore := moreTargets_eq (fun w hw => hbases w (List.mem_cons_of_mem _ hw))
    (fun w hw => htargets w (List.mem_cons_of_mem _ hw)) (exprsTokens (e::es) k)
  have hnext := notMem_suffixTypes_more vars (exprsTokens (e::es) k)
  rw [stmtTokens, exprsTokens,
    parseStatement_base _ (nextType_target htarget (hlegible v List.mem_cons_self) _),
    Stmt.reread, call_eq]
  simp only [body]
  rw [bind_ok (parse_target (hbases v List.mem_cons_self) htarget hnext.1), bind_isOneOf,
    decide_eq_true hnext.2, if_pos rfl, bind_ok hmore, bind_advance, List.tail_cons,
    bind_ok (parseExpressions_eq hreads (borders_facts _ hk.borders).2.2.1
      (hk.borders.closes hk.paren)), hk.borders.no_semicolon]
  rfl

theorem readsStmt_call {expression : Expr N} (hcall : expression.IsCall)
    (hlegible : expression.Legible) (hbase : ReadsBase expression) :
    ReadsStmt (.callStatement expression) := by
  intro k hk
  have hopen : endsOpen expression 0 = true := by
    cases expression <;> first | exact hcall.elim | rw [endsOpen]; rfl
  have hclosed : nextType k ∉ suffixTypes := (hk.borders.closes hk.paren).suffix hopen
  have hnot : nextType k ∉ assignmentTypes := (borders_facts _ hk.borders).2.2.2.2.1
  rw [stmtTokens, parseStatement_base _ (nextType_target hcall.target hlegible k), Stmt.reread,
    call_eq]
  simp only [body]
  rw [bind_ok (parse_target hbase hcall.target hclosed), bind_isOneOf, decide_eq_false hnot,
    if_neg Bool.false_ne_true]
  cases expression <;> first | exact hcall.elim | skip
  all_goals
    rw [Expr.reread]
    exact hk.borders.no_semicolon _

theorem stmtStarts_of_base {type : TokenType} (h : type ∈ prefixStarts) : type ∈ stmtStarts :=
  (show ∀ type ∈ prefixStarts, type ∈ stmtStarts by decide) type h

/-- The first token of a statement, a parenthesis only where it is said to be one. -/
theorem nextType_stmt {s : Stmt N} (h : s.Legible) (hprinted : s.IsPrinted = true)
    (k : List (Lexeme N)) :
    nextType (stmtTokens s k) ∈ stmtStarts ∧
      (nextType (stmtTokens s k) = .lparen → s.startsParen = true) := by
  have hword : ∀ (type : TokenType) (ts : List (Lexeme N)), nextType ts = type →
      type ∈ stmtStarts ∧ type ≠ .lparen →
        nextType ts ∈ stmtStarts ∧ (nextType ts = .lparen → s.startsParen = true) := by
    rintro _ ts rfl htype
    exact ⟨htype.1, fun hparen => absurd hparen htype.2⟩
  cases s with
  | localStatement vars init => exact hword .localWord _ rfl (by decide)
  | assignmentStatement vars init =>
    obtain ⟨hvars, htargets, hlegible, -⟩ := h
    obtain ⟨v, vars, rfl⟩ := List.exists_cons_of_ne_nil hvars
    rw [stmtTokens, exprsTokens]
    exact ⟨stmtStarts_of_base (nextType_target (htargets v List.mem_cons_self) hlegible.1 _),
      (startsAs_expr v hlegible.1 0 _).2⟩
  | localFunctionStatement identifier params isVararg block =>
    exact hword .localWord _ rfl (by decide)
  | functionDeclaration name params isVararg block isMethod =>
    exact hword .functionWord _ rfl (by decide)
  | callStatement expression =>
    rw [stmtTokens]
    exact ⟨stmtStarts_of_base (nextType_target h.1.target h.2 _),
      (startsAs_expr expression h.2 0 _).2⟩
  | ifStatement clauses elseBody =>
    have hclauses : clauses ≠ [] := by
      cases elseBody with
      | none => exact h.1
      | some block => exact h.1
    obtain ⟨⟨condition, block⟩, clauses, rfl⟩ := List.exists_cons_of_ne_nil hclauses
    rw [stmtTokens.eq_def]
    dsimp only
    rw [clausesTokens]
    exact hword .ifWord _ rfl (by decide)
  | whileStatement condition block => exact hword .whileWord _ rfl (by decide)
  | repeatStatement condition block => exact hword .repeatWord _ rfl (by decide)
  | numericForStatement variableName start stop step block =>
    exact hword .forWord _ rfl (by decide)
  | genericForStatement vars iterators block => exact hword .forWord _ rfl (by decide)
  | doStatement block => exact hword .doWord _ rfl (by decide)
  | returnStatement args => exact hword .returnWord _ rfl (by decide)
  | breakStatement => exact hword .breakWord _ rfl (by decide)
  | continueStatement => exact hword .continueWord _ rfl (by decide)
  | emptyStatement => cases hprinted

/-- The first statement of a block that is printed, if there is one, is what the tokens start
with. -/
theorem blockTokens_cases {ss : List (Stmt N)} (h : blockLegible ss) (k : List (Lexeme N)) :
    ((ss.filter Stmt.IsPrinted).head? = none ∧ blockTokens ss k = k) ∨
      ∃ t k', (ss.filter Stmt.IsPrinted).head? = some t ∧ t.Legible ∧ t.IsPrinted = true ∧
        blockTokens ss k = stmtTokens t k' := by
  induction ss with
  | nil => exact .inl ⟨rfl, rfl⟩
  | cons s ss ih =>
    by_cases hprinted : s.IsPrinted = true
    · refine .inr ⟨s, blockTokens ss k, ?_, h.1, hprinted, rfl⟩
      rw [List.filter_cons_of_pos hprinted, List.head?_cons]
    · rw [List.filter_cons_of_neg hprinted]
      have hempty : s = .emptyStatement := by
        cases s <;> first | rfl | exact absurd rfl hprinted
      rw [hempty]
      exact ih h.2.1

theorem reads_block {s : Stmt N} {ss : List (Stmt N)} (h : blockLegible (s::ss))
    (hs : s.IsPrinted = true → ReadsStmt s) (hss : ReadsBlock ss) : ReadsBlock (s::ss) := by
  intro k hk
  rw [blockReread]
  by_cases hprinted : s.IsPrinted = true
  · have hstart := (nextType_stmt h.1 hprinted (blockTokens ss k)).1
    have hnot : nextType (stmtTokens s (blockTokens ss k)) ∉ endsBlock :=
      (show ∀ type ∈ stmtStarts, type ∉ endsBlock by decide) _ hstart
    have hfollows : Follows s (blockTokens ss k) := by
      rcases blockTokens_cases h.2.1 k with ⟨-, htokens⟩ | ⟨t, k', hfirst, ht, htprinted, htokens⟩
      · rw [htokens]
        refine ⟨.of_end hk, fun _ hparen => ?_, fun _ => hk⟩
        rw [hparen] at hk
        revert hk
        decide
      · have hapart := h.2.2 hprinted t hfirst
        obtain ⟨hmem, hparen⟩ := nextType_stmt ht htprinted k'
        rw [htokens]
        refine ⟨List.mem_append_left _ hmem, fun hopen hlparen => ?_, fun hbare => ?_⟩
        · rw [hapart.2 hopen] at hparen
          cases hparen hlparen
        · rw [hapart.1] at hbare
          cases hbare
    rw [if_pos hprinted, blockTokens, call_eq]
    simp only [body]
    rw [bind_isOneOf, decide_eq_false hnot, if_neg Bool.false_ne_true,
      bind_ok (hs hprinted _ hfollows), bind_ok (hss k hk)]
    rfl
  · have hempty : s = .emptyStatement := by
      cases s <;> first | rfl | exact absurd rfl hprinted
    rw [if_neg hprinted, hempty]
    exact hss k hk

theorem legible_of_mem {es : List (Expr N)} (h : exprsLegible es) : ∀ e ∈ es, e.Legible := by
  induction es with
  | nil => exact List.forall_mem_nil _
  | cons e es ih => exact List.forall_mem_cons.mpr ⟨h.1, ih h.2⟩

theorem readsBlock_nil : ReadsBlock ([] : List (Stmt N)) := by
  intro k hk
  rw [call_eq]
  simp only [body]
  rw [blockTokens, bind_isOneOf, decide_eq_true hk]
  rfl

/-- What the parser makes of the tokens of the expression, alone and before a suffix. -/
def Readings (e : Expr N) : Prop := Reads e ∧ (e.IsBase → ReadsBase e)

theorem Readings.of_base {e : Expr N} (h : ReadsBase e) (hlegible : e.Legible) (hbase : e.IsBase)
    (hfunction : isFunction e = false) (hprec : getPrecedence e = 99)
    (hopen : endsOpen e 0 = true) : Readings e :=
  ⟨reads_of_base h hlegible hbase hfunction hprec hopen, fun _ => h⟩

theorem Readings.of_low {e : Expr N} (h : Reads e) (hprec : getPrecedence e < 99) : Readings e :=
  ⟨h, fun _ => readsBase_low h hprec⟩

mutual

theorem readings_expr : ∀ e : Expr N, e.Legible → Readings e
  | .identifier name, h => by
    exact .of_base (readsBase_identifier h) h trivial rfl rfl (by simp [endsOpen])
  | .numericLiteral value raw, h => ⟨reads_number h, fun hbase => hbase.elim⟩
  | .stringLiteral value, _ => by
    refine ⟨reads_literal (fun k => by rw [exprTokens]; rfl) rfl ?_, fun hbase => hbase.elim⟩
    rw [Expr.reread]
    rfl
  | .booleanLiteral value, _ => by
    refine ⟨reads_literal (fun k => by rw [exprTokens]; rfl) ?_ ?_, fun hbase => hbase.elim⟩
    · cases value <;> rfl
    · rw [Expr.reread]
      cases value <;> rfl
  | .nilLiteral, _ => by
    refine ⟨reads_literal (fun k => by rw [exprTokens]; rfl) rfl ?_, fun hbase => hbase.elim⟩
    rw [Expr.reread]
    rfl
  | .varargLiteral true, h => by
    exact .of_base readsBase_vararg h rfl rfl rfl (by simp [endsOpen])
  | .varargLiteral false, _ => by
    refine ⟨reads_literal (fun k => by rw [exprTokens]; rfl) rfl ?_, fun hbase => by cases hbase⟩
    rw [Expr.reread]
    rfl
  | .unaryExpression operator argument, h => by
    exact .of_low (reads_unary (readings_expr argument h.2).1 h.1) (by simp [getPrecedence])
  | .binaryExpression operator left right, h => by
    have hle := binaryPrecedence_le operator
    refine .of_low (reads_operation h.1 (readings_expr left h.1).1 (readings_expr right h.2).1) ?_
    rw [getPrecedence]
    omega
  | .logicalExpression operator left right, h => by
    have hle := logicalPrecedence_le operator
    refine .of_low (reads_logical (readings_expr left h.1).1 (readings_expr right h.2).1) ?_
    rw [getPrecedence]
    omega
  | .callExpression base args inParens, h => by
    have hbase := (readings_expr base h.2.1).2 h.1
    have hargs : ReadsAll args := fun e he => (readings_exprs args h.2.2 e he).1
    exact .of_base (readsBase_call hbase h.2.2 hargs inParens) h trivial rfl rfl
      (by simp [endsOpen])
  | .methodCallExpression base method args inParens, h => by
    have hbase := (readings_expr base h.2.1).2 h.1
    have hargs : ReadsAll args := fun e he => (readings_exprs args h.2.2.2 e he).1
    exact .of_base (readsBase_methodCall hbase h.2.2.1 h.2.2.2 hargs inParens) h trivial rfl rfl
      (by simp [endsOpen])
  | .memberExpression base property, h => by
    have hbase := (readings_expr base h.2.1).2 h.1
    exact .of_base (readsBase_member hbase h.2.2) h trivial rfl rfl (by simp [endsOpen])
  | .indexExpression base index, h => by
    have hbase := (readings_expr base h.2.1).2 h.1
    exact .of_base (readsBase_index hbase (readings_expr index h.2.2).1) h trivial rfl rfl
      (by simp [endsOpen])
  | .functionExpression params isVararg block, h => by
    have hread : Reads (.functionExpression params isVararg block) := reads_function fun k =>
      parseFunctionBody_eq h.1 isVararg ((readings_block block h.2).body k)
    exact ⟨hread, fun _ => readsBase_function hread⟩
  | .tableConstructor fields, h => by
    refine ⟨reads_table fun k => ?_, fun hbase => hbase.elim⟩
    exact parseFields_eq (readings_fields fields h) k

theorem readings_exprs : ∀ es : List (Expr N), exprsLegible es → ∀ e ∈ es, Readings e
  | [], _ => List.forall_mem_nil _
  | e::es, h => List.forall_mem_cons.mpr ⟨readings_expr e h.1, readings_exprs es h.2⟩

theorem readings_fields : ∀ fs : List (TableField N), fieldsLegible fs → ∀ f ∈ fs, ReadsField f
  | [], _ => List.forall_mem_nil _
  | .tableKey key value :: fs, h => by
    have hfield := readsField_key (readings_expr key h.1).1 (readings_expr value h.2.1).1
    exact List.forall_mem_cons.mpr ⟨hfield, readings_fields fs h.2.2⟩
  | .tableKeyString key value :: fs, h => by
    have hfield := readsField_keyString h.1 (readings_expr value h.2.1).1
    exact List.forall_mem_cons.mpr ⟨hfield, readings_fields fs h.2.2⟩
  | .tableValue value :: fs, h => by
    have hfield := readsField_value h.1 (readings_expr value h.1).1
    exact List.forall_mem_cons.mpr ⟨hfield, readings_fields fs h.2⟩

theorem readings_stmt : ∀ s : Stmt N, s.Legible → s.IsPrinted = true → ReadsStmt s
  | .localStatement vars init, h, _ => by
    exact readsStmt_local h.1 h.2.1 fun e he => (readings_exprs init h.2.2 e he).1
  | .assignmentStatement vars init, h, _ => by
    have hvars := readings_exprs vars h.2.2.1
    refine readsStmt_assignment h.1 h.2.1 (legible_of_mem h.2.2.1) (fun v hv => ?_) h.2.2.2.1
      fun e he => (readings_exprs init h.2.2.2.2 e he).1
    exact (hvars v hv).2 (h.2.1 v hv).base
  | .localFunctionStatement identifier params isVararg block, h, _ => by
    exact readsStmt_localFunction h.1 h.2.1 isVararg (readings_block block h.2.2)
  | .functionDeclaration name params isVararg block isMethod, h, _ => by
    exact readsStmt_function h.1 h.2.1 h.2.2.1 isVararg isMethod (readings_block block h.2.2.2)
  | .callStatement expression, h, _ => by
    exact readsStmt_call h.1 h.2 ((readings_expr expression h.2).2 h.1.target.base)
  | .ifStatement clauses none, h, _ => by
    exact readsStmt_if h.1 (readings_clauses clauses h.2.1) fun block hblock => by cases hblock
  | .ifStatement clauses (some block), h, _ => by
    refine readsStmt_if h.1 (readings_clauses clauses h.2.1) ?_
    rintro _ ⟨⟩
    exact readings_block block h.2.2
  | .whileStatement condition block, h, _ => by
    exact readsStmt_while (readings_expr condition h.1).1 (readings_block block h.2)
  | .repeatStatement condition block, h, _ => by
    exact readsStmt_repeat (readings_expr condition h.1).1 (readings_block block h.2)
  | .numericForStatement variableName start stop none block, h, _ => by
    obtain ⟨hname, hstart, hstop, -, hblock⟩ := h
    exact readsStmt_numericFor hname (readings_expr start hstart).1 (readings_expr stop hstop).1
      (fun e he => by cases he) (readings_block block hblock)
  | .numericForStatement variableName start stop (some step) block, h, _ => by
    obtain ⟨hname, hstart, hstop, hstep, hblock⟩ := h
    refine readsStmt_numericFor hname (readings_expr start hstart).1 (readings_expr stop hstop).1
      ?_ (readings_block block hblock)
    rintro _ ⟨⟩
    exact (readings_expr step hstep).1
  | .genericForStatement vars iterators block, h, _ => by
    exact readsStmt_genericFor h.1 h.2.1 h.2.2.1
      (fun e he => (readings_exprs iterators h.2.2.2.1 e he).1) (readings_block block h.2.2.2.2)
  | .doStatement block, h, _ => by
    exact readsStmt_do (readings_block block h)
  | .returnStatement args, h, _ => by
    exact readsStmt_return h fun e he => (readings_exprs args h e he).1
  | .breakStatement, _, _ => readsStmt_break
  | .continueStatement, _, _ => readsStmt_continue
  | .emptyStatement, _, hprinted => by cases hprinted

theorem readings_block : ∀ ss : List (Stmt N), blockLegible ss → ReadsBlock ss
  | [], _ => readsBlock_nil
  | s::ss, h => reads_block h (readings_stmt s h.1) (readings_block ss h.2.1)

theorem readings_clauses : ∀ cs : List (IfClause N), clausesLegible cs → ∀ c ∈ cs, ReadsClause c
  | [], _ => List.forall_mem_nil _
  | .mk condition block :: clauses, h => by
    have hclause : ReadsClause (.mk condition block) :=
      ⟨(readings_expr condition h.1).1, readings_block block h.2.1⟩
    exact List.forall_mem_cons.mpr ⟨hclause, readings_clauses clauses h.2.2⟩

end

end
end LuaRecovery.Lua
