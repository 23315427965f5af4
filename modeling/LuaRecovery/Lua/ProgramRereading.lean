import LuaRecovery.Lua.Rereading

/-!
# Reading the tokens of a program

Every construct is read from its tokens, given that its parts are. Statements
are told apart by what they start with.
-/

set_option autoImplicit false

namespace LuaRecovery.Lua
open LuaRecovery.Lib Comp LuaGenerator Spelling Lua.Parser

section Lists
variable {N : Type} [Numerals N]

/-- What may follow an expression that nothing encloses. -/
structure Closes (isOpen : Bool) (k : List (Lexeme N)) : Prop where
  operator : (nextType k).infixOperator = none
  suffix : isOpen = true → nextType k ∉ suffixTypes

omit [Numerals N] in
theorem Closes.of_mem {isOpen : Bool} {k : List (Lexeme N)}
    (h : nextType k ∈
      [.rparen, .rbracket, .rbrace, .comma, .assign, .thenWord, .doWord, .endWord]) :
    Closes isOpen k := by
  simp only [List.mem_cons, List.not_mem_nil, or_false] at h
  rcases h with h | h | h | h | h | h | h | h <;>
    exact ⟨by rw [h]; rfl, fun _ => by rw [h]; decide⟩

theorem Reads.expression {e : Expr N} (h : Reads e) {k : List (Lexeme N)}
    (hk : Closes (endsOpen e 0) k) :
    parser.call .parseExpression (exprTokens e 0 k) = some (.ok (e.reread, k)) := by
  rw [parseExpression_eq, h 0 k (Nat.zero_le _) (Or.inl hk.operator) hk.suffix]
  exact parseOperators_stop (Or.inl hk.operator) _

/-- Every expression of the list is read. -/
def ReadsAll (es : List (Expr N)) : Prop := ∀ e ∈ es, Reads e

theorem moreExpressions_eq {es : List (Expr N)} (h : ReadsAll es) {k : List (Lexeme N)}
    (hcomma : nextType k ≠ .comma) (hk : Closes (lastEndsOpen es) k) :
    parser.call .moreExpressions (moreExprsTokens es k) = some (.ok (exprsReread es, k)) := by
  induction es with
  | nil =>
    rw [call_eq]
    simp only [body]
    rw [moreExprsTokens, accept_miss hcomma, if_neg Bool.false_ne_true]
    rfl
  | cons e es ih =>
    have hmore : Closes (endsOpen e 0) (moreExprsTokens es k) := by
      cases es with
      | nil => exact hk
      | cons f es => exact Closes.of_mem (List.mem_of_elem_eq_true rfl)
    have hrest := ih (fun f hf => h f (List.mem_cons_of_mem _ hf)) (by
      cases es with
      | nil => exact ⟨hk.operator, fun h => by cases h⟩
      | cons f es => exact hk)
    rw [call_eq]
    simp only [body]
    rw [moreExprsTokens, accept_hit (by rfl), if_pos rfl,
      bind_ok ((h e List.mem_cons_self).expression hmore), bind_ok hrest]
    rfl

theorem parseExpressions_eq {e : Expr N} {es : List (Expr N)} (h : ReadsAll (e::es))
    {k : List (Lexeme N)} (hcomma : nextType k ≠ .comma) (hk : Closes (lastEndsOpen (e::es)) k) :
    parser.call .parseExpressions (exprsTokens (e::es) k) =
      some (.ok (exprsReread (e::es), k)) := by
  have hmore : Closes (endsOpen e 0) (moreExprsTokens es k) := by
    cases es with
    | nil => exact hk
    | cons f es => exact Closes.of_mem (List.mem_of_elem_eq_true rfl)
  have hrest := moreExpressions_eq (fun f hf => h f (List.mem_cons_of_mem _ hf)) hcomma (by
    cases es with
    | nil => exact ⟨hk.operator, fun h => by cases h⟩
    | cons f es => exact hk)
  rw [call_eq]
  simp only [body]
  rw [exprsTokens, bind_ok ((h e List.mem_cons_self).expression hmore), bind_ok hrest]
  rfl

theorem parseCallArgs_eq {args : List (Expr N)} (hlegible : exprsLegible args) (h : ReadsAll args)
    (k : List (Lexeme N)) :
    parser.call .parseCallArgs (openParen :: exprsTokens args (closeParen::k)) =
      some (.ok (exprsReread args, k)) := by
  rw [call_eq]
  simp only [body]
  rw [bind_peek, accept_hit (by rfl), if_pos rfl, bind_is]
  cases args with
  | nil =>
    rw [exprsTokens, nextType_cons, decide_eq_true (by rfl)]
    simp only [if_true, pure_bind]
    rw [consume_hit (by rfl)]
    rfl
  | cons e es =>
    have hstart : nextType (exprsTokens (e::es) (closeParen::k)) ≠ .rparen := by
      intro hparen
      have hstarts := (startsAs_expr e hlegible.1 0 (moreExprsTokens es (closeParen::k))).1
      rw [exprsTokens] at hparen
      rw [hparen] at hstarts
      revert hstarts
      decide
    rw [decide_eq_false hstart]
    simp only [Bool.false_eq_true, if_false]
    rw [bind_ok (parseExpressions_eq h (fun h => by cases h)
      (Closes.of_mem (List.mem_of_elem_eq_true rfl))), consume_hit (by rfl)]
    rfl

end Lists

section Expressions
variable {N : Type} [Numerals N]

theorem exprTokens_primary {e : Expr N} (hprec : getPrecedence e = 99) {p : ℕ} (hp : p ≤ 990)
    (k : List (Lexeme N)) : exprTokens e p k = exprTokens e 0 k := by
  rw [exprTokens_eq, if_neg (by omega)]

theorem readsBase_identifier {name : String} (h : IsName name) :
    ReadsBase (N := N) (.identifier name) := by
  intro k
  show parser.call .parsePrefixExp (exprTokens (.identifier name) 990 k) = _
  rw [exprTokens, Expr.reread]
  exact parsePrefixExp_name h.2

theorem readsBase_vararg : ReadsBase (N := N) (.varargLiteral true) := by
  intro k
  show parser.call .parsePrefixExp (exprTokens (.varargLiteral true) 990 k) = _
  rw [exprTokens, Expr.reread]
  refine parsePrefixExp_paren (e := .varargLiteral false) ?_
  rw [parseExpression_eq, parseSubExpression_eq (parse_literal rfl rfl _)]
  exact parseOperators_stop (Or.inl rfl) _

theorem readsBase_call {base : Expr N} {args : List (Expr N)} (hbase : ReadsBase base)
    (hlegible : exprsLegible args) (hargs : ReadsAll args) (inParens : Bool) :
    ReadsBase (.callExpression base args inParens) := by
  intro k
  show parser.call .parsePrefixExp (exprTokens _ 990 k) = _
  rw [exprTokens, Expr.reread]
  exact (hbase _).trans (parseSuffixes_call (parseCallArgs_eq hlegible hargs k))

theorem readsBase_methodCall {base method : Expr N} {args : List (Expr N)} (hbase : ReadsBase base)
    (hmethod : method.IsNamed) (hlegible : exprsLegible args) (hargs : ReadsAll args)
    (inParens : Bool) : ReadsBase (.methodCallExpression base method args inParens) := by
  intro k
  show parser.call .parsePrefixExp (exprTokens _ 990 k) = _
  rw [exprTokens, Expr.reread]
  exact (hbase _).trans (parseSuffixes_method hmethod (parseCallArgs_eq hlegible hargs k))

theorem readsBase_member {base property : Expr N} (hbase : ReadsBase base)
    (hproperty : property.IsNamed) : ReadsBase (.memberExpression base property) := by
  intro k
  show parser.call .parsePrefixExp (exprTokens _ 990 k) = _
  rw [exprTokens, Expr.reread]
  exact (hbase _).trans (parseSuffixes_member hproperty)

theorem readsBase_index {base index : Expr N} (hbase : ReadsBase base) (hindex : Reads index) :
    ReadsBase (.indexExpression base index) := by
  intro k
  show parser.call .parsePrefixExp (exprTokens _ 990 k) = _
  rw [exprTokens, Expr.reread]
  exact (hbase _).trans (parseSuffixes_index (hindex.expression
    (Closes.of_mem (List.mem_of_elem_eq_true rfl))))

theorem readsBase_function {params : List (Expr N)} {isVararg : Bool} {block : List (Stmt N)}
    (h : Reads (.functionExpression params isVararg block)) :
    ReadsBase (.functionExpression params isVararg block) := by
  intro k
  show parser.call .parsePrefixExp (openParen :: exprTokens _ 990 (closeParen::k)) = _
  rw [exprTokens_primary rfl le_rfl, h.parens k, Expr.reread]
  rfl

/-- What is one token is read as it. -/
theorem reads_literal {e : Expr N} {t : Lexeme N} (htokens : ∀ k, exprTokens e 0 k = t::k)
    (hunary : unary t.type = none) (h : literal t = some e.reread) : Reads e := by
  intro minPrec k _ _ _
  rw [htokens]
  exact parseSubExpression_eq (parse_literal hunary h k)

theorem reads_function {params : List (Expr N)} {isVararg : Bool} {block : List (Stmt N)}
    (h : ∀ k, parser.call .parseFunctionBody
        (openParen :: paramsTokens params isVararg
          (closeParen :: blockTokens block (.word "end" :: k))) =
      some (.ok ((params, isVararg, blockReread block), k))) :
    Reads (.functionExpression params isVararg block) := by
  intro minPrec k _ _ _
  rw [exprTokens, Expr.reread]
  show parser.call _ (.word "function" :: openParen :: paramsTokens params isVararg
    (closeParen :: blockTokens block (.word "end" :: k))) = _
  refine parseSubExpression_eq ?_
  rw [call_eq]
  simp only [body]
  rw [bind_peek]
  show (accept .functionWord >>= _) _ = _
  rw [accept_hit (by rfl), if_pos rfl, bind_ok (h k)]
  rfl

theorem reads_table {fields : List (TableField N)}
    (h : ∀ k, parser.call .parseFields
        (fieldsTokens fields (.punctuation .rbrace "\x7d" :: k)) =
      some (.ok (fieldsReread fields, .punctuation .rbrace "\x7d" :: k))) :
    Reads (.tableConstructor fields) := by
  intro minPrec k _ _ _
  rw [exprTokens, Expr.reread]
  show parser.call _ (.punctuation .lbrace "\x7b" ::
    fieldsTokens fields (.punctuation .rbrace "\x7d" :: k)) = _
  refine parseSubExpression_eq ?_
  rw [call_eq]
  simp only [body]
  rw [bind_peek]
  show parser.call .parseTableConstructor _ = _
  rw [call_eq]
  simp only [body]
  rw [consume_hit (by rfl), bind_ok (h k), consume_hit (by rfl)]
  rfl

end Expressions

section Names
variable {N : Type}

/-- The names after the first one of a list. -/
def moreNames (names : List (Expr N)) (k : List (Lexeme N)) : List (Lexeme N) :=
  (names.map fun p => (.word (p.name?.getD "") : Lexeme N)).flatMap (fun t => [comma, t]) ++ k

theorem moreNames_cons {p : Expr N} {name : String} (hp : p = .identifier name)
    (names : List (Expr N)) (k : List (Lexeme N)) :
    moreNames (p::names) k = comma :: .word name :: moreNames names k := by
  subst hp
  rfl

theorem moreIdentifiers_eq {names : List (Expr N)} (h : ∀ p ∈ names, p.IsNamed)
    {k : List (Lexeme N)} (hk : nextType k ≠ .comma) (errorMsg : String) :
    parser.call (.moreIdentifiers errorMsg) (moreNames names k) = some (.ok (names, k)) := by
  induction names with
  | nil =>
    rw [call_eq]
    simp only [body]
    rw [show moreNames [] k = k from rfl, accept_miss hk, if_neg Bool.false_ne_true]
    rfl
  | cons p names ih =>
    obtain ⟨name, hp, hname⟩ := h p List.mem_cons_self
    have hrest := ih fun q hq => h q (List.mem_cons_of_mem _ hq)
    rw [moreNames_cons hp, call_eq, hp]
    simp only [body]
    rw [accept_hit (by rfl), if_pos rfl, identifier_hit hname.2, bind_ok hrest]
    rfl

/-- The parameters after the first one, and the dots. -/
theorem moreParams_eq {params : List (Expr N)} (h : ∀ p ∈ params, p.IsNamed) (isVararg : Bool)
    {k : List (Lexeme N)} (hk : nextType k ≠ .comma) :
    parser.call .moreParams (moreNames params (if isVararg then comma :: dots :: k else k)) =
      some (.ok ((params, isVararg), k)) := by
  induction params with
  | nil =>
    rw [call_eq]
    simp only [body]
    cases isVararg with
    | false =>
      show (accept .comma >>= _) k = _
      rw [accept_miss hk, if_neg Bool.false_ne_true]
      rfl
    | true =>
      show (accept .comma >>= _) (comma :: dots :: k) = _
      rw [accept_hit (by rfl), if_pos rfl, accept_hit (by rfl), if_pos rfl]
      rfl
  | cons p params ih =>
    obtain ⟨name, hp, hname⟩ := h p List.mem_cons_self
    have hrest := ih fun q hq => h q (List.mem_cons_of_mem _ hq)
    have hword : (.word name : Lexeme N).type ≠ .dotDotDot := by
      rw [word_of_name hname.2]
      exact fun h => by cases h
    rw [moreNames_cons hp, call_eq, hp]
    simp only [body]
    rw [accept_hit (by rfl), if_pos rfl, accept_miss (by rwa [nextType_cons]),
      if_neg Bool.false_ne_true, identifier_hit hname.2, bind_ok hrest]
    rfl

theorem paramsTokens_cons {p : Expr N} {name : String} (hp : p = .identifier name)
    (params : List (Expr N)) (isVararg : Bool) (k : List (Lexeme N)) :
    paramsTokens (p::params) isVararg k =
      .word name :: moreNames params (if isVararg then comma :: dots :: k else k) := by
  subst hp
  cases isVararg <;> simp [paramsTokens, separated, moreNames, Expr.name?]

variable [Numerals N]

theorem parseFunctionBody_eq {params : List (Expr N)} (h : ∀ p ∈ params, p.IsNamed)
    (isVararg : Bool) {block : List (Stmt N)} {k : List (Lexeme N)}
    (hblock : parser.call .parseBlock (blockTokens block (.word "end" :: k)) =
      some (.ok (blockReread block, .word "end" :: k))) :
    parser.call .parseFunctionBody
        (openParen :: paramsTokens params isVararg
          (closeParen :: blockTokens block (.word "end" :: k))) =
      some (.ok ((params, isVararg, blockReread block), k)) := by
  rw [call_eq]
  simp only [body]
  rw [consume_hit (by rfl), bind_is]
  cases params with
  | nil =>
    cases isVararg with
    | false =>
      rw [show paramsTokens [] false (closeParen :: blockTokens block (.word "end" :: k)) =
        closeParen :: blockTokens block (.word "end" :: k) from rfl, nextType_cons,
        accept_miss (fun h => by cases h), decide_eq_true (by rfl), if_pos rfl, pure_bind,
        consume_hit (by rfl), bind_ok hblock, consume_hit (by rfl)]
      rfl
    | true =>
      rw [show paramsTokens [] true (closeParen :: blockTokens block (.word "end" :: k)) =
        dots :: closeParen :: blockTokens block (.word "end" :: k) from rfl, nextType_cons,
        accept_hit (by rfl), decide_eq_false (fun h => by cases h), if_neg Bool.false_ne_true,
        if_pos rfl, pure_bind, consume_hit (by rfl), bind_ok hblock, consume_hit (by rfl)]
      rfl
  | cons p params =>
    obtain ⟨name, hp, hname⟩ := h p List.mem_cons_self
    have htype : (.word name : Lexeme N).type = .ident := by rw [word_of_name hname.2]
    have hmore := moreParams_eq (fun q hq => h q (List.mem_cons_of_mem _ hq)) isVararg
      (k := closeParen :: blockTokens block (.word "end" :: k)) (fun h => by cases h)
    rw [paramsTokens_cons hp, nextType_cons, htype,
      accept_miss (by rw [nextType_cons, htype]; exact fun h => by cases h),
      decide_eq_false (fun h => by cases h), if_neg Bool.false_ne_true, if_neg Bool.false_ne_true,
      identifier_hit hname.2, bind_ok hmore, pure_bind, consume_hit (by rfl), bind_ok hblock,
      consume_hit (by rfl), hp]
    rfl

end Names

section Fields
variable {N : Type} [Numerals N]

def closeBrace : Lexeme N := .punctuation .rbrace "\x7d"

/-- A field is read where a comma or the end of the table follows. -/
def ReadsField (f : TableField N) : Prop :=
  ∀ k, nextType k ∈ [.comma, .rbrace] →
    nextType (fieldTokens f k) ∉ [.rbrace, .eof] ∧
      parser.call .parseField (fieldTokens f k) = some (.ok (fieldReread f, k))

omit [Numerals N] in
theorem Closes.of_field {isOpen : Bool} {k : List (Lexeme N)} (h : nextType k ∈ [.comma, .rbrace]) :
    Closes isOpen k := by
  refine Closes.of_mem ?_
  simp only [List.mem_cons, List.not_mem_nil, or_false] at h ⊢
  rcases h with h | h <;> simp [h]

omit [Numerals N] in
theorem bind_peekNext {α : Type} (ts : List (Lexeme N)) (f : Lexeme N → Parser N α) :
    (peekNext >>= f) ts = f ((ts.drop 1).headD .eof) ts :=
  bind_ok rfl

theorem readsField_key {key value : Expr N} (hkey : Reads key) (hvalue : Reads value) :
    ReadsField (.tableKey key value) := by
  intro k hk
  refine ⟨by rw [fieldTokens]; exact fun h => by simp [Lexeme.punctuation] at h, ?_⟩
  rw [fieldTokens, fieldReread, call_eq]
  simp only [body]
  rw [accept_hit (by rfl), if_pos rfl,
    bind_ok (hkey.expression (Closes.of_mem (List.mem_of_elem_eq_true rfl))),
    consume_hit (by rfl), consume_hit (by rfl), bind_ok (hvalue.expression (Closes.of_field hk))]
  rfl

theorem readsField_keyString {key value : Expr N} (hkey : key.IsNamed) (hvalue : Reads value) :
    ReadsField (.tableKeyString key value) := by
  obtain ⟨name, rfl, hname⟩ := hkey
  intro k hk
  rw [fieldTokens, fieldReread]
  rw [show nameText (.identifier name : Expr N) = name from rfl, word_of_name hname.2]
  refine ⟨fun h => by simp at h, ?_⟩
  rw [call_eq]
  simp only [body]
  rw [accept_miss (fun h => by cases h), if_neg Bool.false_ne_true, bind_peek, bind_peekNext,
    if_pos ⟨by rfl, by rfl⟩, bind_advance, List.tail_cons, consume_hit (by rfl),
    bind_ok (hvalue.expression (Closes.of_field hk))]
  rfl

theorem readsField_value {value : Expr N} (hlegible : value.Legible) (hvalue : Reads value) :
    ReadsField (.tableValue value) := by
  intro k hk
  have hstarts := (startsAs_expr value hlegible 0 k).1
  have hother : ∀ type, type ∉ exprStarts → nextType (exprTokens value 0 k) ≠ type := by
    rintro type htype rfl
    exact htype hstarts
  have hassigned : NotAssigned (exprTokens value 0 k) := by
    refine notAssigned_expr value hlegible 0 k fun h => ?_
    rw [h] at hk
    revert hk
    decide
  rw [fieldTokens, fieldReread]
  refine ⟨?_, ?_⟩
  · simp only [List.mem_cons, List.not_mem_nil, or_false, not_or]
    exact ⟨hother _ (by decide), hother _ (by decide)⟩
  · rw [call_eq]
    simp only [body]
    rw [accept_miss (hother _ (by decide)), if_neg Bool.false_ne_true, bind_peek, bind_peekNext,
      List.drop_one, if_neg fun h => hassigned h.1 h.2,
      bind_ok (hvalue.expression (Closes.of_field hk))]
    rfl

theorem parseFields_eq {fields : List (TableField N)} (h : ∀ f ∈ fields, ReadsField f)
    (k : List (Lexeme N)) :
    parser.call .parseFields (fieldsTokens fields (closeBrace::k)) =
      some (.ok (fieldsReread fields, closeBrace::k)) := by
  induction fields with
  | nil =>
    rw [call_eq]
    simp only [body]
    rw [fieldsTokens, bind_isOneOf]
    rfl
  | cons f fields ih =>
    have hnext : nextType (moreFieldsTokens fields (closeBrace::k)) ∈ [.comma, .rbrace] := by
      cases fields with
      | nil => exact List.mem_of_elem_eq_true rfl
      | cons g fields => exact List.mem_of_elem_eq_true rfl
    obtain ⟨hstart, hread⟩ := h f List.mem_cons_self _ hnext
    have hrest := ih fun g hg => h g (List.mem_cons_of_mem _ hg)
    rw [call_eq]
    simp only [body]
    rw [fieldsTokens, bind_isOneOf, decide_eq_false hstart, if_neg Bool.false_ne_true,
      bind_ok hread]
    cases fields with
    | nil => rfl
    | cons g fields =>
      rw [fieldsTokens] at hrest
      have hseparator : acceptSeparator (moreFieldsTokens (g::fields) (closeBrace::k)) =
          some (.ok (true, fieldTokens g (moreFieldsTokens fields (closeBrace::k)))) := by
        rw [acceptSeparator, moreFieldsTokens, accept_hit (by rfl)]
        rfl
      rw [bind_ok hseparator, if_pos rfl, bind_ok hrest]
      rfl

end Fields

section Statements
variable {N : Type}

/-- What statements start with. -/
def stmtStarts : List TokenType :=
  [.localWord, .functionWord, .ifWord, .whileWord, .repeatWord, .doWord, .forWord, .breakWord,
    .continueWord, .returnWord, .ident, .lparen]

/-- What may follow a statement: another one, or the end of the block. -/
def Borders (k : List (Lexeme N)) : Prop := nextType k ∈ stmtStarts ++ endsBlock

theorem borders_facts : ∀ type ∈ stmtStarts ++ endsBlock,
    type.infixOperator = none ∧ type ≠ .semicolon ∧ type ≠ .comma ∧ type ≠ .assign ∧
      type ∉ assignmentTypes ∧ (type ≠ .lparen → type ∉ suffixTypes) := by
  decide

theorem Borders.closes {isOpen : Bool} {k : List (Lexeme N)} (h : Borders k)
    (hparen : isOpen = true → nextType k ≠ .lparen) : Closes isOpen k :=
  ⟨(borders_facts _ h).1, fun hopen => (borders_facts _ h).2.2.2.2.2 (hparen hopen)⟩

theorem Borders.of_end {k : List (Lexeme N)} (h : nextType k ∈ endsBlock) : Borders k :=
  List.mem_append_right _ h

variable (ts : List (Lexeme N))

theorem parseStatement_localFunction :
    parser.call .parseStatement (.word "local" :: .word "function" :: ts) =
      parser.call .parseLocalFunction ts := by
  have hlocal : nextType (.word "local" :: .word "function" :: ts) = .localWord := rfl
  have hfunction : nextType (.word "function" :: ts) = .functionWord := rfl
  rw [call_eq]
  simp only [body, bind_accept, hlocal, hfunction, reduceCtorEq, if_true, if_false,
    Bool.false_eq_true, List.tail_cons]

theorem parseStatement_local (h : nextType ts ≠ .functionWord) :
    parser.call .parseStatement (.word "local" :: ts) = parser.call .parseLocalVariables ts := by
  have hlocal : nextType (.word "local" :: ts) = .localWord := rfl
  rw [call_eq]
  simp only [body, bind_accept, hlocal, h, reduceCtorEq, if_true, if_false, Bool.false_eq_true,
    List.tail_cons]

/-- The statements that are told by one word. -/
def wordRule : TokenType → Option (Rule N (Stmt N))
  | .functionWord => some .parseFunctionDeclaration
  | .ifWord => some .parseIfStatement
  | .whileWord => some .parseWhileStatement
  | .repeatWord => some .parseRepeatStatement
  | .forWord => some .parseForStatement
  | _ => none

theorem parseStatement_word {t : Lexeme N} {r : Rule N (Stmt N)} (h : wordRule t.type = some r) :
    parser.call .parseStatement (t::ts) = parser.call r ts := by
  rw [call_eq]
  unfold wordRule at h
  split at h <;> cases h
  all_goals
    next htype =>
      simp only [body, bind_accept, nextType_cons, htype, reduceCtorEq, if_true, if_false,
        Bool.false_eq_true, List.tail_cons]

/-- What starts with a name or a parenthesis is a call or an assignment. -/
theorem parseStatement_base (h : nextType ts ∈ prefixStarts) :
    parser.call .parseStatement ts = parser.call .parseCallOrAssignment ts := by
  have hother : ∀ type, type ∉ prefixStarts → ¬ nextType ts = type := by
    rintro type htype rfl
    exact htype h
  rw [call_eq]
  simp only [body, bind_accept, hother .semicolon (by decide), hother .localWord (by decide),
    hother .functionWord (by decide), hother .ifWord (by decide), hother .whileWord (by decide),
    hother .repeatWord (by decide), hother .doWord (by decide), hother .forWord (by decide),
    hother .breakWord (by decide), hother .continueWord (by decide),
    hother .returnWord (by decide), if_false, Bool.false_eq_true]

end Statements

section Readings
variable {N : Type} [Numerals N]

/-- What follows a statement does not go on with it. -/
structure Follows (s : Stmt N) (k : List (Lexeme N)) : Prop where
  borders : Borders k
  paren : s.endsOpen = true → nextType k ≠ .lparen
  bare : s.IsBareReturn = true → nextType k ∈ endsBlock

def ReadsStmt (s : Stmt N) : Prop :=
  ∀ k, Follows s k → parser.call .parseStatement (stmtTokens s k) = some (.ok (s.reread, k))

def ReadsBlock (block : List (Stmt N)) : Prop :=
  ∀ k, nextType k ∈ endsBlock →
    parser.call .parseBlock (blockTokens block k) = some (.ok (blockReread block, k))

theorem ReadsBlock.body {block : List (Stmt N)} (h : ReadsBlock block) (k : List (Lexeme N)) :
    parser.call .parseBlock (blockTokens block (.word "end" :: k)) =
      some (.ok (blockReread block, .word "end" :: k)) :=
  h _ (List.mem_of_elem_eq_true rfl)

omit [Numerals N] in
theorem Borders.no_semicolon {α : Type} {k : List (Lexeme N)} (h : Borders k)
    (f : Bool → Parser N α) : (accept .semicolon >>= f) k = f false k :=
  accept_miss (borders_facts _ h).2.1 f

theorem exprsTokens_named {v : Expr N} {name : String} (hv : v = .identifier name)
    {vars : List (Expr N)} (h : ∀ p ∈ vars, p.IsNamed) (k : List (Lexeme N)) :
    exprsTokens (v::vars) k = .word name :: moreNames vars k := by
  have hmore : moreExprsTokens vars k = moreNames vars k := by
    induction vars with
    | nil => rfl
    | cons p vars ih =>
      obtain ⟨name, hp, -⟩ := h p List.mem_cons_self
      rw [moreNames_cons hp, moreExprsTokens, hp, exprTokens,
        ih fun q hq => h q (List.mem_cons_of_mem _ hq)]
      rfl
  rw [exprsTokens, hv, exprTokens, hmore]
  rfl

theorem readsStmt_local {vars init : List (Expr N)} (hvars : vars ≠ [])
    (hnamed : ∀ v ∈ vars, v.IsNamed) (hinit : ReadsAll init) :
    ReadsStmt (.localStatement vars init) := by
  intro k hk
  obtain ⟨v, vars, rfl⟩ := List.exists_cons_of_ne_nil hvars
  obtain ⟨name, hv, hname⟩ := hnamed v List.mem_cons_self
  have hmore := fun k hk => @moreIdentifiers_eq N vars
    (fun q hq => hnamed q (List.mem_cons_of_mem _ hq)) k hk
      "Expected variable name after comma in local statement"
  have hword : (.word name : Lexeme N).type = .ident := by rw [word_of_name hname.2]
  rw [stmtTokens, exprsTokens_named hv fun q hq => hnamed q (List.mem_cons_of_mem _ hq),
    parseStatement_local _ (by rw [nextType_cons, hword]; exact fun h => by cases h), Stmt.reread,
    call_eq]
  simp only [body]
  rw [identifier_hit hname.2]
  cases init with
  | nil =>
    rw [List.isEmpty_nil, if_pos rfl, bind_ok (hmore k (borders_facts _ hk.borders).2.2.1),
      accept_miss (borders_facts _ hk.borders).2.2.2.1, if_neg Bool.false_ne_true, pure_bind,
      hk.borders.no_semicolon, hv]
    rfl
  | cons e es =>
    rw [show (e::es).isEmpty = false from rfl, if_neg Bool.false_ne_true,
      bind_ok (hmore _ fun h => by cases h), accept_hit (by rfl), if_pos rfl,
      bind_ok (parseExpressions_eq hinit (borders_facts _ hk.borders).2.2.1
        (hk.borders.closes hk.paren)), hk.borders.no_semicolon, hv]
    rfl

theorem readsStmt_localFunction {identifier : Expr N} {params : List (Expr N)}
    (hnamed : identifier.IsNamed) (hparams : ∀ p ∈ params, p.IsNamed) (isVararg : Bool)
    {block : List (Stmt N)} (hblock : ReadsBlock block) :
    ReadsStmt (.localFunctionStatement identifier params isVararg block) := by
  intro k _
  obtain ⟨name, rfl, hname⟩ := hnamed
  rw [stmtTokens, parseStatement_localFunction, Stmt.reread, call_eq]
  simp only [body]
  rw [show nameText (.identifier name : Expr N) = name from rfl, identifier_hit hname.2,
    bind_ok (parseFunctionBody_eq hparams isVararg (hblock.body k))]
  rfl

/-- Names with dots between them are read one by one. -/
theorem moreName_eq : ∀ (e : Expr N), e.IsFunctionName → e.Legible → ∀ k,
    (identifier "Expected function name" >>= fun first => parser.call (.moreName first))
        (exprTokens e 0 k) = parser.call (.moreName e) k
  | .identifier name, _, h, k => by
    rw [exprTokens]
    exact identifier_hit h.2 _ _
  | .memberExpression base property, hname, h, k => by
    obtain ⟨name, hproperty, hkeyword⟩ := h.2.2
    have hfunction : isFunction base = false := by
      cases base with
      | functionExpression => exact hname.elim
      | _ => rfl
    have hprec : getPrecedence base = 99 := by
      cases base with
      | identifier => rfl
      | memberExpression => rfl
      | _ => exact hname.elim
    have htokens : exprTokens (.memberExpression base property) 0 k =
        exprTokens base 0 (.punctuation .dot "." :: .word (nameText property) :: k) := by
      rw [exprTokens, ← exprTokens_primary hprec le_rfl]
      show enclosed (isFunction base) _ (exprTokens base 990) = _
      rw [hfunction]
      rfl
    rw [htokens, moreName_eq base hname h.2.1, call_eq, hproperty]
    simp only [body]
    rw [accept_hit (by rfl), if_pos rfl,
      show nameText (.identifier name : Expr N) = name from rfl, identifier_hit hkeyword.2]

theorem readsStmt_function {name : Expr N} {params : List (Expr N)} (hname : name.IsFunctionName)
    (hlegible : name.Legible) (hparams : ∀ p ∈ params, p.IsNamed) (isVararg isMethod : Bool)
    {block : List (Stmt N)} (hblock : ReadsBlock block) :
    ReadsStmt (.functionDeclaration name params isVararg block isMethod) := by
  intro k _
  have hmore : parser.call (.moreName name)
      (openParen :: paramsTokens params isVararg
        (closeParen :: blockTokens block (.word "end" :: k))) =
      some (.ok (name, openParen :: paramsTokens params isVararg
        (closeParen :: blockTokens block (.word "end" :: k)))) := by
    rw [call_eq]
    simp only [body]
    rw [accept_miss (fun h => by cases h), if_neg Bool.false_ne_true]
    rfl
  rw [stmtTokens, parseStatement_word _ (r := .parseFunctionDeclaration) rfl, Stmt.reread, call_eq]
  simp only [body]
  rw [← bind_assoc, bind_ok ((moreName_eq name hname hlegible _).trans hmore),
    accept_miss (fun h => by cases h), if_neg Bool.false_ne_true, pure_bind,
    bind_ok (parseFunctionBody_eq hparams isVararg (hblock.body k))]
  rfl

theorem readsStmt_while {condition : Expr N} {block : List (Stmt N)} (hcondition : Reads condition)
    (hblock : ReadsBlock block) : ReadsStmt (.whileStatement condition block) := by
  intro k _
  rw [stmtTokens, parseStatement_word _ (r := .parseWhileStatement) rfl, Stmt.reread, call_eq]
  simp only [body]
  rw [bind_ok (hcondition.expression (Closes.of_mem (List.mem_of_elem_eq_true rfl))),
    consume_hit (by rfl), bind_ok (hblock.body k), consume_hit (by rfl)]
  rfl

theorem readsStmt_repeat {condition : Expr N} {block : List (Stmt N)} (hcondition : Reads condition)
    (hblock : ReadsBlock block) : ReadsStmt (.repeatStatement condition block) := by
  intro k hk
  have hbody := hblock (.word "until" :: exprTokens condition 0 k) (List.mem_of_elem_eq_true rfl)
  rw [stmtTokens, parseStatement_word _ (r := .parseRepeatStatement) rfl, Stmt.reread, call_eq]
  simp only [body]
  rw [bind_ok hbody, consume_hit (by rfl),
    bind_ok (hcondition.expression (hk.borders.closes hk.paren)), hk.borders.no_semicolon]
  rfl

theorem readsStmt_do {block : List (Stmt N)} (hblock : ReadsBlock block) :
    ReadsStmt (.doStatement block) := by
  intro k _
  have hnext : nextType (.word "do" :: blockTokens block (.word "end" :: k)) = .doWord := rfl
  rw [stmtTokens, Stmt.reread, call_eq]
  simp only [body, bind_accept, hnext, reduceCtorEq, if_true, if_false, Bool.false_eq_true,
    List.tail_cons]
  rw [bind_ok (hblock.body k), consume_hit (by rfl)]
  rfl

theorem readsStmt_numericFor {variableName start stop : Expr N} {step : Option (Expr N)}
    {block : List (Stmt N)} (hnamed : variableName.IsNamed) (hstart : Reads start)
    (hstop : Reads stop) (hstep : ∀ e ∈ step, Reads e) (hblock : ReadsBlock block) :
    ReadsStmt (.numericForStatement variableName start stop step block) := by
  intro k _
  obtain ⟨name, rfl, hname⟩ := hnamed
  rw [stmtTokens.eq_def, Stmt.reread.eq_def]
  dsimp only
  rw [parseStatement_word _ (r := .parseForStatement) rfl, call_eq]
  simp only [body]
  rw [show nameText (.identifier name : Expr N) = name from rfl, identifier_hit hname.2,
    accept_hit (by rfl), if_pos rfl,
    bind_ok (hstart.expression (Closes.of_mem (List.mem_of_elem_eq_true rfl))),
    consume_hit (by rfl)]
  cases step with
  | none =>
    dsimp only
    rw [bind_ok (hstop.expression (Closes.of_mem (List.mem_of_elem_eq_true rfl))),
      accept_miss (fun h => by cases h), if_neg Bool.false_ne_true, pure_bind,
      consume_hit (by rfl), bind_ok (hblock.body k), consume_hit (by rfl)]
    rfl
  | some step =>
    dsimp only
    rw [bind_ok (hstop.expression (Closes.of_mem (List.mem_of_elem_eq_true rfl))),
      accept_hit (by rfl), if_pos rfl, bind_assoc,
      bind_ok ((hstep step rfl).expression (Closes.of_mem (List.mem_of_elem_eq_true rfl))),
      pure_bind, consume_hit (by rfl), bind_ok (hblock.body k), consume_hit (by rfl)]
    rfl

theorem readsStmt_genericFor {vars iterators : List (Expr N)} {block : List (Stmt N)}
    (hvars : vars ≠ []) (hnamed : ∀ v ∈ vars, v.IsNamed) (hiterators : iterators ≠ [])
    (hreads : ReadsAll iterators) (hblock : ReadsBlock block) :
    ReadsStmt (.genericForStatement vars iterators block) := by
  intro k _
  obtain ⟨v, vars, rfl⟩ := List.exists_cons_of_ne_nil hvars
  obtain ⟨e, es, rfl⟩ := List.exists_cons_of_ne_nil hiterators
  obtain ⟨name, hv, hname⟩ := hnamed v List.mem_cons_self
  have hmore := @moreIdentifiers_eq N vars (fun q hq => hnamed q (List.mem_cons_of_mem _ hq))
    (.word "in" :: exprsTokens (e::es) (.word "do" :: blockTokens block (.word "end" :: k)))
    (fun h => by cases h) "Expected variable name after comma"
  have hassign : nextType (moreNames vars
      (.word "in" :: exprsTokens (e::es) (.word "do" :: blockTokens block (.word "end" :: k)))) ≠
        .assign := by
    cases vars with
    | nil => exact fun h => by cases h
    | cons w vars => exact fun h => by cases h
  rw [stmtTokens, parseStatement_word _ (r := .parseForStatement) rfl, Stmt.reread,
    paramsTokens_cons hv, call_eq]
  simp only [body]
  rw [identifier_hit hname.2, if_neg Bool.false_ne_true, accept_miss hassign,
    if_neg Bool.false_ne_true, bind_ok hmore, consume_hit (by rfl),
    bind_ok (parseExpressions_eq hreads (fun h => by cases h)
      (Closes.of_mem (List.mem_of_elem_eq_true rfl))),
    consume_hit (by rfl), bind_ok (hblock.body k), consume_hit (by rfl), hv]
  rfl

theorem readsStmt_return {args : List (Expr N)} (hlegible : exprsLegible args)
    (hargs : ReadsAll args) : ReadsStmt (.returnStatement args) := by
  intro k hk
  have hnext : nextType (.word "return" :: exprsTokens args k) = .returnWord := rfl
  rw [stmtTokens, Stmt.reread, call_eq]
  simp only [body, bind_accept, hnext, reduceCtorEq, if_true, if_false, Bool.false_eq_true,
    List.tail_cons]
  rw [bind_isOneOf]
  cases args with
  | nil =>
    rw [exprsTokens, decide_eq_true (List.mem_cons_of_mem _ (hk.bare rfl)), if_pos rfl, pure_bind]
    exact hk.borders.no_semicolon _
  | cons e es =>
    have hstart : nextType (exprsTokens (e::es) k) ∉ .semicolon :: endsBlock := by
      intro hmem
      have hstarts := (startsAs_expr e hlegible.1 0 (moreExprsTokens es k)).1
      rw [exprsTokens] at hmem
      generalize nextType (exprTokens e 0 (moreExprsTokens es k)) = type at hmem hstarts
      simp only [endsBlock, List.mem_cons, List.not_mem_nil, or_false] at hmem
      rcases hmem with rfl | rfl | rfl | rfl | rfl | rfl <;> revert hstarts <;> decide
    rw [decide_eq_false hstart, if_neg Bool.false_ne_true,
      bind_ok (parseExpressions_eq hargs (borders_facts _ hk.borders).2.2.1
        (hk.borders.closes hk.paren))]
    exact hk.borders.no_semicolon _

theorem readsStmt_break : ReadsStmt (.breakStatement : Stmt N) := by
  intro k hk
  have hnext : nextType (.word "break" :: k) = .breakWord := rfl
  rw [stmtTokens, Stmt.reread, call_eq]
  simp only [body, bind_accept, hnext, reduceCtorEq, if_true, if_false, Bool.false_eq_true,
    List.tail_cons, if_neg (borders_facts _ hk.borders).2.1]
  rfl

theorem readsStmt_continue : ReadsStmt (.continueStatement : Stmt N) := by
  intro k hk
  have hnext : nextType (.word "continue" :: k) = .continueWord := rfl
  rw [stmtTokens, Stmt.reread, call_eq]
  simp only [body, bind_accept, hnext, reduceCtorEq, if_true, if_false, Bool.false_eq_true,
    List.tail_cons, if_neg (borders_facts _ hk.borders).2.1]
  rfl

def ReadsClause : IfClause N → Prop
  | .mk condition block => Reads condition ∧ ReadsBlock block

theorem nextType_clauses (clauses : List (IfClause N)) {k : List (Lexeme N)}
    (hk : nextType k ∈ [.elseWord, .endWord]) :
    nextType (clausesTokens "elseif" clauses k) ∈ endsBlock := by
  cases clauses with
  | nil =>
    rw [clausesTokens]
    exact (show ∀ type ∈ [TokenType.elseWord, .endWord], type ∈ endsBlock by decide) _ hk
  | cons clause clauses =>
    obtain ⟨condition, block⟩ := clause
    rw [clausesTokens]
    exact List.mem_of_elem_eq_true rfl

theorem parseElseifs_eq {clauses : List (IfClause N)} (h : ∀ c ∈ clauses, ReadsClause c)
    {k : List (Lexeme N)} (hk : nextType k ∈ [.elseWord, .endWord]) :
    parser.call .parseElseifs (clausesTokens "elseif" clauses k) =
      some (.ok (clausesReread clauses, k)) := by
  induction clauses with
  | nil =>
    have hmiss : nextType k ≠ .elseifWord := by
      intro h
      rw [h] at hk
      revert hk
      decide
    rw [clausesTokens, call_eq]
    simp only [body]
    rw [accept_miss hmiss, if_neg Bool.false_ne_true]
    rfl
  | cons clause clauses ih =>
    obtain ⟨condition, block⟩ := clause
    obtain ⟨hcondition, hblock⟩ := h _ List.mem_cons_self
    have hrest := ih fun c hc => h c (List.mem_cons_of_mem _ hc)
    rw [clausesTokens, call_eq]
    simp only [body]
    rw [accept_hit (by rfl), if_pos rfl,
      bind_ok (hcondition.expression (Closes.of_mem (List.mem_of_elem_eq_true rfl))),
      consume_hit (by rfl), bind_ok (hblock _ (nextType_clauses clauses hk)), bind_ok hrest]
    rfl

theorem readsStmt_if {clauses : List (IfClause N)} {elseBody : Option (List (Stmt N))}
    (hclauses : clauses ≠ []) (hreads : ∀ c ∈ clauses, ReadsClause c)
    (helse : ∀ block ∈ elseBody, ReadsBlock block) : ReadsStmt (.ifStatement clauses elseBody) := by
  intro k _
  obtain ⟨⟨condition, block⟩, clauses, rfl⟩ := List.exists_cons_of_ne_nil hclauses
  obtain ⟨hcondition, hblock⟩ := hreads _ List.mem_cons_self
  have hrest := fun k hk => parseElseifs_eq
    (fun c hc => hreads c (List.mem_cons_of_mem _ hc)) (k := k) hk
  rw [stmtTokens.eq_def, Stmt.reread.eq_def]
  dsimp only
  rw [clausesTokens, parseStatement_word _ (r := .parseIfStatement) rfl, call_eq]
  simp only [body]
  rw [bind_ok (hcondition.expression (Closes.of_mem (List.mem_of_elem_eq_true rfl))),
    consume_hit (by rfl)]
  cases elseBody with
  | none =>
    have hend : nextType (.word "end" :: k) ∈ [.elseWord, .endWord] := List.mem_of_elem_eq_true rfl
    rw [bind_ok (hblock _ (nextType_clauses clauses hend)), bind_ok (hrest _ hend),
      accept_miss (fun h => by cases h), if_neg Bool.false_ne_true, pure_bind, consume_hit (by rfl)]
    rfl
  | some block =>
    cases block with
    | nil =>
      have hend : nextType (.word "end" :: k) ∈ [.elseWord, .endWord] :=
        List.mem_of_elem_eq_true rfl
      dsimp only
      rw [bind_ok (hblock _ (nextType_clauses clauses hend)), bind_ok (hrest _ hend),
        accept_miss (fun h => by cases h), if_neg Bool.false_ne_true, pure_bind,
        consume_hit (by rfl)]
      rfl
    | cons s ss =>
      have hbody := (helse (s::ss) rfl).body k
      rw [blockTokens] at hbody
      have hnext : nextType (.word "else" :: stmtTokens s (blockTokens ss (.word "end" :: k))) ∈
        [.elseWord, .endWord] := List.mem_of_elem_eq_true rfl
      dsimp only
      rw [bind_ok (hblock _ (nextType_clauses clauses hnext)), bind_ok (hrest _ hnext),
        accept_hit (by rfl), if_pos rfl, bind_assoc, bind_ok hbody, pure_bind,
        consume_hit (by rfl)]
      rfl

end Readings
end LuaRecovery.Lua
