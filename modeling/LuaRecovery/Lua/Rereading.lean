import LuaRecovery.Lua.Reparsing
import LuaRecovery.Lua.TokenHeads

/-!
# Reading the tokens of an expression

The parser finds in the tokens of a legible expression what rereading makes of
it, where nothing that follows goes on with the expression.
-/

set_option autoImplicit false

namespace LuaRecovery.Lua
open LuaRecovery.Lib Comp LuaGenerator Spelling Lua.Parser

section Runs
variable {N : Type}

section Steps
variable {α : Type} {type : TokenType} {t : Lexeme N} {ts : List (Lexeme N)}

theorem accept_hit (h : t.type = type) (f : Bool → Parser N α) :
    (accept type >>= f) (t::ts) = f true ts := by
  rw [bind_accept, nextType_cons, if_pos h, List.tail_cons]

theorem accept_miss (h : nextType ts ≠ type) (f : Bool → Parser N α) :
    (accept type >>= f) ts = f false ts := by
  rw [bind_accept, if_neg h]

theorem consume_hit (h : t.type = type) (errorMsg : String) (f : Lexeme N → Parser N α) :
    (consume type errorMsg >>= f) (t::ts) = f t ts := by
  rw [bind_consume, nextType_cons, if_pos h, List.headD_cons, List.tail_cons]

theorem identifier_hit {name : String} (h : keyword name = none) (errorMsg : String)
    (f : Expr N → Parser N α) :
    (identifier errorMsg >>= f) (.word name :: ts) = f (.identifier name) ts := by
  rw [word_of_name h, bind_identifier, nextType_cons, if_pos rfl]
  rfl

end Steps

/-- The tokens after which a suffix follows a base. -/
def suffixTypes : List TokenType := [.lbracket, .dot, .colon, .lparen, .string, .lbrace]

/-- No operator that binds at the level follows. -/
def OperatorsStop (level : ℕ) (ts : List (Lexeme N)) : Prop :=
  (nextType ts).infixOperator = none ∨ getBinaryPrecedence (nextType ts) < level

theorem OperatorsStop.mono {level level' : ℕ} {ts : List (Lexeme N)} (h : OperatorsStop level ts)
    (hle : level ≤ level') : OperatorsStop level' ts :=
  h.imp_right fun hlt => hlt.trans_le hle

theorem parseOperators_stop {minPrec : ℕ} {ts : List (Lexeme N)} (h : OperatorsStop minPrec ts)
    (left : Expr N) :
    parser.call (.parseOperators minPrec left) ts = some (.ok (left, ts)) := by
  rw [call_eq]
  simp only [body]
  rw [bind_peek]
  cases hoperator : (nextType ts).infixOperator with
  | none =>
    rw [nextType] at hoperator
    rw [hoperator]
    rfl
  | some operator =>
    have hlt : getBinaryPrecedence (nextType ts) < minPrec :=
      h.resolve_left (by rw [hoperator]; exact Option.some_ne_none _)
    rw [nextType] at hoperator hlt
    rw [hoperator]
    dsimp only
    rw [if_pos hlt]
    rfl

/-- The least precedence that the right operand takes. -/
def nextMinPrec (type : TokenType) : ℕ :=
  if isRightAssociative type then getBinaryPrecedence type else getBinaryPrecedence type + 1

theorem parseOperators_go {minPrec : ℕ} {t : Lexeme N} {operator : TokenType.Infix}
    (hoperator : t.type.infixOperator = some operator)
    (hprec : minPrec ≤ getBinaryPrecedence t.type) (left : Expr N) (ts : List (Lexeme N)) :
    parser.call (.parseOperators minPrec left) (t::ts) =
      (parser.call (.parseSubExpression (nextMinPrec t.type)) >>= fun right =>
        parser.call (.parseOperators minPrec (infixNode operator left right))) ts := by
  rw [call_eq]
  simp only [body]
  rw [bind_peek, List.headD_cons, hoperator]
  dsimp only
  rw [if_neg (Nat.not_lt.mpr hprec), bind_advance]
  rfl

theorem parseSubExpression_eq {minPrec : ℕ} {left : Expr N} {ts ts' : List (Lexeme N)}
    (h : parser.call .parseSimpleExpression ts = some (.ok (left, ts'))) :
    parser.call (.parseSubExpression minPrec) ts =
      parser.call (.parseOperators minPrec left) ts' := by
  rw [call_eq]
  exact bind_ok h

theorem parseExpression_eq (ts : List (Lexeme N)) :
    parser.call .parseExpression ts = parser.call (.parseSubExpression 0) ts := by
  rw [call_eq]
  rfl

theorem parseSuffixes_stop {ts : List (Lexeme N)} (h : nextType ts ∉ suffixTypes) (base : Expr N) :
    parser.call (.parseSuffixes base) ts = some (.ok (base, ts)) := by
  simp only [suffixTypes, List.mem_cons, List.not_mem_nil, or_false, not_or] at h
  rw [call_eq]
  simp only [body]
  rw [accept_miss h.1, if_neg Bool.false_ne_true, accept_miss h.2.1, if_neg Bool.false_ne_true,
    accept_miss h.2.2.1, if_neg Bool.false_ne_true, bind_isOneOf]
  simp [h.2.2.2.1, h.2.2.2.2.1, h.2.2.2.2.2]

section Suffixes
variable {base : Expr N} {ts ts' : List (Lexeme N)}

theorem parseSuffixes_index {index : Expr N}
    (h : parser.call .parseExpression ts =
      some (.ok (index, .punctuation .rbracket "]" :: ts'))) :
    parser.call (.parseSuffixes base) (.punctuation .lbracket "[" :: ts) =
      parser.call (.parseSuffixes (.indexExpression base index)) ts' := by
  rw [call_eq]
  simp only [body]
  rw [accept_hit (by rfl), if_pos rfl, bind_ok h, consume_hit (by rfl)]

theorem parseSuffixes_member {property : Expr N} (hname : property.IsNamed) :
    parser.call (.parseSuffixes base)
        (.punctuation .dot "." :: .word (nameText property) :: ts) =
      parser.call (.parseSuffixes (.memberExpression base property)) ts := by
  obtain ⟨name, rfl, -, hname⟩ := hname
  rw [call_eq]
  simp only [body]
  rw [accept_miss (fun h => by cases h), if_neg Bool.false_ne_true, accept_hit (by rfl), if_pos rfl]
  exact identifier_hit hname _ _

theorem parseSuffixes_method {method : Expr N} {args : List (Expr N)} (hname : method.IsNamed)
    (h : parser.call .parseCallArgs ts = some (.ok (args, ts'))) :
    parser.call (.parseSuffixes base)
        (.punctuation .colon ":" :: .word (nameText method) :: ts) =
      parser.call (.parseSuffixes (.methodCallExpression base method args false)) ts' := by
  obtain ⟨name, rfl, -, hname⟩ := hname
  rw [call_eq]
  simp only [body]
  rw [accept_miss (fun h => by cases h), if_neg Bool.false_ne_true,
    accept_miss (fun h => by cases h), if_neg Bool.false_ne_true, accept_hit (by rfl), if_pos rfl]
  exact (identifier_hit hname _ _).trans (bind_ok h)

theorem parseSuffixes_call {args : List (Expr N)}
    (h : parser.call .parseCallArgs (openParen::ts) = some (.ok (args, ts'))) :
    parser.call (.parseSuffixes base) (openParen::ts) =
      parser.call (.parseSuffixes (.callExpression base args false)) ts' := by
  rw [call_eq]
  simp only [body]
  rw [accept_miss (fun h => by cases h), if_neg Bool.false_ne_true,
    accept_miss (fun h => by cases h), if_neg Bool.false_ne_true,
    accept_miss (fun h => by cases h), if_neg Bool.false_ne_true, bind_isOneOf, nextType_cons]
  exact bind_ok h

end Suffixes

section Prefixes
variable {ts ts' : List (Lexeme N)}

theorem parsePrefixExp_paren {e : Expr N}
    (h : parser.call .parseExpression ts = some (.ok (e, closeParen::ts'))) :
    parser.call .parsePrefixExp (openParen::ts) =
      parser.call (.parseSuffixes (inParens e)) ts' := by
  rw [call_eq]
  simp only [body]
  rw [accept_hit (by rfl), if_pos rfl, bind_ok h, consume_hit (by rfl)]

theorem parsePrefixExp_name {name : String} (h : keyword name = none) :
    parser.call .parsePrefixExp (.word name :: ts) =
      parser.call (.parseSuffixes (.identifier name)) ts := by
  rw [call_eq, word_of_name h]
  simp only [body]
  rw [accept_miss (fun h => by cases h), if_neg Bool.false_ne_true, bind_is, nextType_cons,
    decide_eq_true rfl, if_pos rfl, bind_advance]
  rfl

/-- What starts with a name or a parenthesis is a prefix expression. -/
theorem parseSimpleExpression_base (h : nextType ts ∈ prefixStarts) :
    parser.call .parseSimpleExpression ts = parser.call .parsePrefixExp ts := by
  have hliteral : literal (ts.headD .eof) = none := by
    unfold literal
    rw [nextType] at h
    split <;> first | rfl | simp_all [prefixStarts]
  have hother : ∀ type, type ∉ prefixStarts → nextType ts ≠ type := by
    rintro type htype rfl
    exact htype h
  have hunary : unary (nextType ts) = none := by
    unfold unary
    split <;> first | rfl | simp_all [prefixStarts]
  rw [call_eq]
  simp only [body]
  rw [bind_peek, show (ts.headD .eof).type = nextType ts from rfl, hunary]
  dsimp only
  rw [hliteral]
  dsimp only
  rw [if_neg (hother _ (by decide)), bind_accept, if_neg (hother _ (by decide))]
  rfl

end Prefixes
end Runs

section Reads
variable {N : Type} [Numerals N]

/-- The tokens of the expression alone are read as it, up to the operators that follow. -/
def Reads (e : Expr N) : Prop :=
  ∀ minPrec k, minPrec ≤ getPrecedence e → OperatorsStop (bound e) k →
    (endsOpen e 0 = true → nextType k ∉ suffixTypes) →
    parser.call (.parseSubExpression minPrec) (exprTokens e 0 k) =
      parser.call (.parseOperators minPrec e.reread) k

/-- Before a suffix, the tokens are read as the expression. -/
def ReadsBase (e : Expr N) : Prop :=
  ∀ k, parser.call .parsePrefixExp (enclosed (isFunction e) k (exprTokens e 990)) =
    parser.call (.parseSuffixes e.reread) k

theorem endsOpen_eq (e : Expr N) (p : ℕ) :
    endsOpen e p = (decide (10 * getPrecedence e < p) || endsOpen e 0) := by
  rw [endsOpen.eq_def e p, endsOpen.eq_def e 0]
  simp

omit [Numerals N] in
theorem closeParen_stops (level : ℕ) (k : List (Lexeme N)) : OperatorsStop level (closeParen::k) :=
  Or.inl rfl

/-- In parentheses nothing goes on with the expression. -/
theorem Reads.parens {e : Expr N} (h : Reads e) (k : List (Lexeme N)) :
    parser.call .parsePrefixExp (openParen :: exprTokens e 0 (closeParen::k)) =
      parser.call (.parseSuffixes (inParens e.reread)) k := by
  refine parsePrefixExp_paren ?_
  rw [parseExpression_eq, h 0 _ (Nat.zero_le _) (closeParen_stops _ _) fun _ => by
    simp [suffixTypes, closeParen, Lexeme.punctuation]]
  exact parseOperators_stop (closeParen_stops _ _) _

theorem inParens_binaryNode (operator : BinaryOperator) (magnitude : Option (List Char))
    (left right : Expr N) :
    inParens (binaryNode operator magnitude left right) =
      binaryNode operator magnitude left right := by
  unfold binaryNode
  split <;> rfl

/-- Expressions with operators have no mark. -/
theorem inParens_reread {e : Expr N} (h : getPrecedence e < 99) :
    inParens e.reread = e.reread := by
  cases e with
  | unaryExpression operator argument => rw [Expr.reread]; rfl
  | binaryExpression operator left right => rw [Expr.reread]; exact inParens_binaryNode _ _ _ _
  | logicalExpression operator left right => rw [Expr.reread]; rfl
  | _ => exact absurd h (by simp [getPrecedence])

omit [Numerals N] in
theorem simple_eq {minPrec : ℕ} {e : Expr N} {ts k : List (Lexeme N)}
    (hstarts : nextType ts ∈ prefixStarts)
    (h : parser.call .parsePrefixExp ts = parser.call (.parseSuffixes e) k)
    (hk : nextType k ∉ suffixTypes) :
    parser.call (.parseSubExpression minPrec) ts = parser.call (.parseOperators minPrec e) k := by
  refine parseSubExpression_eq ?_
  rw [parseSimpleExpression_base hstarts, h]
  exact parseSuffixes_stop hk _

/-- An operand is read as it, in parentheses or not. -/
theorem Reads.operand {e : Expr N} (h : Reads e) {p minPrec : ℕ} (hp : p ≤ 990)
    {k : List (Lexeme N)} (hprec : 10 * getPrecedence e < p ∨ minPrec ≤ getPrecedence e)
    (hbound : 10 * getPrecedence e < p ∨ OperatorsStop (bound e) k)
    (hsuffix : endsOpen e p = true → nextType k ∉ suffixTypes) :
    parser.call (.parseSubExpression minPrec) (exprTokens e p k) =
      parser.call (.parseOperators minPrec e.reread) k := by
  rw [exprTokens_eq]
  by_cases hlow : 10 * getPrecedence e < p
  · rw [if_pos hlow]
    refine simple_eq (List.mem_cons_of_mem _ List.mem_cons_self) ?_ (hsuffix ?_)
    · rw [h.parens k, inParens_reread (by omega)]
    · rw [endsOpen_eq, decide_eq_true hlow, Bool.true_or]
  · rw [if_neg hlow]
    refine h _ _ (hprec.resolve_left hlow) (hbound.resolve_left hlow) fun hopen => hsuffix ?_
    rw [endsOpen_eq, hopen, Bool.or_true]

theorem readsBase_low {e : Expr N} (h : Reads e) (hprec : getPrecedence e < 99) : ReadsBase e := by
  intro k
  have hfunction : isFunction e = false := by
    cases e with
    | functionExpression => exact absurd hprec (by simp [getPrecedence])
    | _ => rfl
  rw [hfunction]
  show parser.call .parsePrefixExp (exprTokens e 990 k) = _
  rw [exprTokens_eq, if_pos (by omega), h.parens k, inParens_reread hprec]

theorem reads_of_base {e : Expr N} (h : ReadsBase e) (hlegible : e.Legible) (hbase : e.IsBase)
    (hfunction : isFunction e = false) (hprec : getPrecedence e = 99)
    (hopen : endsOpen e 0 = true) : Reads e := by
  intro minPrec k _ _ hk
  have hstarts := nextType_base e hlegible hbase k
  have hread := h k
  rw [hfunction] at hstarts hread
  have htokens : exprTokens e 990 k = exprTokens e 0 k := by
    rw [exprTokens_eq, if_neg (by omega)]
  have henclosed : enclosed false k (exprTokens e 990) = exprTokens e 0 k := htokens
  rw [henclosed] at hstarts hread
  exact simple_eq hstarts hread (hk hopen)

omit [Numerals N] in
theorem parse_literal {t : Lexeme N} {e : Expr N} (hunary : unary t.type = none)
    (h : literal t = some e) (k : List (Lexeme N)) :
    parser.call .parseSimpleExpression (t::k) = some (.ok (e, k)) := by
  rw [call_eq]
  simp only [body]
  rw [bind_peek, List.headD_cons, hunary]
  dsimp only
  rw [h]
  rfl

omit [Numerals N] in
theorem parse_unary (operator : UnaryOperator) {t : Lexeme N} {e : Expr N} {k k' : List (Lexeme N)}
    (hunary : unary t.type = some operator)
    (h : parser.call (.parseSubExpression 7) k = some (.ok (e, k'))) :
    parser.call .parseSimpleExpression (t::k) = some (.ok (.unaryExpression operator e, k')) := by
  rw [call_eq]
  simp only [body]
  rw [bind_peek, List.headD_cons, hunary]
  dsimp only
  rw [bind_advance, List.tail_cons, bind_ok h]
  rfl

theorem parse_atom {text : List Char} (htext : IsAtom text) {k : List (Lexeme N)}
    (hk : startsName text = true → nextType k ∉ suffixTypes) :
    parser.call .parseSimpleExpression (atomToken text :: k) = some (.ok (atomNode text, k)) := by
  unfold atomToken atomNode
  rcases htext with hnumeral | ⟨hword, hkeyword⟩
  · rw [startsName_numeral hnumeral, if_neg Bool.false_ne_true, if_neg Bool.false_ne_true]
    exact parse_literal rfl rfl k
  · rw [String.toList_ofList] at hword
    have hstart : startsName text = true := hword.1
    rw [hstart, if_pos rfl, if_pos rfl]
    have hstarts : nextType ((.word (String.ofList text) : Lexeme N)::k) ∈ prefixStarts := by
      rw [word_of_name hkeyword]
      exact List.mem_cons_self
    rw [parseSimpleExpression_base hstarts, parsePrefixExp_name hkeyword]
    exact parseSuffixes_stop (hk hstart) _

theorem reads_number {value : N} {raw : String} (h : (Expr.numericLiteral value raw).Legible) :
    Reads (.numericLiteral value raw) := by
  intro minPrec k _ hbound hsuffix
  rw [Expr.Legible] at h
  rw [exprTokens, Expr.reread]
  show parser.call _ (numberTokens (numericText value raw).toList k) = _
  have hopen : numberEndsOpen (numericText value raw).toList = true → nextType k ∉ suffixTypes :=
    fun hopen => hsuffix (by rw [endsOpen, hopen, Bool.or_true])
  refine parseSubExpression_eq ?_
  rw [bound] at hbound
  cases htext : (numericText value raw).toList with
  | nil =>
    rw [htext] at h hopen
    exact parse_atom h hopen
  | cons c text =>
    rw [htext] at h hopen hbound
    by_cases hminus : c = '-'
    · subst hminus
      refine parse_unary .minus rfl ?_
      rw [parseSubExpression_eq (parse_atom h hopen)]
      exact parseOperators_stop hbound _
    · have hother : ∀ ds, c::text = '-'::ds → False := fun ds heq => hminus (List.cons.inj heq).1
      have hatom : IsAtom (c::text) := by
        split at h
        next heq => exact (hother _ heq).elim
        next => exact h
      have hends : numberEndsOpen (c::text) = startsName (c::text) := by
        unfold numberEndsOpen
        split
        next heq => exact (hother _ heq).elim
        next => rfl
      have hnode : (numberNode (c::text) : Expr N) = atomNode (c::text) := by
        unfold numberNode
        split
        next heq => exact (hother _ heq).elim
        next => rfl
      rw [numberTokens_unsigned hother, hnode]
      exact parse_atom hatom (by rwa [hends] at hopen)

theorem bound_cases (e : Expr N) :
    (bound e = 7 ∧ (getPrecedence e = 7 ∨ getPrecedence e = 8 ∨ getPrecedence e = 99)) ∨
      (bound e = 9 ∧ getPrecedence e = 99) ∨ (bound e = 4 ∧ getPrecedence e = 4) ∨
      (bound e = getPrecedence e + 1 ∧ getPrecedence e ≤ 6) := by
  cases e with
  | numericLiteral value raw =>
    rw [bound, getPrecedence]
    split
    · exact Or.inl ⟨rfl, Or.inr (Or.inr rfl)⟩
    · exact Or.inr (Or.inl ⟨rfl, rfl⟩)
    all_goals simp
  | unaryExpression operator argument => exact Or.inl ⟨rfl, Or.inl rfl⟩
  | binaryExpression operator left right =>
    cases operator <;> simp [bound, getPrecedence, binaryPrecedence]
  | logicalExpression operator left right =>
    cases operator <;> simp [bound, getPrecedence, logicalPrecedence]
  | _ => exact Or.inr (Or.inl ⟨rfl, rfl⟩)

theorem reads_unary {operator : UnaryOperator} {argument : Expr N} (h : Reads argument)
    (hminus : operator = .minus → startsMinus argument 70 = false) :
    Reads (.unaryExpression operator argument) := by
  intro minPrec k _ hbound hsuffix
  have hclash : ¬(operator = .minus ∧ startsMinus argument 70 = true) := by
    rintro ⟨hoperator, hstart⟩
    rw [hminus hoperator] at hstart
    cases hstart
  rw [exprTokens, Expr.reread]
  show parser.call _ (if operator = .minus ∧ startsMinus argument 70 = true then []
    else unaryToken operator :: exprTokens argument 70 k) = _
  rw [if_neg hclash]
  refine parseSubExpression_eq (parse_unary operator (by cases operator <;> rfl) ?_)
  have hcases := bound_cases argument
  have hread : OperatorsStop 7 k := hbound
  rw [h.operand (by omega) (by omega) ?_ fun hopen => hsuffix ?_]
  · exact parseOperators_stop hread _
  · by_cases hlow : 10 * getPrecedence argument < 70
    · exact Or.inl hlow
    · exact Or.inr (hread.mono (by omega))
  · rw [endsOpen, hopen, Bool.or_true]

/-- Two operands with an operator between them. -/
theorem reads_operands {e left right : Expr N} {operator : TokenType.Infix} (t : Lexeme N)
    (prec next level lp rp : ℕ) (hleft : Reads left) (hright : Reads right)
    (hoperator : t.type.infixOperator = some operator)
    (ht : t.type ∉ suffixTypes) (htype : getBinaryPrecedence t.type = prec)
    (hprec : getPrecedence e = prec) (hnext : nextMinPrec t.type = next) (hlevel : bound e = level)
    (htokens : ∀ k, exprTokens e 0 k = exprTokens left lp (t :: exprTokens right rp k))
    (hopen : endsOpen right rp = true → endsOpen e 0 = true) (hlp : lp ≤ 990) (hrp : rp ≤ 990)
    (hleftPrec : 10 * getPrecedence left < lp ∨ prec ≤ getPrecedence left ∧ prec < bound left)
    (hrightPrec : 10 * getPrecedence right < rp ∨
      next ≤ getPrecedence right ∧ level ≤ bound right)
    (hbound : level ≤ next)
    (hreread : e.reread = infixNode operator left.reread right.reread) : Reads e := by
  intro minPrec k hmin hstop hsuffix
  rw [hprec] at hmin
  rw [hlevel] at hstop
  have hleftStop : 10 * getPrecedence left < lp ∨
      OperatorsStop (bound left) (t :: exprTokens right rp k) :=
    hleftPrec.imp_right fun h => Or.inr (by rw [nextType_cons, htype]; exact h.2)
  rw [htokens, hleft.operand hlp (hleftPrec.imp_right fun h => hmin.trans h.1) hleftStop
    (fun _ => ht), parseOperators_go hoperator (by rw [htype]; exact hmin), hreread, hnext]
  refine bind_ok ?_
  rw [hright.operand hrp (hrightPrec.imp_right And.left)
    (hrightPrec.imp_right fun h => hstop.mono h.2) fun h => hsuffix (hopen h)]
  exact parseOperators_stop (hstop.mono hbound) _

omit [Numerals N] in
theorem infixOperator_binary (operator : BinaryOperator) :
    (binaryToken operator : Lexeme N).type.infixOperator = some (.binary operator) := by
  cases operator <;> rfl

omit [Numerals N] in
theorem infixOperator_logical (operator : LogicalOperator) :
    (logicalToken operator : Lexeme N).type.infixOperator = some (.logical operator) := by
  cases operator <;> rfl

omit [Numerals N] in
/-- No suffix starts with an operator. -/
theorem notMem_suffixTypes {type : TokenType} {operator : TokenType.Infix}
    (h : type.infixOperator = some operator) : type ∉ suffixTypes := by
  simp only [suffixTypes, List.mem_cons, List.not_mem_nil, or_false]
  rintro (rfl | rfl | rfl | rfl | rfl | rfl) <;> cases h

theorem reads_logical {operator : LogicalOperator} {left right : Expr N} (hleft : Reads left)
    (hright : Reads right) : Reads (.logicalExpression operator left right) := by
  have hleftCases := bound_cases left
  have hrightCases := bound_cases right
  refine reads_operands (logicalToken operator) (logicalPrecedence operator)
    (logicalPrecedence operator + 1) (logicalPrecedence operator + 1)
    (10 * logicalPrecedence operator) (10 * logicalPrecedence operator + 1) hleft hright
    (infixOperator_logical operator) (notMem_suffixTypes (infixOperator_logical (N := N) operator))
    (by cases operator <;> rfl) rfl (by cases operator <;> rfl) rfl
    (fun k => by rw [exprTokens]; rfl) (fun hopen => by rw [endsOpen, hopen, Bool.or_true])
    (by cases operator <;> decide) (by cases operator <;> decide) ?_ ?_ le_rfl
    (by rw [Expr.reread]; rfl)
  · cases operator <;> dsimp only [logicalPrecedence] <;> omega
  · cases operator <;> dsimp only [logicalPrecedence] <;> omega

/-- Before a power stands no number with a sign. -/
theorem bound_unsigned {e : Expr N} (hsign : negated e = none) (hprec : getPrecedence e = 99) :
    bound e = 9 := by
  cases e with
  | numericLiteral value raw =>
    rw [bound]
    refine if_neg fun hminus => ?_
    cases htext : (numericText value raw).toList with
    | nil =>
      rw [htext] at hminus
      cases hminus
    | cons c text =>
      rw [htext] at hminus
      cases hminus
      rw [negated, htext] at hsign
      cases hsign
  | unaryExpression operator argument => cases hprec
  | binaryExpression operator left right =>
    have hle := binaryPrecedence_le operator
    have hbinary : binaryPrecedence operator = 99 := hprec
    omega
  | logicalExpression operator left right =>
    have hle := logicalPrecedence_le operator
    have hlogical : logicalPrecedence operator = 99 := hprec
    omega
  | _ => rfl

theorem reads_binary {operator : BinaryOperator} {left right : Expr N} (hleft : Reads left)
    (hright : Reads right) (hsign : operator = .pow → negated left = none) :
    Reads (.binaryExpression operator left right) := by
  have hleftCases := bound_cases left
  have hrightCases := bound_cases right
  have hpow : operator = .pow → getPrecedence left = 99 → bound left = 9 :=
    fun h => bound_unsigned (hsign h)
  refine reads_operands (binaryToken operator) (binaryPrecedence operator)
    (binaryPrecedence operator + if isRightAssoc operator then 0 else 1)
    (if operator = .pow then 7 else if operator = .concat then 4 else binaryPrecedence operator + 1)
    (operandPrecedences operator).1 (operandPrecedences operator).2 hleft hright
    (infixOperator_binary operator) (notMem_suffixTypes (infixOperator_binary (N := N) operator))
    (by cases operator <;> rfl) rfl (by cases operator <;> rfl) rfl
    (fun k => by rw [exprTokens]; rfl) (fun hopen => by rw [endsOpen, hopen, Bool.or_true])
    (by cases operator <;> decide) (by cases operator <;> decide) ?_ ?_
    (by cases operator <;> decide) ?_
  · cases operator with
    | pow =>
      have hunsigned := hpow rfl
      dsimp [operandPrecedences, isRightAssoc, binaryPrecedence]
      omega
    | _ => dsimp [operandPrecedences, isRightAssoc, binaryPrecedence]; omega
  · cases operator <;> dsimp [operandPrecedences, isRightAssoc, binaryPrecedence] <;> omega
  · rw [Expr.reread, binaryNode.eq_def]
    split
    next h =>
      rw [hsign rfl] at h
      cases h
    next => rfl

theorem exists_of_negated {e : Expr N} {text : List Char} (h : negated e = some text) :
    ∃ value raw, e = .numericLiteral value raw ∧ (numericText value raw).toList = '-'::text := by
  cases e with
  | numericLiteral value raw =>
    rw [negated] at h
    split at h
    next ds heq =>
      cases h
      exact ⟨value, raw, rfl, heq⟩
    next => cases h
  | _ => cases h

/-- A number with a sign takes the power that follows it along. -/
theorem reads_signedPower {left right : Expr N} {text : List Char}
    (hsign : negated left = some text) (hleft : left.Legible) (hright : Reads right) :
    Reads (.binaryExpression .pow left right) := by
  obtain ⟨value, raw, rfl, htext⟩ := exists_of_negated hsign
  intro minPrec k _ hbound hsuffix
  have hstop : OperatorsStop 7 k := hbound
  have hrightCases := bound_cases right
  have hatom : IsAtom text := by
    rw [Expr.Legible, htext] at hleft
    exact hleft
  rw [exprTokens, Expr.reread, hsign]
  show parser.call _ (exprTokens (.numericLiteral value raw) 81
    (binaryToken .pow :: exprTokens right 80 k)) = _
  rw [exprTokens]
  show parser.call _ (numberTokens (numericText value raw).toList
    (binaryToken .pow :: exprTokens right 80 k)) = _
  rw [htext]
  refine parseSubExpression_eq (parse_unary .minus rfl ?_)
  have hcaret : nextType (binaryToken .pow :: exprTokens right 80 k) ∉ suffixTypes :=
    notMem_suffixTypes (infixOperator_binary (N := N) .pow)
  rw [parseSubExpression_eq (parse_atom hatom fun _ => hcaret),
    parseOperators_go (infixOperator_binary .pow) (show 7 ≤ 8 by omega)]
  refine (bind_ok ?_).trans (parseOperators_stop hstop _)
  have hnext : nextMinPrec (binaryToken .pow : Lexeme N).type = 8 := rfl
  rw [hnext, hright.operand (by omega) (by omega) ?_ fun hopen => hsuffix ?_]
  · exact parseOperators_stop (hstop.mono (by omega)) _
  · by_cases hlow : 10 * getPrecedence right < 80
    · exact Or.inl hlow
    · exact Or.inr (hstop.mono (by omega))
  · rw [endsOpen]
    show (_ || endsOpen right 80) = true
    rw [hopen, Bool.or_true]

theorem reads_operation {operator : BinaryOperator} {left right : Expr N} (hlegible : left.Legible)
    (hleft : Reads left) (hright : Reads right) :
    Reads (.binaryExpression operator left right) := by
  by_cases hpow : operator = .pow
  · subst hpow
    cases hsign : negated left with
    | none => exact reads_binary hleft hright fun _ => hsign
    | some text => exact reads_signedPower hsign hlegible hright
  · exact reads_binary hleft hright fun h => absurd h hpow

end Reads
end LuaRecovery.Lua
