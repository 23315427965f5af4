import LuaRecovery.Lua.LexedTokens
import LuaRecovery.Lua.AcceptedTrees

/-!
# What the parser builds from the tokens of a source

Its names are names, its numbers are spelled without a sign, and its lists are
nonempty where the grammar has them so.
-/

set_option autoImplicit false

namespace LuaRecovery.Lua
open LuaRecovery.Lib Comp Lexer

section Trees
variable {N : Type} [Numerals N]

mutual

def Expr.Parsed : Expr N → Prop
  | .identifier name => IsName name
  | .numericLiteral value raw => IsNumeral raw.toList ∧ value = Numerals.number raw.toList
  | .stringLiteral _ => True
  | .booleanLiteral _ => True
  | .nilLiteral => True
  | .varargLiteral _ => True
  | .unaryExpression _ argument => argument.Parsed
  | .binaryExpression _ left right => left.Parsed ∧ right.Parsed
  | .logicalExpression _ left right => left.Parsed ∧ right.Parsed
  | .callExpression base args _ => base.Parsed ∧ exprsParsed args
  | .methodCallExpression base method args _ =>
      base.Parsed ∧ method.IsNamed ∧ exprsParsed args
  | .memberExpression base property => base.Parsed ∧ property.IsNamed
  | .indexExpression base index => base.Parsed ∧ index.Parsed
  | .functionExpression params _ body => (∀ p ∈ params, p.IsNamed) ∧ blockParsed body
  | .tableConstructor fields => fieldsParsed fields

def exprsParsed : List (Expr N) → Prop
  | [] => True
  | e::es => e.Parsed ∧ exprsParsed es

def fieldParsed : TableField N → Prop
  | .tableKey key value => key.Parsed ∧ value.Parsed
  | .tableKeyString key value => key.IsNamed ∧ value.Parsed
  | .tableValue value => value.Parsed

def fieldsParsed : List (TableField N) → Prop
  | [] => True
  | f::fs => fieldParsed f ∧ fieldsParsed fs

def Stmt.Parsed : Stmt N → Prop
  | .localStatement vars init => vars ≠ [] ∧ (∀ v ∈ vars, v.IsNamed) ∧ exprsParsed init
  | .assignmentStatement vars init =>
      vars ≠ [] ∧ exprsParsed vars ∧ init ≠ [] ∧ exprsParsed init
  | .localFunctionStatement identifier params _ body =>
      identifier.IsNamed ∧ (∀ p ∈ params, p.IsNamed) ∧ blockParsed body
  | .functionDeclaration name params _ body _ =>
      (name.IsFunctionName ∧ name.Parsed) ∧ (∀ p ∈ params, p.IsNamed) ∧ blockParsed body
  | .callStatement expression => expression.IsCall ∧ expression.Parsed
  | .ifStatement clauses elseBody =>
      clauses ≠ [] ∧ clausesParsed clauses ∧ elseParsed elseBody
  | .whileStatement condition body => condition.Parsed ∧ blockParsed body
  | .repeatStatement condition body => condition.Parsed ∧ blockParsed body
  | .numericForStatement variableName start stop step body =>
      variableName.IsNamed ∧ start.Parsed ∧ stop.Parsed ∧ stepParsed step ∧ blockParsed body
  | .genericForStatement vars iterators body =>
      vars ≠ [] ∧ (∀ v ∈ vars, v.IsNamed) ∧ iterators ≠ [] ∧ exprsParsed iterators ∧
        blockParsed body
  | .doStatement body => blockParsed body
  | .returnStatement args => exprsParsed args
  | .breakStatement => True
  | .continueStatement => True
  | .emptyStatement => True

def blockParsed : List (Stmt N) → Prop
  | [] => True
  | s::ss => s.Parsed ∧ blockParsed ss

def elseParsed : Option (List (Stmt N)) → Prop
  | none => True
  | some body => blockParsed body

def stepParsed : Option (Expr N) → Prop
  | none => True
  | some e => e.Parsed

def clausesParsed : List (IfClause N) → Prop
  | [] => True
  | .mk condition body :: clauses => condition.Parsed ∧ blockParsed body ∧ clausesParsed clauses

end

theorem Expr.IsNamed.parsed {e : Expr N} (h : e.IsNamed) : e.Parsed := by
  obtain ⟨name, rfl, hname⟩ := h
  exact hname

theorem Expr.IsNamed.functionName {e : Expr N} (h : e.IsNamed) :
    e.IsFunctionName ∧ e.Parsed := by
  refine ⟨?_, h.parsed⟩
  obtain ⟨name, rfl, -⟩ := h
  exact trivial

end Trees

namespace Parser
variable {N : Type} [Numerals N]

/-- The tokens that are left come from a source. -/
def Proper (ts : List (Lexeme N)) : Prop := ∀ t ∈ ts, Lexed t

theorem Proper.head {ts : List (Lexeme N)} (h : Proper ts) : Lexed (ts.headD .eof) := by
  cases ts with
  | nil => exact .other (by simp [Lexeme.eof]) (by simp [Lexeme.eof])
  | cons t ts => exact h t List.mem_cons_self

theorem Proper.tail {ts : List (Lexeme N)} (h : Proper ts) : Proper ts.tail :=
  fun t ht => h t (List.mem_of_mem_tail ht)

/-- What the parser goes on with. -/
def Handed : {α : Type} → Rule N α → Prop
  | _, .moreName name => name.IsFunctionName ∧ name.Parsed
  | _, .parseOperators _ left => left.Parsed
  | _, .parseSuffixes base => base.Parsed
  | _, _ => True

/-- What the parser returns. -/
def Built : {α : Type} → Rule N α → α → Prop
  | _, .moreIdentifiers _, es => ∀ e ∈ es, e.IsNamed
  | _, .moreParams, params => ∀ e ∈ params.1, e.IsNamed
  | _, .moreName _, e => e.IsFunctionName ∧ e.Parsed
  | _, .parseBlock, ss => blockParsed ss
  | _, .parseStatement, s => s.Parsed
  | _, .parseLocalFunction, s => s.Parsed
  | _, .parseLocalVariables, s => s.Parsed
  | _, .parseFunctionDeclaration, s => s.Parsed
  | _, .parseFunctionBody, f => (∀ e ∈ f.1, e.IsNamed) ∧ blockParsed f.2.2
  | _, .parseIfStatement, s => s.Parsed
  | _, .parseElseifs, cs => clausesParsed cs
  | _, .parseWhileStatement, s => s.Parsed
  | _, .parseRepeatStatement, s => s.Parsed
  | _, .parseForStatement, s => s.Parsed
  | _, .parseCallOrAssignment, s => s.Parsed
  | _, .moreTargets, es => exprsParsed es
  | _, .parseExpression, e => e.Parsed
  | _, .parseExpressions, es => es ≠ [] ∧ exprsParsed es
  | _, .moreExpressions, es => exprsParsed es
  | _, .parseSubExpression _, e => e.Parsed
  | _, .parseOperators _ _, e => e.Parsed
  | _, .parseSimpleExpression, e => e.Parsed
  | _, .parsePrefixExp, e => e.Parsed
  | _, .parseSuffixes _, e => e.Parsed
  | _, .parseCallArgs, es => exprsParsed es
  | _, .parseTableConstructor, e => e.Parsed
  | _, .parseFields, fs => fieldsParsed fs
  | _, .parseField, f => fieldParsed f

theorem parsed_infixNode {operator : TokenType.Infix} {left right : Expr N} :
    (infixNode operator left right).Parsed ↔ left.Parsed ∧ right.Parsed := by
  cases operator <;> rfl

theorem parsed_inParens {e : Expr N} : (inParens e).Parsed ↔ e.Parsed := by
  cases e <;> rfl

theorem named_nameOf {t : Lexeme N} (h : Lexed t) (htype : t.type = .ident) :
    (nameOf t).IsNamed := by
  obtain ⟨name, hvalue, hname⟩ := h.1 htype
  refine ⟨name, ?_, hname⟩
  rw [nameOf, hvalue]

theorem parsed_literal {t : Lexeme N} (h : Lexed t) {e : Expr N} (he : literal t = some e) :
    e.Parsed := by
  unfold literal at he
  split at he
  next n htype hvalue =>
    cases he
    exact h.2 n htype hvalue
  all_goals
    cases he
  all_goals exact trivial

section Runs
variable {α : Type} {Q : α → Prop}

/-- What a function that reads the next tokens makes of them. -/
class Reader (c : Parser N α) (R : outParam (α → Prop)) : Prop where
  delivers : Delivers Proper c R

instance : Reader (peek : Parser N (Lexeme N)) Lexed where
  delivers := by
    intro ts t ts' hts h
    rw [peek_run] at h
    cases h
    exact ⟨hts.head, hts⟩

instance : Reader (advance : Parser N (Lexeme N)) Lexed where
  delivers := by
    intro ts t ts' hts h
    rw [advance_run] at h
    cases h
    exact ⟨hts.head, hts.tail⟩

instance (type : TokenType) : Reader (is type : Parser N Bool) fun _ => True where
  delivers := by
    intro ts b ts' hts h
    rw [is_run] at h
    cases h
    exact ⟨trivial, hts⟩

instance (types : List TokenType) : Reader (isOneOf types : Parser N Bool) fun _ => True where
  delivers := by
    intro ts b ts' hts h
    rw [isOneOf_run] at h
    cases h
    exact ⟨trivial, hts⟩

instance readerAccept (type : TokenType) : Reader (accept type : Parser N Bool) fun _ => True where
  delivers := by
    intro ts b ts' hts h
    rw [accept_run] at h
    split at h
    · cases h
      exact ⟨trivial, hts.tail⟩
    · cases h
      exact ⟨trivial, hts⟩

instance : Reader (acceptSeparator : Parser N Bool) fun _ => True where
  delivers := .bind (readerAccept _).delivers fun _ _ => .ite (.pure trivial) (readerAccept _).delivers

instance readerConsume (type : TokenType) (errorMsg : String) :
    Reader (consume type errorMsg : Parser N (Lexeme N)) fun t => Lexed t ∧ t.type = type where
  delivers := by
    intro ts t ts' hts h
    rw [consume_run] at h
    split at h
    next htype =>
      cases h
      exact ⟨⟨hts.head, htype⟩, hts.tail⟩
    next => cases h

instance (errorMsg : String) : Reader (identifier errorMsg : Parser N (Expr N)) Expr.IsNamed where
  delivers := .bind (readerConsume _ errorMsg).delivers fun _ ht => .pure (named_nameOf ht.1 ht.2)

theorem delivers_fail (message : String) : Delivers Proper (fail message : Parser N α) Q := by
  intro ts a ts' hts h
  cases h

end Runs

section Bodies
variable {self : Rules N}
  (h : ∀ {α : Type} (r : Rule N α), Handed r → Delivers Proper (self.call r) (Built r))
include h

theorem built_prefixExp : Delivers Proper (body self .parsePrefixExp) (Built .parsePrefixExp) := by
  intro ts e ts' hts hrun
  simp only [body] at hrun
  rw [bind_accept] at hrun
  split at hrun
  next =>
    rw [if_pos rfl] at hrun
    obtain ⟨base, ts₁, hbase, hrun⟩ := bind_eq_ok hrun
    obtain ⟨hbuilt, hts₁⟩ := h .parseExpression trivial _ _ _ hts.tail hbase
    obtain ⟨t, ts₂, ht, hrun⟩ := bind_eq_ok hrun
    obtain ⟨-, hts₂⟩ := Reader.delivers _ _ _ hts₁ ht
    exact h (.parseSuffixes (inParens base)) (parsed_inParens.mpr hbuilt) _ _ _ hts₂ hrun
  next =>
    rw [if_neg Bool.false_ne_true, bind_is] at hrun
    split at hrun
    next htype =>
      rw [bind_advance] at hrun
      have hname := named_nameOf hts.head (of_decide_eq_true htype)
      exact h (.parseSuffixes (nameOf (ts.headD .eof))) hname.parsed _ _ _ hts.tail hrun
    next => cases hrun

theorem built_field : Delivers Proper (body self .parseField) (Built .parseField) := by
  have hkey : Delivers Proper (do
      let key ← self.call .parseExpression
      let _ ← consume .rbracket "Expected ']' after table key"
      let _ ← consume .assign "Expected '=' after table key"
      return .tableKey key (← self.call .parseExpression)) (Built .parseField) :=
    .bind (h _ trivial) fun key hkey => .bind Reader.delivers fun _ _ => .bind Reader.delivers
      fun _ _ => .bind (h _ trivial) fun value hvalue => .pure ⟨hkey, hvalue⟩
  have hvalue : Delivers Proper (do return .tableValue (← self.call .parseExpression))
      (Built .parseField) :=
    .bind (h _ trivial) fun value hvalue => .pure hvalue
  intro ts f ts' hts hrun
  simp only [body] at hrun
  rw [bind_accept] at hrun
  split at hrun
  next => exact hkey _ _ _ hts.tail hrun
  next =>
    rw [if_neg Bool.false_ne_true, bind_peek] at hrun
    obtain ⟨u, ts₁, hu, hrun⟩ := bind_eq_ok hrun
    cases hu
    split at hrun
    next htype =>
      rw [bind_advance] at hrun
      have hname := named_nameOf hts.head htype.1
      obtain ⟨t, ts₂, ht, hrun⟩ := bind_eq_ok hrun
      obtain ⟨-, hts₂⟩ := Reader.delivers _ _ _ hts.tail ht
      obtain ⟨value, ts₃, hvalue, hrun⟩ := bind_eq_ok hrun
      obtain ⟨hbuilt, hts₃⟩ := h .parseExpression trivial _ _ _ hts₂ hvalue
      cases hrun
      exact ⟨⟨hname, hbuilt⟩, hts₃⟩
    next => exact hvalue _ _ _ hts hrun

theorem built_body {α : Type} (r : Rule N α) (hhanded : Handed r) :
    Delivers Proper (body self r) (Built r) := by
  cases r
  case parsePrefixExp => exact built_prefixExp h
  case parseField => exact built_field h
  all_goals
    dsimp only [body]
    repeat' with_reducible first
      | refine Delivers.bind_bind ?_
      | refine Delivers.bind_ite ?_ ?_
      | refine Delivers.pure_bind ?_
      | refine Delivers.bind (h _ ?_) fun _ _ => ?_
      | refine Delivers.bind Reader.delivers fun _ _ => ?_
      | refine Delivers.ite ?_ ?_
      | refine Delivers.pure ?_
      | exact Delivers.throw _
      | exact delivers_fail _
      | refine (h _ ?_).imp fun _ _ => ?_
      | split
  all_goals clear h
  all_goals first
    | exact trivial
    | assumption
    | (refine parsed_literal ?_ ‹_›; assumption)
    | exact Expr.IsNamed.functionName ‹_›
    | simp_all only [Built, Handed, Expr.Parsed, exprsParsed, fieldsParsed, Stmt.Parsed,
        blockParsed, clausesParsed, elseParsed, stepParsed, Expr.IsFunctionName, Expr.IsCall,
        parsed_infixNode, List.forall_mem_cons, List.not_mem_nil, false_imp_iff, implies_true, ne_eq,
        reduceCtorEq, not_false_eq_true, true_and, and_self]

end Bodies

theorem built_rule {α : Type} (r : Rule N α) (hhanded : Handed r) :
    Delivers Proper (parser.call r) (Built r) := by
  intro ts a ts' hts hrun
  refine Handler.limit_induction
    (P := fun r ts x => ∀ a ts', x = .ok (a, ts') → Handed r → Proper ts → Built r a ∧ Proper ts')
    ?_ hrun a ts' rfl hhanded hts
  intro self hself α r ts x hx a ts' heq hhanded hts
  subst heq
  refine built_body (fun r hhanded ts a ts' hts hx => ?_) r hhanded ts a ts' hts hx
  exact hself r ts _ hx a ts' rfl hhanded hts

/-- Every tree that the parser accepts from a source. -/
theorem parsed_of_source {source : String} {tokens : List (Token N)} {depth : ℕ} {chunk : Chunk N}
    (htokens : tokenize source = .ok tokens) (hparse : parseChunk depth tokens = some (.ok chunk)) :
    blockParsed chunk.body := by
  obtain ⟨rest, hrun⟩ := parseBlock_of_parseChunk hparse
  have hhanded : Handed (.parseBlock : Rule N (List (Stmt N))) := trivial
  exact (built_rule .parseBlock hhanded _ _ _ (tokenize_lexed htokens) hrun).1

end Parser
end LuaRecovery.Lua
