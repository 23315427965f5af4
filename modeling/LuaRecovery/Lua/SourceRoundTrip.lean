import LuaRecovery.Lua.ShownTrees
import LuaRecovery.Lua.ParsedTrees

/-!
# From a source to a text and back

A source that the parser accepts is printed to a text that is read back as the
same tree, where no minus meets another one, only names, calls and what is in
parentheses anyway are called, indexed or assigned to, no statement goes on in
the next one, every string is spelled as its own, no function is a method and
no `else` is empty. Several targets before `==` and the like are left out: the
parser of the source makes a node of them whose operator is none, and the trees
have no such node.
-/

set_option autoImplicit false

namespace LuaRecovery.Lua
open LuaRecovery.Lib Lexer LuaGenerator Spelling Lua.Parser

section
variable {N : Type} [Numerals N]

mutual

def Expr.Clear : Expr N → Prop
  | .identifier _ => True
  | .numericLiteral _ _ => True
  | .stringLiteral value => ByteString.fromLuaLiteral (ByteString.toLuaLiteral value '"') = value
  | .booleanLiteral _ => True
  | .nilLiteral => True
  | .varargLiteral _ => True
  | .unaryExpression operator argument =>
      (operator = .minus → startsMinus argument 70 = false) ∧ argument.Clear
  | .binaryExpression _ left right => left.Clear ∧ right.Clear
  | .logicalExpression _ left right => left.Clear ∧ right.Clear
  | .callExpression base args _ => base.IsBase ∧ base.Clear ∧ exprsClear args
  | .methodCallExpression base _ args _ => base.IsBase ∧ base.Clear ∧ exprsClear args
  | .memberExpression base _ => base.IsBase ∧ base.Clear
  | .indexExpression base index => base.IsBase ∧ base.Clear ∧ index.Clear
  | .functionExpression _ _ body => blockClear body
  | .tableConstructor fields => fieldsClear fields

def exprsClear : List (Expr N) → Prop
  | [] => True
  | e::es => e.Clear ∧ exprsClear es

def fieldsClear : List (TableField N) → Prop
  | [] => True
  | .tableKey key value :: fs => key.Clear ∧ value.Clear ∧ fieldsClear fs
  | .tableKeyString _ value :: fs => value.Clear ∧ fieldsClear fs
  | .tableValue value :: fs => value.Clear ∧ fieldsClear fs

def Stmt.Clear : Stmt N → Prop
  | .localStatement _ init => exprsClear init
  | .assignmentStatement vars init =>
      (∀ v ∈ vars, v.IsTarget) ∧ exprsClear vars ∧ exprsClear init
  | .localFunctionStatement _ _ _ body => blockClear body
  | .functionDeclaration name _ _ body isMethod => name.Clear ∧ blockClear body ∧ isMethod = false
  | .callStatement expression => expression.Clear
  | .ifStatement clauses elseBody => clausesClear clauses ∧ (match elseBody with
      | none => True
      | some body => body.any Stmt.IsPrinted = true ∧ blockClear body)
  | .whileStatement condition body => condition.Clear ∧ blockClear body
  | .repeatStatement condition body => condition.Clear ∧ blockClear body
  | .numericForStatement _ start stop step body =>
      start.Clear ∧ stop.Clear ∧ (match step with
        | none => True
        | some step => step.Clear) ∧ blockClear body
  | .genericForStatement _ iterators body => exprsClear iterators ∧ blockClear body
  | .doStatement body => blockClear body
  | .returnStatement args => exprsClear args
  | .breakStatement => True
  | .continueStatement => True
  | .emptyStatement => True

def blockClear : List (Stmt N) → Prop
  | [] => True
  | s::ss =>
      s.Clear ∧ blockClear ss ∧
        (s.IsPrinted = true → ∀ t ∈ (ss.filter Stmt.IsPrinted).head?, s.Apart t)

def clausesClear : List (IfClause N) → Prop
  | [] => True
  | .mk condition body :: clauses => condition.Clear ∧ blockClear body ∧ clausesClear clauses

end

theorem numericText_parsed {value : N} {raw : String} (h : IsNumeral raw.toList) :
    numericText value raw = raw := by
  obtain ⟨⟨c, cs, heq, -⟩, -⟩ := h
  refine if_neg fun hempty => ?_
  rw [hempty] at heq
  cases heq

theorem legible_number {value : N} {raw : String} (h : IsNumeral raw.toList) :
    (Expr.numericLiteral value raw).Legible := by
  rw [Expr.Legible, numericText_parsed h]
  split
  next ds heq => exact (unsigned_numeral h ds heq).elim
  next => exact Or.inl h

mutual

theorem legible_expr : ∀ e : Expr N, e.Parsed → e.Clear → e.Legible ∧ e.Shown
  | .identifier _, h, _ => ⟨h, trivial⟩
  | .numericLiteral value raw, h, _ => by
    refine ⟨legible_number h.1, ?_⟩
    rw [Expr.Shown, numericText_parsed h.1]
    exact ⟨h.1, h.2.symm⟩
  | .stringLiteral _, _, hclear => ⟨trivial, hclear⟩
  | .booleanLiteral _, _, _ => ⟨trivial, trivial⟩
  | .nilLiteral, _, _ => ⟨trivial, trivial⟩
  | .varargLiteral _, _, _ => ⟨trivial, trivial⟩
  | .unaryExpression operator argument, h, hclear =>
    ⟨⟨hclear.1, (legible_expr argument h hclear.2).1⟩, (legible_expr argument h hclear.2).2⟩
  | .binaryExpression _ left right, h, hclear =>
    have hleft := legible_expr left h.1 hclear.1
    have hright := legible_expr right h.2 hclear.2
    ⟨⟨hleft.1, hright.1⟩, hleft.2, hright.2⟩
  | .logicalExpression _ left right, h, hclear =>
    have hleft := legible_expr left h.1 hclear.1
    have hright := legible_expr right h.2 hclear.2
    ⟨⟨hleft.1, hright.1⟩, hleft.2, hright.2⟩
  | .callExpression base args _, h, hclear =>
    have hbase := legible_expr base h.1 hclear.2.1
    have hargs := legible_exprs args h.2 hclear.2.2
    ⟨⟨hclear.1, hbase.1, hargs.1⟩, hbase.2, hargs.2⟩
  | .methodCallExpression base method args _, h, hclear =>
    have hbase := legible_expr base h.1 hclear.2.1
    have hargs := legible_exprs args h.2.2 hclear.2.2
    ⟨⟨hclear.1, hbase.1, h.2.1, hargs.1⟩, hbase.2, hargs.2⟩
  | .memberExpression base property, h, hclear =>
    have hbase := legible_expr base h.1 hclear.2
    ⟨⟨hclear.1, hbase.1, h.2⟩, hbase.2⟩
  | .indexExpression base index, h, hclear =>
    have hbase := legible_expr base h.1 hclear.2.1
    have hindex := legible_expr index h.2 hclear.2.2
    ⟨⟨hclear.1, hbase.1, hindex.1⟩, hbase.2, hindex.2⟩
  | .functionExpression _ _ body, h, hclear =>
    have hbody := legible_block body h.2 hclear
    ⟨⟨h.1, hbody.1⟩, hbody.2⟩
  | .tableConstructor fields, h, hclear => legible_fields fields h hclear

theorem legible_exprs : ∀ es : List (Expr N), exprsParsed es → exprsClear es →
    exprsLegible es ∧ exprsShown es
  | [], _, _ => ⟨trivial, trivial⟩
  | e::es, h, hclear =>
    have he := legible_expr e h.1 hclear.1
    have hes := legible_exprs es h.2 hclear.2
    ⟨⟨he.1, hes.1⟩, he.2, hes.2⟩

theorem legible_fields : ∀ fs : List (TableField N), fieldsParsed fs → fieldsClear fs →
    fieldsLegible fs ∧ fieldsShown fs
  | [], _, _ => ⟨trivial, trivial⟩
  | .tableKey key value :: fs, h, hclear =>
    have hkey := legible_expr key h.1.1 hclear.1
    have hvalue := legible_expr value h.1.2 hclear.2.1
    have hfs := legible_fields fs h.2 hclear.2.2
    ⟨⟨hkey.1, hvalue.1, hfs.1⟩, hkey.2, hvalue.2, hfs.2⟩
  | .tableKeyString _ value :: fs, h, hclear =>
    have hvalue := legible_expr value h.1.2 hclear.1
    have hfs := legible_fields fs h.2 hclear.2
    ⟨⟨h.1.1, hvalue.1, hfs.1⟩, hvalue.2, hfs.2⟩
  | .tableValue value :: fs, h, hclear =>
    have hvalue := legible_expr value h.1 hclear.1
    have hfs := legible_fields fs h.2 hclear.2
    ⟨⟨hvalue.1, hfs.1⟩, hvalue.2, hfs.2⟩

theorem legible_stmt : ∀ s : Stmt N, s.Parsed → s.Clear → s.Legible ∧ s.Shown
  | .localStatement _ init, h, hclear =>
    have hinit := legible_exprs init h.2.2 hclear
    ⟨⟨h.1, h.2.1, hinit.1⟩, hinit.2⟩
  | .assignmentStatement vars init, h, hclear =>
    have hvars := legible_exprs vars h.2.1 hclear.2.1
    have hinit := legible_exprs init h.2.2.2 hclear.2.2
    ⟨⟨h.1, hclear.1, hvars.1, h.2.2.1, hinit.1⟩, hvars.2, hinit.2⟩
  | .localFunctionStatement _ _ _ body, h, hclear =>
    have hbody := legible_block body h.2.2 hclear
    ⟨⟨h.1, h.2.1, hbody.1⟩, hbody.2⟩
  | .functionDeclaration name _ _ body _, h, hclear =>
    have hbody := legible_block body h.2.2 hclear.2.1
    ⟨⟨h.1.1, (legible_expr name h.1.2 hclear.1).1, h.2.1, hbody.1⟩, hclear.2.2, hbody.2⟩
  | .callStatement expression, h, hclear =>
    have he := legible_expr expression h.2 hclear
    ⟨⟨h.1, he.1⟩, he.2⟩
  | .ifStatement clauses none, h, hclear =>
    have hclauses := legible_clauses clauses h.2.1 hclear.1
    ⟨⟨h.1, hclauses.1, trivial⟩, hclauses.2, trivial⟩
  | .ifStatement clauses (some body), h, hclear =>
    have hclauses := legible_clauses clauses h.2.1 hclear.1
    have hbody := legible_block body h.2.2 hclear.2.2
    ⟨⟨h.1, hclauses.1, hbody.1⟩, hclauses.2, hclear.2.1, hbody.2⟩
  | .whileStatement condition body, h, hclear =>
    have hcondition := legible_expr condition h.1 hclear.1
    have hbody := legible_block body h.2 hclear.2
    ⟨⟨hcondition.1, hbody.1⟩, hcondition.2, hbody.2⟩
  | .repeatStatement condition body, h, hclear =>
    have hcondition := legible_expr condition h.1 hclear.1
    have hbody := legible_block body h.2 hclear.2
    ⟨⟨hcondition.1, hbody.1⟩, hcondition.2, hbody.2⟩
  | .numericForStatement _ start stop none body, h, hclear =>
    have hstart := legible_expr start h.2.1 hclear.1
    have hstop := legible_expr stop h.2.2.1 hclear.2.1
    have hbody := legible_block body h.2.2.2.2 hclear.2.2.2
    ⟨⟨h.1, hstart.1, hstop.1, trivial, hbody.1⟩, hstart.2, hstop.2, trivial, hbody.2⟩
  | .numericForStatement _ start stop (some step) body, h, hclear =>
    have hstart := legible_expr start h.2.1 hclear.1
    have hstop := legible_expr stop h.2.2.1 hclear.2.1
    have hstep := legible_expr step h.2.2.2.1 hclear.2.2.1
    have hbody := legible_block body h.2.2.2.2 hclear.2.2.2
    ⟨⟨h.1, hstart.1, hstop.1, hstep.1, hbody.1⟩, hstart.2, hstop.2, hstep.2, hbody.2⟩
  | .genericForStatement _ iterators body, h, hclear =>
    have hiterators := legible_exprs iterators h.2.2.2.1 hclear.1
    have hbody := legible_block body h.2.2.2.2 hclear.2
    ⟨⟨h.1, h.2.1, h.2.2.1, hiterators.1, hbody.1⟩, hiterators.2, hbody.2⟩
  | .doStatement body, h, hclear => legible_block body h hclear
  | .returnStatement args, h, hclear => legible_exprs args h hclear
  | .breakStatement, _, _ => ⟨trivial, trivial⟩
  | .continueStatement, _, _ => ⟨trivial, trivial⟩
  | .emptyStatement, _, _ => ⟨trivial, trivial⟩

theorem legible_block : ∀ ss : List (Stmt N), blockParsed ss → blockClear ss →
    blockLegible ss ∧ blockShown ss
  | [], _, _ => ⟨trivial, trivial⟩
  | s::ss, h, hclear =>
    have hs := legible_stmt s h.1 hclear.1
    have hss := legible_block ss h.2 hclear.2.1
    ⟨⟨hs.1, hss.1, hclear.2.2⟩, hs.2, hss.2⟩

theorem legible_clauses : ∀ cs : List (IfClause N), clausesParsed cs → clausesClear cs →
    clausesLegible cs ∧ clausesShown cs
  | [], _, _ => ⟨trivial, trivial⟩
  | .mk condition body :: clauses, h, hclear =>
    have hcondition := legible_expr condition h.1 hclear.1
    have hbody := legible_block body h.2.1 hclear.2.1
    have hclauses := legible_clauses clauses h.2.2 hclear.2.2
    ⟨⟨hcondition.1, hbody.1, hclauses.1⟩, hcondition.2, hbody.2, hclauses.2⟩

end

/-- What is generated for a source is read back as the same tree, and generated the same again. -/
theorem source_round_trip {indentStr : String} (hindent : IsIndent indentStr) {source : String}
    {tokens : List (Token N)} {depth : ℕ} {chunk : Chunk N}
    (htokens : tokenize source = .ok tokens) (hparse : parseChunk depth tokens = some (.ok chunk))
    (hclear : blockClear chunk.body) :
    ∃ (tokens' : List (Token N)) (depth' : ℕ) (chunk' : Chunk N),
      tokenize (generate indentStr chunk) = .ok tokens' ∧
        parseChunk depth' tokens' = some (.ok chunk') ∧
        blockPlain chunk'.body = blockPlain chunk.body ∧
        generate indentStr chunk' = generate indentStr chunk := by
  have hparsed := parsed_of_source htokens hparse
  obtain ⟨hlegible, hshown⟩ := legible_block chunk.body hparsed hclear
  exact round_trip indentStr hindent hlegible hshown

section Cases
attribute [local instance] wholeNumerals

/-- `x = f(y)` -/
def callProgram : Chunk ℕ :=
  ⟨[.assignmentStatement [.identifier "x"]
    [.callExpression (.identifier "f") [.identifier "y"] false]]⟩

theorem source_round_trip_call :
    ∃ (tokens : List (Token ℕ)) (depth : ℕ) (chunk : Chunk ℕ),
      tokenize (generate "  " callProgram) = .ok tokens ∧
        parseChunk depth tokens = some (.ok chunk) ∧
        blockPlain chunk.body = blockPlain callProgram.body ∧
        generate "  " chunk = generate "  " callProgram := by
  have hx : IsName "x" := ⟨by decide, rfl⟩
  have hy : IsName "y" := ⟨by decide, rfl⟩
  have hf : IsName "f" := ⟨by decide, rfl⟩
  have hindent : IsIndent "  " := isIndent_spaces
  have hlegible : blockLegible callProgram.body := by
    have hcall : (Expr.callExpression (.identifier "f") [.identifier "y"] false : Expr ℕ).Legible :=
      ⟨trivial, hf, hy, trivial⟩
    exact ⟨⟨by simp, by simp [Expr.IsTarget], ⟨hx, trivial⟩, by simp, hcall, trivial⟩, trivial,
      by simp⟩
  have hclear : blockClear callProgram.body := by
    have hcall : (Expr.callExpression (.identifier "f") [.identifier "y"] false : Expr ℕ).Clear :=
      ⟨trivial, trivial, trivial, trivial⟩
    exact ⟨⟨by simp [Expr.IsTarget], ⟨trivial, trivial⟩, hcall, trivial⟩, trivial, by simp⟩
  obtain ⟨tokens, htokens, hlexemes⟩ := lexes_generate "  " hindent hlegible ⟨1, 1, 0⟩
  obtain ⟨depth, hparse⟩ := parseChunk_tokens hlegible hlexemes
  have hsame : (⟨blockReread callProgram.body⟩ : Chunk ℕ) = callProgram := rfl
  rw [hsame] at hparse
  exact source_round_trip hindent htokens hparse hclear

end Cases

end
end LuaRecovery.Lua
