import LuaRecovery.Lua.GeneratedText
import LuaRecovery.Lua.Nodes

/-!
# Detachment from the virtual machine

`VMDependencyGraph` counts what a tree still refers to of the virtual machine's
runtime. What it finds in a tree is found again in the program that the
generated text is read as, and in the tokens of the text itself.
-/

set_option autoImplicit false

namespace LuaRecovery.Analysis
open LuaRecovery.Lua LuaGenerator Spelling Lexer Lua.Parser

/-- What the walk looks for: a name, something inside of a table, or a call. -/
inductive Reference where
  | identifier (name : String)
  | element (bases : List String)
  | call (bases : List String)

def vmRegisters : List String := ["b", "k"]

def vmHelpers : List String := ["M", "X", "Y", "Q", "W", "o"]

def vmDecoders : List String := ["l", "H", "K", "V", "C"]

structure VmDependency where
  dispatcherReferences : ℕ
  vmRegisterReferences : ℕ
  runtimeHelperReferences : ℕ
  decoderReferences : ℕ
  vmTupleTransportReferences : ℕ
  vmClosureHelperReferences : ℕ
  detached : Bool
  deriving DecidableEq

section Walk
variable {N : Type}

def isBase (bases : List String) (base : Expr N) : Bool := base.name?.any fun name => name ∈ bases

def Reference.holds (r : Reference) (node : Lua.Node N) : Bool :=
  match r, node with
  | .identifier name, .expr (.identifier name') => name' = name
  | .element bases, .expr (.memberExpression base _) => isBase bases base
  | .element bases, .expr (.indexExpression base _) => isBase bases base
  | .call bases, .expr (.callExpression base _ _) => isBase bases base
  | _, _ => false

def Reference.count (r : Reference) (nodes : List (Lua.Node N)) : ℕ := nodes.countP r.holds

/-- No closure helper is ever counted. -/
def vmDependency (chunk : Chunk N) (dispatcherVar : String) : VmDependency :=
  let dispatcherReferences := (Reference.identifier dispatcherVar).count chunk.nodes
  let vmRegisterReferences := (Reference.element vmRegisters).count chunk.nodes
  let runtimeHelperReferences := (Reference.call vmHelpers).count chunk.nodes
  let decoderReferences := (Reference.call vmDecoders).count chunk.nodes
  let vmTupleTransportReferences := (Reference.call ["U"]).count chunk.nodes
  { dispatcherReferences, vmRegisterReferences, runtimeHelperReferences, decoderReferences
    vmTupleTransportReferences
    vmClosureHelperReferences := 0
    detached := dispatcherReferences = 0 && vmRegisterReferences = 0 &&
      runtimeHelperReferences = 0 && decoderReferences = 0 && vmTupleTransportReferences = 0 }

/-- `VMDependencyGraph.analyze`. Without a tree, nothing is counted and nothing is detached. -/
def analyzeDependency (astChunk : Option (Chunk N)) (dispatcherVar : Option String) :
    VmDependency :=
  match astChunk with
  | none => ⟨0, 0, 0, 0, 0, 0, false⟩
  | some chunk => vmDependency chunk (dispatcherVar.getD "G")

/-- `checkVmRef` of the pipeline: no identifier of the tree has the name. -/
def checkVmRef (stateVar : String) (chunk : Chunk N) : Bool :=
  !chunk.nodes.any (Reference.identifier stateVar).holds

theorem checkVmRef_iff (stateVar : String) (chunk : Chunk N) :
    checkVmRef stateVar chunk = true ↔ (Reference.identifier stateVar).count chunk.nodes = 0 := by
  simp [checkVmRef, Reference.count, List.countP_eq_zero]

variable {r : Reference}

theorem count_nil : r.count ([] : List (Lua.Node N)) = 0 := rfl

theorem count_append (ns ms : List (Lua.Node N)) : r.count (ns ++ ms) = r.count ns + r.count ms :=
  List.countP_append

theorem count_cons (n : Lua.Node N) (ns : List (Lua.Node N)) :
    r.count (n::ns) = r.count ns + if r.holds n then 1 else 0 := List.countP_cons

theorem count_stmt (s : Stmt N) (ns : List (Lua.Node N)) : r.count (.stmt s :: ns) = r.count ns := by
  rw [count_cons]
  cases r <;> rfl

end Walk

section Text
variable {N : Type} [Numerals N]

/-- The text of a number without its sign. -/
def magnitude (text : List Char) : List Char :=
  match text with
  | '-' :: text => text
  | text => text

/-- No number is written as the name. -/
def Reference.Unspelled (r : Reference) (node : Lua.Node N) : Prop :=
  match r, node with
  | .identifier name, .expr (.numericLiteral value raw) =>
      String.ofList (magnitude (numericText value raw).toList) ≠ name
  | _, _ => True

def Reference.AllUnspelled (r : Reference) (nodes : List (Lua.Node N)) : Prop :=
  ∀ n ∈ nodes, r.Unspelled n

variable {r : Reference}

theorem unspelled_head {n : Lua.Node N} {ns : List (Lua.Node N)} (h : r.AllUnspelled (n::ns)) :
    r.Unspelled n :=
  h n List.mem_cons_self

theorem unspelled_tail {n : Lua.Node N} {ns : List (Lua.Node N)} (h : r.AllUnspelled (n::ns)) :
    r.AllUnspelled ns :=
  fun m hm => h m (List.mem_cons_of_mem _ hm)

theorem unspelled_left {ns ms : List (Lua.Node N)} (h : r.AllUnspelled (ns ++ ms)) :
    r.AllUnspelled ns :=
  fun m hm => h m (List.mem_append_left _ hm)

theorem unspelled_right {ns ms : List (Lua.Node N)} (h : r.AllUnspelled (ns ++ ms)) :
    r.AllUnspelled ms :=
  fun m hm => h m (List.mem_append_right _ hm)

theorem magnitude_unsigned {text : List Char} (h : ∀ ds, text = '-'::ds → False) :
    magnitude text = text := by
  unfold magnitude
  split
  next => exact (h _ rfl).elim
  next => rfl

theorem count_atom {text : List Char} (h : ∀ name, r = .identifier name → String.ofList text ≠ name) :
    r.count (exprNodes (atomNode text : Expr N)) = 0 := by
  unfold atomNode
  split
  · cases r with
    | identifier name =>
      have hne := h name rfl
      simp [exprNodes, Reference.count, Reference.holds, hne]
    | element bases => rfl
    | call bases => rfl
  · cases r <;> rfl

omit [Numerals N] in
theorem count_minus (e : Expr N) :
    r.count (exprNodes (.unaryExpression .minus e)) = r.count (exprNodes e) := by
  rw [exprNodes, count_cons]
  cases r <;> rfl

theorem count_number {value : N} {raw : String} (h : r.Unspelled (.expr (.numericLiteral value raw))) :
    r.count (exprNodes (Expr.numericLiteral value raw).reread) = 0 := by
  have hname : ∀ name, r = .identifier name →
      String.ofList (magnitude (numericText value raw).toList) ≠ name := by
    rintro name rfl
    exact h
  rw [Expr.reread]
  generalize (numericText value raw).toList = text at hname
  by_cases hsign : ∃ ds, text = '-'::ds
  · obtain ⟨ds, rfl⟩ := hsign
    rw [numberNode, count_minus]
    exact count_atom hname
  · have hplain : ∀ ds, text = '-'::ds → False := fun ds heq => hsign ⟨ds, heq⟩
    rw [magnitude_unsigned hplain] at hname
    rw [numberNode.eq_2 text hplain]
    exact count_atom hname

omit [Numerals N] in
theorem count_binary (operator : BinaryOperator) (a b : Expr N) :
    r.count (exprNodes (.binaryExpression operator a b)) =
      r.count (exprNodes a) + r.count (exprNodes b) := by
  rw [exprNodes, count_cons, count_append]
  cases r <;> rfl

theorem reread_of_negated {left : Expr N} {text : List Char} (h : negated left = some text) :
    left.reread = .unaryExpression .minus (atomNode text) := by
  obtain ⟨value, raw, rfl, htext⟩ := exists_of_negated h
  rw [Expr.reread, htext, numberNode]

theorem count_binaryNode (operator : BinaryOperator) (left b : Expr N) :
    r.count (exprNodes (binaryNode operator (negated left) left.reread b)) =
      r.count (exprNodes left.reread) + r.count (exprNodes b) := by
  by_cases hpow : operator = .pow
  · subst hpow
    cases hleft : negated left with
    | none =>
      rw [binaryNode.eq_def]
      exact count_binary _ _ _
    | some text =>
      rw [binaryNode.eq_def, reread_of_negated hleft]
      dsimp only
      rw [count_minus, count_binary, count_minus]
  · have hnode : binaryNode operator (negated left) left.reread b =
        .binaryExpression operator left.reread b := by
      cases operator <;> first | exact absurd rfl hpow | rw [binaryNode.eq_def]
    rw [hnode, count_binary]

theorem name_binaryNode (operator : BinaryOperator) (magnitude : Option (List Char))
    (a b : Expr N) : (binaryNode operator magnitude a b).name? = none := by
  cases operator <;> cases magnitude <;> rfl

/-- What a suffix can follow keeps its name. -/
theorem name_reread {e : Expr N} (h : e.IsBase) : e.reread.name? = e.name? := by
  cases e with
  | numericLiteral value raw => exact h.elim
  | binaryExpression operator left right =>
    rw [Expr.reread, name_binaryNode]
    rfl
  | _ => rw [Expr.reread] <;> rfl

theorem isBase_reread {e : Expr N} (h : e.IsBase) (bases : List String) :
    isBase bases e.reread = isBase bases e := by
  rw [isBase, isBase, name_reread h]

theorem holds_call {base : Expr N} (h : base.IsBase) (args args' : List (Expr N))
    (inParens inParens' : Bool) :
    r.holds (.expr (.callExpression base.reread args' inParens')) =
      r.holds (.expr (.callExpression base args inParens)) := by
  cases r with
  | call bases => exact isBase_reread h bases
  | identifier name => rfl
  | element bases => rfl

theorem holds_member {base : Expr N} (h : base.IsBase) (property : Expr N) :
    r.holds (.expr (.memberExpression base.reread property)) =
      r.holds (.expr (.memberExpression base property)) := by
  cases r with
  | element bases => exact isBase_reread h bases
  | identifier name => rfl
  | call bases => rfl

theorem holds_index {base : Expr N} (h : base.IsBase) (index index' : Expr N) :
    r.holds (.expr (.indexExpression base.reread index')) =
      r.holds (.expr (.indexExpression base index)) := by
  cases r with
  | element bases => exact isBase_reread h bases
  | identifier name => rfl
  | call bases => rfl

mutual

theorem count_expr : ∀ e : Expr N, e.Legible → r.AllUnspelled (exprNodes e) →
    r.count (exprNodes e.reread) = r.count (exprNodes e)
  | .identifier _, _, _ => rfl
  | .numericLiteral value raw, _, h => by
    rw [count_number (unspelled_head h), exprNodes, count_cons]
    cases r <;> rfl
  | .stringLiteral _, _, _ => by cases r <;> rfl
  | .booleanLiteral _, _, _ => rfl
  | .nilLiteral, _, _ => rfl
  | .varargLiteral _, _, _ => rfl
  | .unaryExpression operator argument, hl, h => by
    rw [Expr.reread, exprNodes, exprNodes, count_cons, count_cons,
      count_expr argument hl.2 (unspelled_tail h)]
    cases r <;> rfl
  | .binaryExpression operator left right, hl, h => by
    have hrest := unspelled_tail h
    rw [Expr.reread, count_binaryNode, count_expr left hl.1 (unspelled_left hrest),
      count_expr right hl.2 (unspelled_right hrest), count_binary]
  | .logicalExpression operator left right, hl, h => by
    have hrest := unspelled_tail h
    rw [Expr.reread, exprNodes, exprNodes, count_cons, count_cons, count_append, count_append,
      count_expr left hl.1 (unspelled_left hrest), count_expr right hl.2 (unspelled_right hrest)]
    cases r <;> rfl
  | .callExpression base args inParens, hl, h => by
    have hrest := unspelled_tail h
    rw [Expr.reread, exprNodes, exprNodes, count_cons, count_cons, count_append, count_append,
      count_expr base hl.2.1 (unspelled_left hrest),
      count_exprs args hl.2.2 (unspelled_right hrest), holds_call hl.1]
  | .methodCallExpression base method args inParens, hl, h => by
    have hrest := unspelled_tail h
    rw [Expr.reread, exprNodes, exprNodes, count_cons, count_cons, count_append, count_append,
      count_append, count_append,
      count_expr base hl.2.1 (unspelled_left (unspelled_left hrest)),
      count_exprs args hl.2.2.2 (unspelled_right hrest)]
    cases r <;> rfl
  | .memberExpression base property, hl, h => by
    rw [Expr.reread, exprNodes, exprNodes, count_cons, count_cons, count_append, count_append,
      count_expr base hl.2.1 (unspelled_left (unspelled_tail h)), holds_member hl.1]
  | .indexExpression base index, hl, h => by
    have hrest := unspelled_tail h
    rw [Expr.reread, exprNodes, exprNodes, count_cons, count_cons, count_append, count_append,
      count_expr base hl.2.1 (unspelled_left hrest),
      count_expr index hl.2.2 (unspelled_right hrest), holds_index hl.1]
  | .functionExpression params isVararg body, hl, h => by
    rw [Expr.reread, exprNodes, exprNodes, count_cons, count_cons, count_append, count_append,
      count_block body hl.2 (unspelled_right (unspelled_tail h))]
    cases r <;> rfl
  | .tableConstructor fields, hl, h => by
    rw [Expr.reread, exprNodes, exprNodes, count_cons, count_cons,
      count_fields fields hl (unspelled_tail h)]
    cases r <;> rfl

theorem count_exprs : ∀ es : List (Expr N), exprsLegible es → r.AllUnspelled (exprsNodes es) →
    r.count (exprsNodes (exprsReread es)) = r.count (exprsNodes es)
  | [], _, _ => rfl
  | e::es, hl, h => by
    rw [exprsReread, exprsNodes, exprsNodes, count_append, count_append,
      count_expr e hl.1 (unspelled_left h), count_exprs es hl.2 (unspelled_right h)]

theorem count_fields : ∀ fs : List (TableField N), fieldsLegible fs →
    r.AllUnspelled (fieldsNodes fs) →
    r.count (fieldsNodes (fieldsReread fs)) = r.count (fieldsNodes fs)
  | [], _, _ => rfl
  | .tableKey key value :: fs, hl, h => by
    rw [fieldsReread, fieldReread, fieldsNodes, fieldsNodes, count_append, count_append,
      count_append, count_append, count_expr key hl.1 (unspelled_left (unspelled_left h)),
      count_expr value hl.2.1 (unspelled_right (unspelled_left h)),
      count_fields fs hl.2.2 (unspelled_right h)]
  | .tableKeyString key value :: fs, hl, h => by
    rw [fieldsReread, fieldReread, fieldsNodes, fieldsNodes, count_append, count_append,
      count_append, count_append, count_expr value hl.2.1 (unspelled_right (unspelled_left h)),
      count_fields fs hl.2.2 (unspelled_right h)]
  | .tableValue value :: fs, hl, h => by
    rw [fieldsReread, fieldReread, fieldsNodes, fieldsNodes, count_append, count_append,
      count_expr value hl.1 (unspelled_left h), count_fields fs hl.2 (unspelled_right h)]

theorem count_statement : ∀ s : Stmt N, s.Legible → r.AllUnspelled (stmtNodes s) →
    r.count (stmtNodes s.reread) = r.count (stmtNodes s)
  | .localStatement vars init, hl, h => by
    rw [Stmt.reread, stmtNodes, stmtNodes, count_stmt, count_stmt, count_append, count_append,
      count_exprs init hl.2.2 (unspelled_right (unspelled_tail h))]
  | .assignmentStatement vars init, hl, h => by
    have hrest := unspelled_tail h
    rw [Stmt.reread, stmtNodes, stmtNodes, count_stmt, count_stmt, count_append, count_append,
      count_exprs vars hl.2.2.1 (unspelled_left hrest),
      count_exprs init hl.2.2.2.2 (unspelled_right hrest)]
  | .localFunctionStatement identifier params isVararg body, hl, h => by
    rw [Stmt.reread, stmtNodes, stmtNodes, count_stmt, count_stmt, count_append, count_append,
      count_append, count_append,
      count_block body hl.2.2 (unspelled_right (unspelled_tail h))]
  | .functionDeclaration name params isVararg body isMethod, hl, h => by
    rw [Stmt.reread, stmtNodes, stmtNodes, count_stmt, count_stmt, count_append, count_append,
      count_append, count_append,
      count_block body hl.2.2.2 (unspelled_right (unspelled_tail h))]
  | .callStatement expression, hl, h => by
    rw [Stmt.reread, stmtNodes, stmtNodes, count_stmt, count_stmt,
      count_expr expression hl.2 (unspelled_tail h)]
  | .ifStatement clauses none, hl, h => by
    have hclauses := count_clauses clauses hl.2.1 (unspelled_left (unspelled_tail h))
    simp only [Stmt.reread, stmtNodes, count_stmt, count_append, hclauses]
  | .ifStatement clauses (some []), hl, h => by
    have hclauses := count_clauses clauses hl.2.1 (unspelled_left (unspelled_tail h))
    simp only [Stmt.reread, stmtNodes, count_stmt, count_append, hclauses, blockNodes]
  | .ifStatement clauses (some (s::ss)), hl, h => by
    have hrest := unspelled_tail h
    have hclauses := count_clauses clauses hl.2.1 (unspelled_left hrest)
    have hlegible : blockLegible (s::ss) := hl.2.2
    have hblock := count_block (s::ss) hlegible (unspelled_right hrest)
    rw [blockReread] at hblock
    simp only [Stmt.reread, stmtNodes, count_stmt, count_append, hclauses, hblock]
  | .whileStatement condition body, hl, h => by
    have hrest := unspelled_tail h
    rw [Stmt.reread, stmtNodes, stmtNodes, count_stmt, count_stmt, count_append, count_append,
      count_expr condition hl.1 (unspelled_left hrest),
      count_block body hl.2 (unspelled_right hrest)]
  | .repeatStatement condition body, hl, h => by
    have hrest := unspelled_tail h
    rw [Stmt.reread, stmtNodes, stmtNodes, count_stmt, count_stmt, count_append, count_append,
      count_expr condition hl.1 (unspelled_left hrest),
      count_block body hl.2 (unspelled_right hrest)]
  | .numericForStatement variableName start stop none body, hl, h => by
    have hbounds := unspelled_left (unspelled_left (unspelled_tail h))
    have hstart := count_expr start hl.2.1 (unspelled_right (unspelled_left hbounds))
    have hstop := count_expr stop hl.2.2.1 (unspelled_right hbounds)
    have hbody := count_block body hl.2.2.2.2 (unspelled_right (unspelled_tail h))
    simp only [Stmt.reread, stmtNodes, count_stmt, count_append, hstart, hstop, hbody]
  | .numericForStatement variableName start stop (some step) body, hl, h => by
    have hbounds := unspelled_left (unspelled_left (unspelled_tail h))
    have hstart := count_expr start hl.2.1 (unspelled_right (unspelled_left hbounds))
    have hstop := count_expr stop hl.2.2.1 (unspelled_right hbounds)
    have hlegible : step.Legible := hl.2.2.2.1
    have hstep := count_expr step hlegible (unspelled_right (unspelled_left (unspelled_tail h)))
    have hbody := count_block body hl.2.2.2.2 (unspelled_right (unspelled_tail h))
    simp only [Stmt.reread, stmtNodes, count_stmt, count_append, hstart, hstop, hstep, hbody]
  | .genericForStatement vars iterators body, hl, h => by
    have hrest := unspelled_tail h
    rw [Stmt.reread, stmtNodes, stmtNodes, count_stmt, count_stmt, count_append, count_append,
      count_append, count_append,
      count_exprs iterators hl.2.2.2.1 (unspelled_right (unspelled_left hrest)),
      count_block body hl.2.2.2.2 (unspelled_right hrest)]
  | .doStatement body, hl, h => by
    rw [Stmt.reread, stmtNodes, stmtNodes, count_stmt, count_stmt,
      count_block body hl (unspelled_tail h)]
  | .returnStatement args, hl, h => by
    rw [Stmt.reread, stmtNodes, stmtNodes, count_stmt, count_stmt,
      count_exprs args hl (unspelled_tail h)]
  | .breakStatement, _, _ => rfl
  | .continueStatement, _, _ => rfl
  | .emptyStatement, _, _ => rfl

theorem count_block : ∀ ss : List (Stmt N), blockLegible ss → r.AllUnspelled (blockNodes ss) →
    r.count (blockNodes (blockReread ss)) = r.count (blockNodes ss)
  | [], _, _ => rfl
  | s::ss, hl, h => by
    have hs := count_statement s hl.1 (unspelled_left h)
    have hss := count_block ss hl.2.1 (unspelled_right h)
    rw [blockReread]
    by_cases hprinted : s.IsPrinted = true
    · rw [if_pos hprinted, blockNodes, blockNodes, count_append, count_append, hs, hss]
    · have hempty : s = .emptyStatement := by
        cases s <;> first | rfl | exact absurd rfl hprinted
      rw [if_neg hprinted, blockNodes, count_append, hss, hempty, stmtNodes, count_stmt, count_nil,
        Nat.zero_add]

theorem count_clauses : ∀ cs : List (IfClause N), clausesLegible cs →
    r.AllUnspelled (clausesNodes cs) →
    r.count (clausesNodes (clausesReread cs)) = r.count (clausesNodes cs)
  | [], _, _ => rfl
  | .mk condition body :: clauses, hl, h => by
    rw [clausesReread, clausesNodes, clausesNodes, count_append, count_append, count_append,
      count_append, count_expr condition hl.1 (unspelled_left (unspelled_left h)),
      count_block body hl.2.1 (unspelled_right (unspelled_left h)),
      count_clauses clauses hl.2.2 (unspelled_right h)]

end

/-- The token is the name. -/
def namesToken (name : String) (t : Lexeme N) : Bool := t.type = .ident && t.raw = name

def countTokens (name : String) (ts : List (Lexeme N)) : ℕ := ts.countP (namesToken name)

section Tokens
omit [Numerals N]
variable {name : String}

theorem tokens_cons (t : Lexeme N) (k : List (Lexeme N)) :
    countTokens name (t::k) = (if namesToken name t then 1 else 0) + countTokens name k := by
  rw [countTokens, List.countP_cons, Nat.add_comm]
  rfl

theorem tokens_silent {t : Lexeme N} (h : decide (t.type = .ident) = false) (k : List (Lexeme N)) :
    countTokens name (t::k) = countTokens name k := by
  simp [tokens_cons, namesToken, h]

theorem tokens_otherWord {w : String} (h : w ≠ name) (k : List (Lexeme N)) :
    countTokens name (.word w :: k) = countTokens name k := by
  simp [tokens_cons, namesToken, h]

theorem tokens_name {w : String} (h : IsName w) (k : List (Lexeme N)) :
    countTokens name (.word w :: k) =
      (Reference.identifier name).count (exprNodes (.identifier w : Expr N)) +
        countTokens name k := by
  rw [tokens_cons, word_of_name h.2, exprNodes, count_cons, count_nil, Nat.zero_add]
  rfl

theorem tokens_named {e : Expr N} (h : e.IsNamed) (k : List (Lexeme N)) :
    countTokens name (.word (nameText e) :: k) =
      (Reference.identifier name).count (exprNodes e) + countTokens name k := by
  obtain ⟨w, rfl, hw⟩ := h
  exact tokens_name hw k

theorem tokens_enclosed {n : ℕ} (low : Bool) {f : List (Lexeme N) → List (Lexeme N)}
    (h : ∀ k, countTokens name (f k) = n + countTokens name k) (k : List (Lexeme N)) :
    countTokens name (enclosed low k f) = n + countTokens name k := by
  cases low with
  | false => exact h k
  | true =>
    show countTokens name (openParen :: f (closeParen :: k)) = _
    rw [tokens_silent rfl, h, tokens_silent rfl]

theorem tokens_separated (ts k : List (Lexeme N)) :
    countTokens name (separated ts k) = countTokens name ts + countTokens name k := by
  cases ts with
  | nil => exact (Nat.zero_add _).symm
  | cons t ts =>
    have hmore : countTokens name (ts.flatMap fun t => [comma, t]) = countTokens name ts := by
      induction ts with
      | nil => rfl
      | cons t ts ih => rw [List.flatMap_cons, List.cons_append, tokens_silent rfl, List.cons_append,
          tokens_cons, tokens_cons, List.nil_append, ih]
    rw [separated, List.cons_append, tokens_cons, tokens_cons, countTokens, List.countP_append]
    unfold countTokens at hmore ⊢
    omega

theorem tokens_words {params : List (Expr N)} (h : ∀ p ∈ params, p.IsNamed) :
    countTokens name (params.map fun p => (.word (p.name?.getD "") : Lexeme N)) =
      (Reference.identifier name).count (exprsNodes params) := by
  induction params with
  | nil => rfl
  | cons p params ih =>
    obtain ⟨w, rfl, hw⟩ := h p List.mem_cons_self
    rw [List.map_cons, exprsNodes, count_append, ← ih fun q hq => h q (List.mem_cons_of_mem _ hq)]
    exact tokens_name hw _

theorem tokens_params {params : List (Expr N)} (h : ∀ p ∈ params, p.IsNamed) (isVararg : Bool)
    (k : List (Lexeme N)) :
    countTokens name (paramsTokens params isVararg k) =
      (Reference.identifier name).count (exprsNodes params) + countTokens name k := by
  have hdots : countTokens name (if isVararg then [dots] else [] : List (Lexeme N)) = 0 := by
    cases isVararg <;> rfl
  have hwords : countTokens name (params.map fun p => (.word (p.name?.getD "") : Lexeme N)) = _ :=
    tokens_words h
  rw [paramsTokens, tokens_separated]
  unfold countTokens at hdots hwords ⊢
  rw [List.countP_append, hdots, hwords, Nat.add_zero]

end Tokens

section Spelled
variable {name : String}

omit [Numerals N] in
theorem unaryToken_silent (operator : UnaryOperator) (k : List (Lexeme N)) :
    countTokens name (unaryToken operator :: k) = countTokens name k := by
  cases operator <;> exact tokens_silent rfl k

omit [Numerals N] in
theorem binaryToken_silent (operator : BinaryOperator) (k : List (Lexeme N)) :
    countTokens name (binaryToken operator :: k) = countTokens name k := by
  cases operator <;> exact tokens_silent rfl k

omit [Numerals N] in
theorem logicalToken_silent (operator : LogicalOperator) (k : List (Lexeme N)) :
    countTokens name (logicalToken operator :: k) = countTokens name k := by
  cases operator <;> exact tokens_silent rfl k

theorem atomToken_silent {text : List Char} (h : String.ofList text ≠ name)
    (k : List (Lexeme N)) : countTokens name (atomToken text :: k) = countTokens name k := by
  unfold atomToken
  split
  · exact tokens_otherWord h k
  · exact tokens_silent rfl k

theorem numberTokens_silent {text : List Char} (h : String.ofList (magnitude text) ≠ name)
    (k : List (Lexeme N)) : countTokens name (numberTokens text k) = countTokens name k := by
  by_cases hsign : ∃ ds, text = '-'::ds
  · obtain ⟨ds, rfl⟩ := hsign
    rw [numberTokens, tokens_silent rfl]
    exact atomToken_silent h k
  · have hplain : ∀ ds, text = '-'::ds → False := fun ds heq => hsign ⟨ds, heq⟩
    rw [magnitude_unsigned hplain] at h
    rw [numberTokens_unsigned hplain]
    exact atomToken_silent h k

theorem legible_named {es : List (Expr N)} (h : ∀ e ∈ es, e.IsNamed) : exprsLegible es := by
  induction es with
  | nil => trivial
  | cons e es ih =>
    obtain ⟨w, rfl, hw⟩ := h e List.mem_cons_self
    exact ⟨hw, ih fun p hp => h p (List.mem_cons_of_mem _ hp)⟩

/-- The function body, with what closes it. -/
theorem tokens_function {params : List (Expr N)} (hparams : ∀ p ∈ params, p.IsNamed)
    (isVararg : Bool) {body : List (Stmt N)} {n : ℕ}
    (hbody : ∀ k, countTokens name (blockTokens body k) = n + countTokens name k)
    (k : List (Lexeme N)) :
    countTokens name (openParen :: paramsTokens params isVararg
      (closeParen :: blockTokens body (.word "end" :: k))) =
      (Reference.identifier name).count (exprsNodes params) + n + countTokens name k := by
  rw [tokens_silent rfl, tokens_params hparams, tokens_silent rfl, hbody, tokens_silent rfl]
  omega

mutual

theorem tokens_expr : ∀ e : Expr N, e.Legible →
    (Reference.identifier name).AllUnspelled (exprNodes e) → ∀ p k,
    countTokens name (exprTokens e p k) =
      (Reference.identifier name).count (exprNodes e) + countTokens name k
  | .identifier w, hl, _, p, k => by
    rw [exprTokens]
    exact tokens_enclosed _ (fun k => tokens_name hl k) k
  | .numericLiteral value raw, _, h, p, k => by
    have hname : String.ofList (magnitude (numericText value raw).toList) ≠ name :=
      unspelled_head h
    rw [exprTokens]
    refine tokens_enclosed _ (fun k => ?_) k
    rw [exprNodes, count_cons, count_nil]
    exact (numberTokens_silent hname k).trans (Nat.zero_add _).symm
  | .stringLiteral value, _, _, p, k => by
    rw [exprTokens, exprNodes, count_cons, count_nil]
    exact tokens_enclosed _ (fun k => (tokens_silent rfl k).trans (Nat.zero_add _).symm) k
  | .booleanLiteral value, _, _, p, k => by
    rw [exprTokens, exprNodes, count_cons, count_nil]
    refine tokens_enclosed _ (fun k => ?_) k
    cases value <;> exact (tokens_silent rfl k).trans (Nat.zero_add _).symm
  | .nilLiteral, _, _, p, k => by
    rw [exprTokens, exprNodes, count_cons, count_nil]
    exact tokens_enclosed _ (fun k => (tokens_silent rfl k).trans (Nat.zero_add _).symm) k
  | .varargLiteral inParens, _, _, p, k => by
    rw [exprTokens, exprNodes, count_cons, count_nil]
    exact tokens_enclosed _ (fun k => tokens_enclosed _
      (fun k => (tokens_silent rfl k).trans (Nat.zero_add _).symm) k) k
  | .unaryExpression operator argument, hl, h, p, k => by
    rw [exprTokens, exprNodes, count_cons]
    refine tokens_enclosed _ (fun k => ?_) k
    have hclash : ¬(operator = .minus ∧ startsMinus argument 70 = true) := by
      rintro ⟨hminus, hstart⟩
      rw [hl.1 hminus] at hstart
      cases hstart
    dsimp only
    rw [if_neg hclash, unaryToken_silent]
    exact tokens_expr argument hl.2 (unspelled_tail h) _ _
  | .binaryExpression operator left right, hl, h, p, k => by
    rw [exprTokens, count_binary]
    refine tokens_enclosed _ (fun k => ?_) k
    rw [tokens_expr left hl.1 (unspelled_left (unspelled_tail h)), binaryToken_silent,
      tokens_expr right hl.2 (unspelled_right (unspelled_tail h)), Nat.add_assoc]
  | .logicalExpression operator left right, hl, h, p, k => by
    rw [exprTokens, exprNodes, count_cons, count_append]
    refine tokens_enclosed _ (fun k => ?_) k
    dsimp only
    rw [tokens_expr left hl.1 (unspelled_left (unspelled_tail h)), logicalToken_silent,
      tokens_expr right hl.2 (unspelled_right (unspelled_tail h))]
    exact (Nat.add_assoc _ _ _).symm
  | .callExpression base args inParens, hl, h, p, k => by
    have hbase := tokens_expr base hl.2.1 (unspelled_left (unspelled_tail h)) 990
    have hargs := tokens_exprs args hl.2.2 (unspelled_right (unspelled_tail h))
    rw [exprTokens, exprNodes, count_cons, count_append]
    refine tokens_enclosed _ (fun k => ?_) k
    dsimp only
    rw [tokens_enclosed _ hbase, tokens_silent rfl, hargs, tokens_silent rfl]
    exact (Nat.add_assoc _ _ _).symm
  | .methodCallExpression base method args inParens, hl, h, p, k => by
    have hbase := tokens_expr base hl.2.1 (unspelled_left (unspelled_left (unspelled_tail h))) 990
    have hargs := tokens_exprs args hl.2.2.2 (unspelled_right (unspelled_tail h))
    rw [exprTokens, exprNodes, count_cons, count_append, count_append]
    refine tokens_enclosed _ (fun k => ?_) k
    dsimp only
    rw [tokens_enclosed _ hbase, tokens_silent rfl, tokens_named hl.2.2.1, tokens_silent rfl, hargs,
      tokens_silent rfl]
    simp only [Reference.holds, Bool.false_eq_true, if_false]
    omega
  | .memberExpression base property, hl, h, p, k => by
    have hbase := tokens_expr base hl.2.1 (unspelled_left (unspelled_tail h)) 990
    rw [exprTokens, exprNodes, count_cons, count_append]
    refine tokens_enclosed _ (fun k => ?_) k
    dsimp only
    rw [tokens_enclosed _ hbase, tokens_silent rfl, tokens_named hl.2.2]
    exact (Nat.add_assoc _ _ _).symm
  | .indexExpression base index, hl, h, p, k => by
    have hbase := tokens_expr base hl.2.1 (unspelled_left (unspelled_tail h)) 990
    have hindex := tokens_expr index hl.2.2 (unspelled_right (unspelled_tail h)) 0
    rw [exprTokens, exprNodes, count_cons, count_append]
    refine tokens_enclosed _ (fun k => ?_) k
    dsimp only
    rw [tokens_enclosed _ hbase, tokens_silent rfl, hindex, tokens_silent rfl]
    exact (Nat.add_assoc _ _ _).symm
  | .functionExpression params isVararg body, hl, h, p, k => by
    have hbody := tokens_block body hl.2 (unspelled_right (unspelled_tail h))
    rw [exprTokens, exprNodes, count_cons, count_append]
    refine tokens_enclosed _ (fun k => ?_) k
    dsimp only
    rw [tokens_silent rfl, tokens_function hl.1 isVararg hbody]
    rfl
  | .tableConstructor fields, hl, h, p, k => by
    have hfields := tokens_fields fields hl (unspelled_tail h)
    rw [exprTokens, exprNodes, count_cons]
    refine tokens_enclosed _ (fun k => ?_) k
    dsimp only
    rw [tokens_silent rfl, hfields, tokens_silent rfl]
    rfl

theorem tokens_exprs : ∀ es : List (Expr N), exprsLegible es →
    (Reference.identifier name).AllUnspelled (exprsNodes es) → ∀ k,
    countTokens name (exprsTokens es k) =
      (Reference.identifier name).count (exprsNodes es) + countTokens name k
  | [], _, _, k => (Nat.zero_add _).symm
  | e::es, hl, h, k => by
    rw [exprsTokens, tokens_expr e hl.1 (unspelled_left h),
      tokens_moreExprs es hl.2 (unspelled_right h), exprsNodes, count_append, Nat.add_assoc]

theorem tokens_moreExprs : ∀ es : List (Expr N), exprsLegible es →
    (Reference.identifier name).AllUnspelled (exprsNodes es) → ∀ k,
    countTokens name (moreExprsTokens es k) =
      (Reference.identifier name).count (exprsNodes es) + countTokens name k
  | [], _, _, k => (Nat.zero_add _).symm
  | e::es, hl, h, k => by
    rw [moreExprsTokens, tokens_silent rfl, tokens_expr e hl.1 (unspelled_left h),
      tokens_moreExprs es hl.2 (unspelled_right h), exprsNodes, count_append, Nat.add_assoc]

theorem tokens_fields : ∀ fs : List (TableField N), fieldsLegible fs →
    (Reference.identifier name).AllUnspelled (fieldsNodes fs) → ∀ k,
    countTokens name (fieldsTokens fs k) =
      (Reference.identifier name).count (fieldsNodes fs) + countTokens name k
  | [], _, _, k => (Nat.zero_add _).symm
  | .tableKey key value :: fs, hl, h, k => by
    rw [fieldsTokens, fieldTokens, tokens_silent rfl,
      tokens_expr key hl.1 (unspelled_left (unspelled_left h)), tokens_silent rfl,
      tokens_silent rfl, tokens_expr value hl.2.1 (unspelled_right (unspelled_left h)),
      tokens_moreFields fs hl.2.2 (unspelled_right h), fieldsNodes, count_append, count_append]
    omega
  | .tableKeyString key value :: fs, hl, h, k => by
    rw [fieldsTokens, fieldTokens, tokens_named hl.1, tokens_silent rfl,
      tokens_expr value hl.2.1 (unspelled_right (unspelled_left h)),
      tokens_moreFields fs hl.2.2 (unspelled_right h), fieldsNodes, count_append, count_append]
    omega
  | .tableValue value :: fs, hl, h, k => by
    rw [fieldsTokens, fieldTokens, tokens_expr value hl.1 (unspelled_left h),
      tokens_moreFields fs hl.2 (unspelled_right h), fieldsNodes, count_append, Nat.add_assoc]

theorem tokens_moreFields : ∀ fs : List (TableField N), fieldsLegible fs →
    (Reference.identifier name).AllUnspelled (fieldsNodes fs) → ∀ k,
    countTokens name (moreFieldsTokens fs k) =
      (Reference.identifier name).count (fieldsNodes fs) + countTokens name k
  | [], _, _, k => (Nat.zero_add _).symm
  | .tableKey key value :: fs, hl, h, k => by
    rw [moreFieldsTokens, fieldTokens, tokens_silent rfl, tokens_silent rfl,
      tokens_expr key hl.1 (unspelled_left (unspelled_left h)), tokens_silent rfl,
      tokens_silent rfl, tokens_expr value hl.2.1 (unspelled_right (unspelled_left h)),
      tokens_moreFields fs hl.2.2 (unspelled_right h), fieldsNodes, count_append, count_append]
    omega
  | .tableKeyString key value :: fs, hl, h, k => by
    rw [moreFieldsTokens, fieldTokens, tokens_silent rfl, tokens_named hl.1, tokens_silent rfl,
      tokens_expr value hl.2.1 (unspelled_right (unspelled_left h)),
      tokens_moreFields fs hl.2.2 (unspelled_right h), fieldsNodes, count_append, count_append]
    omega
  | .tableValue value :: fs, hl, h, k => by
    rw [moreFieldsTokens, fieldTokens, tokens_silent rfl, tokens_expr value hl.1 (unspelled_left h),
      tokens_moreFields fs hl.2 (unspelled_right h), fieldsNodes, count_append, Nat.add_assoc]

theorem tokens_stmt : ∀ s : Stmt N, s.Legible →
    (Reference.identifier name).AllUnspelled (stmtNodes s) → ∀ k,
    countTokens name (stmtTokens s k) =
      (Reference.identifier name).count (stmtNodes s) + countTokens name k
  | .localStatement vars init, hl, h, k => by
    have hvars := tokens_exprs vars (legible_named hl.2.1) (unspelled_left (unspelled_tail h))
    have hinit := tokens_exprs init hl.2.2 (unspelled_right (unspelled_tail h))
    rw [stmtTokens, tokens_silent rfl, hvars, stmtNodes, count_stmt, count_append, Nat.add_assoc]
    cases init with
    | nil => exact congrArg _ (Nat.zero_add _).symm
    | cons e es =>
      rw [← hinit k]
      exact congrArg _ (tokens_silent rfl _)
  | .assignmentStatement vars init, hl, h, k => by
    have hvars := tokens_exprs vars hl.2.2.1 (unspelled_left (unspelled_tail h))
    have hinit := tokens_exprs init hl.2.2.2.2 (unspelled_right (unspelled_tail h))
    rw [stmtTokens, hvars, tokens_silent rfl, hinit, stmtNodes, count_stmt, count_append,
      Nat.add_assoc]
  | .localFunctionStatement identifier params isVararg body, hl, h, k => by
    have hbody := tokens_block body hl.2.2 (unspelled_right (unspelled_tail h))
    rw [stmtTokens, tokens_silent rfl, tokens_silent rfl, tokens_named hl.1,
      tokens_function hl.2.1 isVararg hbody, stmtNodes, count_stmt, count_append, count_append]
    omega
  | .functionDeclaration fname params isVararg body isMethod, hl, h, k => by
    have hname := tokens_expr fname hl.2.1 (unspelled_left (unspelled_left (unspelled_tail h))) 0
    have hbody := tokens_block body hl.2.2.2 (unspelled_right (unspelled_tail h))
    rw [stmtTokens, tokens_silent rfl, hname, tokens_function hl.2.2.1 isVararg hbody, stmtNodes,
      count_stmt, count_append, count_append]
    omega
  | .callStatement expression, hl, h, k => by
    rw [stmtTokens, tokens_expr expression hl.2 (unspelled_tail h), stmtNodes, count_stmt]
  | .ifStatement clauses none, hl, h, k => by
    have hclauses := tokens_clauses clauses hl.2.1 (unspelled_left (unspelled_tail h)) "if" rfl
    show countTokens name (clausesTokens "if" clauses (.word "end" :: k)) = _
    rw [hclauses, tokens_silent rfl, stmtNodes, count_stmt, count_append]
    rfl
  | .ifStatement clauses (some []), hl, h, k => by
    have hclauses := tokens_clauses clauses hl.2.1 (unspelled_left (unspelled_tail h)) "if" rfl
    show countTokens name (clausesTokens "if" clauses (.word "end" :: k)) = _
    rw [hclauses, tokens_silent rfl, stmtNodes, count_stmt, count_append]
    rfl
  | .ifStatement clauses (some (s::ss)), hl, h, k => by
    have hrest := unspelled_tail h
    have hclauses := tokens_clauses clauses hl.2.1 (unspelled_left hrest) "if" rfl
    have hlegible : blockLegible (s::ss) := hl.2.2
    have hblock := tokens_block (s::ss) hlegible (unspelled_right hrest)
    have helse : countTokens name (.word "else" :: stmtTokens s (blockTokens ss (.word "end" :: k))) =
        (Reference.identifier name).count (blockNodes (s::ss)) + countTokens name k := by
      rw [tokens_silent rfl, ← blockTokens, hblock, tokens_silent rfl]
    rw [stmtTokens, hclauses, stmtNodes, count_stmt, count_append, Nat.add_assoc]
    exact congrArg _ helse
  | .whileStatement condition body, hl, h, k => by
    have hcondition := tokens_expr condition hl.1 (unspelled_left (unspelled_tail h)) 0
    have hbody := tokens_block body hl.2 (unspelled_right (unspelled_tail h))
    rw [stmtTokens, tokens_silent rfl, hcondition, tokens_silent rfl, hbody, tokens_silent rfl,
      stmtNodes, count_stmt, count_append, Nat.add_assoc]
  | .repeatStatement condition body, hl, h, k => by
    have hcondition := tokens_expr condition hl.1 (unspelled_left (unspelled_tail h)) 0
    have hbody := tokens_block body hl.2 (unspelled_right (unspelled_tail h))
    rw [stmtTokens, tokens_silent rfl, hbody, tokens_silent rfl, hcondition, stmtNodes, count_stmt,
      count_append]
    omega
  | .numericForStatement variableName start stop none body, hl, h, k => by
    have hbounds := unspelled_left (unspelled_left (unspelled_tail h))
    have hstart := tokens_expr start hl.2.1 (unspelled_right (unspelled_left hbounds)) 0
    have hstop := tokens_expr stop hl.2.2.1 (unspelled_right hbounds) 0
    have hbody := tokens_block body hl.2.2.2.2 (unspelled_right (unspelled_tail h))
    rw [stmtTokens, tokens_silent rfl, tokens_named hl.1, tokens_silent rfl, hstart,
      tokens_silent rfl, hstop, tokens_silent rfl, hbody, tokens_silent rfl, stmtNodes, count_stmt,
      count_append, count_append, count_append, count_append, count_nil]
    omega
  | .numericForStatement variableName start stop (some step) body, hl, h, k => by
    have hbounds := unspelled_left (unspelled_left (unspelled_tail h))
    have hstart := tokens_expr start hl.2.1 (unspelled_right (unspelled_left hbounds)) 0
    have hstop := tokens_expr stop hl.2.2.1 (unspelled_right hbounds) 0
    have hlegible : step.Legible := hl.2.2.2.1
    have hstep := tokens_expr step hlegible (unspelled_right (unspelled_left (unspelled_tail h))) 0
    have hbody := tokens_block body hl.2.2.2.2 (unspelled_right (unspelled_tail h))
    rw [stmtTokens, tokens_silent rfl, tokens_named hl.1, tokens_silent rfl, hstart,
      tokens_silent rfl, hstop, tokens_silent rfl, hstep, tokens_silent rfl, hbody,
      tokens_silent rfl, stmtNodes, count_stmt, count_append, count_append, count_append,
      count_append]
    omega
  | .genericForStatement vars iterators body, hl, h, k => by
    have hiterators := tokens_exprs iterators hl.2.2.2.1
      (unspelled_right (unspelled_left (unspelled_tail h)))
    have hbody := tokens_block body hl.2.2.2.2 (unspelled_right (unspelled_tail h))
    rw [stmtTokens, tokens_silent rfl, tokens_params hl.2.1, tokens_silent rfl, hiterators,
      tokens_silent rfl, hbody, tokens_silent rfl, stmtNodes, count_stmt, count_append,
      count_append]
    omega
  | .doStatement body, hl, h, k => by
    rw [stmtTokens, tokens_silent rfl, tokens_block body hl (unspelled_tail h), tokens_silent rfl,
      stmtNodes, count_stmt]
  | .returnStatement args, hl, h, k => by
    rw [stmtTokens, tokens_silent rfl, tokens_exprs args hl (unspelled_tail h), stmtNodes,
      count_stmt]
  | .breakStatement, _, _, k => (tokens_silent rfl k).trans (Nat.zero_add _).symm
  | .continueStatement, _, _, k => (tokens_silent rfl k).trans (Nat.zero_add _).symm
  | .emptyStatement, _, _, k => (Nat.zero_add _).symm

theorem tokens_block : ∀ ss : List (Stmt N), blockLegible ss →
    (Reference.identifier name).AllUnspelled (blockNodes ss) → ∀ k,
    countTokens name (blockTokens ss k) =
      (Reference.identifier name).count (blockNodes ss) + countTokens name k
  | [], _, _, k => (Nat.zero_add _).symm
  | s::ss, hl, h, k => by
    rw [blockTokens, tokens_stmt s hl.1 (unspelled_left h),
      tokens_block ss hl.2.1 (unspelled_right h), blockNodes, count_append, Nat.add_assoc]

theorem tokens_clauses : ∀ cs : List (IfClause N), clausesLegible cs →
    (Reference.identifier name).AllUnspelled (clausesNodes cs) → ∀ (w : String),
    decide ((.word w : Lexeme N).type = .ident) = false → ∀ k,
    countTokens name (clausesTokens w cs k) =
      (Reference.identifier name).count (clausesNodes cs) + countTokens name k
  | [], _, _, w, hw, k => (Nat.zero_add _).symm
  | .mk condition body :: clauses, hl, h, w, hw, k => by
    have hcondition := tokens_expr condition hl.1 (unspelled_left (unspelled_left h)) 0
    have hbody := tokens_block body hl.2.1 (unspelled_right (unspelled_left h))
    rw [clausesTokens, tokens_silent hw, hcondition, tokens_silent rfl, hbody,
      tokens_clauses clauses hl.2.2 (unspelled_right h) "elseif" rfl, clausesNodes, count_append,
      count_append]
    omega

end

end Spelled

theorem vmDependency_reread {chunk : Chunk N} (h : blockLegible chunk.body) {dispatcherVar : String}
    (hspelled : (Reference.identifier dispatcherVar).AllUnspelled chunk.nodes) :
    vmDependency ⟨blockReread chunk.body⟩ dispatcherVar = vmDependency chunk dispatcherVar := by
  have hsame : ∀ r : Reference, r.AllUnspelled chunk.nodes →
      r.count (⟨blockReread chunk.body⟩ : Chunk N).nodes = r.count chunk.nodes :=
    fun r hr => count_block chunk.body h hr
  have helement : ∀ bases, (Reference.element bases).AllUnspelled chunk.nodes :=
    fun bases n _ => trivial
  have hcall : ∀ bases, (Reference.call bases).AllUnspelled chunk.nodes := fun bases n _ => trivial
  simp only [vmDependency, hsame _ hspelled, hsame _ (helement _), hsame _ (hcall _)]

/-- What is found in a tree is found in the text that is generated for it: the text is read as a
program with the same dependency on the virtual machine, and its tokens have the dispatcher's name
as often as it was counted. So none is left where the tree is detached. -/
theorem dependency_generate {indentStr : String} (hindent : IsIndent indentStr) {chunk : Chunk N}
    (h : blockLegible chunk.body) (dispatcherVar : Option String)
    (hspelled : (Reference.identifier (dispatcherVar.getD "G")).AllUnspelled chunk.nodes) :
    ∃ (tokens : List (Token N)) (depth : ℕ) (chunk' : Chunk N),
      tokenize (generate indentStr chunk) = .ok tokens ∧
      parseChunk depth tokens = some (.ok chunk') ∧
      analyzeDependency (some chunk') dispatcherVar =
        analyzeDependency (some chunk) dispatcherVar ∧
      countTokens (dispatcherVar.getD "G") (tokens.map Token.toLexeme) =
        (analyzeDependency (some chunk) dispatcherVar).dispatcherReferences ∧
      (checkVmRef (dispatcherVar.getD "G") chunk = true ↔
        ∀ t ∈ tokens, namesToken (dispatcherVar.getD "G") t.toLexeme = false) := by
  obtain ⟨tokens, htokens, hlexemes⟩ := lexes_generate indentStr hindent h ⟨1, 1, 0⟩
  obtain ⟨depth, hparse⟩ := parseChunk_tokens h hlexemes
  have hcount : countTokens (dispatcherVar.getD "G") (tokens.map Token.toLexeme) =
      (Reference.identifier (dispatcherVar.getD "G")).count chunk.nodes := by
    have hblock := tokens_block chunk.body h hspelled []
    rw [hlexemes, countTokens, List.countP_append]
    exact hblock
  refine ⟨tokens, depth, ⟨blockReread chunk.body⟩, htokens, hparse, vmDependency_reread h hspelled,
    hcount, ?_⟩
  rw [checkVmRef_iff, ← hcount, countTokens, List.countP_eq_zero]
  simp

end Text

section Cases

attribute [local instance] wholeNumerals

/-- `x = G` -/
def attachedChunk : Chunk ℕ := ⟨[.assignmentStatement [.identifier "x"] [.identifier "G"]]⟩

/-- The text has the name of the dispatcher once. -/
theorem dependency_generate_attached :
    ∃ (tokens : List (Token ℕ)) (depth : ℕ) (chunk' : Chunk ℕ),
      tokenize (generate "  " attachedChunk) = .ok tokens ∧
      parseChunk depth tokens = some (.ok chunk') ∧
      analyzeDependency (some chunk') none = analyzeDependency (some attachedChunk) none ∧
      countTokens "G" (tokens.map Token.toLexeme) =
        (analyzeDependency (some attachedChunk) none).dispatcherReferences ∧
      (checkVmRef "G" attachedChunk = true ↔
        ∀ t ∈ tokens, namesToken "G" t.toLexeme = false) := by
  have hx : IsName "x" := ⟨by decide, rfl⟩
  have hdispatcher : IsName "G" := ⟨by decide, rfl⟩
  have hlegible : blockLegible attachedChunk.body := by
    refine ⟨⟨by simp, ?_, ⟨hx, trivial⟩, by simp, hdispatcher, trivial⟩, trivial, by simp⟩
    simp [Expr.IsTarget]
  have hspelled : (Reference.identifier "G").AllUnspelled attachedChunk.nodes := by
    simp [attachedChunk, Chunk.nodes, blockNodes, stmtNodes, exprsNodes, exprNodes,
      Reference.AllUnspelled, Reference.Unspelled]
  exact dependency_generate isIndent_spaces hlegible none hspelled

end Cases
end LuaRecovery.Analysis
