import LuaRecovery.Lua.Nodes

/-!
# Nodes with what their places pass on

A traversal that hands something down: each node gets a context from its parent
and its position there. Operands are counted in the order in which they are
entered; a clause of an if statement counts once, a table field twice, for its
key and its value.
-/

set_option autoImplicit false

namespace LuaRecovery.Lua

section Sites
variable {N C : Type}

/-- A node and the context that its place gives it. -/
abbrev Site (C N : Type) := C × Node N

mutual

def exprSites (enter : C → Node N → ℕ → C) (c : C) : Expr N → List (Site C N)
  | .identifier name => [(c, .expr (.identifier name))]
  | .numericLiteral value raw => [(c, .expr (.numericLiteral value raw))]
  | .stringLiteral value => [(c, .expr (.stringLiteral value))]
  | .booleanLiteral value => [(c, .expr (.booleanLiteral value))]
  | .nilLiteral => [(c, .expr .nilLiteral)]
  | .varargLiteral inParens => [(c, .expr (.varargLiteral inParens))]
  | .unaryExpression operator argument =>
      let below := enter c (.expr (.unaryExpression operator argument))
      (c, .expr (.unaryExpression operator argument)) :: exprSites enter (below 0) argument
  | .binaryExpression operator left right =>
      let below := enter c (.expr (.binaryExpression operator left right))
      (c, .expr (.binaryExpression operator left right)) ::
        (exprSites enter (below 0) left ++ exprSites enter (below 1) right)
  | .logicalExpression operator left right =>
      let below := enter c (.expr (.logicalExpression operator left right))
      (c, .expr (.logicalExpression operator left right)) ::
        (exprSites enter (below 0) left ++ exprSites enter (below 1) right)
  | .callExpression base args inParens =>
      let below := enter c (.expr (.callExpression base args inParens))
      (c, .expr (.callExpression base args inParens)) ::
        (exprSites enter (below 0) base ++ exprsSites enter below 1 args)
  | .methodCallExpression base method args inParens =>
      let below := enter c (.expr (.methodCallExpression base method args inParens))
      (c, .expr (.methodCallExpression base method args inParens)) ::
        (exprSites enter (below 0) base ++ exprSites enter (below 1) method ++
          exprsSites enter below 2 args)
  | .memberExpression base property =>
      let below := enter c (.expr (.memberExpression base property))
      (c, .expr (.memberExpression base property)) ::
        (exprSites enter (below 0) base ++ exprSites enter (below 1) property)
  | .indexExpression base index =>
      let below := enter c (.expr (.indexExpression base index))
      (c, .expr (.indexExpression base index)) ::
        (exprSites enter (below 0) base ++ exprSites enter (below 1) index)
  | .functionExpression params isVararg body =>
      let below := enter c (.expr (.functionExpression params isVararg body))
      (c, .expr (.functionExpression params isVararg body)) ::
        (exprsSites enter below 0 params ++ blockSites enter below params.length body)
  | .tableConstructor fields =>
      let below := enter c (.expr (.tableConstructor fields))
      (c, .expr (.tableConstructor fields)) :: fieldsSites enter below 0 fields

def exprsSites (enter : C → Node N → ℕ → C) (below : ℕ → C) (k : ℕ) :
    List (Expr N) → List (Site C N)
  | [] => []
  | e::es => exprSites enter (below k) e ++ exprsSites enter below (k+1) es

def fieldsSites (enter : C → Node N → ℕ → C) (below : ℕ → C) (k : ℕ) :
    List (TableField N) → List (Site C N)
  | [] => []
  | .tableKey key value :: fs => exprSites enter (below k) key ++
      exprSites enter (below (k+1)) value ++ fieldsSites enter below (k+2) fs
  | .tableKeyString key value :: fs => exprSites enter (below k) key ++
      exprSites enter (below (k+1)) value ++ fieldsSites enter below (k+2) fs
  | .tableValue value :: fs =>
      exprSites enter (below (k+1)) value ++ fieldsSites enter below (k+2) fs

def stmtSites (enter : C → Node N → ℕ → C) (c : C) : Stmt N → List (Site C N)
  | .localStatement vars init =>
      let below := enter c (.stmt (.localStatement vars init))
      (c, .stmt (.localStatement vars init)) ::
        (exprsSites enter below 0 vars ++ exprsSites enter below vars.length init)
  | .assignmentStatement vars init =>
      let below := enter c (.stmt (.assignmentStatement vars init))
      (c, .stmt (.assignmentStatement vars init)) ::
        (exprsSites enter below 0 vars ++ exprsSites enter below vars.length init)
  | .localFunctionStatement identifier params isVararg body =>
      let below := enter c (.stmt (.localFunctionStatement identifier params isVararg body))
      (c, .stmt (.localFunctionStatement identifier params isVararg body)) ::
        (exprSites enter (below 0) identifier ++ exprsSites enter below 1 params ++
          blockSites enter below (params.length+1) body)
  | .functionDeclaration name params isVararg body isMethod =>
      let below := enter c (.stmt (.functionDeclaration name params isVararg body isMethod))
      (c, .stmt (.functionDeclaration name params isVararg body isMethod)) ::
        (exprSites enter (below 0) name ++ exprsSites enter below 1 params ++
          blockSites enter below (params.length+1) body)
  | .callStatement expression =>
      let below := enter c (.stmt (.callStatement expression))
      (c, .stmt (.callStatement expression)) :: exprSites enter (below 0) expression
  | .ifStatement clauses elseBody =>
      let below := enter c (.stmt (.ifStatement clauses elseBody))
      (c, .stmt (.ifStatement clauses elseBody)) :: (clausesSites enter below 0 clauses ++
        (match elseBody with
          | none => []
          | some body => blockSites enter below clauses.length body))
  | .whileStatement condition body =>
      let below := enter c (.stmt (.whileStatement condition body))
      (c, .stmt (.whileStatement condition body)) ::
        (exprSites enter (below 0) condition ++ blockSites enter below 1 body)
  | .repeatStatement condition body =>
      let below := enter c (.stmt (.repeatStatement condition body))
      (c, .stmt (.repeatStatement condition body)) ::
        (exprSites enter (below 0) condition ++ blockSites enter below 1 body)
  | .numericForStatement variableName start stop step body =>
      let below := enter c (.stmt (.numericForStatement variableName start stop step body))
      (c, .stmt (.numericForStatement variableName start stop step body)) ::
        (exprSites enter (below 0) variableName ++ exprSites enter (below 1) start ++
          exprSites enter (below 2) stop ++ (match step with
            | none => []
            | some e => exprSites enter (below 3) e) ++ blockSites enter below 4 body)
  | .genericForStatement vars iterators body =>
      let below := enter c (.stmt (.genericForStatement vars iterators body))
      (c, .stmt (.genericForStatement vars iterators body)) ::
        (exprsSites enter below 0 vars ++ exprsSites enter below vars.length iterators ++
          blockSites enter below (vars.length+iterators.length) body)
  | .doStatement body =>
      let below := enter c (.stmt (.doStatement body))
      (c, .stmt (.doStatement body)) :: blockSites enter below 0 body
  | .returnStatement args =>
      let below := enter c (.stmt (.returnStatement args))
      (c, .stmt (.returnStatement args)) :: exprsSites enter below 0 args
  | .breakStatement => [(c, .stmt .breakStatement)]
  | .continueStatement => [(c, .stmt .continueStatement)]
  | .emptyStatement => [(c, .stmt .emptyStatement)]

def blockSites (enter : C → Node N → ℕ → C) (below : ℕ → C) (k : ℕ) :
    List (Stmt N) → List (Site C N)
  | [] => []
  | s::ss => stmtSites enter (below k) s ++ blockSites enter below (k+1) ss

def clausesSites (enter : C → Node N → ℕ → C) (below : ℕ → C) (k : ℕ) :
    List (IfClause N) → List (Site C N)
  | [] => []
  | .mk condition body :: cs => exprSites enter (below k) condition ++
      blockSites enter (fun _ => below k) 0 body ++ clausesSites enter below (k+1) cs

end

/-- The sites of a chunk, whose statements all get the context `c`. -/
def Chunk.sites (enter : C → Node N → ℕ → C) (c : C) (chunk : Chunk N) : List (Site C N) :=
  blockSites enter (fun _ => c) 0 chunk.body

mutual

/-- Without the contexts the sites are the nodes. -/
theorem map_exprSites (enter : C → Node N → ℕ → C) (c : C) :
    ∀ e : Expr N, (exprSites enter c e).map Prod.snd = exprNodes e
  | .identifier _ => rfl
  | .numericLiteral _ _ => rfl
  | .stringLiteral _ => rfl
  | .booleanLiteral _ => rfl
  | .nilLiteral => rfl
  | .varargLiteral _ => rfl
  | .unaryExpression _ argument => by
      simp [exprSites, exprNodes, map_exprSites enter _ argument]
  | .binaryExpression _ left right => by
      simp [exprSites, exprNodes, map_exprSites enter _ left, map_exprSites enter _ right]
  | .logicalExpression _ left right => by
      simp [exprSites, exprNodes, map_exprSites enter _ left, map_exprSites enter _ right]
  | .callExpression base args _ => by
      simp [exprSites, exprNodes, map_exprSites enter _ base, map_exprsSites enter _ _ args]
  | .methodCallExpression base method args _ => by
      simp [exprSites, exprNodes, map_exprSites enter _ base, map_exprSites enter _ method,
        map_exprsSites enter _ _ args]
  | .memberExpression base property => by
      simp [exprSites, exprNodes, map_exprSites enter _ base, map_exprSites enter _ property]
  | .indexExpression base index => by
      simp [exprSites, exprNodes, map_exprSites enter _ base, map_exprSites enter _ index]
  | .functionExpression params _ body => by
      simp [exprSites, exprNodes, map_exprsSites enter _ _ params, map_blockSites enter _ _ body]
  | .tableConstructor fields => by
      simp [exprSites, exprNodes, map_fieldsSites enter _ _ fields]

theorem map_exprsSites (enter : C → Node N → ℕ → C) (below : ℕ → C) (k : ℕ) :
    ∀ es : List (Expr N), (exprsSites enter below k es).map Prod.snd = exprsNodes es
  | [] => rfl
  | e::es => by
      simp [exprsSites, exprsNodes, map_exprSites enter _ e, map_exprsSites enter _ _ es]

theorem map_fieldsSites (enter : C → Node N → ℕ → C) (below : ℕ → C) (k : ℕ) :
    ∀ fs : List (TableField N), (fieldsSites enter below k fs).map Prod.snd = fieldsNodes fs
  | [] => rfl
  | .tableKey key value :: fs => by
      simp [fieldsSites, fieldsNodes, map_exprSites enter _ key, map_exprSites enter _ value,
        map_fieldsSites enter _ _ fs]
  | .tableKeyString key value :: fs => by
      simp [fieldsSites, fieldsNodes, map_exprSites enter _ key, map_exprSites enter _ value,
        map_fieldsSites enter _ _ fs]
  | .tableValue value :: fs => by
      simp [fieldsSites, fieldsNodes, map_exprSites enter _ value, map_fieldsSites enter _ _ fs]

theorem map_stmtSites (enter : C → Node N → ℕ → C) (c : C) :
    ∀ s : Stmt N, (stmtSites enter c s).map Prod.snd = stmtNodes s
  | .localStatement vars init => by
      simp [stmtSites, stmtNodes, map_exprsSites enter _ _ vars, map_exprsSites enter _ _ init]
  | .assignmentStatement vars init => by
      simp [stmtSites, stmtNodes, map_exprsSites enter _ _ vars, map_exprsSites enter _ _ init]
  | .localFunctionStatement identifier params _ body => by
      simp [stmtSites, stmtNodes, map_exprSites enter _ identifier,
        map_exprsSites enter _ _ params, map_blockSites enter _ _ body]
  | .functionDeclaration name params _ body _ => by
      simp [stmtSites, stmtNodes, map_exprSites enter _ name, map_exprsSites enter _ _ params,
        map_blockSites enter _ _ body]
  | .callStatement expression => by
      simp [stmtSites, stmtNodes, map_exprSites enter _ expression]
  | .ifStatement clauses none => by
      simp [stmtSites, stmtNodes, map_clausesSites enter _ _ clauses]
  | .ifStatement clauses (some body) => by
      simp [stmtSites, stmtNodes, map_clausesSites enter _ _ clauses, map_blockSites enter _ _ body]
  | .whileStatement condition body => by
      simp [stmtSites, stmtNodes, map_exprSites enter _ condition, map_blockSites enter _ _ body]
  | .repeatStatement condition body => by
      simp [stmtSites, stmtNodes, map_exprSites enter _ condition, map_blockSites enter _ _ body]
  | .numericForStatement variableName start stop none body => by
      simp [stmtSites, stmtNodes, map_exprSites enter _ variableName, map_exprSites enter _ start,
        map_exprSites enter _ stop, map_blockSites enter _ _ body]
  | .numericForStatement variableName start stop (some step) body => by
      simp [stmtSites, stmtNodes, map_exprSites enter _ variableName, map_exprSites enter _ start,
        map_exprSites enter _ stop, map_exprSites enter _ step, map_blockSites enter _ _ body]
  | .genericForStatement vars iterators body => by
      simp [stmtSites, stmtNodes, map_exprsSites enter _ _ vars,
        map_exprsSites enter _ _ iterators, map_blockSites enter _ _ body]
  | .doStatement body => by simp [stmtSites, stmtNodes, map_blockSites enter _ _ body]
  | .returnStatement args => by simp [stmtSites, stmtNodes, map_exprsSites enter _ _ args]
  | .breakStatement => rfl
  | .continueStatement => rfl
  | .emptyStatement => rfl

theorem map_blockSites (enter : C → Node N → ℕ → C) (below : ℕ → C) (k : ℕ) :
    ∀ ss : List (Stmt N), (blockSites enter below k ss).map Prod.snd = blockNodes ss
  | [] => rfl
  | s::ss => by
      simp [blockSites, blockNodes, map_stmtSites enter _ s, map_blockSites enter _ _ ss]

theorem map_clausesSites (enter : C → Node N → ℕ → C) (below : ℕ → C) (k : ℕ) :
    ∀ cs : List (IfClause N), (clausesSites enter below k cs).map Prod.snd = clausesNodes cs
  | [] => rfl
  | .mk condition body :: cs => by
      simp [clausesSites, clausesNodes, map_exprSites enter _ condition,
        map_blockSites enter _ _ body, map_clausesSites enter _ _ cs]

end

/-- The sites of a chunk are its nodes in their order. -/
theorem Chunk.map_sites (enter : C → Node N → ℕ → C) (c : C) (chunk : Chunk N) :
    (chunk.sites enter c).map Prod.snd = chunk.nodes := map_blockSites enter _ _ chunk.body

end Sites

section Inherited
variable {N C : Type} {enter : C → Node N → ℕ → C} {P : C → Prop}

mutual

/-- What every operand inherits from its node, every node below it has. -/
theorem inherits_exprSites (h : ∀ c n i, P c → P (enter c n i)) :
    ∀ (e : Expr N) {c : C}, P c → ∀ s ∈ exprSites enter c e, P s.1
  | .identifier _, _, hc => by simpa [exprSites] using hc
  | .numericLiteral _ _, _, hc => by simpa [exprSites] using hc
  | .stringLiteral _, _, hc => by simpa [exprSites] using hc
  | .booleanLiteral _, _, hc => by simpa [exprSites] using hc
  | .nilLiteral, _, hc => by simpa [exprSites] using hc
  | .varargLiteral _, _, hc => by simpa [exprSites] using hc
  | .unaryExpression _ argument, _, hc =>
      List.forall_mem_cons.mpr ⟨hc, inherits_exprSites h argument (h _ _ _ hc)⟩
  | .binaryExpression _ left right, _, hc =>
      List.forall_mem_cons.mpr ⟨hc, List.forall_mem_append.mpr
        ⟨inherits_exprSites h left (h _ _ _ hc), inherits_exprSites h right (h _ _ _ hc)⟩⟩
  | .logicalExpression _ left right, _, hc =>
      List.forall_mem_cons.mpr ⟨hc, List.forall_mem_append.mpr
        ⟨inherits_exprSites h left (h _ _ _ hc), inherits_exprSites h right (h _ _ _ hc)⟩⟩
  | .callExpression base args _, _, hc =>
      List.forall_mem_cons.mpr ⟨hc, List.forall_mem_append.mpr
        ⟨inherits_exprSites h base (h _ _ _ hc),
          inherits_exprsSites h args (fun _ => h _ _ _ hc) 1⟩⟩
  | .methodCallExpression base method args _, _, hc =>
      List.forall_mem_cons.mpr ⟨hc, List.forall_mem_append.mpr ⟨List.forall_mem_append.mpr
        ⟨inherits_exprSites h base (h _ _ _ hc), inherits_exprSites h method (h _ _ _ hc)⟩,
          inherits_exprsSites h args (fun _ => h _ _ _ hc) 2⟩⟩
  | .memberExpression base property, _, hc =>
      List.forall_mem_cons.mpr ⟨hc, List.forall_mem_append.mpr
        ⟨inherits_exprSites h base (h _ _ _ hc), inherits_exprSites h property (h _ _ _ hc)⟩⟩
  | .indexExpression base index, _, hc =>
      List.forall_mem_cons.mpr ⟨hc, List.forall_mem_append.mpr
        ⟨inherits_exprSites h base (h _ _ _ hc), inherits_exprSites h index (h _ _ _ hc)⟩⟩
  | .functionExpression params _ body, _, hc =>
      List.forall_mem_cons.mpr ⟨hc, List.forall_mem_append.mpr
        ⟨inherits_exprsSites h params (fun _ => h _ _ _ hc) 0,
          inherits_blockSites h body (fun _ => h _ _ _ hc) params.length⟩⟩
  | .tableConstructor fields, _, hc =>
      List.forall_mem_cons.mpr ⟨hc, inherits_fieldsSites h fields (fun _ => h _ _ _ hc) 0⟩

theorem inherits_exprsSites (h : ∀ c n i, P c → P (enter c n i)) :
    ∀ (es : List (Expr N)) {below : ℕ → C}, (∀ i, P (below i)) → ∀ k,
      ∀ s ∈ exprsSites enter below k es, P s.1
  | [], _, _, _ => by simp [exprsSites]
  | e::es, _, hbelow, k => List.forall_mem_append.mpr
      ⟨inherits_exprSites h e (hbelow k), inherits_exprsSites h es hbelow (k+1)⟩

theorem inherits_fieldsSites (h : ∀ c n i, P c → P (enter c n i)) :
    ∀ (fs : List (TableField N)) {below : ℕ → C}, (∀ i, P (below i)) → ∀ k,
      ∀ s ∈ fieldsSites enter below k fs, P s.1
  | [], _, _, _ => by simp [fieldsSites]
  | .tableKey key value :: fs, _, hbelow, k => List.forall_mem_append.mpr
      ⟨List.forall_mem_append.mpr ⟨inherits_exprSites h key (hbelow k),
        inherits_exprSites h value (hbelow (k+1))⟩, inherits_fieldsSites h fs hbelow (k+2)⟩
  | .tableKeyString key value :: fs, _, hbelow, k => List.forall_mem_append.mpr
      ⟨List.forall_mem_append.mpr ⟨inherits_exprSites h key (hbelow k),
        inherits_exprSites h value (hbelow (k+1))⟩, inherits_fieldsSites h fs hbelow (k+2)⟩
  | .tableValue value :: fs, _, hbelow, k => List.forall_mem_append.mpr
      ⟨inherits_exprSites h value (hbelow (k+1)), inherits_fieldsSites h fs hbelow (k+2)⟩

theorem inherits_stmtSites (h : ∀ c n i, P c → P (enter c n i)) :
    ∀ (s : Stmt N) {c : C}, P c → ∀ s' ∈ stmtSites enter c s, P s'.1
  | .localStatement vars init, _, hc =>
      List.forall_mem_cons.mpr ⟨hc, List.forall_mem_append.mpr
        ⟨inherits_exprsSites h vars (fun _ => h _ _ _ hc) 0,
          inherits_exprsSites h init (fun _ => h _ _ _ hc) vars.length⟩⟩
  | .assignmentStatement vars init, _, hc =>
      List.forall_mem_cons.mpr ⟨hc, List.forall_mem_append.mpr
        ⟨inherits_exprsSites h vars (fun _ => h _ _ _ hc) 0,
          inherits_exprsSites h init (fun _ => h _ _ _ hc) vars.length⟩⟩
  | .localFunctionStatement identifier params _ body, _, hc =>
      List.forall_mem_cons.mpr ⟨hc, List.forall_mem_append.mpr ⟨List.forall_mem_append.mpr
        ⟨inherits_exprSites h identifier (h _ _ _ hc),
          inherits_exprsSites h params (fun _ => h _ _ _ hc) 1⟩,
        inherits_blockSites h body (fun _ => h _ _ _ hc) (params.length+1)⟩⟩
  | .functionDeclaration name params _ body _, _, hc =>
      List.forall_mem_cons.mpr ⟨hc, List.forall_mem_append.mpr ⟨List.forall_mem_append.mpr
        ⟨inherits_exprSites h name (h _ _ _ hc),
          inherits_exprsSites h params (fun _ => h _ _ _ hc) 1⟩,
        inherits_blockSites h body (fun _ => h _ _ _ hc) (params.length+1)⟩⟩
  | .callStatement expression, _, hc =>
      List.forall_mem_cons.mpr ⟨hc, inherits_exprSites h expression (h _ _ _ hc)⟩
  | .ifStatement clauses none, _, hc =>
      List.forall_mem_cons.mpr ⟨hc, List.forall_mem_append.mpr
        ⟨inherits_clausesSites h clauses (fun _ => h _ _ _ hc) 0, by simp⟩⟩
  | .ifStatement clauses (some body), _, hc =>
      List.forall_mem_cons.mpr ⟨hc, List.forall_mem_append.mpr
        ⟨inherits_clausesSites h clauses (fun _ => h _ _ _ hc) 0,
          inherits_blockSites h body (fun _ => h _ _ _ hc) clauses.length⟩⟩
  | .whileStatement condition body, _, hc =>
      List.forall_mem_cons.mpr ⟨hc, List.forall_mem_append.mpr
        ⟨inherits_exprSites h condition (h _ _ _ hc),
          inherits_blockSites h body (fun _ => h _ _ _ hc) 1⟩⟩
  | .repeatStatement condition body, _, hc =>
      List.forall_mem_cons.mpr ⟨hc, List.forall_mem_append.mpr
        ⟨inherits_exprSites h condition (h _ _ _ hc),
          inherits_blockSites h body (fun _ => h _ _ _ hc) 1⟩⟩
  | .numericForStatement variableName start stop none body, _, hc =>
      List.forall_mem_cons.mpr ⟨hc, List.forall_mem_append.mpr ⟨List.forall_mem_append.mpr
        ⟨List.forall_mem_append.mpr ⟨List.forall_mem_append.mpr
          ⟨inherits_exprSites h variableName (h _ _ _ hc), inherits_exprSites h start (h _ _ _ hc)⟩,
            inherits_exprSites h stop (h _ _ _ hc)⟩, by simp⟩,
        inherits_blockSites h body (fun _ => h _ _ _ hc) 4⟩⟩
  | .numericForStatement variableName start stop (some step) body, _, hc =>
      List.forall_mem_cons.mpr ⟨hc, List.forall_mem_append.mpr ⟨List.forall_mem_append.mpr
        ⟨List.forall_mem_append.mpr ⟨List.forall_mem_append.mpr
          ⟨inherits_exprSites h variableName (h _ _ _ hc), inherits_exprSites h start (h _ _ _ hc)⟩,
            inherits_exprSites h stop (h _ _ _ hc)⟩, inherits_exprSites h step (h _ _ _ hc)⟩,
        inherits_blockSites h body (fun _ => h _ _ _ hc) 4⟩⟩
  | .genericForStatement vars iterators body, _, hc =>
      List.forall_mem_cons.mpr ⟨hc, List.forall_mem_append.mpr ⟨List.forall_mem_append.mpr
        ⟨inherits_exprsSites h vars (fun _ => h _ _ _ hc) 0,
          inherits_exprsSites h iterators (fun _ => h _ _ _ hc) vars.length⟩,
        inherits_blockSites h body (fun _ => h _ _ _ hc) (vars.length+iterators.length)⟩⟩
  | .doStatement body, _, hc =>
      List.forall_mem_cons.mpr ⟨hc, inherits_blockSites h body (fun _ => h _ _ _ hc) 0⟩
  | .returnStatement args, _, hc =>
      List.forall_mem_cons.mpr ⟨hc, inherits_exprsSites h args (fun _ => h _ _ _ hc) 0⟩
  | .breakStatement, _, hc => by simpa [stmtSites] using hc
  | .continueStatement, _, hc => by simpa [stmtSites] using hc
  | .emptyStatement, _, hc => by simpa [stmtSites] using hc

theorem inherits_blockSites (h : ∀ c n i, P c → P (enter c n i)) :
    ∀ (ss : List (Stmt N)) {below : ℕ → C}, (∀ i, P (below i)) → ∀ k,
      ∀ s ∈ blockSites enter below k ss, P s.1
  | [], _, _, _ => by simp [blockSites]
  | s::ss, _, hbelow, k => List.forall_mem_append.mpr
      ⟨inherits_stmtSites h s (hbelow k), inherits_blockSites h ss hbelow (k+1)⟩

theorem inherits_clausesSites (h : ∀ c n i, P c → P (enter c n i)) :
    ∀ (cs : List (IfClause N)) {below : ℕ → C}, (∀ i, P (below i)) → ∀ k,
      ∀ s ∈ clausesSites enter below k cs, P s.1
  | [], _, _, _ => by simp [clausesSites]
  | .mk condition body :: cs, _, hbelow, k => List.forall_mem_append.mpr
      ⟨List.forall_mem_append.mpr ⟨inherits_exprSites h condition (hbelow k),
        inherits_blockSites h body (fun _ => hbelow k) 0⟩,
          inherits_clausesSites h cs hbelow (k+1)⟩

end

end Inherited

end LuaRecovery.Lua
