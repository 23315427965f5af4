import LuaRecovery.Analysis.FeatureReports
import LuaRecovery.Lib.InsertionMap
import LuaRecovery.Lua.Nodes
import LuaRecovery.Lua.Semantics

/-!
# The vararg analyzer

The walks of `VarargAnalyzer.buildReport` over a chunk. `varargReport` makes the
report of what they find. The type of the node above a use, which nothing reads,
is left out.
-/

set_option autoImplicit false

namespace LuaRecovery.Analysis.VarargAnalyzer
open LuaRecovery.Lib LuaRecovery.Lua

section Places
variable {N : Type}

/-- What the walks read of the node above an expression. Of a local statement or an
assignment that is the number of its variables and, for its last value, of the others. -/
inductive Place where
  | ofStatement (vars : ℕ) (valuesBefore : Option ℕ)
  | ofReturn (isTail : Bool)
  | ofCall (isTail : Bool)
  | elsewhere
  deriving DecidableEq

mutual

/-- The expression and those below it, parents first, each with its place. -/
def exprPlaces (place : Place) : Expr N → List (Place × Expr N)
  | .identifier name => [(place, .identifier name)]
  | .numericLiteral value raw => [(place, .numericLiteral value raw)]
  | .stringLiteral value => [(place, .stringLiteral value)]
  | .booleanLiteral value => [(place, .booleanLiteral value)]
  | .nilLiteral => [(place, .nilLiteral)]
  | .varargLiteral inParens => [(place, .varargLiteral inParens)]
  | .unaryExpression operator argument =>
      (place, .unaryExpression operator argument) :: exprPlaces .elsewhere argument
  | .binaryExpression operator left right =>
      (place, .binaryExpression operator left right) ::
        (exprPlaces .elsewhere left ++ exprPlaces .elsewhere right)
  | .logicalExpression operator left right =>
      (place, .logicalExpression operator left right) ::
        (exprPlaces .elsewhere left ++ exprPlaces .elsewhere right)
  | .callExpression base args inParens =>
      (place, .callExpression base args inParens) ::
        (exprPlaces (.ofCall false) base ++ listPlaces (.ofCall false) (.ofCall true) args)
  | .methodCallExpression base method args inParens =>
      (place, .methodCallExpression base method args inParens) ::
        (exprPlaces .elsewhere base ++ exprPlaces .elsewhere method ++
          listPlaces .elsewhere .elsewhere args)
  | .memberExpression base property =>
      (place, .memberExpression base property) ::
        (exprPlaces .elsewhere base ++ exprPlaces .elsewhere property)
  | .indexExpression base index =>
      (place, .indexExpression base index) ::
        (exprPlaces .elsewhere base ++ exprPlaces .elsewhere index)
  | .functionExpression params isVararg body =>
      (place, .functionExpression params isVararg body) ::
        (listPlaces .elsewhere .elsewhere params ++ blockPlaces body)
  | .tableConstructor fields => (place, .tableConstructor fields) :: fieldsPlaces fields

/-- The last expression of the list has a place of its own. -/
def listPlaces (place lastPlace : Place) : List (Expr N) → List (Place × Expr N)
  | [] => []
  | e::es => exprPlaces (if es.isEmpty then lastPlace else place) e ++ listPlaces place lastPlace es

def fieldsPlaces : List (TableField N) → List (Place × Expr N)
  | [] => []
  | .tableKey key value :: fs =>
      exprPlaces .elsewhere key ++ exprPlaces .elsewhere value ++ fieldsPlaces fs
  | .tableKeyString key value :: fs =>
      exprPlaces .elsewhere key ++ exprPlaces .elsewhere value ++ fieldsPlaces fs
  | .tableValue value :: fs => exprPlaces .elsewhere value ++ fieldsPlaces fs

def stmtPlaces : Stmt N → List (Place × Expr N)
  | .localStatement vars init =>
      listPlaces (.ofStatement vars.length none) (.ofStatement vars.length none) vars ++
        listPlaces (.ofStatement vars.length none)
          (.ofStatement vars.length (some (init.length-1))) init
  | .assignmentStatement vars init =>
      listPlaces (.ofStatement vars.length none) (.ofStatement vars.length none) vars ++
        listPlaces (.ofStatement vars.length none)
          (.ofStatement vars.length (some (init.length-1))) init
  | .localFunctionStatement identifier params _ body =>
      exprPlaces .elsewhere identifier ++ listPlaces .elsewhere .elsewhere params ++
        blockPlaces body
  | .functionDeclaration name params _ body _ =>
      exprPlaces .elsewhere name ++ listPlaces .elsewhere .elsewhere params ++ blockPlaces body
  | .callStatement expression => exprPlaces .elsewhere expression
  | .ifStatement clauses elseBody =>
      clausesPlaces clauses ++ (match elseBody with
        | none => []
        | some body => blockPlaces body)
  | .whileStatement condition body => exprPlaces .elsewhere condition ++ blockPlaces body
  | .repeatStatement condition body => exprPlaces .elsewhere condition ++ blockPlaces body
  | .numericForStatement variableName start stop step body =>
      exprPlaces .elsewhere variableName ++ exprPlaces .elsewhere start ++
        exprPlaces .elsewhere stop ++ (match step with
          | none => []
          | some e => exprPlaces .elsewhere e) ++ blockPlaces body
  | .genericForStatement vars iterators body =>
      listPlaces .elsewhere .elsewhere vars ++ listPlaces .elsewhere .elsewhere iterators ++
        blockPlaces body
  | .doStatement body => blockPlaces body
  | .returnStatement args => listPlaces (.ofReturn false) (.ofReturn true) args
  | .breakStatement => []
  | .continueStatement => []
  | .emptyStatement => []

def blockPlaces : List (Stmt N) → List (Place × Expr N)
  | [] => []
  | s::ss => stmtPlaces s ++ blockPlaces ss

def clausesPlaces : List (IfClause N) → List (Place × Expr N)
  | [] => []
  | .mk condition body :: cs =>
      exprPlaces .elsewhere condition ++ blockPlaces body ++ clausesPlaces cs

end

/-- The node that a place is of. -/
def placedNode (p : Place × Expr N) : Node N := .expr p.2

/-- The places are, in order, those of the nodes listed. -/
def PlacesOf (places : List (Place × Expr N)) (nodes : List (Node N)) : Prop :=
  (places.map placedNode).Sublist nodes

theorem PlacesOf.nil : PlacesOf ([] : List (Place × Expr N)) [] := List.Sublist.slnil

theorem PlacesOf.append {ps ps' : List (Place × Expr N)} {l l' : List (Node N)}
    (h : PlacesOf ps l) (h' : PlacesOf ps' l') : PlacesOf (ps ++ ps') (l ++ l') := by
  unfold PlacesOf
  rw [List.map_append]
  exact List.Sublist.append h h'

theorem PlacesOf.expr {place : Place} {e : Expr N} {ps : List (Place × Expr N)}
    {l : List (Node N)} (h : PlacesOf ps l) : PlacesOf ((place, e) :: ps) (.expr e :: l) :=
  List.Sublist.cons_cons _ h

theorem PlacesOf.stmt {s : Stmt N} {ps : List (Place × Expr N)} {l : List (Node N)}
    (h : PlacesOf ps l) : PlacesOf ps (.stmt s :: l) := List.Sublist.cons _ h

mutual

theorem placesOf_expr : ∀ (place : Place) (e : Expr N), PlacesOf (exprPlaces place e) (exprNodes e)
  | _, .identifier _ => PlacesOf.nil.expr
  | _, .numericLiteral _ _ => PlacesOf.nil.expr
  | _, .stringLiteral _ => PlacesOf.nil.expr
  | _, .booleanLiteral _ => PlacesOf.nil.expr
  | _, .nilLiteral => PlacesOf.nil.expr
  | _, .varargLiteral _ => PlacesOf.nil.expr
  | _, .unaryExpression _ argument => (placesOf_expr _ argument).expr
  | _, .binaryExpression _ left right =>
      ((placesOf_expr _ left).append (placesOf_expr _ right)).expr
  | _, .logicalExpression _ left right =>
      ((placesOf_expr _ left).append (placesOf_expr _ right)).expr
  | _, .callExpression base args _ =>
      ((placesOf_expr _ base).append (placesOf_list _ _ args)).expr
  | _, .methodCallExpression base method args _ =>
      (((placesOf_expr _ base).append (placesOf_expr _ method)).append
        (placesOf_list _ _ args)).expr
  | _, .memberExpression base property =>
      ((placesOf_expr _ base).append (placesOf_expr _ property)).expr
  | _, .indexExpression base index =>
      ((placesOf_expr _ base).append (placesOf_expr _ index)).expr
  | _, .functionExpression params _ body =>
      ((placesOf_list _ _ params).append (placesOf_block body)).expr
  | _, .tableConstructor fields => (placesOf_fields fields).expr

theorem placesOf_list : ∀ (place lastPlace : Place) (es : List (Expr N)),
    PlacesOf (listPlaces place lastPlace es) (exprsNodes es)
  | _, _, [] => .nil
  | place, lastPlace, e::es =>
      (placesOf_expr _ e).append (placesOf_list place lastPlace es)

theorem placesOf_fields : ∀ fs : List (TableField N), PlacesOf (fieldsPlaces fs) (fieldsNodes fs)
  | [] => .nil
  | .tableKey key value :: fs =>
      ((placesOf_expr _ key).append (placesOf_expr _ value)).append (placesOf_fields fs)
  | .tableKeyString key value :: fs =>
      ((placesOf_expr _ key).append (placesOf_expr _ value)).append (placesOf_fields fs)
  | .tableValue value :: fs => (placesOf_expr _ value).append (placesOf_fields fs)

theorem placesOf_stmt : ∀ s : Stmt N, PlacesOf (stmtPlaces s) (stmtNodes s)
  | .localStatement vars init => ((placesOf_list _ _ vars).append (placesOf_list _ _ init)).stmt
  | .assignmentStatement vars init =>
      ((placesOf_list _ _ vars).append (placesOf_list _ _ init)).stmt
  | .localFunctionStatement identifier params _ body =>
      (((placesOf_expr _ identifier).append (placesOf_list _ _ params)).append
        (placesOf_block body)).stmt
  | .functionDeclaration name params _ body _ =>
      (((placesOf_expr _ name).append (placesOf_list _ _ params)).append
        (placesOf_block body)).stmt
  | .callStatement expression => (placesOf_expr _ expression).stmt
  | .ifStatement clauses none => ((placesOf_clauses clauses).append .nil).stmt
  | .ifStatement clauses (some body) =>
      ((placesOf_clauses clauses).append (placesOf_block body)).stmt
  | .whileStatement condition body =>
      ((placesOf_expr _ condition).append (placesOf_block body)).stmt
  | .repeatStatement condition body =>
      ((placesOf_expr _ condition).append (placesOf_block body)).stmt
  | .numericForStatement variableName start stop none body =>
      (((((placesOf_expr _ variableName).append (placesOf_expr _ start)).append
        (placesOf_expr _ stop)).append .nil).append (placesOf_block body)).stmt
  | .numericForStatement variableName start stop (some step) body =>
      (((((placesOf_expr _ variableName).append (placesOf_expr _ start)).append
        (placesOf_expr _ stop)).append (placesOf_expr _ step)).append (placesOf_block body)).stmt
  | .genericForStatement vars iterators body =>
      (((placesOf_list _ _ vars).append (placesOf_list _ _ iterators)).append
        (placesOf_block body)).stmt
  | .doStatement body => (placesOf_block body).stmt
  | .returnStatement args => (placesOf_list _ _ args).stmt
  | .breakStatement => PlacesOf.nil.stmt
  | .continueStatement => PlacesOf.nil.stmt
  | .emptyStatement => PlacesOf.nil.stmt

theorem placesOf_block : ∀ ss : List (Stmt N), PlacesOf (blockPlaces ss) (blockNodes ss)
  | [] => .nil
  | s::ss => (placesOf_stmt s).append (placesOf_block ss)

theorem placesOf_clauses : ∀ cs : List (IfClause N), PlacesOf (clausesPlaces cs) (clausesNodes cs)
  | [] => .nil
  | .mk condition body :: cs =>
      ((placesOf_expr _ condition).append (placesOf_block body)).append (placesOf_clauses cs)

end

end Places

section Walks
variable {N : Type}

/-- The value of a string, number or boolean literal. -/
def constantValue : Expr N → Option (Value N)
  | .stringLiteral value => some (.string value)
  | .numericLiteral value _ => some (.number value)
  | .booleanLiteral value => some (.boolean value)
  | _ => none

def returnedLiterals : Stmt N → List (Value N)
  | .returnStatement args => args.filterMap constantValue
  | _ => []

/-- The literals that the returns at the top of the body list. -/
def returnValues (body : List (Stmt N)) : List (Value N) := body.flatMap returnedLiterals

/-- The name of a function, unless it is empty. -/
def funcName (identifier : Expr N) : Option String := identifier.name?.filter (· ≠ "")

def namedFunction : Node N → Option (String × List (Value N))
  | .stmt (.localFunctionStatement identifier _ _ body) =>
      (funcName identifier).map (fun name => (name, returnValues body))
  | .stmt (.functionDeclaration identifier _ _ body _) =>
      (funcName identifier).map (fun name => (name, returnValues body))
  | _ => none

/-- `functionMap`: a later function of a name replaces an earlier one. -/
def collectFunctions (chunk : Chunk N) : InsertionMap String (List (Value N)) :=
  (chunk.nodes.filterMap namedFunction).foldl (fun m e => m.set e.1 e.2) .empty

structure VarargFunction (N : Type) where
  name : Option String
  params : List (Expr N)
  body : List (Stmt N)

def isDots : Expr N → Bool
  | .varargLiteral _ => true
  | e => e.name? == some "..."

def hasVarargParam (params : List (Expr N)) (isVararg : Bool) : Bool :=
  isVararg || params.any isDots

def varargFunction : Node N → Option (VarargFunction N)
  | .stmt (.localFunctionStatement identifier params isVararg body) =>
      if hasVarargParam params isVararg then some ⟨funcName identifier, params, body⟩ else none
  | .stmt (.functionDeclaration identifier params isVararg body _) =>
      if hasVarargParam params isVararg then some ⟨funcName identifier, params, body⟩ else none
  | .expr (.functionExpression params isVararg body) =>
      if hasVarargParam params isVararg then some ⟨none, params, body⟩ else none
  | _ => none

/-- `staticVarargFunc`: the last vararg function of the chunk. -/
def findVarargFunction (chunk : Chunk N) : Option (VarargFunction N) :=
  (chunk.nodes.filterMap varargFunction).getLast?

structure VarargUse where
  context : ContextKind
  targetCount : ℕ

/-- The context that a use of `...` takes from the node above it. -/
def Place.use : Place → VarargUse
  | .ofStatement vars (some before) => ⟨.assignmentTail, max 1 (vars-before)⟩
  | .ofStatement _ none => ⟨.assignmentNonTail, 1⟩
  | .ofReturn isTail => ⟨if isTail then .returnTail else .returnNonTail, 1⟩
  | .ofCall isTail => ⟨if isTail then .callArgTail else .callArgNonTail, 1⟩
  | .elsewhere => ⟨.expressionSingle, 1⟩

def varargUse : Place × Expr N → Option VarargUse
  | (place, .varargLiteral inParens) =>
      some (if inParens then ⟨.parenthesized, 1⟩ else place.use)
  | _ => none

/-- `varargUses` -/
def findVarargLiterals (body : List (Stmt N)) : List VarargUse :=
  (blockPlaces body).filterMap varargUse

structure CallSite (N : Type) where
  args : List (Expr N)
  place : Place

def callSite (name : String) : Place × Expr N → Option (CallSite N)
  | (place, .callExpression base args _) =>
      if base.name? = some name then some ⟨args, place⟩ else none
  | _ => none

/-- `varargCallSites` -/
def findCalls (name : String) (chunk : Chunk N) : List (CallSite N) :=
  (blockPlaces chunk.body).filterMap (callSite name)

theorem eq_call_of_callSite {name : String} {p : Place × Expr N} {site : CallSite N}
    (h : callSite name p = some site) :
    ∃ inParens, p = (site.place, .callExpression (.identifier name) site.args inParens) := by
  obtain ⟨place, e⟩ := p
  cases e with
  | callExpression base args inParens =>
    simp only [callSite] at h
    by_cases hname : base.name? = some name
    · rw [if_pos hname] at h
      cases h
      cases base with
      | identifier x =>
        cases hname
        exact ⟨inParens, rfl⟩
      | _ => cases hname
    · rw [if_neg hname] at h
      cases h
  | _ => cases h

/-- A call site is a call in the chunk, of the name that was looked for. -/
theorem mem_nodes_of_findCalls {name : String} {chunk : Chunk N} {site : CallSite N}
    (h : site ∈ findCalls name chunk) :
    ∃ inParens, .expr (.callExpression (.identifier name) site.args inParens) ∈ chunk.nodes := by
  obtain ⟨p, hp, hsite⟩ := List.mem_filterMap.mp h
  obtain ⟨inParens, rfl⟩ := eq_call_of_callSite hsite
  exact ⟨inParens, (placesOf_block chunk.body).subset (List.mem_map.mpr ⟨_, hp, rfl⟩)⟩

/-- The values that an argument counts for, if they are known. -/
def suppliedBy (functionMap : InsertionMap String (List (Value N))) (isTail : Bool)
    (arg : Expr N) : Option (List (Value N)) :=
  match arg with
  | .nilLiteral => some [.nil]
  | .callExpression base _ _ => do
      let calleeName ← base.name?
      match ← functionMap.get calleeName with
      | [] => none
      | v::vs => some (if isTail then v::vs else [v])
  | arg => (constantValue arg).map (fun v => [v])

def suppliedArgs (functionMap : InsertionMap String (List (Value N))) :
    List (Expr N) → List (Option (List (Value N)))
  | [] => []
  | arg::args => suppliedBy functionMap args.isEmpty arg :: suppliedArgs functionMap args

/-- What the analysis is made of: the function, its first use of `...` and its first call. -/
structure Discovery (N : Type) where
  func : VarargFunction N
  name : String
  primaryUse : VarargUse
  primaryCall : CallSite N

def discover (chunk : Chunk N) : Option (Discovery N) := do
  let func ← findVarargFunction chunk
  let primaryUse ← (findVarargLiterals func.body).head?
  let name ← func.name
  let primaryCall ← (findCalls name chunk).head?
  some ⟨func, name, primaryUse, primaryCall⟩

/-- The analysed call is one of the chunk, of the name of the analysed function. -/
theorem primaryCall_mem_nodes {chunk : Chunk N} {d : Discovery N} (h : discover chunk = some d) :
    d.func.name = some d.name ∧ ∃ inParens,
      .expr (.callExpression (.identifier d.name) d.primaryCall.args inParens) ∈ chunk.nodes := by
  obtain ⟨func, -, h⟩ := Option.bind_eq_some_iff.mp h
  obtain ⟨primaryUse, -, h⟩ := Option.bind_eq_some_iff.mp h
  obtain ⟨name, hname, h⟩ := Option.bind_eq_some_iff.mp h
  obtain ⟨primaryCall, hcall, h⟩ := Option.bind_eq_some_iff.mp h
  cases h
  exact ⟨hname, mem_nodes_of_findCalls (List.mem_of_head? hcall)⟩

/-- A function that ends in `return ...` fills the variables of the statement it is called in. -/
def targetCount (use : VarargUse) (place : Place) : ℕ :=
  match use.context, place with
  | .returnTail, .ofStatement vars _ => vars
  | _, _ => use.targetCount

def Discovery.walk (d : Discovery N) (functionMap : InsertionMap String (List (Value N))) :
    VarargWalk :=
  let supplied := suppliedArgs functionMap d.primaryCall.args
  { context := d.primaryUse.context
    targetCount := targetCount d.primaryUse d.primaryCall.place
    suppliedArgumentCount := (supplied.flatMap (fun vs => vs.getD [])).length
    paramCount := d.func.params.length
    dynamicArgFound := supplied.any (fun vs => vs.isNone) }

/-- The static part of `buildReport`. -/
def staticWalk (chunk : Chunk N) : Option VarargWalk :=
  (discover chunk).map (fun d => d.walk (collectFunctions chunk))

def buildReport (chunk : Chunk N) (traceResult : Option (TraceResult N)) (isL5WEligible : Bool)
    (externalInputs : List String) (escapingClosures : ℕ) : Option VarargReport :=
  varargReport (staticWalk chunk) traceResult isL5WEligible externalInputs escapingClosures

end Walks

section TupleFlow
variable {V : Type}

inductive ValueOrigin where
  | functionReturn | vararg | constant | unknown
  deriving DecidableEq

/-- Where a value is missing, the source has `null` or a vararg value of `null`. -/
inductive ValueFlow (V : Type) where
  | singleValue (origin : ValueOrigin) (value : Option V)
  | multiValue (origin : ValueOrigin) (values : List (Option V))
  | unknownMultiValue (origin : ValueOrigin) (minCount : ℕ)

def isSingle (context : ContextKind) : Bool :=
  context ∈ [.parenthesized, .expressionSingle, .assignmentNonTail, .returnNonTail, .callArgNonTail]

/-- `TupleFlow.adjustForContext` -/
def adjustForContext (context : ContextKind) (targets : ℕ) (flow : ValueFlow V) : ValueFlow V :=
  match flow with
  | .singleValue origin value => .singleValue origin value
  | .unknownMultiValue origin minCount =>
      if isSingle context then .singleValue origin none else .unknownMultiValue origin minCount
  | .multiValue origin values =>
      if isSingle context then .singleValue origin values.head?.join
      else if context = .assignmentTail then
        .multiValue origin ((List.range targets).map (fun i => values[i]?.join))
      else .multiValue origin values

def ValueFlow.present : ValueFlow V → List V
  | .singleValue _ value => value.toList
  | .multiValue _ values => values.filterMap id
  | .unknownMultiValue _ _ => []

theorem present_range (values : List V) (n : ℕ) :
    ((List.range n).map (fun i => (values.map some)[i]?.join)).filterMap id = values.take n := by
  induction n with
  | zero => rfl
  | succ n ih =>
    rw [List.range_succ, List.map_append, List.filterMap_append, ih, List.take_add_one]
    congr 1
    by_cases h : n < values.length
    · simp [h]
    · simp [h]

/-- What a context consumes is what adjusting the values to it leaves of them. -/
theorem present_adjustForContext (context : ContextKind) (targets : ℕ) (values : List V) :
    (adjustForContext context targets (.multiValue .vararg (values.map some))).present =
      values.take (context.consumed targets values.length) := by
  cases context with
  | assignmentTail =>
    show ((List.range targets).map (fun i => (values.map some)[i]?.join)).filterMap id = _
    rw [present_range]
    exact List.take_eq_take_min
  | returnTail => simp [adjustForContext, isSingle, ValueFlow.present, ContextKind.consumed]
  | callArgTail => simp [adjustForContext, isSingle, ValueFlow.present, ContextKind.consumed]
  | _ => cases values <;> simp [adjustForContext, isSingle, ValueFlow.present, ContextKind.consumed]

/-- Every value is either consumed or truncated. -/
theorem consumed_add_truncated (context : ContextKind) (targets count : ℕ) :
    context.consumed targets count + context.truncated targets count = count := by
  cases context <;> simp only [ContextKind.consumed, ContextKind.truncated] <;> omega

end TupleFlow
end LuaRecovery.Analysis.VarargAnalyzer
