import LuaRecovery.Lib.Ownership
import LuaRecovery.Transforms.ClosureSplitter

/-!
# The states that splitting removes

Which states `ClosureSplitterTransform.run` removes from the dispatcher, and
what can still dispatch to them in the chunk it returns. A state has to belong
to a function that was reconstructed, and nothing that stays may lead to it.
-/

set_option autoImplicit false

namespace LuaRecovery.Transforms
open LuaRecovery.Lib LuaRecovery.Lua LuaRecovery.Evaluator LuaRecovery.Cfg LuaRecovery.Analysis

/-! ### What compression takes out of the tree -/

section Leaves
variable {N : Type} [JsNumber N]

/-- The states of the leaves that compression can cut, those that are statement lists, where the
decisions that are taken depend on the thresholds. -/
def leavesWhere (stateVar : String) (lower upper : Expr N → Bool) (node : TreeNode N)
    (minVal maxVal : N) : List N :=
  match _h : decision stateVar node with
  | some (right, thenBody, some elseBody) =>
      (if lower right then
        leavesWhere stateVar lower upper (childNode thenBody) minVal (lowerMax right maxVal)
      else []) ++
      (if upper right then
        leavesWhere stateVar lower upper (childNode elseBody) (upperMin right minVal) maxVal
      else [])
  | some (right, thenBody, none) =>
      if lower right then
        leavesWhere stateVar lower upper (childNode thenBody) minVal (lowerMax right maxVal)
      else []
  | none => match node with
      | .node _ => []
      | .list _ => (leafState minVal maxVal).toList
termination_by node.size
decreasing_by
  all_goals
    have hsize := decision_size _h
    have hthen := size_childNode thenBody
    try have helse := size_childNode elseBody
    simp at hsize
    omega

def leafStates (stateVar : String) : TreeNode N → N → N → List N :=
  leavesWhere stateVar (fun _ => true) (fun _ => true)

/-- The states of the leaves that the tree takes a value to; a threshold that is no constant may be
on either side of it. -/
def enteredStates (stateVar : String) (v : N) : TreeNode N → N → N → List N :=
  leavesWhere stateVar (fun right => (threshold right).all (fun t => LuaNumber.lt v t))
    (fun right => (threshold right).all (fun t => !LuaNumber.lt v t))

/-- What a leaf gives; other nodes are not cut. -/
def ofLeaf {β : Type} (give : List (Stmt N) → N → N → List β) (node : TreeNode N)
    (minVal maxVal : N) : List β :=
  match node with
  | .list body => give body minVal maxVal
  | .node _ => []

/-- What the leaves that move up give, and those that are cut. -/
def changedLeaves {β : Type} (moved cut : List (Stmt N) → N → N → List β) (stateVar : String)
    (statesToExtract : List N) (node : TreeNode N) (minVal maxVal : N) : List β :=
  match _h : decision stateVar node with
  | some (right, thenBody, some elseBody) =>
      let lower := childNode thenBody
      let upper := childNode elseBody
      (if (pruneTree stateVar statesToExtract upper (upperMin right minVal) maxVal).isNone then
        ofLeaf moved lower minVal (lowerMax right maxVal) else []) ++
      (if (pruneTree stateVar statesToExtract lower minVal (lowerMax right maxVal)).isNone then
        ofLeaf moved upper (upperMin right minVal) maxVal else []) ++
      changedLeaves moved cut stateVar statesToExtract lower minVal (lowerMax right maxVal) ++
      changedLeaves moved cut stateVar statesToExtract upper (upperMin right minVal) maxVal
  | some (right, thenBody, none) =>
      ofLeaf moved (childNode thenBody) minVal (lowerMax right maxVal) ++
        changedLeaves moved cut stateVar statesToExtract (childNode thenBody) minVal
          (lowerMax right maxVal)
  | none => if isExtracted statesToExtract minVal maxVal then ofLeaf cut node minVal maxVal else []
termination_by node.size
decreasing_by
  all_goals
    have hsize := decision_size _h
    have hthen := size_childNode thenBody
    try have helse := size_childNode elseBody
    simp at hsize
    omega

/-- The intervals of the leaves that are cut or lose statements: of a leaf that moves up only the
first one stays. -/
def leftOut : String → List N → TreeNode N → N → N → List (N × N) :=
  changedLeaves (fun body minVal maxVal => if 1 < body.length then [(minVal, maxVal)] else [])
    (fun _ minVal maxVal => [(minVal, maxVal)])

/-- A leaf that is cut, with its interval. -/
structure CutLeaf (N : Type) where
  statements : List (Stmt N)
  minVal : N
  maxVal : N

def cutLeaves : String → List N → TreeNode N → N → N → List (CutLeaf N) :=
  changedLeaves (fun _ _ _ => []) (fun body minVal maxVal => [⟨body, minVal, maxVal⟩])

/-- The tree of the first dispatcher loop, unless the loop has been folded away. -/
def dispatcherRoot (sites : List (Site Traces N)) : Option (Stmt N) :=
  match sites.dropWhile (fun s => (dispatcherVarOf s.2).isNone) with
  | (traces, .stmt (.whileStatement _ (rootIf::_))) :: _ =>
      if traces.2.isSome then some rootIf else none
  | _ => none

/-- The sites outside the first dispatcher loop. -/
def outsideSites {C : Type} (sites : List (Site C N)) : List (Site C N) :=
  match sites.dropWhile (fun s => (dispatcherVarOf s.2).isNone) with
  | (_, .stmt (.whileStatement condition body)) :: rest =>
      sites.takeWhile (fun s => (dispatcherVarOf s.2).isNone) ++
        rest.drop (exprNodes condition ++ blockNodes body).length
  | _ => sites

end Leaves

/-! ### What else dispatches -/

section Entries
variable {N : Type} [JsNumber N]

/-- What a node is for the one that it stands in. -/
inductive Place where
  | callee
  | target
  | bound
  | other
  deriving DecidableEq

/-- A name that is not read: a variable that is bound or assigned, a field or a method. A value
that is assigned to a name is bound. -/
def placeOf : Node N → ℕ → Place
  | .expr (.callExpression _ _ _), i => if i = 0 then .callee else .other
  | .expr (.methodCallExpression _ _ _ _), i => if i = 1 then .target else .other
  | .expr (.memberExpression _ _), i => if i = 1 then .target else .other
  | .expr (.functionExpression params _ _), i => if i < params.length then .target else .other
  | .expr (.tableConstructor fields), i => match fields[i/2]? with
      | some (.tableKeyString _ _) => if i % 2 = 0 then .target else .other
      | _ => .other
  | .stmt (.localStatement vars _), i => if i < vars.length then .target else .bound
  | .stmt (.assignmentStatement vars _), i =>
      if i < vars.length then .target
      else if ((vars[i-vars.length]?).bind Expr.name?).isSome then .bound else .other
  | .stmt (.localFunctionStatement _ params _ _), i => if i ≤ params.length then .target else .other
  | .stmt (.numericForStatement _ _ _ _ _), i => if i = 0 then .target else .other
  | .stmt (.genericForStatement vars _ _), i => if i < vars.length then .target else .other
  | _, _ => .other

def binds (name : String) : Node N → Bool
  | .stmt (.localStatement vars _) => vars.any (fun v => v.name? = some name)
  | .stmt (.assignmentStatement vars _) => vars.any (fun v => v.name? = some name)
  | .stmt (.localFunctionStatement identifier params _ _) =>
      (identifier::params).any (fun v => v.name? = some name)
  | .stmt (.functionDeclaration _ params _ _ _) => params.any (fun v => v.name? = some name)
  | .stmt (.numericForStatement variableName _ _ _ _) => variableName.name? = some name
  | .stmt (.genericForStatement vars _ _) => vars.any (fun v => v.name? = some name)
  | .expr (.functionExpression params _ _) => params.any (fun v => v.name? = some name)
  | _ => false

/-- The first parameter of a helper's function, with the helper, if nothing else sets it: it holds
the entry state that a constructor call passes. -/
def entryParameter (helpers : Helpers) (name : String) (params : List (Expr N))
    (body : List (Stmt N)) : List (String × String) :=
  match params with
  | .identifier parameter :: rest =>
      if (helpers.get name).isSome && rest.all (fun p => p.name? != some parameter) &&
          (blockNodes body).all (fun n => !binds parameter n) then [(name, parameter)]
      else []
  | _ => []

/-- The entry parameters that come into scope with an operand of the node. -/
def entryParameters (helpers : Helpers) : Node N → ℕ → List (String × String)
  | .stmt (.assignmentStatement vars init), i =>
      if i < vars.length then []
      else match vars[i-vars.length]?, init[i-vars.length]? with
        | some (.identifier name), some (.functionExpression params _ body) =>
            entryParameter helpers name params body
        | _, _ => []
  | .stmt (.localStatement vars init), i =>
      if i < vars.length then []
      else match vars[i-vars.length]?, init[i-vars.length]? with
        | some (.identifier name), some (.functionExpression params _ body) =>
            entryParameter helpers name params body
        | _, _ => []
  | .stmt (.localFunctionStatement (.identifier name) params _ body), i =>
      if i ≤ params.length then [] else entryParameter helpers name params body
  | _, _ => []

/-- Where a node stands: in the decisions of a loop on the state variable, as a statement of one
of its leaves, or below such a statement. -/
inductive Depth where
  | outside
  | tree
  | leaf
  | below
  deriving DecidableEq

def bodyDepth (body : List (Stmt N)) : Depth :=
  match childNode body with
  | .node _ => .tree
  | .list _ => .leaf

def depthOf (stateVar : String) : Depth → Node N → ℕ → Depth
  | .outside, n, i => if dispatcherVarOf n = some stateVar && 0 < i then .tree else .outside
  | .tree, .stmt s, i => match decision stateVar (.node s) with
      | some (_, thenBody, elseBody) => bodyDepth (if i = 0 then thenBody else elseBody.getD [])
      | none => .below
  | _, _, _ => .below

structure EntryScope where
  place : Place
  depth : Depth
  parameters : List (String × String)

def EntryScope.enter (helpers : Helpers) (stateVar : String) (scope : EntryScope) (n : Node N)
    (i : ℕ) : EntryScope :=
  ⟨placeOf n i, depthOf stateVar scope.depth n i, entryParameters helpers n i ++ scope.parameters⟩

/-- The name is read other than to call it. -/
def escapes (sites : List (Site EntryScope N)) (name : String) : Bool :=
  sites.any (fun s => match s with
    | (scope, .expr (.identifier name')) =>
        name' = name && (scope.place = .other || scope.place = .bound)
    | _ => false)

/-- The states that a folded value gives; `none` where it is no constant. -/
def foldedStates : Expr N → List (Option N)
  | .numericLiteral value _ => [some value]
  | .nilLiteral => []
  | .booleanLiteral false => []
  | .logicalExpression .or left right => foldedStates left ++ foldedStates right
  | .logicalExpression .and _ right => foldedStates right
  | _ => [none]

/-- The states that the value at a position gives; beyond the last one it is a further result of a
call, or nil. -/
def statesAt (values : List (Expr N)) (i : ℕ) : List (Option N) :=
  match values[i]? with
  | some e => foldedStates (fold e)
  | none => if values.getLast?.any Expr.isMulti then [none] else []

/-- The states that the values give the state variable among the targets. -/
def targetStates (stateVar : String) (vars values : List (Expr N)) : List (Option N) :=
  vars.zipIdx.flatMap (fun v => if v.1.name? = some stateVar then statesAt values v.2 else [])

/-- The states that a node assigns to the state variable. -/
def updatedStates (stateVar : String) : Node N → List (Option N)
  | .stmt (.assignmentStatement vars init) => targetStates stateVar vars init
  | _ => []

/-- The states that a node gives the state variable by assigning to it or binding it. -/
def assignedStates (stateVar : String) : Node N → List (Option N)
  | .stmt (.localStatement vars init) => targetStates stateVar vars init
  | .stmt (.numericForStatement variableName _ _ _ _) =>
      if variableName.name? = some stateVar then [none] else []
  | .stmt (.genericForStatement vars _ _) =>
      if vars.any (fun v => v.name? = some stateVar) then [none] else []
  | n => updatedStates stateVar n

/-- The states of the state variable after a statement of a leaf: an update takes the place of the
ones before it. Its states are those that the scan records, where it records any. -/
def statesAfter (stateVar : String) (scan : LeafScan N) (states : List (Option N)) :
    Stmt N → List (Option N)
  | .assignmentStatement vars init =>
      let recorded := (scanStatement stateVar { scan with stateTransitions := [] }
        (.assignmentStatement vars init)).stateTransitions
      if vars.any (fun v => v.name? = some stateVar) then
        if recorded.isEmpty then targetStates stateVar vars init
        else recorded.map (fun t => t.targetState)
      else states
  | _ => states

/-- The states that the statements of a leaf leave in the state variable. -/
def leafUpdates (stateVar : String) (statements : List (Stmt N)) : List (Option N) :=
  (statements.foldl (fun (r : LeafScan N × List (Option N)) stmt =>
    (scanStatement stateVar r.1 stmt, statesAfter stateVar r.1 r.2 stmt))
      (⟨[], none, [], false⟩, [])).2

/-- The states that a node of the loop gives the state variable: a leaf by its statements, and what
is below them by its assignments. -/
def loopStates (stateVar : String) : Site EntryScope N → List (Option N)
  | (scope, .stmt s) => match scope.depth, decision stateVar (.node s) with
      | .tree, some (_, thenBody, elseBody) =>
          (thenBody :: elseBody.toList).flatMap (fun body => match childNode body with
            | .list statements => leafUpdates stateVar statements
            | .node _ => [])
      | .tree, none => leafUpdates stateVar [s]
      | .below, _ => updatedStates stateVar (.stmt s)
      | _, _ => []
  | _ => []

/-- The position of the state variable among the parameters of a function that holds the loop. -/
def stateParameter (stateVar : String) (params : List (Expr N)) (body : List (Stmt N)) :
    Option ℕ :=
  if (blockNodes body).any (fun n => dispatcherVarOf n = some stateVar) then
    params.findIdx? (fun p => p.name? = some stateVar)
  else none

/-- The names of functions that hold the loop and get the state as an argument. -/
def stateFunctions (stateVar : String) : Node N → List (String × ℕ)
  | .stmt (.localStatement vars init) => (vars.zip init).flatMap (fun p => match p with
      | (.identifier name, .functionExpression params _ body) =>
          (stateParameter stateVar params body).toList.map (name, ·)
      | _ => [])
  | .stmt (.assignmentStatement vars init) => (vars.zip init).flatMap (fun p => match p with
      | (.identifier name, .functionExpression params _ body) =>
          (stateParameter stateVar params body).toList.map (name, ·)
      | _ => [])
  | .stmt (.localFunctionStatement (.identifier name) params _ body) =>
      (stateParameter stateVar params body).toList.map (name, ·)
  | _ => []

/-- The states that a call passes. The entry parameter of a helper that is only ever called holds
the state of a constructor call. -/
def passedStates (sites : List (Site EntryScope N)) (scope : EntryScope) (args : List (Expr N))
    (i : ℕ) : List (Option N) :=
  match args[i]? with
  | some (.identifier name) =>
      if scope.parameters.any (fun p => p.2 = name && !escapes sites p.1) then [] else [none]
  | _ => statesAt args i

/-- The states that a node passes to a function that holds the loop; `none` where such a function
may be called from elsewhere. -/
def callStates (sites : List (Site EntryScope N)) (stateVar : String)
    (functions : List (String × ℕ)) : Site EntryScope N → List (Option N)
  | (scope, .expr (.callExpression (.identifier name) args _)) => functions.flatMap (fun f =>
      if f.1 = name then passedStates sites scope args f.2 else [])
  | (scope, .expr (.callExpression (.functionExpression params _ body) args _)) =>
      (stateParameter stateVar params body).toList.flatMap (passedStates sites scope args)
  | (scope, .expr (.functionExpression params _ body)) =>
      if (stateParameter stateVar params body).isSome && scope.place = .other then [none] else []
  | (scope, .expr (.identifier name)) =>
      if functions.any (fun f => f.1 = name) && (scope.place = .other || scope.place = .bound) then
        [none] else []
  | _ => []

end Entries

section Removal
variable {N : Type} [JsNumber N]

def ClosureContext.owns (func : ClosureContext N) (state : N) : Bool :=
  func.reachableStates.any (fun s => sameKey s state)

/-- The tree that `run` compresses, unless nothing would be left of it. -/
def Separation.compressedRoot (s : Separation N) (sharedCFG : ControlFlowGraph N) (disp : Bool) :
    Option (Stmt N) :=
  if disp then (dispatcherRoot s.found).filter (fun rootIf =>
    (pruneTree sharedCFG.dispatcherVar s.extractable (.node rootIf)
      (LuaNumber.neg JsNumber.infinity) JsNumber.infinity).isSome)
  else none

/-- The states of the leaves that are cut. -/
def Separation.removedStates (s : Separation N) (sharedCFG : ControlFlowGraph N) (disp : Bool) :
    List N :=
  match s.compressedRoot sharedCFG disp with
  | some rootIf => (leafStates sharedCFG.dispatcherVar (.node rootIf)
      (LuaNumber.neg JsNumber.infinity) JsNumber.infinity).filter
        (fun state => s.extractable.any (sameKey state))
  | none => []

def Separation.enterScope (s : Separation N) (stateVar : String) (c : Traces × EntryScope)
    (n : Node N) (i : ℕ) : Traces × EntryScope :=
  (s.enter c.1 n i, c.2.enter s.helpers stateVar n i)

/-- The nodes as they stand in the rewritten tree, each with its scope. -/
def finalSites (sites : List (Site (Traces × EntryScope) N)) : List (Site EntryScope N) :=
  sites.filterMap (fun site =>
    (site.1.1.2.bind (fun touch => touch.form site.2)).map (fun n => (site.1.2, n)))

/-- The state dispatches to a leaf of the other one, by the graph or by the tree of the loop; an
unknown state may. -/
def Separation.mayEnter (s : Separation N) (sharedCFG : ControlFlowGraph N) (state : Option N)
    (removed : N) : Prop :=
  match state with
  | some v => (∃ b, sharedCFG.findBlockForState v = some b ∧ sameKey b.id removed = true) ∨
      ∃ rootIf, dispatcherRoot s.found = some rootIf ∧
        (enteredStates sharedCFG.dispatcherVar v (.node rootIf) (LuaNumber.neg JsNumber.infinity)
          JsNumber.infinity).any (sameKey removed) = true
  | none => True

/-- Some call is replaced by the function of this context. -/
def Separation.isInserted (s : Separation N) (sharedCFG : ControlFlowGraph N)
    (func : ClosureContext N) : Bool :=
  (reconstructedFunction sharedCFG func).isSome && (calls s.visited).any (fun e => match e with
    | .callExpression (.identifier _) (.numericLiteral value _ :: _) _ =>
        sameKey func.entryState value
    | _ => false)

/-- The states whose statements stand in the reconstructed body. -/
def includedStates (sharedCFG : ControlFlowGraph N) (func : ClosureContext N) : List N :=
  match sharedCFG.findBlockForState func.entryState with
  | some entryBlock =>
      (walk sharedCFG func.toFunctionContext (sharedCFG.blocks.length+1) [] entryBlock.id).2
  | none => []

/-- The condition that the reconstructed body tests after the block's statements. -/
def includedCondition (sharedCFG : ControlFlowGraph N) (func : ClosureContext N)
    (block : BasicBlock N) : Option (Expr N) :=
  let successors := (sharedCFG.successors block).filter (fun e => func.owns e.target)
  match trueEdge successors, falseEdge successors with
  | some t, some _ => branchCondition block t
  | _, _ => none

/-- The calls that a block brings into a function body and that are not replaced there: all of
them where the leaf is no longer visited. Otherwise only a condition that is a replaced call, as
its place in the body is not the one that the rewriter assigns to. -/
def Separation.blockCalls (s : Separation N) (sharedCFG : ControlFlowGraph N)
    (unvisited : List (N × N)) (func : ClosureContext N) (block : BasicBlock N) : List (Expr N) :=
  let condition := includedCondition sharedCFG func block
  if unvisited.any (fun i => sameKey i.1 block.minState && sameKey i.2 block.maxState) then
    calls (blockNodes (stripStateAssignments block.statements sharedCFG.dispatcherVar)) ++
      condition.toList.flatMap (fun e => calls (exprNodes e))
  else condition.toList.filter s.isRewritten

/-- The calls in inserted function bodies that are not replaced. -/
def Separation.carriedCalls (s : Separation N) (sharedCFG : ControlFlowGraph N) (disp : Bool) :
    List (Expr N) :=
  let unvisited := match s.compressedRoot sharedCFG disp with
    | some rootIf => leftOut sharedCFG.dispatcherVar s.extractable (.node rootIf)
        (LuaNumber.neg JsNumber.infinity) JsNumber.infinity
    | none => []
  (s.contexts.filter (s.isInserted sharedCFG)).flatMap (fun func =>
    (sharedCFG.blocks.filter (fun b => (includedStates sharedCFG func).any (sameKey b.id))).flatMap
      (s.blockCalls sharedCFG unvisited func))

/-- The states that the statements of inserted function bodies assign. -/
def Separation.carriedStates (s : Separation N) (sharedCFG : ControlFlowGraph N) :
    List (Option N) :=
  let stateVar := sharedCFG.dispatcherVar
  (s.contexts.filter (s.isInserted sharedCFG)).flatMap (fun func =>
    (sharedCFG.blocks.filter (fun b => (includedStates sharedCFG func).any (sameKey b.id))).flatMap
      (fun block => (blockNodes (stripStateAssignments block.statements stateVar)).flatMap
        (updatedStates stateVar)))

/-- The chunk's nodes where it is entered, each with the traces that the analyses leave. -/
def Separation.entrySites (s : Separation N) (astChunk : Chunk N)
    (sharedCFG : ControlFlowGraph N) : List (Site (Traces × EntryScope) N) :=
  astChunk.sites (s.enterScope sharedCFG.dispatcherVar)
    ((some .untouched, some .untouched), ⟨.other, .outside, []⟩)

/-- The nodes of the returned tree. -/
def Separation.leftSites (s : Separation N) (astChunk : Chunk N) (sharedCFG : ControlFlowGraph N)
    (disp : Bool) : List (Site EntryScope N) :=
  let stateVar := sharedCFG.dispatcherVar
  let found := s.entrySites astChunk sharedCFG
  finalSites (if disp then residualSites (s.enterScope stateVar) stateVar s.extractable found
    else found)

/-- The states from which the loop is entered other than by a constructor call: what is assigned
to the state variable outside the loop or in a function body that is inserted, and what the
functions that hold the loop are passed. -/
def Separation.chunkEntries (s : Separation N) (astChunk : Chunk N) (sharedCFG : ControlFlowGraph N)
    (disp : Bool) : List (Option N) :=
  let stateVar := sharedCFG.dispatcherVar
  let left := s.leftSites astChunk sharedCFG disp
  let functions := left.flatMap (fun site => stateFunctions stateVar site.2)
  (finalSites (outsideSites (s.entrySites astChunk sharedCFG))).flatMap
      (fun site => assignedStates stateVar site.2) ++
    left.flatMap (callStates left stateVar functions) ++ s.carriedStates sharedCFG

/-- The states that what is left of the loop gives the state variable. -/
def Separation.loopUpdates (s : Separation N) (astChunk : Chunk N) (sharedCFG : ControlFlowGraph N)
    (disp : Bool) : List (Option N) :=
  (s.leftSites astChunk sharedCFG disp).flatMap (loopStates sharedCFG.dispatcherVar)

/-- The leaves that are cut. -/
def Separation.removedLeaves (s : Separation N) (sharedCFG : ControlFlowGraph N) (disp : Bool) :
    List (CutLeaf N) :=
  (s.compressedRoot sharedCFG disp).toList.flatMap (fun rootIf =>
    cutLeaves sharedCFG.dispatcherVar s.extractable (.node rootIf)
      (LuaNumber.neg JsNumber.infinity) JsNumber.infinity)

/-- The block that the graph has for a leaf. -/
def CutLeaf.IsBlock (leaf : CutLeaf N) (b : BasicBlock N) : Prop :=
  b.statements = leaf.statements ∧ sameKey b.minState leaf.minVal = true ∧
    sameKey b.maxState leaf.maxVal = true

/-- The function of the context has a body, and is not too large for one. -/
def ClosureContext.HasBody (sharedCFG : ControlFlowGraph N) (func : ClosureContext N) : Prop :=
  (0 < func.reachableStates.length ∧ func.reachableStates.length ≤ 40) ∧
    ∃ stmt rest, reconstructFunctionBody sharedCFG func.toFunctionContext = some (stmt::rest)

/-- The conditions under which a removed state has been replaced. -/
structure Separation.RemovesSafely (s : Separation N) (astChunk : Chunk N)
    (sharedCFG : ControlFlowGraph N) (disp : Bool) : Prop where
  structured : ∀ r ∈ s.removedStates sharedCFG disp, ∀ func ∈ s.contexts,
    func.owns r = true → func.HasBody sharedCFG
  blocks : ∀ leaf ∈ s.removedLeaves sharedCFG disp, ∃ b ∈ sharedCFG.blocks, leaf.IsBlock b
  numeral : ∀ r ∈ s.removedStates sharedCFG disp,
    ∀ name arg0 args inParens spec, .callExpression (.identifier name) (arg0::args) inParens ∈
      Analysis.calls s.visited → s.helpers.get name = some spec →
      s.mayEnter sharedCFG (foldedNumber arg0) r → ∃ value raw, arg0 = .numericLiteral value raw ∧
        ∃ func ∈ s.contexts, sameKey func.entryState value = true ∧ func.HasBody sharedCFG
  carried : ∀ r ∈ s.removedStates sharedCFG disp, ∀ e ∈ s.carriedCalls sharedCFG disp, ∀ c,
    constructorOf s.helpers (.expr e) = some c → ¬ s.mayEnter sharedCFG c.entryState r
  entries : ∀ r ∈ s.removedStates sharedCFG disp, ∀ v ∈ s.chunkEntries astChunk sharedCFG disp,
    ¬ s.mayEnter sharedCFG v r
  shown : ∀ r ∈ s.removedStates sharedCFG disp, ∀ v ∈ s.loopUpdates astChunk sharedCFG disp,
    s.mayEnter sharedCFG v r → ∃ b ∈ sharedCFG.blocks,
      (s.removedStates sharedCFG disp).any (sameKey b.id) = false ∧
        ((∃ t ∈ b.stateTransitions, t.targetState = none) ∨
          ∃ e ∈ sharedCFG.successors b, sameKey e.target r = true)
  constant : s.removedStates sharedCFG disp ≠ [] → ∀ b ∈ sharedCFG.blocks,
    (s.removedStates sharedCFG disp).any (sameKey b.id) = false →
      ∀ t ∈ b.stateTransitions, t.targetState.isSome = true
  predecessors : ∀ r ∈ s.removedStates sharedCFG disp, ∀ rootIf,
    dispatcherRoot s.found = some rootIf → ∀ e ∈ sharedCFG.edges, sameKey e.target r = true →
      (leafStates sharedCFG.dispatcherVar (.node rootIf) (LuaNumber.neg JsNumber.infinity)
        JsNumber.infinity).any (sameKey e.source) = true ∧
      ∀ e' ∈ sharedCFG.edges, sameKey e'.target e.source = true →
        ∃ func ∈ s.contexts, func.owns e'.source = true

end Removal

/-! ### Owners of states -/

section Owners
variable [Host] {cfg : ControlFlowGraph Double} {contexts : List (ClosureContext Double)}

/-- An edge between two states. -/
def Leads (cfg : ControlFlowGraph Double) (u v : Double) : Prop :=
  ∃ e ∈ cfg.edges, e.source = u ∧ e.target = v

/-- The contexts are those of entry states, each with the states that it can reach. -/
def Traversed (cfg : ControlFlowGraph Double) (contexts : List (ClosureContext Double)) : Prop :=
  ∀ func ∈ contexts, func.reachableStates = Cfg.reachableStates cfg func.entryState

theorem any_key {l : List Double} {v : Double} : l.any (sameKey v) = true ↔ v ∈ l := by
  rw [List.any_eq_true]
  constructor
  · rintro ⟨w, hw, hkey⟩
    exact (sameKey_iff.mp hkey).symm ▸ hw
  · intro h
    exact ⟨v, h, sameKey_refl v⟩

theorem owns_iff {func : ClosureContext Double} {v : Double} :
    func.owns v = true ↔ v ∈ func.reachableStates := any_sameKey

/-- A context owns, with a state, the states that its edges lead to. -/
theorem inherits_traversed (hw : cfg.WellFormed) (ht : Traversed cfg contexts) :
    Inherits contexts ClosureContext.owns (Leads cfg) := by
  rintro func hf u v hu ⟨e, he, rfl, rfl⟩
  rw [owns_iff, ht func hf] at hu ⊢
  cases hfind : cfg.findBlockForState func.entryState with
  | none =>
    rw [Cfg.reachableStates, hfind] at hu
    cases hu
  | some b =>
    rw [mem_reachableStates hw hfind] at hu ⊢
    have hblock : ∃ c, cfg.getBlock e.source = some c := by
      rcases Relation.ReflTransGen.cases_tail hu with heq | ⟨w, _, hnext⟩
      · exact ⟨b, heq ▸ getBlock_of_mem hw (findBlockForState_mem hfind)⟩
      · exact getBlock_next hw hnext
    obtain ⟨c, hc⟩ := hblock
    refine hu.tail ((next_iff hw hc).mpr (List.mem_map.mpr ⟨e, List.mem_filter.mpr ⟨he, ?_⟩, rfl⟩))
    rw [(getBlock_id hc).2, sameKey_refl]

theorem isExclusive_iff {v : Double} :
    isExclusive contexts v = true ↔ Sole contexts ClosureContext.owns v := by
  simp [isExclusive, Sole, ClosureContext.owns]

theorem mem_exclusiveStates {v : Double} : v ∈ exclusiveStates cfg contexts ↔
    (∃ b ∈ cfg.blocks, b.id = v) ∧ Sole contexts ClosureContext.owns v := by
  rw [exclusiveStates, List.mem_filter, isExclusive_iff, List.mem_map]

/-- Which candidates there are already makes no difference to a block's predecessors. -/
theorem hasUnsafePredecessor_eq_false {proofList candidates : List Double}
    (hnan : ∀ p ∈ proofList, p ≠ .nan) (hsub : candidates ⊆ proofList) {b : BasicBlock Double} :
    hasUnsafePredecessor cfg proofList candidates b = false ↔
      ∀ u, Leads cfg u b.id → u ∈ proofList := by
  have hsafe : ∀ u : Double, (candidates.any (fun c => sameKey c u) = true ∨
      proofList.any (fun p => LuaNumber.eq p u) = true) ↔ u ∈ proofList := by
    intro u
    constructor
    · rintro (h | h)
      · obtain ⟨c, hc, hkey⟩ := List.any_eq_true.mp h
        exact sameKey_iff.mp hkey ▸ hsub hc
      · obtain ⟨p, hp, heq⟩ := List.any_eq_true.mp h
        have hkey : sameKey p u = true := by simp [sameKey, heq]
        exact sameKey_iff.mp hkey ▸ hp
    · intro hu
      have heq : LuaNumber.eq u u = true := by
        cases u with
        | finite q hq => simp [LuaNumber.eq, Double.eq]
        | infinity negative => simp [LuaNumber.eq, Double.eq]
        | nan => exact absurd rfl (hnan _ hu)
      exact .inr (List.any_eq_true.mpr ⟨u, hu, heq⟩)
  unfold hasUnsafePredecessor predecessors
  rw [List.any_eq_false]
  constructor
  · rintro h u ⟨e, he, rfl, htarget⟩
    have hmem : e ∈ cfg.edges.filter (fun e => sameKey e.target b.id) :=
      List.mem_filter.mpr ⟨he, sameKey_iff.mpr htarget⟩
    have hnot := h e hmem
    rw [← hsafe]
    by_contra hnone
    obtain ⟨h1, h2⟩ := not_or.mp hnone
    exact hnot (by simp [Bool.eq_false_iff.mpr h1, Bool.eq_false_iff.mpr h2])
  · intro h e he hblocked
    obtain ⟨he, htarget⟩ := List.mem_filter.mp he
    have hin := (hsafe _).mpr (h e.source ⟨e, he, rfl, sameKey_iff.mp htarget⟩)
    rw [Bool.and_eq_true, Bool.not_eq_true', Bool.not_eq_true'] at hblocked
    rcases hin with hin | hin
    · rw [hblocked.1] at hin
      cases hin
    · rw [hblocked.2] at hin
      cases hin

theorem mem_foldl_candidates {proofList : List Double} (hnan : ∀ p ∈ proofList, p ≠ .nan)
    (hblocks : ∀ p ∈ proofList, ∃ b ∈ cfg.blocks, b.id = p)
    {step : List Double → Double → List Double}
    (hstep : ∀ candidates, ∀ b ∈ cfg.blocks, step candidates b.id =
      if hasUnsafePredecessor cfg proofList candidates b then candidates
      else addReachableState candidates b.id) (v : Double) {states candidates : List Double}
    (hstates : states ⊆ proofList) (hcand : candidates ⊆ proofList) :
    v ∈ states.foldl step candidates ↔
      v ∈ candidates ∨ (v ∈ states ∧ ∀ u, Leads cfg u v → u ∈ proofList) := by
  induction states generalizing candidates with
  | nil => simp
  | cons state states ih =>
    obtain ⟨hstate, hrest⟩ := List.cons_subset.mp hstates
    obtain ⟨b, hb, rfl⟩ := hblocks state hstate
    rw [List.foldl_cons, hstep candidates b hb]
    cases hblocked : hasUnsafePredecessor cfg proofList candidates b with
    | true =>
      have hnot : ¬ ∀ u, Leads cfg u b.id → u ∈ proofList := by
        rw [← hasUnsafePredecessor_eq_false hnan hcand, hblocked]
        nofun
      rw [if_pos rfl, ih hrest hcand, List.mem_cons]
      constructor
      · rintro (h | ⟨h, hsafe⟩)
        · exact .inl h
        · exact .inr ⟨.inr h, hsafe⟩
      · rintro (h | ⟨rfl | h, hsafe⟩)
        · exact .inl h
        · exact absurd hsafe hnot
        · exact .inr ⟨h, hsafe⟩
    | false =>
      have hsafe := (hasUnsafePredecessor_eq_false hnan hcand).mp hblocked
      have hsub : addReachableState candidates b.id ⊆ proofList := by
        intro w hw
        rcases mem_addReachableState.mp hw with hw | rfl
        · exact hcand hw
        · exact hstate
      rw [if_neg (by simp), ih hrest hsub, mem_addReachableState, List.mem_cons]
      constructor
      · rintro ((h | rfl) | ⟨h, hall⟩)
        · exact .inl h
        · exact .inr ⟨.inl rfl, hsafe⟩
        · exact .inr ⟨.inr h, hall⟩
      · rintro (h | ⟨rfl | h, hall⟩)
        · exact .inl (.inl h)
        · exact .inl (.inr rfl)
        · exact .inr ⟨h, hall⟩

/-- The states that can be cut are those that the owners' graph lets go. -/
theorem mem_findExtractableStates (hw : cfg.WellFormed)
    (hsources : ∀ e ∈ cfg.edges, ∃ b ∈ cfg.blocks, b.id = e.source)
    (hnan : ∀ b ∈ cfg.blocks, b.id ≠ .nan) (v : Double) :
    v ∈ findExtractableStates cfg (exclusiveStates cfg contexts) ↔
      (∃ b ∈ cfg.blocks, b.id = v) ∧ Detachable contexts ClosureContext.owns (Leads cfg) v := by
  have hblocks : ∀ p ∈ exclusiveStates cfg contexts, ∃ b ∈ cfg.blocks, b.id = p :=
    fun p hp => (mem_exclusiveStates.mp hp).1
  have hproof : ∀ p ∈ exclusiveStates cfg contexts, p ≠ .nan := by
    intro p hp
    obtain ⟨b, hb, rfl⟩ := hblocks p hp
    exact hnan b hb
  rw [findExtractableStates, mem_foldl_candidates hproof hblocks ?_ v (List.Subset.refl _)
    (List.nil_subset _), mem_exclusiveStates, Detachable]
  rotate_left
  · intro candidates b hb
    rw [getBlock_of_mem hw hb]
  constructor
  · rintro (h | ⟨⟨hb, hsole⟩, hprev⟩)
    · cases h
    · exact ⟨hb, hsole, fun u hu => (mem_exclusiveStates.mp (hprev u hu)).2⟩
  · rintro ⟨hb, hsole, hprev⟩
    refine .inr ⟨⟨hb, hsole⟩, fun u hu => mem_exclusiveStates.mpr ⟨?_, hprev u hu⟩⟩
    obtain ⟨e, he, rfl, _⟩ := hu
    exact hsources e he

end Owners

/-! ### What a run has worked out -/

section Separated
variable [Host] {astChunk : Chunk Double} {cfg : ControlFlowGraph Double} {disp : Bool}
  {s : Separation Double}

theorem traversed_separate (h : separate astChunk cfg disp = some s) :
    Traversed cfg s.contexts := by
  obtain ⟨d, -, rfl⟩ := Option.map_eq_some_iff.mp h
  intro func hf
  obtain ⟨entry, _, rfl⟩ := List.mem_map.mp hf
  rfl

theorem extractable_separate (h : separate astChunk cfg disp = some s) :
    s.extractable = findExtractableStates cfg (exclusiveStates cfg s.contexts) := by
  obtain ⟨d, -, rfl⟩ := Option.map_eq_some_iff.mp h
  rfl

/-- Once the tree is compressed, the removed states are those of its leaves that are extractable. -/
theorem mem_removedStates {r : Double} (hr : r ∈ s.removedStates cfg disp) :
    ∃ rootIf, dispatcherRoot s.found = some rootIf ∧
      ∀ v, v ∈ s.removedStates cfg disp ↔
        v ∈ leafStates cfg.dispatcherVar (.node rootIf) (LuaNumber.neg JsNumber.infinity)
          JsNumber.infinity ∧ v ∈ s.extractable := by
  unfold Separation.removedStates at hr ⊢
  split at hr
  · rename_i rootIf hroot
    refine ⟨rootIf, ?_, fun v => ?_⟩
    · unfold Separation.compressedRoot at hroot
      split at hroot
      · exact (Option.filter_eq_some_iff.mp hroot).1
      · cases hroot
    · simp only [List.mem_filter, any_key]
  · cases hr

/-- A removed state has a sole owner, and so has every state that leads to it. -/
theorem detachable_of_removed (hw : cfg.WellFormed)
    (hsources : ∀ e ∈ cfg.edges, ∃ b ∈ cfg.blocks, b.id = e.source)
    (hnan : ∀ b ∈ cfg.blocks, b.id ≠ .nan) (h : separate astChunk cfg disp = some s) {r : Double}
    (hr : r ∈ s.removedStates cfg disp) :
    Detachable s.contexts ClosureContext.owns (Leads cfg) r := by
  obtain ⟨rootIf, _, hmem⟩ := mem_removedStates hr
  have hx := ((hmem r).mp hr).2
  rw [extractable_separate h, mem_findExtractableStates hw hsources hnan] at hx
  exact hx.2

/-- No edge leads from a block that stays to a state that is cut. -/
theorem Separation.RemovesSafely.kept (hs : s.RemovesSafely astChunk cfg disp) (hw : cfg.WellFormed)
    (hsources : ∀ e ∈ cfg.edges, ∃ b ∈ cfg.blocks, b.id = e.source)
    (hnan : ∀ b ∈ cfg.blocks, b.id ≠ .nan) (h : separate astChunk cfg disp = some s) {r : Double}
    (hr : r ∈ s.removedStates cfg disp) {b : BasicBlock Double} (hb : b ∈ cfg.blocks)
    (hstays : (s.removedStates cfg disp).any (sameKey b.id) = false) {e : Edge Double}
    (he : e ∈ cfg.successors b) : sameKey e.target r = false := by
  rw [Bool.eq_false_iff]
  intro htarget
  obtain ⟨he, hsource⟩ := List.mem_filter.mp he
  have hid : e.source = b.id := sameKey_iff.mp hsource
  obtain ⟨rootIf, hroot, hmem⟩ := mem_removedStates hr
  obtain ⟨hleaf, howned⟩ := hs.predecessors r hr rootIf hroot e he htarget
  have hprev : Detachable s.contexts ClosureContext.owns (Leads cfg) e.source := by
    rw [(detachable_of_removed hw hsources hnan h hr).prev_iff
      (inherits_traversed hw (traversed_separate h)) ⟨e, he, rfl, sameKey_iff.mp htarget⟩]
    rintro w ⟨e', he', rfl, htarget'⟩
    exact howned e' he' (sameKey_iff.mpr htarget')
  have hgone : b.id ∈ s.removedStates cfg disp := by
    rw [← hid, hmem, extractable_separate h, mem_findExtractableStates hw hsources hnan]
    exact ⟨any_key.mp hleaf, ⟨b, hb, hid.symm⟩, hprev⟩
  rw [any_key.mpr hgone] at hstays
  cases hstays

end Separated

section Example
attribute [local instance] quietHost

/-- `x = 5` -/
def plainLeaf : List (Stmt Double) :=
  [.assignmentStatement [.identifier "x"] [.numericLiteral five "5"]]

def plainBlock : BasicBlock Double := leafBlock "Q" ⟨some oneThreshold, none, plainLeaf⟩

end Example
end LuaRecovery.Transforms
