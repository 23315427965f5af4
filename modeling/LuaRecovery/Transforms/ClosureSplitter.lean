import LuaRecovery.Analysis.ClosureConstructors
import LuaRecovery.Transforms.FunctionStructure
import LuaRecovery.Transforms.ResidualDispatcher

/-!
# Splitting closures off the dispatcher

`ClosureSplitterTransform.run` of `transforms/closure-splitter.js` with
`findExtractableStates` of `transforms/residual-dispatcher.js`. The functions
that were reconstructed replace calls with their entry states; the states that
one function owns alone are cut from the dispatcher's tree before that. The
points-to analysis and the statistics are left out.
-/

set_option autoImplicit false

namespace LuaRecovery.Transforms
open LuaRecovery.Lib LuaRecovery.Lua LuaRecovery.Evaluator LuaRecovery.Cfg LuaRecovery.Analysis

section Splitter
variable {N : Type} [JsNumber N]

/-- A function context with the parameters of the helper that constructs it. -/
structure ClosureContext (N : Type) extends FunctionContext N where
  parameters : List (Expr N)
  isVararg : Bool

def matchesEntry (entryState : N) (c : Constructor N) : Bool :=
  match c.entryState with
  | some s => LuaNumber.eq s entryState
  | none => false

def functionContext (sharedCFG : ControlFlowGraph N) (rawConstructors : List (Constructor N))
    (entryState : N) : ClosureContext N :=
  let matchConstructor := rawConstructors.find? (matchesEntry entryState)
  { toFunctionContext := .ofEntry sharedCFG entryState
    parameters := (matchConstructor.map (fun c => c.parameters.map .identifier)).getD []
    isVararg := (matchConstructor.map (fun c => c.vararg)).getD false }

/-- The function expression of a context whose body was reconstructed. -/
def reconstructedFunction (sharedCFG : ControlFlowGraph N) (func : ClosureContext N) :
    Option (N × Expr N) :=
  if 0 < func.reachableStates.length ∧ func.reachableStates.length ≤ 40 then
    match reconstructFunctionBody sharedCFG func.toFunctionContext with
    | some (s::structuredStmts) => some (func.entryState,
        .functionExpression func.parameters func.isVararg (s::structuredStmts))
    | _ => none
  else none

/-- One function context owns the state, and no other does. -/
def isExclusive (contexts : List (ClosureContext N)) (stateId : N) : Bool :=
  (contexts.filter (fun c => c.reachableStates.any (fun s => sameKey s stateId))).length = 1

def exclusiveStates (sharedCFG : ControlFlowGraph N) (contexts : List (ClosureContext N)) :
    List N :=
  (sharedCFG.blocks.map (fun b => b.id)).filter (isExclusive contexts)

def predecessors (cfg : ControlFlowGraph N) (b : BasicBlock N) : List (Edge N) :=
  cfg.edges.filter (fun e => sameKey e.target b.id)

/-- An incoming edge comes from a block that is not exclusive. -/
def hasUnsafePredecessor (cfg : ControlFlowGraph N) (exclusiveProofList candidates : List N)
    (b : BasicBlock N) : Bool :=
  (predecessors cfg b).any (fun e => !candidates.any (fun c => sameKey c e.source) &&
    !exclusiveProofList.any (fun p => LuaNumber.eq p e.source))

def findExtractableStates (cfg : ControlFlowGraph N) (exclusiveProofList : List N) : List N :=
  exclusiveProofList.foldl (fun candidates state => match cfg.getBlock state with
    | some block =>
        if hasUnsafePredecessor cfg exclusiveProofList candidates block then candidates
        else addReachableState candidates state
    | none => candidates) []

/-- What a run has worked out before it rewrites the calls: among the rest the nodes of the chunk,
and those without the leaves that are cut, with what has become of each. -/
structure Separation (N : Type) where
  helpers : Helpers
  contexts : List (ClosureContext N)
  reconstructed : List (N × Expr N)
  extractable : List N
  enter : Traces → Node N → ℕ → Traces
  found : List (Site Traces N)
  left : List (Site Traces N)

/-- The sites left when the first dispatcher loop keeps its compressed tree only. The thresholds
of the tree have been folded in place when its graph was built. -/
def residualSites {C : Type} (enter : C → Node N → ℕ → C) (stateVar : String)
    (statesToExtract : List N) (sites : List (Site C N)) : List (Site C N) :=
  match sites.dropWhile (fun s => (dispatcherVarOf s.2).isNone) with
  | (c, .stmt (.whileStatement condition (rootIf::body))) :: rest =>
      let below := enter c (.stmt (.whileStatement condition (rootIf::body)))
      sites.takeWhile (fun s => (dispatcherVarOf s.2).isNone) ++
        (c, .stmt (.whileStatement condition (rootIf::body))) ::
          (exprSites enter (below 0) condition ++
            stmtSites enter (below 1) (compressDispatcher stateVar statesToExtract rootIf) ++
            rest.drop (exprNodes condition ++ blockNodes (rootIf::body)).length)
  | _ => sites

/-- The steps of `run` before the calls are rewritten; `none` where it throws. With `disp`, the
chunk's first dispatcher loop is compressed. -/
def separate (astChunk : Chunk N) (sharedCFG : ControlFlowGraph N) (disp : Bool) :
    Option (Separation N) :=
  (discoverEntries astChunk).map (fun d =>
    let contexts := d.entries.map (functionContext sharedCFG d.rawConstructors)
    let extractable := findExtractableStates sharedCFG (exclusiveStates sharedCFG contexts)
    { helpers := d.helpers
      contexts := contexts
      reconstructed := contexts.filterMap (reconstructedFunction sharedCFG)
      extractable := extractable
      enter := d.enter
      found := d.sites astChunk
      left := if disp then
          residualSites d.enter sharedCFG.dispatcherVar extractable (d.sites astChunk)
        else d.sites astChunk })

/-- The state has a function expression to call in its place. -/
def Separation.replaces (s : Separation N) (state : N) : Bool :=
  s.reconstructed.any (fun r => sameKey r.1 state)

/-- The rewriter's test of a node. -/
def Separation.isRewritten (s : Separation N) : Expr N → Bool
  | .callExpression (.identifier _) (.numericLiteral value _ :: _) _ => s.replaces value
  | _ => false

/-- A closure constructor that the analyzer finds, with an entry state that was reconstructed. -/
def Separation.isConstructor (s : Separation N) (e : Expr N) : Bool :=
  match (constructorOf s.helpers (.expr e)).bind (fun c => c.entryState) with
  | some state => s.replaces state
  | none => false

/-- The call as the analyzer meets it. -/
def analyzedCall (site : Site Traces N) : Option (Expr N) :=
  (site.1.1.bind (fun touch => touch.form site.2)).bind callOf

/-- The call as the rewriter meets it. -/
def finalCall (site : Site Traces N) : Option (Expr N) :=
  (site.1.2.bind (fun touch => touch.form site.2)).bind callOf

/-- A call that is replaced by a function expression. -/
def Separation.isReplaced (s : Separation N) (site : Site Traces N) : Bool :=
  (finalCall site).any s.isRewritten

/-- A constructor call that the analyzer finds and whose state was reconstructed. -/
def Separation.isDiscovered (s : Separation N) (site : Site Traces N) : Bool :=
  (analyzedCall site).any s.isConstructor

/-- The nodes of the tree in which the calls are rewritten. -/
def Separation.visited (s : Separation N) : List (Node N) :=
  leftNodes (s.left.map (fun site => (site.1.2, site.2)))

end Splitter

section Calls
variable {N : Type} [JsNumber N]

theorem isRewritten_iff (s : Separation N) (e : Expr N) : s.isRewritten e = true ↔
    ∃ name value raw args inParens, s.replaces value = true ∧
      e = .callExpression (.identifier name) (.numericLiteral value raw :: args) inParens := by
  constructor
  · intro h
    unfold Separation.isRewritten at h
    split at h
    · exact ⟨_, _, _, _, _, h, rfl⟩
    · cases h
  · rintro ⟨name, value, raw, args, inParens, h, rfl⟩
    exact h

theorem isConstructor_iff (s : Separation N) (e : Expr N) : s.isConstructor e = true ↔
    ∃ name arg0 args inParens spec value, s.helpers.get name = some spec ∧
      foldedNumber arg0 = some value ∧ s.replaces value = true ∧
      e = .callExpression (.identifier name) (arg0::args) inParens := by
  constructor
  · intro h
    unfold Separation.isConstructor at h
    split at h
    · rename_i state hstate
      obtain ⟨c, hc, hentry⟩ := Option.bind_eq_some_iff.mp hstate
      unfold constructorOf at hc
      split at hc
      · rename_i name arg0 args inParens heq
        cases heq
        obtain ⟨spec, hspec, rfl⟩ := Option.map_eq_some_iff.mp hc
        exact ⟨name, arg0, args, inParens, spec, state, hspec, hentry, h, rfl⟩
      · cases hc
    · cases h
  · rintro ⟨name, arg0, args, inParens, spec, value, hspec, hvalue, h, rfl⟩
    simp [Separation.isConstructor, constructorOf, hspec, hvalue, h]

theorem isReplaced_iff (s : Separation N) (site : Site Traces N) : s.isReplaced site = true ↔
    ∃ name value raw args inParens, s.replaces value = true ∧ finalCall site =
      some (.callExpression (.identifier name) (.numericLiteral value raw :: args) inParens) := by
  rw [Separation.isReplaced, Option.any_eq_true]
  constructor
  · rintro ⟨e, he, h⟩
    obtain ⟨name, value, raw, args, inParens, hv, rfl⟩ := (isRewritten_iff s e).mp h
    exact ⟨name, value, raw, args, inParens, hv, he⟩
  · rintro ⟨name, value, raw, args, inParens, hv, he⟩
    exact ⟨_, he, (isRewritten_iff s _).mpr ⟨name, value, raw, args, inParens, hv, rfl⟩⟩

theorem isDiscovered_iff (s : Separation N) (site : Site Traces N) : s.isDiscovered site = true ↔
    ∃ name arg0 args inParens spec value, s.helpers.get name = some spec ∧
      foldedNumber arg0 = some value ∧ s.replaces value = true ∧ analyzedCall site =
        some (.callExpression (.identifier name) (arg0::args) inParens) := by
  rw [Separation.isDiscovered, Option.any_eq_true]
  constructor
  · rintro ⟨e, he, h⟩
    obtain ⟨name, arg0, args, inParens, spec, value, hspec, hvalue, hv, rfl⟩ :=
      (isConstructor_iff s e).mp h
    exact ⟨name, arg0, args, inParens, spec, value, hspec, hvalue, hv, he⟩
  · rintro ⟨name, arg0, args, inParens, spec, value, hspec, hvalue, hv, he⟩
    exact ⟨_, he, (isConstructor_iff s _).mpr
      ⟨name, arg0, args, inParens, spec, value, hspec, hvalue, hv, rfl⟩⟩

/-- A call stays a call. Once touched, its callee and its arguments are folded. -/
theorem call_of_form {trace : Option Touch} {n : Node N} {c : Expr N}
    (h : (trace.bind (fun touch => touch.form n)).bind callOf = some c) :
    ∃ base args inParens, n = .expr (.callExpression base args inParens) ∧
      ((trace = some .untouched ∧ c = .callExpression base args inParens) ∨
        (trace ≠ some .untouched ∧ c = .callExpression (fold base) (foldList args) inParens)) := by
  cases trace with
  | none => cases h
  | some touch =>
    cases n with
    | stmt s => cases touch <;> cases h
    | expr e =>
      cases e with
      | callExpression base args inParens =>
        refine ⟨base, args, inParens, rfl, ?_⟩
        cases touch with
        | untouched =>
          cases h
          exact .inl ⟨rfl, rfl⟩
        | inPlace =>
          cases h
          exact .inr ⟨by simp, rfl⟩
        | folded =>
          cases h
          exact .inr ⟨by simp, rfl⟩
      | unaryExpression operator argument =>
        cases touch with
        | folded =>
          simp only [Option.bind_some, Touch.form] at h
          split at h <;> cases h
        | _ => cases h
      | binaryExpression operator left right =>
        cases touch with
        | folded =>
          simp only [Option.bind_some, Touch.form] at h
          split at h <;> cases h
        | _ => cases h
      | logicalExpression operator left right =>
        cases touch with
        | folded =>
          simp only [Option.bind_some, Touch.form] at h
          split at h <;> cases h
        | _ => cases h
      | _ => cases touch <;> cases h

/-- What the analyzer met as a call by a name is that for the rewriter, with an argument of the
same value. -/
theorem finalCall_of_analyzed {site : Site Traces N} (htouched : TouchedLater site.1)
    {name : String} {arg0 : Expr N} {args : List (Expr N)} {inParens : Bool} {c : Expr N}
    (ha : analyzedCall site = some (.callExpression (.identifier name) (arg0::args) inParens))
    (hc : finalCall site = some c) : ∃ arg0' args',
      c = .callExpression (.identifier name) (arg0'::args') inParens ∧
        foldedNumber arg0' = foldedNumber arg0 := by
  obtain ⟨base, callArgs, callParens, hnode, hform⟩ := call_of_form ha
  obtain ⟨_, _, _, hnode', hform'⟩ := call_of_form hc
  rw [hnode] at hnode'
  cases hnode'
  have hfolds : ∀ e : Expr N, foldedNumber (fold e) = foldedNumber e := by
    intro e
    rw [foldedNumber, fold_fold, foldedNumber]
  rcases hform' with ⟨hfinal, rfl⟩ | ⟨-, rfl⟩
  · rcases hform with ⟨-, hform⟩ | ⟨htouch, -⟩
    · cases hform
      exact ⟨arg0, args, rfl, rfl⟩
    · exact absurd (htouched hfinal) htouch
  · rcases hform with ⟨-, hform⟩ | ⟨-, hform⟩
    · cases hform
      exact ⟨fold arg0, foldList args, by simp [fold, foldList], hfolds arg0⟩
    · rw [← hform]
      exact ⟨arg0, args, rfl, rfl⟩

/-- The sites that are left have come to their traces by the same discovery. -/
theorem touchedLater_residualSites {d : Discovery N} {chunk : Chunk N}
    (h : discoverEntries chunk = some d) (stateVar : String) (states : List N)
    {sites : List (Site Traces N)} (hsites : ∀ site ∈ sites, TouchedLater site.1) :
    ∀ site ∈ residualSites d.enter stateVar states sites, TouchedLater site.1 := by
  have henter := touchedLater_discovery h
  unfold residualSites
  split
  · rename_i traces condition rootIf body rest hsplit
    have hmem : ∀ site ∈ (traces, .stmt (.whileStatement condition (rootIf::body))) :: rest,
        site ∈ sites := by
      intro site hsite
      rw [← hsplit] at hsite
      exact (List.dropWhile_sublist _).subset hsite
    have htraces := hsites _ (hmem _ List.mem_cons_self)
    intro site hsite
    rcases List.mem_append.mp hsite with hsite | hsite
    · exact hsites site ((List.takeWhile_sublist _).subset hsite)
    rcases List.mem_cons.mp hsite with rfl | hsite
    · exact htraces
    rcases List.mem_append.mp hsite with hsite | hsite
    · rcases List.mem_append.mp hsite with hsite | hsite
      · exact inherits_exprSites henter condition (henter _ _ _ htraces) site hsite
      · exact inherits_stmtSites henter _ (henter _ _ _ htraces) site hsite
    · exact hsites site (hmem site (List.mem_cons_of_mem _ (List.mem_of_mem_drop hsite)))
  · exact hsites

theorem touchedLater_left {astChunk : Chunk N} {sharedCFG : ControlFlowGraph N} {disp : Bool}
    {s : Separation N} (h : separate astChunk sharedCFG disp = some s) :
    ∀ site ∈ s.left, TouchedLater site.1 := by
  obtain ⟨d, hd, rfl⟩ := Option.map_eq_some_iff.mp h
  have hsites : ∀ site ∈ d.sites astChunk, TouchedLater site.1 :=
    inherits_blockSites (touchedLater_discovery hd) astChunk.body (fun _ _ => rfl) 0
  cases disp with
  | true => exact touchedLater_residualSites hd _ _ hsites
  | false => exact hsites

end Calls

section Rewriting
variable {N : Type} [JsNumber N]

/-- The rewriter and the analyzer tell the same calls: where a numeral for a reconstructed state is
the first argument of a call by name, the name is a helper's and the analyzer met the call by this
name; where a helper call with such a state still stands, the state is a numeral; and no such call
is in a leaf that is cut. -/
structure Separation.Agrees (s : Separation N) : Prop where
  helper : ∀ site ∈ s.left, ∀ name value raw args inParens, finalCall site =
    some (.callExpression (.identifier name) (.numericLiteral value raw :: args) inParens) →
      s.replaces value = true → (∃ spec, s.helpers.get name = some spec) ∧
        ∃ arg0 args', analyzedCall site =
          some (.callExpression (.identifier name) (arg0::args') inParens)
  numeral : ∀ site ∈ s.left, ∀ name arg0 args inParens spec value, analyzedCall site =
    some (.callExpression (.identifier name) (arg0::args) inParens) →
      s.helpers.get name = some spec → foldedNumber arg0 = some value →
      s.replaces value = true → ∃ base value' raw args' inParens', finalCall site =
        some (.callExpression base (.numericLiteral value' raw :: args') inParens')
  kept : (s.left.filter s.isDiscovered).Perm (s.found.filter s.isDiscovered)

/-- Of the calls that are left those are replaced that the analyzer has found and whose state was
reconstructed, and each of these is left. -/
structure Separation.Rewrites (s : Separation N) : Prop where
  replaced : ∀ site ∈ s.left, s.isReplaced site = true ↔ s.isDiscovered site = true
  all : (s.left.filter s.isDiscovered).Perm (s.found.filter s.isDiscovered)

def RewritesConstructors (astChunk : Chunk N) (sharedCFG : ControlFlowGraph N) (disp : Bool) :
    Prop :=
  ∀ s, separate astChunk sharedCFG disp = some s → s.Rewrites

theorem rewrites_constructors_iff (astChunk : Chunk N) (sharedCFG : ControlFlowGraph N)
    (disp : Bool) : RewritesConstructors astChunk sharedCFG disp ↔
      ∀ s, separate astChunk sharedCFG disp = some s → s.Agrees := by
  refine forall_congr' (fun s => forall_congr' (fun h => ?_))
  have htouched := touchedLater_left h
  constructor
  · intro hrewrites
    refine ⟨?_, ?_, hrewrites.all⟩
    · intro site hsite name value raw args inParens hfinal hv
      have hdiscovered := (hrewrites.replaced site hsite).mp
        ((isReplaced_iff s site).mpr ⟨name, value, raw, args, inParens, hv, hfinal⟩)
      obtain ⟨_, arg0, args', _, spec, _, hspec, -, -, hanalyzed⟩ :=
        (isDiscovered_iff s site).mp hdiscovered
      obtain ⟨_, _, heq, -⟩ := finalCall_of_analyzed (htouched site hsite) hanalyzed hfinal
      cases heq
      exact ⟨⟨spec, hspec⟩, arg0, args', hanalyzed⟩
    · intro site hsite name arg0 args inParens spec value hanalyzed hspec hvalue hv
      have hreplaced := (hrewrites.replaced site hsite).mpr ((isDiscovered_iff s site).mpr
        ⟨name, arg0, args, inParens, spec, value, hspec, hvalue, hv, hanalyzed⟩)
      obtain ⟨name', value', raw, args', inParens', -, hfinal⟩ :=
        (isReplaced_iff s site).mp hreplaced
      exact ⟨_, value', raw, args', inParens', hfinal⟩
  · intro hagrees
    refine ⟨fun site hsite => ⟨fun hreplaced => ?_, fun hdiscovered => ?_⟩, hagrees.kept⟩
    · obtain ⟨name, value, raw, args, inParens, hv, hfinal⟩ := (isReplaced_iff s site).mp hreplaced
      obtain ⟨⟨spec, hspec⟩, arg0, args', hanalyzed⟩ :=
        hagrees.helper site hsite name value raw args inParens hfinal hv
      obtain ⟨_, _, heq, hsame⟩ := finalCall_of_analyzed (htouched site hsite) hanalyzed hfinal
      cases heq
      have hvalue : foldedNumber arg0 = some value := by
        rw [← hsame]
        simp [foldedNumber, fold]
      exact (isDiscovered_iff s site).mpr
        ⟨name, arg0, args', inParens, spec, value, hspec, hvalue, hv, hanalyzed⟩
    · obtain ⟨name, arg0, args, inParens, spec, value, hspec, hvalue, hv, hanalyzed⟩ :=
        (isDiscovered_iff s site).mp hdiscovered
      obtain ⟨base, value', raw, args', inParens', hfinal⟩ :=
        hagrees.numeral site hsite name arg0 args inParens spec value hanalyzed hspec hvalue hv
      obtain ⟨_, _, heq, hsame⟩ := finalCall_of_analyzed (htouched site hsite) hanalyzed hfinal
      cases heq
      have hstate : value' = value := by
        rw [hvalue] at hsame
        simpa [foldedNumber, fold] using hsame
      rw [hstate] at hfinal
      exact (isReplaced_iff s site).mpr ⟨name, value, raw, args', inParens, hv, hfinal⟩

end Rewriting
section Example
attribute [local instance] quietHost

/-- A call with the state `0`. -/
def callZero (name : String) : Expr Double :=
  .callExpression (.identifier name) [.numericLiteral zero "0"] false

/-- The loop of `loopGraph`, then `S(0)` and `f(0)`. -/
def twoCalls : Chunk Double :=
  ⟨[.whileStatement (.identifier "Q") [loopTree.root],
    .callStatement (callZero "S"), .callStatement (callZero "f")]⟩

/-- The loop, then `Q = h(not {S(0)})`. -/
def foldedAway : Chunk Double :=
  ⟨[.whileStatement (.identifier "Q") [loopTree.root],
    .assignmentStatement [.identifier "Q"] [.callExpression (.identifier "h")
      [.unaryExpression .not (.tableConstructor [.tableValue (callZero "S")])] false]]⟩

theorem reachableStates_loopGraph : Cfg.reachableStates loopGraph zero = [zero] := by
  have hfind : loopGraph.findBlockForState zero = some loopBlock := by
    rw [ControlFlowGraph.findBlockForState, getBlock_loopGraph]
  rw [Cfg.reachableStates, hfind]
  simp only
  rw [traverse_new loopGraph rfl (loopBlock_id ▸ getBlock_loopGraph) rfl]
  simp only [Traversal.visit, successors_loopGraph, List.foldl_cons, List.foldl_nil, pushEdge,
    List.nil_append, loopBlock_id]
  rw [traverse_seen loopGraph rfl getBlock_loopGraph (by simp [sameVisit, ctxKey, loopBlock_id]),
    traverse_done loopGraph rfl]
  rfl

theorem reconstruct_loopGraph :
    reconstructFunctionBody loopGraph (.ofEntry loopGraph zero) =
      some [.assignmentStatement [.identifier "x"] [.numericLiteral five "5"]] := by
  have hfind : loopGraph.findBlockForState zero = some loopBlock := by
    rw [ControlFlowGraph.findBlockForState, getBlock_loopGraph]
  have hlength : loopGraph.blocks.length = 2 := by
    have hblocks : loopGraph.blocks = [loopBlock, leafBlock "Q" ⟨some oneThreshold, none, []⟩] :=
      SearchTree.blocks_buildCFG _ (staysOpen_oneLeafTree loopLeaf rfl)
    rw [hblocks]
    rfl
  have hwalk : (walk loopGraph ⟨zero, [zero]⟩ 3 [] zero).1 = (Body.ofStatements
      (stripStateAssignments loopBlock.statements loopGraph.dispatcherVar)).append .nil := by
    simp [walk, getBlock_loopGraph, loopBlock_id, successors_loopGraph]
  simp only [reconstructFunctionBody, reconstructedBody, FunctionContext.ofEntry, hfind, hlength,
    loopBlock_id, reachableStates_loopGraph, Option.map_some, hwalk]
  rfl

/-- The discovery on a chunk. -/
structure FindsZero (chunk : Chunk Double) (d : Discovery Double) : Prop where
  discovery : discoverEntries chunk = some d
  helpers : d.helpers = CLOSURE_HELPERS
  entries : ∃ k, d.entries = (List.replicate (k+1) zero).foldl addReachableState []

theorem entries_zero {chunk : Chunk Double} {d : Discovery Double} (h : FindsZero chunk d) :
    d.entries = [zero] := by
  obtain ⟨k, hk⟩ := h.entries
  have hrest : ∀ k, (List.replicate k zero).foldl addReachableState [zero] = [zero] := by
    intro k
    induction k with
    | zero => rfl
    | succ k ih =>
      rw [List.replicate_succ, List.foldl_cons]
      simpa [addReachableState] using ih
  rw [hk, List.replicate_succ, List.foldl_cons]
  simpa [addReachableState] using hrest k

/-- The function of state `0` is reconstructed. -/
theorem separate_loopGraph {chunk : Chunk Double} {d : Discovery Double} (h : FindsZero chunk d) :
    ∃ s, separate chunk loopGraph false = some s ∧ s.helpers = CLOSURE_HELPERS ∧
      s.left = d.sites chunk ∧ s.replaces zero = true := by
  refine ⟨_, by rw [separate, h.discovery]; rfl, h.helpers, rfl, ?_⟩
  have hfunction : (reconstructedFunction loopGraph (functionContext loopGraph
      d.rawConstructors zero)).map Prod.fst = some zero := by
    have hbody := reconstruct_loopGraph
    rw [FunctionContext.ofEntry, reachableStates_loopGraph] at hbody
    simp [reconstructedFunction, functionContext, hbody, reachableStates_loopGraph,
      FunctionContext.ofEntry]
  obtain ⟨r, hr, hkey⟩ := Option.map_eq_some_iff.mp hfunction
  simp [Separation.replaces, entries_zero h, hr, hkey]

/-- `f` is no helper, but the rewriter takes its call for one; and what `S(0)` stands in is folded
away after it has been found. -/
theorem other_call_rewritten : ¬ RewritesConstructors twoCalls loopGraph false ∧
    ¬ RewritesConstructors foldedAway loopGraph false := by
  constructor
  · intro h
    obtain ⟨d, hd, hsite⟩ : ∃ d, FindsZero twoCalls d ∧
        ((some .untouched, some .untouched), .expr (callZero "f")) ∈ d.sites twoCalls :=
      ⟨_, ⟨rfl, rfl, 2, rfl⟩, List.mem_of_getElem? (i := 17) rfl⟩
    obtain ⟨s, hs, hhelpers, hleft, hreplaces⟩ := separate_loopGraph hd
    have hdiscovered := ((h s hs).replaced _ (hleft ▸ hsite)).mp
      ((isReplaced_iff s _).mpr ⟨"f", zero, "0", [], false, hreplaces, rfl⟩)
    obtain ⟨name, _, _, _, spec, _, hspec, -, -, hcall⟩ := (isDiscovered_iff s _).mp hdiscovered
    cases hcall
    rw [hhelpers] at hspec
    cases hspec
  · intro h
    obtain ⟨d, hd, hsite⟩ : ∃ d, FindsZero foldedAway d ∧
        ((some .untouched, none), .expr (callZero "S")) ∈ d.sites foldedAway :=
      ⟨_, ⟨rfl, rfl, 2, rfl⟩, List.mem_of_getElem? (i := 18) rfl⟩
    obtain ⟨s, hs, hhelpers, hleft, hreplaces⟩ := separate_loopGraph hd
    have hdiscovered : s.isDiscovered ((some .untouched, none), .expr (callZero "S")) = true :=
      (isDiscovered_iff s _).mpr ⟨"S", _, _, _, ⟨false, ["a"]⟩, zero, by rw [hhelpers]; rfl, rfl,
        hreplaces, rfl⟩
    have hreplaced := ((h s hs).replaced _ (hleft ▸ hsite)).mpr hdiscovered
    cases hreplaced

end Example
end LuaRecovery.Transforms
