import LuaRecovery.Lib.InsertionMap
import LuaRecovery.Lua.Nodes

/-!
# The points-to analysis

`PointsToAnalyzer` of `analysis/points-to.js`. A node is known by its place in the
traversal. The tables, the edges of the call graph and the capture records, which
the analysis never reads, are left out.
-/

set_option autoImplicit false

namespace LuaRecovery.Analysis.PointsTo
open LuaRecovery.Lib LuaRecovery.Lua

section Events
variable {N : Type}

/-- What the visit of a node does: the assignments of a statement one by one, or a call. -/
inductive Event (N : Type) where
  | assign (target init : Expr N) (node : ℕ)
  | call (base : Expr N) (args : List (Expr N))

/-- The places of the expressions of a list whose first one is at place `p`. -/
def places (p : ℕ) : List (Expr N) → List ℕ
  | [] => []
  | e::es => p :: places (p + (exprNodes e).length) es

def assignEvents (p : ℕ) (vars init : List (Expr N)) : List (Event N) :=
  (vars.zip (init.zip (places (p + 1 + (exprsNodes vars).length) init))).map
    (fun q => .assign q.1 q.2.1 q.2.2)

def nodeEvents : Node N × ℕ → List (Event N)
  | (.stmt (.localStatement vars init), p) => assignEvents p vars init
  | (.stmt (.assignmentStatement vars init), p) => assignEvents p vars init
  | (.expr (.callExpression base args _), _) => [.call base args]
  | _ => []

/-- What the visit does, in its order. -/
def events (chunk : Chunk N) : List (Event N) := chunk.nodes.zipIdx.flatMap nodeEvents

end Events

section Analysis
variable {N S : Type} [DecidableEq S]

structure FunctionContext (S : Type) where
  id : String
  constructorId : Option String
  entryState : Option S
  deriving DecidableEq

structure RawConstructor (S : Type) where
  constructorId : String
  entryState : Option S
  node : ℕ

def contextsByConstructorId (contexts : List (FunctionContext S)) :
    InsertionMap String (FunctionContext S) :=
  contexts.foldl (fun m ctx => match ctx.constructorId with
    | some id => if id = "" then m else m.set id ctx
    | none => m) .empty

def contextsByEntryState (contexts : List (FunctionContext S)) :
    InsertionMap S (FunctionContext S) :=
  contexts.foldl (fun m ctx => match ctx.entryState with
    | some s => m.set s ctx
    | none => m) .empty

def contextOf (contexts : List (FunctionContext S)) (c : RawConstructor S) :
    Option (FunctionContext S) :=
  ((contextsByConstructorId contexts).get c.constructorId).or
    (c.entryState.bind (contextsByEntryState contexts).get)

/-- `constructorToFuncSet`: the context of each constructor call; its set has no other. -/
def constructorContexts (contexts : List (FunctionContext S))
    (rawConstructors : List (RawConstructor S)) : InsertionMap ℕ (FunctionContext S) :=
  rawConstructors.foldl (fun m c => match contextOf contexts c with
    | some ctx => m.set c.node ctx
    | none => m) .empty

abbrev FunctionSet (S : Type) := List (FunctionContext S)

inductive CallSite where
  | directCall (variableName : String)
  | callbackRegistration (callee : String)
  deriving DecidableEq

structure Analyzer (S : Type) where
  environment : InsertionMap String (FunctionSet S)
  knownCallSites : List (FunctionContext S × CallSite)

variable (constructors : InsertionMap ℕ (FunctionContext S))

/-- The variable that an assignment is followed for, with what it stores there. -/
def assigned (environment : String → Option (FunctionSet S)) (event : Event N) :
    Option (String × FunctionSet S) :=
  match event with
  | .assign target init node => do
      let fnSet ← ((constructors.get node).map (fun ctx => [ctx])).or
        (init.name?.bind environment)
      let v ← target.name?
      some (v, fnSet)
  | .call _ _ => none

def callSites (environment : String → Option (FunctionSet S)) (event : Event N) :
    List (FunctionContext S × CallSite) :=
  match event with
  | .assign _ _ _ => []
  | .call base args =>
      (base.name?.toList.flatMap fun fnName =>
        ((environment fnName).getD []).map fun fn => (fn, .directCall fnName)) ++
      args.flatMap fun arg =>
        ((arg.name?.bind environment).getD []).map fun fn =>
          (fn, .callbackRegistration (base.name?.getD "anonymous_call"))

def visit (result : Analyzer S) (event : Event N) : Analyzer S where
  environment := match assigned constructors result.environment.get event with
    | some e => result.environment.set e.1 e.2
    | none => result.environment
  knownCallSites := result.knownCallSites ++ callSites result.environment.get event

def analyze (chunk : Chunk N) (contexts : List (FunctionContext S))
    (rawConstructors : List (RawConstructor S)) : Analyzer S :=
  (events chunk).foldl (visit (constructorContexts contexts rawConstructors)) ⟨.empty, []⟩

end Analysis

end LuaRecovery.Analysis.PointsTo
