import LuaRecovery.Lib.InsertionMap
import LuaRecovery.Lib.Traversal
import LuaRecovery.Lua.ByteString
import LuaRecovery.Lua.Double

/-!
# The semantic emitter

`SemanticASTEmitter.emit` over an `EnvironmentGraph`. The statements of a tree
come with what they are emitted for: the provenance lists record the same and
are left out. The strings of the tree are the bytes of the recorded ones.
-/

set_option autoImplicit false

namespace LuaRecovery.Analysis.SemanticEmitter
open LuaRecovery.Lib LuaRecovery.Lua

/-- A recorded value. Of what is no primitive only its text is read. -/
inductive Recorded : Type where
  | string (s : String)
  | number (x : Double)
  | boolean (b : Bool)
  | null
  | other (text : String)

inductive Storage where
  | register | upvalueCell | tableObject | mutableCell
  deriving DecidableEq

structure Binding where
  bindingId : String
  displayName : Option String
  storage : Storage
  initialValue : Recorded

inductive ScopeType where
  | local | root | factory | inner
  deriving DecidableEq

structure EnvironmentNode where
  envId : String
  parentEnvId : Option String
  scopeType : ScopeType
  bindings : InsertionMap String Binding
  /-- The identifiers of the tables, in the order of their allocation. -/
  allocatedTables : List String

def EnvironmentNode.addBinding (env : EnvironmentNode) (binding : Binding) : EnvironmentNode :=
  { env with bindings := env.bindings.set binding.bindingId binding }

inductive ClosureKind where
  | sourceClosure | vmHelperClosure | runtimeWrapper | unknownClosure
  deriving DecidableEq

structure ClosureNode where
  closureId : String
  closureKind : ClosureKind
  environmentId : Option String

structure CallEdge where
  invocationId : String
  callee : String
  args : List Recorded
  returnedValues : List Recorded
  returnArity : Option Double

/-- The constructor: the returned values stand in for an arity that is not given. -/
def CallEdge.create (invocationId callee : String) (args returnedValues : List Recorded)
    (returnArity : Option Double) : CallEdge :=
  ⟨invocationId, callee, args, returnedValues,
    returnArity.or (if returnedValues.isEmpty then none else some (.ofRat returnedValues.length))⟩

structure EnvironmentGraph where
  environments : InsertionMap String EnvironmentNode
  closures : InsertionMap String ClosureNode
  calls : List CallEdge

namespace EnvironmentGraph

def empty : EnvironmentGraph := ⟨.empty, .empty, []⟩

def addEnvironment (g : EnvironmentGraph) (env : EnvironmentNode) : EnvironmentGraph :=
  { g with environments := g.environments.set env.envId env }

def addClosure (g : EnvironmentGraph) (closure : ClosureNode) : EnvironmentGraph :=
  { g with closures := g.closures.set closure.closureId closure }

def addCall (g : EnvironmentGraph) (call : CallEdge) : EnvironmentGraph :=
  { g with calls := g.calls++[call] }

def environmentNodes (g : EnvironmentGraph) : List EnvironmentNode :=
  g.environments.entries.map Prod.snd

/-- The source closures that are made in an environment. -/
def sourceClosures (g : EnvironmentGraph) (envId : String) : List ClosureNode :=
  (g.closures.entries.map Prod.snd).filter
    (fun c => c.closureKind = .sourceClosure ∧ c.environmentId = some envId)

def factoryClosures (g : EnvironmentGraph) : List ClosureNode := g.sourceClosures "E0"

/-- The environment of every factory: the search does not look at the factory. -/
def factoryEnv (g : EnvironmentGraph) : Option EnvironmentNode :=
  g.environmentNodes.find? (fun e => e.parentEnvId = some "E0" ∧ e.scopeType = .factory)

end EnvironmentGraph

/-- The operations of the lifted blocks; `none` is a value list that is no array. -/
inductive LiftedOp : Type where
  | multiReturn (values : Option (List Recorded))
  | other

/-- The blocks of the map, or no map. -/
abbrev LiftedBlocks := Option (List (List LiftedOp))

/-- What stops the emission: a rejection, or an exception. -/
inductive Failure where
  | emptySemanticGraph
  | rootEnvironmentEmpty
  | multireturnArityUnproven
  | referenceError
  | rangeError
  deriving DecidableEq

def Failure.thrown : Failure → Bool
  | referenceError => true
  | rangeError => true
  | _ => false

section Arities

/-- JavaScript's truth of an optional number. -/
def truthy : Option Double → Bool
  | some (.finite q _) => q ≠ 0
  | some (.infinity _) => true
  | _ => false

/-- `Math.max(current || 0, x)`, for an `x` that is a number. -/
def maxArity (current : Option Double) (x : Double) : Double :=
  match current with
  | some a => if truthy (some a) && x.lt a then a else x
  | none => x

/-- The recorded arity of a call, where it is above zero. -/
def CallEdge.positiveArity (call : CallEdge) : Option Double :=
  call.returnArity.filter (fun x => Double.lt (.ofRat 0) x)

/-- The largest recorded arity among the calls of a closure. -/
def recordedArity (calls : List CallEdge) (closureId : String) : Option Double :=
  ((calls.filter (·.callee = closureId)).filterMap CallEdge.positiveArity).foldl
    (fun a x => some (maxArity a x)) none

/-- The lengths of the multiple returns of the lifted blocks. -/
def multiReturnLengths (lifted : LiftedBlocks) : List ℕ :=
  (lifted.getD []).flatten.filterMap (fun op =>
    match op with
    | .multiReturn (some values) => some values.length
    | _ => none)

def liftedArity (arity : Option Double) (lengths : List ℕ) : Option Double :=
  lengths.foldl (fun a n => some (maxArity a (.ofRat n))) arity

/-- The arity that a closure is emitted with. -/
def closureReturnArity (g : EnvironmentGraph) (lifted : LiftedBlocks) (closureId : String) :
    Option Double :=
  let arity := recordedArity g.calls closureId
  if truthy arity then arity else liftedArity arity (multiReturnLengths lifted)

/-- The arity that a call is emitted with, before the read of `closureReturnArity`. -/
def CallEdge.resolvedArity (call : CallEdge) (lifted : LiftedBlocks) : Option Double :=
  let arity :=
    if !truthy call.returnArity && !call.returnedValues.isEmpty
      then some (.ofRat call.returnedValues.length) else call.returnArity
  if truthy arity then arity else liftedArity arity ((multiReturnLengths lifted).filter (0 < ·))

/-- `Number.isInteger(x) && x > 0`, with the integer. -/
def positiveInteger : Double → Option ℕ
  | .finite q _ => if q.den = 1 ∧ 0 < q then some q.num.toNat else none
  | _ => none

/-- The number of values for an arity. An array holds fewer than `2^32` of them. -/
def valueCount (arity : Option Double) : Except Failure ℕ :=
  match arity.bind positiveInteger with
  | none => .error .multireturnArityUnproven
  | some n => if n < 4294967296 then .ok n else .error .rangeError

/-- The names that a call binds. `closureReturnArity` is not in scope where it is read. -/
def CallEdge.nameCount (call : CallEdge) (lifted : LiftedBlocks) : Except Failure ℕ :=
  if call.callee = "C_FACTORY" then .ok 1
  else if truthy (call.resolvedArity lifted) then valueCount (call.resolvedArity lifted)
  else .error .referenceError

end Arities

/-- The names handed out so far. -/
structure Names where
  identCounter : ℕ
  bindingVarMap : InsertionMap String String
  closureVarMap : InsertionMap String String
  instanceVarName : Option String

def Names.initial : Names := ⟨0, .empty, .empty, none⟩

def Names.nextIdent (names : Names) (stem : String) : String × Names :=
  (stem ++ toString (names.identCounter+1), { names with identCounter := names.identCounter+1 })

/-- The display name that the naming mode keeps: the empty text counts as none. -/
def preservedName (preserved : Bool) (displayName : Option String) : Option String :=
  if preserved then displayName.filter (· ≠ "") else none

def Names.identFor (names : Names) (preserved : Bool) (displayName : Option String)
    (stem : String) : String × Names :=
  match preservedName preserved displayName with
  | some name => (name, names)
  | none => names.nextIdent stem

def Names.bind (names : Names) (id name : String) : Names :=
  { names with bindingVarMap := names.bindingVarMap.set id name }

section Emission
variable [Host]

def createLiteral : Recorded → Expr Double
  | .string s => .stringLiteral (s.toList.flatMap ByteString.latin1)
  | .number x => .numericLiteral x (LuaNumber.text x)
  | .boolean b => .booleanLiteral b
  | .null => .nilLiteral
  | .other text => .stringLiteral (text.toList.flatMap ByteString.latin1)

/-- `createLiteral(b.initialValue ?? 0)`. -/
def cellLiteral : Recorded → Expr Double
  | .null => createLiteral (.number (.ofRat 0))
  | value => createLiteral value

def numeral (n : ℕ) : Expr Double := .numericLiteral (.ofRat n) (toString n)

/-- Statements, and the name that the last of them declares. -/
structure Declarations where
  names : Names
  last : Option String
  statements : Block Double

/-- A root binding. -/
def declareRoot (preserved : Bool) (d : Declarations) (entry : String × Binding) : Declarations :=
  let named := d.names.identFor preserved entry.2.displayName "v"
  ⟨named.2.bind entry.1 named.1, some named.1,
    d.statements++[.localStatement [.identifier named.1] [createLiteral entry.2.initialValue]]⟩

/-- The table that packs the variable arguments. Tables have no display name. -/
def declareTable (d : Declarations) (tableId : String) : Declarations :=
  let named := d.names.nextIdent "t"
  ⟨named.2.bind tableId named.1, some named.1, d.statements++[.localStatement
    [.identifier named.1] [.tableConstructor [.tableValue (.varargLiteral false)]]]⟩

/-- The mutable cells among the bindings of the factory. -/
def declareCell (preserved : Bool) (d : Declarations) (entry : String × Binding) : Declarations :=
  if entry.2.storage = .mutableCell then
    let named := d.names.identFor preserved entry.2.displayName "c"
    ⟨named.2.bind entry.1 named.1, some named.1,
      d.statements++[.localStatement [.identifier named.1] [cellLiteral entry.2.initialValue]]⟩
  else d

/-- What the inner closures of a factory refer to. -/
structure Captured where
  root : String
  table : Option String
  cell : Option String

/-- A lifted closure, with the function that it becomes. -/
structure EmittedClosure where
  closureId : String
  param : String
  body : Block Double

def EmittedClosure.statement (c : EmittedClosure) : Stmt Double :=
  .returnStatement [.functionExpression [.identifier c.param] false c.body]

/-- The returned values of the branch that reads the table at the index. -/
def branchValues (captured : Captured) (param : String) (index arity : ℕ) : List (Expr Double) :=
  let values : List (Expr Double) :=
    [.identifier captured.root,
      .indexExpression (.identifier (captured.table.getD "t1")) (numeral index),
      .identifier param]
  let cells := List.replicate (arity-3) (.identifier (captured.cell.getD "c1"))
  (values++cells).take (max 1 arity)

def increment (cell : String) : Stmt Double :=
  .assignmentStatement [.identifier cell]
    [.binaryExpression .add (.identifier cell) (numeral 1)]

def innerBody (captured : Captured) (param : String) (arity : ℕ) : Block Double :=
  (captured.cell.map increment).toList ++
    [.ifStatement
      [.mk (.binaryExpression .eq (.identifier (captured.cell.getD "c1")) (numeral 1))
        [.returnStatement (branchValues captured param 1 arity)]]
      (some [.returnStatement (branchValues captured param 2 arity)])]

/-- An inner closure. The graph records no names of closures or their parameters. -/
def emitInner (g : EnvironmentGraph) (lifted : LiftedBlocks) (table cell : Option String)
    (names : Names) (inner : ClosureNode) : Except Failure (EmittedClosure × Names) :=
  let named := names.nextIdent "p"
  let captured : Captured := ⟨(names.bindingVarMap.get "B_PREFIX").getD "v1", table, cell⟩
  match valueCount (closureReturnArity g lifted inner.closureId) with
  | .error e => .error e
  | .ok arity => .ok (⟨inner.closureId, named.1, innerBody captured named.1 arity⟩, named.2)

structure EmittedFactory where
  closureId : String
  name : String
  declarations : Block Double
  inner : List EmittedClosure

def EmittedFactory.body (f : EmittedFactory) : Block Double :=
  f.declarations ++ f.inner.map EmittedClosure.statement

def EmittedFactory.statement (f : EmittedFactory) : Stmt Double :=
  .localFunctionStatement (.identifier f.name) [] true f.body

def emitFactory (preserved : Bool) (g : EnvironmentGraph) (lifted : LiftedBlocks)
    (env : EnvironmentNode) (names : Names) (factory : ClosureNode) :
    Except Failure (EmittedFactory × Names) :=
  let named := names.nextIdent "fn"
  let called : Names :=
    { named.2 with closureVarMap := named.2.closureVarMap.set factory.closureId named.1 }
  let tables := env.allocatedTables.foldl declareTable ⟨called, none, []⟩
  let cells := env.bindings.entries.foldl (declareCell preserved) ⟨tables.names, none, []⟩
  match traverse (emitInner g lifted tables.last cells.last) cells.names
      (g.sourceClosures env.envId) with
  | .error e => .error e
  | .ok inner =>
      .ok (⟨factory.closureId, named.1, tables.statements++cells.statements, inner.1⟩, inner.2)

def emitFactories (preserved : Bool) (g : EnvironmentGraph) (lifted : LiftedBlocks)
    (names : Names) : Except Failure (List EmittedFactory × Names) :=
  match g.factoryEnv with
  | none => .ok ([], names)
  | some env => traverse (emitFactory preserved g lifted env) names g.factoryClosures

/-- A call of the graph, with the names that its statement binds. -/
structure EmittedCall where
  edge : CallEdge
  base : String
  results : List String

def EmittedCall.isFactoryCall (c : EmittedCall) : Bool := c.edge.callee = "C_FACTORY"

/-- The results that are printed: those of the calls that are none of the factory. -/
def EmittedCall.printed (c : EmittedCall) : List String :=
  if c.isFactoryCall then [] else c.results

def EmittedCall.statements (c : EmittedCall) : Block Double :=
  .localStatement (c.results.map .identifier)
      [.callExpression (.identifier c.base) (c.edge.args.map createLiteral) false] ::
    c.printed.map (fun r =>
      .callStatement (.callExpression (.identifier "print") [.identifier r] false))

/-- The names of the results of a call, as `Array.from` numbers them. -/
def Names.resultIdents (names : Names) (count : ℕ) : List String :=
  (List.range count).map (fun i => "r" ++ toString (names.identCounter+1+i))

def emitCall (lifted : LiftedBlocks) (names : Names) (call : CallEdge) :
    Except Failure (EmittedCall × Names) :=
  if call.callee = "C_FACTORY" then
    let named := names.nextIdent "inst"
    .ok (⟨call, (names.closureVarMap.get call.callee).getD "fn1", [named.1]⟩,
      { named.2 with instanceVarName := some named.1 })
  else
    match call.nameCount lifted with
    | .error e => .error e
    | .ok count =>
        .ok (⟨call, names.instanceVarName.getD "inst1", names.resultIdents count⟩,
          { names with identCounter := names.identCounter+count })

/-- The statements of an emitted chunk, by what they are emitted for. -/
structure Emission where
  roots : Block Double
  factories : List EmittedFactory
  calls : List EmittedCall

def Emission.ast (e : Emission) : Chunk Double :=
  ⟨e.roots ++ e.factories.map EmittedFactory.statement ++ e.calls.flatMap EmittedCall.statements⟩

def emitTree (preserved : Bool) (g : EnvironmentGraph) (lifted : LiftedBlocks)
    (env0 : EnvironmentNode) : Except Failure Emission :=
  let roots := env0.bindings.entries.foldl (declareRoot preserved) ⟨.initial, none, []⟩
  match emitFactories preserved g lifted roots.names with
  | .error e => .error e
  | .ok factories =>
      match traverse (emitCall lifted) factories.2 g.calls with
      | .error e => .error e
      | .ok calls => .ok ⟨roots.statements, factories.1, calls.1⟩

/-- `emit`, for the graph that it is given. -/
def emit (preserved : Bool) (g : EnvironmentGraph) (lifted : LiftedBlocks) :
    Except Failure Emission :=
  if g.environments.size = 0 then .error .emptySemanticGraph
  else
    match g.environments.get "E0" with
    | none => .error .rootEnvironmentEmpty
    | some env0 =>
        if env0.bindings.size = 0 then .error .rootEnvironmentEmpty
        else emitTree preserved g lifted env0

/-- What the caller gets: an exception, or a chunk, which a rejection leaves empty. -/
structure Output where
  ast : Chunk Double
  complete : Bool
  reason : Option Failure

def output : Except Failure Emission → Except Failure Output
  | .ok e => .ok ⟨e.ast, !e.ast.body.isEmpty, none⟩
  | .error f => if f.thrown then .error f else .ok ⟨⟨[]⟩, false, some f⟩

end Emission

section Contract

/-- The numbers of values that the body of an emitted function can return. -/
inductive Returns : Block Double → ℕ → Prop where
  | done : Returns [] 0
  | values {args : List (Expr Double)} (rest : Block Double)
      (single : ∀ a ∈ args, a.isMulti = false) : Returns (.returnStatement args::rest) args.length
  | localStatement (vars init : List (Expr Double)) {rest : Block Double} {n : ℕ}
      (h : Returns rest n) : Returns (.localStatement vars init::rest) n
  | assignment (vars init : List (Expr Double)) {rest : Block Double} {n : ℕ}
      (h : Returns rest n) : Returns (.assignmentStatement vars init::rest) n
  | thenBranch (condition : Expr Double) (elseBody rest : Block Double) {body : Block Double}
      {n : ℕ} (h : Returns body n) :
      Returns (.ifStatement [.mk condition body] (some elseBody)::rest) n
  | elseBranch (condition : Expr Double) (body rest : Block Double) {elseBody : Block Double}
      {n : ℕ} (h : Returns elseBody n) :
      Returns (.ifStatement [.mk condition body] (some elseBody)::rest) n

/-- The closures that a chunk holds, with the bodies of their functions. -/
def Emission.functions (e : Emission) : List (String × Block Double) :=
  e.factories.flatMap (fun f =>
    (f.closureId, f.body) :: f.inner.map (fun i => (i.closureId, i.body)))

/-- Each call binds as many names as its closure returns values. -/
def ArityConsistent (e : Emission) : Prop :=
  ∀ c ∈ e.calls, ∀ f ∈ e.functions, f.1 = c.edge.callee →
    ∀ n, Returns f.2 n ↔ n = c.results.length

/-- The instance that is called and the results that are printed are declared before. -/
def UsesDeclared (declared : List String) : List EmittedCall → Prop
  | [] => True
  | c::calls => (c.isFactoryCall = false → c.base ∈ declared) ∧
      (∀ r ∈ c.printed, r ∈ declared++c.results) ∧ UsesDeclared (declared++c.results) calls

/-- A chunk comes out, and then a consistent one, or a rejection without statements. -/
def TotalAndConsistent (result : Except Failure Emission) : Prop :=
  match result with
  | .ok e => ArityConsistent e ∧ UsesDeclared [] e.calls
  | .error f => f.thrown = false

end Contract

section Condition

namespace EnvironmentGraph

def emittedFactories (g : EnvironmentGraph) : List ClosureNode :=
  if g.factoryEnv.isSome then g.factoryClosures else []

def emittedInner (g : EnvironmentGraph) : List ClosureNode :=
  match g.factoryEnv with
  | some env => if g.factoryClosures.isEmpty then [] else g.sourceClosures env.envId
  | none => []

/-- There is no root environment with a binding. -/
def Rootless (g : EnvironmentGraph) : Prop :=
  ∀ env0, g.environments.get "E0" = some env0 → env0.bindings.size = 0

end EnvironmentGraph

def failure? (count : Except Failure ℕ) : Option Failure :=
  match count with
  | .ok _ => none
  | .error f => some f

/-- The first arity that is no positive integer below `2^32`, closures first. -/
def firstFailure (g : EnvironmentGraph) (lifted : LiftedBlocks) : Option Failure :=
  (g.emittedInner.findSome?
      (fun c => failure? (valueCount (closureReturnArity g lifted c.closureId)))).or
    (g.calls.findSome? (fun call => failure? (call.nameCount lifted)))

/-- A call has the arity of its closure; a factory returns its first inner closure, if any. -/
def CallsAgree (g : EnvironmentGraph) (lifted : LiftedBlocks) : Prop :=
  ∀ call ∈ g.calls,
    (∀ f ∈ g.emittedFactories, f.closureId = call.callee →
      call.nameCount lifted = .ok (if g.emittedInner.isEmpty then 0 else 1)) ∧
    (∀ i ∈ g.emittedInner, i.closureId = call.callee →
      call.nameCount lifted = valueCount (closureReturnArity g lifted i.closureId))

def FactoryFirst (g : EnvironmentGraph) : Prop :=
  ∀ call ∈ g.calls.head?, call.callee = "C_FACTORY"

/-- What the emitter needs of a graph. -/
def Emittable (g : EnvironmentGraph) (lifted : LiftedBlocks) : Prop :=
  g.Rootless ∨ firstFailure g lifted = some .multireturnArityUnproven ∨
    firstFailure g lifted = none ∧ CallsAgree g lifted ∧ FactoryFirst g

end Condition

theorem failure?_eq_some {count : Except Failure ℕ} {f : Failure} :
    failure? count = some f ↔ count = .error f := by
  cases count <;> simp [failure?]

theorem failure?_eq_none {count : Except Failure ℕ} :
    failure? count = none ↔ ∃ n, count = .ok n := by
  cases count <;> simp [failure?]

theorem valueCount_pos {arity : Option Double} {n : ℕ} (h : valueCount arity = .ok n) : 0 < n := by
  unfold valueCount at h
  cases hx : arity.bind positiveInteger with
  | none => simp [hx] at h
  | some m =>
    rw [hx] at h
    obtain ⟨x, -, hx⟩ := Option.bind_eq_some_iff.mp hx
    have hm : 0 < m := by
      cases x with
      | finite q hq =>
        simp only [positiveInteger] at hx
        split_ifs at hx with hpos
        have hnum : 0 < q.num := Rat.num_pos.mpr hpos.2
        have heq := Option.some.inj hx
        omega
      | infinity negative => simp [positiveInteger] at hx
      | nan => simp [positiveInteger] at hx
    dsimp only at h
    split_ifs at h
    cases h
    exact hm

section Bodies

theorem length_branchValues (captured : Captured) (param : String) (index : ℕ) {arity : ℕ}
    (h : 0 < arity) : (branchValues captured param index arity).length = arity := by
  simp only [branchValues, List.length_take, List.length_append, List.length_cons,
    List.length_nil, List.length_replicate]
  omega

theorem branchValues_single (captured : Captured) (param : String) (index arity : ℕ) :
    ∀ a ∈ branchValues captured param index arity, a.isMulti = false := by
  intro a ha
  have hmem := List.mem_of_mem_take ha
  simp only [List.mem_append, List.mem_cons, List.not_mem_nil, or_false,
    List.mem_replicate] at hmem
  rcases hmem with (rfl | rfl | rfl) | ⟨-, rfl⟩
  · rfl
  · rfl
  · rfl
  · rfl

theorem returns_returnStatement {args : List (Expr Double)} {rest : Block Double} {n : ℕ}
    (h : ∀ a ∈ args, a.isMulti = false) :
    Returns (.returnStatement args::rest) n ↔ n = args.length := by
  constructor
  · intro hr
    cases hr
    rfl
  · rintro rfl
    exact .values rest h

theorem returns_localStatement {vars init : List (Expr Double)} {rest : Block Double} {n : ℕ} :
    Returns (.localStatement vars init::rest) n ↔ Returns rest n := by
  constructor
  · intro hr
    cases hr with
    | localStatement _ _ h => exact h
  · exact .localStatement vars init

theorem returns_increment {cell : String} {rest : Block Double} {n : ℕ} :
    Returns (increment cell::rest) n ↔ Returns rest n := by
  constructor
  · intro hr
    cases hr with
    | assignment _ _ h => exact h
  · exact .assignment _ _

/-- Both branches of an inner closure return the values of its arity. -/
theorem returns_innerBody (captured : Captured) (param : String) {arity : ℕ} (h : 0 < arity)
    (n : ℕ) : Returns (innerBody captured param arity) n ↔ n = arity := by
  have hif (rest : Block Double) (condition : Expr Double) :
      Returns (.ifStatement
        [.mk condition [.returnStatement (branchValues captured param 1 arity)]]
        (some [.returnStatement (branchValues captured param 2 arity)])::rest) n ↔ n = arity := by
    constructor
    · intro hr
      cases hr with
      | thenBranch _ _ _ hb =>
        rw [returns_returnStatement (branchValues_single captured param 1 arity)] at hb
        rw [hb, length_branchValues captured param 1 h]
      | elseBranch _ _ _ hb =>
        rw [returns_returnStatement (branchValues_single captured param 2 arity)] at hb
        rw [hb, length_branchValues captured param 2 h]
    · intro hn
      apply Returns.thenBranch
      rw [returns_returnStatement (branchValues_single captured param 1 arity),
        length_branchValues captured param 1 h]
      exact hn
  rw [innerBody]
  cases captured.cell with
  | none => exact hif _ _
  | some cell =>
    show Returns (increment cell::_) n ↔ n = arity
    rw [returns_increment]
    exact hif _ _

/-- A body that declares locals only runs on to what follows. -/
theorem returns_append_locals {locals : Block Double}
    (h : ∀ s ∈ locals, ∃ vars init, s = .localStatement vars init) (rest : Block Double) (n : ℕ) :
    Returns (locals++rest) n ↔ Returns rest n := by
  induction locals with
  | nil => rfl
  | cons s locals ih =>
    obtain ⟨vars, init, rfl⟩ := h s (by simp)
    rw [List.cons_append, returns_localStatement]
    exact ih fun s' hs' => h s' (by simp [hs'])

theorem returns_factory {f : EmittedFactory}
    (h : ∀ s ∈ f.declarations, ∃ vars init, s = .localStatement vars init) (n : ℕ) :
    Returns f.body n ↔ n = if f.inner.isEmpty then 0 else 1 := by
  rw [EmittedFactory.body, returns_append_locals h]
  cases hi : f.inner with
  | nil =>
    constructor
    · intro hr
      cases hr
      rfl
    · rintro rfl
      exact .done
  | cons i inner =>
    rw [List.map_cons, EmittedClosure.statement, returns_returnStatement]
    · simp
    · simp [Expr.isMulti]

end Bodies

section Spec
variable [Host]

/-- What an emitted function has to do with its closure. -/
def InnerOf (g : EnvironmentGraph) (lifted : LiftedBlocks) (c : ClosureNode)
    (i : EmittedClosure) : Prop :=
  i.closureId = c.closureId ∧ ∃ arity,
    valueCount (closureReturnArity g lifted c.closureId) = .ok arity ∧
      ∀ n, Returns i.body n ↔ n = arity

omit [Host] in
theorem emitInner_error (g : EnvironmentGraph) (lifted : LiftedBlocks)
    (table cell : Option String) (names : Names) (c : ClosureNode) (f : Failure) :
    emitInner g lifted table cell names c = .error f ↔
      failure? (valueCount (closureReturnArity g lifted c.closureId)) = some f := by
  unfold emitInner
  cases valueCount (closureReturnArity g lifted c.closureId) with
  | error f' => simp [failure?]
  | ok arity => simp [failure?]

omit [Host] in
theorem emitInner_ok {g : EnvironmentGraph} {lifted : LiftedBlocks} {table cell : Option String}
    {names : Names} {c : ClosureNode} {r : EmittedClosure × Names}
    (h : emitInner g lifted table cell names c = .ok r) : InnerOf g lifted c r.1 := by
  unfold emitInner at h
  cases hcount : valueCount (closureReturnArity g lifted c.closureId) with
  | error f => simp [hcount] at h
  | ok arity =>
    rw [hcount] at h
    cases h
    exact ⟨rfl, arity, hcount, returns_innerBody _ _ (valueCount_pos hcount)⟩

/-- The declarations of a factory are local statements. -/
def OnlyLocals (locals : Block Double) : Prop :=
  ∀ s ∈ locals, ∃ vars init, s = .localStatement vars init

omit [Host] in
theorem onlyLocals_concat {locals : Block Double} (h : OnlyLocals locals)
    (vars init : List (Expr Double)) : OnlyLocals (locals++[.localStatement vars init]) := by
  intro s hs
  rcases List.mem_append.mp hs with hs | hs
  · exact h s hs
  · exact ⟨vars, init, List.mem_singleton.mp hs⟩

omit [Host] in
theorem onlyLocals_tables (tables : List String) (d : Declarations) (h : OnlyLocals d.statements) :
    OnlyLocals (tables.foldl declareTable d).statements := by
  induction tables generalizing d with
  | nil => exact h
  | cons tableId tables ih => exact ih _ (onlyLocals_concat h _ _)

theorem onlyLocals_cells (preserved : Bool) (entries : List (String × Binding)) (d : Declarations)
    (h : OnlyLocals d.statements) :
    OnlyLocals (entries.foldl (declareCell preserved) d).statements := by
  induction entries generalizing d with
  | nil => exact h
  | cons entry entries ih =>
    apply ih
    unfold declareCell
    split_ifs with hcell
    · exact onlyLocals_concat h _ _
    · exact h

def FactoryOf (g : EnvironmentGraph) (lifted : LiftedBlocks) (inner : List ClosureNode)
    (c : ClosureNode) (f : EmittedFactory) : Prop :=
  f.closureId = c.closureId ∧ OnlyLocals f.declarations ∧
    List.Forall₂ (InnerOf g lifted) inner f.inner

theorem emitFactory_error (preserved : Bool) (g : EnvironmentGraph) (lifted : LiftedBlocks)
    (env : EnvironmentNode) (names : Names) (c : ClosureNode) (f : Failure) :
    emitFactory preserved g lifted env names c = .error f ↔
      (g.sourceClosures env.envId).findSome?
        (fun i => failure? (valueCount (closureReturnArity g lifted i.closureId))) = some f := by
  unfold emitFactory
  dsimp only
  rw [← traverse_eq_error_iff (emitInner_error g lifted _ _)]
  split
  · rename_i f' hf'
    rw [hf']
    simp
  · rename_i inner hinner
    rw [hinner]
    simp

theorem emitFactory_ok {preserved : Bool} {g : EnvironmentGraph} {lifted : LiftedBlocks}
    {env : EnvironmentNode} {names : Names} {c : ClosureNode} {r : EmittedFactory × Names}
    (h : emitFactory preserved g lifted env names c = .ok r) :
    FactoryOf g lifted (g.sourceClosures env.envId) c r.1 := by
  unfold emitFactory at h
  dsimp only at h
  split at h
  · exact nomatch h
  · rename_i inner hinner
    have hall : List.Forall₂ (InnerOf g lifted) (g.sourceClosures env.envId) inner.1 :=
      traverse_forall₂ (fun _ _ _ hr => emitInner_ok hr) hinner
    have heq := Except.ok.inj h
    rw [← heq]
    refine ⟨rfl, ?_, hall⟩
    intro s hs
    rcases List.mem_append.mp hs with hs | hs
    · exact onlyLocals_tables _ _ (by simp [OnlyLocals]) s hs
    · exact onlyLocals_cells _ _ _ (by simp [OnlyLocals]) s hs

theorem emitFactories_error (preserved : Bool) (g : EnvironmentGraph) (lifted : LiftedBlocks)
    (names : Names) (f : Failure) :
    emitFactories preserved g lifted names = .error f ↔
      g.emittedInner.findSome?
        (fun i => failure? (valueCount (closureReturnArity g lifted i.closureId))) = some f := by
  unfold emitFactories EnvironmentGraph.emittedInner
  cases g.factoryEnv with
  | none => simp
  | some env =>
    dsimp only
    rw [traverse_eq_error_iff (emitFactory_error preserved g lifted env)]
    cases g.factoryClosures with
    | nil => simp
    | cons c closures =>
      rw [List.findSome?_cons]
      simp only [List.isEmpty_cons, Bool.false_eq_true, if_false]
      cases hfirst : (g.sourceClosures env.envId).findSome?
          (fun i => failure? (valueCount (closureReturnArity g lifted i.closureId))) with
      | none =>
        have hrest : closures.findSome? (fun _ => (none : Option Failure)) = none :=
          List.findSome?_eq_none_iff.mpr (by simp)
        simp [hrest]
      | some f' => simp

theorem emitFactories_ok {preserved : Bool} {g : EnvironmentGraph} {lifted : LiftedBlocks}
    {names : Names} {r : List EmittedFactory × Names}
    (h : emitFactories preserved g lifted names = .ok r) :
    List.Forall₂ (FactoryOf g lifted g.emittedInner) g.emittedFactories r.1 := by
  unfold emitFactories at h
  unfold EnvironmentGraph.emittedInner EnvironmentGraph.emittedFactories
  cases henv : g.factoryEnv with
  | none =>
    rw [henv] at h
    cases h
    exact .nil
  | some env =>
    rw [henv] at h
    have hall : List.Forall₂ (FactoryOf g lifted (g.sourceClosures env.envId)) g.factoryClosures
        r.1 := traverse_forall₂ (fun _ _ _ hr => emitFactory_ok hr) h
    cases hf : g.factoryClosures with
    | nil =>
      rw [hf, List.forall₂_nil_left_iff] at hall
      rw [hall]
      exact .nil
    | cons c closures =>
      rw [hf] at hall
      exact hall

/-- A call is emitted with the names it needs. -/
def CallOf (lifted : LiftedBlocks) (call : CallEdge) (c : EmittedCall) : Prop :=
  c.edge = call ∧ call.nameCount lifted = .ok c.results.length

omit [Host] in
theorem emitCall_error (lifted : LiftedBlocks) (names : Names) (call : CallEdge) (f : Failure) :
    emitCall lifted names call = .error f ↔ failure? (call.nameCount lifted) = some f := by
  unfold emitCall
  by_cases hfactory : call.callee = "C_FACTORY"
  · simp [CallEdge.nameCount, hfactory, failure?]
  · rw [if_neg hfactory]
    cases call.nameCount lifted with
    | error f' => simp [failure?]
    | ok count => simp [failure?]

omit [Host] in
theorem emitCall_ok {lifted : LiftedBlocks} {names : Names} {call : CallEdge}
    {r : EmittedCall × Names} (h : emitCall lifted names call = .ok r) :
    CallOf lifted call r.1 := by
  unfold emitCall at h
  split_ifs at h with hfactory
  · cases h
    exact ⟨rfl, by rw [CallEdge.nameCount, if_pos hfactory]; rfl⟩
  · cases hcount : call.nameCount lifted with
    | error f => simp [hcount] at h
    | ok count =>
      rw [hcount] at h
      cases h
      exact ⟨rfl, by simp [Names.resultIdents, hcount]⟩

omit [Host] in
/-- The instance, once there is one, is declared wherever the emission goes on. -/
theorem usesDeclared_of_instance {lifted : LiftedBlocks} {names : Names} {calls : List CallEdge}
    {out : List EmittedCall × Names} (h : traverse (emitCall lifted) names calls = .ok out)
    {declared : List String} {name : String} (hname : names.instanceVarName = some name)
    (hdeclared : name ∈ declared) : UsesDeclared declared out.1 := by
  have hall : ∀ declared name, names.instanceVarName = some name → name ∈ declared →
      UsesDeclared declared out.1 := by
    apply traverse_induction (P := fun names out => ∀ declared name,
      names.instanceVarName = some name → name ∈ declared → UsesDeclared declared out) _ _ h
    · intro _ _ _ _ _
      trivial
    · intro names call r rest hr ih declared name hname hdeclared
      unfold emitCall at hr
      split_ifs at hr with hfactory
      · cases hr
        refine ⟨?_, ?_, ih _ _ rfl (by simp)⟩
        · intro hno
          simp [EmittedCall.isFactoryCall, hfactory] at hno
        · intro r hr
          simp [EmittedCall.printed, EmittedCall.isFactoryCall, hfactory] at hr
      · cases hcount : call.nameCount lifted with
        | error f => simp [hcount] at hr
        | ok count =>
          rw [hcount] at hr
          cases hr
          refine ⟨?_, ?_, ih _ name hname (by simp [hdeclared])⟩
          · intro _
            rw [hname]
            exact hdeclared
          · intro r hr
            have hprinted : r ∈ names.resultIdents count := by
              simpa [EmittedCall.printed, EmittedCall.isFactoryCall, hfactory] using hr
            exact List.mem_append_right declared hprinted
  exact hall declared name hname hdeclared

end Spec

section Exactness
variable [Host]

omit [Host] in
theorem mem_functions {e : Emission} {f : String × Block Double} :
    f ∈ e.functions ↔ ∃ factory ∈ e.factories, f = (factory.closureId, factory.body) ∨
      ∃ i ∈ factory.inner, f = (i.closureId, i.body) := by
  simp only [Emission.functions, List.mem_flatMap, List.mem_cons, List.mem_map]
  constructor
  · rintro ⟨factory, hfactory, rfl | ⟨i, hi, rfl⟩⟩
    · exact ⟨factory, hfactory, .inl rfl⟩
    · exact ⟨factory, hfactory, .inr ⟨i, hi, rfl⟩⟩
  · rintro ⟨factory, hfactory, rfl | ⟨i, hi, rfl⟩⟩
    · exact ⟨factory, hfactory, .inl rfl⟩
    · exact ⟨factory, hfactory, .inr ⟨i, hi, rfl⟩⟩

omit [Host] in
/-- The number of values of a body is the number of names, or it is not. -/
theorem returns_names_iff {body : Block Double} {k : ℕ} (h : ∀ n, Returns body n ↔ n = k) (m : ℕ) :
    (∀ n, Returns body n ↔ n = m) ↔ m = k := by
  constructor
  · intro hm
    exact (h m).mp ((hm m).mpr rfl)
  · rintro rfl
    exact h

omit [Host] in
theorem emittedInner_nil {g : EnvironmentGraph} (h : g.emittedFactories = []) :
    g.emittedInner = [] := by
  unfold EnvironmentGraph.emittedFactories at h
  unfold EnvironmentGraph.emittedInner
  cases henv : g.factoryEnv with
  | none => rfl
  | some env =>
    have hnil : g.factoryClosures = [] := by simpa [henv] using h
    simp [hnil]

omit [Host] in
theorem returns_factoryOf {g : EnvironmentGraph} {lifted : LiftedBlocks} {c : ClosureNode}
    {f : EmittedFactory} (h : FactoryOf g lifted g.emittedInner c f) (n : ℕ) :
    Returns f.body n ↔ n = if g.emittedInner.isEmpty then 0 else 1 := by
  obtain ⟨-, hlocals, hinner⟩ := h
  have hempty : f.inner.isEmpty = g.emittedInner.isEmpty := by
    generalize g.emittedInner = nodes, f.inner = inner at hinner
    cases hinner with
    | nil => rfl
    | cons _ _ => rfl
  rw [returns_factory hlocals, hempty]

omit [Host] in
theorem arityConsistent_iff {g : EnvironmentGraph} {lifted : LiftedBlocks} {e : Emission}
    (hfactories : List.Forall₂ (FactoryOf g lifted g.emittedInner) g.emittedFactories e.factories)
    (hcalls : List.Forall₂ (CallOf lifted) g.calls e.calls) :
    ArityConsistent e ↔ CallsAgree g lifted := by
  constructor
  · intro h call hcall
    obtain ⟨c, hc, rfl, hcount⟩ := forall₂_exists_right hcalls hcall
    constructor
    · intro f hf hid
      obtain ⟨factory, hfactory, hof⟩ := forall₂_exists_right hfactories hf
      have hreturns := h c hc (factory.closureId, factory.body)
        (mem_functions.mpr ⟨factory, hfactory, .inl rfl⟩) (hof.1.trans hid)
      rw [hcount, (returns_names_iff (returns_factoryOf hof) _).mp hreturns]
    · intro i hi hid
      have hsome : g.emittedFactories ≠ [] := by
        intro hnil
        rw [emittedInner_nil hnil] at hi
        simp at hi
      obtain ⟨f, hf⟩ := List.exists_mem_of_ne_nil _ hsome
      obtain ⟨factory, hfactory, -, -, hinner⟩ := forall₂_exists_right hfactories hf
      obtain ⟨i', hi', hname, arity, harity, hbody⟩ := forall₂_exists_right hinner hi
      have hreturns := h c hc (i'.closureId, i'.body)
        (mem_functions.mpr ⟨factory, hfactory, .inr ⟨i', hi', rfl⟩⟩) (hname.trans hid)
      rw [hcount, harity, (returns_names_iff hbody _).mp hreturns]
  · intro h c hc f hf hid
    obtain ⟨call, hcall, rfl, hcount⟩ := forall₂_exists_left hcalls hc
    obtain ⟨hfactoryCount, hinnerCount⟩ := h c.edge hcall
    obtain ⟨factory, hfactory, rfl | ⟨i, hi, rfl⟩⟩ := mem_functions.mp hf
    · obtain ⟨closure, hclosure, hof⟩ := forall₂_exists_left hfactories hfactory
      rw [returns_names_iff (returns_factoryOf hof)]
      have heq := hfactoryCount closure hclosure (hof.1.symm.trans hid)
      rw [hcount] at heq
      exact Except.ok.inj heq
    · obtain ⟨closure, hclosure, -, -, hinner⟩ := forall₂_exists_left hfactories hfactory
      obtain ⟨node, hnode, hname, arity, harity, hbody⟩ := forall₂_exists_left hinner hi
      rw [returns_names_iff hbody]
      have heq := hinnerCount node hnode (hname.symm.trans hid)
      rw [hcount, harity] at heq
      exact Except.ok.inj heq

omit [Host] in
theorem usesDeclared_iff {g : EnvironmentGraph} {lifted : LiftedBlocks} {names : Names}
    {out : List EmittedCall × Names} (h : traverse (emitCall lifted) names g.calls = .ok out) :
    UsesDeclared [] out.1 ↔ FactoryFirst g := by
  unfold FactoryFirst
  cases hcalls : g.calls with
  | nil =>
    rw [hcalls] at h
    cases h
    simp [UsesDeclared]
  | cons call calls =>
    rw [hcalls] at h
    obtain ⟨r, rest, hr, hrest, rfl⟩ := traverse_cons_ok h
    have hedge : r.1.edge = call := (emitCall_ok hr).1
    by_cases hfactory : call.callee = "C_FACTORY"
    · rw [emitCall, if_pos hfactory] at hr
      cases hr
      have hlater : UsesDeclared [(names.nextIdent "inst").1] rest.1 :=
        usesDeclared_of_instance hrest rfl (by simp)
      simp only [List.head?_cons, Option.mem_some_iff, forall_eq', hfactory, iff_true]
      refine ⟨?_, ?_, hlater⟩
      · intro hno
        simp [EmittedCall.isFactoryCall, hfactory] at hno
      · intro result hresult
        simp [EmittedCall.printed, EmittedCall.isFactoryCall, hfactory] at hresult
    · simp only [List.head?_cons, Option.mem_some_iff, forall_eq', hfactory, iff_false]
      intro hdeclared
      have hno : r.1.isFactoryCall = false := by
        simp [EmittedCall.isFactoryCall, hedge, hfactory]
      exact absurd (hdeclared.1 hno) (by simp)

theorem emitTree_error {preserved : Bool} {g : EnvironmentGraph} {lifted : LiftedBlocks}
    {env0 : EnvironmentNode} {f : Failure} :
    emitTree preserved g lifted env0 = .error f ↔ firstFailure g lifted = some f := by
  unfold emitTree firstFailure
  dsimp only
  split
  · rename_i f' hf'
    rw [emitFactories_error] at hf'
    simp [hf']
  · rename_i factories hfactories
    have hnone : g.emittedInner.findSome?
        (fun i => failure? (valueCount (closureReturnArity g lifted i.closureId))) = none := by
      by_contra hsome
      obtain ⟨f', hf'⟩ := Option.ne_none_iff_exists'.mp hsome
      rw [(emitFactories_error preserved g lifted _ f').mpr hf'] at hfactories
      exact nomatch hfactories
    rw [hnone, Option.none_or, ← traverse_eq_error_iff (emitCall_error lifted) factories.2]
    split
    · rename_i f' hf'
      rw [hf']
      simp
    · rename_i calls hcalls
      rw [hcalls]
      simp

theorem emitTree_ok {preserved : Bool} {g : EnvironmentGraph} {lifted : LiftedBlocks}
    {env0 : EnvironmentNode} {e : Emission} (h : emitTree preserved g lifted env0 = .ok e) :
    (ArityConsistent e ↔ CallsAgree g lifted) ∧ (UsesDeclared [] e.calls ↔ FactoryFirst g) := by
  unfold emitTree at h
  dsimp only at h
  split at h
  · exact nomatch h
  · rename_i factories hfactories
    split at h
    · exact nomatch h
    · rename_i calls hcalls
      have heq := Except.ok.inj h
      rw [← heq]
      exact ⟨arityConsistent_iff (emitFactories_ok hfactories)
        (traverse_forall₂ (fun _ _ _ hr => emitCall_ok hr) hcalls), usesDeclared_iff hcalls⟩

omit [Host] in
theorem firstFailure_cases {g : EnvironmentGraph} {lifted : LiftedBlocks} {f : Failure}
    (h : firstFailure g lifted = some f) :
    f.thrown = false ↔ f = .multireturnArityUnproven := by
  have hcount : ∀ arity, valueCount arity = .error f →
      (f.thrown = false ↔ f = .multireturnArityUnproven) := by
    intro arity hf
    unfold valueCount at hf
    split at hf
    · cases hf
      simp [Failure.thrown]
    · split_ifs at hf
      cases hf
      simp [Failure.thrown]
  rcases Option.or_eq_some_iff.mp h with hinner | ⟨-, hcall⟩
  · obtain ⟨i, -, hi⟩ := List.exists_of_findSome?_eq_some hinner
    exact hcount _ (failure?_eq_some.mp hi)
  · obtain ⟨call, -, hc⟩ := List.exists_of_findSome?_eq_some hcall
    have hf := failure?_eq_some.mp hc
    unfold CallEdge.nameCount at hf
    split_ifs at hf
    · exact hcount _ hf
    · cases hf
      simp [Failure.thrown]

theorem emitTree_totalAndConsistent (preserved : Bool) (g : EnvironmentGraph)
    (lifted : LiftedBlocks) (env0 : EnvironmentNode) :
    TotalAndConsistent (emitTree preserved g lifted env0) ↔
      firstFailure g lifted = some .multireturnArityUnproven ∨
        firstFailure g lifted = none ∧ CallsAgree g lifted ∧ FactoryFirst g := by
  cases htree : emitTree preserved g lifted env0 with
  | error f =>
    have hfirst := emitTree_error.mp htree
    rw [hfirst]
    show f.thrown = false ↔ _
    rw [firstFailure_cases hfirst]
    simp
  | ok e =>
    have hnone : firstFailure g lifted = none := by
      by_contra hsome
      obtain ⟨f, hf⟩ := Option.ne_none_iff_exists'.mp hsome
      rw [emitTree_error.mpr hf] at htree
      exact nomatch htree
    obtain ⟨harity, hdeclared⟩ := emitTree_ok htree
    rw [hnone]
    show ArityConsistent e ∧ UsesDeclared [] e.calls ↔ _
    rw [harity, hdeclared]
    simp

/-- The emitter keeps its contract on the graphs that are rejected and on those
whose arities are all proven, agree with the closures and follow a factory call. -/
theorem emit_totalAndConsistent_iff (preserved : Bool) (g : EnvironmentGraph)
    (lifted : LiftedBlocks) :
    TotalAndConsistent (emit preserved g lifted) ↔ Emittable g lifted := by
  unfold emit Emittable
  split_ifs with hsize
  · have hrootless : g.Rootless := by
      intro env0 henv0
      have hkey := (g.environments.mem_keys_iff "E0").mpr ⟨env0, henv0⟩
      have hlength := g.environments.length_keys
      rw [hsize, List.length_eq_zero_iff] at hlength
      simp [hlength] at hkey
    simp [TotalAndConsistent, Failure.thrown, hrootless]
  · cases henv0 : g.environments.get "E0" with
    | none =>
      have hrootless : g.Rootless := by
        intro env0 h
        simp [henv0] at h
      simp [TotalAndConsistent, Failure.thrown, hrootless]
    | some env0 =>
      by_cases hbindings : env0.bindings.size = 0
      · have hrootless : g.Rootless := by
          intro env h
          rw [henv0] at h
          cases h
          exact hbindings
        simp [TotalAndConsistent, Failure.thrown, hbindings, hrootless]
      · have hroot : ¬ g.Rootless := fun h => hbindings (h env0 henv0)
        rw [or_iff_right hroot]
        dsimp only
        rw [if_neg hbindings]
        exact emitTree_totalAndConsistent preserved g lifted env0

/-- One root binding, and a call of a closure that records no arity. -/
def unprovenCall : EnvironmentGraph :=
  let root : EnvironmentNode := ⟨"E0", none, .root, .empty, []⟩
  (EnvironmentGraph.empty.addEnvironment
    (root.addBinding ⟨"B_PREFIX", none, .upvalueCell, .string "hi"⟩)).addCall
      (.create "I1" "C_INNER" [] [] none)

omit [Host] in
/-- The strict rejection is never reached: the name read before it is not in scope. -/
theorem unprovenCall_throws :
    let _ : Host := ⟨fun _ _ => .nan, fun _ => ""⟩
    ¬ TotalAndConsistent (emit false unprovenCall none) := by
  intro _
  have hemit : emit false unprovenCall none = .error .referenceError := rfl
  rw [hemit]
  simp [TotalAndConsistent, Failure.thrown]

end Exactness
end LuaRecovery.Analysis.SemanticEmitter
