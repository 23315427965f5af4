import LuaRecovery.Evaluator.ConstantEvaluator
import LuaRecovery.Lua.Double
import LuaRecovery.Lua.Nodes

/-!
# The control-flow graph of a dispatcher

`findDispatchers` and `buildCFG` of `cfg/dispatcher.js` with the classes of
`cfg/basic-block.js`, `cfg/edge.js` and `cfg/cfg.js`. Blocks refer to each
other by id; the lists of predecessors and successors are the edges read from
either end. Folding a leaf's right sides rewrites them in place in the source;
here the block keeps them as they were parsed.
-/

set_option autoImplicit false

namespace LuaRecovery.Cfg
open LuaRecovery.Lua LuaRecovery.Evaluator

section Loops
variable {N : Type}

structure DispatcherLoop (N : Type) where
  stateVar : String
  whileNode : Stmt N
  rootIf : Stmt N

/-- A `while` on a name whose body begins with an `if`. -/
def dispatcherLoop : Lua.Node N → Option (DispatcherLoop N)
  | .stmt (.whileStatement (.identifier stateVar) (.ifStatement clauses elseBody :: rest)) =>
      some ⟨stateVar,
        .whileStatement (.identifier stateVar) (.ifStatement clauses elseBody :: rest),
        .ifStatement clauses elseBody⟩
  | _ => none

def findDispatchers (astChunk : Chunk N) : List (DispatcherLoop N) :=
  astChunk.nodes.filterMap dispatcherLoop

end Loops

inductive EdgeType where
  | unconditional
  | conditionalTrue
  | conditionalFalse
  | tableDispatch
  | dynamic
  deriving DecidableEq

/-- `targetState` is `none` for the dynamic target. -/
structure Transition (N : Type) where
  targetState : Option N
  type : EdgeType
  condition : Option (Expr N)
  expression : Option (Expr N)

structure BasicBlock (N : Type) where
  id : N
  minState : N
  maxState : N
  statements : List (Stmt N)
  stateTransitions : List (Transition N)
  isEntry : Bool
  isExit : Bool

structure Edge (N : Type) where
  source : N
  target : N
  type : EdgeType
  condition : Option (Expr N)

structure ControlFlowGraph (N : Type) where
  dispatcherVar : String
  blocks : List (BasicBlock N)
  entry : Option N
  exits : List N
  edges : List (Edge N)

/-- What the scan of a leaf knows so far. -/
structure LeafScan (N : Type) where
  localConsts : List (String × N)
  partialAnd : Option (Expr N × N)
  stateTransitions : List (Transition N)
  isExit : Bool

section Leaf
variable {N : Type} [JsNumber N]

/-- A numeric literal, or a name that was last assigned one. -/
def constantOf (localConsts : List (String × N)) : Expr N → Option N
  | .numericLiteral value _ => some value
  | .identifier name => localConsts.lookup name
  | _ => none

def branchTransitions (condition : Expr N) (s1 s2 : N) : List (Transition N) :=
  [⟨some s1, .conditionalTrue, some condition, none⟩,
   ⟨some s2, .conditionalFalse, some condition, none⟩]

/-- An update of the state variable with a folded right side. -/
def scanUpdate (scan : LeafScan N) (foldedInit : Expr N) : LeafScan N :=
  match foldedInit with
  | .numericLiteral value _ => { scan with
      stateTransitions := [⟨some value, .unconditional, none, none⟩], partialAnd := none }
  | .logicalExpression .or leftAnd right =>
      let s2 := constantOf scan.localConsts (fold right)
      match leftAnd with
      | .logicalExpression .and cond leftRight =>
          match constantOf scan.localConsts (fold leftRight), s2 with
          | some s1, some s2 => { scan with
              stateTransitions := branchTransitions cond s1 s2, partialAnd := none }
          | _, _ => scan
      | _ => match scan.partialAnd, s2 with
          | some (cond, s1), some s2 => { scan with
              stateTransitions := branchTransitions cond s1 s2, partialAnd := none }
          | _, _ => scan
  | .logicalExpression .and cond right =>
      match constantOf scan.localConsts (fold right) with
      | some s1 => { scan with partialAnd := some (cond, s1) }
      | none => scan
  | .booleanLiteral false => { scan with isExit := true, partialAnd := none }
  | .nilLiteral => { scan with isExit := true, partialAnd := none }
  | e => { scan with
      stateTransitions := [⟨none, .dynamic, none, some e⟩], partialAnd := none }

/-- One statement of a leaf; the grammar gives every assignment a right side. -/
def scanStatement (stateVar : String) (scan : LeafScan N) (stmt : Stmt N) : LeafScan N :=
  match stmt with
  | .assignmentStatement [.identifier vName] (init::_) =>
      let foldedInit := fold init
      let scan := match foldedInit with
        | .numericLiteral value _ => { scan with localConsts := (vName, value) :: scan.localConsts }
        | _ => scan
      if vName = stateVar then scanUpdate scan foldedInit else scan
  | _ => scan

def scanLeaf (stateVar : String) (statements : List (Stmt N)) : LeafScan N :=
  statements.foldl (scanStatement stateVar) ⟨[], none, [], false⟩

/-- The id of the block for an interval, where `stateCounter` counts the leaves. -/
def stateId (minVal maxVal : N) (stateCounter : ℕ) : N :=
  if LuaNumber.isFinite minVal && LuaNumber.isFinite maxVal then
    LuaNumber.floor (LuaNumber.div (LuaNumber.add minVal maxVal) (LuaNumber.ofNat 2))
  else if LuaNumber.isFinite minVal then minVal
  else if LuaNumber.isFinite maxVal then LuaNumber.sub maxVal LuaNumber.one
  else LuaNumber.ofNat stateCounter

/-- Equality of the keys of a `Map`. -/
def sameKey (a b : N) : Bool :=
  LuaNumber.eq a b || (!LuaNumber.eq a a && !LuaNumber.eq b b)

/-- A block with a known id takes the place of the old one. -/
def addBlock (blocks : List (BasicBlock N)) (block : BasicBlock N) : List (BasicBlock N) :=
  if blocks.any (fun b => sameKey b.id block.id) then
    blocks.map (fun b => if sameKey b.id block.id then block else b)
  else blocks ++ [block]

theorem mem_addBlock {blocks : List (BasicBlock N)} {b c : BasicBlock N}
    (h : c ∈ addBlock blocks b) : c ∈ blocks ∨ c = b := by
  unfold addBlock at h
  split at h
  · obtain ⟨d, hd, rfl⟩ := List.mem_map.mp h
    split
    · exact .inr rfl
    · exact .inl hd
  · simpa using h

structure Builder (N : Type) where
  stateCounter : ℕ
  blocks : List (BasicBlock N)

def extractLeafBlock (stateVar : String) (b : Builder N) (statements : List (Stmt N))
    (minVal maxVal : N) : Builder N :=
  let scan := scanLeaf stateVar statements
  ⟨b.stateCounter+1, addBlock b.blocks
    ⟨stateId minVal maxVal (b.stateCounter+1), minVal, maxVal, statements,
      scan.stateTransitions, false, scan.isExit⟩⟩

end Leaf

section Tree
variable {N : Type} [JsNumber N]

/-- The traversal stack holds single nodes and statement lists. -/
inductive TreeNode (N : Type) : Type where
  | node (stmt : Stmt N)
  | list (body : List (Stmt N))

/-- The parts of a decision on the state variable: threshold, then body and else body. -/
def decision (stateVar : String) : TreeNode N →
    Option (Expr N × List (Stmt N) × Option (List (Stmt N)))
  | .node (.ifStatement
      [.mk (.binaryExpression .lt (.identifier name) right) thenBody] elseBody) =>
      if name = stateVar then some (right, thenBody, elseBody) else none
  | _ => none

def TreeNode.statements : TreeNode N → List (Stmt N)
  | .node stmt => [stmt]
  | .list body => body

/-- A body that is a single if statement is visited as that statement. -/
def childNode : List (Stmt N) → TreeNode N
  | [.ifStatement clauses elseBody] => .node (.ifStatement clauses elseBody)
  | body => .list body

omit [JsNumber N] in
theorem statements_childNode (body : List (Stmt N)) : (childNode body).statements = body := by
  unfold childNode
  split <;> rfl

def threshold (right : Expr N) : Option N :=
  match fold right with
  | .numericLiteral value _ => some value
  | _ => none

structure Pending (N : Type) where
  node : TreeNode N
  minVal : N
  maxVal : N

noncomputable def TreeNode.size : TreeNode N → ℕ
  | .node stmt => sizeOf stmt
  | .list body => sizeOf body + 1

omit [JsNumber N] in
theorem size_childNode (body : List (Stmt N)) : (childNode body).size ≤ sizeOf body + 1 := by
  unfold childNode
  split
  · simp [TreeNode.size]
    omega
  · simp [TreeNode.size]

omit [JsNumber N] in
theorem decision_size {stateVar : String} {node : TreeNode N} {right : Expr N}
    {thenBody : List (Stmt N)} {elseBody : Option (List (Stmt N))}
    (h : decision stateVar node = some (right, thenBody, elseBody)) :
    sizeOf thenBody + sizeOf elseBody + 3 ≤ node.size := by
  unfold decision at h
  split at h
  · split at h
    · cases h
      simp [TreeNode.size]
      omega
    · cases h
  · cases h

/-- What a decision pushes: the then branch is on top of the else branch. -/
def children (p : Pending N) (right : Expr N) (thenBody : List (Stmt N))
    (elseBody : Option (List (Stmt N))) : List (Pending N) :=
  let lowerMax := (threshold right).getD p.maxVal
  let upperMin := (threshold right).getD p.minVal
  ⟨childNode thenBody, p.minVal, lowerMax⟩ :: (match elseBody with
    | some body => [⟨childNode body, upperMin, p.maxVal⟩]
    | none => [])

/-- The traversal of the tree with its stack, top first. -/
def traverseTree (stateVar : String) : List (Pending N) → Builder N → Builder N
  | [], b => b
  | p::rest, b =>
      match _h : decision stateVar p.node with
      | some (right, thenBody, elseBody) =>
          traverseTree stateVar (children p right thenBody elseBody ++ rest) b
      | none => traverseTree stateVar rest
          (extractLeafBlock stateVar b p.node.statements p.minVal p.maxVal)
termination_by stack => (stack.map (fun p => p.node.size+1)).sum
decreasing_by
  · have hsize := decision_size _h
    have hthen := size_childNode thenBody
    cases elseBody with
    | none => simp [children] at hsize ⊢; omega
    | some body =>
      have helse := size_childNode body
      simp [children] at hsize ⊢
      omega
  · simp

end Tree

section Graph
variable {N : Type} [JsNumber N]

def BasicBlock.contains (b : BasicBlock N) (v : N) : Bool :=
  LuaNumber.le b.minState v && LuaNumber.lt v b.maxState

/-- Marks the first block whose interval contains the entry state. -/
def markEntry (entryStateId : N) : List (BasicBlock N) → List (BasicBlock N) × Option N
  | [] => ([], none)
  | b::bs =>
      if b.contains entryStateId then ({ b with isEntry := true } :: bs, some b.id)
      else
        let r := markEntry entryStateId bs
        (b :: r.1, r.2)

def transitionEdge (blocks : List (BasicBlock N)) (source : BasicBlock N) (t : Transition N) :
    Option (Edge N) := do
  let v ← t.targetState
  let target ← blocks.find? (fun b => b.contains v)
  some ⟨source.id, target.id, t.type, t.condition⟩

/-- Connects the blocks and collects the exits. -/
def connect (stateVar : String) (blocks : List (BasicBlock N)) (entry : Option N) :
    ControlFlowGraph N where
  dispatcherVar := stateVar
  blocks := blocks
  entry := entry
  exits := (blocks.filter (fun b => b.isExit)).map (fun b => b.id)
  edges := blocks.flatMap (fun b => b.stateTransitions.filterMap (transitionEdge blocks b))

def buildCFG (stateVar : String) (rootIfNode : Stmt N) (entryStateId : Option N) :
    ControlFlowGraph N :=
  let b := traverseTree stateVar
    [⟨.node rootIfNode, LuaNumber.neg JsNumber.infinity, JsNumber.infinity⟩] ⟨0, []⟩
  match entryStateId with
  | none => connect stateVar b.blocks none
  | some v =>
      let r := markEntry v b.blocks
      connect stateVar r.1 r.2

/-- A block records what the scan of its statements found. -/
def BasicBlock.Scanned (stateVar : String) (b : BasicBlock N) : Prop :=
  b.stateTransitions = (scanLeaf stateVar b.statements).stateTransitions ∧
    b.isExit = (scanLeaf stateVar b.statements).isExit

theorem scanned_traverseTree (stateVar : String) (stack : List (Pending N)) (b : Builder N)
    (hb : ∀ c ∈ b.blocks, c.Scanned stateVar) :
    ∀ c ∈ (traverseTree stateVar stack b).blocks, c.Scanned stateVar := by
  fun_induction traverseTree stateVar stack b with
  | case1 b => exact hb
  | case2 b p rest right thenBody elseBody hd ih => exact ih hb
  | case3 b p rest hd ih =>
    apply ih
    intro c hc
    rcases mem_addBlock hc with hc | rfl
    · exact hb c hc
    · exact ⟨rfl, rfl⟩

theorem scanned_markEntry (stateVar : String) (v : N) (blocks : List (BasicBlock N))
    (h : ∀ c ∈ blocks, c.Scanned stateVar) :
    ∀ c ∈ (markEntry v blocks).1, c.Scanned stateVar := by
  induction blocks with
  | nil => exact h
  | cons b bs ih =>
    obtain ⟨hb, hbs⟩ := List.forall_mem_cons.mp h
    rw [markEntry]
    split
    · exact List.forall_mem_cons.mpr ⟨hb, hbs⟩
    · exact List.forall_mem_cons.mpr ⟨hb, ih hbs⟩

/-- Every block of the graph records the scan of its own statements. -/
theorem scanned_buildCFG (stateVar : String) (root : Stmt N) (entry : Option N) :
    ∀ b ∈ (buildCFG stateVar root entry).blocks, b.Scanned stateVar := by
  have hall := scanned_traverseTree stateVar
    [⟨.node root, LuaNumber.neg JsNumber.infinity, JsNumber.infinity⟩] ⟨0, []⟩ (by simp)
  cases entry with
  | none => exact hall
  | some v => exact scanned_markEntry stateVar v _ hall

end Graph
end LuaRecovery.Cfg
