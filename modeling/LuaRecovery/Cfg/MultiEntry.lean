import LuaRecovery.Cfg.DispatcherBlocks
import LuaRecovery.Lib.FlowGraph
import LuaRecovery.Lib.ListEntries

/-!
# The traversal of a function context

`getBlock` of `cfg/cfg.js` and the traversal of `cfg/multi-entry-cfg.js`. A
context only ever binds `last_cond`; a copied context shares the set with the
one it was copied from, so the sets live in a heap.
-/

set_option autoImplicit false

namespace LuaRecovery.Cfg
open LuaRecovery.Lib LuaRecovery.Lua LuaRecovery.Evaluator

section Traversal
variable {N : Type} [JsNumber N]

def ControlFlowGraph.getBlock (cfg : ControlFlowGraph N) (id : N) : Option (BasicBlock N) :=
  cfg.blocks.find? (fun b => sameKey b.id id)

def ControlFlowGraph.findBlockForState (cfg : ControlFlowGraph N) (stateId : N) :
    Option (BasicBlock N) :=
  match cfg.getBlock stateId with
  | some b => some b
  | none => cfg.blocks.find? (fun b => b.contains stateId)

def ControlFlowGraph.successors (cfg : ControlFlowGraph N) (b : BasicBlock N) : List (Edge N) :=
  cfg.edges.filter (fun e => sameKey e.source b.id)

/-- The values of `last_cond` that a set holds. -/
structure CondSet where
  zero : Bool
  one : Bool
  deriving DecidableEq

/-- The address of the set that `last_cond` is bound to. -/
abbrev AbstractContext := Option ℕ

def CondSet.add (c : CondSet) (outcome : Bool) : CondSet :=
  if outcome then { c with one := true } else { c with zero := true }

/-- The bindings as the string that `key` joins. -/
def ctxKey (heap : List CondSet) (ctx : AbstractContext) : Option CondSet :=
  ctx.map (fun a => heap.getD a ⟨false, false⟩)

/-- `set('last_cond', …)` on a copy of the context. -/
def setCond (heap : List CondSet) (ctx : AbstractContext) (outcome : Bool) :
    List CondSet × AbstractContext :=
  match ctx with
  | some a => (heap.modify a (fun c => c.add outcome), some a)
  | none => (heap ++ [CondSet.add ⟨false, false⟩ outcome], some heap.length)

structure Traversal (N : Type) where
  visited : List (N × Option CondSet)
  worklist : List (N × AbstractContext)
  heap : List CondSet
  reachableStates : List N

/-- The edges that the traversal goes along. -/
def EdgeType.followed : EdgeType → Bool
  | .unconditional | .conditionalTrue | .conditionalFalse => true
  | .tableDispatch | .dynamic => false

/-- What an edge adds to the worklist. -/
def pushEdge (ctx : AbstractContext) (t : Traversal N) (e : Edge N) : Traversal N :=
  match e.type with
  | .unconditional => { t with worklist := t.worklist ++ [(e.target, ctx)] }
  | .conditionalTrue | .conditionalFalse =>
      match e.condition with
      | some _ =>
          let r := setCond t.heap ctx (e.type = .conditionalTrue)
          { t with heap := r.1, worklist := t.worklist ++ [(e.target, r.2)] }
      | none => { t with worklist := t.worklist ++ [(e.target, ctx)] }
  | .tableDispatch | .dynamic => t

def addReachableState (states : List N) (stateId : N) : List N :=
  if states.any (fun s => sameKey s stateId) then states else states ++ [stateId]

def sameVisit (a b : N × Option CondSet) : Bool := sameKey a.1 b.1 && a.2 == b.2

def Traversal.visit (t : Traversal N) (cfg : ControlFlowGraph N) (block : BasicBlock N)
    (ctx : AbstractContext) : Traversal N :=
  (cfg.successors block).foldl (pushEdge ctx) { t with
    visited := (block.id, ctxKey t.heap ctx) :: t.visited
    reachableStates := addReachableState t.reachableStates block.id }

def contextKeys : List (Option CondSet) :=
  [none, some ⟨false, false⟩, some ⟨false, true⟩, some ⟨true, false⟩, some ⟨true, true⟩]

theorem mem_contextKeys (k : Option CondSet) : k ∈ contextKeys := by
  rcases k with _ | ⟨_ | _, _ | _⟩ <;> decide

/-- How many visits are still to come. -/
def Traversal.left (t : Traversal N) (cfg : ControlFlowGraph N) : ℕ :=
  (cfg.blocks.flatMap (fun b => contextKeys.map (fun k => (b.id, k)))).countP
    (fun k => !t.visited.any (fun v => sameVisit v k))

@[simp] theorem sameKey_refl (a : N) : sameKey a a = true := by
  unfold sameKey
  cases LuaNumber.eq a a <;> rfl

omit [JsNumber N] in
theorem visited_foldl (ctx : AbstractContext) (es : List (Edge N)) (t : Traversal N) :
    (es.foldl (pushEdge ctx) t).visited = t.visited := by
  induction es generalizing t with
  | nil => rfl
  | cons e es ih =>
    rw [List.foldl_cons, ih]
    unfold pushEdge
    cases e.type <;> cases e.condition <;> rfl

theorem visited_visit (t : Traversal N) (cfg : ControlFlowGraph N) (block : BasicBlock N)
    (ctx : AbstractContext) :
    (t.visit cfg block ctx).visited = (block.id, ctxKey t.heap ctx) :: t.visited :=
  visited_foldl ctx _ _

theorem left_visit {t : Traversal N} {cfg : ControlFlowGraph N} {block : BasicBlock N}
    {ctx : AbstractContext} (hblock : block ∈ cfg.blocks)
    (hnew : t.visited.any (fun v => sameVisit v (block.id, ctxKey t.heap ctx)) = false) :
    (t.visit cfg block ctx).left cfg < t.left cfg := by
  unfold Traversal.left
  rw [visited_visit]
  have hmem : (block.id, ctxKey t.heap ctx) ∈
      cfg.blocks.flatMap (fun b => contextKeys.map (fun k => (b.id, k))) :=
    List.mem_flatMap.mpr ⟨block, hblock, List.mem_map.mpr ⟨_, mem_contextKeys _, rfl⟩⟩
  refine countP_lt (fun x _ hx => ?_) hmem ?_ (by rw [hnew]; rfl)
  · simp only [List.any_cons, Bool.not_or, Bool.and_eq_true] at hx
    exact hx.2
  · simp [sameVisit]

/-- The loop over the worklist. -/
def traverse (cfg : ControlFlowGraph N) (t : Traversal N) : Traversal N :=
  match _hw : t.worklist with
  | [] => t
  | (id, ctx) :: rest =>
      match _hb : cfg.getBlock id with
      | none => traverse cfg { t with worklist := rest }
      | some block =>
          if _hv : t.visited.any (fun v => sameVisit v (block.id, ctxKey t.heap ctx)) then
            traverse cfg { t with worklist := rest }
          else traverse cfg (Traversal.visit { t with worklist := rest } cfg block ctx)
termination_by (t.left cfg, t.worklist.length)
decreasing_by
  · exact Prod.Lex.right _ (by simp [_hw])
  · exact Prod.Lex.right _ (by simp [_hw])
  · have hmem : block ∈ cfg.blocks := List.mem_of_find?_eq_some _hb
    exact Prod.Lex.left _ _ (left_visit (t := { t with worklist := rest }) hmem (by simpa using _hv))

theorem traverse_done (cfg : ControlFlowGraph N) {t : Traversal N} (h : t.worklist = []) :
    traverse cfg t = t := by
  rw [traverse]
  split <;> simp_all

theorem traverse_seen (cfg : ControlFlowGraph N) {t : Traversal N} {id : N}
    {ctx : AbstractContext} {rest : List (N × AbstractContext)} {block : BasicBlock N}
    (hw : t.worklist = (id, ctx) :: rest) (hb : cfg.getBlock id = some block)
    (hv : t.visited.any (fun v => sameVisit v (block.id, ctxKey t.heap ctx)) = true) :
    traverse cfg t = traverse cfg { t with worklist := rest } := by
  rw [traverse]
  split
  · simp_all
  · split <;> simp_all

theorem traverse_new (cfg : ControlFlowGraph N) {t : Traversal N} {id : N}
    {ctx : AbstractContext} {rest : List (N × AbstractContext)} {block : BasicBlock N}
    (hw : t.worklist = (id, ctx) :: rest) (hb : cfg.getBlock id = some block)
    (hv : t.visited.any (fun v => sameVisit v (block.id, ctxKey t.heap ctx)) = false) :
    traverse cfg t = traverse cfg (Traversal.visit { t with worklist := rest } cfg block ctx) := by
  rw [traverse]
  split
  · simp_all
  · split <;> simp_all

/-- The states of a function context after the traversal from its entry state. -/
def reachableStates (cfg : ControlFlowGraph N) (entryState : N) : List N :=
  match cfg.findBlockForState entryState with
  | some entryBlock => (traverse cfg ⟨[], [(entryBlock.id, none)], [], []⟩).reachableStates
  | none => []

end Traversal
end LuaRecovery.Cfg
