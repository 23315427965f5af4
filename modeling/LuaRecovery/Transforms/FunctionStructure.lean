import LuaRecovery.Cfg.BlockGraph
import LuaRecovery.Cfg.LeafTransitions

/-!
# Structured bodies from a flow graph

`reconstructFunctionBody` of `transforms/closure-splitter.js` and
`StateMachineRestructurer` of `transforms/state-restructure.js`. Both walk the
blocks depth first and visit each once, so a join belongs to the first arm that
meets it and a loop runs once.
-/

set_option autoImplicit false

namespace LuaRecovery.Transforms
open LuaRecovery.Lib LuaRecovery.Lua LuaRecovery.Evaluator LuaRecovery.Cfg

/-- A statement list under construction, in which the recovered conditionals stand out. -/
inductive Body (N : Type) where
  | nil
  | statement (s : Stmt N) (rest : Body N)
  | choice (condition : Expr N) (onTrue onFalse rest : Body N)

namespace Body
variable {N : Type}

/-- The statements that are returned; an empty else branch is left out. -/
def toStatements : Body N → List (Stmt N)
  | nil => []
  | statement s rest => s :: rest.toStatements
  | choice condition onTrue onFalse rest =>
      .ifStatement [.mk condition onTrue.toStatements]
        (if onFalse.toStatements.isEmpty then none else some onFalse.toStatements) ::
      rest.toStatements

def ofStatements : List (Stmt N) → Body N
  | [] => nil
  | s::rest => statement s (ofStatements rest)

def append : Body N → Body N → Body N
  | nil, b => b
  | statement s rest, b => statement s (rest.append b)
  | choice c t f rest, b => choice c t f (rest.append b)

/-- What the body executes, and the outcomes that it has not used. -/
def run : Body N → Outcomes → List (Observed (Stmt N) (Expr N)) × Outcomes
  | nil, σ => ([], σ)
  | statement s rest, σ =>
      let r := run rest σ
      (.statement s :: r.1, r.2)
  | choice c t f rest, σ =>
      let b := if σ 0 then run t σ.rest else run f σ.rest
      let r := run rest b.2
      (.condition c :: (b.1 ++ r.1), r.2)

theorem run_append (a b : Body N) (σ : Outcomes) :
    (a.append b).run σ = ((a.run σ).1 ++ (b.run (a.run σ).2).1, (b.run (a.run σ).2).2) := by
  induction a generalizing σ with
  | nil => rfl
  | statement s rest ih => simp [append, run, ih]
  | choice c t f rest _ _ ih => simp [append, run, ih]

theorem run_ofStatements (l : List (Stmt N)) (σ : Outcomes) :
    (ofStatements l).run σ = (l.map .statement, σ) := by
  induction l with
  | nil => rfl
  | cons s rest ih => simp [ofStatements, run, ih]

end Body

section Walks
variable {N : Type} [JsNumber N]

/-- The part of a function context that the reconstruction reads. -/
structure FunctionContext (N : Type) where
  entryState : N
  reachableStates : List N

def FunctionContext.ofEntry (cfg : ControlFlowGraph N) (entryState : N) : FunctionContext N :=
  ⟨entryState, Cfg.reachableStates cfg entryState⟩

/-- The condition of a branch, from its true edge or from the block's first transition. -/
def branchCondition (block : BasicBlock N) (trueEdge : Edge N) : Option (Expr N) :=
  match trueEdge.condition with
  | some c => some c
  | none => block.stateTransitions.head?.bind (fun t => t.condition)

def trueEdge (successors : List (Edge N)) : Option (Edge N) :=
  successors.find? (fun e => e.type = .conditionalTrue)

def falseEdge (successors : List (Edge N)) : Option (Edge N) :=
  successors.find? (fun e => e.type = .conditionalFalse)

/-- The walk of `reconstructFunctionBody`, with the visited ids; its depth is bounded by the fuel. -/
def walk (cfg : ControlFlowGraph N) (func : FunctionContext N) :
    ℕ → List N → N → Body N × List N
  | 0, visited, _ => (.nil, visited)
  | n+1, visited, id =>
      match cfg.getBlock id with
      | none => (.nil, visited)
      | some block =>
        if visited.any (fun v => sameKey v block.id) then (.nil, visited) else
        let cleanBlockStmts :=
          Body.ofStatements (stripStateAssignments block.statements cfg.dispatcherVar)
        let successors := (cfg.successors block).filter
          (fun e => func.reachableStates.any (fun s => sameKey s e.target))
        let conditional :=
          match trueEdge successors, falseEdge successors with
          | some t, some f =>
              let trueBranch := walk cfg func n (block.id :: visited) t.target
              let falseBranch := walk cfg func n trueBranch.2 f.target
              match branchCondition block t with
              | some cond => (cleanBlockStmts.append
                  (.choice cond trueBranch.1 falseBranch.1 .nil), falseBranch.2)
              | none => (cleanBlockStmts, falseBranch.2)
          | _, _ => (cleanBlockStmts, block.id :: visited)
        match successors with
        | [e] =>
            if e.type = .unconditional then
              let nextStmts := walk cfg func n (block.id :: visited) e.target
              (cleanBlockStmts.append nextStmts.1, nextStmts.2)
            else conditional
        | _ => conditional

/-- The structured body of a function context, `none` without an entry block. -/
def reconstructedBody (cfg : ControlFlowGraph N) (func : FunctionContext N) : Option (Body N) :=
  (cfg.findBlockForState func.entryState).map
    (fun entryBlock => (walk cfg func (cfg.blocks.length+1) [] entryBlock.id).1)

def reconstructFunctionBody (cfg : ControlFlowGraph N) (func : FunctionContext N) :
    Option (List (Stmt N)) :=
  (reconstructedBody cfg func).map Body.toStatements

/-- The walk of `restructure`, with the visited ids and those on the active path. -/
def restructureWalk (cfg : ControlFlowGraph N) : ℕ → List N → List N → N → Body N × List N
  | 0, visited, _, _ => (.nil, visited)
  | n+1, visited, activePath, id =>
      match cfg.getBlock id with
      | none => (.nil, visited)
      | some block =>
        if visited.any (fun v => sameKey v block.id) then (.nil, visited) else
        if activePath.any (fun v => sameKey v block.id) then (.nil, visited) else
        let stmts := Body.ofStatements (stripStateAssignments block.statements cfg.dispatcherVar)
        let successors := cfg.successors block
        let conditional :=
          match trueEdge successors, falseEdge successors with
          | some t, some f =>
              let trueBranch :=
                restructureWalk cfg n (block.id :: visited) (block.id :: activePath) t.target
              let falseBranch :=
                restructureWalk cfg n trueBranch.2 (block.id :: activePath) f.target
              match branchCondition block t with
              | some condition => (stmts.append
                  (.choice condition trueBranch.1 falseBranch.1 .nil), falseBranch.2)
              | none => (stmts.append (trueBranch.1.append falseBranch.1), falseBranch.2)
          | _, _ => successors.foldl (fun r e =>
              let next := restructureWalk cfg n r.2 (block.id :: activePath) e.target
              (r.1.append next.1, next.2)) (stmts, block.id :: visited)
        match successors with
        | [] => (stmts, block.id :: visited)
        | [e] =>
            if e.type = .unconditional then
              let nextStmts :=
                restructureWalk cfg n (block.id :: visited) (block.id :: activePath) e.target
              (stmts.append nextStmts.1, nextStmts.2)
            else conditional
        | _ => conditional

/-- The block that the restructuring starts at: a given one or the graph's entry. -/
def startBlock (cfg : ControlFlowGraph N) (entryBlockId : Option N) : Option (BasicBlock N) :=
  match entryBlockId with
  | some id => cfg.getBlock id
  | none => cfg.entry.bind cfg.getBlock

/-- The structured result, `none` where the confidence stays unknown. -/
def restructuredBody (cfg : ControlFlowGraph N) (entryBlockId : Option N) : Option (Body N) :=
  (startBlock cfg entryBlockId).map
    (fun b => (restructureWalk cfg (cfg.blocks.length+1) [] [] b.id).1)

def restructure (cfg : ControlFlowGraph N) (entryBlockId : Option N) : Option (List (Stmt N)) :=
  (restructuredBody cfg entryBlockId).map Body.toStatements

end Walks
section Refinement
variable [Host] {cfg : ControlFlowGraph Double}

/-- The four ways out of a block, as the walks tell them apart. -/
inductive WayOut : List (Edge Double) → Exit Double (Expr Double) → Prop
  | stop : WayOut [] .stop
  | goto {e : Edge Double} (ht : e.type = .unconditional) : WayOut [e] (.goto e.target)
  | half {e : Edge Double} {c : Expr Double} (arm : Bool) (hc : e.condition = some c)
      (ht : e.type = if arm then .conditionalTrue else .conditionalFalse) :
      WayOut [e] (.half c arm e.target)
  | branch {e e' : Edge Double} {c : Expr Double} (hc : e.condition = some c)
      (ht : e.type = .conditionalTrue) (ht' : e'.type = .conditionalFalse) :
      WayOut [e, e'] (.branch c e.target e'.target)

omit [Host] in
theorem wayOut_of_exitOf {es : List (Edge Double)} {x : Exit Double (Expr Double)}
    (h : exitOf es = some x) : WayOut es x := by
  rcases es with _ | ⟨e, _ | ⟨e', _ | ⟨e'', es⟩⟩⟩
  · cases h
    exact .stop
  · obtain ⟨source, target, type, condition⟩ := e
    cases type <;> cases condition <;> simp [exitOf] at h <;> subst h
    · exact .goto rfl
    · exact .goto rfl
    · exact .half true rfl rfl
    · exact .half false rfl rfl
  · obtain ⟨source, target, type, condition⟩ := e
    obtain ⟨source', target', type', condition'⟩ := e'
    cases type <;> cases condition <;> cases type' <;> simp [exitOf] at h
    subst h
    exact .branch rfl rfl rfl
  · cases h

/-- The blocks that a walk has not visited. -/
def unvisited (cfg : ControlFlowGraph Double) (visited : List Double) : ℕ :=
  cfg.blocks.countP (fun b => !visited.any (fun v => sameKey v b.id))

theorem any_sameKey {l : List Double} {d : Double} :
    l.any (fun v => sameKey v d) = true ↔ d ∈ l := by
  rw [List.any_eq_true]
  constructor
  · rintro ⟨v, hv, hkey⟩
    exact sameKey_iff.mp hkey ▸ hv
  · intro h
    exact ⟨d, h, sameKey_refl d⟩

theorem unvisited_mono (cfg : ControlFlowGraph Double) {V V' : List Double} (h : V ⊆ V') :
    unvisited cfg V' ≤ unvisited cfg V := by
  apply List.countP_mono_left
  intro b _ hb
  rw [Bool.not_eq_true'] at hb ⊢
  rw [← Bool.not_eq_true, any_sameKey] at hb ⊢
  exact fun hmem => hb (h hmem)

theorem unvisited_cons {V : List Double} {b : BasicBlock Double} (hb : b ∈ cfg.blocks)
    (hnew : b.id ∉ V) : unvisited cfg (b.id :: V) < unvisited cfg V := by
  refine countP_lt (fun c _ hc => ?_) hb (by simp) ?_
  · simp only [List.any_cons, Bool.not_or, Bool.and_eq_true] at hc
    exact hc.2
  · rw [Bool.not_eq_true', ← Bool.not_eq_true, any_sameKey]
    exact hnew

/-- A walk with fuel for the blocks to come: the tree it builds, read off its body. -/
def Builds (cfg : ControlFlowGraph Double) (followsHalf : Bool) (V : List Double) (id : Double)
    (r : Body Double × List Double) : Prop :=
  ∃ w, cfg.graph.Walks followsHalf V id w r.2 ∧ ∀ σ, (r.1.run σ).1 = cfg.graph.exec w σ

theorem observe_block {id : Double} {b : BasicBlock Double} (hb : cfg.getBlock id = some b) :
    cfg.graph.observe id =
      (stripStateAssignments b.statements cfg.dispatcherVar).map .statement := by
  simp [FlowGraph.observe, ControlFlowGraph.graph, hb]

theorem walk_builds (hw : cfg.WellFormed) {func : FunctionContext Double}
    (hclosed : ∀ id ∈ func.reachableStates, ∀ id', cfg.graph.Next id id' →
      id' ∈ func.reachableStates) (n : ℕ) (V : List Double) {id : Double}
    (hid : id ∈ func.reachableStates) (hblock : ∃ b, cfg.getBlock id = some b)
    (hfuel : unvisited cfg V < n) : Builds cfg false V id (walk cfg func n V id) := by
  induction n generalizing V id with
  | zero => omega
  | succ n ih =>
    obtain ⟨b, hb⟩ := hblock
    obtain ⟨hmem, hbid⟩ := getBlock_id hb
    subst hbid
    by_cases hseen : b.id ∈ V
    · have hany := any_sameKey.mpr hseen
      refine ⟨.seen, ?_, fun σ => ?_⟩
      · simpa [walk, hb, hany] using FlowGraph.Walks.seen hseen
      · simp [walk, hb, hany, Body.run, FlowGraph.exec]
    have hany : V.any (fun v => sameKey v b.id) = false := by
      rw [← Bool.not_eq_true, any_sameKey]
      exact hseen
    have hlt := unvisited_cons hmem hseen
    obtain ⟨x, hx⟩ := hw.shaped b hmem
    have hexit := graph_exit hb hx
    have hnext : ∀ e ∈ cfg.successors b, cfg.graph.Next b.id e.target :=
      fun e he => (next_iff hw hb).mpr (List.mem_map_of_mem he)
    have hfilter : (cfg.successors b).filter
        (fun e => func.reachableStates.any (fun s => sameKey s e.target)) = cfg.successors b :=
      List.filter_eq_self.mpr
        (fun e he => any_sameKey.mpr (hclosed _ hid _ (hnext e he)))
    have hobs := observe_block hb
    have hway := wayOut_of_exitOf hx
    have hgo : ∀ e ∈ cfg.successors b, ∀ V', b.id :: V ⊆ V' →
        Builds cfg false V' e.target (walk cfg func n V' e.target) := by
      intro e he V' hsub
      have hle := unvisited_mono cfg hsub
      exact ih V' (hclosed _ hid _ (hnext e he)) (getBlock_next hw (hnext e he)) (by omega)
    generalize hes : cfg.successors b = es at hway hfilter hgo
    cases hway with
    | stop =>
      refine ⟨.ended b.id, ?_, fun σ => ?_⟩
      · simpa [walk, hb, hany, hes, trueEdge] using
          FlowGraph.Walks.ended hseen (.inl hexit)
      · simp [walk, hb, hany, hes, trueEdge, Body.run_ofStatements, FlowGraph.exec, hobs]
    | @goto e ht =>
      obtain ⟨w, hwalk, hrun⟩ := hgo e List.mem_cons_self _ (List.Subset.refl _)
      refine ⟨.chained b.id w, ?_, fun σ => ?_⟩
      · simpa [walk, hb, hany, hes, hfilter, ht] using FlowGraph.Walks.goes hseen hexit hwalk
      · simp [walk, hb, hany, hes, hfilter, ht, Body.run_append, Body.run_ofStatements,
          FlowGraph.exec, hobs, hrun]
    | @half e c arm hc ht =>
      have hne : e.type ≠ .unconditional := by
        rw [ht]
        cases arm <;> simp
      have hone : (trueEdge [e] = none ∨ falseEdge [e] = none) := by
        cases arm <;> simp [trueEdge, falseEdge, ht]
      have hval : walk cfg func (n+1) V b.id = (.ofStatements
          (stripStateAssignments b.statements cfg.dispatcherVar), b.id :: V) := by
        rcases hone with h | h <;> simp [walk, hb, hany, hes, hfilter, hne, h]
      rw [hval]
      refine ⟨.ended b.id, .ended hseen (.inr ⟨⟨c, arm, e.target, hexit⟩, rfl⟩), fun σ => ?_⟩
      simp [Body.run_ofStatements, FlowGraph.exec, hobs]
    | @branch e e' c hc ht ht' =>
      obtain ⟨wt, hwalkt, hrunt⟩ := hgo e List.mem_cons_self _ (List.Subset.refl _)
      obtain ⟨wf, hwalkf, hrunf⟩ := hgo e' (by simp) _ hwalkt.subset
      have hval : walk cfg func (n+1) V b.id = ((Body.ofStatements
          (stripStateAssignments b.statements cfg.dispatcherVar)).append
            (.choice c (walk cfg func n (b.id :: V) e.target).1
              (walk cfg func n (walk cfg func n (b.id :: V) e.target).2 e'.target).1 .nil),
          (walk cfg func n (walk cfg func n (b.id :: V) e.target).2 e'.target).2) := by
        simp [walk, hb, hany, hes, hfilter, trueEdge, falseEdge, ht, ht', branchCondition, hc]
      rw [hval]
      refine ⟨.forked b.id c wt wf, .forks hseen hexit hwalkt hwalkf, fun σ => ?_⟩
      by_cases ho : σ 0 = true
      · simp [Body.run_append, Body.run_ofStatements, Body.run, FlowGraph.exec, hobs, ho, hrunt]
      · simp [Body.run_append, Body.run_ofStatements, Body.run, FlowGraph.exec, hobs, ho, hrunf]

/-- The active path holds visited blocks only, so its own test never succeeds. -/
theorem restructureWalk_builds (hw : cfg.WellFormed) (n : ℕ) (V active : List Double)
    (hactive : active ⊆ V) {id : Double} (hblock : ∃ b, cfg.getBlock id = some b)
    (hfuel : unvisited cfg V < n) : Builds cfg true V id (restructureWalk cfg n V active id) := by
  induction n generalizing V active id with
  | zero => omega
  | succ n ih =>
    obtain ⟨b, hb⟩ := hblock
    obtain ⟨hmem, hbid⟩ := getBlock_id hb
    subst hbid
    by_cases hseen : b.id ∈ V
    · have hany := any_sameKey.mpr hseen
      refine ⟨.seen, ?_, fun σ => ?_⟩
      · simpa [restructureWalk, hb, hany] using FlowGraph.Walks.seen hseen
      · simp [restructureWalk, hb, hany, Body.run, FlowGraph.exec]
    have hany : V.any (fun v => sameKey v b.id) = false := by
      rw [← Bool.not_eq_true, any_sameKey]
      exact hseen
    have hanyActive : active.any (fun v => sameKey v b.id) = false := by
      rw [← Bool.not_eq_true, any_sameKey]
      exact fun h => hseen (hactive h)
    have hlt := unvisited_cons hmem hseen
    obtain ⟨x, hx⟩ := hw.shaped b hmem
    have hexit := graph_exit hb hx
    have hobs := observe_block hb
    have hway := wayOut_of_exitOf hx
    have hgo : ∀ e ∈ cfg.successors b, ∀ V', b.id :: V ⊆ V' → Builds cfg true V' e.target
        (restructureWalk cfg n V' (b.id :: active) e.target) := by
      intro e he V' hsub
      have hle := unvisited_mono cfg hsub
      have hnext : cfg.graph.Next b.id e.target := (next_iff hw hb).mpr (List.mem_map_of_mem he)
      have hsubActive : b.id :: active ⊆ V' :=
        fun y hy => hsub (List.cons_subset_cons b.id hactive hy)
      exact ih V' (b.id :: active) hsubActive (getBlock_next hw hnext) (by omega)
    generalize hes : cfg.successors b = es at hway hgo
    cases hway with
    | stop =>
      refine ⟨.ended b.id, ?_, fun σ => ?_⟩
      · simpa [restructureWalk, hb, hany, hanyActive, hes] using
          FlowGraph.Walks.ended hseen (.inl hexit)
      · simp [restructureWalk, hb, hany, hanyActive, hes, Body.run_ofStatements, FlowGraph.exec,
          hobs]
    | @goto e ht =>
      obtain ⟨w, hwalk, hrun⟩ := hgo e List.mem_cons_self _ (List.Subset.refl _)
      refine ⟨.chained b.id w, ?_, fun σ => ?_⟩
      · simpa [restructureWalk, hb, hany, hanyActive, hes, ht] using
          FlowGraph.Walks.goes hseen hexit hwalk
      · simp [restructureWalk, hb, hany, hanyActive, hes, ht, Body.run_append,
          Body.run_ofStatements, FlowGraph.exec, hobs, hrun]
    | @half e c arm hc ht =>
      obtain ⟨w, hwalk, hrun⟩ := hgo e List.mem_cons_self _ (List.Subset.refl _)
      have hne : e.type ≠ .unconditional := by
        rw [ht]
        cases arm <;> simp
      have hone : (trueEdge [e] = none ∨ falseEdge [e] = none) := by
        cases arm <;> simp [trueEdge, falseEdge, ht]
      have hval : restructureWalk cfg (n+1) V active b.id = ((Body.ofStatements
          (stripStateAssignments b.statements cfg.dispatcherVar)).append
            (restructureWalk cfg n (b.id :: V) (b.id :: active) e.target).1,
          (restructureWalk cfg n (b.id :: V) (b.id :: active) e.target).2) := by
        rcases hone with h | h <;>
          simp [restructureWalk, hb, hany, hanyActive, hes, hne, h]
      rw [hval]
      refine ⟨.chained b.id w, .follows hseen hexit rfl hwalk, fun σ => ?_⟩
      simp [Body.run_append, Body.run_ofStatements, FlowGraph.exec, hobs, hrun]
    | @branch e e' c hc ht ht' =>
      obtain ⟨wt, hwalkt, hrunt⟩ := hgo e List.mem_cons_self _ (List.Subset.refl _)
      obtain ⟨wf, hwalkf, hrunf⟩ := hgo e' (by simp) _ hwalkt.subset
      generalize htrue : restructureWalk cfg n (b.id :: V) (b.id :: active) e.target = r at *
      generalize hfalse : restructureWalk cfg n r.2 (b.id :: active) e'.target = r' at *
      have hval : restructureWalk cfg (n+1) V active b.id = ((Body.ofStatements
          (stripStateAssignments b.statements cfg.dispatcherVar)).append
            (.choice c r.1 r'.1 .nil), r'.2) := by
        simp [restructureWalk, hb, hany, hanyActive, hes, trueEdge, falseEdge, ht, ht',
          branchCondition, hc, htrue, hfalse]
      rw [hval]
      refine ⟨.forked b.id c wt wf, .forks hseen hexit hwalkt hwalkf, fun σ => ?_⟩
      by_cases ho : σ 0 = true
      · simp [Body.run_append, Body.run_ofStatements, Body.run, FlowGraph.exec, hobs, ho, hrunt]
      · simp [Body.run_append, Body.run_ofStatements, Body.run, FlowGraph.exec, hobs, ho, hrunf]

/-- The body executes what the walk of the graph from the block executes, on all outcomes. -/
def Faithful (cfg : ControlFlowGraph Double) (start : Double) (body : Body Double) : Prop :=
  ∀ σ, cfg.graph.Runs start σ (body.run σ).1

/-- The reconstruction of a function context, if there is one, is faithful. -/
def FaithfulReconstruction (cfg : ControlFlowGraph Double) (entryState : Double) : Prop :=
  ∀ b, cfg.findBlockForState entryState = some b →
    ∀ body, reconstructedBody cfg (.ofEntry cfg entryState) = some body → Faithful cfg b.id body

def FaithfulRestructuring (cfg : ControlFlowGraph Double) (entryBlockId : Option Double) : Prop :=
  ∀ b, startBlock cfg entryBlockId = some b →
    ∀ body, restructuredBody cfg entryBlockId = some body → Faithful cfg b.id body

theorem faithful_of_builds {followsHalf : Bool} {id : Double} {r : Body Double × List Double}
    (h : Builds cfg followsHalf [] id r) : Faithful cfg id r.1 ↔ cfg.graph.Structured id := by
  obtain ⟨w, hwalk, hrun⟩ := h
  rw [← FlowGraph.runs_walk_iff hwalk]
  constructor
  · intro hf σ
    exact hrun σ ▸ hf σ
  · intro hf σ
    exact (hrun σ).symm ▸ hf σ

theorem unvisited_lt (cfg : ControlFlowGraph Double) : unvisited cfg [] < cfg.blocks.length+1 :=
  Nat.lt_succ_of_le List.countP_le_length

theorem faithfulReconstruction_iff (hw : cfg.WellFormed) (entryState : Double) :
    FaithfulReconstruction cfg entryState ↔
      ∀ b, cfg.findBlockForState entryState = some b → cfg.graph.Structured b.id := by
  have hbuilds : ∀ b, cfg.findBlockForState entryState = some b →
      Builds cfg false [] b.id
        (walk cfg (.ofEntry cfg entryState) (cfg.blocks.length+1) [] b.id) := by
    intro b hb
    have hreach := mem_reachableStates hw hb
    have hmem := findBlockForState_mem hb
    refine walk_builds hw (fun id hid id' hnext => ?_) _ _ ?_ ⟨b, getBlock_of_mem hw hmem⟩
      (unvisited_lt cfg)
    · exact (hreach id').mpr (((hreach id).mp hid).tail hnext)
    · exact (hreach b.id).mpr .refl
  have hbody : ∀ b, cfg.findBlockForState entryState = some b →
      reconstructedBody cfg (.ofEntry cfg entryState) =
        some (walk cfg (.ofEntry cfg entryState) (cfg.blocks.length+1) [] b.id).1 := by
    intro b hb
    simp [reconstructedBody, FunctionContext.ofEntry, hb]
  constructor
  · intro h b hb
    exact (faithful_of_builds (hbuilds b hb)).mp (h b hb _ (hbody b hb))
  · intro h b hb body hsome
    rw [hbody b hb] at hsome
    cases hsome
    exact (faithful_of_builds (hbuilds b hb)).mpr (h b hb)

theorem startBlock_mem {entryBlockId : Option Double} {b : BasicBlock Double}
    (h : startBlock cfg entryBlockId = some b) : b ∈ cfg.blocks := by
  cases entryBlockId with
  | some id => exact (getBlock_id h).1
  | none =>
    obtain ⟨id, _, hid⟩ := Option.bind_eq_some_iff.mp h
    exact (getBlock_id hid).1

theorem faithfulRestructuring_iff (hw : cfg.WellFormed) (entryBlockId : Option Double) :
    FaithfulRestructuring cfg entryBlockId ↔
      ∀ b, startBlock cfg entryBlockId = some b → cfg.graph.Structured b.id := by
  have hbuilds : ∀ b, startBlock cfg entryBlockId = some b →
      Builds cfg true [] b.id (restructureWalk cfg (cfg.blocks.length+1) [] [] b.id) := by
    intro b hb
    exact restructureWalk_builds hw _ _ _ (List.Subset.refl _)
      ⟨b, getBlock_of_mem hw (startBlock_mem hb)⟩ (unvisited_lt cfg)
  have hbody : ∀ b, startBlock cfg entryBlockId = some b → restructuredBody cfg entryBlockId =
      some (restructureWalk cfg (cfg.blocks.length+1) [] [] b.id).1 := by
    intro b hb
    simp [restructuredBody, hb]
  constructor
  · intro h b hb
    exact (faithful_of_builds (hbuilds b hb)).mp (h b hb _ (hbody b hb))
  · intro h b hb body hsome
    rw [hbody b hb] at hsome
    cases hsome
    exact (faithful_of_builds (hbuilds b hb)).mpr (h b hb)

/-- Both structurings of a graph that `buildCFG` returns are faithful exactly when no block is
left with a condition of which one arm has no block, and every block that two ways lead into has
neither statements nor conditions from there on. -/
theorem structuring_faithful_iff (stateVar : String) (root : Stmt Double)
    (entryStateId : Option Double) (entryState : Double) (entryBlockId : Option Double) :
    let cfg := buildCFG stateVar root entryStateId
    (FaithfulReconstruction cfg entryState ↔
      ∀ b, cfg.findBlockForState entryState = some b → cfg.graph.Structured b.id) ∧
    (FaithfulRestructuring cfg entryBlockId ↔
      ∀ b, startBlock cfg entryBlockId = some b → cfg.graph.Structured b.id) :=
  ⟨faithfulReconstruction_iff (wellFormed_buildCFG stateVar root entryStateId) entryState,
    faithfulRestructuring_iff (wellFormed_buildCFG stateVar root entryStateId) entryBlockId⟩

end Refinement

section Example
local instance quietHost : Host where
  pow _ _ := .nan
  text _ := ""

def zero : Double := smallNumber 0 (by norm_num)

/-- `x = 5; Q = 0` -/
def loopLeaf : List (Stmt Double) :=
  [.assignmentStatement [.identifier "x"] [.numericLiteral five "5"],
   .assignmentStatement [.identifier "Q"] [.numericLiteral zero "0"]]

def loopBlock : BasicBlock Double := leafBlock "Q" ⟨none, some oneThreshold, loopLeaf⟩

/-- `if Q < 1 then x = 5; Q = 0 else end` -/
def loopTree : SearchTree "Q" := oneLeafTree loopLeaf rfl

def loopGraph : ControlFlowGraph Double := buildCFG "Q" loopTree.root none

theorem loopBlock_id : loopBlock.id = zero := sameKey_iff.mp (by decide +kernel)

theorem getBlock_loopGraph : loopGraph.getBlock zero = some loopBlock := by
  rw [← loopBlock_id]
  exact getBlock_of_mem (wellFormed_buildCFG _ _ _) (mem_oneLeafTree loopLeaf rfl)

theorem successors_loopGraph :
    loopGraph.successors loopBlock = [⟨zero, zero, .unconditional, none⟩] := by
  have hblocks : loopGraph.blocks = [loopBlock, leafBlock "Q" ⟨some oneThreshold, none, []⟩] :=
    SearchTree.blocks_buildCFG _ (staysOpen_oneLeafTree loopLeaf rfl)
  have hwf : loopGraph.WellFormed := wellFormed_buildCFG _ _ _
  have hcontains : loopBlock.contains zero = true := by decide +kernel
  have htrans : loopBlock.stateTransitions = [⟨some zero, .unconditional, none, none⟩] := rfl
  have hsucc : loopGraph.successors loopBlock =
      loopBlock.stateTransitions.filterMap (transitionEdge loopGraph.blocks loopBlock) :=
    successors_connect "Q" hwf.distinct none (mem_oneLeafTree loopLeaf rfl)
  rw [hsucc, htrans, hblocks]
  simp [transitionEdge, hcontains, loopBlock_id]

theorem exit_loopGraph : loopGraph.graph.exit zero = .goto zero := by
  apply graph_exit getBlock_loopGraph
  rw [successors_loopGraph]
  rfl

/-- The loop's body would have to stand in the structured body once for every round. -/
theorem loop_structured_once : ¬ FaithfulReconstruction loopGraph zero ∧
    ¬ FaithfulRestructuring loopGraph (some zero) := by
  have hwf : loopGraph.WellFormed := wellFormed_buildCFG _ _ _
  have hnot : ¬ loopGraph.graph.Structured zero := by
    intro h
    have htwice : loopGraph.graph.EnteredTwice zero zero :=
      ⟨zero, true, .refl, by simp [FlowGraph.succ, exit_loopGraph], .inl rfl⟩
    have hnil := (((h zero .refl).2 htwice) zero .refl).1
    have hvar : loopGraph.dispatcherVar = "Q" := rfl
    have hobs := observe_block getBlock_loopGraph
    rw [FlowGraph.observe, hnil, hvar] at hobs
    simp [loopBlock, leafBlock, loopLeaf, stripStateAssignments, isStateAssignment] at hobs
  have hfind : loopGraph.findBlockForState zero = some loopBlock := by
    rw [ControlFlowGraph.findBlockForState, getBlock_loopGraph]
  constructor
  · rw [faithfulReconstruction_iff hwf]
    exact fun h => hnot (loopBlock_id ▸ h loopBlock hfind)
  · rw [faithfulRestructuring_iff hwf]
    exact fun h => hnot (loopBlock_id ▸ h loopBlock getBlock_loopGraph)

end Example
end LuaRecovery.Transforms
