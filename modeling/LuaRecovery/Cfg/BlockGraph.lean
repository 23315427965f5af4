import LuaRecovery.Cfg.MultiEntry
import Mathlib.Data.List.Nodup

/-!
# The flow graph of a dispatcher

Walking the blocks of a graph without the assignments to the state variable. A
graph that `buildCFG` returns has one block for an id, edges between its blocks
and, for each block, one of a few ways out. The states that the traversal of a
function context records are those that the walk can reach.
-/

set_option autoImplicit false

namespace LuaRecovery.Cfg
open LuaRecovery.Lib LuaRecovery.Lua LuaRecovery.Evaluator

section Definitions
variable {N : Type}

/-- An assignment to the state variable alone. -/
def isStateAssignment (stateVar : String) : Stmt N → Bool
  | .assignmentStatement [.identifier name] _ => name == stateVar
  | _ => false

/-- Clean out state-variable assignments from statement lists. -/
def stripStateAssignments (statements : List (Stmt N)) (stateVar : String) : List (Stmt N) :=
  statements.filter (fun stmt => !isStateAssignment stateVar stmt)

/-- The way out of a block that its successors are. -/
def exitOf : List (Edge N) → Option (Exit N (Expr N))
  | [] => some .stop
  | [e] => match e.type, e.condition with
      | .unconditional, _ => some (.goto e.target)
      | .conditionalTrue, some c => some (.half c true e.target)
      | .conditionalFalse, some c => some (.half c false e.target)
      | _, _ => none
  | [e, e'] => match e.type, e.condition, e'.type with
      | .conditionalTrue, some c, .conditionalFalse => some (.branch c e.target e'.target)
      | _, _, _ => none
  | _ => none

variable [JsNumber N]

/-- The blocks by their ids, each with its non-state statements. -/
def ControlFlowGraph.graph (cfg : ControlFlowGraph N) : FlowGraph N (Stmt N) (Expr N) where
  statements id := match cfg.getBlock id with
    | some b => stripStateAssignments b.statements cfg.dispatcherVar
    | none => []
  exit id := match cfg.getBlock id with
    | some b => (exitOf (cfg.successors b)).getD .stop
    | none => .stop

/-- One block for an id, edges between blocks, and a way out of each block. -/
structure ControlFlowGraph.WellFormed (cfg : ControlFlowGraph N) : Prop where
  distinct : (cfg.blocks.map (fun b => b.id)).Nodup
  targets : ∀ e ∈ cfg.edges, ∃ b ∈ cfg.blocks, b.id = e.target
  shaped : ∀ b ∈ cfg.blocks, ∃ x, exitOf (cfg.successors b) = some x

end Definitions

section Transitions
variable {N : Type} [JsNumber N]

/-- The transitions of a leaf's last update. -/
inductive ShapedTransitions : List (Transition N) → Prop
  | none : ShapedTransitions []
  | unconditional (v : N) : ShapedTransitions [⟨some v, .unconditional, .none, .none⟩]
  | branch (c : Expr N) (s1 s2 : N) : ShapedTransitions (branchTransitions c s1 s2)
  | dynamic (e : Expr N) : ShapedTransitions [⟨.none, .dynamic, .none, some e⟩]

theorem shaped_scanUpdate {scan : LeafScan N} (h : ShapedTransitions scan.stateTransitions)
    (e : Expr N) : ShapedTransitions (scanUpdate scan e).stateTransitions := by
  unfold scanUpdate
  split
  · exact .unconditional _
  · dsimp only
    split
    · split
      · exact .branch _ _ _
      · exact h
    · split
      · exact .branch _ _ _
      · exact h
  · split <;> exact h
  · exact h
  · exact h
  · exact .dynamic _

theorem shaped_scanStatement (stateVar : String) {scan : LeafScan N}
    (h : ShapedTransitions scan.stateTransitions) (stmt : Stmt N) :
    ShapedTransitions (scanStatement stateVar scan stmt).stateTransitions := by
  unfold scanStatement
  split
  · dsimp only
    split
    · apply shaped_scanUpdate
      split <;> exact h
    · split <;> exact h
  · exact h

theorem shaped_foldl (stateVar : String) (statements : List (Stmt N)) {scan : LeafScan N}
    (h : ShapedTransitions scan.stateTransitions) :
    ShapedTransitions (statements.foldl (scanStatement stateVar) scan).stateTransitions := by
  induction statements generalizing scan with
  | nil => exact h
  | cons stmt rest ih => exact ih (shaped_scanStatement stateVar h stmt)

theorem shaped_scanLeaf (stateVar : String) (statements : List (Stmt N)) :
    ShapedTransitions (scanLeaf stateVar statements).stateTransitions :=
  shaped_foldl stateVar statements .none

/-- What the transitions of a leaf connect is one way out. -/
theorem exitOf_edges {ts : List (Transition N)} (h : ShapedTransitions ts)
    (blocks : List (BasicBlock N)) (b : BasicBlock N) :
    ∃ x, exitOf (ts.filterMap (transitionEdge blocks b)) = some x := by
  cases h with
  | none => exact ⟨_, rfl⟩
  | unconditional v =>
    cases hv : blocks.find? (fun b => b.contains v) with
    | none => exact ⟨.stop, by simp [transitionEdge, hv, exitOf]⟩
    | some t => exact ⟨.goto t.id, by simp [transitionEdge, hv, exitOf]⟩
  | branch c s1 s2 =>
    cases h1 : blocks.find? (fun b => b.contains s1) with
    | none =>
      cases h2 : blocks.find? (fun b => b.contains s2) with
      | none => exact ⟨.stop, by simp [branchTransitions, transitionEdge, h1, h2, exitOf]⟩
      | some t2 =>
        exact ⟨.half c false t2.id, by simp [branchTransitions, transitionEdge, h1, h2, exitOf]⟩
    | some t1 =>
      cases h2 : blocks.find? (fun b => b.contains s2) with
      | none =>
        exact ⟨.half c true t1.id, by simp [branchTransitions, transitionEdge, h1, h2, exitOf]⟩
      | some t2 =>
        exact ⟨.branch c t1.id t2.id, by simp [branchTransitions, transitionEdge, h1, h2, exitOf]⟩
  | dynamic e => exact ⟨.stop, rfl⟩

end Transitions

section Blocks
variable [Host]

theorem sameKey_iff {d d' : Double} : sameKey d d' = true ↔ d = d' := by
  constructor
  · intro h
    by_cases hd : d = .nan
    · subst hd
      cases d' with
      | nan => rfl
      | finite q hq => simp [sameKey, LuaNumber.eq, Double.eq] at h
      | infinity negative => simp [sameKey, LuaNumber.eq, Double.eq] at h
    · exact eq_of_sameKey hd h
  · rintro rfl
    exact sameKey_refl d

theorem ids_addBlock (blocks : List (BasicBlock Double)) (block : BasicBlock Double)
    (h : (blocks.map (fun b => b.id)).Nodup) :
    ((addBlock blocks block).map (fun b => b.id)).Nodup := by
  unfold addBlock
  split
  · rw [List.map_map]
    have hsame : (fun b => b.id) ∘ (fun b => if sameKey b.id block.id then block else b) =
        fun b : BasicBlock Double => b.id := by
      funext b
      by_cases hb : sameKey b.id block.id = true
      · simp only [Function.comp, hb, if_true]
        exact (sameKey_iff.mp hb).symm
      · simp only [Function.comp, hb, if_false, Bool.false_eq_true]
    rw [hsame]
    exact h
  · rename_i hnone
    rw [List.map_append, List.nodup_append]
    refine ⟨h, List.nodup_singleton _, ?_⟩
    intro a ha b hb hab
    obtain ⟨c, hc, rfl⟩ := List.mem_map.mp ha
    rw [List.map_singleton, List.mem_singleton] at hb
    exact hnone (List.any_eq_true.mpr ⟨c, hc, sameKey_iff.mpr (hab.trans hb)⟩)

theorem ids_traverseTree (stateVar : String) (stack : List (Pending Double)) (b : Builder Double)
    (h : (b.blocks.map (fun b => b.id)).Nodup) :
    ((traverseTree stateVar stack b).blocks.map (fun b => b.id)).Nodup := by
  fun_induction traverseTree stateVar stack b with
  | case1 b => exact h
  | case2 b p rest right thenBody elseBody hd ih => exact ih h
  | case3 b p rest hd ih => exact ih (ids_addBlock _ _ h)

theorem ids_markEntry (v : Double) (blocks : List (BasicBlock Double)) :
    (markEntry v blocks).1.map (fun b => b.id) = blocks.map (fun b => b.id) := by
  induction blocks with
  | nil => rfl
  | cons b bs ih =>
    rw [markEntry]
    split
    · rfl
    · rw [List.map_cons, List.map_cons, ih]

omit [Host] in
theorem eq_of_id {blocks : List (BasicBlock Double)} (h : (blocks.map (fun b => b.id)).Nodup)
    {b c : BasicBlock Double} (hb : b ∈ blocks) (hc : c ∈ blocks) (hid : b.id = c.id) : b = c :=
  List.inj_on_of_nodup_map h hb hc hid

/-- The edges that leave a block are those of its own transitions. -/
theorem edges_of_block {blocks : List (BasicBlock Double)} {source : BasicBlock Double}
    (f : BasicBlock Double → List (Edge Double))
    (hf : ∀ b, ∀ e ∈ f b, e.source = b.id) (h : (blocks.map (fun b => b.id)).Nodup)
    (hs : source ∈ blocks) :
    (blocks.flatMap f).filter (fun e => sameKey e.source source.id) = f source := by
  induction blocks with
  | nil => cases hs
  | cons b bs ih =>
    obtain ⟨hnew, hbs⟩ := List.nodup_cons.mp h
    rw [List.flatMap_cons, List.filter_append]
    have hkeep : ∀ c : BasicBlock Double, c.id = source.id →
        (f c).filter (fun e => sameKey e.source source.id) = f c := by
      intro c hc
      refine List.filter_eq_self.mpr (fun e he => ?_)
      rw [hf c e he, hc, sameKey_refl]
    have hdrop : ∀ c : BasicBlock Double, c.id ≠ source.id →
        (f c).filter (fun e => sameKey e.source source.id) = [] := by
      intro c hc
      refine List.filter_eq_nil_iff.mpr (fun e he hkey => ?_)
      rw [hf c e he] at hkey
      exact hc (sameKey_iff.mp hkey)
    rcases List.mem_cons.mp hs with rfl | hs
    · have hrest : (bs.flatMap f).filter (fun e => sameKey e.source source.id) = [] := by
        rw [List.filter_flatMap]
        refine List.flatMap_eq_nil_iff.mpr (fun c hc => hdrop c (fun heq => ?_))
        exact hnew (List.mem_map.mpr ⟨c, hc, heq⟩)
      rw [hkeep _ rfl, hrest, List.append_nil]
    · have hne : b.id ≠ source.id := fun heq => hnew (List.mem_map.mpr ⟨source, hs, heq.symm⟩)
      rw [hdrop b hne, List.nil_append, ih hbs hs]

theorem source_transitionEdge {blocks : List (BasicBlock Double)} {b : BasicBlock Double}
    {t : Transition Double} {e : Edge Double} (h : transitionEdge blocks b t = some e) :
    e.source = b.id ∧ ∃ c ∈ blocks, c.id = e.target := by
  unfold transitionEdge at h
  simp only [Option.bind_eq_bind, Option.bind_eq_some_iff] at h
  obtain ⟨v, -, c, hc, h⟩ := h
  cases h
  exact ⟨rfl, c, List.mem_of_find?_eq_some hc, rfl⟩

theorem successors_connect (stateVar : String) {blocks : List (BasicBlock Double)}
    (hids : (blocks.map (fun b => b.id)).Nodup) (entry : Option Double) {b : BasicBlock Double}
    (hb : b ∈ blocks) : (connect stateVar blocks entry).successors b =
      b.stateTransitions.filterMap (transitionEdge blocks b) := by
  refine edges_of_block (fun b => b.stateTransitions.filterMap (transitionEdge blocks b))
    (fun b e he => ?_) hids hb
  obtain ⟨t, _, ht⟩ := List.mem_filterMap.mp he
  exact (source_transitionEdge ht).1

theorem wellFormed_connect {stateVar : String} {blocks : List (BasicBlock Double)}
    (hids : (blocks.map (fun b => b.id)).Nodup) (hscan : ∀ b ∈ blocks, b.Scanned stateVar)
    (entry : Option Double) : (connect stateVar blocks entry).WellFormed where
  distinct := hids
  targets := by
    intro e he
    obtain ⟨b, _, he⟩ := List.mem_flatMap.mp he
    obtain ⟨t, _, ht⟩ := List.mem_filterMap.mp he
    exact (source_transitionEdge ht).2
  shaped := by
    intro b hb
    rw [successors_connect stateVar hids entry hb, (hscan b hb).1]
    exact exitOf_edges (shaped_scanLeaf stateVar b.statements) blocks b

/-- What `buildCFG` returns is well formed, whatever statement it is given. -/
theorem wellFormed_buildCFG (stateVar : String) (root : Stmt Double) (entry : Option Double) :
    (buildCFG stateVar root entry).WellFormed := by
  have hids := ids_traverseTree stateVar
    [⟨.node root, LuaNumber.neg JsNumber.infinity, JsNumber.infinity⟩] ⟨0, []⟩ (by simp)
  have hscan := scanned_buildCFG stateVar root entry
  cases entry with
  | none => exact wellFormed_connect hids hscan none
  | some v =>
    exact wellFormed_connect ((ids_markEntry v _).symm ▸ hids) hscan _

/-- Every edge leaves a block. -/
theorem sources_buildCFG (stateVar : String) (root : Stmt Double) (entry : Option Double) :
    ∀ e ∈ (buildCFG stateVar root entry).edges,
      ∃ b ∈ (buildCFG stateVar root entry).blocks, b.id = e.source := by
  have hconnect : ∀ (blocks : List (BasicBlock Double)) (entry : Option Double),
      ∀ e ∈ (connect stateVar blocks entry).edges, ∃ b ∈ blocks, b.id = e.source := by
    intro blocks entry e he
    obtain ⟨b, hb, he⟩ := List.mem_flatMap.mp he
    obtain ⟨t, _, ht⟩ := List.mem_filterMap.mp he
    exact ⟨b, hb, (source_transitionEdge ht).1.symm⟩
  cases entry with
  | none => exact hconnect _ none
  | some v => exact hconnect _ _

omit [Host] in
theorem ofRat_ne_nan (q : ℚ) : Double.ofRat q ≠ .nan := by
  unfold Double.ofRat
  intro h
  split at h <;> cases h

theorem stateId_ne_nan (minVal maxVal : Double) (counter : ℕ) :
    stateId minVal maxVal counter ≠ .nan := by
  unfold stateId
  split
  · rename_i hfinite
    obtain ⟨hmin, hmax⟩ := Bool.and_eq_true_iff.mp hfinite
    have hhalf : ∀ x : Double, x ≠ .nan → x.div (.ofRat 2) ≠ .nan := by
      intro x hx
      have htwo : Double.ofRat 2 = .finite 2 (Double.isDouble_int (n := 2) (by norm_num)) :=
        Double.ofRat_eq (Double.isDouble_int (n := 2) (by norm_num))
      rw [htwo]
      cases x with
      | finite q hq =>
        rw [Double.div, if_neg (by norm_num : ¬ (2 : ℚ) = 0)]
        exact ofRat_ne_nan _
      | infinity negative =>
        intro h
        cases h
      | nan => exact absurd rfl hx
    have hfloor : ∀ x : Double, x ≠ .nan → x.floor ≠ .nan := by
      intro x hx
      cases x with
      | finite q hq => exact ofRat_ne_nan _
      | infinity negative =>
        intro h
        cases h
      | nan => exact absurd rfl hx
    cases minVal with
    | finite a ha =>
      cases maxVal with
      | finite b hb => exact hfloor _ (hhalf _ (ofRat_ne_nan _))
      | infinity negative => cases hmax
      | nan => cases hmax
    | infinity negative => cases hmin
    | nan => cases hmin
  · split
    · rename_i hmin
      rintro rfl
      cases hmin
    · split
      · rename_i hmax
        cases maxVal with
        | finite b hb =>
          have hone : (LuaNumber.one : Double) =
              .finite 1 (Double.isDouble_int (n := 1) (by norm_num)) := by
            have h1 := Double.ofRat_eq (Double.isDouble_int (n := 1) (by norm_num))
            exact_mod_cast h1
          show Double.add _ (Double.neg LuaNumber.one) ≠ .nan
          rw [hone]
          exact ofRat_ne_nan _
        | infinity negative => cases hmax
        | nan => cases hmax
      · exact ofRat_ne_nan _

theorem known_traverseTree (stateVar : String) (stack : List (Pending Double))
    (b : Builder Double) (h : ∀ c ∈ b.blocks, c.id ≠ .nan) :
    ∀ c ∈ (traverseTree stateVar stack b).blocks, c.id ≠ .nan := by
  fun_induction traverseTree stateVar stack b with
  | case1 b => exact h
  | case2 b p rest right thenBody elseBody hd ih => exact ih h
  | case3 b p rest hd ih =>
    apply ih
    intro c hc
    rcases mem_addBlock hc with hc | rfl
    · exact h c hc
    · exact stateId_ne_nan _ _ _

/-- The id of a block is a number that equals itself. -/
theorem id_ne_nan_buildCFG (stateVar : String) (root : Stmt Double) (entry : Option Double) :
    ∀ b ∈ (buildCFG stateVar root entry).blocks, b.id ≠ .nan := by
  have hall := known_traverseTree stateVar
    [⟨.node root, LuaNumber.neg JsNumber.infinity, JsNumber.infinity⟩] ⟨0, []⟩ (by simp)
  cases entry with
  | none => exact hall
  | some v =>
    intro b hb
    have hid : b.id ∈ (markEntry v _).1.map (fun b => b.id) := List.mem_map.mpr ⟨b, hb, rfl⟩
    rw [ids_markEntry] at hid
    obtain ⟨c, hc, heq⟩ := List.mem_map.mp hid
    rw [← heq]
    exact hall c hc

end Blocks

section Graph
variable [Host] {cfg : ControlFlowGraph Double}

theorem getBlock_id {id : Double} {b : BasicBlock Double} (h : cfg.getBlock id = some b) :
    b ∈ cfg.blocks ∧ b.id = id :=
  ⟨List.mem_of_find?_eq_some h,
    sameKey_iff.mp (List.find?_some (p := fun b : BasicBlock Double => sameKey b.id id) h)⟩

theorem getBlock_of_mem (hw : cfg.WellFormed) {b : BasicBlock Double} (hb : b ∈ cfg.blocks) :
    cfg.getBlock b.id = some b := by
  cases h : cfg.getBlock b.id with
  | none =>
    have hnone := List.find?_eq_none.mp h b hb
    rw [sameKey_refl] at hnone
    exact absurd rfl hnone
  | some c =>
    obtain ⟨hc, hid⟩ := getBlock_id h
    rw [eq_of_id hw.distinct hc hb hid]

theorem findBlockForState_mem {stateId : Double} {b : BasicBlock Double}
    (h : cfg.findBlockForState stateId = some b) : b ∈ cfg.blocks := by
  unfold ControlFlowGraph.findBlockForState at h
  split at h
  · rename_i c hc
    cases h
    exact (getBlock_id hc).1
  · exact List.mem_of_find?_eq_some h

theorem graph_exit {id : Double} {b : BasicBlock Double} {x : Exit Double (Expr Double)}
    (hb : cfg.getBlock id = some b) (hx : exitOf (cfg.successors b) = some x) :
    cfg.graph.exit id = x := by
  simp [ControlFlowGraph.graph, hb, hx]

omit [Host] in
/-- The targets of the successors, by the arm that each is on. -/
theorem exitOf_cases {es : List (Edge Double)} {x : Exit Double (Expr Double)}
    (h : exitOf es = some x) : (∀ e ∈ es, e.type.followed = true) ∧
      match x with
      | .stop => es = []
      | .goto t => es.map (fun e => e.target) = [t]
      | .branch _ t f => es.map (fun e => e.target) = [t, f]
      | .half _ _ t => es.map (fun e => e.target) = [t] := by
  rcases es with _ | ⟨e, _ | ⟨e', _ | ⟨e'', es⟩⟩⟩
  · cases h
    simp
  · obtain ⟨source, target, type, condition⟩ := e
    cases type <;> cases condition <;> simp [exitOf] at h <;> subst h <;>
      simp [EdgeType.followed]
  · obtain ⟨source, target, type, condition⟩ := e
    obtain ⟨source', target', type', condition'⟩ := e'
    cases type <;> cases condition <;> cases type' <;> simp [exitOf] at h
    subst h
    simp [EdgeType.followed]
  · cases h

theorem next_iff (hw : cfg.WellFormed) {id id' : Double} {b : BasicBlock Double}
    (hb : cfg.getBlock id = some b) :
    cfg.graph.Next id id' ↔ id' ∈ (cfg.successors b).map (fun e => e.target) := by
  obtain ⟨x, hx⟩ := hw.shaped b (getBlock_id hb).1
  have hexit := graph_exit hb hx
  have hcases := (exitOf_cases hx).2
  unfold FlowGraph.Next FlowGraph.succ
  rw [hexit]
  cases x with
  | stop => simp [hcases]
  | goto t => simp [hcases, eq_comm]
  | branch c t f => simp [hcases, eq_comm, or_comm]
  | half c a t => simp [hcases, eq_comm]

theorem getBlock_next (hw : cfg.WellFormed) {id id' : Double} (h : cfg.graph.Next id id') :
    ∃ b, cfg.getBlock id' = some b := by
  cases hb : cfg.getBlock id with
  | none =>
    obtain ⟨arm, hs⟩ := h
    simp [FlowGraph.succ, ControlFlowGraph.graph, hb] at hs
  | some b =>
    obtain ⟨e, he, rfl⟩ := List.mem_map.mp ((next_iff hw hb).mp h)
    obtain ⟨c, hc, hid⟩ := hw.targets e (List.mem_filter.mp he).1
    exact ⟨c, hid ▸ getBlock_of_mem hw hc⟩

omit [Host] in
theorem worklist_pushEdges (ctx : AbstractContext) (es : List (Edge Double))
    (t : Traversal Double) :
    (es.foldl (pushEdge ctx) t).worklist.map Prod.fst = t.worklist.map Prod.fst ++
        (es.filter (fun e => e.type.followed)).map (fun e => e.target) ∧
      (es.foldl (pushEdge ctx) t).reachableStates = t.reachableStates := by
  induction es generalizing t with
  | nil => simp
  | cons e es ih =>
    have hone : (pushEdge ctx t e).worklist.map Prod.fst = t.worklist.map Prod.fst ++
        ([e].filter (fun e => e.type.followed)).map (fun e => e.target) ∧
        (pushEdge ctx t e).reachableStates = t.reachableStates := by
      unfold pushEdge
      cases htype : e.type with
      | tableDispatch | dynamic => simp [htype, EdgeType.followed]
      | unconditional => simp [htype, EdgeType.followed]
      | conditionalTrue => cases e.condition <;> simp [htype, EdgeType.followed]
      | conditionalFalse => cases e.condition <;> simp [htype, EdgeType.followed]
    obtain ⟨h1, h2⟩ := ih (pushEdge ctx t e)
    rw [List.foldl_cons, h1, h2, hone.1, hone.2, List.append_assoc, ← List.map_append,
      ← List.filter_append, List.singleton_append]
    exact ⟨rfl, rfl⟩

omit [Host] in
theorem worklist_foldl (ctx : AbstractContext) {es : List (Edge Double)}
    (hes : ∀ e ∈ es, e.type.followed = true) (t : Traversal Double) :
    (es.foldl (pushEdge ctx) t).worklist.map Prod.fst =
        t.worklist.map Prod.fst ++ es.map (fun e => e.target) ∧
      (es.foldl (pushEdge ctx) t).reachableStates = t.reachableStates := by
  have h := worklist_pushEdges ctx es t
  rwa [List.filter_eq_self.mpr hes] at h

theorem mem_addReachableState {states : List Double} {stateId id : Double} :
    id ∈ addReachableState states stateId ↔ id ∈ states ∨ id = stateId := by
  unfold addReachableState
  split
  · rename_i hany
    obtain ⟨s, hs, hkey⟩ := List.any_eq_true.mp hany
    rw [sameKey_iff.mp hkey] at hs
    constructor
    · exact .inl
    · rintro (h | rfl)
      · exact h
      · exact hs
  · simp

/-- The states found so far and the ones still to visit. -/
structure Explores (cfg : ControlFlowGraph Double) (entry : Double) (t : Traversal Double) :
    Prop where
  start : entry ∈ t.reachableStates ∨ entry ∈ t.worklist.map Prod.fst
  visited : ∀ v ∈ t.visited, v.1 ∈ t.reachableStates
  closed : ∀ id ∈ t.reachableStates, ∀ id', cfg.graph.Next id id' →
    id' ∈ t.reachableStates ∨ id' ∈ t.worklist.map Prod.fst
  sound : ∀ id ∈ t.reachableStates, cfg.graph.Reach entry id
  pending : ∀ id ∈ t.worklist.map Prod.fst, cfg.graph.Reach entry id
  known : ∀ id ∈ t.worklist.map Prod.fst, ∃ b, cfg.getBlock id = some b

/-- A state that was visited before needs no second visit. -/
theorem Explores.skip {entry id : Double} {ctx : AbstractContext} {t : Traversal Double}
    {rest : List (Double × AbstractContext)} (h : Explores cfg entry t)
    (hw : t.worklist = (id, ctx) :: rest) (hid : id ∈ t.reachableStates) :
    Explores cfg entry { t with worklist := rest } := by
  have hsub : ∀ x, x ∈ t.worklist.map Prod.fst → x ∈ t.reachableStates ∨ x ∈ rest.map Prod.fst := by
    intro x hx
    rw [hw, List.map_cons] at hx
    rcases List.mem_cons.mp hx with rfl | hx
    · exact .inl hid
    · exact .inr hx
  have hrest : ∀ x, x ∈ rest.map Prod.fst → x ∈ t.worklist.map Prod.fst := by
    intro x hx
    rw [hw]
    exact List.mem_cons_of_mem _ hx
  exact {
    start := h.start.elim .inl (hsub entry)
    visited := h.visited
    closed := fun x hx y hy => (h.closed x hx y hy).elim .inl (hsub y)
    sound := h.sound
    pending := fun x hx => h.pending x (hrest x hx)
    known := fun x hx => h.known x (hrest x hx) }

theorem Explores.visit {entry id : Double} {ctx : AbstractContext} {t : Traversal Double}
    {rest : List (Double × AbstractContext)} {block : BasicBlock Double} (hcfg : cfg.WellFormed)
    (h : Explores cfg entry t) (hw : t.worklist = (id, ctx) :: rest)
    (hb : cfg.getBlock id = some block) :
    Explores cfg entry (Traversal.visit { t with worklist := rest } cfg block ctx) := by
  obtain ⟨x, hx⟩ := hcfg.shaped block (getBlock_id hb).1
  have hblock : block.id = id := (getBlock_id hb).2
  obtain ⟨hwork, hreach⟩ := worklist_foldl ctx (exitOf_cases hx).1 { t with
    worklist := rest, visited := (block.id, ctxKey t.heap ctx) :: t.visited,
    reachableStates := addReachableState t.reachableStates block.id }
  have hvisited := visited_visit { t with worklist := rest } cfg block ctx
  have hhead : cfg.graph.Reach entry id := by
    apply h.pending
    rw [hw]
    exact List.mem_cons_self
  have hin : ∀ y, y ∈ t.reachableStates ∨ y ∈ t.worklist.map Prod.fst →
      y ∈ addReachableState t.reachableStates block.id ∨
        y ∈ rest.map Prod.fst ++ (cfg.successors block).map (fun e => e.target) := by
    intro y hy
    rcases hy with hy | hy
    · exact .inl (mem_addReachableState.mpr (.inl hy))
    · rw [hw, List.map_cons] at hy
      rcases List.mem_cons.mp hy with hy | hy
      · exact .inl (mem_addReachableState.mpr (.inr (hy.trans hblock.symm)))
      · exact .inr (List.mem_append_left _ hy)
  have hnext : ∀ y, y ∈ (cfg.successors block).map (fun e => e.target) ↔ cfg.graph.Next id y :=
    fun y => (next_iff hcfg hb).symm
  have hrest : ∀ y, y ∈ rest.map Prod.fst → y ∈ t.worklist.map Prod.fst := by
    intro y hy
    rw [hw]
    exact List.mem_cons_of_mem _ hy
  constructor
  · rw [Traversal.visit, hwork, hreach]
    exact hin entry h.start
  · rw [hvisited, Traversal.visit, hreach]
    intro v hv
    rcases List.mem_cons.mp hv with rfl | hv
    · exact mem_addReachableState.mpr (.inr rfl)
    · exact mem_addReachableState.mpr (.inl (h.visited v hv))
  · rw [Traversal.visit, hwork, hreach]
    intro y hy z hz
    rcases mem_addReachableState.mp hy with hy | rfl
    · exact hin z (h.closed y hy z hz)
    · exact .inr (List.mem_append_right _ ((hnext z).mpr (hblock ▸ hz)))
  · rw [Traversal.visit, hreach]
    intro y hy
    rcases mem_addReachableState.mp hy with hy | rfl
    · exact h.sound y hy
    · exact hblock ▸ hhead
  · rw [Traversal.visit, hwork]
    intro y hy
    rcases List.mem_append.mp hy with hy | hy
    · exact h.pending y (hrest y hy)
    · exact hhead.tail ((hnext y).mp hy)
  · rw [Traversal.visit, hwork]
    intro y hy
    rcases List.mem_append.mp hy with hy | hy
    · exact h.known y (hrest y hy)
    · exact getBlock_next hcfg ((hnext y).mp hy)

/-- The worklist runs empty and what it has found is closed. -/
theorem explores_traverse (hcfg : cfg.WellFormed) {entry : Double} (t : Traversal Double)
    (h : Explores cfg entry t) :
    Explores cfg entry (traverse cfg t) ∧ (traverse cfg t).worklist = [] := by
  fun_induction traverse cfg t with
  | case1 t hw => exact ⟨h, hw⟩
  | case2 t id ctx rest hw hb ih =>
    obtain ⟨b, hsome⟩ := h.known id (by rw [hw]; exact List.mem_cons_self)
    rw [hb] at hsome
    cases hsome
  | case3 t id ctx rest hw block hb hv ih =>
    apply ih
    obtain ⟨v, hmem, hsame⟩ := List.any_eq_true.mp hv
    have hid : v.1 = id :=
      (sameKey_iff.mp (Bool.and_eq_true_iff.mp hsame).1).trans (getBlock_id hb).2
    exact h.skip hw (hid ▸ h.visited v hmem)
  | case4 t id ctx rest hw block hb hv ih => exact ih (h.visit hcfg hw hb)

/-- A function context owns the states that the walk from its entry block can reach. -/
theorem mem_reachableStates (hcfg : cfg.WellFormed) {entryState : Double}
    {b : BasicBlock Double} (hb : cfg.findBlockForState entryState = some b) (id : Double) :
    id ∈ reachableStates cfg entryState ↔ cfg.graph.Reach b.id id := by
  have hblock := getBlock_of_mem hcfg (findBlockForState_mem hb)
  have hstart : Explores cfg b.id ⟨[], [(b.id, none)], [], []⟩ := {
    start := .inr List.mem_cons_self
    visited := by simp
    closed := by simp
    sound := by simp
    pending := by simp [Relation.ReflTransGen.refl]
    known := by simp [hblock] }
  obtain ⟨h, hempty⟩ := explores_traverse hcfg _ hstart
  rw [reachableStates, hb]
  constructor
  · exact h.sound id
  · intro hr
    have hnone : ∀ x, x ∉ (traverse cfg ⟨[], [(b.id, none)], [], []⟩).worklist.map Prod.fst := by
      simp [hempty]
    induction hr with
    | refl => exact h.start.resolve_right (hnone _)
    | tail _ hnext ih => exact (h.closed _ ih _ hnext).resolve_right (hnone _)

end Graph
end LuaRecovery.Cfg
