import LuaRecovery.Lib.Digraph
import LuaRecovery.Lib.InsertionMap
import LuaRecovery.Lib.ListEntries
import Mathlib.Data.List.Perm.Basic

/-!
# The evaluation order graph

`analysis/evaluation-order-graph.js`. The edges are kept at both of their ends,
as sets in the order of insertion; a graph carries that the two ends agree.
-/

set_option autoImplicit false

namespace LuaRecovery.Analysis
open LuaRecovery.Lib Relation

structure EvaluationOrderNode (K M : Type) where
  operationType : String
  metadata : M
  predecessors : List K
  successors : List K

section Links
variable {K M : Type} [DecidableEq K]

abbrev Nodes (K M : Type) := InsertionMap K (EvaluationOrderNode K M)

def successorsOf (nodes : Nodes K M) (id : K) : List K :=
  match nodes.get id with
  | some node => node.successors
  | none => []

def predecessorsOf (nodes : Nodes K M) (id : K) : List K :=
  match nodes.get id with
  | some node => node.predecessors
  | none => []

/-- Each edge is kept once at its source and once at its target, both nodes. -/
structure Linked (nodes : Nodes K M) : Prop where
  agree : ∀ a b, b ∈ successorsOf nodes a ↔ a ∈ predecessorsOf nodes b
  once : ∀ a, (successorsOf nodes a).Nodup
  onceBack : ∀ b, (predecessorsOf nodes b).Nodup

end Links

structure EvaluationOrderGraph (K M : Type) [DecidableEq K] where
  nodes : Nodes K M
  linked : Linked nodes

namespace EvaluationOrderGraph
variable {K M : Type} [DecidableEq K]

def addNodeTo (nodes : Nodes K M) (id : K) (operationType : String) (metadata : M) : Nodes K M :=
  if id ∈ nodes.keys then nodes else nodes.set id ⟨operationType, metadata, [], []⟩

def addSuccessor (nodes : Nodes K M) (id toId : K) : Nodes K M :=
  match nodes.get id with
  | some node => nodes.set id { node with successors := insertLast node.successors toId }
  | none => nodes

def addPredecessor (nodes : Nodes K M) (id fromId : K) : Nodes K M :=
  match nodes.get id with
  | some node => nodes.set id { node with predecessors := insertLast node.predecessors fromId }
  | none => nodes

/-- An edge between nodes that are not both there is dropped. -/
def addEdgeTo (nodes : Nodes K M) (fromId toId : K) : Nodes K M :=
  if fromId ∈ nodes.keys ∧ toId ∈ nodes.keys then
    addPredecessor (addSuccessor nodes fromId toId) toId fromId
  else nodes

theorem successorsOf_addNodeTo (nodes : Nodes K M) (id : K) (operationType : String)
    (metadata : M) (a : K) :
    successorsOf (addNodeTo nodes id operationType metadata) a = successorsOf nodes a := by
  unfold addNodeTo
  split
  · rfl
  · rename_i hid
    unfold successorsOf
    by_cases ha : a = id
    · subst ha
      rw [InsertionMap.get_set_self, (nodes.get_eq_none_iff a).mpr hid]
    · rw [InsertionMap.get_set_ne _ _ ha]

theorem predecessorsOf_addNodeTo (nodes : Nodes K M) (id : K) (operationType : String)
    (metadata : M) (a : K) :
    predecessorsOf (addNodeTo nodes id operationType metadata) a = predecessorsOf nodes a := by
  unfold addNodeTo
  split
  · rfl
  · rename_i hid
    unfold predecessorsOf
    by_cases ha : a = id
    · subst ha
      rw [InsertionMap.get_set_self, (nodes.get_eq_none_iff a).mpr hid]
    · rw [InsertionMap.get_set_ne _ _ ha]

theorem linked_addNodeTo {nodes : Nodes K M} (h : Linked nodes) (id : K) (operationType : String)
    (metadata : M) : Linked (addNodeTo nodes id operationType metadata) where
  agree a b := by
    rw [successorsOf_addNodeTo, predecessorsOf_addNodeTo]
    exact h.agree a b
  once a := by
    rw [successorsOf_addNodeTo]
    exact h.once a
  onceBack b := by
    rw [predecessorsOf_addNodeTo]
    exact h.onceBack b

theorem successorsOf_addSuccessor {nodes : Nodes K M} {id : K} (hid : id ∈ nodes.keys)
    (toId a : K) : successorsOf (addSuccessor nodes id toId) a =
      if a = id then insertLast (successorsOf nodes a) toId else successorsOf nodes a := by
  obtain ⟨node, hnode⟩ := (nodes.mem_keys_iff id).mp hid
  unfold successorsOf addSuccessor
  rw [hnode]
  by_cases ha : a = id
  · subst ha
    simp [InsertionMap.get_set_self, hnode]
  · simp [InsertionMap.get_set_ne, ha]

theorem predecessorsOf_addSuccessor (nodes : Nodes K M) (id toId a : K) :
    predecessorsOf (addSuccessor nodes id toId) a = predecessorsOf nodes a := by
  unfold predecessorsOf addSuccessor
  cases hnode : nodes.get id with
  | none => rfl
  | some node =>
    by_cases ha : a = id
    · subst ha
      simp [InsertionMap.get_set_self, hnode]
    · simp [InsertionMap.get_set_ne, ha]

theorem successorsOf_addPredecessor (nodes : Nodes K M) (id fromId a : K) :
    successorsOf (addPredecessor nodes id fromId) a = successorsOf nodes a := by
  unfold successorsOf addPredecessor
  cases hnode : nodes.get id with
  | none => rfl
  | some node =>
    by_cases ha : a = id
    · subst ha
      simp [InsertionMap.get_set_self, hnode]
    · simp [InsertionMap.get_set_ne, ha]

theorem predecessorsOf_addPredecessor {nodes : Nodes K M} {id : K} (hid : id ∈ nodes.keys)
    (fromId a : K) : predecessorsOf (addPredecessor nodes id fromId) a =
      if a = id then insertLast (predecessorsOf nodes a) fromId else predecessorsOf nodes a := by
  obtain ⟨node, hnode⟩ := (nodes.mem_keys_iff id).mp hid
  unfold predecessorsOf addPredecessor
  rw [hnode]
  by_cases ha : a = id
  · subst ha
    simp [InsertionMap.get_set_self, hnode]
  · simp [InsertionMap.get_set_ne, ha]

theorem keys_addSuccessor (nodes : Nodes K M) (id toId : K) :
    (addSuccessor nodes id toId).keys = nodes.keys := by
  unfold addSuccessor
  cases hnode : nodes.get id with
  | none => rfl
  | some node => exact nodes.keys_set_of_mem _ ((nodes.mem_keys_iff id).mpr ⟨node, hnode⟩)

theorem keys_addPredecessor (nodes : Nodes K M) (id fromId : K) :
    (addPredecessor nodes id fromId).keys = nodes.keys := by
  unfold addPredecessor
  cases hnode : nodes.get id with
  | none => rfl
  | some node => exact nodes.keys_set_of_mem _ ((nodes.mem_keys_iff id).mpr ⟨node, hnode⟩)

theorem successorsOf_addEdgeTo {nodes : Nodes K M} {fromId toId : K} (hfrom : fromId ∈ nodes.keys)
    (hto : toId ∈ nodes.keys) (a : K) : successorsOf (addEdgeTo nodes fromId toId) a =
      if a = fromId then insertLast (successorsOf nodes a) toId else successorsOf nodes a := by
  rw [addEdgeTo, if_pos ⟨hfrom, hto⟩, successorsOf_addPredecessor, successorsOf_addSuccessor hfrom]

theorem predecessorsOf_addEdgeTo {nodes : Nodes K M} {fromId toId : K}
    (hfrom : fromId ∈ nodes.keys) (hto : toId ∈ nodes.keys) (b : K) :
    predecessorsOf (addEdgeTo nodes fromId toId) b =
      if b = toId then insertLast (predecessorsOf nodes b) fromId else predecessorsOf nodes b := by
  have hto' : toId ∈ (addSuccessor nodes fromId toId).keys := by
    rw [keys_addSuccessor]
    exact hto
  rw [addEdgeTo, if_pos ⟨hfrom, hto⟩, predecessorsOf_addPredecessor hto',
    predecessorsOf_addSuccessor]

theorem linked_addEdgeTo {nodes : Nodes K M} (h : Linked nodes) (fromId toId : K) :
    Linked (addEdgeTo nodes fromId toId) := by
  by_cases hboth : fromId ∈ nodes.keys ∧ toId ∈ nodes.keys
  · obtain ⟨hfrom, hto⟩ := hboth
    constructor
    · intro a b
      have hold := h.agree a b
      rw [successorsOf_addEdgeTo hfrom hto, predecessorsOf_addEdgeTo hfrom hto]
      by_cases ha : a = fromId <;> by_cases hb : b = toId <;> simp [ha, hb, mem_insertLast] <;>
        simp_all
    · intro a
      rw [successorsOf_addEdgeTo hfrom hto]
      split
      · exact nodup_insertLast (h.once a) toId
      · exact h.once a
    · intro b
      rw [predecessorsOf_addEdgeTo hfrom hto]
      split
      · exact nodup_insertLast (h.onceBack b) fromId
      · exact h.onceBack b
  · rw [addEdgeTo, if_neg hboth]
    exact h

def empty : EvaluationOrderGraph K M where
  nodes := .empty
  linked := ⟨by simp [successorsOf, predecessorsOf], by simp [successorsOf],
    by simp [predecessorsOf]⟩

def addNode (g : EvaluationOrderGraph K M) (id : K) (operationType : String) (metadata : M) :
    EvaluationOrderGraph K M :=
  ⟨addNodeTo g.nodes id operationType metadata, linked_addNodeTo g.linked id operationType metadata⟩

def addEdge (g : EvaluationOrderGraph K M) (fromId toId : K) : EvaluationOrderGraph K M :=
  ⟨addEdgeTo g.nodes fromId toId, linked_addEdgeTo g.linked fromId toId⟩

def successors (g : EvaluationOrderGraph K M) (id : K) : List K := successorsOf g.nodes id

def predecessors (g : EvaluationOrderGraph K M) (id : K) : List K := predecessorsOf g.nodes id

def Edge (g : EvaluationOrderGraph K M) (a b : K) : Prop := b ∈ g.successors a

/-- An addition of an edge adds that edge alone, between nodes that are there. -/
theorem edge_addEdge {g : EvaluationOrderGraph K M} {fromId toId a b : K} :
    (g.addEdge fromId toId).Edge a b ↔ g.Edge a b ∨
      a = fromId ∧ b = toId ∧ fromId ∈ g.nodes.keys ∧ toId ∈ g.nodes.keys := by
  show b ∈ successorsOf (addEdgeTo g.nodes fromId toId) a ↔ b ∈ successorsOf g.nodes a ∨ _
  by_cases hboth : fromId ∈ g.nodes.keys ∧ toId ∈ g.nodes.keys
  · rw [successorsOf_addEdgeTo hboth.1 hboth.2]
    by_cases ha : a = fromId
    · simp [ha, mem_insertLast, hboth]
    · simp [ha]
  · rw [addEdgeTo, if_neg hboth]
    simp [hboth]

theorem edge_addNode {g : EvaluationOrderGraph K M} {id a b : K} {operationType : String}
    {metadata : M} : (g.addNode id operationType metadata).Edge a b ↔ g.Edge a b := by
  show b ∈ successorsOf (addNodeTo g.nodes id operationType metadata) a ↔ b ∈ successorsOf g.nodes a
  rw [successorsOf_addNodeTo]

theorem source_mem {g : EvaluationOrderGraph K M} {a b : K} (h : g.Edge a b) : a ∈ g.nodes.keys := by
  rw [InsertionMap.mem_keys_iff]
  unfold Edge successors successorsOf at h
  split at h
  · rename_i node hnode
    exact ⟨node, hnode⟩
  · cases h

theorem edge_iff {g : EvaluationOrderGraph K M} {a b : K} : g.Edge a b ↔ a ∈ g.predecessors b :=
  g.linked.agree a b

theorem nodup_successors (g : EvaluationOrderGraph K M) (a : K) : (g.successors a).Nodup :=
  g.linked.once a

theorem nodup_predecessors (g : EvaluationOrderGraph K M) (b : K) : (g.predecessors b).Nodup :=
  g.linked.onceBack b

theorem keys_addNode {g : EvaluationOrderGraph K M} {id x : K} {operationType : String}
    {metadata : M} :
    x ∈ (g.addNode id operationType metadata).nodes.keys ↔ x = id ∨ x ∈ g.nodes.keys := by
  show x ∈ (addNodeTo g.nodes id operationType metadata).keys ↔ _
  by_cases hid : id ∈ g.nodes.keys
  · rw [addNodeTo, if_pos hid]
    by_cases hx : x = id <;> simp [hx, hid]
  · rw [addNodeTo, if_neg hid, InsertionMap.keys_set_of_notMem _ _ hid, List.mem_append,
      List.mem_singleton, or_comm]

theorem keys_addEdge {g : EvaluationOrderGraph K M} {fromId toId x : K} :
    x ∈ (g.addEdge fromId toId).nodes.keys ↔ x ∈ g.nodes.keys := by
  show x ∈ (addEdgeTo g.nodes fromId toId).keys ↔ _
  by_cases hboth : fromId ∈ g.nodes.keys ∧ toId ∈ g.nodes.keys
  · rw [addEdgeTo, if_pos hboth, keys_addPredecessor, keys_addSuccessor]
  · rw [addEdgeTo, if_neg hboth]

theorem target_mem {g : EvaluationOrderGraph K M} {a b : K} (h : g.Edge a b) : b ∈ g.nodes.keys := by
  rw [InsertionMap.mem_keys_iff]
  rw [edge_iff] at h
  unfold predecessors predecessorsOf at h
  split at h
  · rename_i node hnode
    exact ⟨node, hnode⟩
  · cases h

end EvaluationOrderGraph

/-- A call of `addNode` or `addEdge`. -/
inductive Addition (K M : Type) where
  | node (id : K) (operationType : String) (metadata : M)
  | edge (fromId toId : K)

section Added
variable {K M : Type}

/-- The additions hold a node with that id. -/
def Adds (additions : List (Addition K M)) (id : K) : Prop :=
  ∃ operationType metadata, .node id operationType metadata ∈ additions

theorem adds_concat_node {additions : List (Addition K M)} {id x : K} {operationType : String}
    {metadata : M} :
    Adds (additions ++ [.node id operationType metadata]) x ↔ x = id ∨ Adds additions x := by
  constructor
  · rintro ⟨type, data, hmem⟩
    rcases List.mem_append.mp hmem with hmem | hmem
    · exact .inr ⟨type, data, hmem⟩
    · exact .inl (by simpa using hmem : _ ∧ _ ∧ _).1
  · rintro (rfl | ⟨type, data, hmem⟩)
    · exact ⟨operationType, metadata, by simp⟩
    · exact ⟨type, data, List.mem_append_left _ hmem⟩

theorem adds_concat_edge {additions : List (Addition K M)} {fromId toId x : K} :
    Adds (additions ++ [.edge fromId toId]) x ↔ Adds additions x := by
  simp [Adds]

/-- An addition of the edge comes after additions of both of its nodes. -/
def Joins (additions : List (Addition K M)) (a b : K) : Prop :=
  ∃ earlier later, additions = earlier ++ .edge a b :: later ∧ Adds earlier a ∧ Adds earlier b

theorem joins_concat {additions : List (Addition K M)} {addition : Addition K M} {a b : K} :
    Joins (additions ++ [addition]) a b ↔ Joins additions a b ∨
      addition = .edge a b ∧ Adds additions a ∧ Adds additions b := by
  constructor
  · rintro ⟨earlier, later, hsplit, hboth⟩
    rcases List.eq_nil_or_concat later with rfl | ⟨later, last, rfl⟩
    · obtain ⟨rfl, hlast⟩ := List.append_inj' hsplit rfl
      exact .inr ⟨List.singleton_inj.mp hlast, hboth⟩
    · have hsplit' : additions ++ [addition] = (earlier ++ .edge a b :: later) ++ [last] := by
        simpa using hsplit
      exact .inl ⟨earlier, later, (List.append_inj' hsplit' rfl).1, hboth⟩
  · rintro (⟨earlier, later, rfl, hboth⟩ | ⟨rfl, hboth⟩)
    · exact ⟨earlier, later ++ [addition], by simp, hboth⟩
    · exact ⟨additions, [], rfl, hboth⟩

end Added

namespace EvaluationOrderGraph
variable {K M : Type} [DecidableEq K]

def apply (g : EvaluationOrderGraph K M) : Addition K M → EvaluationOrderGraph K M
  | .node id operationType metadata => g.addNode id operationType metadata
  | .edge fromId toId => g.addEdge fromId toId

def build (additions : List (Addition K M)) : EvaluationOrderGraph K M :=
  additions.foldl apply empty

theorem build_concat (additions : List (Addition K M)) (addition : Addition K M) :
    build (additions ++ [addition]) = (build additions).apply addition := by
  simp [build]

theorem keys_build (additions : List (Addition K M)) (x : K) :
    x ∈ (build additions).nodes.keys ↔ Adds additions x := by
  induction additions using List.reverseRecOn with
  | nil => simp [build, empty, Adds]
  | append_singleton additions addition ih =>
    rw [build_concat]
    cases addition with
    | node id operationType metadata => rw [apply, keys_addNode, adds_concat_node, ih]
    | edge fromId toId => rw [apply, keys_addEdge, adds_concat_edge, ih]

/-- The edges of the graph are the ones that were added between nodes already there. -/
theorem edge_build (additions : List (Addition K M)) (a b : K) :
    (build additions).Edge a b ↔ Joins additions a b := by
  induction additions using List.reverseRecOn with
  | nil => simp [build, empty, Joins, Edge, successors, successorsOf]
  | append_singleton additions addition ih =>
    rw [build_concat, joins_concat, ← ih, ← keys_build, ← keys_build]
    cases addition with
    | node id operationType metadata => simp [apply, edge_addNode]
    | edge fromId toId =>
      rw [apply, edge_addEdge, Addition.edge.injEq]
      apply or_congr Iff.rfl
      constructor
      · rintro ⟨rfl, rfl, hkeys⟩
        exact ⟨⟨rfl, rfl⟩, hkeys⟩
      · rintro ⟨⟨rfl, rfl⟩, hkeys⟩
        exact ⟨rfl, rfl, hkeys⟩

/-! ## The cycle test -/

structure Marks (K : Type) where
  visited : List K
  recursionStack : List K

/-- The loop over the successors of a node; `true` where a cycle is found. -/
def dfsSuccessors (dfs : K → Marks K → Option (Bool × Marks K)) :
    List K → Marks K → Option (Bool × Marks K)
  | [], m => some (false, m)
  | succId :: rest, m =>
      if succId ∉ m.visited then
        match dfs succId m with
        | none => none
        | some (true, m') => some (true, m')
        | some (false, m') => dfsSuccessors dfs rest m'
      else if succId ∈ m.recursionStack then some (true, m)
      else dfsSuccessors dfs rest m

/-- The search from a node; `none` where the recursion gets too deep. -/
def dfs (g : EvaluationOrderGraph K M) : ℕ → K → Marks K → Option (Bool × Marks K)
  | 0, _, _ => none
  | depth+1, nodeId, m =>
      match dfsSuccessors (g.dfs depth) (g.successors nodeId)
          ⟨nodeId :: m.visited, nodeId :: m.recursionStack⟩ with
      | none => none
      | some (true, m') => some (true, m')
      | some (false, m') => some (false, { m' with recursionStack := m'.recursionStack.erase nodeId })

/-- The loop over the nodes of the graph. -/
def searchFrom (g : EvaluationOrderGraph K M) (depth : ℕ) : List K → Marks K → Option Bool
  | [], _ => some true
  | nodeId :: rest, m =>
      if nodeId ∉ m.visited then
        match g.dfs depth nodeId m with
        | none => none
        | some (true, _) => some false
        | some (false, m') => g.searchFrom depth rest m'
      else g.searchFrom depth rest m

/-- No search is deeper than there are nodes. -/
def isAcyclic (g : EvaluationOrderGraph K M) : Option Bool :=
  g.searchFrom (g.nodes.size+1) g.nodes.keys ⟨[], []⟩

/-- The nodes that are still to be visited. -/
def unvisited (g : EvaluationOrderGraph K M) (m : Marks K) : ℕ :=
  g.nodes.keys.countP (fun k => k ∉ m.visited)

/-- A node that the search has left: its successors are left too and it is on no cycle. -/
def Left (m : Marks K) (a : K) : Prop := a ∈ m.visited ∧ a ∉ m.recursionStack

structure Searching (g : EvaluationOrderGraph K M) (m : Marks K) : Prop where
  active : ∀ a ∈ m.recursionStack, a ∈ m.visited
  closed : ∀ a b, Left m a → g.Edge a b → Left m b
  free : ∀ a, Left m a → ¬ TransGen g.Edge a a

/-- The marks after a search that has found no cycle. -/
structure Searched (m m' : Marks K) : Prop where
  stack : m'.recursionStack = m.recursionStack
  grown : ∀ a ∈ m.visited, a ∈ m'.visited

omit [DecidableEq K] in
theorem Searched.left {m m' : Marks K} (h : Searched m m') {a : K} (ha : Left m a) : Left m' a :=
  ⟨h.grown a ha.1, by rw [h.stack]; exact ha.2⟩

theorem Searched.unvisited_le (g : EvaluationOrderGraph K M) {m m' : Marks K} (h : Searched m m') :
    g.unvisited m' ≤ g.unvisited m := by
  apply List.countP_mono_left
  intro a _ ha
  simp only [decide_eq_true_eq] at ha ⊢
  exact fun hold => ha (h.grown a hold)

theorem unvisited_lt (g : EvaluationOrderGraph K M) {m : Marks K} {id : K} (hid : id ∈ g.nodes.keys)
    (hnew : id ∉ m.visited) (stack : List K) :
    g.unvisited ⟨id :: m.visited, stack⟩ < g.unvisited m := by
  refine countP_lt (fun a _ ha => ?_) hid ?_ ?_
  · simp only [decide_eq_true_eq] at ha ⊢
    exact fun hold => ha (List.mem_cons_of_mem _ hold)
  · simp
  · simpa using hnew

/-- What a search from a node comes to. -/
def Answers (g : EvaluationOrderGraph K M) (m : Marks K) (ids : List K)
    (r : Option (Bool × Marks K)) : Prop :=
  ∃ found m', r = some (found, m') ∧ (found = true → ¬ Digraph.Acyclic g.Edge) ∧
    (found = false → Searching g m' ∧ Searched m m' ∧ ∀ id ∈ ids, Left m' id)

theorem answers_dfsSuccessors {g : EvaluationOrderGraph K M} {top : K} {depth : ℕ}
    (hdfs : ∀ id m, id ∈ g.nodes.keys → id ∉ m.visited → g.unvisited m ≤ depth →
      Searching g m → (∀ a ∈ m.recursionStack, TransGen g.Edge a id) →
      Answers g m [id] (g.dfs depth id m))
    (succs : List K) (hsuccs : ∀ id ∈ succs, g.Edge top id) (m : Marks K)
    (hleft : g.unvisited m ≤ depth) (hm : Searching g m)
    (htop : ∀ a ∈ m.recursionStack, ReflTransGen g.Edge a top) :
    Answers g m succs (dfsSuccessors (g.dfs depth) succs m) := by
  induction succs generalizing m with
  | nil => exact ⟨false, m, rfl, by simp, fun _ => ⟨hm, ⟨rfl, fun _ h => h⟩, by simp⟩⟩
  | cons succId rest ih =>
    obtain ⟨hedge, hrest⟩ := List.forall_mem_cons.mp hsuccs
    have hpath : ∀ a ∈ m.recursionStack, TransGen g.Edge a succId :=
      fun a ha => TransGen.tail' (htop a ha) hedge
    unfold dfsSuccessors
    by_cases hnew : succId ∉ m.visited
    · rw [if_pos hnew]
      obtain ⟨found, m₁, hr, hfound, hnone⟩ :=
        hdfs succId m (target_mem hedge) hnew hleft hm hpath
      rw [hr]
      cases found with
      | true => exact ⟨true, m₁, rfl, hfound, by simp⟩
      | false =>
        obtain ⟨hm₁, hgrown, hseen⟩ := hnone rfl
        have hle := hgrown.unvisited_le g
        obtain ⟨found, m₂, hr₂, hfound₂, hnone₂⟩ := ih hrest m₁ (by omega) hm₁
          (by rw [hgrown.stack]; exact htop)
        refine ⟨found, m₂, hr₂, hfound₂, fun hf => ?_⟩
        obtain ⟨hm₂, hgrown₂, hall⟩ := hnone₂ hf
        refine ⟨hm₂, ⟨hgrown₂.stack.trans hgrown.stack, fun a ha => hgrown₂.grown a
          (hgrown.grown a ha)⟩, List.forall_mem_cons.mpr ⟨?_, hall⟩⟩
        exact hgrown₂.left (hseen succId List.mem_cons_self)
    · rw [if_neg hnew]
      have hold : succId ∈ m.visited := not_not.mp hnew
      by_cases hstack : succId ∈ m.recursionStack
      · rw [if_pos hstack]
        exact ⟨true, m, rfl, fun _ hac => hac succId (hpath succId hstack), by simp⟩
      · rw [if_neg hstack]
        obtain ⟨found, m₂, hr₂, hfound₂, hnone₂⟩ := ih hrest m hleft hm htop
        refine ⟨found, m₂, hr₂, hfound₂, fun hf => ?_⟩
        obtain ⟨hm₂, hgrown₂, hall⟩ := hnone₂ hf
        exact ⟨hm₂, hgrown₂, List.forall_mem_cons.mpr ⟨hgrown₂.left ⟨hold, hstack⟩, hall⟩⟩

/-- A node is left once its successors are: no cycle runs through what was left before. -/
theorem answers_dfs (g : EvaluationOrderGraph K M) (depth : ℕ) (id : K) (m : Marks K)
    (hid : id ∈ g.nodes.keys) (hnew : id ∉ m.visited) (hleft : g.unvisited m ≤ depth)
    (hm : Searching g m) (hpath : ∀ a ∈ m.recursionStack, TransGen g.Edge a id) :
    Answers g m [id] (g.dfs depth id m) := by
  induction depth generalizing id m with
  | zero =>
    have hlt := unvisited_lt g hid hnew []
    omega
  | succ depth ih =>
    have hlt := unvisited_lt g hid hnew (id :: m.recursionStack)
    have hnotin : id ∉ m.recursionStack := fun h => hnew (hm.active id h)
    have hold : ∀ a, Left ⟨id :: m.visited, id :: m.recursionStack⟩ a ↔ Left m a := by
      intro a
      unfold Left
      by_cases ha : a = id
      · subst ha
        simp [hnew]
      · simp [ha]
    have hentered : Searching g ⟨id :: m.visited, id :: m.recursionStack⟩ := {
      active := fun a ha => (List.mem_cons.mp ha).elim (fun h => h ▸ List.mem_cons_self)
        (fun h => List.mem_cons_of_mem _ (hm.active a h))
      closed := fun a b ha hedge => (hold b).mpr (hm.closed a b ((hold a).mp ha) hedge)
      free := fun a ha => hm.free a ((hold a).mp ha) }
    have htop : ∀ a ∈ id :: m.recursionStack, ReflTransGen g.Edge a id := by
      intro a ha
      rcases List.mem_cons.mp ha with rfl | ha
      · exact .refl
      · exact (hpath a ha).to_reflTransGen
    obtain ⟨found, m', hr, hfound, hnone⟩ := answers_dfsSuccessors ih (g.successors id)
      (fun _ h => h) ⟨id :: m.visited, id :: m.recursionStack⟩ (by omega) hentered htop
    unfold dfs
    rw [hr]
    cases found with
    | true => exact ⟨true, m', rfl, hfound, by simp⟩
    | false =>
      obtain ⟨hm', hgrown, hall⟩ := hnone rfl
      have hstack : m'.recursionStack.erase id = m.recursionStack := by
        rw [hgrown.stack]
        exact List.erase_cons_head id m.recursionStack
      have hmem : id ∈ m'.visited := hgrown.grown id List.mem_cons_self
      -- leaving the node adds it, and nothing else, to what is left
      have hadded : ∀ a, Left { m' with recursionStack := m'.recursionStack.erase id } a ↔
          Left m' a ∨ a = id := by
        intro a
        unfold Left
        dsimp only
        rw [hstack, hgrown.stack]
        by_cases ha : a = id
        · subst ha
          simp [hmem, hnotin]
        · simp [ha]
      refine ⟨false, _, rfl, by simp, fun _ => ⟨⟨?_, ?_, ?_⟩, ⟨hstack, ?_⟩, ?_⟩⟩
      · intro a ha
        rw [hstack] at ha
        exact hgrown.grown a (List.mem_cons_of_mem _ (hm.active a ha))
      · intro a b ha hedge
        rcases (hadded a).mp ha with ha | rfl
        · exact (hadded b).mpr (.inl (hm'.closed a b ha hedge))
        · exact (hadded b).mpr (.inl (hall b hedge))
      · intro a ha hcycle
        rcases (hadded a).mp ha with ha | rfl
        · exact hm'.free a ha hcycle
        · obtain ⟨b, hedge, hback⟩ := Digraph.cycle_cases hcycle
          have hleft := Digraph.closed_of_path hm'.closed hback (hall b hedge)
          exact hleft.2 (hgrown.stack ▸ List.mem_cons_self)
      · exact fun a ha => hgrown.grown a (List.mem_cons_of_mem _ ha)
      · simpa using (hadded id).mpr (.inr rfl)

theorem searchFrom_iff {g : EvaluationOrderGraph K M} {depth : ℕ} (ids : List K)
    (hids : ∀ id ∈ ids, id ∈ g.nodes.keys) (m : Marks K) (hleft : g.unvisited m ≤ depth)
    (hm : Searching g m) (hstack : m.recursionStack = [])
    (hcover : ∀ id ∈ g.nodes.keys, id ∈ ids ∨ id ∈ m.visited) :
    ∃ b, g.searchFrom depth ids m = some b ∧ (b = true ↔ Digraph.Acyclic g.Edge) := by
  induction ids generalizing m with
  | nil =>
    refine ⟨true, rfl, fun _ a hcycle => ?_, fun _ => rfl⟩
    obtain ⟨b, hedge, hback⟩ := Digraph.cycle_cases hcycle
    have hmem := (hcover a (source_mem hedge)).resolve_left List.not_mem_nil
    exact hm.free a ⟨hmem, by rw [hstack]; exact List.not_mem_nil⟩ hcycle
  | cons id rest ih =>
    obtain ⟨hid, hrest⟩ := List.forall_mem_cons.mp hids
    unfold searchFrom
    by_cases hnew : id ∉ m.visited
    · rw [if_pos hnew]
      obtain ⟨found, m', hr, hfound, hnone⟩ := answers_dfs g depth id m hid hnew hleft hm
        (by rw [hstack]; exact fun a ha => absurd ha List.not_mem_nil)
      rw [hr]
      cases found with
      | true => exact ⟨false, rfl, by simp, fun hac => absurd hac (hfound rfl)⟩
      | false =>
        obtain ⟨hm', hgrown, hseen⟩ := hnone rfl
        have hle := hgrown.unvisited_le g
        refine ih hrest m' (by omega) hm' (hgrown.stack.trans hstack) fun a ha => ?_
        rcases hcover a ha with h | h
        · rcases List.mem_cons.mp h with rfl | h
          · exact .inr (hseen a List.mem_cons_self).1
          · exact .inl h
        · exact .inr (hgrown.grown a h)
    · rw [if_neg hnew]
      refine ih hrest m hleft hm hstack fun a ha => ?_
      rcases hcover a ha with h | h
      · rcases List.mem_cons.mp h with rfl | h
        · exact .inr (not_not.mp hnew)
        · exact .inl h
      · exact .inr h

theorem isAcyclic_iff_acyclic (g : EvaluationOrderGraph K M) :
    ∃ b, g.isAcyclic = some b ∧ (b = true ↔ Digraph.Acyclic g.Edge) := by
  have hsize : g.unvisited ⟨[], []⟩ ≤ g.nodes.size+1 := by
    have hle := List.countP_le_length (p := fun k => decide (k ∉ ([] : List K))) (l := g.nodes.keys)
    rw [InsertionMap.length_keys] at hle
    exact hle.trans (Nat.le_succ _)
  refine searchFrom_iff g.nodes.keys (fun _ h => h) _ hsize ?_ rfl (fun _ h => .inl h)
  exact ⟨by simp, by simp [Left], by simp [Left]⟩

/-! ## The order -/

structure Sorting (K : Type) where
  inDegree : InsertionMap K ℤ
  queue : List K
  order : List K

/-- One successor of the node that has just been put in order. -/
def countDown (s : Sorting K) (v : K) : Sorting K :=
  let degree := (s.inDegree.get v).getD 0-1
  ⟨s.inDegree.set v degree, if degree = 0 then s.queue ++ [v] else s.queue, s.order⟩

/-- The loop over the queue; `none` where it takes more turns than `turns`. -/
def sortLoop (g : EvaluationOrderGraph K M) (turns : ℕ) (s : Sorting K) : Option (List K) :=
  match s.queue, turns with
  | [], _ => some s.order
  | _ :: _, 0 => none
  | u :: queue, turns+1 =>
      g.sortLoop turns ((g.successors u).foldl countDown ⟨s.inDegree, queue, s.order ++ [u]⟩)

def initialDegrees (g : EvaluationOrderGraph K M) : InsertionMap K ℤ :=
  g.nodes.entries.foldl (fun d e => d.set e.1 e.2.predecessors.length) .empty

/-- The loop never takes more turns than there are nodes. -/
def getTopologicalOrder (g : EvaluationOrderGraph K M) : Except String (Option (List K)) :=
  if g.isAcyclic = some true then
    .ok (g.sortLoop g.nodes.size ⟨g.initialDegrees,
      (g.initialDegrees.entries.filter (fun e => e.2 = 0)).map Prod.fst, []⟩)
  else .error "EVALUATION_ORDER_UNPROVEN: Cycle detected in evaluation order graph"

def Sorting.degree (s : Sorting K) (v : K) : ℤ := (s.inDegree.get v).getD 0

theorem degree_countDown (s : Sorting K) (v x : K) :
    (countDown s v).degree x = s.degree x-(if x = v then 1 else 0) := by
  unfold Sorting.degree countDown
  by_cases hx : x = v
  · subst hx
    simp [InsertionMap.get_set_self]
  · simp [InsertionMap.get_set_ne, hx]

theorem queue_countDown (s : Sorting K) (v : K) :
    (countDown s v).queue = if s.degree v = 1 then s.queue ++ [v] else s.queue := by
  unfold Sorting.degree countDown
  by_cases h : (s.inDegree.get v).getD 0 = 1
  · simp [h]
  · have hne : ¬ (s.inDegree.get v).getD 0-1 = 0 := by omega
    simp [h, hne]

/-- A node counts down each of its successors once and queues those that reach zero. -/
theorem foldl_countDown (vs : List K) (hvs : vs.Nodup) (s : Sorting K) :
    (vs.foldl countDown s).order = s.order ∧
      (∀ x, (vs.foldl countDown s).degree x = s.degree x-(if x ∈ vs then 1 else 0)) ∧
      (vs.foldl countDown s).queue = s.queue ++ vs.filter (fun v => s.degree v = 1) := by
  induction vs generalizing s with
  | nil => simp
  | cons v vs ih =>
    obtain ⟨hv, hvs⟩ := List.nodup_cons.mp hvs
    obtain ⟨horder, hdegree, hqueue⟩ := ih hvs (countDown s v)
    have hsame : ∀ x ∈ vs, (countDown s v).degree x = s.degree x := by
      intro x hx
      have hne : x ≠ v := fun h => hv (h ▸ hx)
      rw [degree_countDown, if_neg hne, Int.sub_zero]
    refine ⟨horder, fun x => ?_, ?_⟩
    · rw [List.foldl_cons, hdegree, degree_countDown]
      by_cases hx : x = v
      · subst hx
        simp [hv]
      · simp [hx]
    · have hfilter : vs.filter (fun x => (countDown s v).degree x = 1) =
          vs.filter (fun x => s.degree x = 1) := by
        apply List.filter_congr
        intro x hx
        rw [hsame x hx]
      rw [List.foldl_cons, hqueue, hfilter, queue_countDown]
      by_cases hone : s.degree v = 1 <;> simp [hone]

theorem entries_initialDegrees (g : EvaluationOrderGraph K M) :
    g.initialDegrees.entries =
      g.nodes.entries.map (fun e => (e.1, (e.2.predecessors.length : ℤ))) := by
  have h := InsertionMap.entries_foldl_set (fun n : EvaluationOrderNode K M =>
    (n.predecessors.length : ℤ)) g.nodes.entries g.nodes.nodup .empty (by simp)
  rw [show InsertionMap.empty.entries = ([] : List (K × ℤ)) from rfl, List.nil_append] at h
  exact h

theorem keys_initialDegrees (g : EvaluationOrderGraph K M) :
    g.initialDegrees.keys = g.nodes.keys := by
  unfold InsertionMap.keys
  rw [entries_initialDegrees, List.map_map]
  rfl

theorem get_initialDegrees (g : EvaluationOrderGraph K M) (x : K) :
    (g.initialDegrees.get x).getD 0 = (g.predecessors x).length := by
  unfold predecessors predecessorsOf
  cases hx : g.nodes.get x with
  | none =>
    have hnone : g.initialDegrees.get x = none := by
      rw [InsertionMap.get_eq_none_iff, keys_initialDegrees]
      exact (g.nodes.get_eq_none_iff x).mp hx
    simp [hnone]
  | some node =>
    have hsome : g.initialDegrees.get x = some (node.predecessors.length : ℤ) := by
      rw [InsertionMap.get_eq_some_iff, entries_initialDegrees]
      exact List.mem_map.mpr ⟨(x, node), (g.nodes.get_eq_some_iff x node).mp hx, rfl⟩
    simp [hsome]

/-- The nodes in order and in the queue are those whose predecessors are in order. -/
structure InOrder (g : EvaluationOrderGraph K M) (s : Sorting K) : Prop where
  nodup : (s.order ++ s.queue).Nodup
  degree : ∀ x, s.degree x = ((g.predecessors x).filter (fun a => a ∉ s.order)).length
  ready : ∀ x, x ∈ s.order ++ s.queue ↔ x ∈ g.nodes.keys ∧ s.degree x = 0
  before : ∀ l₁ b l₂, s.order = l₁ ++ b :: l₂ → ∀ a, g.Edge a b → a ∈ l₁

theorem InOrder.start (g : EvaluationOrderGraph K M) :
    InOrder g ⟨g.initialDegrees,
      (g.initialDegrees.entries.filter (fun e => e.2 = 0)).map Prod.fst, []⟩ where
  nodup := by
    rw [List.nil_append]
    exact g.initialDegrees.nodup.sublist (List.filter_sublist.map _)
  degree x := by
    have hall : (g.predecessors x).filter (fun a => a ∉ ([] : List K)) = g.predecessors x := by
      simp
    rw [hall]
    exact get_initialDegrees g x
  ready x := by
    rw [List.nil_append, ← keys_initialDegrees, InsertionMap.mem_keys_iff]
    unfold Sorting.degree
    dsimp only
    constructor
    · intro h
      obtain ⟨e, he, rfl⟩ := List.mem_map.mp h
      obtain ⟨hmem, hzero⟩ := List.mem_filter.mp he
      have hget := (g.initialDegrees.get_eq_some_iff e.1 e.2).mpr hmem
      exact ⟨⟨e.2, hget⟩, by simpa [hget] using hzero⟩
    · rintro ⟨⟨degree, hget⟩, hzero⟩
      rw [hget] at hzero
      exact List.mem_map.mpr ⟨(x, degree), List.mem_filter.mpr
        ⟨(g.initialDegrees.get_eq_some_iff x degree).mp hget, by simpa using hzero⟩, rfl⟩
  before l₁ b l₂ h := by simp at h

theorem degree_zero_iff {g : EvaluationOrderGraph K M} {s : Sorting K} (h : InOrder g s) (x : K) :
    s.degree x = 0 ↔ ∀ a, g.Edge a x → a ∈ s.order := by
  rw [h.degree]
  simp only [edge_iff, Int.natCast_eq_zero, List.length_eq_zero_iff, List.filter_eq_nil_iff,
    decide_eq_true_eq, not_not]

theorem InOrder.step {g : EvaluationOrderGraph K M} {s : Sorting K} {u : K} {queue : List K}
    (h : InOrder g s) (hqueue : s.queue = u :: queue) :
    InOrder g ((g.successors u).foldl countDown ⟨s.inDegree, queue, s.order ++ [u]⟩) := by
  obtain ⟨horder, hdegree, hnext⟩ := foldl_countDown (g.successors u) (g.nodup_successors u)
    ⟨s.inDegree, queue, s.order ++ [u]⟩
  have hsame : ∀ x, Sorting.degree ⟨s.inDegree, queue, s.order ++ [u]⟩ x = s.degree x :=
    fun _ => rfl
  simp only [hsame] at hdegree hnext
  have hu : u ∈ s.order ++ s.queue := by simp [hqueue]
  have hnodup := h.nodup
  rw [hqueue] at hnodup
  have hunot : u ∉ s.order := fun hin =>
    (List.nodup_append.mp hnodup).2.2 u hin u List.mem_cons_self rfl
  have hzero := ((h.ready u).mp hu).2
  -- a successor of `u` still waits for it
  have hwaits : ∀ x ∈ g.successors u, s.degree x ≠ 0 :=
    fun x hx hx0 => hunot ((degree_zero_iff h x).mp hx0 u hx)
  have hsplit : s.order ++ [u] ++ (queue ++ (g.successors u).filter (fun v => s.degree v = 1)) =
      (s.order ++ s.queue) ++ (g.successors u).filter (fun v => s.degree v = 1) := by
    simp [hqueue]
  constructor
  · rw [horder, hnext, hsplit, List.nodup_append]
    refine ⟨h.nodup, (g.nodup_successors u).filter _, fun a ha b hb heq => ?_⟩
    have hb' := (List.mem_filter.mp hb).1
    exact hwaits b hb' (heq ▸ ((h.ready a).mp ha).2)
  · intro x
    have hfilter : (g.predecessors x).filter (fun a => a ∉ s.order ++ [u]) =
        ((g.predecessors x).filter (fun a => a ∉ s.order)).erase u := by
      rw [((g.nodup_predecessors x).filter _).erase_eq_filter, List.filter_filter]
      apply List.filter_congr
      intro a _
      by_cases ha : a = u <;> simp [ha]
    rw [horder, hdegree, h.degree, hfilter]
    by_cases hx : x ∈ g.successors u
    · have hmem : u ∈ (g.predecessors x).filter (fun a => a ∉ s.order) :=
        List.mem_filter.mpr ⟨edge_iff.mp hx, by simpa using hunot⟩
      have hpos := List.length_pos_of_mem hmem
      rw [if_pos hx, List.length_erase_of_mem hmem]
      omega
    · have hnot : u ∉ (g.predecessors x).filter (fun a => a ∉ s.order) :=
        fun hin => hx (edge_iff.mpr (List.mem_filter.mp hin).1)
      rw [if_neg hx, List.erase_of_not_mem hnot, Int.sub_zero]
  · intro x
    rw [horder, hnext, hsplit, List.mem_append, h.ready, hdegree, List.mem_filter]
    simp only [decide_eq_true_eq]
    by_cases hx : x ∈ g.successors u
    · have hne := hwaits x hx
      have hkey := target_mem hx
      simp only [hx, hkey, hne, if_true, true_and, and_false, false_or]
      omega
    · simp [hx]
  · rw [horder]
    intro l₁ b l₂ hl a hedge
    rcases List.eq_nil_or_concat l₂ with rfl | ⟨l₃, z, rfl⟩
    · obtain ⟨rfl, hb⟩ := List.append_inj' hl rfl
      rw [List.singleton_inj] at hb
      exact (degree_zero_iff h u).mp hzero a (hb ▸ hedge)
    · have hl' : s.order ++ [u] = (l₁ ++ b :: l₃) ++ [z] := by simpa using hl
      exact h.before l₁ b l₃ (List.append_inj' hl' rfl).1 a hedge

/-- The queue runs empty in as many turns as there are nodes left. -/
theorem sortLoop_ends {g : EvaluationOrderGraph K M} {turns : ℕ} {s : Sorting K} (h : InOrder g s)
    (hturns : g.nodes.size ≤ s.order.length+turns) :
    ∃ t : Sorting K, g.sortLoop turns s = some t.order ∧ t.queue = [] ∧ InOrder g t := by
  have hbound : ∀ {s : Sorting K}, InOrder g s → s.order.length+s.queue.length ≤ g.nodes.size := by
    intro s h
    rw [← List.length_append, ← InsertionMap.length_keys]
    exact (h.nodup.subperm fun x hx => ((h.ready x).mp hx).1).length_le
  induction turns generalizing s with
  | zero =>
    have hle := hbound h
    have hempty : s.queue = [] := List.eq_nil_of_length_eq_zero (by omega)
    exact ⟨s, by simp [sortLoop, hempty], hempty, h⟩
  | succ turns ih =>
    cases hqueue : s.queue with
    | nil => exact ⟨s, by simp [sortLoop, hqueue], hqueue, h⟩
    | cons u queue =>
      obtain ⟨horder, -, -⟩ := foldl_countDown (g.successors u) (g.nodup_successors u)
        ⟨s.inDegree, queue, s.order ++ [u]⟩
      have hlength : g.nodes.size ≤ ((g.successors u).foldl countDown
          ⟨s.inDegree, queue, s.order ++ [u]⟩).order.length+turns := by
        rw [horder]
        simp only [List.length_append, List.length_singleton]
        omega
      obtain ⟨t, ht, hrest⟩ := ih (h.step hqueue) hlength
      refine ⟨t, ?_, hrest⟩
      unfold sortLoop
      rw [hqueue]
      exact ht

/-- In an acyclic graph no node is left waiting. -/
theorem InOrder.complete {g : EvaluationOrderGraph K M} {s : Sorting K} (h : InOrder g s)
    (hac : Digraph.Acyclic g.Edge) (hempty : s.queue = []) {x : K} (hx : x ∈ g.nodes.keys) :
    x ∈ s.order := by
  by_contra hnot
  have hwaiting : ∀ b ∈ g.nodes.keys.filter (fun k => k ∉ s.order),
      ∃ a ∈ g.nodes.keys.filter (fun k => k ∉ s.order), g.Edge a b := by
    intro b hb
    obtain ⟨hkey, hb⟩ := List.mem_filter.mp hb
    have hdegree : s.degree b ≠ 0 := by
      intro hzero
      have hin := (h.ready b).mpr ⟨hkey, hzero⟩
      rw [hempty, List.append_nil] at hin
      simp [hin] at hb
    obtain ⟨a, hedge, ha⟩ : ∃ a, g.Edge a b ∧ a ∉ s.order := by
      by_contra hnone
      exact hdegree ((degree_zero_iff h b).mpr fun a hedge =>
        by_contra fun ha => hnone ⟨a, hedge, ha⟩)
    exact ⟨a, List.mem_filter.mpr ⟨source_mem hedge, by simpa using ha⟩, hedge⟩
  have hne : g.nodes.keys.filter (fun k => k ∉ s.order) ≠ [] :=
    List.ne_nil_of_mem (List.mem_filter.mpr ⟨hx, by simpa using hnot⟩)
  obtain ⟨a, hcycle⟩ := Digraph.exists_cycle_of_predecessors hne hwaiting
  exact hac a hcycle

theorem InOrder.idxOf_lt {g : EvaluationOrderGraph K M} {s : Sorting K} (h : InOrder g s) {a b : K}
    (hedge : g.Edge a b) (hb : b ∈ s.order) : s.order.idxOf a < s.order.idxOf b := by
  obtain ⟨l₁, l₂, hsplit⟩ := List.append_of_mem hb
  have ha := h.before l₁ b l₂ hsplit a hedge
  have hnodup := (List.nodup_append.mp h.nodup).1
  rw [hsplit] at hnodup ⊢
  have hbnot : b ∉ l₁ := fun hin =>
    (List.nodup_append.mp hnodup).2.2 b hin b List.mem_cons_self rfl
  rw [List.idxOf_append_of_mem ha, List.idxOf_append_of_notMem hbnot]
  have hlt := List.idxOf_lt_length_iff.mpr ha
  omega

theorem getTopologicalOrder_acyclic (g : EvaluationOrderGraph K M)
    (hac : Digraph.Acyclic g.Edge) : ∃ order, g.getTopologicalOrder = .ok (some order) ∧
      order.Perm g.nodes.keys ∧ ∀ a b, g.Edge a b → order.idxOf a < order.idxOf b := by
  obtain ⟨found, hfound, hiff⟩ := isAcyclic_iff_acyclic g
  rw [hiff.mpr hac] at hfound
  have hturns : g.nodes.size ≤ ([] : List K).length+g.nodes.size := by simp
  obtain ⟨t, ht, hempty, hin⟩ := sortLoop_ends (InOrder.start g) hturns
  refine ⟨t.order, by rw [getTopologicalOrder, if_pos hfound, ht], ?_, fun a b hedge =>
    hin.idxOf_lt hedge (hin.complete hac hempty (target_mem hedge))⟩
  refine (List.perm_ext_iff_of_nodup (List.nodup_append.mp hin.nodup).1 g.nodes.nodup_keys).mpr ?_
  intro x
  constructor
  · exact fun hx => ((hin.ready x).mp (List.mem_append_left _ hx)).1
  · exact hin.complete hac hempty

/-- The graph holds the added nodes, each once, and the edges added between them; the cycle test
and the order agree with its paths. -/
theorem evaluation_order_sound (additions : List (Addition K M)) :
    (build additions).nodes.keys.Nodup ∧
    (∀ id, id ∈ (build additions).nodes.keys ↔ Adds additions id) ∧
    (∀ a b, (build additions).Edge a b ↔ Joins additions a b) ∧
    (∃ b, (build additions).isAcyclic = some b ∧
      (b = true ↔ ∀ a, ¬ TransGen (build additions).Edge a a)) ∧
    ((∀ a, ¬ TransGen (build additions).Edge a a) →
      ∃ order, (build additions).getTopologicalOrder = .ok (some order) ∧
        order.Perm (build additions).nodes.keys ∧
        ∀ a b, (build additions).Edge a b → order.idxOf a < order.idxOf b) :=
  ⟨(build additions).nodes.nodup_keys, keys_build additions, edge_build additions,
    isAcyclic_iff_acyclic (build additions), getTopologicalOrder_acyclic (build additions)⟩

end EvaluationOrderGraph
end LuaRecovery.Analysis
