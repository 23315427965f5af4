import LuaRecovery.Cfg.StronglyConnected

/-!
# Which functions own a state

`analyze` of `cfg/multi-entry-cfg.js`. The owners of a state are recorded at each
visit of a traversal; here they are read from its visits once it has ended.
Return states and unresolved states are not kept.
-/

set_option autoImplicit false

namespace LuaRecovery.Cfg
open LuaRecovery.Lib LuaRecovery.Lua Relation

inductive Classification where
  | exclusive
  | shared
  | unresolved
  deriving DecidableEq

abbrev Ownership := InsertionMap Double (List String)

/-- An edge that the traversal goes along. -/
def ControlFlowGraph.Follows (cfg : ControlFlowGraph Double) (a b : Double) : Prop :=
  ∃ e ∈ cfg.edges, e.source = a ∧ e.target = b ∧ e.type.followed = true

def Traversal.visitedIds (t : Traversal Double) : List Double := t.visited.map Prod.fst

def Traversal.pendingIds (t : Traversal Double) : List Double := t.worklist.map Prod.fst

section Traversing
variable [Host] {cfg : ControlFlowGraph Double}

theorem nodup_addReachableState {states : List Double} (h : states.Nodup) (stateId : Double) :
    (addReachableState states stateId).Nodup := by
  unfold addReachableState
  split
  · exact h
  · rename_i hnew
    have hnot : stateId ∉ states := fun hin =>
      hnew (List.any_eq_true.mpr ⟨stateId, hin, sameKey_refl stateId⟩)
    simpa using h.concat hnot

theorem reachableStates_visit (t : Traversal Double) (block : BasicBlock Double)
    (ctx : AbstractContext) : (t.visit cfg block ctx).reachableStates =
      addReachableState t.reachableStates block.id :=
  (worklist_pushEdges ctx _ _).2

theorem pendingIds_visit (t : Traversal Double) (block : BasicBlock Double)
    (ctx : AbstractContext) : (t.visit cfg block ctx).pendingIds = t.pendingIds ++
      ((cfg.successors block).filter (fun e => e.type.followed)).map (fun e => e.target) :=
  (worklist_pushEdges ctx _ _).1

theorem visitedIds_visit (t : Traversal Double) (block : BasicBlock Double)
    (ctx : AbstractContext) : (t.visit cfg block ctx).visitedIds = block.id :: t.visitedIds := by
  rw [Traversal.visitedIds, visited_visit]
  rfl

theorem nodup_traverse (t : Traversal Double) (h : t.reachableStates.Nodup) :
    (traverse cfg t).reachableStates.Nodup := by
  fun_induction traverse cfg t with
  | case1 t hw => exact h
  | case2 t id ctx rest hw hb ih => exact ih h
  | case3 t id ctx rest hw block hb hv ih => exact ih h
  | case4 t id ctx rest hw block hb hv ih =>
    apply ih
    rw [reachableStates_visit]
    exact nodup_addReachableState h block.id

theorem mem_followed {block : BasicBlock Double} {id : Double}
    (hblock : cfg.getBlock id = some block) (b : Double) :
    b ∈ ((cfg.successors block).filter (fun e => e.type.followed)).map (fun e => e.target) ↔
      cfg.Follows id b := by
  unfold ControlFlowGraph.successors ControlFlowGraph.Follows
  simp only [List.mem_map, List.mem_filter, sameKey_iff, (getBlock_id hblock).2]
  constructor
  · rintro ⟨e, ⟨⟨he, hs⟩, hf⟩, ht⟩
    exact ⟨e, he, hs, ht, hf⟩
  · rintro ⟨e, he, hs, ht, hf⟩
    exact ⟨e, ⟨⟨he, hs⟩, hf⟩, ht⟩

/-- What a traversal has visited and what it still has to: whatever the contexts of the visits. -/
structure Visiting (cfg : ControlFlowGraph Double) (entry : Double) (t : Traversal Double) :
    Prop where
  start : entry ∈ t.visitedIds ∨ entry ∈ t.pendingIds
  closed : ∀ a ∈ t.visitedIds, ∀ b, cfg.Follows a b → b ∈ t.visitedIds ∨ b ∈ t.pendingIds
  visited : ∀ a ∈ t.visitedIds, ReflTransGen cfg.Follows entry a
  pending : ∀ a ∈ t.pendingIds, ReflTransGen cfg.Follows entry a
  known : ∀ a ∈ t.pendingIds, ∃ block, cfg.getBlock a = some block

namespace Visiting
variable {entry id : Double} {ctx : AbstractContext} {t : Traversal Double}
  {rest : List (Double × AbstractContext)}

theorem skip (h : Visiting cfg entry t) (hw : t.worklist = (id, ctx) :: rest)
    (hid : id ∈ t.visitedIds) : Visiting cfg entry { t with worklist := rest } := by
  have hpending : t.pendingIds = id :: rest.map Prod.fst := by rw [Traversal.pendingIds, hw]; rfl
  have hcases : ∀ a, a ∈ t.visitedIds ∨ a ∈ t.pendingIds →
      a ∈ t.visitedIds ∨ a ∈ rest.map Prod.fst := by
    rintro a (ha | ha)
    · exact .inl ha
    · rw [hpending] at ha
      rcases List.mem_cons.mp ha with rfl | ha
      · exact .inl hid
      · exact .inr ha
  have hrest : ∀ a ∈ rest.map Prod.fst, a ∈ t.pendingIds := by
    intro a ha
    rw [hpending]
    exact List.mem_cons_of_mem _ ha
  exact ⟨hcases entry h.start, fun a ha b hedge => hcases b (h.closed a ha b hedge), h.visited,
    fun a ha => h.pending a (hrest a ha), fun a ha => h.known a (hrest a ha)⟩

theorem visit (hcfg : cfg.Connected) (h : Visiting cfg entry t)
    (hw : t.worklist = (id, ctx) :: rest) {block : BasicBlock Double}
    (hb : cfg.getBlock id = some block) :
    Visiting cfg entry (Traversal.visit { t with worklist := rest } cfg block ctx) := by
  have hid := (getBlock_id hb).2
  have hpending : t.pendingIds = id :: rest.map Prod.fst := by rw [Traversal.pendingIds, hw]; rfl
  have hvisited' : (Traversal.visit { t with worklist := rest } cfg block ctx).visitedIds =
      id :: t.visitedIds := by
    rw [visitedIds_visit, hid]
    rfl
  have hmem : ∀ b, b ∈ (Traversal.visit { t with worklist := rest } cfg block ctx).pendingIds ↔
      b ∈ rest.map Prod.fst ∨ cfg.Follows id b := by
    intro b
    rw [pendingIds_visit, List.mem_append, mem_followed hb]
    rfl
  have hway : ReflTransGen cfg.Follows entry id :=
    h.pending id (by rw [hpending]; exact List.mem_cons_self)
  have hold : ∀ a, a ∈ t.visitedIds ∨ a ∈ t.pendingIds →
      a ∈ id :: t.visitedIds ∨
        a ∈ (Traversal.visit { t with worklist := rest } cfg block ctx).pendingIds := by
    rintro a (ha | ha)
    · exact .inl (List.mem_cons_of_mem _ ha)
    · rw [hpending] at ha
      rcases List.mem_cons.mp ha with rfl | ha
      · exact .inl List.mem_cons_self
      · exact .inr ((hmem a).mpr (.inl ha))
  have hrest : ∀ a ∈ rest.map Prod.fst, a ∈ t.pendingIds := by
    intro a ha
    rw [hpending]
    exact List.mem_cons_of_mem _ ha
  constructor
  · rw [hvisited']
    exact hold entry h.start
  · rw [hvisited']
    intro a ha b hedge
    rcases List.mem_cons.mp ha with rfl | ha
    · exact .inr ((hmem b).mpr (.inr hedge))
    · exact hold b (h.closed a ha b hedge)
  · rw [hvisited']
    intro a ha
    rcases List.mem_cons.mp ha with rfl | ha
    · exact hway
    · exact h.visited a ha
  · intro a ha
    rcases (hmem a).mp ha with ha | hedge
    · exact h.pending a (hrest a ha)
    · exact hway.tail hedge
  · intro a ha
    rcases (hmem a).mp ha with ha | ⟨e, he, -, ht, -⟩
    · exact h.known a (hrest a ha)
    · exact exists_getBlock (ht ▸ (hcfg e he).2)

end Visiting

theorem visiting_traverse (hcfg : cfg.Connected) {entry : Double} (t : Traversal Double)
    (h : Visiting cfg entry t) :
    Visiting cfg entry (traverse cfg t) ∧ (traverse cfg t).worklist = [] := by
  fun_induction traverse cfg t with
  | case1 t hw => exact ⟨h, hw⟩
  | case2 t id ctx rest hw hb ih =>
    have hpending : id ∈ t.pendingIds := by
      rw [Traversal.pendingIds, hw]
      exact List.mem_cons_self
    obtain ⟨block, hblock⟩ := h.known id hpending
    rw [hb] at hblock
    cases hblock
  | case3 t id ctx rest hw block hb hv ih =>
    apply ih
    obtain ⟨v, hmem, hsame⟩ := List.any_eq_true.mp hv
    have hid : v.1 = id :=
      (sameKey_iff.mp (Bool.and_eq_true_iff.mp hsame).1).trans (getBlock_id hb).2
    exact h.skip hw (List.mem_map.mpr ⟨v, hmem, hid⟩)
  | case4 t id ctx rest hw block hb hv ih => exact ih (h.visit hcfg hw hb)

/-- The worklist at the entry block, with the states that the function already has. -/
def startAt (entry : Double) (states : List Double) : Traversal Double :=
  ⟨[], [(entry, none)], [], states⟩

/-- A traversal visits the blocks that its entry block leads to, and no others. -/
theorem mem_visitedIds (hcfg : cfg.Connected) {entry : Double} {b : BasicBlock Double}
    (hb : cfg.getBlock entry = some b) (states : List Double) (a : Double) :
    a ∈ (traverse cfg (startAt entry states)).visitedIds ↔ ReflTransGen cfg.Follows entry a := by
  have hstart : Visiting cfg entry (startAt entry states) := {
    start := .inr List.mem_cons_self
    closed := by simp [startAt, Traversal.visitedIds]
    visited := by simp [startAt, Traversal.visitedIds]
    pending := by simp [startAt, Traversal.pendingIds, ReflTransGen.refl]
    known := by simp [startAt, Traversal.pendingIds, hb] }
  obtain ⟨h, hempty⟩ := visiting_traverse hcfg _ hstart
  have hnone : ∀ x, x ∉ (traverse cfg (startAt entry states)).pendingIds := by
    simp [Traversal.pendingIds, hempty]
  constructor
  · exact h.visited a
  · intro hway
    induction hway with
    | refl => exact h.start.resolve_right (hnone _)
    | tail _ hedge ih => exact (h.closed _ ih _ hedge).resolve_right (hnone _)

end Traversing

section Definitions
variable [Host]

/-- What the loop over the functions has recorded. -/
structure Analysis where
  stateOwnership : Ownership
  functions : List FunctionContext

def addOwner (funcId : String) (owners : Ownership) (stateId : Double) : Ownership :=
  owners.set stateId (insertLast ((owners.get stateId).getD []) funcId)

def FunctionContext.withStates (func : FunctionContext) (cfg : ControlFlowGraph Double)
    (entry : Double) : FunctionContext :=
  { func with
    reachableStates := (traverse cfg (startAt entry func.reachableStates)).reachableStates
    distinct := nodup_traverse _ func.distinct }

/-- One function; without an entry block it is left as it is. -/
def analyzeFunction (cfg : ControlFlowGraph Double) (a : Analysis) (func : FunctionContext) :
    Option Analysis :=
  match func.entryState.bind cfg.findBlockForState with
  | none => some { a with functions := a.functions ++ [func] }
  | some entryBlock => do
      let visits := (traverse cfg (startAt entryBlock.id func.reachableStates)).visitedIds.reverse
      let func := func.withStates cfg entryBlock.id
      let sccs ← computeSCCs cfg func
      let func ← computeDominators cfg { func with sccs := sccs } entryBlock.id
      return ⟨visits.foldl (addOwner func.id) a.stateOwnership, a.functions ++ [func]⟩

def classify (owners : Ownership) (stateId : Double) : Classification :=
  match owners.get stateId with
  | none | some [] => .unresolved
  | some [_] => .exclusive
  | some _ => .shared

def classifyAll (cfg : ControlFlowGraph Double) (owners : Ownership) :
    InsertionMap Double Classification :=
  cfg.blocks.foldl (fun classification b => classification.set b.id (classify owners b.id)) .empty

def analyzeFunctions (cfg : ControlFlowGraph Double) :
    List FunctionContext → Analysis → Option Analysis
  | [], a => some a
  | func :: rest, a => (analyzeFunction cfg a func).bind (analyzeFunctions cfg rest)

def StateOwnership.analyze (cfg : ControlFlowGraph Double)
    (functionContexts : List FunctionContext) :
    Option (Ownership × InsertionMap Double Classification) :=
  (analyzeFunctions cfg functionContexts ⟨.empty, []⟩).map (fun a =>
    (a.stateOwnership, classifyAll cfg a.stateOwnership))

/-- The state is reachable from the entry block of the function. -/
def Owns (cfg : ControlFlowGraph Double) (func : FunctionContext) (stateId : Double) : Prop :=
  ∃ entryState entryBlock, func.entryState = some entryState ∧
    cfg.findBlockForState entryState = some entryBlock ∧
    ReflTransGen cfg.Follows entryBlock.id stateId

end Definitions

section Owners
variable [Host] {cfg : ControlFlowGraph Double}

def ownersOf (owners : Ownership) (stateId : Double) : List String := (owners.get stateId).getD []

omit [Host] in
theorem ownersOf_addOwner (funcId : String) (owners : Ownership) (stateId id : Double) :
    ownersOf (addOwner funcId owners stateId) id =
      if id = stateId then insertLast (ownersOf owners id) funcId else ownersOf owners id := by
  unfold ownersOf addOwner
  rw [InsertionMap.get_set]
  by_cases h : id = stateId <;> simp [h]

omit [Host] in
theorem mem_ownersOf_foldl (funcId : String) (visits : List Double) (owners : Ownership)
    (id : Double) (f : String) : f ∈ ownersOf (visits.foldl (addOwner funcId) owners) id ↔
      f ∈ ownersOf owners id ∨ f = funcId ∧ id ∈ visits := by
  induction visits generalizing owners with
  | nil => simp
  | cons v visits ih =>
    rw [List.foldl_cons, ih, ownersOf_addOwner]
    by_cases hv : id = v
    · rw [if_pos hv, mem_insertLast, hv]
      simp only [List.mem_cons, true_or, and_true]
      tauto
    · rw [if_neg hv]
      simp [hv]

omit [Host] in
theorem nodup_ownersOf_foldl (funcId : String) (visits : List Double) (owners : Ownership)
    (id : Double) (h : (ownersOf owners id).Nodup) :
    (ownersOf (visits.foldl (addOwner funcId) owners) id).Nodup := by
  induction visits generalizing owners with
  | nil => exact h
  | cons v visits ih =>
    rw [List.foldl_cons]
    apply ih
    rw [ownersOf_addOwner]
    split
    · exact nodup_insertLast h funcId
    · exact h

theorem findBlockForState_getBlock {stateId : Double} {b : BasicBlock Double}
    (h : cfg.findBlockForState stateId = some b) : ∃ block, cfg.getBlock b.id = some block :=
  exists_getBlock ⟨b, findBlockForState_mem h, rfl⟩

/-- A function is added to the owners of the states that it reaches, and to no others. -/
theorem analyzeFunction_ends (hcfg : cfg.Connected) (a : Analysis) (func : FunctionContext) :
    ∃ a', analyzeFunction cfg a func = some a' ∧
      (∀ id f, f ∈ ownersOf a'.stateOwnership id ↔
        f ∈ ownersOf a.stateOwnership id ∨ f = func.id ∧ Owns cfg func id) ∧
      ((∀ id, (ownersOf a.stateOwnership id).Nodup) →
        ∀ id, (ownersOf a'.stateOwnership id).Nodup) := by
  unfold analyzeFunction
  cases hentry : func.entryState.bind cfg.findBlockForState with
  | none =>
    refine ⟨_, rfl, fun id f => ?_, fun h => h⟩
    have hnot : ¬ Owns cfg func id := by
      rintro ⟨entryState, entryBlock, hstate, hblock, -⟩
      simp [hstate, hblock] at hentry
    simp [hnot]
  | some entryBlock =>
    obtain ⟨entryState, hstate, hblock⟩ := Option.bind_eq_some_iff.mp hentry
    obtain ⟨block, hget⟩ := findBlockForState_getBlock hblock
    obtain ⟨popped, hsccs, -⟩ := computeSCCs_ends cfg (func.withStates cfg entryBlock.id)
    obtain ⟨func', hdom⟩ := computeDominators_ends cfg { func.withStates cfg entryBlock.id with
      sccs := (popped.filter (fun p => 1 < p.1.length || hasSelfLoop cfg p.2)).map Prod.fst }
      entryBlock.id
    have hid : func'.id = func.id := by
      unfold computeDominators at hdom
      obtain ⟨dom, -, rfl⟩ := Option.map_eq_some_iff.mp hdom
      rfl
    refine ⟨_, by simp only [hsccs, hdom, bind, Option.bind]; rfl, fun id f => ?_, fun h id => ?_⟩
    · dsimp only
      rw [mem_ownersOf_foldl, hid, List.mem_reverse, mem_visitedIds hcfg hget]
      refine or_congr Iff.rfl (and_congr Iff.rfl ?_)
      constructor
      · exact fun hway => ⟨entryState, entryBlock, hstate, hblock, hway⟩
      · rintro ⟨entryState', entryBlock', hstate', hblock', hway⟩
        obtain rfl := Option.some_inj.mp (hstate'.symm.trans hstate)
        obtain rfl := Option.some_inj.mp (hblock'.symm.trans hblock)
        exact hway
    · exact nodup_ownersOf_foldl _ _ _ id (h id)

theorem analyzeFunctions_ends (hcfg : cfg.Connected) (functionContexts : List FunctionContext)
    (a : Analysis) : ∃ a', analyzeFunctions cfg functionContexts a = some a' ∧
      (∀ id f, f ∈ ownersOf a'.stateOwnership id ↔ f ∈ ownersOf a.stateOwnership id ∨
        ∃ func ∈ functionContexts, f = func.id ∧ Owns cfg func id) ∧
      ((∀ id, (ownersOf a.stateOwnership id).Nodup) →
        ∀ id, (ownersOf a'.stateOwnership id).Nodup) := by
  induction functionContexts generalizing a with
  | nil => exact ⟨a, rfl, by simp, fun h => h⟩
  | cons func rest ih =>
    obtain ⟨a₁, h₁, hmem₁, hnodup₁⟩ := analyzeFunction_ends hcfg a func
    obtain ⟨a₂, h₂, hmem₂, hnodup₂⟩ := ih a₁
    refine ⟨a₂, by rw [analyzeFunctions, h₁]; exact h₂, fun id f => ?_,
      fun h => hnodup₂ (hnodup₁ h)⟩
    rw [hmem₂, hmem₁, List.exists_mem_cons_iff, or_assoc]

omit [Host] in
theorem classify_iff {owners : Ownership} {id : Double} (hnodup : (ownersOf owners id).Nodup) :
    (classify owners id = .exclusive ↔ ∃ f, ∀ g, g ∈ ownersOf owners id ↔ g = f) ∧
      (classify owners id = .shared ↔
        ∃ f ∈ ownersOf owners id, ∃ g ∈ ownersOf owners id, f ≠ g) ∧
      (classify owners id = .unresolved ↔ ∀ f, f ∉ ownersOf owners id) := by
  unfold ownersOf at hnodup ⊢
  unfold classify
  rcases hget : owners.get id with _ | _ | ⟨f, _ | ⟨g, rest⟩⟩
  · simp
  · simp
  · simp
  · rw [hget] at hnodup
    have hfg : f ≠ g := fun h => (List.nodup_cons.mp hnodup).1 (h ▸ List.mem_cons_self)
    refine ⟨iff_of_false (by simp) ?_, iff_of_true rfl ?_, iff_of_false (by simp) ?_⟩
    · rintro ⟨c, hc⟩
      have hf : f = c := (hc f).mp (by simp)
      have hg : g = c := (hc g).mp (by simp)
      exact hfg (hf.trans hg.symm)
    · exact ⟨f, by simp, g, by simp, hfg⟩
    · exact fun hnone => hnone f (by simp)

omit [Host] in
theorem get_foldl_classify (owners : Ownership) (blocks : List (BasicBlock Double))
    (classification : InsertionMap Double Classification) (id : Double) :
    (blocks.foldl (fun classification b => classification.set b.id (classify owners b.id))
        classification).get id =
      if id ∈ blocks.map (fun b => b.id) then some (classify owners id)
      else classification.get id := by
  induction blocks generalizing classification with
  | nil => simp
  | cons b blocks ih =>
    rw [List.foldl_cons, ih, InsertionMap.get_set]
    by_cases hb : id = b.id <;> simp [hb]

/-- The owners of a state are the functions that reach it, and it is classified by how many there
are. -/
theorem stateOwnership_exact (hcfg : cfg.Numbered) {functionContexts : List FunctionContext}
    (hids : (functionContexts.map (fun func => func.id)).Nodup) :
    ∃ owners classification,
      StateOwnership.analyze cfg functionContexts = some (owners, classification) ∧
      (∀ id f, f ∈ ownersOf owners id ↔
        ∃ func ∈ functionContexts, f = func.id ∧ Owns cfg func id) ∧
      ∀ b ∈ cfg.blocks,
        (classification.get b.id = some .exclusive ↔ ∃ func ∈ functionContexts,
          ∀ func' ∈ functionContexts, Owns cfg func' b.id ↔ func' = func) ∧
        (classification.get b.id = some .shared ↔ ∃ func ∈ functionContexts,
          ∃ func' ∈ functionContexts, Owns cfg func b.id ∧ Owns cfg func' b.id ∧ func ≠ func') ∧
        (classification.get b.id = some .unresolved ↔
          ∀ func ∈ functionContexts, ¬ Owns cfg func b.id) := by
  obtain ⟨a, ha, hmem, hnodup⟩ := analyzeFunctions_ends hcfg.connected functionContexts ⟨.empty, []⟩
  have hempty : ∀ id, ownersOf (.empty : Ownership) id = [] := fun _ => rfl
  have howners : ∀ id f, f ∈ ownersOf a.stateOwnership id ↔
      ∃ func ∈ functionContexts, f = func.id ∧ Owns cfg func id := by
    intro id f
    rw [hmem, hempty]
    simp
  have heq : ∀ func ∈ functionContexts, ∀ func' ∈ functionContexts, func.id = func'.id →
      func = func' := fun func h func' h' => List.inj_on_of_nodup_map hids h h'
  refine ⟨_, _, by rw [StateOwnership.analyze, ha]; rfl, howners, fun b hb => ?_⟩
  have hget : ∀ c, (classifyAll cfg a.stateOwnership).get b.id = some c ↔
      classify a.stateOwnership b.id = c := by
    intro c
    rw [classifyAll, get_foldl_classify, if_pos (List.mem_map.mpr ⟨b, hb, rfl⟩), Option.some_inj]
  obtain ⟨hexclusive, hshared, hunresolved⟩ :=
    classify_iff (hnodup (fun id => by rw [hempty]; exact List.nodup_nil) b.id)
  rw [hget, hget, hget, hexclusive, hshared, hunresolved]
  simp only [howners]
  refine ⟨⟨?_, ?_⟩, ⟨?_, ?_⟩, ⟨?_, ?_⟩⟩
  · rintro ⟨f, hf⟩
    obtain ⟨func, hfunc, rfl, howns⟩ := (hf f).mpr rfl
    refine ⟨func, hfunc, fun func' hfunc' => ⟨fun h => ?_, fun h => h ▸ howns⟩⟩
    exact heq func' hfunc' func hfunc ((hf func'.id).mp ⟨func', hfunc', rfl, h⟩)
  · rintro ⟨func, hfunc, honly⟩
    refine ⟨func.id, fun g => ⟨?_, ?_⟩⟩
    · rintro ⟨func', hfunc', rfl, howns⟩
      rw [(honly func' hfunc').mp howns]
    · rintro rfl
      exact ⟨func, hfunc, rfl, (honly func hfunc).mpr rfl⟩
  · rintro ⟨_, ⟨func, hfunc, rfl, howns⟩, _, ⟨func', hfunc', rfl, howns'⟩, hne⟩
    exact ⟨func, hfunc, func', hfunc', howns, howns', fun h => hne (h ▸ rfl)⟩
  · rintro ⟨func, hfunc, func', hfunc', howns, howns', hne⟩
    exact ⟨func.id, ⟨func, hfunc, rfl, howns⟩, func'.id, ⟨func', hfunc', rfl, howns'⟩,
      fun h => hne (heq func hfunc func' hfunc' h)⟩
  · exact fun h func hfunc howns => h func.id ⟨func, hfunc, rfl, howns⟩
  · rintro h f ⟨func, hfunc, -, howns⟩
    exact h func hfunc howns

end Owners

section Examples

/-- Neither operation is called below. -/
local instance meetHost : Host := ⟨fun _ _ => .nan, fun _ => ""⟩

def stateTwo : Double := .finite 2 (Double.isDouble_int (by norm_num))

theorem stateTwo_ne : stateZero ≠ stateTwo ∧ stateOne ≠ stateTwo := by
  simp [stateZero, stateOne, stateTwo]

/-- Two states that both lead to a third one. -/
def meetGraph : ControlFlowGraph Double where
  dispatcherVar := "Q"
  blocks := [plainBlock stateZero, plainBlock stateOne, plainBlock stateTwo]
  entry := none
  exits := []
  edges := [⟨stateZero, stateTwo, .unconditional, none⟩, ⟨stateOne, stateTwo, .unconditional, none⟩]

/-- A function that enters the graph in the state. -/
def contextAt (id : String) (entryState : Double) : FunctionContext where
  id := id
  entryState := some entryState
  reachableStates := [entryState]
  distinct := List.nodup_singleton entryState
  sccs := []
  dominators := .empty
  immediateDominators := .empty

theorem numbered_meetGraph : meetGraph.Numbered where
  connected := by simp [ControlFlowGraph.Connected, meetGraph, plainBlock]
  ids := by simp [meetGraph, plainBlock, stateZero, stateOne, stateTwo]

theorem follows_meetGraph {a b : Double} :
    meetGraph.Follows a b ↔ (a = stateZero ∨ a = stateOne) ∧ b = stateTwo := by
  simp only [ControlFlowGraph.Follows, meetGraph, List.mem_cons, List.not_mem_nil, or_false]
  constructor
  · rintro ⟨e, rfl | rfl, rfl, rfl, -⟩
    · exact ⟨.inl rfl, rfl⟩
    · exact ⟨.inr rfl, rfl⟩
  · rintro ⟨rfl | rfl, rfl⟩
    · exact ⟨_, .inl rfl, rfl, rfl, rfl⟩
    · exact ⟨_, .inr rfl, rfl, rfl, rfl⟩

theorem findBlock_meetGraph {s : Double} (hs : s = stateZero ∨ s = stateOne) :
    meetGraph.findBlockForState s = some (plainBlock s) := by
  have hfind : meetGraph.getBlock s = some (plainBlock s) := by
    rcases hs with rfl | rfl
    · rfl
    · rfl
  rw [ControlFlowGraph.findBlockForState, hfind]

/-- A function owns the state it enters in and the third one. -/
theorem owns_meetGraph {id : String} {s t : Double} (hs : s = stateZero ∨ s = stateOne) :
    Owns meetGraph (contextAt id s) t ↔ t = s ∨ t = stateTwo := by
  have howns : Owns meetGraph (contextAt id s) t ↔ ReflTransGen meetGraph.Follows s t := by
    constructor
    · rintro ⟨_, block, hentry, hblock, hway⟩
      cases hentry
      rw [findBlock_meetGraph hs] at hblock
      cases hblock
      exact hway
    · exact fun hway => ⟨s, plainBlock s, rfl, findBlock_meetGraph hs, hway⟩
  rw [howns]
  constructor
  · intro hway
    rcases hway.cases_tail with heq | ⟨u, -, hedge⟩
    · exact .inl heq
    · exact .inr (follows_meetGraph.mp hedge).2
  · rintro (rfl | rfl)
    · exact .refl
    · exact .single (follows_meetGraph.mpr ⟨hs, rfl⟩)

/-- Two functions own the state where their ways meet, and each one its own entry. -/
theorem stateOwnership_meetGraph :
    ∃ owners classification,
      StateOwnership.analyze meetGraph [contextAt "func_1" stateZero, contextAt "func_2" stateOne] =
        some (owners, classification) ∧
      (∀ f, f ∈ ownersOf owners stateTwo ↔ f = "func_1" ∨ f = "func_2") ∧
      classification.get stateTwo = some .shared ∧
      classification.get stateZero = some .exclusive := by
  obtain ⟨owners, classification, h, howners, hclass⟩ :=
    @stateOwnership_exact _ _ numbered_meetGraph
      [contextAt "func_1" stateZero, contextAt "func_2" stateOne] (by simp [contextAt])
  refine ⟨owners, classification, h, fun f => ?_, ?_, ?_⟩
  · rw [howners]
    have hfirst : Owns meetGraph (contextAt "func_1" stateZero) stateTwo :=
      (owns_meetGraph (.inl rfl)).mpr (.inr rfl)
    have hsecond : Owns meetGraph (contextAt "func_2" stateOne) stateTwo :=
      (owns_meetGraph (.inr rfl)).mpr (.inr rfl)
    constructor
    · rintro ⟨func, hfunc, rfl, -⟩
      rcases List.mem_cons.mp hfunc with rfl | hfunc
      · exact .inl rfl
      · rw [List.mem_singleton.mp hfunc]
        exact .inr rfl
    · rintro (rfl | rfl)
      · exact ⟨_, List.mem_cons_self, rfl, hfirst⟩
      · exact ⟨_, List.mem_cons_of_mem _ List.mem_cons_self, rfl, hsecond⟩
  · refine (hclass (plainBlock stateTwo) (by simp [meetGraph])).2.1.mpr
      ⟨_, List.mem_cons_self, _, List.mem_cons_of_mem _ List.mem_cons_self, ?_, ?_, ?_⟩
    · exact (owns_meetGraph (.inl rfl)).mpr (.inr rfl)
    · exact (owns_meetGraph (.inr rfl)).mpr (.inr rfl)
    · simp [contextAt]
  · refine (hclass (plainBlock stateZero) (by simp [meetGraph])).1.mpr
      ⟨_, List.mem_cons_self, fun func hfunc => ?_⟩
    rcases List.mem_cons.mp hfunc with rfl | hfunc
    · exact iff_of_true ((owns_meetGraph (.inl rfl)).mpr (.inl rfl)) rfl
    · rw [List.mem_singleton.mp hfunc]
      refine iff_of_false (fun hown => ?_) (by simp [contextAt])
      rcases (owns_meetGraph (.inr rfl)).mp hown with heq | heq
      · exact stateOne_ne_zero heq.symm
      · exact stateTwo_ne.1 heq

end Examples

end LuaRecovery.Cfg
