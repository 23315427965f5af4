import LuaRecovery.Cfg.BlockGraph
import LuaRecovery.Lib.Digraph
import LuaRecovery.Lib.InsertionMap
import Mathlib.Algebra.BigOperators.Group.List.Basic
import Mathlib.Algebra.Order.BigOperators.Group.List

/-!
# The dominators of a function context

`computeDominators` of `cfg/multi-entry-cfg.js`, with what its class
`FunctionContext` of `analysis/function-context.js` keeps of a function.
-/

set_option autoImplicit false

namespace LuaRecovery.Lua
deriving instance DecidableEq for Double
end LuaRecovery.Lua

namespace LuaRecovery.Cfg
open LuaRecovery.Lib LuaRecovery.Lua Digraph Relation

abbrev Doms := InsertionMap Double (List Double)

structure FunctionContext where
  id : String
  entryState : Option Double
  reachableStates : List Double
  distinct : reachableStates.Nodup
  sccs : List (List Double)
  dominators : Doms
  immediateDominators : InsertionMap Double Double

/-- An edge of any type between two states. -/
def ControlFlowGraph.Flows (cfg : ControlFlowGraph Double) (a b : Double) : Prop :=
  ∃ e ∈ cfg.edges, e.source = a ∧ e.target = b

/-- Edges lead from blocks of the graph to blocks of the graph. -/
def ControlFlowGraph.Connected (cfg : ControlFlowGraph Double) : Prop :=
  ∀ e ∈ cfg.edges, (∃ b ∈ cfg.blocks, b.id = e.source) ∧ ∃ b ∈ cfg.blocks, b.id = e.target

/-- A graph as the builder leaves it. Its ids equal themselves, so that `===` on them is `=`. -/
structure ControlFlowGraph.Numbered (cfg : ControlFlowGraph Double) : Prop where
  connected : cfg.Connected
  ids : ∀ b ∈ cfg.blocks, b.id ≠ .nan

theorem numbered_buildCFG [Host] (stateVar : String) (root : Stmt Double)
    (entry : Option Double) : (buildCFG stateVar root entry).Numbered where
  connected e he := ⟨sources_buildCFG stateVar root entry e he,
    (wellFormed_buildCFG stateVar root entry).targets e he⟩
  ids := id_ne_nan_buildCFG stateVar root entry

/-- An edge between two of the states. -/
def ControlFlowGraph.Within (cfg : ControlFlowGraph Double) (states : List Double)
    (a b : Double) : Prop := cfg.Flows a b ∧ a ∈ states ∧ b ∈ states

section Definitions
variable [Host]

def ControlFlowGraph.predecessors (cfg : ControlFlowGraph Double) (b : BasicBlock Double) :
    List (Edge Double) :=
  cfg.edges.filter (fun e => sameKey e.target b.id)

/-- The sources of the edges to a block that are states of the function. -/
def predsOf (cfg : ControlFlowGraph Double) (func : FunctionContext) (block : BasicBlock Double) :
    List Double :=
  ((cfg.predecessors block).map (fun e => e.source)).filter (fun id => id ∈ func.reachableStates)

/-- Intersection of the dominators of all the predecessors. -/
def intersectDoms (dom : Doms) : List Double → List Double
  | [] => []
  | p :: preds => preds.foldl (fun newDom q => match dom.get q with
      | some pDom => newDom.filter (fun x => x ∈ pDom)
      | none => newDom) ((dom.get p).getD [])

/-- One state of a pass; the flag is `changed`. -/
def updateDom (cfg : ControlFlowGraph Double) (func : FunctionContext) (entryId : Double)
    (pass : Doms × Bool) (s : Double) : Doms × Bool :=
  if s = entryId then pass
  else match cfg.getBlock s with
    | none => pass
    | some block =>
        let preds := predsOf cfg func block
        if preds = [] then pass
        else
          let newDom := insertLast (intersectDoms pass.1 preds) s
          if newDom.length ≠ ((pass.1.get s).getD []).length then (pass.1.set s newDom, true)
          else pass

def initialDoms (func : FunctionContext) (entryId : Double) : Doms :=
  func.reachableStates.foldl (fun dom s =>
    dom.set s (if s = entryId then [entryId] else func.reachableStates)) .empty

/-- The passes over all states until one changes nothing; `none` where that takes too many. -/
def dominatorPasses (cfg : ControlFlowGraph Double) (func : FunctionContext) (entryId : Double) :
    ℕ → Doms → Option Doms
  | 0, _ => none
  | passes+1, dom =>
      let pass := func.reachableStates.foldl (updateDom cfg func entryId) (dom, false)
      if pass.2 then dominatorPasses cfg func entryId passes pass.1 else some pass.1

/-- The strict dominator that dominates no other one. -/
def immediateDominator (dom : Doms) (s : Double) : Option Double :=
  let sDom := ((dom.get s).getD []).erase s
  sDom.find? (fun d => sDom.all (fun other => other = d || !((dom.get other).getD []).elem d))

def setImmediate (dom : Doms) (entryId : Double) (idoms : InsertionMap Double Double)
    (s : Double) : InsertionMap Double Double :=
  if s = entryId then idoms
  else match immediateDominator dom s with
    | some d => idoms.set s d
    | none => idoms

/-- Each pass but the last makes a set of dominators smaller. -/
def computeDominators (cfg : ControlFlowGraph Double) (func : FunctionContext)
    (entryId : Double) : Option FunctionContext :=
  (dominatorPasses cfg func entryId (func.reachableStates.length*func.reachableStates.length+1)
    (initialDoms func entryId)).map (fun dom => { func with
      dominators := dom
      immediateDominators := func.reachableStates.foldl (setImmediate dom entryId)
        func.immediateDominators })

end Definitions

section Preds
variable [Host] {cfg : ControlFlowGraph Double} {func : FunctionContext}

theorem mem_predsOf {s : Double} {block : BasicBlock Double} (hblock : cfg.getBlock s = some block)
    (p : Double) : p ∈ predsOf cfg func block ↔ cfg.Flows p s ∧ p ∈ func.reachableStates := by
  have hid := (getBlock_id hblock).2
  unfold predsOf ControlFlowGraph.predecessors ControlFlowGraph.Flows
  simp only [List.mem_filter, List.mem_map, sameKey_iff, decide_eq_true_eq, hid]
  constructor
  · rintro ⟨⟨e, ⟨he, ht⟩, rfl⟩, hp⟩
    exact ⟨⟨e, he, rfl, ht⟩, hp⟩
  · rintro ⟨⟨e, he, rfl, ht⟩, hp⟩
    exact ⟨⟨e, ⟨he, ht⟩, rfl⟩, hp⟩

theorem exists_getBlock {s : Double} (h : ∃ b ∈ cfg.blocks, b.id = s) :
    ∃ block, cfg.getBlock s = some block := by
  obtain ⟨b, hb, rfl⟩ := h
  cases hfind : cfg.getBlock b.id with
  | some block => exact ⟨block, rfl⟩
  | none =>
    have hnone := List.find?_eq_none.mp hfind b hb
    rw [sameKey_refl] at hnone
    exact absurd rfl hnone

end Preds

section Passes
variable [Host] {cfg : ControlFlowGraph Double} {func : FunctionContext} {entryId : Double}

def domOf (dom : Doms) (s : Double) : List Double := (dom.get s).getD []

def nextDom (cfg : ControlFlowGraph Double) (func : FunctionContext) (dom : Doms)
    (block : BasicBlock Double) (s : Double) : List Double :=
  insertLast (intersectDoms dom (predsOf cfg func block)) s

/-- A state whose dominators a pass looks at. -/
structure Revised (cfg : ControlFlowGraph Double) (func : FunctionContext) (entryId : Double)
    (s : Double) (block : BasicBlock Double) : Prop where
  notEntry : s ≠ entryId
  found : cfg.getBlock s = some block
  preds : predsOf cfg func block ≠ []

theorem updateDom_of_revised {s : Double} {block : BasicBlock Double}
    (h : Revised cfg func entryId s block) (pass : Doms × Bool) :
    updateDom cfg func entryId pass s =
      if (nextDom cfg func pass.1 block s).length ≠ (domOf pass.1 s).length then
        (pass.1.set s (nextDom cfg func pass.1 block s), true)
      else pass := by
  simp only [updateDom, h.notEntry, h.found, h.preds, if_false]
  rfl

theorem updateDom_of_not_revised {s : Double}
    (h : ∀ block, ¬ Revised cfg func entryId s block) (pass : Doms × Bool) :
    updateDom cfg func entryId pass s = pass := by
  unfold updateDom
  by_cases hentry : s = entryId
  · rw [if_pos hentry]
  · rw [if_neg hentry]
    cases hfound : cfg.getBlock s with
    | none => rfl
    | some block =>
      by_cases hpreds : predsOf cfg func block = []
      · simp only [hpreds, if_true]
      · exact absurd ⟨hentry, hfound, hpreds⟩ (h block)

omit [Host] in
theorem mem_foldl_filter (dom : Doms) (preds : List Double) (newDom : List Double) (x : Double)
    (hknown : ∀ q ∈ preds, ∃ l, dom.get q = some l) :
    x ∈ preds.foldl (fun newDom q => match dom.get q with
      | some pDom => newDom.filter (fun x => x ∈ pDom)
      | none => newDom) newDom ↔ x ∈ newDom ∧ ∀ q ∈ preds, x ∈ domOf dom q := by
  induction preds generalizing newDom with
  | nil => simp
  | cons q preds ih =>
    obtain ⟨⟨l, hl⟩, hrest⟩ := List.forall_mem_cons.mp hknown
    rw [List.foldl_cons, ih _ hrest]
    simp [domOf, hl, and_assoc]

omit [Host] in
theorem nodup_foldl_filter (dom : Doms) (preds : List Double) (newDom : List Double)
    (h : newDom.Nodup) : (preds.foldl (fun newDom q => match dom.get q with
      | some pDom => newDom.filter (fun x => x ∈ pDom)
      | none => newDom) newDom).Nodup := by
  induction preds generalizing newDom with
  | nil => exact h
  | cons q preds ih =>
    rw [List.foldl_cons]
    apply ih
    split
    · exact h.filter _
    · exact h

/-- The next set of a state holds the state and what the sets of all its predecessors hold. -/
theorem mem_nextDom_of_known {dom : Doms}
    (hknown : ∀ q ∈ func.reachableStates, ∃ l, dom.get q = some l) {s : Double}
    {block : BasicBlock Double} (hr : Revised cfg func entryId s block) (x : Double) :
    x ∈ nextDom cfg func dom block s ↔
      x = s ∨ ∀ p ∈ predsOf cfg func block, x ∈ domOf dom p := by
  have hpredsKnown : ∀ p ∈ predsOf cfg func block, ∃ l, dom.get p = some l :=
    fun p hp => hknown p ((mem_predsOf hr.found p).mp hp).2
  unfold nextDom
  rw [mem_insertLast]
  cases hpreds : predsOf cfg func block with
  | nil => exact absurd hpreds hr.preds
  | cons p preds =>
    rw [hpreds] at hpredsKnown
    obtain ⟨-, hrest⟩ := List.forall_mem_cons.mp hpredsKnown
    have hmem := mem_foldl_filter dom preds (domOf dom p) x hrest
    rw [List.forall_mem_cons, or_comm]
    exact or_congr Iff.rfl hmem

/-- Every state has a set of states, and no revision would add to it. -/
structure Narrowing (cfg : ControlFlowGraph Double) (func : FunctionContext) (entryId : Double)
    (dom : Doms) : Prop where
  known : ∀ s ∈ func.reachableStates, ∃ l, dom.get s = some l ∧ l.Nodup ∧
    ∀ x ∈ l, x ∈ func.reachableStates
  shrinks : ∀ s ∈ func.reachableStates, ∀ block, Revised cfg func entryId s block →
    ∀ x ∈ nextDom cfg func dom block s, x ∈ domOf dom s

namespace Narrowing
variable {dom : Doms}

theorem nodup_domOf (h : Narrowing cfg func entryId dom) {s : Double}
    (hs : s ∈ func.reachableStates) : (domOf dom s).Nodup := by
  obtain ⟨l, hl, hnodup, -⟩ := h.known s hs
  rw [domOf, hl]
  exact hnodup

theorem domOf_subset (h : Narrowing cfg func entryId dom) {s x : Double}
    (hs : s ∈ func.reachableStates) (hx : x ∈ domOf dom s) : x ∈ func.reachableStates := by
  obtain ⟨l, hl, -, hsub⟩ := h.known s hs
  rw [domOf, hl] at hx
  exact hsub x hx

theorem mem_nextDom (h : Narrowing cfg func entryId dom) {s : Double} {block : BasicBlock Double}
    (hr : Revised cfg func entryId s block) (x : Double) :
    x ∈ nextDom cfg func dom block s ↔ x = s ∨ ∀ p ∈ predsOf cfg func block, x ∈ domOf dom p :=
  mem_nextDom_of_known (fun q hq => (h.known q hq).imp fun _ hl => hl.1) hr x

theorem nodup_nextDom (h : Narrowing cfg func entryId dom) {s : Double}
    {block : BasicBlock Double} (hr : Revised cfg func entryId s block) :
    (nextDom cfg func dom block s).Nodup := by
  apply nodup_insertLast
  cases hpreds : predsOf cfg func block with
  | nil => exact List.nodup_nil
  | cons p preds =>
    have hp : p ∈ func.reachableStates :=
      ((mem_predsOf hr.found p).mp (by rw [hpreds]; exact List.mem_cons_self)).2
    exact nodup_foldl_filter dom preds _ (h.nodup_domOf hp)

omit [Host] in
theorem domOf_set (dom : Doms) (s t : Double) (l : List Double) :
    domOf (dom.set s l) t = if t = s then l else domOf dom t := by
  unfold domOf
  rw [InsertionMap.get_set]
  by_cases h : t = s <;> simp [h]

/-- A revision makes the sets smaller, and so what later revisions would make of them. -/
theorem set (h : Narrowing cfg func entryId dom) {s : Double} {block : BasicBlock Double}
    (hs : s ∈ func.reachableStates) (hr : Revised cfg func entryId s block) :
    Narrowing cfg func entryId (dom.set s (nextDom cfg func dom block s)) := by
  have hsmaller : ∀ t x, x ∈ domOf (dom.set s (nextDom cfg func dom block s)) t →
      x ∈ domOf dom t := by
    intro t x hx
    rw [domOf_set] at hx
    by_cases ht : t = s
    · rw [if_pos ht] at hx
      exact ht ▸ h.shrinks s hs block hr x hx
    · rwa [if_neg ht] at hx
  have hknown : ∀ t ∈ func.reachableStates, ∃ l,
      (dom.set s (nextDom cfg func dom block s)).get t = some l ∧ l.Nodup ∧
        ∀ x ∈ l, x ∈ func.reachableStates := by
    intro t ht
    rw [InsertionMap.get_set]
    by_cases hts : t = s
    · rw [if_pos hts]
      exact ⟨_, rfl, h.nodup_nextDom hr, fun x hx =>
        h.domOf_subset hs (h.shrinks s hs block hr x hx)⟩
    · rw [if_neg hts]
      exact h.known t ht
  refine ⟨hknown, fun t ht b hb x hx => ?_⟩
  -- the next set of `t` was already as small before the revision
  have hbefore : x ∈ nextDom cfg func dom b t := by
    rw [mem_nextDom_of_known (fun q hq => (hknown q hq).imp fun _ hl => hl.1) hb] at hx
    rw [h.mem_nextDom hb]
    exact hx.imp_right fun hall p hp => hsmaller p x (hall p hp)
  rw [domOf_set]
  by_cases hts : t = s
  · subst hts
    rw [if_pos rfl]
    have hblock : b = block := Option.some_inj.mp (hb.found.symm.trans hr.found)
    exact hblock ▸ hbefore
  · rw [if_neg hts]
    exact h.shrinks t ht b hb x hbefore

end Narrowing

/-- A state that a pass would leave as it is. -/
def Settled (cfg : ControlFlowGraph Double) (func : FunctionContext) (entryId : Double) (dom : Doms)
    (s : Double) : Prop := ∀ block, Revised cfg func entryId s block →
  ∀ x, x ∈ domOf dom s ↔ x ∈ nextDom cfg func dom block s

def total (func : FunctionContext) (dom : Doms) : ℕ :=
  (func.reachableStates.map (fun s => (domOf dom s).length)).sum

omit [Host] in
theorem total_set_lt {dom : Doms} {s : Double} {l : List Double} (hs : s ∈ func.reachableStates)
    (hlt : l.length < (domOf dom s).length) : total func (dom.set s l) < total func dom := by
  apply List.sum_lt_sum
  · intro t _
    rw [Narrowing.domOf_set]
    split
    · rename_i ht
      exact ht ▸ hlt.le
    · exact le_rfl
  · exact ⟨s, hs, by rwa [Narrowing.domOf_set, if_pos rfl]⟩

/-- One state of a pass: it is settled, or a smaller set takes the place of its own. -/
theorem updateDom_cases {dom : Doms} (h : Narrowing cfg func entryId dom) {s : Double}
    (hs : s ∈ func.reachableStates) (changed : Bool) :
    (updateDom cfg func entryId (dom, changed) s = (dom, changed) ∧
      Settled cfg func entryId dom s) ∨
    ∃ block, Revised cfg func entryId s block ∧
      updateDom cfg func entryId (dom, changed) s =
        (dom.set s (nextDom cfg func dom block s), true) ∧
      (nextDom cfg func dom block s).length < (domOf dom s).length := by
  by_cases hr : ∃ block, Revised cfg func entryId s block
  · obtain ⟨block, hr⟩ := hr
    have hsubperm := (h.nodup_nextDom hr).subperm (h.shrinks s hs block hr)
    rw [updateDom_of_revised hr]
    dsimp only
    by_cases hlen : (nextDom cfg func dom block s).length = (domOf dom s).length
    · rw [if_neg (not_not.mpr hlen)]
      refine .inl ⟨rfl, fun b hb x => ?_⟩
      have hblock : b = block := Option.some_inj.mp (hb.found.symm.trans hr.found)
      rw [hblock]
      exact (hsubperm.perm_of_length_le hlen.ge).mem_iff.symm
    · rw [if_pos hlen]
      exact .inr ⟨block, hr, rfl, lt_of_le_of_ne hsubperm.length_le hlen⟩
  · have hnone : ∀ block, ¬ Revised cfg func entryId s block := fun block hb => hr ⟨block, hb⟩
    exact .inl ⟨updateDom_of_not_revised hnone _, fun block hb => absurd hb (hnone block)⟩

section Kept
variable {kept : Doms → Prop} (hkept : ∀ dom s block, Narrowing cfg func entryId dom → kept dom →
  s ∈ func.reachableStates → Revised cfg func entryId s block →
  kept (dom.set s (nextDom cfg func dom block s)))
include hkept

/-- A pass that changes nothing leaves every state settled; another one makes progress. -/
theorem foldl_updateDom (l : List Double) (hl : ∀ s ∈ l, s ∈ func.reachableStates) (dom : Doms)
    (changed : Bool) (h : Narrowing cfg func entryId dom) (hk : kept dom) :
    ∃ dom' changed', l.foldl (updateDom cfg func entryId) (dom, changed) = (dom', changed') ∧
      Narrowing cfg func entryId dom' ∧ kept dom' ∧ total func dom' ≤ total func dom ∧
      (changed' = true → changed = true ∨ total func dom' < total func dom) ∧
      (changed' = false → changed = false ∧ dom' = dom ∧
        ∀ s ∈ l, Settled cfg func entryId dom s) := by
  induction l generalizing dom changed with
  | nil => exact ⟨dom, changed, rfl, h, hk, le_rfl, .inl, fun hc => ⟨hc, rfl, by simp⟩⟩
  | cons s l ih =>
    obtain ⟨hs, hl⟩ := List.forall_mem_cons.mp hl
    rw [List.foldl_cons]
    rcases updateDom_cases h hs changed with ⟨heq, hsettled⟩ | ⟨block, hr, heq, hlt⟩
    · obtain ⟨dom', changed', hfold, hn, hk', hle, htrue, hfalse⟩ := ih hl dom changed h hk
      refine ⟨dom', changed', by rw [heq, hfold], hn, hk', hle, htrue, fun hc => ?_⟩
      obtain ⟨hold, hdom, hrest⟩ := hfalse hc
      exact ⟨hold, hdom, List.forall_mem_cons.mpr ⟨hsettled, hrest⟩⟩
    · have hdrop := total_set_lt hs hlt
      obtain ⟨dom', changed', hfold, hn, hk', hle, -, hfalse⟩ :=
        ih hl _ true (h.set hs hr) (hkept dom s block h hk hs hr)
      refine ⟨dom', changed', by rw [heq, hfold], hn, hk', by omega, fun _ => .inr (by omega),
        fun hc => ?_⟩
      exact absurd (hfalse hc).1 (by simp)

/-- The passes end, with every state settled. -/
theorem dominatorPasses_ends {passes : ℕ} {dom : Doms} (h : Narrowing cfg func entryId dom)
    (hk : kept dom) (hpasses : total func dom < passes) :
    ∃ dom', dominatorPasses cfg func entryId passes dom = some dom' ∧
      Narrowing cfg func entryId dom' ∧ kept dom' ∧
      ∀ s ∈ func.reachableStates, Settled cfg func entryId dom' s := by
  induction passes generalizing dom with
  | zero => omega
  | succ passes ih =>
    obtain ⟨dom', changed', hfold, hn, hk', -, htrue, hfalse⟩ :=
      foldl_updateDom hkept func.reachableStates (fun _ hs => hs) dom false h hk
    unfold dominatorPasses
    rw [hfold]
    cases changed' with
    | true =>
      have hlt := (htrue rfl).resolve_left (by simp)
      have hleft : total func dom' < passes := by omega
      exact ih hn hk' hleft
    | false =>
      obtain ⟨-, rfl, hsettled⟩ := hfalse rfl
      exact ⟨dom', rfl, hn, hk', hsettled⟩

end Kept

/-! ## The sets before the first pass -/

omit [Host] in
theorem get_initialDoms {s : Double} (hs : s ∈ func.reachableStates) :
    (initialDoms func entryId).get s =
      some (if s = entryId then [entryId] else func.reachableStates) := by
  have hentries := InsertionMap.entries_foldl_set
    (fun s => if s = entryId then [entryId] else func.reachableStates)
    (func.reachableStates.map (fun s => (s, s))) (by simpa [Function.comp_def] using func.distinct)
    (.empty : Doms) (by simp)
  rw [List.foldl_map] at hentries
  rw [InsertionMap.get_eq_some_iff, initialDoms, hentries]
  exact List.mem_append_right _ (List.mem_map.mpr
    ⟨(s, s), List.mem_map.mpr ⟨s, hs, rfl⟩, rfl⟩)

omit [Host] in
theorem domOf_initialDoms {s : Double} (hs : s ∈ func.reachableStates) :
    domOf (initialDoms func entryId) s =
      if s = entryId then [entryId] else func.reachableStates := by
  rw [domOf, get_initialDoms hs]
  rfl

theorem Narrowing.start : Narrowing cfg func entryId (initialDoms func entryId) := by
  have hknown : ∀ s ∈ func.reachableStates, ∃ l, (initialDoms func entryId).get s = some l ∧
      l.Nodup ∧ ∀ x ∈ l, x ∈ func.reachableStates := by
    intro s hs
    refine ⟨_, get_initialDoms hs, ?_⟩
    by_cases hentry : s = entryId
    · subst hentry
      simpa using hs
    · rw [if_neg hentry]
      exact ⟨func.distinct, fun x hx => hx⟩
  refine ⟨hknown, fun s hs block hr x hx => ?_⟩
  rw [domOf_initialDoms hs, if_neg hr.notEntry]
  rw [mem_nextDom_of_known (fun q hq => (hknown q hq).imp fun _ hl => hl.1) hr] at hx
  obtain rfl | hall := hx
  · exact hs
  · obtain ⟨p, hp⟩ := List.exists_mem_of_ne_nil _ hr.preds
    obtain ⟨l, hl, -, hsub⟩ := hknown p ((mem_predsOf hr.found p).mp hp).2
    have hx := hall p hp
    rw [domOf, hl] at hx
    exact hsub x hx

omit [Host] in
theorem total_initialDoms (func : FunctionContext) (entryId : Double) :
    total func (initialDoms func entryId) ≤
      func.reachableStates.length*func.reachableStates.length := by
  have hbound : ∀ n ∈ func.reachableStates.map
      (fun s => (domOf (initialDoms func entryId) s).length), n ≤ func.reachableStates.length := by
    intro n hn
    obtain ⟨s, hs, rfl⟩ := List.mem_map.mp hn
    rw [domOf_initialDoms hs]
    split
    · exact List.length_pos_of_mem hs
    · exact le_rfl
  have hle := List.sum_le_card_nsmul _ _ hbound
  simpa [total] using hle

/-- The fixpoint iteration always ends. -/
theorem computeDominators_ends (cfg : ControlFlowGraph Double) (func : FunctionContext)
    (entryId : Double) : ∃ func', computeDominators cfg func entryId = some func' := by
  have htotal := total_initialDoms func entryId
  obtain ⟨dom, hdom, -⟩ := @dominatorPasses_ends _ cfg func entryId (fun _ => True)
    (fun _ _ _ _ _ _ _ => trivial) _ _ Narrowing.start trivial (Nat.lt_succ_of_le htotal)
  exact ⟨_, by rw [computeDominators, hdom]; rfl⟩

end Passes

/-! ## The sets after the last pass -/

/-- The states of the function are those that the edges lead to from its entry block. -/
structure EnteredAt (cfg : ControlFlowGraph Double) (func : FunctionContext) (entryId : Double) :
    Prop where
  numbered : cfg.Numbered
  entry : ∃ b ∈ cfg.blocks, b.id = entryId
  states : ∀ s, s ∈ func.reachableStates ↔ ReflTransGen cfg.Flows entryId s

namespace EnteredAt
variable {cfg : ControlFlowGraph Double} {func : FunctionContext} {entryId : Double}

theorem within (h : EnteredAt cfg func entryId) {s : Double} (hs : s ∈ func.reachableStates) :
    ReflTransGen (cfg.Within func.reachableStates) entryId s := by
  have hway := (h.states s).mp hs
  clear hs
  induction hway with
  | refl => exact .refl
  | @tail a b hway hedge ih =>
    exact ih.tail ⟨hedge, (h.states a).mpr hway, (h.states b).mpr (hway.tail hedge)⟩

theorem mem_of_within (h : EnteredAt cfg func entryId) {s : Double}
    (hs : ReflTransGen (cfg.Within func.reachableStates) entryId s) : s ∈ func.reachableStates :=
  (h.states s).mpr (hs.lift id fun _ _ he => he.1)

theorem entry_mem (h : EnteredAt cfg func entryId) : entryId ∈ func.reachableStates :=
  (h.states entryId).mpr .refl

variable [Host]

theorem revised (h : EnteredAt cfg func entryId) {s : Double} (hs : s ∈ func.reachableStates)
    (hne : s ≠ entryId) : ∃ block, Revised cfg func entryId s block := by
  rcases ((h.states s).mp hs).cases_tail with heq | ⟨p, hp, hedge⟩
  · exact absurd heq.symm hne.symm
  · have hedge' := hedge
    obtain ⟨e, he, -, ht⟩ := hedge'
    obtain ⟨block, hblock⟩ := exists_getBlock (ht ▸ (h.numbered.connected e he).2)
    refine ⟨block, hne, hblock, List.ne_nil_of_mem ((mem_predsOf hblock p).mpr ⟨hedge, ?_⟩)⟩
    exact (h.states p).mpr hp

theorem mem_predsOf_iff {s p : Double} {block : BasicBlock Double}
    (hs : s ∈ func.reachableStates) (hr : Revised cfg func entryId s block) :
    p ∈ predsOf cfg func block ↔ cfg.Within func.reachableStates p s := by
  rw [mem_predsOf hr.found]
  exact ⟨fun hp => ⟨hp.1, hp.2, hs⟩, fun hp => ⟨hp.1, hp.2.1⟩⟩

/-- No set ever loses a dominator. -/
structure Above (cfg : ControlFlowGraph Double) (func : FunctionContext) (entryId : Double)
    (dom : Doms) : Prop where
  entry : domOf dom entryId = [entryId]
  dominators : ∀ s ∈ func.reachableStates, ∀ d,
    Dominates (cfg.Within func.reachableStates) entryId d s → d ∈ domOf dom s

omit [Host] in
theorem above_start (h : EnteredAt cfg func entryId) :
    Above cfg func entryId (initialDoms func entryId) := by
  refine ⟨by rw [domOf_initialDoms h.entry_mem, if_pos rfl], fun s hs d hd => ?_⟩
  rw [domOf_initialDoms hs]
  by_cases hentry : s = entryId
  · subst hentry
    rw [if_pos rfl, List.mem_singleton]
    exact dominates_root.mp hd
  · rw [if_neg hentry]
    exact h.mem_of_within (hd.reach (h.within hs))

theorem above_set (dom : Doms) (s : Double)
    (block : BasicBlock Double) (hn : Narrowing cfg func entryId dom)
    (ha : Above cfg func entryId dom) (hs : s ∈ func.reachableStates)
    (hr : Revised cfg func entryId s block) :
    Above cfg func entryId (dom.set s (nextDom cfg func dom block s)) := by
  refine ⟨by rw [Narrowing.domOf_set, if_neg hr.notEntry.symm, ha.entry], fun t ht d hd => ?_⟩
  rw [Narrowing.domOf_set]
  by_cases hts : t = s
  · subst hts
    rw [if_pos rfl, hn.mem_nextDom hr]
    by_cases hdt : d = t
    · exact .inl hdt
    · refine .inr fun p hp => ?_
      have hedge := (mem_predsOf_iff hs hr).mp hp
      exact ha.dominators p hedge.2.1 d (hd.pred hdt hedge)
  · rw [if_neg hts]
    exact ha.dominators t ht d hd

/-- Where every state is settled, a set holds no more than the dominators. -/
theorem mem_path (h : EnteredAt cfg func entryId) {dom : Doms} (hn : Narrowing cfg func entryId dom)
    (ha : Above cfg func entryId dom)
    (hsettled : ∀ s ∈ func.reachableStates, Settled cfg func entryId dom s) {s : Double}
    {l : List Double} (hl : Path (cfg.Within func.reachableStates) entryId s l) :
    ∀ d ∈ domOf dom s, d ∈ l := by
  induction hl with
  | start =>
    intro d hd
    rwa [ha.entry] at hd
  | @step b c l hl hedge ih =>
    intro d hd
    by_cases hentry : c = entryId
    · rw [hentry, ha.entry, List.mem_singleton] at hd
      rw [hd, hentry]
      exact List.mem_append_right _ List.mem_cons_self
    · have hc := hedge.2.2
      obtain ⟨block, hr⟩ := h.revised hc hentry
      rcases (hn.mem_nextDom hr d).mp ((hsettled c hc block hr d).mp hd) with rfl | hall
      · exact List.mem_append_right _ List.mem_cons_self
      · exact List.mem_append_left _ (ih d (hall b ((mem_predsOf_iff hc hr).mpr hedge)))

/-- The strict dominator that the search for the immediate one finds. -/
theorem immediateDominator_eq (h : EnteredAt cfg func entryId) {dom : Doms}
    (hn : Narrowing cfg func entryId dom)
    (hdom : ∀ s ∈ func.reachableStates, ∀ d, d ∈ domOf dom s ↔
      Dominates (cfg.Within func.reachableStates) entryId d s) {s : Double}
    (hs : s ∈ func.reachableStates) (hne : s ≠ entryId) :
    ∃ d, immediateDominator dom s = some d ∧
      ImmediatelyDominates (cfg.Within func.reachableStates) entryId d s := by
  have hreach := h.within hs
  have hmem : ∀ d, d ∈ (domOf dom s).erase s ↔
      d ≠ s ∧ Dominates (cfg.Within func.reachableStates) entryId d s := by
    intro d
    rw [(hn.nodup_domOf hs).mem_erase_iff, hdom s hs]
  have hstate : ∀ d ∈ (domOf dom s).erase s, d ∈ func.reachableStates :=
    fun d hd => hn.domOf_subset hs (List.mem_of_mem_erase hd)
  have hentry : entryId ∈ (domOf dom s).erase s :=
    (hmem entryId).mpr ⟨hne.symm, fun _ hl => hl.first_mem⟩
  obtain ⟨low, hlow, hall⟩ := exists_lowest hreach (List.ne_nil_of_mem hentry)
    (fun d hd => ((hmem d).mp hd).2)
  -- a strict dominator of none of the others is the one that all of them dominate
  have htest : ∀ d ∈ (domOf dom s).erase s,
      ((domOf dom s).erase s).all (fun other =>
        other = d || !((dom.get other).getD []).elem d) = true ↔ d = low := by
    intro d hd
    rw [List.all_eq_true]
    constructor
    · intro ht
      by_contra hdl
      have hlowtest := ht low hlow
      have hdlow := (hdom low (hstate low hlow) d).mpr (hall d hd)
      have hmem' : ((dom.get low).getD []).elem d = true := List.elem_iff.mpr hdlow
      rw [hmem'] at hlowtest
      simp only [Bool.not_true, Bool.or_false, decide_eq_true_eq] at hlowtest
      exact hdl hlowtest.symm
    · rintro rfl other hother
      by_cases hod : other = d
      · simp [hod]
      · have hnot : d ∉ (dom.get other).getD [] := by
          intro hin
          have hdo := (hdom other (hstate other hother) d).mp hin
          exact hod ((hall other hother).antisymm hdo (h.within (hstate other hother)))
        simp [hod, hnot]
  refine ⟨low, ?_, ((hmem low).mp hlow).1, ((hmem low).mp hlow).2, fun c hc hcs _ =>
    hall c ((hmem c).mpr ⟨hc, hcs⟩)⟩
  have hisSome : (immediateDominator dom s).isSome := by
    unfold immediateDominator
    rw [List.find?_isSome]
    exact ⟨low, hlow, (htest low hlow).mpr rfl⟩
  obtain ⟨d, hd⟩ := Option.isSome_iff_exists.mp hisSome
  have hfound := List.find?_some hd
  rw [hd, (htest d (List.mem_of_find?_eq_some hd)).mp hfound]

end EnteredAt

section Immediate
variable {dom : Doms} {entryId s d : Double}

theorem get_setImmediate_kept (hs : immediateDominator dom s = some d) (t : Double)
    {idoms : InsertionMap Double Double} (hget : idoms.get s = some d) :
    (setImmediate dom entryId idoms t).get s = some d := by
  unfold setImmediate
  by_cases ht : t = entryId
  · rwa [if_pos ht]
  · rw [if_neg ht]
    cases hc : immediateDominator dom t with
    | none => exact hget
    | some c =>
      by_cases hts : s = t
      · subst hts
        rw [hs] at hc
        rw [InsertionMap.get_set_self, hc]
      · rw [InsertionMap.get_set_ne _ _ hts, hget]

theorem get_foldl_kept (hs : immediateDominator dom s = some d) (l : List Double)
    {idoms : InsertionMap Double Double} (hget : idoms.get s = some d) :
    (l.foldl (setImmediate dom entryId) idoms).get s = some d := by
  induction l generalizing idoms with
  | nil => exact hget
  | cons t l ih => exact ih (get_setImmediate_kept hs t hget)

theorem get_foldl_setImmediate (hs : immediateDominator dom s = some d) (hne : s ≠ entryId)
    {l : List Double} (hl : s ∈ l) (idoms : InsertionMap Double Double) :
    (l.foldl (setImmediate dom entryId) idoms).get s = some d := by
  induction l generalizing idoms with
  | nil => cases hl
  | cons t l ih =>
    rcases List.mem_cons.mp hl with rfl | hl
    · rw [List.foldl_cons]
      refine get_foldl_kept hs l ?_
      rw [setImmediate, if_neg hne, hs]
      exact InsertionMap.get_set_self idoms s d
    · exact ih hl _

end Immediate

/-- The sets of dominators are those of the paths from the entry, and each state but the entry
gets its one immediate dominator. -/
theorem computeDominators_correct [Host] {cfg : ControlFlowGraph Double} {func : FunctionContext}
    {entryId : Double} (h : EnteredAt cfg func entryId) :
    ∃ func', computeDominators cfg func entryId = some func' ∧
      (∀ s ∈ func.reachableStates, ∃ doms, func'.dominators.get s = some doms ∧
        ∀ d, d ∈ doms ↔ ∀ l, Path (cfg.Within func.reachableStates) entryId s l → d ∈ l) ∧
      ∀ s ∈ func.reachableStates, s ≠ entryId → ∃ d, func'.immediateDominators.get s = some d ∧
        ∀ c, c = d ↔ ImmediatelyDominates (cfg.Within func.reachableStates) entryId c s := by
  have htotal := total_initialDoms func entryId
  obtain ⟨dom, hpasses, hn, ha, hsettled⟩ := dominatorPasses_ends EnteredAt.above_set Narrowing.start
    h.above_start (Nat.lt_succ_of_le htotal)
  have hdom : ∀ s ∈ func.reachableStates, ∀ d, d ∈ domOf dom s ↔
      Dominates (cfg.Within func.reachableStates) entryId d s := fun s hs d =>
    ⟨fun hd l hl => h.mem_path hn ha hsettled hl d hd, ha.dominators s hs d⟩
  refine ⟨_, by rw [computeDominators, hpasses]; rfl, fun s hs => ?_, fun s hs hne => ?_⟩
  · obtain ⟨doms, hdoms, -⟩ := hn.known s hs
    have heq : domOf dom s = doms := by rw [domOf, hdoms]; rfl
    exact ⟨doms, hdoms, fun d => heq ▸ hdom s hs d⟩
  · obtain ⟨d, hd, himm⟩ := h.immediateDominator_eq hn hdom hs hne
    refine ⟨d, get_foldl_setImmediate hd hne hs _, fun c => ?_⟩
    constructor
    · rintro rfl
      exact himm
    · exact fun hc => hc.unique himm (h.within hs)

/-! ## Two states that lead to each other -/

def stateZero : Double := .finite 0 Double.zero_isDouble
def stateOne : Double := .finite 1 Double.one_isDouble

theorem stateOne_ne_zero : stateOne ≠ stateZero := by simp [stateOne, stateZero]

def plainBlock (id : Double) : BasicBlock Double := ⟨id, id, id, [], [], false, false⟩

def pairGraph : ControlFlowGraph Double where
  dispatcherVar := "Q"
  blocks := [plainBlock stateZero, plainBlock stateOne]
  entry := none
  exits := []
  edges := [⟨stateZero, stateOne, .unconditional, none⟩, ⟨stateOne, stateZero, .unconditional, none⟩]

def pairContext : FunctionContext where
  id := "func_1"
  entryState := some stateZero
  reachableStates := [stateZero, stateOne]
  distinct := by simp [stateOne_ne_zero.symm]
  sccs := []
  dominators := .empty
  immediateDominators := .empty

theorem flows_pairGraph {a b : Double} : pairGraph.Flows a b ↔
    a = stateZero ∧ b = stateOne ∨ a = stateOne ∧ b = stateZero := by
  simp [ControlFlowGraph.Flows, pairGraph, eq_comm]

theorem enteredAt_pairGraph : EnteredAt pairGraph pairContext stateZero where
  numbered :=
    { connected := by simp [ControlFlowGraph.Connected, pairGraph, plainBlock]
      ids := by simp [pairGraph, plainBlock, stateZero, stateOne] }
  entry := by simp [pairGraph, plainBlock]
  states s := by
    have hstates : s ∈ pairContext.reachableStates ↔ s = stateZero ∨ s = stateOne := by
      simp [pairContext]
    rw [hstates]
    constructor
    · rintro (rfl | rfl)
      · exact .refl
      · exact .single (flows_pairGraph.mpr (.inl ⟨rfl, rfl⟩))
    · intro h
      refine closed_of_path (P := fun s => s = stateZero ∨ s = stateOne)
        (fun a b _ hedge => ?_) h (.inl rfl)
      rcases flows_pairGraph.mp hedge with ⟨-, hb⟩ | ⟨-, hb⟩
      · exact .inr hb
      · exact .inl hb

theorem dominators_pairGraph :
    let _ : Host := ⟨fun _ _ => .nan, fun _ => ""⟩
    ∃ func', computeDominators pairGraph pairContext stateZero = some func' ∧
      ∃ d, func'.immediateDominators.get stateOne = some d ∧
        ∀ c, c = d ↔ ImmediatelyDominates (pairGraph.Within pairContext.reachableStates)
          stateZero c stateOne := by
  intro _
  obtain ⟨func', hfunc, -, hidom⟩ := computeDominators_correct enteredAt_pairGraph
  exact ⟨func', hfunc, hidom stateOne (by simp [pairContext]) stateOne_ne_zero⟩

end LuaRecovery.Cfg
