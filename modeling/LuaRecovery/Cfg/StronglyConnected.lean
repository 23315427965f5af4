import LuaRecovery.Cfg.Dominators
import LuaRecovery.Lib.Components

/-!
# The strongly connected components of a function context

`computeSCCs` and `hasSelfLoop` of `cfg/multi-entry-cfg.js`. The search tests the
id of a successor for being truthy, which `0` is not.
-/

set_option autoImplicit false

namespace LuaRecovery.Cfg
open LuaRecovery.Lib LuaRecovery.Lua Digraph Relation

def truthyId : Double → Bool
  | .finite q _ => q ≠ 0
  | .infinity _ => true
  | .nan => false

section Definitions
variable [Host]

/-- The successors that the search follows. -/
def successorIds (cfg : ControlFlowGraph Double) (func : FunctionContext) (blockId : Double) :
    List Double :=
  match cfg.getBlock blockId with
  | some block => ((cfg.successors block).map (fun e => e.target)).filter
      (fun succId => truthyId succId && func.reachableStates.elem succId)
  | none => []

def hasSelfLoop (cfg : ControlFlowGraph Double) (blockId : Double) : Bool :=
  match cfg.getBlock blockId with
  | some block => (cfg.successors block).any (fun e => LuaNumber.eq e.target blockId)
  | none => false

def computeSCCs (cfg : ControlFlowGraph Double) (func : FunctionContext) :
    Option (List (List Double)) :=
  Components.components (successorIds cfg func)
    (fun scc blockId => 1 < scc.length || hasSelfLoop cfg blockId) func.reachableStates

end Definitions

section Edges
variable [Host] {cfg : ControlFlowGraph Double} {func : FunctionContext}

omit [Host] in
theorem truthyId_iff {d : Double} (hd : d ≠ .nan) : truthyId d = true ↔ d ≠ stateZero := by
  cases d with
  | finite q hq => simp [truthyId, stateZero]
  | infinity negative => simp [truthyId, stateZero]
  | nan => exact absurd rfl hd

theorem eq_iff {d d' : Double} (hd : d ≠ .nan) : LuaNumber.eq d d' = true ↔ d = d' := by
  rw [← sameKey_iff]
  unfold sameKey
  have hself : LuaNumber.eq d d = true := by
    cases d with
    | nan => exact absurd rfl hd
    | finite q hq => simp [LuaNumber.eq, Double.eq]
    | infinity negative => simp [LuaNumber.eq, Double.eq]
  simp [hself]

theorem mem_successors (hcfg : cfg.Connected) {a b : Double} :
    cfg.Flows a b ↔ ∃ block, cfg.getBlock a = some block ∧
      b ∈ (cfg.successors block).map (fun e => e.target) := by
  unfold ControlFlowGraph.Flows ControlFlowGraph.successors
  constructor
  · rintro ⟨e, he, rfl, rfl⟩
    obtain ⟨block, hblock⟩ := exists_getBlock (hcfg e he).1
    refine ⟨block, hblock, List.mem_map.mpr ⟨e, List.mem_filter.mpr ⟨he, ?_⟩, rfl⟩⟩
    exact sameKey_iff.mpr (getBlock_id hblock).2.symm
  · rintro ⟨block, hblock, hb⟩
    obtain ⟨e, he, rfl⟩ := List.mem_map.mp hb
    obtain ⟨he, hsource⟩ := List.mem_filter.mp he
    exact ⟨e, he, (sameKey_iff.mp hsource).trans (getBlock_id hblock).2, rfl⟩

theorem mem_successorIds (hcfg : cfg.Connected) (hids : ∀ b ∈ cfg.blocks, b.id ≠ .nan)
    {a b : Double} : b ∈ successorIds cfg func a ↔
      cfg.Flows a b ∧ b ≠ stateZero ∧ b ∈ func.reachableStates := by
  have hnan : ∀ b, cfg.Flows a b → b ≠ .nan := by
    rintro b ⟨e, he, -, rfl⟩
    obtain ⟨block, hblock, hid⟩ := (hcfg e he).2
    exact hid ▸ hids block hblock
  rw [mem_successors hcfg]
  unfold successorIds
  constructor
  · intro h
    cases hblock : cfg.getBlock a with
    | none => simp [hblock] at h
    | some block =>
      rw [hblock] at h
      obtain ⟨hb, htest⟩ := List.mem_filter.mp h
      have hflows := (mem_successors hcfg).mpr ⟨block, hblock, hb⟩
      rw [Bool.and_eq_true, truthyId_iff (hnan b hflows), List.elem_iff] at htest
      exact ⟨⟨block, rfl, hb⟩, htest⟩
  · rintro ⟨⟨block, hblock, hb⟩, hzero, hstate⟩
    have hflows := (mem_successors hcfg).mpr ⟨block, hblock, hb⟩
    rw [hblock]
    refine List.mem_filter.mpr ⟨hb, ?_⟩
    rw [Bool.and_eq_true, truthyId_iff (hnan b hflows), List.elem_iff]
    exact ⟨hzero, hstate⟩

theorem hasSelfLoop_iff (hcfg : cfg.Connected) (hids : ∀ b ∈ cfg.blocks, b.id ≠ .nan)
    {a : Double} : hasSelfLoop cfg a = true ↔ cfg.Flows a a := by
  rw [mem_successors hcfg]
  unfold hasSelfLoop
  cases hblock : cfg.getBlock a with
  | none => simp
  | some block =>
    have hne : ∀ e ∈ cfg.successors block, e.target ≠ .nan := by
      intro e he
      obtain ⟨b, hb, hid⟩ := (hcfg e (List.mem_filter.mp he).1).2
      exact hid ▸ hids b hb
    simp only [List.any_eq_true, Option.some.injEq, exists_eq_left', List.mem_map]
    constructor
    · rintro ⟨e, he, heq⟩
      exact ⟨e, he, (eq_iff (hne e he)).mp heq⟩
    · rintro ⟨e, he, heq⟩
      exact ⟨e, he, (eq_iff (hne e he)).mpr heq⟩

end Edges

/-! ## What the search loses -/

section Zero
variable [Host] {cfg : ControlFlowGraph Double} {func : FunctionContext}

/-- State `0` is on no cycle with another state of the function. -/
def ZeroAlone (cfg : ControlFlowGraph Double) (func : FunctionContext) : Prop :=
  ∀ y, Mutual (cfg.Within func.reachableStates) stateZero y → y = stateZero

variable (hcfg : cfg.Connected) (hids : ∀ b ∈ cfg.blocks, b.id ≠ .nan)
include hcfg hids

theorem reach_within {a b : Double} (ha : a ∈ func.reachableStates)
    (h : Components.Reach (successorIds cfg func) a b) :
    ReflTransGen (cfg.Within func.reachableStates) a b ∧ b ∈ func.reachableStates := by
  induction h with
  | refl => exact ⟨.refl, ha⟩
  | tail _ hedge ih =>
    obtain ⟨hflows, -, hstate⟩ := (mem_successorIds hcfg hids).mp hedge
    exact ⟨ih.1.tail ⟨hflows, ih.2, hstate⟩, hstate⟩

/-- A way from a vertex back to itself never enters state `0` where that is alone. -/
theorem reach_of_mutual (hzero : ZeroAlone cfg func) {a b : Double}
    (hto : ReflTransGen (cfg.Within func.reachableStates) a b)
    (hback : ReflTransGen (cfg.Within func.reachableStates) b a) :
    Components.Reach (successorIds cfg func) a b := by
  induction hto with
  | refl => exact .refl
  | @tail y z hy hedge ih =>
    have hway := ih (.head hedge hback)
    by_cases hz : z = stateZero
    · -- then all the vertices of the cycle are state `0`
      have hya : a = stateZero := hzero a ⟨hz ▸ hback, hz ▸ hy.tail hedge⟩
      rw [hya, hz]
      exact .refl
    · exact hway.tail ((mem_successorIds hcfg hids).mpr ⟨hedge.1, hz, hedge.2.2⟩)

theorem mutual_iff (hzero : ZeroAlone cfg func) {a b : Double} (ha : a ∈ func.reachableStates) :
    Components.Mutual (successorIds cfg func) a b ↔
      Mutual (cfg.Within func.reachableStates) a b := by
  constructor
  · intro h
    obtain ⟨hto, hb⟩ := reach_within hcfg hids ha h.1
    exact ⟨hto, (reach_within hcfg hids hb h.2).1⟩
  · exact fun h => ⟨reach_of_mutual hcfg hids hzero h.1 h.2,
      reach_of_mutual hcfg hids hzero h.2 h.1⟩

/-- A component is reported where it has a second vertex or an edge to itself. -/
theorem kept_iff (hzero : ZeroAlone cfg func) {scc : List Double} {root : Double}
    (hroot : root ∈ func.reachableStates) (hnodup : scc.Nodup)
    (hscc : ∀ x, x ∈ scc ↔ Components.Mutual (successorIds cfg func) root x) :
    (1 < scc.length || hasSelfLoop cfg root) = true ↔
      TransGen (cfg.Within func.reachableStates) root root := by
  have hmem : root ∈ scc := (hscc root).mpr (.refl _ root)
  have hself : cfg.Within func.reachableStates root root ↔ cfg.Flows root root :=
    ⟨fun h => h.1, fun h => ⟨h, hroot, hroot⟩⟩
  have hlength : 1 < scc.length ↔
      ∃ b, b ≠ root ∧ Mutual (cfg.Within func.reachableStates) root b := by
    rw [one_lt_length_iff hnodup hmem]
    constructor
    · rintro ⟨b, hb, hne⟩
      exact ⟨b, hne, (mutual_iff hcfg hids hzero hroot).mp ((hscc b).mp hb)⟩
    · rintro ⟨b, hne, hmutual⟩
      exact ⟨b, (hscc b).mpr ((mutual_iff hcfg hids hzero hroot).mpr hmutual), hne⟩
  rw [cycle_iff, hself, Bool.or_eq_true, decide_eq_true_eq, hasSelfLoop_iff hcfg hids, hlength,
    or_comm]

omit hcfg hids in
theorem computeSCCs_ends (cfg : ControlFlowGraph Double) (func : FunctionContext) :
    ∃ popped : List (List Double × Double), computeSCCs cfg func =
      some ((popped.filter (fun p => 1 < p.1.length || hasSelfLoop cfg p.2)).map Prod.fst) ∧
    (∀ p ∈ popped, p.2 ∈ func.reachableStates ∧ p.1.Nodup ∧
      ∀ x, x ∈ p.1 ↔ Components.Mutual (successorIds cfg func) p.2 x) ∧
    (popped.Pairwise fun p q => ∀ x ∈ p.1, x ∉ q.1) ∧
    ∀ v ∈ func.reachableStates, ∃ p ∈ popped, v ∈ p.1 := by
  have hclosed : ∀ v ∈ func.reachableStates, ∀ w ∈ successorIds cfg func v,
      w ∈ func.reachableStates := by
    intro v _ w hw
    unfold successorIds at hw
    split at hw
    · have htest := (List.mem_filter.mp hw).2
      rw [Bool.and_eq_true, List.elem_iff] at htest
      exact htest.2
    · cases hw
  exact Components.components_eq hclosed

theorem cyclicComponents_of_zeroAlone (hzero : ZeroAlone cfg func) {sccs : List (List Double)}
    (h : computeSCCs cfg func = some sccs) :
    CyclicComponents (cfg.Within func.reachableStates) sccs := by
  obtain ⟨popped, hpopped, hcomponent, hseparate, hall⟩ := computeSCCs_ends cfg func
  obtain rfl := Option.some_inj.mp (h.symm.trans hpopped)
  constructor
  · intro scc hscc
    obtain ⟨p, hp, rfl⟩ := List.mem_map.mp hscc
    obtain ⟨hp, hkeep⟩ := List.mem_filter.mp hp
    obtain ⟨hroot, hnodup, hmem⟩ := hcomponent p hp
    refine ⟨hnodup, p.2, (kept_iff hcfg hids hzero hroot hnodup hmem).mp hkeep, fun x => ?_⟩
    rw [hmem, mutual_iff hcfg hids hzero hroot]
  · intro x hx
    obtain ⟨y, hedge, -⟩ := cycle_cases hx
    obtain ⟨p, hp, hxp⟩ := hall x hedge.2.1
    obtain ⟨hroot, hnodup, hmem⟩ := hcomponent p hp
    have hmutual := (mutual_iff hcfg hids hzero hroot).mp ((hmem x).mp hxp)
    -- the cycle through `x` is one through the root as well
    have hcycle : TransGen (cfg.Within func.reachableStates) p.2 p.2 :=
      (TransGen.trans_right hmutual.1 hx).trans_left hmutual.2
    exact ⟨p.1, List.mem_map.mpr ⟨p, List.mem_filter.mpr ⟨hp,
      (kept_iff hcfg hids hzero hroot hnodup hmem).mpr hcycle⟩, rfl⟩, hxp⟩
  · exact List.pairwise_map.mpr (hseparate.filter _)

/-- No edge into state `0` is seen, so that its component is never found. -/
theorem zeroAlone_of_cyclicComponents {sccs : List (List Double)}
    (h : computeSCCs cfg func = some sccs)
    (hsccs : CyclicComponents (cfg.Within func.reachableStates) sccs) : ZeroAlone cfg func := by
  intro y hy
  by_contra hne
  obtain ⟨popped, hpopped, hcomponent, -, -⟩ := computeSCCs_ends cfg func
  obtain rfl := Option.some_inj.mp (h.symm.trans hpopped)
  obtain ⟨scc, hscc, hzero⟩ := hsccs.listed stateZero (cycle_iff.mpr (.inr ⟨y, hne, hy⟩))
  obtain ⟨-, root, -, hmem⟩ := hsccs.component scc hscc
  have hyscc : y ∈ scc := (hmem y).mpr (((hmem stateZero).mp hzero).trans hy)
  obtain ⟨p, hp, rfl⟩ := List.mem_map.mp hscc
  obtain ⟨-, -, hmem'⟩ := hcomponent p (List.mem_filter.mp hp).1
  have hway := ((hmem' y).mp hyscc).symm.trans ((hmem' stateZero).mp hzero)
  rcases hway.1.cases_tail with heq | ⟨x, -, hedge⟩
  · exact hne heq.symm
  · exact ((mem_successorIds hcfg hids).mp hedge).2.1 rfl

/-- The components are right where state `0` shares no cycle with another state. -/
theorem computeSCCs_correct_iff : ∃ sccs, computeSCCs cfg func = some sccs ∧
    (CyclicComponents (cfg.Within func.reachableStates) sccs ↔
      ∀ y, Mutual (cfg.Within func.reachableStates) stateZero y → y = stateZero) := by
  obtain ⟨popped, hpopped, -⟩ := computeSCCs_ends cfg func
  exact ⟨_, hpopped, zeroAlone_of_cyclicComponents hcfg hids hpopped,
    fun hzero => cyclicComponents_of_zeroAlone hcfg hids hzero hpopped⟩

end Zero

theorem connected_pairGraph : pairGraph.Connected := enteredAt_pairGraph.numbered.connected

theorem ids_pairGraph : ∀ b ∈ pairGraph.blocks, b.id ≠ .nan := enteredAt_pairGraph.numbered.ids

theorem computeSCCs_pairGraph :
    let _ : Host := ⟨fun _ _ => .nan, fun _ => ""⟩
    ∃ sccs, computeSCCs pairGraph pairContext = some sccs ∧
      (CyclicComponents (pairGraph.Within pairContext.reachableStates) sccs ↔
        ∀ y, Mutual (pairGraph.Within pairContext.reachableStates) stateZero y → y = stateZero) := by
  intro _
  exact computeSCCs_correct_iff connected_pairGraph ids_pairGraph

/-- States `0` and `1` lead to each other, and their component is missed. -/
theorem pairGraph_component_missed :
    let _ : Host := ⟨fun _ _ => .nan, fun _ => ""⟩
    ¬ ∃ sccs, computeSCCs pairGraph pairContext = some sccs ∧
      CyclicComponents (pairGraph.Within pairContext.reachableStates) sccs := by
  intro _
  rintro ⟨sccs, h, hsccs⟩
  have hzero := zeroAlone_of_cyclicComponents connected_pairGraph ids_pairGraph h hsccs
  have hstates : ∀ s, s = stateZero ∨ s = stateOne → s ∈ pairContext.reachableStates := by
    intro s hs
    simpa [pairContext] using hs
  refine stateOne_ne_zero (hzero stateOne ⟨.single ?_, .single ?_⟩)
  · exact ⟨flows_pairGraph.mpr (.inl ⟨rfl, rfl⟩), hstates _ (.inl rfl), hstates _ (.inr rfl)⟩
  · exact ⟨flows_pairGraph.mpr (.inr ⟨rfl, rfl⟩), hstates _ (.inr rfl), hstates _ (.inl rfl)⟩

end LuaRecovery.Cfg
