import LuaRecovery.Cfg.DecisionTree

/-!
# The blocks of a dispatcher's graph

The graph pictures its decision tree as long as every block's id falls into
the block's interval. The ids are computed in doubles, so between two
neighbouring thresholds beyond `2^52` the midpoint may round up to the upper
one, and below such a threshold `maxVal - 1` may round back to it.
-/

set_option autoImplicit false

namespace LuaRecovery.Cfg
open LuaRecovery.Lib LuaRecovery.Lua LuaRecovery.Evaluator

/-- A tree whose root is a decision, ordered from no bounds at all. -/
structure SearchTree (stateVar : String) where
  threshold : Threshold
  lower : DecisionTree stateVar
  upper : DecisionTree stateVar
  ordered : (DecisionTree.node threshold lower upper).Ordered none none

namespace SearchTree
variable {stateVar : String}

def tree (t : SearchTree stateVar) : DecisionTree stateVar := .node t.threshold t.lower t.upper

def root (t : SearchTree stateVar) : Stmt Double :=
  .ifStatement [.mk (t.threshold.condition stateVar) t.lower.body] (some t.upper.body)

def leaves (t : SearchTree stateVar) : List Leaf := t.tree.leaves none none

/-- The statements that the tree executes in the integer state `z`. -/
def leafAt (t : SearchTree stateVar) (z : ℤ) : List (Stmt Double) :=
  t.tree.leafAt (fun u => z < u.value)

end SearchTree

/-- The part of a block that pictures a leaf. -/
structure BlockView where
  id : Double
  minState : Double
  maxState : Double
  statements : List (Stmt Double)

def BasicBlock.view (b : BasicBlock Double) : BlockView :=
  ⟨b.id, b.minState, b.maxState, b.statements⟩

/-- The interval `[minState, maxState)` contains the integer. -/
def BlockView.Covers (b : BlockView) (z : ℤ) : Prop :=
  (match b.minState with
    | .finite q _ => q ≤ z
    | .infinity negative => negative = true
    | .nan => False) ∧
  (match b.maxState with
    | .finite q _ => z < q
    | .infinity negative => negative = false
    | .nan => False)

section Pictures
variable [Host] {stateVar : String}

def BlockView.IdInside (b : BlockView) : Prop :=
  LuaNumber.le b.minState b.id = true ∧ LuaNumber.lt b.id b.maxState = true

/-- The blocks picture the tree. -/
structure Pictures (t : SearchTree stateVar) (blocks : List BlockView) : Prop where
  one_per_leaf : blocks.map (fun b => (b.minState, b.maxState, b.statements)) =
    t.leaves.map (fun l => (lowerBound l.lo, upperBound l.hi, l.body))
  distinct : blocks.Pairwise (fun b b' => sameKey b.id b'.id = false)
  inside : ∀ b ∈ blocks, b.IdInside
  partition : ∀ z : ℤ, ∃! b, b ∈ blocks ∧ b.Covers z
  executes : ∀ z : ℤ, ∀ b ∈ blocks, b.Covers z → b.statements = t.leafAt z

/-- Rounding to double precision does not close the interval of a leaf. -/
def StaysOpen (l : Leaf) : Prop :=
  match l.lo, l.hi with
  | some lo, some hi => |Double.round (lo.value+hi.value)| < 2^1024 ∧
      Double.round (lo.value+hi.value) < 2*hi.value
  | none, some hi => Double.round (hi.value-1) < hi.value
  | _, none => True

end Pictures

section Ids
variable [Host]

omit [Host] in
theorem monotone_integer (z : ℤ) : Monotone (fun u => z < u.value) := by
  intro t t' htt' ht
  simp only [decide_eq_true_eq] at ht ⊢
  omega

omit [Host] in
theorem monotone_double (d : Double) : Monotone (fun u => d.lt u.double) := by
  intro t t' htt' ht
  have hq : (t.value : ℚ) < t'.value := by exact_mod_cast htt'
  cases d with
  | finite q h =>
    simp only [Double.lt, Threshold.double, decide_eq_true_eq] at ht ⊢
    exact ht.trans hq
  | infinity negative => exact ht
  | nan => exact ht

theorem between_of_inside {d : Double} {lo hi : Option Threshold}
    (hlo : LuaNumber.le (lowerBound lo) d = true) (hhi : LuaNumber.lt d (upperBound hi) = true) :
    Between (fun u => d.lt u.double) lo hi := by
  constructor
  · intro l hl
    cases hl
    have hle : (l.double.lt d || l.double.eq d) = true := hlo
    cases d with
    | finite q h =>
      simp only [Double.lt, Double.eq, Threshold.double, Bool.or_eq_true,
        decide_eq_true_eq] at hle
      simp only [Double.lt, Threshold.double, decide_eq_false_iff_not, not_lt]
      exact hle.elim le_of_lt le_of_eq
    | infinity negative =>
      cases negative with
      | false => rfl
      | true => cases hle
    | nan => rfl
  · intro u hu
    cases hu
    exact hhi

theorem eq_of_sameKey {d d' : Double} (hd : d ≠ .nan) (h : sameKey d d' = true) : d = d' := by
  cases d with
  | nan => exact absurd rfl hd
  | finite q hq =>
    cases d' with
    | finite q' hq' =>
      have heq : q = q' := by simpa [sameKey, LuaNumber.eq, Double.eq] using h
      exact Double.finite_congr hq heq
    | infinity negative => simp [sameKey, LuaNumber.eq, Double.eq] at h
    | nan => simp [sameKey, LuaNumber.eq, Double.eq] at h
  | infinity negative =>
    cases d' with
    | finite q hq => simp [sameKey, LuaNumber.eq, Double.eq] at h
    | infinity negative' => simpa [sameKey, LuaNumber.eq, Double.eq] using h
    | nan => simp [sameKey, LuaNumber.eq, Double.eq] at h

omit [Host] in
/-- The midpoint of an interval between two thresholds, as it is computed. -/
theorem midpoint_of_lt {n : ℤ} (h : |Double.round n| < 2^1024) :
    Double.floor (Double.div (Double.ofRat n) (Double.ofRat 2)) =
      .finite (⌊Double.round n / 2⌋ : ℤ) (Double.isDouble_floor (Double.isDouble_half h)) := by
  have htwo : Double.ofRat 2 = .finite 2 (Double.isDouble_int (n := 2) (by norm_num)) :=
    Double.ofRat_eq (Double.isDouble_int (n := 2) (by norm_num))
  have hhalf := Double.ofRat_eq (Double.isDouble_half h)
  have hfloor := Double.ofRat_eq (Double.isDouble_floor (Double.isDouble_half h))
  rw [htwo, Double.ofRat, dif_pos h, Double.div,
    if_neg (by norm_num : ¬ (2 : ℚ) = 0), hhalf, Double.floor, hfloor]

omit [Host] in
theorem midpoint_of_overflow {n : ℤ} (h : ¬ |Double.round n| < 2^1024) :
    Double.floor (Double.div (Double.ofRat n) (Double.ofRat 2)) =
      .infinity (decide (Double.round n < 0)) := by
  have htwo : Double.ofRat 2 = .finite 2 (Double.isDouble_int (n := 2) (by norm_num)) :=
    Double.ofRat_eq (Double.isDouble_int (n := 2) (by norm_num))
  have hpos : decide ((2 : ℚ) < 0) = false := by norm_num
  rw [htwo, Double.ofRat, dif_neg h, Double.div, hpos, Bool.bne_false, Double.floor]
  intro q hq h
  cases h

theorem le_finite {a b : ℚ} (ha : IsDouble a) (hb : IsDouble b) :
    LuaNumber.le (Double.finite a ha) (Double.finite b hb) = true ↔ a ≤ b := by
  show ((Double.finite a ha).lt (.finite b hb) || (Double.finite a ha).eq (.finite b hb)) = true ↔ _
  simp [Double.lt, Double.eq, le_iff_lt_or_eq]

theorem lt_finite {a b : ℚ} (ha : IsDouble a) (hb : IsDouble b) :
    LuaNumber.lt (Double.finite a ha) (Double.finite b hb) = true ↔ a < b := by
  show (Double.finite a ha).lt (.finite b hb) = true ↔ _
  simp [Double.lt]

/-- The id of the block that a leaf gets; some threshold bounds it. -/
def leafId (l : Leaf) : Double := stateId (lowerBound l.lo) (upperBound l.hi) 0

def IdStaysInside (l : Leaf) : Prop :=
  LuaNumber.le (lowerBound l.lo) (leafId l) = true ∧
    LuaNumber.lt (leafId l) (upperBound l.hi) = true

theorem idStaysInside_both {lo hi : Threshold} {body : List (Stmt Double)}
    (hlt : lo.value < hi.value) :
    IdStaysInside ⟨some lo, some hi, body⟩ ↔ StaysOpen ⟨some lo, some hi, body⟩ := by
  have hid : leafId ⟨some lo, some hi, body⟩ =
      Double.floor (Double.div (Double.ofRat ((lo.value+hi.value : ℤ) : ℚ)) (Double.ofRat 2)) := by
    rw [Int.cast_add]
    rfl
  simp only [IdStaysInside, hid, StaysOpen]
  rw [← Int.cast_add]
  by_cases h : |Double.round ((lo.value+hi.value : ℤ) : ℚ)| < 2^1024
  · rw [midpoint_of_lt h]
    simp only [lowerBound, upperBound, Threshold.double]
    rw [le_finite, lt_finite, and_iff_right h]
    have hlower : 2*(lo.value : ℚ) ≤ Double.round ((lo.value+hi.value : ℤ) : ℚ) := by
      refine Double.le_round lo.representable.1.double ?_
      have : (lo.value : ℚ) < hi.value := by exact_mod_cast hlt
      push_cast
      linarith
    rw [Int.cast_le, Int.cast_lt, Int.le_floor, Int.floor_lt]
    constructor
    · rintro ⟨-, h2⟩
      linarith
    · intro h2
      constructor <;> linarith
  · rw [midpoint_of_overflow h]
    constructor
    · rintro ⟨h1, h2⟩
      by_cases hneg : Double.round ((lo.value+hi.value : ℤ) : ℚ) < 0
      · rw [decide_eq_true hneg] at h1
        cases h1
      · rw [decide_eq_false hneg] at h2
        cases h2
    · intro h2
      exact absurd h2.1 h

theorem idStaysInside_below {hi : Threshold} {body : List (Stmt Double)} :
    IdStaysInside ⟨none, some hi, body⟩ ↔ StaysOpen ⟨none, some hi, body⟩ := by
  have hone : Double.ofRat 1 = .finite 1 (Double.isDouble_int (n := 1) (by norm_num)) :=
    Double.ofRat_eq (Double.isDouble_int (n := 1) (by norm_num))
  have hid : leafId ⟨none, some hi, body⟩ = Double.ofRat (hi.value-1) := by
    show Double.add hi.double (Double.neg (Double.ofRat ((1 : ℕ) : ℚ))) = _
    rw [Nat.cast_one, hone, Threshold.double, Double.neg, Double.add, sub_eq_add_neg]
  simp only [IdStaysInside, hid, StaysOpen]
  rw [Double.ofRat]
  by_cases h : |Double.round ((hi.value : ℚ)-1)| < 2^1024
  · rw [dif_pos h]
    simp only [lowerBound, upperBound, Threshold.double]
    rw [lt_finite]
    exact and_iff_right rfl
  · rw [dif_neg h]
    have hle : Double.round ((hi.value : ℚ)-1) ≤ hi.value :=
      Double.round_le hi.representable.1 (by linarith)
    have hhi := (abs_lt.mp hi.representable.2)
    have hneg : Double.round ((hi.value : ℚ)-1) ≤ -2^1024 := by
      by_contra hgt
      exact h (abs_lt.mpr ⟨lt_of_not_ge hgt, hle.trans_lt hhi.2⟩)
    have hzero : Double.round ((hi.value : ℚ)-1) < 0 :=
      hneg.trans_lt (neg_lt_zero.mpr (pow_pos (by norm_num) _))
    rw [decide_eq_true hzero]
    constructor
    · intro _
      exact hneg.trans_lt hhi.1
    · intro _
      exact ⟨rfl, rfl⟩

theorem idStaysInside_above {lo : Threshold} {body : List (Stmt Double)} :
    IdStaysInside ⟨some lo, none, body⟩ := by
  have hid : leafId ⟨some lo, none, body⟩ = lo.double := rfl
  rw [IdStaysInside, hid]
  exact ⟨(le_finite _ _).mpr le_rfl, rfl⟩

end Ids

namespace DecisionTree
variable {stateVar : String}

/-- Every leaf has a threshold on one side, and two thresholds in the right order. -/
def ProperLeaf (l : Leaf) : Prop :=
  (l.lo ≠ none ∨ l.hi ≠ none) ∧ ∀ a ∈ l.lo, ∀ b ∈ l.hi, a.value < b.value

theorem properLeaf_leaves {tree : DecisionTree stateVar} {lo hi : Option Threshold}
    (ho : tree.Ordered lo hi) (hbound : lo ≠ none ∨ hi ≠ none)
    (hlt : ∀ a ∈ lo, ∀ b ∈ hi, a.value < b.value) : ∀ l ∈ tree.leaves lo hi, ProperLeaf l := by
  induction tree generalizing lo hi with
  | leaf body _ =>
    intro l hl
    rw [List.mem_singleton.mp hl]
    exact ⟨hbound, hlt⟩
  | node t lower upper ihl ihu =>
    obtain ⟨hlo, hhi, hol, hou⟩ := ho
    intro l hl
    rcases List.mem_append.mp hl with hl | hl
    · exact ihl hol (.inr (by simp)) (fun a ha b hb => by cases hb; exact hlo a ha) l hl
    · exact ihu hou (.inl (by simp)) (fun a ha b hb => by cases ha; exact hhi b hb) l hl

end DecisionTree

section Blocks
variable [Host] {stateVar : String}

omit [Host] in
theorem SearchTree.properLeaf (t : SearchTree stateVar) :
    ∀ l ∈ t.leaves, DecisionTree.ProperLeaf l := by
  obtain ⟨-, -, hol, hou⟩ := t.ordered
  intro l hl
  rcases List.mem_append.mp hl with hl | hl
  · exact DecisionTree.properLeaf_leaves hol (.inr (by simp)) (by simp) l hl
  · exact DecisionTree.properLeaf_leaves hou (.inl (by simp)) (by simp) l hl

theorem idStaysInside_iff {l : Leaf} (hl : DecisionTree.ProperLeaf l) :
    IdStaysInside l ↔ StaysOpen l := by
  obtain ⟨lo, hi, body⟩ := l
  obtain ⟨hbound, hlt⟩ := hl
  cases lo with
  | none =>
    cases hi with
    | none => simp at hbound
    | some hi => exact idStaysInside_below
  | some lo =>
    cases hi with
    | none => exact iff_of_true idStaysInside_above trivial
    | some hi => exact idStaysInside_both (hlt lo rfl hi rfl)

def leafBlock (stateVar : String) (l : Leaf) : BasicBlock Double :=
  ⟨leafId l, lowerBound l.lo, upperBound l.hi, l.body,
    (scanLeaf stateVar l.body).stateTransitions, false, (scanLeaf stateVar l.body).isExit⟩

/-- The counter is looked at only where nothing bounds the leaf. -/
theorem stateId_counter {minVal maxVal : Double} (h : minVal.isFinite ∨ maxVal.isFinite)
    (n m : ℕ) : stateId minVal maxVal n = stateId minVal maxVal m := by
  have hmin : (LuaNumber.isFinite minVal : Bool) = minVal.isFinite := rfl
  have hmax : (LuaNumber.isFinite maxVal : Bool) = maxVal.isFinite := rfl
  unfold stateId
  rw [hmin, hmax]
  cases hfin : minVal.isFinite with
  | true => simp
  | false =>
    have hmaxfin : maxVal.isFinite = true := by simpa [hfin] using h
    simp [hmaxfin]

theorem addLeaf_blocks (b : Builder Double) {l : Leaf} (hl : DecisionTree.ProperLeaf l) :
    (addLeaf stateVar b l).blocks = addBlock b.blocks (leafBlock stateVar l) := by
  have hfin : (lowerBound l.lo).isFinite ∨ (upperBound l.hi).isFinite := by
    obtain ⟨lo, hi, body⟩ := l
    rcases hl.1 with hlo | hhi
    · obtain ⟨t, ht⟩ := Option.ne_none_iff_exists'.mp hlo
      exact .inl (by simp only at ht; rw [ht]; rfl)
    · obtain ⟨t, ht⟩ := Option.ne_none_iff_exists'.mp hhi
      exact .inr (by simp only at ht; rw [ht]; rfl)
  rw [addLeaf, extractLeafBlock, leafBlock, leafId, stateId_counter hfin (b.stateCounter+1) 0]

theorem mem_foldl_addLeaf {ls : List Leaf} (hls : ∀ l ∈ ls, DecisionTree.ProperLeaf l)
    (b : Builder Double) {c : BasicBlock Double}
    (h : c ∈ (ls.foldl (addLeaf stateVar) b).blocks) :
    c ∈ b.blocks ∨ ∃ l ∈ ls, c = leafBlock stateVar l := by
  induction ls generalizing b with
  | nil => exact .inl h
  | cons l ls ih =>
    obtain ⟨hl, hls'⟩ := List.forall_mem_cons.mp hls
    rcases ih hls' _ h with h | ⟨l', hl', rfl⟩
    · rw [addLeaf_blocks b hl] at h
      rcases mem_addBlock h with h | rfl
      · exact .inl h
      · exact .inr ⟨l, List.mem_cons_self, rfl⟩
    · exact .inr ⟨l', List.mem_cons_of_mem _ hl', rfl⟩

/-- With pairwise distinct ids no block is overwritten. -/
theorem foldl_addLeaf_of_distinct {ls : List Leaf} (hls : ∀ l ∈ ls, DecisionTree.ProperLeaf l)
    (b : Builder Double) (hnew : ∀ c ∈ b.blocks, ∀ l ∈ ls, sameKey c.id (leafId l) = false)
    (hpair : ls.Pairwise (fun l l' => sameKey (leafId l) (leafId l') = false)) :
    (ls.foldl (addLeaf stateVar) b).blocks = b.blocks ++ ls.map (leafBlock stateVar) := by
  induction ls generalizing b with
  | nil => simp
  | cons l ls ih =>
    obtain ⟨hl, hls'⟩ := List.forall_mem_cons.mp hls
    obtain ⟨hhead, htail⟩ := List.pairwise_cons.mp hpair
    have hadd : (addLeaf stateVar b l).blocks = b.blocks ++ [leafBlock stateVar l] := by
      rw [addLeaf_blocks b hl, addBlock, if_neg]
      rw [List.any_eq_true]
      rintro ⟨c, hc, hkey⟩
      have hfalse := hnew c hc l List.mem_cons_self
      rw [leafBlock] at hkey
      rw [hfalse] at hkey
      cases hkey
    rw [List.foldl_cons, ih hls' _ ?_ htail, hadd]
    · simp
    · intro c hc l' hl'
      rw [hadd] at hc
      rcases List.mem_append.mp hc with hc | hc
      · exact hnew c hc l' (List.mem_cons_of_mem _ hl')
      · rw [List.mem_singleton.mp hc]
        exact hhead l' hl'

/-- The blocks before the entry is marked. -/
def SearchTree.blocks (t : SearchTree stateVar) : List (BasicBlock Double) :=
  (t.leaves.foldl (addLeaf stateVar) ⟨0, []⟩).blocks

theorem traverseTree_root (t : SearchTree stateVar) :
    (traverseTree stateVar [⟨.node t.root, LuaNumber.neg JsNumber.infinity, JsNumber.infinity⟩]
      ⟨0, []⟩).blocks = t.blocks := by
  have h := traverseTree_tree t.tree none none [] ⟨0, []⟩
  rw [traverseTree.eq_1] at h
  exact congrArg Builder.blocks h

theorem view_markEntry (v : Double) (blocks : List (BasicBlock Double)) :
    (markEntry v blocks).1.map BasicBlock.view = blocks.map BasicBlock.view := by
  induction blocks with
  | nil => rfl
  | cons b bs ih =>
    rw [markEntry]
    split
    · rfl
    · rw [List.map_cons, ih, List.map_cons]

theorem view_buildCFG (t : SearchTree stateVar) (entry : Option Double) :
    (buildCFG stateVar t.root entry).blocks.map BasicBlock.view =
      t.blocks.map BasicBlock.view := by
  cases entry with
  | none => exact congrArg (List.map BasicBlock.view) (traverseTree_root t)
  | some v =>
    rw [← traverseTree_root t]
    exact view_markEntry v _

def leafView (l : Leaf) : BlockView := ⟨leafId l, lowerBound l.lo, upperBound l.hi, l.body⟩

theorem covers_leafView (l : Leaf) (z : ℤ) :
    (leafView l).Covers z ↔ Between (fun u => z < u.value) l.lo l.hi := by
  obtain ⟨lo, hi, body⟩ := l
  cases lo <;> cases hi <;>
    simp [BlockView.Covers, leafView, lowerBound, upperBound, Threshold.double, Between]

theorem leafId_ne_nan {l : Leaf} (h : IdStaysInside l) : leafId l ≠ .nan := by
  intro hnan
  rw [IdStaysInside, hnan] at h
  cases h.2

/-- Ids that stay inside their intervals are distinct, because the intervals are disjoint. -/
theorem SearchTree.distinct_ids (t : SearchTree stateVar)
    (h : ∀ l ∈ t.leaves, IdStaysInside l) :
    t.leaves.Pairwise (fun l l' => sameKey (leafId l) (leafId l') = false) := by
  refine (DecisionTree.leaves_disjoint t.ordered).imp_of_mem (fun {l l'} hl hl' hdisj => ?_)
  by_contra hkey
  have heq := eq_of_sameKey (leafId_ne_nan (h l hl)) (Bool.not_eq_false _ ▸ hkey)
  have hb := between_of_inside (h l hl).1 (h l hl).2
  have hb' := between_of_inside (h l' hl').1 (h l' hl').2
  rw [← heq] at hb'
  exact hdisj _ (monotone_double _) hb hb'

theorem SearchTree.blocks_eq (t : SearchTree stateVar) (h : ∀ l ∈ t.leaves, IdStaysInside l) :
    t.blocks = t.leaves.map (leafBlock stateVar) := by
  rw [SearchTree.blocks, foldl_addLeaf_of_distinct t.properLeaf _ (by simp) (t.distinct_ids h),
    List.nil_append]

theorem SearchTree.view_blocks (t : SearchTree stateVar) (h : ∀ l ∈ t.leaves, IdStaysInside l) :
    t.blocks.map BasicBlock.view = t.leaves.map leafView := by
  rw [t.blocks_eq h, List.map_map]
  rfl

theorem SearchTree.inside_of_open (t : SearchTree stateVar) (h : ∀ l ∈ t.leaves, StaysOpen l) :
    ∀ l ∈ t.leaves, IdStaysInside l :=
  fun l hl => (idStaysInside_iff (t.properLeaf l hl)).mpr (h l hl)

theorem SearchTree.blocks_buildCFG (t : SearchTree stateVar) (h : ∀ l ∈ t.leaves, StaysOpen l) :
    (buildCFG stateVar t.root none).blocks = t.leaves.map (leafBlock stateVar) := by
  have hroot := traverseTree_root t
  rw [t.blocks_eq (t.inside_of_open h)] at hroot
  exact hroot

theorem SearchTree.mem_buildCFG (t : SearchTree stateVar) (h : ∀ l ∈ t.leaves, StaysOpen l)
    {l : Leaf} (hl : l ∈ t.leaves) :
    leafBlock stateVar l ∈ (buildCFG stateVar t.root none).blocks := by
  rw [t.blocks_buildCFG h]
  exact List.mem_map_of_mem hl

theorem pictures_of_open (t : SearchTree stateVar) (h : ∀ l ∈ t.leaves, StaysOpen l) :
    Pictures t (t.blocks.map BasicBlock.view) := by
  have hin := t.inside_of_open h
  rw [t.view_blocks hin]
  have hreach : ∀ z : ℤ, ∃ l ∈ t.leaves, (leafView l).Covers z ∧ l.body = t.leafAt z := by
    intro z
    have hall : Between (fun u => z < u.value) none none := ⟨by simp, by simp⟩
    obtain ⟨l, hl, hb, hbody⟩ := DecisionTree.exists_leaf t.tree hall
    exact ⟨l, hl, (covers_leafView l z).mpr hb, hbody⟩
  have hunique : ∀ z : ℤ, ∀ l ∈ t.leaves, ∀ l' ∈ t.leaves, (leafView l).Covers z →
      (leafView l').Covers z → l = l' := by
    intro z l hl l' hl' hc hc'
    exact DecisionTree.eq_of_between (monotone_integer z) t.ordered hl hl'
      ((covers_leafView l z).mp hc) ((covers_leafView l' z).mp hc')
  refine ⟨by rw [List.map_map]; rfl, ?_, ?_, fun z => ?_, fun z b hb hc => ?_⟩
  · rw [List.pairwise_map]
    exact t.distinct_ids hin
  · intro b hb
    obtain ⟨l, hl, rfl⟩ := List.mem_map.mp hb
    exact hin l hl
  · obtain ⟨l, hl, hc, -⟩ := hreach z
    refine ⟨leafView l, ⟨List.mem_map_of_mem hl, hc⟩, fun b hb => ?_⟩
    obtain ⟨l', hl', rfl⟩ := List.mem_map.mp hb.1
    rw [hunique z l hl l' hl' hc hb.2]
  · obtain ⟨l, hl, hc', hbody⟩ := hreach z
    obtain ⟨l', hl', rfl⟩ := List.mem_map.mp hb
    rw [← hbody, hunique z l hl l' hl' hc' hc]
    rfl

theorem open_of_pictures (t : SearchTree stateVar)
    (h : Pictures t (t.blocks.map BasicBlock.view)) : ∀ l ∈ t.leaves, StaysOpen l := by
  intro l hl
  have hmem : (lowerBound l.lo, upperBound l.hi, l.body) ∈ (t.blocks.map BasicBlock.view).map
      (fun b => (b.minState, b.maxState, b.statements)) := by
    rw [h.one_per_leaf]
    exact List.mem_map_of_mem hl
  obtain ⟨v, hv, heq⟩ := List.mem_map.mp hmem
  obtain ⟨c, hc, rfl⟩ := List.mem_map.mp hv
  have hinside := h.inside _ hv
  rcases mem_foldl_addLeaf t.properLeaf _ hc with hnil | ⟨l', hl', rfl⟩
  · cases hnil
  · simp only [BasicBlock.view, leafBlock, Prod.mk.injEq] at heq
    obtain ⟨hlo, hhi, -⟩ := heq
    have hid : leafId l' = leafId l := by rw [leafId, leafId, hlo, hhi]
    rw [← idStaysInside_iff (t.properLeaf l hl), IdStaysInside, ← hlo, ← hhi, ← hid]
    exact hinside

/-- The graph pictures its tree if and only if rounding closes no leaf's interval. -/
theorem buildCFG_pictures_iff (t : SearchTree stateVar) (entry : Option Double) :
    Pictures t ((buildCFG stateVar t.root entry).blocks.map BasicBlock.view) ↔
      ∀ l ∈ t.leaves, StaysOpen l := by
  rw [view_buildCFG]
  exact ⟨open_of_pictures t, pictures_of_open t⟩

end Blocks

section Small

/-- Up to `2^52` nothing is rounded, so every interval stays open. -/
theorem staysOpen_of_small {l : Leaf} (hl : DecisionTree.ProperLeaf l)
    (hlo : ∀ t ∈ l.lo, |t.value| ≤ 2^52) (hhi : ∀ t ∈ l.hi, |t.value| ≤ 2^52) : StaysOpen l := by
  obtain ⟨lo, hi, body⟩ := l
  cases hi with
  | none => cases lo <;> trivial
  | some hi =>
    have hhi' := abs_le.mp (hhi hi rfl)
    cases lo with
    | none =>
      have hd : IsDouble ((hi.value-1 : ℤ) : ℚ) := Double.isDouble_int (abs_le.mpr (by omega))
      have hr := Double.round_eq hd
      rw [Int.cast_sub, Int.cast_one] at hr
      show Double.round ((hi.value : ℚ)-1) < hi.value
      rw [hr]
      linarith
    | some lo =>
      have hlo' := abs_le.mp (hlo lo rfl)
      have hd : IsDouble ((lo.value+hi.value : ℤ) : ℚ) :=
        Double.isDouble_int (abs_le.mpr (by omega))
      have hlt : (lo.value : ℚ) < hi.value := by exact_mod_cast hl.2 lo rfl hi rfl
      have hr := Double.round_eq hd
      have hfin := hd.2
      rw [Int.cast_add] at hr hfin
      show |Double.round (lo.value+hi.value)| < 2^1024 ∧
        Double.round (lo.value+hi.value) < 2*(hi.value : ℚ)
      rw [hr]
      exact ⟨hfin, by linarith⟩

end Small

section Collision

/-- Neither operation is called below. -/
local instance silentHost : Host where
  pow _ _ := .nan
  text _ := ""

/-- Two neighbouring doubles just below `2^53`. -/
def lastOdd : Threshold where
  value := 9007199254740989
  representable := Double.isDouble_int (by norm_num)
  raw := "9007199254740989"
  negated := false

def lastEven : Threshold where
  value := 9007199254740990
  representable := Double.isDouble_int (by norm_num)
  raw := "9007199254740990"
  negated := false

/-- Three leaves; the middle one holds the single state `9007199254740989`. -/
def collidingTree : SearchTree "Q" where
  threshold := lastEven
  lower := .node lastOdd (.leaf [] (decision_empty "Q")) (.leaf [.breakStatement] rfl)
  upper := .leaf [.returnStatement []] rfl
  ordered := by simp [DecisionTree.Ordered, lastOdd, lastEven]

/-- The middle leaf's id rounds up to that of the last leaf, which overwrites it. -/
theorem buildCFG_loses_leaf : ¬ Pictures collidingTree
    ((buildCFG "Q" collidingTree.root none).blocks.map BasicBlock.view) := by
  intro h
  rw [view_buildCFG] at h
  have hopen := open_of_pictures collidingTree h ⟨some lastOdd, some lastEven, [.breakStatement]⟩
    (by simp [SearchTree.leaves, SearchTree.tree, collidingTree, DecisionTree.leaves])
  have hsum : ((lastOdd.value : ℚ)+lastEven.value) = 18014398509481979 := by
    norm_num [lastOdd, lastEven]
  have hround : Double.round 18014398509481979 = 18014398509481980 := by decide +kernel
  have hlt := hopen.2
  rw [hsum, hround] at hlt
  norm_num [lastEven] at hlt

end Collision
end LuaRecovery.Cfg
