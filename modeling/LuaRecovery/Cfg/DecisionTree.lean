import LuaRecovery.Cfg.Dispatcher
import LuaRecovery.Lua.Interpreter

/-!
# Decision trees and their leaves

A search tree over the state variable, as a dispatcher's body spells it, with
the leaves and the interval each leaf inherits from the thresholds above it.
A cut says for each threshold whether the state lies below it; a monotone cut
reaches exactly one leaf. The traversal visits the leaves from left to right.
-/

set_option autoImplicit false

namespace LuaRecovery.Cfg
open LuaRecovery.Lib LuaRecovery.Lua LuaRecovery.Evaluator

/-- An integer that a double holds, written plainly or under a unary minus. -/
structure Threshold where
  value : ℤ
  representable : IsDouble value
  raw : String
  negated : Bool

def Threshold.double (t : Threshold) : Double := .finite t.value t.representable

def Threshold.expr (t : Threshold) : Expr Double :=
  if t.negated then
    .unaryExpression .minus
      (.numericLiteral (.finite (-t.value) (Double.isDouble_neg t.representable)) t.raw)
  else .numericLiteral t.double t.raw

/-- The condition `stateVar < t`. -/
def Threshold.condition (t : Threshold) (stateVar : String) : Expr Double :=
  .binaryExpression .lt (.identifier stateVar) t.expr

/-- Every inner node compares the state variable and has both branches; a leaf
is a body that is not itself such a node. -/
inductive DecisionTree (stateVar : String) : Type where
  | leaf (body : List (Stmt Double)) (hleaf : decision stateVar (childNode body) = none)
  | node (t : Threshold) (lower upper : DecisionTree stateVar)

theorem decision_empty (stateVar : String) :
    decision stateVar (childNode ([] : List (Stmt Double))) = none := rfl

structure Leaf where
  lo : Option Threshold
  hi : Option Threshold
  body : List (Stmt Double)

namespace DecisionTree
variable {stateVar : String}

def body : DecisionTree stateVar → List (Stmt Double)
  | leaf body _ => body
  | node t lower upper =>
      [.ifStatement [.mk (t.condition stateVar) lower.body] (some upper.body)]

/-- The leaves from left to right, with the interval that each inherits. -/
def leaves (lo hi : Option Threshold) : DecisionTree stateVar → List Leaf
  | leaf body _ => [⟨lo, hi, body⟩]
  | node t lower upper => lower.leaves lo (some t) ++ upper.leaves (some t) hi

/-- Every threshold lies strictly inside the interval that its node inherits. -/
def Ordered (lo hi : Option Threshold) : DecisionTree stateVar → Prop
  | leaf _ _ => True
  | node t lower upper =>
      (∀ l ∈ lo, l.value < t.value) ∧ (∀ h ∈ hi, t.value < h.value) ∧
        lower.Ordered lo (some t) ∧ upper.Ordered (some t) hi

/-- The leaf that a state reaches, where `below t` says that it is less than `t`. -/
def leafAt (below : Threshold → Bool) : DecisionTree stateVar → List (Stmt Double)
  | leaf body _ => body
  | node t lower upper => if below t then lower.leafAt below else upper.leafAt below

end DecisionTree

/-- Below a threshold, a state is below every larger one. -/
def Monotone (below : Threshold → Bool) : Prop :=
  ∀ t t' : Threshold, t.value < t'.value → below t = true → below t' = true

/-- The interval from `lo` to `hi` contains the state. -/
def Between (below : Threshold → Bool) (lo hi : Option Threshold) : Prop :=
  (∀ l ∈ lo, below l = false) ∧ ∀ h ∈ hi, below h = true

namespace DecisionTree
variable {stateVar : String} {below : Threshold → Bool}

theorem between_of_leaf (hb : Monotone below) {tree : DecisionTree stateVar}
    {lo hi : Option Threshold} (ho : tree.Ordered lo hi) {l : Leaf} (hl : l ∈ tree.leaves lo hi)
    (h : Between below l.lo l.hi) : Between below lo hi := by
  induction tree generalizing lo hi with
  | leaf body _ =>
    rw [leaves, List.mem_singleton] at hl
    rwa [hl] at h
  | node t lower upper ihl ihu =>
    obtain ⟨hlo, hhi, hol, hou⟩ := ho
    rcases List.mem_append.mp hl with hl | hl
    · obtain ⟨h1, h2⟩ := ihl hol hl
      exact ⟨h1, fun u hu => hb t u (hhi u hu) (h2 t rfl)⟩
    · obtain ⟨h1, h2⟩ := ihu hou hl
      refine ⟨fun u hu => ?_, h2⟩
      by_contra hne
      have ht := hb u t (hlo u hu) (by simpa using hne)
      rw [h1 t rfl] at ht
      cases ht

/-- Every state lies in a leaf, and it is the one that the tree runs. -/
theorem exists_leaf (tree : DecisionTree stateVar) {lo hi : Option Threshold}
    (h : Between below lo hi) :
    ∃ l ∈ tree.leaves lo hi, Between below l.lo l.hi ∧ l.body = tree.leafAt below := by
  induction tree generalizing lo hi with
  | leaf body _ => exact ⟨⟨lo, hi, body⟩, List.mem_singleton.mpr rfl, h, rfl⟩
  | node t lower upper ihl ihu =>
    by_cases ht : below t = true
    · have hlower : Between below lo (some t) := ⟨h.1, fun u hu => by cases hu; exact ht⟩
      obtain ⟨l, hl, hbt, hbody⟩ := ihl hlower
      exact ⟨l, List.mem_append_left _ hl, hbt, by rw [hbody, leafAt, if_pos ht]⟩
    · have hupper : Between below (some t) hi := ⟨fun u hu => by cases hu; simpa using ht, h.2⟩
      obtain ⟨l, hl, hbt, hbody⟩ := ihu hupper
      exact ⟨l, List.mem_append_right _ hl, hbt, by rw [hbody, leafAt, if_neg ht]⟩

theorem not_between_both (hb : Monotone below) {t : Threshold} {lower upper : DecisionTree stateVar}
    {lo hi : Option Threshold} (hol : lower.Ordered lo (some t)) (hou : upper.Ordered (some t) hi)
    {l l' : Leaf} (hl : l ∈ lower.leaves lo (some t)) (hl' : l' ∈ upper.leaves (some t) hi)
    (h : Between below l.lo l.hi) (h' : Between below l'.lo l'.hi) : False := by
  have h1 := (between_of_leaf hb hol hl h).2 t rfl
  have h2 := (between_of_leaf hb hou hl' h').1 t rfl
  rw [h1] at h2
  cases h2

/-- No state lies in two leaves. -/
theorem leaves_disjoint {tree : DecisionTree stateVar} {lo hi : Option Threshold}
    (ho : tree.Ordered lo hi) :
    (tree.leaves lo hi).Pairwise (fun l l' => ∀ below, Monotone below →
      Between below l.lo l.hi → ¬ Between below l'.lo l'.hi) := by
  induction tree generalizing lo hi with
  | leaf body _ => simp [leaves]
  | node t lower upper ihl ihu =>
    obtain ⟨-, -, hol, hou⟩ := ho
    rw [leaves, List.pairwise_append]
    exact ⟨ihl hol, ihu hou, fun l hl l' hl' below hb h h' =>
      not_between_both hb hol hou hl hl' h h'⟩

theorem eq_of_between (hb : Monotone below) {tree : DecisionTree stateVar}
    {lo hi : Option Threshold} (ho : tree.Ordered lo hi) {l l' : Leaf}
    (hl : l ∈ tree.leaves lo hi) (hl' : l' ∈ tree.leaves lo hi) (h : Between below l.lo l.hi)
    (h' : Between below l'.lo l'.hi) : l = l' := by
  induction tree generalizing lo hi with
  | leaf body _ =>
    rw [List.mem_singleton.mp hl, List.mem_singleton.mp hl']
  | node t lower upper ihl ihu =>
    obtain ⟨-, -, hol, hou⟩ := ho
    rcases List.mem_append.mp hl with hl | hl
    · rcases List.mem_append.mp hl' with hl' | hl'
      · exact ihl hol hl hl'
      · exact (not_between_both hb hol hou hl hl' h h').elim
    · rcases List.mem_append.mp hl' with hl' | hl'
      · exact (not_between_both hb hol hou hl' hl h' h).elim
      · exact ihu hou hl hl'

end DecisionTree

section Traversal
variable [Host] {stateVar : String}

theorem threshold_expr (t : Threshold) : threshold t.expr = some t.double := by
  unfold Threshold.expr
  split
  · show some (Double.finite (- -(t.value : ℚ)) _) = some (Double.finite t.value _)
    congr 2
    exact neg_neg _
  · rfl

def lowerBound : Option Threshold → Double
  | none => .infinity true
  | some t => t.double

def upperBound : Option Threshold → Double
  | none => .infinity false
  | some t => t.double

omit [Host] in
theorem decision_node (t : Threshold) (lower upper : DecisionTree stateVar) :
    decision stateVar (childNode (DecisionTree.node t lower upper).body) =
      some (t.expr, lower.body, some upper.body) := by
  simp [DecisionTree.body, childNode, decision, Threshold.condition]

def addLeaf (stateVar : String) (b : Builder Double) (l : Leaf) : Builder Double :=
  extractLeafBlock stateVar b l.body (lowerBound l.lo) (upperBound l.hi)

/-- The traversal of a tree extracts its leaves from left to right. -/
theorem traverseTree_tree (tree : DecisionTree stateVar) (lo hi : Option Threshold)
    (rest : List (Pending Double)) (b : Builder Double) :
    traverseTree stateVar (⟨childNode tree.body, lowerBound lo, upperBound hi⟩ :: rest) b =
      traverseTree stateVar rest ((tree.leaves lo hi).foldl (addLeaf stateVar) b) := by
  induction tree generalizing lo hi rest b with
  | leaf body hleaf =>
    rw [traverseTree]
    split
    · rename_i right thenBody elseBody hd
      rw [DecisionTree.body, hleaf] at hd
      cases hd
    · rw [DecisionTree.body, statements_childNode]
      rfl
  | node t lower upper ihl ihu =>
    rw [traverseTree]
    split
    · rename_i right thenBody elseBody hd
      rw [decision_node] at hd
      cases hd
      simp only [children, threshold_expr, Option.getD_some]
      have hl := ihl lo (some t) (⟨childNode upper.body, t.double, upperBound hi⟩ :: rest) b
      have hu := ihu (some t) hi rest
        ((lower.leaves lo (some t)).foldl (addLeaf stateVar) b)
      rw [DecisionTree.leaves, List.foldl_append]
      exact hl.trans hu
    · rename_i hd
      rw [decision_node] at hd
      cases hd

end Traversal

section Execution
variable [Host] {stateVar : String}

/-- How a body ends, without the locals it declared. -/
def runBody (m : Machine Double) (env : Env) (va : List (Value Double))
    (body : List (Stmt Double)) : Run Double (Signal Double) := do
  return (← execBlock m env va body).2

theorem runBody_if (m : Machine Double) (env : Env) (va : List (Value Double))
    {condition : Expr Double} {s : State Double} {b : Bool}
    (hc : one (eval m env va true condition) s = .done (.boolean b) s)
    (thenBody elseBody : List (Stmt Double)) :
    runBody m env va [.ifStatement [.mk condition thenBody] (some elseBody)] s =
      runBody m env va (if b then thenBody else elseBody) s := by
  have hclauses : execClauses m env va [.mk condition thenBody] s = (if b then
      (execBlock m env va thenBody >>= fun r => pure (some r.2)) s else .done none s) := by
    rw [execClauses, Prog.bind_done _ _ _ _ _ hc]
    cases b <;> rfl
  cases b with
  | true =>
    simp only [runBody, execBlock, exec, Prog.bind_apply, hclauses, if_true]
    cases execBlock m env va thenBody s with
    | done r s' => obtain ⟨env', sig⟩ := r; cases sig <;> rfl
    | raised e s' => rfl
    | timeout s' => rfl
  | false =>
    simp only [runBody, execBlock, exec, Prog.bind_apply, hclauses, Bool.false_eq_true, if_false]
    cases execBlock m env va elseBody s with
    | done r s' => obtain ⟨env', sig⟩ := r; cases sig <;> rfl
    | raised e s' => rfl
    | timeout s' => rfl

theorem eval_condition (m : Machine Double) {env : Env} (va : List (Value Double))
    {s : State Double} {q : Double} (hq : readName env stateVar s = .done (.number q) s)
    (t : Threshold) :
    one (eval m env va true (t.condition stateVar)) s = .done (.boolean (q.lt t.double)) s := by
  have ht : one (eval m env va false t.expr) s = .done (.number t.double) s := by
    unfold Threshold.expr
    split
    · have hneg : Double.neg (.finite (-t.value) (Double.isDouble_neg t.representable)) =
          t.double := Double.finite_congr _ (neg_neg _)
      rw [← hneg]
      rfl
    · rfl
  have hname : one (eval m env va false (.identifier stateVar)) s = .done (.number q) s := by
    rw [one, eval, Prog.bind_apply, Prog.bind_done _ _ _ _ _ hq]
    rfl
  rw [one, Threshold.condition, eval, Prog.bind_apply, Prog.bind_done _ _ _ _ _ hname,
    Prog.bind_done _ _ _ _ _ ht]
  rfl

/-- Running the tree runs the leaf that the state variable's number selects. -/
theorem runBody_tree (m : Machine Double) {env : Env} (va : List (Value Double))
    {s : State Double} {q : Double} (hq : readName env stateVar s = .done (.number q) s)
    (tree : DecisionTree stateVar) :
    runBody m env va tree.body s = runBody m env va (tree.leafAt (fun u => q.lt u.double)) s := by
  induction tree with
  | leaf body _ => rfl
  | node t lower upper ihl ihu =>
    rw [DecisionTree.body, runBody_if m env va (eval_condition m va hq t), DecisionTree.leafAt]
    split
    · exact ihl
    · exact ihu

end Execution
end LuaRecovery.Cfg
