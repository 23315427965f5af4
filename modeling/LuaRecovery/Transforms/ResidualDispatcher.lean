import LuaRecovery.Cfg.Dispatcher

/-!
# Compressing the residual dispatcher

`compressDispatcher` of `transforms/residual-dispatcher.js` drops the leaves of
extracted states from the dispatcher's tree. A decision whose other branch is
gone is replaced by what is left of the remaining one, and of a statement list
only the first statement moves up. The counters it reports are left out.
-/

set_option autoImplicit false

namespace LuaRecovery.Transforms
open LuaRecovery.Lua LuaRecovery.Evaluator LuaRecovery.Cfg

section Compress
variable {N : Type} [JsNumber N]

/-- What is left of a branch: a statement, or the statement list of a leaf. -/
inductive Pruned (N : Type) : Type where
  | single (stmt : Stmt N)
  | list (body : List (Stmt N))

/-- `Array.isArray(pruned) ? pruned[0] : pruned`. -/
def Pruned.first : Pruned N → Option (Stmt N)
  | .single stmt => some stmt
  | .list body => body.head?

/-- `Array.isArray(pruned) ? pruned : [pruned]`. -/
def Pruned.body : Pruned N → List (Stmt N)
  | .single stmt => [stmt]
  | .list body => body

/-- The state that the interval of a leaf stands for. -/
def leafState (minVal maxVal : N) : Option N :=
  if LuaNumber.isFinite minVal && LuaNumber.isFinite maxVal then
    some (LuaNumber.floor (LuaNumber.div (LuaNumber.add minVal maxVal) (LuaNumber.ofNat 2)))
  else if LuaNumber.isFinite minVal then some minVal
  else if LuaNumber.isFinite maxVal then some (LuaNumber.sub maxVal LuaNumber.one)
  else none

def isExtracted (statesToExtract : List N) (minVal maxVal : N) : Bool :=
  match leafState minVal maxVal with
  | some stateId => statesToExtract.any (sameKey stateId)
  | none => false

/-- The simplification of a decision whose branches are pruned; `null` and `undefined` are `none`. -/
def simplify (condition : Expr N) : Option (Pruned N) → Option (Pruned N) → Option (Pruned N)
  | none, none => none
  | none, some prunedElse => prunedElse.first.map .single
  | some prunedThen, none => prunedThen.first.map .single
  | some prunedThen, some prunedElse =>
      some (.single (.ifStatement [.mk condition prunedThen.body] (some prunedElse.body)))

/-- The bounds of an inner node that the children inherit. -/
def lowerMax (right : Expr N) (maxVal : N) : N := (threshold right).getD maxVal

def upperMin (right : Expr N) (minVal : N) : N := (threshold right).getD minVal

def pruneTree (stateVar : String) (statesToExtract : List N) (node : TreeNode N)
    (minVal maxVal : N) : Option (Pruned N) :=
  match _h : decision stateVar node with
  | some (right, thenBody, some elseBody) =>
      simplify (.binaryExpression .lt (.identifier stateVar) right)
        (pruneTree stateVar statesToExtract (childNode thenBody) minVal (lowerMax right maxVal))
        (pruneTree stateVar statesToExtract (childNode elseBody) (upperMin right minVal) maxVal)
  | some (right, thenBody, none) =>
      simplify (.binaryExpression .lt (.identifier stateVar) right)
        (pruneTree stateVar statesToExtract (childNode thenBody) minVal (lowerMax right maxVal)) none
  | none => match node with
      | .node stmt => some (.single stmt)
      | .list body => if isExtracted statesToExtract minVal maxVal then none else some (.list body)
termination_by node.size
decreasing_by
  all_goals
    have hsize := decision_size _h
    have hthen := size_childNode thenBody
    try have helse := size_childNode elseBody
    simp at hsize
    omega

def compressDispatcher (stateVar : String) (statesToExtract : List N) (rootIf : Stmt N) : Stmt N :=
  match pruneTree stateVar statesToExtract (.node rootIf) (LuaNumber.neg JsNumber.infinity)
      JsNumber.infinity with
  | some (.single newRoot) => newRoot
  | _ => rootIf

/-- The statements that a tree runs, where `below` says of the right side of a decision that
the state is less than it. -/
def runs (stateVar : String) (below : Expr N → Bool) (node : TreeNode N) : List (Stmt N) :=
  match _h : decision stateVar node with
  | some (right, thenBody, some elseBody) =>
      if below right then runs stateVar below (childNode thenBody)
      else runs stateVar below (childNode elseBody)
  | some (right, thenBody, none) =>
      if below right then runs stateVar below (childNode thenBody) else []
  | none => node.statements
termination_by node.size
decreasing_by
  all_goals
    have hsize := decision_size _h
    have hthen := size_childNode thenBody
    try have helse := size_childNode elseBody
    simp at hsize
    omega

/-- Below an integer state: a threshold that is no constant has a fixed outcome of its own. -/
def belowState (state : N) (other : Expr N → Bool) (right : Expr N) : Bool :=
  match threshold right with
  | some t => LuaNumber.lt state t
  | none => other right

end Compress

/-! ### The tree behind the nodes -/

/-- A dispatcher's tree with the leaves marked that are extracted; a decision without an else
branch has a missing one. -/
inductive StateTree (N : Type) : Type where
  | missing
  | leaf (body : List (Stmt N)) (extracted : Bool)
  | statement (stmt : Stmt N)
  | node (right : Expr N) (lower upper : StateTree N)

section Tree
variable {N : Type} [JsNumber N]

def stateTree (stateVar : String) (statesToExtract : List N) (node : TreeNode N)
    (minVal maxVal : N) : StateTree N :=
  match _h : decision stateVar node with
  | some (right, thenBody, some elseBody) => .node right
      (stateTree stateVar statesToExtract (childNode thenBody) minVal (lowerMax right maxVal))
      (stateTree stateVar statesToExtract (childNode elseBody) (upperMin right minVal) maxVal)
  | some (right, thenBody, none) => .node right
      (stateTree stateVar statesToExtract (childNode thenBody) minVal (lowerMax right maxVal)) .missing
  | none => match node with
      | .node stmt => .statement stmt
      | .list body => .leaf body (isExtracted statesToExtract minVal maxVal)
termination_by node.size
decreasing_by
  all_goals
    have hsize := decision_size _h
    have hthen := size_childNode thenBody
    try have helse := size_childNode elseBody
    simp at hsize
    omega

namespace StateTree

def isEmptyLeaf : StateTree N → Bool
  | leaf [] _ => true
  | _ => false

/-- Nothing is left: each branch is extracted, missing or empty, and not both are kept. -/
def vanishes : StateTree N → Bool
  | missing => true
  | leaf _ extracted => extracted
  | statement _ => false
  | node _ lower upper =>
      (lower.vanishes || lower.isEmptyLeaf) && (upper.vanishes || upper.isEmptyLeaf) &&
        (lower.vanishes || upper.vanishes)

/-- The statements that the tree runs for the state. -/
def runs (below : Expr N → Bool) : StateTree N → List (Stmt N)
  | missing => []
  | leaf body _ => body
  | statement stmt => [stmt]
  | node right lower upper => if below right then lower.runs below else upper.runs below

/-- The leaf that the state reaches is extracted. -/
def reachesExtracted (below : Expr N → Bool) : StateTree N → Bool
  | missing => false
  | leaf _ extracted => extracted
  | statement _ => false
  | node right lower upper =>
      if below right then lower.reachesExtracted below else upper.reachesExtracted below

/-- Moved up in the place of its parent, the branch runs nothing for the state. -/
def firstIdle (stateVar : String) (below : Expr N → Bool) (idle : Bool) : StateTree N → Bool
  | leaf (stmt::_) _ => (Transforms.runs stateVar below (.node stmt)).isEmpty
  | _ => idle

/-- The same of a decision, from its taken branch and the other one. -/
def nodeIdle (stateVar : String) (below : Expr N → Bool) (taken other : StateTree N)
    (takenIdle otherIdle : Bool) : Bool :=
  if taken.vanishes then other.firstIdle stateVar below otherIdle
  else if other.vanishes then taken.firstIdle stateVar below takenIdle
  else takenIdle

/-- What is left of the tree runs nothing for the state. -/
def idle (stateVar : String) (below : Expr N → Bool) : StateTree N → Bool
  | missing => true
  | leaf body _ => body.isEmpty
  | statement _ => false
  | node right lower upper =>
      if below right then nodeIdle stateVar below lower upper
        (lower.idle stateVar below) (upper.idle stateVar below)
      else nodeIdle stateVar below upper lower
        (upper.idle stateVar below) (lower.idle stateVar below)

/-- Moved up in the place of its parent, a leaf must be a single statement. -/
def firstKept (kept : Bool) : StateTree N → Bool
  | leaf body _ => body.length = 1
  | _ => kept

def nodeKept (stateVar : String) (below : Expr N → Bool) (taken other : StateTree N)
    (takenKept otherIdle : Bool) : Bool :=
  if taken.vanishes then other.firstIdle stateVar below otherIdle
  else if other.vanishes then taken.firstKept takenKept
  else takenKept

/-- Along the path of the state no branch moves up but with all its statements, and none makes
way for one that runs something. -/
def kept (stateVar : String) (below : Expr N → Bool) : StateTree N → Bool
  | missing => true
  | leaf _ _ => true
  | statement _ => true
  | node right lower upper =>
      if below right then nodeKept stateVar below lower upper
        (lower.kept stateVar below) (upper.idle stateVar below)
      else nodeKept stateVar below upper lower
        (upper.kept stateVar below) (lower.idle stateVar below)

/-! ### Pruning on the marked tree -/

def prune (stateVar : String) : StateTree N → Option (Pruned N)
  | missing => none
  | leaf body extracted => if extracted then none else some (.list body)
  | statement stmt => some (.single stmt)
  | node right lower upper => simplify (.binaryExpression .lt (.identifier stateVar) right)
      (lower.prune stateVar) (upper.prune stateVar)

/-- The leaves are no decisions. -/
def WellFormed (stateVar : String) : StateTree N → Prop
  | missing => True
  | leaf body _ => childNode body = .list body
  | statement stmt => decision stateVar (.node stmt) = none
  | node _ lower upper => lower.WellFormed stateVar ∧ upper.WellFormed stateVar

end StateTree

theorem stateTree_both {stateVar : String} (states : List N) {node : TreeNode N} (lo hi : N)
    {right : Expr N} {thenBody elseBody : List (Stmt N)}
    (hd : decision stateVar node = some (right, thenBody, some elseBody)) :
    stateTree stateVar states node lo hi = .node right
      (stateTree stateVar states (childNode thenBody) lo (lowerMax right hi))
      (stateTree stateVar states (childNode elseBody) (upperMin right lo) hi) := by
  rw [stateTree]
  split <;> simp_all

theorem stateTree_then {stateVar : String} (states : List N) {node : TreeNode N} (lo hi : N)
    {right : Expr N} {thenBody : List (Stmt N)}
    (hd : decision stateVar node = some (right, thenBody, none)) :
    stateTree stateVar states node lo hi = .node right
      (stateTree stateVar states (childNode thenBody) lo (lowerMax right hi)) .missing := by
  rw [stateTree]
  split <;> simp_all

theorem stateTree_stmt {stateVar : String} (states : List N) {stmt : Stmt N} (lo hi : N)
    (hd : decision stateVar (.node stmt) = none) :
    stateTree stateVar states (.node stmt) lo hi = .statement stmt := by
  rw [stateTree]
  split <;> simp_all

theorem stateTree_list (stateVar : String) (states : List N) (body : List (Stmt N)) (lo hi : N) :
    stateTree stateVar states (.list body) lo hi = .leaf body (isExtracted states lo hi) := by
  have hd : decision stateVar (.list body) = none := rfl
  rw [stateTree]
  split <;> simp_all

omit [JsNumber N] in
theorem runs_both {stateVar : String} (below : Expr N → Bool) {node : TreeNode N} {right : Expr N}
    {thenBody elseBody : List (Stmt N)}
    (hd : decision stateVar node = some (right, thenBody, some elseBody)) :
    runs stateVar below node = if below right then runs stateVar below (childNode thenBody)
      else runs stateVar below (childNode elseBody) := by
  rw [runs]
  split <;> simp_all

omit [JsNumber N] in
theorem runs_then {stateVar : String} (below : Expr N → Bool) {node : TreeNode N} {right : Expr N}
    {thenBody : List (Stmt N)} (hd : decision stateVar node = some (right, thenBody, none)) :
    runs stateVar below node =
      if below right then runs stateVar below (childNode thenBody) else [] := by
  rw [runs]
  split <;> simp_all

omit [JsNumber N] in
theorem runs_leaf {stateVar : String} (below : Expr N → Bool) {node : TreeNode N}
    (hd : decision stateVar node = none) : runs stateVar below node = node.statements := by
  rw [runs]
  split <;> simp_all

theorem pruneTree_stateTree (stateVar : String) (states : List N) (node : TreeNode N) (lo hi : N) :
    pruneTree stateVar states node lo hi = (stateTree stateVar states node lo hi).prune stateVar := by
  fun_induction pruneTree stateVar states node lo hi with
  | case1 node lo hi right thenBody elseBody hd ihl ihu =>
    rw [stateTree_both states lo hi hd, StateTree.prune, ihl, ihu]
  | case2 node lo hi right thenBody hd ihl =>
    rw [stateTree_then states lo hi hd, StateTree.prune, ihl]
    rfl
  | case3 lo hi stmt hd =>
    rw [stateTree_stmt states lo hi hd]
    rfl
  | case4 lo hi body hd hx => simp [stateTree_list, StateTree.prune, hx]
  | case5 lo hi body hd hx => simp [stateTree_list, StateTree.prune, hx]

theorem runs_stateTree (stateVar : String) (states : List N) (below : Expr N → Bool)
    (node : TreeNode N) (lo hi : N) :
    runs stateVar below node = (stateTree stateVar states node lo hi).runs below := by
  fun_induction stateTree stateVar states node lo hi with
  | case1 node lo hi right thenBody elseBody hd ihl ihu =>
    rw [runs_both below hd, StateTree.runs, ihl, ihu]
  | case2 node lo hi right thenBody hd ihl =>
    rw [runs_then below hd, StateTree.runs, ihl]
    rfl
  | case3 lo hi stmt hd => exact runs_leaf below hd
  | case4 lo hi body hd => exact runs_leaf below hd

omit [JsNumber N] in
theorem childNode_of_list {body : List (Stmt N)} {l : List (Stmt N)}
    (h : childNode body = .list l) : l = body := by
  unfold childNode at h
  split at h
  · cases h
  · exact (TreeNode.list.inj h).symm

theorem wellFormed_stateTree (stateVar : String) (states : List N) (node : TreeNode N) (lo hi : N)
    (hnode : ∀ l, node = .list l → childNode l = .list l) :
    (stateTree stateVar states node lo hi).WellFormed stateVar := by
  have hchild : ∀ body l : List (Stmt N), childNode body = .list l → childNode l = .list l := by
    intro body l h
    rw [childNode_of_list h]
    rw [childNode_of_list h] at h
    exact h
  fun_induction stateTree stateVar states node lo hi with
  | case1 node lo hi right thenBody elseBody hd ihl ihu =>
    exact ⟨ihl (hchild thenBody), ihu (hchild elseBody)⟩
  | case2 node lo hi right thenBody hd ihl => exact ⟨ihl (hchild thenBody), trivial⟩
  | case3 lo hi stmt hd => exact hd
  | case4 lo hi body hd => exact hnode body rfl

end Tree

/-! ### What is left of a branch -/

section Left
variable {N : Type}

/-- The statements that what is left of a branch runs in the place of the branch. -/
def Pruned.ran (stateVar : String) (below : Expr N → Bool) (r : Pruned N) : List (Stmt N) :=
  runs stateVar below (childNode r.body)

theorem runs_single (stateVar : String) (below : Expr N → Bool) (stmt : Stmt N) :
    runs stateVar below (childNode [stmt]) = runs stateVar below (.node stmt) := by
  cases stmt with
  | ifStatement clauses elseBody => rfl
  | _ => rw [runs_leaf below rfl, runs_leaf below rfl]; rfl

theorem simplify_eq_none {condition : Expr N} {a b : Option (Pruned N)} :
    simplify condition a b = none ↔ (a = none ∧ b = none) ∨
      (a = none ∧ ∃ r, b = some r ∧ r.first = none) ∨
      (b = none ∧ ∃ r, a = some r ∧ r.first = none) := by
  cases a <;> cases b <;> simp [simplify]

namespace StateTree
variable {stateVar : String} {below : Expr N → Bool}

theorem first_eq_none {t : StateTree N} {r : Pruned N} (h : t.prune stateVar = some r) :
    r.first = none ↔ t.isEmptyLeaf = true := by
  cases t with
  | missing => cases h
  | leaf body extracted =>
    cases extracted with
    | true => cases h
    | false =>
      obtain rfl := Option.some.inj h
      cases body <;> simp [Pruned.first, isEmptyLeaf]
  | statement stmt =>
    obtain rfl := Option.some.inj h
    simp [Pruned.first, isEmptyLeaf]
  | node right lower upper =>
    have hsingle : ∃ stmt, r = .single stmt := by
      rw [prune] at h
      cases hl : lower.prune stateVar <;> cases hu : upper.prune stateVar <;>
        simp only [hl, hu, simplify, Option.map_eq_some_iff, Option.some.injEq, reduceCtorEq] at h
      · obtain ⟨stmt, -, rfl⟩ := h
        exact ⟨stmt, rfl⟩
      · obtain ⟨stmt, -, rfl⟩ := h
        exact ⟨stmt, rfl⟩
      · exact ⟨_, h.symm⟩
    obtain ⟨stmt, rfl⟩ := hsingle
    simp [Pruned.first, isEmptyLeaf]

theorem prune_eq_none_iff (stateVar : String) (t : StateTree N) : t.prune stateVar = none ↔ t.vanishes = true := by
  have hfirst : ∀ t : StateTree N, (t.prune stateVar = none ↔ t.vanishes = true) →
      ((∃ r, t.prune stateVar = some r ∧ r.first = none) ↔
        t.vanishes = false ∧ t.isEmptyLeaf = true) := by
    intro t ih
    cases hp : t.prune stateVar with
    | none => simp [ih.mp hp]
    | some r =>
      have hv : t.vanishes = false := by
        rw [← Bool.not_eq_true, ← ih, hp]
        simp
      simp [hv, first_eq_none hp]
  induction t with
  | missing => simp [prune, vanishes]
  | leaf body extracted => cases extracted <;> simp [prune, vanishes]
  | statement stmt => simp [prune, vanishes]
  | node right lower upper ihl ihu =>
    rw [prune, simplify_eq_none, hfirst lower ihl, hfirst upper ihu]
    simp only [ihl, ihu, vanishes]
    cases lower.vanishes <;> cases upper.vanishes <;> simp

/-- A branch of which nothing is left ran nothing, unless the state reached an extracted leaf. -/
theorem runs_of_vanishes {t : StateTree N} (h : t.vanishes = true)
    (hx : t.reachesExtracted below = false) : t.runs below = [] := by
  have hempty : ∀ t : StateTree N, t.isEmptyLeaf = true → t.runs below = [] := by
    intro t ht
    cases t with
    | leaf body extracted => cases body <;> simp_all [isEmptyLeaf, runs]
    | _ => simp [isEmptyLeaf] at ht
  induction t with
  | missing => rfl
  | leaf body extracted => simp_all [vanishes, reachesExtracted]
  | statement stmt => simp [vanishes] at h
  | node right lower upper ihl ihu =>
    simp only [vanishes, Bool.and_eq_true, Bool.or_eq_true] at h
    obtain ⟨⟨hl, hu⟩, -⟩ := h
    rw [reachesExtracted] at hx
    rw [runs]
    by_cases hb : below right = true
    · rw [if_pos hb] at hx ⊢
      exact hl.elim (fun hv => ihl hv hx) (hempty lower)
    · rw [if_neg hb] at hx ⊢
      exact hu.elim (fun hv => ihu hv hx) (hempty upper)

/-- What a decision's remains run, from its taken branch and the other one. -/
structure Ran (stateVar : String) (below : Expr N → Bool) (taken other : StateTree N)
    (ran : List (Stmt N)) : Prop where
  rerouted : taken.vanishes = true → ∃ r stmt, other.prune stateVar = some r ∧
    r.first = some stmt ∧ ran = Transforms.runs stateVar below (.node stmt)
  moved : taken.vanishes = false → other.vanishes = true → ∃ r stmt,
    taken.prune stateVar = some r ∧ r.first = some stmt ∧
      ran = Transforms.runs stateVar below (.node stmt)
  stayed : taken.vanishes = false → other.vanishes = false → ∃ r,
    taken.prune stateVar = some r ∧ ran = r.ran stateVar below

theorem vanishes_of_some {t : StateTree N} {r : Pruned N} (h : t.prune stateVar = some r) :
    t.vanishes = false := by
  rw [← Bool.not_eq_true, ← prune_eq_none_iff stateVar, h]
  simp

theorem ran_node (below : Expr N → Bool) {right : Expr N} {lower upper : StateTree N} {r : Pruned N}
    (h : (node right lower upper).prune stateVar = some r) :
    if below right then Ran stateVar below lower upper (r.ran stateVar below)
    else Ran stateVar below upper lower (r.ran stateVar below) := by
  rw [prune] at h
  cases hl : lower.prune stateVar with
  | none =>
    have hlv := (prune_eq_none_iff stateVar lower).mp hl
    cases hu : upper.prune stateVar with
    | none => simp [hl, hu, simplify] at h
    | some ru =>
      have huv := vanishes_of_some hu
      simp only [hl, hu, simplify, Option.map_eq_some_iff] at h
      obtain ⟨stmt, hstmt, rfl⟩ := h
      have hran := runs_single stateVar below stmt
      split
      · exact ⟨fun _ => ⟨ru, stmt, hu, hstmt, hran⟩, by simp [hlv], by simp [hlv]⟩
      · exact ⟨by simp [huv], fun _ _ => ⟨ru, stmt, hu, hstmt, hran⟩, by simp [hlv]⟩
  | some rl =>
    have hlv := vanishes_of_some hl
    cases hu : upper.prune stateVar with
    | none =>
      have huv := (prune_eq_none_iff stateVar upper).mp hu
      simp only [hl, hu, simplify, Option.map_eq_some_iff] at h
      obtain ⟨stmt, hstmt, rfl⟩ := h
      have hran := runs_single stateVar below stmt
      split
      · exact ⟨by simp [hlv], fun _ _ => ⟨rl, stmt, hl, hstmt, hran⟩, by simp [huv]⟩
      · exact ⟨fun _ => ⟨rl, stmt, hl, hstmt, hran⟩, by simp [huv], by simp [huv]⟩
    | some ru =>
      have huv := vanishes_of_some hu
      simp only [hl, hu, simplify, Option.some.injEq] at h
      subst h
      have hran : (Pruned.single (.ifStatement
          [.mk (.binaryExpression .lt (.identifier stateVar) right) rl.body]
          (some ru.body))).ran stateVar below =
          if below right then rl.ran stateVar below else ru.ran stateVar below :=
        runs_both below (by simp [Pruned.body, childNode, decision])
      rw [hran]
      split
      · exact ⟨by simp [hlv], by simp [huv], fun _ _ => ⟨rl, hl, rfl⟩⟩
      · exact ⟨by simp [huv], by simp [hlv], fun _ _ => ⟨ru, hu, rfl⟩⟩

/-! ### Idle and kept branches -/

theorem first_of_list {t : StateTree N} {body : List (Stmt N)}
    (h : t.prune stateVar = some (.list body)) : t = .leaf body false := by
  cases t with
  | missing => cases h
  | leaf body' extracted =>
    cases extracted with
    | true => cases h
    | false => rw [Pruned.list.inj (Option.some.inj h)]
  | statement stmt => cases h
  | node right lower upper =>
    rw [prune] at h
    cases hl : lower.prune stateVar <;> cases hu : upper.prune stateVar <;>
      simp [hl, hu, simplify] at h

theorem firstIdle_iff {t : StateTree N} {r : Pruned N} {stmt : Stmt N}
    (h : t.prune stateVar = some r) (hs : r.first = some stmt)
    (ih : r.ran stateVar below = [] ↔ t.idle stateVar below = true) :
    Transforms.runs stateVar below (.node stmt) = [] ↔
      t.firstIdle stateVar below (t.idle stateVar below) = true := by
  cases r with
  | single s =>
    obtain rfl : s = stmt := Option.some.inj hs
    rw [Pruned.ran, Pruned.body, runs_single] at ih
    rw [ih]
    cases t with
    | leaf body extracted => cases extracted <;> cases h
    | _ => rfl
  | list body =>
    obtain rfl := first_of_list h
    cases body with
    | nil => cases hs
    | cons s rest =>
      obtain rfl : s = stmt := Option.some.inj hs
      simp [firstIdle]

theorem nodeIdle_iff {taken other : StateTree N} {ran : List (Stmt N)}
    (h : Ran stateVar below taken other ran)
    (iht : ∀ r, taken.prune stateVar = some r →
      (r.ran stateVar below = [] ↔ taken.idle stateVar below = true))
    (iho : ∀ r, other.prune stateVar = some r →
      (r.ran stateVar below = [] ↔ other.idle stateVar below = true)) :
    ran = [] ↔ nodeIdle stateVar below taken other (taken.idle stateVar below)
      (other.idle stateVar below) = true := by
  rw [nodeIdle]
  cases ht : taken.vanishes with
  | true =>
    obtain ⟨r, stmt, hr, hs, rfl⟩ := h.rerouted ht
    exact firstIdle_iff hr hs (iho r hr)
  | false =>
    cases ho : other.vanishes with
    | true =>
      obtain ⟨r, stmt, hr, hs, rfl⟩ := h.moved ht ho
      exact firstIdle_iff hr hs (iht r hr)
    | false =>
      obtain ⟨r, hr, rfl⟩ := h.stayed ht ho
      exact iht r hr

theorem idle_iff (t : StateTree N) (hw : t.WellFormed stateVar) (r : Pruned N)
    (h : t.prune stateVar = some r) :
    r.ran stateVar below = [] ↔ t.idle stateVar below = true := by
  induction t generalizing r with
  | missing => cases h
  | leaf body extracted =>
    cases extracted with
    | true => cases h
    | false =>
      obtain rfl := Option.some.inj h
      have hran : (Pruned.list body).ran stateVar below = body := by
        rw [Pruned.ran, Pruned.body, hw, runs_leaf below rfl]
        rfl
      simp [hran, idle]
  | statement stmt =>
    obtain rfl := Option.some.inj h
    rw [Pruned.ran, Pruned.body, runs_single, runs_leaf below hw]
    simp [TreeNode.statements, idle]
  | node right lower upper ihl ihu =>
    have hran := ran_node below h
    rw [idle]
    split
    next hb =>
      rw [if_pos hb] at hran
      exact nodeIdle_iff hran (ihl hw.1) (ihu hw.2)
    next hb =>
      rw [if_neg hb] at hran
      exact nodeIdle_iff hran (ihu hw.2) (ihl hw.1)

/-- A decision runs one of its own parts. -/
theorem size_runs (stateVar : String) (below : Expr N → Bool) (node : TreeNode N) :
    sizeOf (Transforms.runs stateVar below node) + 1 ≤ node.size ∨
      Transforms.runs stateVar below node = node.statements := by
  have hchild : ∀ body : List (Stmt N),
      (sizeOf (Transforms.runs stateVar below (childNode body)) + 1 ≤ (childNode body).size ∨
        Transforms.runs stateVar below (childNode body) = (childNode body).statements) →
      sizeOf (Transforms.runs stateVar below (childNode body)) ≤ sizeOf body := by
    intro body h
    have hsize := size_childNode body
    rcases h with h | h
    · omega
    · rw [h, statements_childNode]
  fun_induction Transforms.runs stateVar below node with
  | case1 node right thenBody elseBody hd hb ih =>
    have hsize := decision_size hd
    have hle := hchild thenBody ih
    exact .inl (by omega)
  | case2 node right thenBody elseBody hd hb ih =>
    have hsize := decision_size hd
    have hle := hchild elseBody ih
    simp only [Option.some.sizeOf_spec] at hsize
    exact .inl (by omega)
  | case3 node right thenBody hd hb ih =>
    have hsize := decision_size hd
    have hle := hchild thenBody ih
    exact .inl (by omega)
  | case4 node right thenBody hd hb =>
    have hsize := decision_size hd
    exact .inl (by simp; omega)
  | case5 node hd => exact .inr rfl

/-- The first statement of a leaf stands for the leaf only when there is no other. -/
theorem runs_head_iff {stmt : Stmt N} {rest : List (Stmt N)}
    (hw : childNode (stmt :: rest) = .list (stmt :: rest)) :
    Transforms.runs stateVar below (.node stmt) = stmt :: rest ↔ rest = [] := by
  constructor
  · intro h
    rcases size_runs stateVar below (.node stmt) with hsize | hruns
    · rw [h] at hsize
      simp [TreeNode.size] at hsize
      omega
    · rw [hruns] at h
      simpa [TreeNode.statements] using h.symm
  · rintro rfl
    rw [← runs_single, hw, runs_leaf below rfl]
    rfl

theorem firstKept_iff {t : StateTree N} {r : Pruned N} {stmt : Stmt N}
    (hw : t.WellFormed stateVar) (h : t.prune stateVar = some r) (hs : r.first = some stmt)
    (ih : r.ran stateVar below = t.runs below ↔ t.kept stateVar below = true) :
    Transforms.runs stateVar below (.node stmt) = t.runs below ↔
      t.firstKept (t.kept stateVar below) = true := by
  cases r with
  | single s =>
    obtain rfl : s = stmt := Option.some.inj hs
    rw [Pruned.ran, Pruned.body, runs_single] at ih
    rw [ih]
    cases t with
    | leaf body extracted => cases extracted <;> cases h
    | _ => rfl
  | list body =>
    obtain rfl := first_of_list h
    cases body with
    | nil => cases hs
    | cons s rest =>
      obtain rfl : s = stmt := Option.some.inj hs
      rw [runs, runs_head_iff hw]
      simp [firstKept]

theorem nodeKept_iff {taken other : StateTree N} {ran : List (Stmt N)}
    (hw : taken.WellFormed stateVar) (how : other.WellFormed stateVar)
    (hx : taken.reachesExtracted below = false) (h : Ran stateVar below taken other ran)
    (iht : ∀ r, taken.prune stateVar = some r →
      (r.ran stateVar below = taken.runs below ↔ taken.kept stateVar below = true)) :
    ran = taken.runs below ↔ nodeKept stateVar below taken other (taken.kept stateVar below)
      (other.idle stateVar below) = true := by
  rw [nodeKept]
  cases ht : taken.vanishes with
  | true =>
    obtain ⟨r, stmt, hr, hs, rfl⟩ := h.rerouted ht
    rw [runs_of_vanishes ht hx]
    exact firstIdle_iff hr hs (idle_iff other how r hr)
  | false =>
    cases ho : other.vanishes with
    | true =>
      obtain ⟨r, stmt, hr, hs, rfl⟩ := h.moved ht ho
      exact firstKept_iff hw hr hs (iht r hr)
    | false =>
      obtain ⟨r, hr, rfl⟩ := h.stayed ht ho
      exact iht r hr

theorem kept_iff (t : StateTree N) (hw : t.WellFormed stateVar)
    (hx : t.reachesExtracted below = false) (r : Pruned N) (h : t.prune stateVar = some r) :
    r.ran stateVar below = t.runs below ↔ t.kept stateVar below = true := by
  induction t generalizing r with
  | missing => cases h
  | leaf body extracted =>
    cases extracted with
    | true => cases h
    | false =>
      obtain rfl := Option.some.inj h
      have hran : (Pruned.list body).ran stateVar below = body := by
        rw [Pruned.ran, Pruned.body, hw, runs_leaf below rfl]
        rfl
      simp [hran, runs, kept]
  | statement stmt =>
    obtain rfl := Option.some.inj h
    rw [Pruned.ran, Pruned.body, runs_single, runs_leaf below hw]
    simp [TreeNode.statements, runs, kept]
  | node right lower upper ihl ihu =>
    have hran := ran_node below h
    rw [kept, runs]
    rw [reachesExtracted] at hx
    split
    next hb =>
      rw [if_pos hb] at hran hx
      exact nodeKept_iff hw.1 hw.2 hx hran (ihl hw.1 hx)
    next hb =>
      rw [if_neg hb] at hran hx
      exact nodeKept_iff hw.2 hw.1 hx hran (ihu hw.2 hx)

end StateTree
end Left

theorem stateTree_node_ne_leaf {N : Type} [JsNumber N] (stateVar : String) (states : List N)
    (stmt : Stmt N) (lo hi : N) {body : List (Stmt N)} {extracted : Bool} :
    stateTree stateVar states (.node stmt) lo hi ≠ .leaf body extracted := by
  rw [stateTree]
  split <;> simp

/-- For a state whose leaf is not extracted the compressed tree runs the same statements exactly
when nothing is left of the tree, or along the state's path no list of statements moves up into
its parent's place but a single one, and no branch makes way for another that runs something. -/
theorem compressDispatcher_runs_iff {N : Type} [JsNumber N] (stateVar : String)
    (statesToExtract : List N) (rootIf : Stmt N) (state : N) (other : Expr N → Bool) :
    let below := belowState state other
    let tree := stateTree stateVar statesToExtract (.node rootIf)
      (LuaNumber.neg JsNumber.infinity) JsNumber.infinity
    tree.reachesExtracted below = false →
      (runs stateVar below (.node (compressDispatcher stateVar statesToExtract rootIf)) =
          runs stateVar below (.node rootIf) ↔
        tree.vanishes = true ∨ tree.kept stateVar below = true) := by
  intro below tree hx
  have hw : tree.WellFormed stateVar :=
    wellFormed_stateTree stateVar statesToExtract _ _ _ (fun l h => by cases h)
  have hruns : runs stateVar below (.node rootIf) = tree.runs below :=
    runs_stateTree stateVar statesToExtract below _ _ _
  rw [compressDispatcher, pruneTree_stateTree]
  cases hp : tree.prune stateVar with
  | none =>
    have hv := (StateTree.prune_eq_none_iff stateVar tree).mp hp
    simp [tree, hv]
  | some r =>
    have hv := StateTree.vanishes_of_some hp
    cases r with
    | single newRoot =>
      have hkept := StateTree.kept_iff tree hw hx _ hp
      rw [Pruned.ran, Pruned.body, runs_single] at hkept
      simp [tree, hv, hruns, hkept]
    | list body =>
      exact absurd (StateTree.first_of_list hp) (stateTree_node_ne_leaf stateVar _ rootIf _ _)

/-! ### Two leaves -/

section TwoLeaves

/-- Neither operation is called below. -/
local instance stillHost : Host where
  pow _ _ := .nan
  text _ := ""

def fiveState : Double := .finite ((5 : ℤ) : ℚ) (Double.isDouble_int (by norm_num))

def printCall : Stmt Double := .callStatement (.callExpression (.identifier "print") [] false)

/-- States below five run the given list, the others leave the loop. -/
def twoLeaves (lower : List (Stmt Double)) : Stmt Double :=
  .ifStatement [.mk (.binaryExpression .lt (.identifier "pos") (.numericLiteral fiveState "5"))
    lower] (some [.breakStatement])

theorem stateTree_twoLeaves (lower : List (Stmt Double)) (h : childNode lower = .list lower) :
    stateTree "pos" [fiveState] (.node (twoLeaves lower)) (LuaNumber.neg JsNumber.infinity)
        JsNumber.infinity =
      .node (.numericLiteral fiveState "5") (.leaf lower false) (.leaf [.breakStatement] true) := by
  have hlo : isExtracted [fiveState] (LuaNumber.neg JsNumber.infinity) fiveState = false := by
    decide +kernel
  have hhi : isExtracted [fiveState] fiveState JsNumber.infinity = true := by decide +kernel
  rw [stateTree_both _ _ _ rfl, h]
  simp [childNode, stateTree_list, lowerMax, upperMin, threshold, fold, hlo, hhi]

def belowZero : Expr Double → Bool := belowState LuaNumber.zero (fun _ => false)

theorem belowZero_five : belowZero (.numericLiteral fiveState "5") = true := by decide +kernel

theorem runs_twoLeaves {lower : List (Stmt Double)} (h : childNode lower = .list lower) :
    runs "pos" belowZero (.node (twoLeaves lower)) = lower := by
  rw [runs_both belowZero rfl, if_pos belowZero_five, h, runs_leaf belowZero rfl]
  rfl

/-- A single statement survives the loss of its sibling. -/
theorem single_statement_kept :
    runs "pos" belowZero (.node (compressDispatcher "pos" [fiveState] (twoLeaves [printCall]))) =
      [printCall] := by
  have htree := stateTree_twoLeaves [printCall] rfl
  have hiff := compressDispatcher_runs_iff "pos" [fiveState] (twoLeaves [printCall])
    LuaNumber.zero (fun _ => false)
  rw [htree] at hiff
  have hfive : belowState LuaNumber.zero (fun _ => false) (.numericLiteral fiveState "5") = true :=
    belowZero_five
  have hsame := (hiff (by simp [StateTree.reachesExtracted, hfive])).mpr (.inr (by
    simp [StateTree.kept, StateTree.nodeKept, StateTree.vanishes, StateTree.firstKept, hfive]))
  exact hsame.trans (runs_twoLeaves rfl)

/-- The state's leaf is not extracted and has two calls; the compressed tree makes one. -/
theorem compress_loses_statement :
    (stateTree "pos" [fiveState] (.node (twoLeaves [printCall, printCall]))
        (LuaNumber.neg JsNumber.infinity) JsNumber.infinity).reachesExtracted belowZero = false ∧
      runs "pos" belowZero (.node (twoLeaves [printCall, printCall])) = [printCall, printCall] ∧
      runs "pos" belowZero (.node
        (compressDispatcher "pos" [fiveState] (twoLeaves [printCall, printCall]))) =
          [printCall] := by
  have htree := stateTree_twoLeaves [printCall, printCall] rfl
  refine ⟨?_, runs_twoLeaves rfl, ?_⟩
  · simp [htree, StateTree.reachesExtracted, belowZero_five]
  · have hnew : compressDispatcher "pos" [fiveState] (twoLeaves [printCall, printCall]) =
        printCall := by
      simp [compressDispatcher, pruneTree_stateTree, htree, StateTree.prune, simplify, Pruned.first]
    rw [hnew, runs_leaf belowZero rfl]
    rfl

end TwoLeaves
end LuaRecovery.Transforms
