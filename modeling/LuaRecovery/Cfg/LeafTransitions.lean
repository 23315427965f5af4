import LuaRecovery.Cfg.DispatcherBlocks
import LuaRecovery.Evaluator.FoldPath

/-!
# The transitions of a leaf

What a block records about its leaf, against what running the leaf leaves in
the state variable. The scan never forgets a constant, looks at assignments to
one name only, leaves half a ternary without a transition and does not check
that the second half starts from the first. `Tracked` describes the runs in
which none of this matters, on the folded right sides that the scan looks at.
-/

set_option autoImplicit false

namespace LuaRecovery.Cfg
open LuaRecovery.Lib LuaRecovery.Lua LuaRecovery.Evaluator

section Statements
variable {N : Type} [LuaNumber N]

/-- What a name denotes. -/
def valueOf (env : Env) (s : State N) (name : String) : Value N :=
  match env.lookup name with
  | some a => s.cells a
  | none => s.globals name

omit [LuaNumber N] in
/-- The statement assigns to this name alone. -/
def IsUpdate (name : String) (stmt : Stmt N) : Prop :=
  ∃ init rest, stmt = .assignmentStatement [.identifier name] (init::rest)

omit [LuaNumber N] in
theorem readName_apply (env : Env) (s : State N) (name : String) :
    readName env name s = .done (valueOf env s name) s := by
  unfold readName valueOf
  cases env.lookup name <;> rfl

theorem store_name (m : Machine N) (env : Env) (name : String) (v : Value N) (s : State N) :
    ∃ s', store m env (.name name) v s = .done () s' ∧ valueOf env s' name = v := by
  cases h : env.lookup name with
  | none =>
    exact ⟨{ s with globals := Function.update s.globals name v }, by simp [store, h, writeGlobal],
      by simp [valueOf, h]⟩
  | some a =>
    exact ⟨{ s with cells := Function.update s.cells a v }, by simp [store, h, writeCell],
      by simp [valueOf, h]⟩

theorem evalList_head {m : Machine N} {env : Env} {va : List (Value N)} {e : Expr N}
    {es : List (Expr N)} {s s' : State N} {vs : List (Value N)}
    (h : evalList m env va (e::es) s = .done vs s') :
    ∃ s₁, one (eval m env va false e) s = .done (first vs) s₁ := by
  cases es with
  | nil =>
    rw [evalList] at h
    exact ⟨s', one_eq_done.mpr ⟨vs, h, rfl⟩⟩
  | cons e' es =>
    rw [evalList] at h
    obtain ⟨v, s₁, hv, h⟩ := Prog.bind_eq_done.mp h
    obtain ⟨ws, s₂, -, h⟩ := Prog.bind_eq_done.mp h
    cases h
    exact ⟨s₁, hv⟩

/-- An assignment to one name stores the first value of its right side. -/
theorem exec_assign_name {m : Machine N} {env env' : Env} {va : List (Value N)} {name : String}
    {init : Expr N} {rest : List (Expr N)} {s s' : State N} {sig : Signal N}
    (h : exec m env va (.assignmentStatement [.identifier name] (init::rest)) s =
      .done (env', sig) s') :
    ∃ v s₁, one (eval m env va false init) s = .done v s₁ ∧ valueOf env s' name = v := by
  rw [exec] at h
  obtain ⟨ts, s₁, hts, h⟩ := Prog.bind_eq_done.mp h
  cases hts
  obtain ⟨vs, s₂, hvs, h⟩ := Prog.bind_eq_done.mp h
  obtain ⟨u, s₃, hstore, h⟩ := Prog.bind_eq_done.mp h
  cases h
  obtain ⟨s₄, hone⟩ := evalList_head hvs
  refine ⟨first vs, s₄, hone, ?_⟩
  obtain ⟨s₅, hs₅, hval⟩ := store_name m env name (first vs) s₂
  rw [storeAll, storeAll, Prog.pure_bind_apply] at hstore
  rw [hs₅] at hstore
  cases hstore
  exact hval

theorem execBlock_append {m : Machine N} {env env' : Env} {va : List (Value N)}
    {pre : List (Stmt N)} {s s₁ : State N} (h : execBlock m env va pre s = .done (env', .normal) s₁)
    (post : List (Stmt N)) :
    execBlock m env va (pre++post) s = execBlock m env' va post s₁ := by
  induction pre generalizing env s with
  | nil =>
    cases h
    rfl
  | cons st pre ih =>
    rw [execBlock] at h
    obtain ⟨r, s₂, hst, h⟩ := Prog.bind_eq_done.mp h
    rw [List.cons_append, execBlock, Prog.bind_done _ _ _ _ _ hst]
    obtain ⟨env₂, sig⟩ := r
    cases sig with
    | normal => exact ih h
    | broke => cases h
    | continued => cases h
    | returned vs => cases h

theorem execBlock_cons {m : Machine N} {env env' : Env} {va : List (Value N)} {st : Stmt N}
    {s s₁ : State N} (h : exec m env va st s = .done (env', .normal) s₁) (post : List (Stmt N)) :
    execBlock m env va (st::post) s = execBlock m env' va post s₁ := by
  rw [execBlock, Prog.bind_done _ _ _ _ _ h]

end Statements

section Updates
variable {N : Type} [JsNumber N]

def numeralValue : Expr N → Option N
  | .numericLiteral value _ => some value
  | _ => none

/-- A single name and the number that the statement visibly gives it. -/
def numeralOf : Stmt N → Option (String × N)
  | .assignmentStatement [.identifier name] (init::_) =>
      (numeralValue (fold init)).map (fun n => (name, n))
  | _ => none

/-- The numbers that single names were given, the latest first. -/
def constants (statements : List (Stmt N)) : List (String × N) :=
  (statements.filterMap numeralOf).reverse

def isExitLiteral : Expr N → Bool
  | .booleanLiteral value => !value
  | .nilLiteral => true
  | _ => false

/-- The statement visibly gives the state variable `nil` or `false`. -/
def exits (stateVar : String) : Stmt N → Bool
  | .assignmentStatement [.identifier name] (init::_) =>
      name == stateVar && isExitLiteral (fold init)
  | _ => false

/-- Neither recorded by a transition nor by the exit mark. -/
def dynamicForm : Expr N → Bool
  | .numericLiteral _ _ => false
  | .logicalExpression _ _ _ => false
  | .booleanLiteral value => value
  | .nilLiteral => false
  | _ => true

/-- The operand that a folded right side `c and a` or `c and a or b` tests first. -/
def testOf : Expr N → Option (Expr N)
  | .logicalExpression .or (.logicalExpression .and condition _) _ => some condition
  | .logicalExpression .and condition _ => some condition
  | _ => none

end Updates

section Runs
variable {N : Type} [JsNumber N] (m : Machine N) (env : Env) (va : List (Value N))
  (stateVar : String)

/-- Evaluation comes to `c and a`, alone or on the left of `or`, and so to `c`. -/
inductive ComesToTest (e : Expr N) (s : State N) : Expr N → Expr N → State N → Prop
  | half {c a : Expr N} {t : State N}
      (hand : PassesTo m env va false e s (.logicalExpression .and c a) t) :
      ComesToTest e s c a t
  | whole {l r c a : Expr N} {t₀ t : State N}
      (hor : PassesTo m env va false e s (.logicalExpression .or l r) t₀)
      (hand : PassesTo m env va false l t₀ (.logicalExpression .and c a) t) :
      ComesToTest e s c a t

/-- The run tests the condition in an update of the state variable, with outcome `b`. -/
def Tests (leaf : List (Stmt N)) (s : State N) (condition : Expr N) (b : Bool) : Prop :=
  ∃ pre init rest post c a s₁ t v s₂,
    leaf = pre ++ .assignmentStatement [.identifier stateVar] (init::rest) :: post ∧
    execBlock m env va pre s = .done (env, .normal) s₁ ∧
    testOf (fold init) = some condition ∧ ComesToTest m env va init s₁ c a t ∧
    fold c = condition ∧ one (eval m env va true c) t = .done v s₂ ∧ v.truthy = b

/-- The transition leads to the state, under the branch that the run took. -/
def Follows (leaf : List (Stmt N)) (s : State N) (t : Transition N) (n : N) : Prop :=
  t.targetState = some n ∧ (t.type = .unconditional ∨
    ∃ condition, t.condition = some condition ∧
      ((t.type = .conditionalTrue ∧ Tests m env va stateVar leaf s condition true) ∨
       (t.type = .conditionalFalse ∧ Tests m env va stateVar leaf s condition false)))

/-- What the block records covers the value that its leaf leaves in the state variable. -/
structure Covers (b : BasicBlock N) (s : State N) (v : Value N) : Prop where
  number : ∀ n, v = .number n →
    (∃ t ∈ b.stateTransitions, Follows m env va stateVar b.statements s t n) ∨
      ∃ t ∈ b.stateTransitions, t.type = .dynamic
  falsy : v.truthy = false → b.isExit = true
  exit : b.isExit = true → ∀ n, v ≠ .number n

/-- A name that the operand comes down to still has the number given to it. -/
def Current (e : Expr N) (s : State N) (n : N) : Prop :=
  ∀ name t, PassesTo m env va false e s (.identifier name) t → valueOf env t name = .number n

/-- The names of the branch that a ternary takes from `s` are current. -/
def TernaryCurrent (init : Expr N) (s : State N) (s1 s2 : N) : Prop :=
  ∀ l b c a t₀ t v t',
    PassesTo m env va false init s (.logicalExpression .or l b) t₀ →
    PassesTo m env va false l t₀ (.logicalExpression .and c a) t →
    one (eval m env va true c) t = .done v t' →
    if v.truthy then Current m env va a t' s1 else Current m env va b t' s2

/-- The second half `state or b` of a ternary, run from `s`, reads the state in `t`. -/
def ReadsState (init : Expr N) (s : State N) (b : Expr N) (t : State N) : Prop :=
  ∃ l t₀, PassesTo m env va false init s (.logicalExpression .or l b) t₀ ∧
    PassesTo m env va false l t₀ (.identifier stateVar) t

/-- The names of the branch that the two halves take from `t₁` and `s₁` are current. -/
def HalvesCurrent (half init : Expr N) (t₁ s₁ : State N) (s1 s2 : N) : Prop :=
  ∀ c a t v t', PassesTo m env va false half t₁ (.logicalExpression .and c a) t →
    one (eval m env va true c) t = .done v t' →
    if v.truthy then Current m env va a t' s1 else
      ∀ b u, ReadsState m env va stateVar init s₁ b u → Current m env va b u s2

/-- The update of the state variable after `pre`, from `s₁` in a run from `s`, is one that
the scan gets right. -/
inductive GoodUpdate (pre : List (Stmt N)) (s s₁ : State N) (init : Expr N) : Prop
  | exit (hfold : isExitLiteral (fold init) = true)
  | number (n : N) (hfold : numeralValue (fold init) = some n)
      (hexit : pre.any (exits stateVar) = false)
  | dynamic (hfold : dynamicForm (fold init) = true)
      (hvalue : ∀ v s', one (eval m env va false init) s₁ = .done v s' →
        if pre.any (exits stateVar) then ∀ n, v ≠ .number n else v.truthy = true)
  | ternary (c a b : Expr N) (s1 s2 : N)
      (hfold : fold init = .logicalExpression .or (.logicalExpression .and c a) b)
      (ha : constantOf (constants pre) a = some s1) (hb : constantOf (constants pre) b = some s2)
      (hcurrent : TernaryCurrent m env va init s₁ s1 s2)
      (hexit : pre.any (exits stateVar) = false)
  | split (pre' mid : List (Stmt N)) (half : Expr N) (rest : List (Expr N)) (c a b : Expr N)
      (s1 s2 : N) (t₁ t₂ : State N)
      (hpre : pre = pre' ++ .assignmentStatement [.identifier stateVar] (half::rest) :: mid)
      (hrun : execBlock m env va pre' s = .done (env, .normal) t₁)
      (hfirst : exec m env va (.assignmentStatement [.identifier stateVar] (half::rest)) t₁ =
        .done (env, .normal) t₂)
      (hmid : ∀ st ∈ mid, ¬ IsUpdate stateVar st)
      (hhalf : fold half = .logicalExpression .and c a)
      (hfold : fold init = .logicalExpression .or (.identifier stateVar) b)
      (ha : constantOf (constants pre') a = some s1) (hb : constantOf (constants pre) b = some s2)
      (hkept : ∀ e t, ReadsState m env va stateVar init s₁ e t →
        valueOf env t stateVar = valueOf env t₂ stateVar)
      (hcurrent : HalvesCurrent m env va stateVar half init t₁ s₁ s1 s2)
      (hexit : pre.any (exits stateVar) = false)

/-- Neither a number nor a value that ends the loop. -/
def Inert (v : Value N) : Prop := v.truthy = true ∧ ∀ n, v ≠ .number n

/-- The run from `s` leaves no state at all, or the scan gets its last update right. -/
inductive Tracked (leaf : List (Stmt N)) (s : State N) : Prop
  | inert (hinert : ∀ r s', execBlock m env va leaf s = .done r s' →
        Inert (valueOf env s' stateVar))
  | last (pre post : List (Stmt N)) (init : Expr N) (rest : List (Expr N)) (s₁ s₂ : State N)
      (hleaf : leaf = pre ++ .assignmentStatement [.identifier stateVar] (init::rest) :: post)
      (hpre : execBlock m env va pre s = .done (env, .normal) s₁)
      (hlast : exec m env va (.assignmentStatement [.identifier stateVar] (init::rest)) s₁ =
        .done (env, .normal) s₂)
      (hpost : ∀ st ∈ post, ¬ IsUpdate stateVar st)
      (hkept : ∀ r s', execBlock m env va post s₂ = .done r s' →
        valueOf env s' stateVar = valueOf env s₂ stateVar)
      (hgood : GoodUpdate m env va stateVar pre s s₁ init)

end Runs

section Scan
variable {N : Type} [JsNumber N] {stateVar : String}

theorem localConsts_scanUpdate (scan : LeafScan N) (e : Expr N) :
    (scanUpdate scan e).localConsts = scan.localConsts := by
  unfold scanUpdate
  dsimp only
  split
  case h_2 => split <;> split <;> rfl
  case h_3 => split <;> rfl
  all_goals rfl

theorem isExit_scanUpdate (scan : LeafScan N) (e : Expr N) :
    (scanUpdate scan e).isExit = (scan.isExit || isExitLiteral e) := by
  unfold scanUpdate
  dsimp only
  split
  case h_2 => split <;> split <;> simp [isExitLiteral]
  case h_3 => split <;> simp [isExitLiteral]
  case h_6 _ _ _ hfalse hnil =>
    cases e with
    | booleanLiteral value => cases value <;> simp_all [isExitLiteral]
    | nilLiteral => exact absurd rfl hnil
    | _ => simp [isExitLiteral]
  all_goals simp [isExitLiteral]

/-- A statement that does not update the state variable touches the constants only. -/
theorem scanStatement_other {st : Stmt N} (h : ¬ IsUpdate stateVar st) (scan : LeafScan N) :
    (scanStatement stateVar scan st).stateTransitions = scan.stateTransitions ∧
      (scanStatement stateVar scan st).isExit = scan.isExit ∧
      (scanStatement stateVar scan st).partialAnd = scan.partialAnd := by
  unfold scanStatement
  split
  · rename_i vName init rest
    have hne : vName ≠ stateVar := by
      rintro rfl
      exact h ⟨init, rest, rfl⟩
    dsimp only
    rw [if_neg hne]
    split <;> exact ⟨rfl, rfl, rfl⟩
  · exact ⟨rfl, rfl, rfl⟩

theorem foldl_scanStatement_other {post : List (Stmt N)}
    (h : ∀ st ∈ post, ¬ IsUpdate stateVar st) (scan : LeafScan N) :
    (post.foldl (scanStatement stateVar) scan).stateTransitions = scan.stateTransitions ∧
      (post.foldl (scanStatement stateVar) scan).isExit = scan.isExit ∧
      (post.foldl (scanStatement stateVar) scan).partialAnd = scan.partialAnd := by
  induction post generalizing scan with
  | nil => exact ⟨rfl, rfl, rfl⟩
  | cons st post ih =>
    obtain ⟨hst, hpost⟩ := List.forall_mem_cons.mp h
    obtain ⟨h1, h2, h3⟩ := scanStatement_other hst scan
    obtain ⟨h1', h2', h3'⟩ := ih hpost (scanStatement stateVar scan st)
    exact ⟨h1'.trans h1, h2'.trans h2, h3'.trans h3⟩

theorem localConsts_scanStatement (scan : LeafScan N) (st : Stmt N) :
    (scanStatement stateVar scan st).localConsts = (numeralOf st).toList ++ scan.localConsts := by
  rw [scanStatement.eq_def]
  split
  · rename_i vName init rest
    rw [numeralOf]
    cases fold init <;> by_cases hname : vName = stateVar <;>
      simp [hname, numeralValue, localConsts_scanUpdate]
  · rename_i hother
    rw [numeralOf.eq_def]
    split
    · rename_i name init rest
      exact absurd rfl (hother name init rest)
    · rfl

theorem isExit_scanStatement (scan : LeafScan N) (st : Stmt N) :
    (scanStatement stateVar scan st).isExit = (scan.isExit || exits stateVar st) := by
  rw [scanStatement.eq_def]
  split
  · rename_i vName init rest
    rw [exits]
    cases fold init <;> by_cases hname : vName = stateVar <;>
      simp [hname, isExitLiteral, isExit_scanUpdate]
  · rename_i hother
    rw [exits.eq_def]
    split
    · rename_i name init rest
      exact absurd rfl (hother name init rest)
    · simp

theorem localConsts_foldl (statements : List (Stmt N)) (scan : LeafScan N) :
    (statements.foldl (scanStatement stateVar) scan).localConsts =
      constants statements ++ scan.localConsts := by
  induction statements generalizing scan with
  | nil => rfl
  | cons st statements ih =>
    rw [List.foldl_cons, ih, localConsts_scanStatement]
    cases h : numeralOf st <;> simp [constants, h]

theorem isExit_foldl (statements : List (Stmt N)) (scan : LeafScan N) :
    (statements.foldl (scanStatement stateVar) scan).isExit =
      (scan.isExit || statements.any (exits stateVar)) := by
  induction statements generalizing scan with
  | nil => simp
  | cons st statements ih =>
    rw [List.foldl_cons, ih, isExit_scanStatement, List.any_cons, Bool.or_assoc]

/-- The constants that the scan remembers are the numbers that names were given. -/
theorem localConsts_scanLeaf (statements : List (Stmt N)) :
    (scanLeaf stateVar statements).localConsts = constants statements := by
  rw [scanLeaf, localConsts_foldl, List.append_nil]

theorem isExit_scanLeaf (statements : List (Stmt N)) :
    (scanLeaf stateVar statements).isExit = statements.any (exits stateVar) := by
  rw [scanLeaf, isExit_foldl, Bool.false_or]

theorem scanLeaf_append (pre post : List (Stmt N)) (st : Stmt N) :
    scanLeaf stateVar (pre ++ st :: post) =
      post.foldl (scanStatement stateVar) (scanStatement stateVar (scanLeaf stateVar pre) st) := by
  simp [scanLeaf]

/-- An update whose right side is no numeral leaves the constants as they are. -/
theorem scanStatement_update {init : Expr N} (h : numeralValue (fold init) = none)
    (rest : List (Expr N)) (scan : LeafScan N) :
    scanStatement stateVar scan (.assignmentStatement [.identifier stateVar] (init::rest)) =
      scanUpdate scan (fold init) := by
  unfold scanStatement
  dsimp only
  rw [if_pos rfl]
  split
  · rename_i n raw heq
    rw [heq] at h
    cases h
  · rfl

theorem scanStatement_number {init : Expr N} {n : N} (h : numeralValue (fold init) = some n)
    (rest : List (Expr N)) (scan : LeafScan N) :
    scanStatement stateVar scan (.assignmentStatement [.identifier stateVar] (init::rest)) =
      { scan with
        localConsts := (stateVar, n) :: scan.localConsts
        stateTransitions := [⟨some n, .unconditional, none, none⟩], partialAnd := none } := by
  cases hfold : fold init <;> rw [hfold] at h <;> simp only [numeralValue, reduceCtorEq] at h
  cases h
  simp [scanStatement, hfold, scanUpdate]

/-- An operand that names a constant is as folded as it gets. -/
theorem constantOf_fold {consts : List (String × N)} {e : Expr N} {n : N}
    (h : constantOf consts e = some n) : constantOf consts (fold e) = some n := by
  cases e <;> first | exact h | cases h

theorem scanUpdate_ternary {scan : LeafScan N} {cond a b : Expr N} {s1 s2 : N}
    (ha : constantOf scan.localConsts a = some s1) (hb : constantOf scan.localConsts b = some s2) :
    scanUpdate scan (.logicalExpression .or (.logicalExpression .and cond a) b) =
      { scan with stateTransitions := branchTransitions cond s1 s2, partialAnd := none } := by
  simp only [scanUpdate, constantOf_fold ha, constantOf_fold hb]

theorem scanUpdate_half {scan : LeafScan N} {cond a : Expr N} {s1 : N}
    (ha : constantOf scan.localConsts a = some s1) :
    scanUpdate scan (.logicalExpression .and cond a) =
      { scan with partialAnd := some (cond, s1) } := by
  simp only [scanUpdate, constantOf_fold ha]

theorem scanUpdate_second {scan : LeafScan N} {cond b : Expr N} {name : String} {s1 s2 : N}
    (hhalf : scan.partialAnd = some (cond, s1))
    (hb : constantOf scan.localConsts b = some s2) :
    scanUpdate scan (.logicalExpression .or (.identifier name) b) =
      { scan with stateTransitions := branchTransitions cond s1 s2, partialAnd := none } := by
  simp only [scanUpdate, hhalf, constantOf_fold hb]

theorem scanUpdate_dynamic {scan : LeafScan N} {e : Expr N} (h : dynamicForm e = true) :
    scanUpdate scan e = { scan with
      stateTransitions := [⟨none, .dynamic, none, some e⟩], partialAnd := none } := by
  cases e <;> simp [dynamicForm] at h <;> first | rfl | (subst h; rfl)

omit [JsNumber N] in
theorem numeralValue_of_dynamicForm {e : Expr N} (h : dynamicForm e = true) :
    numeralValue e = none := by
  cases e <;> first | rfl | cases h

omit [JsNumber N] in
theorem numeralValue_of_isExitLiteral {e : Expr N} (h : isExitLiteral e = true) :
    numeralValue e = none ∧ isStaticallyTruthy e = some false := by
  cases e <;> simp_all [isExitLiteral, numeralValue, isStaticallyTruthy]

end Scan

section Values
variable {N : Type} [JsNumber N] {m : Machine N} {env : Env} {va : List (Value N)}
  {stateVar : String}

omit [JsNumber N] in
theorem literalValue_of_numeralValue {e : Expr N} {n : N} (h : numeralValue e = some n) :
    literalValue e = some (.number n) := by
  cases e <;> simp_all [numeralValue, literalValue]

/-- Reading a name changes nothing. -/
theorem one_identifier {name : String} {test : Bool} {s s' : State N} {v : Value N}
    (h : one (eval m env va test (.identifier name)) s = .done v s') :
    v = valueOf env s name ∧ s' = s := by
  rw [one, eval, Prog.bind_apply, Prog.bind_done _ _ _ _ _ (readName_apply env s name)] at h
  cases h
  exact ⟨rfl, rfl⟩

/-- A branch operand that is still current yields what the scan resolves it to. -/
theorem one_constant {consts : List (String × N)} {e : Expr N} {n : N} {s s' : State N}
    {v : Value N} (h : constantOf consts (fold e) = some n) (hcurrent : Current m env va e s n)
    (hv : one (eval m env va false e) s = .done v s') : v = .number n := by
  cases hfold : fold e <;> rw [hfold] at h <;> simp only [constantOf, reduceCtorEq] at h
  case numericLiteral value raw =>
    cases h
    exact (fold_shows m env va e _ _ _ _ hv).1 _ (by rw [hfold]; rfl)
  case identifier name =>
    obtain ⟨t, hpass, hread⟩ := passesTo_identifier hfold hv
    rw [(one_identifier hread).1, hcurrent name t hpass]

/-- An update that the scan gets right, alone: its scan covers the value it stores. -/
structure Settles (m : Machine N) (env : Env) (va : List (Value N)) (stateVar : String)
    (leaf : List (Stmt N)) (s : State N) (scan : LeafScan N) (v : Value N) : Prop where
  number : ∀ n, v = .number n →
    (∃ t ∈ scan.stateTransitions, Follows m env va stateVar leaf s t n) ∨
      ∃ t ∈ scan.stateTransitions, t.type = .dynamic
  falsy : v.truthy = false → scan.isExit = true
  exit : scan.isExit = true → ∀ n, v ≠ .number n

theorem settles_branch {leaf : List (Stmt N)} {s : State N} {scan : LeafScan N}
    {condition : Expr N} {s1 s2 : N} {w v : Value N} (hexit : scan.isExit = false)
    (hscan : scan.stateTransitions = branchTransitions condition s1 s2)
    (htest : Tests m env va stateVar leaf s condition w.truthy)
    (hv : v = .number (if w.truthy then s1 else s2)) :
    Settles m env va stateVar leaf s scan v := by
  refine ⟨fun n hn => .inl ?_, fun hf => ?_, fun he => ?_⟩
  · rw [hv] at hn
    cases hn
    rw [hscan]
    by_cases hw : w.truthy = true
    · rw [hw] at htest
      exact ⟨_, List.mem_cons_self, by simp [hw], .inr ⟨condition, rfl, .inl ⟨rfl, htest⟩⟩⟩
    · rw [Bool.not_eq_true] at hw
      rw [hw] at htest
      exact ⟨_, List.mem_cons_of_mem _ List.mem_cons_self, by simp [hw],
        .inr ⟨condition, rfl, .inr ⟨rfl, htest⟩⟩⟩
  · rw [hv] at hf
    cases hf
  · rw [hexit] at he
    cases he

variable {leaf pre post : List (Stmt N)} {init : Expr N} {rest : List (Expr N)}
  {s s₁ s₂ : State N}

theorem settles_ternary {c a b : Expr N} {s1 s2 : N}
    (hleaf : leaf = pre ++ .assignmentStatement [.identifier stateVar] (init::rest) :: post)
    (hpre : execBlock m env va pre s = .done (env, .normal) s₁)
    (hfold : fold init = .logicalExpression .or (.logicalExpression .and c a) b)
    (ha : constantOf (constants pre) a = some s1) (hb : constantOf (constants pre) b = some s2)
    (hcurrent : TernaryCurrent m env va init s₁ s1 s2)
    (hexit : pre.any (exits stateVar) = false) {v : Value N} {s₃ : State N}
    (hv : one (eval m env va false init) s₁ = .done v s₃) :
    Settles m env va stateVar leaf s (scanStatement stateVar (scanLeaf stateVar pre)
      (.assignmentStatement [.identifier stateVar] (init::rest))) v := by
  obtain ⟨l, r, t₀, hor, hl, rfl, hrun⟩ := passesTo_logical hfold hv
  obtain ⟨u, t₁, hu, hright⟩ := one_or hrun
  obtain ⟨c', a', t, hand, rfl, rfl, hrun'⟩ := passesTo_logical hl hu
  obtain ⟨w, t', hw, hleft⟩ := one_and hrun'
  have hcur := hcurrent l r c' a' t₀ t w t' hor hand hw
  rw [scanStatement_update (by rw [hfold]; rfl), hfold,
    scanUpdate_ternary (by rw [localConsts_scanLeaf, ha]) (by rw [localConsts_scanLeaf, hb])]
  refine settles_branch (w := w) (by rw [← hexit, ← isExit_scanLeaf]) rfl
    ⟨pre, init, rest, post, c', a', s₁, t, w, t', hleaf, hpre, by rw [hfold]; rfl,
      .whole hor hand, rfl, hw, rfl⟩ ?_
  by_cases ht : w.truthy = true
  · rw [if_pos ht] at hleft hcur ⊢
    obtain rfl := one_constant ha hcur hleft
    exact hright.1
  · rw [if_neg ht] at hleft hcur ⊢
    obtain ⟨rfl, rfl⟩ := hleft
    rw [if_neg ht] at hright
    exact one_constant hb hcur hright

theorem settles_split {pre' mid : List (Stmt N)} {half : Expr N} {rest' : List (Expr N)}
    {c a b : Expr N} {s1 s2 : N} {t₁ t₂ : State N}
    (hleaf : leaf = pre ++ .assignmentStatement [.identifier stateVar] (init::rest) :: post)
    (hpre : pre = pre' ++ .assignmentStatement [.identifier stateVar] (half::rest') :: mid)
    (hrun : execBlock m env va pre' s = .done (env, .normal) t₁)
    (hfirst : exec m env va (.assignmentStatement [.identifier stateVar] (half::rest')) t₁ =
      .done (env, .normal) t₂)
    (hmid : ∀ st ∈ mid, ¬ IsUpdate stateVar st)
    (hhalf : fold half = .logicalExpression .and c a)
    (hfold : fold init = .logicalExpression .or (.identifier stateVar) b)
    (ha : constantOf (constants pre') a = some s1) (hb : constantOf (constants pre) b = some s2)
    (hkept : ∀ e t, ReadsState m env va stateVar init s₁ e t →
      valueOf env t stateVar = valueOf env t₂ stateVar)
    (hcurrent : HalvesCurrent m env va stateVar half init t₁ s₁ s1 s2)
    (hexit : pre.any (exits stateVar) = false) {v : Value N} {s₃ : State N}
    (hv : one (eval m env va false init) s₁ = .done v s₃) :
    Settles m env va stateVar leaf s (scanStatement stateVar (scanLeaf stateVar pre)
      (.assignmentStatement [.identifier stateVar] (init::rest))) v := by
  have hpartial : (scanLeaf stateVar pre).partialAnd = some (c, s1) := by
    rw [hpre, scanLeaf_append, (foldl_scanStatement_other hmid _).2.2,
      scanStatement_update (by rw [hhalf]; rfl), hhalf,
      scanUpdate_half (by rw [localConsts_scanLeaf, ha])]
  obtain ⟨u, t₃, hu, hstored⟩ := exec_assign_name hfirst
  obtain ⟨c', a', t, hand, rfl, rfl, hrun'⟩ := passesTo_logical hhalf hu
  obtain ⟨w, t', hw, hleft⟩ := one_and hrun'
  have hcur := hcurrent c' a' t w t' hand hw
  -- the second half reads what the first one stored
  obtain ⟨l, r, t₄, hor, hl, rfl, hrunor⟩ := passesTo_logical hfold hv
  obtain ⟨x, t₅, hx, hright⟩ := one_or hrunor
  obtain ⟨t₆, hname, hread⟩ := passesTo_identifier hl hx
  have hreads : ReadsState m env va stateVar init s₁ r t₆ := ⟨l, t₄, hor, hname⟩
  obtain ⟨hvalue, rfl⟩ := one_identifier hread
  rw [hkept r _ hreads, hstored] at hvalue
  subst hvalue
  rw [scanStatement_update (by rw [hfold]; rfl), hfold,
    scanUpdate_second hpartial (by rw [localConsts_scanLeaf, hb])]
  refine settles_branch (w := w) (by rw [← hexit, ← isExit_scanLeaf]) rfl
    ⟨pre', half, rest', mid ++ .assignmentStatement [.identifier stateVar] (init::rest) :: post,
      c', a', t₁, t, w, t', by rw [hleaf, hpre]; simp, hrun, by rw [hhalf]; rfl, .half hand, rfl,
      hw, rfl⟩ ?_
  by_cases ht : w.truthy = true
  · rw [if_pos ht] at hleft hcur ⊢
    obtain rfl := one_constant ha hcur hleft
    exact hright.1
  · rw [if_neg ht] at hleft hcur ⊢
    obtain ⟨rfl, rfl⟩ := hleft
    rw [if_neg ht] at hright
    exact one_constant hb (hcur r _ hreads) hright

/-- The scan of a good last update covers the value that it stores. -/
theorem settles_of_good
    (hleaf : leaf = pre ++ .assignmentStatement [.identifier stateVar] (init::rest) :: post)
    (hpre : execBlock m env va pre s = .done (env, .normal) s₁)
    (hlast : exec m env va (.assignmentStatement [.identifier stateVar] (init::rest)) s₁ =
      .done (env, .normal) s₂)
    (hgood : GoodUpdate m env va stateVar pre s s₁ init) :
    Settles m env va stateVar leaf s (scanStatement stateVar (scanLeaf stateVar pre)
      (.assignmentStatement [.identifier stateVar] (init::rest))) (valueOf env s₂ stateVar) := by
  obtain ⟨v, s₃, hv, hstored⟩ := exec_assign_name hlast
  have hshows := fold_shows m env va init _ _ _ _ hv
  rw [hstored]
  cases hgood with
  | exit hfold =>
    obtain ⟨hnumeral, hstatic⟩ := numeralValue_of_isExitLiteral hfold
    have hfalsy : v.truthy = false := hshows.2 false hstatic
    have hnot : ∀ n, v ≠ .number n := by
      rintro n rfl
      cases hfalsy
    rw [scanStatement_update hnumeral]
    exact ⟨fun n hn => absurd hn (hnot n), fun _ => by rw [isExit_scanUpdate, hfold, Bool.or_true],
      fun _ => hnot⟩
  | number n hfold hexit =>
    have hvalue : v = .number n := hshows.1 _ (literalValue_of_numeralValue hfold)
    rw [scanStatement_number hfold, hvalue]
    refine ⟨fun k hk => .inl ?_, fun hf => ?_, fun he => ?_⟩
    · cases hk
      exact ⟨_, List.mem_singleton.mpr rfl, rfl, .inl rfl⟩
    · cases hf
    · rw [isExit_scanLeaf, hexit] at he
      cases he
  | dynamic hfold hvalue =>
    have hout := hvalue v s₃ hv
    rw [scanStatement_update (numeralValue_of_dynamicForm hfold), scanUpdate_dynamic hfold]
    refine ⟨fun n _ => .inr ⟨_, List.mem_singleton.mpr rfl, rfl⟩, fun hf => ?_, fun he => ?_⟩
    · rw [isExit_scanLeaf]
      by_contra hno
      rw [if_neg hno, hf] at hout
      cases hout
    · rw [isExit_scanLeaf] at he
      rw [if_pos he] at hout
      exact hout
  | ternary c a b s1 s2 hfold ha hb hcurrent hexit =>
    exact settles_ternary hleaf hpre hfold ha hb hcurrent hexit hv
  | split pre' mid half rest' c a b s1 s2 t₁ t₂ hpre' hrun hfirst hmid hhalf hfold ha hb hkept
      hcurrent hexit =>
    exact settles_split hleaf hpre' hrun hfirst hmid hhalf hfold ha hb hkept hcurrent hexit hv

/-- In a tracked run, what the block records covers the value that the leaf leaves. -/
theorem covers_of_tracked {root : Stmt N} {entry : Option N} {b : BasicBlock N}
    (hb : b ∈ (buildCFG stateVar root entry).blocks) {r : Env × Signal N} {s' : State N}
    (hrun : execBlock m env va b.statements s = .done r s')
    (ht : Tracked m env va stateVar b.statements s) :
    Covers m env va stateVar b s (valueOf env s' stateVar) := by
  obtain ⟨htrans, hexit⟩ := scanned_buildCFG stateVar root entry b hb
  cases ht with
  | inert hinert =>
    obtain ⟨htruthy, hnumber⟩ := hinert r s' hrun
    refine ⟨fun n hn => absurd hn (hnumber n), fun hf => ?_, fun _ => hnumber⟩
    rw [htruthy] at hf
    cases hf
  | last pre post init rest s₁ s₂ hleaf hpre hlast hpost hkept hgood =>
    have hsettles := settles_of_good hleaf hpre hlast hgood
    obtain ⟨h1, h2, -⟩ := foldl_scanStatement_other hpost (scanStatement stateVar
      (scanLeaf stateVar pre) (.assignmentStatement [.identifier stateVar] (init::rest)))
    rw [← scanLeaf_append, ← hleaf] at h1 h2
    have hpostrun : execBlock m env va post s₂ = .done r s' := by
      rw [← execBlock_cons hlast post, ← execBlock_append hpre, ← hleaf, hrun]
    rw [hkept r s' hpostrun]
    rw [← htrans] at h1
    rw [← hexit] at h2
    exact ⟨by rw [h1]; exact hsettles.number, by rw [h2]; exact hsettles.falsy,
      by rw [h2]; exact hsettles.exit⟩

end Values

section Examples

/-- Neither operation is called below. -/
local instance idleHost : Host where
  pow _ _ := .nan
  text _ := ""

def smallNumber (n : ℤ) (h : |n| ≤ 2^53) : Double := .finite n (Double.isDouble_int h)

def five : Double := smallNumber 5 (by norm_num)
def six : Double := smallNumber 6 (by norm_num)
def seven : Double := smallNumber 7 (by norm_num)

def oneThreshold : Threshold where
  value := 1
  representable := Double.isDouble_int (by norm_num)
  raw := "1"
  negated := false

theorem ordered_oneLeaf (body : List (Stmt Double)) (h : decision "Q" (childNode body) = none) :
    (DecisionTree.node oneThreshold (.leaf body h) (.leaf [] (decision_empty "Q"))).Ordered
      none none :=
  ⟨fun _ hl => (nomatch hl), fun _ hh => (nomatch hh), trivial, trivial⟩

/-- `if Q < 1 then <body> else end` -/
def oneLeafTree (body : List (Stmt Double)) (h : decision "Q" (childNode body) = none) :
    SearchTree "Q" where
  threshold := oneThreshold
  lower := .leaf body h
  upper := .leaf [] (decision_empty "Q")
  ordered := ordered_oneLeaf body h

theorem staysOpen_oneLeafTree (body : List (Stmt Double))
    (h : decision "Q" (childNode body) = none) :
    ∀ l ∈ (oneLeafTree body h).leaves, StaysOpen l := by
  have hsmall : |oneThreshold.value| ≤ 2^52 := by norm_num [oneThreshold]
  intro l hl
  apply staysOpen_of_small (SearchTree.properLeaf _ l hl)
  · intro t ht
    rcases List.mem_cons.mp hl with rfl | hl
    · cases ht
    · rw [List.mem_singleton.mp hl] at ht
      cases ht
      exact hsmall
  · intro t ht
    rcases List.mem_cons.mp hl with rfl | hl
    · cases ht
      exact hsmall
    · rw [List.mem_singleton.mp hl] at ht
      cases ht

theorem mem_oneLeafTree (body : List (Stmt Double)) (h : decision "Q" (childNode body) = none) :
    leafBlock "Q" ⟨none, some oneThreshold, body⟩ ∈
      (buildCFG "Q" (oneLeafTree body h).root none).blocks :=
  SearchTree.mem_buildCFG _ (staysOpen_oneLeafTree body h) List.mem_cons_self

def exampleMachine : Machine Double := machine (fun _ heap => .values heap []) 0

/-- `x = 5; x = y; Q = c and x or 7` -/
def staleLeaf : List (Stmt Double) :=
  [.assignmentStatement [.identifier "x"] [.numericLiteral five "5"],
   .assignmentStatement [.identifier "x"] [.identifier "y"],
   .assignmentStatement [.identifier "Q"] [.logicalExpression .or
      (.logicalExpression .and (.identifier "c") (.identifier "x")) (.numericLiteral seven "7")]]

def staleState : State Double := initialState (fun name =>
  if name = "y" then .number six else if name = "c" then .boolean true else .nil)

/-- The scan still takes `x` for five when the leaf reads six from it. -/
theorem stale_constant_not_covered :
    ∃ b ∈ (buildCFG "Q" (oneLeafTree staleLeaf rfl).root none).blocks, ∃ s',
      execBlock exampleMachine [] [] b.statements staleState = .done ([], .normal) s' ∧
      ¬ Covers exampleMachine [] [] "Q" b staleState (valueOf [] s' "Q") := by
  refine ⟨_, mem_oneLeafTree staleLeaf rfl, _, rfl, fun h => ?_⟩
  have hne5 : some five ≠ some six := by
    intro heq
    simp [five, six, smallNumber] at heq
  have hne7 : some seven ≠ some six := by
    intro heq
    simp [seven, six, smallNumber] at heq
  have htrans : (leafBlock "Q" ⟨none, some oneThreshold, staleLeaf⟩).stateTransitions =
      branchTransitions (.identifier "c") five seven := rfl
  have hnumber := h.number six rfl
  rw [htrans] at hnumber
  rcases hnumber with ⟨t, ht, hfollows⟩ | ⟨t, ht, hdynamic⟩
  · rcases List.mem_cons.mp ht with rfl | ht
    · exact hne5 hfollows.1
    · rw [List.mem_singleton.mp ht] at hfollows
      exact hne7 hfollows.1
  · rcases List.mem_cons.mp ht with rfl | ht
    · cases hdynamic
    · rw [List.mem_singleton.mp ht] at hdynamic
      cases hdynamic

/-- `true and x` -/
def guardedName : Expr Double := .logicalExpression .and (.booleanLiteral true) (.identifier "x")

/-- `true and (c and (true and x) or 7)` -/
def guardedTernary : Expr Double :=
  .logicalExpression .and (.booleanLiteral true) (.logicalExpression .or
    (.logicalExpression .and (.identifier "c") guardedName) (.numericLiteral seven "7"))

/-- `x = 5; Q = true and (c and (true and x) or 7)` -/
def ternaryLeaf : List (Stmt Double) :=
  [.assignmentStatement [.identifier "x"] [.numericLiteral five "5"],
   .assignmentStatement [.identifier "Q"] [guardedTernary]]

def fiveStored : State Double :=
  { staleState with globals := Function.update staleState.globals "x" (.number five) }

/-- The only name that a branch comes down to is `x`, which the first statement set. -/
theorem guardedTernary_current :
    TernaryCurrent exampleMachine [] [] guardedTernary fiveStored five seven := by
  intro l b c a t₀ t v t' hor hand hv
  cases hor with
  | pastAnd _ hrun hor =>
    cases hrun
    cases hor with
    | here =>
      cases hand with
      | pastAnd hl => cases hl
      | here =>
        cases hv
        rw [if_pos (by rfl)]
        intro name u hname
        cases hname with
        | pastAnd _ hrun hname =>
          cases hrun
          cases hname
          rfl
    | pastOr hl => cases hl

/-- A ternary behind a known left operand, over a remembered name and a numeral, is covered. -/
theorem ternary_covered :
    ∃ b ∈ (buildCFG "Q" (oneLeafTree ternaryLeaf rfl).root none).blocks, ∃ s',
      execBlock exampleMachine [] [] b.statements staleState = .done ([], .normal) s' ∧
      Covers exampleMachine [] [] "Q" b staleState (valueOf [] s' "Q") := by
  refine ⟨_, mem_oneLeafTree ternaryLeaf rfl, _, rfl, ?_⟩
  exact covers_of_tracked (mem_oneLeafTree ternaryLeaf rfl) rfl
    (.last [.assignmentStatement [.identifier "x"] [.numericLiteral five "5"]] [] guardedTernary
      [] fiveStored _ rfl rfl rfl (by simp) (fun r s' h => by cases h; rfl)
      (.ternary (.identifier "c") (.identifier "x") (.numericLiteral seven "7") five seven rfl rfl
        rfl guardedTernary_current rfl))

end Examples
end LuaRecovery.Cfg
