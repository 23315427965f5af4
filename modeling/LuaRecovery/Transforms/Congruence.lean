import LuaRecovery.Transforms.Correspondence
import LuaRecovery.Transforms.Inertness

/-!
# Each rewriting rule simulates

For each rule of the rewriting relation one lemma says that the rewritten node
simulates the node wherever its parts do.
-/

set_option autoImplicit false

namespace LuaRecovery.Transforms
open LuaRecovery.Lib LuaRecovery.Lua LuaRecovery.Evaluator

section Expressions
variable {N : Type} [LuaNumber N]

/-- Where two nodes are run: machines whose calls agree, and corresponding environments. -/
structure Related (w : Frozen N) (σ : Scope N) (m m' : Machine N) (env env' : Env) : Prop where
  machine : SameMachine Corresponds w m m'
  env : EnvRel w σ env env'

theorem Related.later {w w' : Frozen N} {σ : Scope N} {m m' : Machine N} {env env' : Env}
    (h : Related w σ m m' env env') (hw : w ≤ w') : Related w' σ m m' env env' :=
  ⟨h.machine.later hw, h.env.later hw⟩

/-- The first value agrees; all values do, unless the rewriting exposes more of them. -/
def SimExpr (σ : Scope N) (e e' : Expr N) : Prop :=
  ∀ w m m' env env', Related w σ m m' env env' → ∀ va test,
    Sim Corresponds Same w (one (eval m env va test e)) (one (eval m' env' va test e')) ∧
    (¬Exposes e e' → Sim Corresponds Same w (eval m env va test e) (eval m' env' va test e'))

/-- All values agree if they matter, else as many as there are expressions. -/
def SimArgs (multi : Bool) (σ : Scope N) (es es' : List (Expr N)) : Prop :=
  ∀ w m m' env env', Related w σ m m' env env' → ∀ va,
    Sim Corresponds (fun _ vs vs' => (multi = true → vs = vs') ∧ Agree es.length vs vs') w
      (evalList m env va es) (evalList m' env' va es')

def SimFields (σ : Scope N) (fs fs' : List (TableField N)) : Prop :=
  ∀ w m m' env env', Related w σ m m' env env' → ∀ va test position,
    Sim Corresponds Same w (evalFields m env va test position fs)
      (evalFields m' env' va test position fs')

variable {σ : Scope N}

theorem sim_args_same {es es' : List (Expr N)} (hes : SimArgs true σ es es') {w : Frozen N}
    {m m' : Machine N} {env env' : Env} (h : Related w σ m m' env env') (va : List (Value N)) :
    Sim Corresponds Same w (evalList m env va es) (evalList m' env' va es') :=
  (hes _ _ _ _ _ h va).conseq (fun _ _ _ _ hvs => hvs.1 rfl)

theorem sim_one {w : Frozen N} {p q : Run N (List (Value N))} (h : Sim Corresponds Same w p q) :
    Sim Corresponds Same w (one p) (one q) := sim_map_same first h

/-- Programs whose first values agree, compared by their first values. -/
theorem sim_of_one {w : Frozen N} {p q : Run N (List (Value N))}
    (h : Sim Corresponds Same w (one p) (one q)) :
    Sim Corresponds (fun _ vs vs' => first vs = first vs') w p q := by
  intro w₁ hw₁ s t hst
  have hends := h w₁ hw₁ s t hst
  rw [one, one, Prog.bind_apply, Prog.bind_apply] at hends
  generalize p s = x at hends
  generalize q t = y at hends
  cases x with
  | done vs s' => cases y with
    | done vs' t' => cases hends with
      | done hlater hstates hvalues => exact .done hlater hstates hvalues
    | raised e t' => cases hends
    | timeout t' => cases hends
  | raised e s' => cases y with
    | done vs' t' => cases hends
    | raised e' t' => cases hends with
      | raised hlater hstates => exact .raised hlater hstates
    | timeout t' => cases hends
  | timeout s' => cases y with
    | done vs' t' => cases hends
    | raised e t' => cases hends
    | timeout t' => cases hends with
      | timeout hlater hstates => exact .timeout hlater hstates

theorem simExpr_of_eval {e e' : Expr N}
    (h : ∀ w m m' env env', Related w σ m m' env env' → ∀ va test,
      Sim Corresponds Same w (eval m env va test e) (eval m' env' va test e')) :
    SimExpr σ e e' :=
  fun w m m' env env' hrel va test =>
    ⟨sim_one (h w m m' env env' hrel va test), fun _ => h w m m' env env' hrel va test⟩

/-- Where neither node yields several values, the first one is all there is. -/
theorem simExpr_of_one {e e' : Expr N} (he : e.isMulti = false)
    (h : ∀ w m m' env env', Related w σ m m' env env' → ∀ va test,
      Sim Corresponds Same w (one (eval m env va test e)) (one (eval m' env' va test e'))) :
    SimExpr σ e e' := by
  intro w m m' env env' hrel va test
  have hone := h w m m' env env' hrel va test
  refine ⟨hone, fun hexposes => ?_⟩
  have he' : e'.isMulti = false := by
    by_contra hmulti
    exact hexposes ⟨by simpa using hmulti, he⟩
  rw [← one_single (eval_single m env va test e he),
    ← one_single (eval_single m' env' va test e' he')]
  exact sim_map_same (fun v => [v]) hone

theorem simExpr_literal {e e' : Expr N} {v : Value N} (he : literalValue e = some v)
    (he' : literalValue e' = some v) : SimExpr σ e e' := by
  apply simExpr_of_eval
  intro w m m' env env' _ va test
  rw [eval_literal he, eval_literal he']
  exact sim_same

theorem simExpr_identifier {x : String} (hx : σ x ≠ .leaked) :
    SimExpr σ (.identifier x) (.identifier x) := by
  apply simExpr_of_eval
  intro w m m' env env' h va test
  rw [eval, eval]
  exact sim_map_same (fun v => [v]) (sim_readName h.env hx)

theorem simExpr_constant {x : String} {e e' : Expr N} (hx : σ x = .constant e)
    (he : literalValue e' = literalValue e) : SimExpr σ (.identifier x) e' := by
  apply simExpr_of_eval
  intro w m m' env env' h va test
  obtain ⟨v, hv, hread⟩ := sim_readName_constant h.env hx
  rw [eval, eval_literal (he.trans hv)]
  exact sim_map_same (fun v => [v]) hread

theorem simExpr_vararg {inParens : Bool} :
    SimExpr σ (.varargLiteral inParens) (.varargLiteral inParens) := by
  apply simExpr_of_eval
  intro w m m' env env' _ va test
  rw [eval, eval]
  exact sim_same

theorem simExpr_unary {op : UnaryOperator} {a a' : Expr N} (ha : SimExpr σ a a') :
    SimExpr σ (.unaryExpression op a) (.unaryExpression op a') := by
  apply simExpr_of_eval
  intro w m m' env env' h va test
  rw [eval, eval]
  apply sim_bind_same (ha _ _ _ _ _ h va _).1
  intro w₁ hw₁ v
  exact sim_map_same _ (sim_unaryOp lockstep_corresponds (h.later hw₁).machine op v)

theorem simExpr_foldUnary {op : UnaryOperator} {a a' e : Expr N} (ha : SimExpr σ a a')
    (he : evalUnary op a' = some e) (hinert : inert (op = .not) a' = true) :
    SimExpr σ (.unaryExpression op a) e := by
  apply simExpr_of_eval
  intro w m m' env env' h va test
  rw [eval]
  have hq := inert_shows m' env' va _ a' hinert
  -- the left side evaluates its operand where the right side has the result already
  have hresult : ∀ v, Shows a' v → ∃ u, literalValue e = some u ∧ unaryOp m op v = pure u := by
    intro v hv
    rcases evalUnary_value m he with ⟨x, u, hx, hu, hop⟩ | ⟨rfl, htruthy, rfl⟩
    · refine ⟨u, hu, ?_⟩
      rw [hv.1 x hx]
      exact funext hop
    · have htrue := hv.2 true htruthy
      refine ⟨.boolean false, rfl, ?_⟩
      rw [unaryOp, htrue]
      rfl
  apply Sim.bind_left (ha _ _ _ _ _ h va _).1 hq
  intro w₁ _ v v' hv hshows
  have heq : v = v' := hv
  obtain ⟨u, hu, hop⟩ := hresult v' hshows
  rw [heq, hop, eval_literal hu]
  exact sim_same

theorem simExpr_binary {op : BinaryOperator} {l l' r r' : Expr N} (hl : SimExpr σ l l')
    (hr : SimExpr σ r r') :
    SimExpr σ (.binaryExpression op l r) (.binaryExpression op l' r') := by
  apply simExpr_of_eval
  intro w m m' env env' h va test
  rw [eval, eval]
  apply sim_bind_same (hl _ _ _ _ _ h va false).1
  intro w₁ hw₁ a
  apply sim_bind_same (hr _ _ _ _ _ (h.later hw₁) va false).1
  intro w₂ hw₂ b
  have hm := (h.later (le_trans hw₁ hw₂)).machine
  exact sim_map_same _ (sim_binaryOp lockstep_corresponds hm op a b)

theorem simExpr_foldBinary {op : BinaryOperator} {l l' r r' e : Expr N} (hl : SimExpr σ l l')
    (hr : SimExpr σ r r') (he : evalBinary op l' r' = some e) :
    SimExpr σ (.binaryExpression op l r) e := by
  apply simExpr_of_eval
  intro w m m' env env' h va test
  obtain ⟨a, b, u, ha, hb, hu, hop⟩ := evalBinary_value m he
  have hbinary : binaryOp m op a b = pure u := funext hop
  have hleft := (hl _ _ _ _ _ h va false).1
  rw [eval_literal ha, one_pure] at hleft
  rw [eval, eval_literal hu]
  apply Sim.bind_left (P := fun v => v = a) hleft (fun _ => ⟨a, rfl, rfl⟩)
  intro w₁ hw₁ x x' hx hx'
  have hxa : x = a := Eq.trans hx hx'
  have hright := (hr _ _ _ _ _ (h.later hw₁) va false).1
  rw [eval_literal hb, one_pure] at hright
  apply Sim.bind_left (P := fun v => v = b) hright (fun _ => ⟨b, rfl, rfl⟩)
  intro w₂ hw₂ y y' hy hy'
  have hyb : y = b := Eq.trans hy hy'
  rw [hxa, hyb, hbinary]
  exact sim_same

theorem simExpr_logical {op : LogicalOperator} {l l' r r' : Expr N} (hl : SimExpr σ l l')
    (hr : SimExpr σ r r') :
    SimExpr σ (.logicalExpression op l r) (.logicalExpression op l' r') := by
  apply simExpr_of_eval
  intro w m m' env env' h va test
  cases op with
  | and =>
    rw [eval, eval]
    apply sim_bind_same (hl _ _ _ _ _ h va true).1
    intro w₁ hw₁ a
    by_cases ha : a.truthy = true
    · simp only [ha, if_true]
      exact sim_map_same _ (hr _ _ _ _ _ (h.later hw₁) va test).1
    · simp only [ha]
      exact sim_same
  | or =>
    rw [eval, eval]
    apply sim_bind_same (hl _ _ _ _ _ h va test).1
    intro w₁ hw₁ a
    by_cases ha : a.truthy = true
    · simp only [ha, if_true]
      exact sim_same
    · simp only [ha]
      exact sim_map_same _ (hr _ _ _ _ _ (h.later hw₁) va test).1

omit [LuaNumber N] in
/-- A falsy operand that is known to be one is a literal. -/
theorem literal_of_falsy {e : Expr N} (he : isStaticallyTruthy e = some false) :
    ∃ v, literalValue e = some v := by
  cases e with
  | booleanLiteral value => exact ⟨_, rfl⟩
  | nilLiteral => exact ⟨_, rfl⟩
  | _ => cases he

/-- A falsy operand runs the same whatever is asked of it. -/
theorem eval_of_falsy {e : Expr N} (he : isStaticallyTruthy e = some false) (m : Machine N)
    (env : Env) (va : List (Value N)) (test test' : Bool) :
    eval m env va test e = eval m env va test' e := by
  obtain ⟨v, hv⟩ := literal_of_falsy he
  rw [eval_literal hv, eval_literal hv]

theorem simExpr_keepLeft {op : LogicalOperator} {l l' r : Expr N} (hl : SimExpr σ l l')
    (hstop : isStaticallyTruthy l' = some (stopsAt op)) :
    SimExpr σ (.logicalExpression op l r) l' := by
  apply simExpr_of_one rfl
  intro w m m' env env' h va test
  have hyields : ∀ p : Run N (Value N), Yields (fun _ => True) p := fun _ _ _ _ _ => trivial
  rw [← Prog.bind_pure (one (eval m' env' va test l'))]
  cases op with
  | and =>
    rw [eval_of_falsy hstop m' env' va test true, eval, one_bind]
    apply Sim.bind ((hl _ _ _ _ _ h va true).1.strengthen (hyields _) (one_shows _ _ _ _ _))
    intro w₁ _ a b hab
    have heq : a = b := hab.1
    have hfalse : b.truthy = false := hab.2.2.2 _ hstop
    simp only [heq, hfalse]
    exact sim_same
  | or =>
    rw [eval, one_bind]
    apply Sim.bind ((hl _ _ _ _ _ h va test).1.strengthen (hyields _) (one_shows _ _ _ _ _))
    intro w₁ _ a b hab
    have heq : a = b := hab.1
    have htrue : b.truthy = true := hab.2.2.2 _ hstop
    simp only [heq, htrue, if_true]
    exact sim_same

theorem simExpr_keepRight {op : LogicalOperator} {l l' r r' : Expr N} (hl : SimExpr σ l l')
    (hr : SimExpr σ r r') (hgo : isStaticallyTruthy l' = some (!stopsAt op))
    (hinert : inert true l' = true) : SimExpr σ (.logicalExpression op l r) r' := by
  apply simExpr_of_one rfl
  intro w m m' env env' h va test
  have hshows := inert_shows m' env' va true l' hinert
  cases op with
  | and =>
    rw [eval, one_bind]
    apply Sim.bind_left (hl _ _ _ _ _ h va true).1 hshows
    intro w₁ hw₁ a b hab hb
    have heq : a = b := hab
    have htrue : b.truthy = true := hb.2 _ hgo
    simp only [heq, htrue, if_true]
    rw [one_return]
    exact (hr _ _ _ _ _ (h.later hw₁) va test).1
  | or =>
    have hleft := (hl _ _ _ _ _ h va test).1
    rw [eval_of_falsy hgo m' env' va test true] at hleft
    rw [eval, one_bind]
    apply Sim.bind_left hleft hshows
    intro w₁ hw₁ a b hab hb
    have heq : a = b := hab
    have hfalse : b.truthy = false := hb.2 _ hgo
    simp only [heq, hfalse]
    exact (one_return _).symm ▸ (hr _ _ _ _ _ (h.later hw₁) va test).1

theorem simExpr_call {base base' : Expr N} {args args' : List (Expr N)} {inParens : Bool}
    (hbase : SimExpr σ base base') (hargs : SimArgs true σ args args') :
    SimExpr σ (.callExpression base args inParens) (.callExpression base' args' inParens) := by
  apply simExpr_of_eval
  intro w m m' env env' h va test
  rw [eval, eval]
  apply sim_bind_same (hbase _ _ _ _ _ h va false).1
  intro w₁ hw₁ f
  apply sim_bind_same (sim_args_same hargs (h.later hw₁) va)
  intro w₂ hw₂ vs
  have hm := (h.later (le_trans hw₁ hw₂)).machine
  exact sim_map_same _ (sim_apply lockstep_corresponds hm f vs)

theorem sim_nameKey {w : Frozen N} (e : Expr N) :
    Sim Corresponds Same w (nameKey e) (nameKey e) := by
  rw [nameKey]
  cases e.name? with
  | some name => exact sim_same
  | none => exact sim_malformed

theorem simExpr_methodCall {base base' method : Expr N} {args args' : List (Expr N)}
    {inParens : Bool} (hbase : SimExpr σ base base') (hargs : SimArgs true σ args args') :
    SimExpr σ (.methodCallExpression base method args inParens)
      (.methodCallExpression base' method args' inParens) := by
  apply simExpr_of_eval
  intro w m m' env env' h va test
  rw [eval, eval]
  apply sim_bind_same (hbase _ _ _ _ _ h va false).1
  intro w₁ hw₁ o
  apply sim_bind_same (sim_nameKey method)
  intro w₂ hw₂ k
  have h₂ := h.later (le_trans hw₁ hw₂)
  apply sim_bind_same (sim_indexValue lockstep_corresponds h₂.machine o k)
  intro w₃ hw₃ f
  apply sim_bind_same (sim_args_same hargs (h₂.later hw₃) va)
  intro w₄ hw₄ vs
  have hm := (h₂.later (le_trans hw₃ hw₄)).machine
  exact sim_map_same _ (sim_apply lockstep_corresponds hm f (o::vs))

theorem simExpr_member {base base' property : Expr N} (hbase : SimExpr σ base base') :
    SimExpr σ (.memberExpression base property) (.memberExpression base' property) := by
  apply simExpr_of_eval
  intro w m m' env env' h va test
  rw [eval, eval]
  apply sim_bind_same (hbase _ _ _ _ _ h va false).1
  intro w₁ hw₁ o
  apply sim_bind_same (sim_nameKey property)
  intro w₂ hw₂ k
  have hm := (h.later (le_trans hw₁ hw₂)).machine
  exact sim_map_same _ (sim_indexValue lockstep_corresponds hm o k)

theorem simExpr_index {base base' i i' : Expr N} (hbase : SimExpr σ base base')
    (hi : SimExpr σ i i') : SimExpr σ (.indexExpression base i) (.indexExpression base' i') := by
  apply simExpr_of_eval
  intro w m m' env env' h va test
  rw [eval, eval]
  apply sim_bind_same (hbase _ _ _ _ _ h va false).1
  intro w₁ hw₁ o
  apply sim_bind_same (hi _ _ _ _ _ (h.later hw₁) va false).1
  intro w₂ hw₂ k
  have hm := (h.later (le_trans hw₁ hw₂)).machine
  exact sim_map_same _ (sim_indexValue lockstep_corresponds hm o k)

theorem simExpr_function {σ' : Scope N} {exits : List (Scope N)} {params : List (Expr N)}
    {isVararg : Bool} {body body' : List (Stmt N)}
    (hbody : RewritesBlock exits (bindAll σ params) σ' body body') :
    SimExpr σ (.functionExpression params isVararg body)
      (.functionExpression params isVararg body') := by
  apply simExpr_of_eval
  intro w m m' env env' h va test
  rw [eval, eval]
  apply sim_map_same (fun v => [v])
  cases test with
  | true => exact sim_same
  | false => exact sim_newClosure ⟨rfl, rfl, exits, σ, σ', h.env, hbody⟩

theorem sim_newTable {w : Frozen N} (entries : List (Value N × Value N)) :
    Sim Corresponds Same w (newTable entries) (newTable entries) := by
  intro w' _ s t hst
  have hnext : s.heap.next = t.heap.next := by rw [hst.heap]
  refine .done (le_refl w') ?_ (congrArg Value.table hnext)
  exact { hst with heap := by rw [hst.heap] }

theorem simExpr_table {fields fields' : List (TableField N)} (hfields : SimFields σ fields fields') :
    SimExpr σ (.tableConstructor fields) (.tableConstructor fields') := by
  apply simExpr_of_eval
  intro w m m' env env' h va test
  rw [eval, eval]
  apply sim_bind_same (hfields _ _ _ _ _ h va test 1)
  intro w₁ _ entries
  apply sim_map_same (fun v => [v])
  cases test with
  | true => exact sim_same
  | false => exact sim_newTable _

theorem simArgs_nil {multi : Bool} : SimArgs multi σ [] [] := by
  intro w m m' env env' _ va
  rw [evalList, evalList]
  exact Sim.pure (fun _ _ => ⟨fun _ => rfl, Agree.refl _ _⟩)

/-- One expression: its first value agrees, and all of them where they matter. -/
theorem simArgs_last {multi : Bool} {e e' : Expr N} (he : SimExpr σ e e')
    (hexposes : multi = true → ¬Exposes e e') : SimArgs multi σ [e] [e'] := by
  intro w m m' env env' h va
  have hsim := he _ _ _ _ _ h va false
  rw [evalList, evalList]
  cases multi with
  | true =>
    apply (hsim.2 (hexposes rfl)).conseq
    intro _ _ vs vs' hvs
    have heq : vs = vs' := hvs
    rw [heq]
    exact ⟨fun _ => rfl, Agree.refl _ _⟩
  | false =>
    apply (sim_of_one hsim.1).conseq
    intro _ _ vs vs' hvs
    refine ⟨fun hmulti => Bool.noConfusion hmulti, fun i hi => ?_⟩
    have hzero : i = 0 := Nat.lt_one_iff.mp hi
    rw [hzero]
    exact hvs

theorem simArgs_cons {multi : Bool} {e e' f f' : Expr N} {es es' : List (Expr N)}
    (he : SimExpr σ e e') (hes : SimArgs multi σ (f::es) (f'::es')) :
    SimArgs multi σ (e::f::es) (e'::f'::es') := by
  intro w m m' env env' h va
  rw [evalList, evalList]
  apply sim_bind_same (he _ _ _ _ _ h va false).1
  intro w₁ hw₁ v
  apply Sim.bind (hes _ _ _ _ _ (h.later hw₁) va)
  intro w₂ _ vs vs' hvs
  apply Sim.pure
  intro w₃ _
  refine ⟨fun hmulti => by rw [hvs.1 hmulti], fun i hi => ?_⟩
  cases i with
  | zero => rfl
  | succ i => exact hvs.2 i (Nat.lt_of_succ_lt_succ hi)

theorem simFields_nil : SimFields σ [] [] := by
  intro w m m' env env' _ va test position
  rw [evalFields, evalFields]
  exact sim_same

theorem simFields_last {e e' : Expr N} (he : SimExpr σ e e') (hexposes : ¬Exposes e e') :
    SimFields σ [.tableValue e] [.tableValue e'] := by
  intro w m m' env env' h va test position
  rw [evalFields, evalFields]
  exact sim_map_same _ ((he _ _ _ _ _ h va test).2 hexposes)

theorem simFields_value {e e' : Expr N} {f f' : TableField N} {fs fs' : List (TableField N)}
    (he : SimExpr σ e e') (hfs : SimFields σ (f::fs) (f'::fs')) :
    SimFields σ (.tableValue e :: f :: fs) (.tableValue e' :: f' :: fs') := by
  intro w m m' env env' h va test position
  rw [evalFields, evalFields]
  apply sim_bind_same (he _ _ _ _ _ h va test).1
  intro w₁ hw₁ v
  exact sim_map_same _ (hfs _ _ _ _ _ (h.later hw₁) va test _)

theorem simFields_key {k k' v v' : Expr N} {fs fs' : List (TableField N)} (hk : SimExpr σ k k')
    (hv : SimExpr σ v v') (hfs : SimFields σ fs fs') :
    SimFields σ (.tableKey k v :: fs) (.tableKey k' v' :: fs') := by
  intro w m m' env env' h va test position
  rw [evalFields, evalFields]
  apply sim_bind_same (hk _ _ _ _ _ h va test).1
  intro w₁ hw₁ key
  apply sim_bind_same (hv _ _ _ _ _ (h.later hw₁) va test).1
  intro w₂ hw₂ value
  have hentry : Sim Corresponds Same w₂ (fieldEntry key value) (fieldEntry key value) := by
    rw [fieldEntry]
    by_cases hkey : validKey key = true
    · rw [if_pos hkey]
      exact sim_same
    · rw [if_neg hkey]
      exact Sim.raise key
  apply sim_bind_same hentry
  intro w₃ hw₃ entry
  have h₃ := h.later (le_trans hw₁ (le_trans hw₂ hw₃))
  exact sim_map_same _ (hfs _ _ _ _ _ h₃ va test _)

theorem simFields_keyString {k v v' : Expr N} {fs fs' : List (TableField N)}
    (hv : SimExpr σ v v') (hfs : SimFields σ fs fs') :
    SimFields σ (.tableKeyString k v :: fs) (.tableKeyString k v' :: fs') := by
  intro w m m' env env' h va test position
  rw [evalFields, evalFields]
  apply sim_bind_same (sim_nameKey k)
  intro w₁ hw₁ key
  apply sim_bind_same (hv _ _ _ _ _ (h.later hw₁) va test).1
  intro w₂ hw₂ value
  exact sim_map_same _ (hfs _ _ _ _ _ (h.later (le_trans hw₁ hw₂)) va test _)

end Expressions
end LuaRecovery.Transforms
