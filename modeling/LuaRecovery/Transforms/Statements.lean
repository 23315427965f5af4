import LuaRecovery.Transforms.Congruence

/-!
# Rewritten statements simulate

The rules for statements and blocks. A statement ends alike on both sides; the
environments it leaves correspond in the scope after it, and where it ends in a
`continue`, in one of the scopes that the enclosing loop accounts for.
-/

set_option autoImplicit false

namespace LuaRecovery.Transforms
open LuaRecovery.Lib LuaRecovery.Lua LuaRecovery.Evaluator

section Declarations
variable {N : Type} [LuaNumber N]

omit [LuaNumber N] in
theorem declares_bindAll (σ : Scope N) (vars init : List (Expr N)) :
    Declares σ vars init (bindAll σ vars) := by
  induction vars generalizing σ init with
  | nil => exact .nil
  | cons x xs ih =>
    rw [bindAll]
    cases hx : x.name? with
    | some name => exact .unknown hx (ih _ _)
    | none => exact .malformed hx

/-- Wherever an expression is a literal, the value at its place is the literal's. -/
def Literals (init : List (Expr N)) (vs : List (Value N)) : Prop :=
  ∀ i e v, init[i]? = some e → literalValue e = some v → first (vs.drop i) = v

omit [LuaNumber N] in
theorem Literals.tail {init : List (Expr N)} {vs : List (Value N)} (h : Literals init vs) :
    Literals init.tail vs.tail := by
  intro i e v he hv
  have hget : init[i+1]? = some e := by rwa [← List.getElem?_tail]
  have hnext := h (i+1) e v hget hv
  rwa [← List.drop_one, List.drop_drop, Nat.add_comm 1 i]

theorem literals_evalList (m : Machine N) (env : Env) (va : List (Value N)) :
    ∀ es : List (Expr N), Yields (Literals es) (evalList m env va es) := by
  intro es
  induction es with
  | nil => exact Yields.pure (fun i e v he => by simp at he)
  | cons e es ih =>
    cases es with
    | nil =>
      intro s vs s' h i x v hx hv
      cases i with
      | zero =>
        cases hx
        rw [evalList, eval_literal hv] at h
        cases h
        rfl
      | succ i => simp at hx
    | cons f es =>
      intro s vs s' h
      rw [evalList] at h
      obtain ⟨u, s₁, hu, h⟩ := Prog.bind_eq_done.mp h
      obtain ⟨us, s₂, hus, h⟩ := Prog.bind_eq_done.mp h
      cases h
      intro i x v hx hv
      cases i with
      | zero =>
        cases hx
        rw [eval_literal hv, one_pure] at hu
        cases hu
        rfl
      | succ i => exact ih s₁ us _ hus i x v hx hv

theorem sim_declare {σ σ' : Scope N} {vars init : List (Expr N)} (h : Declares σ vars init σ') :
    ∀ (w : Frozen N) (env env' : Env) (vs vs' : List (Value N)), EnvRel w σ env env' →
      Agree vars.length vs vs' → Literals init vs' →
      Sim Corresponds (fun w e e' => EnvRel w σ' e e') w (declare env vars vs)
        (declare env' vars vs') := by
  induction h with
  | nil =>
    intro w env env' vs vs' henv _ _
    rw [declare, declare]
    exact Sim.pure (fun w' hw' => henv.later hw')
  | unknown hx rest ih =>
    intro w env env' vs vs' henv hvs hlit
    rw [declare, declare, hx, hvs.first]
    apply Sim.bind (sim_newCell (first vs') .unknown (by simp) (by simp))
    intro w₁ hw₁ a a' ha
    rw [ha.1]
    exact ih w₁ _ _ _ _ ((henv.later hw₁).bind (ha.1 ▸ ha.2)) hvs.tail hlit.tail
  | @constant σ σ' x e xs init name hx he rest ih =>
    intro w env env' vs vs' henv hvs hlit
    have hvalue : ∀ e', Status.constant e = .constant e' →
        literalValue e' = some (first vs') := by
      intro e' heq
      cases heq
      obtain ⟨v, hv⟩ := Option.isSome_iff_exists.mp he
      rw [hv, show first vs' = v from hlit 0 e v rfl hv]
    rw [declare, declare, hx, hvs.first]
    apply Sim.bind (sim_newCell (first vs') (.constant e) (by simp) hvalue)
    intro w₁ hw₁ a a' ha
    rw [ha.1]
    exact ih w₁ _ _ _ _ ((henv.later hw₁).bind (ha.1 ▸ ha.2)) hvs.tail hlit.tail
  | malformed hx =>
    intro w env env' vs vs' _ _ _
    rw [declare, declare, hx]
    exact Sim.raise _

/-- Binding parameters or loop variables to the same values. -/
theorem sim_declare_bindAll {σ : Scope N} {w : Frozen N} {env env' : Env} (vars : List (Expr N))
    (vs : List (Value N)) (henv : EnvRel w σ env env') :
    Sim Corresponds (fun w e e' => EnvRel w (bindAll σ vars) e e') w (declare env vars vs)
      (declare env' vars vs) :=
  sim_declare (declares_bindAll σ vars []) w env env' vs vs henv (Agree.refl _ _)
    (fun i e v he => by simp at he)

end Declarations

section Assignments
variable {N : Type} [LuaNumber N] {σ : Scope N}

/-- The same targets, none of them a constant. -/
def SimTargets (σ : Scope N) (es es' : List (Expr N)) : Prop :=
  ∀ w m m' env env', Related w σ m m' env env' → ∀ va,
    Sim Corresponds (fun _ ts ts' => ts = ts' ∧ ts.length = es.length ∧
      ∀ x, Target.name x ∈ ts → σ x = .unknown) w (targetsOf m env va es) (targetsOf m' env' va es')

theorem simTargets_nil : SimTargets σ [] [] := by
  intro w m m' env env' _ va
  rw [targetsOf, targetsOf]
  exact Sim.pure (fun _ _ => ⟨rfl, rfl, by simp⟩)

/-- One more target: the same one on both sides, and no constant. -/
theorem simTargets_cons {e e' : Expr N} {es es' : List (Expr N)}
    (he : ∀ w m m' env env', Related w σ m m' env env' → ∀ va,
      Sim Corresponds (fun _ t t' => t = t' ∧ ∀ x, t = .name x → σ x = .unknown) w
        (targetOf m env va e) (targetOf m' env' va e'))
    (hes : SimTargets σ es es') : SimTargets σ (e::es) (e'::es') := by
  intro w m m' env env' h va
  rw [targetsOf, targetsOf]
  apply Sim.bind (he _ _ _ _ _ h va)
  intro w₁ hw₁ t t' ht
  apply Sim.bind (hes _ _ _ _ _ (h.later hw₁) va)
  intro w₂ _ ts ts' hts
  apply Sim.pure
  intro w₃ _
  refine ⟨by rw [ht.1, hts.1], by simp [hts.2.1], fun x hx => ?_⟩
  cases List.mem_cons.mp hx with
  | inl heq => exact ht.2 x heq.symm
  | inr hmem => exact hts.2.2 x hmem

theorem simTargets_name {x : String} {es es' : List (Expr N)} (hx : σ x = .unknown)
    (hes : SimTargets σ es es') :
    SimTargets σ (.identifier x :: es) (.identifier x :: es') := by
  apply simTargets_cons _ hes
  intro w m m' env env' _ va
  rw [targetOf, targetOf]
  apply Sim.pure
  intro _ _
  refine ⟨rfl, fun y hy => ?_⟩
  cases hy
  exact hx

/-- A slot of an object is no name. -/
theorem sim_slot {w : Frozen N} (o k : Value N) :
    Sim Corresponds (fun _ t t' => t = t' ∧ ∀ x, t = Target.name x → σ x = .unknown) w
      (pure (.slot o k) : Run N (Target N)) (pure (.slot o k)) :=
  Sim.pure (fun _ _ => ⟨rfl, fun x hx => by cases hx⟩)

theorem simTargets_member {base base' property : Expr N} {es es' : List (Expr N)}
    (hbase : SimExpr σ base base') (hes : SimTargets σ es es') :
    SimTargets σ (.memberExpression base property :: es)
      (.memberExpression base' property :: es') := by
  apply simTargets_cons _ hes
  intro w m m' env env' h va
  rw [targetOf, targetOf]
  apply sim_bind_same (hbase _ _ _ _ _ h va false).1
  intro w₁ _ o
  exact sim_bind_same (sim_nameKey property) (fun _ _ k => sim_slot o k)

theorem simTargets_index {base base' i i' : Expr N} {es es' : List (Expr N)}
    (hbase : SimExpr σ base base') (hi : SimExpr σ i i') (hes : SimTargets σ es es') :
    SimTargets σ (.indexExpression base i :: es) (.indexExpression base' i' :: es') := by
  apply simTargets_cons _ hes
  intro w m m' env env' h va
  rw [targetOf, targetOf]
  apply sim_bind_same (hbase _ _ _ _ _ h va false).1
  intro w₁ hw₁ o
  exact sim_bind_same (hi _ _ _ _ _ (h.later hw₁) va false).1 (fun _ _ k => sim_slot o k)

omit [LuaNumber N] in
theorem targetOf_malformed [LuaNumber N] {e : Expr N} (he : isLvalue e = false) (m : Machine N)
    (env : Env) (va : List (Value N)) : targetOf m env va e = malformed := by
  cases e <;> first | rfl | cases he

theorem simTargets_malformed {e e' : Expr N} {es es' : List (Expr N)} (he : isLvalue e = false)
    (he' : isLvalue e' = false) : SimTargets σ (e::es) (e'::es') := by
  intro w m m' env env' _ va
  rw [targetsOf, targetsOf, targetOf_malformed he, targetOf_malformed he']
  exact Sim.raise _

theorem sim_store {w : Frozen N} {m m' : Machine N} {env env' : Env}
    (h : Related w σ m m' env env') (t : Target N) (ht : ∀ x, t = .name x → σ x = .unknown)
    (v : Value N) : Sim Corresponds Same w (store m env t v) (store m' env' t v) := by
  cases t with
  | name x => exact sim_store_name v h.env (ht x rfl)
  | slot o k => exact sim_setIndexValue lockstep_corresponds h.machine o k v

theorem sim_storeAll {m m' : Machine N} {env env' : Env} (ts : List (Target N)) :
    ∀ (w : Frozen N) (vs vs' : List (Value N)), Related w σ m m' env env' →
      (∀ x, Target.name x ∈ ts → σ x = .unknown) → Agree ts.length vs vs' →
      Sim Corresponds Same w (storeAll m env ts vs) (storeAll m' env' ts vs') := by
  induction ts with
  | nil =>
    intro w vs vs' _ _ _
    rw [storeAll, storeAll]
    exact sim_same
  | cons t ts ih =>
    intro w vs vs' h hts hvs
    rw [storeAll, storeAll, hvs.first]
    apply sim_bind_same (ih w _ _ h (fun x hx => hts x (List.mem_cons_of_mem _ hx)) hvs.tail)
    intro w₁ hw₁ _
    exact sim_store (h.later hw₁) t (fun x hx => hts x (by simp [hx])) _

theorem sim_followPath {w : Frozen N} {m m' : Machine N} (hm : SameMachine Corresponds w m m')
    (path : List String) (o : Value N) :
    Sim Corresponds Same w (followPath m o path) (followPath m' o path) := by
  induction path generalizing w o with
  | nil => exact sim_same
  | cons p ps ih =>
    rw [followPath, followPath]
    apply sim_bind_same (sim_indexValue lockstep_corresponds hm o _)
    intro w₁ hw₁ o'
    exact ih (hm.later hw₁) o'

theorem sim_storeFunction {w : Frozen N} {m m' : Machine N} {env env' : Env}
    (h : Related w σ m m' env env') {root : String} {path : List String} (f : Value N)
    (hroot : σ root ≠ .leaked ∧ (path = [] → σ root = .unknown)) :
    Sim Corresponds Same w (storeFunction m env root path f)
      (storeFunction m' env' root path f) := by
  rw [storeFunction, storeFunction]
  cases hlast : path.getLast? with
  | none => exact sim_store_name f h.env (hroot.2 (List.getLast?_eq_none_iff.mp hlast))
  | some key =>
    apply sim_bind_same (sim_readName h.env hroot.1)
    intro w₁ hw₁ o
    apply sim_bind_same (sim_followPath (h.later hw₁).machine _ o)
    intro w₂ hw₂ o'
    have hm := (h.later (le_trans hw₁ hw₂)).machine
    exact sim_setIndexValue lockstep_corresponds hm o' _ f

end Assignments

section Exits
variable {N : Type} [LuaNumber N] {exits inner : List (Scope N)} {σ σ' σ₁ σ₂ : Scope N}

/-- How a statement may end: alike, with environments that correspond where they are used. -/
structure ExitRel (exits : List (Scope N)) (σ' : Scope N) (w : Frozen N)
    (r r' : Env × Signal N) : Prop where
  signal : r.2 = r'.2
  normal : r.2 = .normal → EnvRel w σ' r.1 r'.1
  continued : r.2 = .continued → ∃ τ ∈ exits, EnvRel w τ r.1 r'.1

def SimStmt (exits : List (Scope N)) (σ σ' : Scope N) (s s' : Stmt N) : Prop :=
  ∀ w m m' env env', Related w σ m m' env env' → ∀ va,
    Sim Corresponds (ExitRel exits σ') w (exec m env va s) (exec m' env' va s')

def SimBlock (exits : List (Scope N)) (σ σ' : Scope N) (ss ss' : Block N) : Prop :=
  ∀ w m m' env env', Related w σ m m' env env' → ∀ va,
    Sim Corresponds (ExitRel exits σ') w (execBlock m env va ss) (execBlock m' env' va ss')

/-- The signal of a clause, which can be `continue` only if some scope allows it. -/
def SimClauses (exits : List (Scope N)) (σ : Scope N) (cs cs' : List (IfClause N)) : Prop :=
  ∀ w m m' env env', Related w σ m m' env env' → ∀ va,
    Sim Corresponds (fun _ o o' => o = o' ∧ (o = some .continued → exits ≠ [])) w
      (execClauses m env va cs) (execClauses m' env' va cs')

def SimElse (exits : List (Scope N)) (σ : Scope N) :
    Option (List (Stmt N)) → Option (List (Stmt N)) → Prop
  | none, none => True
  | some body, some body' => ∃ σ', SimBlock exits σ σ' body body'
  | _, _ => False

omit [LuaNumber N] in
/-- A statement that keeps its environment, ending in a given signal. -/
theorem ExitRel.keep {w : Frozen N} {env env' : Env} {sig : Signal N} (henv : EnvRel w σ env env')
    (hsig : sig = .continued → σ ∈ exits) : ExitRel exits σ w (env, sig) (env', sig) :=
  ⟨rfl, fun _ => henv, fun hc => ⟨σ, hsig hc, henv⟩⟩

omit [LuaNumber N] in
theorem ExitRel.exits_ne_nil {w : Frozen N} {r r' : Env × Signal N} (h : ExitRel exits σ' w r r')
    (hc : r.2 = .continued) : exits ≠ [] := by
  obtain ⟨τ, hτ, -⟩ := h.continued hc
  exact List.ne_nil_of_mem hτ

/-- A step that keeps the environment, and then an ordinary end. -/
theorem sim_then_normal {α : Type} {w : Frozen N} {m m' : Machine N} {env env' : Env}
    {p q : Run N α} (h : Related w σ m m' env env') (hp : Sim Corresponds Same w p q) :
    Sim Corresponds (ExitRel exits σ) w (do let _ ← p; pure (env, .normal))
      (do let _ ← q; pure (env', .normal)) := by
  apply sim_bind_same hp
  intro w₁ hw₁ _
  exact Sim.pure (fun w₂ hw₂ =>
    ExitRel.keep ((h.later (le_trans hw₁ hw₂)).env) (fun hc => by cases hc))

omit [LuaNumber N] in
theorem agree_of_args {multi : Bool} {n k : ℕ} {vs vs' : List (Value N)}
    (h : (multi = true → vs = vs') ∧ Agree n vs vs') (hk : multi = false → k ≤ n) :
    Agree k vs vs' := by
  cases multi with
  | true =>
    rw [h.1 rfl]
    exact Agree.refl _ _
  | false => exact h.2.mono (hk rfl)

theorem simStmt_local {vars init init' : List (Expr N)}
    (hinit : SimArgs (decide (init.length < vars.length)) σ init init')
    (hdeclares : Declares σ vars init' σ') :
    SimStmt exits σ σ' (.localStatement vars init) (.localStatement vars init') := by
  intro w m m' env env' h va
  rw [exec, exec]
  have hany : Yields (fun _ => True) (evalList m env va init) := fun _ _ _ _ => trivial
  apply Sim.bind ((hinit _ _ _ _ _ h va).strengthen hany (literals_evalList m' env' va init'))
  intro w₁ hw₁ vs vs' hvs
  have hagree : Agree vars.length vs vs' := agree_of_args hvs.1 (by simp)
  apply Sim.bind (sim_declare hdeclares w₁ _ _ _ _ (h.later hw₁).env hagree hvs.2.2)
  intro w₂ hw₂ e e' he
  exact Sim.pure (fun w₃ hw₃ => ⟨rfl, fun _ => he.later hw₃, fun hc => by cases hc⟩)

theorem simStmt_assignment {vars vars' init init' : List (Expr N)}
    (hvars : SimTargets σ vars vars')
    (hinit : SimArgs (decide (init.length < vars.length)) σ init init') :
    SimStmt exits σ σ (.assignmentStatement vars init) (.assignmentStatement vars' init') := by
  intro w m m' env env' h va
  rw [exec, exec]
  apply Sim.bind (hvars _ _ _ _ _ h va)
  intro w₁ hw₁ ts ts' hts
  apply Sim.bind (hinit _ _ _ _ _ (h.later hw₁) va)
  intro w₂ hw₂ vs vs' hvs
  have h₂ := h.later (le_trans hw₁ hw₂)
  have hagree : Agree ts.length vs vs' := agree_of_args hvs (by simp [hts.2.1])
  rw [← hts.1]
  exact sim_then_normal h₂ (sim_storeAll ts w₂ vs vs' h₂ hts.2.2 hagree)

theorem simStmt_localFunction {identifier : Expr N} {params : List (Expr N)} {isVararg : Bool}
    {body body' : List (Stmt N)}
    (hbody : RewritesBlock inner (bindAll (bindAll σ [identifier]) params) σ' body body') :
    SimStmt exits σ (bindAll σ [identifier])
      (.localFunctionStatement identifier params isVararg body)
      (.localFunctionStatement identifier params isVararg body') := by
  intro w m m' env env' h va
  rw [exec, exec]
  apply Sim.bind (sim_declare_bindAll [identifier] [] h.env)
  intro w₁ hw₁ e e' he
  have hclosure : Sim Corresponds Same w₁ (newClosure ⟨params, isVararg, body, e⟩)
      (newClosure ⟨params, isVararg, body', e'⟩) :=
    sim_newClosure ⟨rfl, rfl, inner, _, σ', he, hbody⟩
  apply sim_bind_same hclosure
  intro w₂ hw₂ f
  cases hname : identifier.name? with
  | none => exact Sim.raise _
  | some name =>
    have hunknown : bindAll σ [identifier] name = .unknown := by
      rw [bindAll, hname, bindAll]
      exact Function.update_self _ _ _
    have h₂ : Related w₂ (bindAll σ [identifier]) m m' e e' :=
      ⟨h.machine.later (le_trans hw₁ hw₂), he.later hw₂⟩
    exact sim_then_normal h₂ (sim_store_name f h₂.env hunknown)

theorem simStmt_function {name : Expr N} {params : List (Expr N)} {isVararg isMethod : Bool}
    {body body' : List (Stmt N)}
    (hname : ∀ root path, functionName name = some (root, path) →
      σ root ≠ .leaked ∧ (path = [] → σ root = .unknown))
    (hbody : RewritesBlock inner
      (bindAll σ (if isMethod then .identifier "self" :: params else params)) σ' body body') :
    SimStmt exits σ σ (.functionDeclaration name params isVararg body isMethod)
      (.functionDeclaration name params isVararg body' isMethod) := by
  intro w m m' env env' h va
  rw [exec, exec]
  cases hpath : functionName name with
  | none => exact Sim.raise _
  | some rp =>
    obtain ⟨root, path⟩ := rp
    let ps := if isMethod then .identifier "self" :: params else params
    have hclosure : Sim Corresponds Same w (newClosure ⟨ps, isVararg, body, env⟩)
        (newClosure ⟨ps, isVararg, body', env'⟩) :=
      sim_newClosure ⟨rfl, rfl, inner, σ, σ', h.env, hbody⟩
    apply sim_bind_same hclosure
    intro w₁ hw₁ f
    exact sim_then_normal (h.later hw₁) (sim_storeFunction (h.later hw₁) f (hname root path hpath))

theorem simStmt_call {e e' : Expr N} (he : SimExpr σ e e') :
    SimStmt exits σ σ (.callStatement e) (.callStatement e') := by
  intro w m m' env env' h va
  rw [exec, exec]
  apply Sim.bind (sim_of_one (he _ _ _ _ _ h va false).1)
  intro w₁ hw₁ _ _ _
  exact Sim.pure (fun w₂ hw₂ =>
    ExitRel.keep ((h.later (le_trans hw₁ hw₂)).env) (fun hc => by cases hc))

/-- What follows the clauses of an `if`. -/
theorem sim_after_clauses {w : Frozen N} {m m' : Machine N} {env env' : Env}
    {els els' : Option (List (Stmt N))} {o o' : Option (Signal N)} (va : List (Value N)) :
    (inner = [] ∨ σ ∈ exits) → Related w σ m m' env env' → SimElse inner σ els els' →
    (o = o' ∧ (o = some .continued → inner ≠ [])) →
    Sim Corresponds (ExitRel exits σ) w
      (match o with
        | some sig => pure (env, sig)
        | none => match els with
            | none => pure (env, .normal)
            | some body => do
                let r ← execBlock m env va body
                pure (env, r.2))
      (match o' with
        | some sig => pure (env', sig)
        | none => match els' with
            | none => pure (env', .normal)
            | some body => do
                let r ← execBlock m' env' va body
                pure (env', r.2)) := by
  intro hinner h hels ho
  obtain ⟨heq, hcont⟩ := ho
  have hexit : inner ≠ [] → σ ∈ exits := fun hne => hinner.resolve_left hne
  subst heq
  cases o with
  | some sig =>
    exact Sim.pure (fun w₁ hw₁ => ExitRel.keep (h.later hw₁).env
      (fun hc => hexit (hcont (by rw [hc]))))
  | none =>
    cases els with
    | none => cases els' with
      | none => exact Sim.pure (fun w₁ hw₁ => ExitRel.keep (h.later hw₁).env (fun hc => by cases hc))
      | some body' => exact hels.elim
    | some body => cases els' with
      | none => exact hels.elim
      | some body' =>
        obtain ⟨σ', hbody⟩ := hels
        apply Sim.bind (hbody _ _ _ _ _ h va)
        intro w₁ hw₁ r r' hr
        rw [← hr.signal]
        exact Sim.pure (fun w₂ hw₂ => ExitRel.keep (h.later (le_trans hw₁ hw₂)).env
          (fun hc => hexit (hr.exits_ne_nil hc)))

theorem simStmt_if {cs cs' : List (IfClause N)} {els els' : Option (List (Stmt N))}
    (hinner : inner = [] ∨ σ ∈ exits) (hcs : SimClauses inner σ cs cs')
    (hels : SimElse inner σ els els') :
    SimStmt exits σ σ (.ifStatement cs els) (.ifStatement cs' els') := by
  intro w m m' env env' h va
  rw [exec_if, exec_if]
  apply Sim.bind (hcs _ _ _ _ _ h va)
  intro w₁ hw₁ o o' ho
  exact sim_after_clauses va hinner (h.later hw₁) hels ho

/-- A condition that is known after rewriting: the run only evaluates it. -/
theorem sim_known_condition {c : Expr N} {b : Bool} (hc : SimExpr σ c (.booleanLiteral b))
    {β : Type} {V : Frozen N → β → β → Prop} {w : Frozen N} {m m' : Machine N} {env env' : Env}
    (h : Related w σ m m' env env') (va : List (Value N)) {f : Value N → Run N β} {q : Run N β}
    (hf : ∀ w', w ≤ w' → Sim Corresponds V w' (f (.boolean b)) q) :
    Sim Corresponds V w (one (eval m env va true c) >>= f) q := by
  have hsim := (hc _ _ _ _ _ h va true).1
  rw [eval_literal (e := .booleanLiteral b) (v := .boolean b) rfl, one_pure] at hsim
  apply Sim.bind_left (P := fun v => v = .boolean b) hsim (fun _ => ⟨_, rfl, rfl⟩)
  intro w₁ hw₁ a a' ha ha'
  have heq : a = .boolean b := Eq.trans ha ha'
  rw [heq]
  exact hf w₁ hw₁

theorem simStmt_shift {c : Expr N} {body : List (Stmt N)} {cs cs' : List (IfClause N)}
    {els els' : Option (List (Stmt N))} (hinner : inner = [] ∨ σ ∈ exits)
    (hc : SimExpr σ c (.booleanLiteral false)) (hcs : SimClauses inner σ cs cs')
    (hels : SimElse inner σ els els') :
    SimStmt exits σ σ (.ifStatement (.mk c body :: cs) els) (.ifStatement cs' els') := by
  intro w m m' env env' h va
  rw [exec_if, execClauses, Prog.bind_assoc]
  apply sim_known_condition hc h va
  intro w₁ hw₁
  have hif := simStmt_if hinner hcs hels _ _ _ _ _ (h.later hw₁) va
  rw [exec_if] at hif
  exact hif

theorem simClauses_nil : SimClauses exits σ ([] : List (IfClause N)) [] := by
  intro w m m' env env' _ va
  rw [execClauses, execClauses]
  exact Sim.pure (fun _ _ => ⟨rfl, nofun⟩)

/-- No clause is left, and nothing in the `else`. -/
theorem exec_nothing_left (m : Machine N) (env : Env) (va : List (Value N))
    {els : Option (List (Stmt N))} (hels : els = none ∨ els = some []) :
    exec m env va (.ifStatement [] els) = exec m env va .emptyStatement := by
  rw [exec_if]
  cases hels with
  | inl hnone =>
    rw [hnone]
    rfl
  | inr hempty =>
    rw [hempty]
    rfl

theorem simStmt_drop {c : Expr N} {body : List (Stmt N)} {els els' : Option (List (Stmt N))}
    (hinner : inner = [] ∨ σ ∈ exits) (hc : SimExpr σ c (.booleanLiteral false))
    (hels : SimElse inner σ els els') (hempty : els' = none ∨ els' = some []) :
    SimStmt exits σ σ (.ifStatement [.mk c body] els) .emptyStatement := by
  intro w m m' env env' h va
  rw [← exec_nothing_left m' env' va hempty]
  exact simStmt_shift hinner hc simClauses_nil hels _ _ _ _ _ h va

end Exits

section Loops
variable {N : Type} [LuaNumber N] {exits inner : List (Scope N)} {σ σ' : Scope N}

/-- A loop ends normally or returns; it never hands on a `continue`. -/
def LoopEnd (_ : Frozen N) (sig sig' : Signal N) : Prop := sig = sig' ∧ sig ≠ .continued

omit [LuaNumber N] in
theorem afterBody_ne_continued {sig sig' : Signal N} (h : afterBody sig = some sig') :
    sig' ≠ .continued := by
  intro hc
  subst hc
  cases sig <;> cases h

/-- What a loop does with the signal of its body. -/
theorem sim_afterBody {α : Type} {I : Frozen N → α → α → Prop} {w : Frozen N} {sig sig' : Signal N}
    {next next' : Run N (α ⊕ Signal N)} (hsig : sig = sig')
    (hnext : afterBody sig = none → Sim Corresponds (SumRel I LoopEnd) w next next') :
    Sim Corresponds (SumRel I LoopEnd) w
      (match afterBody sig with
        | none => next
        | some out => pure (.inr out))
      (match afterBody sig' with
        | none => next'
        | some out => pure (.inr out)) := by
  subst hsig
  cases hafter : afterBody sig with
  | none => exact hnext hafter
  | some out => exact Sim.pure (fun _ _ => .inr ⟨rfl, afterBody_ne_continued hafter⟩)

theorem sim_stop_loop {α : Type} {I : Frozen N → α → α → Prop} {w : Frozen N} :
    Sim Corresponds (SumRel I LoopEnd) w (pure (.inr .normal) : Run N (α ⊕ Signal N))
      (pure (.inr .normal)) :=
  Sim.pure (fun _ _ => .inr ⟨rfl, by simp⟩)

/-- A loop statement whose rounds are related. -/
theorem sim_loop {α : Type} {I : Frozen N → α → α → Prop} {w : Frozen N} {m m' : Machine N}
    {env env' : Env} {step step' : α → Run N (α ⊕ Signal N)} {a a' : α}
    (h : Related w σ m m' env env') (ha : I w a a')
    (hstep : ∀ w', w ≤ w' → ∀ a b, I w' a b →
      Sim Corresponds (SumRel I LoopEnd) w' (step a) (step' b)) :
    Sim Corresponds (ExitRel exits σ) w
      (do let sig ← Prog.iterate step m.fuel a; pure (env, sig))
      (do let sig ← Prog.iterate step' m'.fuel a'; pure (env', sig)) := by
  rw [h.machine.fuel]
  apply Sim.bind (Sim.iterate m'.fuel (fun _ _ _ _ _ hsig => hsig) hstep w le_rfl a a' ha)
  intro w₁ hw₁ sig sig' hsig
  rw [← hsig.1]
  exact Sim.pure (fun w₂ hw₂ =>
    ExitRel.keep (h.later (le_trans hw₁ hw₂)).env (fun hc => absurd hc hsig.2))

theorem simStmt_while {c c' : Expr N} {body body' : List (Stmt N)} (hc : SimExpr σ c c')
    (hbody : SimBlock inner σ σ' body body') :
    SimStmt exits σ σ (.whileStatement c body) (.whileStatement c' body') := by
  intro w m m' env env' h va
  rw [exec, exec]
  apply sim_loop (I := Same) h rfl
  intro w₁ hw₁ _ _ _
  have h₁ := h.later hw₁
  apply sim_bind_same (hc _ _ _ _ _ h₁ va true).1
  intro w₂ hw₂ v
  by_cases hv : v.truthy = true
  · simp only [hv, if_true]
    apply Sim.bind (hbody _ _ _ _ _ (h₁.later hw₂) va)
    intro w₃ _ r r' hr
    exact sim_afterBody hr.signal (fun _ => Sim.pure (fun _ _ => .inl rfl))
  · simp only [hv]
    exact sim_stop_loop

theorem simStmt_repeat {c c' : Expr N} {body body' : List (Stmt N)}
    (hbody : SimBlock inner σ σ' body body') (hc : ∀ τ, τ ∈ σ' :: inner → SimExpr τ c c') :
    SimStmt exits σ σ (.repeatStatement c body) (.repeatStatement c' body') := by
  intro w m m' env env' h va
  rw [exec, exec]
  apply sim_loop (I := Same) h rfl
  intro w₁ hw₁ _ _ _
  have h₁ := h.later hw₁
  apply Sim.bind (hbody _ _ _ _ _ h₁ va)
  intro w₂ hw₂ r r' hr
  -- the condition sees the locals of the body, as far as they were declared
  have hscope : afterBody r.2 = none → ∃ τ ∈ σ' :: inner, EnvRel w₂ τ r.1 r'.1 := by
    intro hafter
    cases hsig : r.2 with
    | normal => exact ⟨σ', by simp, hr.normal hsig⟩
    | continued =>
      obtain ⟨τ, hτ, henv⟩ := hr.continued hsig
      exact ⟨τ, List.mem_cons_of_mem _ hτ, henv⟩
    | broke => rw [hsig] at hafter; cases hafter
    | returned vs => rw [hsig] at hafter; cases hafter
  have hcond : afterBody r.2 = none → Sim Corresponds (SumRel Same LoopEnd) w₂
      (do
        let v ← one (eval m r.1 va true c)
        pure (if v.truthy then .inr .normal else .inl ()))
      (do
        let v ← one (eval m' r'.1 va true c')
        pure (if v.truthy then .inr .normal else .inl ())) := by
    intro hafter
    obtain ⟨τ, hτ, henv⟩ := hscope hafter
    apply sim_bind_same (hc τ hτ _ _ _ _ _ ⟨(h₁.later hw₂).machine, henv⟩ va true).1
    intro w₃ _ v
    by_cases hv : v.truthy = true
    · simp only [hv, if_true]
      exact sim_stop_loop
    · simp only [hv]
      exact Sim.pure (fun _ _ => .inl rfl)
  have hround := sim_afterBody hr.signal hcond
  cases hafter : afterBody r.2 with
  | none =>
    rw [← hr.signal] at hround ⊢
    simp only [hafter] at hround ⊢
    exact hround
  | some sig =>
    rw [← hr.signal] at hround ⊢
    simp only [hafter] at hround ⊢
    exact hround

theorem sim_stepValue {w : Frozen N} {m m' : Machine N} {env env' : Env}
    {step step' : Option (Expr N)} (h : Related w σ m m' env env') (va : List (Value N))
    (hstep : (step = none ∧ step' = none) ∨
      ∃ e e', step = some e ∧ step' = some e' ∧ SimExpr σ e e') :
    Sim Corresponds Same w (stepValue m env va step) (stepValue m' env' va step') := by
  rcases hstep with ⟨rfl, rfl⟩ | ⟨e, e', rfl, rfl, he⟩
  · exact sim_same
  · exact (he _ _ _ _ _ h va false).1

theorem sim_loopBounds {w : Frozen N} (a b c : Value N) :
    Sim Corresponds Same w (loopBounds a b c) (loopBounds a b c) := by
  cases a <;> cases b <;> cases c <;>
    first
      | exact sim_same
      | exact Sim.raise _

/-- The body of a `for` loop, with its variables bound to the same values. -/
theorem sim_forBody {w : Frozen N} {m m' : Machine N} {env env' : Env} {vars : List (Expr N)}
    {body body' : List (Stmt N)} (h : Related w σ m m' env env')
    (hbody : SimBlock inner (bindAll σ vars) σ' body body') (va vs : List (Value N)) :
    Sim Corresponds Same w
      (do
        let e ← declare env vars vs
        return (← execBlock m e va body).2)
      (do
        let e ← declare env' vars vs
        return (← execBlock m' e va body').2) := by
  apply Sim.bind (sim_declare_bindAll vars vs h.env)
  intro w₁ hw₁ e e' he
  apply Sim.bind (hbody _ _ _ _ _ ⟨h.machine.later hw₁, he⟩ va)
  intro w₂ _ r r' hr
  exact Sim.pure (fun _ _ => hr.signal)

theorem simStmt_numericFor {x a a' b b' : Expr N} {step step' : Option (Expr N)}
    {body body' : List (Stmt N)} (ha : SimExpr σ a a') (hb : SimExpr σ b b')
    (hstep : (step = none ∧ step' = none) ∨
      ∃ e e', step = some e ∧ step' = some e' ∧ SimExpr σ e e')
    (hbody : SimBlock inner (bindAll σ [x]) σ' body body') :
    SimStmt exits σ σ (.numericForStatement x a b step body)
      (.numericForStatement x a' b' step' body') := by
  intro w m m' env env' h va
  rw [exec, exec]
  apply sim_bind_same (ha _ _ _ _ _ h va false).1
  intro w₁ hw₁ start
  apply sim_bind_same (hb _ _ _ _ _ (h.later hw₁) va false).1
  intro w₂ hw₂ stop
  have h₂ := h.later (le_trans hw₁ hw₂)
  apply sim_bind_same (sim_stepValue h₂ va hstep)
  intro w₃ hw₃ by'
  apply sim_bind_same (sim_loopBounds start stop by')
  intro w₄ hw₄ r
  have h₄ := h₂.later (le_trans hw₃ hw₄)
  apply sim_loop (I := Same) h₄ rfl
  intro w₅ hw₅ i j hij
  have heq : i = j := hij
  subst heq
  rw [numericRound, numericRound]
  by_cases hrange : inRange i r.2.1 r.2.2 = true
  · simp only [hrange, if_true]
    apply sim_bind_same (sim_forBody (h₄.later hw₅) hbody va [.number i])
    intro w₆ _ sig
    exact sim_afterBody rfl (fun _ => Sim.pure (fun _ _ => .inl rfl))
  · simp only [hrange]
    exact sim_stop_loop

/-- One round of a generic loop. -/
theorem sim_genericRound {w : Frozen N} {m m' : Machine N} {env env' : Env}
    {vars : List (Expr N)} {body body' : List (Stmt N)} (h : Related w σ m m' env env')
    (hbody : SimBlock inner (bindAll σ vars) σ' body body') (va : List (Value N))
    (f state control : Value N) :
    Sim Corresponds (SumRel Same LoopEnd) w
      (genericRound m f state (fun ws => do
        let e ← declare env vars ws
        return (← execBlock m e va body).2) control)
      (genericRound m' f state (fun ws => do
        let e ← declare env' vars ws
        return (← execBlock m' e va body').2) control) := by
  rw [genericRound, genericRound]
  apply sim_bind_same (sim_apply lockstep_corresponds h.machine f [state, control])
  intro w₁ hw₁ vs
  have hround : ∀ v : Value N, Sim Corresponds (SumRel Same LoopEnd) w₁
      (do
        let sig ← (do
          let e ← declare env vars vs
          return (← execBlock m e va body).2)
        match afterBody sig with
        | none => pure (.inl v)
        | some sig => pure (.inr sig))
      (do
        let sig ← (do
          let e ← declare env' vars vs
          return (← execBlock m' e va body').2)
        match afterBody sig with
        | none => pure (.inl v)
        | some sig => pure (.inr sig)) := by
    intro v
    apply sim_bind_same (sim_forBody (h.later hw₁) hbody va vs)
    intro w₂ _ sig
    exact sim_afterBody rfl (fun _ => Sim.pure (fun _ _ => .inl rfl))
  cases hv : first vs with
  | nil => exact sim_stop_loop
  | _ => exact hround _

theorem simStmt_genericFor {vars iterators iterators' : List (Expr N)}
    {body body' : List (Stmt N)}
    (hits : SimArgs (decide (iterators.length < 3)) σ iterators iterators')
    (hbody : SimBlock inner (bindAll σ vars) σ' body body') :
    SimStmt exits σ σ (.genericForStatement vars iterators body)
      (.genericForStatement vars iterators' body') := by
  intro w m m' env env' h va
  rw [exec, exec]
  apply Sim.bind (hits _ _ _ _ _ h va)
  intro w₁ hw₁ vs vs' hvs
  have hagree : Agree 3 vs vs' := agree_of_args hvs (by simp)
  rw [hagree.first, hagree.tail.first, hagree.tail.tail.first]
  apply sim_loop (I := Same) (h.later hw₁) rfl
  intro w₂ hw₂ i j hij
  have heq : i = j := hij
  rw [heq]
  exact sim_genericRound ((h.later hw₁).later hw₂) hbody va _ _ j

end Loops
end LuaRecovery.Transforms
