import LuaRecovery.Transforms.Statements

/-!
# Rewritten programs run alike

Blocks, and the simulation of whole programs: by recursion over the derivation
for the nodes, by induction on the fuel for the calls.
-/

set_option autoImplicit false

namespace LuaRecovery.Transforms
open LuaRecovery.Lib LuaRecovery.Lua LuaRecovery.Evaluator

section Blocks
variable {N : Type} [LuaNumber N] {exits inner : List (Scope N)} {σ σ' σ₁ σ₂ : Scope N}

theorem simStmt_do {body body' : List (Stmt N)} (hinner : inner = [] ∨ σ ∈ exits)
    (hbody : SimBlock inner σ σ' body body') :
    SimStmt exits σ σ (.doStatement body) (.doStatement body') := by
  intro w m m' env env' h va
  rw [exec, exec]
  apply Sim.bind (hbody _ _ _ _ _ h va)
  intro w₁ hw₁ r r' hr
  rw [← hr.signal]
  exact Sim.pure (fun w₂ hw₂ => ExitRel.keep (h.later (le_trans hw₁ hw₂)).env
    (fun hc => hinner.resolve_left (hr.exits_ne_nil hc)))

theorem simStmt_return {args args' : List (Expr N)} (hargs : SimArgs true σ args args') :
    SimStmt exits σ σ (.returnStatement args) (.returnStatement args') := by
  intro w m m' env env' h va
  rw [exec, exec]
  apply sim_bind_same (sim_args_same hargs h va)
  intro w₁ hw₁ vs
  exact Sim.pure (fun w₂ hw₂ =>
    ExitRel.keep (h.later (le_trans hw₁ hw₂)).env (fun hc => by cases hc))

/-- A statement that only signals. -/
theorem simStmt_signal {s : Stmt N} (sig : Signal N)
    (hs : ∀ (m : Machine N) env va, exec m env va s = pure (env, sig))
    (hsig : sig = .continued → σ ∈ exits) : SimStmt exits σ σ s s := by
  intro w m m' env env' h va
  rw [hs, hs]
  exact Sim.pure (fun w₁ hw₁ => ExitRel.keep (h.later hw₁).env hsig)

theorem simBlock_nil : SimBlock exits σ σ ([] : Block N) [] := by
  intro w m m' env env' h va
  rw [execBlock, execBlock]
  exact Sim.pure (fun w₁ hw₁ => ExitRel.keep (h.later hw₁).env (fun hc => by cases hc))

/-- What follows the first statement of a block. -/
theorem sim_rest {w : Frozen N} {m m' : Machine N} {va : List (Value N)}
    {ss ss' : List (Stmt N)} {r r' : Env × Signal N} :
    SameMachine Corresponds w m m' → SimBlock exits σ₁ σ₂ ss ss' → ExitRel exits σ₁ w r r' →
    Sim Corresponds (ExitRel exits σ₂) w
      (match r.2 with
        | .normal => execBlock m r.1 va ss
        | sig => pure (r.1, sig))
      (match r'.2 with
        | .normal => execBlock m' r'.1 va ss'
        | sig => pure (r'.1, sig)) := by
  intro hm hss hr
  rw [← hr.signal]
  cases hsig : r.2 with
  | normal => exact hss _ _ _ _ _ ⟨hm, hr.normal hsig⟩ va
  | broke => exact Sim.pure (fun _ _ => ⟨rfl, nofun, nofun⟩)
  | returned vs => exact Sim.pure (fun _ _ => ⟨rfl, nofun, nofun⟩)
  | continued =>
    obtain ⟨τ, hτ, henv⟩ := hr.continued hsig
    exact Sim.pure (fun _ hw => ⟨rfl, nofun, fun _ => ⟨τ, hτ, henv.later hw⟩⟩)

theorem simBlock_cons {s s' : Stmt N} {ss ss' : List (Stmt N)} (hs : SimStmt exits σ σ₁ s s')
    (hss : SimBlock exits σ₁ σ₂ ss ss') : SimBlock exits σ σ₂ (s::ss) (s'::ss') := by
  intro w m m' env env' h va
  rw [execBlock, execBlock]
  apply Sim.bind (hs _ _ _ _ _ h va)
  intro w₁ hw₁ r r' hr
  exact sim_rest (h.machine.later hw₁) hss hr

omit [LuaNumber N] in
theorem exec_vacuous [LuaNumber N] {s : Stmt N} (hs : isVacuous s = true) (m : Machine N)
    (env : Env) (va : List (Value N)) : exec m env va s = pure (env, .normal) := by
  cases s with
  | emptyStatement => rfl
  | doStatement body => cases body with
    | nil => rfl
    | cons s ss => cases hs
  | _ => cases hs

theorem simBlock_skip {s s' : Stmt N} {ss ss' : List (Stmt N)} (hs : SimStmt exits σ σ₁ s s')
    (hvacuous : isVacuous s' = true) (hss : SimBlock exits σ₁ σ₂ ss ss') :
    SimBlock exits σ σ₂ (s::ss) ss' := by
  intro w m m' env env' h va
  have hsim := hs _ _ _ _ _ h va
  rw [exec_vacuous hvacuous] at hsim
  rw [execBlock]
  apply Sim.bind_left (P := fun r => r = (env', .normal)) hsim (fun _ => ⟨_, rfl, rfl⟩)
  intro w₁ hw₁ r r' hr hr'
  subst hr'
  simp only [hr.signal]
  exact hss _ _ _ _ _ ⟨h.machine.later hw₁, hr.normal hr.signal⟩ va

/-- A block leaves the names that it does not declare as they are. -/
def KeepsOthers (names : List String) (env : Env) (r : Env × Signal N) : Prop :=
  ∀ x, x ∉ names → r.1.lookup x = env.lookup x

omit [LuaNumber N] in
theorem keeps_declare (vars : List (Expr N)) :
    ∀ (env : Env) (vs : List (Value N)), Yields (fun env' : Env =>
      ∀ x, x ∉ vars.filterMap Expr.name? → env'.lookup x = env.lookup x) (declare env vars vs) := by
  induction vars with
  | nil => exact fun env vs => Yields.pure (fun _ _ => rfl)
  | cons v vars ih =>
    intro env vs
    rw [declare]
    cases hv : v.name? with
    | none => exact Yields.raise _
    | some name =>
      apply Yields.bind
      intro a s env' s' h x hx
      rw [List.filterMap_cons_some hv, List.mem_cons, not_or] at hx
      have hrest := ih _ _ s env' s' h x hx.2
      rw [hrest, List.lookup_cons, beq_false_of_ne hx.1]

theorem keeps_exec (m : Machine N) (env : Env) (va : List (Value N)) (s : Stmt N) :
    Yields (KeepsOthers (declaredNames [s]) env) (exec m env va s) := by
  have hkeep : ∀ names : List String, ∀ sig : Signal N,
      Yields (KeepsOthers names env) (pure (env, sig) : Run N _) :=
    fun names sig => Yields.pure (fun _ _ => rfl)
  cases s with
  | localStatement vars init =>
    rw [exec]
    apply Yields.bind
    intro vs s r s' h
    obtain ⟨env', s₁, hdeclare, h⟩ := Prog.bind_eq_done.mp h
    cases h
    intro x hx
    rw [declaredNames, declaredNames, List.append_nil] at hx
    exact keeps_declare vars env vs s env' _ hdeclare x hx
  | localFunctionStatement identifier params isVararg body =>
    rw [exec]
    intro s r s' h
    obtain ⟨env', s₁, hdeclare, h⟩ := Prog.bind_eq_done.mp h
    have hlookup := keeps_declare [identifier] env [] s env' s₁ hdeclare
    have hr : r.1 = env' := by
      obtain ⟨f, s₂, -, h⟩ := Prog.bind_eq_done.mp h
      cases hname : identifier.name? with
      | none =>
        rw [hname] at h
        cases h
      | some name =>
        rw [hname] at h
        obtain ⟨u, s₃, -, h⟩ := Prog.bind_eq_done.mp h
        cases h
        rfl
    intro x hx
    rw [hr]
    apply hlookup
    intro hmem
    apply hx
    rw [declaredNames, declaredNames, List.append_nil]
    cases hname : identifier.name? with
    | none => simp [hname] at hmem
    | some name => simpa [hname] using hmem
  | assignmentStatement vars init =>
    exact Yields.bind (fun _ => Yields.bind (fun _ => Yields.bind (fun _ => hkeep _ _)))
  | functionDeclaration name params isVararg body isMethod =>
    rw [exec]
    cases functionName name with
    | none => exact Yields.raise _
    | some rp => exact Yields.bind (fun _ => Yields.bind (fun _ => hkeep _ _))
  | callStatement e => exact Yields.bind (fun _ => hkeep _ _)
  | ifStatement clauses els =>
    rw [exec_if]
    apply Yields.bind
    intro o
    cases o with
    | some sig => exact hkeep _ _
    | none => cases els with
      | none => exact hkeep _ _
      | some body => exact Yields.bind (fun _ => hkeep _ _)
  | whileStatement c body => exact Yields.bind (fun _ => hkeep _ _)
  | repeatStatement c body => exact Yields.bind (fun _ => hkeep _ _)
  | numericForStatement x a b step body =>
    exact Yields.bind (fun _ => Yields.bind (fun _ => Yields.bind (fun _ =>
      Yields.bind (fun _ => Yields.bind (fun _ => hkeep _ _)))))
  | genericForStatement vars its body => exact Yields.bind (fun _ => Yields.bind (fun _ => hkeep _ _))
  | doStatement body => exact Yields.bind (fun _ => hkeep _ _)
  | returnStatement args => exact Yields.bind (fun _ => hkeep _ _)
  | breakStatement => exact hkeep _ _
  | continueStatement => exact hkeep _ _
  | emptyStatement => exact hkeep _ _

omit [LuaNumber N] in
theorem declaredNames_cons (s : Stmt N) (ss : List (Stmt N)) :
    declaredNames (s::ss) = declaredNames [s] ++ declaredNames ss := by
  cases s <;> simp [declaredNames]

theorem keeps_execBlock (m : Machine N) (va : List (Value N)) (ss : List (Stmt N)) :
    ∀ env : Env, Yields (KeepsOthers (declaredNames ss) env) (execBlock m env va ss) := by
  induction ss with
  | nil => exact fun env => Yields.pure (fun _ _ => rfl)
  | cons s ss ih =>
    intro env st r st' h
    rw [execBlock] at h
    obtain ⟨r₁, st₁, hs, h⟩ := Prog.bind_eq_done.mp h
    have hfirst := keeps_exec m env va s st r₁ st₁ hs
    intro x hx
    rw [declaredNames_cons, List.mem_append, not_or] at hx
    rw [← hfirst x hx.1]
    cases hsig : r₁.2 with
    | normal =>
      rw [hsig] at h
      exact ih r₁.1 st₁ r st' h x hx.2
    | broke => rw [hsig] at h; cases h; rfl
    | continued => rw [hsig] at h; cases h; rfl
    | returned vs => rw [hsig] at h; cases h; rfl

theorem execBlock_append_eq (m : Machine N) (va : List (Value N)) (ss ss' : List (Stmt N)) :
    ∀ env : Env, execBlock m env va (ss++ss') = (do
      let r ← execBlock m env va ss
      match r.2 with
      | .normal => execBlock m r.1 va ss'
      | sig => pure (r.1, sig)) := by
  induction ss with
  | nil => exact fun env => rfl
  | cons s ss ih =>
    intro env
    rw [List.cons_append, execBlock, execBlock, Prog.bind_assoc]
    congr 1
    funext r
    cases r.2 with
    | normal => exact ih r.1
    | broke => rfl
    | continued => rfl
    | returned vs => rfl

/-- The statements of a branch, run in place of the `if` around them. -/
theorem sim_splice {body body' ss ss' : List (Stmt N)} {w : Frozen N} {m m' : Machine N}
    {env env' : Env} (hinner : inner = [] ∨ leakAll σ (declaredNames body') ∈ exits)
    (hbody : SimBlock inner σ σ₁ body body')
    (hss : SimBlock exits (leakAll σ (declaredNames body')) σ₂ ss ss')
    (h : Related w σ m m' env env') (va : List (Value N)) :
    Sim Corresponds (ExitRel exits σ₂) w
      (do
        let r ← execBlock m env va body
        match r.2 with
        | .normal => execBlock m env va ss
        | sig => pure (env, sig))
      (execBlock m' env' va (body' ++ ss')) := by
  rw [execBlock_append_eq]
  have hany : Yields (fun _ => True) (execBlock m env va body) := fun _ _ _ _ => trivial
  apply Sim.bind ((hbody _ _ _ _ _ h va).strengthen hany (keeps_execBlock m' va body' env'))
  intro w₁ hw₁ r r' hr
  have hleak : EnvRel w₁ (leakAll σ (declaredNames body')) env r'.1 :=
    (h.later hw₁).env.leak rfl hr.2.2
  have hexit : ExitRel exits (leakAll σ (declaredNames body')) w₁ (env, r.2) r' :=
    ⟨hr.1.signal, fun _ => hleak,
      fun hc => ⟨_, hinner.resolve_left (hr.1.exits_ne_nil hc), hleak⟩⟩
  exact sim_rest (h.machine.later hw₁) hss hexit

/-- Running the branch taken and then the rest, as the `if` around it does. -/
theorem then_branch_eq (m : Machine N) (env : Env) (va : List (Value N))
    (body ss : List (Stmt N)) (els : Option (List (Stmt N))) :
    (do
      let r ← execBlock m env va body
      match r.2 with
      | .normal => execBlock m env va ss
      | sig => pure (env, sig)) = (do
      let o ← (do let r ← execBlock m env va body; pure (some r.2))
      let r ← (match o with
        | some sig => pure (env, sig)
        | none => match els with
            | none => pure (env, .normal)
            | some body => do
                let r ← execBlock m env va body
                pure (env, r.2))
      match r.2 with
      | .normal => execBlock m r.1 va ss
      | sig => pure (r.1, sig)) := by
  rw [Prog.bind_assoc]
  rfl

theorem else_branch_eq (m : Machine N) (env : Env) (va : List (Value N))
    (body ss : List (Stmt N)) :
    (do
      let r ← execBlock m env va body
      match r.2 with
      | .normal => execBlock m env va ss
      | sig => pure (env, sig)) = (do
      let r ← (do let r ← execBlock m env va body; pure (env, r.2))
      match r.2 with
      | .normal => execBlock m r.1 va ss
      | sig => pure (r.1, sig)) := by
  rw [Prog.bind_assoc]
  rfl

theorem simBlock_spliceThen {c : Expr N} {body body' ss ss' : List (Stmt N)}
    {cs : List (IfClause N)} {els : Option (List (Stmt N))}
    (hinner : inner = [] ∨ leakAll σ (declaredNames body') ∈ exits)
    (hc : SimExpr σ c (.booleanLiteral true)) (hbody : SimBlock inner σ σ₁ body body')
    (hss : SimBlock exits (leakAll σ (declaredNames body')) σ₂ ss ss') :
    SimBlock exits σ σ₂ (.ifStatement (.mk c body :: cs) els :: ss) (body' ++ ss') := by
  intro w m m' env env' h va
  rw [execBlock, exec_if, execClauses, Prog.bind_assoc, Prog.bind_assoc]
  apply sim_known_condition hc h va
  intro w₁ hw₁
  have hsplice := sim_splice hinner hbody hss (h.later hw₁) va
  rw [then_branch_eq m env va body ss els] at hsplice
  exact hsplice

theorem simBlock_spliceElse {c : Expr N} {dead body body' ss ss' : List (Stmt N)}
    (hinner : inner = [] ∨ leakAll σ (declaredNames body') ∈ exits)
    (hc : SimExpr σ c (.booleanLiteral false)) (hbody : SimBlock inner σ σ₁ body body')
    (hss : SimBlock exits (leakAll σ (declaredNames body')) σ₂ ss ss') :
    SimBlock exits σ σ₂ (.ifStatement [.mk c dead] (some body) :: ss) (body' ++ ss') := by
  intro w m m' env env' h va
  rw [execBlock, exec_if, execClauses, Prog.bind_assoc, Prog.bind_assoc]
  apply sim_known_condition hc h va
  intro w₁ hw₁
  have hsplice := sim_splice hinner hbody hss (h.later hw₁) va
  rw [else_branch_eq] at hsplice
  exact hsplice

theorem simClauses_cons {c c' : Expr N} {body body' : List (Stmt N)} {cs cs' : List (IfClause N)}
    (hc : SimExpr σ c c') (hbody : SimBlock exits σ σ' body body')
    (hcs : SimClauses exits σ cs cs') :
    SimClauses exits σ (.mk c body :: cs) (.mk c' body' :: cs') := by
  intro w m m' env env' h va
  rw [execClauses, execClauses]
  apply sim_bind_same (hc _ _ _ _ _ h va true).1
  intro w₁ hw₁ v
  by_cases hv : v.truthy = true
  · simp only [hv, if_true]
    apply Sim.bind (hbody _ _ _ _ _ (h.later hw₁) va)
    intro w₂ _ r r' hr
    rw [← hr.signal]
    exact Sim.pure (fun _ _ => ⟨rfl, fun hsome => hr.exits_ne_nil (Option.some.inj hsome)⟩)
  · simp only [hv]
    exact hcs _ _ _ _ _ (h.later hw₁) va

end Blocks

section Programs
variable {N : Type} [LuaNumber N]

mutual

theorem Rewrites.sim : ∀ {σ : Scope N} {e e' : Expr N}, Rewrites σ e e' → SimExpr σ e e'
  | _, _, _, .identifier hx => simExpr_identifier hx
  | _, _, _, .constant hx he => simExpr_constant hx he
  | _, _, _, .numericLiteral => simExpr_literal rfl rfl
  | _, _, _, .stringLiteral => simExpr_literal rfl rfl
  | _, _, _, .booleanLiteral => simExpr_literal rfl rfl
  | _, _, _, .nilLiteral => simExpr_literal rfl rfl
  | _, _, _, .varargLiteral => simExpr_vararg
  | _, _, _, .unary ha => simExpr_unary ha.sim
  | _, _, _, .foldUnary ha he hinert => simExpr_foldUnary ha.sim he hinert
  | _, _, _, .binary hl hr => simExpr_binary hl.sim hr.sim
  | _, _, _, .foldBinary hl hr he => simExpr_foldBinary hl.sim hr.sim he
  | _, _, _, .logical hl hr => simExpr_logical hl.sim hr.sim
  | _, _, _, .keepLeft hl hstop => simExpr_keepLeft hl.sim hstop
  | _, _, _, .keepRight hl hr hgo hinert => simExpr_keepRight hl.sim hr.sim hgo hinert
  | _, _, _, .call hbase hargs => simExpr_call hbase.sim hargs.sim
  | _, _, _, .methodCall hbase hargs => simExpr_methodCall hbase.sim hargs.sim
  | _, _, _, .member hbase => simExpr_member hbase.sim
  | _, _, _, .index hbase hi => simExpr_index hbase.sim hi.sim
  | _, _, _, .function hbody => simExpr_function hbody
  | _, _, _, .table hfields => simExpr_table hfields.sim

theorem RewritesArgs.sim : ∀ {multi : Bool} {σ : Scope N} {es es' : List (Expr N)},
    RewritesArgs multi σ es es' → SimArgs multi σ es es'
  | _, _, _, _, .nil => simArgs_nil
  | _, _, _, _, .last he hexposes => simArgs_last he.sim hexposes
  | _, _, _, _, .cons he hes => simArgs_cons he.sim hes.sim

theorem RewritesFields.sim : ∀ {σ : Scope N} {fs fs' : List (TableField N)},
    RewritesFields σ fs fs' → SimFields σ fs fs'
  | _, _, _, .nil => simFields_nil
  | _, _, _, .last he hexposes => simFields_last he.sim hexposes
  | _, _, _, .value he hfs => simFields_value he.sim hfs.sim
  | _, _, _, .key hk hv hfs => simFields_key hk.sim hv.sim hfs.sim
  | _, _, _, .keyString hv hfs => simFields_keyString hv.sim hfs.sim

theorem RewritesTargets.sim : ∀ {σ : Scope N} {es es' : List (Expr N)},
    RewritesTargets σ es es' → SimTargets σ es es'
  | _, _, _, .nil => simTargets_nil
  | _, _, _, .name hx hes => simTargets_name hx hes.sim
  | _, _, _, .member hbase hes => simTargets_member hbase.sim hes.sim
  | _, _, _, .index hbase hi hes => simTargets_index hbase.sim hi.sim hes.sim
  | _, _, _, .malformed he he' => simTargets_malformed he he'

theorem RewritesOption.sim : ∀ {σ : Scope N} {step step' : Option (Expr N)},
    RewritesOption σ step step' → (step = none ∧ step' = none) ∨
      ∃ e e', step = some e ∧ step' = some e' ∧ SimExpr σ e e'
  | _, _, _, .none => .inl ⟨rfl, rfl⟩
  | _, _, _, .some he => .inr ⟨_, _, rfl, rfl, he.sim⟩

theorem RewritesStmt.sim : ∀ {exits : List (Scope N)} {σ σ' : Scope N} {s s' : Stmt N},
    RewritesStmt exits σ σ' s s' → SimStmt exits σ σ' s s'
  | _, _, _, _, _, .localStatement hinit hdeclares => simStmt_local hinit.sim hdeclares
  | _, _, _, _, _, .assignment hvars hinit => simStmt_assignment hvars.sim hinit.sim
  | _, _, _, _, _, .localFunction hbody => simStmt_localFunction hbody
  | _, _, _, _, _, .function hname hbody => simStmt_function hname hbody
  | _, _, _, _, _, .call he => simStmt_call he.sim
  | _, _, _, _, _, .ifStatement hinner hcs hels => simStmt_if hinner hcs.sim hels.sim
  | _, _, _, _, _, .shift hinner hc hcs hels => simStmt_shift hinner hc.sim hcs.sim hels.sim
  | _, _, _, _, _, .drop hinner hc hels hempty => simStmt_drop hinner hc.sim hels.sim hempty
  | _, _, _, _, _, .whileStatement hc hbody => simStmt_while hc.sim hbody.sim
  | _, _, _, _, _, .repeatStatement hbody hc =>
      simStmt_repeat hbody.sim (fun τ hτ => (hc τ hτ).sim)
  | _, _, _, _, _, .numericFor ha hb hstep hbody =>
      simStmt_numericFor ha.sim hb.sim hstep.sim hbody.sim
  | _, _, _, _, _, .genericFor hits hbody => simStmt_genericFor hits.sim hbody.sim
  | _, _, _, _, _, .doStatement hinner hbody => simStmt_do hinner hbody.sim
  | _, _, _, _, _, .returnStatement hargs => simStmt_return hargs.sim
  | _, _, _, _, _, .breakStatement => simStmt_signal .broke (fun _ _ _ => rfl) nofun
  | _, _, _, _, _, .continueStatement hexit =>
      simStmt_signal .continued (fun _ _ _ => rfl) (fun _ => hexit)
  | _, _, _, _, _, .emptyStatement => simStmt_signal .normal (fun _ _ _ => rfl) nofun

theorem RewritesBlock.sim : ∀ {exits : List (Scope N)} {σ σ' : Scope N} {ss ss' : List (Stmt N)},
    RewritesBlock exits σ σ' ss ss' → SimBlock exits σ σ' ss ss'
  | _, _, _, _, _, .nil => simBlock_nil
  | _, _, _, _, _, .cons hs hss => simBlock_cons hs.sim hss.sim
  | _, _, _, _, _, .skip hs hvacuous hss => simBlock_skip hs.sim hvacuous hss.sim
  | _, _, _, _, _, .spliceThen hinner hc hbody hss =>
      simBlock_spliceThen hinner hc.sim hbody.sim hss.sim
  | _, _, _, _, _, .spliceElse hinner hc hbody hss =>
      simBlock_spliceElse hinner hc.sim hbody.sim hss.sim

theorem RewritesElse.sim : ∀ {exits : List (Scope N)} {σ : Scope N}
    {els els' : Option (List (Stmt N))}, RewritesElse exits σ els els' → SimElse exits σ els els'
  | _, _, _, _, .none => trivial
  | _, _, _, _, .some hbody => ⟨_, hbody.sim⟩

theorem RewritesClauses.sim : ∀ {exits : List (Scope N)} {σ : Scope N} {cs cs' : List (IfClause N)},
    RewritesClauses exits σ cs cs' → SimClauses exits σ cs cs'
  | _, _, _, _, .nil => simClauses_nil
  | _, _, _, _, .cons hc hbody hcs => simClauses_cons hc.sim hbody.sim hcs.sim

end

/-- The code found under a closure's identity. -/
def FoundRel (w : Frozen N) (o o' : Option (Closure N)) : Prop :=
  (o = none ∧ o' = none) ∨ ∃ c c', o = some c ∧ o' = some c' ∧ CodeRel w c c'

theorem foundRel_getElem? {w : Frozen N} {cs cs' : List (Closure N)}
    (h : List.Forall₂ (CodeRel w) cs cs') (id : ℕ) : FoundRel w cs[id]? cs'[id]? := by
  induction h generalizing id with
  | nil => exact .inl ⟨rfl, rfl⟩
  | cons hc _ ih =>
    cases id with
    | zero => exact .inr ⟨_, _, rfl, rfl, hc⟩
    | succ id => exact ih id

/-- Calls of corresponding closures agree, whatever the fuel. -/
theorem sim_callClosure (runtime : Runtime N) (n : ℕ) :
    ∀ (w : Frozen N) (id : ℕ) (args : List (Value N)),
      Sim Corresponds Same w (callClosure runtime n id args) (callClosure runtime n id args) := by
  induction n with
  | zero => exact fun w id args => Sim.stop
  | succ n ih =>
    intro w id args
    rw [callClosure]
    apply Sim.bind (V := FoundRel) (Sim.read (fun w' _ s t hst => foundRel_getElem? hst.closures id))
    intro w₁ hw₁ o o' ho
    rcases ho with ⟨rfl, rfl⟩ | ⟨c, c', rfl, rfl, hparams, hvararg, exits, σ, σ', henv, hbody⟩
    · exact sim_malformed
    · simp only [bindArgs, ← hparams, ← hvararg, Prog.bind_assoc]
      apply Sim.bind (sim_declare_bindAll c.params args henv)
      intro w₂ hw₂ e e' he
      have hm : SameMachine Corresponds w₂ ⟨runtime, callClosure runtime n, n⟩
          ⟨runtime, callClosure runtime n, n⟩ := ⟨rfl, rfl, ih w₂⟩
      apply Sim.bind (hbody.sim _ _ _ _ _ ⟨hm, he⟩ _)
      intro w₃ _ r r' hr
      rw [hr.signal]
      exact sim_same

theorem sameMachine_machine (runtime : Runtime N) (fuel : ℕ) (w : Frozen N) :
    SameMachine Corresponds w (machine runtime fuel) (machine runtime fuel) :=
  ⟨rfl, rfl, sim_callClosure runtime fuel w⟩

omit [LuaNumber N] in
theorem alike_of_ends [LuaNumber N] {α : Type} {w : Frozen N}
    {x y : Outcome (State N) (Value N) α} (h : Ends Corresponds Same w x y) : Alike x y := by
  have hsame : ∀ {w : Frozen N} {s t : State N}, Corresponds w s t → SameButCode s t :=
    fun hst => ⟨hst.cells, hst.nextCell, hst.heap, hst.globals, hst.history,
      hst.closures.length_eq⟩
  cases h with
  | done _ hstates hvalues =>
    rw [show _ = _ from hvalues]
    exact .done (hsame hstates)
  | raised _ hstates => exact .raised (hsame hstates)
  | timeout _ hstates => exact .timeout (hsame hstates)

/-- The scope in which nothing is known of any name. -/
def plain : Scope N := fun _ => .unknown

/-- The world of a state in which nothing is allocated. -/
def Frozen.start : Frozen N := ⟨fun _ => none, 0⟩

theorem corresponds_initialState (globals : String → Value N) :
    Corresponds Frozen.start (initialState globals) (initialState globals) :=
  ⟨rfl, rfl, rfl, rfl, rfl, rfl, nofun, .nil⟩

/-- A chunk and its rewriting, run from the same initial state. -/
theorem sim_runChunk {exits : List (Scope N)} {σ : Scope N} {b b' : Block N}
    (h : RewritesBlock exits plain σ b b') (runtime : Runtime N) (fuel : ℕ) :
    Sim Corresponds Same Frozen.start (runChunk runtime fuel ⟨b⟩) (runChunk runtime fuel ⟨b'⟩) := by
  have henv : EnvRel Frozen.start (plain : Scope N) [] [] := fun x => ⟨rfl, nofun⟩
  apply Sim.bind (h.sim _ _ _ _ _ ⟨sameMachine_machine runtime fuel _, henv⟩ [])
  intro w₁ _ r r' hr
  rw [hr.signal]
  exact sim_same

end Programs
end LuaRecovery.Transforms
