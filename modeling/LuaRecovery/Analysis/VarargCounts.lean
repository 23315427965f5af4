import LuaRecovery.Analysis.ReturnCounts
import LuaRecovery.Analysis.VarargAnalyzer
import LuaRecovery.Lua.CompoundAssignment

/-!
# The counts of the vararg analyzer and the calls of a run

The analyzer counts one argument for a literal and for a call before the last
argument. For a call in last place it counts the literals that the returns of one
function of that name list, so its count is right where the function called
there returns as many values.
-/

set_option autoImplicit false

namespace LuaRecovery.Analysis.VarargAnalyzer
open LuaRecovery.Lib LuaRecovery.Lua LuaRecovery.Transforms LuaRecovery.Evaluator

section Supplied
variable {N : Type} {functionMap : InsertionMap String (List (Value N))}

theorem suppliedArgs_concat (init : List (Expr N)) (e : Expr N) :
    suppliedArgs functionMap (init ++ [e]) =
      init.map (suppliedBy functionMap false) ++ [suppliedBy functionMap true e] := by
  induction init with
  | nil => rfl
  | cons a init ih =>
    have hnonempty : (init ++ [e]).isEmpty = false := by simp
    rw [List.cons_append, suppliedArgs, ih, hnonempty]
    rfl

theorem suppliedBy_call {isTail : Bool} {base : Expr N} {args : List (Expr N)} {inParens : Bool}
    {vs : List (Value N)}
    (h : suppliedBy functionMap isTail (.callExpression base args inParens) = some vs) :
    ∃ name v ws, base = .identifier name ∧ functionMap.get name = some (v::ws) ∧
      vs = if isTail then v::ws else [v] := by
  rw [suppliedBy] at h
  obtain ⟨name, hname, h⟩ := Option.bind_eq_some_iff.mp h
  obtain ⟨values, hvalues, h⟩ := Option.bind_eq_some_iff.mp h
  cases base with
  | identifier x =>
    cases hname
    cases values with
    | nil => cases h
    | cons v ws =>
      cases h
      exact ⟨name, v, ws, rfl, hvalues, rfl⟩
  | _ => cases hname

/-- What is counted and is no call is counted once and yields one value. -/
theorem suppliedBy_single {isTail : Bool} {e : Expr N} {vs : List (Value N)}
    (h : suppliedBy functionMap isTail e = some vs)
    (he : ∀ base args inParens, e ≠ .callExpression base args inParens) :
    e.isMulti = false ∧ vs.length = 1 := by
  cases e with
  | callExpression base args inParens => exact absurd rfl (he base args inParens)
  | stringLiteral value => cases h; exact ⟨rfl, rfl⟩
  | numericLiteral value raw => cases h; exact ⟨rfl, rfl⟩
  | booleanLiteral value => cases h; exact ⟨rfl, rfl⟩
  | nilLiteral => cases h; exact ⟨rfl, rfl⟩
  | _ => cases h

theorem length_suppliedBy {e : Expr N} {vs : List (Value N)}
    (h : suppliedBy functionMap false e = some vs) : vs.length = 1 := by
  by_cases he : ∃ base args inParens, e = .callExpression base args inParens
  · obtain ⟨base, args, inParens, rfl⟩ := he
    obtain ⟨name, v, ws, -, -, hvs⟩ := suppliedBy_call h
    rw [hvs]
    rfl
  · exact (suppliedBy_single h fun base args inParens heq => he ⟨base, args, inParens, heq⟩).2

/-- How many arguments are counted: one for each before the last, and those of the last. -/
theorem length_supplied {init : List (Expr N)} {e : Expr N} {vs : List (Value N)}
    (hinit : ∀ a ∈ init, (suppliedBy functionMap false a).isSome)
    (he : suppliedBy functionMap true e = some vs) :
    ((suppliedArgs functionMap (init ++ [e])).flatMap (fun o => o.getD [])).length =
      init.length + vs.length := by
  have hfront : ((init.map (suppliedBy functionMap false)).flatMap (fun o => o.getD [])).length =
      init.length := by
    induction init with
    | nil => rfl
    | cons a init ih =>
      obtain ⟨ws, hws⟩ := Option.isSome_iff_exists.mp (hinit a (List.mem_cons_self ..))
      have hrest := ih fun b hb => hinit b (List.mem_cons_of_mem _ hb)
      rw [List.map_cons, List.flatMap_cons, List.length_append, hrest, hws, Option.getD_some,
        length_suppliedBy hws, List.length_cons, Nat.add_comm]
  rw [suppliedArgs_concat, List.flatMap_append, List.length_append, hfront, he]
  simp

end Supplied

section Evaluation
variable {N : Type} [LuaNumber N]

/-- Evaluates expressions, each for one value. -/
def evalOnes (m : Machine N) (env : Env) (va : List (Value N)) :
    List (Expr N) → Run N (List (Value N))
  | [] => pure []
  | e::es => do
      let v ← one (eval m env va false e)
      let vs ← evalOnes m env va es
      pure (v::vs)

theorem length_evalOnes (m : Machine N) (env : Env) (va : List (Value N)) (es : List (Expr N)) :
    Yields (fun vs => vs.length = es.length) (evalOnes m env va es) := by
  induction es with
  | nil => exact Yields.pure rfl
  | cons e es ih =>
    exact Yields.bind fun v => Yields.next ih fun vs hvs => Yields.pure (congrArg (· + 1) hvs)

/-- All but the last expression of a list yield one value each. -/
theorem evalList_concat (m : Machine N) (env : Env) (va : List (Value N)) (init : List (Expr N))
    (e : Expr N) :
    evalList m env va (init ++ [e]) = (do
      let ws ← evalOnes m env va init
      let rs ← eval m env va false e
      pure (ws ++ rs)) := by
  induction init with
  | nil =>
    show eval m env va false e = eval m env va false e >>= pure
    rw [Prog.bind_pure]
  | cons a init ih =>
    have hcons : evalList m env va (a :: (init ++ [e])) = (do
        let v ← one (eval m env va false a)
        let vs ← evalList m env va (init ++ [e])
        pure (v::vs)) := by
      cases init <;> rfl
    rw [List.cons_append, hcons, ih, evalOnes]
    simp only [Prog.bind_assoc, Prog.pure_bind]
    rfl

/-- Evaluating a call of a name, from a state: what it calls, with which arguments. -/
structure Passes (m : Machine N) (env : Env) (va : List (Value N)) (name : String)
    (args : List (Expr N)) (s : State N) (f : Value N) (vs : List (Value N)) (s' : State N) :
    Prop where
  callee : readName env name s = .done f s
  arguments : evalList m env va args s = .done vs s'

omit [LuaNumber N] in
theorem readName_done (env : Env) (name : String) (s : State N) :
    ∃ f, readName env name s = .done f s := by
  rw [readName]
  cases env.lookup name with
  | some a => exact ⟨_, rfl⟩
  | none => exact ⟨_, rfl⟩

/-- What the call then does. -/
theorem Passes.eval {m : Machine N} {env : Env} {va : List (Value N)} {name : String}
    {args : List (Expr N)} {s s' : State N} {f : Value N} {vs : List (Value N)} {test : Bool}
    {inParens : Bool} (h : Passes m env va name args s f vs s') :
    Lua.eval m env va test (.callExpression (.identifier name) args inParens) s =
      (do
        let rs ← apply m f vs
        pure (if inParens then [first rs] else rs)) s' := by
  have hbase : one (Lua.eval m env va false (.identifier name)) s = .done f s := by
    rw [Lua.eval, one_return]
    exact h.callee
  rw [Lua.eval, Prog.bind_done _ _ s s _ hbase, Prog.bind_done _ _ s s' _ h.arguments]

theorem passes_of_eval {m : Machine N} {env : Env} {va : List (Value N)} {name : String}
    {args : List (Expr N)} {s s' : State N} {rs : List (Value N)} {test : Bool} {inParens : Bool}
    (h : Lua.eval m env va test (.callExpression (.identifier name) args inParens) s =
      .done rs s') :
    ∃ f vs s₁ ws, Passes m env va name args s f vs s₁ ∧ apply m f vs s₁ = .done ws s' ∧
      rs = if inParens then [first ws] else ws := by
  obtain ⟨f, hf⟩ := readName_done env name s
  rw [Lua.eval] at h
  obtain ⟨f', s₁, hbase, h⟩ := Prog.bind_eq_done.mp h
  rw [Lua.eval, one_return, hf] at hbase
  cases hbase
  obtain ⟨vs, s₂, hvs, h⟩ := Prog.bind_eq_done.mp h
  obtain ⟨ws, s₃, hws, h⟩ := Prog.bind_eq_done.mp h
  cases h
  exact ⟨f, vs, s₂, ws, ⟨hf, hvs⟩, hws, rfl⟩

/-- The arguments that `...` holds in a call of the closure. -/
def restOf (c : Closure N) (vs : List (Value N)) : List (Value N) :=
  if c.isVararg then vs.drop c.params.length else []

omit [LuaNumber N] in
theorem restOf_eq_drop {c : Closure N} {vs : List (Value N)} {n : ℕ}
    (h : (restOf c vs).length = vs.length - n) : restOf c vs = vs.drop n := by
  unfold restOf at h ⊢
  by_cases hvararg : c.isVararg = true
  · rw [if_pos hvararg] at h ⊢
    rw [List.length_drop] at h
    by_cases hn : c.params.length = n
    · rw [hn]
    · rw [List.drop_eq_nil_of_le (by omega), List.drop_eq_nil_of_le (by omega)]
  · rw [if_neg hvararg] at h ⊢
    rw [List.length_nil] at h
    rw [List.drop_eq_nil_of_le (by omega)]

end Evaluation

section Counts
variable {N : Type} [LuaNumber N]

/-- The call passes as many arguments as the report says and fills `...` with as many values. -/
structure Counted (report : VarargReport) (s : State N) (f : Value N) (vs : List (Value N)) :
    Prop where
  arguments : vs.length = report.suppliedArgumentCount
  varargs : ∀ id c, f = .closure id → s.closures[id]? = some c →
    (restOf c vs).length = report.varargValueCount

/-- If the last argument is a call, the function called there hands back as many values as
the returns at the top of the last function statement of that name list literals. -/
def LastCallReturns (functionMap : InsertionMap String (List (Value N))) (m : Machine N)
    (env : Env) (va : List (Value N)) (args : List (Expr N)) (s : State N) : Prop :=
  ∀ init name as inParens, args = init ++ [.callExpression (.identifier name) as inParens] →
    ∀ ws s₁ g xs s₂ rs s₃, evalOnes m env va init s = .done ws s₁ →
      Passes m env va name as s₁ g xs s₂ → apply m g xs s₂ = .done rs s₃ →
        ∃ values, functionMap.get name = some values ∧
          (if inParens then 1 else rs.length) = values.length

/-- The closure that the call reaches collects the arguments that the function would. -/
def CollectsAs (func : VarargFunction N) (m : Machine N) (env : Env) (va : List (Value N))
    (name : String) (args : List (Expr N)) (s : State N) : Prop :=
  ∀ id vs s' c, Passes m env va name args s (.closure id) vs s' → s'.closures[id]? = some c →
    restOf c vs = vs.drop func.params.length

omit [LuaNumber N] in
theorem dynamicArgFound_eq_false {functionMap : InsertionMap String (List (Value N))}
    {init : List (Expr N)} {e : Expr N}
    (h : (suppliedArgs functionMap (init ++ [e])).any (fun vs => vs.isNone) = false) :
    (∀ a ∈ init, (suppliedBy functionMap false a).isSome) ∧
      ∃ vs, suppliedBy functionMap true e = some vs := by
  rw [suppliedArgs_concat, List.any_append, Bool.or_eq_false_iff, List.any_eq_false] at h
  constructor
  · intro a ha
    have hsome := h.1 _ (List.mem_map.mpr ⟨a, ha, rfl⟩)
    cases hsupplied : suppliedBy functionMap false a with
    | none => simp [hsupplied] at hsome
    | some vs => rfl
  · have hlast := h.2
    cases hsupplied : suppliedBy functionMap true e with
    | none => simp [hsupplied] at hlast
    | some vs => exact ⟨vs, rfl⟩

/-- The argument count is right exactly if the call in last place returns what was counted. -/
theorem length_eq_iff {functionMap : InsertionMap String (List (Value N))} {m : Machine N}
    {env : Env} {va : List (Value N)} {name : String} {args : List (Expr N)} {s : State N}
    (h : (suppliedArgs functionMap args).any (fun vs => vs.isNone) = false) :
    (∀ f vs s', Passes m env va name args s f vs s' →
      vs.length = ((suppliedArgs functionMap args).flatMap (fun o => o.getD [])).length) ↔
    LastCallReturns functionMap m env va args s := by
  obtain rfl | ⟨init, e, rfl⟩ := List.eq_nil_or_concat' args
  · constructor
    · intro _ init name' as inParens hargs
      simp at hargs
    · intro _ f vs s' hpasses
      cases hpasses.arguments
      rfl
  obtain ⟨hinit, values, hlast⟩ := dynamicArgFound_eq_false h
  rw [length_supplied hinit hlast]
  constructor
  · intro hcount init' callee as inParens hargs ws s₁ g xs s₂ rs s₃ hws hpasses happly
    obtain ⟨rfl, he⟩ := List.append_inj' hargs rfl
    obtain rfl := List.singleton_inj.mp he
    obtain ⟨name', v, us, hname, hget, hvalues⟩ := suppliedBy_call hlast
    cases hname
    refine ⟨v::us, hget, ?_⟩
    obtain ⟨f, hf⟩ := readName_done env name s
    have hlist : evalList m env va (init ++ [.callExpression (.identifier callee) as inParens]) s =
        .done (ws ++ if inParens then [first rs] else rs) s₃ := by
      rw [evalList_concat, Prog.bind_done _ _ s s₁ _ hws]
      have heval : Lua.eval m env va false (.callExpression (.identifier callee) as inParens) s₁ =
          .done (if inParens then [first rs] else rs) s₃ := by
        rw [hpasses.eval, Prog.bind_done _ _ s₂ s₃ _ happly]
        rfl
      rw [Prog.bind_done _ _ s₁ s₃ _ heval]
      rfl
    have hlength := hcount f _ s₃ ⟨hf, hlist⟩
    have hfront := length_evalOnes m env va init s ws s₁ hws
    rw [List.length_append, hfront, hvalues] at hlength
    cases inParens <;> simpa using hlength
  · intro hreturns f vs s' hpasses
    have harguments := hpasses.arguments
    rw [evalList_concat] at harguments
    obtain ⟨ws, s₁, hws, harguments⟩ := Prog.bind_eq_done.mp harguments
    obtain ⟨rs, s₂, hrs, harguments⟩ := Prog.bind_eq_done.mp harguments
    cases harguments
    rw [List.length_append, length_evalOnes m env va init s ws s₁ hws]
    congr 1
    by_cases he : ∃ base as inParens, e = .callExpression base as inParens
    · obtain ⟨base, as, inParens, rfl⟩ := he
      obtain ⟨callee, v, us, rfl, hget, hvalues⟩ := suppliedBy_call hlast
      obtain ⟨g, xs, s₃, zs, hcall, happly, hzs⟩ := passes_of_eval hrs
      obtain ⟨values', hget', hlength⟩ :=
        hreturns init callee as inParens rfl ws s₁ g xs s₃ zs s' hws hcall happly
      rw [hget] at hget'
      cases hget'
      rw [hvalues, hzs]
      cases inParens <;> simpa using hlength
    · obtain ⟨hsingle, hvalues⟩ :=
        suppliedBy_single hlast fun base as inParens heq => he ⟨base, as, inParens, heq⟩
      obtain ⟨v, hv⟩ := eval_single m env va false e hsingle s₁ rs s' hrs
      rw [hv, hvalues]
      rfl

/-- The analysed call of a chunk, evaluated at a state, is as the report says. -/
def CallCounted (d : Discovery N) (report : VarargReport) (m : Machine N) (env : Env)
    (va : List (Value N)) (s : State N) : Prop :=
  ∀ f vs s', Passes m env va d.name d.primaryCall.args s f vs s' → Counted report s' f vs

omit [LuaNumber N] in
/-- What the report counts, and when it claims to know it. -/
theorem report_counts {chunk : Chunk N} {d : Discovery N} {report : VarargReport}
    {traceResult : Option (TraceResult N)} {isL5WEligible : Bool} {externalInputs : List String}
    {escapingClosures : ℕ} (hd : discover chunk = some d)
    (hreport : buildReport chunk traceResult isL5WEligible externalInputs escapingClosures =
      some report) :
    report.suppliedArgumentCount =
        ((suppliedArgs (collectFunctions chunk) d.primaryCall.args).flatMap
          (fun o => o.getD [])).length ∧
      report.varargValueCount = report.suppliedArgumentCount - d.func.params.length ∧
      report.argumentCountKnown =
        !(suppliedArgs (collectFunctions chunk) d.primaryCall.args).any (fun vs => vs.isNone) := by
  rw [buildReport, staticWalk, hd, Option.map_some, varargReport, Option.some_inj] at hreport
  rw [← hreport]
  exact ⟨rfl, rfl, rfl⟩

/-- Every evaluation of the analysed call agrees with the report, exactly where what its last
argument calls returns as many values as were counted and where the closure that the call
reaches collects what the analysed function would. -/
theorem callCounted_iff {chunk : Chunk N} {d : Discovery N} {report : VarargReport}
    {traceResult : Option (TraceResult N)} {isL5WEligible : Bool} {externalInputs : List String}
    {escapingClosures : ℕ} (hd : discover chunk = some d)
    (hreport : buildReport chunk traceResult isL5WEligible externalInputs escapingClosures =
      some report)
    (hknown : report.argumentCountKnown = true) (runtime : Runtime N) (fuel : ℕ) (env : Env)
    (va : List (Value N)) (s : State N) :
    CallCounted d report (machine runtime fuel) env va s ↔
      LastCallReturns (collectFunctions chunk) (machine runtime fuel) env va d.primaryCall.args s ∧
      CollectsAs d.func (machine runtime fuel) env va d.name d.primaryCall.args s := by
  obtain ⟨hsupplied, hvarargs, hdynamic⟩ := report_counts hd hreport
  rw [hknown, eq_comm, Bool.not_eq_true'] at hdynamic
  have hlength : (∀ f vs s', Passes (machine runtime fuel) env va d.name d.primaryCall.args s f vs s'
      → vs.length = report.suppliedArgumentCount) ↔
        LastCallReturns (collectFunctions chunk) (machine runtime fuel) env va
          d.primaryCall.args s := by
    rw [hsupplied]
    exact length_eq_iff hdynamic
  constructor
  · intro hcounted
    constructor
    · exact hlength.mp fun f vs s' hpasses => (hcounted f vs s' hpasses).arguments
    · intro id vs s' c hpasses hc
      have hcall := hcounted _ vs s' hpasses
      apply restOf_eq_drop
      rw [hcall.varargs id c rfl hc, hvarargs, hcall.arguments]
  · rintro ⟨hreturns, hcollects⟩ f vs s' hpasses
    have harguments := hlength.mpr hreturns f vs s' hpasses
    refine ⟨harguments, fun id c hf hc => ?_⟩
    subst hf
    rw [hcollects id vs s' c hpasses hc, List.length_drop, harguments, hvarargs]

omit [LuaNumber N] in
/-- Of the functions of a name, the last in the chunk counts. -/
theorem get_collectFunctions (chunk : Chunk N) (name : String) :
    (collectFunctions chunk).get name =
      (chunk.nodes.filterMap namedFunction).reverse.lookup name := by
  rw [collectFunctions, InsertionMap.get_foldl_set, InsertionMap.get_empty, Option.or_none]

/-- The condition on the last argument, from the code of the closure called there. -/
theorem lastCallReturns_of_returns {functionMap : InsertionMap String (List (Value N))}
    {runtime : Runtime N} {fuel : ℕ} {env : Env} {va : List (Value N)} {args : List (Expr N)}
    {s : State N}
    (h : ∀ init name as inParens, args = init ++ [.callExpression (.identifier name) as inParens] →
      ∃ values, functionMap.get name = some values ∧ (inParens = true → values.length = 1) ∧
        ∀ ws s₁ g xs s₂, evalOnes (machine runtime fuel) env va init s = .done ws s₁ →
          Passes (machine runtime fuel) env va name as s₁ g xs s₂ →
            ∃ id c, g = .closure id ∧ s₂.closures[id]? = some c ∧ Returns values.length c.body) :
    LastCallReturns functionMap (machine runtime fuel) env va args s := by
  intro init name as inParens hargs ws s₁ g xs s₂ rs s₃ hws hpasses happly
  obtain ⟨values, hget, hparens, hcall⟩ := h init name as inParens hargs
  obtain ⟨id, c, hg, hc, hreturns⟩ := hcall ws s₁ g xs s₂ hws hpasses
  refine ⟨values, hget, ?_⟩
  cases inParens with
  | true => exact (hparens rfl).symm
  | false =>
    subst hg
    exact hreturns.callClosure hc happly

omit [LuaNumber N] in
theorem returnValues_eq_nil {ss : List (Stmt N)} (h : ∀ k, settledBlock k false ss = true) :
    returnValues ss = [] := by
  rw [returnValues, List.flatMap_eq_nil_iff]
  induction ss with
  | nil => simp
  | cons s ss ih =>
    have hparts : ∀ k, settledStmt k false s = true ∧ settledBlock k false ss = true := by
      intro k
      have hk := h k
      rwa [settledBlock, Bool.and_eq_true] at hk
    intro s' hs'
    obtain rfl | hs' := List.mem_cons.mp hs'
    · cases s' with
      | returnStatement args =>
        have hlength := (hparts (args.length+1)).1
        rw [settledStmt, Bool.and_eq_true, beq_iff_eq] at hlength
        omega
      | _ => rfl
    · exact ih (fun k => (hparts k).2) s' hs'

omit [LuaNumber N] in
theorem isMulti_of_constantValue {e : Expr N} (h : (constantValue e).isSome) :
    e.isMulti = false := by
  cases e <;> first | rfl | cases h

omit [LuaNumber N] in
/-- What is counted for a function whose only return comes last and lists literals is what
the function returns. -/
theorem returns_of_literals {ss : List (Stmt N)} {args : List (Expr N)}
    (hss : ∀ k, settledBlock k false ss = true)
    (hargs : ∀ a ∈ args, (constantValue a).isSome) :
    Returns (returnValues (ss ++ [.returnStatement args])).length
      (ss ++ [.returnStatement args]) := by
  have hcount : (returnValues (ss ++ [.returnStatement args])).length = args.length := by
    have happend : returnValues (ss ++ [.returnStatement args]) =
        returnValues ss ++ args.filterMap constantValue := by
      simp [returnValues, returnedLiterals]
    rw [happend, returnValues_eq_nil hss, List.nil_append]
    rw [List.length_filterMap_eq_countP]
    exact List.countP_eq_length.mpr hargs
  rw [hcount]
  have hlast : endsMulti args = false := by
    rw [endsMulti]
    cases h : args.getLast? with
    | none => rfl
    | some e => exact isMulti_of_constantValue (hargs e (List.mem_of_getLast? h))
  refine ⟨?_, .inr ⟨ss, args, rfl⟩⟩
  rw [settledBlock_append, hss, settledBlock, settledStmt, hlast]
  simp [settledBlock]

end Counts

section Cases

/-- `local function values() return "a", nil end` before
`local function pass(...) return ... end`. -/
def valuesAndPass : List (Stmt ℤ) :=
  [.localFunctionStatement (.identifier "values") [] false
    [.returnStatement [.stringLiteral [97], .nilLiteral]],
   .localFunctionStatement (.identifier "pass") [] true [.returnStatement [.varargLiteral false]]]

/-- The chunk that then calls `pass` with the given argument. -/
def callPass (arg : Expr ℤ) : Chunk ℤ :=
  ⟨valuesAndPass ++ [.callStatement (.callExpression (.identifier "pass") [arg] false)]⟩

/-- The `nil` that `values` returns second is an argument that is not counted. -/
theorem returned_nil_uncounted :
    ∃ d report env s,
      discover (callPass (.callExpression (.identifier "values") [] false)) = some d ∧
      buildReport (callPass (.callExpression (.identifier "values") [] false)) none false [] 0 =
        some report ∧
      report.argumentCountKnown = true ∧
      execBlock (machine silentHost 2) [] [] valuesAndPass (initialState fun _ => .nil) =
        .done (env, .normal) s ∧
      ¬ CallCounted d report (machine silentHost 2) env [] s := by
  refine ⟨_, _, _, _, rfl, rfl, rfl, rfl, fun h => ?_⟩
  have hcount := (h _ _ _ ⟨rfl, rfl⟩).arguments
  have htwo : 2 = 1 := hcount
  cases htwo

/-- `local function pair() return "b", "c" end` before
`local function pass(...) return ... end`. -/
def pairAndPass : List (Stmt ℤ) :=
  [.localFunctionStatement (.identifier "pair") [] false
    [.returnStatement [.stringLiteral [98], .stringLiteral [99]]],
   .localFunctionStatement (.identifier "pass") [] true [.returnStatement [.varargLiteral false]]]

/-- The arguments of `pass("a", pair())`. -/
def literalAndPair : List (Expr ℤ) :=
  [.stringLiteral [97], .callExpression (.identifier "pair") [] false]

def callPair : Chunk ℤ :=
  ⟨pairAndPass ++ [.callStatement (.callExpression (.identifier "pass") literalAndPair false)]⟩

/-- The state after both functions are defined. -/
def definedState : State ℤ :=
  (execBlock (machine silentHost 2) [] [] pairAndPass (initialState fun _ => .nil)).state

/-- In `pass("a", pair())` the literal and both values of the inner call are counted. -/
theorem literal_counted :
    CallCounted
      ⟨⟨some "pass", [], [.returnStatement [.varargLiteral false]]⟩, "pass", ⟨.returnTail, 1⟩,
        ⟨literalAndPair, .elsewhere⟩⟩
      ⟨true, true, true, 3, 3, 1, 3, 0, .returnTail, false, false, false⟩
      (machine silentHost 2) [("pass", 1), ("pair", 0)] [] definedState := by
  have hd : discover callPair =
      some ⟨⟨some "pass", [], [.returnStatement [.varargLiteral false]]⟩, "pass",
        ⟨.returnTail, 1⟩, ⟨literalAndPair, .elsewhere⟩⟩ := rfl
  have hreport : buildReport callPair none false [] 0 =
      some ⟨true, true, true, 3, 3, 1, 3, 0, .returnTail, false, false, false⟩ := rfl
  refine (callCounted_iff hd hreport rfl silentHost 2 _ [] _).mpr ⟨?_, ?_⟩
  · refine lastCallReturns_of_returns fun init name as inParens hargs => ?_
    have hsplit : [.stringLiteral [97]] ++ [.callExpression (.identifier "pair") [] false] =
        init ++ [.callExpression (.identifier name) as inParens] := hargs
    obtain ⟨rfl, hcall⟩ := List.append_inj' hsplit rfl
    cases hcall
    refine ⟨[.string [98], .string [99]], rfl, fun h => (Bool.false_ne_true h).elim, ?_⟩
    intro ws s₁ g xs s₂ hws hpasses
    cases hws
    cases hpasses.callee
    cases hpasses.arguments
    have hreturns := @returns_of_literals ℤ [] [.stringLiteral [98], .stringLiteral [99]]
      (fun _ => rfl) (by simp [constantValue])
    exact ⟨0, _, rfl, rfl, hreturns⟩
  · intro id vs s' c hpasses hc
    have hcallee : Outcome.done (Value.closure 1) definedState = .done (.closure id) definedState :=
      hpasses.callee
    cases hcallee
    cases hpasses.arguments
    cases hc
    rfl

end Cases
end LuaRecovery.Analysis.VarargAnalyzer
