import LuaRecovery.Lua.Interpreter
import LuaRecovery.Oracle.SemanticOracle

/-!
# What a synthesized chunk does

`replay` computes the calls and results of the chunk that `synthesizeAST`
builds, without running it. The run agrees with it whenever the runtime
answers the calls of `print` and `warn` with values.
-/

set_option autoImplicit false

namespace LuaRecovery.Oracle
open LuaRecovery.Lib LuaRecovery.Lua

section Replay
variable {N : Type} [LuaNumber N]

/-- The targets that the harness spies on. -/
def IsSpy (name : String) : Prop := name = "print" ∨ name = "warn"

/-- The value of the literal that stands for a recorded value. -/
def Recorded.value : Recorded N → Value N
  | .string s => .string s
  | .number n => .number n
  | .boolean b => .boolean b
  | .nil => .nil
  | a => .string a.jsString

def callEvent (target : String) (values : List (Value N)) : Event N :=
  ⟨.call (.foreign target), values⟩

/-- An argument inside a loop: a number equal to the start follows the loop variable. -/
def substituted (start x : N) : Recorded N → Value N
  | .number n => if LuaNumber.eq n start then .number x else .number n
  | a => a.value

/-- The calls of the loop body when the loop variable is `x`. -/
def bodyCalls (info : LoopInfo N) (x : N) : ℕ → List (TraceEvent N) → List (Event N)
  | p, .call t args :: es =>
      callEvent t (args.map (if p = info.offset then substituted info.start x else Recorded.value)) ::
        bodyCalls info x (p+1) es
  | p, .ret _ :: es => bodyCalls info x (p+1) es
  | _, [] => []

/-- The values of a numeric loop's variable, if it ends within the fuel. -/
def loopValues (stop step : N) : ℕ → N → Option (List N)
  | 0, _ => none
  | n+1, x =>
      if inRange x stop step then (loopValues stop step n (LuaNumber.add x step)).map (x :: ·)
      else some []

def LoopInfo.stop (info : LoopInfo N) : N :=
  LuaNumber.add info.start (LuaNumber.mul (LuaNumber.ofNat (info.iterations-1)) info.step)

/-- The calls and results of the synthesized chunk; a return ends the chunk. -/
def replay (n : ℕ) : ℕ → List (TraceEvent N) → Option (List (Event N) × List (Value N))
  | 0, _ => some ([], [])
  | _, [] => some ([], [])
  | fuel+1, e::es =>
      match detectLoop (e::es) 4 1 with
      | some info => do
          let xs ← loopValues info.stop info.step n info.start
          let r ← replay n fuel ((e::es).drop (info.iterations*info.period))
          some (xs.flatMap (fun x => bodyCalls info x 0 ((e::es).take info.period)) ++ r.1, r.2)
      | none => match e with
          | .call t args => do
              let r ← replay n fuel es
              some (callEvent t (args.map Recorded.value) :: r.1, r.2)
          | .ret v => some ([], [.string v.jsString])

end Replay

section Run
variable {N : Type} [LuaNumber N]

/-- The runtime answers the spies with values: they neither raise nor call back. -/
def AnswersSpies (runtime : Runtime N) : Prop :=
  ∀ history heap name args, IsSpy name →
    ∃ heap' rs, runtime (history ++ [callEvent name args]) heap = .values heap' rs

/-- The names of the spies still denote them. -/
def SpiesBound (globals : String → Value N) : Prop :=
  ∀ name, IsSpy name → globals name = .foreign name

/-- Every call of the events is one of a spy. -/
def SpyCalls (events : List (TraceEvent N)) : Prop :=
  ∀ t args, TraceEvent.call t args ∈ events → IsSpy t

omit [LuaNumber N] in
theorem calleeExpr_spy {t : String} (h : IsSpy t) : (calleeExpr t : Expr N) = .identifier t := by
  obtain h | h := h <;> subst h <;> rfl

theorem spy_ne_loop_variable {t : String} (h : IsSpy t) : (t == "i") = false := by
  obtain h | h := h <;> subst h <;> decide

theorem evalList_pure (m : Machine N) (env : Env) (va : List (Value N)) (s : State N)
    {α : Type} (e : α → Expr N) (v : α → Value N)
    (h : ∀ a, eval m env va false (e a) s = .done [v a] s) (as : List α) :
    evalList m env va (as.map e) s = .done (as.map v) s := by
  induction as with
  | nil => rfl
  | cons a as ih =>
    cases as with
    | nil => simpa [evalList] using h a
    | cons b bs =>
      have hone : one (eval m env va false (e a)) s = .done (v a) s := by
        rw [one, Prog.bind_done _ _ s s _ (h a)]
        rfl
      simp only [List.map_cons, evalList] at ih ⊢
      rw [Prog.bind_done _ _ s s _ hone, Prog.bind_done _ _ s s _ ih]
      rfl

theorem eval_toExpr (m : Machine N) (env : Env) (va : List (Value N)) (s : State N)
    (a : Recorded N) : eval m env va false (toExpr none a) s = .done [a.value] s := by
  cases a <;> rfl

theorem eval_toExpr_substituted (m : Machine N) (env : Env) (va : List (Value N)) (s : State N)
    {c : ℕ} {start x : N} (henv : env.lookup "i" = some c) (hc : s.cells c = .number x)
    (a : Recorded N) :
    eval m env va false (toExpr (some ("i", start)) a) s = .done [substituted start x a] s := by
  cases a with
  | number n =>
    by_cases h : LuaNumber.eq n start
    · simp [toExpr, substituted, h, eval, readName, henv, readCell, Prog.bind_apply, hc]
    · simp [toExpr, substituted, h, eval, numericLiteral]
  | string b => rfl
  | boolean b => rfl
  | nil => rfl
  | object type text => rfl
  | other type => rfl

/-- A stretch of a run that makes these calls and leaves the globals alone. -/
def Calls (s : State N) (events : List (Event N)) (s' : State N) : Prop :=
  s'.history = s.history ++ events ∧ s'.globals = s.globals

omit [LuaNumber N] in
theorem Calls.refl (s : State N) : Calls s [] s := by simp [Calls]

omit [LuaNumber N] in
theorem Calls.trans {s₁ s₂ s₃ : State N} {e₁ e₂ : List (Event N)}
    (h : Calls s₁ e₁ s₂) (h' : Calls s₂ e₂ s₃) : Calls s₁ (e₁++e₂) s₃ := by
  obtain ⟨h1, h2⟩ := h
  obtain ⟨h1', h2'⟩ := h'
  exact ⟨by rw [h1', h1, List.append_assoc], h2'.trans h2⟩

omit [LuaNumber N] in
theorem perform_spy {m : Machine N} (hm : AnswersSpies m.runtime) {t : String} (ht : IsSpy t)
    (vs : List (Value N)) (s : State N) :
    ∃ rs s', perform m (.call (.foreign t)) vs s = .done rs s' ∧
      Calls s [callEvent t vs] s' ∧ s'.cells = s.cells := by
  obtain ⟨heap', rs, h⟩ := hm s.history s.heap t vs ht
  refine ⟨rs, { s with history := s.history ++ [callEvent t vs], heap := heap' }, ?_, ?_⟩
  · simp only [callEvent] at h
    simp [perform, Prog.bind_apply, h, runReply, setHeap, callEvent]
  · simp [Calls]

theorem exec_call {m : Machine N} (hm : AnswersSpies m.runtime) {env : Env} {s : State N}
    {t : String} (ht : IsSpy t) (henv : env.lookup t = none) (hs : SpiesBound s.globals)
    {args : List (Expr N)} {vs : List (Value N)}
    (hargs : evalList m env [] args s = .done vs s) :
    ∃ s', exec m env [] (.callStatement (.callExpression (calleeExpr t) args false)) s =
      .done (env, .normal) s' ∧ Calls s [callEvent t vs] s' ∧ s'.cells = s.cells := by
  obtain ⟨rs, s', hp, hc⟩ := perform_spy hm ht vs s
  refine ⟨s', ?_, hc⟩
  rw [calleeExpr_spy ht]
  simp [exec, eval, one, readName, henv, readGlobal, Prog.bind_apply, hs t ht, first, hargs,
    apply, hp]

/-- The body of a loop makes the calls of one period. -/
theorem execBlock_loopBody {m : Machine N} (hm : AnswersSpies m.runtime) {env : Env} {c : ℕ}
    {x : N} (info : LoopInfo N) (henv : env = [("i", c)]) (es : List (TraceEvent N))
    (hes : SpyCalls es) (p : ℕ) (s : State N) (hs : SpiesBound s.globals)
    (hc : s.cells c = .number x) :
    ∃ s', execBlock m env [] (loopBody info p es) s = .done (env, .normal) s' ∧
      Calls s (bodyCalls info x p es) s' := by
  induction es generalizing p s with
  | nil => exact ⟨s, rfl, Calls.refl s⟩
  | cons e es ih =>
    have hes' : SpyCalls es := fun t args h => hes t args (List.mem_cons_of_mem _ h)
    cases e with
    | ret v => exact ih hes' (p+1) s hs hc
    | call t args =>
      have ht : IsSpy t := hes t args List.mem_cons_self
      have hlookup : env.lookup t = none := by
        rw [henv, List.lookup_cons, spy_ne_loop_variable ht]
        rfl
      have hargs : evalList m env []
          (args.map (toExpr (if p = info.offset then some ("i", info.start) else none))) s =
          .done (args.map (if p = info.offset then substituted info.start x
            else Recorded.value)) s := by
        split
        · exact evalList_pure m env [] s _ _
            (eval_toExpr_substituted m env [] s (by rw [henv]; rfl) hc) args
        · exact evalList_pure m env [] s _ _ (eval_toExpr m env [] s) args
      obtain ⟨s₁, h₁, hc₁, hcells⟩ := exec_call hm ht hlookup hs hargs
      obtain ⟨s₂, h₂, hc₂⟩ := ih hes' (p+1) s₁ (hc₁.2 ▸ hs) (by rw [hcells, hc])
      refine ⟨s₂, ?_, hc₁.trans hc₂⟩
      rw [loopBody, execBlock, createCallStmt, Prog.bind_done _ _ _ _ _ h₁]
      exact h₂

/-- A loop whose body makes the calls `calls x` makes those of all its values. -/
theorem iterate_numericRound {stop step : N} {body : N → Run N (Signal N)}
    {calls : N → List (Event N)}
    (hbody : ∀ x s, SpiesBound s.globals → ∃ s', body x s = .done .normal s' ∧ Calls s (calls x) s')
    (n : ℕ) (x : N) (xs : List N) (hxs : loopValues stop step n x = some xs)
    (s : State N) (hs : SpiesBound s.globals) :
    ∃ s', Prog.iterate (numericRound stop step body) n x s = .done .normal s' ∧
      Calls s (xs.flatMap calls) s' := by
  induction n generalizing x xs s with
  | zero => cases hxs
  | succ n ih =>
    rw [loopValues] at hxs
    split at hxs
    · rename_i hin
      obtain ⟨ys, hys, rfl⟩ := Option.map_eq_some_iff.mp hxs
      obtain ⟨s₁, h₁, hc₁⟩ := hbody x s hs
      obtain ⟨s₂, h₂, hc₂⟩ := ih _ ys hys s₁ (hc₁.2 ▸ hs)
      have hround : numericRound stop step body x s = .done (.inl (LuaNumber.add x step)) s₁ := by
        rw [numericRound, if_pos hin, Prog.bind_done _ _ _ _ _ h₁]
        rfl
      refine ⟨s₂, ?_, hc₁.trans hc₂⟩
      rw [Prog.iterate, Prog.bind_eq, Prog.bind_done _ _ _ _ _ hround]
      exact h₂
    · rename_i hout
      cases hxs
      refine ⟨s, ?_, Calls.refl s⟩
      rw [Prog.iterate, Prog.bind_eq, numericRound, if_neg hout]
      rfl

theorem exec_numericFor {m : Machine N} {env : Env} {va : List (Value N)} {s s' : State N}
    {v a b : Expr N} {c : Option (Expr N)} {body : Block N} {x y z : N} {sig : Signal N}
    (ha : one (eval m env va false a) s = .done (.number x) s)
    (hb : one (eval m env va false b) s = .done (.number y) s)
    (hc : stepValue m env va c s = .done (.number z) s)
    (h : Prog.iterate (numericRound y z (fun x => do
      let env' ← declare env [v] [.number x]
      return (← execBlock m env' va body).2)) m.fuel x s = .done sig s') :
    exec m env va (.numericForStatement v a b c body) s = .done (env, sig) s' := by
  rw [exec, Prog.bind_done _ _ _ _ _ ha, Prog.bind_done _ _ _ _ _ hb,
    Prog.bind_done _ _ _ _ _ hc, loopBounds, Prog.pure_bind_apply,
    Prog.bind_done _ _ _ _ _ h]
  rfl

theorem exec_loopStmt {runtime : Runtime N} (hr : AnswersSpies runtime) {n : ℕ}
    {info : LoopInfo N} {events : List (TraceEvent N)} (hes : SpyCalls events) {xs : List N}
    (hxs : loopValues info.stop info.step n info.start = some xs)
    (hstep : LuaNumber.eq info.step LuaNumber.one = true → info.step = LuaNumber.one)
    (s : State N) (hs : SpiesBound s.globals) :
    ∃ s', exec (machine runtime n) [] [] (loopStmt info events) s = .done ([], .normal) s' ∧
      Calls s (xs.flatMap (fun x => bodyCalls info x 0 (events.take info.period))) s' := by
  have hbody : ∀ x s, SpiesBound s.globals → ∃ s',
      (do
        let env' ← declare [] [.identifier "i"] [.number x]
        return (← execBlock (machine runtime n) env' []
          (loopBody info 0 (events.take info.period))).2 : Run N (Signal N)) s = .done .normal s' ∧
      Calls s (bodyCalls info x 0 (events.take info.period)) s' := by
    intro x s hs
    obtain ⟨s', h, hc⟩ := execBlock_loopBody (m := machine runtime n) hr (x := x) info
      rfl
      (events.take info.period) (fun t args h => hes t args (List.mem_of_mem_take h)) 0
      { s with cells := Function.update s.cells s.nextCell (.number x), nextCell := s.nextCell+1 }
      hs (Function.update_self ..)
    refine ⟨s', ?_, hc⟩
    simp [declare, Expr.name?, newCell, Prog.bind_apply, first, h]
  obtain ⟨s', h, hc⟩ := iterate_numericRound hbody n info.start xs hxs s hs
  refine ⟨s', ?_, hc⟩
  have hvalue : stepValue (machine runtime n) [] [] (if LuaNumber.eq info.step LuaNumber.one
      then none else some (numericLiteral info.step)) s = .done (.number info.step) s := by
    split
    · rename_i he
      rw [hstep he]
      rfl
    · rfl
  exact exec_numericFor rfl rfl hvalue h

theorem exec_eventStmt_call {m : Machine N} (hm : AnswersSpies m.runtime) {t : String}
    (ht : IsSpy t) (args : List (Recorded N)) (s : State N) (hs : SpiesBound s.globals) :
    ∃ s', exec m [] [] (eventStmt (.call t args)) s = .done ([], .normal) s' ∧
      Calls s [callEvent t (args.map Recorded.value)] s' := by
  obtain ⟨s', h, hc, -⟩ := exec_call hm ht rfl hs
    (evalList_pure m [] [] s _ _ (eval_toExpr m [] [] s) args)
  exact ⟨s', h, hc⟩

/-- The synthesized chunk runs as its replay says. -/
theorem execBlock_synthesizeStmts {runtime : Runtime N} (hr : AnswersSpies runtime)
    (hone : ∀ x : N, LuaNumber.eq x LuaNumber.one = true → x = LuaNumber.one) {n : ℕ} (fuel : ℕ)
    (events : List (TraceEvent N)) (hes : SpyCalls events) (calls : List (Event N))
    (results : List (Value N)) (h : replay n fuel events = some (calls, results))
    (s : State N) (hs : SpiesBound s.globals) :
    ∃ sig s', execBlock (machine runtime n) [] [] (synthesizeStmts fuel events) s =
      .done ([], sig) s' ∧ sig.results = results ∧ Calls s calls s' := by
  induction fuel generalizing events calls results s with
  | zero =>
    cases h
    exact ⟨.normal, s, rfl, rfl, Calls.refl s⟩
  | succ fuel ih =>
    cases events with
    | nil =>
      cases h
      exact ⟨.normal, s, rfl, rfl, Calls.refl s⟩
    | cons e es =>
      rw [synthesizeStmts]
      rw [replay.eq_def] at h
      cases hd : detectLoop (e::es) 4 1 with
      | some info =>
        simp only [hd, Option.bind_eq_bind, Option.bind_eq_some_iff] at h ⊢
        obtain ⟨xs, hxs, ⟨calls', results'⟩, hrest, heq⟩ := h
        cases heq
        obtain ⟨s₁, h₁, hc₁⟩ := exec_loopStmt hr hes hxs (hone _) s hs
        obtain ⟨sig, s₂, h₂, hres, hc₂⟩ := ih _ (fun t args h => hes t args (List.mem_of_mem_drop h))
          _ _ hrest s₁ (hc₁.2 ▸ hs)
        refine ⟨sig, s₂, ?_, hres, hc₁.trans hc₂⟩
        rw [execBlock, Prog.bind_done _ _ _ _ _ h₁]
        exact h₂
      | none =>
        cases e with
        | call t args =>
          simp only [hd, Option.bind_eq_bind, Option.bind_eq_some_iff] at h ⊢
          obtain ⟨⟨calls', results'⟩, hrest, heq⟩ := h
          cases heq
          obtain ⟨s₁, h₁, hc₁⟩ := exec_eventStmt_call (m := machine runtime n) hr
            (hes t args List.mem_cons_self) args s hs
          obtain ⟨sig, s₂, h₂, hres, hc₂⟩ := ih _
            (fun t args h => hes t args (List.mem_cons_of_mem _ h)) _ _ hrest s₁ (hc₁.2 ▸ hs)
          refine ⟨sig, s₂, ?_, hres, hc₁.trans hc₂⟩
          rw [execBlock, Prog.bind_done _ _ _ _ _ h₁]
          exact h₂
        | ret v =>
          simp only [hd, Option.some.injEq, Prod.mk.injEq] at h ⊢
          obtain ⟨rfl, rfl⟩ := h
          exact ⟨.returned [.string v.jsString], s, rfl, rfl, Calls.refl s⟩

theorem run_synthesizeAST {runtime : Runtime N} (hr : AnswersSpies runtime)
    (hone : ∀ x : N, LuaNumber.eq x LuaNumber.one = true → x = LuaNumber.one) {n : ℕ}
    {events : List (TraceEvent N)} (hes : SpyCalls events) {calls : List (Event N)}
    {results : List (Value N)} (h : replay n events.length events = some (calls, results))
    (s : State N) (hs : SpiesBound s.globals) :
    ∃ s', runChunk runtime n (synthesizeAST events) s = .done results s' ∧ Calls s calls s' := by
  obtain ⟨sig, s', hrun, hres, hc⟩ :=
    execBlock_synthesizeStmts hr hone events.length events hes calls results h s hs
  refine ⟨s', ?_, hc⟩
  rw [runChunk, synthesizeAST, Prog.bind_done _ _ _ _ _ hrun, hres]
  rfl

end Run
end LuaRecovery.Oracle
