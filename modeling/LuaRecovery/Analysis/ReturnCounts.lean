import LuaRecovery.Transforms.Inertness

/-!
# How many values a function returns

A block that only returns lists of one length, and that no `break` leaves, yields
that many values whenever it yields any: whichever of its returns is reached.
-/

set_option autoImplicit false

namespace LuaRecovery.Analysis
open LuaRecovery.Lib LuaRecovery.Lua LuaRecovery.Transforms

section Lists
variable {N : Type}

/-- The last expression of the list can yield another number of values than one. -/
def endsMulti (es : List (Expr N)) : Bool := es.getLast?.any Expr.isMulti

theorem endsMulti_tail {e e' : Expr N} {es : List (Expr N)} :
    endsMulti (e::e'::es) = endsMulti (e'::es) := by
  simp [endsMulti, List.getLast?_cons_cons]

variable [LuaNumber N]

/-- A list that does not end in a call or in `...` yields a value for each expression. -/
theorem length_evalList (m : Machine N) (env : Env) (va : List (Value N)) (es : List (Expr N))
    (h : endsMulti es = false) :
    Yields (fun vs => vs.length = es.length) (evalList m env va es) := by
  induction es with
  | nil => exact Yields.pure rfl
  | cons e es ih =>
    cases es with
    | nil =>
      have he : e.isMulti = false := by simpa [endsMulti] using h
      refine (eval_single m env va false e he).imp fun vs hvs => ?_
      obtain ⟨v, hv⟩ := hvs
      rw [hv]
      rfl
    | cons e' es =>
      rw [endsMulti_tail] at h
      exact Yields.bind fun v => Yields.next (ih h) fun vs hvs => Yields.pure (congrArg (· + 1) hvs)

end Lists

section Statements
variable {N : Type}

mutual

/-- Every return in the statement lists `k` values and, outside a loop, no `break`
or `continue` leaves it. -/
def settledStmt (k : ℕ) (inLoop : Bool) : Stmt N → Bool
  | .localStatement _ _ => true
  | .assignmentStatement _ _ => true
  | .localFunctionStatement _ _ _ _ => true
  | .functionDeclaration _ _ _ _ _ => true
  | .callStatement _ => true
  | .ifStatement clauses elseBody =>
      settledClauses k inLoop clauses && (match elseBody with
        | none => true
        | some body => settledBlock k inLoop body)
  | .whileStatement _ body => settledBlock k true body
  | .repeatStatement _ body => settledBlock k true body
  | .numericForStatement _ _ _ _ body => settledBlock k true body
  | .genericForStatement _ _ body => settledBlock k true body
  | .doStatement body => settledBlock k inLoop body
  | .returnStatement args => args.length == k && !endsMulti args
  | .breakStatement => inLoop
  | .continueStatement => inLoop
  | .emptyStatement => true

def settledBlock (k : ℕ) (inLoop : Bool) : List (Stmt N) → Bool
  | [] => true
  | s::ss => settledStmt k inLoop s && settledBlock k inLoop ss

def settledClauses (k : ℕ) (inLoop : Bool) : List (IfClause N) → Bool
  | [] => true
  | .mk _ body :: cs => settledBlock k inLoop body && settledClauses k inLoop cs

end

/-- The ways in which a settled statement can end. -/
def Allowed (k : ℕ) (inLoop : Bool) : Signal N → Prop
  | .normal => True
  | .broke => inLoop = true
  | .continued => inLoop = true
  | .returned vs => vs.length = k

theorem allowed_afterBody {k : ℕ} {inLoop : Bool} {sig sig' : Signal N}
    (h : Allowed k true sig) (h' : afterBody sig = some sig') : Allowed k inLoop sig' := by
  cases sig with
  | normal => cases h'
  | continued => cases h'
  | broke => cases h'; trivial
  | returned vs => cases h'; exact h

/-- Whether a loop goes on after its body, it ends as it may. -/
theorem allowed_round {α : Type} {k : ℕ} {inLoop : Bool} {sig : Signal N} (a : α)
    (h : Allowed k true sig) :
    Yields (fun r => ∀ sig', r = .inr sig' → Allowed k inLoop sig')
      (match afterBody sig with
        | none => pure (.inl a)
        | some sig => pure (.inr sig) : Run N (α ⊕ Signal N)) := by
  cases hsig : afterBody sig with
  | none => exact Yields.pure fun _ hr => by cases hr
  | some sig₁ =>
    refine Yields.pure fun sig' hr => ?_
    cases hr
    exact allowed_afterBody h hsig

variable [LuaNumber N]

mutual

theorem allowed_exec (m : Machine N) (va : List (Value N)) (k : ℕ) :
    ∀ (s : Stmt N) (env : Env) (inLoop : Bool), settledStmt k inLoop s = true →
      Yields (fun r => Allowed k inLoop r.2) (exec m env va s)
  | .localStatement _ _, _, _, _ => Yields.bind fun _ => Yields.bind fun _ => Yields.pure trivial
  | .assignmentStatement _ _, _, _, _ =>
      Yields.bind fun _ => Yields.bind fun _ => Yields.bind fun _ => Yields.pure trivial
  | .localFunctionStatement identifier _ _ _, _, _, _ => by
      refine Yields.bind fun env' => Yields.bind fun f => ?_
      cases identifier.name? with
      | none => exact Yields.bind fun _ => Yields.pure trivial
      | some name => exact Yields.bind fun _ => Yields.pure trivial
  | .functionDeclaration name _ _ _ _, _, _, _ => by
      rw [exec]
      cases functionName name with
      | none => exact Yields.raise _
      | some path => exact Yields.bind fun _ => Yields.bind fun _ => Yields.pure trivial
  | .callStatement _, _, _, _ => Yields.bind fun _ => Yields.pure trivial
  | .ifStatement clauses none, env, inLoop, h => by
      rw [settledStmt, Bool.and_true] at h
      rw [exec_if]
      refine Yields.next (allowed_execClauses m va k clauses env inLoop h) fun o ho => ?_
      cases o with
      | none => exact Yields.pure trivial
      | some sig => exact Yields.pure (ho sig rfl)
  | .ifStatement clauses (some body), env, inLoop, h => by
      rw [settledStmt, Bool.and_eq_true] at h
      rw [exec_if]
      refine Yields.next (allowed_execClauses m va k clauses env inLoop h.1) fun o ho => ?_
      cases o with
      | none =>
        exact Yields.next (allowed_execBlock m va k body env inLoop h.2) fun r hr => Yields.pure hr
      | some sig => exact Yields.pure (ho sig rfl)
  | .whileStatement condition body, env, inLoop, h => by
      refine Yields.next (Yields.iterate (fun _ => Yields.bind fun c => ?_) m.fuel ())
        fun sig hsig => Yields.pure hsig
      by_cases hc : c.truthy = true
      · rw [if_pos hc]
        exact Yields.next (allowed_execBlock m va k body env true h) fun r hr => allowed_round () hr
      · rw [if_neg hc]
        exact Yields.pure fun sig hr => by cases hr; trivial
  | .repeatStatement condition body, env, inLoop, h => by
      refine Yields.next (Yields.iterate (fun _ => ?_) m.fuel ()) fun sig hsig => Yields.pure hsig
      refine Yields.next (allowed_execBlock m va k body env true h) fun r hr => ?_
      cases hsig : afterBody r.2 with
      | some sig₁ =>
        refine Yields.pure fun sig' heq => ?_
        cases heq
        exact allowed_afterBody hr hsig
      | none =>
        refine Yields.bind fun c => Yields.pure fun sig' heq => ?_
        by_cases hc : c.truthy = true
        · rw [if_pos hc] at heq
          cases heq
          trivial
        · rw [if_neg hc] at heq
          cases heq
  | .numericForStatement _ _ _ _ body, env, inLoop, h => by
      refine Yields.bind fun _ => Yields.bind fun _ => Yields.bind fun _ => Yields.bind fun r =>
        Yields.next (Yields.iterate (fun x => ?_) m.fuel r.1) fun sig hsig => Yields.pure hsig
      unfold numericRound
      by_cases hin : inRange x r.2.1 r.2.2 = true
      · rw [if_pos hin]
        refine Yields.next (P := fun sig => Allowed k true sig) ?_ fun sig hsig => allowed_round _ hsig
        exact Yields.bind fun env' =>
          Yields.next (allowed_execBlock m va k body env' true h) fun r hr => Yields.pure hr
      · rw [if_neg hin]
        exact Yields.pure fun sig hr => by cases hr; trivial
  | .genericForStatement _ _ body, env, inLoop, h => by
      refine Yields.bind fun vs => Yields.next (Yields.iterate (fun x => ?_) m.fuel _)
        fun sig hsig => Yields.pure hsig
      refine Yields.bind fun ws => ?_
      split
      · exact Yields.pure fun sig hr => by cases hr; trivial
      · refine Yields.next (P := fun sig => Allowed k true sig) ?_
          fun sig hsig => allowed_round (first ws) hsig
        exact Yields.bind fun env' =>
          Yields.next (allowed_execBlock m va k body env' true h) fun r hr => Yields.pure hr
  | .doStatement body, env, inLoop, h =>
      Yields.next (allowed_execBlock m va k body env inLoop h) fun _ hr => Yields.pure hr
  | .returnStatement args, env, inLoop, h => by
      rw [settledStmt, Bool.and_eq_true, beq_iff_eq, Bool.not_eq_true'] at h
      exact Yields.next (length_evalList m env va args h.2) fun vs hvs => Yields.pure (hvs.trans h.1)
  | .breakStatement, _, _, h => Yields.pure h
  | .continueStatement, _, _, h => Yields.pure h
  | .emptyStatement, _, _, _ => Yields.pure trivial

theorem allowed_execBlock (m : Machine N) (va : List (Value N)) (k : ℕ) :
    ∀ (ss : List (Stmt N)) (env : Env) (inLoop : Bool), settledBlock k inLoop ss = true →
      Yields (fun r => Allowed k inLoop r.2) (execBlock m env va ss)
  | [], _, _, _ => Yields.pure trivial
  | s::ss, env, inLoop, h => by
      rw [settledBlock, Bool.and_eq_true] at h
      refine Yields.next (allowed_exec m va k s env inLoop h.1) fun r hr => ?_
      cases hsig : r.2 with
      | normal => exact allowed_execBlock m va k ss r.1 inLoop h.2
      | _ =>
        rw [hsig] at hr
        exact Yields.pure hr

theorem allowed_execClauses (m : Machine N) (va : List (Value N)) (k : ℕ) :
    ∀ (cs : List (IfClause N)) (env : Env) (inLoop : Bool), settledClauses k inLoop cs = true →
      Yields (fun o => ∀ sig, o = some sig → Allowed k inLoop sig) (execClauses m env va cs)
  | [], _, _, _ => Yields.pure fun _ h => by cases h
  | .mk condition body :: cs, env, inLoop, h => by
      rw [settledClauses, Bool.and_eq_true] at h
      refine Yields.bind fun c => ?_
      by_cases hc : c.truthy = true
      · rw [if_pos hc]
        refine Yields.next (allowed_execBlock m va k body env inLoop h.1) fun r hr =>
          Yields.pure fun sig hsig => ?_
        cases hsig
        exact hr
      · rw [if_neg hc]
        exact allowed_execClauses m va k cs env inLoop h.2

end

/-- Each way out of the body yields `k` values. -/
structure Returns (k : ℕ) (body : List (Stmt N)) : Prop where
  settled : settledBlock k false body = true
  ends : k = 0 ∨ ∃ ss args, body = ss ++ [.returnStatement args]

omit [LuaNumber N] in
theorem settledBlock_append (k : ℕ) (inLoop : Bool) (ss ss' : List (Stmt N)) :
    settledBlock k inLoop (ss ++ ss') = (settledBlock k inLoop ss && settledBlock k inLoop ss') := by
  induction ss with
  | nil => simp [settledBlock]
  | cons s ss ih => simp [settledBlock, ih, Bool.and_assoc]

/-- A settled block that ends in a return does return. -/
theorem returned_execBlock (m : Machine N) (va : List (Value N)) (k : ℕ) (args : List (Expr N))
    (ss : List (Stmt N)) (env : Env)
    (h : settledBlock k false (ss ++ [.returnStatement args]) = true) :
    Yields (fun r => r.2.results.length = k)
      (execBlock m env va (ss ++ [.returnStatement args])) := by
  induction ss generalizing env with
  | nil =>
    have hblock := allowed_execBlock m va k _ env false h
    intro s r s' hr
    have hr' := hr
    rw [List.nil_append, execBlock, exec] at hr'
    obtain ⟨r₁, s₁, hreturn, hr'⟩ := Prog.bind_eq_done.mp hr'
    obtain ⟨vs, s₂, hvs, hreturn⟩ := Prog.bind_eq_done.mp hreturn
    cases hreturn
    cases hr'
    exact hblock s _ _ hr
  | cons s ss ih =>
    rw [List.cons_append, settledBlock, Bool.and_eq_true] at h
    rw [List.cons_append]
    refine Yields.next (allowed_exec m va k s env false h.1) fun r hr => ?_
    cases hsig : r.2 with
    | normal => exact ih r.1 h.2
    | returned vs =>
      rw [hsig] at hr
      exact Yields.pure hr
    | broke =>
      rw [hsig] at hr
      cases hr
    | continued =>
      rw [hsig] at hr
      cases hr

theorem Returns.results {k : ℕ} {body : List (Stmt N)} (h : Returns k body) (m : Machine N)
    (env : Env) (va : List (Value N)) :
    Yields (fun r => r.2.results.length = k) (execBlock m env va body) := by
  obtain hk | ⟨ss, args, hbody⟩ := h.ends
  · refine (allowed_execBlock m va k body env false h.settled).imp fun r hr => ?_
    rw [hk] at hr ⊢
    cases hsig : r.2 with
    | returned vs =>
      rw [hsig] at hr
      exact hr
    | _ => rfl
  · have hsettled := h.settled
    rw [hbody] at hsettled ⊢
    exact returned_execBlock m va k args ss env hsettled

/-- A call of such a function hands back that many values. -/
theorem Returns.callClosure {k fuel id : ℕ} {runtime : Runtime N} {c : Closure N}
    {args rs : List (Value N)} {s s' : State N} (h : Returns k c.body)
    (hc : s.closures[id]? = some c)
    (hrs : callClosure runtime fuel id args s = .done rs s') : rs.length = k := by
  cases fuel with
  | zero => cases hrs
  | succ n =>
    have hread : (Prog.read fun s => s.closures[id]? : Run N _) s = .done (some c) s := by
      rw [Prog.read_apply, hc]
    rw [Lua.callClosure, Prog.bind_done _ _ s s _ hread] at hrs
    obtain ⟨⟨env, va⟩, s₂, -, hrs⟩ := Prog.bind_eq_done.mp hrs
    obtain ⟨r, s₃, hr, hrs⟩ := Prog.bind_eq_done.mp hrs
    cases hrs
    exact h.results _ env va s₂ r _ hr

end Statements
end LuaRecovery.Analysis
