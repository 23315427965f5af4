import LuaRecovery.Lua.HistoryGrows
import LuaRecovery.Lua.ParserRuns

/-!
# Compound assignment

The parser writes `t += e` as `t = t + e`, with one tree for both. Luau
evaluates what is before the last dot or in the last brackets of `t` once, for
the value that it reads and for the place that it writes to.
-/

set_option autoImplicit false

namespace LuaRecovery.Lua
open LuaRecovery.Lib Lua.Parser

section Meaning
variable {N : Type} [LuaNumber N]

/-- What the parser makes of a compound assignment. -/
def compoundAssignment (operator : BinaryOperator) (target value : Expr N) : Stmt N :=
  .assignmentStatement [target] [.binaryExpression operator target value]

def compoundOperators : List BinaryOperator := [.add, .sub, .mul, .div, .concat]

/-- The value at a place. -/
def readTarget (m : Machine N) (env : Env) (t : Target N) : Run N (Value N) :=
  match t with
  | .name x => readName env x
  | .slot o k => indexValue m o k

/-- Luau's compound assignment: the place, its value, the operand, and the store. -/
def execCompound (m : Machine N) (env : Env) (va : List (Value N)) (operator : BinaryOperator)
    (target value : Expr N) : Run N (Env × Signal N) := do
  let t ← targetOf m env va target
  let old ← readTarget m env t
  let operand ← one (eval m env va false value)
  let result ← binaryOp m operator old operand
  store m env t result
  pure (env, .normal)

/-- The place, and its value. -/
def readOnce (m : Machine N) (env : Env) (va : List (Value N)) (target : Expr N) :
    Run N (Target N × Value N) := do
  let t ← targetOf m env va target
  let old ← readTarget m env t
  pure (t, old)

/-- The place, and the value at the place that the target then stands for. -/
def readAgain (m : Machine N) (env : Env) (va : List (Value N)) (target : Expr N) :
    Run N (Target N × Value N) := do
  let t ← targetOf m env va target
  let again ← targetOf m env va target
  let old ← readTarget m env again
  pure (t, old)

/-- The rest of a compound assignment. -/
def combine (m : Machine N) (env : Env) (va : List (Value N)) (operator : BinaryOperator)
    (value : Expr N) (place : Target N × Value N) : Run N (Env × Signal N) := do
  let operand ← one (eval m env va false value)
  let result ← binaryOp m operator place.2 operand
  store m env place.1 result
  pure (env, .normal)

variable (m : Machine N) (env : Env) (va : List (Value N)) (operator : BinaryOperator)
  (target value : Expr N)

theorem execCompound_eq :
    execCompound m env va operator target value =
      readOnce m env va target >>= combine m env va operator value := by
  simp only [execCompound, readOnce, combine, Prog.bind_assoc, Prog.pure_bind]

/-- A target is evaluated as a place that is then read. -/
theorem one_eval_target :
    one (eval m env va false target) = targetOf m env va target >>= readTarget m env ∨
      targetOf m env va target = malformed := by
  cases target with
  | identifier name =>
    left
    simp only [eval, one, targetOf, Prog.bind_assoc, Prog.pure_bind, readTarget, first,
      Prog.bind_pure]
  | memberExpression base property =>
    left
    simp only [eval, one, targetOf, Prog.bind_assoc, Prog.pure_bind, readTarget, first,
      Prog.bind_pure]
  | indexExpression base index =>
    left
    simp only [eval, one, targetOf, Prog.bind_assoc, Prog.pure_bind, readTarget, first,
      Prog.bind_pure]
  | _ => exact Or.inr rfl

theorem exec_compoundAssignment :
    exec m env va (compoundAssignment operator target value) =
      readAgain m env va target >>= combine m env va operator value := by
  rcases one_eval_target m env va target with hread | hmalformed
  · simp only [compoundAssignment, exec, targetsOf, evalList, eval, readAgain, combine, hread,
      storeAll, Prog.bind_assoc, Prog.pure_bind, first]
  · simp only [compoundAssignment, exec, targetsOf, readAgain, hmalformed]
    rfl

/-- The table `{[nil] = nil}`, which cannot be built. -/
def nilKeyed : Expr N := .tableConstructor [.tableKey .nilLiteral .nilLiteral]

theorem combine_nilKeyed (place : Target N × Value N) (s : State N) :
    combine m env va operator nilKeyed place s = .raised .nil s := rfl

/-- The sum with `nil` is an event. -/
theorem combine_nil {m : Machine N} (hm : CallsAppend m) (place : Target N × Value N)
    (s : State N) :
    s.history ++ [⟨.binary .add, [place.2, .nil]⟩] <+:
      (combine m env va .add .nilLiteral place s).state.history := by
  obtain ⟨t, v⟩ := place
  have hsum : binaryOp m .add v .nil = (do return first (← perform m (.binary .add) [v, .nil])) := by
    cases v <;> rfl
  have hrest : AppendsOnly (do
      let reply ← Prog.read (fun s => m.runtime s.history s.heap)
      let vs ← runReply m reply
      store m env t (first vs)
      pure (env, (.normal : Signal N))) :=
    .bind (.read _) fun reply => .bind (appendsOnly_runReply hm reply) fun vs =>
      .bind (appendsOnly_store hm env t _) fun _ => .pure _
  have hcombine : combine m env va .add .nilLiteral (t, v) = (do
      Prog.write (fun s => { s with history := s.history ++ [⟨.binary .add, [v, .nil]⟩] })
      let reply ← Prog.read (fun s => m.runtime s.history s.heap)
      let vs ← runReply m reply
      store m env t (first vs)
      pure (env, .normal)) := by
    simp only [combine, eval, one, first, Prog.pure_bind, hsum, perform, Prog.bind_assoc]
  rw [hcombine]
  exact hrest { s with history := s.history ++ [⟨.binary .add, [v, .nil]⟩] }

variable {m env va} {p q : Run N (Target N × Value N)} {s : State N}

/-- Where the one way comes to an operand, the other comes to it as well. -/
theorem done_of_combine (hm : CallsAppend m)
    (h : ∀ value : Expr N, (p >>= combine m env va .add value) s =
      (q >>= combine m env va .add value) s) {a : Target N × Value N} {s₁ : State N}
    (hp : p s = .done a s₁) : ∃ b, q s = .done b s₁ ∧ a.2 = b.2 := by
  have hkeyed := h nilKeyed
  have hnil := h .nilLiteral
  rw [Prog.bind_done _ _ _ _ _ hp, Prog.bind_apply] at hkeyed hnil
  rw [combine_nilKeyed] at hkeyed
  have hgrows := combine_nil env va hm a s₁
  cases hq : q s with
  | done b s₂ =>
    simp only [hq, combine_nilKeyed, Outcome.raised.injEq, true_and] at hkeyed
    subst hkeyed
    simp only [hq] at hnil
    have hgrows' := combine_nil env va hm b s₁
    rw [← hnil] at hgrows'
    have hsame := List.IsPrefix.eq_of_length
      (List.prefix_of_prefix_length_le hgrows hgrows' (by simp)) (by simp)
    have hevent := List.append_cancel_left hsame
    simp only [List.cons.injEq, Event.mk.injEq, and_true, true_and] at hevent
    exact ⟨b, rfl, hevent⟩
  | raised e s₂ =>
    simp only [hq, Outcome.raised.injEq] at hkeyed
    obtain ⟨rfl, rfl⟩ := hkeyed
    simp only [hq] at hnil
    rw [hnil] at hgrows
    have hlength := hgrows.length_le
    simp only [Outcome.state, List.length_append, List.length_singleton] at hlength
    omega
  | timeout s₂ =>
    rw [hq] at hkeyed
    cases hkeyed

/-- Two ways to come to an operand are told apart by how the statement goes on. -/
theorem combine_eq_iff (hm : CallsAppend m)
    (hplaces : ∀ a b s₁ s₂, p s = .done a s₁ → q s = .done b s₂ → a.1 = b.1) :
    (∀ operator ∈ compoundOperators, ∀ value : Expr N,
      (p >>= combine m env va operator value) s = (q >>= combine m env va operator value) s) ↔
      p s = q s := by
  constructor
  · intro h
    have hadd := h .add (by decide)
    cases hp : p s with
    | done a s₁ =>
      obtain ⟨b, hq, hvalue⟩ := done_of_combine hm hadd hp
      rw [hq, Prod.ext (hplaces a b s₁ s₁ hp hq) hvalue]
    | raised e s₁ =>
      have hend := hadd .nilLiteral
      rw [Prog.bind_apply, Prog.bind_apply, hp] at hend
      cases hq : q s with
      | done b s₂ =>
        obtain ⟨a, hdone, -⟩ := done_of_combine hm (fun value => (hadd value).symm) hq
        rw [hp] at hdone
        cases hdone
      | raised e' s₂ =>
        rw [hq] at hend
        cases hend
        rfl
      | timeout s₂ =>
        rw [hq] at hend
        cases hend
    | timeout s₁ =>
      have hend := hadd .nilLiteral
      rw [Prog.bind_apply, Prog.bind_apply, hp] at hend
      cases hq : q s with
      | done b s₂ =>
        obtain ⟨a, hdone, -⟩ := done_of_combine hm (fun value => (hadd value).symm) hq
        rw [hp] at hdone
        cases hdone
      | raised e' s₂ =>
        rw [hq] at hend
        cases hend
      | timeout s₂ =>
        rw [hq] at hend
        cases hend
        rfl
  · intro h operator _ value
    rw [Prog.bind_apply, Prog.bind_apply, h]

/-- A target that is found again as it was: the store and the place are the same. -/
theorem readAgain_of_repeated {target : Expr N}
    (h : ∀ t s₁, targetOf m env va target s = .done t s₁ →
      targetOf m env va target s₁ = .done t s₁) :
    readAgain m env va target s = readOnce m env va target s := by
  rw [readAgain, readOnce, Prog.bind_apply, Prog.bind_apply]
  cases ht : targetOf m env va target s with
  | done t s₁ => exact Prog.bind_done _ _ _ _ _ (h t s₁ ht)
  | raised e s₁ => rfl
  | timeout s₁ => rfl

/-- The parser's statement has the effect of Luau's compound assignment, for every operator and
operand, if and only if the target read again gives the value, and leaves the store, that the
target read once does. -/
theorem compoundAssignment_iff (runtime : Runtime N) (fuel : ℕ) (env : Env) (va : List (Value N))
    (target : Expr N) (s : State N) :
    (∀ operator ∈ compoundOperators, ∀ value : Expr N,
      exec (machine runtime fuel) env va (compoundAssignment operator target value) s =
        execCompound (machine runtime fuel) env va operator target value s) ↔
      readAgain (machine runtime fuel) env va target s =
        readOnce (machine runtime fuel) env va target s := by
  simp only [exec_compoundAssignment, execCompound_eq]
  refine combine_eq_iff (callsAppend_machine runtime fuel) ?_
  intro a b s₁ s₂ ha hb
  obtain ⟨t, s₃, ht, ha⟩ := Prog.bind_eq_done.mp ha
  obtain ⟨t', s₄, ht', hb⟩ := Prog.bind_eq_done.mp hb
  rw [ht] at ht'
  cases ht'
  obtain ⟨again, s₅, hagain, ha⟩ := Prog.bind_eq_done.mp ha
  obtain ⟨old, s₆, hold, ha⟩ := Prog.bind_eq_done.mp ha
  obtain ⟨old', s₇, hold', hb⟩ := Prog.bind_eq_done.mp hb
  cases ha
  cases hb
  rfl

end Meaning

section Parsing
variable {N : Type}

/-- A target, the token of a compound assignment and one operand are read as that statement. -/
theorem parse_compoundAssignment {ts rest rest' : List (Lexeme N)} {target value : Expr N}
    {t : Lexeme N} {operator : BinaryOperator}
    (htarget : parser.call .parsePrefixExp ts = some (.ok (target, t::rest)))
    (ht : t.type ∈ [.plusEq, .minusEq, .starEq, .slashEq, .concatEq])
    (hoperator : compoundOperator t.type = some operator)
    (hvalue : parser.call .parseExpressions rest = some (.ok ([value], rest'))) :
    ∃ rest'', parser.call .parseCallOrAssignment ts =
      some (.ok (compoundAssignment operator target value, rest'')) := by
  have hassignment : t.type ∈ assignmentTypes := by
    simp only [List.mem_cons, List.not_mem_nil, or_false] at ht
    rcases ht with h | h | h | h | h <;> rw [h] <;> decide
  have hcomma : t.type ≠ .comma := by
    rintro h
    rw [h] at ht
    revert ht
    decide
  have hassign : t.type ≠ .assign := by
    rintro h
    rw [h] at ht
    revert ht
    decide
  have hmore : parser.call .moreTargets (t::rest) = some (.ok ([], t::rest)) := by
    rw [call_eq]
    simp only [body]
    rw [bind_accept, nextType_cons, if_neg hcomma]
    rfl
  rw [call_eq]
  simp only [body]
  rw [Comp.bind_ok htarget, bind_isOneOf, nextType_cons, decide_eq_true hassignment]
  simp only [if_true]
  rw [Comp.bind_ok hmore, bind_advance, List.tail_cons, Comp.bind_ok hvalue, bind_accept,
    List.headD_cons]
  simp only [if_neg hassign, hoperator]
  split
  · exact ⟨_, rfl⟩
  · exact ⟨_, rfl⟩

end Parsing

section Cases

/-- A host that answers every event with no values. -/
def silentHost : Runtime ℤ := fun _ heap => .values heap []

/-- The function before the dot in `f().x += 1` is called twice. -/
theorem calls_twice :
    ¬ exec (machine silentHost 1) [] []
        (compoundAssignment .add
          (.memberExpression (.callExpression (.identifier "f") [] false) (.identifier "x"))
          (.numericLiteral 1 "1"))
        (initialState fun name => .foreign name) =
      execCompound (machine silentHost 1) [] [] .add
        (.memberExpression (.callExpression (.identifier "f") [] false) (.identifier "x"))
        (.numericLiteral 1 "1") (initialState fun name => .foreign name) := by
  intro h
  have hevents := congrArg (fun o => o.state.history.length) h
  have hfive : 5 = 4 := hevents
  cases hfive

end Cases

end LuaRecovery.Lua
