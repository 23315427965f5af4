import LuaRecovery.Evaluator.FoldValue

/-!
# The operand that folding leaves

Folding drops a left operand whose truth it knows and goes on with the right
one; the interpreter evaluates the dropped operand and comes to the same right
one. The head of a folded expression therefore stands in the expression itself,
behind left operands that decide nothing.
-/

set_option autoImplicit false

namespace LuaRecovery.Evaluator
open LuaRecovery.Lib LuaRecovery.Lua

section Paths
variable {N : Type} [LuaNumber N]

/-- Evaluation comes to the operand past left operands whose truth folding knows. -/
inductive PassesTo (m : Machine N) (env : Env) (va : List (Value N)) (test : Bool) :
    Expr N → State N → Expr N → State N → Prop
  | here (e : Expr N) (s : State N) : PassesTo m env va test e s e s
  | pastAnd {l r e : Expr N} {s s₁ t : State N} {w : Value N}
      (hl : isStaticallyTruthy (fold l) = some true)
      (hrun : one (eval m env va true l) s = .done w s₁)
      (hr : PassesTo m env va test r s₁ e t) :
      PassesTo m env va test (.logicalExpression .and l r) s e t
  | pastOr {l r e : Expr N} {s s₁ t : State N} {w : Value N}
      (hl : isStaticallyTruthy (fold l) = some false)
      (hrun : one (eval m env va test l) s = .done w s₁)
      (hr : PassesTo m env va test r s₁ e t) :
      PassesTo m env va test (.logicalExpression .or l r) s e t

variable {m : Machine N} {env : Env} {va : List (Value N)} {test : Bool}

theorem one_and {c a : Expr N} {s s' : State N} {v : Value N}
    (h : one (eval m env va test (.logicalExpression .and c a)) s = .done v s') :
    ∃ w s₁, one (eval m env va true c) s = .done w s₁ ∧
      if w.truthy then one (eval m env va test a) s₁ = .done v s' else v = w ∧ s' = s₁ := by
  obtain ⟨vs, hvs, rfl⟩ := one_eq_done.mp h
  rw [eval] at hvs
  obtain ⟨w, s₁, hw, hvs⟩ := Prog.bind_eq_done.mp hvs
  refine ⟨w, s₁, hw, ?_⟩
  split
  · rename_i ht
    rw [if_pos ht] at hvs
    obtain ⟨u, s₂, hu, hvs⟩ := Prog.bind_eq_done.mp hvs
    cases hvs
    exact hu
  · rename_i ht
    rw [if_neg ht] at hvs
    cases hvs
    exact ⟨rfl, rfl⟩

theorem one_or {c a : Expr N} {s s' : State N} {v : Value N}
    (h : one (eval m env va test (.logicalExpression .or c a)) s = .done v s') :
    ∃ w s₁, one (eval m env va test c) s = .done w s₁ ∧
      if w.truthy then v = w ∧ s' = s₁ else one (eval m env va test a) s₁ = .done v s' := by
  obtain ⟨vs, hvs, rfl⟩ := one_eq_done.mp h
  rw [eval] at hvs
  obtain ⟨w, s₁, hw, hvs⟩ := Prog.bind_eq_done.mp hvs
  refine ⟨w, s₁, hw, ?_⟩
  split
  · rename_i ht
    rw [if_pos ht] at hvs
    cases hvs
    exact ⟨rfl, rfl⟩
  · rename_i ht
    rw [if_neg ht] at hvs
    obtain ⟨u, s₂, hu, hvs⟩ := Prog.bind_eq_done.mp hvs
    cases hvs
    exact hu

/-- What folding goes on with is the fold of the whole. -/
theorem fold_pastAnd {l r : Expr N} (h : isStaticallyTruthy (fold l) = some true) :
    fold (.logicalExpression .and l r) = fold r := by
  rw [fold, reduce_logical, evalLogical_and h]
  rfl

theorem fold_pastOr {l r : Expr N} (h : isStaticallyTruthy (fold l) = some false) :
    fold (.logicalExpression .or l r) = fold r := by
  rw [fold, reduce_logical, evalLogical_or h]
  rfl

theorem fold_logical {op : LogicalOperator} {l r : Expr N}
    (h : isStaticallyTruthy (fold l) = none) :
    fold (.logicalExpression op l r) = .logicalExpression op (fold l) (fold r) := by
  rw [fold, reduce_logical, evalLogical_none h]
  rfl

theorem PassesTo.fold_eq {e e' : Expr N} {s t : State N}
    (h : PassesTo m env va test e s e' t) : fold e = fold e' := by
  induction h with
  | here => rfl
  | pastAnd hl _ _ ih => rw [fold_pastAnd hl, ih]
  | pastOr hl _ _ ih => rw [fold_pastOr hl, ih]

/-- The value of the whole is the value of the operand that evaluation comes to. -/
theorem PassesTo.run {e e' : Expr N} {s s' t : State N} {v : Value N}
    (h : PassesTo m env va test e s e' t)
    (hv : one (eval m env va test e) s = .done v s') :
    one (eval m env va test e') t = .done v s' := by
  induction h with
  | here => exact hv
  | pastAnd hl hrun _ ih =>
    obtain ⟨w, s₁, hw, hrest⟩ := one_and hv
    rw [if_pos ((fold_shows m env va _ _ _ _ _ hw).2 true hl)] at hrest
    rw [hrun] at hw
    cases hw
    exact ih hrest
  | pastOr hl hrun _ ih =>
    obtain ⟨w, s₁, hw, hrest⟩ := one_or hv
    rw [if_neg (by simp [(fold_shows m env va _ _ _ _ _ hw).2 false hl])] at hrest
    rw [hrun] at hw
    cases hw
    exact ih hrest

/-- Where folding does not know the truth of the whole, evaluation comes to an operand that
is no operator with a known left side. -/
theorem exists_passesTo (e : Expr N) {s s' : State N} {v : Value N}
    (hopen : isStaticallyTruthy (fold e) = none)
    (hv : one (eval m env va test e) s = .done v s') :
    ∃ e' t, PassesTo m env va test e s e' t ∧
      ∀ op l r, e' = .logicalExpression op l r → isStaticallyTruthy (fold l) = none := by
  by_cases he : ∃ op l r, e = .logicalExpression op l r
  · obtain ⟨op, l, r, rfl⟩ := he
    cases hst : isStaticallyTruthy (fold l) with
    | none =>
      refine ⟨_, s, .here _ _, fun op' l' r' heq => ?_⟩
      cases heq
      exact hst
    | some b =>
      cases op with
      | and =>
        cases b with
        | true =>
          obtain ⟨w, s₁, hw, hrest⟩ := one_and hv
          rw [if_pos ((fold_shows m env va _ _ _ _ _ hw).2 true hst)] at hrest
          rw [fold_pastAnd hst] at hopen
          obtain ⟨e', t, hpass, hend⟩ := exists_passesTo r hopen hrest
          exact ⟨e', t, .pastAnd hst hw hpass, hend⟩
        | false =>
          rw [fold, reduce_logical, evalLogical_and hst] at hopen
          rw [Option.getD_some, if_neg Bool.false_ne_true, hst] at hopen
          cases hopen
      | or =>
        cases b with
        | true =>
          rw [fold, reduce_logical, evalLogical_or hst] at hopen
          rw [Option.getD_some, if_pos rfl, hst] at hopen
          cases hopen
        | false =>
          obtain ⟨w, s₁, hw, hrest⟩ := one_or hv
          rw [if_neg (by simp [(fold_shows m env va _ _ _ _ _ hw).2 false hst])] at hrest
          rw [fold_pastOr hst] at hopen
          obtain ⟨e', t, hpass, hend⟩ := exists_passesTo r hopen hrest
          exact ⟨e', t, .pastOr hst hw hpass, hend⟩
  · exact ⟨e, s, .here _ _, fun op l r heq => absurd ⟨op, l, r, heq⟩ he⟩
termination_by sizeOf e

end Paths

section Heads
variable {N : Type} [LuaNumber N]

/-- An operator on numbers or strings folds to a literal or stays. -/
theorem fold_unary (m : Machine N) (op : UnaryOperator) (a : Expr N) :
    (literalValue (fold (.unaryExpression op a))).isSome ∨
      fold (.unaryExpression op a) = .unaryExpression op (fold a) := by
  rw [fold, reduce_unary]
  cases he : evalUnary op (fold a) with
  | none => exact .inr rfl
  | some e =>
    rcases evalUnary_value m he with ⟨x, y, -, hy, -⟩ | ⟨-, -, rfl⟩
    · exact .inl (by rw [Option.getD_some, hy]; rfl)
    · exact .inl rfl

theorem fold_binary (m : Machine N) (op : BinaryOperator) (l r : Expr N) :
    (literalValue (fold (.binaryExpression op l r))).isSome ∨
      fold (.binaryExpression op l r) = .binaryExpression op (fold l) (fold r) := by
  rw [fold, reduce_binary]
  cases he : evalBinary op (fold l) (fold r) with
  | none => exact .inr rfl
  | some e =>
    obtain ⟨x, y, z, -, -, hz, -⟩ := evalBinary_value m he
    exact .inl (by rw [Option.getD_some, hz]; rfl)

/-- The fold of anything but an `and` or `or` has no such operator at its head. -/
theorem head_of_fold_logical (m : Machine N) {e L R : Expr N} {op : LogicalOperator}
    (h : fold e = .logicalExpression op L R) : ∃ op' l r, e = .logicalExpression op' l r := by
  cases e with
  | logicalExpression op' l r => exact ⟨op', l, r, rfl⟩
  | unaryExpression op' a => rcases fold_unary m op' a with hl | hs <;> simp_all [literalValue]
  | binaryExpression op' l r =>
    rcases fold_binary m op' l r with hl | hs <;> simp_all [literalValue]
  | _ => simp [fold] at h

theorem head_of_fold_identifier (m : Machine N) {e : Expr N} {name : String}
    (h : fold e = .identifier name) :
    e = .identifier name ∨ ∃ op l r, e = .logicalExpression op l r := by
  cases e with
  | identifier x => exact .inl h
  | logicalExpression op l r => exact .inr ⟨op, l, r, rfl⟩
  | unaryExpression op a => rcases fold_unary m op a with hl | hs <;> simp_all [literalValue]
  | binaryExpression op l r => rcases fold_binary m op l r with hl | hs <;> simp_all [literalValue]
  | _ => simp [fold] at h

variable {m : Machine N} {env : Env} {va : List (Value N)} {test : Bool} {e : Expr N}
  {s s' : State N} {v : Value N}

/-- An operator that folding leaves at the head is one that evaluation comes to. -/
theorem passesTo_logical {op : LogicalOperator} {L R : Expr N}
    (h : fold e = .logicalExpression op L R) (hv : one (eval m env va test e) s = .done v s') :
    ∃ l r t, PassesTo m env va test e s (.logicalExpression op l r) t ∧ fold l = L ∧
      fold r = R ∧ one (eval m env va test (.logicalExpression op l r)) t = .done v s' := by
  obtain ⟨e', t, hpass, hend⟩ := exists_passesTo e (by rw [h]; rfl) hv
  have hfold : fold e' = .logicalExpression op L R := by rw [← hpass.fold_eq, h]
  obtain ⟨op', l, r, rfl⟩ := head_of_fold_logical m hfold
  rw [fold_logical (hend op' l r rfl)] at hfold
  cases hfold
  exact ⟨l, r, t, hpass, rfl, rfl, hpass.run hv⟩

theorem passesTo_identifier {name : String} (h : fold e = .identifier name)
    (hv : one (eval m env va test e) s = .done v s') :
    ∃ t, PassesTo m env va test e s (.identifier name) t ∧
      one (eval m env va test (.identifier name)) t = .done v s' := by
  obtain ⟨e', t, hpass, hend⟩ := exists_passesTo e (by rw [h]; rfl) hv
  have hfold : fold e' = .identifier name := by rw [← hpass.fold_eq, h]
  rcases head_of_fold_identifier m hfold with rfl | ⟨op, l, r, rfl⟩
  · exact ⟨t, hpass, hpass.run hv⟩
  · rw [fold_logical (hend op l r rfl)] at hfold
    cases hfold

end Heads
end LuaRecovery.Evaluator
