import LuaRecovery.Evaluator.ConstantEvaluator
import LuaRecovery.Lua.Interpreter

/-!
# What a folded node says about the value

The rules compute on literals what the interpreter computes on their values.
Where folding ends in a literal, the expression therefore yields that value
whenever it yields one at all; where it ends in a table or function
constructor, the value is truthy. This needs nothing about the effects that
folding may drop.
-/

set_option autoImplicit false

namespace LuaRecovery.Evaluator
open LuaRecovery.Lib LuaRecovery.Lua

section Rules
variable {N : Type} [LuaNumber N]

omit [LuaNumber N] in
def literalValue : Expr N → Option (Value N)
  | .numericLiteral value _ => some (.number value)
  | .stringLiteral value => some (.string value)
  | .booleanLiteral value => some (.boolean value)
  | .nilLiteral => some .nil
  | _ => none

theorem evalNumbers_value (m : Machine N) {op : BinaryOperator} {l r : N} {e : Expr N}
    (he : evalNumbers op l r = some e) :
    ∃ u, literalValue e = some u ∧ ∀ s, binaryOp m op (.number l) (.number r) s = .done u s := by
  cases op <;> simp only [evalNumbers, ifFinite] at he <;> (try split at he) <;>
    (try split at he) <;> cases he <;> exact ⟨_, rfl, fun s => rfl⟩

theorem evalEquality_value (m : Machine N) {a b e : Expr N} (isEq : Bool)
    (he : evalEquality isEq a b = some e) :
    ∃ v w u, literalValue a = some v ∧ literalValue b = some w ∧
      literalValue e = some (.boolean (if isEq then u else !u)) ∧
      ∀ s, equalValues m v w s = .done u s := by
  cases a <;> cases b <;> simp only [evalEquality, reduceCtorEq] at he <;> cases he <;>
    refine ⟨_, _, _, rfl, rfl, ?_, fun s => rfl⟩ <;> cases isEq <;>
    simp [literalValue, rawEqual, bne]

theorem evalBinary_value (m : Machine N) {op : BinaryOperator} {a b e : Expr N}
    (he : evalBinary op a b = some e) :
    ∃ v w u, literalValue a = some v ∧ literalValue b = some w ∧ literalValue e = some u ∧
      ∀ s, binaryOp m op v w s = .done u s := by
  unfold evalBinary at he
  split at he
  · obtain ⟨u, hu, hs⟩ := evalNumbers_value m he
    exact ⟨_, _, u, rfl, rfl, hu, hs⟩
  · split at he
    · split at he
      · cases he
        exact ⟨_, _, _, rfl, rfl, rfl, fun s => rfl⟩
      · cases he
    · obtain ⟨v, w, u, hv, hw, hu, hs⟩ := evalEquality_value m true he
      exact ⟨v, w, _, hv, hw, hu, fun s => by rw [binaryOp, Prog.bind_done _ _ _ _ _ (hs s)]; rfl⟩
    · obtain ⟨v, w, u, hv, hw, hu, hs⟩ := evalEquality_value m false he
      exact ⟨v, w, _, hv, hw, hu, fun s => by rw [binaryOp, Prog.bind_done _ _ _ _ _ (hs s)]; rfl⟩
    · cases he

theorem evalUnary_value (m : Machine N) {op : UnaryOperator} {a e : Expr N}
    (he : evalUnary op a = some e) :
    (∃ v u, literalValue a = some v ∧ literalValue e = some u ∧
      ∀ s, unaryOp m op v s = .done u s) ∨
    (op = .not ∧ isStaticallyTruthy a = some true ∧ e = .booleanLiteral false) := by
  cases op <;> cases a <;> simp only [evalUnary, reduceCtorEq] at he <;> cases he <;>
    first
      | exact .inl ⟨_, _, rfl, rfl, fun s => rfl⟩
      | exact .inr ⟨rfl, rfl, rfl⟩

end Rules

section Values
variable {N : Type} [LuaNumber N]

/-- The value agrees with what the node shows of it. -/
def Shows (e : Expr N) (v : Value N) : Prop :=
  (∀ u, literalValue e = some u → v = u) ∧ ∀ b, isStaticallyTruthy e = some b → v.truthy = b

omit [LuaNumber N] in
theorem shows_literal {e : Expr N} {u : Value N} (h : literalValue e = some u) : Shows e u := by
  refine ⟨fun w hw => Option.some.inj (h.symm.trans hw), fun b hb => ?_⟩
  cases e <;> simp_all [literalValue, isStaticallyTruthy] <;> subst h <;> rfl

omit [LuaNumber N] in
theorem shows_opaque {e : Expr N} (v : Value N) (h : literalValue e = none)
    (h' : isStaticallyTruthy e = none) : Shows e v :=
  ⟨fun u hu => by simp [h] at hu, fun b hb => by simp [h'] at hb⟩

omit [LuaNumber N] in
theorem shows_truthy {e : Expr N} {v : Value N} (h : literalValue e = none)
    (hv : v.truthy = true) (h' : isStaticallyTruthy e = some true) : Shows e v := by
  refine ⟨fun u hu => by simp [h] at hu, fun b hb => ?_⟩
  rw [h'] at hb
  cases hb
  exact hv

omit [LuaNumber N] in
theorem one_eq_done {p : Run N (List (Value N))} {s s' : State N} {v : Value N} :
    one p s = .done v s' ↔ ∃ vs, p s = .done vs s' ∧ first vs = v := by
  rw [one, Prog.bind_eq_done]
  simp only [Prog.pure_apply, Outcome.done.injEq]
  constructor
  · rintro ⟨vs, s₁, h, rfl, rfl⟩
    exact ⟨vs, h, rfl⟩
  · rintro ⟨vs, h, rfl⟩
    exact ⟨vs, s', h, rfl, rfl⟩

theorem reduce_unary (op : UnaryOperator) (a : Expr N) :
    reduce (.unaryExpression op a) = (evalUnary op a).getD (.unaryExpression op a) := rfl

theorem reduce_binary (op : BinaryOperator) (a b : Expr N) :
    reduce (.binaryExpression op a b) = (evalBinary op a b).getD (.binaryExpression op a b) := rfl

theorem reduce_logical (op : LogicalOperator) (a b : Expr N) :
    reduce (.logicalExpression op a b) = (evalLogical op a b).getD (.logicalExpression op a b) :=
  rfl

omit [LuaNumber N] in
theorem evalLogical_none {op : LogicalOperator} {l r : Expr N} (h : isStaticallyTruthy l = none) :
    evalLogical op l r = none := by
  cases op <;> simp [evalLogical, h]

omit [LuaNumber N] in
theorem evalLogical_and {l r : Expr N} {b : Bool} (h : isStaticallyTruthy l = some b) :
    evalLogical .and l r = some (if b then r else l) := by
  simp [evalLogical, h]

omit [LuaNumber N] in
theorem evalLogical_or {l r : Expr N} {b : Bool} (h : isStaticallyTruthy l = some b) :
    evalLogical .or l r = some (if b then l else r) := by
  simp [evalLogical, h]

/-- Whatever value an expression yields agrees with what its folded form shows. -/
theorem fold_shows (m : Machine N) (env : Env) (va : List (Value N)) :
    ∀ (e : Expr N) (test : Bool) (s s' : State N) (v : Value N),
      one (eval m env va test e) s = .done v s' → Shows (fold e) v
  | .identifier name, _, _, _, v, _ => shows_opaque v rfl rfl
  | .varargLiteral inParens, _, _, _, v, _ => shows_opaque v rfl rfl
  | .callExpression base args inParens, _, _, _, v, _ => shows_opaque v rfl rfl
  | .methodCallExpression base method args inParens, _, _, _, v, _ => shows_opaque v rfl rfl
  | .memberExpression base property, _, _, _, v, _ => shows_opaque v rfl rfl
  | .indexExpression base index, _, _, _, v, _ => shows_opaque v rfl rfl
  | .numericLiteral value raw, _, _, _, v, h => by
      cases h
      exact shows_literal rfl
  | .stringLiteral value, _, _, _, v, h => by
      cases h
      exact shows_literal rfl
  | .booleanLiteral value, _, _, _, v, h => by
      cases h
      exact shows_literal rfl
  | .nilLiteral, _, _, _, v, h => by
      cases h
      exact shows_literal rfl
  | .functionExpression params isVararg body, test, s, s', v, h => by
      cases test <;> cases h <;> exact shows_truthy rfl rfl rfl
  | .tableConstructor fields, test, s, s', v, h => by
      obtain ⟨vs, hvs, rfl⟩ := one_eq_done.mp h
      rw [eval] at hvs
      obtain ⟨entries, s₁, -, hvs⟩ := Prog.bind_eq_done.mp hvs
      cases test <;> cases hvs <;> exact shows_truthy rfl rfl rfl
  | .unaryExpression op a, test, s, s', v, h => by
      obtain ⟨vs, hvs, rfl⟩ := one_eq_done.mp h
      rw [eval] at hvs
      obtain ⟨w, s₁, hw, hvs⟩ := Prog.bind_eq_done.mp hvs
      obtain ⟨u, s₂, hu, hvs⟩ := Prog.bind_eq_done.mp hvs
      cases hvs
      have ih := fold_shows m env va a _ _ _ _ hw
      rw [fold, reduce_unary]
      cases he : evalUnary op (fold a) with
      | none => exact shows_opaque _ rfl rfl
      | some e =>
        rcases evalUnary_value m he with ⟨x, y, hx, hy, hop⟩ | ⟨rfl, htruthy, rfl⟩
        · rw [ih.1 x hx, hop] at hu
          cases hu
          exact shows_literal hy
        · have htrue := ih.2 true htruthy
          cases hu
          exact shows_literal (by simp [literalValue, first, htrue])
  | .binaryExpression op l r, test, s, s', v, h => by
      obtain ⟨vs, hvs, rfl⟩ := one_eq_done.mp h
      rw [eval] at hvs
      obtain ⟨a, s₁, ha, hvs⟩ := Prog.bind_eq_done.mp hvs
      obtain ⟨b, s₂, hb, hvs⟩ := Prog.bind_eq_done.mp hvs
      obtain ⟨u, s₃, hu, hvs⟩ := Prog.bind_eq_done.mp hvs
      cases hvs
      have ihl := fold_shows m env va l _ _ _ _ ha
      have ihr := fold_shows m env va r _ _ _ _ hb
      rw [fold, reduce_binary]
      cases he : evalBinary op (fold l) (fold r) with
      | none => exact shows_opaque _ rfl rfl
      | some e =>
        obtain ⟨x, y, z, hx, hy, hz, hop⟩ := evalBinary_value m he
        rw [ihl.1 x hx, ihr.1 y hy, hop] at hu
        cases hu
        exact shows_literal hz
  | .logicalExpression op l r, test, s, s', v, h => by
      obtain ⟨vs, hvs, rfl⟩ := one_eq_done.mp h
      rw [fold, reduce_logical]
      cases hst : isStaticallyTruthy (fold l) with
      | none =>
        rw [evalLogical_none hst]
        exact shows_opaque _ rfl rfl
      | some b =>
        cases op with
        | and =>
          rw [evalLogical_and hst]
          rw [eval] at hvs
          obtain ⟨a, s₁, ha, hvs⟩ := Prog.bind_eq_done.mp hvs
          have ihl := fold_shows m env va l _ _ _ _ ha
          have htruthy := ihl.2 b hst
          cases b with
          | true =>
            rw [if_pos htruthy] at hvs
            obtain ⟨w, s₂, hw, hvs⟩ := Prog.bind_eq_done.mp hvs
            cases hvs
            exact fold_shows m env va r _ _ _ _ hw
          | false =>
            rw [if_neg (by simp [htruthy])] at hvs
            cases hvs
            exact ihl
        | or =>
          rw [evalLogical_or hst]
          rw [eval] at hvs
          obtain ⟨a, s₁, ha, hvs⟩ := Prog.bind_eq_done.mp hvs
          have ihl := fold_shows m env va l _ _ _ _ ha
          have htruthy := ihl.2 b hst
          cases b with
          | true =>
            rw [if_pos htruthy] at hvs
            cases hvs
            exact ihl
          | false =>
            rw [if_neg (by simp [htruthy])] at hvs
            obtain ⟨w, s₂, hw, hvs⟩ := Prog.bind_eq_done.mp hvs
            cases hvs
            exact fold_shows m env va r _ _ _ _ hw

end Values
end LuaRecovery.Evaluator
