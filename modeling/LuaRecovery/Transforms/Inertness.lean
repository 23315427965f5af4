import LuaRecovery.Lib.Simulation
import LuaRecovery.Transforms.Rewriting

/-!
# Expressions without effect

What can be said of an evaluation from the node alone: that it yields one value,
which value or truth it yields, and that it does nothing else.
-/

set_option autoImplicit false

namespace LuaRecovery.Transforms
open LuaRecovery.Lib LuaRecovery.Lua LuaRecovery.Evaluator

section Single
variable {N : Type}

/-- A program that yields exactly one value. -/
def Single (p : Run N (List (Value N))) : Prop := Yields (fun vs => ∃ v, vs = [v]) p

theorem single_pure (v : Value N) : Single (pure [v]) := Yields.pure ⟨v, rfl⟩

theorem single_bind {α : Type} {p : Run N α} {f : α → Run N (List (Value N))}
    (h : ∀ a, Single (f a)) : Single (p >>= f) := Yields.bind h

theorem one_single {p : Run N (List (Value N))} (h : Single p) :
    (do return [← one p] : Run N (List (Value N))) = p := by
  funext s
  rw [one, Prog.bind_apply, Prog.bind_apply]
  cases hp : p s with
  | done vs s' =>
    obtain ⟨v, hv⟩ := h s vs s' hp
    rw [hv]
    rfl
  | raised e s' => rfl
  | timeout s' => rfl

theorem one_bind {α : Type} (p : Run N α) (f : α → Run N (List (Value N))) :
    one (p >>= f) = p >>= fun a => one (f a) := Prog.bind_assoc p f _

theorem one_return (p : Run N (Value N)) : one (do return [← p]) = p := by
  rw [one_bind]
  exact Prog.bind_pure p

theorem one_pure (vs : List (Value N)) : one (pure vs : Run N (List (Value N))) = pure (first vs) :=
  rfl

variable [LuaNumber N]

/-- Only calls and `...` yield another number of values than one. -/
theorem eval_single (m : Machine N) (env : Env) (va : List (Value N)) (test : Bool) (e : Expr N)
    (he : e.isMulti = false) : Single (eval m env va test e) := by
  have hparens : ∀ (b : Bool) (rs : List (Value N)), (!b) = false →
      Single (pure (if b then [first rs] else rs)) := by
    intro b rs hb
    have hb' : b = true := by simpa using hb
    rw [hb']
    exact single_pure _
  cases e with
  | varargLiteral inParens => exact hparens _ _ he
  | callExpression base args inParens =>
    rw [eval]
    exact single_bind (fun _ => single_bind (fun _ => single_bind (fun rs => hparens _ rs he)))
  | methodCallExpression base method args inParens =>
    rw [eval]
    exact single_bind (fun _ => single_bind (fun _ => single_bind (fun _ =>
      single_bind (fun _ => single_bind (fun rs => hparens _ rs he)))))
  | logicalExpression op l r =>
    cases op <;> rw [eval] <;> apply single_bind <;> intro a <;> by_cases ha : a.truthy = true
    · simp only [ha, if_true]
      exact single_bind (fun _ => single_pure _)
    · simp only [ha]
      exact single_pure _
    · simp only [ha, if_true]
      exact single_pure _
    · simp only [ha]
      exact single_bind (fun _ => single_pure _)
  | binaryExpression op l r =>
    rw [eval]
    exact single_bind (fun _ => single_bind (fun _ => single_bind (fun _ => single_pure _)))
  | unaryExpression op a =>
    rw [eval]
    exact single_bind (fun _ => single_bind (fun _ => single_pure _))
  | memberExpression base property =>
    rw [eval]
    exact single_bind (fun _ => single_bind (fun _ => single_bind (fun _ => single_pure _)))
  | indexExpression base i =>
    rw [eval]
    exact single_bind (fun _ => single_bind (fun _ => single_bind (fun _ => single_pure _)))
  | tableConstructor fields =>
    rw [eval]
    exact single_bind (fun _ => single_bind (fun _ => single_pure _))
  | identifier name =>
    rw [eval]
    exact single_bind (fun _ => single_pure _)
  | functionExpression params isVararg body =>
    rw [eval]
    exact single_bind (fun _ => single_pure _)
  | numericLiteral value raw => exact single_pure _
  | stringLiteral value => exact single_pure _
  | booleanLiteral value => exact single_pure _
  | nilLiteral => exact single_pure _

/-- A literal evaluates to its value, whatever is asked of it. -/
theorem eval_literal {e : Expr N} {v : Value N} (h : literalValue e = some v) (m : Machine N)
    (env : Env) (va : List (Value N)) (test : Bool) : eval m env va test e = pure [v] := by
  cases e with
  | numericLiteral value raw => cases h; rfl
  | stringLiteral value => cases h; rfl
  | booleanLiteral value => cases h; rfl
  | nilLiteral => cases h; rfl
  | _ => cases h

/-- The value of an expression agrees with what the node shows of it. -/
theorem one_shows (m : Machine N) (env : Env) (va : List (Value N)) (test : Bool) (e : Expr N) :
    Yields (Shows e) (one (eval m env va test e)) := by
  intro s v s' h
  cases hlit : literalValue e with
  | some u =>
    rw [eval_literal hlit, one_pure] at h
    cases h
    exact shows_literal hlit
  | none =>
    cases e with
    | functionExpression params isVararg body =>
      cases test <;> cases h <;> exact shows_truthy rfl rfl rfl
    | tableConstructor fields =>
      obtain ⟨vs, hvs, rfl⟩ := one_eq_done.mp h
      rw [eval] at hvs
      obtain ⟨entries, s₁, -, hvs⟩ := Prog.bind_eq_done.mp hvs
      cases test <;> cases hvs <;> exact shows_truthy rfl rfl rfl
    | numericLiteral value raw => cases hlit
    | stringLiteral value => cases hlit
    | booleanLiteral value => cases hlit
    | nilLiteral => cases hlit
    | _ => exact shows_opaque v rfl rfl

end Single

section Inertness
variable {N α β : Type}

theorem inert_pure (a : α) : Inert (fun _ => True) (pure a : Run N α) :=
  fun _ => ⟨a, rfl, trivial⟩

theorem inert_bind {p : Run N α} {f : α → Run N β} (hp : Inert (fun _ => True) p)
    (hf : ∀ a, Inert (fun _ => True) (f a)) : Inert (fun _ => True) (p >>= f) := by
  intro s
  obtain ⟨a, ha, -⟩ := hp s
  obtain ⟨b, hb, -⟩ := hf a s
  exact ⟨b, (Prog.bind_done _ _ _ _ _ ha).trans hb, trivial⟩

theorem inert_one {p : Run N (List (Value N))} (hp : Inert (fun _ => True) p) :
    Inert (fun _ => True) (one p) :=
  inert_bind hp (fun _ => inert_pure _)

theorem inert_readName (env : Env) (x : String) :
    Inert (fun _ => True) (readName env x : Run N (Value N)) := by
  intro s
  rw [readName]
  cases env.lookup x with
  | some a => exact ⟨_, rfl, trivial⟩
  | none => exact ⟨_, rfl, trivial⟩

variable [LuaNumber N]

omit [LuaNumber N] in
theorem literal_ne_table {e : Expr N} {v : Value N} (h : literalValue e = some v) (id : ℕ) :
    v ≠ .table id := by
  intro hv
  subst hv
  cases e <;> cases h

theorem inert_equality (m : Machine N) (op : BinaryOperator) (hop : op = .eq ∨ op = .ne)
    (a b : Value N) (h : (∀ id, a ≠ .table id) ∨ ∀ id, b ≠ .table id) :
    Inert (fun _ => True) (binaryOp m op a b) := by
  have hraw : equalValues m a b = pure (rawEqual a b) := by
    rw [equalValues]
    intro i j hi hj
    cases h with
    | inl ha => exact ha i hi
    | inr hb => exact hb j hj
  cases hop with
  | inl heq =>
    rw [heq, binaryOp, hraw]
    exact inert_pure _
  | inr hne =>
    rw [hne, binaryOp, hraw]
    exact inert_pure _

theorem inert_fieldEntry {k v : Value N} (h : validKey k = true) :
    Inert (fun _ => True) (fieldEntry k v) := by
  rw [fieldEntry, if_pos h]
  exact inert_pure _

omit [LuaNumber N] in
theorem inert_nameKey {e : Expr N} (h : e.name?.isSome = true) :
    Inert (fun _ => True) (nameKey e) := by
  obtain ⟨name, hname⟩ := Option.isSome_iff_exists.mp h
  rw [nameKey, hname]
  exact inert_pure _

mutual

theorem inert_eval (m : Machine N) (env : Env) (va : List (Value N)) :
    ∀ (test : Bool) (e : Expr N), inert test e = true →
      Inert (fun _ => True) (eval m env va test e)
  | test, .identifier x, _ => by
      rw [eval]
      exact inert_bind (inert_readName env x) (fun _ => inert_pure _)
  | test, .numericLiteral value raw, _ => inert_pure _
  | test, .stringLiteral value, _ => inert_pure _
  | test, .booleanLiteral value, _ => inert_pure _
  | test, .nilLiteral, _ => inert_pure _
  | test, .varargLiteral inParens, _ => inert_pure _
  | test, .unaryExpression .not a, h => by
      rw [inert] at h
      rw [eval]
      exact inert_bind (inert_one (inert_eval m env va _ a h)) (fun _ => inert_pure _)
  | test, .unaryExpression .minus a, h => by simp [inert] at h
  | test, .unaryExpression .length a, h => by simp [inert] at h
  | test, .binaryExpression op l r, h => by
      simp only [inert, Bool.and_eq_true, Bool.or_eq_true, decide_eq_true_eq] at h
      obtain ⟨⟨⟨hop, hl⟩, hr⟩, hlit⟩ := h
      have hleft := inert_one (inert_eval m env va false l hl)
      have hright := inert_one (inert_eval m env va false r hr)
      rw [eval]
      cases hlit with
      | inl hsome =>
        obtain ⟨v, hv⟩ := Option.isSome_iff_exists.mp hsome
        rw [eval_literal hv, one_pure, Prog.pure_bind]
        exact inert_bind hright (fun b => inert_bind
          (inert_equality m op hop v b (.inl (literal_ne_table hv))) (fun _ => inert_pure _))
      | inr hsome =>
        obtain ⟨v, hv⟩ := Option.isSome_iff_exists.mp hsome
        rw [eval_literal hv, one_pure]
        simp only [Prog.pure_bind]
        exact inert_bind hleft (fun a => inert_bind
          (inert_equality m op hop a v (.inr (literal_ne_table hv))) (fun _ => inert_pure _))
  | test, .logicalExpression .and l r, h => by
      simp only [inert, Bool.and_eq_true] at h
      have hright := inert_one (inert_eval m env va test r h.2)
      rw [eval]
      apply inert_bind (inert_one (inert_eval m env va true l h.1))
      intro a
      by_cases ha : a.truthy = true
      · simp only [ha, if_true]
        exact inert_bind hright (fun _ => inert_pure _)
      · simp only [ha]
        exact inert_pure _
  | test, .logicalExpression .or l r, h => by
      simp only [inert, Bool.and_eq_true] at h
      have hright := inert_one (inert_eval m env va test r h.2)
      rw [eval]
      apply inert_bind (inert_one (inert_eval m env va test l h.1))
      intro a
      by_cases ha : a.truthy = true
      · simp only [ha, if_true]
        exact inert_pure _
      · simp only [ha]
        exact inert_bind hright (fun _ => inert_pure _)
  | test, .functionExpression params isVararg body, h => by
      rw [inert] at h
      rw [eval, h]
      exact inert_bind (inert_pure _) (fun _ => inert_pure _)
  | test, .tableConstructor fields, h => by
      simp only [inert, Bool.and_eq_true] at h
      rw [eval, h.1]
      exact inert_bind (inert_evalFields m env va 1 fields h.2)
        (fun _ => inert_bind (inert_pure _) (fun _ => inert_pure _))
  | test, .callExpression base args inParens, h => by simp [inert] at h
  | test, .methodCallExpression base method args inParens, h => by simp [inert] at h
  | test, .memberExpression base property, h => by simp [inert] at h
  | test, .indexExpression base i, h => by simp [inert] at h

theorem inert_evalFields (m : Machine N) (env : Env) (va : List (Value N)) :
    ∀ (position : ℕ) (fs : List (TableField N)), inertFields fs = true →
      Inert (fun _ => True) (evalFields m env va true position fs)
  | _, [], _ => inert_pure _
  | position, [.tableValue e], h => by
      simp only [inertFields, Bool.and_true] at h
      rw [evalFields]
      exact inert_bind (inert_eval m env va true e h) (fun _ => inert_pure _)
  | position, .tableValue e :: f :: fs, h => by
      rw [inertFields, Bool.and_eq_true] at h
      have hrest := inert_evalFields m env va (position+1) (f::fs) h.2
      rw [evalFields]
      exact inert_bind (inert_one (inert_eval m env va true e h.1))
        (fun _ => inert_bind hrest (fun _ => inert_pure _))
  | position, .tableKey key value :: fs, h => by
      simp only [inertFields, Bool.and_eq_true] at h
      have hrest := inert_evalFields m env va position fs h.2
      have hvalue := inert_one (inert_eval m env va true value h.1.2)
      have hkey := h.1.1
      rw [evalFields]
      rw [validLiteralKey] at hkey
      cases hlit : literalValue key with
      | none => simp [hlit] at hkey
      | some k =>
        rw [hlit] at hkey
        rw [eval_literal hlit, one_pure, Prog.pure_bind]
        exact inert_bind hvalue (fun _ => inert_bind (inert_fieldEntry hkey)
          (fun _ => inert_bind hrest (fun _ => inert_pure _)))
  | position, .tableKeyString key value :: fs, h => by
      simp only [inertFields, Bool.and_eq_true] at h
      have hrest := inert_evalFields m env va position fs h.2
      have hvalue := inert_one (inert_eval m env va true value h.1.2)
      rw [evalFields]
      exact inert_bind (inert_nameKey h.1.1) (fun _ => inert_bind hvalue
        (fun _ => inert_bind hrest (fun _ => inert_pure _)))

end

/-- An inert node ends in a value that it shows. -/
theorem inert_shows (m : Machine N) (env : Env) (va : List (Value N)) (test : Bool) (e : Expr N)
    (h : inert test e = true) : Inert (Shows e) (one (eval m env va test e)) := by
  intro s
  obtain ⟨v, hv, -⟩ := inert_one (inert_eval m env va test e h) s
  exact ⟨v, hv, one_shows m env va test e s v s hv⟩

end Inertness
end LuaRecovery.Transforms
