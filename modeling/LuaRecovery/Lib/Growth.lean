import LuaRecovery.Lib.Prog
import Mathlib.Order.Defs.Unbundled

/-!
# What a program only adds to

A relation between the state a program starts in and the one it leaves. If it
is a preorder, it holds of a program whose parts it holds of.
-/

set_option autoImplicit false

namespace LuaRecovery.Lib
namespace Prog
variable {σ ε α β : Type} {r : σ → σ → Prop}

/-- However the program ends, the state it leaves is related to the one it started in. -/
def Grows (r : σ → σ → Prop) (p : Prog σ ε α) : Prop := ∀ s, r s (p s).state

section Rules
variable [IsPreorder σ r]

theorem Grows.pure (a : α) : Grows r (pure a : Prog σ ε α) := fun s => refl s

theorem Grows.raise (e : ε) : Grows r (raise e : Prog σ ε α) := fun s => refl s

theorem Grows.stop : Grows r (stop : Prog σ ε α) := fun s => refl s

theorem Grows.read (f : σ → α) : Grows r (read f : Prog σ ε α) := fun s => refl s

omit [IsPreorder σ r] in
theorem Grows.write {f : σ → σ} (h : ∀ s, r s (f s)) : Grows r (write f : Prog σ ε Unit) := h

theorem Grows.bind {p : Prog σ ε α} {f : α → Prog σ ε β} (hp : Grows r p)
    (hf : ∀ a, Grows r (f a)) : Grows r (p >>= f) := by
  intro s
  have hs := hp s
  rw [bind_apply]
  cases h : p s with
  | done a s' =>
    rw [h] at hs
    exact Trans.trans hs (hf a s')
  | raised e s' =>
    rw [h] at hs
    exact hs
  | timeout s' =>
    rw [h] at hs
    exact hs

omit [IsPreorder σ r] in
theorem Grows.attempt {p : Prog σ ε α} (hp : Grows r p) : Grows r (attempt p) := by
  intro s
  have hs := hp s
  unfold Prog.attempt
  cases h : p s <;> rwa [h] at hs

theorem Grows.iterate {step : α → Prog σ ε (α ⊕ β)} (h : ∀ a, Grows r (step a)) (n : ℕ) (a : α) :
    Grows r (iterate step n a) := by
  induction n generalizing a with
  | zero => exact .stop
  | succ n ih =>
    refine .bind (h a) fun result => ?_
    cases result with
    | inl a' => exact ih a'
    | inr b => exact .pure b

omit [IsPreorder σ r] in
theorem Grows.ite {c : Prop} [Decidable c] {p q : Prog σ ε α} (hp : Grows r p) (hq : Grows r q) :
    Grows r (if c then p else q) := by
  split
  · exact hp
  · exact hq

end Rules

end Prog
end LuaRecovery.Lib
