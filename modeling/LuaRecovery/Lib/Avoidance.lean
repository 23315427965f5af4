import LuaRecovery.Lib.Recursion
import Mathlib.Order.Defs.Unbundled

/-!
# What the runs of recursive programs have in common

What every result of a program is, how a program changes its state, and when
one program gives what another gives. A program that must not come to certain
places is one whose rules do not end there.
-/

set_option autoImplicit false

namespace LuaRecovery.Lib
namespace Comp
variable {σ ε α β : Type} {c c' : Comp σ ε α} {f f' : α → Comp σ ε β}

/-- Every value that the program ends with meets the condition. -/
def Ensures (c : Comp σ ε α) (Q : α → Prop) : Prop := ∀ s a s', c s = some (.ok (a, s')) → Q a

namespace Ensures
variable {P Q : α → Prop} {Q' : β → Prop}

theorem any (c : Comp σ ε α) : Ensures c fun _ => True := fun _ _ _ _ => trivial

theorem pure {a : α} (h : Q a) : Ensures (pure a : Comp σ ε α) Q := by
  intro s b s' heq
  cases heq
  exact h

theorem imp (h : Ensures c P) (himp : ∀ a, P a → Q a) : Ensures c Q :=
  fun s a s' heq => himp a (h s a s' heq)

theorem bind (h : Ensures c P) (hf : ∀ a, P a → Ensures (f a) Q') : Ensures (c >>= f) Q' := by
  intro s b s' heq
  obtain ⟨a, s₁, ha, hb⟩ := bind_eq_ok heq
  exact hf a (h s a s₁ ha) s₁ b s' hb

theorem throw (e : ε) : Ensures (throw e : Comp σ ε α) Q := by
  intro s a s' heq
  cases heq

theorem ite {p : Prop} [Decidable p] (h : Ensures c Q) (h' : Ensures c' Q) :
    Ensures (if p then c else c') Q := by
  split
  · exact h
  · exact h'

theorem pure_bind {a : α} (h : Ensures (f a) Q') : Ensures (Pure.pure a >>= f) Q' := h

theorem bind_ite {p : Prop} [Decidable p] (h : Ensures (c >>= f) Q') (h' : Ensures (c' >>= f) Q') :
    Ensures ((if p then c else c') >>= f) Q' := by
  split
  · exact h
  · exact h'

theorem bind_bind {γ : Type} {g : β → Comp σ ε γ} {Q'' : γ → Prop}
    (h : Ensures (c >>= fun a => f a >>= g) Q'') : Ensures ((c >>= f) >>= g) Q'' := by
  rwa [bind_assoc]

end Ensures

/-- Every failure that the program ends with meets the condition. -/
def Raises (c : Comp σ ε α) (Q : ε → Prop) : Prop := ∀ s e, c s = some (.error e) → Q e

namespace Raises
variable {Q : ε → Prop}

theorem pure (a : α) : Raises (pure a : Comp σ ε α) Q := by
  intro s e heq
  cases heq

theorem bind (h : Raises c Q) (hf : ∀ a, Raises (f a) Q) : Raises (c >>= f) Q := by
  intro s e heq
  rcases bind_eq_error heq with heq | ⟨a, s₁, -, heq⟩
  · exact h s e heq
  · exact hf a s₁ e heq

theorem ite {p : Prop} [Decidable p] (h : Raises c Q) (h' : Raises c' Q) :
    Raises (if p then c else c') Q := by
  split
  · exact h
  · exact h'

theorem pure_bind {a : α} (h : Raises (f a) Q) : Raises (Pure.pure a >>= f) Q := h

theorem bind_ite {p : Prop} [Decidable p] (h : Raises (c >>= f) Q) (h' : Raises (c' >>= f) Q) :
    Raises ((if p then c else c') >>= f) Q := by
  split
  · exact h
  · exact h'

theorem bind_bind {γ : Type} {g : β → Comp σ ε γ} (h : Raises (c >>= fun a => f a >>= g) Q) :
    Raises ((c >>= f) >>= g) Q := by
  rwa [bind_assoc]

end Raises

/-- From a state of the kind, every value that the program ends with meets the condition, and the
state is of the kind again. -/
def Delivers (P : σ → Prop) (c : Comp σ ε α) (Q : α → Prop) : Prop :=
  ∀ s a s', P s → c s = some (.ok (a, s')) → Q a ∧ P s'

namespace Delivers
variable {P : σ → Prop} {Q R : α → Prop} {Q' : β → Prop}

theorem pure {a : α} (h : Q a) : Delivers P (pure a : Comp σ ε α) Q := by
  intro s b s' hs heq
  cases heq
  exact ⟨h, hs⟩

theorem imp (h : Delivers P c R) (himp : ∀ a, R a → Q a) : Delivers P c Q :=
  fun s a s' hs heq => ⟨himp a (h s a s' hs heq).1, (h s a s' hs heq).2⟩

theorem bind (h : Delivers P c R) (hf : ∀ a, R a → Delivers P (f a) Q') :
    Delivers P (c >>= f) Q' := by
  intro s b s' hs heq
  obtain ⟨a, s₁, ha, hb⟩ := bind_eq_ok heq
  obtain ⟨hR, hs₁⟩ := h s a s₁ hs ha
  exact hf a hR s₁ b s' hs₁ hb

theorem throw (e : ε) : Delivers P (throw e : Comp σ ε α) Q := by
  intro s a s' hs heq
  cases heq

theorem ite {p : Prop} [Decidable p] (h : Delivers P c Q) (h' : Delivers P c' Q) :
    Delivers P (if p then c else c') Q := by
  split
  · exact h
  · exact h'

theorem pure_bind {a : α} (h : Delivers P (f a) Q') : Delivers P (Pure.pure a >>= f) Q' := h

theorem bind_ite {p : Prop} [Decidable p] (h : Delivers P (c >>= f) Q')
    (h' : Delivers P (c' >>= f) Q') : Delivers P ((if p then c else c') >>= f) Q' := by
  split
  · exact h
  · exact h'

theorem bind_bind {γ : Type} {g : β → Comp σ ε γ} {Q'' : γ → Prop}
    (h : Delivers P (c >>= fun a => f a >>= g) Q'') : Delivers P ((c >>= f) >>= g) Q'' := by
  rwa [bind_assoc]

end Delivers

/-- A program that ends with a value moves its state along the relation. -/
def Moves (r : σ → σ → Prop) (c : Comp σ ε α) : Prop := ∀ s a s', c s = some (.ok (a, s')) → r s s'

namespace Moves
variable {r : σ → σ → Prop} [IsPreorder σ r]

theorem pure (a : α) : Moves r (pure a : Comp σ ε α) := by
  intro s b s' heq
  cases heq
  exact refl s

theorem bind (h : Moves r c) (hf : ∀ a, Moves r (f a)) : Moves r (c >>= f) := by
  intro s b s' heq
  obtain ⟨a, s₁, ha, hb⟩ := bind_eq_ok heq
  exact Trans.trans (h s a s₁ ha) (hf a s₁ b s' hb)

omit [IsPreorder σ r] in
theorem ite {p : Prop} [Decidable p] (h : Moves r c) (h' : Moves r c') :
    Moves r (if p then c else c') := by
  split
  · exact h
  · exact h'

end Moves

/-- What the first program gives and meets the condition, the second gives as well. -/
def Keeps (c c' : Comp σ ε α) (Q : α → Prop) : Prop :=
  ∀ s a s', c s = some (.ok (a, s')) → Q a → c' s = some (.ok (a, s'))

namespace Keeps
variable {P Q : α → Prop} {Q' : β → Prop}

theorem same (c : Comp σ ε α) (Q : α → Prop) : Keeps c c Q := fun _ _ _ heq _ => heq

theorem weaken (h : Keeps c c' P) (himp : ∀ a, Q a → P a) : Keeps c c' Q :=
  fun s a s' heq hQ => h s a s' heq (himp a hQ)

/-- A result is kept if the part that it was made of is. -/
theorem bind (h : Keeps c c' P) (hback : ∀ a, Ensures (f a) fun b => Q' b → P a)
    (hf : ∀ a, Keeps (f a) (f' a) Q') : Keeps (c >>= f) (c' >>= f') Q' := by
  intro s b s' heq hQ
  obtain ⟨a, s₁, ha, hb⟩ := bind_eq_ok heq
  rw [bind_ok (h s a s₁ ha (hback a s₁ b s' hb hQ))]
  exact hf a s₁ b s' hb hQ

theorem bind_bind {γ : Type} {g g' : β → Comp σ ε γ} {Q'' : γ → Prop}
    (h : Keeps (c >>= fun a => f a >>= g) (c' >>= fun a => f' a >>= g') Q'') :
    Keeps ((c >>= f) >>= g) ((c' >>= f') >>= g') Q'' := by
  rwa [bind_assoc, bind_assoc]

theorem bind_ite {p : Prop} [Decidable p] {d d' : Comp σ ε α} (h : Keeps (c >>= f) (c' >>= f') Q')
    (h' : Keeps (d >>= f) (d' >>= f') Q') :
    Keeps ((if p then c else d) >>= f) ((if p then c' else d') >>= f') Q' := by
  split
  · exact h
  · exact h'

theorem ite {p : Prop} [Decidable p] {d d' : Comp σ ε α} (h : Keeps c c' Q) (h' : Keeps d d' Q) :
    Keeps (if p then c else d) (if p then c' else d') Q := by
  split
  · exact h
  · exact h'

end Keeps
end Comp

namespace Handler
variable {σ ε : Type} {R : Type → Type 1}

/-- Places to avoid: a rule in a state. -/
abbrev Places (σ : Type) (R : Type → Type 1) := ∀ {α : Type}, R α → σ → Prop

open Classical in
/-- The handler without an end at the given places. -/
noncomputable def except (h : Handler σ ε R) (bad : Places σ R) : Handler σ ε R :=
  ⟨fun r s => if bad r s then none else h.call r s⟩

theorem except_eq_some {h : Handler σ ε R} {bad : Places σ R} {α : Type} {r : R α} {s : σ}
    {x : Except ε (α × σ)} :
    (h.except bad).call r s = some x ↔ ¬ bad r s ∧ h.call r s = some x := by
  unfold except
  by_cases hbad : bad r s
  · simp [hbad]
  · simp [hbad]

/-- The rules as they run where they do not come to the given places. -/
noncomputable def avoiding (rules : Handler σ ε R → Handler σ ε R) (bad : Places σ R) :
    Handler σ ε R :=
  limit (bounded fun self => (rules self).except bad)

section Avoiding
variable {rules : Handler σ ε R → Handler σ ε R} {bad : Places σ R} {α : Type} {r : R α} {s : σ}
  {x : Except ε (α × σ)}

/-- What every body preserves, away from the places to avoid, holds of all that is given. -/
theorem avoiding_induction {P : ∀ {α : Type}, R α → σ → Except ε (α × σ) → Prop}
    (hstep : ∀ self : Handler σ ε R,
      (∀ {α : Type} (r : R α) s x, self.call r s = some x → P r s x) →
      ∀ {α : Type} (r : R α) s x, ¬ bad r s → (rules self).call r s = some x → P r s x)
    (hx : (avoiding rules bad).call r s = some x) : P r s x := by
  refine limit_induction ?_ hx
  intro self hself α r s x hx
  obtain ⟨hbad, hx⟩ := except_eq_some.mp hx
  exact hstep self hself r s x hbad hx

variable (hrules : ∀ {α : Type} (r : R α), Finitary fun self => (rules self).call r)
include hrules

theorem finitary_except (bad : Places σ R) {α : Type} (r : R α) :
    Finitary fun self => ((rules self).except bad).call r where
  mono h k hbelow s x hx := by
    obtain ⟨hbad, hx⟩ := except_eq_some.mp hx
    exact except_eq_some.mpr ⟨hbad, (hrules r).mono h k hbelow s x hx⟩
  reached h hchain s x hx := by
    obtain ⟨hbad, hx⟩ := except_eq_some.mp hx
    obtain ⟨n, hn⟩ := (hrules r).reached h hchain s x hx
    exact ⟨n, except_eq_some.mpr ⟨hbad, hn⟩⟩

/-- To some depth, nothing but what the rules give is given away from the places to avoid. -/
theorem bounded_except_below (bad : Places σ R) (n : ℕ) :
    (bounded (fun self => (rules self).except bad) n).Below (bounded rules n) := by
  induction n with
  | zero =>
    intro α r s x hx
    cases hx
  | succ n ih =>
    intro α r s x hx
    exact (hrules r).mono _ _ ih s x (except_eq_some.mp hx).2

theorem avoiding_eq_some :
    (avoiding rules bad).call r s = some x ↔
      ∃ n, (bounded (fun self => (rules self).except bad) n).call r s = some x :=
  limit_eq_some (finitary_except hrules bad)

/-- Fewer places to avoid leave no less. -/
theorem avoiding_anti {bad bad' : Places σ R} (h : ∀ {α : Type} (r : R α) s, bad r s → bad' r s) :
    (avoiding rules bad').Below (avoiding rules bad) := by
  have hbounded : ∀ n, (bounded (fun self => (rules self).except bad') n).Below
      (bounded (fun self => (rules self).except bad) n) := by
    intro n
    induction n with
    | zero =>
      intro α r s x hx
      cases hx
    | succ n ih =>
      intro α r s x hx
      obtain ⟨hbad, hx⟩ := except_eq_some.mp hx
      exact except_eq_some.mpr ⟨fun hr => hbad (h r s hr), (hrules r).mono _ _ ih s x hx⟩
  intro α r s x hx
  obtain ⟨n, hn⟩ := (avoiding_eq_some hrules).mp hx
  exact (avoiding_eq_some hrules).mpr ⟨n, hbounded n r s x hn⟩

end Avoiding
end Handler
end LuaRecovery.Lib
