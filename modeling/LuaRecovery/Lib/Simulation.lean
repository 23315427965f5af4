import LuaRecovery.Lib.Prog

/-!
# Simulation of state programs

Two programs are related over an ordered set of worlds: started in states
related at a world, they end the same way, in states related at a later one.
A world records what is known of the two states so far, such as which cells no
longer change. Values are related at the world they were produced in.
-/

set_option autoImplicit false

namespace LuaRecovery.Lib

section Relations
variable {W σ τ ε α β : Type} [Preorder W]

/-- Both outcomes are of one kind and their states are related from now on. -/
inductive Ends (R : W → σ → τ → Prop) (V : W → α → β → Prop) (w : W) :
    Outcome σ ε α → Outcome τ ε β → Prop
  | done {w' : W} {a : α} {b : β} {s : σ} {t : τ} (later : w ≤ w') (states : R w' s t)
      (values : V w' a b) : Ends R V w (.done a s) (.done b t)
  | raised {w' : W} {e : ε} {s : σ} {t : τ} (later : w ≤ w') (states : R w' s t) :
      Ends R V w (.raised e s) (.raised e t)
  | timeout {w' : W} {s : σ} {t : τ} (later : w ≤ w') (states : R w' s t) :
      Ends R V w (.timeout s) (.timeout t)

def Sim (R : W → σ → τ → Prop) (V : W → α → β → Prop) (w : W) (p : Prog σ ε α)
    (q : Prog τ ε β) : Prop :=
  ∀ w', w ≤ w' → ∀ s t, R w' s t → Ends R V w' (p s) (q t)

end Relations

/-- The same value on both sides, whatever the world. -/
def Same {W α : Type} (_ : W) (a b : α) : Prop := a = b

/-- Results of a loop step: both go on with related states or both stop. -/
inductive SumRel {W α β γ δ : Type} (I : W → α → β → Prop) (V : W → γ → δ → Prop) (w : W) :
    α ⊕ γ → β ⊕ δ → Prop
  | inl {a : α} {b : β} (h : I w a b) : SumRel I V w (.inl a) (.inl b)
  | inr {c : γ} {d : δ} (h : V w c d) : SumRel I V w (.inr c) (.inr d)

/-- Caught errors: the same error, or related values. -/
inductive ExceptRel {W ε α β : Type} (V : W → α → β → Prop) (w : W) :
    Except ε α → Except ε β → Prop
  | ok {a : α} {b : β} (h : V w a b) : ExceptRel V w (.ok a) (.ok b)
  | error {e : ε} : ExceptRel V w (.error e) (.error e)

/-- A program that always ends in a value with a property and keeps its state. -/
def Inert {σ ε α : Type} (P : α → Prop) (p : Prog σ ε α) : Prop := ∀ s, ∃ a, p s = .done a s ∧ P a

/-- Whatever value a program ends in has a property. -/
def Yields {σ ε α : Type} (P : α → Prop) (p : Prog σ ε α) : Prop := ∀ s a s', p s = .done a s' → P a

section Rules
variable {W σ τ ε α β γ δ : Type} [Preorder W]
variable {R : W → σ → τ → Prop} {V V' : W → α → β → Prop} {U : W → γ → δ → Prop} {w : W}

theorem Yields.pure {P : α → Prop} {a : α} (h : P a) : Yields P (pure a : Prog σ ε α) := by
  intro s b s' hb
  cases hb
  exact h

theorem Yields.bind {P : γ → Prop} {p : Prog σ ε α} {f : α → Prog σ ε γ}
    (h : ∀ a, Yields P (f a)) : Yields P (p >>= f) := by
  intro s c s' hc
  obtain ⟨a, s₁, -, hf⟩ := Prog.bind_eq_done.mp hc
  exact h a s₁ c s' hf

theorem Yields.raise {P : α → Prop} (e : ε) : Yields P (Prog.raise e : Prog σ ε α) := by
  intro s a s' h
  cases h

theorem Yields.stop {P : α → Prop} : Yields P (Prog.stop : Prog σ ε α) := by
  intro s a s' h
  cases h

theorem Yields.imp {P Q : α → Prop} {p : Prog σ ε α} (hp : Yields P p) (h : ∀ a, P a → Q a) :
    Yields Q p := fun s a s' ha => h a (hp s a s' ha)

/-- The second program may rely on what the first one yields. -/
theorem Yields.next {P : α → Prop} {Q : γ → Prop} {p : Prog σ ε α} {f : α → Prog σ ε γ}
    (hp : Yields P p) (hf : ∀ a, P a → Yields Q (f a)) : Yields Q (p >>= f) := by
  intro s c s' hc
  obtain ⟨a, s₁, ha, hc⟩ := Prog.bind_eq_done.mp hc
  exact hf a (hp s a s₁ ha) s₁ c s' hc

theorem Yields.iterate {P : γ → Prop} {step : α → Prog σ ε (α ⊕ γ)}
    (h : ∀ a, Yields (fun r => ∀ c, r = .inr c → P c) (step a)) (n : ℕ) (a : α) :
    Yields P (Prog.iterate step n a) := by
  induction n generalizing a with
  | zero => exact Yields.stop
  | succ n ih =>
    refine Yields.next (h a) fun r hr => ?_
    cases r with
    | inl a' => exact ih a'
    | inr c => exact Yields.pure (hr c rfl)

theorem Ends.earlier {w' : W} {x : Outcome σ ε α} {y : Outcome τ ε β} (hw : w ≤ w')
    (h : Ends R V w' x y) : Ends R V w x y := by
  cases h with
  | done hlater hstates hvalues => exact .done (le_trans hw hlater) hstates hvalues
  | raised hlater hstates => exact .raised (le_trans hw hlater) hstates
  | timeout hlater hstates => exact .timeout (le_trans hw hlater) hstates

theorem Ends.conseq {x : Outcome σ ε α} {y : Outcome τ ε β} (h : Ends R V w x y)
    (hV : ∀ w', w ≤ w' → ∀ a b, V w' a b → V' w' a b) : Ends R V' w x y := by
  cases h with
  | done hlater hstates hvalues => exact .done hlater hstates (hV _ hlater _ _ hvalues)
  | raised hlater hstates => exact .raised hlater hstates
  | timeout hlater hstates => exact .timeout hlater hstates

theorem Sim.later {w' : W} {p : Prog σ ε α} {q : Prog τ ε β} (h : Sim R V w p q) (hw : w ≤ w') :
    Sim R V w' p q :=
  fun w₁ hw₁ => h w₁ (le_trans hw hw₁)

theorem Sim.conseq {p : Prog σ ε α} {q : Prog τ ε β} (h : Sim R V w p q)
    (hV : ∀ w', w ≤ w' → ∀ a b, V w' a b → V' w' a b) : Sim R V' w p q := by
  intro w₁ hw₁ s t hst
  exact (h w₁ hw₁ s t hst).conseq (fun w₂ hw₂ => hV w₂ (le_trans hw₁ hw₂))

theorem Sim.pure {a : α} {b : β} (h : ∀ w', w ≤ w' → V w' a b) :
    Sim R V w (pure a : Prog σ ε α) (pure b : Prog τ ε β) :=
  fun w₁ hw₁ _ _ hst => .done le_rfl hst (h w₁ hw₁)

theorem Sim.bind {p : Prog σ ε α} {q : Prog τ ε β} {f : α → Prog σ ε γ} {g : β → Prog τ ε δ}
    (h : Sim R V w p q) (hf : ∀ w', w ≤ w' → ∀ a b, V w' a b → Sim R U w' (f a) (g b)) :
    Sim R U w (p >>= f) (q >>= g) := by
  intro w₁ hw₁ s t hst
  have hends := h w₁ hw₁ s t hst
  rw [Prog.bind_apply, Prog.bind_apply]
  generalize p s = x at hends
  generalize q t = y at hends
  cases hends with
  | done hlater hstates hvalues =>
    exact (hf _ (le_trans hw₁ hlater) _ _ hvalues _ le_rfl _ _ hstates).earlier hlater
  | raised hlater hstates => exact .raised hlater hstates
  | timeout hlater hstates => exact .timeout hlater hstates

theorem Sim.raise (e : ε) : Sim R V w (Prog.raise e : Prog σ ε α) (Prog.raise e : Prog τ ε β) :=
  fun _ _ _ _ hst => .raised le_rfl hst

theorem Sim.stop : Sim R V w (Prog.stop : Prog σ ε α) (Prog.stop : Prog τ ε β) :=
  fun _ _ _ _ hst => .timeout le_rfl hst

theorem Sim.read {f : σ → α} {g : τ → β}
    (h : ∀ w', w ≤ w' → ∀ s t, R w' s t → V w' (f s) (g t)) :
    Sim R V w (Prog.read f : Prog σ ε α) (Prog.read g : Prog τ ε β) :=
  fun w₁ hw₁ s t hst => .done le_rfl hst (h w₁ hw₁ s t hst)

theorem Sim.write {f : σ → σ} {g : τ → τ}
    (h : ∀ w', w ≤ w' → ∀ s t, R w' s t → R w' (f s) (g t)) :
    Sim R Same w (Prog.write f : Prog σ ε Unit) (Prog.write g : Prog τ ε Unit) :=
  fun w₁ hw₁ s t hst => .done le_rfl (h w₁ hw₁ s t hst) rfl

theorem Sim.attempt {p : Prog σ ε α} {q : Prog τ ε β} (h : Sim R V w p q) :
    Sim R (ExceptRel V) w (Prog.attempt p) (Prog.attempt q) := by
  intro w₁ hw₁ s t hst
  have hends := h w₁ hw₁ s t hst
  rw [Prog.attempt, Prog.attempt]
  generalize p s = x at hends
  generalize q t = y at hends
  cases hends with
  | done hlater hstates hvalues => exact .done hlater hstates (.ok hvalues)
  | raised hlater hstates => exact .done hlater hstates .error
  | timeout hlater hstates => exact .timeout hlater hstates

/-- The left side may do more: what it adds simulates a program without effect. -/
theorem Sim.bind_left {P : β → Prop} {p : Prog σ ε α} {q : Prog τ ε β} {f : α → Prog σ ε γ}
    {g : Prog τ ε δ} (h : Sim R V w p q) (hq : Inert P q)
    (hf : ∀ w', w ≤ w' → ∀ a b, V w' a b → P b → Sim R U w' (f a) g) :
    Sim R U w (p >>= f) g := by
  intro w₁ hw₁ s t hst
  have hends := h w₁ hw₁ s t hst
  obtain ⟨b, hb, hP⟩ := hq t
  rw [hb] at hends
  rw [Prog.bind_apply]
  generalize p s = x at hends
  cases hends with
  | done hlater hstates hvalues =>
    exact (hf _ (le_trans hw₁ hlater) _ _ hvalues hP _ le_rfl _ _ hstates).earlier hlater

theorem Sim.strengthen {P : α → Prop} {Q : β → Prop} {p : Prog σ ε α} {q : Prog τ ε β}
    (h : Sim R V w p q) (hp : Yields P p) (hq : Yields Q q) :
    Sim R (fun w a b => V w a b ∧ P a ∧ Q b) w p q := by
  intro w₁ hw₁ s t hst
  have hends := h w₁ hw₁ s t hst
  generalize hx : p s = x at hends
  generalize hy : q t = y at hends
  cases hends with
  | done hlater hstates hvalues =>
    exact .done hlater hstates ⟨hvalues, hp _ _ _ hx, hq _ _ _ hy⟩
  | raised hlater hstates => exact .raised hlater hstates
  | timeout hlater hstates => exact .timeout hlater hstates

/-- Loops are related when their steps are, from any later world on. -/
theorem Sim.iterate {I : W → α → β → Prop} {step : α → Prog σ ε (α ⊕ γ)}
    {step' : β → Prog τ ε (β ⊕ δ)} (n : ℕ) (hU : ∀ w₁ w₂ c d, w₁ ≤ w₂ → U w₁ c d → U w₂ c d)
    (hstep : ∀ w', w ≤ w' → ∀ a b, I w' a b → Sim R (SumRel I U) w' (step a) (step' b)) :
    ∀ w', w ≤ w' → ∀ a b, I w' a b →
      Sim R U w' (Prog.iterate step n a) (Prog.iterate step' n b) := by
  induction n with
  | zero => exact fun w' _ a b _ => Sim.stop
  | succ n ih =>
    intro w' hw' a b hab
    show Sim R U w' (step a >>= _) (step' b >>= _)
    apply Sim.bind (hstep w' hw' a b hab)
    intro w₂ hw₂ r r' hr
    cases hr with
    | inl h => exact ih w₂ (le_trans hw' hw₂) _ _ h
    | inr h => exact Sim.pure (fun w₃ hw₃ => hU w₂ w₃ _ _ hw₃ h)

end Rules
end LuaRecovery.Lib
