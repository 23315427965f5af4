import Mathlib.Order.Basic

/-!
# Recursive programs

The body of a rule may ask for rules again. To a bounded depth the rules can be
run; what they give at some depth is what their limit gives, and the limit
satisfies the equations of the bodies.
-/

set_option autoImplicit false

namespace LuaRecovery.Lib

/-- A program that reads a state and ends with a value, with an error, or not at all. -/
abbrev Comp (σ ε α : Type) : Type := StateT σ (ExceptT ε Option) α

namespace Comp
variable {σ ε α β : Type} {c : Comp σ ε α} {f : α → Comp σ ε β} {s s' : σ} {a : α} {e : ε}

theorem bind_ok (h : c s = some (.ok (a, s'))) : (c >>= f) s = f a s' := by
  change (c s >>= fun p => f p.1 p.2 : ExceptT ε Option (β × σ)) = f a s'
  rw [h]
  rfl

theorem bind_error (h : c s = some (.error e)) : (c >>= f) s = some (.error e) := by
  change (c s >>= fun p => f p.1 p.2 : ExceptT ε Option (β × σ)) = some (.error e)
  rw [h]
  rfl

theorem bind_none (h : c s = none) : (c >>= f) s = none := by
  change (c s >>= fun p => f p.1 p.2 : ExceptT ε Option (β × σ)) = none
  rw [h]
  rfl

theorem bind_eq_ok {b : β} {s'' : σ} (h : (c >>= f) s = some (.ok (b, s''))) :
    ∃ a s', c s = some (.ok (a, s')) ∧ f a s' = some (.ok (b, s'')) := by
  match hc : c s with
  | none =>
    rw [bind_none hc] at h
    cases h
  | some (.error e) =>
    rw [bind_error hc] at h
    cases h
  | some (.ok (a, s')) =>
    rw [bind_ok hc] at h
    exact ⟨a, s', rfl, h⟩

theorem bind_eq_error (h : (c >>= f) s = some (.error e)) :
    c s = some (.error e) ∨ ∃ a s', c s = some (.ok (a, s')) ∧ f a s' = some (.error e) := by
  match hc : c s with
  | none =>
    rw [bind_none hc] at h
    cases h
  | some (.error e') =>
    rw [bind_error hc] at h
    cases h
    exact .inl rfl
  | some (.ok (a, s')) =>
    rw [bind_ok hc] at h
    exact .inr ⟨a, s', rfl, h⟩

/-- Wherever the first program ends, the second ends in the same way. -/
def Below (c d : Comp σ ε α) : Prop := ∀ s x, c s = some x → d s = some x

theorem Below.refl (c : Comp σ ε α) : Below c c := fun _ _ h => h

theorem Below.bind {c d : Comp σ ε α} {f g : α → Comp σ ε β} (hcd : Below c d)
    (hfg : ∀ a, Below (f a) (g a)) : Below (c >>= f) (d >>= g) := by
  intro s x h
  match hc : c s with
  | none =>
    rw [bind_none hc] at h
    cases h
  | some (.error e) =>
    rw [bind_error hc] at h
    rw [bind_error (hcd s _ hc), h]
  | some (.ok (a, s')) =>
    rw [bind_ok hc] at h
    rw [bind_ok (hcd s _ hc)]
    exact hfg a s' x h

end Comp

/-- What is run for each rule. -/
structure Handler (σ ε : Type) (R : Type → Type 1) where
  call : {α : Type} → R α → Comp σ ε α

namespace Handler
variable {σ ε α β : Type} {R : Type → Type 1}

def Below (h k : Handler σ ε R) : Prop := ∀ {α : Type} (r : R α), (h.call r).Below (k.call r)

def empty : Handler σ ε R := ⟨fun _ _ => none⟩

/-- The rules to a depth, below which nothing ends. -/
def bounded (rules : Handler σ ε R → Handler σ ε R) : ℕ → Handler σ ε R
  | 0 => empty
  | n + 1 => rules (bounded rules n)

open Classical in
noncomputable def limit (h : ℕ → Handler σ ε R) : Handler σ ε R :=
  ⟨fun r s => if ends : ∃ x n, (h n).call r s = some x then some ends.choose else none⟩

theorem exists_of_limit {h : ℕ → Handler σ ε R} {r : R α} {s : σ} {x : Except ε (α × σ)}
    (hx : (limit h).call r s = some x) : ∃ n, (h n).call r s = some x := by
  unfold limit at hx
  dsimp only at hx
  split at hx
  next ends =>
    cases hx
    exact ends.choose_spec
  next => cases hx

section Chain
variable {h : ℕ → Handler σ ε R} (hchain : ∀ n, (h n).Below (h (n + 1)))
include hchain

theorem below_of_le {m n : ℕ} (hmn : m ≤ n) : (h m).Below (h n) := by
  intro α r s x hx
  induction hmn with
  | refl => exact hx
  | step _ ih => exact hchain _ r s x ih

theorem limit_of_exists {r : R α} {s : σ} {x : Except ε (α × σ)} {n : ℕ}
    (hx : (h n).call r s = some x) : (limit h).call r s = some x := by
  have ends : ∃ x n, (h n).call r s = some x := ⟨x, n, hx⟩
  have hlimit : (limit h).call r s = some ends.choose := dif_pos ends
  obtain ⟨m, hm⟩ := ends.choose_spec
  have h₁ := below_of_le hchain (Nat.le_max_left m n) r s _ hm
  have h₂ := below_of_le hchain (Nat.le_max_right m n) r s _ hx
  rw [hlimit, ← h₁, h₂]

end Chain

/-- A program over a handler that asks it finitely often. -/
structure Finitary (G : Handler σ ε R → Comp σ ε α) : Prop where
  mono : ∀ h k : Handler σ ε R, h.Below k → (G h).Below (G k)
  reached : ∀ h : ℕ → Handler σ ε R, (∀ n, (h n).Below (h (n + 1))) →
    ∀ s x, G (limit h) s = some x → ∃ n, G (h n) s = some x

namespace Finitary

theorem const (c : Comp σ ε α) : Finitary fun _ : Handler σ ε R => c where
  mono _ _ _ := .refl c
  reached _ _ _ _ hx := ⟨0, hx⟩

theorem call (r : R α) : Finitary fun h : Handler σ ε R => h.call r where
  mono _ _ hbelow := hbelow r
  reached _ _ _ _ hx := exists_of_limit hx

theorem bind {G : Handler σ ε R → Comp σ ε α} {F : Handler σ ε R → α → Comp σ ε β}
    (hG : Finitary G) (hF : ∀ a, Finitary fun h => F h a) : Finitary fun h => G h >>= F h where
  mono h k hbelow := (hG.mono h k hbelow).bind fun a => (hF a).mono h k hbelow
  reached h hchain s x hx := by
    match hc : G (limit h) s with
    | none =>
      rw [Comp.bind_none hc] at hx
      cases hx
    | some (.error e) =>
      obtain ⟨n, hn⟩ := hG.reached h hchain s _ hc
      rw [Comp.bind_error hc] at hx
      exact ⟨n, by rw [Comp.bind_error hn, hx]⟩
    | some (.ok (a, s')) =>
      obtain ⟨m, hm⟩ := hG.reached h hchain s _ hc
      rw [Comp.bind_ok hc] at hx
      obtain ⟨n, hn⟩ := (hF a).reached h hchain s' x hx
      have hm' := hG.mono _ _ (below_of_le hchain (Nat.le_max_left m n)) s _ hm
      have hn' := (hF a).mono _ _ (below_of_le hchain (Nat.le_max_right m n)) s' x hn
      exact ⟨max m n, by rw [Comp.bind_ok hm', hn']⟩

theorem ite {p : Prop} [Decidable p] {G F : Handler σ ε R → Comp σ ε α} (hG : Finitary G)
    (hF : Finitary F) : Finitary fun h => if p then G h else F h := by
  split
  · exact hG
  · exact hF

end Finitary

section Limit
variable {rules : Handler σ ε R → Handler σ ε R}

/-- What every body preserves holds of all that the limit gives. -/
theorem limit_induction {P : ∀ {α : Type}, R α → σ → Except ε (α × σ) → Prop}
    (hstep : ∀ self : Handler σ ε R,
      (∀ {α : Type} (r : R α) s x, self.call r s = some x → P r s x) →
      ∀ {α : Type} (r : R α) s x, (rules self).call r s = some x → P r s x)
    {r : R α} {s : σ} {x : Except ε (α × σ)}
    (hx : (limit (bounded rules)).call r s = some x) : P r s x := by
  have hbounded : ∀ n, ∀ {α : Type} (r : R α) s x, (bounded rules n).call r s = some x → P r s x := by
    intro n
    induction n with
    | zero =>
      intro α r s x hn
      cases hn
    | succ n ih => exact hstep (bounded rules n) ih
  obtain ⟨n, hn⟩ := exists_of_limit hx
  exact hbounded n r s x hn

variable (hrules : ∀ {α : Type} (r : R α), Finitary fun self => (rules self).call r)
include hrules

theorem bounded_below_succ (n : ℕ) : (bounded rules n).Below (bounded rules (n + 1)) := by
  induction n with
  | zero =>
    intro α r s x hx
    cases hx
  | succ n ih => exact fun r => (hrules r).mono _ _ ih

theorem limit_eq_some {r : R α} {s : σ} {x : Except ε (α × σ)} :
    (limit (bounded rules)).call r s = some x ↔ ∃ n, (bounded rules n).call r s = some x := by
  constructor
  · exact exists_of_limit
  · rintro ⟨n, hn⟩
    exact limit_of_exists (bounded_below_succ hrules) hn

/-- The limit satisfies the equations of the bodies. -/
theorem limit_eq (r : R α) :
    (limit (bounded rules)).call r = (rules (limit (bounded rules))).call r := by
  have hchain := bounded_below_succ hrules
  funext s
  ext x
  constructor
  · intro hx
    obtain ⟨n, hn⟩ := exists_of_limit hx
    cases n with
    | zero => cases hn
    | succ n =>
      refine (hrules r).mono _ _ ?_ s x hn
      intro β r' s' x' hx'
      exact limit_of_exists hchain hx'
  · intro hx
    obtain ⟨n, hn⟩ := (hrules r).reached _ hchain s x hx
    exact limit_of_exists (n := n + 1) hchain hn

end Limit
end Handler
end LuaRecovery.Lib
