import Mathlib.Data.List.Basic

/-!
# Scanners

A scanner reads a list from its front. One step takes an element and sees what
comes after it; it says where the scan goes on, never before that place. The
length of the list bounds the number of steps.
-/

set_option autoImplicit false

namespace LuaRecovery.Lib
variable {α S : Type}

def scanFor (step : α → List α → S → List α × S) : ℕ → List α → S → S
  | 0, _, s => s
  | _+1, [], s => s
  | n+1, a::l, s => scanFor step n (step a l s).1 (step a l s).2

def scanAll (step : α → List α → S → List α × S) (l : List α) (s : S) : S :=
  scanFor step l.length l s

/-- The places of the scan: the elements that it looks at, with what comes after. -/
def placesFor (next : α → List α → List α) : ℕ → List α → List (α × List α)
  | 0, _ => []
  | _+1, [] => []
  | n+1, a::l => (a, l) :: placesFor next n (next a l)

def places (next : α → List α → List α) (l : List α) : List (α × List α) :=
  placesFor next l.length l

/-- The scan goes on behind the element that it has taken. -/
def Shrinks (next : α → List α → List α) : Prop := ∀ a l, (next a l).length ≤ l.length

section Steps
variable {next : α → List α → List α} {step : α → List α → S → List α × S}

theorem scanFor_eq (hstep : ∀ a l s, (step a l s).1.length ≤ l.length) {n m : ℕ} {l : List α}
    (hn : l.length ≤ n) (hm : l.length ≤ m) (s : S) : scanFor step n l s = scanFor step m l s := by
  induction n generalizing m l s with
  | zero =>
    have hnil : l = [] := List.length_eq_zero_iff.mp (by omega)
    subst hnil
    cases m <;> rfl
  | succ n ih =>
    cases l with
    | nil => cases m <;> rfl
    | cons a l =>
      simp only [List.length_cons] at hn hm
      obtain ⟨m, rfl⟩ : ∃ k, m = k+1 := ⟨m-1, by omega⟩
      have hle := hstep a l s
      exact ih (by omega) (by omega) _

@[simp] theorem scanAll_nil (s : S) : scanAll step [] s = s := rfl

theorem scanAll_cons (hstep : ∀ a l s, (step a l s).1.length ≤ l.length) (a : α) (l : List α)
    (s : S) : scanAll step (a::l) s = scanAll step (step a l s).1 (step a l s).2 :=
  scanFor_eq hstep (hstep a l s) (Nat.le_refl _) _

theorem placesFor_eq (hnext : Shrinks next) {n m : ℕ} {l : List α} (hn : l.length ≤ n)
    (hm : l.length ≤ m) : placesFor next n l = placesFor next m l := by
  induction n generalizing m l with
  | zero =>
    have hnil : l = [] := List.length_eq_zero_iff.mp (by omega)
    subst hnil
    cases m <;> rfl
  | succ n ih =>
    cases l with
    | nil => cases m <;> rfl
    | cons a l =>
      simp only [List.length_cons] at hn hm
      obtain ⟨m, rfl⟩ : ∃ k, m = k+1 := ⟨m-1, by omega⟩
      have hle := hnext a l
      show (a, l) :: _ = (a, l) :: _
      rw [ih (m := m) (by omega) (by omega)]

@[simp] theorem places_nil : places next [] = [] := rfl

theorem places_cons (hnext : Shrinks next) (a : α) (l : List α) :
    places next (a::l) = (a, l) :: places next (next a l) := by
  show (a, l) :: _ = _
  rw [placesFor_eq hnext (hnext a l) (Nat.le_refl _)]
  rfl

/-- What holds at the end and passes from each place to the one before it. -/
theorem scan_induction (hnext : Shrinks next) {P : List α → Prop} (nil : P [])
    (cons : ∀ a l, P (next a l) → P (a::l)) (l : List α) : P l := by
  have hbounded : ∀ n, ∀ l : List α, l.length ≤ n → P l := by
    intro n
    induction n with
    | zero =>
      intro l hl
      have hnil : l = [] := List.length_eq_zero_iff.mp (by omega)
      rw [hnil]
      exact nil
    | succ n ih =>
      intro l hl
      cases l with
      | nil => exact nil
      | cons a l =>
        have hle := hnext a l
        simp only [List.length_cons] at hl
        exact cons a l (ih _ (by omega))
  exact hbounded l.length l (Nat.le_refl _)

end Steps
end LuaRecovery.Lib
