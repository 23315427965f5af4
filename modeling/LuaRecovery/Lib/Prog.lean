import Mathlib.Order.Basic

/-!
# State programs that may raise or run out of fuel

A program reads a state and ends in one of three ways, each with the state it
left. Loops carry an explicit bound.
-/

set_option autoImplicit false

namespace LuaRecovery.Lib

inductive Outcome (σ ε α : Type) : Type where
  | done (value : α) (state : σ)
  | raised (error : ε) (state : σ)
  | timeout (state : σ)

namespace Outcome
variable {σ ε α : Type}

/-- The state the program left, however it ended. -/
def state : Outcome σ ε α → σ
  | .done _ s => s
  | .raised _ s => s
  | .timeout s => s

end Outcome

def Prog (σ ε α : Type) : Type := σ → Outcome σ ε α

namespace Prog
variable {σ ε α β : Type}

def ret (a : α) : Prog σ ε α := fun s => .done a s

def bind (p : Prog σ ε α) (f : α → Prog σ ε β) : Prog σ ε β := fun s =>
  match p s with
  | .done a s' => f a s'
  | .raised e s' => .raised e s'
  | .timeout s' => .timeout s'

instance : Monad (Prog σ ε) where
  pure := ret
  bind := bind

def raise (e : ε) : Prog σ ε α := fun s => .raised e s
def stop : Prog σ ε α := fun s => .timeout s
def read (f : σ → α) : Prog σ ε α := fun s => .done (f s) s
def write (f : σ → σ) : Prog σ ε Unit := fun s => .done () (f s)

/-- Runs a program and hands its error to the caller as a value. -/
def attempt (p : Prog σ ε α) : Prog σ ε (Except ε α) := fun s =>
  match p s with
  | .done a s' => .done (.ok a) s'
  | .raised e s' => .done (.error e) s'
  | .timeout s' => .timeout s'

/-- Repeats a step until it yields a result, at most `n` times. -/
def iterate (step : α → Prog σ ε (α ⊕ β)) : ℕ → α → Prog σ ε β
  | 0, _ => stop
  | n+1, a => bind (step a) (fun r =>
      match r with
      | .inl a' => iterate step n a'
      | .inr b => ret b)

/-- Runs a program on each element, in order. -/
def each (f : α → Prog σ ε Unit) : List α → Prog σ ε Unit
  | [] => ret ()
  | a::as => bind (f a) (fun _ => each f as)

@[simp] theorem pure_apply (a : α) (s : σ) : (pure a : Prog σ ε α) s = .done a s := rfl

theorem bind_apply (p : Prog σ ε α) (f : α → Prog σ ε β) (s : σ) :
    (p >>= f) s = match p s with
      | .done a s' => f a s'
      | .raised e s' => .raised e s'
      | .timeout s' => .timeout s' := rfl

@[simp] theorem read_apply (f : σ → α) (s : σ) :
    (read f : Prog σ ε α) s = .done (f s) s := rfl

@[simp] theorem write_apply (f : σ → σ) (s : σ) :
    (write f : Prog σ ε Unit) s = .done () (f s) := rfl

@[simp] theorem raise_apply (e : ε) (s : σ) : (raise e : Prog σ ε α) s = .raised e s := rfl

@[simp] theorem stop_apply (s : σ) : (stop : Prog σ ε α) s = .timeout s := rfl

@[simp] theorem pure_bind_apply (a : α) (f : α → Prog σ ε β) (s : σ) :
    (pure a >>= f) s = f a s := rfl

theorem pure_bind (a : α) (f : α → Prog σ ε β) : (pure a >>= f) = f a := rfl

theorem bind_pure (p : Prog σ ε α) : (p >>= pure) = p := by
  funext s
  rw [bind_apply]
  cases p s with
  | done a s' => rfl
  | raised e s' => rfl
  | timeout s' => rfl

theorem bind_assoc {γ : Type} (p : Prog σ ε α) (f : α → Prog σ ε β) (g : β → Prog σ ε γ) :
    ((p >>= f) >>= g) = p >>= fun a => f a >>= g := by
  funext s
  rw [bind_apply, bind_apply, bind_apply]
  cases p s with
  | done a s' => rfl
  | raised e s' => rfl
  | timeout s' => rfl

theorem bind_eq (p : Prog σ ε α) (f : α → Prog σ ε β) : bind p f = p >>= f := rfl

theorem bind_done (p : Prog σ ε α) (f : α → Prog σ ε β) (s s' : σ) (a : α)
    (h : p s = .done a s') : (p >>= f) s = f a s' := by
  rw [bind_apply, h]

theorem bind_eq_done {p : Prog σ ε α} {f : α → Prog σ ε β} {s s' : σ} {b : β} :
    (p >>= f) s = .done b s' ↔ ∃ a s₁, p s = .done a s₁ ∧ f a s₁ = .done b s' := by
  rw [bind_apply]
  cases p s with
  | done a s₁ =>
    constructor
    · exact fun h => ⟨a, s₁, rfl, h⟩
    · rintro ⟨a', s₁', h, h'⟩
      cases h
      exact h'
  | raised e s₁ => simp
  | timeout s₁ => simp

end Prog
end LuaRecovery.Lib
