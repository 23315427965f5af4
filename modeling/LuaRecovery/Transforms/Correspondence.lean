import LuaRecovery.Lua.Lockstep
import LuaRecovery.Transforms.Rewriting
import Mathlib.Data.List.Forall2

/-!
# Corresponding states

The state of a program and of its rewriting agree in everything but the code of
the closures. A world lists the cells that hold constants: such a cell keeps its
value for the rest of the run. Environments correspond in a scope if they bind
every name as the scope says.
-/

set_option autoImplicit false

namespace LuaRecovery.Transforms
open LuaRecovery.Lib LuaRecovery.Lua LuaRecovery.Evaluator

/-- The constants among the cells allocated so far. -/
structure Frozen (N : Type) where
  value : ℕ → Option (Value N)
  next : ℕ

/-- Later worlds only know more cells: those allocated before keep their status. -/
structure Frozen.Later {N : Type} (w w' : Frozen N) : Prop where
  next : w.next ≤ w'.next
  value : ∀ a, a < w.next → w'.value a = w.value a

instance {N : Type} : Preorder (Frozen N) where
  le := Frozen.Later
  le_refl w := ⟨Nat.le_refl _, fun _ _ => rfl⟩
  le_trans w₁ w₂ w₃ h h' := ⟨Nat.le_trans h.next h'.next, fun a ha =>
    (h'.value a (Nat.lt_of_lt_of_le ha h.next)).trans (h.value a ha)⟩

theorem Frozen.later {N : Type} {w w' : Frozen N} (h : w ≤ w') : Frozen.Later w w' := h

section Environments
variable {N : Type}

/-- A name of the given status, and the cells the two environments bind it to. -/
def NameRel (w : Frozen N) (status : Status N) (cell cell' : Option ℕ) : Prop :=
  match status with
  | .unknown => cell = cell' ∧ ∀ a, cell = some a → a < w.next ∧ w.value a = none
  | .constant e => ∃ a v, cell = some a ∧ cell' = some a ∧ a < w.next ∧
      literalValue e = some v ∧ w.value a = some v
  | .leaked => True

def EnvRel (w : Frozen N) (σ : Scope N) (env env' : Env) : Prop :=
  ∀ x, NameRel w (σ x) (env.lookup x) (env'.lookup x)

theorem NameRel.later {w w' : Frozen N} {status : Status N} {cell cell' : Option ℕ}
    (h : NameRel w status cell cell') (hw : w ≤ w') : NameRel w' status cell cell' := by
  cases status with
  | unknown =>
    refine ⟨h.1, fun a ha => ?_⟩
    have hold := h.2 a ha
    exact ⟨Nat.lt_of_lt_of_le hold.1 (Frozen.later hw).next, ((Frozen.later hw).value a hold.1).trans hold.2⟩
  | constant e =>
    obtain ⟨a, v, ha, ha', hlt, hv, hvalue⟩ := h
    exact ⟨a, v, ha, ha', Nat.lt_of_lt_of_le hlt (Frozen.later hw).next, hv,
      ((Frozen.later hw).value a hlt).trans hvalue⟩
  | leaked => trivial

theorem EnvRel.later {w w' : Frozen N} {σ : Scope N} {env env' : Env} (h : EnvRel w σ env env')
    (hw : w ≤ w') : EnvRel w' σ env env' :=
  fun x => (h x).later hw

theorem EnvRel.bind {w : Frozen N} {σ : Scope N} {env env' : Env} {name : String} {a : ℕ}
    {status : Status N} (h : EnvRel w σ env env') (hname : NameRel w status (some a) (some a)) :
    EnvRel w (Function.update σ name status) ((name, a) :: env) ((name, a) :: env') := by
  intro x
  by_cases hx : x = name
  · subst hx
    rw [Function.update_self, List.lookup_cons_self, List.lookup_cons_self]
    exact hname
  · have hbeq : (x == name) = false := beq_false_of_ne hx
    rw [Function.update_of_ne hx, List.lookup_cons, List.lookup_cons, hbeq]
    exact h x

/-- Names that may be bound differently are leaked. -/
theorem EnvRel.leak {w : Frozen N} {σ : Scope N} {env env' env₁ env₁' : Env}
    {names : List String} (h : EnvRel w σ env env') (henv : env₁ = env)
    (henv' : ∀ x, x ∉ names → env₁'.lookup x = env'.lookup x) :
    EnvRel w (leakAll σ names) env₁ env₁' := by
  intro x
  rw [leakAll]
  by_cases hx : x ∈ names
  · rw [if_pos hx]
    trivial
  · rw [if_neg hx, henv, henv' x hx]
    exact h x

end Environments

section States
variable {N : Type} [LuaNumber N]

/-- Code and its rewriting, closed over corresponding environments. -/
def CodeRel (w : Frozen N) (c c' : Closure N) : Prop :=
  c.params = c'.params ∧ c.isVararg = c'.isVararg ∧
    ∃ exits σ σ', EnvRel w σ c.env c'.env ∧
      RewritesBlock exits (bindAll σ c.params) σ' c.body c'.body

structure Corresponds (w : Frozen N) (s t : State N) : Prop where
  cells : s.cells = t.cells
  nextCell : s.nextCell = t.nextCell
  heap : s.heap = t.heap
  globals : s.globals = t.globals
  history : s.history = t.history
  next : w.next = s.nextCell
  frozen : ∀ a v, a < w.next → w.value a = some v → s.cells a = v
  closures : List.Forall₂ (CodeRel w) s.closures t.closures

theorem CodeRel.later {w w' : Frozen N} {c c' : Closure N} (h : CodeRel w c c') (hw : w ≤ w') :
    CodeRel w' c c' := by
  obtain ⟨hparams, hvararg, exits, σ, σ', henv, hbody⟩ := h
  exact ⟨hparams, hvararg, exits, σ, σ', henv.later hw, hbody⟩

theorem forall₂_codeRel_later {w w' : Frozen N} {cs cs' : List (Closure N)}
    (h : List.Forall₂ (CodeRel w) cs cs') (hw : w ≤ w') : List.Forall₂ (CodeRel w') cs cs' :=
  List.Forall₂.imp (fun _ _ hc => CodeRel.later hc hw) h

theorem lockstep_corresponds : Lockstep (Corresponds (N := N)) where
  heap hst := hst.heap
  history hst := hst.history
  setHeap _ hst := { hst with heap := rfl }
  record _ hst := { hst with history := rfl }

/-- The world after one more cell has been allocated. -/
def Frozen.extend (w : Frozen N) (v : Option (Value N)) : Frozen N where
  value := Function.update w.value w.next v
  next := w.next + 1

omit [LuaNumber N] in
theorem Frozen.le_extend (w : Frozen N) (v : Option (Value N)) : w ≤ w.extend v := by
  show Frozen.Later w (w.extend v)
  refine ⟨Nat.le_succ _, fun a ha => ?_⟩
  exact Function.update_of_ne (Nat.ne_of_lt ha) _ _

omit [LuaNumber N] in
theorem Frozen.extend_self (w : Frozen N) (v : Option (Value N)) : (w.extend v).value w.next = v :=
  Function.update_self _ _ _

omit [LuaNumber N] in
theorem Frozen.extend_of_ne (w : Frozen N) (v : Option (Value N)) {a : ℕ} (ha : a ≠ w.next) :
    (w.extend v).value a = w.value a :=
  Function.update_of_ne ha _ _

/-- Allocating a cell, frozen or not. -/
theorem Corresponds.newCell {w : Frozen N} {s t : State N} (h : Corresponds w s t) (v : Value N)
    (frozen : Option (Value N)) (hfrozen : ∀ u, frozen = some u → u = v) :
    Corresponds (w.extend frozen)
      { s with cells := Function.update s.cells s.nextCell v, nextCell := s.nextCell+1 }
      { t with cells := Function.update t.cells t.nextCell v, nextCell := t.nextCell+1 } where
  cells := by rw [h.cells, h.nextCell]
  nextCell := by rw [h.nextCell]
  heap := h.heap
  globals := h.globals
  history := h.history
  next := by rw [Frozen.extend, h.next]
  frozen := by
    intro a u ha hu
    show Function.update s.cells s.nextCell v a = u
    rw [← h.next]
    by_cases heq : a = w.next
    · subst heq
      rw [Function.update_self]
      rw [w.extend_self] at hu
      exact (hfrozen u hu).symm
    · have hle : a < w.next + 1 := ha
      have hlt : a < w.next := by omega
      rw [Function.update_of_ne heq]
      rw [w.extend_of_ne frozen heq] at hu
      exact h.frozen a u hlt hu
  closures := forall₂_codeRel_later h.closures (w.le_extend frozen)

/-- Both sides get the same new cell, of the status asked for. -/
theorem sim_newCell {w : Frozen N} (v : Value N) (status : Status N) (hstatus : status ≠ .leaked)
    (hliteral : ∀ e, status = .constant e → literalValue e = some v) :
    Sim Corresponds (fun w a b => a = b ∧ NameRel w status (some a) (some a)) w
      (newCell v) (newCell v) := by
  intro w' _ s t hst
  cases status with
  | unknown =>
    refine .done (w'.le_extend none) (hst.newCell v none (by simp)) ⟨hst.nextCell, rfl, ?_⟩
    intro a ha
    cases ha
    rw [← hst.next]
    exact ⟨Nat.lt_succ_self _, w'.extend_self none⟩
  | constant e =>
    have he := hliteral e rfl
    refine .done (w'.le_extend (some v)) (hst.newCell v (some v) (by simp)) ⟨hst.nextCell, ?_⟩
    rw [← hst.next]
    exact ⟨w'.next, v, rfl, rfl, Nat.lt_succ_self _, he, w'.extend_self (some v)⟩
  | leaked => exact absurd rfl hstatus

theorem sim_readCell {w : Frozen N} (a : ℕ) : Sim Corresponds Same w (readCell a) (readCell a) := by
  apply Sim.read
  intro w' _ s t hst
  show s.cells a = t.cells a
  rw [hst.cells]

theorem sim_readName {w : Frozen N} {σ : Scope N} {env env' : Env} {x : String}
    (henv : EnvRel w σ env env') (hx : σ x ≠ .leaked) :
    Sim Corresponds Same w (readName env x) (readName env' x) := by
  have hlookup : env.lookup x = env'.lookup x := by
    have hname := henv x
    cases hσ : σ x with
    | unknown =>
      rw [hσ] at hname
      exact hname.1
    | constant e =>
      rw [hσ] at hname
      obtain ⟨a, v, ha, ha', -⟩ := hname
      rw [ha, ha']
    | leaked => exact absurd hσ hx
  rw [readName, readName, hlookup]
  cases env'.lookup x with
  | some a => exact sim_readCell a
  | none =>
    apply Sim.read
    intro w' _ s t hst
    show s.globals x = t.globals x
    rw [hst.globals]

/-- Reading a constant yields the value of its literal. -/
theorem sim_readName_constant {w : Frozen N} {σ : Scope N} {env env' : Env} {x : String}
    {e : Expr N} (henv : EnvRel w σ env env') (hx : σ x = .constant e) :
    ∃ v, literalValue e = some v ∧ Sim Corresponds Same w (readName env x) (pure v) := by
  have hname := henv x
  rw [hx] at hname
  obtain ⟨a, v, ha, -, hlt, hv, hvalue⟩ := hname
  refine ⟨v, hv, ?_⟩
  intro w' hw' s t hst
  rw [readName, ha]
  refine .done le_rfl hst ?_
  exact hst.frozen a v (Nat.lt_of_lt_of_le hlt (Frozen.later hw').next)
    (((Frozen.later hw').value a hlt).trans hvalue)

theorem Corresponds.writeCell {w : Frozen N} {s t : State N} (h : Corresponds w s t) (a : ℕ)
    (v : Value N) (ha : w.value a = none) :
    Corresponds w { s with cells := Function.update s.cells a v }
      { t with cells := Function.update t.cells a v } where
  cells := by rw [h.cells]
  nextCell := h.nextCell
  heap := h.heap
  globals := h.globals
  history := h.history
  next := h.next
  frozen := by
    intro b u hb hu
    have hne : b ≠ a := by
      intro hba
      rw [hba, ha] at hu
      cases hu
    show Function.update s.cells a v b = u
    rw [Function.update_of_ne hne]
    exact h.frozen b u hb hu
  closures := h.closures

/-- A name that is no constant may be assigned. -/
theorem sim_store_name {w : Frozen N} {m m' : Machine N} {σ : Scope N} {env env' : Env}
    {x : String} (v : Value N) (henv : EnvRel w σ env env') (hx : σ x = .unknown) :
    Sim Corresponds Same w (store m env (.name x) v) (store m' env' (.name x) v) := by
  have hname := henv x
  rw [hx] at hname
  rw [store, store, ← hname.1]
  cases hlookup : env.lookup x with
  | some a =>
    obtain ⟨hlt, hnone⟩ := hname.2 a hlookup
    apply Sim.write
    intro w' hw' s t hst
    exact hst.writeCell a v (((Frozen.later hw').value a hlt).trans hnone)
  | none =>
    apply Sim.write
    intro w' _ s t hst
    exact { hst with globals := by rw [hst.globals] }

/-- New closures over corresponding code are one value. -/
theorem sim_newClosure {w : Frozen N} {c c' : Closure N} (h : CodeRel w c c') :
    Sim Corresponds Same w (newClosure c) (newClosure c') := by
  intro w' hw' s t hst
  have hlength : s.closures.length = t.closures.length := hst.closures.length_eq
  refine .done (le_refl w') ?_ (congrArg Value.closure hlength)
  have happ : List.Forall₂ (CodeRel w') (s.closures ++ [c]) (t.closures ++ [c']) :=
    List.rel_append hst.closures (.cons (h.later hw') .nil)
  exact { hst with closures := happ }

end States

section Values
variable {N : Type}

/-- Two lists of values, each filled up with `nil`, agree in the first `n` values. -/
def Agree (n : ℕ) (vs vs' : List (Value N)) : Prop :=
  ∀ i, i < n → first (vs.drop i) = first (vs'.drop i)

theorem Agree.refl (n : ℕ) (vs : List (Value N)) : Agree n vs vs := fun _ _ => rfl

theorem Agree.first {n : ℕ} {vs vs' : List (Value N)} (h : Agree (n+1) vs vs') :
    first vs = first vs' := h 0 (Nat.succ_pos n)

theorem Agree.tail {n : ℕ} {vs vs' : List (Value N)} (h : Agree (n+1) vs vs') :
    Agree n vs.tail vs'.tail := by
  intro i hi
  have hnext := h (i+1) (Nat.succ_lt_succ hi)
  rwa [← List.drop_one, ← List.drop_one, List.drop_drop, List.drop_drop, Nat.add_comm 1 i]

theorem Agree.mono {n k : ℕ} {vs vs' : List (Value N)} (h : Agree n vs vs') (hk : k ≤ n) :
    Agree k vs vs' := fun i hi => h i (Nat.lt_of_lt_of_le hi hk)

end Values
end LuaRecovery.Transforms
