import LuaRecovery.Lib.Simulation
import LuaRecovery.Lua.Interpreter

/-!
# Runs in lockstep

A relation on states keeps two runs in lockstep if related states have the same
heap and the same history and stay related when both are given a new heap or a
longer history. The operations that go through the runtime then agree; what the
relation says about cells, globals and code is left to whoever uses it.
-/

set_option autoImplicit false

namespace LuaRecovery.Lua
open LuaRecovery.Lib

section Lockstep
variable {W N : Type} [Preorder W]

structure Lockstep (R : W → State N → State N → Prop) : Prop where
  heap : ∀ {w s t}, R w s t → s.heap = t.heap
  history : ∀ {w s t}, R w s t → s.history = t.history
  setHeap : ∀ {w s t} (h : Heap N), R w s t → R w { s with heap := h } { t with heap := h }
  record : ∀ {w s t} (h : List (Event N)), R w s t →
    R w { s with history := h } { t with history := h }

/-- Two machines with one runtime and one supply of fuel, whose calls agree. -/
structure SameMachine (R : W → State N → State N → Prop) (w : W) (m m' : Machine N) : Prop where
  runtime : m.runtime = m'.runtime
  fuel : m.fuel = m'.fuel
  call : ∀ id args, Sim R Same w (m.call id args) (m'.call id args)

theorem SameMachine.later {R : W → State N → State N → Prop} {w w' : W} {m m' : Machine N}
    (h : SameMachine R w m m') (hw : w ≤ w') : SameMachine R w' m m' :=
  ⟨h.runtime, h.fuel, fun id args => (h.call id args).later hw⟩

end Lockstep

section Operations
variable {W N α β : Type} [Preorder W] {R : W → State N → State N → Prop} {w : W}

theorem sim_same {a : α} : Sim R Same w (pure a : Run N α) (pure a) :=
  Sim.pure (fun _ _ => rfl)

/-- After equal values the same continuation runs on both sides. -/
theorem sim_bind_same {V : W → β → β → Prop} {p q : Run N α} {f g : α → Run N β}
    (h : Sim R Same w p q) (hf : ∀ w', w ≤ w' → ∀ a, Sim R V w' (f a) (g a)) :
    Sim R V w (p >>= f) (q >>= g) := by
  apply Sim.bind h
  intro w' hw' a b hab
  have heq : a = b := hab
  rw [heq]
  exact hf w' hw' b

theorem sim_map_same {p q : Run N α} (f : α → β) (h : Sim R Same w p q) :
    Sim R Same w (do return f (← p)) (do return f (← q)) :=
  sim_bind_same h (fun _ _ _ => sim_same)

theorem sim_malformed : Sim R Same w (malformed : Run N α) malformed := Sim.raise _

variable (hR : Lockstep R)
include hR

theorem sim_setHeap (h : Heap N) : Sim R Same w (setHeap h) (setHeap h) :=
  Sim.write (fun _ _ _ _ hst => hR.setHeap h hst)

theorem sim_heap (f : Heap N → α) :
    Sim R Same w (Prog.read (fun s => f s.heap) : Run N α) (Prog.read (fun s => f s.heap)) := by
  apply Sim.read
  intro w' _ s t hst
  show f s.heap = f t.heap
  rw [hR.heap hst]

theorem sim_setHeap_of_heap (f : Heap N → Heap N) :
    Sim R Same w (Prog.write (fun s => { s with heap := f s.heap }) : Run N Unit)
      (Prog.write (fun s => { s with heap := f s.heap })) := by
  apply Sim.write
  intro w' _ s t hst
  rw [hR.heap hst]
  exact hR.setHeap _ hst

theorem sim_runReply {m m' : Machine N} (hm : SameMachine R w m m') (reply : Reply N) :
    Sim R Same w (runReply m reply) (runReply m' reply) := by
  induction reply generalizing w with
  | values heap results =>
    exact sim_bind_same (sim_setHeap hR heap) (fun _ _ _ => sim_same)
  | raise heap error =>
    exact sim_bind_same (sim_setHeap hR heap) (fun _ _ _ => Sim.raise error)
  | callback heap callee args resume ih =>
    have hresume : ∀ w₁, w ≤ w₁ → ∀ p q : Run N (List (Value N)), Sim R Same w₁ p q →
        Sim R Same w₁
          (do
            let r ← Prog.attempt p
            let heap' ← Prog.read (fun s => s.heap)
            runReply m (resume heap' r))
          (do
            let r ← Prog.attempt q
            let heap' ← Prog.read (fun s => s.heap)
            runReply m' (resume heap' r)) := by
      intro w₁ hw₁ p q hpq
      apply Sim.bind hpq.attempt
      intro w₂ hw₂ r r' hr
      have heq : r = r' := by
        cases hr with
        | ok h => rw [show _ = _ from h]
        | error => rfl
      rw [heq]
      apply sim_bind_same (sim_heap hR (fun h => h))
      intro w₃ hw₃ heap'
      exact ih _ _ (hm.later (le_trans hw₁ (le_trans hw₂ hw₃)))
    cases callee with
    | closure id =>
      exact sim_bind_same (sim_setHeap hR heap)
        (fun w₁ hw₁ _ => hresume w₁ hw₁ _ _ ((hm.call id args).later hw₁))
    | _ =>
      exact sim_bind_same (sim_setHeap hR heap)
        (fun w₁ hw₁ _ => hresume w₁ hw₁ _ _ (Sim.raise _))

theorem sim_perform {m m' : Machine N} (hm : SameMachine R w m m') (action : Action N)
    (args : List (Value N)) : Sim R Same w (perform m action args) (perform m' action args) := by
  rw [perform, perform, hm.runtime]
  have hrecord : Sim R Same w
      (Prog.write (fun s => { s with history := s.history ++ [⟨action, args⟩] }) : Run N Unit)
      (Prog.write (fun s => { s with history := s.history ++ [⟨action, args⟩] })) := by
    apply Sim.write
    intro w' _ s t hst
    rw [hR.history hst]
    exact hR.record _ hst
  apply sim_bind_same hrecord
  intro w₁ hw₁ _
  have hreply : Sim R Same w₁
      (Prog.read (fun s => m'.runtime s.history s.heap) : Run N (Reply N))
      (Prog.read (fun s => m'.runtime s.history s.heap)) := by
    apply Sim.read
    intro w' _ s t hst
    show m'.runtime s.history s.heap = m'.runtime t.history t.heap
    rw [hR.heap hst, hR.history hst]
  apply sim_bind_same hreply
  intro w₂ hw₂ reply
  exact sim_runReply hR (hm.later (le_trans hw₁ hw₂)) reply

theorem sim_apply {m m' : Machine N} (hm : SameMachine R w m m') (f : Value N)
    (args : List (Value N)) : Sim R Same w (apply m f args) (apply m' f args) := by
  cases f <;>
    first
      | exact hm.call _ args
      | exact sim_perform hR hm _ args

/-- An operation that takes the first result of an event. -/
theorem sim_first_perform {m m' : Machine N} (hm : SameMachine R w m m') (action : Action N)
    (args : List (Value N)) :
    Sim R Same w (do return first (← perform m action args))
      (do return first (← perform m' action args)) :=
  sim_map_same first (sim_perform hR hm action args)

variable [LuaNumber N]

theorem sim_indexValue {m m' : Machine N} (hm : SameMachine R w m m') (o k : Value N) :
    Sim R Same w (indexValue m o k) (indexValue m' o k) := by
  have htable : ∀ id, Sim R Same w (indexValue m (.table id) k) (indexValue m' (.table id) k) := by
    intro id
    rw [indexValue, indexValue]
    apply sim_bind_same (sim_heap hR (fun h => h.tables id))
    intro w₁ hw₁ t
    cases rawGet t k with
    | some v => exact sim_same
    | none =>
      by_cases ht : t.hasMetatable
      · simp only [ht, if_true]
        exact sim_first_perform hR (hm.later hw₁) _ _
      · simp only [ht]
        exact sim_same
  cases o <;>
    first
      | exact htable _
      | exact sim_first_perform hR hm _ _

theorem sim_setIndexValue {m m' : Machine N} (hm : SameMachine R w m m') (o k v : Value N) :
    Sim R Same w (setIndexValue m o k v) (setIndexValue m' o k v) := by
  have hperform : ∀ w₁, w ≤ w₁ → Sim R Same w₁
      (do let _ ← perform m .setIndex [o, k, v])
      (do let _ ← perform m' .setIndex [o, k, v]) :=
    fun w₁ hw₁ => sim_bind_same (sim_perform hR (hm.later hw₁) _ _) (fun _ _ _ => sim_same)
  cases o with
  | table id =>
    rw [setIndexValue, setIndexValue]
    apply sim_bind_same (sim_heap hR (fun h => h.tables id))
    intro w₁ hw₁ t
    by_cases hmeta : ((rawGet t k).isNone && t.hasMetatable) = true
    · simp only [hmeta, if_true]
      exact hperform w₁ hw₁
    · simp only [hmeta]
      by_cases hkey : validKey k = true
      · simp only [hkey, if_true]
        exact sim_setHeap_of_heap hR (fun h =>
          { h with tables := Function.update h.tables id (rawSet t k v) })
      · simp only [hkey]
        exact Sim.raise k
  | _ => exact hperform w le_rfl

theorem sim_unaryOp {m m' : Machine N} (hm : SameMachine R w m m') (op : UnaryOperator)
    (v : Value N) : Sim R Same w (unaryOp m op v) (unaryOp m' op v) := by
  cases op <;> cases v <;>
    first
      | exact sim_same
      | exact sim_first_perform hR hm _ _

theorem sim_equalValues {m m' : Machine N} (hm : SameMachine R w m m') (l r : Value N) :
    Sim R Same w (equalValues m l r) (equalValues m' l r) := by
  by_cases htables : ∃ a b, l = .table a ∧ r = .table b
  · obtain ⟨a, b, rfl, rfl⟩ := htables
    rw [equalValues, equalValues]
    by_cases hab : a = b
    · simp only [hab, if_true]
      exact sim_same
    · simp only [hab, if_false]
      apply sim_bind_same (sim_heap hR (fun h => h.tables a))
      intro w₁ hw₁ ta
      apply sim_bind_same (sim_heap hR (fun h => h.tables b))
      intro w₂ hw₂ tb
      by_cases hmeta : (ta.hasMetatable || tb.hasMetatable) = true
      · simp only [hmeta, if_true]
        exact sim_map_same (fun vs => (first vs).truthy)
          (sim_perform hR (hm.later (le_trans hw₁ hw₂)) _ _)
      · simp only [hmeta]
        exact sim_same
  · have hraw : ∀ m : Machine N, equalValues m l r = pure (rawEqual l r) := by
      intro m
      rw [equalValues]
      intro a b hl hr
      exact htables ⟨a, b, hl, hr⟩
    rw [hraw, hraw]
    exact sim_same

omit hR [LuaNumber N] in
theorem sim_answer (v : Option (Value N)) : Sim R Same w
    (match v with | some v => pure v | none => malformed : Run N (Value N))
    (match v with | some v => pure v | none => malformed) := by
  cases v with
  | some v => exact sim_same
  | none => exact sim_malformed

theorem sim_binaryOp {m m' : Machine N} (hm : SameMachine R w m m') (op : BinaryOperator)
    (l r : Value N) : Sim R Same w (binaryOp m op l r) (binaryOp m' op l r) := by
  cases op with
  | eq => exact sim_map_same _ (sim_equalValues hR hm l r)
  | ne => exact sim_map_same _ (sim_equalValues hR hm l r)
  | _ =>
    cases l <;> cases r <;>
      first
        | exact sim_first_perform hR hm _ _
        | exact sim_answer _
        | exact sim_same

end Operations
end LuaRecovery.Lua
