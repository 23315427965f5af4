import Mathlib.Logic.Relation
import Mathlib.Data.Fintype.EquivFin
import Mathlib.Data.Fintype.Card
import Mathlib.Data.Set.Finite.Basic
import Mathlib.Data.List.Nodup

/-!
# Directed graphs

A graph is its edge relation. Paths are the reflexive and transitive closure;
a cycle is a path of at least one edge back to its start.
-/

set_option autoImplicit false

namespace LuaRecovery.Lib.Digraph
open Relation
variable {V : Type} {E : V → V → Prop}

def Acyclic (E : V → V → Prop) : Prop := ∀ a, ¬ TransGen E a a

/-- A path never leaves a set that every edge stays in. -/
theorem closed_of_path {P : V → Prop} (hclosed : ∀ a b, P a → E a b → P b) {a b : V}
    (h : ReflTransGen E a b) (ha : P a) : P b := by
  induction h with
  | refl => exact ha
  | tail _ hedge ih => exact hclosed _ _ ih hedge

/-- The first edge of a cycle, and the way back. -/
theorem cycle_cases {a : V} (h : TransGen E a a) : ∃ b, E a b ∧ ReflTransGen E b a :=
  TransGen.head'_iff.mp h

/-- Chasing predecessors through a finite list runs into a cycle. -/
theorem exists_cycle_of_predecessors {l : List V} (hne : l ≠ [])
    (hpred : ∀ b ∈ l, ∃ a ∈ l, E a b) : ∃ a, TransGen E a a := by
  choose! pred hmem hedge using hpred
  obtain ⟨start, hstart⟩ := List.exists_mem_of_ne_nil l hne
  let chase : ℕ → V := fun n => pred^[n] start
  have hin : ∀ n, chase n ∈ l := by
    intro n
    induction n with
    | zero => exact hstart
    | succ n ih =>
      simp only [chase, Function.iterate_succ_apply'] at ih ⊢
      exact hmem _ ih
  have hback : ∀ n k, TransGen E (chase (n+k+1)) (chase n) := by
    intro n k
    induction k with
    | zero =>
      have hstep : chase (n+1) = pred (chase n) := Function.iterate_succ_apply' pred n start
      rw [Nat.add_zero, hstep]
      exact TransGen.single (hedge _ (hin n))
    | succ k ih =>
      have hstep : chase (n+(k+1)+1) = pred (chase (n+k+1)) :=
        Function.iterate_succ_apply' pred (n+k+1) start
      rw [hstep]
      exact TransGen.head (hedge _ (hin _)) ih
  have hfinite : (Set.range chase).Finite :=
    (List.finite_toSet l).subset (Set.range_subset_iff.mpr hin)
  obtain ⟨m, n, hmn, heq⟩ : ∃ m n, m < n ∧ chase m = chase n := by
    by_contra hnone
    push Not at hnone
    have hinj : Function.Injective chase := by
      intro m n heq
      rcases Nat.lt_trichotomy m n with h | h | h
      · exact absurd heq (hnone m n h)
      · exact h
      · exact absurd heq.symm (hnone n m h)
    exact Set.infinite_range_of_injective hinj hfinite
  obtain ⟨k, rfl⟩ := Nat.exists_eq_add_of_lt hmn
  exact ⟨chase m, heq ▸ hback m k⟩

/-! ## Components -/

/-- Vertices that lead to each other. -/
def Mutual (E : V → V → Prop) (a b : V) : Prop := ReflTransGen E a b ∧ ReflTransGen E b a

theorem Mutual.refl (E : V → V → Prop) (a : V) : Mutual E a a := ⟨.refl, .refl⟩

theorem Mutual.symm {a b : V} (h : Mutual E a b) : Mutual E b a := ⟨h.2, h.1⟩

theorem Mutual.trans {a b c : V} (h : Mutual E a b) (h' : Mutual E b c) : Mutual E a c :=
  ⟨h.1.trans h'.1, h'.2.trans h.2⟩

/-- A vertex is on a cycle where it has an edge to itself or leads to another one and back. -/
theorem cycle_iff {a : V} : TransGen E a a ↔ E a a ∨ ∃ b, b ≠ a ∧ Mutual E a b := by
  constructor
  · intro h
    obtain ⟨b, hedge, hback⟩ := cycle_cases h
    by_cases hb : b = a
    · exact .inl (hb ▸ hedge)
    · exact .inr ⟨b, hb, .single hedge, hback⟩
  · rintro (hedge | ⟨b, hb, hto, hback⟩)
    · exact .single hedge
    · rcases reflTransGen_iff_eq_or_transGen.mp hto with heq | htrans
      · exact absurd heq hb
      · exact htrans.trans_left hback

/-- The strongly connected components with a cycle, each listed once. -/
structure CyclicComponents (E : V → V → Prop) (sccs : List (List V)) : Prop where
  component : ∀ scc ∈ sccs, scc.Nodup ∧
    ∃ root, TransGen E root root ∧ ∀ x, x ∈ scc ↔ Mutual E root x
  listed : ∀ x, TransGen E x x → ∃ scc ∈ sccs, x ∈ scc
  once : sccs.Pairwise (fun scc scc' => ∀ x ∈ scc, x ∉ scc')

/-! ## Dominance -/

/-- The vertices of a path, from its first to its last. -/
inductive Path (E : V → V → Prop) (a : V) : V → List V → Prop
  | start : Path E a a [a]
  | step {b c : V} {l : List V} : Path E a b l → E b c → Path E a c (l ++ [c])

theorem Path.last_mem {a b : V} {l : List V} (h : Path E a b l) : b ∈ l := by
  cases h <;> simp

theorem Path.first_mem {a b : V} {l : List V} (h : Path E a b l) : a ∈ l := by
  induction h with
  | start => exact List.mem_cons_self
  | step _ _ ih => exact List.mem_append_left _ ih

theorem exists_path {a b : V} (h : ReflTransGen E a b) : ∃ l, Path E a b l := by
  induction h with
  | refl => exact ⟨_, .start⟩
  | tail _ hedge ih =>
    obtain ⟨l, hl⟩ := ih
    exact ⟨_, .step hl hedge⟩

/-- A path up to one of its vertices is shorter where that is not the last. -/
theorem Path.upTo {a b c : V} {l : List V} (h : Path E a c l) (hb : b ∈ l) :
    ∃ l', Path E a b l' ∧ (∀ x ∈ l', x ∈ l) ∧ l'.length ≤ l.length ∧
      (b ≠ c → l'.length < l.length) := by
  induction h with
  | start =>
    rw [List.mem_singleton] at hb
    subst hb
    exact ⟨_, .start, fun _ h => h, le_rfl, fun hne => absurd rfl hne⟩
  | step hl hedge ih =>
    rcases List.mem_append.mp hb with hb | hb
    · obtain ⟨l', hl', hsub, hle, -⟩ := ih hb
      refine ⟨l', hl', fun x hx => List.mem_append_left _ (hsub x hx), ?_, fun _ => ?_⟩ <;>
        · rw [List.length_append, List.length_singleton]
          omega
    · rw [List.mem_singleton] at hb
      subst hb
      exact ⟨_, .step hl hedge, fun _ h => h, le_rfl, fun hne => absurd rfl hne⟩

/-- Every path from the root passes through `d`. -/
def Dominates (E : V → V → Prop) (root d s : V) : Prop := ∀ l, Path E root s l → d ∈ l

variable {root : V}

theorem Dominates.refl (s : V) : Dominates E root s s := fun _ h => h.last_mem

theorem dominates_root {d : V} : Dominates E root d root ↔ d = root := by
  constructor
  · exact fun h => List.mem_singleton.mp (h _ .start)
  · rintro rfl
    exact .refl d

theorem Dominates.trans {c d s : V} (hcd : Dominates E root c d) (hds : Dominates E root d s) :
    Dominates E root c s := by
  intro l hl
  obtain ⟨l', hl', hsub, -⟩ := hl.upTo (hds l hl)
  exact hsub c (hcd l' hl')

/-- What dominates a vertex other than itself dominates its predecessors, and conversely. -/
theorem Dominates.pred {d p s : V} (h : Dominates E root d s) (hne : d ≠ s) (hedge : E p s) :
    Dominates E root d p := by
  intro l hl
  rcases List.mem_append.mp (h _ (hl.step hedge)) with hd | hd
  · exact hd
  · exact absurd (List.mem_singleton.mp hd) hne

theorem Dominates.reach {d s : V} (h : Dominates E root d s) (hs : ReflTransGen E root s) :
    ReflTransGen E root d := by
  obtain ⟨l, hl⟩ := exists_path hs
  obtain ⟨l', hl', -⟩ := hl.upTo (h l hl)
  clear h hl
  induction hl' with
  | start => exact .refl
  | step _ hedge ih => exact ih.tail hedge

theorem Dominates.antisymm {c d : V} (hcd : Dominates E root c d) (hdc : Dominates E root d c)
    (hc : ReflTransGen E root c) : c = d := by
  by_contra hne
  -- each way back to the other is shorter
  have hnone : ∀ n l, l.length = n → ¬ Path E root c l := by
    intro n
    induction n using Nat.strong_induction_on with
    | _ n ih =>
      intro l hlen hl
      obtain ⟨l₁, hl₁, -, -, hlt₁⟩ := hl.upTo (hdc l hl)
      obtain ⟨l₂, hl₂, -, -, hlt₂⟩ := hl₁.upTo (hcd l₁ hl₁)
      have h₁ := hlt₁ (Ne.symm hne)
      have h₂ := hlt₂ hne
      exact ih l₂.length (by omega) l₂ rfl hl₂
  obtain ⟨l, hl⟩ := exists_path hc
  exact hnone _ l rfl hl

/-- A path that avoids a vertex continues along edges to others. -/
theorem Path.avoid {a b c d : V} {l : List V} (h : Path E a b l) (hd : d ∉ l)
    (hbc : ReflTransGen (fun x y => E x y ∧ y ≠ d) b c) : ∃ l', Path E a c l' ∧ d ∉ l' := by
  induction hbc with
  | refl => exact ⟨l, h, hd⟩
  | tail _ hedge ih =>
    obtain ⟨l', hl', hd'⟩ := ih
    refine ⟨_, hl'.step hedge.1, ?_⟩
    rw [List.mem_append, List.mem_singleton, not_or]
    exact ⟨hd', Ne.symm hedge.2⟩

/-- The way on from the last of two vertices on a path, or a path that meets neither. -/
theorem last_of_two {c d s : V} (h : ReflTransGen E root s) :
    (c ≠ root ∧ ReflTransGen (fun x y => E x y ∧ y ≠ c ∧ y ≠ d) root s) ∨
      ReflTransGen (fun x y => E x y ∧ y ≠ c ∧ y ≠ d) c s ∨
      ReflTransGen (fun x y => E x y ∧ y ≠ c ∧ y ≠ d) d s := by
  induction h with
  | refl =>
    by_cases hc : c = root
    · subst hc
      exact .inr (.inl .refl)
    · exact .inl ⟨hc, .refl⟩
  | @tail y z _ hedge ih =>
    by_cases hc : z = c
    · subst hc
      exact .inr (.inl .refl)
    · by_cases hd : z = d
      · subst hd
        exact .inr (.inr .refl)
      · have hon : ∀ {a}, ReflTransGen (fun x y => E x y ∧ y ≠ c ∧ y ≠ d) a y →
            ReflTransGen (fun x y => E x y ∧ y ≠ c ∧ y ≠ d) a z :=
          fun h => h.tail ⟨hedge, hc, hd⟩
        exact ih.imp (fun h => ⟨h.1, hon h.2⟩) (fun h => h.imp hon hon)

theorem Dominates.chain {c d s : V} (hc : Dominates E root c s) (hd : Dominates E root d s)
    (hs : ReflTransGen E root s) : Dominates E root c d ∨ Dominates E root d c := by
  by_contra hneither
  simp only [Dominates, not_or, not_forall] at hneither
  obtain ⟨⟨l, hl, hcl⟩, ⟨l', hl', hdl'⟩⟩ := hneither
  have avoidC : ∀ {a}, ReflTransGen (fun x y => E x y ∧ y ≠ c ∧ y ≠ d) a s →
      ReflTransGen (fun x y => E x y ∧ y ≠ c) a s :=
    fun h => h.lift id fun _ _ h => ⟨h.1, h.2.1⟩
  have avoidD : ∀ {a}, ReflTransGen (fun x y => E x y ∧ y ≠ c ∧ y ≠ d) a s →
      ReflTransGen (fun x y => E x y ∧ y ≠ d) a s :=
    fun h => h.lift id fun _ _ h => ⟨h.1, h.2.2⟩
  rcases last_of_two (c := c) (d := d) hs with ⟨hroot, hway⟩ | hway | hway
  · obtain ⟨m, hm, hcm⟩ := Path.start.avoid (List.mem_singleton.not.mpr hroot) (avoidC hway)
    exact hcm (hc m hm)
  · obtain ⟨m, hm, hdm⟩ := hl'.avoid hdl' (avoidD hway)
    exact hdm (hd m hm)
  · obtain ⟨m, hm, hcm⟩ := hl.avoid hcl (avoidC hway)
    exact hcm (hc m hm)

/-- Of the dominators of a vertex, one is dominated by all of them. -/
theorem exists_lowest {s : V} (hs : ReflTransGen E root s) {l : List V} (hne : l ≠ [])
    (hl : ∀ d ∈ l, Dominates E root d s) : ∃ d ∈ l, ∀ c ∈ l, Dominates E root c d := by
  induction l with
  | nil => exact absurd rfl hne
  | cons a l ih =>
    obtain ⟨ha, hl⟩ := List.forall_mem_cons.mp hl
    by_cases hnil : l = []
    · subst hnil
      exact ⟨a, List.mem_cons_self, fun c hc => List.mem_singleton.mp hc ▸ .refl c⟩
    · obtain ⟨d, hd, hlow⟩ := ih hnil hl
      rcases ha.chain (hl d hd) hs with had | hda
      · exact ⟨d, List.mem_cons_of_mem _ hd, List.forall_mem_cons.mpr ⟨had, hlow⟩⟩
      · exact ⟨a, List.mem_cons_self, List.forall_mem_cons.mpr
          ⟨.refl a, fun c hc => (hlow c hc).trans hda⟩⟩

/-- A strict dominator of `s` that all the other ones dominate. -/
structure ImmediatelyDominates (E : V → V → Prop) (root d s : V) : Prop where
  strict : d ≠ s
  dominates : Dominates E root d s
  lowest : ∀ c, c ≠ s → Dominates E root c s → c ≠ d → Dominates E root c d

theorem ImmediatelyDominates.unique {c d s : V} (hc : ImmediatelyDominates E root c s)
    (hd : ImmediatelyDominates E root d s) (hs : ReflTransGen E root s) : c = d := by
  by_contra hne
  exact hne ((hd.lowest c hc.strict hc.dominates hne).antisymm
    (hc.lowest d hd.strict hd.dominates (Ne.symm hne)) (hc.dominates.reach hs))

end LuaRecovery.Lib.Digraph
