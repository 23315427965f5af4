import Mathlib.Logic.Relation
import Mathlib.Data.List.Basic

/-!
# Structuring a flow graph by a depth-first walk

A walk turns a flow graph into a tree of its nodes: a node met again contributes
nothing. The tree runs what the graph runs, for all outcomes of the conditions,
exactly when every node with two ways in has nothing left to do and no node
tests a condition with an arm missing.
-/

set_option autoImplicit false

namespace LuaRecovery.Lib

/-- How a node is left; a half branch leaves the graph on the other outcome. -/
inductive Exit (B C : Type) where
  | stop
  | goto (next : B)
  | branch (condition : C) (onTrue onFalse : B)
  | half (condition : C) (arm : Bool) (next : B)

structure FlowGraph (B S C : Type) where
  statements : B → List S
  exit : B → Exit B C

inductive Observed (S C : Type) where
  | statement (s : S)
  | condition (c : C)

/-- The outcomes of the conditions to come, first one first. -/
abbrev Outcomes := ℕ → Bool

namespace Outcomes

def rest (σ : Outcomes) : Outcomes := fun n => σ (n+1)

def cons (o : Bool) (σ : Outcomes) : Outcomes
  | 0 => o
  | n+1 => σ n

@[simp] theorem cons_zero (o : Bool) (σ : Outcomes) : cons o σ 0 = o := rfl

@[simp] theorem rest_cons (o : Bool) (σ : Outcomes) : (cons o σ).rest = σ := rfl

end Outcomes

/-- The tree of a depth-first walk; `seen` is a node that was visited before. -/
inductive Walked (B C : Type) where
  | seen
  | ended (b : B)
  | chained (b : B) (next : Walked B C)
  | forked (b : B) (condition : C) (onTrue onFalse : Walked B C)

namespace FlowGraph
variable {B S C : Type}

def observe (g : FlowGraph B S C) (b : B) : List (Observed S C) :=
  (g.statements b).map .statement

/-- What the graph runs within a number of nodes. -/
def trace (g : FlowGraph B S C) : ℕ → B → Outcomes → List (Observed S C)
  | 0, _, _ => []
  | n+1, b, σ => g.observe b ++ match g.exit b with
      | .stop => []
      | .goto t => trace g n t σ
      | .branch c t f => .condition c :: trace g n (if σ 0 then t else f) σ.rest
      | .half c arm t => .condition c :: if σ 0 = arm then trace g n t σ.rest else []

/-- What a structured program runs that has the shape of the tree. -/
def exec (g : FlowGraph B S C) : Walked B C → Outcomes → List (Observed S C)
  | .seen, _ => []
  | .ended b, _ => g.observe b
  | .chained b w, σ => g.observe b ++ exec g w σ
  | .forked b c t f, σ =>
      g.observe b ++ .condition c :: if σ 0 then exec g t σ.rest else exec g f σ.rest

/-- The list is all that the graph ever runs. -/
def Runs (g : FlowGraph B S C) (b : B) (σ : Outcomes) (l : List (Observed S C)) : Prop :=
  (∀ n, g.trace n b σ <+: l) ∧ ∃ n, g.trace n b σ = l

/-- The successor on an arm; an unconditional successor is on the true arm. -/
def succ (g : FlowGraph B S C) (b : B) (arm : Bool) : Option B :=
  match g.exit b with
  | .stop => none
  | .goto t => if arm then some t else none
  | .branch _ t f => some (if arm then t else f)
  | .half _ a t => if arm = a then some t else none

def Next (g : FlowGraph B S C) (b b' : B) : Prop := ∃ arm, g.succ b arm = some b'

abbrev Reach (g : FlowGraph B S C) : B → B → Prop := Relation.ReflTransGen g.Next

/-- The exit evaluates a condition. -/
def Tests (g : FlowGraph B S C) (b : B) : Prop :=
  (∃ c t f, g.exit b = .branch c t f) ∨ ∃ c a t, g.exit b = .half c a t

/-- From the node on there is no statement and no condition. -/
def Silent (g : FlowGraph B S C) (b : B) : Prop :=
  ∀ b', g.Reach b b' → g.statements b' = [] ∧ ¬ g.Tests b'

/-- Two ways lead into the node, the start of the walk among them. -/
def EnteredTwice (g : FlowGraph B S C) (entry b : B) : Prop :=
  ∃ x arm, g.Reach entry x ∧ g.succ x arm = some b ∧
    (b = entry ∨ ∃ x' arm', g.Reach entry x' ∧ g.succ x' arm' = some b ∧ (x', arm') ≠ (x, arm))

def HasHalf (g : FlowGraph B S C) (b : B) : Prop := ∃ c a t, g.exit b = .half c a t

/-- A depth-first walk from a node, with the nodes visited before and after. At a half branch it
either ends or goes on without a test. -/
inductive Walks (g : FlowGraph B S C) (followsHalf : Bool) :
    List B → B → Walked B C → List B → Prop where
  | seen {V : List B} {b : B} (h : b ∈ V) : Walks g followsHalf V b .seen V
  | ended {V : List B} {b : B} (h : b ∉ V)
      (he : g.exit b = .stop ∨ g.HasHalf b ∧ followsHalf = false) :
      Walks g followsHalf V b (.ended b) (b :: V)
  | goes {V V' : List B} {b t : B} {w : Walked B C} (h : b ∉ V) (he : g.exit b = .goto t)
      (hw : Walks g followsHalf (b :: V) t w V') : Walks g followsHalf V b (.chained b w) V'
  | follows {V V' : List B} {b t : B} {c : C} {a : Bool} {w : Walked B C} (h : b ∉ V)
      (he : g.exit b = .half c a t) (hf : followsHalf = true)
      (hw : Walks g followsHalf (b :: V) t w V') : Walks g followsHalf V b (.chained b w) V'
  | forks {V V₁ V' : List B} {b t f : B} {c : C} {wt wf : Walked B C} (h : b ∉ V)
      (he : g.exit b = .branch c t f) (ht : Walks g followsHalf (b :: V) t wt V₁)
      (hf : Walks g followsHalf V₁ f wf V') : Walks g followsHalf V b (.forked b c wt wf) V'

section
variable {g : FlowGraph B S C} {followsHalf : Bool}

/-! ### What the graph runs -/

theorem runs_stop {b : B} (he : g.exit b = .stop) (σ : Outcomes) : g.Runs b σ (g.observe b) := by
  have hall : ∀ n, g.trace (n+1) b σ = g.observe b := by
    intro n
    simp [trace, he]
  refine ⟨?_, 1, hall 0⟩
  intro n
  cases n with
  | zero => exact List.nil_prefix
  | succ n => exact (hall n).symm ▸ List.prefix_rfl

/-- One node further: what the graph runs after it is what its successor runs. -/
theorem runs_after {b : B} {σ : Outcomes} {head : List (Observed S C)}
    {tail : ℕ → List (Observed S C)} (hall : ∀ n, g.trace (n+1) b σ = head ++ tail n)
    (l : List (Observed S C)) :
    g.Runs b σ (head ++ l) ↔ (∀ n, tail n <+: l) ∧ ∃ n, tail n = l := by
  constructor
  · rintro ⟨hpre, m, hm⟩
    refine ⟨fun n => ?_, ?_⟩
    · have h := hpre (n+1)
      rw [hall] at h
      exact (List.prefix_append_right_inj head).mp h
    · cases m with
      | zero =>
        have hnil : head ++ l = [] := hm.symm
        have hl : l = [] := (List.append_eq_nil_iff.mp hnil).2
        have h := hpre 1
        rw [hall, hnil, List.prefix_nil] at h
        exact ⟨0, by rw [hl]; exact (List.append_eq_nil_iff.mp h).2⟩
      | succ m =>
        rw [hall] at hm
        exact ⟨m, List.append_cancel_left hm⟩
  · rintro ⟨hpre, m, hm⟩
    refine ⟨fun n => ?_, m+1, by rw [hall, hm]⟩
    cases n with
    | zero => exact List.nil_prefix
    | succ n =>
      rw [hall]
      exact (List.prefix_append_right_inj head).mpr (hpre n)

theorem runs_goto {b t : B} (he : g.exit b = .goto t) (σ : Outcomes) (l : List (Observed S C)) :
    g.Runs b σ (g.observe b ++ l) ↔ g.Runs t σ l := by
  apply runs_after
  intro n
  simp [trace, he]

theorem runs_branch {b t f : B} {c : C} (he : g.exit b = .branch c t f) (σ : Outcomes)
    (l : List (Observed S C)) :
    g.Runs b σ (g.observe b ++ .condition c :: l) ↔ g.Runs (if σ 0 then t else f) σ.rest l := by
  have happ : g.observe b ++ .condition c :: l = (g.observe b ++ [.condition c]) ++ l := by simp
  rw [happ]
  apply runs_after
  intro n
  simp [trace, he]

/-! ### Silence -/

theorem Silent.next {b b' : B} (h : g.Silent b) (hn : g.Reach b b') : g.Silent b' :=
  fun x hx => h x (hn.trans hx)

theorem trace_of_silent {b : B} (h : g.Silent b) (n : ℕ) (σ : Outcomes) : g.trace n b σ = [] := by
  induction n generalizing b σ with
  | zero => rfl
  | succ n ih =>
    obtain ⟨hs, ht⟩ := h b .refl
    have hobs : g.observe b = [] := by simp [observe, hs]
    cases he : g.exit b with
    | stop => simp [trace, he, hobs]
    | goto t =>
      have hnext : g.Next b t := ⟨true, by simp [succ, he]⟩
      simp [trace, he, hobs, ih (h.next (.single hnext))]
    | branch c t f => exact absurd (.inl ⟨c, t, f, he⟩) ht
    | half c a t => exact absurd (.inr ⟨c, a, t, he⟩) ht

theorem runs_nil_of_silent {b : B} (h : g.Silent b) (σ : Outcomes) : g.Runs b σ [] :=
  ⟨fun n => (trace_of_silent h n σ).symm ▸ List.prefix_rfl, 0, rfl⟩

theorem silent_of_runs_nil {b : B} (h : ∀ σ, g.Runs b σ []) : g.Silent b := by
  intro b' hb'
  have hall : ∀ σ n, g.trace n b' σ = [] := by
    induction hb' with
    | refl => exact fun σ n => List.prefix_nil.mp ((h σ).1 n)
    | @tail x y _ hnext ih =>
      obtain ⟨arm, harm⟩ := hnext
      intro σ n
      have hone := ih σ (n+1)
      cases he : g.exit x with
      | stop => simp [succ, he] at harm
      | goto t =>
        have ht : t = y := by
          by_cases ha : arm = true <;> simp [succ, he, ha] at harm
          exact harm
        simp only [trace, he, List.append_eq_nil_iff] at hone
        exact ht ▸ hone.2
      | branch c t f => simp [trace, he] at hone
      | half c a t => simp [trace, he] at hone
  have hone := hall (fun _ => true) 1
  constructor
  · simp only [trace, List.append_eq_nil_iff, observe, List.map_eq_nil_iff] at hone
    exact hone.1
  · rintro (⟨c, t, f, he⟩ | ⟨c, a, t, he⟩) <;> simp [trace, he] at hone

/-! ### What the walk visits -/

theorem Walks.subset {V V' : List B} {b : B} {w : Walked B C}
    (h : g.Walks followsHalf V b w V') : V ⊆ V' := by
  induction h with
  | seen _ => exact List.Subset.refl _
  | ended _ _ => exact List.subset_cons_self _ _
  | goes _ _ _ ih => exact List.Subset.trans (List.subset_cons_self _ _) ih
  | follows _ _ _ _ ih => exact List.Subset.trans (List.subset_cons_self _ _) ih
  | forks _ _ _ _ iht ihf =>
    exact List.Subset.trans (List.subset_cons_self _ _) (List.Subset.trans iht ihf)

theorem Walks.start_mem {V V' : List B} {b : B} {w : Walked B C}
    (h : g.Walks followsHalf V b w V') : b ∈ V' := by
  cases h with
  | seen h => exact h
  | ended _ _ => exact List.mem_cons_self
  | goes _ _ hw => exact hw.subset List.mem_cons_self
  | follows _ _ _ hw => exact hw.subset List.mem_cons_self
  | forks _ _ ht hf => exact hf.subset (ht.subset List.mem_cons_self)

/-- What a walk visits is entered from what it visits, but for the node it starts at. -/
theorem Walks.entered {V V' : List B} {b v : B} {w : Walked B C}
    (h : g.Walks followsHalf V b w V') (hv : v ∈ V') :
    v ∈ V ∨ v = b ∨ ∃ x arm, x ∈ V' ∧ x ∉ V ∧ g.succ x arm = some v := by
  induction h with
  | seen _ => exact .inl hv
  | ended _ _ =>
    rcases List.mem_cons.mp hv with h | h
    · exact .inr (.inl h)
    · exact .inl h
  | @goes V V' b t w hb he hw ih =>
    rcases ih hv with h | rfl | ⟨x, arm, hx, hnot, hs⟩
    · rcases List.mem_cons.mp h with h | h
      · exact .inr (.inl h)
      · exact .inl h
    · exact .inr (.inr ⟨b, true, hw.subset List.mem_cons_self, hb, by simp [succ, he]⟩)
    · exact .inr (.inr ⟨x, arm, hx, fun h => hnot (List.mem_cons_of_mem _ h), hs⟩)
  | @follows V V' b t c a w hb he _ hw ih =>
    rcases ih hv with h | rfl | ⟨x, arm, hx, hnot, hs⟩
    · rcases List.mem_cons.mp h with h | h
      · exact .inr (.inl h)
      · exact .inl h
    · exact .inr (.inr ⟨b, a, hw.subset List.mem_cons_self, hb, by simp [succ, he]⟩)
    · exact .inr (.inr ⟨x, arm, hx, fun h => hnot (List.mem_cons_of_mem _ h), hs⟩)
  | @forks V V₁ V' b t f c wt wf hb he ht hf iht ihf =>
    have hbV₁ : b ∈ V₁ := ht.subset List.mem_cons_self
    rcases ihf hv with h | rfl | ⟨x, arm, hx, hnot, hs⟩
    · rcases iht h with h | rfl | ⟨x, arm, hx, hnot, hs⟩
      · rcases List.mem_cons.mp h with h | h
        · exact .inr (.inl h)
        · exact .inl h
      · exact .inr (.inr ⟨b, true, hf.subset hbV₁, hb, by simp [succ, he]⟩)
      · exact .inr (.inr ⟨x, arm, hf.subset hx, fun h => hnot (List.mem_cons_of_mem _ h), hs⟩)
    · exact .inr (.inr ⟨b, false, hf.subset hbV₁, hb, by simp [succ, he]⟩)
    · have hsub : b :: V ⊆ V₁ := ht.subset
      exact .inr (.inr ⟨x, arm, hx, fun h => hnot (hsub (List.mem_cons_of_mem _ h)), hs⟩)

theorem Walks.reach {V V' : List B} {b v : B} {w : Walked B C}
    (h : g.Walks followsHalf V b w V') (hv : v ∈ V') : v ∈ V ∨ g.Reach b v := by
  induction h with
  | seen _ => exact .inl hv
  | ended _ _ =>
    rcases List.mem_cons.mp hv with rfl | h
    · exact .inr .refl
    · exact .inl h
  | @goes V V' b t w _ he _ ih =>
    have hnext : g.Next b t := ⟨true, by simp [succ, he]⟩
    rcases ih hv with h | h
    · rcases List.mem_cons.mp h with rfl | h
      · exact .inr .refl
      · exact .inl h
    · exact .inr (.head hnext h)
  | @follows V V' b t c a w _ he _ _ ih =>
    have hnext : g.Next b t := ⟨a, by simp [succ, he]⟩
    rcases ih hv with h | h
    · rcases List.mem_cons.mp h with rfl | h
      · exact .inr .refl
      · exact .inl h
    · exact .inr (.head hnext h)
  | @forks V V₁ V' b t f c wt wf _ he _ _ iht ihf =>
    have hnextt : g.Next b t := ⟨true, by simp [succ, he]⟩
    have hnextf : g.Next b f := ⟨false, by simp [succ, he]⟩
    rcases ihf hv with h | h
    · rcases iht h with h | h
      · rcases List.mem_cons.mp h with rfl | h
        · exact .inr .refl
        · exact .inl h
      · exact .inr (.head hnextt h)
    · exact .inr (.head hnextf h)

/-! ### From silence to the runs -/

/-- The walk comes to a node by an edge that it has not used before. -/
structure Entering (g : FlowGraph B S C) (entry : B) (V : List B) (b : B) : Prop where
  visited : ∀ v ∈ V, g.Reach entry v
  here : g.Reach entry b
  edge : (V = [] ∧ b = entry) ∨ ∃ x arm, x ∈ V ∧ g.succ x arm = some b ∧
    ∀ v ∈ V, v = entry ∨ ∃ x' arm', x' ∈ V ∧ g.succ x' arm' = some v ∧ (x', arm') ≠ (x, arm)

theorem Entering.twice {entry b : B} {V : List B} (h : g.Entering entry V b) (hb : b ∈ V) :
    g.EnteredTwice entry b := by
  rcases h.edge with ⟨rfl, _⟩ | ⟨x, arm, hx, hs, hall⟩
  · cases hb
  · refine ⟨x, arm, h.visited x hx, hs, ?_⟩
    rcases hall b hb with he | ⟨x', arm', hx', hs', hne⟩
    · exact .inl he
    · exact .inr ⟨x', arm', h.visited x' hx', hs', hne⟩

/-- Every node visited so far, this one among them, is entered by another edge than those that
leave this node. -/
theorem Entering.entered {entry b : B} {V : List B} (h : g.Entering entry V b) (hb : b ∉ V) :
    ∀ v ∈ b :: V, v = entry ∨ ∃ x arm, x ∈ V ∧ x ≠ b ∧ g.succ x arm = some v := by
  intro v hv
  rcases h.edge with ⟨rfl, rfl⟩ | ⟨x, arm, hx, hs, hall⟩
  · exact .inl (List.mem_singleton.mp hv)
  · rcases List.mem_cons.mp hv with rfl | hv
    · exact .inr ⟨x, arm, hx, fun h => hb (h ▸ hx), hs⟩
    · rcases hall v hv with he | ⟨x', arm', hx', hs', _⟩
      · exact .inl he
      · exact .inr ⟨x', arm', hx', fun h => hb (h ▸ hx'), hs'⟩

theorem Entering.next {entry b t : B} {V : List B} {arm : Bool} (h : g.Entering entry V b)
    (hb : b ∉ V) (hs : g.succ b arm = some t) : g.Entering entry (b :: V) t where
  visited := by
    intro v hv
    rcases List.mem_cons.mp hv with rfl | hv
    · exact h.here
    · exact h.visited v hv
  here := h.here.tail ⟨arm, hs⟩
  edge := by
    refine .inr ⟨b, arm, List.mem_cons_self, hs, ?_⟩
    intro v hv
    rcases h.entered hb v hv with he | ⟨x, a, hx, hne, hsx⟩
    · exact .inl he
    · exact .inr ⟨x, a, List.mem_cons_of_mem _ hx, hsx, by simp [hne]⟩

theorem Entering.other {entry b t f : B} {V V₁ : List B} {w : Walked B C}
    (h : g.Entering entry V b) (hb : b ∉ V) (hst : g.succ b true = some t)
    (hsf : g.succ b false = some f) (hw : g.Walks followsHalf (b :: V) t w V₁) :
    g.Entering entry V₁ f where
  visited := by
    intro v hv
    rcases hw.reach hv with hv | hv
    · exact (h.next hb hst).visited v hv
    · exact (h.next hb hst).here.trans hv
  here := h.here.tail ⟨false, hsf⟩
  edge := by
    refine .inr ⟨b, false, hw.subset List.mem_cons_self, hsf, ?_⟩
    intro v hv
    rcases hw.entered hv with hv | rfl | ⟨x, arm, hx, hnot, hs⟩
    · rcases h.entered hb v hv with he | ⟨x, a, hx, hne, hsx⟩
      · exact .inl he
      · exact .inr ⟨x, a, hw.subset (List.mem_cons_of_mem _ hx), hsx, by simp [hne]⟩
    · exact .inr ⟨b, true, hw.subset List.mem_cons_self, hst, by simp⟩
    · have hne : x ≠ b := fun h => hnot (h ▸ List.mem_cons_self)
      exact .inr ⟨x, arm, hx, hs, by simp [hne]⟩

/-- No node is left by a half branch and what is entered twice is silent. -/
def Structured (g : FlowGraph B S C) (entry : B) : Prop :=
  ∀ b, g.Reach entry b → ¬ g.HasHalf b ∧ (g.EnteredTwice entry b → g.Silent b)

theorem runs_of_structured {entry b : B} {V V' : List B} {w : Walked B C}
    (hstr : g.Structured entry) (hw : g.Walks followsHalf V b w V') (h : g.Entering entry V b)
    (σ : Outcomes) : g.Runs b σ (g.exec w σ) := by
  induction hw generalizing σ with
  | seen hb => exact runs_nil_of_silent ((hstr _ h.here).2 (h.twice hb)) σ
  | ended _ he =>
    rcases he with he | ⟨he, _⟩
    · exact runs_stop he σ
    · exact absurd he (hstr _ h.here).1
  | @goes V V' b t w hb he _ ih =>
    have hst : g.succ b true = some t := by simp [succ, he]
    exact (runs_goto he σ _).mpr (ih (h.next hb hst) σ)
  | follows _ he _ _ _ => exact absurd ⟨_, _, _, he⟩ (hstr _ h.here).1
  | @forks V V₁ V' b t f c wt wf hb he ht _ iht ihf =>
    have hst : g.succ b true = some t := by simp [succ, he]
    have hsf : g.succ b false = some f := by simp [succ, he]
    refine (runs_branch he σ _).mpr ?_
    by_cases ho : σ 0 = true
    · simp only [ho, if_true]
      exact iht (h.next hb hst) σ.rest
    · simp only [ho]
      exact ihf (h.other hb hst hsf ht) σ.rest

/-! ### From the runs to silence -/

theorem exec_longest (g : FlowGraph B S C) (w : Walked B C) :
    ∃ σ, ∀ σ', (g.exec w σ').length ≤ (g.exec w σ).length := by
  induction w with
  | seen => exact ⟨fun _ => true, fun _ => Nat.le_refl _⟩
  | ended b => exact ⟨fun _ => true, fun _ => Nat.le_refl _⟩
  | chained b w ih =>
    obtain ⟨σ, hσ⟩ := ih
    refine ⟨σ, fun σ' => ?_⟩
    simpa [exec] using hσ σ'
  | forked b c t f iht ihf =>
    obtain ⟨σt, hσt⟩ := iht
    obtain ⟨σf, hσf⟩ := ihf
    by_cases hle : (g.exec f σf).length ≤ (g.exec t σt).length
    · refine ⟨.cons true σt, fun σ' => ?_⟩
      have ht := hσt σ'.rest
      have hf := hσf σ'.rest
      cases ho : σ' 0 <;> simp [exec, ho] <;> omega
    · refine ⟨.cons false σf, fun σ' => ?_⟩
      have ht := hσt σ'.rest
      have hf := hσf σ'.rest
      cases ho : σ' 0 <;> simp [exec, ho] <;> omega

/-- The graph can run at least as long as the tree of any walk of it. -/
theorem Walks.trace_long {V V' : List B} {b : B} {w : Walked B C}
    (h : g.Walks followsHalf V b w V') (σ : Outcomes) :
    ∃ σ' n, (g.exec w σ).length ≤ (g.trace n b σ').length := by
  induction h generalizing σ with
  | seen _ => exact ⟨σ, 0, by simp [exec]⟩
  | ended _ _ => exact ⟨σ, 1, by simp [exec, trace]⟩
  | goes _ he _ ih =>
    obtain ⟨σ', n, hn⟩ := ih σ
    exact ⟨σ', n+1, by simp [exec, trace, he]; omega⟩
  | @follows V V' b t c a w _ he _ _ ih =>
    obtain ⟨σ', n, hn⟩ := ih σ
    exact ⟨.cons a σ', n+1, by simp [exec, trace, he]; omega⟩
  | @forks V V₁ V' b t f c wt wf _ he _ _ iht ihf =>
    cases ho : σ 0 with
    | true =>
      obtain ⟨σ', n, hn⟩ := iht σ.rest
      exact ⟨.cons true σ', n+1, by simp [exec, trace, he, ho]; omega⟩
    | false =>
      obtain ⟨σ', n, hn⟩ := ihf σ.rest
      exact ⟨.cons false σ', n+1, by simp [exec, trace, he, ho]; omega⟩

/-- A walk that follows a half branch without its test runs too little on some outcomes. -/
theorem not_runs_follows {V V' : List B} {b t : B} {c : C} {a : Bool} {w : Walked B C}
    (he : g.exit b = .half c a t) (hw : g.Walks followsHalf (b :: V) t w V') :
    ¬ ∀ σ, g.Runs b σ (g.exec (.chained b w) σ) := by
  intro h
  obtain ⟨σ, hlongest⟩ := g.exec_longest w
  obtain ⟨σ', n, hn⟩ := hw.trace_long σ
  have hle := ((h (.cons a σ')).1 (n+1)).length_le
  have hmax := hlongest (.cons a σ')
  simp [trace, he, exec] at hle
  omega

theorem Walks.silent_of_mem {V V' : List B} {b : B} {w : Walked B C}
    (h : g.Walks followsHalf V b w V') (hb : b ∈ V) (hr : ∀ σ, g.Runs b σ (g.exec w σ)) :
    g.Silent b := by
  cases h with
  | seen _ => exact silent_of_runs_nil hr
  | ended hnot _ => exact absurd hb hnot
  | goes hnot _ _ => exact absurd hb hnot
  | follows hnot _ _ _ => exact absurd hb hnot
  | forks hnot _ _ _ => exact absurd hb hnot

/-- What is known of the nodes that a walk adds when its tree runs what the graph runs. -/
structure Explored (g : FlowGraph B S C) (V : List B) (b : B) (V' : List B) : Prop where
  whole : ∀ x ∈ V', x ∉ V → ¬ g.HasHalf x
  closed : ∀ x ∈ V', x ∉ V → ∀ arm y, g.succ x arm = some y → y ∈ V'
  back : ∀ x ∈ V', x ∉ V → ∀ arm y, g.succ x arm = some y → y ∈ b :: V → g.Silent y
  joined : ∀ x ∈ V', x ∉ V → ∀ x' ∈ V', x' ∉ V → ∀ arm arm' y, g.succ x arm = some y →
    g.succ x' arm' = some y → (x', arm') ≠ (x, arm) → g.Silent y

theorem Explored.chain {V V' : List B} {b t : B} (h : g.Explored (b :: V) t V')
    (he : g.exit b = .goto t) (ht : t ∈ V') (hseen : t ∈ b :: V → g.Silent t) :
    g.Explored V b V' := by
  have honly : ∀ arm y, g.succ b arm = some y → arm = true ∧ y = t := by
    intro arm y hs
    cases arm <;> simp [succ, he] at hs
    exact ⟨rfl, hs.symm⟩
  have hnew : ∀ {x}, x ∉ V → x ≠ b → x ∉ b :: V := by
    intro x hx hne
    simp [hx, hne]
  constructor
  · rintro x hx hnot
    by_cases hxb : x = b
    · rintro ⟨c, a, t', he'⟩
      rw [hxb, he] at he'
      cases he'
    · exact h.whole x hx (hnew hnot hxb)
  · intro x hx hnot arm y hs
    by_cases hxb : x = b
    · exact (honly arm y (hxb ▸ hs)).2 ▸ ht
    · exact h.closed x hx (hnew hnot hxb) arm y hs
  · intro x hx hnot arm y hs hy
    by_cases hxb : x = b
    · have hyt := (honly arm y (hxb ▸ hs)).2
      exact hyt ▸ hseen (hyt ▸ hy)
    · exact h.back x hx (hnew hnot hxb) arm y hs (List.mem_cons_of_mem _ hy)
  · intro x hx hnot x' hx' hnot' arm arm' y hs hs' hne
    by_cases hxb : x = b
    · obtain ⟨ha, hyt⟩ := honly arm y (hxb ▸ hs)
      by_cases hxb' : x' = b
      · obtain ⟨ha', _⟩ := honly arm' y (hxb' ▸ hs')
        exact absurd (by rw [hxb, hxb', ha, ha']) hne
      · exact h.back x' hx' (hnew hnot' hxb') arm' y hs' (hyt ▸ List.mem_cons_self)
    · by_cases hxb' : x' = b
      · obtain ⟨_, hyt⟩ := honly arm' y (hxb' ▸ hs')
        exact h.back x hx (hnew hnot hxb) arm y hs (hyt ▸ List.mem_cons_self)
      · exact h.joined x hx (hnew hnot hxb) x' hx' (hnew hnot' hxb') arm arm' y hs hs' hne

/-- The second arm is explored after the first one: what it meets of the first is silent. -/
theorem Explored.fork {V V₁ V' : List B} {b t f : B} {c : C} (ht : g.Explored (b :: V) t V₁)
    (hf : g.Explored V₁ f V') (he : g.exit b = .branch c t f) (hbV : b :: V ⊆ V₁) (hV₁ : V₁ ⊆ V')
    (htV₁ : t ∈ V₁) (hfV' : f ∈ V') (hseent : t ∈ b :: V → g.Silent t)
    (hseenf : f ∈ V₁ → g.Silent f) : g.Explored V b V' := by
  have hst : ∀ y, g.succ b true = some y → y = t := by
    intro y hs
    simpa [succ, he, eq_comm] using hs
  have hsf : ∀ y, g.succ b false = some y → y = f := by
    intro y hs
    simpa [succ, he, eq_comm] using hs
  have hnew : ∀ {x}, x ∉ V → x ≠ b → x ∉ b :: V := by
    intro x hx hne
    simp [hx, hne]
  -- the edges that leave what was visited before the second arm
  have hearly : ∀ x ∈ V₁, x ∉ V → ∀ arm y, g.succ x arm = some y →
      ((x, arm) = (b, true) ∧ y = t) ∨ ((x, arm) = (b, false) ∧ y = f) ∨ (x ∉ b :: V ∧ y ∈ V₁) := by
    intro x hx hnot arm y hs
    by_cases hxb : x = b
    · subst hxb
      cases arm with
      | true => exact .inl ⟨rfl, hst y hs⟩
      | false => exact .inr (.inl ⟨rfl, hsf y hs⟩)
    · exact .inr (.inr ⟨hnew hnot hxb, ht.closed x hx (hnew hnot hxb) arm y hs⟩)
  have hmeets : ∀ x ∈ V₁, x ∉ V → ∀ arm y, g.succ x arm = some y → y ∈ f :: V₁ := by
    intro x hx hnot arm y hs
    rcases hearly x hx hnot arm y hs with ⟨_, hy⟩ | ⟨_, hy⟩ | ⟨_, hy⟩
    · exact List.mem_cons_of_mem _ (hy ▸ htV₁)
    · exact hy ▸ List.mem_cons_self
    · exact List.mem_cons_of_mem _ hy
  constructor
  · intro x hx hnot
    by_cases hx₁ : x ∈ V₁
    · by_cases hxb : x = b
      · rintro ⟨c', a, t', he'⟩
        rw [hxb, he] at he'
        cases he'
      · exact ht.whole x hx₁ (hnew hnot hxb)
    · exact hf.whole x hx hx₁
  · intro x hx hnot arm y hs
    by_cases hx₁ : x ∈ V₁
    · rcases List.mem_cons.mp (hmeets x hx₁ hnot arm y hs) with hy | hy
      · exact hy ▸ hfV'
      · exact hV₁ hy
    · exact hf.closed x hx hx₁ arm y hs
  · intro x hx hnot arm y hs hy
    by_cases hx₁ : x ∈ V₁
    · by_cases hxb : x = b
      · subst hxb
        cases arm with
        | true => exact hst y hs ▸ hseent (hst y hs ▸ hy)
        | false => exact hsf y hs ▸ hseenf (hsf y hs ▸ hbV hy)
      · exact ht.back x hx₁ (hnew hnot hxb) arm y hs (List.mem_cons_of_mem _ hy)
    · exact hf.back x hx hx₁ arm y hs (List.mem_cons_of_mem _ (hbV hy))
  · intro x hx hnot x' hx' hnot' arm arm' y hs hs' hne
    by_cases hx₁ : x ∈ V₁
    · by_cases hx₁' : x' ∈ V₁
      · rcases hearly x hx₁ hnot arm y hs with ⟨hxb, hy⟩ | ⟨hxb, hy⟩ | ⟨hxb, hy⟩ <;>
          rcases hearly x' hx₁' hnot' arm' y hs' with ⟨hxb', hy'⟩ | ⟨hxb', hy'⟩ | ⟨hxb', hy'⟩
        · exact absurd (hxb'.trans hxb.symm) hne
        · exact hy' ▸ hseenf (hy' ▸ hy ▸ htV₁)
        · exact ht.back x' hx₁' hxb' arm' y hs' (hy ▸ List.mem_cons_self)
        · exact hy ▸ hseenf (hy ▸ hy' ▸ htV₁)
        · exact absurd (hxb'.trans hxb.symm) hne
        · exact hy ▸ hseenf (hy ▸ hy')
        · exact ht.back x hx₁ hxb arm y hs (hy' ▸ List.mem_cons_self)
        · exact hy' ▸ hseenf (hy' ▸ hy)
        · exact ht.joined x hx₁ hxb x' hx₁' hxb' arm arm' y hs hs' hne
      · exact hf.back x' hx' hx₁' arm' y hs' (hmeets x hx₁ hnot arm y hs)
    · by_cases hx₁' : x' ∈ V₁
      · exact hf.back x hx hx₁ arm y hs (hmeets x' hx₁' hnot' arm' y hs')
      · exact hf.joined x hx hx₁ x' hx' hx₁' arm arm' y hs hs' hne

theorem explored_of_runs {V V' : List B} {b : B} {w : Walked B C}
    (hw : g.Walks followsHalf V b w V') (hr : ∀ σ, g.Runs b σ (g.exec w σ)) :
    g.Explored V b V' := by
  induction hw with
  | seen h =>
    exact {
      whole := fun x hx hnot => absurd hx hnot
      closed := fun x hx hnot => absurd hx hnot
      back := fun x hx hnot => absurd hx hnot
      joined := fun x hx hnot => absurd hx hnot }
  | @ended V b _ he =>
    have hhalf : ¬ g.HasHalf b := by
      rintro ⟨c, a, t, he⟩
      have hle := ((hr fun _ => a).1 1).length_le
      have hlt : (g.observe b).length < (g.trace 1 b fun _ => a).length := by simp [trace, he]
      exact absurd hle (Nat.not_le.mpr hlt)
    have hstop : g.exit b = .stop := he.resolve_right (fun h => hhalf h.1)
    have honly : ∀ x ∈ b :: V, x ∉ V → x = b := by
      intro x hx hnot
      exact (List.mem_cons.mp hx).resolve_right hnot
    have hnone : ∀ x ∈ b :: V, x ∉ V → ∀ arm y, g.succ x arm ≠ some y := by
      intro x hx hnot arm y
      simp [honly x hx hnot, succ, hstop]
    exact {
      whole := fun x hx hnot => honly x hx hnot ▸ hhalf
      closed := fun x hx hnot arm y hs => absurd hs (hnone x hx hnot arm y)
      back := fun x hx hnot arm y hs => absurd hs (hnone x hx hnot arm y)
      joined := fun x hx hnot _ _ _ arm _ y hs => absurd hs (hnone x hx hnot arm y) }
  | follows _ he _ hw _ => exact absurd hr (not_runs_follows he hw)
  | @goes V V' b t w _ he hw ih =>
    have hrt : ∀ σ, g.Runs t σ (g.exec w σ) := fun σ => (runs_goto he σ _).mp (hr σ)
    exact (ih hrt).chain he hw.start_mem (fun hmem => hw.silent_of_mem hmem hrt)
  | @forks V V₁ V' b t f c wt wf _ he ht hf iht ihf =>
    have hrt : ∀ σ, g.Runs t σ (g.exec wt σ) :=
      fun σ => (runs_branch he (.cons true σ) _).mp (hr (.cons true σ))
    have hrf : ∀ σ, g.Runs f σ (g.exec wf σ) :=
      fun σ => (runs_branch he (.cons false σ) _).mp (hr (.cons false σ))
    exact (iht hrt).fork (ihf hrf) he ht.subset hf.subset ht.start_mem hf.start_mem
      (fun hmem => ht.silent_of_mem hmem hrt) (fun hmem => hf.silent_of_mem hmem hrf)

/-- The tree of a walk runs what the graph runs if and only if the graph is structured. -/
theorem runs_walk_iff {entry : B} {V' : List B} {w : Walked B C}
    (hw : g.Walks followsHalf [] entry w V') :
    (∀ σ, g.Runs entry σ (g.exec w σ)) ↔ g.Structured entry := by
  constructor
  · intro hr
    have hexp := explored_of_runs hw hr
    have hvisited : ∀ b, g.Reach entry b → b ∈ V' := by
      intro b hb
      induction hb with
      | refl => exact hw.start_mem
      | tail _ hnext ih =>
        obtain ⟨arm, hs⟩ := hnext
        exact hexp.closed _ ih List.not_mem_nil arm _ hs
    intro b hb
    refine ⟨hexp.whole b (hvisited b hb) List.not_mem_nil, ?_⟩
    rintro ⟨x, arm, hx, hs, rfl | ⟨x', arm', hx', hs', hne⟩⟩
    · exact hexp.back x (hvisited x hx) List.not_mem_nil arm b hs List.mem_cons_self
    · exact hexp.joined x (hvisited x hx) List.not_mem_nil x' (hvisited x' hx') List.not_mem_nil
        arm arm' b hs hs' hne
  · intro hstr σ
    refine runs_of_structured hstr hw ?_ σ
    exact { visited := by simp, here := .refl, edge := .inl ⟨rfl, rfl⟩ }

end
end FlowGraph
end LuaRecovery.Lib
