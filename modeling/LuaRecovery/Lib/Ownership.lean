import Mathlib.Data.List.Basic

/-!
# Owners in a graph

Owners that own, with a vertex, every vertex it leads to. A vertex with a sole
owner that only vertices with sole owners lead to can be detached from the rest
of the graph, unless one of those vertices has to stay itself.
-/

set_option autoImplicit false

namespace LuaRecovery.Lib

section Owners
variable {ι V : Type} {owners : List ι} {owns : ι → V → Bool} {next : V → V → Prop}

def Owned (owners : List ι) (owns : ι → V → Bool) (v : V) : Prop := ∃ i ∈ owners, owns i v = true

/-- Exactly one entry of the list owns the vertex. -/
def Sole (owners : List ι) (owns : ι → V → Bool) (v : V) : Prop :=
  (owners.filter (fun i => owns i v)).length = 1

def Inherits (owners : List ι) (owns : ι → V → Bool) (next : V → V → Prop) : Prop :=
  ∀ i ∈ owners, ∀ u v, owns i u = true → next u v → owns i v = true

def Detachable (owners : List ι) (owns : ι → V → Bool) (next : V → V → Prop) (v : V) : Prop :=
  Sole owners owns v ∧ ∀ u, next u v → Sole owners owns u

theorem Sole.owned {v : V} (h : Sole owners owns v) : Owned owners owns v := by
  obtain ⟨i, hi⟩ := List.length_eq_one_iff.mp h
  have hmem : i ∈ owners.filter (fun i => owns i v) := by
    rw [hi]
    exact List.mem_cons_self
  exact ⟨i, List.mem_filter.mp hmem⟩

theorem Sole.unique {v : V} (h : Sole owners owns v) {i j : ι} (hi : i ∈ owners)
    (hiv : owns i v = true) (hj : j ∈ owners) (hjv : owns j v = true) : i = j := by
  obtain ⟨k, hk⟩ := List.length_eq_one_iff.mp h
  have hone : ∀ l ∈ owners, owns l v = true → l = k := by
    intro l hl hlv
    have hmem : l ∈ owners.filter (fun i => owns i v) := List.mem_filter.mpr ⟨hl, hlv⟩
    rw [hk] at hmem
    exact List.mem_singleton.mp hmem
  rw [hone i hi hiv, hone j hj hjv]

/-- What leads to a vertex with a sole owner has that owner, or none. -/
theorem Sole.of_next {u v : V} (h : Sole owners owns v) (hin : Inherits owners owns next)
    (hnext : next u v) (hu : Owned owners owns u) : Sole owners owns u := by
  have hle : (owners.filter (fun i => owns i u)).length ≤
      (owners.filter (fun i => owns i v)).length := by
    rw [← List.countP_eq_length_filter, ← List.countP_eq_length_filter]
    exact List.countP_mono_left (fun i hi hiu => hin i hi u v hiu hnext)
  have hpos : 0 < (owners.filter (fun i => owns i u)).length := by
    obtain ⟨i, hi, hiu⟩ := hu
    exact List.length_pos_of_mem (List.mem_filter.mpr ⟨hi, hiu⟩)
  unfold Sole at h ⊢
  omega

/-- Going back from a detachable vertex, the only obstacles are vertices without an owner. -/
theorem Detachable.prev_iff {u v : V} (h : Detachable owners owns next v)
    (hin : Inherits owners owns next) (hnext : next u v) :
    Detachable owners owns next u ↔ ∀ w, next w u → Owned owners owns w := by
  have hu : Sole owners owns u := h.2 u hnext
  constructor
  · intro hd w hw
    exact (hd.2 w hw).owned
  · intro howned
    exact ⟨hu, fun w hw => hu.of_next hin hw (howned w hw)⟩

end Owners
end LuaRecovery.Lib
