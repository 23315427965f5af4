import LuaRecovery.Lib.Digraph
import LuaRecovery.Lib.InsertionMap
import LuaRecovery.Lib.ListEntries

/-!
# Strongly connected components

The depth-first search with lowlinks, for any successor function. `keep` decides
of a component and its root whether it is reported.
-/

set_option autoImplicit false

namespace LuaRecovery.Lib.Components
open Relation

/-- The stack has its top first. -/
structure Search (V : Type) where
  index : ℕ
  stack : List V
  indices : InsertionMap V ℕ
  lowlinks : InsertionMap V ℕ
  onStack : List V
  sccs : List (List V)

section Definitions
variable {V : Type} [DecidableEq V]

namespace Search

def start : Search V := ⟨0, [], .empty, .empty, [], []⟩

def rank (s : Search V) (v : V) : ℕ := (s.indices.get v).getD 0

def low (s : Search V) (v : V) : ℕ := (s.lowlinks.get v).getD 0

def enter (s : Search V) (v : V) : Search V :=
  ⟨s.index+1, v :: s.stack, s.indices.set v s.index, s.lowlinks.set v s.index,
    insertLast s.onStack v, s.sccs⟩

def lowerTo (s : Search V) (v : V) (n : ℕ) : Search V :=
  { s with lowlinks := s.lowlinks.set v (min (s.low v) n) }

/-- The top of the stack down to a vertex that is on it, and the rest. -/
def popThrough (v : V) : List V → List V × List V
  | [] => ([], [])
  | w :: rest =>
      if w = v then ([w], rest) else (w :: (popThrough v rest).1, (popThrough v rest).2)

/-- A vertex whose lowlink is its index is the root of a component. -/
def leave (keep : List V → V → Bool) (s : Search V) (v : V) : Search V :=
  if s.low v = s.rank v then
    let scc := (popThrough v s.stack).1
    { s with
      stack := (popThrough v s.stack).2
      onStack := s.onStack.filter (fun w => w ∉ scc)
      sccs := if keep scc v then s.sccs ++ [scc] else s.sccs }
  else s

end Search

def visitSuccessors (visit : V → Search V → Option (Search V)) (v : V) :
    List V → Search V → Option (Search V)
  | [], s => some s
  | w :: rest, s =>
      if w ∉ s.indices.keys then
        match visit w s with
        | none => none
        | some s' => visitSuccessors visit v rest (s'.lowerTo v (s'.low w))
      else if w ∈ s.onStack then visitSuccessors visit v rest (s.lowerTo v (s.rank w))
      else visitSuccessors visit v rest s

/-- The search from a vertex; `none` where the recursion gets too deep. -/
def strongConnect (succ : V → List V) (keep : List V → V → Bool) :
    ℕ → V → Search V → Option (Search V)
  | 0, _, _ => none
  | depth+1, v, s =>
      match visitSuccessors (strongConnect succ keep depth) v (succ v) (s.enter v) with
      | none => none
      | some s' => some (s'.leave keep v)

/-- The search from each vertex that has not been seen. -/
def connectAll (succ : V → List V) (keep : List V → V → Bool) (depth : ℕ) :
    List V → Search V → Option (Search V)
  | [], s => some s
  | v :: rest, s =>
      if v ∉ s.indices.keys then
        match strongConnect succ keep depth v s with
        | none => none
        | some s' => connectAll succ keep depth rest s'
      else connectAll succ keep depth rest s

/-- No search is deeper than there are vertices. -/
def components (succ : V → List V) (keep : List V → V → Bool) (vertices : List V) :
    Option (List (List V)) :=
  (connectAll succ keep (vertices.length+1) vertices .start).map (fun s => s.sccs)

end Definitions

def Reach {V : Type} (succ : V → List V) (a b : V) : Prop :=
  ReflTransGen (fun a b => b ∈ succ a) a b

def Mutual {V : Type} (succ : V → List V) (a b : V) : Prop :=
  Digraph.Mutual (fun a b => b ∈ succ a) a b

section Invariant
variable {V : Type} [DecidableEq V] {succ : V → List V} {keep : List V → V → Bool}

/-- The vertices of the components that have been popped, each kept with its root. -/
def Finished (popped : List (List V × V)) (x : V) : Prop := ∃ p ∈ popped, x ∈ p.1

/-- `active` are the vertices whose search has not ended. -/
structure Inv (succ : V → List V) (keep : List V → V → Bool) (s : Search V) (active : List V)
    (popped : List (List V × V)) : Prop where
  emitted : s.sccs = (popped.filter (fun p => keep p.1 p.2)).map Prod.fst
  seen : ∀ x, x ∈ s.indices.keys ↔ x ∈ s.stack ∨ Finished popped x
  below : ∀ x ∈ s.indices.keys, s.rank x < s.index
  sorted : s.stack.Pairwise (fun x y => s.rank y < s.rank x)
  onStack : ∀ x, x ∈ s.onStack ↔ x ∈ s.stack
  pending : ∀ x ∈ active, x ∈ s.stack
  explored : ∀ x ∈ s.indices.keys, x ∉ active → ∀ y ∈ succ x, y ∈ s.indices.keys
  closed : ∀ x, Finished popped x → ∀ y ∈ succ x, Finished popped y
  descends : ∀ x ∈ active, ∀ y ∈ s.stack, s.rank x ≤ s.rank y → Reach succ x y
  returns : ∀ y ∈ s.stack, ∃ x ∈ active, s.rank x ≤ s.rank y ∧ Reach succ y x
  components : ∀ p ∈ popped, p.1.Nodup ∧ ∀ x, x ∈ p.1 ↔ Mutual succ p.2 x
  apart : ∀ x ∈ s.stack, ¬ Finished popped x
  separate : popped.Pairwise (fun p q => ∀ x ∈ p.1, x ∉ q.1)

/-- What a search from `v` has done since it was entered at `s₀`: `fresh` are the vertices it has
left on the stack and `rest` the successors of `v` that it has not looked at. -/
structure Progress (succ : V → List V) (s₀ s : Search V) (v : V) (fresh rest : List V) : Prop where
  stack : s.stack = fresh ++ s₀.stack
  index : s₀.index ≤ s.index
  ranks : ∀ x ∈ s₀.indices.keys, x ∈ s.indices.keys ∧ s.rank x = s₀.rank x
  lows : ∀ x ∈ s₀.indices.keys, s.low x = s₀.low x
  later : ∀ x ∈ fresh, s₀.index ≤ s.rank x
  entered : v ∈ s.indices.keys ∧ s.rank v = s₀.index
  lowlink : s.low v = s₀.index ∨ ∃ y ∈ s₀.stack, s.low v = s₀.rank y ∧ Reach succ v y
  edges : ∀ x ∈ fresh, ∀ y ∈ succ x, (x = v → y ∉ rest) → y ∈ s₀.stack → s.low v ≤ s₀.rank y
  done : ∀ y ∈ succ v, y ∉ rest → y ∈ s.indices.keys
  found : ∀ x ∈ s.indices.keys, x ∈ s₀.indices.keys ∨ Reach succ v x

theorem mem_keys_set (m : InsertionMap V ℕ) (v x : V) (n : ℕ) :
    x ∈ (m.set v n).keys ↔ x ∈ m.keys ∨ x = v := by
  by_cases hv : v ∈ m.keys
  · rw [m.keys_set_of_mem n hv]
    constructor
    · exact .inl
    · rintro (h | rfl)
      · exact h
      · exact hv
  · rw [m.keys_set_of_notMem n hv]
    simp

theorem rank_enter (s : Search V) (v x : V) :
    (s.enter v).rank x = if x = v then s.index else s.rank x := by
  unfold Search.rank Search.enter
  rw [InsertionMap.get_set]
  by_cases h : x = v <;> simp [h]

theorem low_enter (s : Search V) (v x : V) :
    (s.enter v).low x = if x = v then s.index else s.low x := by
  unfold Search.low Search.enter
  rw [InsertionMap.get_set]
  by_cases h : x = v <;> simp [h]

theorem low_lowerTo (s : Search V) (v x : V) (n : ℕ) :
    (s.lowerTo v n).low x = if x = v then min (s.low v) n else s.low x := by
  show ((s.lowlinks.set v (min (s.low v) n)).get x).getD 0 = _
  rw [InsertionMap.get_set]
  by_cases h : x = v <;> simp [h, Search.low]

theorem popThrough_append {v : V} {top rest : List V} (h : v ∉ top) :
    Search.popThrough v (top ++ v :: rest) = (top ++ [v], rest) := by
  induction top with
  | nil => simp [Search.popThrough]
  | cons w top ih =>
    rw [List.mem_cons, not_or] at h
    rw [List.cons_append, Search.popThrough, if_neg (Ne.symm h.1), ih h.2]
    rfl

namespace Inv
variable {s : Search V} {active : List V} {popped : List (List V × V)}

theorem seen_of_stack (h : Inv succ keep s active popped) {x : V} (hx : x ∈ s.stack) :
    x ∈ s.indices.keys := (h.seen x).mpr (.inl hx)

theorem rank_lt (h : Inv succ keep s active popped) {x : V} (hx : x ∈ s.stack) :
    s.rank x < s.index := h.below x (h.seen_of_stack hx)

theorem start : Inv succ keep .start [] [] where
  emitted := rfl
  seen := by simp [Search.start, Finished]
  below := by simp [Search.start]
  sorted := .nil
  onStack := by simp [Search.start]
  pending := by simp
  explored := by simp [Search.start]
  closed := by simp [Finished]
  descends := by simp
  returns := by simp [Search.start]
  components := by simp
  apart := by simp [Search.start]
  separate := .nil

theorem lowerTo (h : Inv succ keep s active popped) (v : V) (n : ℕ) :
    Inv succ keep (s.lowerTo v n) active popped :=
  ⟨h.emitted, h.seen, h.below, h.sorted, h.onStack, h.pending, h.explored, h.closed, h.descends,
    h.returns, h.components, h.apart, h.separate⟩

/-- Entering a vertex that every active one leads to. -/
theorem enter (h : Inv succ keep s active popped) {v : V} (hv : v ∉ s.indices.keys)
    (hway : ∀ a ∈ active, Reach succ a v) : Inv succ keep (s.enter v) (v :: active) popped := by
  have hkeys : ∀ x, x ∈ (s.enter v).indices.keys ↔ x ∈ s.indices.keys ∨ x = v :=
    fun x => mem_keys_set s.indices v x s.index
  have hold : ∀ x ∈ s.indices.keys, (s.enter v).rank x = s.rank x := by
    intro x hx
    rw [rank_enter, if_neg (fun heq : x = v => hv (heq ▸ hx))]
  have hnew : (s.enter v).rank v = s.index := by rw [rank_enter, if_pos rfl]
  have hlt : ∀ y ∈ s.stack, (s.enter v).rank y < s.index := by
    intro y hy
    rw [hold y (h.seen_of_stack hy)]
    exact h.rank_lt hy
  constructor
  · exact h.emitted
  · intro x
    rw [hkeys, h.seen]
    simp only [Search.enter, List.mem_cons]
    tauto
  · intro x hx
    show _ < s.index+1
    rcases (hkeys x).mp hx with hx | rfl
    · rw [hold x hx]
      exact Nat.lt_succ_of_lt (h.below x hx)
    · rw [hnew]
      exact Nat.lt_succ_self _
  · refine List.pairwise_cons.mpr ⟨fun y hy => hnew.symm ▸ hlt y hy, ?_⟩
    refine h.sorted.imp_of_mem fun {x y} hx hy hxy => ?_
    rw [hold x (h.seen_of_stack hx), hold y (h.seen_of_stack hy)]
    exact hxy
  · intro x
    show x ∈ insertLast s.onStack v ↔ x ∈ v :: s.stack
    rw [mem_insertLast, h.onStack, List.mem_cons, or_comm]
  · intro x hx
    rcases List.mem_cons.mp hx with rfl | hx
    · exact List.mem_cons_self
    · exact List.mem_cons_of_mem _ (h.pending x hx)
  · intro x hx hxa y hy
    rw [List.mem_cons, not_or] at hxa
    have hx' := ((hkeys x).mp hx).resolve_right hxa.1
    exact (hkeys y).mpr (.inl (h.explored x hx' hxa.2 y hy))
  · exact h.closed
  · intro x hx y hy hle
    rcases List.mem_cons.mp hx with rfl | hxa <;> rcases List.mem_cons.mp hy with rfl | hya
    · exact .refl
    · have hy' := hlt y hya
      omega
    · exact hway x hxa
    · rw [hold x (h.seen_of_stack (h.pending x hxa)), hold y (h.seen_of_stack hya)] at hle
      exact h.descends x hxa y hya hle
  · intro y hy
    rcases List.mem_cons.mp hy with rfl | hy
    · exact ⟨y, List.mem_cons_self, le_rfl, .refl⟩
    · obtain ⟨x, hx, hle, hreach⟩ := h.returns y hy
      refine ⟨x, List.mem_cons_of_mem _ hx, ?_, hreach⟩
      rwa [hold x (h.seen_of_stack (h.pending x hx)), hold y (h.seen_of_stack hy)]
  · exact h.components
  · intro x hx hfin
    rcases List.mem_cons.mp hx with rfl | hx
    · exact hv ((h.seen x).mpr (.inr hfin))
    · exact h.apart x hx hfin
  · exact h.separate

end Inv

namespace Progress
variable {s₀ s s' : Search V} {v w : V} {fresh fresh' rest active : List V}
  {popped popped' : List (List V × V)}

/-- Just after the vertex has been entered. -/
theorem enter (hv : v ∉ s₀.indices.keys) :
    Progress succ s₀ (s₀.enter v) v [v] (succ v) := by
  have hne : ∀ x ∈ s₀.indices.keys, x ≠ v := fun x hx heq => hv (heq ▸ hx)
  have hkeys : ∀ x, x ∈ (s₀.enter v).indices.keys ↔ x ∈ s₀.indices.keys ∨ x = v :=
    fun x => mem_keys_set s₀.indices v x s₀.index
  refine ⟨rfl, Nat.le_succ _, fun x hx => ⟨(hkeys x).mpr (.inl hx), ?_⟩, fun x hx => ?_,
    fun x hx => ?_, ⟨(hkeys v).mpr (.inr rfl), by rw [rank_enter, if_pos rfl]⟩,
    .inl (by rw [low_enter, if_pos rfl]), fun x hx y hy hrest => ?_, fun y hy hrest => ?_,
    fun x hx => ((hkeys x).mp hx).imp_right fun heq : x = v => heq ▸ .refl⟩
  · rw [rank_enter, if_neg (hne x hx)]
  · rw [low_enter, if_neg (hne x hx)]
  · rw [List.mem_singleton.mp hx, rank_enter, if_pos rfl]
  · obtain rfl := List.mem_singleton.mp hx
    exact absurd hy (hrest rfl)
  · exact absurd hy hrest

theorem low_le (h : Progress succ s₀ s v fresh rest) (h₀ : Inv succ keep s₀ active popped) :
    s.low v ≤ s₀.index := by
  rcases h.lowlink with heq | ⟨y, hy, heq, -⟩
  · exact heq.le
  · exact heq ▸ (h₀.rank_lt hy).le

/-- A successor that is seen and off the stack is in a finished component. -/
theorem skip (h : Progress succ s₀ s v fresh (w :: rest)) (hw : w ∈ s.indices.keys)
    (hoff : w ∉ s₀.stack) : Progress succ s₀ s v fresh rest where
  stack := h.stack
  index := h.index
  ranks := h.ranks
  lows := h.lows
  later := h.later
  entered := h.entered
  lowlink := h.lowlink
  edges x hx y hy hrest hstack := by
    refine h.edges x hx y hy (fun hxv hmem => ?_) hstack
    rcases List.mem_cons.mp hmem with rfl | hmem
    · exact hoff hstack
    · exact hrest hxv hmem
  done y hy hrest := by
    by_cases hyw : y = w
    · exact hyw ▸ hw
    · exact h.done y hy (List.not_mem_cons_of_ne_of_not_mem hyw hrest)
  found := h.found

/-- A successor on the stack lowers the lowlink to its index. -/
theorem lower (h : Progress succ s₀ s v fresh (w :: rest)) (h₀ : Inv succ keep s₀ active popped)
    (hv : v ∉ s₀.indices.keys) (hedge : w ∈ succ v) (hw : w ∈ s.stack)
    (hin : w ∈ s.indices.keys) : Progress succ s₀ (s.lowerTo v (s.rank w)) v fresh rest := by
  have hle := h.low_le h₀
  have hlow : (s.lowerTo v (s.rank w)).low v = min (s.low v) (s.rank w) := by
    rw [low_lowerTo, if_pos rfl]
  have hold : ∀ y ∈ s₀.stack, s.rank y = s₀.rank y :=
    fun y hy => (h.ranks y (h₀.seen_of_stack hy)).2
  refine ⟨h.stack, h.index, h.ranks, fun x hx => ?_, h.later, h.entered, ?_,
    fun x hx y hy hrest hstack => ?_, fun y hy hrest => ?_, h.found⟩
  · rw [low_lowerTo, if_neg (fun heq : x = v => hv (heq ▸ hx))]
    exact h.lows x hx
  · rw [hlow]
    rcases le_total (s.low v) (s.rank w) with hmin | hmin
    · rw [min_eq_left hmin]
      exact h.lowlink
    · rw [min_eq_right hmin]
      rw [h.stack] at hw
      rcases List.mem_append.mp hw with hw | hw
      · have hlater := h.later w hw
        exact .inl (by omega)
      · exact .inr ⟨w, hw, hold w hw, .single hedge⟩
  · rw [hlow]
    by_cases hyw : y = w
    · exact (min_le_right _ _).trans (hyw ▸ (hold y hstack).le)
    · refine (min_le_left _ _).trans (h.edges x hx y hy (fun hxv => ?_) hstack)
      exact List.not_mem_cons_of_ne_of_not_mem hyw (hrest hxv)
  · by_cases hyw : y = w
    · exact hyw ▸ hin
    · exact h.done y hy (List.not_mem_cons_of_ne_of_not_mem hyw hrest)

/-- A successor that was searched hands its lowlink on. -/
theorem descend (h : Progress succ s₀ s v fresh (w :: rest)) (h₀ : Inv succ keep s₀ active popped)
    (hs : Inv succ keep s (v :: active) popped') (hv : v ∉ s₀.indices.keys)
    (hw : w ∉ s.indices.keys) (hedge : w ∈ succ v) (h' : Progress succ s s' w fresh' []) :
    Progress succ s₀ (s'.lowerTo v (s'.low w)) v (fresh' ++ fresh) rest := by
  have hle := h.low_le h₀
  have hlow : (s'.lowerTo v (s'.low w)).low v = min (s.low v) (s'.low w) := by
    rw [low_lowerTo, if_pos rfl, h'.lows v h.entered.1]
  have hold : ∀ y ∈ s₀.stack, s.rank y = s₀.rank y :=
    fun y hy => (h.ranks y (h₀.seen_of_stack hy)).2
  have hin : ∀ y ∈ s₀.stack, y ∈ s.stack := by
    intro y hy
    rw [h.stack]
    exact List.mem_append_right _ hy
  refine ⟨?_, h.index.trans h'.index, fun x hx => ?_, fun x hx => ?_, fun x hx => ?_, ?_, ?_,
    fun x hx y hy hrest hstack => ?_, fun y hy hrest => ?_, fun x hx => ?_⟩
  · show s'.stack = _
    rw [h'.stack, h.stack, List.append_assoc]
  · obtain ⟨hseen, hrank⟩ := h.ranks x hx
    obtain ⟨hseen', hrank'⟩ := h'.ranks x hseen
    exact ⟨hseen', hrank'.trans hrank⟩
  · rw [low_lowerTo, if_neg (fun heq : x = v => hv (heq ▸ hx)), h'.lows x (h.ranks x hx).1]
    exact h.lows x hx
  · rcases List.mem_append.mp hx with hx | hx
    · exact h.index.trans (h'.later x hx)
    · have hstack : x ∈ s.stack := by
        rw [h.stack]
        exact List.mem_append_left _ hx
      have hrank := (h'.ranks x (hs.seen_of_stack hstack)).2
      show s₀.index ≤ s'.rank x
      rw [hrank]
      exact h.later x hx
  · obtain ⟨hseen', hrank'⟩ := h'.ranks v h.entered.1
    exact ⟨hseen', hrank'.trans h.entered.2⟩
  · rw [hlow]
    rcases le_total (s.low v) (s'.low w) with hmin | hmin
    · rw [min_eq_left hmin]
      exact h.lowlink
    · rw [min_eq_right hmin]
      have hindex := h.index
      rcases h'.lowlink with heq | ⟨y, hy, heq, hreach⟩
      · exact .inl (by omega)
      · rw [h.stack] at hy
        rcases List.mem_append.mp hy with hy | hy
        · have hlater := h.later y hy
          exact .inl (by omega)
        · exact .inr ⟨y, hy, heq.trans (hold y hy), .head hedge hreach⟩
  · rw [hlow]
    rcases List.mem_append.mp hx with hx | hx
    · have hbound := h'.edges x hx y hy (fun _ => List.not_mem_nil) (hin y hstack)
      exact (min_le_right _ _).trans (hbound.trans (hold y hstack).le)
    · refine (min_le_left _ _).trans (h.edges x hx y hy (fun hxv hmem => ?_) hstack)
      rcases List.mem_cons.mp hmem with rfl | hmem
      · exact hw (hs.seen_of_stack (hin y hstack))
      · exact hrest hxv hmem
  · by_cases hyw : y = w
    · exact hyw ▸ h'.entered.1
    · exact (h'.ranks y (h.done y hy (List.not_mem_cons_of_ne_of_not_mem hyw hrest))).1
  · rcases h'.found x hx with hold | hway
    · exact h.found x hold
    · exact .inr (.head hedge hway)

end Progress

/-! ## Leaving a vertex -/

/-- The search from `v` is through with its successors. -/
structure Leaving (succ : V → List V) (keep : List V → V → Bool) (s₀ s : Search V) (v : V)
    (fresh active : List V) (popped : List (List V × V)) : Prop where
  inv : Inv succ keep s (v :: active) popped
  progress : Progress succ s₀ s v fresh []
  fresh : v ∈ fresh
  start : ∃ popped₀, Inv succ keep s₀ active popped₀
  unseen : v ∉ s₀.indices.keys

namespace Leaving
variable {s₀ s : Search V} {v : V} {fresh active : List V} {popped : List (List V × V)}

theorem old_lt (h : Leaving succ keep s₀ s v fresh active popped) {y : V} (hy : y ∈ s₀.stack) :
    s.rank y < s₀.index := by
  obtain ⟨popped₀, h₀⟩ := h.start
  rw [(h.progress.ranks y (h₀.seen_of_stack hy)).2]
  exact h₀.rank_lt hy

theorem mem_stack (h : Leaving succ keep s₀ s v fresh active popped) (x : V) :
    x ∈ s.stack ↔ x ∈ fresh ∨ x ∈ s₀.stack := by
  rw [h.progress.stack, List.mem_append]

theorem disjoint (h : Leaving succ keep s₀ s v fresh active popped) {x : V} (hx : x ∈ fresh) :
    x ∉ s₀.stack := by
  intro hold
  have hlt := h.old_lt hold
  have hle := h.progress.later x hx
  omega

theorem active_old (h : Leaving succ keep s₀ s v fresh active popped) {x : V} (hx : x ∈ active) :
    x ∈ s₀.stack := by
  obtain ⟨popped₀, h₀⟩ := h.start
  exact h₀.pending x hx

/-- The vertex lies below everything that its search has left on the stack. -/
theorem fresh_eq (h : Leaving succ keep s₀ s v fresh active popped) :
    ∃ top, fresh = top ++ [v] ∧ v ∉ top := by
  obtain ⟨top, bottom, hsplit⟩ := List.append_of_mem h.fresh
  have hsorted := h.inv.sorted
  rw [h.progress.stack, List.pairwise_append, hsplit, List.pairwise_append] at hsorted
  obtain ⟨⟨-, hbottom, htop⟩, -, -⟩ := hsorted
  have hentered := h.progress.entered.2
  have hnil : bottom = [] := by
    refine List.eq_nil_iff_forall_not_mem.mpr fun z hz => ?_
    have hlt := (List.pairwise_cons.mp hbottom).1 z hz
    have hle := h.progress.later z (by rw [hsplit]; simp [hz])
    omega
  refine ⟨top, by rw [hsplit, hnil], fun hv => ?_⟩
  exact Nat.lt_irrefl _ (htop v hv v List.mem_cons_self)

theorem explored (h : Leaving succ keep s₀ s v fresh active popped) {x : V}
    (hx : x ∈ s.indices.keys) (hxa : x ∉ active) : ∀ y ∈ succ x, y ∈ s.indices.keys := by
  intro y hy
  by_cases hxv : x = v
  · subst hxv
    exact h.progress.done y hy List.not_mem_nil
  · exact h.inv.explored x hx (List.not_mem_cons_of_ne_of_not_mem hxv hxa) y hy

/-- Below the root of a component no edge leads further down the stack. -/
theorem edge_cases (h : Leaving succ keep s₀ s v fresh active popped)
    (hroot : s.low v = s.rank v) {x : V} (hx : x ∈ fresh) :
    ∀ y ∈ succ x, y ∈ fresh ∨ Finished popped y := by
  intro y hy
  have hxa : x ∉ active := fun hxa => h.disjoint hx (h.active_old hxa)
  have hin := h.explored (h.inv.seen_of_stack ((h.mem_stack x).mpr (.inl hx))) hxa y hy
  rcases (h.inv.seen y).mp hin with hstack | hfin
  · rcases (h.mem_stack y).mp hstack with hfresh | hold
    · exact .inl hfresh
    · have hle := h.progress.edges x hx y hy (fun _ => List.not_mem_nil) hold
      have hlt := h.old_lt hold
      obtain ⟨popped₀, h₀⟩ := h.start
      rw [(h.progress.ranks y (h₀.seen_of_stack hold)).2] at hlt
      have hentered := h.progress.entered.2
      omega
  · exact .inr hfin

theorem reach_cases (h : Leaving succ keep s₀ s v fresh active popped)
    (hroot : s.low v = s.rank v) {x y : V} (hx : x ∈ fresh) (hway : Reach succ x y) :
    y ∈ fresh ∨ Finished popped y := by
  refine Digraph.closed_of_path (P := fun y => y ∈ fresh ∨ Finished popped y)
    (fun a b ha hedge => ?_) hway (.inl hx)
  rcases ha with ha | ha
  · exact h.edge_cases hroot ha b hedge
  · exact .inr (h.inv.closed a ha b hedge)

theorem not_reach_back (h : Leaving succ keep s₀ s v fresh active popped) {x y : V}
    (hx : Finished popped x) (hy : y ∈ s.stack) : ¬ Reach succ x y := by
  intro hway
  exact h.inv.apart y hy (Digraph.closed_of_path (fun a b ha hedge => h.inv.closed a ha b hedge)
    hway hx)

theorem component (h : Leaving succ keep s₀ s v fresh active popped)
    (hroot : s.low v = s.rank v) (x : V) : x ∈ fresh ↔ Mutual succ v x := by
  have hv : v ∈ s.stack := (h.mem_stack v).mpr (.inl h.fresh)
  constructor
  · intro hx
    have hxs : x ∈ s.stack := (h.mem_stack x).mpr (.inl hx)
    have hle : s.rank v ≤ s.rank x := h.progress.entered.2.trans_le (h.progress.later x hx)
    refine ⟨h.inv.descends v List.mem_cons_self x hxs hle, ?_⟩
    obtain ⟨a, ha, -, hway⟩ := h.inv.returns x hxs
    rcases List.mem_cons.mp ha with rfl | ha
    · exact hway
    · have hold := h.active_old ha
      rcases h.reach_cases hroot hx hway with hfresh | hfin
      · exact absurd hold (h.disjoint hfresh)
      · exact absurd hfin (h.inv.apart a ((h.mem_stack a).mpr (.inr hold)))
  · rintro ⟨hto, hback⟩
    rcases h.reach_cases hroot h.fresh hto with hfresh | hfin
    · exact hfresh
    · exact absurd hback (h.not_reach_back hfin hv)

/-- A root takes its component off the stack. -/
theorem leave_root (h : Leaving succ keep s₀ s v fresh active popped)
    (hroot : s.low v = s.rank v) :
    Inv succ keep (s.leave keep v) active (popped ++ [(fresh, v)]) ∧
      Progress succ s₀ (s.leave keep v) v [] [] := by
  obtain ⟨top, hfresh, hnot⟩ := h.fresh_eq
  have hpop : Search.popThrough v s.stack = (fresh, s₀.stack) := by
    rw [h.progress.stack, hfresh, List.append_assoc, List.singleton_append, popThrough_append hnot]
  have hleave : s.leave keep v = { s with
      stack := s₀.stack
      onStack := s.onStack.filter (fun w => w ∉ fresh)
      sccs := if keep fresh v then s.sccs ++ [fresh] else s.sccs } := by
    rw [Search.leave, if_pos hroot, hpop]
  have hfinished : ∀ x, Finished (popped ++ [(fresh, v)]) x ↔ Finished popped x ∨ x ∈ fresh := by
    intro x
    simp [Finished, or_and_right, exists_or]
  obtain ⟨popped₀, h₀⟩ := h.start
  have hrank : ∀ y ∈ s₀.stack, s.rank y = s₀.rank y :=
    fun y hy => (h.progress.ranks y (h₀.seen_of_stack hy)).2
  have hsub : ∀ x ∈ s₀.stack, x ∈ s.stack := fun x hx => (h.mem_stack x).mpr (.inr hx)
  rw [hleave]
  constructor
  · constructor
    · rw [List.filter_append, List.map_append, ← h.inv.emitted]
      by_cases hkeep : keep fresh v = true <;> simp [hkeep]
    · intro x
      rw [hfinished]
      show x ∈ s.indices.keys ↔ x ∈ s₀.stack ∨ _
      rw [h.inv.seen, h.mem_stack]
      tauto
    · exact h.inv.below
    · have hsorted := h.inv.sorted
      rw [h.progress.stack, List.pairwise_append] at hsorted
      exact hsorted.2.1
    · intro x
      show x ∈ s.onStack.filter (fun w => w ∉ fresh) ↔ x ∈ s₀.stack
      simp only [List.mem_filter, decide_eq_true_eq, h.inv.onStack, h.mem_stack]
      constructor
      · exact fun hx => hx.1.resolve_left hx.2
      · exact fun hx => ⟨.inr hx, fun hf => h.disjoint hf hx⟩
    · exact fun x hx => h.active_old hx
    · exact fun x hx hxa => h.explored hx hxa
    · intro x hx y hy
      rw [hfinished] at hx ⊢
      rcases hx with hx | hx
      · exact .inl (h.inv.closed x hx y hy)
      · exact (h.edge_cases hroot hx y hy).symm
    · exact fun x hx y hy hle => h.inv.descends x (List.mem_cons_of_mem _ hx) y (hsub y hy) hle
    · intro y hy
      obtain ⟨x, hx, hle, hway⟩ := h.inv.returns y (hsub y hy)
      rcases List.mem_cons.mp hx with rfl | hx
      · have hlt := h.old_lt hy
        have hentered := h.progress.entered.2
        omega
      · exact ⟨x, hx, hle, hway⟩
    · intro p hp
      rcases List.mem_append.mp hp with hp | hp
      · exact h.inv.components p hp
      · rw [List.mem_singleton.mp hp]
        refine ⟨?_, h.component hroot⟩
        have hsorted := h.inv.sorted
        rw [h.progress.stack, List.pairwise_append] at hsorted
        exact hsorted.1.imp fun hlt heq => by simp [heq] at hlt
    · intro x hx hfin
      rcases (hfinished x).mp hfin with hfin | hf
      · exact h.inv.apart x (hsub x hx) hfin
      · exact h.disjoint hf hx
    · refine List.pairwise_append.mpr ⟨h.inv.separate, List.pairwise_singleton _ _, ?_⟩
      intro p hp q hq x hx hxq
      rw [List.mem_singleton.mp hq] at hxq
      exact h.inv.apart x ((h.mem_stack x).mpr (.inl hxq)) ⟨p, hp, hx⟩
  · refine ⟨rfl, h.progress.index, h.progress.ranks, h.progress.lows, by simp,
      h.progress.entered, ?_, by simp, h.progress.done, h.progress.found⟩
    exact .inl (hroot.trans h.progress.entered.2)

/-- Any other vertex stays on the stack, under the active vertex that it leads back to. -/
theorem leave_other (h : Leaving succ keep s₀ s v fresh active popped)
    (hroot : s.low v ≠ s.rank v) : s.leave keep v = s ∧ Inv succ keep s active popped := by
  refine ⟨by rw [Search.leave, if_neg hroot], ?_⟩
  have hentered := h.progress.entered.2
  refine { h.inv with
    pending := fun x hx => (h.mem_stack x).mpr (.inr (h.active_old hx))
    explored := fun x hx hxa => h.explored hx hxa
    descends := fun x hx => h.inv.descends x (List.mem_cons_of_mem _ hx)
    returns := fun y hy => ?_ }
  obtain ⟨x, hx, hle, hway⟩ := h.inv.returns y hy
  rcases List.mem_cons.mp hx with rfl | hx
  · -- the way on from `v`: to a vertex that was on the stack before it
    obtain ⟨z, hz, -, hreach⟩ := h.progress.lowlink.resolve_left
      (fun heq => hroot (heq.trans hentered.symm))
    have hlt := h.old_lt hz
    obtain ⟨a, ha, hle', hway'⟩ := h.inv.returns z ((h.mem_stack z).mpr (.inr hz))
    rcases List.mem_cons.mp ha with rfl | ha
    · omega
    · exact ⟨a, ha, by omega, hway.trans (hreach.trans hway')⟩
  · exact ⟨x, hx, hle, hway⟩

theorem leave (h : Leaving succ keep s₀ s v fresh active popped) :
    ∃ popped' fresh', Inv succ keep (s.leave keep v) active popped' ∧
      Progress succ s₀ (s.leave keep v) v fresh' [] := by
  by_cases hroot : s.low v = s.rank v
  · exact ⟨_, _, h.leave_root hroot⟩
  · obtain ⟨heq, hinv⟩ := h.leave_other hroot
    rw [heq]
    exact ⟨popped, fresh, hinv, h.progress⟩

end Leaving

/-! ## The recursion -/

def unseen (vertices : List V) (s : Search V) : ℕ := vertices.countP (fun x => x ∉ s.indices.keys)

theorem unseen_le {vertices : List V} {s s' : Search V}
    (h : ∀ x ∈ s.indices.keys, x ∈ s'.indices.keys) : unseen vertices s' ≤ unseen vertices s := by
  apply List.countP_mono_left
  intro x _ hx
  simp only [decide_eq_true_eq] at hx ⊢
  exact fun hold => hx (h x hold)

theorem unseen_enter_lt {vertices : List V} {s : Search V} {v : V} (hv : v ∈ vertices)
    (hnew : v ∉ s.indices.keys) : unseen vertices (s.enter v) < unseen vertices s := by
  have hkeys : ∀ x, x ∈ (s.enter v).indices.keys ↔ x ∈ s.indices.keys ∨ x = v :=
    fun x => mem_keys_set s.indices v x s.index
  refine countP_lt (fun x _ hx => ?_) hv ?_ ?_
  · simp only [decide_eq_true_eq] at hx ⊢
    exact fun hold => hx ((hkeys x).mpr (.inl hold))
  · simpa using (hkeys v).mpr (.inr rfl)
  · simpa using hnew

/-- What the search from a vertex is to do. -/
def Connects (succ : V → List V) (keep : List V → V → Bool) (vertices : List V) (depth : ℕ)
    (visit : V → Search V → Option (Search V)) : Prop :=
  ∀ v s active popped, v ∈ vertices → v ∉ s.indices.keys → unseen vertices s ≤ depth →
    Inv succ keep s active popped → (∀ a ∈ active, Reach succ a v) →
    ∃ s' popped' fresh, visit v s = some s' ∧ Inv succ keep s' active popped' ∧
      Progress succ s s' v fresh []

section Recursion
variable {vertices : List V} (hclosed : ∀ v ∈ vertices, ∀ w ∈ succ v, w ∈ vertices)
include hclosed

theorem visitSuccessors_ends {depth : ℕ} {visit : V → Search V → Option (Search V)}
    (hvisit : Connects succ keep vertices depth visit) {s₀ : Search V} {v : V} {active : List V}
    (hv : v ∈ vertices) (hnew : v ∉ s₀.indices.keys)
    (h₀ : ∃ popped₀, Inv succ keep s₀ active popped₀) (hway : ∀ a ∈ active, Reach succ a v)
    (ws : List V) (hws : ∀ w ∈ ws, w ∈ succ v) (s : Search V) (fresh : List V)
    (popped : List (List V × V)) (hs : Inv succ keep s (v :: active) popped)
    (hp : Progress succ s₀ s v fresh ws) (hf : v ∈ fresh) (hleft : unseen vertices s ≤ depth) :
    ∃ s' popped' fresh', visitSuccessors visit v ws s = some s' ∧
      Leaving succ keep s₀ s' v fresh' active popped' := by
  induction ws generalizing s fresh popped with
  | nil => exact ⟨s, popped, fresh, rfl, hs, hp, hf, h₀, hnew⟩
  | cons w ws ih =>
    obtain ⟨hedge, hws⟩ := List.forall_mem_cons.mp hws
    obtain ⟨popped₀, hinv₀⟩ := h₀
    unfold visitSuccessors
    by_cases hw : w ∉ s.indices.keys
    · have hway' : ∀ a ∈ v :: active, Reach succ a w := by
        intro a ha
        rcases List.mem_cons.mp ha with rfl | ha
        · exact .single hedge
        · exact (hway a ha).tail hedge
      obtain ⟨s₁, popped₁, fresh₁, hr, hs₁, hp₁⟩ :=
        hvisit w s (v :: active) popped (hclosed v hv w hedge) hw hleft hs hway'
      have hle : unseen vertices (s₁.lowerTo v (s₁.low w)) ≤ unseen vertices s :=
        unseen_le fun x hx => (hp₁.ranks x hx).1
      rw [if_pos hw, hr]
      exact ih hws _ _ popped₁ (hs₁.lowerTo v _) (hp.descend hinv₀ hs hnew hw hedge hp₁)
        (List.mem_append_right _ hf) (by omega)
    · rw [if_neg hw]
      have hin : w ∈ s.indices.keys := not_not.mp hw
      by_cases hstack : w ∈ s.onStack
      · rw [if_pos hstack]
        exact ih hws _ _ popped (hs.lowerTo v _)
          (hp.lower hinv₀ hnew hedge ((hs.onStack w).mp hstack) hin) hf hleft
      · rw [if_neg hstack]
        refine ih hws _ _ popped hs (hp.skip hin fun hold => hstack ((hs.onStack w).mpr ?_)) hf hleft
        rw [hp.stack]
        exact List.mem_append_right _ hold

theorem connects_strongConnect (depth : ℕ) :
    Connects succ keep vertices depth (strongConnect succ keep depth) := by
  induction depth with
  | zero =>
    intro v s active popped hv hnew hleft
    have hlt := unseen_enter_lt hv hnew
    omega
  | succ depth ih =>
    intro v s active popped hv hnew hleft hs hway
    have hlt := unseen_enter_lt hv hnew
    obtain ⟨s₁, popped₁, fresh₁, hr, hleaving⟩ := visitSuccessors_ends hclosed ih hv hnew
      ⟨popped, hs⟩ hway (succ v) (fun _ h => h) (s.enter v) [v] popped (hs.enter hnew hway)
      (Progress.enter hnew) List.mem_cons_self (by omega)
    obtain ⟨popped₂, fresh₂, hs₂, hp₂⟩ := hleaving.leave
    exact ⟨s₁.leave keep v, popped₂, fresh₂, by rw [strongConnect, hr], hs₂, hp₂⟩

omit [DecidableEq V] in
theorem reach_mem {v x : V} (hv : v ∈ vertices) (hway : Reach succ v x) : x ∈ vertices :=
  Digraph.closed_of_path (fun a b ha hedge => hclosed a ha b hedge) hway hv

theorem connectAll_ends {depth : ℕ} (ws : List V) (hws : ∀ w ∈ ws, w ∈ vertices) (s : Search V)
    (popped : List (List V × V)) (hs : Inv succ keep s [] popped)
    (hknown : ∀ x ∈ s.indices.keys, x ∈ vertices) (hleft : unseen vertices s ≤ depth) :
    ∃ s' popped', connectAll succ keep depth ws s = some s' ∧ Inv succ keep s' [] popped' ∧
      (∀ w ∈ ws, w ∈ s'.indices.keys) ∧ (∀ x ∈ s.indices.keys, x ∈ s'.indices.keys) ∧
      ∀ x ∈ s'.indices.keys, x ∈ vertices := by
  induction ws generalizing s popped with
  | nil => exact ⟨s, popped, rfl, hs, by simp, fun _ h => h, hknown⟩
  | cons w ws ih =>
    obtain ⟨hw, hws⟩ := List.forall_mem_cons.mp hws
    unfold connectAll
    by_cases hnew : w ∉ s.indices.keys
    · obtain ⟨s₁, popped₁, fresh₁, hr, hs₁, hp₁⟩ :=
        connects_strongConnect hclosed depth w s [] popped hw hnew hleft hs (by simp)
      have hle : unseen vertices s₁ ≤ unseen vertices s :=
        unseen_le fun x hx => (hp₁.ranks x hx).1
      have hknown₁ : ∀ x ∈ s₁.indices.keys, x ∈ vertices := fun x hx =>
        (hp₁.found x hx).elim (hknown x) (reach_mem hclosed hw)
      obtain ⟨s₂, popped₂, hr₂, hs₂, hall, hgrown, hknown₂⟩ :=
        ih hws s₁ popped₁ hs₁ hknown₁ (by omega)
      exact ⟨s₂, popped₂, by rw [if_pos hnew, hr]; exact hr₂, hs₂,
        List.forall_mem_cons.mpr ⟨hgrown w hp₁.entered.1, hall⟩,
        fun x hx => hgrown x (hp₁.ranks x hx).1, hknown₂⟩
    · obtain ⟨s₂, popped₂, hr₂, hs₂, hall, hgrown, hknown₂⟩ := ih hws s popped hs hknown hleft
      exact ⟨s₂, popped₂, by rw [if_neg hnew]; exact hr₂, hs₂,
        List.forall_mem_cons.mpr ⟨hgrown w (not_not.mp hnew), hall⟩, hgrown, hknown₂⟩

/-- The search ends, and what it reports are the components of the vertices that `keep` keeps. -/
theorem components_eq : ∃ popped : List (List V × V),
    components succ keep vertices =
      some ((popped.filter (fun p => keep p.1 p.2)).map Prod.fst) ∧
    (∀ p ∈ popped, p.2 ∈ vertices ∧ p.1.Nodup ∧ ∀ x, x ∈ p.1 ↔ Mutual succ p.2 x) ∧
    (popped.Pairwise fun p q => ∀ x ∈ p.1, x ∉ q.1) ∧
    ∀ v ∈ vertices, ∃ p ∈ popped, v ∈ p.1 := by
  have hleft : unseen vertices (Search.start : Search V) ≤ vertices.length+1 :=
    List.countP_le_length.trans (Nat.le_succ _)
  have hstart : Inv succ keep Search.start [] [] := Inv.start
  obtain ⟨s, popped, hr, hs, hall, -, hknown⟩ := connectAll_ends hclosed vertices
    (fun _ h => h) .start [] hstart (by simp [Search.start]) hleft
  refine ⟨popped, by rw [components, hr, ← hs.emitted]; rfl, fun p hp => ⟨?_, hs.components p hp⟩,
    hs.separate, fun v hv => ?_⟩
  · have hroot := ((hs.components p hp).2 p.2).mpr (.refl _ _)
    exact hknown p.2 ((hs.seen p.2).mpr (.inr ⟨p, hp, hroot⟩))
  rcases (hs.seen v).mp (hall v hv) with hstack | hfin
  · obtain ⟨a, ha, -⟩ := hs.returns v hstack
    cases ha
  · exact hfin

end Recursion

end Invariant
end LuaRecovery.Lib.Components
