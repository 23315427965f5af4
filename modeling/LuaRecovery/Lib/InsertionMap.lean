import Mathlib.Data.List.Nodup
import Mathlib.Data.List.Basic

/-!
# Maps that remember their insertion order

Setting a key that is present keeps its place; a new key goes last. Iteration
follows the entries.
-/

set_option autoImplicit false

namespace LuaRecovery.Lib

structure InsertionMap (K V : Type) where
  entries : List (K × V)
  nodup : (entries.map Prod.fst).Nodup

namespace InsertionMap
variable {K V : Type}

def empty : InsertionMap K V := ⟨[], List.nodup_nil⟩

def keys (m : InsertionMap K V) : List K := m.entries.map Prod.fst

def size (m : InsertionMap K V) : ℕ := m.entries.length

theorem nodup_keys (m : InsertionMap K V) : m.keys.Nodup := m.nodup

theorem length_keys (m : InsertionMap K V) : m.keys.length = m.size := by
  simp [keys, size]

@[simp] theorem keys_empty : (empty : InsertionMap K V).keys = [] := rfl

@[simp] theorem size_empty : (empty : InsertionMap K V).size = 0 := rfl

variable [DecidableEq K]

def get (m : InsertionMap K V) (k : K) : Option V := m.entries.lookup k

theorem keys_replaced (l : List (K × V)) (k : K) (v : V) :
    (l.map (fun e => if e.1 = k then (k, v) else e)).map Prod.fst = l.map Prod.fst := by
  rw [List.map_map]
  apply List.map_congr_left
  intro e _
  by_cases h : e.1 = k <;> simp [h]

omit [DecidableEq K] in
theorem nodup_appended (l : List (K × V)) (k : K) (v : V) (hl : (l.map Prod.fst).Nodup)
    (hk : k ∉ l.map Prod.fst) : ((l ++ [(k, v)]).map Prod.fst).Nodup := by
  simpa using List.Nodup.concat hk hl

def set (m : InsertionMap K V) (k : K) (v : V) : InsertionMap K V :=
  if h : k ∈ m.keys then
    ⟨m.entries.map (fun e => if e.1 = k then (k, v) else e), by
      rw [keys_replaced]; exact m.nodup⟩
  else ⟨m.entries ++ [(k, v)], nodup_appended m.entries k v m.nodup h⟩

def delete (m : InsertionMap K V) (k : K) : InsertionMap K V :=
  ⟨m.entries.filter (fun e => e.1 ≠ k), m.nodup.sublist (List.filter_sublist.map _)⟩

@[simp] theorem get_empty (k : K) : (empty : InsertionMap K V).get k = none := rfl

theorem lookup_eq_some_iff (l : List (K × V)) (hl : (l.map Prod.fst).Nodup) (k : K) (v : V) :
    l.lookup k = some v ↔ (k, v) ∈ l := by
  induction l with
  | nil => simp
  | cons e l ih =>
    obtain ⟨a, b⟩ := e
    simp only [List.map_cons, List.nodup_cons] at hl
    by_cases h : k = a
    · subst h
      have hn : (k, v) ∉ l := fun hm => hl.1 (List.mem_map.mpr ⟨_, hm, rfl⟩)
      simp [hn, eq_comm]
    · have hb : (k == a) = false := by simpa using h
      simp [List.lookup_cons, hb, ih hl.2, h]

theorem get_eq_some_iff (m : InsertionMap K V) (k : K) (v : V) :
    m.get k = some v ↔ (k, v) ∈ m.entries := lookup_eq_some_iff m.entries m.nodup k v

theorem mem_keys_iff (m : InsertionMap K V) (k : K) : k ∈ m.keys ↔ ∃ v, m.get k = some v := by
  simp [keys, get_eq_some_iff]

theorem get_eq_none_iff (m : InsertionMap K V) (k : K) : m.get k = none ↔ k ∉ m.keys := by
  rw [mem_keys_iff, Option.eq_none_iff_forall_ne_some]
  simp

theorem get_set_self (m : InsertionMap K V) (k : K) (v : V) : (m.set k v).get k = some v := by
  rw [get_eq_some_iff, set]
  split
  next h =>
    obtain ⟨e, he, hk⟩ := List.mem_map.mp h
    exact List.mem_map.mpr ⟨e, he, by simp [hk]⟩
  next => simp

theorem get_set_ne (m : InsertionMap K V) {k a : K} (v : V) (h : a ≠ k) :
    (m.set k v).get a = m.get a := by
  ext b
  rw [get_eq_some_iff, get_eq_some_iff, set]
  split
  next =>
    constructor
    · intro hm
      obtain ⟨e, he, hk⟩ := List.mem_map.mp hm
      by_cases hek : e.1 = k
      · simp only [hek, if_true, Prod.mk.injEq] at hk
        exact absurd hk.1.symm h
      · rw [if_neg hek] at hk
        exact hk ▸ he
    · intro hm
      exact List.mem_map.mpr ⟨_, hm, by simp [h]⟩
  next => simp [h]

theorem get_set (m : InsertionMap K V) (k : K) (v : V) (a : K) :
    (m.set k v).get a = if a = k then some v else m.get a := by
  by_cases h : a = k
  · subst h
    simp [get_set_self]
  · simp [get_set_ne m v h, h]

omit [DecidableEq K] in
theorem eq_of_entries {m m' : InsertionMap K V} (h : m.entries = m'.entries) : m = m' := by
  cases m
  cases m'
  cases h
  rfl

theorem set_of_get (m : InsertionMap K V) {k : K} {v : V} (h : m.get k = some v) :
    m.set k v = m := by
  have hmem : (k, v) ∈ m.entries := (get_eq_some_iff m k v).mp h
  have hsame : m.entries.map (fun e => if e.1 = k then (k, v) else e) = m.entries := by
    rw [List.map_congr_left (g := id), List.map_id]
    intro e he
    by_cases hk : e.1 = k
    · rw [if_pos hk]
      exact (List.inj_on_of_nodup_map m.nodup he hmem hk).symm
    · exact if_neg hk
  apply eq_of_entries
  rw [set, dif_pos ((mem_keys_iff m k).mpr ⟨v, h⟩)]
  exact hsame

/-- Of the entries set one after another, the last one of a key counts. -/
theorem get_foldl_set (m : InsertionMap K V) (l : List (K × V)) (k : K) :
    (l.foldl (fun m e => m.set e.1 e.2) m).get k = (l.reverse.lookup k).or (m.get k) := by
  induction l generalizing m with
  | nil => rfl
  | cons e l ih =>
    obtain ⟨a, v⟩ := e
    have hsingle : [(a, v)].lookup k = if k = a then some v else none := by
      rw [List.lookup_cons, List.lookup_nil]
      by_cases h : k = a
      · simp [h]
      · simp [h, beq_false_of_ne h]
    rw [List.foldl_cons, ih, List.reverse_cons, List.lookup_append, Option.or_assoc, get_set,
      hsingle]
    by_cases h : k = a <;> simp [h]

theorem get_delete_self (m : InsertionMap K V) (k : K) : (m.delete k).get k = none := by
  rw [get_eq_none_iff]
  simp [keys, delete]

theorem get_delete_ne (m : InsertionMap K V) {k a : K} (h : a ≠ k) :
    (m.delete k).get a = m.get a := by
  ext b
  rw [get_eq_some_iff, get_eq_some_iff]
  simp [delete, h]

theorem get_delete (m : InsertionMap K V) (k a : K) :
    (m.delete k).get a = if a = k then none else m.get a := by
  by_cases h : a = k
  · subst h
    simp [get_delete_self]
  · simp [get_delete_ne m h, h]

theorem keys_set_of_mem (m : InsertionMap K V) {k : K} (v : V) (h : k ∈ m.keys) :
    (m.set k v).keys = m.keys := by
  rw [set, dif_pos h]
  exact keys_replaced m.entries k v

theorem keys_set_of_notMem (m : InsertionMap K V) {k : K} (v : V) (h : k ∉ m.keys) :
    (m.set k v).keys = m.keys ++ [k] := by
  rw [set, dif_neg h]
  simp [keys]

theorem entries_set_of_notMem (m : InsertionMap K V) {k : K} (v : V) (h : k ∉ m.keys) :
    (m.set k v).entries = m.entries ++ [(k, v)] := by
  rw [set, dif_neg h]

/-- Setting the keys of another map, each to a value made of its own. -/
theorem entries_foldl_set {W : Type} (f : W → V) (l : List (K × W)) (hl : (l.map Prod.fst).Nodup)
    (m : InsertionMap K V) (hm : ∀ e ∈ l, e.1 ∉ m.keys) :
    (l.foldl (fun m e => m.set e.1 (f e.2)) m).entries =
      m.entries ++ l.map (fun e => (e.1, f e.2)) := by
  induction l generalizing m with
  | nil => simp
  | cons e l ih =>
    rw [List.map_cons, List.nodup_cons] at hl
    obtain ⟨hnew, hrest⟩ := List.forall_mem_cons.mp hm
    have hfresh : ∀ e' ∈ l, e'.1 ∉ (m.set e.1 (f e.2)).keys := by
      intro e' he'
      rw [keys_set_of_notMem m _ hnew, List.mem_append, List.mem_singleton]
      rintro (h | h)
      · exact hrest e' he' h
      · exact hl.1 (List.mem_map.mpr ⟨e', he', h⟩)
    rw [List.foldl_cons, ih hl.2 _ hfresh, entries_set_of_notMem m _ hnew]
    simp

theorem size_set_of_notMem (m : InsertionMap K V) {k : K} (v : V) (h : k ∉ m.keys) :
    (m.set k v).size = m.size+1 := by
  rw [← length_keys, ← length_keys, keys_set_of_notMem m v h]
  simp

theorem size_set_of_mem (m : InsertionMap K V) {k : K} (v : V) (h : k ∈ m.keys) :
    (m.set k v).size = m.size := by
  rw [← length_keys, ← length_keys, keys_set_of_mem m v h]

theorem keys_delete (m : InsertionMap K V) (k : K) : (m.delete k).keys = m.keys.erase k := by
  rw [m.nodup_keys.erase_eq_filter]
  simp only [keys, delete, List.filter_map]
  congr 1
  apply List.filter_congr
  intro e _
  by_cases h : e.1 = k <;> simp [h]

theorem size_delete_of_mem (m : InsertionMap K V) {k : K} (h : k ∈ m.keys) :
    (m.delete k).size+1 = m.size := by
  have hlen := List.length_erase_of_mem h
  have hpos := List.length_pos_of_mem h
  rw [← keys_delete, length_keys] at hlen
  rw [length_keys] at hlen hpos
  omega

theorem size_delete_le (m : InsertionMap K V) (k : K) : (m.delete k).size ≤ m.size :=
  List.length_filter_le _ _

theorem delete_of_notMem (m : InsertionMap K V) {k : K} (h : k ∉ m.keys) : m.delete k = m := by
  have he : m.entries.filter (fun e => e.1 ≠ k) = m.entries := by
    apply List.filter_eq_self.mpr
    intro e hm
    have hk : e.1 ≠ k := fun hek => h (hek ▸ List.mem_map.mpr ⟨e, hm, rfl⟩)
    simpa using hk
  cases m
  simpa [delete] using he

theorem get_foldl_delete (p : V → Bool) (l : List (K × V)) (hl : (l.map Prod.fst).Nodup)
    (m : InsertionMap K V) (k : K) :
    (l.foldl (fun m e => if p e.2 then m.delete e.1 else m) m).get k =
      if (l.lookup k).any p then none else m.get k := by
  induction l generalizing m with
  | nil => rfl
  | cons e l ih =>
    obtain ⟨a, b⟩ := e
    rw [List.map_cons, List.nodup_cons] at hl
    rw [List.foldl_cons, ih hl.2, List.lookup_cons]
    by_cases h : k = a
    · subst h
      have hn : l.lookup k = none := by
        rw [List.lookup_eq_none_iff]
        intro e he
        simpa using fun heq => hl.1 (List.mem_map.mpr ⟨e, he, heq.symm⟩)
      by_cases hp : p b = true <;> simp [hn, hp, get_delete_self]
    · by_cases hp : p b = true <;> simp [beq_eq_false_iff_ne.mpr h, hp, get_delete_ne m h]

/-- A pass over the entries that deletes those with a property. -/
theorem get_foldl_entries (m : InsertionMap K V) (p : V → Bool) (k : K) :
    (m.entries.foldl (fun m e => if p e.2 then m.delete e.1 else m) m).get k =
      (m.get k).filter (fun v => !p v) := by
  rw [get_foldl_delete p m.entries m.nodup_keys m k]
  show (if (m.get k).any p then none else m.get k) = _
  cases m.get k with
  | none => rfl
  | some v => by_cases hp : p v = true <;> simp [hp, Option.filter]

/-- One entry more, which counts or not. -/
theorem countP_set_of_none (m : InsertionMap K V) (p : K × V → Bool) {k : K} (v : V)
    (h : m.get k = none) :
    (m.set k v).entries.countP p = m.entries.countP p + if p (k, v) then 1 else 0 := by
  rw [entries_set_of_notMem m v ((get_eq_none_iff m k).mp h), List.countP_append,
    List.countP_singleton]

theorem countP_replaced (p : K × V → Bool) (l : List (K × V)) (hl : (l.map Prod.fst).Nodup) {k : K}
    {w : V} (v : V) (h : (k, w) ∈ l) :
    (l.map (fun e => if e.1 = k then (k, v) else e)).countP p + (if p (k, w) then 1 else 0) =
      l.countP p + if p (k, v) then 1 else 0 := by
  induction l with
  | nil => cases h
  | cons e l ih =>
    rw [List.map_cons, List.nodup_cons] at hl
    rw [List.map_cons, List.countP_cons, List.countP_cons]
    by_cases hk : e.1 = k
    · have hrest : l.map (fun e => if e.1 = k then (k, v) else e) = l := by
        rw [List.map_congr_left (g := id), List.map_id]
        intro e' he'
        apply if_neg
        intro hk'
        exact hl.1 (hk.trans hk'.symm ▸ List.mem_map_of_mem he')
      have he : e = (k, w) := by
        rcases List.mem_cons.mp h with heq | hmem
        · exact heq.symm
        · exact absurd (List.mem_map_of_mem hmem) (hk ▸ hl.1)
      rw [hrest, if_pos hk, he]
      omega
    · have hmem : (k, w) ∈ l := by
        rcases List.mem_cons.mp h with heq | hmem
        · exact absurd (congrArg Prod.fst heq).symm hk
        · exact hmem
      have := ih hl.2 hmem
      rw [if_neg hk]
      omega

/-- One entry in the place of another. -/
theorem countP_set_of_some (m : InsertionMap K V) (p : K × V → Bool) {k : K} {w : V} (v : V)
    (h : m.get k = some w) :
    (m.set k v).entries.countP p + (if p (k, w) then 1 else 0) =
      m.entries.countP p + if p (k, v) then 1 else 0 := by
  have hmem : (k, w) ∈ m.entries := (get_eq_some_iff m k w).mp h
  rw [set, dif_pos ((mem_keys_iff m k).mpr ⟨w, h⟩)]
  exact countP_replaced p m.entries m.nodup v hmem

end InsertionMap
end LuaRecovery.Lib
