import Mathlib.Data.List.Nodup

/-!
# Lists with one entry replaced or added, and counts
-/

set_option autoImplicit false

namespace LuaRecovery.Lib
variable {α : Type} {l : List α} {i j : ℕ} {a b old : α}

theorem forall_set {P : α → Prop} (hall : ∀ a ∈ l, P a) (ha : P a) (i : ℕ) :
    ∀ b ∈ l.set i a, P b := by
  intro b hb
  rcases List.mem_or_eq_of_mem_set hb with hb | rfl
  · exact hall b hb
  · exact ha

theorem mem_set_of_ne (hget : l[i]? = some old) (hb : b ∈ l) (hne : b ≠ old) : b ∈ l.set i a := by
  obtain ⟨j, hj⟩ := List.mem_iff_getElem?.mp hb
  have hij : i ≠ j := by
    rintro rfl
    exact hne (Option.some.inj (hj.symm.trans hget))
  exact List.mem_iff_getElem?.mpr ⟨j, by rw [List.getElem?_set_ne hij, hj]⟩

theorem getElem?_set_eq_some (h : (l.set i a)[j]? = some b) :
    (i = j ∧ b = a) ∨ (i ≠ j ∧ l[j]? = some b) := by
  by_cases hij : i = j
  · subst hij
    rw [List.getElem?_set_self'] at h
    obtain ⟨_, -, hab⟩ := Option.map_eq_some_iff.mp h
    exact .inl ⟨rfl, hab.symm⟩
  · rw [List.getElem?_set_ne hij] at h
    exact .inr ⟨hij, h⟩

theorem getElem?_concat_eq_some (h : (l ++ [a])[j]? = some b) : l[j]? = some b ∨ b = a := by
  rw [List.getElem?_append] at h
  split at h
  · exact .inl h
  · exact .inr (List.mem_singleton.mp (List.mem_of_getElem? h))

/-- The last occurrence of an entry splits a list in one way. -/
theorem append_cons_inj_right {xs xs' ys ys' : List α} (hy : a ∉ ys) (hy' : a ∉ ys')
    (h : xs ++ a :: ys = xs' ++ a :: ys') : xs = xs' ∧ ys = ys' := by
  induction xs generalizing xs' with
  | nil =>
    cases xs' with
    | nil => exact ⟨rfl, (List.cons.inj h).2⟩
    | cons x xs' =>
      have htail : ys = xs' ++ a :: ys' := (List.cons.inj h).2
      exact absurd (htail ▸ List.mem_append_right xs' List.mem_cons_self) hy
  | cons x xs ih =>
    cases xs' with
    | nil =>
      have htail : xs ++ a :: ys = ys' := (List.cons.inj h).2
      exact absurd (htail ▸ List.mem_append_right xs List.mem_cons_self) hy'
    | cons x' xs' =>
      obtain ⟨rfl, htail⟩ := List.cons.inj h
      obtain ⟨rfl, rfl⟩ := ih htail
      exact ⟨rfl, rfl⟩

theorem countP_lt {p q : α → Bool} (h : ∀ x ∈ l, p x = true → q x = true)
    {x : α} (hx : x ∈ l) (hp : p x = false) (hq : q x = true) : l.countP p < l.countP q := by
  induction l with
  | nil => cases hx
  | cons y l ih =>
    obtain ⟨hy, hl⟩ := List.forall_mem_cons.mp h
    have hle := List.countP_mono_left hl
    rcases List.mem_cons.mp hx with rfl | hx
    · rw [List.countP_cons_of_neg (by simp [hp]), List.countP_cons_of_pos hq]
      omega
    · have hlt := ih hl hx
      rw [List.countP_cons, List.countP_cons]
      by_cases hpy : p y = true
      · simp [hpy, hy hpy, hlt]
      · have hnot : ¬ p y = true := hpy
        simp only [hnot]
        by_cases hqy : q y = true <;> simp [hqy] <;> omega

theorem one_lt_length_iff (hl : l.Nodup) (ha : a ∈ l) : 1 < l.length ↔ ∃ b ∈ l, b ≠ a := by
  match l with
  | [] => cases ha
  | [x] =>
    obtain rfl := List.mem_singleton.mp ha
    simp
  | x :: y :: rest =>
    have hxy : x ≠ y := fun h => (List.nodup_cons.mp hl).1 (h ▸ List.mem_cons_self)
    refine iff_of_true (by simp) ?_
    by_cases hx : x = a
    · exact ⟨y, by simp, hx ▸ hxy.symm⟩
    · exact ⟨x, by simp, hx⟩

section Sets
variable [DecidableEq α]

/-- `add` of a set that keeps the order of insertion. -/
def insertLast (l : List α) (a : α) : List α := if a ∈ l then l else l ++ [a]

theorem mem_insertLast : b ∈ insertLast l a ↔ b ∈ l ∨ b = a := by
  unfold insertLast
  split
  · constructor
    · exact .inl
    · rintro (h | rfl)
      · exact h
      · assumption
  · simp

theorem nodup_insertLast (h : l.Nodup) (a : α) : (insertLast l a).Nodup := by
  unfold insertLast
  split
  · exact h
  · rename_i ha
    simpa using h.concat ha

end Sets

end LuaRecovery.Lib
