import Mathlib.Data.List.Induction

/-!
# What holds at each entry of a history

An entry is judged by the entries before it.
-/

set_option autoImplicit false

namespace LuaRecovery.Lib
variable {α : Type} {p : List α → α → Prop} {l : List α} {a : α}

/-- The entry and what comes before it are related, at each place of the list. -/
def AtEach (p : List α → α → Prop) (l : List α) : Prop :=
  ∀ before a after, l = before ++ a :: after → p before a

theorem atEach_nil : AtEach p [] := by
  intro before a after h
  cases before with
  | nil => cases h
  | cons b before => cases h

theorem AtEach.snoc (h : AtEach p l) (ha : p l a) : AtEach p (l ++ [a]) := by
  intro before b after hsplit
  induction after using List.reverseRecOn with
  | nil =>
    obtain ⟨rfl, hb⟩ := List.append_inj' hsplit rfl
    obtain rfl := (List.cons.inj hb).1
    exact ha
  | append_singleton after last ih =>
    rw [← List.cons_append, ← List.append_assoc] at hsplit
    exact h before b after (List.append_inj' hsplit rfl).1

theorem AtEach.take {rest : List α} (h : AtEach p (l ++ rest)) : AtEach p l := by
  intro before b after hsplit
  apply h before b (after ++ rest)
  rw [hsplit, List.append_assoc, List.cons_append]

theorem AtEach.last (h : AtEach p (l ++ [a])) : p l a := h l a [] rfl

end LuaRecovery.Lib
