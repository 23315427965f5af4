import Mathlib.Data.List.Forall2

/-!
# Traversals with a state

A loop over a list that threads a state, hands out one value for each element
and can stop with an error. Where the error of an element does not depend on the
state, the first one in the list decides the loop's.
-/

set_option autoImplicit false

namespace LuaRecovery.Lib
variable {σ α β ε : Type}

def traverse (f : σ → α → Except ε (β × σ)) : σ → List α → Except ε (List β × σ)
  | s, [] => .ok ([], s)
  | s, a::l =>
      match f s a with
      | .error e => .error e
      | .ok r =>
          match traverse f r.2 l with
          | .error e => .error e
          | .ok rest => .ok (r.1::rest.1, rest.2)

theorem traverse_cons_ok {f : σ → α → Except ε (β × σ)} {s : σ} {a : α} {l : List α}
    {out : List β × σ} (h : traverse f s (a::l) = .ok out) :
    ∃ r rest, f s a = .ok r ∧ traverse f r.2 l = .ok rest ∧ out = (r.1::rest.1, rest.2) := by
  rw [traverse] at h
  split at h
  · exact nomatch h
  · rename_i r hr
    split at h
    · exact nomatch h
    · rename_i rest hrest
      exact ⟨r, rest, hr, hrest, (Except.ok.inj h).symm⟩

/-- The loop stops with the error of the first element that has one. -/
theorem traverse_eq_error_iff {f : σ → α → Except ε (β × σ)} {fails : α → Option ε}
    (hf : ∀ s a e, f s a = .error e ↔ fails a = some e) (s : σ) (l : List α) (e : ε) :
    traverse f s l = .error e ↔ l.findSome? fails = some e := by
  induction l generalizing s with
  | nil => simp [traverse]
  | cons a l ih =>
    rw [traverse, List.findSome?_cons]
    cases ha : fails a with
    | some e' => simp [(hf s a e').mpr ha]
    | none =>
      cases hr : f s a with
      | error e' => simp [(hf s a e').mp hr] at ha
      | ok r =>
        dsimp only
        rw [← ih r.2]
        cases htail : traverse f r.2 l with
        | error e' => simp
        | ok rest => simp

theorem forall₂_exists_right {R : α → β → Prop} {l : List α} {m : List β}
    (h : List.Forall₂ R l m) {a : α} (ha : a ∈ l) : ∃ b ∈ m, R a b := by
  induction h with
  | nil => simp at ha
  | cons hr _ ih =>
    rcases List.mem_cons.mp ha with rfl | ha
    · exact ⟨_, by simp, hr⟩
    · obtain ⟨b, hb, hab⟩ := ih ha
      exact ⟨b, by simp [hb], hab⟩

theorem forall₂_exists_left {R : α → β → Prop} {l : List α} {m : List β}
    (h : List.Forall₂ R l m) {b : β} (hb : b ∈ m) : ∃ a ∈ l, R a b :=
  forall₂_exists_right h.flip hb

/-- What holds of each element and the value handed out for it. -/
theorem traverse_forall₂ {f : σ → α → Except ε (β × σ)} {R : α → β → Prop}
    (hf : ∀ s a r, f s a = .ok r → R a r.1) {s : σ} {l : List α} {out : List β × σ}
    (h : traverse f s l = .ok out) : List.Forall₂ R l out.1 := by
  induction l generalizing s out with
  | nil =>
    cases h
    exact .nil
  | cons a l ih =>
    obtain ⟨r, rest, hr, hrest, rfl⟩ := traverse_cons_ok h
    exact .cons (hf s a r hr) (ih hrest)

/-- What holds of a state and the values still to be handed out from it. -/
theorem traverse_induction {f : σ → α → Except ε (β × σ)} {P : σ → List β → Prop}
    (nil : ∀ s, P s []) (cons : ∀ s a r rest, f s a = .ok r → P r.2 rest → P s (r.1::rest))
    {s : σ} {l : List α} {out : List β × σ} (h : traverse f s l = .ok out) : P s out.1 := by
  induction l generalizing s out with
  | nil =>
    cases h
    exact nil s
  | cons a l ih =>
    obtain ⟨r, rest, hr, hrest, rfl⟩ := traverse_cons_ok h
    exact cons s a r rest.1 hr (ih hrest)

/-- What every round keeps of the state, and what then holds of the values. -/
theorem traverse_keeps {f : σ → α → Except ε (β × σ)} {P : σ → Prop} {Q : β → Prop}
    (hf : ∀ s a r, P s → f s a = .ok r → Q r.1 ∧ P r.2) {s : σ} {l : List α} {out : List β × σ}
    (hs : P s) (h : traverse f s l = .ok out) : (∀ b ∈ out.1, Q b) ∧ P out.2 := by
  induction l generalizing s out with
  | nil =>
    cases h
    exact ⟨nofun, hs⟩
  | cons a l ih =>
    obtain ⟨r, rest, hr, hrest, rfl⟩ := traverse_cons_ok h
    obtain ⟨hvalue, hstate⟩ := hf s a r hs hr
    obtain ⟨hvalues, hend⟩ := ih hstate hrest
    exact ⟨List.forall_mem_cons.mpr ⟨hvalue, hvalues⟩, hend⟩

end LuaRecovery.Lib
