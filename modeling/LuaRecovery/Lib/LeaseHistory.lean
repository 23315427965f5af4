import Mathlib.Logic.Function.Basic
import Mathlib.Data.List.Nodup
import Mathlib.Data.List.Basic
import Mathlib.Data.List.Induction

/-!
# Leases as a log of grants and ends

A grant replaces whatever lease its key had. When no token is granted twice, a
token is the current one of at most one key, and only until the next entry for
that key.
-/

set_option autoImplicit false

namespace LuaRecovery.Lib

inductive LeaseEvent (K T : Type) where
  | granted (key : K) (token : T)
  | ended (key : K)
  deriving DecidableEq

namespace LeaseEvent
variable {K T : Type}

def key : LeaseEvent K T → K
  | .granted k _ => k
  | .ended k => k

def token : LeaseEvent K T → Option T
  | .granted _ t => some t
  | .ended _ => none

variable [DecidableEq K]

def holderStep (h : K → Option T) (e : LeaseEvent K T) : K → Option T :=
  Function.update h e.key e.token

/-- The token of the lease that each key has after the log. -/
def holder (log : List (LeaseEvent K T)) : K → Option T :=
  log.foldl holderStep (fun _ => none)

def tokens (log : List (LeaseEvent K T)) : List T := log.filterMap token

@[simp] theorem holder_nil (k : K) : holder ([] : List (LeaseEvent K T)) k = none := rfl

theorem holder_append_singleton (log : List (LeaseEvent K T)) (e : LeaseEvent K T) :
    holder (log ++ [e]) = Function.update (holder log) e.key e.token := by
  simp [holder, holderStep]

theorem holder_append_of_ne (log rest : List (LeaseEvent K T)) (k : K)
    (h : ∀ e ∈ rest, e.key ≠ k) : holder (log ++ rest) k = holder log k := by
  induction rest using List.reverseRecOn with
  | nil => simp
  | append_singleton rest e ih =>
    have hne : k ≠ e.key := fun hk => h e (by simp) hk.symm
    rw [← List.append_assoc, holder_append_singleton, Function.update_of_ne hne]
    exact ih (fun e' he' => h e' (by simp [he']))

theorem holder_eq_some_iff (log : List (LeaseEvent K T)) (k : K) (t : T) :
    holder log k = some t ↔
      ∃ a b, log = a ++ .granted k t :: b ∧ ∀ e ∈ b, e.key ≠ k := by
  constructor
  · induction log using List.reverseRecOn with
    | nil => simp
    | append_singleton log e ih =>
      intro h
      rw [holder_append_singleton] at h
      by_cases hk : k = e.key
      · subst hk
        rw [Function.update_self] at h
        cases e with
        | granted k' t' =>
          refine ⟨log, [], ?_, by simp⟩
          simpa [key, token] using h
        | ended k' => simp [token] at h
      · rw [Function.update_of_ne hk] at h
        obtain ⟨a, b, hlog, hb⟩ := ih h
        refine ⟨a, b ++ [e], by simp [hlog], ?_⟩
        intro e' he'
        rcases List.mem_append.mp he' with hmem | hmem
        · exact hb e' hmem
        · rw [List.mem_singleton.mp hmem]
          exact fun h' => hk h'.symm
  · rintro ⟨a, b, rfl, hb⟩
    have happ : a ++ .granted k t :: b = (a ++ [.granted k t]) ++ b := by simp
    rw [happ, holder_append_of_ne _ b k hb, holder_append_singleton]
    simp [key, token]

omit [DecidableEq K] in
theorem token_mem_tokens {log : List (LeaseEvent K T)} {k : K} {t : T}
    (h : .granted k t ∈ log) : t ∈ tokens log :=
  List.mem_filterMap.mpr ⟨_, h, rfl⟩

omit [DecidableEq K] in
/-- Around the one grant of a token no other grant carries it. -/
theorem granted_notMem {a b : List (LeaseEvent K T)} {k : K} {t : T}
    (hn : (tokens (a ++ .granted k t :: b)).Nodup) (k' : K) :
    .granted k' t ∉ a ∧ .granted k' t ∉ b := by
  have ht : tokens (a ++ .granted k t :: b) = tokens a ++ t :: tokens b := by
    simp [tokens, token]
  rw [ht, List.nodup_middle, List.nodup_cons] at hn
  constructor
  · intro h
    exact hn.1 (List.mem_append_left _ (token_mem_tokens h))
  · intro h
    exact hn.1 (List.mem_append_right _ (token_mem_tokens h))

/-- A token that is current belongs to the key it was granted for, and nothing happened to
that key since. -/
theorem holder_of_granted {a b : List (LeaseEvent K T)} {k k' : K} {t : T}
    (hn : (tokens (a ++ .granted k t :: b)).Nodup)
    (hk : holder (a ++ .granted k t :: b) k' = some t) : k' = k ∧ ∀ e ∈ b, e.key ≠ k := by
  obtain ⟨a', b', hlog, hb'⟩ := (holder_eq_some_iff _ _ _).mp hk
  obtain ⟨hna, hnb⟩ := granted_notMem hn k'
  obtain ⟨_, hgrant, rfl⟩ := (List.append_cons_inj_of_notMem hna hnb).mp hlog
  have hkk : k = k' := (LeaseEvent.granted.inj hgrant).1
  exact ⟨hkk.symm, hkk ▸ hb'⟩

end LeaseEvent
end LuaRecovery.Lib
