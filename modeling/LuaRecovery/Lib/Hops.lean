import LuaRecovery.Lib.Histories
import Mathlib.Data.List.Basic
import Mathlib.Data.Nat.Notation

/-!
# Hops

A call settles, with a request or without one, or it makes a request and goes
on with another call. What it does may depend on all requests made before, so
the answers can be those of an adversary.
-/

set_option autoImplicit false

namespace LuaRecovery.Lib

inductive Turn (R C O : Type) where
  | settled (outcome : O)
  | answered (request : R) (outcome : O)
  | onward (request : R) (call : C)

inductive Phase (C O : Type) where
  | calling (call : C)
  | settled (outcome : O)

structure Journey (R C O : Type) where
  requests : List R
  phase : Phase C O

namespace Journey
variable {R C O : Type} (turn : List R → C → Turn R C O)

def start (call : C) : Journey R C O := ⟨[], .calling call⟩

def step (j : Journey R C O) : Journey R C O :=
  match j.phase with
  | .settled _ => j
  | .calling call =>
      match turn j.requests call with
      | .settled outcome => ⟨j.requests, .settled outcome⟩
      | .answered request outcome => ⟨j.requests ++ [request], .settled outcome⟩
      | .onward request next => ⟨j.requests ++ [request], .calling next⟩

def run : ℕ → Journey R C O → Journey R C O
  | 0, j => j
  | n+1, j => run n (step turn j)

def IsSettled (j : Journey R C O) : Prop := ∃ outcome, j.phase = .settled outcome

/-- The call makes the request, whatever comes of it. -/
def Asks (log : List R) (call : C) (r : R) : Prop :=
  (∃ outcome, turn log call = .answered r outcome) ∨ ∃ next, turn log call = .onward r next

/-- The requests that a call leads to, one after the other. -/
def IsRoute : List R → C → List R → Prop
  | _, _, [] => True
  | log, call, r::rest =>
      ((∃ outcome, turn log call = .answered r outcome) ∧ rest = []) ∨
        ∃ next, turn log call = .onward r next ∧ IsRoute (log ++ [r]) next rest

variable {turn}

section Steps
variable {log : List R} {call : C}

theorem step_settled {outcome : O} (h : turn log call = .settled outcome) :
    step turn ⟨log, .calling call⟩ = ⟨log, .settled outcome⟩ := by
  rw [step]
  simp only [h]

theorem step_answered {r : R} {outcome : O} (h : turn log call = .answered r outcome) :
    step turn ⟨log, .calling call⟩ = ⟨log ++ [r], .settled outcome⟩ := by
  rw [step]
  simp only [h]

theorem step_onward {r : R} {next : C} (h : turn log call = .onward r next) :
    step turn ⟨log, .calling call⟩ = ⟨log ++ [r], .calling next⟩ := by
  rw [step]
  simp only [h]

end Steps

theorem run_settled (n : ℕ) (log : List R) (outcome : O) :
    run turn n ⟨log, .settled outcome⟩ = ⟨log, .settled outcome⟩ := by
  induction n with
  | zero => rfl
  | succ n ih => rw [run, step, ih]

theorem run_route {log route : List R} {call : C} (h : IsRoute turn log call route) :
    (run turn route.length ⟨log, .calling call⟩).requests = log ++ route := by
  induction route generalizing log call with
  | nil => rw [List.length_nil, run, List.append_nil]
  | cons r rest ih =>
    rw [List.length_cons, run]
    rcases h with ⟨⟨outcome, hturn⟩, rfl⟩ | ⟨next, hturn, hrest⟩
    · rw [step_answered hturn, run_settled]
    · rw [step_onward hturn, ih hrest, List.append_assoc, List.singleton_append]

variable (turn)

/-- The requests of a run make a route, as long as the run unless the call has settled. -/
theorem route_of_run (n : ℕ) (log : List R) (call : C) :
    ∃ route, (run turn n ⟨log, .calling call⟩).requests = log ++ route ∧
      IsRoute turn log call route ∧
      ((run turn n ⟨log, .calling call⟩).IsSettled ∨ route.length = n) := by
  induction n generalizing log call with
  | zero => exact ⟨[], by rw [run, List.append_nil], trivial, .inr rfl⟩
  | succ n ih =>
    rw [run]
    cases hturn : turn log call with
    | settled outcome =>
      rw [step_settled hturn, run_settled]
      exact ⟨[], by rw [List.append_nil], trivial, .inl ⟨outcome, rfl⟩⟩
    | answered r outcome =>
      rw [step_answered hturn, run_settled]
      exact ⟨[r], rfl, .inl ⟨⟨outcome, hturn⟩, rfl⟩, .inl ⟨outcome, rfl⟩⟩
    | onward r next =>
      rw [step_onward hturn]
      obtain ⟨route, hrequests, hroute, hends⟩ := ih (log ++ [r]) next
      refine ⟨r :: route, ?_, .inr ⟨next, hturn, hroute⟩, ?_⟩
      · rw [hrequests, List.append_assoc, List.singleton_append]
      · rcases hends with hsettled | hlength
        · exact .inl hsettled
        · exact .inr (by rw [List.length_cons, hlength])

variable {turn}

/-- A call makes at most so many requests and settles, whenever no route is longer. -/
theorem bounded_iff {call : C} {bound : ℕ} :
    ((∀ n, (run turn n (start call)).requests.length ≤ bound) ∧
        ∃ n, (run turn n (start call)).IsSettled) ↔
      ∀ route, IsRoute turn [] call route → route.length ≤ bound := by
  constructor
  · intro h route hroute
    have hlength := h.1 route.length
    rwa [start, run_route hroute, List.nil_append] at hlength
  · intro h
    constructor
    · intro n
      obtain ⟨route, hrequests, hroute, -⟩ := route_of_run turn n [] call
      rw [start, hrequests, List.nil_append]
      exact h route hroute
    · obtain ⟨route, -, hroute, hends⟩ := route_of_run turn (bound+1) [] call
      rcases hends with hsettled | hlength
      · exact ⟨bound+1, hsettled⟩
      · have := h route hroute
        omega

/-- A number that each request needs and each further call lowers bounds the routes. -/
theorem route_le (measure : C → ℕ)
    (hasks : ∀ log call r, Asks turn log call r → 0 < measure call)
    (honward : ∀ log call r next, turn log call = .onward r next → measure next < measure call)
    {log route : List R} {call : C} (h : IsRoute turn log call route) :
    route.length ≤ measure call := by
  induction route generalizing log call with
  | nil => exact Nat.zero_le _
  | cons r rest ih =>
    rw [List.length_cons]
    rcases h with ⟨hanswered, rfl⟩ | ⟨next, hturn, hrest⟩
    · exact hasks log call r (.inl hanswered)
    · have hless := honward log call r next hturn
      have hle := ih hrest
      omega

/-- What holds of a request when it is made holds of all requests of a run. -/
theorem run_approved {approved : List R → R → Prop}
    (hasks : ∀ log call r, Asks turn log call r → approved log r) (n : ℕ) {log : List R}
    (phase : Phase C O) (h : AtEach approved log) :
    AtEach approved (run turn n ⟨log, phase⟩).requests := by
  induction n generalizing log phase with
  | zero => exact h
  | succ n ih =>
    cases phase with
    | settled outcome => rwa [run_settled]
    | calling call =>
      rw [run]
      cases hturn : turn log call with
      | settled outcome =>
        rw [step_settled hturn]
        exact ih (.settled outcome) h
      | answered r outcome =>
        rw [step_answered hturn]
        exact ih (.settled outcome) (h.snoc (hasks log call r (.inl ⟨outcome, hturn⟩)))
      | onward r next =>
        rw [step_onward hturn]
        exact ih (.calling next) (h.snoc (hasks log call r (.inr ⟨next, hturn⟩)))

end Journey
end LuaRecovery.Lib
