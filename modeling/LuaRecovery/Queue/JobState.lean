import Mathlib.Data.List.Basic

/-!
# Job states

The states of a recovery job and the moves between them. A state may always be
kept; a terminal state is never left.
-/

set_option autoImplicit false

namespace LuaRecovery.Queue

inductive JobState where
  | queued
  | running
  | completed
  | failed
  | cancelled
  | timedOut
  | resourceLimit
  deriving DecidableEq, Repr

def terminalStates : List JobState :=
  [.completed, .failed, .cancelled, .timedOut, .resourceLimit]

def JobState.Terminal (s : JobState) : Prop := s ∈ terminalStates

instance (s : JobState) : Decidable s.Terminal := inferInstanceAs (Decidable (s ∈ terminalStates))

def isValidTransition (fromState toState : JobState) : Bool :=
  if fromState = toState then true
  else if fromState.Terminal then false
  else if fromState = .queued then decide (toState ∈ [.running, .cancelled, .timedOut])
  else if fromState = .running then
    decide (toState ∈ [.completed, .failed, .cancelled, .timedOut, .resourceLimit, .queued])
  else false

theorem JobState.terminal_iff (s : JobState) : s.Terminal ↔ s ≠ .queued ∧ s ≠ .running := by
  cases s <;> decide

theorem isValidTransition_terminal {s t : JobState} (hs : s.Terminal) :
    isValidTransition s t = true ↔ s = t := by
  by_cases h : s = t <;> simp [isValidTransition, h, hs]

/-- A job may be completed from `running`, or again when it is completed already. -/
theorem isValidTransition_completed (s : JobState) :
    isValidTransition s .completed = true ↔ s = .running ∨ s = .completed := by
  cases s <;> decide

end LuaRecovery.Queue
