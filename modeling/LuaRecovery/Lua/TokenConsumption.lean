import LuaRecovery.Lib.Avoidance
import LuaRecovery.Lua.ParserRuns
import Mathlib.Data.List.Infix

/-!
# What the parser consumes

Each function of the parser takes tokens from the front and leaves the rest.
-/

set_option autoImplicit false

namespace LuaRecovery.Lua
open LuaRecovery.Lib Comp

namespace Parser
variable {N : Type}

/-- What is left is an end of what was there. -/
def Leaves (ts ts' : List (Lexeme N)) : Prop := ts' <:+ ts

instance : IsPreorder (List (Lexeme N)) Leaves where
  refl _ := List.suffix_rfl
  trans _ _ _ h h' := h'.trans h

/-- The program takes tokens from the front only. -/
abbrev Consumes {α : Type} (c : Parser N α) : Prop := Moves Leaves c

theorem consumes_peek : Consumes (peek : Parser N (Lexeme N)) := by
  intro ts t ts' h
  cases h
  exact List.suffix_rfl

theorem consumes_peekNext : Consumes (peekNext : Parser N (Lexeme N)) := by
  intro ts t ts' h
  cases h
  exact List.suffix_rfl

theorem consumes_advance : Consumes (advance : Parser N (Lexeme N)) := by
  intro ts t ts' h
  cases h
  exact List.tail_suffix ts

theorem consumes_is (type : TokenType) : Consumes (N := N) (is type) := by
  intro ts b ts' h
  cases h
  exact List.suffix_rfl

theorem consumes_isOneOf (types : List TokenType) : Consumes (N := N) (isOneOf types) := by
  intro ts b ts' h
  cases h
  exact List.suffix_rfl

theorem consumes_accept (type : TokenType) : Consumes (N := N) (accept type) := by
  intro ts b ts' h
  rw [accept_run] at h
  split at h <;> cases h
  · exact List.tail_suffix ts
  · exact List.suffix_rfl

theorem consumes_consume (type : TokenType) (errorMsg : String) :
    Consumes (N := N) (consume type errorMsg) := by
  intro ts t ts' h
  rw [consume_run] at h
  split at h <;> cases h
  exact List.tail_suffix ts

theorem consumes_identifier (errorMsg : String) : Consumes (N := N) (identifier errorMsg) :=
  (consumes_consume _ _).bind fun _ => .pure _

theorem consumes_acceptSeparator : Consumes (acceptSeparator : Parser N Bool) :=
  (consumes_accept _).bind fun _ => .ite (.pure _) (consumes_accept _)

theorem consumes_fail {α : Type} (message : String) : Consumes (N := N) (α := α) (fail message) := by
  intro ts a ts' h
  cases h

theorem consumes_throw {α : Type} (failure : Failure) :
    Consumes (N := N) (α := α) (throw failure) := by
  intro ts a ts' h
  cases h

theorem consumes_body {self : Rules N} (h : ∀ {α : Type} (r : Rule N α), Consumes (self.call r))
    {α : Type} (r : Rule N α) : Consumes (body self r) := by
  cases r
  all_goals
    dsimp only [body]
    repeat' with_reducible first
      | exact h _
      | exact .pure _
      | exact consumes_peek
      | exact consumes_peekNext
      | exact consumes_advance
      | exact consumes_is _
      | exact consumes_isOneOf _
      | exact consumes_accept _
      | exact consumes_consume _ _
      | exact consumes_identifier _
      | exact consumes_acceptSeparator
      | exact consumes_fail _
      | exact consumes_throw _
      | refine Moves.bind ?_ fun _ => ?_
      | refine Moves.ite ?_ ?_
      | split

theorem consumes_call {α : Type} (r : Rule N α) : Consumes (parser.call r) := by
  intro ts a ts' h
  refine Handler.limit_induction
    (P := fun _ ts x => ∀ a ts', x = .ok (a, ts') → Leaves ts ts') ?_ h a ts' rfl
  intro self hself α r ts x hx a ts' heq
  subst heq
  exact consumes_body (fun r ts a ts' h => hself r ts _ h a ts' rfl) r ts a ts' hx

end Parser
end LuaRecovery.Lua
