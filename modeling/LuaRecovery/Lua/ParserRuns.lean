import LuaRecovery.Lua.Parser

/-!
# How the parser runs

Its functions call each other without a bound; their equations are those of the
source. A run is followed through the tokens that are left.
-/

set_option autoImplicit false

namespace LuaRecovery.Lua
open LuaRecovery.Lib

namespace Parser
variable {N : Type}

def rules (self : Rules N) : Rules N := ⟨body self⟩

/-- Every body is put together from calls and from what reads the tokens. -/
theorem finitary_body {α : Type} (r : Rule N α) :
    Handler.Finitary fun self : Rules N => (rules self).call r := by
  cases r
  all_goals
    dsimp only [rules, body]
    repeat' first
      | exact .call _
      | exact .const _
      | refine .bind ?_ fun _ => ?_
      | refine .ite ?_ ?_
      | split

/-- The parser without a bound on its depth. -/
noncomputable def parser : Rules N := Handler.limit (Handler.bounded rules)

theorem call_eq {α : Type} (r : Rule N α) : parser.call r = body parser r :=
  Handler.limit_eq finitary_body r

theorem call_eq_some {α : Type} {r : Rule N α} {ts : List (Lexeme N)}
    {x : Except Failure (α × List (Lexeme N))} :
    parser.call r ts = some x ↔ ∃ depth, within depth r ts = some x :=
  Handler.limit_eq_some finitary_body

/-- The type of the next token. -/
def nextType (ts : List (Lexeme N)) : TokenType := (ts.headD .eof).type

@[simp] theorem nextType_nil : nextType ([] : List (Lexeme N)) = .eof := rfl

@[simp] theorem nextType_cons (t : Lexeme N) (ts : List (Lexeme N)) :
    nextType (t :: ts) = t.type := rfl

section Runs
variable (ts : List (Lexeme N))

@[simp] theorem pure_run {α : Type} (a : α) : (pure a : Parser N α) ts = some (.ok (a, ts)) := rfl

@[simp] theorem peek_run : (peek : Parser N (Lexeme N)) ts = some (.ok (ts.headD .eof, ts)) := rfl

@[simp] theorem advance_run :
    (advance : Parser N (Lexeme N)) ts = some (.ok (ts.headD .eof, ts.tail)) := rfl

@[simp] theorem is_run (type : TokenType) :
    is type ts = some (.ok (decide (nextType ts = type), ts)) := rfl

@[simp] theorem isOneOf_run (types : List TokenType) :
    isOneOf types ts = some (.ok (decide (nextType ts ∈ types), ts)) := rfl

@[simp] theorem fail_run {α : Type} (message : String) :
    (fail message : Parser N α) ts = some (.error (.parseError message ts.length)) := rfl

theorem accept_run (type : TokenType) :
    accept type ts =
      if nextType ts = type then some (.ok (true, ts.tail)) else some (.ok (false, ts)) := by
  by_cases h : nextType ts = type
  · rw [if_pos h]
    rw [accept, Comp.bind_ok (is_run ts type), h]
    simp
    rfl
  · rw [if_neg h]
    rw [accept, Comp.bind_ok (is_run ts type)]
    simp [h]

theorem consume_run (type : TokenType) (errorMsg : String) :
    consume type errorMsg ts =
      if nextType ts = type then some (.ok (ts.headD .eof, ts.tail))
      else some (.error (.parseError errorMsg ts.length)) := by
  rw [consume, Comp.bind_ok (peek_run ts), ← nextType]
  by_cases h : nextType ts = type
  · rw [if_pos h, if_pos h, advance_run]
  · rw [if_neg h, if_neg h, fail_run]

end Runs

section Binds
variable {α : Type} (ts : List (Lexeme N))

theorem bind_peek (f : Lexeme N → Parser N α) : (peek >>= f) ts = f (ts.headD .eof) ts :=
  Comp.bind_ok (peek_run ts)

theorem bind_advance (f : Lexeme N → Parser N α) :
    (advance >>= f) ts = f (ts.headD .eof) ts.tail :=
  Comp.bind_ok (advance_run ts)

theorem bind_is (type : TokenType) (f : Bool → Parser N α) :
    (is type >>= f) ts = f (decide (nextType ts = type)) ts :=
  Comp.bind_ok (is_run ts type)

theorem bind_isOneOf (types : List TokenType) (f : Bool → Parser N α) :
    (isOneOf types >>= f) ts = f (decide (nextType ts ∈ types)) ts :=
  Comp.bind_ok (isOneOf_run ts types)

theorem bind_accept (type : TokenType) (f : Bool → Parser N α) :
    (accept type >>= f) ts = if nextType ts = type then f true ts.tail else f false ts := by
  have hrun := accept_run ts type
  split
  next h =>
    rw [if_pos h] at hrun
    exact Comp.bind_ok hrun
  next h =>
    rw [if_neg h] at hrun
    exact Comp.bind_ok hrun

theorem bind_consume (type : TokenType) (errorMsg : String) (f : Lexeme N → Parser N α) :
    (consume type errorMsg >>= f) ts =
      if nextType ts = type then f (ts.headD .eof) ts.tail
      else some (.error (.parseError errorMsg ts.length)) := by
  have hrun := consume_run ts type errorMsg
  split
  next h =>
    rw [if_pos h] at hrun
    exact Comp.bind_ok hrun
  next h =>
    rw [if_neg h] at hrun
    exact Comp.bind_error hrun

theorem bind_identifier (errorMsg : String) (f : Expr N → Parser N α) :
    (identifier errorMsg >>= f) ts =
      if nextType ts = .ident then f (nameOf (ts.headD .eof)) ts.tail
      else some (.error (.parseError errorMsg ts.length)) := by
  rw [identifier, bind_assoc, bind_consume]
  simp only [pure_bind]

end Binds
end Parser
end LuaRecovery.Lua
