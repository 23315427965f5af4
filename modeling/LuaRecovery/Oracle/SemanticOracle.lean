import LuaRecovery.Lua.Number
import LuaRecovery.Lua.Ast

/-!
# Trace synthesis

`SemanticOracle.synthesizeAST` of `oracle/semantic-oracle.js`: the recorded
events of one run become a chunk, and segments that repeat with one number
moving by a constant step become numeric loops. Provenance marks on the nodes
are left out.
-/

set_option autoImplicit false

namespace LuaRecovery.Oracle
open LuaRecovery.Lua

/-- A recorded value, as the harness serialises it: `object` is a value that
JSON parses to a fresh object, `other` one that it parses to null. -/
inductive Recorded (N : Type) : Type where
  | string (s : ByteString)
  | number (n : N)
  | boolean (b : Bool)
  | nil
  | object (type : String) (text : ByteString)
  | other (type : String)

/-- A `RETURN` event's own `type` is overwritten by `record`, so only its value is left. -/
inductive TraceEvent (N : Type) : Type where
  | call (target : String) (args : List (Recorded N))
  | ret (value : Recorded N)

section Synthesis
variable {N : Type} [LuaNumber N]

def Recorded.sameType : Recorded N → Recorded N → Bool
  | .string _, .string _ => true
  | .number _, .number _ => true
  | .boolean _, .boolean _ => true
  | .nil, .nil => true
  | .object a _, .object b _ => a == b
  | .object a _, .other b => a == b
  | .other a, .object b _ => a == b
  | .other a, .other b => a == b
  | _, _ => false

/-- JavaScript's `===` on the `value` fields: two parsed objects are never identical. -/
def Recorded.sameValue : Recorded N → Recorded N → Bool
  | .string a, .string b => a == b
  | .number a, .number b => LuaNumber.eq a b
  | .boolean a, .boolean b => a == b
  | .nil, .nil => true
  | .other _, .other _ => true
  | _, _ => false

/-- JavaScript's `String(value)`. -/
def Recorded.jsString : Recorded N → ByteString
  | .string s => s
  | .number n => identBytes (LuaNumber.text n)
  | .boolean b => identBytes (if b then "true" else "false")
  | .nil => identBytes "undefined"
  | .object _ text => text
  | .other _ => identBytes "null"

def numericLiteral (n : N) : Expr N := .numericLiteral n (LuaNumber.text n)

/-- The literal for a value; a number equal to `varValue` becomes the loop variable. -/
def toExpr (subst : Option (String × N)) (a : Recorded N) : Expr N :=
  match a, subst with
  | .number n, some (varName, varValue) =>
      if LuaNumber.eq n varValue then .identifier varName else numericLiteral n
  | .number n, none => numericLiteral n
  | .string s, _ => .stringLiteral s
  | .boolean b, _ => .booleanLiteral b
  | .nil, _ => .nilLiteral
  | a, _ => .stringLiteral a.jsString

/-- The dotted callee of a target. -/
def calleeExpr (target : String) : Expr N :=
  match (target.toList.splitOn '.').map String.ofList with
  | [] => .identifier ""
  | root::path => path.foldl (fun base p => .memberExpression base (.identifier p)) (.identifier root)

def createCallStmt (subst : Option (String × N)) (target : String) (args : List (Recorded N)) :
    Stmt N :=
  .callStatement (.callExpression (calleeExpr target) (args.map (toExpr subst)) false)

/-- Compares the arguments of two calls one period apart. The outer `none` says
that no loop can be formed; the inner one that nothing varies so far. -/
def scanArgs (p : ℕ) : ℕ → Option (ℕ × ℕ) → List (Recorded N) → List (Recorded N) →
    Option (Option (ℕ × ℕ))
  | a, varying, x::xs, y::ys =>
      if x.sameType y then
        if x.sameValue y then scanArgs p (a+1) varying xs ys
        else match x, y with
          | .number _, .number _ =>
              if varying.isNone || varying = some (p, a) then scanArgs p (a+1) (some (p, a)) xs ys
              else none
          | _, _ => none
      else none
  | _, varying, _, _ => some varying

/-- Compares one period of events with the next. -/
def scanPeriod : ℕ → Option (ℕ × ℕ) → List (TraceEvent N) → List (TraceEvent N) →
    Option (Option (ℕ × ℕ))
  | p, varying, .call t xs :: es, .call t' ys :: es' =>
      if t = t' then
        if xs.length = ys.length then
          match scanArgs p 0 varying xs ys with
          | some varying' => scanPeriod (p+1) varying' es es'
          | none => none
        else none
      else none
  | _, varying, [], [] => some varying
  | _, _, _, _ => none

/-- The number at an argument position of an event. -/
def numberAt (events : List (TraceEvent N)) (p a : ℕ) : Option N :=
  match events[p]? with
  | some (.call _ args) => match args[a]? with
      | some (.number n) => some n
      | _ => none
  | _ => none

/-- Whether a call repeats its counterpart, with `expected` at the varying position. -/
def matchArgs (varying : Option ℕ) (expected : N) : ℕ → List (Recorded N) → List (Recorded N) → Bool
  | a, x::xs, y::ys =>
      (if varying = some a then
        match y with
        | .number n => LuaNumber.eq n expected
        | _ => false
      else y.sameType x && y.sameValue x) && matchArgs varying expected (a+1) xs ys
  | _, [], [] => true
  | _, _, _ => false

/-- Whether the next period continues the progression. -/
def matchPeriod (p₀ a₀ : ℕ) (expected : N) : ℕ → List (TraceEvent N) → List (TraceEvent N) → Bool
  | p, .call t xs :: base, .call t' ys :: cur =>
      t' = t && ys.length = xs.length &&
        matchArgs (if p = p₀ then some a₀ else none) expected 0 xs ys &&
        matchPeriod p₀ a₀ expected (p+1) base cur
  | _, [], [] => true
  | _, _, _ => false

/-- Counts the iterations from `iterations` on, while whole periods follow. -/
def growIterations (P p₀ a₀ : ℕ) (base : List (TraceEvent N)) (start step : N) :
    ℕ → ℕ → List (TraceEvent N) → ℕ
  | 0, iterations, _ => iterations
  | fuel+1, iterations, rest =>
      if P ≤ rest.length && matchPeriod p₀ a₀
          (LuaNumber.add start (LuaNumber.mul (LuaNumber.ofNat iterations) step)) 0 base
          (rest.take P) then
        growIterations P p₀ a₀ base start step fuel (iterations+1) (rest.drop P)
      else iterations

/-- A recognised loop: its period, the varying position and the progression. -/
structure LoopInfo (N : Type) where
  period : ℕ
  offset : ℕ
  arg : ℕ
  start : N
  step : N
  iterations : ℕ

/-- Tries to recognise a loop of period `P` at the head of the events. -/
def detectPeriod (P : ℕ) (events : List (TraceEvent N)) : Option (LoopInfo N) :=
  match scanPeriod 0 none (events.take P) ((events.drop P).take P) with
  | some (some (p, a)) =>
      match numberAt events p a, numberAt events (P+p) a with
      | some start, some second =>
          let step := LuaNumber.sub second start
          if LuaNumber.eq step LuaNumber.zero then none
          else some ⟨P, p, a, start, step,
            growIterations P p a (events.take P) start step events.length 2 (events.drop (2*P))⟩
      | _, _ => none
  | _ => none

/-- Tries the periods from `P` on; the search ends at the first that does not fit twice. -/
def detectLoop (events : List (TraceEvent N)) : ℕ → ℕ → Option (LoopInfo N)
  | 0, _ => none
  | tries+1, P =>
      if P*2 ≤ events.length then
        match detectPeriod P events with
        | some info => some info
        | none => detectLoop events tries (P+1)
      else none

def loopBody (info : LoopInfo N) : ℕ → List (TraceEvent N) → List (Stmt N)
  | p, .call t args :: es =>
      createCallStmt (if p = info.offset then some ("i", info.start) else none) t args ::
        loopBody info (p+1) es
  | p, .ret _ :: es => loopBody info (p+1) es
  | _, [] => []

def loopStmt (info : LoopInfo N) (events : List (TraceEvent N)) : Stmt N :=
  let stop := LuaNumber.add info.start
    (LuaNumber.mul (LuaNumber.ofNat (info.iterations-1)) info.step)
  .numericForStatement (.identifier "i") (numericLiteral info.start) (numericLiteral stop)
    (if LuaNumber.eq info.step LuaNumber.one then none else some (numericLiteral info.step))
    (loopBody info 0 (events.take info.period))

def eventStmt : TraceEvent N → Stmt N
  | .call target args => createCallStmt none target args
  | .ret value => .returnStatement [.stringLiteral value.jsString]

/-- The scan over the events; every round consumes at least one. -/
def synthesizeStmts : ℕ → List (TraceEvent N) → List (Stmt N)
  | 0, _ => []
  | _, [] => []
  | fuel+1, e::es =>
      match detectLoop (e::es) 4 1 with
      | some info => loopStmt info (e::es) ::
          synthesizeStmts fuel ((e::es).drop (info.iterations*info.period))
      | none => eventStmt e :: synthesizeStmts fuel es

def synthesizeAST (events : List (TraceEvent N)) : Chunk N :=
  ⟨synthesizeStmts events.length events⟩

end Synthesis
end LuaRecovery.Oracle
