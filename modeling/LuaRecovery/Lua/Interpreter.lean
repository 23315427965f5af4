import LuaRecovery.Lua.Semantics

/-!
# The interpreter

One structural recursion over expressions and statements, at a fixed machine;
`callClosure` then ties calls to the interpreter one unit of fuel lower. The
flag `test` of `eval` says that only the truth of the value is asked for. A
table or function constructor asked only for its truth takes no identity, nor
do those in its fields: the objects could never be observed.
-/

set_option autoImplicit false

namespace LuaRecovery.Lua
open LuaRecovery.Lib

section Helpers
variable {N : Type} [LuaNumber N]

def one (p : Run N (List (Value N))) : Run N (Value N) := do return first (← p)

/-- The key a field of the constructor stores under; positional fields count from one. -/
def fieldEntry (k v : Value N) : Run N (List (Value N × Value N)) :=
  if validKey k then pure [(k, v)] else Prog.raise k

def positional : ℕ → List (Value N) → List (Value N × Value N)
  | _, [] => []
  | n, v::vs => (.number (LuaNumber.ofNat n), v) :: positional (n+1) vs

def nameKey (e : Expr N) : Run N (Value N) :=
  match e.name? with
  | some name => pure (.string (identBytes name))
  | none => malformed

/-- Later fields come first, so that they win over earlier ones with the same key. -/
def buildTable (test : Bool) (entries : List (Value N × Value N)) : Run N (Value N) :=
  if test then pure (.boolean true) else newTable entries.reverse

def makeClosure (test : Bool) (c : Closure N) : Run N (Value N) :=
  if test then pure (.boolean true) else newClosure c

/-- The bounds of a numeric loop must be numbers. -/
def loopBounds (a b c : Value N) : Run N (N × N × N) :=
  match a, b, c with
  | .number x, .number y, .number z => pure (x, y, z)
  | a, _, _ => Prog.raise a

def inRange (x stop step : N) : Bool :=
  if LuaNumber.lt LuaNumber.zero step then LuaNumber.le x stop else LuaNumber.le stop x

/-- Binds `self`, the parameters and the rest of the arguments. -/
def bindArgs (c : Closure N) (args : List (Value N)) : Run N (Env × List (Value N)) := do
  let env ← declare c.env c.params args
  pure (env, if c.isVararg then args.drop c.params.length else [])

def functionName : Expr N → Option (String × List String)
  | .identifier name => some (name, [])
  | .memberExpression base property => do
      let (root, path) ← functionName base
      let name ← property.name?
      some (root, path ++ [name])
  | _ => none

end Helpers

section Interpreter
variable {N : Type} [LuaNumber N]

def followPath (m : Machine N) : Value N → List String → Run N (Value N)
  | o, [] => pure o
  | o, p::ps => do
      let o' ← indexValue m o (.string (identBytes p))
      followPath m o' ps

/-- Stores a declared function under its name or its dotted path. -/
def storeFunction (m : Machine N) (env : Env) (root : String) (path : List String)
    (f : Value N) : Run N Unit :=
  match path.getLast? with
  | none => store m env (.name root) f
  | some key => do
      let o ← readName env root
      let o' ← followPath m o path.dropLast
      setIndexValue m o' (.string (identBytes key)) f

mutual

def eval (m : Machine N) (env : Env) (va : List (Value N)) (test : Bool) :
    Expr N → Run N (List (Value N))
  | .identifier name => do return [← readName env name]
  | .numericLiteral value _ => pure [.number value]
  | .stringLiteral value => pure [.string value]
  | .booleanLiteral value => pure [.boolean value]
  | .nilLiteral => pure [.nil]
  | .varargLiteral inParens => pure (if inParens then [first va] else va)
  | .unaryExpression op a => do
      let v ← one (eval m env va (op = .not) a)
      return [← unaryOp m op v]
  | .binaryExpression op l r => do
      let a ← one (eval m env va false l)
      let b ← one (eval m env va false r)
      return [← binaryOp m op a b]
  | .logicalExpression .and l r => do
      let a ← one (eval m env va true l)
      if a.truthy then return [← one (eval m env va test r)] else pure [a]
  | .logicalExpression .or l r => do
      let a ← one (eval m env va test l)
      if a.truthy then pure [a] else return [← one (eval m env va test r)]
  | .callExpression base args inParens => do
      let f ← one (eval m env va false base)
      let vs ← evalList m env va args
      let rs ← apply m f vs
      pure (if inParens then [first rs] else rs)
  | .methodCallExpression base method args inParens => do
      let o ← one (eval m env va false base)
      let k ← nameKey method
      let f ← indexValue m o k
      let vs ← evalList m env va args
      let rs ← apply m f (o::vs)
      pure (if inParens then [first rs] else rs)
  | .memberExpression base property => do
      let o ← one (eval m env va false base)
      let k ← nameKey property
      return [← indexValue m o k]
  | .indexExpression base index => do
      let o ← one (eval m env va false base)
      let k ← one (eval m env va false index)
      return [← indexValue m o k]
  | .functionExpression params isVararg body => do
      return [← makeClosure test ⟨params, isVararg, body, env⟩]
  | .tableConstructor fields => do
      let entries ← evalFields m env va test 1 fields
      return [← buildTable test entries]

def evalList (m : Machine N) (env : Env) (va : List (Value N)) :
    List (Expr N) → Run N (List (Value N))
  | [] => pure []
  | [e] => eval m env va false e
  | e::e'::es => do
      let v ← one (eval m env va false e)
      let vs ← evalList m env va (e'::es)
      pure (v::vs)

def evalFields (m : Machine N) (env : Env) (va : List (Value N)) (test : Bool)
    (position : ℕ) : List (TableField N) → Run N (List (Value N × Value N))
  | [] => pure []
  | [.tableValue e] => do
      let vs ← eval m env va test e
      pure (positional position vs)
  | .tableValue e :: f :: fs => do
      let v ← one (eval m env va test e)
      let rest ← evalFields m env va test (position+1) (f::fs)
      pure ((.number (LuaNumber.ofNat position), v) :: rest)
  | .tableKey key value :: fs => do
      let k ← one (eval m env va test key)
      let v ← one (eval m env va test value)
      let entry ← fieldEntry k v
      let rest ← evalFields m env va test position fs
      pure (entry ++ rest)
  | .tableKeyString key value :: fs => do
      let k ← nameKey key
      let v ← one (eval m env va test value)
      let rest ← evalFields m env va test position fs
      pure ((k, v) :: rest)

end

def targetOf (m : Machine N) (env : Env) (va : List (Value N)) : Expr N → Run N (Target N)
  | .identifier name => pure (.name name)
  | .memberExpression base property => do
      let o ← one (eval m env va false base)
      let k ← nameKey property
      pure (.slot o k)
  | .indexExpression base index => do
      let o ← one (eval m env va false base)
      let k ← one (eval m env va false index)
      pure (.slot o k)
  | _ => malformed

def targetsOf (m : Machine N) (env : Env) (va : List (Value N)) :
    List (Expr N) → Run N (List (Target N))
  | [] => pure []
  | e::es => do
      let t ← targetOf m env va e
      let ts ← targetsOf m env va es
      pure (t::ts)

def stepValue (m : Machine N) (env : Env) (va : List (Value N)) :
    Option (Expr N) → Run N (Value N)
  | none => pure (.number LuaNumber.one)
  | some e => one (eval m env va false e)

/-- One round of a numeric loop at the value `x`. -/
def numericRound (stop step : N) (body : N → Run N (Signal N)) (x : N) :
    Run N (N ⊕ Signal N) :=
  if inRange x stop step then do
    match afterBody (← body x) with
    | none => pure (.inl (LuaNumber.add x step))
    | some sig => pure (.inr sig)
  else pure (.inr .normal)

/-- One round of a generic loop: asks the iterator, then runs the body. -/
def genericRound (m : Machine N) (f state : Value N)
    (body : List (Value N) → Run N (Signal N)) (control : Value N) :
    Run N (Value N ⊕ Signal N) := do
  let vs ← apply m f [state, control]
  match first vs with
  | .nil => pure (.inr .normal)
  | v => do
      match afterBody (← body vs) with
      | none => pure (.inl v)
      | some sig => pure (.inr sig)

mutual

/-- Runs a statement; the environment it returns holds the locals it declared. -/
def exec (m : Machine N) (env : Env) (va : List (Value N)) : Stmt N → Run N (Env × Signal N)
  | .localStatement vars init => do
      let vs ← evalList m env va init
      let env' ← declare env vars vs
      pure (env', .normal)
  | .assignmentStatement vars init => do
      let ts ← targetsOf m env va vars
      let vs ← evalList m env va init
      storeAll m env ts vs
      pure (env, .normal)
  | .localFunctionStatement identifier params isVararg body => do
      let env' ← declare env [identifier] []
      let f ← newClosure ⟨params, isVararg, body, env'⟩
      match identifier.name? with
      | some name => store m env' (.name name) f
      | none => malformed
      pure (env', .normal)
  | .functionDeclaration name params isVararg body isMethod => do
      match functionName name with
      | some (root, path) =>
          let ps := if isMethod then .identifier "self" :: params else params
          let f ← newClosure ⟨ps, isVararg, body, env⟩
          storeFunction m env root path f
          pure (env, .normal)
      | none => malformed
  | .callStatement expression => do
      let _ ← eval m env va false expression
      pure (env, .normal)
  | .ifStatement clauses elseBody => do
      match ← execClauses m env va clauses with
      | some sig => pure (env, sig)
      | none => match elseBody with
          | none => pure (env, .normal)
          | some body => do
              let r ← execBlock m env va body
              pure (env, r.2)
  | .whileStatement condition body => do
      let sig ← Prog.iterate (fun _ => do
        let c ← one (eval m env va true condition)
        if c.truthy then
          match afterBody (← execBlock m env va body).2 with
          | none => pure (.inl ())
          | some sig => pure (.inr sig)
        else pure (.inr .normal)) m.fuel ()
      pure (env, sig)
  | .repeatStatement condition body => do
      let sig ← Prog.iterate (fun _ => do
        let r ← execBlock m env va body
        match afterBody r.2 with
        | some sig => pure (.inr sig)
        | none =>
            let c ← one (eval m r.1 va true condition)
            pure (if c.truthy then .inr .normal else .inl ())) m.fuel ()
      pure (env, sig)
  | .numericForStatement variableName start stop step body => do
      let a ← one (eval m env va false start)
      let b ← one (eval m env va false stop)
      let c ← stepValue m env va step
      let r ← loopBounds a b c
      let sig ← Prog.iterate (numericRound r.2.1 r.2.2 (fun x => do
        let env' ← declare env [variableName] [.number x]
        return (← execBlock m env' va body).2)) m.fuel r.1
      pure (env, sig)
  | .genericForStatement vars iterators body => do
      let vs ← evalList m env va iterators
      let sig ← Prog.iterate (genericRound m (first vs) (first vs.tail) (fun ws => do
        let env' ← declare env vars ws
        return (← execBlock m env' va body).2)) m.fuel (first vs.tail.tail)
      pure (env, sig)
  | .doStatement body => do
      let r ← execBlock m env va body
      pure (env, r.2)
  | .returnStatement args => do
      let vs ← evalList m env va args
      pure (env, .returned vs)
  | .breakStatement => pure (env, .broke)
  | .continueStatement => pure (env, .continued)
  | .emptyStatement => pure (env, .normal)

def execBlock (m : Machine N) (env : Env) (va : List (Value N)) :
    List (Stmt N) → Run N (Env × Signal N)
  | [] => pure (env, .normal)
  | s::ss => do
      let r ← exec m env va s
      match r.2 with
      | .normal => execBlock m r.1 va ss
      | sig => pure (r.1, sig)

/-- The signal of the first clause whose condition holds, if any. -/
def execClauses (m : Machine N) (env : Env) (va : List (Value N)) :
    List (IfClause N) → Run N (Option (Signal N))
  | [] => pure none
  | .mk condition body :: cs => do
      let c ← one (eval m env va true condition)
      if c.truthy then
        let r ← execBlock m env va body
        pure (some r.2)
      else execClauses m env va cs

end

theorem exec_if (m : Machine N) (env : Env) (va : List (Value N)) (clauses : List (IfClause N))
    (elseBody : Option (List (Stmt N))) :
    exec m env va (.ifStatement clauses elseBody) = (do
      match ← execClauses m env va clauses with
      | some sig => pure (env, sig)
      | none => match elseBody with
          | none => pure (env, .normal)
          | some body => do
              let r ← execBlock m env va body
              pure (env, r.2)) := by
  cases elseBody <;> rfl

/-- What a function body yields: a body that does not return yields nothing. -/
def Signal.results (sig : Signal N) : List (Value N) :=
  match sig with
  | .returned vs => vs
  | _ => []

/-- Calls a closure with `n` units of fuel left. -/
def callClosure (runtime : Runtime N) : ℕ → ℕ → List (Value N) → Run N (List (Value N))
  | 0, _, _ => Prog.stop
  | n+1, id, args => do
      match ← Prog.read (fun s => s.closures[id]?) with
      | none => malformed
      | some c => do
          let (env, va) ← bindArgs c args
          let r ← execBlock ⟨runtime, callClosure runtime n, n⟩ env va c.body
          pure r.2.results

def machine (runtime : Runtime N) (fuel : ℕ) : Machine N :=
  ⟨runtime, callClosure runtime fuel, fuel⟩

/-- Runs a chunk from a state, with no arguments. -/
def runChunk (runtime : Runtime N) (fuel : ℕ) (chunk : Chunk N) : Run N (List (Value N)) := do
  let r ← execBlock (machine runtime fuel) [] [] chunk.body
  pure r.2.results

end Interpreter

/-- The state a program starts in: nothing allocated and no call made. -/
def initialState {N : Type} (globals : String → Value N) : State N where
  cells _ := .nil
  nextCell := 0
  heap := ⟨fun _ => ⟨[], false⟩, 0⟩
  closures := []
  globals := globals
  history := []

section Observation
variable {N : Type}

/-- States that agree in everything but the code of their closures. -/
structure SameButCode (s t : State N) : Prop where
  cells : s.cells = t.cells
  nextCell : s.nextCell = t.nextCell
  heap : s.heap = t.heap
  globals : s.globals = t.globals
  history : s.history = t.history
  closures : s.closures.length = t.closures.length

/-- Two runs that end the same way, with the same values and the same events. -/
inductive Alike {α : Type} : Outcome (State N) (Value N) α → Outcome (State N) (Value N) α → Prop
  | done {a : α} {s t : State N} (h : SameButCode s t) : Alike (.done a s) (.done a t)
  | raised {e : Value N} {s t : State N} (h : SameButCode s t) : Alike (.raised e s) (.raised e t)
  | timeout {s t : State N} (h : SameButCode s t) : Alike (.timeout s) (.timeout t)

theorem SameButCode.refl (s : State N) : SameButCode s s := ⟨rfl, rfl, rfl, rfl, rfl, rfl⟩

theorem Alike.refl {α : Type} (x : Outcome (State N) (Value N) α) : Alike x x := by
  cases x with
  | done a s => exact .done (.refl s)
  | raised e s => exact .raised (.refl s)
  | timeout s => exact .timeout (.refl s)

/-- The events of two like runs are the same. -/
theorem Alike.history {α : Type} {x y : Outcome (State N) (Value N) α} (h : Alike x y) :
    x.state.history = y.state.history := by
  cases h with
  | done hs => exact hs.history
  | raised hs => exact hs.history
  | timeout hs => exact hs.history

theorem SameButCode.trans {s t u : State N} (h : SameButCode s t) (h' : SameButCode t u) :
    SameButCode s u where
  cells := h.cells.trans h'.cells
  nextCell := h.nextCell.trans h'.nextCell
  heap := h.heap.trans h'.heap
  globals := h.globals.trans h'.globals
  history := h.history.trans h'.history
  closures := h.closures.trans h'.closures

theorem SameButCode.symm {s t : State N} (h : SameButCode s t) : SameButCode t s :=
  ⟨h.cells.symm, h.nextCell.symm, h.heap.symm, h.globals.symm, h.history.symm, h.closures.symm⟩

theorem Alike.symm {α : Type} {x y : Outcome (State N) (Value N) α} (h : Alike x y) :
    Alike y x := by
  cases h with
  | done hs => exact .done hs.symm
  | raised hs => exact .raised hs.symm
  | timeout hs => exact .timeout hs.symm

theorem Alike.trans {α : Type} {x y z : Outcome (State N) (Value N) α} (h : Alike x y)
    (h' : Alike y z) : Alike x z := by
  cases h with
  | done hs => cases h' with
    | done ht => exact .done (hs.trans ht)
  | raised hs => cases h' with
    | raised ht => exact .raised (hs.trans ht)
  | timeout hs => cases h' with
    | timeout ht => exact .timeout (hs.trans ht)

/-- Cells that an environment, or the code of a state, refers to are allocated. -/
def Scoped (env : Env) (s : State N) : Prop := ∀ x a, env.lookup x = some a → a < s.nextCell

structure WellScoped (env : Env) (s : State N) : Prop where
  env : Scoped env s
  closures : ∀ c ∈ s.closures, Scoped c.env s

theorem wellScoped_initialState (globals : String → Value N) :
    WellScoped [] (initialState globals) where
  env := by simp [Scoped]
  closures := by simp [initialState]

end Observation
end LuaRecovery.Lua
