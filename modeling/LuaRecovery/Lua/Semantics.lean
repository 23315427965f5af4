import LuaRecovery.Lib.Prog
import LuaRecovery.Lua.Number
import LuaRecovery.Lua.Ast
import Mathlib.Logic.Function.Basic

/-!
# A big-step semantics of Lua

Locals live in cells, so that closures share them. Globals are a map of their
own: the environment is not a first-class table, and the names through which a
program could reach it (`_G`, `_ENV`, `getfenv`) are ordinary globals. Every
operation that Lua delegates to its library, to a metamethod or to a
conversion is an event answered by a `Runtime`; the answer may depend on the
whole history and on the tables, may change the tables, may raise, and may
call back program functions. Fuel bounds the depth of calls and the rounds of
a loop, never the size of the code.
-/

set_option autoImplicit false

namespace LuaRecovery.Lua
open LuaRecovery.Lib

inductive Value (N : Type) : Type where
  | nil
  | boolean (b : Bool)
  | number (n : N)
  | string (s : ByteString)
  | table (id : ℕ)
  | closure (id : ℕ)
  | foreign (name : String)

namespace Value
variable {N : Type}

/-- Only `nil` and `false` are falsy. -/
def truthy : Value N → Bool
  | .nil => false
  | .boolean b => b
  | _ => true

end Value

/-- Lua's adjustment of a value list to its first value. -/
def first {N : Type} : List (Value N) → Value N
  | [] => .nil
  | v::_ => v

/-- Primitive equality: by value, and by identity for objects. -/
def rawEqual {N : Type} [LuaNumber N] : Value N → Value N → Bool
  | .nil, .nil => true
  | .boolean a, .boolean b => a == b
  | .number a, .number b => LuaNumber.eq a b
  | .string a, .string b => a == b
  | .table a, .table b => a == b
  | .closure a, .closure b => a == b
  | .foreign a, .foreign b => a == b
  | _, _ => false

inductive Action (N : Type) : Type where
  | call (callee : Value N)
  | getIndex
  | setIndex
  | unary (operator : UnaryOperator)
  | binary (operator : BinaryOperator)

/-- What the program asked of its runtime, and with which values. -/
structure Event (N : Type) where
  action : Action N
  args : List (Value N)

structure TableObject (N : Type) where
  entries : List (Value N × Value N)
  hasMetatable : Bool

structure Heap (N : Type) where
  tables : ℕ → TableObject N
  next : ℕ

/-- The runtime's answer to an event. -/
inductive Reply (N : Type) : Type where
  | values (heap : Heap N) (results : List (Value N))
  | raise (heap : Heap N) (error : Value N)
  | callback (heap : Heap N) (callee : Value N) (args : List (Value N))
      (resume : Heap N → Except (Value N) (List (Value N)) → Reply N)

abbrev Runtime (N : Type) := List (Event N) → Heap N → Reply N

abbrev Env := List (String × ℕ)

structure Closure (N : Type) where
  params : List (Expr N)
  isVararg : Bool
  body : Block N
  env : Env

structure State (N : Type) where
  cells : ℕ → Value N
  nextCell : ℕ
  heap : Heap N
  closures : List (Closure N)
  globals : String → Value N
  history : List (Event N)

abbrev Run (N α : Type) := Prog (State N) (Value N) α

inductive Signal (N : Type) : Type where
  | normal
  | broke
  | continued
  | returned (values : List (Value N))

section Primitives
variable {N : Type} [LuaNumber N]

/-- Raised where the tree is not one that Lua's grammar produces. -/
def malformed {α : Type} : Run N α := Prog.raise (.foreign "malformed")

def newCell (v : Value N) : Run N ℕ := fun s =>
  .done s.nextCell { s with cells := Function.update s.cells s.nextCell v, nextCell := s.nextCell+1 }

def readCell (a : ℕ) : Run N (Value N) := Prog.read (fun s => s.cells a)

def writeCell (a : ℕ) (v : Value N) : Run N Unit :=
  Prog.write (fun s => { s with cells := Function.update s.cells a v })

def readGlobal (name : String) : Run N (Value N) := Prog.read (fun s => s.globals name)

def writeGlobal (name : String) (v : Value N) : Run N Unit :=
  Prog.write (fun s => { s with globals := Function.update s.globals name v })

def newClosure (c : Closure N) : Run N (Value N) := fun s =>
  .done (.closure s.closures.length) { s with closures := s.closures ++ [c] }

def newTable (entries : List (Value N × Value N)) : Run N (Value N) := fun s =>
  .done (.table s.heap.next) { s with
    heap := { tables := Function.update s.heap.tables s.heap.next ⟨entries, false⟩,
              next := s.heap.next+1 } }

def setHeap (heap : Heap N) : Run N Unit := Prog.write (fun s => { s with heap := heap })

end Primitives

/-- The evaluator's fixed surroundings at one call depth. -/
structure Machine (N : Type) where
  runtime : Runtime N
  call : ℕ → List (Value N) → Run N (List (Value N))
  fuel : ℕ

section Operations
variable {N : Type} [LuaNumber N]

/-- Carries out a reply; callbacks enter program functions. -/
def runReply (m : Machine N) : Reply N → Run N (List (Value N))
  | .values heap results => do
      setHeap heap
      pure results
  | .raise heap error => do
      setHeap heap
      Prog.raise error
  | .callback heap callee args resume => do
      setHeap heap
      let r ← Prog.attempt (match callee with
        | .closure id => m.call id args
        | v => Prog.raise v)
      let heap' ← Prog.read (fun s => s.heap)
      runReply m (resume heap' r)

/-- Hands an operation to the runtime and records it. -/
def perform (m : Machine N) (action : Action N) (args : List (Value N)) :
    Run N (List (Value N)) := do
  Prog.write (fun s => { s with history := s.history ++ [⟨action, args⟩] })
  let reply ← Prog.read (fun s => m.runtime s.history s.heap)
  runReply m reply

def apply (m : Machine N) (f : Value N) (args : List (Value N)) : Run N (List (Value N)) :=
  match f with
  | .closure id => m.call id args
  | _ => perform m (.call f) args

def rawGet (t : TableObject N) (k : Value N) : Option (Value N) :=
  (t.entries.find? (fun p => rawEqual p.1 k)).map Prod.snd

def rawSet (t : TableObject N) (k v : Value N) : TableObject N :=
  { t with entries := (k, v) :: t.entries.filter (fun p => !rawEqual p.1 k) }

/-- `nil` and NaN are no table keys. -/
def validKey (k : Value N) : Bool :=
  match k with
  | .nil => false
  | k => rawEqual k k

def indexValue (m : Machine N) (o k : Value N) : Run N (Value N) :=
  match o with
  | .table id => do
      let t ← Prog.read (fun s => s.heap.tables id)
      match rawGet t k with
      | some v => pure v
      | none => if t.hasMetatable then return first (← perform m .getIndex [o, k]) else pure .nil
  | _ => do return first (← perform m .getIndex [o, k])

def setIndexValue (m : Machine N) (o k v : Value N) : Run N Unit :=
  match o with
  | .table id => do
      let t ← Prog.read (fun s => s.heap.tables id)
      if (rawGet t k).isNone && t.hasMetatable then
        let _ ← perform m .setIndex [o, k, v]
      else if validKey k then
        Prog.write (fun s => { s with
          heap := { s.heap with tables := Function.update s.heap.tables id (rawSet t k v) } })
      else Prog.raise k
  | _ => do let _ ← perform m .setIndex [o, k, v]

def unaryOp (m : Machine N) (op : UnaryOperator) (v : Value N) : Run N (Value N) :=
  match op, v with
  | .not, v => pure (.boolean (!v.truthy))
  | .minus, .number n => pure (.number (LuaNumber.neg n))
  | .length, .string s => pure (.number (LuaNumber.ofNat s.length))
  | op, v => do return first (← perform m (.unary op) [v])

def arithmetic (op : BinaryOperator) (l r : N) : Option (Value N) :=
  match op with
  | .add => some (.number (LuaNumber.add l r))
  | .sub => some (.number (LuaNumber.sub l r))
  | .mul => some (.number (LuaNumber.mul l r))
  | .div => some (.number (LuaNumber.div l r))
  | .mod => some (.number (LuaNumber.mod l r))
  | .pow => some (.number (LuaNumber.pow l r))
  | .lt => some (.boolean (LuaNumber.lt l r))
  | .le => some (.boolean (LuaNumber.le l r))
  | .gt => some (.boolean (LuaNumber.lt r l))
  | .ge => some (.boolean (LuaNumber.le r l))
  | .concat => none
  | .eq => none
  | .ne => none

/-- Equality, which consults the runtime for two distinct tables. -/
def equalValues (m : Machine N) (l r : Value N) : Run N Bool :=
  match l, r with
  | .table a, .table b =>
      if a = b then pure true else do
        let ta ← Prog.read (fun s => s.heap.tables a)
        let tb ← Prog.read (fun s => s.heap.tables b)
        if ta.hasMetatable || tb.hasMetatable then
          return (first (← perform m (.binary .eq) [l, r])).truthy
        else pure false
  | l, r => pure (rawEqual l r)

def binaryOp (m : Machine N) (op : BinaryOperator) (l r : Value N) : Run N (Value N) :=
  match op with
  | .eq => do return .boolean (← equalValues m l r)
  | .ne => do return .boolean (!(← equalValues m l r))
  | .concat => match l, r with
      | .string a, .string b => pure (.string (a++b))
      | l, r => do return first (← perform m (.binary .concat) [l, r])
  | op => match l, r with
      | .number a, .number b => match arithmetic op a b with
          | some v => pure v
          | none => malformed
      | l, r => do return first (← perform m (.binary op) [l, r])

def readName (env : Env) (name : String) : Run N (Value N) :=
  match env.lookup name with
  | some a => readCell a
  | none => readGlobal name

/-- Where an assignment stores its value. -/
inductive Target (N : Type) : Type where
  | name (name : String)
  | slot (object key : Value N)

def store (m : Machine N) (env : Env) (t : Target N) (v : Value N) : Run N Unit :=
  match t with
  | .name x => match env.lookup x with
      | some a => writeCell a v
      | none => writeGlobal x v
  | .slot o k => setIndexValue m o k v

/-- Assigns right to left, as the reference interpreter does; missing values are `nil`. -/
def storeAll (m : Machine N) (env : Env) : List (Target N) → List (Value N) → Run N Unit
  | [], _ => pure ()
  | t::ts, vs => do
      storeAll m env ts vs.tail
      store m env t (first vs)

/-- Declares locals in fresh cells; a name position that holds no identifier is malformed. -/
def declare (env : Env) : List (Expr N) → List (Value N) → Run N Env
  | [], _ => pure env
  | x::xs, vs => match x.name? with
      | some name => do
          let a ← newCell (first vs)
          declare ((name, a) :: env) xs vs.tail
      | none => malformed

def afterBody (sig : Signal N) : Option (Signal N) :=
  match sig with
  | .normal => none
  | .continued => none
  | .broke => some .normal
  | .returned vs => some (.returned vs)

end Operations
end LuaRecovery.Lua
