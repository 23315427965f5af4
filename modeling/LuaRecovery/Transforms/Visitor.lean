import LuaRecovery.Lua.Double
import Mathlib.Logic.Relation

/-!
# The rewriter of syntax trees

`transform` of `ast/visitor.js`. A value on the stack is taken apart, its parts
are pushed above a frame that finishes it, and each part is written to where it
belongs when it is done. As no node is shared, nobody but the frames of an
object sees what is written to it, and it is kept apart from the tree.
-/

set_option autoImplicit false

namespace LuaRecovery.Transforms
open LuaRecovery.Lua

inductive Primitive where
  | undefined
  | null
  | boolean (b : Bool)
  | number (n : Double)
  | string (s : String)

inductive JsValue where
  | primitive (p : Primitive)
  | array (items : List JsValue)
  | object (properties : List (String × JsValue))

abbrev Properties := List (String × JsValue)

namespace JsValue

@[match_pattern] abbrev undefined : JsValue := .primitive .undefined

@[match_pattern] abbrev null : JsValue := .primitive .null

def truthy : JsValue → Bool
  | .primitive .undefined => false
  | .primitive .null => false
  | .primitive (.boolean b) => b
  | .primitive (.number (.finite q _)) => q ≠ 0
  | .primitive (.number (.infinity _)) => true
  | .primitive (.number .nan) => false
  | .primitive (.string s) => s ≠ ""
  | .array _ => true
  | .object _ => true

/-- `typeof value === 'object'`, and not `null`. -/
def isObject : JsValue → Bool
  | .primitive _ => false
  | .array _ => true
  | .object _ => true

end JsValue

/-- The object is a node. -/
def hasType (properties : Properties) : Bool := (properties.lookup "type").any JsValue.truthy

/-- The property is walked into. -/
def isChild (name : String) (value : JsValue) : Bool :=
  name ≠ "loc" && name ≠ "type" && name ≠ "parent" && value.isObject

def setProperty (name : String) (value : JsValue) (properties : Properties) : Properties :=
  properties.map fun property => if property.1 = name then (name, value) else property

/-- The rewriting function: from a node, its parent as it is by then, and the key, a result. -/
abbrev Transformer (σ : Type) := JsValue → Option JsValue → Option String → σ → JsValue × σ

/-- A call of the rewriting function. -/
structure Call where
  node : JsValue
  parent : Option JsValue
  key : Option String
  result : JsValue

/-- Where a rewritten value is written to. -/
inductive Target where
  | result
  | item (array index : ℕ)
  | property (object : ℕ) (name : String)

inductive Frame where
  | value (value : JsValue) (parent : Option ℕ) (key : Option String) (assign : Target)
  | finishArray (array : ℕ) (assign : Target)
  | finishObject (object : ℕ) (parent : Option ℕ) (key : Option String) (assign : Target)

/-- The loop, with the objects and the arrays that were started so far. -/
structure Machine (σ : Type) where
  stack : List Frame
  objects : List Properties
  arrays : List (List JsValue)
  result : JsValue
  state : σ
  calls : List Call

namespace Machine
variable {σ : Type}

def object (m : Machine σ) (o : ℕ) : JsValue := .object (m.objects.getD o [])

def assign (m : Machine σ) (target : Target) (value : JsValue) : Machine σ :=
  match target with
  | .result => { m with result := value }
  | .item array index => { m with arrays := m.arrays.modify array (·.set index value) }
  | .property object name =>
      { m with objects := m.objects.modify object (setProperty name value) }

end Machine

/-- The entries of a finished list: neither `null` nor `undefined`, and arrays are spliced. -/
def spliced : JsValue → List JsValue
  | .undefined => []
  | .null => []
  | .array items => items
  | item => [item]

def itemFrames (parent : Option ℕ) (key : Option String) (array : ℕ) :
    ℕ → List JsValue → List Frame
  | _, [] => []
  | index, item::items =>
      .value item parent key (.item array index) :: itemFrames parent key array (index + 1) items

def childFrames (object : ℕ) : Properties → List Frame
  | [] => []
  | (name, child)::properties =>
      if isChild name child then
        .value child (some object) (some name) (.property object name) ::
          childFrames object properties
      else childFrames object properties

section Running
variable {σ : Type} (transformer : Transformer σ)

def keptOr (node replacement : JsValue) : JsValue :=
  match replacement with
  | .undefined => node
  | replacement => replacement

/-- One round of the loop. -/
def Machine.step (m : Machine σ) : Option (Machine σ) :=
  match m.stack with
  | [] => none
  | .finishArray array assign :: stack =>
      let output := (m.arrays.getD array []).flatMap spliced
      some ({ m with stack := stack }.assign assign (.array output))
  | .finishObject object parent key assign :: stack =>
      if hasType (m.objects.getD object []) then
        let node := m.object object
        let given := transformer node (parent.map m.object) key m.state
        let call := ⟨node, parent.map m.object, key, given.1⟩
        some ({ m with stack := stack, state := given.2, calls := m.calls ++ [call] }.assign assign
          (keptOr node given.1))
      else some ({ m with stack := stack }.assign assign (m.object object))
  | .value (.primitive p) _ _ assign :: stack =>
      some ({ m with stack := stack }.assign assign (.primitive p))
  | .value (.array items) parent key assign :: stack =>
      some { m with
        stack := itemFrames parent key m.arrays.length 0 items ++
          .finishArray m.arrays.length assign :: stack
        arrays := m.arrays ++ [List.replicate items.length .undefined] }
  | .value (.object properties) parent key assign :: stack =>
      some { m with
        stack := childFrames m.objects.length properties ++
          .finishObject m.objects.length parent key assign :: stack
        objects := m.objects ++ [properties] }

end Running

section Termination

mutual

/-- How many rounds a value takes at most. -/
def JsValue.rounds : JsValue → ℕ
  | .primitive _ => 1
  | .array items => 2 + itemRounds items
  | .object properties => 2 + propertyRounds properties

def itemRounds : List JsValue → ℕ
  | [] => 0
  | item::items => item.rounds + itemRounds items

def propertyRounds : Properties → ℕ
  | [] => 0
  | (_, child)::properties => child.rounds + propertyRounds properties

end

def Frame.rounds : Frame → ℕ
  | .value v _ _ _ => v.rounds
  | .finishArray _ _ => 1
  | .finishObject _ _ _ _ => 1

def Machine.rounds {σ : Type} (m : Machine σ) : ℕ := (m.stack.map Frame.rounds).sum

@[simp] theorem Machine.stack_assign {σ : Type} (m : Machine σ) (target : Target)
    (value : JsValue) : (m.assign target value).stack = m.stack := by
  cases target <;> rfl

theorem rounds_itemFrames (parent : Option ℕ) (key : Option String) (array index : ℕ)
    (items : List JsValue) :
    ((itemFrames parent key array index items).map Frame.rounds).sum = itemRounds items := by
  induction items generalizing index with
  | nil => rfl
  | cons item items ih =>
    rw [itemFrames, List.map_cons, List.sum_cons, ih]
    rfl

theorem rounds_childFrames (object : ℕ) (properties : Properties) :
    ((childFrames object properties).map Frame.rounds).sum ≤ propertyRounds properties := by
  induction properties with
  | nil => exact Nat.le_refl _
  | cons property properties ih =>
    obtain ⟨name, child⟩ := property
    rw [childFrames, propertyRounds]
    split
    · rw [List.map_cons, List.sum_cons]
      exact Nat.add_le_add_left ih _
    · omega

theorem Machine.step_rounds {σ : Type} {transformer : Transformer σ} {m m' : Machine σ}
    (h : m.step transformer = some m') : m'.rounds < m.rounds := by
  unfold Machine.step at h
  unfold Machine.rounds
  split at h
  · cases h
  next array assign stack heq =>
    cases h
    rw [heq, stack_assign]
    simp [Frame.rounds]
  next object parent key assign stack heq =>
    split at h <;> cases h
    · rw [heq, stack_assign]
      simp [Frame.rounds]
    · rw [heq, stack_assign]
      simp [Frame.rounds]
  next p parent key assign stack heq =>
    cases h
    rw [heq, stack_assign]
    simp [Frame.rounds, JsValue.rounds]
  next items parent key assign stack heq =>
    cases h
    rw [heq]
    simp only [List.map_append, List.map_cons, List.sum_append, List.sum_cons, rounds_itemFrames,
      Frame.rounds, JsValue.rounds]
    omega
  next properties parent key assign stack heq =>
    cases h
    rw [heq]
    have hle := rounds_childFrames m.objects.length properties
    simp only [List.map_append, List.map_cons, List.sum_append, List.sum_cons, Frame.rounds,
      JsValue.rounds]
    omega

/-- The loop, up to the end. -/
def Machine.run {σ : Type} (transformer : Transformer σ) (m : Machine σ) : Machine σ :=
  match _h : m.step transformer with
  | none => m
  | some m' => m'.run transformer
termination_by m.rounds
decreasing_by exact Machine.step_rounds _h

end Termination

/-- What rewriting gives: a value, what the rewriting function has kept, and its calls. -/
structure Outcome (σ α : Type) where
  value : α
  state : σ
  calls : List Call

def Machine.start {σ : Type} (node : JsValue) (s : σ) : Machine σ :=
  ⟨[.value node none none .result], [], [], node, s, []⟩

/-- `transform(node, transformer)`. -/
def transform {σ : Type} (node : JsValue) (transformer : Transformer σ) (s : σ) :
    Outcome σ JsValue :=
  let m := (Machine.start node s).run transformer
  ⟨m.result, m.state, m.calls⟩

/-- One round after the other. -/
def Machine.Leads {σ : Type} (transformer : Transformer σ) : Machine σ → Machine σ → Prop :=
  Relation.ReflTransGen fun m m' => m.step transformer = some m'

theorem Machine.run_of_leads {σ : Type} {transformer : Transformer σ} {m m' : Machine σ}
    (h : m.Leads transformer m') (hdone : m'.stack = []) : m.run transformer = m' := by
  induction h using Relation.ReflTransGen.head_induction_on with
  | refl =>
    have hstop : m'.step transformer = none := by
      rw [Machine.step, hdone]
    rw [Machine.run]
    split
    · rfl
    next heq =>
      rw [hstop] at heq
      cases heq
  | head hstep _ ih =>
    rw [Machine.run]
    split
    next heq =>
      rw [hstep] at heq
      cases heq
    next heq =>
      rw [hstep] at heq
      cases heq
      exact ih

end LuaRecovery.Transforms
