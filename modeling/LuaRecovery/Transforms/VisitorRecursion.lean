import LuaRecovery.Transforms.Visitor
import Mathlib.Data.List.Nodup

/-!
# The rewriter as a recursion

What the loop does is a recursion over the tree. It and the recursion that the
comments describe differ in what a node is replaced by when the rewriting
function gives `null`.
-/

set_option autoImplicit false

namespace LuaRecovery.Transforms
open LuaRecovery.Lua

/-- What becomes of a node with some result, and of a rewritten item in its list. -/
structure Policy where
  replaced : JsValue → JsValue → JsValue
  entries : JsValue → List JsValue

def Policy.coded : Policy := ⟨keptOr, spliced⟩

/-- `undefined` and `null` keep the node, any other result replaces it. -/
def keptOrReplaced (node result : JsValue) : JsValue :=
  match result with
  | .undefined => node
  | .null => node
  | result => result

/-- An array is spliced into the list around it. -/
def splicedArray : JsValue → List JsValue
  | .array items => items
  | item => [item]

def Policy.documented : Policy := ⟨keptOrReplaced, splicedArray⟩

section Recursion
variable {σ : Type} (policy : Policy) (transformer : Transformer σ)

/-- The node itself, after its children. -/
def rewriteNode (parent : Option JsValue) (key : Option String)
    (rewritten : Outcome σ Properties) : Outcome σ JsValue :=
  let node := .object rewritten.value
  if hasType rewritten.value then
    let given := transformer node parent key rewritten.state
    ⟨policy.replaced node given.1, given.2, rewritten.calls ++ [⟨node, parent, key, given.1⟩]⟩
  else ⟨node, rewritten.state, rewritten.calls⟩

mutual

def rewrite (parent : Option JsValue) (key : Option String) : JsValue → σ → Outcome σ JsValue
  | .primitive p, s => ⟨.primitive p, s, []⟩
  | .array items, s =>
      let rewritten := rewriteItems parent key items s
      ⟨.array (rewritten.value.flatMap policy.entries), rewritten.state, rewritten.calls⟩
  | .object properties, s =>
      rewriteNode policy transformer parent key (rewriteProperties [] properties s)

def rewriteItems (parent : Option JsValue) (key : Option String) :
    List JsValue → σ → Outcome σ (List JsValue)
  | [], s => ⟨[], s, []⟩
  | item::items, s =>
      let first := rewrite parent key item s
      let rest := rewriteItems parent key items first.state
      ⟨first.value :: rest.value, rest.state, first.calls ++ rest.calls⟩

/-- The properties of an object of which some are rewritten already. -/
def rewriteProperties (done : Properties) : Properties → σ → Outcome σ Properties
  | [], s => ⟨[], s, []⟩
  | (name, child)::properties, s =>
      if isChild name child then
        let parent := .object (done ++ (name, child)::properties)
        let first := rewrite (some parent) (some name) child s
        let rest := rewriteProperties (done ++ [(name, first.value)]) properties first.state
        ⟨(name, first.value) :: rest.value, rest.state, first.calls ++ rest.calls⟩
      else
        let rest := rewriteProperties (done ++ [(name, child)]) properties s
        ⟨(name, child) :: rest.value, rest.state, rest.calls⟩

end

end Recursion

section Trees

mutual

/-- A syntax tree: no object has a property twice, and no list holds a list, `null` or
`undefined`. -/
def JsValue.IsTree : JsValue → Prop
  | .primitive _ => True
  | .array items => AreEntries items
  | .object properties => (properties.map Prod.fst).Nodup ∧ AreProperties properties

def AreEntries : List JsValue → Prop
  | [] => True
  | item::items => item.IsTree ∧ spliced item = [item] ∧ AreEntries items

def AreProperties : Properties → Prop
  | [] => True
  | (_, child)::properties => child.IsTree ∧ AreProperties properties

end

end Trees

section Simulation
variable {σ : Type}

theorem modify_append {α : Type} {l : List α} {i : ℕ} {x : α} (h : l[i]? = some x) (f : α → α)
    (l' : List α) : (l ++ l').modify i f = l.set i (f x) ++ l' := by
  induction l generalizing i with
  | nil => cases h
  | cons y l ih =>
    cases i with
    | zero =>
      cases h
      rfl
    | succ i => exact congrArg (y :: ·) (ih h)

theorem set_replicate_next (done : List JsValue) (n : ℕ) (v : JsValue) :
    (done ++ List.replicate (n + 1) JsValue.undefined).set done.length v =
      (done ++ [v]) ++ List.replicate n JsValue.undefined := by
  rw [List.set_append_right _ _ (Nat.le_refl _), Nat.sub_self, List.append_assoc]
  rfl

theorem setProperty_next {done properties : Properties} {name : String} {child : JsValue}
    (hdone : name ∉ done.map Prod.fst) (hproperties : name ∉ properties.map Prod.fst)
    (v : JsValue) : setProperty name v (done ++ (name, child)::properties) =
      (done ++ [(name, v)]) ++ properties := by
  have hkeep : ∀ ps : Properties, name ∉ ps.map Prod.fst → setProperty name v ps = ps := by
    intro ps hps
    refine (List.map_congr_left ?_).trans (List.map_id ps)
    intro property hmem
    refine if_neg ?_
    rintro rfl
    exact hps (List.mem_map_of_mem hmem)
  have hhead : setProperty name v ((name, child)::properties) =
      (name, v) :: setProperty name v properties := by
    rw [setProperty, List.map_cons, if_pos rfl]
    rfl
  rw [setProperty, List.map_append]
  show setProperty name v done ++ setProperty name v ((name, child)::properties) = _
  rw [hkeep done hdone, hhead, hkeep properties hproperties, List.append_assoc]
  rfl

namespace Machine

def push (m : Machine σ) (frames : List Frame) : Machine σ :=
  { m with stack := frames ++ m.stack }

def setArray (m : Machine σ) (array : ℕ) (items : List JsValue) : Machine σ :=
  { m with arrays := m.arrays.set array items }

def setObject (m : Machine σ) (object : ℕ) (properties : Properties) : Machine σ :=
  { m with objects := m.objects.set object properties }

/-- The machine after a part of the tree: objects and arrays were added. -/
def after {α : Type} (m : Machine σ) (rewritten : Outcome σ α) (objects : List Properties)
    (arrays : List (List JsValue)) : Machine σ :=
  { m with
    objects := m.objects ++ objects
    arrays := m.arrays ++ arrays
    state := rewritten.state
    calls := m.calls ++ rewritten.calls }

theorem object_append {m m' : Machine σ} {parent : Option ℕ} {objects : List Properties}
    (hparent : ∀ o ∈ parent, o < m.objects.length) (h : m'.objects = m.objects ++ objects) :
    parent.map m'.object = parent.map m.object := by
  cases parent with
  | none => rfl
  | some o =>
    have hlt := hparent o rfl
    simp [Machine.object, h, List.getElem?_append_left hlt]

end Machine

variable (transformer : Transformer σ)

/-- What the recursion gives is what the loop writes, where it writes it. -/
def Simulates (v : JsValue) : Prop :=
  ∀ (m : Machine σ) (parent : Option ℕ) (key : Option String) (target : Target),
    (∀ o ∈ parent, o < m.objects.length) →
      let rewritten := rewrite .coded transformer (parent.map m.object) key v m.state
      ∃ objects arrays, (m.push [.value v parent key target]).Leads transformer
        ((m.after rewritten objects arrays).assign target rewritten.value)

def SimulatesItems (items : List JsValue) : Prop :=
  ∀ (m : Machine σ) (parent : Option ℕ) (key : Option String) (array : ℕ) (done : List JsValue),
    (∀ o ∈ parent, o < m.objects.length) →
    m.arrays[array]? = some (done ++ List.replicate items.length .undefined) →
      let rewritten := rewriteItems .coded transformer (parent.map m.object) key items m.state
      ∃ objects arrays, (m.push (itemFrames parent key array done.length items)).Leads transformer
        ((m.setArray array (done ++ rewritten.value)).after rewritten objects arrays)

def SimulatesProperties (properties : Properties) : Prop :=
  ∀ (m : Machine σ) (object : ℕ) (done : Properties),
    ((done ++ properties).map Prod.fst).Nodup →
    m.objects[object]? = some (done ++ properties) →
      let rewritten := rewriteProperties .coded transformer done properties m.state
      ∃ objects arrays, (m.push (childFrames object properties)).Leads transformer
        ((m.setObject object (done ++ rewritten.value)).after rewritten objects arrays)

variable {transformer}

theorem simulates_primitive (p : Primitive) : Simulates transformer (.primitive p) := by
  intro m parent key target _
  refine ⟨[], [], .single ?_⟩
  show some (m.assign target (.primitive p)) = _
  congr 1
  cases m
  simp [Machine.after, rewrite]

theorem getD_length {α : Type} (l : List α) (x : α) (l' : List α) (d : α) :
    (l ++ x::l').getD l.length d = x := by
  rw [List.getD_eq_getElem?_getD, List.getElem?_append_right (Nat.le_refl _), Nat.sub_self]
  rfl

theorem set_length {α : Type} (l : List α) (x y : α) : (l ++ [x]).set l.length y = l ++ [y] := by
  rw [List.set_append_right _ _ (Nat.le_refl _), Nat.sub_self]
  rfl

/-- After its items, an array is finished. -/
theorem step_finishArray (m : Machine σ) (target : Target) (buffer : List JsValue)
    (rewritten : Outcome σ (List JsValue)) (objects : List Properties)
    (arrays : List (List JsValue)) :
    Machine.step transformer
        (({ m with
            stack := .finishArray m.arrays.length target :: m.stack
            arrays := m.arrays ++ [buffer] } : Machine σ).setArray m.arrays.length
          rewritten.value |>.after rewritten objects arrays) =
      some ((m.after rewritten objects (rewritten.value :: arrays)).assign target
        (.array (rewritten.value.flatMap spliced))) := by
  simp only [Machine.step, Machine.after, Machine.setArray, set_length, List.append_assoc,
    List.cons_append, List.nil_append, getD_length]

theorem simulates_array {items : List JsValue} (h : SimulatesItems transformer items) :
    Simulates transformer (.array items) := by
  intro m parent key target hparent
  obtain ⟨objects, arrays, hitems⟩ := h
    { m with
      stack := .finishArray m.arrays.length target :: m.stack
      arrays := m.arrays ++ [List.replicate items.length .undefined] }
    parent key m.arrays.length [] hparent (by simp)
  refine ⟨objects, _, (Relation.ReflTransGen.head ?_ hitems).tail
    (step_finishArray m target _ _ objects arrays)⟩
  rfl

/-- After its properties, an object is finished. -/
theorem step_finishObject (m : Machine σ) {parent : Option ℕ} (key : Option String)
    (target : Target) (hparent : ∀ o ∈ parent, o < m.objects.length) (properties : Properties)
    (rewritten : Outcome σ Properties) (objects : List Properties)
    (arrays : List (List JsValue)) :
    let node := rewriteNode .coded transformer (parent.map m.object) key rewritten
    Machine.step transformer
        (({ m with
            stack := .finishObject m.objects.length parent key target :: m.stack
            objects := m.objects ++ [properties] } : Machine σ).setObject m.objects.length
          rewritten.value |>.after rewritten objects arrays) =
      some ((m.after node (rewritten.value :: objects) arrays).assign target node.value) := by
  simp only [Machine.step, Machine.after, Machine.setObject, set_length, List.append_assoc,
    List.cons_append, List.nil_append, getD_length, rewriteNode]
  split
  · rw [Machine.object_append hparent]
    · simp only [Machine.object, getD_length]
      rfl
    · rfl
  · simp only [Machine.object, getD_length]

theorem simulates_object {properties : Properties} (hkeys : (properties.map Prod.fst).Nodup)
    (h : SimulatesProperties transformer properties) :
    Simulates transformer (.object properties) := by
  intro m parent key target hparent
  obtain ⟨objects, arrays, hproperties⟩ := h
    { m with
      stack := .finishObject m.objects.length parent key target :: m.stack
      objects := m.objects ++ [properties] }
    m.objects.length [] hkeys (by simp)
  refine ⟨_, arrays, (Relation.ReflTransGen.head ?_ hproperties).tail
    (step_finishObject m key target hparent properties _ objects arrays)⟩
  rfl

theorem set_self {α : Type} {l : List α} {i : ℕ} {x : α} (h : l[i]? = some x) : l.set i x = l := by
  obtain ⟨hlt, rfl⟩ := List.getElem?_eq_some_iff.mp h
  exact List.set_getElem_self hlt

theorem simulatesItems_nil : SimulatesItems transformer [] := by
  intro m parent key array done _ harray
  have harray' : m.arrays[array]? = some done := by simpa using harray
  refine ⟨[], [], ?_⟩
  have hend : (m.setArray array (done ++ [])).after
      (⟨[], m.state, []⟩ : Outcome σ (List JsValue)) [] [] = m := by
    simp only [Machine.after, Machine.setArray, List.append_nil, set_self harray']
  rw [rewriteItems, hend]
  exact .refl

theorem getElem?_written {α : Type} {l : List α} {i : ℕ} (h : i < l.length) (x : α)
    (l' : List α) : (l.set i x ++ l')[i]? = some x := by
  rw [List.getElem?_append_left (by rwa [List.length_set]), List.getElem?_set_self h]

theorem set_written {α : Type} {l : List α} {i : ℕ} (h : i < l.length) (x y : α) (l' : List α) :
    (l.set i x ++ l').set i y = l.set i y ++ l' := by
  rw [List.set_append_left _ _ (by rwa [List.length_set]), List.set_set]

theorem simulatesItems_cons {item : JsValue} {items : List JsValue}
    (hitem : Simulates transformer item) (hitems : SimulatesItems transformer items) :
    SimulatesItems transformer (item::items) := by
  intro m parent key array done hparent harray
  have hlt : array < m.arrays.length := (List.getElem?_eq_some_iff.mp harray).1
  obtain ⟨objects, arrays, hfirst⟩ := hitem
    (m.push (itemFrames parent key array (done.length + 1) items)) parent key
    (.item array done.length) hparent
  set first := rewrite .coded transformer (parent.map m.object) key item m.state with hdef
  set next := (m.setArray array
    ((done ++ [first.value]) ++ List.replicate items.length .undefined)).after first objects
    arrays with hnext
  have hwrite : ((m.push (itemFrames parent key array (done.length + 1) items)).after first objects
        arrays).assign (.item array done.length) first.value =
      next.push (itemFrames parent key array (done.length + 1) items) := by
    simp only [hnext, Machine.assign, Machine.after, Machine.push, Machine.setArray,
      modify_append harray, List.length_cons, set_replicate_next]
  have hparent' : ∀ o ∈ parent, o < next.objects.length := by
    intro o ho
    rw [hnext]
    exact (hparent o ho).trans_le (by simp [Machine.after, Machine.setArray])
  have hsame : parent.map next.object = parent.map m.object :=
    @Machine.object_append _ _ _ _ objects hparent rfl
  obtain ⟨objects', arrays', hrest⟩ := hitems next parent key array (done ++ [first.value]) hparent'
    (getElem?_written hlt _ _)
  rw [hsame, List.length_append] at hrest
  refine ⟨objects ++ objects', arrays ++ arrays', ?_⟩
  have hend : (next.setArray array ((done ++ [first.value]) ++
        (rewriteItems .coded transformer (parent.map m.object) key items next.state).value)).after
        (rewriteItems .coded transformer (parent.map m.object) key items next.state) objects'
        arrays' =
      (m.setArray array (done ++ (rewriteItems .coded transformer (parent.map m.object) key
        (item::items) m.state).value)).after (rewriteItems .coded transformer
        (parent.map m.object) key (item::items) m.state) (objects ++ objects')
        (arrays ++ arrays') := by
    simp only [hnext, Machine.after, Machine.setArray, set_written hlt, List.append_assoc,
      rewriteItems, ← hdef, List.cons_append, List.nil_append]
  rw [← hend]
  refine Relation.ReflTransGen.trans ?_ hrest
  show Machine.Leads transformer _ (next.push (itemFrames parent key array (done.length + 1) items))
  rw [← hwrite]
  exact hfirst

theorem simulatesProperties_nil : SimulatesProperties transformer [] := by
  intro m object done _ hobject
  have hobject' : m.objects[object]? = some done := by simpa using hobject
  refine ⟨[], [], ?_⟩
  have hend : (m.setObject object (done ++ [])).after
      (⟨[], m.state, []⟩ : Outcome σ Properties) [] [] = m := by
    simp only [Machine.after, Machine.setObject, List.append_nil, set_self hobject']
  rw [rewriteProperties, hend]
  exact .refl

theorem simulatesProperties_skip {name : String} {child : JsValue} {properties : Properties}
    (hchild : isChild name child = false) (h : SimulatesProperties transformer properties) :
    SimulatesProperties transformer ((name, child)::properties) := by
  intro m object done hkeys hobject
  rw [List.append_cons] at hkeys hobject
  obtain ⟨objects, arrays, hrest⟩ := h m object (done ++ [(name, child)]) hkeys hobject
  refine ⟨objects, arrays, ?_⟩
  simp only [childFrames, rewriteProperties, hchild, Bool.false_eq_true, if_false]
  rw [List.append_cons]
  exact hrest

theorem simulatesProperties_child {name : String} {child : JsValue} {properties : Properties}
    (hchild : isChild name child = true) (hvalue : Simulates transformer child)
    (h : SimulatesProperties transformer properties) :
    SimulatesProperties transformer ((name, child)::properties) := by
  intro m object done hkeys hobject
  have hlt : object < m.objects.length := (List.getElem?_eq_some_iff.mp hobject).1
  have hnames : (name :: (done.map Prod.fst ++ properties.map Prod.fst)).Nodup := by
    rw [List.map_append, List.map_cons] at hkeys
    exact List.nodup_middle.mp hkeys
  have hname := (List.nodup_cons.mp hnames).1
  rw [List.mem_append, not_or] at hname
  have hbound : ∀ o ∈ some object, o < m.objects.length := by
    intro o ho
    cases ho
    exact hlt
  obtain ⟨objects, arrays, hfirst⟩ := hvalue (m.push (childFrames object properties))
    (some object) (some name) (.property object name) hbound
  have hparent : (some object).map m.object =
      some (.object (done ++ (name, child)::properties)) := by
    rw [Option.map_some, Machine.object, List.getD_eq_getElem?_getD, hobject]
    rfl
  set first := rewrite .coded transformer (some (.object (done ++ (name, child)::properties)))
    (some name) child m.state with hdef
  set next := (m.setObject object ((done ++ [(name, first.value)]) ++ properties)).after first
    objects arrays with hnext
  have hwrite : ((m.push (childFrames object properties)).after first objects arrays).assign
      (.property object name) first.value = next.push (childFrames object properties) := by
    simp only [hnext, Machine.assign, Machine.after, Machine.push, Machine.setObject,
      modify_append hobject, setProperty_next hname.1 hname.2]
  have hfirst' : (m.push (.value child (some object) (some name) (.property object name) ::
      childFrames object properties)).Leads transformer
        (next.push (childFrames object properties)) := by
    rw [← hwrite, hdef, ← hparent]
    exact hfirst
  obtain ⟨objects', arrays', hrest⟩ := h next object (done ++ [(name, first.value)])
    (by simpa using hkeys) (getElem?_written hlt _ _)
  refine ⟨objects ++ objects', arrays ++ arrays', ?_⟩
  have hend : (next.setObject object ((done ++ [(name, first.value)]) ++ (rewriteProperties .coded
        transformer (done ++ [(name, first.value)]) properties next.state).value)).after
        (rewriteProperties .coded transformer (done ++ [(name, first.value)]) properties
          next.state) objects' arrays' =
      (m.setObject object (done ++ (rewriteProperties .coded transformer done
        ((name, child)::properties) m.state).value)).after (rewriteProperties .coded transformer
        done ((name, child)::properties) m.state) (objects ++ objects') (arrays ++ arrays') := by
    simp only [hnext, Machine.after, Machine.setObject, set_written hlt, List.append_assoc,
      rewriteProperties, hchild, if_true, ← hdef, List.cons_append, List.nil_append]
  rw [← hend, childFrames, if_pos hchild]
  exact hfirst'.trans hrest

mutual

theorem simulates : ∀ v : JsValue, v.IsTree → Simulates transformer v
  | .primitive p, _ => simulates_primitive p
  | .array items, h => simulates_array (simulates_items items h)
  | .object properties, h => simulates_object h.1 (simulates_properties properties h.2)

theorem simulates_items : ∀ items : List JsValue, AreEntries items →
    SimulatesItems transformer items
  | [], _ => simulatesItems_nil
  | item::items, h => simulatesItems_cons (simulates item h.1) (simulates_items items h.2.2)

theorem simulates_properties : ∀ properties : Properties, AreProperties properties →
    SimulatesProperties transformer properties
  | [], _ => simulatesProperties_nil
  | (name, child)::properties, h => by
    cases hchild : isChild name child with
    | true =>
      exact simulatesProperties_child hchild (simulates child h.1)
        (simulates_properties properties h.2)
    | false => exact simulatesProperties_skip hchild (simulates_properties properties h.2)

end

/-- The loop does what the recursion does. -/
theorem transform_eq_rewrite (node : JsValue) (h : node.IsTree) (s : σ) :
    transform node transformer s = rewrite .coded transformer none none node s := by
  obtain ⟨objects, arrays, hleads⟩ := @simulates _ transformer node h
    ⟨[], [], [], node, s, []⟩ none none .result nofun
  have hrun := Machine.run_of_leads hleads rfl
  show (⟨((Machine.start node s).run transformer).result, _, _⟩ : Outcome σ JsValue) = _
  rw [show (Machine.start node s).run transformer = _ from hrun]
  rfl

end Simulation

section Comparison
variable {σ : Type}

/-- Some call of the rewriting function gave `null`. -/
def ReturnsNull (calls : List Call) : Prop := ∃ call ∈ calls, call.result = .null

/-- At some point the one list has another call than the other. -/
def Diverged (calls calls' : List Call) : Prop :=
  ∃ before call call' after after', calls = before ++ call::after ∧
    calls' = before ++ call'::after' ∧ call ≠ call'

theorem returnsNull_append {calls calls' : List Call} :
    ReturnsNull (calls ++ calls') ↔ ReturnsNull calls ∨ ReturnsNull calls' := by
  simp only [ReturnsNull, List.mem_append, or_and_right, exists_or]

theorem returnsNull_singleton {call : Call} : ReturnsNull [call] ↔ call.result = .null := by
  simp [ReturnsNull]

theorem Diverged.ne {calls calls' : List Call} (h : Diverged calls calls') : calls ≠ calls' := by
  obtain ⟨before, call, call', after, after', rfl, rfl, hne⟩ := h
  intro heq
  exact hne (List.cons.inj (List.append_cancel_left heq)).1

theorem Diverged.append {calls calls' : List Call} (h : Diverged calls calls')
    (later later' : List Call) : Diverged (calls ++ later) (calls' ++ later') := by
  obtain ⟨before, call, call', after, after', rfl, rfl, hne⟩ := h
  exact ⟨before, call, call', after ++ later, after' ++ later', by simp, by simp, hne⟩

theorem Diverged.prepend {calls calls' : List Call} (h : Diverged calls calls')
    (earlier : List Call) : Diverged (earlier ++ calls) (earlier ++ calls') := by
  obtain ⟨before, call, call', after, after', rfl, rfl, hne⟩ := h
  exact ⟨earlier ++ before, call, call', after, after', by simp, by simp, hne⟩

theorem diverged_last (calls : List Call) {call call' : Call} (h : call ≠ call') :
    Diverged (calls ++ [call]) (calls ++ [call']) :=
  ⟨calls, call, call', [], [], rfl, rfl, h⟩

/-- Either the calls part, for `null` or because they had other parents to begin with, or what is
kept is the same and the agreement holds. -/
def Compared {α : Type} (same : Prop) (coded documented : Outcome σ α) (agreement : Prop) : Prop :=
  Diverged coded.calls documented.calls ∧ (same → ReturnsNull documented.calls) ∨
    coded.calls = documented.calls ∧ coded.state = documented.state ∧ agreement

theorem Compared.imp {α : Type} {same agreement agreement' : Prop} {coded documented : Outcome σ α}
    (h : Compared same coded documented agreement) (himp : agreement → agreement') :
    Compared same coded documented agreement' :=
  h.imp_right fun ⟨hcalls, hstate, hagree⟩ => ⟨hcalls, hstate, himp hagree⟩

/-- Entries may get lost, and do so for `null` only. -/
def EntriesAgree (entries entries' : List JsValue) (lost : Prop) : Prop :=
  entries.length ≤ entries'.length ∧ (entries = entries' ↔ ¬ lost)

theorem EntriesAgree.append {l l' k k' : List JsValue} {lost lost' : Prop}
    (h : EntriesAgree l l' lost) (h' : EntriesAgree k k' lost') :
    EntriesAgree (l ++ k) (l' ++ k') (lost ∨ lost') := by
  refine ⟨?_, ?_⟩
  · rw [List.length_append, List.length_append]
    exact Nat.add_le_add h.1 h'.1
  · rw [not_or, ← h.2, ← h'.2]
    constructor
    · intro heq
      have hlength := congrArg List.length heq
      rw [List.length_append, List.length_append] at hlength
      have hle := h.1
      have hle' := h'.1
      exact List.append_inj heq (by omega)
    · rintro ⟨rfl, rfl⟩
      rfl

variable (transformer : Transformer σ)

/-- What the two recursions give for a value, with any parents. -/
def Comparable (v : JsValue) : Prop :=
  ∀ (parent parent' : Option JsValue) (key : Option String) (s : σ),
    let coded := rewrite .coded transformer parent key v s
    let documented := rewrite .documented transformer parent' key v s
    Compared (parent = parent') coded documented
      ((coded.value = documented.value ↔ ¬ ReturnsNull documented.calls) ∧
        (spliced v = [v] → EntriesAgree (spliced coded.value) (splicedArray documented.value)
          (ReturnsNull documented.calls)))

def ComparableItems (items : List JsValue) : Prop :=
  ∀ (parent parent' : Option JsValue) (key : Option String) (s : σ),
    let coded := rewriteItems .coded transformer parent key items s
    let documented := rewriteItems .documented transformer parent' key items s
    Compared (parent = parent') coded documented
      (EntriesAgree (coded.value.flatMap spliced) (documented.value.flatMap splicedArray)
        (ReturnsNull documented.calls))

def ComparableProperties (properties : Properties) : Prop :=
  ∀ (done done' : Properties) (s : σ),
    let coded := rewriteProperties .coded transformer done properties s
    let documented := rewriteProperties .documented transformer done' properties s
    Compared (done = done') coded documented
      (coded.value = documented.value ↔ ¬ ReturnsNull documented.calls)

variable {transformer}

theorem comparable_primitive (p : Primitive) : Comparable transformer (.primitive p) := by
  intro parent parent' key s
  refine Or.inr ⟨rfl, rfl, ?_, ?_⟩
  · simp [rewrite, ReturnsNull]
  · intro hentry
    rw [rewrite, rewrite, hentry]
    simp [EntriesAgree, splicedArray, ReturnsNull]

theorem comparable_array {items : List JsValue} (h : ComparableItems transformer items) :
    Comparable transformer (.array items) := by
  intro parent parent' key s
  rcases h parent parent' key s with ⟨hdiverged, hnull⟩ | ⟨hcalls, hstate, hentries⟩
  · exact Or.inl ⟨hdiverged, hnull⟩
  · refine Or.inr ⟨hcalls, hstate, ?_, ?_⟩
    · simp only [rewrite, JsValue.array.injEq]
      exact hentries.2
    · intro hentry
      simp only [rewrite]
      exact hentries

theorem comparableItems_nil : ComparableItems transformer [] := by
  intro parent parent' key s
  refine Or.inr ⟨rfl, rfl, ?_⟩
  simp [rewriteItems, EntriesAgree, ReturnsNull]

theorem comparableItems_cons {item : JsValue} {items : List JsValue}
    (hentry : spliced item = [item]) (hitem : Comparable transformer item) (hitems : ComparableItems transformer items) :
    ComparableItems transformer (item::items) := by
  intro parent parent' key s
  simp only [rewriteItems]
  rcases hitem parent parent' key s with ⟨hdiverged, hnull⟩ | ⟨hcalls, hstate, -, hagree⟩
  · exact Or.inl ⟨hdiverged.append _ _, fun hsame => returnsNull_append.mpr (Or.inl (hnull hsame))⟩
  · rw [hcalls, hstate]
    rcases hitems parent parent' key (rewrite .documented transformer parent' key item s).state with
      ⟨hdiverged, hnull⟩ | ⟨hcalls', hstate', hagree'⟩
    · exact Or.inl ⟨hdiverged.prepend _,
        fun hsame => returnsNull_append.mpr (Or.inr (hnull hsame))⟩
    · refine Or.inr ⟨congrArg (_ ++ ·) hcalls', hstate', ?_⟩
      simp only [List.flatMap_cons, returnsNull_append]
      exact (hagree hentry).append hagree'

theorem comparableProperties_nil : ComparableProperties transformer [] := by
  intro done done' s
  refine Or.inr ⟨rfl, rfl, ?_⟩
  simp [rewriteProperties, ReturnsNull]

theorem comparableProperties_skip {name : String} {child : JsValue} {properties : Properties}
    (hchild : isChild name child = false) (h : ComparableProperties transformer properties) :
    ComparableProperties transformer ((name, child)::properties) := by
  intro done done' s
  simp only [rewriteProperties, hchild, Bool.false_eq_true, if_false]
  rcases h (done ++ [(name, child)]) (done' ++ [(name, child)]) s with
    ⟨hdiverged, hnull⟩ | ⟨hcalls, hstate, hagree⟩
  · exact Or.inl ⟨hdiverged, fun hsame => hnull (by rw [hsame])⟩
  · refine Or.inr ⟨hcalls, hstate, ?_⟩
    simp only [List.cons.injEq, true_and]
    exact hagree

theorem comparableProperties_child {name : String} {child : JsValue} {properties : Properties}
    (hchild : isChild name child = true) (hvalue : Comparable transformer child)
    (h : ComparableProperties transformer properties) :
    ComparableProperties transformer ((name, child)::properties) := by
  intro done done' s
  simp only [rewriteProperties, hchild, if_true]
  have hparents : done = done' →
      some (JsValue.object (done ++ (name, child)::properties)) =
        some (.object (done' ++ (name, child)::properties)) := by
    rintro rfl
    rfl
  rcases hvalue (some (.object (done ++ (name, child)::properties)))
    (some (.object (done' ++ (name, child)::properties))) (some name) s with
    ⟨hdiverged, hnull⟩ | ⟨hcalls, hstate, hagree, -⟩
  · exact Or.inl ⟨hdiverged.append _ _,
      fun hsame => returnsNull_append.mpr (Or.inl (hnull (hparents hsame)))⟩
  rw [hcalls, hstate]
  set first := rewrite .coded transformer (some (.object (done ++ (name, child)::properties)))
    (some name) child s
  set first' := rewrite .documented transformer
    (some (.object (done' ++ (name, child)::properties))) (some name) child s
  rcases h (done ++ [(name, first.value)]) (done' ++ [(name, first'.value)]) first'.state with
    ⟨hdiverged, hnull⟩ | ⟨hcalls', hstate', hagree'⟩
  · refine Or.inl ⟨hdiverged.prepend _, ?_⟩
    intro hsame
    rw [returnsNull_append]
    by_cases hfirst : ReturnsNull first'.calls
    · exact Or.inl hfirst
    · refine Or.inr (hnull ?_)
      rw [hsame, hagree.mpr hfirst]
  · refine Or.inr ⟨congrArg (_ ++ ·) hcalls', hstate', ?_⟩
    rw [returnsNull_append, not_or, ← hagree, ← hagree', List.cons.injEq, Prod.mk.injEq]
    simp only [true_and]

theorem type_rewriteProperties (policy : Policy) (done properties : Properties) (s : σ) :
    (rewriteProperties policy transformer done properties s).value.lookup "type" =
      properties.lookup "type" := by
  induction properties generalizing done s with
  | nil => rfl
  | cons property properties ih =>
    obtain ⟨name, child⟩ := property
    rw [rewriteProperties]
    split
    next hchild =>
      have hname : ("type" == name) = false := by
        rw [beq_eq_false_iff_ne]
        rintro rfl
        simp [isChild] at hchild
      rw [List.lookup_cons, List.lookup_cons, hname]
      exact ih _ _
    next =>
      rw [List.lookup_cons, List.lookup_cons]
      cases "type" == name with
      | true => rfl
      | false => exact ih _ _

theorem hasType_rewriteProperties (policy : Policy) (done properties : Properties) (s : σ) :
    hasType (rewriteProperties policy transformer done properties s).value =
      hasType properties := by
  rw [hasType, hasType, type_rewriteProperties]

theorem entriesAgree_singleton {v v' : JsValue} {lost : Prop} (h : v = v' ↔ ¬ lost) :
    EntriesAgree [v] [v'] lost := by
  refine ⟨Nat.le_refl _, ?_⟩
  rw [List.singleton_inj]
  exact h

/-- For a node, the two policies differ at `null` only. -/
theorem replaced_agree (properties : Properties) (result : JsValue) :
    (keptOr (.object properties) result = keptOrReplaced (.object properties) result ↔
        ¬ result = .null) ∧
      EntriesAgree (spliced (keptOr (.object properties) result))
        (splicedArray (keptOrReplaced (.object properties) result)) (result = .null) := by
  cases result with
  | primitive p =>
    cases p <;> simp [keptOr, keptOrReplaced, EntriesAgree, spliced, splicedArray]
  | array items => simp [keptOr, keptOrReplaced, EntriesAgree, spliced, splicedArray]
  | object properties' => simp [keptOr, keptOrReplaced, EntriesAgree, spliced, splicedArray]

/-- An object that is no node. -/
theorem compared_untyped {coded documented : Outcome σ Properties} {parent parent' : Option JsValue}
    {key : Option String} (hcoded : hasType coded.value = false)
    (hdocumented : hasType documented.value = false)
    (h : Compared True coded documented
      (coded.value = documented.value ↔ ¬ ReturnsNull documented.calls)) :
    let node := rewriteNode .coded transformer parent key coded
    let node' := rewriteNode .documented transformer parent' key documented
    Compared (parent = parent') node node'
      ((node.value = node'.value ↔ ¬ ReturnsNull node'.calls) ∧
        EntriesAgree (spliced node.value) (splicedArray node'.value)
          (ReturnsNull node'.calls)) := by
  simp only [rewriteNode, hcoded, hdocumented, Bool.false_eq_true, if_false]
  rcases h with ⟨hdiverged, hnull⟩ | ⟨hcalls, hstate, hagree⟩
  · exact Or.inl ⟨hdiverged, fun _ => hnull trivial⟩
  · have hobject : JsValue.object coded.value = .object documented.value ↔
        ¬ ReturnsNull documented.calls := by
      rw [JsValue.object.injEq]
      exact hagree
    exact Or.inr ⟨hcalls, hstate, hobject, entriesAgree_singleton hobject⟩

/-- A node: the calls part here where its parents or its children were rewritten differently. -/
theorem compared_node {coded documented : Outcome σ Properties} {parent parent' : Option JsValue}
    {key : Option String} (hcoded : hasType coded.value = true)
    (hdocumented : hasType documented.value = true)
    (h : Compared True coded documented
      (coded.value = documented.value ↔ ¬ ReturnsNull documented.calls)) :
    let node := rewriteNode .coded transformer parent key coded
    let node' := rewriteNode .documented transformer parent' key documented
    Compared (parent = parent') node node'
      ((node.value = node'.value ↔ ¬ ReturnsNull node'.calls) ∧
        EntriesAgree (spliced node.value) (splicedArray node'.value)
          (ReturnsNull node'.calls)) := by
  simp only [rewriteNode, hcoded, hdocumented, if_true]
  rcases h with ⟨hdiverged, hnull⟩ | ⟨hcalls, hstate, hagree⟩
  · exact Or.inl ⟨hdiverged.append _ _, fun _ => returnsNull_append.mpr (Or.inl (hnull trivial))⟩
  rw [hcalls, hstate]
  by_cases hnull : ReturnsNull documented.calls
  · refine Or.inl ⟨diverged_last _ ?_, fun _ => returnsNull_append.mpr (Or.inl hnull)⟩
    intro heq
    have hvalues : coded.value = documented.value := JsValue.object.inj (congrArg Call.node heq)
    exact hagree.mp hvalues hnull
  · rw [hagree.mpr hnull]
    by_cases hparent : parent = parent'
    · subst hparent
      obtain ⟨hvalue, hentries⟩ := replaced_agree documented.value
        (transformer (.object documented.value) parent key documented.state).1
      refine Or.inr ⟨rfl, rfl, ?_⟩
      simp only [returnsNull_append, returnsNull_singleton, hnull, false_or]
      exact ⟨hvalue, hentries⟩
    · refine Or.inl ⟨diverged_last _ ?_, fun hsame => absurd hsame hparent⟩
      intro heq
      exact hparent (congrArg Call.parent heq)

theorem comparable_object {properties : Properties}
    (h : ComparableProperties transformer properties) :
    Comparable transformer (.object properties) := by
  intro parent parent' key s
  have htype := @hasType_rewriteProperties _ transformer .coded [] properties s
  have htype' := @hasType_rewriteProperties _ transformer .documented [] properties s
  have hrewritten := h [] [] s
  rw [show (([] : Properties) = []) = True from eq_self _] at hrewritten
  simp only [rewrite]
  cases hnode : hasType properties with
  | false =>
    exact (compared_untyped (htype.trans hnode) (htype'.trans hnode) hrewritten).imp
      fun hagree => ⟨hagree.1, fun _ => hagree.2⟩
  | true =>
    exact (compared_node (htype.trans hnode) (htype'.trans hnode) hrewritten).imp
      fun hagree => ⟨hagree.1, fun _ => hagree.2⟩

mutual

theorem comparable : ∀ v : JsValue, v.IsTree → Comparable transformer v
  | .primitive p, _ => comparable_primitive p
  | .array items, h => comparable_array (comparable_items items h)
  | .object properties, h => comparable_object (comparable_properties properties h.2)

theorem comparable_items : ∀ items : List JsValue, AreEntries items →
    ComparableItems transformer items
  | [], _ => comparableItems_nil
  | item::items, h =>
      comparableItems_cons h.2.1 (comparable item h.1) (comparable_items items h.2.2)

theorem comparable_properties : ∀ properties : Properties, AreProperties properties →
    ComparableProperties transformer properties
  | [], _ => comparableProperties_nil
  | (name, child)::properties, h => by
    cases hchild : isChild name child with
    | true =>
      exact comparableProperties_child hchild (comparable child h.1)
        (comparable_properties properties h.2)
    | false => exact comparableProperties_skip hchild (comparable_properties properties h.2)

end

/-- The recursion that the comments describe. -/
def transformDocumented (node : JsValue) (transformer : Transformer σ) (s : σ) :
    Outcome σ JsValue :=
  rewrite .documented transformer none none node s

/-- The loop gives what the comments describe, with the same calls, if and only if the rewriting
function gives `null` in none of them. -/
theorem transform_eq_documented_iff (node : JsValue) (h : node.IsTree) (transformer : Transformer σ)
    (s : σ) :
    transform node transformer s = transformDocumented node transformer s ↔
      ¬ ReturnsNull (transformDocumented node transformer s).calls := by
  rw [transform_eq_rewrite node h s, transformDocumented]
  rcases comparable node h none none none s with
    ⟨hdiverged, hnull⟩ | ⟨hcalls, hstate, hvalue, -⟩
  · refine iff_of_false ?_ (fun hnot => hnot (hnull rfl))
    intro heq
    exact hdiverged.ne (congrArg Outcome.calls heq)
  · rw [← hvalue]
    constructor
    · intro heq
      rw [heq]
    · intro heq
      exact Outcome.mk.injEq .. ▸ ⟨heq, hstate, hcalls⟩

end Comparison

section Cases

/-- A chunk with an empty statement. -/
def emptyChunk : JsValue :=
  .object [("type", .primitive (.string "Chunk")),
    ("body", .array [.object [("type", .primitive (.string "EmptyStatement"))]])]

theorem isTree_emptyChunk : emptyChunk.IsTree := by
  simp [emptyChunk, JsValue.IsTree, AreEntries, AreProperties, spliced]

/-- Counts the nodes and keeps them. -/
def countNodes : Transformer ℕ := fun _ _ _ n => (.undefined, n + 1)

/-- Gives `null` for what is in a body. -/
def dropStatements : Transformer Unit := fun _ _ key u =>
  (if key = some "body" then .null else .undefined, u)

theorem transform_countNodes :
    transform emptyChunk countNodes 0 = transformDocumented emptyChunk countNodes 0 := by
  refine (transform_eq_documented_iff emptyChunk isTree_emptyChunk countNodes 0).mpr ?_
  have hresults : (transformDocumented emptyChunk countNodes 0).calls.map Call.result =
      [.undefined, .undefined] := rfl
  rintro ⟨call, hcall, hnull⟩
  have hmem := List.mem_map_of_mem (f := Call.result) hcall
  rw [hresults, hnull] at hmem
  simp at hmem

/-- The statement is gone, where the comments say that it stays. -/
theorem dropStatements_differs :
    ¬ transform emptyChunk dropStatements () =
      transformDocumented emptyChunk dropStatements () := by
  rw [transform_eq_rewrite emptyChunk isTree_emptyChunk ()]
  intro heq
  have hcoded : (rewrite .coded dropStatements none none emptyChunk ()).value =
      .object [("type", .primitive (.string "Chunk")), ("body", .array [])] := rfl
  have hdocumented : (transformDocumented emptyChunk dropStatements ()).value = emptyChunk := rfl
  rw [heq, hdocumented] at hcoded
  simp [emptyChunk] at hcoded

end Cases

end LuaRecovery.Transforms
