import LuaRecovery.Analysis.PointsTo
import LuaRecovery.Lib.Histories
import LuaRecovery.Lua.Interpreter

/-!
# Where the points-to analysis sees what a run does

The analysis goes through the assignments once, in the order of the text, and a
later one replaces an earlier one. A run takes them in any order. Where its calls
and copies find what the last assignment before them in the text has stored, the
analysis has seen it too.
-/

set_option autoImplicit false

namespace LuaRecovery.Analysis.PointsTo
open LuaRecovery.Lib LuaRecovery.Lua

section Runs
variable {N S : Type}

/-- A closure that a variable holds, and the assignment that stored it there. -/
structure Held (S : Type) where
  context : FunctionContext S
  site : ℕ

/-- The contents of the instances of the variables. -/
abbrev Store (S : Type) := String × ℕ → Option (Held S)

/-- An assignment of the text, on an instance of its target. Where it copies a variable,
`source` is the instance of that one. -/
structure Move where
  site : ℕ
  inst : ℕ
  source : ℕ

/-- A step of a run: the assignments of a statement, all at once, a call of a variable, or
any other store to a variable. -/
inductive Action where
  | assign (moves : List Move)
  | call (site inst : ℕ)
  | other (name : String) (inst : ℕ)

variable (constructors : InsertionMap ℕ (FunctionContext S)) (es : List (Event N))

/-- What an assignment stores, in a run: a new closure, or the one that it copies. -/
def storedBy (store : Store S) (move : Move) (init : Expr N) (node : ℕ) : Option (Held S) :=
  match constructors.get node with
  | some ctx => some ⟨ctx, move.site⟩
  | none => (init.name?.bind fun w => store (w, move.source)).map
      fun held => ⟨held.context, move.site⟩

/-- An assignment reads the store from before its statement. -/
def moveTo (before store : Store S) (move : Move) : Store S :=
  match es[move.site]? with
  | some (.assign target init node) => match target.name? with
      | some v => Function.update store (v, move.inst)
          (storedBy constructors before move init node)
      | none => store
  | _ => store

def act (store : Store S) : Action → Store S
  | .assign moves => moves.foldl (moveTo constructors es store) store
  | .call _ _ => store
  | .other v inst => Function.update store (v, inst) none

/-- Runs take the assignments and the calls of the text in any order, as often as they
like. The runs of the language are some of them. -/
def run (actions : List Action) : Store S :=
  actions.foldl (act constructors es) (fun _ => none)

/-- The variable that the analysis follows an assignment for. A copy is followed where the
variable that it copies is known. -/
def followed (known : String → Bool) : Event N → Option String
  | .assign target init node =>
      if (constructors.get node).isSome || init.name?.any known then target.name? else none
  | .call _ _ => none

/-- The last assignment in the text before event `i` that is followed for the variable. -/
def lastStore : ℕ → String → Option ℕ
  | 0 => fun _ => none
  | i+1 => match es[i]?.bind (followed constructors fun w => (lastStore i w).isSome) with
      | some v => Function.update (lastStore i) v (some i)
      | none => lastStore i

/-- A copy finds what the last assignment before it in the text has stored. -/
def CopyFollowsText (store : Store S) (move : Move) : Prop :=
  ∀ target init node w held, es[move.site]? = some (.assign target init node) →
    constructors.get node = none → init.name? = some w →
      store (w, move.source) = some held →
        lastStore constructors es move.site w = some held.site

/-- A call finds what the last assignment before it in the text, or before some other call
of the variable, has stored. -/
def CallFollowsText (store : Store S) (site inst : ℕ) : Prop :=
  ∀ base args v held, es[site]? = some (.call base args) → base.name? = some v →
    store (v, inst) = some held → ∃ site' base' args',
      es[site']? = some (.call base' args') ∧ base'.name? = some v ∧
        lastStore constructors es site' v = some held.site

def FollowsText (store : Store S) : Action → Prop
  | .assign moves => ∀ move ∈ moves, CopyFollowsText constructors es store move
  | .call site inst => CallFollowsText constructors es store site inst
  | .other _ _ => True

/-- Every step of the run follows the text. -/
def Conforms (actions : List Action) : Prop :=
  ∀ before action after, actions = before ++ action :: after →
    FollowsText constructors es (run constructors es before) action

/-- The call of a variable is recorded for the closure that the run finds in it. -/
def CallRecorded (result : Analyzer S) (store : Store S) (site inst : ℕ) : Prop :=
  ∀ base args v held, es[site]? = some (.call base args) → base.name? = some v →
    store (v, inst) = some held → (held.context, .directCall v) ∈ result.knownCallSites

end Runs

section Environment
variable {N S : Type}
variable (constructors : InsertionMap ℕ (FunctionContext S)) (es : List (Event N))

/-- The environment that the visit of event `i` finds. -/
def environmentAt (i : ℕ) : String → Option (FunctionSet S) :=
  ((es.take i).foldl (visit constructors) ⟨.empty, []⟩).environment.get

/-- The set that the analysis stores at event `i`. -/
def storedSet (i : ℕ) : Option (FunctionSet S) :=
  (es[i]?.bind (assigned constructors (environmentAt constructors es i))).map Prod.snd

theorem environmentAt_succ (i : ℕ) :
    environmentAt constructors es (i+1) =
      match es[i]?.bind (assigned constructors (environmentAt constructors es i)) with
      | some e => Function.update (environmentAt constructors es i) e.1 (some e.2)
      | none => environmentAt constructors es i := by
  rw [environmentAt, List.take_add_one, List.foldl_append]
  cases es[i]? with
  | none => rfl
  | some event =>
    rw [Option.toList_some, List.foldl_cons, List.foldl_nil, Option.bind_some, visit]
    change InsertionMap.get (match assigned constructors (environmentAt constructors es i) event
      with | some e => _ | none => _) = _
    cases assigned constructors (environmentAt constructors es i) event with
    | none => rfl
    | some e =>
      ext1 k
      dsimp only
      rw [InsertionMap.get_set, Function.update_apply]
      rfl

/-- Which assignments are followed depends on the known variables alone. -/
theorem assigned_fst {environment : String → Option (FunctionSet S)} {known : String → Bool}
    (h : ∀ w, known w = (environment w).isSome) (event : Event N) :
    (assigned constructors environment event).map Prod.fst =
      followed constructors known event := by
  cases event with
  | call base args => rfl
  | assign target init node =>
    simp only [assigned, followed]
    cases hnode : constructors.get node with
    | some ctx => cases target.name? <;> rfl
    | none =>
      cases hinit : init.name? with
      | none => rfl
      | some w =>
        simp only [Option.map_none, Option.none_or, Option.bind_some, Option.isSome_none,
          Bool.false_or, Option.any_some, h w]
        cases environment w with
        | none => rfl
        | some fnSet => cases target.name? <;> rfl

/-- A variable has in the environment what the last followed assignment has stored. -/
theorem environmentAt_lastStore (i : ℕ) (v : String) :
    environmentAt constructors es i v =
        (lastStore constructors es i v).bind (storedSet constructors es) ∧
      (lastStore constructors es i v).isSome = (environmentAt constructors es i v).isSome := by
  induction i generalizing v with
  | zero => exact ⟨rfl, rfl⟩
  | succ i ih =>
    have hfollowed : es[i]?.bind (followed constructors
        fun w => (lastStore constructors es i w).isSome) =
          (es[i]?.bind (assigned constructors (environmentAt constructors es i))).map Prod.fst := by
      cases es[i]? with
      | none => rfl
      | some event => exact (assigned_fst constructors (fun w => (ih w).2) event).symm
    rw [environmentAt_succ, lastStore, hfollowed]
    cases hwrite : es[i]?.bind (assigned constructors (environmentAt constructors es i)) with
    | none => exact ih v
    | some e =>
      dsimp only [Option.map_some]
      by_cases hv : v = e.1
      · rw [hv, Function.update_self, Function.update_self, Option.bind_some, storedSet, hwrite]
        exact ⟨rfl, rfl⟩
      · rw [Function.update_of_ne hv, Function.update_of_ne hv]
        exact ih v

/-- What is recorded stays recorded. -/
theorem recorded_foldl (result : Analyzer S) :
    result.knownCallSites ⊆ (es.foldl (visit constructors) result).knownCallSites := by
  induction es generalizing result with
  | nil => exact List.Subset.refl _
  | cons event es ih =>
    exact List.Subset.trans (List.subset_append_left _ _) (ih (visit constructors result event))

/-- A call in the text is recorded for what the environment has there. -/
theorem recorded_of_environment {site : ℕ} {base : Expr N} {args : List (Expr N)} {v : String}
    {fnSet : FunctionSet S} {fn : FunctionContext S} (hevent : es[site]? = some (.call base args))
    (hbase : base.name? = some v) (hfound : environmentAt constructors es site v = some fnSet)
    (hfn : fn ∈ fnSet) :
    (fn, CallSite.directCall v) ∈
      (es.foldl (visit constructors) ⟨.empty, []⟩).knownCallSites := by
  obtain ⟨hlt, hget⟩ := List.getElem?_eq_some_iff.mp hevent
  have hsplit : es = es.take site ++ .call base args :: es.drop (site+1) := by
    rw [← hget, List.getElem_cons_drop, List.take_append_drop]
  have hsite : (fn, CallSite.directCall v) ∈
      callSites (environmentAt constructors es site) (.call base args) := by
    rw [callSites, hbase]
    apply List.mem_append_left
    apply List.mem_flatMap.mpr
    exact ⟨v, List.mem_singleton_self v, by
      rw [hfound]
      exact List.mem_map_of_mem hfn⟩
  rw [hsplit, List.foldl_append, List.foldl_cons]
  apply recorded_foldl
  exact List.mem_append_right _ hsite

end Environment

section Soundness
variable {N S : Type}
variable (constructors : InsertionMap ℕ (FunctionContext S)) (es : List (Event N))

/-- The analysis stores a closure at the assignment that a run has stored it at. -/
def Honest (store : Store S) : Prop :=
  ∀ x held, store x = some held → storedSet constructors es held.site = some [held.context]

variable {constructors es}

theorem environment_of_lastStore {i : ℕ} {v : String} {held : Held S}
    (hlast : lastStore constructors es i v = some held.site)
    (hstored : storedSet constructors es held.site = some [held.context]) :
    environmentAt constructors es i v = some [held.context] := by
  rw [(environmentAt_lastStore constructors es i v).1, hlast, Option.bind_some, hstored]

theorem Honest.storedBy {before : Store S} (h : Honest constructors es before) {move : Move}
    (hcopy : CopyFollowsText constructors es before move) {target init : Expr N} {node : ℕ}
    {v : String} (hevent : es[move.site]? = some (.assign target init node))
    (htarget : target.name? = some v) {held : Held S}
    (hheld : storedBy constructors before move init node = some held) :
    storedSet constructors es held.site = some [held.context] := by
  rw [PointsTo.storedBy] at hheld
  cases hnode : constructors.get node with
  | some ctx =>
    rw [hnode] at hheld
    obtain rfl := Option.some.inj hheld
    simp only [storedSet, hevent, Option.bind_some, assigned, hnode]
    rw [htarget]
    rfl
  | none =>
    rw [hnode] at hheld
    obtain ⟨source, hsource, rfl⟩ := Option.map_eq_some_iff.mp hheld
    obtain ⟨w, hinit, hw⟩ := Option.bind_eq_some_iff.mp hsource
    have hlast := hcopy target init node w source hevent hnode hinit hw
    have henvironment := environment_of_lastStore hlast (h _ _ hw)
    simp only [storedSet, hevent, Option.bind_some, assigned, hnode, hinit]
    rw [henvironment, htarget]
    rfl

theorem Honest.update {store : Store S} (h : Honest constructors es store) (x : String × ℕ)
    {value : Option (Held S)}
    (hvalue : ∀ held, value = some held →
      storedSet constructors es held.site = some [held.context]) :
    Honest constructors es (Function.update store x value) := by
  intro y held hy
  by_cases hxy : y = x
  · rw [hxy, Function.update_self] at hy
    exact hvalue held hy
  · rw [Function.update_of_ne hxy] at hy
    exact h y held hy

theorem Honest.moveTo {before store : Store S} (hbefore : Honest constructors es before)
    (h : Honest constructors es store) {move : Move}
    (hcopy : CopyFollowsText constructors es before move) :
    Honest constructors es (moveTo constructors es before store move) := by
  rw [PointsTo.moveTo]
  cases hevent : es[move.site]? with
  | none => exact h
  | some event =>
    cases event with
    | call base args => exact h
    | assign target init node =>
      dsimp only
      cases htarget : target.name? with
      | none => exact h
      | some v => exact h.update _ (fun held => hbefore.storedBy hcopy hevent htarget)

/-- A statement stores one variable after another, all from the store before it. -/
theorem Honest.moves {before store : Store S} (hbefore : Honest constructors es before)
    (h : Honest constructors es store) {moves : List Move}
    (hcopies : ∀ move ∈ moves, CopyFollowsText constructors es before move) :
    Honest constructors es (moves.foldl (PointsTo.moveTo constructors es before) store) := by
  induction moves generalizing store with
  | nil => exact h
  | cons move moves ih =>
    rw [List.foldl_cons]
    apply ih (hbefore.moveTo h (hcopies move List.mem_cons_self))
    exact fun m hm => hcopies m (List.mem_cons_of_mem move hm)

theorem Honest.act {store : Store S} (h : Honest constructors es store) {action : Action}
    (hfollows : FollowsText constructors es store action) :
    Honest constructors es (act constructors es store action) := by
  cases action with
  | assign moves => exact h.moves h hfollows
  | call site inst => exact h
  | other v inst => exact h.update _ (fun held hheld => nomatch hheld)

/-- A prefix of a run that follows the text follows it too. -/
theorem Conforms.take {actions rest : List Action}
    (h : Conforms constructors es (actions ++ rest)) : Conforms constructors es actions :=
  AtEach.take h

theorem Conforms.nil : Conforms constructors es [] := atEach_nil

theorem Conforms.snoc {actions : List Action} {action : Action}
    (h : Conforms constructors es actions)
    (hfollows : FollowsText constructors es (run constructors es actions) action) :
    Conforms constructors es (actions ++ [action]) := AtEach.snoc h hfollows

theorem Honest.run {actions : List Action} (h : Conforms constructors es actions) :
    Honest constructors es (run constructors es actions) := by
  induction actions using List.reverseRecOn with
  | nil => exact fun x held hx => nomatch hx
  | append_singleton actions action ih =>
    rw [PointsTo.run, List.foldl_append]
    exact (ih h.take).act (h actions action [] rfl)

end Soundness

section Recorded
variable {N S : Type} [DecidableEq S]

/-- In a run that follows the text, every call of a variable is recorded for the closure
that it finds there. -/
theorem calls_recorded (chunk : Chunk N) (contexts : List (FunctionContext S))
    (rawConstructors : List (RawConstructor S)) (actions : List Action)
    (h : Conforms (constructorContexts contexts rawConstructors) (events chunk) actions)
    (before after : List Action) (site inst : ℕ)
    (hsplit : actions = before ++ .call site inst :: after) :
    CallRecorded (events chunk) (analyze chunk contexts rawConstructors)
      (run (constructorContexts contexts rawConstructors) (events chunk) before) site inst := by
  intro base args v held hevent hbase hheld
  obtain ⟨site', base', args', hevent', hbase', hlast⟩ :=
    h before (.call site inst) after hsplit base args v held hevent hbase hheld
  rw [hsplit] at h
  have henvironment := environment_of_lastStore hlast (Honest.run h.take _ _ hheld)
  exact recorded_of_environment _ _ hevent' hbase' henvironment (List.mem_singleton_self _)

end Recorded

section Cases

/-- `maker(id)`, a call that constructs a closure. -/
def made (maker : String) (id : ℤ) : Expr ℤ :=
  .callExpression (.identifier maker) [.numericLiteral id (toString id)] false

/-- The call statement `name()`. -/
def callOf (name : String) : Stmt ℤ := .callStatement (.callExpression (.identifier name) [] false)

def whileC (body : Block ℤ) : Stmt ℤ :=
  .whileStatement (.callExpression (.identifier "c") [] false) body

def closureContext (id : String) : FunctionContext ℤ := ⟨id, some id, none⟩

def closures : List (FunctionContext ℤ) := [closureContext "closure_1", closureContext "closure_2"]

/-- A host where each maker returns its own closure and all else returns nothing. -/
def makers : Runtime ℤ := fun history heap =>
  match history.getLast? with
  | some ⟨.call (.foreign "A"), _⟩ => .values heap [.foreign "closure of A"]
  | some ⟨.call (.foreign "B"), _⟩ => .values heap [.foreign "closure of B"]
  | _ => .values heap []

/-- `local f = A(1); local g = f; while c() do g() end` -/
def aliased : Chunk ℤ := ⟨[
  .localStatement [.identifier "f"] [made "A" 1],
  .localStatement [.identifier "g"] [.identifier "f"],
  whileC [callOf "g"]]⟩

def aliasedConstructors : List (RawConstructor ℤ) := [⟨"closure_1", none, 2⟩]

/-- A run that enters the loop. -/
def aliasedRun : List Action := [.assign [⟨0, 0, 0⟩], .assign [⟨2, 0, 0⟩], .call 4 0]

theorem aliasedRun_conforms :
    Conforms (constructorContexts closures aliasedConstructors) (events aliased) aliasedRun := by
  have hmade : Conforms (constructorContexts closures aliasedConstructors) (events aliased)
      [.assign [⟨0, 0, 0⟩]] := by
    apply Conforms.nil.snoc
    intro move hmove target init node w held hevent hnode
    obtain rfl := List.mem_singleton.mp hmove
    cases hevent
    cases hnode
  have hcopied : Conforms (constructorContexts closures aliasedConstructors) (events aliased)
      [.assign [⟨0, 0, 0⟩], .assign [⟨2, 0, 0⟩]] := by
    apply hmade.snoc
    intro move hmove target init node w held hevent hnode hinit hheld
    obtain rfl := List.mem_singleton.mp hmove
    cases hevent
    cases hinit
    cases hheld
    rfl
  apply hcopied.snoc
  intro base args v held hevent hbase hheld
  cases hevent
  cases hbase
  cases hheld
  exact ⟨4, _, _, rfl, rfl, rfl⟩

theorem aliased_call_recorded :
    Conforms (constructorContexts closures aliasedConstructors) (events aliased) aliasedRun ∧
      CallRecorded (events aliased) (analyze aliased closures aliasedConstructors)
        (run (constructorContexts closures aliasedConstructors) (events aliased)
          [.assign [⟨0, 0, 0⟩], .assign [⟨2, 0, 0⟩]]) 4 0 :=
  ⟨aliasedRun_conforms, calls_recorded aliased closures aliasedConstructors aliasedRun
    aliasedRun_conforms [.assign [⟨0, 0, 0⟩], .assign [⟨2, 0, 0⟩]] [] 4 0 rfl⟩

/-- `local f = A(1); while c() do f = B(2) end; f()` -/
def reassigned : Chunk ℤ := ⟨[
  .localStatement [.identifier "f"] [made "A" 1],
  whileC [.assignmentStatement [.identifier "f"] [made "B" 2]],
  callOf "f"]⟩

def reassignedConstructors : List (RawConstructor ℤ) :=
  [⟨"closure_1", none, 2⟩, ⟨"closure_2", none, 10⟩]

/-- Where the loop is not entered, the call is one of the first closure; only the second
one is recorded. -/
theorem reassigned_unrecorded :
    (runChunk makers 1 reassigned (initialState fun x => .foreign x)).state.history.map
        Event.action =
      [.call (.foreign "A"), .call (.foreign "c"), .call (.foreign "closure of A")] ∧
    ¬∀ (chunk : Chunk ℤ) (contexts : List (FunctionContext ℤ))
      (rawConstructors : List (RawConstructor ℤ)) (actions before after : List Action)
      (site inst : ℕ), (∀ c ∈ rawConstructors, (contextOf contexts c).isSome = true) →
        actions = before ++ .call site inst :: after →
          CallRecorded (events chunk) (analyze chunk contexts rawConstructors)
            (run (constructorContexts contexts rawConstructors) (events chunk) before)
            site inst := by
  refine ⟨rfl, fun h => ?_⟩
  have hcontexts : ∀ c ∈ reassignedConstructors, (contextOf closures c).isSome = true := by
    intro c hc
    simp only [reassignedConstructors, List.mem_cons, List.not_mem_nil, or_false] at hc
    rcases hc with rfl | rfl <;> rfl
  have hrecorded := h reassigned closures reassignedConstructors _ [.assign [⟨0, 0, 0⟩]] [] 5 0
    hcontexts rfl _ _ "f" ⟨closureContext "closure_1", 0⟩ rfl rfl rfl
  have hother : (closureContext "closure_1", CallSite.directCall "f") ∈
      [(closureContext "closure_2", CallSite.directCall "f")] := hrecorded
  have hcontext := congrArg Prod.fst (List.mem_singleton.mp hother)
  have hid : "closure_1" = "closure_2" := congrArg FunctionContext.id hcontext
  revert hid
  decide

end Cases
end LuaRecovery.Analysis.PointsTo
