import LuaRecovery.Analysis.FoldedInPlace
import LuaRecovery.Cfg.MultiEntry
import LuaRecovery.Lib.InsertionMap

/-!
# Closure constructors and entry states

`analysis/closure-analyzer.js` and `analysis/dispatcher-entry-analyzer.js`. Both
fold in place what they read: the first two arguments of a helper call, its
first one, and then the right sides assigned to the state variable. A visit
folds before it goes on, so it meets the nodes that are left afterwards. Captured
values, parameter counts, evidence and source locations are left out.
-/

set_option autoImplicit false

namespace LuaRecovery.Analysis
open LuaRecovery.Lib LuaRecovery.Lua LuaRecovery.Evaluator LuaRecovery.Cfg

structure HelperSpec where
  isVararg : Bool
  paramNames : List String
  deriving DecidableEq

abbrev Helpers := InsertionMap String HelperSpec

def CLOSURE_HELPERS : Helpers :=
  [("x", ⟨false, []⟩),
   ("S", ⟨false, ["a"]⟩),
   ("R", ⟨false, ["a", "b"]⟩),
   ("p", ⟨false, ["a", "b", "c"]⟩),
   ("v", ⟨false, ["a", "b", "c", "d"]⟩),
   ("I", ⟨false, ["a", "b", "c", "d", "e"]⟩),
   ("o", ⟨false, ["a", "b", "c", "d", "e", "f"]⟩),
   ("G", ⟨false, ["a", "b", "c", "d", "e", "f", "g"]⟩),
   ("r", ⟨false, ["a", "b", "c", "d", "e", "f", "g", "h", "i", "j", "k"]⟩),
   ("m", ⟨true, ["..."]⟩)].foldl (fun helpers e => helpers.set e.1 e.2) .empty

section Helpers
variable {N : Type}

/-- A while loop whose body starts with an if statement. -/
def isWhileIf : Stmt N → Bool
  | .whileStatement _ (.ifStatement _ _ :: _) => true
  | _ => false

/-- The names that the node assigns a dispatcher function. -/
def dispatcherFuncs : Node N → List String
  | .stmt (.assignmentStatement vars init) => (vars.zip init).filterMap (fun p => match p with
      | (.identifier name, .functionExpression _ _ body) =>
          if body.any isWhileIf then some name else none
      | _ => none)
  | _ => []

def dispatcherFuncNames (nodes : List (Node N)) : List String := nodes.flatMap dispatcherFuncs

structure FunctionNode (N : Type) where
  params : List (Expr N)
  isVararg : Bool
  body : List (Stmt N)

/-- A function expression that a statement binds to the name. -/
def localFunction (name : String) : Stmt N → Option (FunctionNode N)
  | .localStatement (x::_) (.functionExpression params isVararg body :: _) =>
      if x.name? = some name then some ⟨params, isVararg, body⟩ else none
  | _ => none

/-- The function that a factory returns; the last return statement decides. -/
def returnedFunction (body : List (Stmt N)) : Option (FunctionNode N) :=
  body.foldl (fun returnedFn s => match s with
    | .returnStatement (.functionExpression params isVararg body :: _) =>
        some ⟨params, isVararg, body⟩
    | .returnStatement (.identifier name :: _) =>
        (body.findSome? (localFunction name)).or returnedFn
    | _ => returnedFn) none

/-- A return statement calls a dispatcher function, or any name if none is known. -/
def callsDispatcher (names : List String) (body : List (Stmt N)) : Bool :=
  body.any (fun s => match s with
    | .returnStatement (.callExpression (.identifier name) _ _ :: _) =>
        names.isEmpty || names.contains name
    | _ => false)

def inspectClosureFactory (names : List String) (body : List (Stmt N)) : Option HelperSpec :=
  match returnedFunction body with
  | some fn =>
      if callsDispatcher names fn.body then some ⟨fn.isVararg, fn.params.zipIdx.map
        (fun p => p.1.name?.getD (String.singleton (Char.ofNat (97 + p.2))))⟩
      else none
  | none => none

def addHelper (names : List String) (name : String) (body : List (Stmt N)) (helpers : Helpers) :
    Helpers :=
  match inspectClosureFactory names body with
  | some spec => helpers.set name spec
  | none => helpers

/-- One node of the search for helpers. A function declaration has no `identifier` to take the
name from, so the search throws. -/
def findHelpers (names : List String) (helpers : Helpers) : Node N → Option Helpers
  | .stmt (.assignmentStatement vars init) =>
      some ((vars.zip init).foldl (fun helpers p => match p with
        | (.identifier name, .functionExpression _ _ body) => addHelper names name body helpers
        | _ => helpers) helpers)
  | .stmt (.localFunctionStatement identifier _ _ body) => match identifier.name? with
      | some name => some (addHelper names name body helpers)
      | none => some helpers
  | .stmt (.functionDeclaration _ _ _ _ _) => none
  | _ => some helpers

def detectClosureHelpers (nodes : List (Node N)) : Option Helpers :=
  nodes.foldlM (findHelpers (dispatcherFuncNames nodes)) CLOSURE_HELPERS

end Helpers

section Entries
variable {N : Type} [JsNumber N]

structure Constructor (N : Type) where
  helper : String
  entryState : Option N
  parameters : List String
  vararg : Bool
  node : Expr N

/-- The number that an argument or a right side folds to. -/
def foldedNumber (e : Expr N) : Option N :=
  match fold e with
  | .numericLiteral value _ => some value
  | _ => none

/-- An argument reads the same after it has been folded in place. -/
theorem foldedNumber_foldInPlace (e : Expr N) : foldedNumber (foldInPlace e) = foldedNumber e := by
  rw [foldedNumber, fold_foldInPlace, foldedNumber]

/-- A call of a helper by its name, with an argument. -/
def constructorOf (helpers : Helpers) : Node N → Option (Constructor N)
  | .expr (.callExpression (.identifier name) (arg0::args) inParens) =>
      (helpers.get name).map (fun spec => ⟨name, foldedNumber arg0, spec.paramNames, spec.isVararg,
        .callExpression (.identifier name) (arg0::args) inParens⟩)
  | _ => none

/-- The constructors among the nodes that the analyzer meets. -/
def analyze (helpers : Helpers) (nodes : List (Node N)) : List (Constructor N) :=
  nodes.filterMap (constructorOf helpers)

/-- The name that a while loop over an if statement tests. -/
def dispatcherVarOf : Node N → Option String
  | .stmt (.whileStatement (.identifier name) (.ifStatement _ _ :: _)) => some name
  | _ => none

/-- The state of the last helper call that has one. -/
def rootEntryState (helpers : Helpers) (nodes : List (Node N)) : Option N :=
  ((analyze helpers nodes).filterMap (fun c => c.entryState)).getLast?

/-- A number assigned to the state variable, or to `Q`. -/
def assignedState (stateVar : Option String) : Node N → Option N
  | .stmt (.assignmentStatement (.identifier name :: _) (rhs::_)) =>
      if some name = stateVar ∨ name = "Q" then foldedNumber rhs else none
  | _ => none

/-- What the constructor analyzer folds. -/
def analyzerReads (helpers : Helpers) : Reads where
  arguments name := if (helpers.get name).isSome then 2 else 0
  rightSide _ := false

/-- What has been folded once the search for the root call, whose helpers are detected anew, is
through. -/
def rootReads (helpers detectedHelpers : Helpers) : Reads where
  arguments name := if (helpers.get name).isSome then 2
    else if (detectedHelpers.get name).isSome then 1 else 0
  rightSide _ := false

/-- What has been folded once the entries are discovered. -/
def entryReads (helpers detectedHelpers : Helpers) (stateVar : Option String) : Reads where
  arguments := (rootReads helpers detectedHelpers).arguments
  rightSide name := some name = stateVar ∨ name = "Q"

/-- What has become of a node when the constructors are found, and when the entries are. -/
abbrev Traces := Option Touch × Option Touch

/-- The helpers and constructors, the entry states in the order of their discovery, each once, and
what the node's operands turn into. -/
structure Discovery (N : Type) where
  helpers : Helpers
  rawConstructors : List (Constructor N)
  entries : List N
  enter : Traces → Node N → ℕ → Traces

def Discovery.sites (d : Discovery N) (chunk : Chunk N) : List (Site Traces N) :=
  chunk.sites d.enter (some .untouched, some .untouched)

/-- The constructors, then the entry states of the dispatcher: that of the last helper call, those
of the constructors and those assigned to the state variable. -/
def discoverEntries (chunk : Chunk N) : Option (Discovery N) :=
  (detectClosureHelpers chunk.nodes).bind (fun helpers =>
    let analyzed := leftNodes ((analyzerReads helpers).sites chunk)
    let rawConstructors := analyze helpers analyzed
    (detectClosureHelpers analyzed).map (fun detectedHelpers =>
      let stateVar := analyzed.findSome? dispatcherVarOf
      let rooted := leftNodes ((rootReads helpers detectedHelpers).sites chunk)
      let assigned := leftNodes ((entryReads helpers detectedHelpers stateVar).sites chunk)
      let states := (rootEntryState detectedHelpers rooted).toList ++
        rawConstructors.filterMap (fun c => c.entryState) ++
        assigned.filterMap (assignedState stateVar)
      { helpers := helpers
        rawConstructors := rawConstructors
        entries := states.foldl addReachableState []
        enter := fun traces n i => ((analyzerReads helpers).enter traces.1 n i,
          (entryReads helpers detectedHelpers stateVar).enter traces.2 n i) }))

/-- What the discovery of the entries leaves untouched, the analyzer has not touched. -/
def TouchedLater (traces : Traces) : Prop :=
  traces.2 = some .untouched → traces.1 = some .untouched

omit [JsNumber N] in
theorem reads_mono {r r' : Reads} (harguments : ∀ name, r.arguments name ≤ r'.arguments name)
    (hright : ∀ name, r.rightSide name = true → r'.rightSide name = true) {n : Node N} {i : ℕ}
    (h : r.reads n i = true) : r'.reads n i = true := by
  unfold Reads.reads at h ⊢
  split at h
  · rename_i name _ _
    simp only [decide_eq_true_eq] at h ⊢
    exact ⟨h.1, h.2.trans (harguments name)⟩
  · simp only [Bool.and_eq_true, beq_iff_eq] at h ⊢
    exact ⟨h.1, hright _ h.2⟩
  · cases h

theorem touchedLater_enter {r r' : Reads}
    (hreads : ∀ (n : Node N) i, r.reads n i = true → r'.reads n i = true) {traces : Traces}
    (htraces : TouchedLater traces) (n : Node N) (i : ℕ) :
    TouchedLater (r.enter traces.1 n i, r'.enter traces.2 n i) := by
  obtain ⟨first, second⟩ := traces
  intro huntouched
  cases second with
  | none => cases huntouched
  | some touch =>
    cases touch with
    | untouched =>
      obtain rfl : first = some .untouched := htraces rfl
      have hnot : r'.reads n i = false := by
        by_contra hread
        rw [Bool.not_eq_false] at hread
        simp [Reads.enter, hread, Touch.read] at huntouched
      have hnot' : r.reads n i = false := by
        by_contra hread
        rw [Bool.not_eq_false] at hread
        rw [hreads n i hread] at hnot
        cases hnot
      simp [Reads.enter, hnot', Touch.below]
    | inPlace => simp [Reads.enter, Touch.read, Touch.below] at huntouched
    | folded =>
      simp only [Reads.enter] at huntouched
      split at huntouched <;> cases huntouched

theorem touchedLater_discovery {chunk : Chunk N} {d : Discovery N}
    (h : discoverEntries chunk = some d) (traces : Traces) (n : Node N) (i : ℕ)
    (htraces : TouchedLater traces) : TouchedLater (d.enter traces n i) := by
  obtain ⟨helpers, -, h⟩ := Option.bind_eq_some_iff.mp h
  obtain ⟨detectedHelpers, -, rfl⟩ := Option.map_eq_some_iff.mp h
  refine touchedLater_enter (fun n i => reads_mono ?_ ?_) htraces n i
  · intro name
    simp only [analyzerReads, entryReads, rootReads]
    split
    · exact Nat.le_refl 2
    · exact Nat.zero_le _
  · intro name hright
    cases hright

end Entries
end LuaRecovery.Analysis
