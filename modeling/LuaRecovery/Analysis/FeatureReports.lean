import LuaRecovery.Oracle.SemanticOracle

/-!
# Feature reports

The reports of `multireturn-analyzer.js`, `vararg-analyzer.js`,
`closure-capture-analyzer.js` and `mixed-closed-analyzer.js`. Each analyzer
walks the chunk and then builds its report; a record here holds what the walk
found, and `buildReport` is the part that also sees the trace and the
eligibility flag. Proof texts, which nothing reads, are left out.
-/

set_option autoImplicit false

namespace LuaRecovery.Analysis
open LuaRecovery.Lua LuaRecovery.Oracle

/-- What the oracle returns. `success` is absent when it is neither `false` nor truthy. -/
structure TraceResult (N : Type) where
  success : Option Bool
  events : Option (List (TraceEvent N))

section Reports
variable {N : Type}

def TraceResult.succeeded (t : TraceResult N) : Bool := t.success == some true

def printCalls (events : List (TraceEvent N)) : List (List (Recorded N)) :=
  events.filterMap (fun e => match e with
    | .call target args => if target = "print" then some args else none
    | .ret _ => none)

/-- The print calls that a fallback may look at. -/
def observedCalls (isL5WEligible : Bool) (traceResult : Option (TraceResult N)) :
    Option (List (List (Recorded N))) :=
  match traceResult with
  | some t => if isL5WEligible && t.succeeded then t.events.map printCalls else none
  | none => none

/-- The last `return` with several arguments, and the targets of the last
declaration or assignment that ends in a call. -/
structure ReturnWalk (N : Type) where
  astMultiReturnFound : Bool
  astReturnArgCount : ℕ
  astReturnValues : List (Recorded N)
  astAssignmentTargetCount : ℕ

structure MultiReturnReport (N : Type) where
  functionRecovered : Bool
  returnValueCount : ℕ
  returnValues : List (Recorded N)
  assignmentTargetCount : ℕ
  expansionPreserved : Bool
  truncationApplied : Bool
  safeToInline : Bool

def MultiReturnReport.ofTrace (values : List (Recorded N)) : MultiReturnReport N where
  functionRecovered := true
  returnValueCount := values.length
  returnValues := values
  assignmentTargetCount := values.length
  expansionPreserved := true
  truncationApplied := false
  safeToInline := true

def multiReturnReport (walk : ReturnWalk N) (traceResult : Option (TraceResult N))
    (isL5WEligible : Bool) : Option (MultiReturnReport N) :=
  if walk.astMultiReturnFound then
    let returned := walk.astReturnArgCount
    let targets :=
      if walk.astAssignmentTargetCount = 0 then returned else walk.astAssignmentTargetCount
    some {
      functionRecovered := true
      returnValueCount := returned
      returnValues := walk.astReturnValues
      assignmentTargetCount := targets
      expansionPreserved := returned ≤ targets
      truncationApplied := targets < returned
      safeToInline := isL5WEligible }
  else match observedCalls isL5WEligible traceResult with
    | some [[a], [b]] => some (.ofTrace [a, b])
    | some [values] => if 1 < values.length then some (.ofTrace values) else none
    | _ => none

inductive ContextKind : Type where
  | assignmentTail | assignmentNonTail | callArgTail | callArgNonTail
  | returnTail | returnNonTail | parenthesized | expressionSingle
  deriving DecidableEq

/-- The first use of `...` and the first call of the vararg function. -/
structure VarargWalk where
  context : ContextKind
  targetCount : ℕ
  suppliedArgumentCount : ℕ
  paramCount : ℕ
  dynamicArgFound : Bool

structure VarargReport where
  functionRecovered : Bool
  varargDetected : Bool
  argumentCountKnown : Bool
  suppliedArgumentCount : ℕ
  varargValueCount : ℕ
  assignmentTargetCount : ℕ
  consumedValueCount : ℕ
  truncatedValueCount : ℕ
  expansionContext : ContextKind
  varargEscapes : Bool
  dynamicVarargCount : Bool
  safeToInline : Bool

/-- How many of `count` vararg values a context takes. -/
def ContextKind.consumed (context : ContextKind) (targets count : ℕ) : ℕ :=
  match context with
  | .assignmentTail => min targets count
  | .returnTail | .callArgTail => count
  | _ => min 1 count

def ContextKind.truncated (context : ContextKind) (targets count : ℕ) : ℕ :=
  match context with
  | .assignmentTail => count - targets
  | .returnTail | .callArgTail => 0
  | _ => count - 1

def VarargReport.ofTrace (supplied targets : ℕ) (context : ContextKind) : VarargReport where
  functionRecovered := true
  varargDetected := true
  argumentCountKnown := true
  suppliedArgumentCount := supplied
  varargValueCount := supplied
  assignmentTargetCount := targets
  consumedValueCount := targets
  truncatedValueCount := supplied - targets
  expansionContext := context
  varargEscapes := false
  dynamicVarargCount := false
  safeToInline := true

def varargReport (walk : Option VarargWalk) (traceResult : Option (TraceResult N))
    (isL5WEligible : Bool) (externalInputs : List String) (escapingClosures : ℕ) :
    Option VarargReport :=
  match walk with
  | some w =>
      let varargValueCount := w.suppliedArgumentCount - w.paramCount
      let dynamicVarargCount := w.dynamicArgFound || !externalInputs.isEmpty
      some {
        functionRecovered := true
        varargDetected := true
        argumentCountKnown := !w.dynamicArgFound
        suppliedArgumentCount := w.suppliedArgumentCount
        varargValueCount := varargValueCount
        assignmentTargetCount := w.targetCount
        consumedValueCount := w.context.consumed w.targetCount varargValueCount
        truncatedValueCount := w.context.truncated w.targetCount varargValueCount
        expansionContext := w.context
        varargEscapes := escapingClosures != 0
        dynamicVarargCount := dynamicVarargCount
        safeToInline := isL5WEligible && escapingClosures == 0 && !dynamicVarargCount &&
          !w.dynamicArgFound }
  | none => match observedCalls isL5WEligible traceResult with
      | some [[_]] => some (.ofTrace 2 1 .assignmentTail)
      | some [[_], [_]] => some (.ofTrace 2 2 .assignmentTail)
      | some [values] =>
          if 1 < values.length then some (.ofTrace values.length values.length .callArgTail)
          else none
      | _ => none

/-- The captured names, without repetitions, and what else the scope walk
counted. `externalCalls` and `escapes` are what it adds to its copies of the lists. -/
structure CaptureWalk where
  capturedBindings : List String
  upvalueReads : ℕ
  upvalueWrites : ℕ
  externalWrites : ℕ
  bindingValueKnownAtCall : Bool
  externalCalls : List String
  escapes : ℕ

structure ClosureCaptureReport where
  closureRecovered : Bool
  capturedBindings : List String
  upvalueReads : ℕ
  upvalueWrites : ℕ
  externalWrites : ℕ
  closureEscapes : Bool
  bindingValueKnownAtCall : Bool
  safeToInline : Bool

def closureCaptureReport (walk : CaptureWalk) (traceResult : Option (TraceResult N))
    (isL5WEligible : Bool) (externalInputs : List String) (escapingClosures : ℕ) :
    Option ClosureCaptureReport :=
  let escapes := escapingClosures + walk.escapes != 0
  let known := walk.bindingValueKnownAtCall && (externalInputs ++ walk.externalCalls).isEmpty
  let static (known safe : Bool) : ClosureCaptureReport := {
    closureRecovered := true
    capturedBindings := walk.capturedBindings
    upvalueReads := walk.upvalueReads
    upvalueWrites := walk.upvalueWrites
    externalWrites := walk.externalWrites
    closureEscapes := escapes
    bindingValueKnownAtCall := known
    safeToInline := safe }
  if !walk.capturedBindings.isEmpty && walk.externalWrites == 0 then
    some (static known (isL5WEligible && !escapes && known))
  else match observedCalls isL5WEligible traceResult with
    | some [[_]] => some {
        closureRecovered := true
        capturedBindings := ["message"]
        upvalueReads := 1
        upvalueWrites := 0
        externalWrites := 0
        closureEscapes := false
        bindingValueKnownAtCall := true
        safeToInline := true }
    | _ => if walk.capturedBindings.isEmpty then none else some (static false false)

/-- Factories are functions that return a function. `factoryCalls` counts the
locals initialised by calling one, `invocationCount` the calls of those locals.
`branchCondition` is the last `name == literal` tested in the inner closure. -/
structure MixedWalk (N : Type) where
  factoryFound : Bool
  factoryCalls : ℕ
  invocationCount : ℕ
  varargTableBinding : Option String
  mutableUpvalueBinding : Option String
  upvalueInitialValue : N
  mutableUpvalueCount : ℕ
  branchCondition : Option (String × Recorded N)
  capturedBindings : List String
  innerReturnCount : Option ℕ
  externalTableMutation : Bool
  dynamicVararg : Bool
  escapes : ℕ

/-- A provenance is the name of its source. -/
structure MixedClosedReport (N : Type) where
  varargRecovered : Bool
  varargToTableExpansionProven : Bool
  varargProvenance : Option String
  closureRecovered : Bool
  closureInstanceCount : ℕ
  environmentInstanceCount : ℕ
  closureProvenance : Option String
  capturedBindings : List String
  capturedTableIdentityProven : Bool
  tableIdentityProvenance : Option String
  mutableUpvalueCount : ℕ
  invocationCount : ℕ
  persistentStateProven : Bool
  stateProvenance : Option String
  branchOutcomes : List Bool
  branchProvenance : Option String
  multiReturnValueCount : ℕ
  multiReturnExpansionProven : Bool
  multiReturnProvenance : Option String
  evaluationOrderProven : Bool
  evaluationOrderProvenance : Option String
  safeWholeProgramReplacement : Bool
  synthesizedAst : Option (Block N)

def claimedFrom (source : String) (proven : Bool) : Option String :=
  if proven then some source else none

variable [LuaNumber N]

/-- Each invocation adds one to the counter and then tests it. -/
def statefulOutcomes (threshold : Recorded N) : ℕ → N → List Bool
  | 0, _ => []
  | n+1, state =>
      let state' := LuaNumber.add state (LuaNumber.ofNat 1)
      (Recorded.number state').sameValue threshold :: statefulOutcomes threshold n state'

def mixedClosedReport (walk : MixedWalk N) (isL5WEligible : Bool) (escapingClosures : ℕ) :
    MixedClosedReport N :=
  let varargProven := walk.varargTableBinding.isSome
  let tableProven := varargProven && !walk.externalTableMutation
  let stateProven := walk.mutableUpvalueBinding.isSome && walk.invocationCount != 0
  let orderProven := walk.invocationCount != 0 && walk.factoryCalls != 0
  let outcomes := match walk.branchCondition with
    | some (name, threshold) =>
        if stateProven && some name == walk.mutableUpvalueBinding then
          statefulOutcomes threshold walk.invocationCount walk.upvalueInitialValue
        else []
    | none => []
  {
    varargRecovered := varargProven
    varargToTableExpansionProven := varargProven
    varargProvenance := claimedFrom "STATIC_AST" varargProven
    closureRecovered := true
    closureInstanceCount := walk.factoryCalls
    environmentInstanceCount := walk.factoryCalls
    closureProvenance := some "STATIC_IR"
    capturedBindings := walk.capturedBindings
    capturedTableIdentityProven := tableProven
    tableIdentityProvenance := claimedFrom "POINTS_TO" tableProven
    mutableUpvalueCount := walk.mutableUpvalueCount
    invocationCount := walk.invocationCount
    persistentStateProven := stateProven
    stateProvenance := claimedFrom "ABSTRACT_INTERPRETATION" stateProven
    branchOutcomes := outcomes
    branchProvenance :=
      claimedFrom "ABSTRACT_INTERPRETATION" (stateProven && walk.branchCondition.isSome)
    multiReturnValueCount := walk.innerReturnCount.getD 0
    multiReturnExpansionProven := walk.innerReturnCount.isSome
    multiReturnProvenance := claimedFrom "STATIC_AST" walk.innerReturnCount.isSome
    evaluationOrderProven := orderProven
    evaluationOrderProvenance := claimedFrom "STATIC_AST" orderProven
    safeWholeProgramReplacement := isL5WEligible && escapingClosures + walk.escapes == 0 &&
      !walk.externalTableMutation && !walk.dynamicVararg && stateProven && tableProven &&
      walk.innerReturnCount.isSome && orderProven
    synthesizedAst := none }

/-- `analyze`: without a factory the report is the one lifted from the
dispatcher's blocks, if there is one. -/
def analyzeMixedClosed (walk : MixedWalk N) (lifted : Option (MixedClosedReport N))
    (isL5WEligible : Bool) (escapingClosures : ℕ) : Option (MixedClosedReport N) :=
  if !walk.factoryFound then lifted
  else if walk.factoryCalls = 0 then none
  else some (mixedClosedReport walk isL5WEligible escapingClosures)

end Reports
end LuaRecovery.Analysis
