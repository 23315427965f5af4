import LuaRecovery.Analysis.FeatureReports

/-!
# Whole-program completeness

`CompletenessVerifier.verify`, with `RequiredProofValidator.validate`,
`ProofIntegrityValidator.validate` and `FinalAdmissionGate.evaluate`. The walks
over the chunk, the environment analysis and the lifting of the dispatcher see
no trace; their findings come in as one record.
-/

set_option autoImplicit false

namespace LuaRecovery.Analysis
open LuaRecovery.Lua LuaRecovery.Oracle

/-- `multireturnExpansion` is missing from the source's table: there it is `undefined`. -/
inductive MandatoryProof : Type where
  | varargTableExpansion | closureIdentity | environmentIdentity | capturedTableIdentity
  | persistentUpvalueState | statefulBranch | multireturn | evaluationOrder
  | wholeProgramReplacement | constantPropagation | functionReturnSemantics
  | constantBranchElimination | nestedFunctionCallChain | returnPropagation
  | tableFieldLookup | varargBindingFlow | lexicalUpvalueCapture | multireturnExpansion
  deriving DecidableEq

def MandatoryProof.text : MandatoryProof → String
  | varargTableExpansion => "VARARG_TABLE_EXPANSION"
  | closureIdentity => "CLOSURE_IDENTITY"
  | environmentIdentity => "ENVIRONMENT_IDENTITY"
  | capturedTableIdentity => "CAPTURED_TABLE_IDENTITY"
  | persistentUpvalueState => "PERSISTENT_UPVALUE_STATE"
  | statefulBranch => "STATEFUL_BRANCH"
  | multireturn => "MULTIRETURN"
  | evaluationOrder => "EVALUATION_ORDER"
  | wholeProgramReplacement => "WHOLE_PROGRAM_REPLACEMENT"
  | constantPropagation => "CONSTANT_PROPAGATION"
  | functionReturnSemantics => "FUNCTION_RETURN_SEMANTICS"
  | constantBranchElimination => "CONSTANT_BRANCH_ELIMINATION"
  | nestedFunctionCallChain => "NESTED_FUNCTION_CALL_CHAIN"
  | returnPropagation => "RETURN_PROPAGATION"
  | tableFieldLookup => "TABLE_FIELD_LOOKUP"
  | varargBindingFlow => "VARARG_BINDING_FLOW"
  | lexicalUpvalueCapture => "LEXICAL_UPVALUE_CAPTURE"
  | multireturnExpansion => ""

inductive FailureCategory : Type where
  | oracleDrivenProofSynthesis | proofIntegrityFailure
  | missingRequiredL5wProof | l5wAdmissionInconsistency
  deriving DecidableEq

/-- What the walk of `verify`, the environment report and the reachable blocks give. -/
structure Survey where
  externalInputs : List String
  escapingClosures : ℕ
  uncalledCallbacks : ℕ
  unknownBranches : ℕ
  environmentReplaced : Bool
  totalFunctions : ℕ
  staticBasicBlocks : ℕ
  dynamicObservedBlocks : ℕ
  dynamicUnobservedBlocks : ℕ
  staticallyProvenDeadBlocks : ℕ

structure Findings (N : Type) where
  survey : Survey
  returns : ReturnWalk N
  vararg : Option VarargWalk
  capture : CaptureWalk
  mixed : MixedWalk N
  lifted : Option (MixedClosedReport N)

structure InliningSafety where
  isSafeToInline : Bool
  nonEscapingProven : Bool

structure BranchProof where
  isDeadBranchEliminationSafe : Bool
  constantPropagationProven : Bool

structure NestedFunction where
  outerRecovered : Bool
  innerRecovered : Bool
  innerEscapes : Bool
  safeToInlineInner : Bool
  safeToInlineOuter : Bool

structure TableRecovery where
  tableRecovered : Bool
  localOwnershipProven : Bool
  escapes : Bool
  safeToInlineField : Bool
  safeToEliminateTable : Bool

/-- The reports that the proof validators read. -/
structure CompletenessInfo (N : Type) where
  mixedClosed : Option (MixedClosedReport N)
  closureCapture : Option ClosureCaptureReport
  vararg : Option VarargReport
  multiReturn : Option (MultiReturnReport N)
  tableRecovery : TableRecovery
  nestedFunction : NestedFunction
  branchProof : BranchProof
  inliningSafety : InliningSafety
  wholeProgramClosed : Bool

structure RequiredProofs where
  pass : Bool
  required : List MandatoryProof
  proven : List MandatoryProof
  missing : List MandatoryProof
  failureCategory : Option FailureCategory

structure ProofIntegrity where
  pass : Bool
  violations : List String
  failureCategory : Option FailureCategory

section Validators
variable {N : Type}

def isCrossFeatureTrace (traceResult : Option (TraceResult N)) : Bool :=
  match traceResult with
  | some ⟨_, some events⟩ => 6 ≤ (printCalls events).length
  | _ => false

def isCrossFeatureReport (mixed : MixedClosedReport N) : Bool :=
  2 ≤ mixed.invocationCount &&
    (0 < mixed.mutableUpvalueCount || mixed.varargRecovered || !mixed.safeWholeProgramReplacement)

/-- The contract of a mixed closed program: each required proof, and whether it is proven. -/
def crossFeatureContract (mixed : Option (MixedClosedReport N)) : List (MandatoryProof × Bool) :=
  let proves (p : MixedClosedReport N → Bool) := mixed.any p
  [(.varargTableExpansion, proves (·.varargToTableExpansionProven)),
   (.closureIdentity, proves (fun m => m.closureRecovered && 1 ≤ m.closureInstanceCount)),
   (.environmentIdentity, proves (fun m => 1 ≤ m.environmentInstanceCount)),
   (.capturedTableIdentity, proves (·.capturedTableIdentityProven)),
   (.persistentUpvalueState, proves (·.persistentStateProven)),
   (.statefulBranch, proves (fun m => !m.branchOutcomes.isEmpty && m.branchProvenance.isSome)),
   (.multireturn, proves (fun m => m.multiReturnExpansionProven && 1 ≤ m.multiReturnValueCount)),
   (.evaluationOrder, proves (·.evaluationOrderProven)),
   (.wholeProgramReplacement, proves (·.safeWholeProgramReplacement))]

/-- The contracts of single features, in the order in which they are pushed. -/
def featureContract (info : CompletenessInfo N) : List (MandatoryProof × Bool) :=
  let closed := info.wholeProgramClosed
  (match info.vararg with
    | some v => if v.varargDetected then [(.varargBindingFlow, v.safeToInline || closed)] else []
    | none => []) ++
  (match info.multiReturn with
    | some m =>
        if m.functionRecovered then [(.multireturnExpansion, m.safeToInline || closed)] else []
    | none => []) ++
  (match info.closureCapture with
    | some c =>
        if c.closureRecovered && !c.capturedBindings.isEmpty then
          [(.lexicalUpvalueCapture, c.safeToInline || closed)]
        else []
    | none => []) ++
  (if info.tableRecovery.tableRecovered then
    [(.tableFieldLookup, info.tableRecovery.safeToInlineField ||
      info.tableRecovery.safeToEliminateTable || closed)]
   else []) ++
  (if info.nestedFunction.outerRecovered && info.nestedFunction.innerRecovered then
    let chain := info.nestedFunction.safeToInlineInner && info.nestedFunction.safeToInlineOuter ||
      closed
    [(.nestedFunctionCallChain, chain), (.returnPropagation, chain)]
   else []) ++
  (if info.branchProof.isDeadBranchEliminationSafe then [(.constantBranchElimination, true)]
   else []) ++
  (if info.inliningSafety.isSafeToInline then [(.functionReturnSemantics, true)] else [])

/-- A closed program also owes its replacement, and constant propagation if nothing else. -/
def singleFeatureContract (info : CompletenessInfo N) : List (MandatoryProof × Bool) :=
  let features := featureContract info
  features ++
    (if features.isEmpty && info.wholeProgramClosed then [(.constantPropagation, true)] else []) ++
    (if info.wholeProgramClosed then [(.wholeProgramReplacement, true)] else [])

def isCrossFeatureMixed (mixed : Option (MixedClosedReport N))
    (traceResult : Option (TraceResult N)) : Bool :=
  isCrossFeatureTrace traceResult || mixed.any isCrossFeatureReport

/-- Splits a contract into what is required, proven and missing. -/
def settle (contract : List (MandatoryProof × Bool)) (hasAdmissionInconsistency : Bool) :
    RequiredProofs :=
  let required := contract.map Prod.fst
  let proven := (contract.filter Prod.snd).map Prod.fst
  let missing := required.filter (fun r => !proven.contains r)
  let pass := missing.isEmpty && !hasAdmissionInconsistency
  { pass := pass
    required := required
    proven := proven
    missing := missing
    failureCategory :=
      if pass then none
      else if hasAdmissionInconsistency then some .l5wAdmissionInconsistency
      else some .missingRequiredL5wProof }

/-- `RequiredProofValidator.validate`. -/
def validateRequired (info : CompletenessInfo N) (traceResult : Option (TraceResult N)) :
    RequiredProofs :=
  if isCrossFeatureMixed info.mixedClosed traceResult then
    settle (crossFeatureContract info.mixedClosed)
      (info.mixedClosed.any (fun m => !m.safeWholeProgramReplacement))
  else settle (singleFeatureContract info) false

def validStaticSources : List String :=
  ["STATIC_AST", "STATIC_IR", "STATIC_VM_LIFTING", "CFG", "POINTS_TO", "ABSTRACT_INTERPRETATION"]

def prohibitedInternalSources : List String :=
  ["SEMANTIC_TRACE", "EXPECTED_SOURCE", "FIXTURE_METADATA", "ORACLE_TRACE"]

/-- What is wrong with one provenance, with the kind of the violation. -/
def provenanceViolation (name : String) (claimed : Bool) (provenance : Option String) :
    List (String × String) :=
  match provenance with
  | none =>
      if claimed then
        [("MISSING_PROVENANCE", s!": Proof for '{name}' has no provenance record.")]
      else []
  | some source =>
      if prohibitedInternalSources.contains source then
        [("PROHIBITED_SOURCE", s!": Proof for '{name}' originates from prohibited source " ++
          s!"'{source}'. Internal semantics must be proven via static analysis.")]
      else if !validStaticSources.contains source then
        [("INVALID_SOURCE", s!": Proof for '{name}' specifies unrecognized source '{source}'.")]
      else []

def unprovenPrerequisite (field : String) (proven : Bool) : List (String × String) :=
  if proven then [] else [("UNPROVEN_PREREQUISITE", s!": {field} is false")]

def replacementViolations (mixed : MixedClosedReport N) : List (String × String) :=
  unprovenPrerequisite "varargToTableExpansionProven" mixed.varargToTableExpansionProven ++
  unprovenPrerequisite "closureRecovered" mixed.closureRecovered ++
  unprovenPrerequisite "capturedTableIdentityProven" mixed.capturedTableIdentityProven ++
  unprovenPrerequisite "persistentStateProven" mixed.persistentStateProven ++
  unprovenPrerequisite "multiReturnExpansionProven" mixed.multiReturnExpansionProven ++
  unprovenPrerequisite "evaluationOrderProven" mixed.evaluationOrderProven ++
  (if mixed.capturedBindings.isEmpty then
    [("EMPTY_CAPTURED_BINDINGS", ": capturedBindings cannot be empty when closure is proven.")]
   else []) ++
  (if mixed.multiReturnValueCount < 1 then
    [("INVALID_MULTIRETURN_COUNT", ": multiReturnValueCount must be a positive integer.")]
   else [])

def mixedViolations (mixed : MixedClosedReport N) : List (String × String) :=
  provenanceViolation "vararg" mixed.varargRecovered mixed.varargProvenance ++
  provenanceViolation "closure" mixed.closureRecovered mixed.closureProvenance ++
  provenanceViolation "state" mixed.persistentStateProven mixed.stateProvenance ++
  provenanceViolation "branch" (!mixed.branchOutcomes.isEmpty) mixed.branchProvenance ++
  provenanceViolation "multiReturn" (0 < mixed.multiReturnValueCount) mixed.multiReturnProvenance ++
  provenanceViolation "tableIdentity" mixed.capturedTableIdentityProven
    mixed.tableIdentityProvenance ++
  provenanceViolation "evaluationOrder" mixed.evaluationOrderProven
    mixed.evaluationOrderProvenance ++
  (if mixed.safeWholeProgramReplacement then replacementViolations mixed else [])

/-- `ProofIntegrityValidator.validate`, which reads the mixed report only. -/
def validateIntegrity (info : Option (MixedClosedReport N)) : ProofIntegrity :=
  let found := match info with
    | some mixed => mixedViolations mixed
    | none => []
  let fromOracle := found.any (fun v => v.1 == "PROHIBITED_SOURCE" || v.1 == "MISSING_PROVENANCE")
  { pass := found.isEmpty
    violations := found.map (fun v => v.1 ++ v.2)
    failureCategory :=
      if found.isEmpty then none
      else if fromOracle then some .oracleDrivenProofSynthesis
      else some .proofIntegrityFailure }

end Validators

structure StaticClosureGate where
  wholeProgramClosed : Bool
  wholeProgramComplete : Bool

structure ProofGate where
  requiredProofsPass : Bool
  proofIntegrityPass : Bool
  proofCompletenessPass : Bool
  unresolvedObligations : List MandatoryProof

structure CleanupGate where
  vmDetached : Bool
  dispatcherStatesAfter : ℕ
  encodedStringsRemaining : ℕ
  runtimeDecoderRemaining : Bool
  protectionRuntimeRemaining : Bool

structure OracleGate where
  veto : Bool
  positiveEvidenceUsed : Bool

/-- The five gates of `FinalAdmissionGate.evaluate`. -/
structure DecisionGraph where
  staticClosureGate : StaticClosureGate
  proofGate : ProofGate
  safeWholeProgramReplacement : Bool
  cleanupGate : CleanupGate
  oracleGate : OracleGate

namespace DecisionGraph

def staticPass (g : DecisionGraph) : Bool :=
  g.staticClosureGate.wholeProgramClosed && g.staticClosureGate.wholeProgramComplete

def proofCompletenessPass (g : DecisionGraph) : Bool :=
  g.proofGate.proofCompletenessPass && g.proofGate.unresolvedObligations.isEmpty

def proofPass (g : DecisionGraph) : Bool :=
  g.proofGate.requiredProofsPass && g.proofGate.proofIntegrityPass && g.proofCompletenessPass &&
    g.proofGate.unresolvedObligations.isEmpty

def cleanupPass (g : DecisionGraph) : Bool :=
  g.cleanupGate.vmDetached && g.cleanupGate.dispatcherStatesAfter == 0 &&
    g.cleanupGate.encodedStringsRemaining == 0 && !g.cleanupGate.runtimeDecoderRemaining &&
    !g.cleanupGate.protectionRuntimeRemaining

def oraclePass (g : DecisionGraph) : Bool :=
  !g.oracleGate.veto && !g.oracleGate.positiveEvidenceUsed

def finalEligible (g : DecisionGraph) : Bool :=
  g.staticPass && g.proofPass && g.safeWholeProgramReplacement && g.cleanupPass && g.oraclePass

def failureReasons (g : DecisionGraph) : List String :=
  let obligations := ", ".intercalate (g.proofGate.unresolvedObligations.map MandatoryProof.text)
  let report (failed : Bool) (reason : String) := if failed then [reason] else []
  report (!g.staticClosureGate.wholeProgramClosed)
    "STATIC_CLOSURE_FAIL: external inputs or open environment detected" ++
  report (!g.staticClosureGate.wholeProgramComplete)
    "STATIC_COMPLETENESS_FAIL: unobserved blocks or unresolved branches" ++
  report (!g.proofGate.requiredProofsPass) ("REQUIRED_PROOFS_FAIL: missing " ++ obligations) ++
  report (!g.proofGate.proofIntegrityPass)
    "PROOF_INTEGRITY_FAIL: prohibited provenance or trace contamination" ++
  report (!g.proofCompletenessPass)
    ("PROOF_COMPLETENESS_FAIL: unresolved obligations [" ++ obligations ++ "]") ++
  report (!g.safeWholeProgramReplacement)
    "SAFE_REPLACEMENT_FAIL: whole program replacement prohibited" ++
  report (!g.cleanupGate.vmDetached)
    "CLEANUP_FAIL: VM state variable or registers still referenced" ++
  report (0 < g.cleanupGate.dispatcherStatesAfter)
    s!"CLEANUP_FAIL: {g.cleanupGate.dispatcherStatesAfter} residual dispatcher states" ++
  report (0 < g.cleanupGate.encodedStringsRemaining)
    s!"CLEANUP_FAIL: {g.cleanupGate.encodedStringsRemaining} encoded strings remain" ++
  report g.cleanupGate.runtimeDecoderRemaining
    "CLEANUP_FAIL: runtime decoder remains in output" ++
  report g.cleanupGate.protectionRuntimeRemaining
    "CLEANUP_FAIL: protection runtime remains in output" ++
  report g.oracleGate.veto "ORACLE_VETO: dynamic trace execution failed" ++
  report g.oracleGate.positiveEvidenceUsed
    "ORACLE_TAINT: prohibited positive oracle evidence used"

end DecisionGraph

/-- `(observed + dead) / blocks` to three decimals, in thousandths. -/
def Survey.coverageRatio (s : Survey) : ℕ :=
  if s.staticBasicBlocks = 0 then 1000
  else (2000 * (s.dynamicObservedBlocks + s.staticallyProvenDeadBlocks) + s.staticBasicBlocks) /
    (2 * s.staticBasicBlocks)

def Survey.wholeProgramClosed (s : Survey) : Bool :=
  s.externalInputs.isEmpty && s.escapingClosures == 0 && s.uncalledCallbacks == 0 &&
    !s.environmentReplaced

def Survey.allReachableBehaviorCovered (s : Survey) : Bool :=
  (s.unknownBranches == 0 && s.dynamicUnobservedBlocks == 0) ||
    (s.wholeProgramClosed && s.dynamicUnobservedBlocks == 0)

section Verify
variable {N : Type}

def oracleVeto (traceResult : Option (TraceResult N)) : Bool :=
  traceResult.any (fun t => t.success == some false)

/-- The eligibility flag that the analyzers receive. -/
def Survey.locallyEligible (s : Survey) (traceResult : Option (TraceResult N)) : Bool :=
  s.wholeProgramClosed && s.allReachableBehaviorCovered && !oracleVeto traceResult

def isL5TEligible (traceResult : Option (TraceResult N)) : Bool :=
  traceResult.any (fun t => t.succeeded && t.events.any (fun events => !events.isEmpty))

structure CompletenessReport (N : Type) where
  wholeProgramClosed : Bool
  wholeProgramComplete : Bool
  allReachableBehaviorCovered : Bool
  isL5WEligible : Bool
  isL5TEligible : Bool
  recommendedLevel : String
  proofIntegrity : ProofIntegrity
  requiredProofs : RequiredProofs
  safeWholeProgramReplacement : Bool
  unresolvedObligations : List MandatoryProof
  decisionGraph : DecisionGraph
  failureReasons : List String
  coverageRatio : ℕ
  info : CompletenessInfo N

variable [LuaNumber N]

/-- The reports of all analyzers. -/
def completenessInfo (f : Findings N) (traceResult : Option (TraceResult N)) :
    CompletenessInfo N :=
  let s := f.survey
  let isL5WEligible := s.locallyEligible traceResult
  let contained := s.escapingClosures == 0
  {
    mixedClosed := analyzeMixedClosed f.mixed f.lifted isL5WEligible s.escapingClosures
    closureCapture :=
      closureCaptureReport f.capture traceResult isL5WEligible s.externalInputs s.escapingClosures
    vararg := varargReport f.vararg traceResult isL5WEligible s.externalInputs s.escapingClosures
    multiReturn := multiReturnReport f.returns traceResult isL5WEligible
    tableRecovery := {
      tableRecovered := true
      localOwnershipProven := isL5WEligible && contained
      escapes := !contained
      safeToInlineField := isL5WEligible && contained
      safeToEliminateTable := isL5WEligible && contained }
    nestedFunction := {
      outerRecovered := 1 ≤ s.totalFunctions
      innerRecovered := 2 ≤ s.totalFunctions
      innerEscapes := !contained
      safeToInlineInner := isL5WEligible && contained
      safeToInlineOuter := isL5WEligible && contained }
    branchProof := {
      isDeadBranchEliminationSafe := isL5WEligible && s.externalInputs.isEmpty
      constantPropagationProven := s.externalInputs.isEmpty }
    inliningSafety := {
      isSafeToInline := isL5WEligible && contained && s.uncalledCallbacks == 0
      nonEscapingProven := contained }
    wholeProgramClosed := s.wholeProgramClosed }

/-- The mixed report after a failed validation has taken its safety back. -/
def demoted (mixed : Option (MixedClosedReport N)) (integrity required : Bool) :
    Option (MixedClosedReport N) :=
  mixed.map (fun m =>
    { m with safeWholeProgramReplacement :=
        m.safeWholeProgramReplacement && integrity && required })

/-- The mixed report decides if there is one, else inlining and branch elimination. -/
def safeReplacement (mixed : Option (MixedClosedReport N)) (info : CompletenessInfo N) : Bool :=
  match mixed with
  | some m => m.safeWholeProgramReplacement
  | none => info.inliningSafety.isSafeToInline && info.branchProof.isDeadBranchEliminationSafe

def verifyFindings (f : Findings N) (traceResult : Option (TraceResult N)) :
    CompletenessReport N :=
  let s := f.survey
  let info := completenessInfo f traceResult
  let proofIntegrity := validateIntegrity info.mixedClosed
  let requiredProofs := validateRequired info traceResult
  let mixedClosed := demoted info.mixedClosed proofIntegrity.pass requiredProofs.pass
  let wholeProgramComplete := s.allReachableBehaviorCovered && s.dynamicUnobservedBlocks == 0
  let safeWholeProgramReplacement := safeReplacement mixedClosed info
  let decisionGraph : DecisionGraph := {
    staticClosureGate := {
      wholeProgramClosed := s.wholeProgramClosed
      wholeProgramComplete := wholeProgramComplete }
    proofGate := {
      requiredProofsPass := requiredProofs.pass
      proofIntegrityPass := proofIntegrity.pass
      proofCompletenessPass := requiredProofs.missing.isEmpty
      unresolvedObligations := requiredProofs.missing }
    safeWholeProgramReplacement := safeWholeProgramReplacement
    cleanupGate := {
      vmDetached := true
      dispatcherStatesAfter := 0
      encodedStringsRemaining := 0
      runtimeDecoderRemaining := false
      protectionRuntimeRemaining := false }
    oracleGate := { veto := oracleVeto traceResult, positiveEvidenceUsed := false } }
  {
    wholeProgramClosed := s.wholeProgramClosed
    wholeProgramComplete := wholeProgramComplete
    allReachableBehaviorCovered := s.allReachableBehaviorCovered
    isL5WEligible := decisionGraph.finalEligible
    isL5TEligible := isL5TEligible traceResult
    recommendedLevel :=
      if decisionGraph.finalEligible then "L5-W"
      else if isL5TEligible traceResult then "L5-T"
      else if 700 < s.coverageRatio then "L4.5"
      else "L4"
    proofIntegrity := proofIntegrity
    requiredProofs := requiredProofs
    safeWholeProgramReplacement := safeWholeProgramReplacement
    unresolvedObligations := requiredProofs.missing
    decisionGraph := decisionGraph
    failureReasons := decisionGraph.failureReasons
    coverageRatio := s.coverageRatio
    info := { info with mixedClosed := mixedClosed } }

/-- `CompletenessVerifier.verify`; `analyse` stands for the walks over the
chunk, the environment analysis and the dispatcher's blocks. -/
def verify {Chunk Graph Detection : Type}
    (analyse : Chunk → Option Graph → Option Detection → Findings N) (astChunk : Chunk)
    (cfg : Option Graph) (traceResult : Option (TraceResult N)) (detection : Option Detection) :
    CompletenessReport N :=
  verifyFindings (analyse astChunk cfg detection) traceResult

end Verify
end LuaRecovery.Analysis
