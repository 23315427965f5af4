import LuaRecovery.Analysis.CompletenessVerifier
import LuaRecovery.Lua.Number

/-!
# Oracle separation

A trace reaches the verdict along three ways only: the veto, the fallbacks of
three feature reports, and the count of print calls that asks for the contract
of a mixed program. The first can only refuse, the second feeds proofs that a
closed program has anyway, and the third exchanges a contract that a closed
program always meets for one that it may fail.
-/

set_option autoImplicit false

namespace LuaRecovery.Analysis
open LuaRecovery.Lua LuaRecovery.Oracle

section Contracts
variable {N : Type}

/-- Every required proof is proven. -/
def Fulfilled (contract : List (MandatoryProof × Bool)) : Prop :=
  ∀ entry ∈ contract, entry.2 = true

theorem fulfilled_nil : Fulfilled [] := by simp [Fulfilled]

theorem fulfilled_append (a b : List (MandatoryProof × Bool)) :
    Fulfilled (a++b) ↔ Fulfilled a ∧ Fulfilled b := by
  simp only [Fulfilled, List.mem_append, or_imp, forall_and]

theorem fulfilled_ite (c : Bool) (a : List (MandatoryProof × Bool)) (ha : Fulfilled a) :
    Fulfilled (if c then a else []) := by
  by_cases h : c
  · rw [if_pos h]
    exact ha
  · rw [if_neg h]
    exact fulfilled_nil

theorem featureContract_fulfilled (info : CompletenessInfo N)
    (hclosed : info.wholeProgramClosed = true) : Fulfilled (featureContract info) := by
  have hvararg : ∀ v : VarargReport, Fulfilled (if v.varargDetected then
      [(.varargBindingFlow, v.safeToInline || info.wholeProgramClosed)] else []) :=
    fun v => fulfilled_ite _ _ (by simp [Fulfilled, hclosed])
  have hreturn : ∀ m : MultiReturnReport N, Fulfilled (if m.functionRecovered then
      [(.multireturnExpansion, m.safeToInline || info.wholeProgramClosed)] else []) :=
    fun m => fulfilled_ite _ _ (by simp [Fulfilled, hclosed])
  have hcapture : ∀ c : ClosureCaptureReport, Fulfilled
      (if c.closureRecovered && !c.capturedBindings.isEmpty then
        [(.lexicalUpvalueCapture, c.safeToInline || info.wholeProgramClosed)] else []) :=
    fun c => fulfilled_ite _ _ (by simp [Fulfilled, hclosed])
  simp only [featureContract, fulfilled_append]
  refine ⟨⟨⟨⟨⟨⟨?_, ?_⟩, ?_⟩, ?_⟩, ?_⟩, ?_⟩, ?_⟩
  · cases info.vararg with
    | none => exact fulfilled_nil
    | some v => exact hvararg v
  · cases info.multiReturn with
    | none => exact fulfilled_nil
    | some m => exact hreturn m
  · cases info.closureCapture with
    | none => exact fulfilled_nil
    | some c => exact hcapture c
  all_goals exact fulfilled_ite _ _ (by simp [Fulfilled, hclosed])

/-- A closed program meets the contracts of its single features, whatever its reports say. -/
theorem singleFeatureContract_fulfilled (info : CompletenessInfo N)
    (hclosed : info.wholeProgramClosed = true) : Fulfilled (singleFeatureContract info) := by
  simp only [singleFeatureContract, fulfilled_append]
  have hfeatures := featureContract_fulfilled info hclosed
  have hbase := fulfilled_ite ((featureContract info).isEmpty && info.wholeProgramClosed)
    [(.constantPropagation, true)] (by simp [Fulfilled])
  have hwhole := fulfilled_ite info.wholeProgramClosed [(.wholeProgramReplacement, true)]
    (by simp [Fulfilled])
  exact ⟨⟨hfeatures, hbase⟩, hwhole⟩

theorem settle_fulfilled (contract : List (MandatoryProof × Bool)) (h : Fulfilled contract) :
    (settle contract false).pass = true ∧ (settle contract false).missing = [] := by
  have hall : contract.filter Prod.snd = contract := List.filter_eq_self.mpr h
  have hmissing : (settle contract false).missing = [] := by
    rw [settle, hall, List.filter_eq_nil_iff]
    intro r hr
    rw [Bool.not_eq_true, Bool.not_eq_false', List.contains_iff_mem]
    exact hr
  have hpass : (settle contract false).pass = (settle contract false).missing.isEmpty :=
    Bool.and_true _
  rw [hpass, hmissing]
  exact ⟨rfl, rfl⟩

/-- Under the mixed contract the verdict reads the mixed report alone. -/
theorem validateRequired_cross (info : CompletenessInfo N) (t : Option (TraceResult N))
    (h : isCrossFeatureMixed info.mixedClosed t = true) :
    validateRequired info t = settle (crossFeatureContract info.mixedClosed)
      (info.mixedClosed.any (fun m => !m.safeWholeProgramReplacement)) := by
  rw [validateRequired, if_pos h]

theorem validateRequired_single (info : CompletenessInfo N) (t : Option (TraceResult N))
    (hclosed : info.wholeProgramClosed = true)
    (h : ¬isCrossFeatureMixed info.mixedClosed t = true) :
    (validateRequired info t).pass = true ∧ (validateRequired info t).missing = [] := by
  rw [validateRequired, if_neg h]
  exact settle_fulfilled _ (singleFeatureContract_fulfilled info hclosed)

theorem isCrossFeatureMixed_of_none (mixed : Option (MixedClosedReport N))
    (t : Option (TraceResult N)) (h : isCrossFeatureMixed mixed none = true) :
    isCrossFeatureMixed mixed t = true := by
  have hany : mixed.any isCrossFeatureReport = true := h
  rw [isCrossFeatureMixed, hany, Bool.or_true]

/-- Without a trace, a closed program owes no more than with one. -/
theorem required_none_of_some (info info' : CompletenessInfo N) (t : Option (TraceResult N))
    (hmixed : info'.mixedClosed = info.mixedClosed) (hclosed : info'.wholeProgramClosed = true)
    (hpass : (validateRequired info t).pass = true)
    (hmissing : (validateRequired info t).missing = []) :
    (validateRequired info' none).pass = true ∧ (validateRequired info' none).missing = [] := by
  by_cases h : isCrossFeatureMixed info'.mixedClosed none = true
  · have hcross : isCrossFeatureMixed info.mixedClosed t = true := by
      rw [← hmixed]
      exact isCrossFeatureMixed_of_none _ t h
    rw [validateRequired_cross info t hcross] at hpass hmissing
    rw [validateRequired_cross info' none h, hmixed]
    exact ⟨hpass, hmissing⟩
  · exact validateRequired_single info' none hclosed h

theorem oracleVeto_none : oracleVeto (none : Option (TraceResult N)) = false := rfl

/-- A trace that does not veto leaves the eligibility flag as it is without one. -/
theorem locallyEligible_of_no_veto (s : Survey) (t : Option (TraceResult N))
    (h : oracleVeto t = false) :
    s.locallyEligible t = s.locallyEligible (none : Option (TraceResult N)) := by
  rw [Survey.locallyEligible, Survey.locallyEligible, h, oracleVeto_none]

theorem demoted_pass (mixed : Option (MixedClosedReport N)) : demoted mixed true true = mixed := by
  cases mixed with
  | none => rfl
  | some m => simp [demoted]

end Contracts

section Verdict
variable {N : Type} [LuaNumber N]

/-- The mixed report depends on the trace through the eligibility flag only. -/
theorem mixedClosed_of_no_veto (f : Findings N) (t : Option (TraceResult N))
    (h : oracleVeto t = false) :
    (completenessInfo f t).mixedClosed = (completenessInfo f none).mixedClosed := by
  simp only [completenessInfo, locallyEligible_of_no_veto f.survey t h]

theorem safeReplacement_of_no_veto (f : Findings N) (t : Option (TraceResult N))
    (h : oracleVeto t = false) (mixed : Option (MixedClosedReport N)) :
    safeReplacement mixed (completenessInfo f t) =
      safeReplacement mixed (completenessInfo f none) := by
  simp only [safeReplacement, completenessInfo, locallyEligible_of_no_veto f.survey t h]

/-- What is left of the gate's conjunction for a set of reports. -/
structure Admitted (s : Survey) (info : CompletenessInfo N) (t : Option (TraceResult N)) :
    Prop where
  closed : s.wholeProgramClosed = true
  covered : s.allReachableBehaviorCovered = true
  observed : s.dynamicUnobservedBlocks = 0
  required : (validateRequired info t).pass = true
  discharged : (validateRequired info t).missing = []
  integrity : (validateIntegrity info.mixedClosed).pass = true
  replaceable : safeReplacement info.mixedClosed info = true
  unvetoed : oracleVeto t = false

theorem isL5WEligible_iff (f : Findings N) (t : Option (TraceResult N)) :
    (verifyFindings f t).isL5WEligible = true ↔ Admitted f.survey (completenessInfo f t) t := by
  constructor
  · intro h
    simp only [verifyFindings, DecisionGraph.finalEligible, DecisionGraph.staticPass,
      DecisionGraph.proofPass, DecisionGraph.proofCompletenessPass, DecisionGraph.cleanupPass,
      DecisionGraph.oraclePass, Bool.and_eq_true, List.isEmpty_iff, beq_iff_eq,
      Bool.not_eq_true'] at h
    have hintegrity := h.1.1.1.2.1.1.2
    have hrequired := h.1.1.1.2.1.1.1
    have hsafe := h.1.1.2
    rw [hintegrity, hrequired, demoted_pass] at hsafe
    exact ⟨h.1.1.1.1.1, h.1.1.1.1.2.1, h.1.1.1.1.2.2, hrequired, h.1.1.1.2.2, hintegrity, hsafe,
      h.2.1⟩
  · intro h
    simp only [verifyFindings, DecisionGraph.finalEligible, DecisionGraph.staticPass,
      DecisionGraph.proofPass, DecisionGraph.proofCompletenessPass, DecisionGraph.cleanupPass,
      DecisionGraph.oraclePass, h.integrity, h.required, demoted_pass, h.closed, h.covered,
      h.observed, h.discharged, h.unvetoed, h.replaceable]
    rfl

/-- The oracle can veto but never promote: a program admitted with a trace is
admitted without one. -/
theorem admitted_without_trace (f : Findings N) (t : Option (TraceResult N))
    (h : Admitted f.survey (completenessInfo f t) t) :
    Admitted f.survey (completenessInfo f none) none := by
  have hmixed := mixedClosed_of_no_veto f t h.unvetoed
  have hclosed : (completenessInfo f none).wholeProgramClosed = true := h.closed
  have hrequired := required_none_of_some (completenessInfo f t) (completenessInfo f none) t
    hmixed.symm hclosed h.required h.discharged
  have hreplaceable := h.replaceable
  rw [hmixed, safeReplacement_of_no_veto f t h.unvetoed] at hreplaceable
  have hintegrity := h.integrity
  rw [hmixed] at hintegrity
  exact ⟨h.closed, h.covered, h.observed, hrequired.1, hrequired.2, hintegrity, hreplaceable,
    oracleVeto_none⟩

theorem oracle_never_promotes {Chunk Graph Detection : Type}
    (analyse : Chunk → Option Graph → Option Detection → Findings N) (astChunk : Chunk)
    (cfg : Option Graph) (traceResult : TraceResult N) (detection : Option Detection)
    (h : (verify analyse astChunk cfg (some traceResult) detection).isL5WEligible = true) :
    (verify analyse astChunk cfg none detection).isL5WEligible = true := by
  rw [verify, isL5WEligible_iff] at h ⊢
  exact admitted_without_trace _ _ h

/-- A closed program without functions or branches. -/
def closedFindings : Findings N where
  survey := {
    externalInputs := []
    escapingClosures := 0
    uncalledCallbacks := 0
    unknownBranches := 0
    environmentReplaced := false
    totalFunctions := 0
    staticBasicBlocks := 1
    dynamicObservedBlocks := 1
    dynamicUnobservedBlocks := 0
    staticallyProvenDeadBlocks := 0 }
  returns := {
    astMultiReturnFound := false
    astReturnArgCount := 0
    astReturnValues := []
    astAssignmentTargetCount := 0 }
  vararg := none
  capture := {
    capturedBindings := []
    upvalueReads := 0
    upvalueWrites := 0
    externalWrites := 0
    bindingValueKnownAtCall := true
    externalCalls := []
    escapes := 0 }
  mixed := {
    factoryFound := false
    factoryCalls := 0
    invocationCount := 0
    varargTableBinding := none
    mutableUpvalueBinding := none
    upvalueInitialValue := LuaNumber.ofNat 0
    mutableUpvalueCount := 0
    branchCondition := none
    capturedBindings := []
    innerReturnCount := none
    externalTableMutation := false
    dynamicVararg := false
    escapes := 0 }
  lifted := none

theorem closed_program_admitted :
    (verify (fun (_ : Block ℤ) (_ _ : Option Unit) => (closedFindings : Findings ℤ)) [] none none
      none).isL5WEligible = true :=
  oracle_never_promotes _ [] none ⟨some true, some [.call "print" [.number 1]]⟩ none (by decide)

end Verdict
end LuaRecovery.Analysis
