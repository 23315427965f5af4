import LuaRecovery.Lib.InsertionMap
import LuaRecovery.Lib.Utf16
import Mathlib.Algebra.Order.Ring.Int

/-!
# The local artifact store

What a job leaves behind is kept under its id, with its owner and the time until
which it is kept. A report is stored as it is; its text only counts for the
limit on its size.
-/

set_option autoImplicit false

namespace LuaRecovery.Gateway
open LuaRecovery.Lib

structure StoreError where
  code : Option String
  message : String

structure Artifacts (Report : Type) where
  sourceCode : Option CodeUnits
  recoveredCode : Option CodeUnits
  report : Option Report
  logs : Option CodeUnits

structure ArtifactEntry (Report : Type) where
  jobId : String
  ownerPrincipalId : String
  createdAt : ℤ
  expiresAt : ℤ
  artifacts : Artifacts Report

inductive ArtifactType where
  | sourceCode
  | recoveredCode
  | report
  | logs

def ArtifactType.name : ArtifactType → String
  | .sourceCode => "sourceCode"
  | .recoveredCode => "recoveredCode"
  | .report => "report"
  | .logs => "logs"

inductive Content (Report : Type) where
  | text (units : CodeUnits)
  | report (value : Report)

def maxCodeBytes : ℕ := 5 * 1024 * 1024
def maxReportBytes : ℕ := 2 * 1024 * 1024
def maxLogBytes : ℕ := 1 * 1024 * 1024

structure LocalArtifactStore (Report : Type) where
  retentionMs : ℤ
  storage : InsertionMap String (ArtifactEntry Report)

def recordMissing (jobId : String) : StoreError :=
  ⟨none, "Artifact record not found for job: " ++ jobId⟩

def tooLarge (what : String) (limit : ℕ) : StoreError :=
  ⟨none, what ++ " maximum size limit of " ++ toString limit ++ " bytes"⟩

def notFound (jobId : String) : StoreError :=
  ⟨some "NOT_FOUND", "Job artifacts not found or expired: " ++ jobId⟩

def forbidden (jobId principalId : String) : StoreError :=
  ⟨some "FORBIDDEN",
    "Forbidden: Principal '" ++ principalId ++ "' does not own job '" ++ jobId ++ "'"⟩

def unavailable (jobId : String) (type : ArtifactType) : StoreError :=
  ⟨some "ARTIFACT_NOT_FOUND",
    "Artifact '" ++ type.name ++ "' is not available for job: " ++ jobId⟩

section
variable {Report : Type}

def Artifacts.get (a : Artifacts Report) : ArtifactType → Option (Content Report)
  | .sourceCode => a.sourceCode.map .text
  | .recoveredCode => a.recoveredCode.map .text
  | .report => a.report.map .report
  | .logs => a.logs.map .text

namespace LocalArtifactStore

def initJobArtifacts (s : LocalArtifactStore Report) (jobId ownerPrincipalId : String)
    (sourceCode : Option CodeUnits) (now : ℤ) : LocalArtifactStore Report :=
  { s with
    storage := s.storage.set jobId
      { jobId := jobId
        ownerPrincipalId := ownerPrincipalId
        createdAt := now
        expiresAt := now + s.retentionMs
        artifacts := ⟨sourceCode.filter (· ≠ []), none, none, none⟩ } }

def modify (s : LocalArtifactStore Report) (jobId : String) (entry : ArtifactEntry Report)
    (f : Artifacts Report → Artifacts Report) : LocalArtifactStore Report :=
  { s with storage := s.storage.set jobId { entry with artifacts := f entry.artifacts } }

def saveRecoveredCode (s : LocalArtifactStore Report) (jobId : String) (code : CodeUnits) :
    LocalArtifactStore Report × Except StoreError ℕ :=
  match s.storage.get jobId with
  | none => (s, .error (recordMissing jobId))
  | some entry =>
    if maxCodeBytes < byteLength code then
      (s, .error (tooLarge "Recovered code exceeds" maxCodeBytes))
    else (s.modify jobId entry (fun a => { a with recoveredCode := some code }),
      .ok (byteLength code))

def saveReport (stringify : Report → CodeUnits) (s : LocalArtifactStore Report) (jobId : String)
    (report : Report) : LocalArtifactStore Report × Except StoreError ℕ :=
  match s.storage.get jobId with
  | none => (s, .error (recordMissing jobId))
  | some entry =>
    if maxReportBytes < byteLength (stringify report) then
      (s, .error (tooLarge "Report exceeds" maxReportBytes))
    else (s.modify jobId entry (fun a => { a with report := some report }),
      .ok (byteLength (stringify report)))

def saveLogs (s : LocalArtifactStore Report) (jobId : String) (logs : CodeUnits) :
    LocalArtifactStore Report × Except StoreError ℕ :=
  match s.storage.get jobId with
  | none => (s, .error (recordMissing jobId))
  | some entry =>
    if maxLogBytes < byteLength logs then (s, .error (tooLarge "Logs exceed" maxLogBytes))
    else (s.modify jobId entry (fun a => { a with logs := some logs }), .ok (byteLength logs))

def purgeSourceCode (s : LocalArtifactStore Report) (jobId : String) :
    LocalArtifactStore Report :=
  match s.storage.get jobId with
  | none => s
  | some entry => s.modify jobId entry (fun a => { a with sourceCode := none })

/-- Deleting an entry does not keep the loop from reaching the others. -/
def cleanupExpired (s : LocalArtifactStore Report) (now : ℤ) : LocalArtifactStore Report :=
  { s with
    storage := s.storage.entries.foldl
      (fun m entry => if entry.2.expiresAt < now then m.delete entry.1 else m) s.storage }

def getArtifact (s : LocalArtifactStore Report) (jobId : String) (type : ArtifactType)
    (principalId : String) (now : ℤ) :
    LocalArtifactStore Report × Except StoreError (Content Report) :=
  let s := s.cleanupExpired now
  match s.storage.get jobId with
  | none => (s, .error (notFound jobId))
  | some entry =>
    if entry.ownerPrincipalId ≠ principalId then (s, .error (forbidden jobId principalId))
    else
      match entry.artifacts.get type with
      | none => (s, .error (unavailable jobId type))
      | some content => (s, .ok content)

/-- The source of a job, as far as the store still has it. -/
def sourceOf (s : LocalArtifactStore Report) (jobId : String) : Option CodeUnits :=
  (s.storage.get jobId).bind fun entry => entry.artifacts.sourceCode

section
variable (s : LocalArtifactStore Report) (jobId i : String)

theorem sourceOf_modify {entry : ArtifactEntry Report} (f : Artifacts Report → Artifacts Report)
    (hget : s.storage.get jobId = some entry)
    (hf : (f entry.artifacts).sourceCode = entry.artifacts.sourceCode) :
    (s.modify jobId entry f).sourceOf i = s.sourceOf i := by
  unfold sourceOf modify
  rw [InsertionMap.get_set]
  split
  next heq => simp [heq, hget, hf]
  next => rfl

theorem sourceOf_initJobArtifacts (ownerPrincipalId : String) (sourceCode : Option CodeUnits)
    (now : ℤ) : (s.initJobArtifacts jobId ownerPrincipalId sourceCode now).sourceOf i =
      if i = jobId then sourceCode.filter (· ≠ []) else s.sourceOf i := by
  unfold sourceOf initJobArtifacts
  rw [InsertionMap.get_set]
  split
  · rfl
  · rfl

theorem sourceOf_purgeSourceCode :
    (s.purgeSourceCode jobId).sourceOf i = if i = jobId then none else s.sourceOf i := by
  unfold purgeSourceCode
  cases hget : s.storage.get jobId with
  | none =>
    by_cases hi : i = jobId <;> simp [sourceOf, hi, hget]
  | some entry =>
    by_cases hi : i = jobId <;> simp [sourceOf, modify, InsertionMap.get_set, hi]

theorem sourceOf_saveRecoveredCode (code : CodeUnits) :
    (s.saveRecoveredCode jobId code).1.sourceOf i = s.sourceOf i := by
  unfold saveRecoveredCode
  cases hget : s.storage.get jobId with
  | none => rfl
  | some entry =>
    dsimp only
    split
    · rfl
    · exact sourceOf_modify s jobId i _ hget rfl

theorem sourceOf_saveReport (stringify : Report → CodeUnits) (report : Report) :
    (s.saveReport stringify jobId report).1.sourceOf i = s.sourceOf i := by
  unfold saveReport
  cases hget : s.storage.get jobId with
  | none => rfl
  | some entry =>
    dsimp only
    split
    · rfl
    · exact sourceOf_modify s jobId i _ hget rfl

end
end LocalArtifactStore
end
end LuaRecovery.Gateway
