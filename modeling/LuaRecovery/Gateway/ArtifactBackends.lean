import LuaRecovery.Gateway.ArtifactStore

/-!
# The stores that are shared between processes

One keeps its records in a cache over a bucket, the other in a directory for
each job. A job id is a plain name, so the directories of two jobs are apart,
and what is written of a job's meta data reads back as it was.
-/

set_option autoImplicit false

namespace LuaRecovery.Gateway
open LuaRecovery.Lib

/-- `JSON.stringify`, plain and with an indentation of two, and `JSON.parse`. -/
structure Json (Report : Type) where
  stringify : Report → CodeUnits
  pretty : Report → CodeUnits
  parse : CodeUnits → Option Report

structure S3Saved where
  bytes : ℕ
  s3Key : String

structure S3Meta (Report : Type) where
  jobId : String
  ownerPrincipalId : String
  createdAt : ℤ
  expiresAt : ℤ
  recoveredCode : Option CodeUnits
  report : Option Report
  logs : Option CodeUnits

structure S3CompatibleArtifactStore (Report : Type) where
  keyPrefix : String
  retentionMs : ℤ
  jobMetadata : InsertionMap String (S3Meta Report)

def metadataMissing (jobId : String) : StoreError := ⟨none, "Metadata not found for job: " ++ jobId⟩

def tooManyBytes (what : String) (limit : ℕ) : StoreError :=
  ⟨none, what ++ " " ++ toString limit ++ " bytes"⟩

def artifactsMissing (jobId : String) : StoreError :=
  ⟨some "NOT_FOUND", "Job artifacts not found: " ++ jobId⟩

def expired (jobId : String) : StoreError :=
  ⟨some "ARTIFACT_EXPIRED", "Artifacts for job " ++ jobId ++ " have expired"⟩

section
variable {Report : Type}

def S3Meta.get (m : S3Meta Report) : ArtifactType → Option (Content Report)
  | .sourceCode => none
  | .recoveredCode => m.recoveredCode.map .text
  | .report => m.report.map .report
  | .logs => m.logs.map .text

namespace S3CompatibleArtifactStore

def initJobArtifacts (s : S3CompatibleArtifactStore Report) (jobId ownerPrincipalId : String)
    (now : ℤ) : S3CompatibleArtifactStore Report :=
  { s with
    jobMetadata := s.jobMetadata.set jobId
      ⟨jobId, ownerPrincipalId, now, now + s.retentionMs, none, none, none⟩ }

def key (s : S3CompatibleArtifactStore Report) (jobId file : String) : String :=
  s.keyPrefix ++ (jobId ++ ("/" ++ file))

/-- What the three save operations have in common. -/
def save (s : S3CompatibleArtifactStore Report) (jobId : String) (text : CodeUnits)
    (limit : ℕ) (exceeds file : String) (put : S3Meta Report → S3Meta Report) :
    S3CompatibleArtifactStore Report × Except StoreError S3Saved :=
  match s.jobMetadata.get jobId with
  | none => (s, .error (metadataMissing jobId))
  | some m =>
    if limit < byteLength text then (s, .error (tooManyBytes exceeds limit))
    else ({ s with jobMetadata := s.jobMetadata.set jobId (put m) },
      .ok ⟨byteLength text, s.key jobId file⟩)

def saveRecoveredCode (s : S3CompatibleArtifactStore Report) (jobId : String) (code : CodeUnits) :
    S3CompatibleArtifactStore Report × Except StoreError S3Saved :=
  s.save jobId code maxCodeBytes "Recovered code exceeds" "recovered.lua"
    fun m => { m with recoveredCode := some code }

def saveReport (json : Json Report) (s : S3CompatibleArtifactStore Report) (jobId : String)
    (report : Report) : S3CompatibleArtifactStore Report × Except StoreError S3Saved :=
  s.save jobId (json.stringify report) maxReportBytes "Report exceeds" "report.json"
    fun m => { m with report := some report }

def saveLogs (s : S3CompatibleArtifactStore Report) (jobId : String) (logs : CodeUnits) :
    S3CompatibleArtifactStore Report × Except StoreError S3Saved :=
  s.save jobId logs maxLogBytes "Logs exceed" "execution.log" fun m => { m with logs := some logs }

/-- The metadata has no source that could go. -/
def purgeSourceCode (s : S3CompatibleArtifactStore Report) (_ : String) :
    S3CompatibleArtifactStore Report := s

/-- Whether the record has expired is not asked here. -/
def getArtifact (s : S3CompatibleArtifactStore Report) (jobId : String) (type : ArtifactType)
    (principalId : String) : Except StoreError (Content Report) :=
  match s.jobMetadata.get jobId with
  | none => .error (artifactsMissing jobId)
  | some m =>
    if m.ownerPrincipalId ≠ principalId then .error (forbidden jobId principalId)
    else
      match m.get type with
      | none => .error (unavailable jobId type)
      | some content => .ok content

def cleanupExpired (s : S3CompatibleArtifactStore Report) (now : ℤ) :
    S3CompatibleArtifactStore Report :=
  { s with
    jobMetadata := s.jobMetadata.entries.foldl
      (fun m entry => if entry.2.expiresAt < now then m.delete entry.1 else m) s.jobMetadata }

end S3CompatibleArtifactStore

structure FileMeta where
  jobId : String
  ownerPrincipalId : String
  createdAt : ℤ
  expiresAt : ℤ

/-- The files of a job; each is the text that it was written with. -/
structure JobDir where
  metaFile : Option FileMeta
  sourceCode : Option (List Char)
  recoveredCode : Option (List Char)
  report : Option (List Char)
  logs : Option (List Char)

structure FilesystemArtifactStore where
  retentionMs : ℤ
  dirs : InsertionMap String JobDir

/-- The file with the name of the type; the source is kept under another name. -/
def JobDir.file (d : JobDir) : ArtifactType → Option (List Char)
  | .sourceCode => none
  | .recoveredCode => d.recoveredCode
  | .report => d.report
  | .logs => d.logs

namespace FilesystemArtifactStore

/-- The directory of a job, made if it is not there. -/
def jobDir (s : FilesystemArtifactStore) (jobId : String) : JobDir :=
  (s.dirs.get jobId).getD ⟨none, none, none, none, none⟩

def initJobArtifacts (s : FilesystemArtifactStore) (jobId ownerPrincipalId : String)
    (sourceCode : Option CodeUnits) (now : ℤ) : FilesystemArtifactStore :=
  let dir := { s.jobDir jobId with
    metaFile := some ⟨jobId, ownerPrincipalId, now, now + s.retentionMs⟩ }
  { s with
    dirs := s.dirs.set jobId
      (match sourceCode.filter (fun source => source ≠ []) with
      | none => dir
      | some source => { dir with sourceCode := some (chars source) }) }

/-- What the three save operations have in common: they do not ask for a record. -/
def save (s : FilesystemArtifactStore) (jobId : String) (text : CodeUnits) (limit : ℕ)
    (what : String) (put : JobDir → JobDir) : FilesystemArtifactStore × Except StoreError ℕ :=
  let dir := s.jobDir jobId
  if limit < byteLength text then
    ({ s with dirs := s.dirs.set jobId dir }, .error (tooLarge what limit))
  else ({ s with dirs := s.dirs.set jobId (put dir) }, .ok (byteLength text))

def saveRecoveredCode (s : FilesystemArtifactStore) (jobId : String) (code : CodeUnits) :
    FilesystemArtifactStore × Except StoreError ℕ :=
  s.save jobId code maxCodeBytes "Recovered code exceeds"
    fun d => { d with recoveredCode := some (chars code) }

def saveReport (json : Json Report) (s : FilesystemArtifactStore) (jobId : String)
    (report : Report) : FilesystemArtifactStore × Except StoreError ℕ :=
  s.save jobId (json.pretty report) maxReportBytes "Report exceeds"
    fun d => { d with report := some (chars (json.pretty report)) }

def saveLogs (s : FilesystemArtifactStore) (jobId : String) (logs : CodeUnits) :
    FilesystemArtifactStore × Except StoreError ℕ :=
  s.save jobId logs maxLogBytes "Logs exceed" fun d => { d with logs := some (chars logs) }

def purgeSourceCode (s : FilesystemArtifactStore) (jobId : String) : FilesystemArtifactStore :=
  match s.dirs.get jobId with
  | none => s
  | some dir => { s with dirs := s.dirs.set jobId { dir with sourceCode := none } }

/-- A report that is no JSON is returned as text. -/
def content (json : Json Report) (type : ArtifactType) (text : CodeUnits) : Content Report :=
  match type, json.parse text with
  | .report, some report => .report report
  | _, _ => .text text

def getArtifact (json : Json Report) (s : FilesystemArtifactStore) (jobId : String)
    (type : ArtifactType) (principalId : String) (now : ℤ) :
    FilesystemArtifactStore × Except StoreError (Content Report) :=
  match (s.dirs.get jobId).bind JobDir.metaFile with
  | none => (s, .error (notFound jobId))
  | some m =>
    if m.expiresAt < now then
      ({ s with dirs := s.dirs.delete jobId }, .error (expired jobId))
    else if m.ownerPrincipalId ≠ principalId then (s, .error (forbidden jobId principalId))
    else
      match (s.jobDir jobId).file type with
      | none => (s, .error (unavailable jobId type))
      | some text => (s, .ok (content json type (utf16 text)))

def cleanupExpired (s : FilesystemArtifactStore) (now : ℤ) : FilesystemArtifactStore :=
  { s with
    dirs := s.dirs.entries.foldl (fun m entry =>
      if entry.2.metaFile.any (fun file => file.expiresAt < now) then m.delete entry.1 else m)
      s.dirs }

end FilesystemArtifactStore
end
end LuaRecovery.Gateway
