import LuaRecovery.Gateway.RateLimiter
import LuaRecovery.Gateway.ArtifactStore

/-!
# The recovery gateway

A gateway puts a rate limiter, a job queue and an artifact store together. What
the container runner makes of a payload is part of a processing step's input,
and so are the readings of the clock and the random texts that a step draws.
-/

set_option autoImplicit false

namespace LuaRecovery.Gateway
open LuaRecovery.Lib LuaRecovery.Queue

structure RequestOptions where
  requestedStage : Option String
  semanticValidation : Option Bool
  skipRateCheck : Bool

structure RequestLimits where
  timeoutMs : Option ℕ
  maxInputBytes : Option ℕ
  maxOutputBytes : Option ℕ

/-- The source is missing where it is no string. -/
structure JobRequest where
  principalId : Option String
  source : Option CodeUnits
  filename : String
  idempotencyKey : Option String
  options : RequestOptions
  limits : RequestLimits

structure Payload where
  jobId : String
  idempotencyKey : String
  filename : String
  source : CodeUnits
  requestedStage : String
  semanticValidation : Bool
  timeoutMs : ℕ
  maxInputBytes : ℕ
  maxOutputBytes : ℕ

inductive WorkerStatus where
  | completed
  | timedOut
  | other
  deriving DecidableEq

/-- What the worker sends back; a report is made of its admission, if it has one. -/
structure WorkerResponse (Report Fault : Type) where
  status : WorkerStatus
  recoveredCode : Option CodeUnits
  report : Option Report
  error : Option Fault

/-- The error of a job: the worker's, or one that the gateway makes. -/
inductive FailureCause (Fault : Type) where
  | worker (error : Option Fault)
  | coded (code message : String)

structure GatewayError where
  code : Option String
  message : String
  resetMs : Option ℤ

structure Receipt where
  jobId : String
  state : JobState
  idempotencyKey : Option String
  isDuplicate : Bool
  createdAt : ℤ

abbrev GatewayQueue (Report Fault : Type) :=
  InMemoryJobQueue Payload (WorkerResponse Report Fault) (FailureCause Fault)

abbrev GatewayJob (Report Fault : Type) :=
  Job Payload (WorkerResponse Report Fault) (FailureCause Fault)

structure RecoveryGateway (Report Fault : Type) where
  rateLimiter : RateLimiter
  queue : GatewayQueue Report Fault
  artifactStore : LocalArtifactStore Report

/-- The random digits that a submission draws for its job id, and the readings of the clock. -/
structure SubmitDraws where
  hex : String
  now : ℤ
  clock : Clock
  storedAt : ℤ

/-- The token that a processing step draws for its lease, and the readings of the clock. -/
structure ProcessDraws where
  token : String
  leaseClock : Clock
  clock : Clock

section
variable {Report Fault : Type}

def JobRequest.jobId (draws : SubmitDraws) : String := "job-" ++ draws.hex

def JobRequest.payload (request : JobRequest) (jobId : String) (source : CodeUnits) : Payload where
  jobId := jobId
  idempotencyKey :=
    if truthy request.idempotencyKey then request.idempotencyKey.getD jobId else jobId
  filename := request.filename
  source := source
  requestedStage :=
    if truthy request.options.requestedStage then request.options.requestedStage.getD "auto"
    else "auto"
  semanticValidation := request.options.semanticValidation.getD true
  timeoutMs := numberOr request.limits.timeoutMs 30000
  maxInputBytes := numberOr request.limits.maxInputBytes (5 * 1024 * 1024)
  maxOutputBytes := numberOr request.limits.maxOutputBytes (2 * 1024 * 1024)

def receiptOf (job : GatewayJob Report Fault) (isDuplicate : Bool) : Receipt :=
  ⟨job.jobId, job.state, job.idempotencyKey, isDuplicate, job.createdAt⟩

def rateLimited (check : RateCheck) : GatewayError :=
  ⟨some "RATE_LIMIT_EXCEEDED", "Rate limit exceeded: " ++ check.reason, some check.resetMs⟩

def queueRefused (error : QueueError) : GatewayError := ⟨some error.code, error.message, none⟩

namespace RecoveryGateway

/-- The submission once the request is known to be complete and within its rate. -/
def enqueueJob (g : RecoveryGateway Report Fault) (request : JobRequest) (principalId : String)
    (source : CodeUnits) (draws : SubmitDraws) :
    RecoveryGateway Report Fault × Except GatewayError Receipt :=
  let jobId := JobRequest.jobId draws
  let jobData : JobData Payload :=
    ⟨some jobId, request.idempotencyKey, some principalId, request.payload jobId source⟩
  match g.queue.enqueue jobData "" draws.clock with
  | (queue, .error error) => ({ g with queue := queue }, .error (queueRefused error))
  | (queue, .ok (job, true)) => ({ g with queue := queue }, .ok (receiptOf job true))
  | (queue, .ok (job, false)) =>
      ({ g with
          queue := queue
          artifactStore := g.artifactStore.initJobArtifacts job.jobId principalId (some source)
            draws.storedAt },
        .ok (receiptOf job false))

def submitJobSync (g : RecoveryGateway Report Fault) (request : JobRequest)
    (draws : SubmitDraws) : RecoveryGateway Report Fault × Except GatewayError Receipt :=
  match request.principalId.filter (· ≠ ""), request.source.filter (· ≠ []) with
  | none, _ => (g, .error ⟨none, "principalId is required", none⟩)
  | some _, none => (g, .error ⟨none, "source must be a non-empty string", none⟩)
  | some principalId, some source =>
    if request.options.skipRateCheck then g.enqueueJob request principalId source draws
    else
      let (rateLimiter, check) := g.rateLimiter.checkLimit principalId "submit" draws.now
      let g := { g with rateLimiter := rateLimiter }
      if check.allowed then g.enqueueJob request principalId source draws
      else (g, .error (rateLimited check))

def saveCode (s : LocalArtifactStore Report) (jobId : String) (code : Option CodeUnits) :
    LocalArtifactStore Report × Except StoreError Unit :=
  match code.filter (· ≠ []) with
  | none => (s, .ok ())
  | some code => (s.saveRecoveredCode jobId code).map id (Except.map (fun _ => ()))

/-- The artifacts are saved one after the other; the second may fail when the first is saved. -/
def saveArtifacts (stringify : Report → CodeUnits) (s : LocalArtifactStore Report)
    (jobId : String) (response : WorkerResponse Report Fault) :
    LocalArtifactStore Report × Except StoreError Unit :=
  match saveCode s jobId response.recoveredCode with
  | (s, .error error) => (s, .error error)
  | (s, .ok ()) =>
    match response.report with
    | none => (s, .ok ())
    | some report => (s.saveReport stringify jobId report).map id (Except.map (fun _ => ()))

/-- What is done about an error that the runner or the artifact store throws. -/
def dispatchFailed (g : RecoveryGateway Report Fault) (job : GatewayJob Report Fault)
    (token message : String) (clock : Clock) : RecoveryGateway Report Fault :=
  { g with
    artifactStore := g.artifactStore.purgeSourceCode job.jobId
    queue := (g.queue.failJob job.jobId token (.coded "DISPATCH_ERROR" message) clock).1 }

/-- The result of a job is taken down. -/
def finishJob (g : RecoveryGateway Report Fault) (job : GatewayJob Report Fault) (token : String)
    (response : WorkerResponse Report Fault) (clock : Clock) : RecoveryGateway Report Fault :=
  { g with
    artifactStore := g.artifactStore.purgeSourceCode job.jobId
    queue :=
      if response.status = .completed then
        (g.queue.completeJob job.jobId token response clock).1
      else (g.queue.failJob job.jobId token (.worker response.error) clock).1 }

/-- A leased job that has its slot is run. -/
def runJob (stringify : Report → CodeUnits) (g : RecoveryGateway Report Fault)
    (job : GatewayJob Report Fault) (token : String) (clock : Clock)
    (outcome : Except String (WorkerResponse Report Fault)) :
    RecoveryGateway Report Fault × Except String (WorkerResponse Report Fault) :=
  match outcome with
  | .error message => (g.dispatchFailed job token message clock, .error message)
  | .ok response =>
    let (store, saved) := saveArtifacts stringify g.artifactStore job.jobId response
    let g := { g with artifactStore := store }
    match saved with
    | .error error => (g.dispatchFailed job token error.message clock, .error error.message)
    | .ok () => (g.finishJob job token response clock, .ok response)

def concurrencyExceeded (principalId : String) (slot : Slot) : FailureCause Fault :=
  .coded "PRINCIPAL_CONCURRENCY_EXCEEDED" ("Principal '" ++ principalId ++
    "' has reached max concurrent jobs (" ++ toString slot.maxAllowed ++ ")")

def processNextJobSync (stringify : Report → CodeUnits) (g : RecoveryGateway Report Fault)
    (workerId : String) (draws : ProcessDraws)
    (runner : Payload → Except String (WorkerResponse Report Fault)) :
    RecoveryGateway Report Fault × Except String (Option (WorkerResponse Report Fault)) :=
  match g.queue.leaseNextJob workerId none draws.token draws.leaseClock with
  | (queue, none) => ({ g with queue := queue }, .ok none)
  | (queue, some (job, token, _)) =>
    let (rateLimiter, slot) := g.rateLimiter.acquireConcurrency job.principalId
    if slot.acquired then
      let g := { g with queue := queue, rateLimiter := rateLimiter }
      let (g, result) := g.runJob stringify job token draws.clock (runner job.payload)
      ({ g with rateLimiter := g.rateLimiter.releaseConcurrency job.principalId },
        result.map some)
    else
      ({ g with
          rateLimiter := rateLimiter
          queue := (queue.failJob job.jobId token
            (concurrencyExceeded job.principalId slot) draws.clock).1 },
        .ok none)

/-- The job as far as its owner may see it. -/
def ownJob (g : RecoveryGateway Report Fault) (jobId principalId : String) :
    Except GatewayError (GatewayJob Report Fault) :=
  match g.queue.jobs.get jobId with
  | none => .error ⟨some "NOT_FOUND", "Job not found: " ++ jobId, none⟩
  | some job =>
    if job.principalId ≠ principalId then
      .error ⟨some "FORBIDDEN",
        "Forbidden: Principal '" ++ principalId ++ "' does not own job '" ++ jobId ++ "'", none⟩
    else .ok job

def cancelJob (g : RecoveryGateway Report Fault) (jobId principalId : String)
    (reason : Option String) (clock : Clock) :
    RecoveryGateway Report Fault × Except GatewayError Bool :=
  match g.ownJob jobId principalId with
  | .error error => (g, .error error)
  | .ok _ =>
    match g.queue.cancelJob jobId reason clock with
    | (queue, true) =>
        ({ g with
            queue := queue
            artifactStore := g.artifactStore.purgeSourceCode jobId }, .ok true)
    | (queue, false) => ({ g with queue := queue }, .ok false)

end RecoveryGateway
end
end LuaRecovery.Gateway
