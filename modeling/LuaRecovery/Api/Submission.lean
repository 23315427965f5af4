import LuaRecovery.Api.Filename
import LuaRecovery.Gateway.GatewayRuns

/-!
# The submission handler of the API server

A handler waits three times: for the body of its request, for the gateway's
answer to a submission, or for its account of a job that a key is known for.
Between two waits it runs without interruption. How the body is read, decoded
and parsed, and the digest of a source, come from outside.
-/

set_option autoImplicit false

namespace LuaRecovery.Api
open LuaRecovery.Lib LuaRecovery.Queue LuaRecovery.Gateway

inductive ProductState where
  | queued
  | leased
  | running
  | succeeded
  | failed
  | timedOut
  | cancelled
  deriving DecidableEq

def mapInternalToProductState : JobState → ProductState
  | .queued => .queued
  | .running => .running
  | .completed => .succeeded
  | .failed => .failed
  | .timedOut => .timedOut
  | .cancelled => .cancelled
  | .resourceLimit => .failed

/-- What is sent back for a job. -/
structure JobSummary where
  jobId : String
  state : ProductState
  filename : String
  createdAt : ℤ

inductive Response where
  | created (job : JobSummary)
  | replayed (job : JobSummary)
  | refused (error : ApiError) (retryAfter : Option ℤ)

/-- The body of a request, as far as it is read. -/
structure SubmitBody where
  filename : Option CodeUnits
  source : Option CodeUnits
  idempotencyKey : Option String
  options : RequestOptions

structure Registered where
  jobId : String
  contentSha256 : String

/-- A body that was found in order. -/
structure Submission where
  filename : String
  source : CodeUnits
  contentSha256 : String
  idempotencyKey : Option String
  options : RequestOptions

inductive Phase (Report Fault : Type) where
  | reading
  | replaying (answer : Except GatewayError (GatewayJob Report Fault))
  | submitting (answer : Except GatewayError Receipt)
  | finished (response : Response)

structure Handler (Report Fault : Type) where
  principalId : String
  header : Option String
  todayKey : String
  currentDailyCount : ℕ
  submission : Option Submission
  phase : Phase Report Fault

structure ApiServer (Report Fault : Type) where
  maxSourceBytes : ℕ
  maxConcurrentJobs : ℕ
  maxJobsPerDay : ℕ
  gateway : RecoveryGateway Report Fault
  idempotencyRegistry : InsertionMap String Registered
  dailyJobCounts : InsertionMap String ℕ
  jobFilenames : InsertionMap String String
  handlers : List (Handler Report Fault)

structure ApiOptions where
  maxSourceBytes : Option ℕ
  maxConcurrentJobs : Option ℕ
  maxJobsPerDay : Option ℕ

inductive ApiEvent (Report Fault : Type) where
  | request (principalId : String) (header : Option String) (day : String) (now : ℤ)
  | body (i : ℕ) (outcome : Except ApiError SubmitBody) (draws : SubmitDraws)
  | resume (i : ℕ)
  | gateway (event : GatewayEvent Report Fault)

def dayKey (principalId day : String) : String := principalId ++ (":" ++ day)

def registryKey (principalId idempotencyKey : String) : String :=
  principalId ++ (":" ++ idempotencyKey)

def quotaExceeded (maxJobsPerDay : ℕ) : ApiError :=
  ⟨"QUOTA_EXCEEDED", "Daily quota exceeded (" ++ toString maxJobsPerDay ++ " jobs/day)", 429⟩

def idempotencyConflict : ApiError :=
  ⟨"IDEMPOTENCY_CONFLICT", "Idempotency key reused with different payload content", 409⟩

/-- `CONCURRENCY_LIMIT` is no code of the server's, so the error gets the default one. -/
def concurrencyLimit (activeJobsCount maxConcurrentJobs : ℕ) : ApiError :=
  ⟨"INTERNAL_ERROR", "Active jobs (" ++ toString activeJobsCount ++
    ") exceeds concurrency limit (" ++ toString maxConcurrentJobs ++ ")", 429⟩

def fileTooLarge (sourceBytes maxSourceBytes : ℕ) : ApiError :=
  ⟨"FILE_TOO_LARGE", "Source size (" ++ toString sourceBytes ++ " bytes) exceeds limit (" ++
    toString maxSourceBytes ++ " bytes)", 413⟩

/-- An error of the gateway that the server does not know. -/
def internalError (error : GatewayError) : ApiError := ⟨"INTERNAL_ERROR", error.message, 500⟩

def mentions (text part : String) : Bool := part.toList <:+: text.toLower.toList

def ceilSeconds (ms : ℤ) : ℤ := -(-ms / 1000)

/-- What is answered when the gateway does not take a job. -/
def submitError (error : GatewayError) : Response :=
  if error.code = some "RATE_LIMIT_EXCEEDED" then
    .refused ⟨"RATE_LIMITED", error.message, 429⟩
      (some (ceilSeconds (numberOr error.resetMs 1000)))
  else if error.code = some "PRINCIPAL_CONCURRENCY_EXCEEDED" then
    .refused ⟨"QUOTA_EXCEEDED", error.message, 429⟩ none
  else if error.code ∈ [some "BACKPRESSURE_EXCEEDED", some "QUEUE_FULL", some "SATURATED",
        some "QUEUE_SATURATED"] ∨
      mentions error.message "backpressure" ∨ mentions error.message "queue" ∨
      mentions error.message "saturated" then
    .refused ⟨"QUEUE_SATURATED", "Recovery queue is at capacity. Retry later.", 503⟩ (some 5)
  else .refused (internalError error) none

/-- What the server uses of its host: the digest of a text and the JSON of a report. -/
structure Host (Report : Type) where
  sha256 : CodeUnits → String
  stringify : Report → CodeUnits

section
variable {Report Fault : Type}

def Handler.finish (h : Handler Report Fault) (response : Response) : Handler Report Fault :=
  { h with phase := .finished response }

/-- The key under which the handler's submission is registered. -/
def Handler.registryKey (h : Handler Report Fault) : Option String :=
  (h.submission.bind fun sub => sub.idempotencyKey).map (Api.registryKey h.principalId)

def jobRequest (principalId : String) (sub : Submission) : JobRequest where
  principalId := some principalId
  source := some sub.source
  filename := sub.filename
  idempotencyKey := none
  options := sub.options
  limits := ⟨none, none, none⟩

namespace ApiServer

def create (options : ApiOptions) (gateway : RecoveryGateway Report Fault) :
    ApiServer Report Fault where
  maxSourceBytes := numberOr options.maxSourceBytes (5 * 1024 * 1024)
  maxConcurrentJobs := numberOr options.maxConcurrentJobs 5
  maxJobsPerDay := numberOr options.maxJobsPerDay 100
  gateway := gateway
  idempotencyRegistry := .empty
  dailyJobCounts := .empty
  jobFilenames := .empty
  handlers := []

def dailyCount (s : ApiServer Report Fault) (todayKey : String) : ℕ :=
  (s.dailyJobCounts.get todayKey).getD 0

/-- The checks at the start of a request; its handler then waits for the body. -/
def receive (s : ApiServer Report Fault) (principalId : String) (header : Option String)
    (day : String) (now : ℤ) : ApiServer Report Fault :=
  let (rateLimiter, check) := s.gateway.rateLimiter.checkLimit principalId "submit" now
  let todayKey := dayKey principalId day
  let count := s.dailyCount todayKey
  let phase : Phase Report Fault :=
    if ¬ check.allowed then
      .finished (.refused ⟨"RATE_LIMITED", "Rate limit exceeded: " ++ check.reason, 429⟩
        (some (max 1 (ceilSeconds (if check.resetMs = 0 then 1000 else check.resetMs)))))
    else if s.maxJobsPerDay ≤ count then .finished (.refused (quotaExceeded s.maxJobsPerDay) none)
    else .reading
  { s with
    gateway := { s.gateway with rateLimiter := rateLimiter }
    handlers := s.handlers ++ [⟨principalId, header, todayKey, count, none, phase⟩] }

/-- The checks of a body, and the digest of its source. -/
def validate (host : Host Report) (s : ApiServer Report Fault) (header : Option String)
    (body : SubmitBody) : Except ApiError Submission :=
  match sanitizeFilename body.filename with
  | .error error => .error error
  | .ok filename =>
    match body.source.filter (fun source => source ≠ []) with
    | none => .error (invalidFile "Source content must be a non-empty string")
    | some source =>
      if 0 ∈ source then .error (invalidFile "Source content cannot contain NUL bytes")
      else if s.maxSourceBytes < byteLength source then
        .error (fileTooLarge (byteLength source) s.maxSourceBytes)
      else
        let key := if truthy header then header else body.idempotencyKey
        .ok ⟨filename, source, host.sha256 source, if truthy key then key else none, body.options⟩

def registered (s : ApiServer Report Fault) (h : Handler Report Fault) : Option Registered :=
  h.registryKey.bind s.idempotencyRegistry.get

/-- The number of active jobs is not known: the gateway has no such function. -/
def activeJobsCount (_ : ApiServer Report Fault) : ℕ := 0

/-- The handler goes on with a body in order, up to its next wait. -/
def proceed (s : ApiServer Report Fault) (h : Handler Report Fault) (sub : Submission)
    (draws : SubmitDraws) : RecoveryGateway Report Fault × Handler Report Fault :=
  let h := { h with submission := some sub }
  match s.registered h with
  | some existing =>
    if existing.contentSha256 ≠ sub.contentSha256 then
      (s.gateway, h.finish (.refused idempotencyConflict none))
    else
      (s.gateway, { h with phase := .replaying (s.gateway.ownJob existing.jobId h.principalId) })
  | none =>
    if s.maxConcurrentJobs ≤ s.activeJobsCount then
      (s.gateway, h.finish (.refused (concurrencyLimit s.activeJobsCount s.maxConcurrentJobs) none))
    else
      let (gateway, answer) := s.gateway.submitJobSync (jobRequest h.principalId sub) draws
      (gateway, { h with phase := .submitting answer })

def onBody (host : Host Report) (s : ApiServer Report Fault) (h : Handler Report Fault)
    (outcome : Except ApiError SubmitBody) (draws : SubmitDraws) :
    RecoveryGateway Report Fault × Handler Report Fault :=
  match outcome with
  | .error error => (s.gateway, h.finish (.refused error none))
  | .ok body =>
    match s.validate host h.header body with
    | .error error => (s.gateway, h.finish (.refused error none))
    | .ok sub => s.proceed h sub draws

def onReplay (s : ApiServer Report Fault) (answer : Except GatewayError (GatewayJob Report Fault)) :
    Response :=
  match answer with
  | .error error => .refused (internalError error) none
  | .ok job => .replayed ⟨job.jobId, mapInternalToProductState job.state,
      (s.jobFilenames.get job.jobId).getD "recovered.lua", job.createdAt⟩

def register (s : ApiServer Report Fault) (h : Handler Report Fault) (sub : Submission)
    (jobId : String) : InsertionMap String Registered :=
  match h.registryKey with
  | none => s.idempotencyRegistry
  | some key => s.idempotencyRegistry.set key ⟨jobId, sub.contentSha256⟩

/-- The gateway has taken the job: the day's usage, the file's name and the key are recorded. -/
def record (s : ApiServer Report Fault) (i : ℕ) (h : Handler Report Fault) (sub : Submission)
    (receipt : Receipt) : ApiServer Report Fault :=
  { s with
    dailyJobCounts := s.dailyJobCounts.set h.todayKey (h.currentDailyCount+1)
    jobFilenames := s.jobFilenames.set receipt.jobId sub.filename
    idempotencyRegistry := s.register h sub receipt.jobId
    handlers := s.handlers.set i (h.finish (.created ⟨receipt.jobId,
      mapInternalToProductState receipt.state, sub.filename, receipt.createdAt⟩)) }

def step (host : Host Report) (s : ApiServer Report Fault) :
    ApiEvent Report Fault → Option (ApiServer Report Fault)
  | .request principalId header day now => some (s.receive principalId header day now)
  | .body i outcome draws =>
    s.handlers[i]?.bind fun h =>
      match h.phase with
      | .reading =>
        let (gateway, h') := s.onBody host h outcome draws
        some { s with gateway := gateway, handlers := s.handlers.set i h' }
      | _ => none
  | .resume i =>
    s.handlers[i]?.bind fun h =>
      match h.phase, h.submission with
      | .replaying answer, _ =>
          some { s with handlers := s.handlers.set i (h.finish (s.onReplay answer)) }
      | .submitting (.error error), _ =>
          some { s with handlers := s.handlers.set i (h.finish (submitError error)) }
      | .submitting (.ok receipt), some sub => some (s.record i h sub receipt)
      | _, _ => none
  | .gateway event => some { s with gateway := s.gateway.handle host.stringify event }

end ApiServer
end
end LuaRecovery.Api
