import LuaRecovery.Lib.InsertionMap
import LuaRecovery.Queue.JobState
import Mathlib.Algebra.Order.Ring.Int

/-!
# The in-memory job queue

Jobs wait in a list, a worker leases the first one under a token, and a lease
that runs out is reclaimed when the next job is leased or the statistics are
read. An operation reads the clock up to twice; the readings are part of its
input, and so are the random texts it draws.
-/

set_option autoImplicit false

namespace LuaRecovery.Queue
open LuaRecovery.Lib

/-- The readings of the clock within one operation. -/
structure Clock where
  now : ℤ
  later : ℤ

/-- JavaScript's `value || default` for an optional number. -/
def numberOr {α : Type} [Zero α] [DecidableEq α] (value : Option α) (default : α) : α :=
  match value with
  | some a => if a = 0 then default else a
  | none => default

def truthy (text : Option String) : Bool :=
  match text with
  | some s => s ≠ ""
  | none => false

structure QueueError where
  code : String
  message : String
  deriving DecidableEq

/-- What a job records as its error: the worker's own value, or one made here. -/
inductive JobError (E : Type) where
  | reported (error : E)
  | coded (code message : String)

structure JobData (P : Type) where
  jobId : Option String
  idempotencyKey : Option String
  principalId : Option String
  payload : P

structure Job (P R E : Type) where
  jobId : String
  idempotencyKey : Option String
  principalId : String
  state : JobState
  createdAt : ℤ
  updatedAt : ℤ
  attempts : ℕ
  maxRetries : ℤ
  payload : P
  result : Option R
  error : Option (JobError E)

structure Lease where
  token : String
  workerId : String
  expiresAt : ℤ
  leaseDurationMs : ℤ

structure Options where
  maxQueueDepth : Option ℕ
  maxRunningJobs : Option ℕ
  defaultLeaseDurationMs : Option ℤ
  maxRetries : Option ℤ

structure Settings where
  maxQueueDepth : ℕ
  maxRunningJobs : ℕ
  defaultLeaseDurationMs : ℤ
  maxRetries : ℤ

inductive Event (P R E : Type) where
  | enqueued (job : Job P R E)
  | leased (jobId workerId leaseToken : String) (expiresAt : ℤ)
  | heartbeat (jobId : String) (expiresAt : ℤ)
  | completed (job : Job P R E)
  | retried (job : Job P R E)
  | failed (job : Job P R E)
  | cancelled (job : Job P R E)
  | leaseReclaimed (jobId : String) (reEnqueued : Bool)

structure InMemoryJobQueue (P R E : Type) where
  settings : Settings
  jobs : InsertionMap String (Job P R E)
  idempotencyMap : InsertionMap String String
  waitingQueue : List String
  leases : InsertionMap String Lease
  /-- Everything the queue's listeners were told so far. -/
  emitted : List (Event P R E)

structure Stats where
  totalJobs : ℕ
  queued : ℕ
  running : ℕ
  completed : ℕ
  failed : ℕ
  cancelled : ℕ
  timedOut : ℕ
  deriving DecidableEq

section
variable {P R E : Type}

def JobData.key (jobData : JobData P) : Option String :=
  if truthy jobData.idempotencyKey then jobData.idempotencyKey else jobData.jobId

def JobData.newId (jobData : JobData P) (uuid : String) : String :=
  match jobData.jobId with
  | some s => if s = "" then "job-" ++ uuid else s
  | none => "job-" ++ uuid

def JobData.principal (jobData : JobData P) : String :=
  match jobData.principalId with
  | some s => if s = "" then "anonymous" else s
  | none => "anonymous"

/-- The record of a job that has just been accepted. -/
def JobData.toJob (jobData : JobData P) (uuid : String) (maxRetries : ℤ) (clock : Clock) :
    Job P R E where
  jobId := jobData.newId uuid
  idempotencyKey := jobData.key
  principalId := jobData.principal
  state := .queued
  createdAt := clock.now
  updatedAt := clock.later
  attempts := 0
  maxRetries := maxRetries
  payload := jobData.payload
  result := none
  error := none

namespace InMemoryJobQueue

def create (options : Options) : InMemoryJobQueue P R E where
  settings :=
    { maxQueueDepth := numberOr options.maxQueueDepth 100
      maxRunningJobs := numberOr options.maxRunningJobs 10
      defaultLeaseDurationMs := numberOr options.defaultLeaseDurationMs 30000
      maxRetries := options.maxRetries.getD 2 }
  jobs := .empty
  idempotencyMap := .empty
  waitingQueue := []
  leases := .empty
  emitted := []

def emit (q : InMemoryJobQueue P R E) (e : Event P R E) : InMemoryJobQueue P R E :=
  { q with emitted := q.emitted ++ [e] }

/-- The job that an earlier submission under the same key created. -/
def existingJob (q : InMemoryJobQueue P R E) (idempotencyKey : Option String) :
    Option (Job P R E) :=
  match idempotencyKey with
  | some key => if key = "" then none else (q.idempotencyMap.get key).bind q.jobs.get
  | none => none

def remember (m : InsertionMap String String) (idempotencyKey : Option String) (jobId : String) :
    InsertionMap String String :=
  match idempotencyKey with
  | some key => if key = "" then m else m.set key jobId
  | none => m

def backpressure (q : InMemoryJobQueue P R E) : QueueError where
  code := "BACKPRESSURE_EXCEEDED"
  message := "Queue backpressure exceeded: max queue depth is " ++ toString q.settings.maxQueueDepth

def enqueue (q : InMemoryJobQueue P R E) (jobData : JobData P) (uuid : String) (clock : Clock) :
    InMemoryJobQueue P R E × Except QueueError (Job P R E × Bool) :=
  match q.existingJob jobData.key with
  | some job => (q, .ok (job, true))
  | none =>
    if q.settings.maxQueueDepth ≤ q.waitingQueue.length then (q, .error q.backpressure)
    else
      let job : Job P R E := jobData.toJob uuid q.settings.maxRetries clock
      ({ q with
          jobs := q.jobs.set job.jobId job
          idempotencyMap := remember q.idempotencyMap job.idempotencyKey job.jobId
          waitingQueue := q.waitingQueue ++ [job.jobId] }.emit (.enqueued job), .ok (job, false))

/-- One turn of the loop of `_reclaimStaleLeases`. -/
def reclaimLease (clock : Clock) (q : InMemoryJobQueue P R E) (entry : String × Lease) :
    InMemoryJobQueue P R E :=
  if entry.2.expiresAt < clock.now then
    let q := { q with leases := q.leases.delete entry.1 }
    match q.jobs.get entry.1 with
    | some job =>
      if job.state = .running then
        if (job.attempts : ℤ) < job.maxRetries then
          { q with
            jobs := q.jobs.set entry.1 { job with state := .queued, updatedAt := clock.later }
            waitingQueue := entry.1 :: q.waitingQueue }.emit (.leaseReclaimed entry.1 true)
        else
          { q with
            jobs := q.jobs.set entry.1 { job with
              state := .timedOut
              error := some (.coded "LEASE_EXPIRED"
                "Worker lease expired and retry limit reached")
              updatedAt := clock.later } }.emit (.leaseReclaimed entry.1 false)
      else q
    | none => q
  else q

def reclaimStaleLeases (q : InMemoryJobQueue P R E) (clock : Clock) : InMemoryJobQueue P R E :=
  q.leases.entries.foldl (reclaimLease clock) q

def getActiveLeaseCount (q : InMemoryJobQueue P R E) : ℕ := q.leases.size

/-- `leaseNextJob` once the stale leases are reclaimed. -/
def leaseWaiting (q : InMemoryJobQueue P R E) (workerId : String) (leaseDurationMs : Option ℤ)
    (leaseToken : String) (clock : Clock) :
    InMemoryJobQueue P R E × Option (Job P R E × String × ℤ) :=
  if q.settings.maxRunningJobs ≤ q.getActiveLeaseCount then (q, none)
  else
    match q.waitingQueue with
    | [] => (q, none)
    | jobId :: rest =>
      let q := { q with waitingQueue := rest }
      match q.jobs.get jobId with
      | none => (q, none)
      | some job =>
        if job.state ≠ .queued then (q, none)
        else
          let duration := numberOr leaseDurationMs q.settings.defaultLeaseDurationMs
          let expiresAt := clock.later + duration
          let job := { job with
            state := .running, attempts := job.attempts + 1, updatedAt := clock.later }
          ({ q with
              jobs := q.jobs.set jobId job
              leases := q.leases.set jobId
                ⟨leaseToken, workerId, expiresAt, duration⟩ }.emit
            (.leased jobId workerId leaseToken expiresAt), some (job, leaseToken, expiresAt))

def leaseNextJob (q : InMemoryJobQueue P R E) (workerId : String) (leaseDurationMs : Option ℤ)
    (leaseToken : String) (clock : Clock) :
    InMemoryJobQueue P R E × Option (Job P R E × String × ℤ) :=
  (q.reclaimStaleLeases clock).leaseWaiting workerId leaseDurationMs leaseToken clock

/-- The lease of a job, when the given token is its own. -/
def leaseWith (q : InMemoryJobQueue P R E) (jobId leaseToken : String) : Option Lease :=
  (q.leases.get jobId).filter (fun lease => lease.token = leaseToken)

def touch (jobs : InsertionMap String (Job P R E)) (jobId : String) (updatedAt : ℤ) :
    InsertionMap String (Job P R E) :=
  match jobs.get jobId with
  | some job => jobs.set jobId { job with updatedAt := updatedAt }
  | none => jobs

def heartbeat (q : InMemoryJobQueue P R E) (jobId leaseToken : String) (extensionMs : Option ℤ)
    (clock : Clock) : InMemoryJobQueue P R E × Bool :=
  match q.leaseWith jobId leaseToken with
  | none => (q, false)
  | some lease =>
    if lease.expiresAt < clock.now then (q, false)
    else
      let duration :=
        numberOr extensionMs (numberOr lease.leaseDurationMs q.settings.defaultLeaseDurationMs)
      let expiresAt := clock.later + duration
      ({ q with
          jobs := touch q.jobs jobId clock.later
          leases := q.leases.set jobId { lease with expiresAt := expiresAt } }.emit
        (.heartbeat jobId expiresAt), true)

def completeJob (q : InMemoryJobQueue P R E) (jobId leaseToken : String) (result : R)
    (clock : Clock) : InMemoryJobQueue P R E × Bool :=
  match q.leaseWith jobId leaseToken, q.jobs.get jobId with
  | some _, some job =>
    if isValidTransition job.state .completed then
      let job := { job with
        state := .completed, result := some result, updatedAt := clock.now }
      ({ q with
          jobs := q.jobs.set jobId job
          leases := q.leases.delete jobId }.emit (.completed job), true)
    else (q, false)
  | _, _ => (q, false)

def failJob (q : InMemoryJobQueue P R E) (jobId leaseToken : String) (error : E)
    (clock : Clock) : InMemoryJobQueue P R E × Bool :=
  match q.leaseWith jobId leaseToken, q.jobs.get jobId with
  | some _, some job =>
    if (job.attempts : ℤ) < job.maxRetries then
      let job := { job with state := .queued, updatedAt := clock.now }
      ({ q with
          jobs := q.jobs.set jobId job
          leases := q.leases.delete jobId
          waitingQueue := jobId :: q.waitingQueue }.emit (.retried job), true)
    else
      let job := { job with
        state := .failed, error := some (.reported error), updatedAt := clock.now }
      ({ q with
          jobs := q.jobs.set jobId job
          leases := q.leases.delete jobId }.emit (.failed job), true)
  | _, _ => (q, false)

def cancelJob (q : InMemoryJobQueue P R E) (jobId : String) (reason : Option String)
    (clock : Clock) : InMemoryJobQueue P R E × Bool :=
  match q.jobs.get jobId with
  | none => (q, false)
  | some job =>
    if job.state.Terminal then (q, false)
    else
      let job := { job with
        state := .cancelled
        error := some (.coded "CANCELLED" (reason.getD "Cancelled by user"))
        updatedAt := clock.now }
      ({ q with
          jobs := q.jobs.set jobId job
          leases := q.leases.delete jobId
          waitingQueue := q.waitingQueue.filter (fun id => id ≠ jobId) }.emit (.cancelled job), true)

def countState (q : InMemoryJobQueue P R E) (s : JobState) : ℕ :=
  q.jobs.entries.countP (fun entry => entry.2.state = s)

def stats (q : InMemoryJobQueue P R E) : Stats where
  totalJobs := q.jobs.size
  queued := q.countState .queued
  running := q.countState .running
  completed := q.countState .completed
  failed := q.countState .failed
  cancelled := q.countState .cancelled
  timedOut := q.countState .timedOut

def getStats (q : InMemoryJobQueue P R E) (clock : Clock) : InMemoryJobQueue P R E × Stats :=
  (q.reclaimStaleLeases clock, (q.reclaimStaleLeases clock).stats)

end InMemoryJobQueue

/-- One call, with the texts it draws and the readings it makes of the clock. -/
inductive Op (P R E : Type) where
  | enqueue (jobData : JobData P) (uuid : String) (clock : Clock)
  | leaseNextJob (workerId : String) (leaseDurationMs : Option ℤ) (leaseToken : String)
      (clock : Clock)
  | heartbeat (jobId leaseToken : String) (extensionMs : Option ℤ) (clock : Clock)
  | completeJob (jobId leaseToken : String) (result : R) (clock : Clock)
  | failJob (jobId leaseToken : String) (error : E) (clock : Clock)
  | cancelJob (jobId : String) (reason : Option String) (clock : Clock)
  | getStats (clock : Clock)

/-- The id under which a submission files its job. -/
def Op.newId {P R E : Type} : Op P R E → Option String
  | .enqueue jobData uuid _ => some (jobData.newId uuid)
  | _ => none

/-- The token that a call draws for the lease it may hand out. -/
def Op.draws {P R E : Type} : Op P R E → Option String
  | .leaseNextJob _ _ token _ => some token
  | _ => none

/-- The job and the token that a worker's call names. -/
def Op.presents {P R E : Type} : Op P R E → Option (String × String)
  | .heartbeat jobId token _ _ => some (jobId, token)
  | .completeJob jobId token _ _ => some (jobId, token)
  | .failJob jobId token _ _ => some (jobId, token)
  | _ => none

inductive Answer (P R E : Type) where
  | enqueued (answer : Except QueueError (Job P R E × Bool))
  | leased (answer : Option (Job P R E × String × ℤ))
  | accepted (answer : Bool)
  | stats (answer : Stats)

namespace InMemoryJobQueue

def step (q : InMemoryJobQueue P R E) : Op P R E → InMemoryJobQueue P R E × Answer P R E
  | .enqueue jobData uuid clock => (q.enqueue jobData uuid clock).map id .enqueued
  | .leaseNextJob workerId duration token clock =>
      (q.leaseNextJob workerId duration token clock).map id .leased
  | .heartbeat jobId token extension clock =>
      (q.heartbeat jobId token extension clock).map id .accepted
  | .completeJob jobId token result clock =>
      (q.completeJob jobId token result clock).map id .accepted
  | .failJob jobId token error clock => (q.failJob jobId token error clock).map id .accepted
  | .cancelJob jobId reason clock => (q.cancelJob jobId reason clock).map id .accepted
  | .getStats clock => (q.getStats clock).map id .stats

def run (q : InMemoryJobQueue P R E) : List (Op P R E) → InMemoryJobQueue P R E
  | [] => q
  | op :: ops => run (q.step op).1 ops

theorem run_append (q : InMemoryJobQueue P R E) (ops rest : List (Op P R E)) :
    q.run (ops ++ rest) = (q.run ops).run rest := by
  induction ops generalizing q with
  | nil => rfl
  | cons op ops ih => exact ih _

end InMemoryJobQueue
end
end LuaRecovery.Queue
