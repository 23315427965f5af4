import LuaRecovery.Queue.InMemoryQueue
import Mathlib.Logic.Relation

/-!
# What one operation does to the queue

Apart from accepting and leasing a job, an operation is a sequence of settling
turns, each about one job: its lease ends, is prolonged or turns out to be idle,
or the job is cancelled.
-/

set_option autoImplicit false

namespace LuaRecovery.Queue
open LuaRecovery.Lib

section
variable {P R E : Type}

/-- How a job leaves its lease, and what the listeners hear of it. -/
inductive Released (jobId : String) (job : Job P R E) : Job P R E → Event P R E → Prop where
  | completed (job' : Job P R E) (result : R) (updatedAt : ℤ)
      (h : isValidTransition job.state .completed = true)
      (hj : job' = { job with
        state := .completed, result := some result, updatedAt := updatedAt }) :
      Released jobId job job' (.completed job')
  | retried (job' : Job P R E) (updatedAt : ℤ) (h : (job.attempts : ℤ) < job.maxRetries)
      (hj : job' = { job with state := .queued, updatedAt := updatedAt }) :
      Released jobId job job' (.retried job')
  | failed (job' : Job P R E) (error : E) (updatedAt : ℤ)
      (hj : job' = { job with
        state := .failed, error := some (.reported error), updatedAt := updatedAt }) :
      Released jobId job job' (.failed job')
  | reclaimed (job' : Job P R E) (updatedAt : ℤ) (h : (job.attempts : ℤ) < job.maxRetries)
      (hj : job' = { job with state := .queued, updatedAt := updatedAt }) :
      Released jobId job job' (.leaseReclaimed jobId true)
  | timedOut (job' : Job P R E) (updatedAt : ℤ) (error : JobError E)
      (hj : job' = { job with
        state := .timedOut, error := some error, updatedAt := updatedAt }) :
      Released jobId job job' (.leaseReclaimed jobId false)

namespace Released
variable {jobId : String} {job job' : Job P R E} {e : Event P R E}

theorem same_bounds (h : Released jobId job job' e) :
    job'.jobId = job.jobId ∧ job'.attempts = job.attempts ∧ job'.maxRetries = job.maxRetries := by
  cases h <;> simp_all

theorem same_owner (h : Released jobId job job' e) : job'.principalId = job.principalId := by
  cases h <;> simp_all

theorem not_running (h : Released jobId job job' e) : job'.state ≠ .running := by
  cases h <;> simp_all

theorem spare (h : Released jobId job job' e) (hq : job'.state = .queued) :
    (job.attempts : ℤ) < job.maxRetries := by
  cases h <;> simp_all

end Released

namespace InMemoryJobQueue

/-- The waiting list after a job left its lease: a retry goes to the front. -/
def waitingAfter (q : InMemoryJobQueue P R E) (jobId : String) (job' : Job P R E) : List String :=
  if job'.state = .queued then jobId :: q.waitingQueue else q.waitingQueue

inductive Settles (q : InMemoryJobQueue P R E) : InMemoryJobQueue P R E → Prop where
  | released (jobId : String) (job job' : Job P R E) (e : Event P R E)
      (hjob : q.jobs.get jobId = some job)
      (hl : jobId ∈ q.leases.keys ∨ job.state = .running)
      (hr : Released jobId job job' e) :
      Settles q ({ q with
        jobs := q.jobs.set jobId job'
        leases := q.leases.delete jobId
        waitingQueue := q.waitingAfter jobId job' }.emit e)
  | lapsed (jobId : String)
      (hjob : ∀ job, q.jobs.get jobId = some job → job.state ≠ .running) :
      Settles q { q with leases := q.leases.delete jobId }
  | prolonged (jobId : String) (lease : Lease) (expiresAt updatedAt : ℤ)
      (hl : q.leases.get jobId = some lease) :
      Settles q ({ q with
        jobs := touch q.jobs jobId updatedAt
        leases := q.leases.set jobId { lease with expiresAt := expiresAt } }.emit
          (.heartbeat jobId expiresAt))
  | cancelled (jobId : String) (job job' : Job P R E) (error : JobError E) (updatedAt : ℤ)
      (hjob : q.jobs.get jobId = some job) (hs : ¬ job.state.Terminal)
      (hj : job' = { job with
        state := .cancelled, error := some error, updatedAt := updatedAt }) :
      Settles q ({ q with
        jobs := q.jobs.set jobId job'
        leases := q.leases.delete jobId
        waitingQueue := q.waitingQueue.filter (fun id => id ≠ jobId) }.emit (.cancelled job'))

/-- Leasing gives nothing, drops an entry that is not queued, or leases the first job. -/
inductive Leases (q : InMemoryJobQueue P R E) (token : String) :
    InMemoryJobQueue P R E → Option (Job P R E × String × ℤ) → Prop where
  | idle : Leases q token q none
  | dropped (jobId : String) (rest : List String) (hw : q.waitingQueue = jobId :: rest)
      (hjob : ∀ job, q.jobs.get jobId = some job → job.state ≠ .queued) :
      Leases q token { q with waitingQueue := rest } none
  | leased (jobId : String) (rest : List String) (job job' : Job P R E) (lease : Lease)
      (updatedAt : ℤ) (hw : q.waitingQueue = jobId :: rest)
      (hjob : q.jobs.get jobId = some job) (hs : job.state = .queued)
      (hfree : q.leases.size < q.settings.maxRunningJobs) (ht : lease.token = token)
      (hj : job' = { job with
        state := .running, attempts := job.attempts + 1, updatedAt := updatedAt }) :
      Leases q token ({ q with
        jobs := q.jobs.set jobId job'
        leases := q.leases.set jobId lease
        waitingQueue := rest }.emit (.leased jobId lease.workerId token lease.expiresAt))
        (some (job', token, lease.expiresAt))

/-- A submission changes nothing or files a new record under its id. -/
inductive Enqueues (q : InMemoryJobQueue P R E) (jobId : String) :
    InMemoryJobQueue P R E → Prop where
  | refused : Enqueues q jobId q
  | accepted (job : Job P R E) (idempotencyMap : InsertionMap String String)
      (hroom : q.waitingQueue.length < q.settings.maxQueueDepth) (hid : job.jobId = jobId)
      (hs : job.state = .queued) (ha : job.attempts = 0)
      (hm : job.maxRetries = q.settings.maxRetries) :
      Enqueues q jobId ({ q with
        jobs := q.jobs.set jobId job
        idempotencyMap := idempotencyMap
        waitingQueue := q.waitingQueue ++ [jobId] }.emit (.enqueued job))

abbrev Settled (q q' : InMemoryJobQueue P R E) : Prop := Relation.ReflTransGen Settles q q'

theorem leaseWith_eq_some {q : InMemoryJobQueue P R E} {jobId token : String} {lease : Lease} :
    q.leaseWith jobId token = some lease ↔
      q.leases.get jobId = some lease ∧ lease.token = token := by
  simp [leaseWith, Option.filter_eq_some_iff]

theorem leaseWith_mem {q : InMemoryJobQueue P R E} {jobId token : String} {lease : Lease}
    (h : q.leaseWith jobId token = some lease) : jobId ∈ q.leases.keys := by
  rw [InsertionMap.mem_keys_iff]
  exact ⟨lease, (leaseWith_eq_some.mp h).1⟩

theorem reclaimLease_settled (clock : Clock) (q : InMemoryJobQueue P R E)
    (entry : String × Lease) : Settled q (reclaimLease clock q entry) := by
  unfold reclaimLease
  split
  next =>
    cases hjob : q.jobs.get entry.1 with
    | none =>
      simp only [hjob]
      exact .single (.lapsed entry.1 (by simp [hjob]))
    | some job =>
      simp only [hjob]
      by_cases hs : job.state = .running
      · rw [if_pos hs]
        by_cases ha : (job.attempts : ℤ) < job.maxRetries
        · rw [if_pos ha]
          exact .single (.released entry.1 job _ _ hjob (.inr hs) (.reclaimed _ clock.later ha rfl))
        · rw [if_neg ha]
          exact .single (.released entry.1 job _ _ hjob (.inr hs) (.timedOut _ clock.later _ rfl))
      · rw [if_neg hs]
        exact .single (.lapsed entry.1 (by simp [hjob, hs]))
  next => exact .refl

theorem reclaimStaleLeases_settled (q : InMemoryJobQueue P R E) (clock : Clock) :
    Settled q (q.reclaimStaleLeases clock) := by
  unfold reclaimStaleLeases
  generalize q.leases.entries = entries
  induction entries generalizing q with
  | nil => exact .refl
  | cons entry entries ih => exact (reclaimLease_settled clock q entry).trans (ih _)

theorem heartbeat_settled (q : InMemoryJobQueue P R E) (jobId token : String)
    (extension : Option ℤ) (clock : Clock) :
    Settled q (q.heartbeat jobId token extension clock).1 := by
  unfold heartbeat
  cases hl : q.leaseWith jobId token with
  | none => exact .refl
  | some lease =>
    by_cases he : lease.expiresAt < clock.now
    · simp only [if_pos he]
      exact .refl
    · simp only [if_neg he]
      exact .single (.prolonged jobId lease _ _ (leaseWith_eq_some.mp hl).1)

theorem completeJob_settled (q : InMemoryJobQueue P R E) (jobId token : String) (result : R)
    (clock : Clock) : Settled q (q.completeJob jobId token result clock).1 := by
  unfold completeJob
  cases hl : q.leaseWith jobId token with
  | none => exact .refl
  | some lease =>
    cases hjob : q.jobs.get jobId with
    | none => exact .refl
    | some job =>
      by_cases hv : isValidTransition job.state .completed = true
      · simp only [if_pos hv]
        exact .single (.released jobId job _ _ hjob (.inl (leaseWith_mem hl))
          (.completed _ result clock.now hv rfl))
      · simp only [if_neg hv]
        exact .refl

theorem failJob_settled (q : InMemoryJobQueue P R E) (jobId token : String) (error : E)
    (clock : Clock) : Settled q (q.failJob jobId token error clock).1 := by
  unfold failJob
  cases hl : q.leaseWith jobId token with
  | none => exact .refl
  | some lease =>
    cases hjob : q.jobs.get jobId with
    | none => exact .refl
    | some job =>
      by_cases ha : (job.attempts : ℤ) < job.maxRetries
      · simp only [if_pos ha]
        exact .single (.released jobId job _ _ hjob (.inl (leaseWith_mem hl))
          (.retried _ clock.now ha rfl))
      · simp only [if_neg ha]
        exact .single (.released jobId job _ _ hjob (.inl (leaseWith_mem hl))
          (.failed _ error clock.now rfl))

theorem cancelJob_settled (q : InMemoryJobQueue P R E) (jobId : String) (reason : Option String)
    (clock : Clock) : Settled q (q.cancelJob jobId reason clock).1 := by
  unfold cancelJob
  cases hjob : q.jobs.get jobId with
  | none => exact .refl
  | some job =>
    by_cases hs : job.state.Terminal
    · simp only [if_pos hs]
      exact .refl
    · simp only [if_neg hs]
      exact .single (.cancelled jobId job _ _ clock.now hjob hs rfl)

theorem leaseWaiting_leases (q : InMemoryJobQueue P R E) (workerId : String)
    (leaseDurationMs : Option ℤ) (token : String) (clock : Clock) :
    Leases q token (q.leaseWaiting workerId leaseDurationMs token clock).1
      (q.leaseWaiting workerId leaseDurationMs token clock).2 := by
  unfold leaseWaiting
  by_cases hfull : q.settings.maxRunningJobs ≤ q.getActiveLeaseCount
  · simp only [if_pos hfull]
    exact .idle
  have hfree : q.leases.size < q.settings.maxRunningJobs := Nat.lt_of_not_le hfull
  rw [if_neg hfull]
  cases hw : q.waitingQueue with
  | nil => exact .idle
  | cons jobId rest =>
    cases hjob : q.jobs.get jobId with
    | none =>
      simp only [hjob]
      exact .dropped jobId rest hw (by simp [hjob])
    | some job =>
      by_cases hs : job.state = .queued
      · simp only [hjob, hs, ne_eq, not_true_eq_false, if_false]
        exact .leased jobId rest job _ ⟨token, workerId, _, _⟩ _ hw hjob hs hfree rfl rfl
      · simp only [hjob, hs, ne_eq, not_false_eq_true, if_true]
        exact .dropped jobId rest hw (by simp [hjob, hs])

theorem enqueue_enqueues (q : InMemoryJobQueue P R E) (jobData : JobData P) (uuid : String)
    (clock : Clock) : Enqueues q (jobData.newId uuid) (q.enqueue jobData uuid clock).1 := by
  unfold enqueue
  cases q.existingJob jobData.key with
  | some job => exact .refused
  | none =>
    by_cases hfull : q.settings.maxQueueDepth ≤ q.waitingQueue.length
    · simp only [if_pos hfull]
      exact .refused
    · simp only [if_neg hfull]
      exact .accepted (jobData.toJob uuid q.settings.maxRetries clock) _
        (Nat.lt_of_not_le hfull) rfl rfl rfl rfl

/-- What a call may do: submit, settle and then lease, or only settle. -/
inductive Turns (q : InMemoryJobQueue P R E) (op : Op P R E) : InMemoryJobQueue P R E → Prop where
  | submits {jobId : String} {q' : InMemoryJobQueue P R E} (hid : op.newId = some jobId)
      (h : Enqueues q jobId q') : Turns q op q'
  | leases {token : String} {mid q' : InMemoryJobQueue P R E}
      {answer : Option (Job P R E × String × ℤ)} (ht : op.draws = some token)
      (hmid : Settled q mid) (h : Leases mid token q' answer) : Turns q op q'
  | settles {q' : InMemoryJobQueue P R E} (ht : op.draws = none) (h : Settled q q') : Turns q op q'

theorem step_turns (q : InMemoryJobQueue P R E) (op : Op P R E) : Turns q op (q.step op).1 := by
  cases op with
  | enqueue jobData uuid clock => exact .submits rfl (enqueue_enqueues q jobData uuid clock)
  | leaseNextJob workerId duration token clock =>
    exact .leases rfl (reclaimStaleLeases_settled q clock)
      (leaseWaiting_leases _ workerId duration token clock)
  | heartbeat jobId token extension clock =>
    exact .settles rfl (heartbeat_settled q jobId token extension clock)
  | completeJob jobId token result clock =>
    exact .settles rfl (completeJob_settled q jobId token result clock)
  | failJob jobId token error clock =>
    exact .settles rfl (failJob_settled q jobId token error clock)
  | cancelJob jobId reason clock => exact .settles rfl (cancelJob_settled q jobId reason clock)
  | getStats clock => exact .settles rfl (reclaimStaleLeases_settled q clock)

/-- A property that settling, leasing and this call's submission keep is kept by the call. -/
theorem step_keeps (I : InMemoryJobQueue P R E → Prop) (q : InMemoryJobQueue P R E)
    (op : Op P R E)
    (hsettle : ∀ {q q' : InMemoryJobQueue P R E}, Settles q q' → I q → I q')
    (hlease : ∀ {q q' : InMemoryJobQueue P R E} {token : String}
      {answer : Option (Job P R E × String × ℤ)}, Leases q token q' answer → I q → I q')
    (henqueue : ∀ jobId q', op.newId = some jobId → Enqueues q jobId q' → I q')
    (hq : I q) : I (q.step op).1 := by
  have hsettled : ∀ q', Settled q q' → I q' := by
    intro q' h
    induction h with
    | refl => exact hq
    | tail _ hlast ih => exact hsettle hlast ih
  cases step_turns q op with
  | submits hid h => exact henqueue _ _ hid h
  | leases ht hmid h => exact hlease h (hsettled _ hmid)
  | settles ht h => exact hsettled _ h

end InMemoryJobQueue
end
end LuaRecovery.Queue
