import LuaRecovery.Queue.InMemoryQueue
import Mathlib.Logic.Function.Basic

/-!
# The queue kept in Redis

Each job has a key for its record, one for its lease and one for its
idempotency key; a list holds the waiting ids, left end first. Any number of
adapters work on the same keys, each call running to its end, and keys that were
set with a time to live may expire between the calls. The synchronous and the
asynchronous methods send the same commands.
-/

set_option autoImplicit false

namespace LuaRecovery.Queue
open LuaRecovery.Lib

structure RedisAdapter where
  maxQueueDepth : ℕ
  defaultLeaseDurationMs : ℤ
  maxRetries : ℤ

structure RedisOptions where
  maxQueueDepth : Option ℕ
  defaultLeaseDurationMs : Option ℤ
  maxRetries : Option ℤ

def RedisAdapter.create (options : RedisOptions) : RedisAdapter where
  maxQueueDepth := numberOr options.maxQueueDepth 500
  defaultLeaseDurationMs := numberOr options.defaultLeaseDurationMs 30000
  maxRetries := options.maxRetries.getD 2

structure RedisStore (P R E : Type) where
  job : String → Option (Job P R E)
  idemp : String → Option String
  lease : String → Option Lease
  waiting : List String

inductive RedisOp (P R E : Type) where
  | enqueue (adapter : RedisAdapter) (jobData : JobData P) (uuid : String) (clock : Clock)
  | leaseNextJob (adapter : RedisAdapter) (workerId : String) (leaseDurationMs : Option ℤ)
      (leaseToken : String) (clock : Clock)
  | completeJob (jobId leaseToken : String) (result : R) (clock : Clock)
  | failJob (jobId leaseToken : String) (error : E) (clock : Clock)
  | getJob (jobId : String)
  | expireLease (jobId : String)
  | expireIdemp (idempotencyKey : String)

inductive RedisAnswer (P R E : Type) where
  | enqueued (answer : Except QueueError (Job P R E × Bool))
  | leased (answer : Option (Job P R E × String × ℤ))
  | accepted (answer : Bool)
  | found (answer : Option (Job P R E))
  | expired

section
variable {P R E : Type}

def RedisOp.presents : RedisOp P R E → Option (String × String)
  | .completeJob jobId token _ _ => some (jobId, token)
  | .failJob jobId token _ _ => some (jobId, token)
  | _ => none

namespace RedisStore

def empty : RedisStore P R E := ⟨fun _ => none, fun _ => none, fun _ => none, []⟩

def setJob (s : RedisStore P R E) (jobId : String) (job : Job P R E) : RedisStore P R E :=
  { s with job := Function.update s.job jobId (some job) }

def setLease (s : RedisStore P R E) (jobId : String) (lease : Lease) : RedisStore P R E :=
  { s with lease := Function.update s.lease jobId (some lease) }

def delLease (s : RedisStore P R E) (jobId : String) : RedisStore P R E :=
  { s with lease := Function.update s.lease jobId none }

/-- Remembers the id under its idempotency key, unless the key is missing or empty. -/
def setIdemp (s : RedisStore P R E) (idempotencyKey : Option String) (jobId : String) :
    RedisStore P R E :=
  match idempotencyKey with
  | some key => if key = "" then s else { s with idemp := Function.update s.idemp key (some jobId) }
  | none => s

def lpush (s : RedisStore P R E) (jobId : String) : RedisStore P R E :=
  { s with waiting := jobId :: s.waiting }

def rpush (s : RedisStore P R E) (jobId : String) : RedisStore P R E :=
  { s with waiting := s.waiting ++ [jobId] }

def existingJob (s : RedisStore P R E) (idempotencyKey : Option String) : Option (Job P R E) :=
  match idempotencyKey with
  | some key => if key = "" then none else
      match s.idemp key with
      | some jobId => if jobId = "" then none else s.job jobId
      | none => none
  | none => none

def backpressure (s : RedisStore P R E) (adapter : RedisAdapter) : QueueError where
  code := "BACKPRESSURE_EXCEEDED"
  message := "Queue backpressure exceeded: depth is " ++ toString s.waiting.length ++ "/" ++
    toString adapter.maxQueueDepth

def enqueue (s : RedisStore P R E) (adapter : RedisAdapter) (jobData : JobData P) (uuid : String)
    (clock : Clock) : RedisStore P R E × Except QueueError (Job P R E × Bool) :=
  match s.existingJob jobData.key with
  | some job => (s, .ok (job, true))
  | none =>
    if adapter.maxQueueDepth ≤ s.waiting.length then (s, .error (s.backpressure adapter))
    else
      let job : Job P R E := jobData.toJob uuid adapter.maxRetries clock
      (((s.setJob job.jobId job).lpush job.jobId).setIdemp job.idempotencyKey job.jobId,
        .ok (job, false))

def leaseNextJob (s : RedisStore P R E) (adapter : RedisAdapter) (workerId : String)
    (leaseDurationMs : Option ℤ) (leaseToken : String) (clock : Clock) :
    RedisStore P R E × Option (Job P R E × String × ℤ) :=
  let duration := numberOr leaseDurationMs adapter.defaultLeaseDurationMs
  match s.waiting.getLast? with
  | none => (s, none)
  | some jobId =>
    let s := { s with waiting := s.waiting.dropLast }
    if jobId = "" then (s, none)
    else
      match s.job jobId with
      | none => (s, none)
      | some job =>
        if job.state ≠ .queued then (s, none)
        else
          let expiresAt := clock.now + duration
          let job := { job with
            state := .running, attempts := job.attempts + 1, updatedAt := clock.later }
          ((s.setJob jobId job).setLease jobId ⟨leaseToken, workerId, expiresAt, duration⟩,
            some (job, leaseToken, expiresAt))

def completeJob (s : RedisStore P R E) (jobId leaseToken : String) (result : R) (clock : Clock) :
    RedisStore P R E × Bool :=
  match s.lease jobId with
  | none => (s, false)
  | some lease =>
    if lease.token ≠ leaseToken then (s, false)
    else
      match s.job jobId with
      | none => (s, false)
      | some job =>
        if isValidTransition job.state .completed then
          let job := { job with
            state := .completed, result := some result, updatedAt := clock.now }
          ((s.setJob jobId job).delLease jobId, true)
        else (s, false)

/-- The token is never looked at. -/
def failJob (s : RedisStore P R E) (jobId _leaseToken : String) (error : E) (clock : Clock) :
    RedisStore P R E × Bool :=
  match s.job jobId with
  | none => (s, false)
  | some job =>
    let s := s.delLease jobId
    if (job.attempts : ℤ) < job.maxRetries then
      let job := { job with state := .queued, updatedAt := clock.now }
      ((s.setJob jobId job).rpush jobId, true)
    else
      let job := { job with
        state := .failed, error := some (.reported error), updatedAt := clock.now }
      (s.setJob jobId job, true)

def step (s : RedisStore P R E) : RedisOp P R E → RedisStore P R E × RedisAnswer P R E
  | .enqueue adapter jobData uuid clock =>
      (s.enqueue adapter jobData uuid clock).map id .enqueued
  | .leaseNextJob adapter workerId duration token clock =>
      (s.leaseNextJob adapter workerId duration token clock).map id .leased
  | .completeJob jobId token result clock =>
      (s.completeJob jobId token result clock).map id .accepted
  | .failJob jobId token error clock => (s.failJob jobId token error clock).map id .accepted
  | .getJob jobId => (s, .found (s.job jobId))
  | .expireLease jobId => (s.delLease jobId, .expired)
  | .expireIdemp key => ({ s with idemp := Function.update s.idemp key none }, .expired)

def run (s : RedisStore P R E) : List (RedisOp P R E) → RedisStore P R E
  | [] => s
  | op :: ops => run (s.step op).1 ops

theorem run_append (s : RedisStore P R E) (ops rest : List (RedisOp P R E)) :
    s.run (ops ++ rest) = (s.run ops).run rest := by
  induction ops generalizing s with
  | nil => rfl
  | cons op ops ih => exact ih _

def Holds (s : RedisStore P R E) (jobId token : String) : Prop :=
  ∃ lease, s.lease jobId = some lease ∧ lease.token = token

/-- No job that has reached its end has a lease. -/
def EndsLeases (s : RedisStore P R E) : Prop :=
  ∀ jobId job, s.job jobId = some job → job.state.Terminal → s.lease jobId = none

/-- What the lease contract asks of the calls made on an empty store. -/
def LeaseContract (ops : List (RedisOp P R E)) : Prop :=
  (∀ earlier between later, ops = earlier ++ between ++ later → ∀ jobId job,
    (empty.run earlier).job jobId = some job → job.state.Terminal →
      ∃ job', (empty.run (earlier ++ between)).job jobId = some job' ∧ job'.state = job.state) ∧
  (∀ earlier op later, ops = earlier ++ op :: later → ∀ jobId token,
    op.presents = some (jobId, token) → ¬ (empty.run earlier).Holds jobId token →
      (empty.run earlier).step op = (empty.run earlier, .accepted false))

/-- A failure is reported with the token of the current lease, or for a job that is not there;
a submission that is neither a duplicate nor refused does not name a job that has ended. -/
def Careful (s : RedisStore P R E) : RedisOp P R E → Prop
  | .failJob jobId token _ _ => s.job jobId = none ∨ s.Holds jobId token
  | .enqueue adapter jobData uuid _ =>
      s.existingJob jobData.key ≠ none ∨ adapter.maxQueueDepth ≤ s.waiting.length ∨
        ∀ job, s.job (jobData.newId uuid) = some job → ¬ job.state.Terminal
  | _ => True

@[simp] theorem setIdemp_job (s : RedisStore P R E) (key : Option String) (jobId : String) :
    (s.setIdemp key jobId).job = s.job := by
  unfold setIdemp
  repeat' split
  all_goals rfl

@[simp] theorem setIdemp_lease (s : RedisStore P R E) (key : Option String) (jobId : String) :
    (s.setIdemp key jobId).lease = s.lease := by
  unfold setIdemp
  repeat' split
  all_goals rfl

/-- What one call does: it changes no record and drops leases at most, or it writes one record,
whose lease goes when the job has ended. A careful call never writes over a job that has ended. -/
inductive Alters (s : RedisStore P R E) (op : RedisOp P R E) : RedisStore P R E → Prop where
  | keeps {s' : RedisStore P R E} (hjob : s'.job = s.job)
      (hlease : ∀ i, s'.lease i = s.lease i ∨ s'.lease i = none) : Alters s op s'
  | puts {s' : RedisStore P R E} (jobId : String) (job : Job P R E)
      (hjob : s'.job = Function.update s.job jobId (some job))
      (hlease : ∀ i, i ≠ jobId → s'.lease i = s.lease i)
      (hend : job.state.Terminal → s'.lease jobId = none)
      (hcareful : s.EndsLeases → s.Careful op → ∀ old, s.job jobId = some old →
        ¬ old.state.Terminal) : Alters s op s'

theorem not_terminal_of_lease {s : RedisStore P R E} (h : s.EndsLeases) {jobId : String}
    {job : Job P R E} {lease : Lease} (hl : s.lease jobId = some lease)
    (hjob : s.job jobId = some job) : ¬ job.state.Terminal := by
  intro hs
  simp [h jobId job hjob hs] at hl

theorem enqueue_alters (s : RedisStore P R E) (adapter : RedisAdapter) (jobData : JobData P)
    (uuid : String) (clock : Clock) :
    Alters s (.enqueue adapter jobData uuid clock) (s.enqueue adapter jobData uuid clock).1 := by
  unfold enqueue
  cases hex : s.existingJob jobData.key with
  | some job => exact .keeps rfl (fun _ => .inl rfl)
  | none =>
    by_cases hfull : adapter.maxQueueDepth ≤ s.waiting.length
    · simp only [if_pos hfull]
      exact .keeps rfl (fun _ => .inl rfl)
    · simp only [if_neg hfull]
      refine .puts (jobData.newId uuid) (jobData.toJob uuid adapter.maxRetries clock)
        (by simp [lpush, setJob, JobData.toJob]) (by simp [lpush, setJob]) ?_ ?_
      · intro hs
        exact absurd hs (by simp [JobData.toJob, JobState.terminal_iff])
      · intro _ hcareful
        simpa [Careful, hex, hfull] using hcareful

theorem leaseNextJob_alters (s : RedisStore P R E) (adapter : RedisAdapter) (workerId : String)
    (duration : Option ℤ) (token : String) (clock : Clock) :
    Alters s (.leaseNextJob adapter workerId duration token clock)
      (s.leaseNextJob adapter workerId duration token clock).1 := by
  unfold leaseNextJob
  cases s.waiting.getLast? with
  | none => exact .keeps rfl (fun _ => .inl rfl)
  | some jobId =>
    by_cases hid : jobId = ""
    · simp only [if_pos hid]
      exact .keeps rfl (fun _ => .inl rfl)
    cases hjob : s.job jobId with
    | none =>
      simp only [if_neg hid, hjob]
      exact .keeps rfl (fun _ => .inl rfl)
    | some job =>
      by_cases hs : job.state = .queued
      · simp only [if_neg hid, hjob, hs, ne_eq, not_true_eq_false, if_false]
        refine .puts jobId _ rfl ?_ ?_ ?_
        · intro i hi
          exact Function.update_of_ne hi _ _
        · intro hterm
          exact absurd hterm (by simp [JobState.terminal_iff])
        · intro _ _ old hold
          rw [hjob, Option.some.injEq] at hold
          rw [← hold, hs]
          decide
      · simp only [if_neg hid, hjob, hs, ne_eq, not_false_eq_true, if_true]
        exact .keeps rfl (fun _ => .inl rfl)

theorem completeJob_alters (s : RedisStore P R E) (jobId token : String) (result : R)
    (clock : Clock) :
    Alters s (.completeJob jobId token result clock) (s.completeJob jobId token result clock).1 := by
  unfold completeJob
  cases hl : s.lease jobId with
  | none => exact .keeps rfl (fun _ => .inl rfl)
  | some lease =>
    by_cases ht : lease.token = token
    · simp only [ht, ne_eq, not_true_eq_false, if_false]
      cases hjob : s.job jobId with
      | none => exact .keeps rfl (fun _ => .inl rfl)
      | some job =>
        by_cases hv : isValidTransition job.state .completed = true
        · simp only [if_pos hv]
          refine .puts jobId _ rfl ?_ ?_ ?_
          · intro i hi
            exact Function.update_of_ne hi _ _
          · intro _
            exact Function.update_self _ _ _
          · intro h _ old hold
            exact not_terminal_of_lease h hl hold
        · simp only [if_neg hv]
          exact .keeps rfl (fun _ => .inl rfl)
    · simp only [ht, ne_eq, not_false_eq_true, if_true]
      exact .keeps rfl (fun _ => .inl rfl)

theorem failJob_alters (s : RedisStore P R E) (jobId token : String) (error : E) (clock : Clock) :
    Alters s (.failJob jobId token error clock) (s.failJob jobId token error clock).1 := by
  have hcareful : s.EndsLeases → s.Careful (.failJob jobId token error clock) →
      ∀ old, s.job jobId = some old → ¬ old.state.Terminal := by
    rintro h (hnone | ⟨lease, hl, -⟩) old hold
    · simp [hnone] at hold
    · exact not_terminal_of_lease h hl hold
  unfold failJob
  cases hjob : s.job jobId with
  | none => exact .keeps rfl (fun _ => .inl rfl)
  | some job =>
    by_cases ha : (job.attempts : ℤ) < job.maxRetries
    · simp only [if_pos ha]
      refine .puts jobId _ rfl ?_ ?_ hcareful
      · intro i hi
        exact Function.update_of_ne hi _ _
      · intro _
        exact Function.update_self _ _ _
    · simp only [if_neg ha]
      refine .puts jobId _ rfl ?_ ?_ hcareful
      · intro i hi
        exact Function.update_of_ne hi _ _
      · intro _
        exact Function.update_self _ _ _

theorem step_alters (s : RedisStore P R E) (op : RedisOp P R E) : Alters s op (s.step op).1 := by
  cases op with
  | enqueue adapter jobData uuid clock => exact s.enqueue_alters adapter jobData uuid clock
  | leaseNextJob adapter workerId duration token clock =>
    exact s.leaseNextJob_alters adapter workerId duration token clock
  | completeJob jobId token result clock => exact s.completeJob_alters jobId token result clock
  | failJob jobId token error clock => exact s.failJob_alters jobId token error clock
  | getJob jobId => exact .keeps rfl (fun _ => .inl rfl)
  | expireLease jobId =>
    refine .keeps rfl ?_
    intro i
    by_cases hi : i = jobId <;> simp [step, delLease, hi]
  | expireIdemp key => exact .keeps rfl (fun _ => .inl rfl)

theorem step_endsLeases {s : RedisStore P R E} (h : s.EndsLeases) (op : RedisOp P R E) :
    (s.step op).1.EndsLeases := by
  intro i old hget hs
  have halters := s.step_alters op
  generalize (s.step op).1 = s' at halters hget
  cases halters with
  | keeps hjob hlease =>
    rw [hjob] at hget
    exact (hlease i).elim (fun heq => heq.trans (h i old hget hs)) id
  | puts jobId job hjob hlease hend _ =>
    rw [hjob] at hget
    by_cases hi : i = jobId
    · subst hi
      rw [Function.update_self, Option.some.injEq] at hget
      exact hend (hget ▸ hs)
    · rw [Function.update_of_ne hi] at hget
      exact (hlease i hi).trans (h i old hget hs)

theorem run_endsLeases {s : RedisStore P R E} (h : s.EndsLeases) (ops : List (RedisOp P R E)) :
    (s.run ops).EndsLeases := by
  induction ops generalizing s with
  | nil => exact h
  | cons op ops ih => exact ih (step_endsLeases h op)

theorem step_terminal {s : RedisStore P R E} (h : s.EndsLeases) {op : RedisOp P R E}
    (hcareful : s.Careful op) {jobId : String} {job : Job P R E} (hget : s.job jobId = some job)
    (hs : job.state.Terminal) : (s.step op).1.job jobId = some job := by
  have halters := s.step_alters op
  generalize (s.step op).1 = s' at halters
  cases halters with
  | keeps hjob _ => rw [hjob, hget]
  | puts i new hjob _ _ hlive =>
    have hne : jobId ≠ i := by
      rintro rfl
      exact hlive h hcareful job hget hs
    rw [hjob, Function.update_of_ne hne, hget]

theorem run_terminal {s : RedisStore P R E} (h : s.EndsLeases) (ops : List (RedisOp P R E))
    (hcareful : ∀ earlier op later, ops = earlier ++ op :: later → (s.run earlier).Careful op)
    {jobId : String} {job : Job P R E} (hget : s.job jobId = some job)
    (hs : job.state.Terminal) : (s.run ops).job jobId = some job := by
  induction ops generalizing s with
  | nil => exact hget
  | cons op ops ih =>
    have hfirst : s.Careful op := hcareful [] op ops rfl
    refine ih (step_endsLeases h op) ?_ (step_terminal h hfirst hget hs)
    rintro earlier op' later rfl
    exact hcareful (op :: earlier) op' later rfl

theorem refused_of_careful {s : RedisStore P R E} {op : RedisOp P R E} {jobId token : String}
    (hcareful : s.Careful op) (hop : op.presents = some (jobId, token))
    (hnot : ¬ s.Holds jobId token) : s.step op = (s, .accepted false) := by
  cases op with
  | completeJob i t result clock =>
    simp only [RedisOp.presents, Option.some.injEq, Prod.mk.injEq] at hop
    obtain ⟨rfl, rfl⟩ := hop
    cases hl : s.lease i with
    | none => simp [step, completeJob, hl]
    | some lease =>
      have ht : lease.token ≠ t := fun ht => hnot ⟨lease, hl, ht⟩
      simp [step, completeJob, hl, ht]
  | failJob i t error clock =>
    simp only [RedisOp.presents, Option.some.injEq, Prod.mk.injEq] at hop
    obtain ⟨rfl, rfl⟩ := hop
    have hnone : s.job i = none := hcareful.resolve_right hnot
    simp [step, failJob, hnone]
  | _ => simp [RedisOp.presents] at hop

theorem careful_of_contract {earlier later : List (RedisOp P R E)} {op : RedisOp P R E}
    (h : LeaseContract (earlier ++ op :: later)) : (empty.run earlier).Careful op := by
  cases op with
  | failJob jobId token error clock =>
    by_contra hnot
    simp only [Careful, not_or] at hnot
    obtain ⟨hjob, hold⟩ := hnot
    have hrefused := h.2 earlier _ later rfl jobId token rfl hold
    cases hget : (empty.run earlier).job jobId with
    | none => exact hjob hget
    | some job =>
      have hans := congrArg Prod.snd hrefused
      by_cases ha : (job.attempts : ℤ) < job.maxRetries <;> simp [step, failJob, hget, ha] at hans
  | enqueue adapter jobData uuid clock =>
    by_contra hnot
    simp only [Careful, not_or, not_not, not_forall] at hnot
    obtain ⟨hnew, hroom, job, hget, hs⟩ := hnot
    obtain ⟨job', hget', hstate⟩ :=
      h.1 earlier [.enqueue adapter jobData uuid clock] later (by simp) _ job hget hs
    rw [run_append] at hget'
    simp only [run, step, enqueue, hnew, if_neg hroom, Prod.map_fst, id, setIdemp_job, lpush,
      setJob, JobData.toJob, Function.update_self, Option.some.injEq] at hget'
    have hqueued : job'.state = .queued := by rw [← hget']
    rw [← hstate, hqueued] at hs
    exact absurd hs (by decide)
  | _ => trivial

/-- The lease contract holds of a run exactly when each of its calls is careful. -/
theorem leaseContract_iff (ops : List (RedisOp P R E)) :
    LeaseContract ops ↔
      ∀ earlier op later, ops = earlier ++ op :: later → (empty.run earlier).Careful op := by
  have hempty : (empty : RedisStore P R E).EndsLeases := by
    intro i job hget
    simp [empty] at hget
  constructor
  · rintro h earlier op later rfl
    exact careful_of_contract h
  · intro hcareful
    constructor
    · rintro earlier between later rfl jobId job hget hs
      refine ⟨job, ?_, rfl⟩
      rw [run_append]
      refine run_terminal (run_endsLeases hempty earlier) between ?_ hget hs
      rintro a op b rfl
      rw [← run_append]
      exact hcareful (earlier ++ a) op (b ++ later) (by simp)
    · intro earlier op later hops jobId token hop hnot
      exact refused_of_careful (hcareful earlier op later hops) hop hnot

def plainAdapter : RedisAdapter := RedisAdapter.create ⟨none, none, none⟩

/-- A worker completes its job, and another one reports a failure of it. -/
def reportedTwice : List (RedisOp Unit Unit Unit) :=
  [.enqueue plainAdapter ⟨some "job-1", none, none, ()⟩ "" ⟨0, 0⟩,
    .leaseNextJob plainAdapter "worker" none "token" ⟨1, 1⟩,
    .completeJob "job-1" "token" () ⟨2, 2⟩, .failJob "job-1" "other" () ⟨3, 3⟩]

theorem reportedTwice_breaks_contract : ¬ LeaseContract reportedTwice := by
  rintro ⟨hterminal, -⟩
  obtain ⟨job, hget, hs⟩ :=
    hterminal (reportedTwice.take 3) (reportedTwice.drop 3) [] rfl "job-1" _ rfl (by decide)
  have hqueued : ((empty.run reportedTwice).job "job-1").map Job.state = some .queued := rfl
  have hrun : (empty.run reportedTwice).job "job-1" = some job := hget
  simp [hrun, hs] at hqueued

end RedisStore
end
end LuaRecovery.Queue
