import LuaRecovery.Lib.Runs
import LuaRecovery.Gateway.RecoveryGateway

/-!
# Submissions of several principals

The queue knows an idempotency key but not whose it is. Submissions keep to
their principal as long as nobody names a key under which another principal's
job is filed.
-/

set_option autoImplicit false

namespace LuaRecovery.Gateway
open LuaRecovery.Lib LuaRecovery.Queue

section
variable {Report Fault : Type}

structure SubmitCall where
  request : JobRequest
  draws : SubmitDraws

/-- The key under which a submission is filed. -/
def SubmitCall.key (c : SubmitCall) : String :=
  if truthy c.request.idempotencyKey then c.request.idempotencyKey.getD "" else
    JobRequest.jobId c.draws

namespace RecoveryGateway

def create (limits : RateLimiterOptions) (options : Options) (retentionMs : ℤ) :
    RecoveryGateway Report Fault where
  rateLimiter := .create limits
  queue := .create options
  artifactStore := ⟨retentionMs, .empty⟩

def submit (g : RecoveryGateway Report Fault) (c : SubmitCall) :
    RecoveryGateway Report Fault × Except GatewayError Receipt :=
  g.submitJobSync c.request c.draws

/-- The principal of a submission that is passed on to the queue, and the limiter that has let
it pass. -/
def admission (l : RateLimiter) (c : SubmitCall) : RateLimiter × Option String :=
  match c.request.principalId.filter (· ≠ ""), c.request.source.filter (· ≠ []) with
  | some principalId, some _ =>
    if c.request.options.skipRateCheck then (l, some principalId)
    else
      let (l, check) := l.checkLimit principalId "submit" c.draws.now
      (l, if check.allowed then some principalId else none)
  | _, _ => (l, none)

def system (Report Fault : Type) (limits : RateLimiterOptions) (options : Options)
    (retentionMs : ℤ) : System (RecoveryGateway Report Fault) SubmitCall where
  start := create limits options retentionMs
  step g c := some (g.submit c).1

/-- The job that is returned, if one is, is in the queue and the principal's own. -/
def ReturnsOwn (g : RecoveryGateway Report Fault) (c : SubmitCall) : Prop :=
  ∀ receipt, (g.submit c).2 = .ok receipt →
    ∃ job, (g.submit c).1.queue.jobs.get receipt.jobId = some job ∧
      c.request.principalId = some job.principalId ∧
      receipt = receiptOf job receipt.isDuplicate

def enqueues : Except GatewayError Receipt → Bool
  | .ok receipt => !receipt.isDuplicate
  | .error _ => false

/-- Which of a principal's submissions have their source enqueued. -/
def decisions (principalId : String) (g : RecoveryGateway Report Fault) :
    List SubmitCall → List Bool
  | [] => []
  | c::cs =>
      let rest := decisions principalId (g.submit c).1 cs
      if c.request.principalId = some principalId then enqueues (g.submit c).2 :: rest else rest

/-- No job of another principal is filed under the key. -/
def OwnKey (g : RecoveryGateway Report Fault) (c : SubmitCall) : Prop :=
  ∀ principalId job, (admission g.rateLimiter c).2 = some principalId →
    g.queue.existingJob (some c.key) = some job → job.principalId = principalId

/-- The key is the principal's own; if it is new, there is room in the queue and no job with the
id that is drawn. -/
def Private (g : RecoveryGateway Report Fault) (c : SubmitCall) : Prop :=
  g.OwnKey c ∧
    ((admission g.rateLimiter c).2 ≠ none → g.queue.existingJob (some c.key) = none →
      g.queue.waitingQueue.length < g.queue.settings.maxQueueDepth ∧
        g.queue.jobs.get (JobRequest.jobId c.draws) = none)

end RecoveryGateway

/-- The same submissions, except that the other principals name other keys. -/
def SameFor (principalId : String) (c c' : SubmitCall) : Prop :=
  c = c' ∨ (c.request.principalId ≠ some principalId ∧
    ∃ key, c' = { c with request := { c.request with idempotencyKey := key } })

namespace RecoveryGateway

/-- The jobs are filed under their ids, and every key leads to a job. -/
structure Filed (q : GatewayQueue Report Fault) : Prop where
  named : ∀ jobId job, q.jobs.get jobId = some job → job.jobId = jobId
  known : ∀ key jobId, q.idempotencyMap.get key = some jobId → q.jobs.get jobId ≠ none

/-- What a submission does to the queue, and what it answers. -/
inductive Submits (g : RecoveryGateway Report Fault) (c : SubmitCall) :
    GatewayQueue Report Fault → Except GatewayError Receipt → Prop where
  | refused (error : GatewayError) (hpass : (admission g.rateLimiter c).2 = none) :
      Submits g c g.queue (.error error)
  | duplicate (principalId : String) (job : GatewayJob Report Fault)
      (hpass : (admission g.rateLimiter c).2 = some principalId)
      (hjob : g.queue.existingJob (some c.key) = some job) :
      Submits g c g.queue (.ok (receiptOf job true))
  | full (principalId : String) (hpass : (admission g.rateLimiter c).2 = some principalId)
      (hnew : g.queue.existingJob (some c.key) = none)
      (hfull : g.queue.settings.maxQueueDepth ≤ g.queue.waitingQueue.length) :
      Submits g c g.queue (.error (queueRefused g.queue.backpressure))
  | fresh (principalId : String) (job : GatewayJob Report Fault) (q : GatewayQueue Report Fault)
      (hpass : (admission g.rateLimiter c).2 = some principalId)
      (hnew : g.queue.existingJob (some c.key) = none)
      (hroom : ¬ g.queue.settings.maxQueueDepth ≤ g.queue.waitingQueue.length)
      (hid : job.jobId = JobRequest.jobId c.draws) (hprincipal : job.principalId = principalId)
      (hjobs : q.jobs = g.queue.jobs.set (JobRequest.jobId c.draws) job)
      (hkeys : q.idempotencyMap =
        g.queue.idempotencyMap.set c.key (JobRequest.jobId c.draws))
      (hsettings : q.settings = g.queue.settings) : Submits g c q (.ok (receiptOf job false))

theorem jobId_ne_empty (draws : SubmitDraws) : JobRequest.jobId draws ≠ "" := by
  intro h
  have := congrArg String.length h
  simp [JobRequest.jobId] at this

theorem key_ne_empty (c : SubmitCall) : c.key ≠ "" := by
  rw [SubmitCall.key]
  cases c.request.idempotencyKey with
  | none => exact jobId_ne_empty c.draws
  | some key => by_cases hk : key = "" <;> simp [truthy, hk, jobId_ne_empty]

theorem jobData_key (c : SubmitCall) (principalId : String) (payload : Payload) :
    (⟨some (JobRequest.jobId c.draws), c.request.idempotencyKey, some principalId, payload⟩ :
      JobData Payload).key = some c.key := by
  rw [JobData.key, SubmitCall.key]
  cases c.request.idempotencyKey with
  | none => rfl
  | some key => by_cases hk : key = "" <;> simp [truthy, hk]

theorem admission_eq {l : RateLimiter} {c : SubmitCall} {principalId : String}
    (h : (admission l c).2 = some principalId) :
    c.request.principalId = some principalId ∧ principalId ≠ "" := by
  rw [admission] at h
  split at h
  next p source hp hsource =>
    have hpass : p = principalId := by
      split at h
      · exact Option.some.inj h
      · dsimp only at h
        split at h
        · exact Option.some.inj h
        · cases h
    obtain ⟨hp, hne⟩ := Option.filter_eq_some_iff.mp hp
    exact hpass ▸ ⟨hp, by simpa using hne⟩
  next => cases h

theorem enqueueJob_submits (g : RecoveryGateway Report Fault) (l : RateLimiter) (c : SubmitCall)
    {principalId : String} (source : CodeUnits)
    (hpass : (admission g.rateLimiter c).2 = some principalId) :
    Submits g c
      (enqueueJob { g with rateLimiter := l } c.request principalId source c.draws).1.queue
      (enqueueJob { g with rateLimiter := l } c.request principalId source c.draws).2 := by
  have hkey := jobData_key c principalId (c.request.payload (JobRequest.jobId c.draws) source)
  rw [enqueueJob]
  simp only [InMemoryJobQueue.enqueue, hkey]
  cases hjob : g.queue.existingJob (some c.key) with
  | some job => exact .duplicate principalId job hpass hjob
  | none =>
    by_cases hfull : g.queue.settings.maxQueueDepth ≤ g.queue.waitingQueue.length
    · simp only [if_pos hfull]
      exact .full principalId hpass hjob hfull
    · simp only [if_neg hfull]
      have hne := jobId_ne_empty c.draws
      have hprincipal := (admission_eq hpass).2
      refine .fresh principalId _ _ hpass hjob hfull ?_ ?_ ?_ ?_ rfl
      · simp [JobData.toJob, JobData.newId, hne]
      · simp [JobData.toJob, JobData.principal, hprincipal]
      · simp [JobData.toJob, JobData.newId, hne, InMemoryJobQueue.emit]
      · simp [JobData.toJob, hkey, JobData.newId, hne, InMemoryJobQueue.emit,
          InMemoryJobQueue.remember, key_ne_empty]

theorem enqueueJob_rateLimiter (g : RecoveryGateway Report Fault) (request : JobRequest)
    (principalId : String) (source : CodeUnits) (draws : SubmitDraws) :
    (g.enqueueJob request principalId source draws).1.rateLimiter = g.rateLimiter := by
  rw [enqueueJob]
  split <;> rfl

theorem submit_submits (g : RecoveryGateway Report Fault) (c : SubmitCall) :
    Submits g c (g.submit c).1.queue (g.submit c).2 ∧
      (g.submit c).1.rateLimiter = (admission g.rateLimiter c).1 := by
  rw [submit, submitJobSync]
  cases hp : c.request.principalId.filter (· ≠ "") with
  | none =>
    have hpass : admission g.rateLimiter c = (g.rateLimiter, none) := by simp only [admission, hp]
    exact ⟨.refused _ (by rw [hpass]), by rw [hpass]⟩
  | some principalId =>
    cases hsource : c.request.source.filter (· ≠ []) with
    | none =>
      have hpass : admission g.rateLimiter c = (g.rateLimiter, none) := by
        simp only [admission, hp, hsource]
      exact ⟨.refused _ (by rw [hpass]), by rw [hpass]⟩
    | some source =>
      by_cases hskip : c.request.options.skipRateCheck = true
      · have hpass : admission g.rateLimiter c = (g.rateLimiter, some principalId) := by
          simp only [admission, hp, hsource, if_pos hskip]
        simp only [if_pos hskip]
        exact ⟨enqueueJob_submits g g.rateLimiter c source (by rw [hpass]),
          by rw [enqueueJob_rateLimiter, hpass]⟩
      · have hpass : admission g.rateLimiter c =
            ((g.rateLimiter.checkLimit principalId "submit" c.draws.now).1,
              if (g.rateLimiter.checkLimit principalId "submit" c.draws.now).2.allowed then
                some principalId else none) := by
          simp only [admission, hp, hsource, if_neg hskip]
        simp only [if_neg hskip]
        split
        next hallowed =>
          rw [if_pos hallowed] at hpass
          exact ⟨enqueueJob_submits g _ c source (by rw [hpass]),
            by rw [enqueueJob_rateLimiter, hpass]⟩
        next hallowed =>
          rw [if_neg hallowed] at hpass
          exact ⟨.refused _ (by rw [hpass]), by rw [hpass]⟩

section Owners
variable {g : RecoveryGateway Report Fault} {c : SubmitCall} {q : GatewayQueue Report Fault}
  {answer : Except GatewayError Receipt}

theorem filed_create (options : Options) : Filed (.create options : GatewayQueue Report Fault) where
  named := fun _ _ h => by cases h
  known := fun _ _ h => by cases h

theorem Submits.filed (h : Submits g c q answer) (hg : Filed g.queue) : Filed q := by
  cases h with
  | refused error hpass => exact hg
  | duplicate principalId job hpass hjob => exact hg
  | full principalId hpass hnew hfull => exact hg
  | fresh principalId job _ hpass hnew hroom hid hprincipal hjobs hkeys hsettings =>
    constructor
    · intro jobId job' hget
      rw [hjobs, InsertionMap.get_set] at hget
      split at hget
      next heq =>
        rw [← Option.some.inj hget, hid, heq]
      next => exact hg.named jobId job' hget
    · intro key jobId hget
      rw [hjobs, InsertionMap.get_set]
      split
      next => simp
      next hne =>
        rw [hkeys, InsertionMap.get_set] at hget
        split at hget
        next => exact absurd (Option.some.inj hget).symm hne
        next => exact hg.known key jobId hget

/-- The job that a key leads to is filed under its own id. -/
theorem Filed.existing (hq : Filed q) {key : String} {job : GatewayJob Report Fault}
    (h : q.existingJob (some key) = some job) : q.jobs.get job.jobId = some job := by
  simp only [InMemoryJobQueue.existingJob] at h
  split at h
  · cases h
  · obtain ⟨jobId, -, hjob⟩ := Option.bind_eq_some_iff.mp h
    rw [hq.named jobId job hjob, hjob]

theorem returnsOwn_iff (hg : Filed g.queue) : g.ReturnsOwn c ↔ g.OwnKey c := by
  obtain ⟨hsubmit, -⟩ := submit_submits g c
  constructor
  · intro hown principalId job hpass hjob
    rw [ReturnsOwn] at hown
    generalize (g.submit c).2 = answer, (g.submit c).1.queue = q at hsubmit hown
    cases hsubmit with
    | refused error hnone => simp [hpass] at hnone
    | full _ _ hnew _ => simp [hjob] at hnew
    | fresh _ _ _ _ hnew => simp [hjob] at hnew
    | duplicate principalId' job' hpass' hjob' =>
      obtain rfl : job = job' := Option.some.inj (hjob.symm.trans hjob')
      obtain ⟨found, hget, hprincipal, -⟩ := hown _ rfl
      have hfound := hg.existing hjob
      obtain rfl : job = found := Option.some.inj (hfound.symm.trans hget)
      rw [(admission_eq hpass).1, Option.some.injEq] at hprincipal
      exact hprincipal.symm
  · intro hown receipt hanswer
    generalize (g.submit c).2 = answer, (g.submit c).1.queue = q at hsubmit hanswer ⊢
    cases hsubmit with
    | refused error hnone => cases hanswer
    | full _ _ _ _ => cases hanswer
    | duplicate principalId job hpass hjob =>
      cases hanswer
      have hprincipal := hown principalId job hpass hjob
      exact ⟨job, hg.existing hjob, by rw [hprincipal, (admission_eq hpass).1], rfl⟩
    | fresh principalId job _ hpass hnew hroom hid hprincipal hjobs hkeys hsettings =>
      cases hanswer
      refine ⟨job, ?_, by rw [hprincipal, (admission_eq hpass).1], rfl⟩
      rw [hjobs, receiptOf, hid, InsertionMap.get_set_self]

end Owners

section Decisions
variable {principalId : String}

/-- A job of the principal is filed under the key. -/
def Holds (q : GatewayQueue Report Fault) (principalId key : String) : Prop :=
  ∃ job, q.existingJob (some key) = some job ∧ job.principalId = principalId

/-- The two gateways look alike to the principal. -/
structure Alike (principalId : String) (g g' : RecoveryGateway Report Fault) : Prop where
  rateLimiter : g.rateLimiter = g'.rateLimiter
  holds : ∀ key, Holds g.queue principalId key ↔ Holds g'.queue principalId key
  filed : Filed g.queue
  filed' : Filed g'.queue

variable {g g' : RecoveryGateway Report Fault} {c c' : SubmitCall} {q : GatewayQueue Report Fault}
  {answer : Except GatewayError Receipt}

/-- A private submission is enqueued when its principal holds nothing under its key. -/
theorem Submits.enqueues_iff (h : Submits g c q answer) (hpriv : g.Private c) :
    enqueues answer = true ↔
      ∃ p, (admission g.rateLimiter c).2 = some p ∧ ¬ Holds g.queue p c.key := by
  cases h with
  | refused error hpass => simp [enqueues, hpass]
  | duplicate p job hpass hjob =>
    have hheld : Holds g.queue p c.key := ⟨job, hjob, hpriv.1 p job hpass hjob⟩
    simp [enqueues, receiptOf, hpass, hheld]
  | full p hpass hnew hfull =>
    have hroom := (hpriv.2 (by simp [hpass]) hnew).1
    omega
  | fresh p job _ hpass hnew =>
    have hheld : ¬ Holds g.queue p c.key := by
      rintro ⟨job', hjob', -⟩
      simp [hnew] at hjob'
    simp [enqueues, receiptOf, hpass, hheld]

/-- What a private submission changes for a principal: its own new job, if it is the submitter. -/
theorem Submits.holds_iff (h : Submits g c q answer) (hpriv : g.Private c) (hg : Filed g.queue)
    (key : String) : Holds q principalId key ↔ Holds g.queue principalId key ∨
      (key = c.key ∧ (admission g.rateLimiter c).2 = some principalId) := by
  cases h with
  | refused error hpass => simp [hpass]
  | duplicate p job hpass hjob =>
    rw [hpass]
    refine ⟨.inl, ?_⟩
    rintro (h | ⟨rfl, hp⟩)
    · exact h
    · obtain rfl := Option.some.inj hp
      exact ⟨job, hjob, hpriv.1 p job hpass hjob⟩
  | full p hpass hnew hfull =>
    have hroom := (hpriv.2 (by simp [hpass]) hnew).1
    omega
  | fresh p job _ hpass hnew hroom hid hprincipal hjobs hkeys hsettings =>
    have hunused := (hpriv.2 (by simp [hpass]) hnew).2
    rw [hpass, Option.some.injEq]
    by_cases hkey : key = c.key
    · subst hkey
      have hafter : q.existingJob (some c.key) = some job := by
        simp [InMemoryJobQueue.existingJob, key_ne_empty, hkeys, hjobs, InsertionMap.get_set_self]
      constructor
      · rintro ⟨job', hjob', hp⟩
        obtain rfl : job = job' := Option.some.inj (hafter.symm.trans hjob')
        exact .inr ⟨rfl, hprincipal.symm.trans hp⟩
      · rintro (⟨job', hjob', -⟩ | ⟨-, rfl⟩)
        · simp [hnew] at hjob'
        · exact ⟨job, hafter, hprincipal⟩
    · have hsame : q.existingJob (some key) = g.queue.existingJob (some key) := by
        simp only [InMemoryJobQueue.existingJob]
        split
        next => rfl
        next =>
          rw [hkeys, InsertionMap.get_set_ne _ _ hkey]
          cases hget : g.queue.idempotencyMap.get key with
          | none => rfl
          | some jobId =>
            have hne : jobId ≠ JobRequest.jobId c.draws := by
              rintro rfl
              exact hg.known key _ hget hunused
            rw [Option.bind_some, Option.bind_some, hjobs, InsertionMap.get_set_ne _ _ hne]
      simp only [Holds, hsame, hkey, false_and, or_false]

theorem admission_sameFor (l : RateLimiter) (h : SameFor principalId c c') :
    admission l c = admission l c' := by
  rcases h with rfl | ⟨-, key, rfl⟩
  · rfl
  · rfl

theorem Alike.submit (h : Alike principalId g g') (hsame : SameFor principalId c c')
    (hpriv : g.Private c) (hpriv' : g'.Private c') :
    Alike principalId (g.submit c).1 (g'.submit c').1 ∧
      (c.request.principalId = some principalId →
        enqueues (g.submit c).2 = enqueues (g'.submit c').2) := by
  obtain ⟨hsubmit, hlimiter⟩ := submit_submits g c
  obtain ⟨hsubmit', hlimiter'⟩ := submit_submits g' c'
  have hpass := admission_sameFor g.rateLimiter hsame
  have hkey : c.request.principalId = some principalId → c = c' := by
    intro hp
    rcases hsame with heq | ⟨hne, -⟩
    · exact heq
    · exact absurd hp hne
  refine ⟨⟨?_, ?_, hsubmit.filed h.filed, hsubmit'.filed h.filed'⟩, ?_⟩
  · rw [hlimiter, hlimiter', ← h.rateLimiter, hpass]
  · intro key
    rw [hsubmit.holds_iff hpriv h.filed, hsubmit'.holds_iff hpriv' h.filed', h.holds key,
      ← h.rateLimiter, ← hpass]
    apply or_congr_right
    apply and_congr_left
    intro hp
    rw [hkey (admission_eq hp).1]
  · intro hp
    obtain rfl := hkey hp
    rw [Bool.eq_iff_iff, hsubmit.enqueues_iff hpriv, hsubmit'.enqueues_iff hpriv', h.rateLimiter]
    refine exists_congr fun p => and_congr_right fun hpassed => ?_
    obtain rfl := Option.some.inj ((admission_eq hpassed).1.symm.trans hp)
    rw [h.holds]

theorem Alike.decisions {cs cs' : List SubmitCall} (h : Alike principalId g g')
    (hsame : List.Forall₂ (SameFor principalId) cs cs') {limits : RateLimiterOptions}
    {options : Options} {retentionMs : ℤ}
    (hpriv : (system Report Fault limits options retentionMs).MeetsFrom Private g cs)
    (hpriv' : (system Report Fault limits options retentionMs).MeetsFrom Private g' cs') :
    decisions principalId g cs = decisions principalId g' cs' := by
  induction hsame generalizing g g' with
  | nil => rfl
  | @cons c c' cs cs' hc hcs ih =>
    obtain ⟨hfirst, hrest⟩ := hpriv _ rfl
    obtain ⟨hfirst', hrest'⟩ := hpriv' _ rfl
    obtain ⟨halike, hdecision⟩ := h.submit hc hfirst hfirst'
    have hprincipal : c.request.principalId = some principalId ↔
        c'.request.principalId = some principalId := by
      rcases hc with rfl | ⟨-, key, rfl⟩ <;> rfl
    have hlater := ih halike hrest hrest'
    rw [RecoveryGateway.decisions, RecoveryGateway.decisions]
    by_cases hp : c.request.principalId = some principalId
    · rw [if_pos hp, if_pos (hprincipal.mp hp), hdecision hp, hlater]
    · rw [if_neg hp, if_neg (fun hp' => hp (hprincipal.mpr hp')), hlater]

theorem alike_create (limits : RateLimiterOptions) (options : Options) (retentionMs : ℤ) :
    Alike principalId (create limits options retentionMs : RecoveryGateway Report Fault)
      (create limits options retentionMs) where
  rateLimiter := rfl
  holds := fun _ => Iff.rfl
  filed := filed_create options
  filed' := filed_create options

end Decisions

/-- Every job that a history returns is the submitter's own exactly when no submission names a key
under which another principal's job is filed; and where all keys are private, what is enqueued
for a principal is the same whatever keys the others name. -/
theorem submissions_isolated (limits : RateLimiterOptions) (options : Options) (retentionMs : ℤ)
    (cs : List SubmitCall) :
    ((system Report Fault limits options retentionMs).Meets ReturnsOwn cs ↔
        (system Report Fault limits options retentionMs).Meets OwnKey cs) ∧
      ∀ principalId cs', List.Forall₂ (SameFor principalId) cs cs' →
        (system Report Fault limits options retentionMs).Meets Private cs →
        (system Report Fault limits options retentionMs).Meets Private cs' →
        decisions principalId (system Report Fault limits options retentionMs).start cs =
          decisions principalId (system Report Fault limits options retentionMs).start cs' := by
  constructor
  · have hcond : ∀ (g : RecoveryGateway Report Fault) c, Filed g.queue →
        (g.ReturnsOwn c ↔ g.OwnKey c) := fun _ _ => returnsOwn_iff
    refine System.meets_congr hcond ?_ cs (filed_create options)
    rintro g c g' hg hs
    cases hs
    exact (submit_submits g c).1.filed hg
  · intro principalId cs' hsame h h'
    exact (alike_create limits options retentionMs).decisions hsame h h'

def submission (principalId key hex : String) : SubmitCall where
  request := ⟨some principalId, some [112], "input.lua", some key, ⟨none, none, false⟩,
    ⟨none, none, none⟩⟩
  draws := ⟨hex, 0, ⟨0, 0⟩, 0⟩

def plainLimits : RateLimiterOptions := ⟨none, none, none, none⟩
def plainQueue : Options := ⟨none, none, none, none⟩

def plainSystem : System (RecoveryGateway Unit Unit) SubmitCall :=
  system Unit Unit plainLimits plainQueue 1000

/-- Two principals, of which the second uses the key `b`. -/
def twoPrincipals (key : String) : List SubmitCall :=
  [submission "alice" key "1", submission "bob" "b" "2"]

theorem private_of_new {g : RecoveryGateway Report Fault} {c : SubmitCall}
    (hnew : g.queue.existingJob (some c.key) = none)
    (hroom : g.queue.waitingQueue.length < g.queue.settings.maxQueueDepth)
    (hunused : g.queue.jobs.get (JobRequest.jobId c.draws) = none) : g.Private c := by
  refine ⟨fun _ _ _ hjob => ?_, fun _ _ => ⟨hroom, hunused⟩⟩
  rw [hnew] at hjob
  cases hjob

theorem twoPrincipals_private :
    plainSystem.Meets Private (twoPrincipals "a") ∧
      plainSystem.Meets Private (twoPrincipals "c") := by
  constructor
  · refine (System.meetsFrom_cons rfl).mpr ⟨private_of_new rfl (by decide) rfl, ?_⟩
    exact (System.meetsFrom_cons rfl).mpr ⟨private_of_new rfl (by decide) rfl, trivial⟩
  · refine (System.meetsFrom_cons rfl).mpr ⟨private_of_new rfl (by decide) rfl, ?_⟩
    exact (System.meetsFrom_cons rfl).mpr ⟨private_of_new rfl (by decide) rfl, trivial⟩

theorem twoPrincipals_isolated :
    decisions "bob" plainSystem.start (twoPrincipals "a") =
      decisions "bob" plainSystem.start (twoPrincipals "c") := by
  refine (submissions_isolated plainLimits plainQueue 1000 (twoPrincipals "a")).2 "bob"
    (twoPrincipals "c") ?_ twoPrincipals_private.1 twoPrincipals_private.2
  have hbob : SameFor "bob" (submission "bob" "b" "2") (submission "bob" "b" "2") := .inl rfl
  exact .cons (.inr ⟨by decide, some "c", rfl⟩) (.cons hbob .nil)

/-- The second principal happens on the key of the first: the first one's job is returned, and
nothing is enqueued. -/
theorem sharedKey_returns_foreign_job :
    ¬ plainSystem.Meets ReturnsOwn (twoPrincipals "b") ∧
      decisions "bob" plainSystem.start (twoPrincipals "b") = [false] ∧
      decisions "bob" plainSystem.start (twoPrincipals "a") = [true] := by
  refine ⟨fun h => ?_, rfl, rfl⟩
  obtain ⟨-, hrest⟩ := h _ rfl
  obtain ⟨hown, -⟩ := hrest _ rfl
  obtain ⟨job, hget, hprincipal, -⟩ := hown _ rfl
  have hbob : job.principalId = "bob" := Option.some.inj hprincipal.symm
  have halice : some job.principalId = some "alice" :=
    congrArg (Option.map (fun job : GatewayJob Unit Unit => job.principalId)) hget.symm
  rw [hbob] at halice
  exact absurd halice (by decide)

end RecoveryGateway
end
end LuaRecovery.Gateway
