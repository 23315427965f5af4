import LuaRecovery.Queue.QueueInvariant

/-!
# What an operation does to one record

A reclaim looks at each lease once, so what becomes of a record depends on its
own lease only. The other operations write the record of one job.
-/

set_option autoImplicit false

namespace LuaRecovery.Queue
open LuaRecovery.Lib

section
variable {P R E : Type}

/-- The lease of the job has run out. -/
def Lease.Stale (lease : Lease) (clock : Clock) (job : Job P R E) : Prop :=
  lease.expiresAt < clock.now ∧ job.state = .running

instance (lease : Lease) (clock : Clock) (job : Job P R E) : Decidable (lease.Stale clock job) :=
  inferInstanceAs (Decidable (_ ∧ _))

/-- The record after its lease was looked at. -/
def Lease.reclaim (clock : Clock) (lease : Lease) (job : Job P R E) : Job P R E :=
  if lease.Stale clock job then
    if (job.attempts : ℤ) < job.maxRetries then
      { job with state := .queued, updatedAt := clock.later }
    else
      { job with
        state := .timedOut
        error := some (.coded "LEASE_EXPIRED" "Worker lease expired and retry limit reached")
        updatedAt := clock.later }
  else job

namespace InMemoryJobQueue
variable {q : InMemoryJobQueue P R E} {jobId : String}

theorem reclaimLease_get_ne (clock : Clock) (entry : String × Lease) (h : jobId ≠ entry.1) :
    (reclaimLease clock q entry).jobs.get jobId = q.jobs.get jobId := by
  unfold reclaimLease
  split
  next =>
    cases hjob : q.jobs.get entry.1 with
    | none => simp only [hjob]
    | some job =>
      simp only [hjob]
      by_cases hs : job.state = .running
      · rw [if_pos hs]
        split
        · exact InsertionMap.get_set_ne _ _ h
        · exact InsertionMap.get_set_ne _ _ h
      · rw [if_neg hs]
  next => rfl

theorem reclaimLease_get_self (clock : Clock) (lease : Lease) :
    (reclaimLease clock q (jobId, lease)).jobs.get jobId =
      (q.jobs.get jobId).map (lease.reclaim clock) := by
  unfold reclaimLease
  cases hjob : q.jobs.get jobId with
  | none =>
    split
    · simp only [hjob]
      rfl
    · simp only [hjob]
      rfl
  | some job =>
    by_cases he : lease.expiresAt < clock.now <;> by_cases hs : job.state = .running <;>
      by_cases ha : (job.attempts : ℤ) < job.maxRetries <;>
        simp [hjob, he, hs, ha, emit, Lease.reclaim, Lease.Stale, InsertionMap.get_set_self]

theorem foldl_reclaimLease_get (clock : Clock) (entries : List (String × Lease))
    (hn : (entries.map Prod.fst).Nodup) :
    (entries.foldl (reclaimLease clock) q).jobs.get jobId =
      match entries.lookup jobId with
      | some lease => (q.jobs.get jobId).map (lease.reclaim clock)
      | none => q.jobs.get jobId := by
  induction entries generalizing q with
  | nil => rfl
  | cons entry entries ih =>
    obtain ⟨key, lease⟩ := entry
    rw [List.map_cons, List.nodup_cons] at hn
    rw [List.foldl_cons, ih hn.2, List.lookup_cons]
    by_cases hk : jobId = key
    · subst hk
      have hnone : entries.lookup jobId = none := by
        rw [List.lookup_eq_none_iff]
        intro entry hentry
        simpa using fun heq => hn.1 (List.mem_map.mpr ⟨entry, hentry, heq.symm⟩)
      simp only [hnone, beq_self_eq_true, reclaimLease_get_self]
    · simp only [beq_eq_false_iff_ne.mpr hk, reclaimLease_get_ne clock (key, lease) hk]

theorem reclaimStaleLeases_get (q : InMemoryJobQueue P R E) (clock : Clock) (jobId : String) :
    (q.reclaimStaleLeases clock).jobs.get jobId =
      match q.leases.get jobId with
      | some lease => (q.jobs.get jobId).map (lease.reclaim clock)
      | none => q.jobs.get jobId :=
  foldl_reclaimLease_get clock q.leases.entries q.leases.nodup_keys

theorem completeJob_get_ne {i : String} (h : i ≠ jobId) (token : String) (result : R)
    (clock : Clock) :
    (q.completeJob jobId token result clock).1.jobs.get i = q.jobs.get i := by
  unfold completeJob
  split
  · split
    · exact InsertionMap.get_set_ne _ _ h
    · rfl
  · rfl

theorem failJob_get_ne {i : String} (h : i ≠ jobId) (token : String) (error : E) (clock : Clock) :
    (q.failJob jobId token error clock).1.jobs.get i = q.jobs.get i := by
  unfold failJob
  split
  · split
    · exact InsertionMap.get_set_ne _ _ h
    · exact InsertionMap.get_set_ne _ _ h
  · rfl

/-- A job whose worker reports a failure waits again, or it has failed. -/
theorem failJob_get_self {token : String} {lease : Lease} {job : Job P R E}
    (hl : q.leases.get jobId = some lease) (ht : lease.token = token)
    (hjob : q.jobs.get jobId = some job) (error : E) (clock : Clock) :
    ∃ job', (q.failJob jobId token error clock).1.jobs.get jobId = some job' ∧
      job'.attempts = job.attempts ∧ job'.jobId = job.jobId ∧
      job'.state = if (job.attempts : ℤ) < job.maxRetries then .queued else .failed := by
  have hwith : q.leaseWith jobId token = some lease := leaseWith_eq_some.mpr ⟨hl, ht⟩
  unfold failJob
  rw [hwith, hjob]
  by_cases ha : (job.attempts : ℤ) < job.maxRetries
  · simp only [if_pos ha]
    exact ⟨_, InsertionMap.get_set_self _ _ _, rfl, rfl, rfl⟩
  · simp only [if_neg ha]
    exact ⟨_, InsertionMap.get_set_self _ _ _, rfl, rfl, rfl⟩

/-- A submission that is not refused or a duplicate writes its new record. -/
theorem enqueue_jobs (q : InMemoryJobQueue P R E) (jobData : JobData P) (uuid : String)
    (clock : Clock) :
    match q.enqueue jobData uuid clock with
    | (q', .ok (job, false)) => job.state = .queued ∧ q'.jobs = q.jobs.set job.jobId job
    | (q', _) => q' = q := by
  unfold enqueue
  cases q.existingJob jobData.key with
  | some job => rfl
  | none =>
    by_cases hfull : q.settings.maxQueueDepth ≤ q.waitingQueue.length
    · simp only [if_pos hfull]
    · simp only [if_neg hfull]
      exact ⟨rfl, rfl⟩

theorem cancelJob_jobs (q : InMemoryJobQueue P R E) (jobId : String) (reason : Option String)
    (clock : Clock) :
    match q.cancelJob jobId reason clock with
    | (q', true) => ∀ i, i ≠ jobId → q'.jobs.get i = q.jobs.get i
    | (q', false) => q' = q := by
  unfold cancelJob
  cases hjob : q.jobs.get jobId with
  | none => rfl
  | some job =>
    by_cases hs : job.state.Terminal
    · simp only [if_pos hs]
    · simp only [if_neg hs]
      exact fun i hi => InsertionMap.get_set_ne _ _ hi

/-- A heartbeat moves no job to another state. -/
theorem heartbeat_get {token : String} {extension : Option ℤ} {clock : Clock} {i : String}
    {job' : Job P R E} (h : (q.heartbeat jobId token extension clock).1.jobs.get i = some job') :
    ∃ job, q.jobs.get i = some job ∧ job.state = job'.state := by
  unfold heartbeat at h
  cases hlease : q.leaseWith jobId token with
  | none =>
    rw [hlease] at h
    exact ⟨job', h, rfl⟩
  | some lease =>
    simp only [hlease] at h
    split at h
    · exact ⟨job', h, rfl⟩
    · simp only [emit, touch] at h
      cases hjob : q.jobs.get jobId with
      | none =>
        rw [hjob] at h
        exact ⟨job', h, rfl⟩
      | some job =>
        simp only [hjob, InsertionMap.get_set] at h
        split at h
        next hi =>
          obtain rfl := Option.some.inj h
          exact ⟨job, hi ▸ hjob, rfl⟩
        next => exact ⟨job', h, rfl⟩

/-- Each record is filed under the id that it bears. -/
def Named (q : InMemoryJobQueue P R E) : Prop :=
  ∀ jobId job, q.jobs.get jobId = some job → job.jobId = jobId

theorem named_create (options : Options) : (create options : InMemoryJobQueue P R E).Named :=
  fun _ _ h => by cases h

theorem Named.put (h : q.Named) {q' : InMemoryJobQueue P R E} {job : Job P R E}
    (hid : job.jobId = jobId) (hjobs : q'.jobs = q.jobs.set jobId job) : q'.Named := by
  intro i job' hget
  rw [hjobs, InsertionMap.get_set] at hget
  split at hget
  next heq =>
    rw [← Option.some.inj hget, hid, heq]
  next => exact h i job' hget

theorem Named.settles (h : q.Named) {q' : InMemoryJobQueue P R E} (hturn : Settles q q') :
    q'.Named := by
  cases hturn with
  | released i job job' e hjob hl hr =>
    exact h.put (hr.same_bounds.1.trans (h i job hjob)) rfl
  | lapsed i hjob => exact h
  | prolonged i lease expiresAt updatedAt hl =>
    cases hjob : q.jobs.get i with
    | none =>
      have hjobs : touch q.jobs i updatedAt = q.jobs := by simp [touch, hjob]
      simpa only [Named, emit, hjobs] using h
    | some job =>
      have hjobs : touch q.jobs i updatedAt = q.jobs.set i { job with updatedAt := updatedAt } := by
        simp [touch, hjob]
      have hid : ({ job with updatedAt := updatedAt } : Job P R E).jobId = i := h i job hjob
      exact h.put hid hjobs
  | cancelled i job job' error updatedAt hjob hs hj =>
    have hid : job'.jobId = i := by
      rw [hj]
      exact h i job hjob
    exact h.put hid rfl

theorem Named.leases (h : q.Named) {q' : InMemoryJobQueue P R E} {token : String}
    {answer : Option (Job P R E × String × ℤ)} (hturn : Leases q token q' answer) : q'.Named := by
  cases hturn with
  | idle => exact h
  | dropped i rest hw hjob => exact h
  | leased i rest job job' lease updatedAt hw hjob hs hfree ht hj =>
    have hid : job'.jobId = i := by
      rw [hj]
      exact h i job hjob
    exact h.put hid rfl

theorem Named.enqueues (h : q.Named) {q' : InMemoryJobQueue P R E} (hturn : Enqueues q jobId q') :
    q'.Named := by
  cases hturn with
  | refused => exact h
  | accepted job idempotencyMap hroom hid hs ha hm => exact h.put hid rfl

theorem Named.run (h : q.Named) (ops : List (Op P R E)) : (q.run ops).Named := by
  induction ops generalizing q with
  | nil => exact h
  | cons op ops ih =>
    exact ih (step_keeps Named q op (fun hturn hq => hq.settles hturn)
      (fun hturn hq => hq.leases hturn) (fun _ _ _ hturn => h.enqueues hturn) h)

/-- The job has a record, and the principal is its owner. -/
def OwnedBy (q : InMemoryJobQueue P R E) (principalId jobId : String) : Prop :=
  ∃ job, q.jobs.get jobId = some job ∧ job.principalId = principalId

theorem OwnedBy.put {principalId : String} (h : q.OwnedBy principalId jobId)
    {q' : InMemoryJobQueue P R E} {i : String} {job job' : Job P R E}
    (hjob : q.jobs.get i = some job) (howner : job'.principalId = job.principalId)
    (hjobs : q'.jobs = q.jobs.set i job') : q'.OwnedBy principalId jobId := by
  obtain ⟨own, hown, hp⟩ := h
  by_cases hi : jobId = i
  · subst hi
    obtain rfl : job = own := Option.some.inj (hjob.symm.trans hown)
    exact ⟨job', by rw [hjobs, InsertionMap.get_set_self], howner.trans hp⟩
  · exact ⟨own, by rw [hjobs, InsertionMap.get_set_ne _ _ hi, hown], hp⟩

theorem OwnedBy.settles {principalId : String} (h : q.OwnedBy principalId jobId)
    {q' : InMemoryJobQueue P R E} (hturn : Settles q q') : q'.OwnedBy principalId jobId := by
  cases hturn with
  | released i job job' e hjob hl hr => exact h.put hjob hr.same_owner rfl
  | lapsed i hjob => exact h
  | prolonged i lease expiresAt updatedAt hl =>
    cases hjob : q.jobs.get i with
    | none =>
      have hjobs : touch q.jobs i updatedAt = q.jobs := by simp [touch, hjob]
      simpa only [OwnedBy, emit, hjobs] using h
    | some job =>
      have hjobs : touch q.jobs i updatedAt = q.jobs.set i { job with updatedAt := updatedAt } := by
        simp [touch, hjob]
      have howner : ({ job with updatedAt := updatedAt } : Job P R E).principalId =
        job.principalId := rfl
      exact h.put hjob howner hjobs
  | cancelled i job job' error updatedAt hjob hs hj =>
    have howner : job'.principalId = job.principalId := by rw [hj]
    exact h.put hjob howner rfl

/-- A call that submits no job under the id leaves the job with its owner. -/
theorem OwnedBy.step {principalId : String} (h : q.OwnedBy principalId jobId) (op : Op P R E)
    (hfresh : ∀ i, op.newId = some i → q.jobs.get i = none) :
    (q.step op).1.OwnedBy principalId jobId := by
  apply step_keeps (fun q => q.OwnedBy principalId jobId) q op
  · exact fun hturn hq => hq.settles hturn
  · intro q₁ q₂ token answer hturn hq
    cases hturn with
    | idle => exact hq
    | dropped i rest hw hjob => exact hq
    | leased i rest job job' lease updatedAt hw hjob hs hfree ht hj =>
      have howner : job'.principalId = job.principalId := by rw [hj]
      exact hq.put hjob howner rfl
  · intro i q' hid hturn
    obtain ⟨job, hjob, hp⟩ := h
    have hne : jobId ≠ i := by
      rintro rfl
      rw [hfresh jobId hid] at hjob
      cases hjob
    exact ⟨job, enqueues_other hturn hne hjob, hp⟩
  · exact h

/-- The id that a lease at this time would hand out. -/
def nextJob (q : InMemoryJobQueue P R E) (clock : Clock) : Option String :=
  let q := q.reclaimStaleLeases clock
  if q.settings.maxRunningJobs ≤ q.getActiveLeaseCount then none else q.waitingQueue.head?

/-- What comes of a lease: nothing, a waiting id that is no queued job's is dropped, or the first
job is handed out. -/
inductive Leased (q : InMemoryJobQueue P R E) (token : String) (clock : Clock) :
    InMemoryJobQueue P R E → Option (Job P R E × String × ℤ) → Prop where
  | nothing (q' : InMemoryJobQueue P R E)
      (hjobs : q'.jobs = (q.reclaimStaleLeases clock).jobs)
      (hnext : ∀ jobId job, q.nextJob clock = some jobId →
        (q.reclaimStaleLeases clock).jobs.get jobId = some job → job.state ≠ .queued) :
      Leased q token clock q' none
  | handed (q' : InMemoryJobQueue P R E) (jobId : String) (job job' : Job P R E) (lease : Lease)
      (hnext : q.nextJob clock = some jobId)
      (hjob : (q.reclaimStaleLeases clock).jobs.get jobId = some job) (hs : job.state = .queued)
      (hj : ∃ updatedAt, job' = { job with
        state := .running, attempts := job.attempts + 1, updatedAt := updatedAt })
      (hjobs : q'.jobs = (q.reclaimStaleLeases clock).jobs.set jobId job')
      (hlease : q'.leases.get jobId = some lease) (ht : lease.token = token) :
      Leased q token clock q' (some (job', token, lease.expiresAt))

theorem leaseNextJob_leased (q : InMemoryJobQueue P R E) (workerId : String)
    (leaseDurationMs : Option ℤ) (token : String) (clock : Clock) :
    Leased q token clock (q.leaseNextJob workerId leaseDurationMs token clock).1
      (q.leaseNextJob workerId leaseDurationMs token clock).2 := by
  unfold leaseNextJob leaseWaiting
  by_cases hfull : (q.reclaimStaleLeases clock).settings.maxRunningJobs ≤
      (q.reclaimStaleLeases clock).getActiveLeaseCount
  · simp only [if_pos hfull]
    exact .nothing _ rfl (by simp [nextJob, hfull])
  rw [if_neg hfull]
  cases hw : (q.reclaimStaleLeases clock).waitingQueue with
  | nil => exact .nothing _ rfl (by simp [nextJob, hfull, hw])
  | cons jobId rest =>
    have hnext : q.nextJob clock = some jobId := by simp [nextJob, hfull, hw]
    cases hjob : (q.reclaimStaleLeases clock).jobs.get jobId with
    | none =>
      simp only [hjob]
      refine .nothing _ rfl fun i job hi hget => ?_
      obtain rfl : jobId = i := Option.some.inj (hnext.symm.trans hi)
      simp [hjob] at hget
    | some job =>
      by_cases hs : job.state = .queued
      · simp only [hjob, hs, ne_eq, not_true_eq_false, if_false]
        exact .handed _ jobId job _ ⟨token, workerId, _, _⟩ hnext hjob hs ⟨_, rfl⟩ rfl
          (InsertionMap.get_set_self _ _ _) rfl
      · simp only [hjob, hs, ne_eq, not_false_eq_true, if_true]
        refine .nothing _ rfl fun i job' hi hget => ?_
        obtain rfl : jobId = i := Option.some.inj (hnext.symm.trans hi)
        obtain rfl : job = job' := Option.some.inj (hjob.symm.trans hget)
        exact hs

/-- A record that is not running is not touched by a reclaim. -/
theorem reclaimStaleLeases_get_of_ne {job : Job P R E} (hjob : q.jobs.get jobId = some job)
    (hs : job.state ≠ .running) (clock : Clock) :
    (q.reclaimStaleLeases clock).jobs.get jobId = some job := by
  rw [reclaimStaleLeases_get, hjob]
  cases q.leases.get jobId with
  | none => rfl
  | some lease => simp [Lease.reclaim, Lease.Stale, hs]

end InMemoryJobQueue
end
end LuaRecovery.Queue
