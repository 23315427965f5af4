import LuaRecovery.Gateway.Saturation

/-!
# The source of a finished job

The gateway purges the source of a job that it runs or cancels. A job that the
queue ends by itself, in a reclaim, and a job that is failed for want of a slot
keep theirs.
-/

set_option autoImplicit false

namespace LuaRecovery.Gateway
open LuaRecovery.Lib LuaRecovery.Queue

section
variable {Report Fault : Type}

namespace RecoveryGateway

def gatewaySystem (Fault : Type) (stringify : Report → CodeUnits) (limits : RateLimiterOptions)
    (options : Options) (retentionMs : ℤ) :
    System (RecoveryGateway Report Fault) (GatewayEvent Report Fault) where
  start := create limits options retentionMs
  step g e := some (g.handle stringify e)

/-- No job that is over in the queue has its source in the store. -/
def PurgedFor (q : GatewayQueue Report Fault) (s : LocalArtifactStore Report) : Prop :=
  ∀ jobId job, q.jobs.get jobId = some job → job.state.Terminal → s.sourceOf jobId = none

def FinishedPurged (g : RecoveryGateway Report Fault) : Prop := PurgedFor g.queue g.artifactStore

/-- A reclaim at this time gives the job up. -/
def TimesOut (q : GatewayQueue Report Fault) (clock : Clock) (jobId : String) : Prop :=
  ∃ job lease, q.jobs.get jobId = some job ∧ q.leases.get jobId = some lease ∧
    lease.Stale clock job ∧ job.maxRetries ≤ job.attempts

/-- The poll leases the job for its last attempt, and its principal has no slot left. -/
def RefusedForGood (g : RecoveryGateway Report Fault) (p : Poll Report Fault) (jobId : String) :
    Prop :=
  ∃ job, g.queue.nextJob p.draws.leaseClock = some jobId ∧
    (g.queue.reclaimStaleLeases p.draws.leaseClock).jobs.get jobId = some job ∧
    job.state = .queued ∧ Saturated job.principalId g ∧ job.maxRetries ≤ job.attempts + 1

/-- No job is given up with its source in the store. -/
def ReclaimsPurged (g : RecoveryGateway Report Fault) (clock : Clock) : Prop :=
  ∀ jobId, TimesOut g.queue clock jobId → g.artifactStore.sourceOf jobId = none

/-- The event ends no job with its source in the store. -/
def EndsPurged (g : RecoveryGateway Report Fault) : GatewayEvent Report Fault → Prop
  | .turn (.poll p) => ReclaimsPurged g p.draws.leaseClock ∧
      ∀ jobId, RefusedForGood g p jobId → g.artifactStore.sourceOf jobId = none
  | .readiness clock => ReclaimsPurged g clock
  | .lease _ _ _ clock => ReclaimsPurged g clock
  | _ => True

section
variable {g : RecoveryGateway Report Fault} {q : GatewayQueue Report Fault}
  {s : LocalArtifactStore Report} {clock : Clock} {jobId : String}

theorem reclaimed_timedOut (h : TimesOut g.queue clock jobId) :
    ∃ job, (g.queue.reclaimStaleLeases clock).jobs.get jobId = some job ∧
      job.state = .timedOut := by
  obtain ⟨job, lease, hjob, hlease, hstale, hspent⟩ := h
  rw [InMemoryJobQueue.reclaimStaleLeases_get, hlease, hjob]
  refine ⟨_, rfl, ?_⟩
  simp [Lease.reclaim, hstale, not_lt.mpr hspent]

/-- A job that is over after a reclaim was over before, or it is given up. -/
theorem reclaimed_terminal {job : GatewayJob Report Fault}
    (hjob : (g.queue.reclaimStaleLeases clock).jobs.get jobId = some job)
    (hs : job.state.Terminal) :
    g.queue.jobs.get jobId = some job ∨ TimesOut g.queue clock jobId := by
  rw [InMemoryJobQueue.reclaimStaleLeases_get] at hjob
  cases hlease : g.queue.leases.get jobId with
  | none =>
    rw [hlease] at hjob
    exact .inl hjob
  | some lease =>
    rw [hlease] at hjob
    obtain ⟨old, hold, rfl⟩ := Option.map_eq_some_iff.mp hjob
    by_cases hstale : lease.Stale clock old
    · by_cases hspare : (old.attempts : ℤ) < old.maxRetries
      · simp only [Lease.reclaim, if_pos hstale, if_pos hspare] at hs
        exact absurd hs (by decide)
      · exact .inr ⟨old, lease, hold, hlease, hstale, not_lt.mp hspare⟩
    · rw [Lease.reclaim, if_neg hstale]
      exact .inl hold

theorem reclaim_purged_iff (h : FinishedPurged g) (clock : Clock) :
    PurgedFor (g.queue.reclaimStaleLeases clock) g.artifactStore ↔ ReclaimsPurged g clock := by
  constructor
  · intro hpurged jobId hout
    obtain ⟨job, hjob, hs⟩ := reclaimed_timedOut hout
    exact hpurged jobId job hjob (by rw [hs]; decide)
  · intro hpurged jobId job hjob hs
    rcases reclaimed_terminal hjob hs with hold | hout
    · exact h jobId job hold hs
    · exact hpurged jobId hout

theorem purgedFor_of_jobs {q' : GatewayQueue Report Fault} (hjobs : q'.jobs = q.jobs) :
    PurgedFor q' s ↔ PurgedFor q s := by
  unfold PurgedFor
  rw [hjobs]

theorem PurgedFor.put {q q' : GatewayQueue Report Fault} {s s' : LocalArtifactStore Report}
    (h : PurgedFor q s) (jobId : String) (hjobs : ∀ i, i ≠ jobId → q'.jobs.get i = q.jobs.get i)
    (hsource : ∀ i, i ≠ jobId → s'.sourceOf i = s.sourceOf i)
    (hself : ∀ job, q'.jobs.get jobId = some job → job.state.Terminal →
      s'.sourceOf jobId = none) : PurgedFor q' s' := by
  intro i job hjob hs
  by_cases hi : i = jobId
  · subst hi
    exact hself job hjob hs
  · rw [hsource i hi]
    exact h i job (by rw [← hjobs i hi, hjob]) hs

/-- The record of a job that is not over is written anew. -/
theorem purgedFor_put {q q' : GatewayQueue Report Fault} {s s' : LocalArtifactStore Report}
    (hlive : ∀ job, q.jobs.get jobId = some job → ¬ job.state.Terminal)
    (hjobs : ∀ i, i ≠ jobId → q'.jobs.get i = q.jobs.get i)
    (hsource : ∀ i, i ≠ jobId → s'.sourceOf i = s.sourceOf i) :
    PurgedFor q' s' ↔ PurgedFor q s ∧
      ∀ job, q'.jobs.get jobId = some job → job.state.Terminal → s'.sourceOf jobId = none := by
  constructor
  · intro h
    refine ⟨fun i job hjob hs => ?_, fun job => h jobId job⟩
    have hi : i ≠ jobId := by
      rintro rfl
      exact hlive job hjob hs
    rw [← hsource i hi]
    exact h i job (by rw [hjobs i hi, hjob]) hs
  · rintro ⟨h, hself⟩
    exact h.put jobId hjobs hsource hself

theorem enqueueJob_purged (h : FinishedPurged g) (request : JobRequest) (principalId : String)
    (source : CodeUnits) (draws : SubmitDraws) :
    FinishedPurged (g.enqueueJob request principalId source draws).1 := by
  have hjobs := g.queue.enqueue_jobs ⟨some (JobRequest.jobId draws), request.idempotencyKey,
    some principalId, request.payload (JobRequest.jobId draws) source⟩ "" draws.clock
  unfold enqueueJob
  dsimp only
  split
  next hq =>
    rw [hq] at hjobs
    obtain rfl := hjobs
    exact h
  next hq =>
    rw [hq] at hjobs
    obtain rfl := hjobs
    exact h
  next q job hq =>
    rw [hq] at hjobs
    obtain ⟨hs, hset⟩ := hjobs
    refine h.put job.jobId (fun i hi => ?_) (fun i hi => ?_) fun job' hjob' hs' => ?_
    · rw [hset]
      exact InsertionMap.get_set_ne _ _ hi
    · rw [LocalArtifactStore.sourceOf_initJobArtifacts, if_neg hi]
    · rw [hset, InsertionMap.get_set_self] at hjob'
      obtain rfl := Option.some.inj hjob'
      rw [hs] at hs'
      exact absurd hs' (by decide)

theorem submit_purged (h : FinishedPurged g) (c : SubmitCall) :
    FinishedPurged (g.submit c).1 := by
  unfold submit submitJobSync
  split
  · exact h
  · exact h
  · split
    · exact enqueueJob_purged h _ _ _ _
    · dsimp only
      have hlimited : ∀ l, FinishedPurged { g with rateLimiter := l } := fun _ => h
      split
      · exact enqueueJob_purged (hlimited _) _ _ _ _
      · exact hlimited _

theorem cancelJob_purged (h : FinishedPurged g) (jobId principalId : String)
    (reason : Option String) (clock : Clock) :
    FinishedPurged (g.cancelJob jobId principalId reason clock).1 := by
  have hjobs := g.queue.cancelJob_jobs jobId reason clock
  unfold cancelJob
  split
  · exact h
  · split
    next q hq =>
      rw [hq] at hjobs
      refine h.put jobId hjobs (fun i hi => ?_) fun _ _ _ => ?_
      · rw [LocalArtifactStore.sourceOf_purgeSourceCode, if_neg hi]
      · rw [LocalArtifactStore.sourceOf_purgeSourceCode, if_pos rfl]
    next q hq =>
      rw [hq] at hjobs
      obtain rfl := hjobs
      exact h

theorem heartbeat_purged (h : FinishedPurged g) (jobId token : String) (extension : Option ℤ)
    (clock : Clock) :
    PurgedFor (g.queue.heartbeat jobId token extension clock).1 g.artifactStore := by
  intro i job' hjob' hs
  obtain ⟨job, hjob, hstate⟩ := InMemoryJobQueue.heartbeat_get hjob'
  exact h i job hjob (by rw [hstate]; exact hs)

/-- A lease that is handed out ends nothing by itself. -/
theorem leased_purged_iff {token : String} {q' : GatewayQueue Report Fault}
    {answer : Option (GatewayJob Report Fault × String × ℤ)}
    (hq : q.Leased token clock q' answer) :
    PurgedFor q' s ↔ PurgedFor (q.reclaimStaleLeases clock) s := by
  cases hq with
  | nothing hjobs hnext => exact purgedFor_of_jobs hjobs
  | handed jobId job job' lease hnext hjob hs hj hjobs hlease ht =>
    obtain ⟨updatedAt, hj⟩ := hj
    have hlive : ∀ old, (q.reclaimStaleLeases clock).jobs.get jobId = some old →
        ¬ old.state.Terminal := by
      intro old hold
      obtain rfl : job = old := Option.some.inj (hjob.symm.trans hold)
      rw [hs]
      decide
    rw [purgedFor_put hlive (fun i hi => by rw [hjobs, InsertionMap.get_set_ne _ _ hi])
      (fun _ _ => rfl)]
    refine and_iff_left fun new hnew hterminal => ?_
    rw [hjobs, InsertionMap.get_set_self] at hnew
    have hrun : job'.state = .running := by rw [hj]
    rw [← Option.some.inj hnew, hrun] at hterminal
    exact absurd hterminal (by decide)

theorem poll_purged_iff (stringify : Report → CodeUnits) (hn : g.queue.Named)
    (h : FinishedPurged g) (p : Poll Report Fault) :
    FinishedPurged (g.poll stringify p) ↔ EndsPurged g (.turn (.poll p)) := by
  have hreclaimed : (g.queue.reclaimStaleLeases p.draws.leaseClock).Named :=
    hn.run [.getStats p.draws.leaseClock]
  have hpoll := poll_polls stringify g p
  generalize g.poll stringify p = g' at hpoll ⊢
  rw [EndsPurged, ← reclaim_purged_iff h]
  cases hpoll with
  | idle q hq =>
    cases hq with
    | nothing hjobs hnext =>
      rw [FinishedPurged, purgedFor_of_jobs hjobs]
      refine (and_iff_left fun jobId hrefused => ?_).symm
      obtain ⟨job, hi, hjob, hs, -⟩ := hrefused
      exact absurd hs (hnext jobId job hi hjob)
  | refused q job' token expiresAt error hq hfull =>
    rw [← leased_purged_iff hq]
    cases hq with
    | handed jobId job job' lease hnext hjob hs hj hjobs hlease ht =>
      obtain ⟨updatedAt, hj⟩ := hj
      have hid : job'.jobId = jobId := by
        rw [hj]
        exact hreclaimed jobId job hjob
      have hget : q.jobs.get jobId = some job' := by
        rw [hjobs]
        exact InsertionMap.get_set_self _ _ _
      have hlive : ∀ old, q.jobs.get jobId = some old → ¬ old.state.Terminal := by
        intro old hold
        have hrun : job'.state = .running := by rw [hj]
        obtain rfl : job' = old := Option.some.inj (hget.symm.trans hold)
        rw [hrun]
        decide
      obtain ⟨failed, hfailed, hattempts, -, hstate⟩ :=
        InMemoryJobQueue.failJob_get_self hlease ht hget error p.draws.clock
      rw [hid, FinishedPurged, purgedFor_put hlive
        (fun i hi => InMemoryJobQueue.failJob_get_ne hi _ error p.draws.clock) (fun _ _ => rfl)]
      apply and_congr_right
      intro _
      -- the job is over exactly when this was its last attempt
      have hover : failed.state.Terminal ↔ job.maxRetries ≤ job.attempts + 1 := by
        rw [hstate, hj]
        push_cast
        split
        next hlt => exact iff_of_false (by decide) (not_le.mpr hlt)
        next hge => exact iff_of_true (by decide) (not_lt.mp hge)
      have hprincipal : Saturated job.principalId g := by
        have hsame : job'.principalId = job.principalId := by rw [hj]
        rw [Saturated, ← hsame]
        exact hfull
      constructor
      · rintro hpurged i ⟨other, hi, hother, -, -, hspent⟩
        obtain rfl : jobId = i := Option.some.inj (hnext.symm.trans hi)
        obtain rfl : job = other := Option.some.inj (hjob.symm.trans hother)
        exact hpurged failed hfailed (hover.mpr hspent)
      · intro hpurged new hnew hterminal
        obtain rfl : failed = new := Option.some.inj (hfailed.symm.trans hnew)
        exact hpurged jobId ⟨job, hnext, hjob, hs, hprincipal, hover.mp hterminal⟩
  | served q job' token expiresAt g' hq hfree hstay hsource =>
    rw [← leased_purged_iff hq]
    cases hq with
    | handed jobId job job' lease hnext hjob hs hj hjobs hlease ht =>
      obtain ⟨updatedAt, hj⟩ := hj
      have hid : job'.jobId = jobId := by
        rw [hj]
        exact hreclaimed jobId job hjob
      have hlive : ∀ old, q.jobs.get jobId = some old → ¬ old.state.Terminal := by
        intro old hold
        have hrun : job'.state = .running := by rw [hj]
        rw [hjobs, InsertionMap.get_set_self] at hold
        rw [← Option.some.inj hold, hrun]
        decide
      rw [hid] at hstay hsource
      have hothers : ∀ i, i ≠ jobId →
          g'.artifactStore.sourceOf i = g.artifactStore.sourceOf i := by
        intro i hi
        rw [hsource, if_neg hi]
      rw [FinishedPurged, purgedFor_put hlive hstay hothers]
      apply and_congr_right
      intro _
      refine iff_of_true (fun _ _ _ => by rw [hsource, if_pos rfl]) ?_
      rintro i ⟨other, hi, hother, -, hsat, -⟩
      obtain rfl : jobId = i := Option.some.inj (hnext.symm.trans hi)
      obtain rfl : job = other := Option.some.inj (hjob.symm.trans hother)
      have hsame : job'.principalId = job.principalId := by rw [hj]
      rw [hsame] at hfree
      exact absurd hsat (Nat.not_le.mpr hfree)

theorem handle_purged_iff (stringify : Report → CodeUnits) (hn : g.queue.Named)
    (h : FinishedPurged g) (e : GatewayEvent Report Fault) :
    FinishedPurged (g.handle stringify e) ↔ EndsPurged g e := by
  cases e with
  | submit call => exact iff_of_true (submit_purged h call) trivial
  | turn t =>
    cases t with
    | poll p => exact poll_purged_iff stringify hn h p
    | acquire principalId => exact iff_of_true h trivial
    | release principalId => exact iff_of_true h trivial
  | cancel jobId principalId reason clock =>
    exact iff_of_true (cancelJob_purged h jobId principalId reason clock) trivial
  | readiness clock => exact reclaim_purged_iff h clock
  | lease workerId duration token clock =>
    have hleased := g.queue.leaseNextJob_leased workerId duration token clock
    exact (leased_purged_iff hleased).trans (reclaim_purged_iff h clock)
  | heartbeat jobId token extension clock =>
    exact iff_of_true (heartbeat_purged h jobId token extension clock) trivial

end

/-- In every state of a run no finished job has its source in the store, exactly when in each step
the jobs that a reclaim gives up, and the job that is refused its slot for the last time, have
lost theirs before. -/
theorem finished_jobs_purged_iff (stringify : Report → CodeUnits) (limits : RateLimiterOptions)
    (options : Options) (retentionMs : ℤ) (events : List (GatewayEvent Report Fault)) :
    (gatewaySystem Fault stringify limits options retentionMs).Always FinishedPurged events ↔
      (gatewaySystem Fault stringify limits options retentionMs).Meets EndsPurged events := by
  have hnamed : (gatewaySystem Fault stringify limits options retentionMs).AlwaysFrom
      (fun g => g.queue.Named) (create limits options retentionMs) events := by
    apply System.always_of_kept
    · rintro g e g' hn hs
      cases hs
      exact (handle_reaches stringify g e).named hn
    · exact InMemoryJobQueue.named_create options
  have hstart : FinishedPurged (create limits options retentionMs : RecoveryGateway Report Fault) :=
    fun _ _ hget => by cases hget
  refine System.always_iff_meets_of ?_ hnamed hstart
  rintro g e g' hn h hs
  cases hs
  exact handle_purged_iff stringify hn h e

/-- A worker leases the job twice and does not come back. -/
def abandonedJob : List (GatewayEvent Unit Unit) :=
  [.submit (submission "alice" "k" "1"), .lease "worker-2" none "first" ⟨1, 1⟩,
    .lease "worker-2" none "second" ⟨30002, 30002⟩, .readiness ⟨60003, 60003⟩]

/-- The principal of the job holds both slots at each poll. -/
def refusedJob : List (GatewayEvent Unit Unit) :=
  [.submit (submission "alice" "k" "1"), .turn (.acquire "alice"), .turn (.acquire "alice"),
    .turn (pollAt 1), .turn (pollAt 2)]

def plainGateway : System (RecoveryGateway Unit Unit) (GatewayEvent Unit Unit) :=
  gatewaySystem Unit noText plainLimits plainQueue 1000

theorem kept_source {events : List (GatewayEvent Unit Unit)} {g : RecoveryGateway Unit Unit}
    (hrun : plainGateway.run events = some g) {job : GatewayJob Unit Unit} {source : CodeUnits}
    (hjob : g.queue.jobs.get "job-1" = some job) (hs : job.state.Terminal)
    (hsource : g.artifactStore.sourceOf "job-1" = some source) :
    ¬ plainGateway.Always FinishedPurged events := by
  intro h
  have hnone : g.artifactStore.sourceOf "job-1" = none := h.last hrun "job-1" job hjob hs
  rw [hsource] at hnone
  cases hnone

/-- The job that is given up and the job that is refused keep their source for good. -/
theorem finished_jobs_keep_source :
    ¬ plainGateway.Always FinishedPurged abandonedJob ∧
      ¬ plainGateway.Always FinishedPurged refusedJob := by
  constructor
  · exact kept_source rfl rfl (by decide) rfl
  · exact kept_source rfl rfl (by decide) rfl

end RecoveryGateway
end
end LuaRecovery.Gateway
