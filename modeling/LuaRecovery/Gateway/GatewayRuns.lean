import LuaRecovery.Gateway.SubmissionIsolation
import LuaRecovery.Queue.RecordEffects

/-!
# Runs of the gateway

Submissions, polls of the gateway's workers, cancellations and readiness probes
are mixed with what others do: the limiter's slots are taken and given back, and
other workers of the queue lease jobs, which they keep up or abandon. The
gateway reaches its queue by the queue's own calls only.
-/

set_option autoImplicit false

namespace LuaRecovery.Gateway
open LuaRecovery.Lib LuaRecovery.Queue

section
variable {Report Fault : Type}

structure Poll (Report Fault : Type) where
  workerId : String
  draws : ProcessDraws
  runner : Payload → Except String (WorkerResponse Report Fault)

/-- Work of the gateway, between which the holders of the limiter's slots change. -/
inductive Turn (Report Fault : Type) where
  | poll (poll : Poll Report Fault)
  | acquire (principalId : String)
  | release (principalId : String)

inductive GatewayEvent (Report Fault : Type) where
  | submit (call : SubmitCall)
  | turn (turn : Turn Report Fault)
  | cancel (jobId principalId : String) (reason : Option String) (clock : Clock)
  | readiness (clock : Clock)
  | lease (workerId : String) (leaseDurationMs : Option ℤ) (leaseToken : String) (clock : Clock)
  | heartbeat (jobId leaseToken : String) (extensionMs : Option ℤ) (clock : Clock)

abbrev GatewayOp (Report Fault : Type) :=
  Op Payload (WorkerResponse Report Fault) (FailureCause Fault)

namespace RecoveryGateway

/-- The queue's part of the readiness probe. -/
def getReadiness (g : RecoveryGateway Report Fault) (clock : Clock) :
    RecoveryGateway Report Fault :=
  { g with queue := (g.queue.getStats clock).1 }

def poll (stringify : Report → CodeUnits) (g : RecoveryGateway Report Fault)
    (p : Poll Report Fault) : RecoveryGateway Report Fault :=
  (g.processNextJobSync stringify p.workerId p.draws p.runner).1

def turn (stringify : Report → CodeUnits) (g : RecoveryGateway Report Fault) :
    Turn Report Fault → RecoveryGateway Report Fault
  | .poll p => g.poll stringify p
  | .acquire principalId =>
      { g with rateLimiter := (g.rateLimiter.acquireConcurrency principalId).1 }
  | .release principalId =>
      { g with rateLimiter := g.rateLimiter.releaseConcurrency principalId }

def handle (stringify : Report → CodeUnits) (g : RecoveryGateway Report Fault) :
    GatewayEvent Report Fault → RecoveryGateway Report Fault
  | .submit call => (g.submit call).1
  | .turn t => g.turn stringify t
  | .cancel jobId principalId reason clock => (g.cancelJob jobId principalId reason clock).1
  | .readiness clock => g.getReadiness clock
  | .lease workerId duration token clock =>
      { g with queue := (g.queue.leaseNextJob workerId duration token clock).1 }
  | .heartbeat jobId token extension clock =>
      { g with queue := (g.queue.heartbeat jobId token extension clock).1 }

/-- The queue is another one's after some of its calls. -/
def Reaches (q q' : GatewayQueue Report Fault) : Prop :=
  ∃ ops : List (GatewayOp Report Fault), q' = q.run ops

theorem Reaches.refl (q : GatewayQueue Report Fault) : Reaches q q := ⟨[], rfl⟩

theorem Reaches.trans {q q' q'' : GatewayQueue Report Fault} (h : Reaches q q')
    (h' : Reaches q' q'') : Reaches q q'' := by
  obtain ⟨ops, rfl⟩ := h
  obtain ⟨rest, rfl⟩ := h'
  exact ⟨ops ++ rest, (InMemoryJobQueue.run_append q ops rest).symm⟩

theorem Reaches.op {q q' : GatewayQueue Report Fault} (op : GatewayOp Report Fault)
    (h : (q.step op).1 = q') : Reaches q q' := ⟨[op], h.symm⟩

theorem enqueueJob_reaches (g : RecoveryGateway Report Fault) (request : JobRequest)
    (principalId : String) (source : CodeUnits) (draws : SubmitDraws) :
    Reaches g.queue (g.enqueueJob request principalId source draws).1.queue := by
  apply Reaches.op (.enqueue ⟨some (JobRequest.jobId draws), request.idempotencyKey,
    some principalId, request.payload (JobRequest.jobId draws) source⟩ "" draws.clock)
  unfold enqueueJob
  dsimp only
  split
  next hq =>
    rw [InMemoryJobQueue.step, hq]
    rfl
  next hq =>
    rw [InMemoryJobQueue.step, hq]
    rfl
  next hq =>
    rw [InMemoryJobQueue.step, hq]
    rfl

theorem submit_reaches (g : RecoveryGateway Report Fault) (c : SubmitCall) :
    Reaches g.queue (g.submit c).1.queue := by
  unfold submit submitJobSync
  split
  · exact .refl _
  · exact .refl _
  · split
    · exact enqueueJob_reaches g _ _ _ _
    · dsimp only
      split
      · exact enqueueJob_reaches { g with rateLimiter := _ } _ _ _ _
      · exact .refl _

theorem dispatchFailed_reaches (g : RecoveryGateway Report Fault) (job : GatewayJob Report Fault)
    (token message : String) (clock : Clock) :
    Reaches g.queue (g.dispatchFailed job token message clock).queue :=
  .op (.failJob job.jobId token (.coded "DISPATCH_ERROR" message) clock) rfl

theorem finishJob_reaches (g : RecoveryGateway Report Fault) (job : GatewayJob Report Fault)
    (token : String) (response : WorkerResponse Report Fault) (clock : Clock) :
    Reaches g.queue (g.finishJob job token response clock).queue := by
  by_cases hs : response.status = .completed
  · exact .op (.completeJob job.jobId token response clock) (by simp [finishJob, hs]; rfl)
  · exact .op (.failJob job.jobId token (.worker response.error) clock)
      (by simp [finishJob, hs]; rfl)

theorem runJob_reaches (stringify : Report → CodeUnits) (g : RecoveryGateway Report Fault)
    (job : GatewayJob Report Fault) (token : String) (clock : Clock)
    (outcome : Except String (WorkerResponse Report Fault)) :
    Reaches g.queue (g.runJob stringify job token clock outcome).1.queue := by
  unfold runJob
  cases outcome with
  | error message => exact dispatchFailed_reaches g job token message clock
  | ok response =>
    dsimp only
    split
    · exact dispatchFailed_reaches { g with artifactStore := _ } job token _ clock
    · exact finishJob_reaches { g with artifactStore := _ } job token response clock

theorem poll_reaches (stringify : Report → CodeUnits) (g : RecoveryGateway Report Fault)
    (p : Poll Report Fault) : Reaches g.queue (g.poll stringify p).queue := by
  have hlease : Reaches g.queue
      (g.queue.leaseNextJob p.workerId none p.draws.token p.draws.leaseClock).1 :=
    .op (.leaseNextJob p.workerId none p.draws.token p.draws.leaseClock) rfl
  unfold poll processNextJobSync
  split
  next q hq =>
    rw [hq] at hlease
    exact hlease
  next q job token expiresAt hq =>
    rw [hq] at hlease
    dsimp only
    split
    · exact hlease.trans (runJob_reaches stringify { g with queue := q, rateLimiter := _ } job token
        p.draws.clock (p.runner job.payload))
    · exact hlease.trans (.op (.failJob job.jobId token _ p.draws.clock) rfl)

theorem turn_reaches (stringify : Report → CodeUnits) (g : RecoveryGateway Report Fault)
    (t : Turn Report Fault) : Reaches g.queue (g.turn stringify t).queue := by
  cases t with
  | poll p => exact poll_reaches stringify g p
  | acquire principalId => exact .refl _
  | release principalId => exact .refl _

theorem cancelJob_reaches (g : RecoveryGateway Report Fault) (jobId principalId : String)
    (reason : Option String) (clock : Clock) :
    Reaches g.queue (g.cancelJob jobId principalId reason clock).1.queue := by
  unfold cancelJob
  split
  · exact .refl _
  · apply Reaches.op (.cancelJob jobId reason clock)
    split
    next hq =>
      rw [InMemoryJobQueue.step, hq]
      rfl
    next hq =>
      rw [InMemoryJobQueue.step, hq]
      rfl

theorem handle_reaches (stringify : Report → CodeUnits) (g : RecoveryGateway Report Fault)
    (e : GatewayEvent Report Fault) : Reaches g.queue (g.handle stringify e).queue := by
  cases e with
  | submit call => exact submit_reaches g call
  | turn t => exact turn_reaches stringify g t
  | cancel jobId principalId reason clock => exact cancelJob_reaches g jobId principalId reason clock
  | readiness clock => exact .op (.getStats clock) rfl
  | lease workerId duration token clock =>
    exact .op (.leaseNextJob workerId duration token clock) rfl
  | heartbeat jobId token extension clock =>
    exact .op (.heartbeat jobId token extension clock) rfl

theorem Reaches.named {q q' : GatewayQueue Report Fault} (h : Reaches q q') (hq : q.Named) :
    q'.Named := by
  obtain ⟨ops, rfl⟩ := h
  exact hq.run ops

theorem sourceOf_saveArtifacts (stringify : Report → CodeUnits) (s : LocalArtifactStore Report)
    (jobId : String) (response : WorkerResponse Report Fault) (i : String) :
    (saveArtifacts stringify s jobId response).1.sourceOf i = s.sourceOf i := by
  have hcode : (saveCode s jobId response.recoveredCode).1.sourceOf i = s.sourceOf i := by
    unfold saveCode
    split
    · rfl
    · exact s.sourceOf_saveRecoveredCode jobId i _
  unfold saveArtifacts
  split
  next hs =>
    rw [hs] at hcode
    exact hcode
  next hs =>
    rw [hs] at hcode
    split
    · exact hcode
    · exact (LocalArtifactStore.sourceOf_saveReport _ jobId i stringify _).trans hcode

/-- Running a job writes its own record only, and its source goes. -/
theorem runJob_effect (stringify : Report → CodeUnits) (g : RecoveryGateway Report Fault)
    (job : GatewayJob Report Fault) (token : String) (clock : Clock)
    (outcome : Except String (WorkerResponse Report Fault)) :
    let g' := (g.runJob stringify job token clock outcome).1
    (∀ i, i ≠ job.jobId → g'.queue.jobs.get i = g.queue.jobs.get i) ∧
      g'.rateLimiter = g.rateLimiter ∧
      ∀ i, g'.artifactStore.sourceOf i =
        if i = job.jobId then none else g.artifactStore.sourceOf i := by
  have hfailed : ∀ (g : RecoveryGateway Report Fault) message,
      let g' := g.dispatchFailed job token message clock
      (∀ i, i ≠ job.jobId → g'.queue.jobs.get i = g.queue.jobs.get i) ∧
        g'.rateLimiter = g.rateLimiter ∧
        ∀ i, g'.artifactStore.sourceOf i =
          if i = job.jobId then none else g.artifactStore.sourceOf i :=
    fun g message => ⟨fun i hi => InMemoryJobQueue.failJob_get_ne hi token _ clock, rfl,
      fun i => g.artifactStore.sourceOf_purgeSourceCode job.jobId i⟩
  unfold runJob
  cases outcome with
  | error message => exact hfailed g message
  | ok response =>
    have hsaved := sourceOf_saveArtifacts stringify g.artifactStore job.jobId response
    dsimp only
    split
    · obtain ⟨hjobs, hlimiter, hsource⟩ := hfailed { g with artifactStore := _ } _
      refine ⟨hjobs, hlimiter, fun i => (hsource i).trans ?_⟩
      rw [hsaved]
    · refine ⟨fun i hi => ?_, rfl, fun i => ?_⟩
      · unfold finishJob
        dsimp only
        split
        · exact InMemoryJobQueue.completeJob_get_ne hi token response clock
        · exact InMemoryJobQueue.failJob_get_ne hi token _ clock
      · rw [finishJob, LocalArtifactStore.sourceOf_purgeSourceCode, hsaved]

/-- A poll finds nothing, is refused a slot for the job that it leased, or runs the job. -/
inductive Polls (g : RecoveryGateway Report Fault) (p : Poll Report Fault) :
    RecoveryGateway Report Fault → Prop where
  | idle (q : GatewayQueue Report Fault)
      (hq : g.queue.Leased p.draws.token p.draws.leaseClock q none) :
      Polls g p { g with queue := q }
  | refused (q : GatewayQueue Report Fault) (job : GatewayJob Report Fault) (token : String)
      (expiresAt : ℤ) (error : FailureCause Fault)
      (hq : g.queue.Leased p.draws.token p.draws.leaseClock q (some (job, token, expiresAt)))
      (hfull : g.rateLimiter.maxConcurrent ≤ g.rateLimiter.active job.principalId) :
      Polls g p { g with queue := (q.failJob job.jobId token error p.draws.clock).1 }
  | served (q : GatewayQueue Report Fault) (job : GatewayJob Report Fault) (token : String)
      (expiresAt : ℤ) (g' : RecoveryGateway Report Fault)
      (hq : g.queue.Leased p.draws.token p.draws.leaseClock q (some (job, token, expiresAt)))
      (hfree : g.rateLimiter.active job.principalId < g.rateLimiter.maxConcurrent)
      (hjobs : ∀ i, i ≠ job.jobId → g'.queue.jobs.get i = q.jobs.get i)
      (hsource : ∀ i, g'.artifactStore.sourceOf i =
        if i = job.jobId then none else g.artifactStore.sourceOf i) :
      Polls g p g'

theorem poll_polls (stringify : Report → CodeUnits) (g : RecoveryGateway Report Fault)
    (p : Poll Report Fault) : Polls g p (g.poll stringify p) := by
  have hlease := g.queue.leaseNextJob_leased p.workerId none p.draws.token p.draws.leaseClock
  unfold poll processNextJobSync
  split
  next q hq =>
    rw [hq] at hlease
    exact .idle q hlease
  next q job token expiresAt hq =>
    rw [hq] at hlease
    by_cases hfull : g.rateLimiter.maxConcurrent ≤ g.rateLimiter.active job.principalId
    · simp only [RateLimiter.acquireConcurrency, if_pos hfull, Bool.false_eq_true, if_false]
      exact .refused q job token expiresAt _ hlease hfull
    · simp only [RateLimiter.acquireConcurrency, if_neg hfull, if_true]
      obtain ⟨hjobs, -, hsource⟩ := runJob_effect stringify
        { g with queue := q, rateLimiter := _ } job token p.draws.clock (p.runner job.payload)
      exact .served q job token expiresAt _ hlease (Nat.lt_of_not_le hfull) hjobs hsource

end RecoveryGateway
end
end LuaRecovery.Gateway
