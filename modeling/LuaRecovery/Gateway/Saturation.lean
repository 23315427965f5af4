import LuaRecovery.Gateway.GatewayRuns

/-!
# A principal that holds all its slots

A poll leases a job before it asks for a slot, and a job that gets none is
failed. So the jobs of a saturated principal wait unharmed as long as no poll
comes upon one of them.
-/

set_option autoImplicit false

namespace LuaRecovery.Gateway
open LuaRecovery.Lib LuaRecovery.Queue

section
variable {Report Fault : Type}

/-- An event of this gateway, or a call that another user of the queue makes. -/
inductive SharedEvent (Report Fault : Type) where
  | own (event : GatewayEvent Report Fault)
  | call (op : GatewayOp Report Fault)

namespace RecoveryGateway

def shared (Fault : Type) (stringify : Report → CodeUnits) (limits : RateLimiterOptions)
    (options : Options) (retentionMs : ℤ) :
    System (RecoveryGateway Report Fault) (SharedEvent Report Fault) where
  start := create limits options retentionMs
  step g
    | .own event => some (g.handle stringify event)
    | .call op => some { g with queue := (g.queue.step op).1 }

def turning (stringify : Report → CodeUnits) (g : RecoveryGateway Report Fault) :
    System (RecoveryGateway Report Fault) (Turn Report Fault) where
  start := g
  step h t := some (h.turn stringify t)

def Saturated (principalId : String) (g : RecoveryGateway Report Fault) : Prop :=
  g.rateLimiter.maxConcurrent ≤ g.rateLimiter.active principalId

/-- A queued job of the principal. -/
def Waiting (g : RecoveryGateway Report Fault) (principalId jobId : String)
    (job : GatewayJob Report Fault) : Prop :=
  g.queue.jobs.get jobId = some job ∧ job.principalId = principalId ∧ job.state = .queued

/-- What was waiting still is, with its attempts unchanged. -/
def KeepsWaiting (principalId : String) (g h : RecoveryGateway Report Fault) : Prop :=
  ∀ jobId job, g.Waiting principalId jobId job →
    ∃ job', h.Waiting principalId jobId job' ∧ job'.attempts = job.attempts

/-- The turn is a poll that comes upon one of the jobs that were waiting. -/
def Takes (principalId : String) (g h : RecoveryGateway Report Fault) :
    Turn Report Fault → Prop
  | .poll p =>
      ∃ jobId job, h.queue.nextJob p.draws.leaseClock = some jobId ∧
        g.Waiting principalId jobId job
  | .acquire _ => False
  | .release _ => False

section
variable {g h h' : RecoveryGateway Report Fault} {principalId : String}

theorem KeepsWaiting.refl (principalId : String) (g : RecoveryGateway Report Fault) :
    KeepsWaiting principalId g g := fun _ job hjob => ⟨job, hjob, rfl⟩

theorem Waiting.reclaimed {jobId : String} {job : GatewayJob Report Fault}
    (hjob : h.Waiting principalId jobId job) (clock : Clock) :
    (h.queue.reclaimStaleLeases clock).jobs.get jobId = some job := by
  have hrun : job.state ≠ .running := by
    rw [hjob.2.2]
    decide
  exact InMemoryJobQueue.reclaimStaleLeases_get_of_ne hjob.1 hrun clock

/-- Everything but one record is left as the reclaim leaves it. -/
theorem KeepsWaiting.other (hk : KeepsWaiting principalId g h) (jobId : String) (clock : Clock)
    (hjobs : ∀ i, i ≠ jobId →
      h'.queue.jobs.get i = (h.queue.reclaimStaleLeases clock).jobs.get i)
    (hother : ∀ job, ¬ g.Waiting principalId jobId job) : KeepsWaiting principalId g h' := by
  intro i job hjob
  obtain ⟨job', hjob', hattempts⟩ := hk i job hjob
  have hne : i ≠ jobId := by
    rintro rfl
    exact hother job hjob
  have hget := (hjobs i hne).trans (hjob'.reclaimed clock)
  exact ⟨job', ⟨hget, hjob'.2⟩, hattempts⟩

theorem poll_keeps_iff (stringify : Report → CodeUnits) (hn : h.queue.Named)
    (hsat : Saturated principalId h) (hk : KeepsWaiting principalId g h) (p : Poll Report Fault) :
    KeepsWaiting principalId g (h.poll stringify p) ↔ ¬ Takes principalId g h (.poll p) := by
  have hreclaimed : (h.queue.reclaimStaleLeases p.draws.leaseClock).Named :=
    hn.run [.getStats p.draws.leaseClock]
  -- of a job that the poll comes upon, the reclaimed queue has the record that was waiting
  have hfound : ∀ {jobId job found}, g.Waiting principalId jobId job →
      (h.queue.reclaimStaleLeases p.draws.leaseClock).jobs.get jobId = some found →
      found.state = .queued ∧ found.principalId = principalId ∧
        found.attempts = job.attempts := by
    intro jobId job found hjob hget
    obtain ⟨job', hjob', hattempts⟩ := hk jobId job hjob
    obtain rfl : job' = found := Option.some.inj ((hjob'.reclaimed _).symm.trans hget)
    exact ⟨hjob'.2.2, hjob'.2.1, hattempts⟩
  have hpoll := poll_polls stringify h p
  generalize h.poll stringify p = h' at hpoll ⊢
  cases hpoll with
  | idle q hq =>
    cases hq with
    | nothing hjobs hnext =>
      have htakes : ¬ Takes principalId g h (.poll p) := by
        rintro ⟨jobId, job, hi, hjob⟩
        obtain ⟨job', hjob', -⟩ := hk jobId job hjob
        exact hnext jobId job' hi (hjob'.reclaimed _) hjob'.2.2
      refine iff_of_true (fun i job hjob => ?_) htakes
      obtain ⟨job', hjob', hattempts⟩ := hk i job hjob
      have hget : q.jobs.get i = some job' := by
        rw [hjobs]
        exact hjob'.reclaimed _
      exact ⟨job', ⟨hget, hjob'.2⟩, hattempts⟩
  | refused q job' token expiresAt error hq hfull =>
    cases hq with
    | handed jobId job job' lease hnext hjob hs hj hjobs hlease ht =>
      obtain ⟨updatedAt, hj⟩ := hj
      have hid : job'.jobId = jobId := by
        rw [hj]
        exact hreclaimed jobId job hjob
      have hget : q.jobs.get jobId = some job' := by
        rw [hjobs]
        exact InsertionMap.get_set_self _ _ _
      rw [hid]
      constructor
      · rintro hkeeps ⟨i, old, hi, hold⟩
        obtain rfl : jobId = i := Option.some.inj (hnext.symm.trans hi)
        obtain ⟨-, -, hattempts⟩ := hfound hold hjob
        obtain ⟨after, hafter, hsame⟩ := hkeeps jobId old hold
        obtain ⟨failed, hfailed, hcount, -⟩ :=
          InMemoryJobQueue.failJob_get_self hlease ht hget error p.draws.clock
        obtain rfl : after = failed := Option.some.inj (hafter.1.symm.trans hfailed)
        have hmore : job'.attempts = job.attempts+1 := by rw [hj]
        omega
      · intro htakes
        refine hk.other jobId p.draws.leaseClock (fun i hi => ?_) fun old hold =>
          htakes ⟨_, old, hnext, hold⟩
        rw [InMemoryJobQueue.failJob_get_ne hi, hjobs]
        exact InsertionMap.get_set_ne _ _ hi
  | served q job' token expiresAt h' hq hfree hstay hsource =>
    cases hq with
    | handed jobId job job' lease hnext hjob hs hj hjobs hlease ht =>
      obtain ⟨updatedAt, hj⟩ := hj
      have hid : job'.jobId = jobId := by
        rw [hj]
        exact hreclaimed jobId job hjob
      have htakes : ¬ Takes principalId g h (.poll p) := by
        rintro ⟨i, old, hi, hold⟩
        obtain rfl : jobId = i := Option.some.inj (hnext.symm.trans hi)
        obtain ⟨-, hprincipal, -⟩ := hfound hold hjob
        have hp : job'.principalId = principalId := by
          rw [hj]
          exact hprincipal
        rw [hp] at hfree
        exact absurd hsat (Nat.not_le.mpr hfree)
      refine iff_of_true (hk.other jobId p.draws.leaseClock (fun i hi => ?_) fun old hold =>
        htakes ⟨_, old, hnext, hold⟩) htakes
      rw [hstay i (by rw [hid]; exact hi), hjobs]
      exact InsertionMap.get_set_ne _ _ hi

theorem turn_keeps_iff (stringify : Report → CodeUnits) (hn : h.queue.Named)
    (hsat : Saturated principalId h) (hk : KeepsWaiting principalId g h)
    (t : Turn Report Fault) :
    KeepsWaiting principalId g (h.turn stringify t) ↔ ¬ Takes principalId g h t := by
  cases t with
  | poll p => exact poll_keeps_iff stringify hn hsat hk p
  | acquire other => exact iff_of_true hk id
  | release other => exact iff_of_true hk id

end

theorem shared_named (stringify : Report → CodeUnits) (limits : RateLimiterOptions)
    (options : Options) (retentionMs : ℤ) {history : List (SharedEvent Report Fault)}
    {g : RecoveryGateway Report Fault}
    (hg : (shared Fault stringify limits options retentionMs).run history = some g) :
    g.queue.Named := by
  have hkept : (shared Fault stringify limits options retentionMs).AlwaysFrom
      (fun g => g.queue.Named) (create limits options retentionMs) history := by
    apply System.always_of_kept
    · rintro g e g' hn hs
      cases e with
      | own event =>
        cases hs
        exact (handle_reaches stringify g event).named hn
      | call op =>
        cases hs
        exact hn.run [op]
    · exact InMemoryJobQueue.named_create options
  exact hkept.last hg

/-- From any state of a shared gateway: while a principal holds all its slots, its waiting jobs go
on waiting with their attempts unchanged exactly when no poll comes upon one of them. -/
theorem saturated_jobs_wait_iff (stringify : Report → CodeUnits) (limits : RateLimiterOptions)
    (options : Options) (retentionMs : ℤ) (history : List (SharedEvent Report Fault))
    (g : RecoveryGateway Report Fault)
    (hg : (shared Fault stringify limits options retentionMs).run history = some g)
    (principalId : String) (turns : List (Turn Report Fault))
    (hsat : (turning stringify g).Always (Saturated principalId) turns) :
    (turning stringify g).Always (KeepsWaiting principalId g) turns ↔
      (turning stringify g).Meets (fun h t => ¬ Takes principalId g h t) turns := by
  have hnamed : (turning stringify g).AlwaysFrom (fun h => h.queue.Named) g turns := by
    apply System.always_of_kept
    · rintro h t h' hn hs
      cases hs
      exact (turn_reaches stringify h t).named hn
    · exact shared_named stringify limits options retentionMs hg
  refine System.always_iff_meets_of ?_ (hnamed.and hsat) (.refl principalId g)
  rintro h t h' ⟨hn, hs⟩ hk hstep
  cases hstep
  exact turn_keeps_iff stringify hn hs hk t

def noText (_ : Unit) : CodeUnits := []

/-- The principal's job is queued, and both of its slots are taken. -/
def saturatedBy (principalId : String) (others : List SubmitCall) :
    List (SharedEvent Unit Unit) :=
  others.map (fun c => .own (.submit c)) ++
    [.own (.submit (submission principalId "k" "1")), .own (.turn (.acquire principalId)),
      .own (.turn (.acquire principalId))]

def after (history : List (SharedEvent Unit Unit)) : RecoveryGateway Unit Unit :=
  ((shared Unit noText plainLimits plainQueue 1000).run history).getD
    (create plainLimits plainQueue 1000)

def pollAt (now : ℤ) : Turn Unit Unit :=
  .poll ⟨"worker-1", ⟨"token", ⟨now, now⟩, ⟨now, now⟩⟩, fun _ => .error "no container"⟩

/-- A job of another principal stands before the waiting one. -/
theorem saturated_job_waits :
    (turning noText (after (saturatedBy "alice" [submission "bob" "b" "2"]))).Always
      (KeepsWaiting "alice" (after (saturatedBy "alice" [submission "bob" "b" "2"])))
      [pollAt 1] := by
  have hsat : (turning noText (after (saturatedBy "alice" [submission "bob" "b" "2"]))).Always
      (Saturated "alice") [pollAt 1] := by
    refine ⟨(by decide : 2 ≤ 2), fun h hs => ?_⟩
    cases hs
    exact (by decide : 2 ≤ 2)
  refine (saturated_jobs_wait_iff noText plainLimits plainQueue 1000
    (saturatedBy "alice" [submission "bob" "b" "2"]) _ rfl "alice" [pollAt 1] hsat).mpr ?_
  refine (System.meetsFrom_cons rfl).mpr ⟨?_, trivial⟩
  rintro ⟨jobId, job, hnext, hget, hprincipal, -⟩
  obtain rfl : "job-2" = jobId := Option.some.inj hnext
  have hbob : some job.principalId = some "bob" :=
    congrArg (Option.map (fun job : GatewayJob Unit Unit => job.principalId)) hget.symm
  rw [hprincipal] at hbob
  exact absurd hbob (by decide)

/-- Two polls use up the attempts of a job that never runs. -/
theorem saturated_job_fails :
    (shared Unit noText plainLimits plainQueue 1000).run (saturatedBy "alice" []) =
        some (after (saturatedBy "alice" [])) ∧
      (turning noText (after (saturatedBy "alice" []))).Always (Saturated "alice")
        [pollAt 1, pollAt 2] ∧
      ¬ (turning noText (after (saturatedBy "alice" []))).Always
        (KeepsWaiting "alice" (after (saturatedBy "alice" []))) [pollAt 1, pollAt 2] ∧
      ((turning noText (after (saturatedBy "alice" []))).run [pollAt 1, pollAt 2]).map
        (fun h => (h.queue.jobs.get "job-1").map (fun job => job.state)) = some (some .failed) := by
  refine ⟨rfl, ⟨(by decide : 2 ≤ 2), fun h hs => ?_⟩, fun hkeeps => ?_, rfl⟩
  · cases hs
    refine ⟨(by decide : 2 ≤ 2), fun h hs => ?_⟩
    cases hs
    exact (by decide : 2 ≤ 2)
  · obtain ⟨job, ⟨hget, -⟩, hkept⟩ := (hkeeps.2 _ rfl).head "job-1" _ ⟨rfl, rfl, rfl⟩
    have hnone : job.attempts = 0 := hkept
    have hone : some job.attempts = some 1 :=
      congrArg (Option.map (fun job : GatewayJob Unit Unit => job.attempts)) hget.symm
    rw [hnone] at hone
    exact absurd hone (by decide)

end RecoveryGateway
end
end LuaRecovery.Gateway
