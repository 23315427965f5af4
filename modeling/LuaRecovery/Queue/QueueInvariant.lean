import LuaRecovery.Queue.QueueSteps

/-!
# The queue's structures agree with the job states

The waiting list holds the queued jobs, the leases belong to the running ones,
and a retry or a reclaim only moves a job between the two, so the bound on both
together survives although neither checks for backpressure.
-/

set_option autoImplicit false

namespace LuaRecovery.Queue
open LuaRecovery.Lib

section
variable {P R E : Type}

namespace InMemoryJobQueue

def HasState (q : InMemoryJobQueue P R E) (jobId : String) (s : JobState) : Prop :=
  ∃ job, q.jobs.get jobId = some job ∧ job.state = s

/-- How often a job may have been leased, and how often while it waits. -/
def WithinRetries (settings : Settings) (job : Job P R E) : Prop :=
  job.maxRetries = settings.maxRetries ∧ (job.attempts : ℤ) ≤ max 1 settings.maxRetries ∧
    (job.state = .queued → (job.attempts : ℤ) < max 1 settings.maxRetries)

structure Consistent (q : InMemoryJobQueue P R E) : Prop where
  nodup : q.waitingQueue.Nodup
  waiting : ∀ jobId, jobId ∈ q.waitingQueue ↔ q.HasState jobId .queued
  leased : ∀ jobId, jobId ∈ q.leases.keys ↔ q.HasState jobId .running
  retries : ∀ jobId job, q.jobs.get jobId = some job → WithinRetries q.settings job
  slots : q.leases.size ≤ q.settings.maxRunningJobs
  room : q.waitingQueue.length+q.leases.size ≤
    q.settings.maxQueueDepth+q.settings.maxRunningJobs

theorem consistent_create (options : Options) :
    (create options : InMemoryJobQueue P R E).Consistent where
  nodup := List.nodup_nil
  waiting := by simp [create, HasState]
  leased := by simp [create, HasState]
  retries := by simp [create]
  slots := Nat.zero_le _
  room := Nat.zero_le _

theorem hasState_of_get {q : InMemoryJobQueue P R E} {jobId : String} {job : Job P R E}
    (h : q.jobs.get jobId = some job) (s : JobState) : q.HasState jobId s ↔ job.state = s := by
  simp [HasState, h]

theorem hasState_set {q q' : InMemoryJobQueue P R E} {jobId : String} {job' : Job P R E}
    (hjobs : q'.jobs = q.jobs.set jobId job') (i : String) (s : JobState) :
    q'.HasState i s ↔ if i = jobId then job'.state = s else q.HasState i s := by
  by_cases h : i = jobId <;> simp [HasState, hjobs, InsertionMap.get_set, h]

/-- The queue is consistent again once one job's record, waiting place and lease agree. -/
theorem Consistent.put {q q' : InMemoryJobQueue P R E} (h : q.Consistent) (jobId : String)
    (job' : Job P R E) (hset : q'.settings = q.settings)
    (hjobs : q'.jobs = q.jobs.set jobId job') (hretries : WithinRetries q.settings job')
    (hnodup : q'.waitingQueue.Nodup)
    (hwaiting : ∀ i, i ∈ q'.waitingQueue ↔
      if i = jobId then job'.state = .queued else i ∈ q.waitingQueue)
    (hleased : ∀ i, i ∈ q'.leases.keys ↔
      if i = jobId then job'.state = .running else i ∈ q.leases.keys)
    (hslots : q'.leases.size ≤ q.settings.maxRunningJobs)
    (hroom : q'.waitingQueue.length+q'.leases.size ≤
      q.settings.maxQueueDepth+q.settings.maxRunningJobs) : q'.Consistent where
  nodup := hnodup
  waiting i := by rw [hwaiting, hasState_set hjobs, h.waiting]
  leased i := by rw [hleased, hasState_set hjobs, h.leased]
  retries i job hget := by
    rw [hset]
    rw [hjobs, InsertionMap.get_set] at hget
    by_cases hi : i = jobId
    · rw [if_pos hi, Option.some.injEq] at hget
      exact hget ▸ hretries
    · rw [if_neg hi] at hget
      exact h.retries i job hget
  slots := by rw [hset]; exact hslots
  room := by rw [hset]; exact hroom

namespace Consistent
variable {q : InMemoryJobQueue P R E} {jobId : String} {job : Job P R E}

theorem state_running (h : q.Consistent) (hjob : q.jobs.get jobId = some job)
    (hl : jobId ∈ q.leases.keys) : job.state = .running := by
  rwa [h.leased, hasState_of_get hjob] at hl

theorem mem_leases (h : q.Consistent) (hjob : q.jobs.get jobId = some job)
    (hs : job.state = .running) : jobId ∈ q.leases.keys := by
  rwa [h.leased, hasState_of_get hjob]

theorem notMem_waiting (h : q.Consistent) (hjob : q.jobs.get jobId = some job)
    (hs : job.state ≠ .queued) : jobId ∉ q.waitingQueue := by
  rwa [h.waiting, hasState_of_get hjob]

theorem released (h : q.Consistent) {job' : Job P R E} {e : Event P R E}
    (hjob : q.jobs.get jobId = some job) (hs : job.state = .running)
    (hr : Released jobId job job' e) :
    ({ q with
      jobs := q.jobs.set jobId job'
      leases := q.leases.delete jobId
      waitingQueue := q.waitingAfter jobId job' }.emit e).Consistent := by
  have hmem := h.mem_leases hjob hs
  have hnot := h.notMem_waiting hjob (by simp [hs])
  have hsize := q.leases.size_delete_of_mem hmem
  obtain ⟨-, hatt, hmax⟩ := hr.same_bounds
  obtain ⟨hbound, hle, -⟩ := h.retries jobId job hjob
  have hslots := h.slots
  have hroom := h.room
  refine h.put jobId job' rfl rfl ⟨hmax.trans hbound, by rw [hatt]; exact hle, ?_⟩ ?_ ?_ ?_ ?_ ?_
  · intro hq
    have hspare := hr.spare hq
    rw [hatt, ← hbound]
    exact lt_max_of_lt_right hspare
  · show (q.waitingAfter jobId job').Nodup
    unfold waitingAfter
    split
    next => exact List.nodup_cons.mpr ⟨hnot, h.nodup⟩
    next => exact h.nodup
  · intro i
    show i ∈ q.waitingAfter jobId job' ↔ _
    by_cases hi : i = jobId <;> by_cases hq : job'.state = .queued <;>
      simp [waitingAfter, hi, hq, hnot]
  · intro i
    show i ∈ (q.leases.delete jobId).keys ↔ _
    by_cases hi : i = jobId
    · simp [hi, InsertionMap.mem_keys_iff, InsertionMap.get_delete_self, hr.not_running]
    · simp [hi, InsertionMap.mem_keys_iff, InsertionMap.get_delete_ne q.leases hi]
  · show (q.leases.delete jobId).size ≤ _
    omega
  · show (q.waitingAfter jobId job').length+(q.leases.delete jobId).size ≤ _
    have hlen : (q.waitingAfter jobId job').length ≤ q.waitingQueue.length+1 := by
      unfold waitingAfter
      split <;> simp
    omega

theorem cancelled (h : q.Consistent) {job' : Job P R E} {e : Event P R E}
    (hjob : q.jobs.get jobId = some job) (hs' : job'.state = .cancelled)
    (hmax : job'.maxRetries = job.maxRetries) (hatt : job'.attempts = job.attempts) :
    ({ q with
      jobs := q.jobs.set jobId job'
      leases := q.leases.delete jobId
      waitingQueue := q.waitingQueue.filter (fun id => id ≠ jobId) }.emit e).Consistent := by
  have hsize := q.leases.size_delete_le jobId
  obtain ⟨hbound, hle, -⟩ := h.retries jobId job hjob
  have hslots := h.slots
  have hroom := h.room
  refine h.put jobId job' rfl rfl
    ⟨hmax.trans hbound, by rw [hatt]; exact hle, by simp [hs']⟩ (h.nodup.filter _) ?_ ?_ ?_ ?_
  · intro i
    show i ∈ q.waitingQueue.filter (fun id => id ≠ jobId) ↔ _
    by_cases hi : i = jobId <;> simp [hi, hs']
  · intro i
    show i ∈ (q.leases.delete jobId).keys ↔ _
    by_cases hi : i = jobId
    · simp [hi, InsertionMap.mem_keys_iff, InsertionMap.get_delete_self, hs']
    · simp [hi, InsertionMap.mem_keys_iff, InsertionMap.get_delete_ne q.leases hi]
  · show (q.leases.delete jobId).size ≤ _
    omega
  · show (q.waitingQueue.filter (fun id => id ≠ jobId)).length+(q.leases.delete jobId).size ≤ _
    have hlen := List.length_filter_le (fun id => decide (id ≠ jobId)) q.waitingQueue
    omega

theorem lapsed (h : q.Consistent)
    (hjob : ∀ job, q.jobs.get jobId = some job → job.state ≠ .running) :
    ({ q with leases := q.leases.delete jobId } : InMemoryJobQueue P R E).Consistent := by
  have hnot : jobId ∉ q.leases.keys := by
    rw [h.leased]
    rintro ⟨job, hget, hs⟩
    exact hjob job hget hs
  rw [InsertionMap.delete_of_notMem q.leases hnot]
  exact h

theorem prolonged (h : q.Consistent) {lease : Lease} {e : Event P R E} (lease' : Lease)
    (updatedAt : ℤ) (hl : q.leases.get jobId = some lease) :
    ({ q with
      jobs := touch q.jobs jobId updatedAt
      leases := q.leases.set jobId lease' }.emit e).Consistent := by
  have hmem : jobId ∈ q.leases.keys := (q.leases.mem_keys_iff jobId).mpr ⟨lease, hl⟩
  obtain ⟨job, hjob, hs⟩ := (h.leased jobId).mp hmem
  have hnot := h.notMem_waiting hjob (by simp [hs])
  have hkeys := q.leases.keys_set_of_mem lease' hmem
  have hsize := q.leases.size_set_of_mem lease' hmem
  obtain ⟨hbound, hle, -⟩ := h.retries jobId job hjob
  refine h.put jobId { job with updatedAt := updatedAt } rfl (by simp [emit, touch, hjob])
    ⟨hbound, hle, by simp [hs]⟩ h.nodup ?_ ?_ ?_ ?_
  · intro i
    by_cases hi : i = jobId <;> simp [emit, hi, hs, hnot]
  · intro i
    show i ∈ (q.leases.set jobId lease').keys ↔ _
    rw [hkeys]
    by_cases hi : i = jobId <;> simp [hi, hs, hmem]
  · show (q.leases.set jobId lease').size ≤ _
    rw [hsize]
    exact h.slots
  · show q.waitingQueue.length+(q.leases.set jobId lease').size ≤ _
    rw [hsize]
    exact h.room

theorem settles {q' : InMemoryJobQueue P R E} (hturn : Settles q q') (h : q.Consistent) :
    q'.Consistent := by
  cases hturn with
  | released jobId job job' e hjob hl hr =>
    have hs : job.state = .running := hl.elim (h.state_running hjob) id
    exact h.released hjob hs hr
  | lapsed jobId hjob => exact h.lapsed hjob
  | prolonged jobId lease expiresAt updatedAt hl => exact h.prolonged _ updatedAt hl
  | cancelled jobId job job' error updatedAt hjob hs hj =>
    exact h.cancelled hjob (by simp [hj]) (by simp [hj]) (by simp [hj])

theorem leases {q' : InMemoryJobQueue P R E} {token : String}
    {answer : Option (Job P R E × String × ℤ)} (hturn : Leases q token q' answer)
    (h : q.Consistent) : q'.Consistent := by
  cases hturn with
  | idle => exact h
  | dropped jobId rest hw hjob =>
    -- the first of the waiting jobs is queued
    obtain ⟨job, hget, hs⟩ := (h.waiting jobId).mp (by simp [hw])
    exact absurd hs (hjob job hget)
  | leased jobId rest job job' lease updatedAt hw hjob hs hfree ht hj =>
    have hnot : jobId ∉ q.leases.keys := by simp [h.leased, hasState_of_get hjob, hs]
    have hrun : job'.state = .running := by simp [hj]
    have hsize := q.leases.size_set_of_notMem lease hnot
    obtain ⟨hfirst, hrest⟩ := List.nodup_cons.mp (hw ▸ h.nodup)
    obtain ⟨hbound, -, hspare⟩ := h.retries jobId job hjob
    have hlt := hspare hs
    have hroom := h.room
    have hlen : q.waitingQueue.length = rest.length+1 := by simp [hw]
    refine h.put jobId job' rfl rfl ⟨by rw [hj]; exact hbound, ?_, by simp [hrun]⟩ hrest ?_ ?_ ?_ ?_
    · rw [hj]
      push_cast
      omega
    · intro i
      show i ∈ rest ↔ _
      by_cases hi : i = jobId
      · simp [hi, hfirst, hrun]
      · simp [hi, hw]
    · intro i
      simp only [emit, InsertionMap.keys_set_of_notMem q.leases _ hnot]
      by_cases hi : i = jobId <;> simp [hi, hrun]
    · show (q.leases.set jobId lease).size ≤ _
      omega
    · show rest.length+(q.leases.set jobId lease).size ≤ _
      omega

theorem enqueues {q' : InMemoryJobQueue P R E} (hturn : Enqueues q jobId q')
    (h : q.Consistent) (hfresh : q.jobs.get jobId = none) : q'.Consistent := by
  cases hturn with
  | refused => exact h
  | accepted job idempotencyMap hroom hid hs ha hm =>
    have hstate : ∀ s, ¬ q.HasState jobId s := by simp [HasState, hfresh]
    have hnot : jobId ∉ q.waitingQueue := by simp [h.waiting, hstate]
    have hfree : jobId ∉ q.leases.keys := by simp [h.leased, hstate]
    have hslots := h.slots
    refine h.put jobId job rfl rfl ⟨hm, by simp [ha], by simp [ha]⟩ ?_ ?_ ?_ h.slots ?_
    · simpa [emit] using h.nodup.concat hnot
    · intro i
      by_cases hi : i = jobId <;> simp [emit, hs, hi]
    · intro i
      by_cases hi : i = jobId <;> simp [emit, hs, hi, hfree]
    · simp only [emit, List.length_append, List.length_singleton]
      omega

end Consistent

/-- The calls that submit a job use an id that no job has yet. -/
def FreshIds (q : InMemoryJobQueue P R E) : List (Op P R E) → Prop
  | [] => True
  | op :: ops =>
      (∀ jobId, op.newId = some jobId → q.jobs.get jobId = none) ∧ FreshIds (q.step op).1 ops

theorem step_consistent {q : InMemoryJobQueue P R E} {op : Op P R E} (h : q.Consistent)
    (hfresh : ∀ jobId, op.newId = some jobId → q.jobs.get jobId = none) :
    (q.step op).1.Consistent :=
  step_keeps Consistent q op Consistent.settles Consistent.leases
    (fun jobId _ hid hturn => h.enqueues hturn (hfresh jobId hid)) h

theorem run_consistent {q : InMemoryJobQueue P R E} (ops : List (Op P R E)) (h : q.Consistent)
    (hfresh : q.FreshIds ops) : (q.run ops).Consistent := by
  induction ops generalizing q with
  | nil => exact h
  | cons op ops ih => exact ih (step_consistent h hfresh.1) hfresh.2

theorem freshIds_append (q : InMemoryJobQueue P R E) (ops rest : List (Op P R E)) :
    q.FreshIds (ops ++ rest) ↔ q.FreshIds ops ∧ (q.run ops).FreshIds rest := by
  induction ops generalizing q with
  | nil => simp [FreshIds, run]
  | cons op ops ih => simp [FreshIds, run, ih, and_assoc]

/-- A record that a turn about another job leaves as it was. -/
theorem get_put_of_ne {q q' : InMemoryJobQueue P R E} {jobId i : String} {job job' old : Job P R E}
    (hjobs : q'.jobs = q.jobs.set i job') (hget : q.jobs.get jobId = some job)
    (hold : q.jobs.get i = some old) (hs : job.state.Terminal) (hs' : ¬ old.state.Terminal) :
    q'.jobs.get jobId = some job := by
  have hne : jobId ≠ i := by
    rintro rfl
    rw [hget, Option.some.injEq] at hold
    exact hs' (hold ▸ hs)
  rw [hjobs, InsertionMap.get_set_ne q.jobs job' hne, hget]

/-- No job that has reached its end has a lease. -/
def EndsLeases (q : InMemoryJobQueue P R E) : Prop :=
  ∀ jobId job, q.jobs.get jobId = some job → job.state.Terminal → q.leases.get jobId = none

theorem Consistent.endsLeases {q : InMemoryJobQueue P R E} (h : q.Consistent) : q.EndsLeases := by
  intro jobId job hget hs
  rw [InsertionMap.get_eq_none_iff]
  intro hl
  rw [h.state_running hget hl] at hs
  exact absurd hs (by decide)

theorem settles_terminal {q q' : InMemoryJobQueue P R E} (hturn : Settles q q')
    (h : q.EndsLeases) {jobId : String} {job : Job P R E} (hget : q.jobs.get jobId = some job)
    (hs : job.state.Terminal) : q'.jobs.get jobId = some job := by
  have hlive : ∀ i old, q.jobs.get i = some old → i ∈ q.leases.keys → ¬ old.state.Terminal := by
    intro i old hold hl hterm
    exact (q.leases.get_eq_none_iff i).mp (h i old hold hterm) hl
  cases hturn with
  | released i old job' e hold hl hr =>
    refine get_put_of_ne rfl hget hold hs (hl.elim (hlive i old hold) ?_)
    intro hrun
    rw [hrun]
    decide
  | lapsed i _ => exact hget
  | prolonged i lease expiresAt updatedAt hl =>
    cases hold : q.jobs.get i with
    | none => simpa [emit, touch, hold] using hget
    | some old =>
      have hjobs : touch q.jobs i updatedAt = q.jobs.set i { old with updatedAt := updatedAt } := by
        simp [touch, hold]
      exact get_put_of_ne hjobs hget hold hs
        (hlive i old hold ((q.leases.mem_keys_iff i).mpr ⟨lease, hl⟩))
  | cancelled i old job' error updatedAt hold hstate hj =>
    exact get_put_of_ne rfl hget hold hs hstate

theorem leases_terminal {q q' : InMemoryJobQueue P R E} {token : String}
    {answer : Option (Job P R E × String × ℤ)} (hturn : Leases q token q' answer)
    {jobId : String} {job : Job P R E} (hget : q.jobs.get jobId = some job)
    (hs : job.state.Terminal) : q'.jobs.get jobId = some job := by
  cases hturn with
  | idle => exact hget
  | dropped i rest hw hjob => exact hget
  | leased i rest old job' lease updatedAt hw hold hq hfree ht hj =>
    exact get_put_of_ne rfl hget hold hs (by rw [hq]; decide)

theorem enqueues_other {q q' : InMemoryJobQueue P R E} {i jobId : String}
    (hturn : Enqueues q i q') (hne : jobId ≠ i) {job : Job P R E}
    (hget : q.jobs.get jobId = some job) : q'.jobs.get jobId = some job := by
  cases hturn with
  | refused => exact hget
  | accepted new idempotencyMap hroom hid hs ha hm =>
    exact (InsertionMap.get_set_ne q.jobs new hne).trans hget

theorem run_terminal {q : InMemoryJobQueue P R E} (ops : List (Op P R E)) (h : q.Consistent)
    (hfresh : q.FreshIds ops) {jobId : String} {job : Job P R E}
    (hget : q.jobs.get jobId = some job) (hs : job.state.Terminal) :
    (q.run ops).jobs.get jobId = some job := by
  induction ops generalizing q with
  | nil => exact hget
  | cons op ops ih =>
    have hstep : (q.step op).1.Consistent ∧ (q.step op).1.jobs.get jobId = some job := by
      apply step_keeps (fun q => q.Consistent ∧ q.jobs.get jobId = some job) q op
      · intro q₁ q₂ hturn hq
        exact ⟨hq.1.settles hturn, settles_terminal hturn hq.1.endsLeases hq.2 hs⟩
      · intro q₁ q₂ token answer hturn hq
        exact ⟨hq.1.leases hturn, leases_terminal hturn hq.2 hs⟩
      · intro i q' hid hturn
        have hnone := hfresh.1 i hid
        have hne : jobId ≠ i := by
          rintro rfl
          simp [hget] at hnone
        exact ⟨h.enqueues hturn hnone, enqueues_other hturn hne hget⟩
      · exact ⟨h, hget⟩
    exact ih hstep.1 hfresh.2 hstep.2

theorem run_settings (q : InMemoryJobQueue P R E) (ops : List (Op P R E)) :
    (q.run ops).settings = q.settings := by
  induction ops generalizing q with
  | nil => rfl
  | cons op ops ih =>
    have hstep : (q.step op).1.settings = q.settings := by
      apply step_keeps (fun q' => q'.settings = q.settings) q op
      · intro q₁ q₂ hturn hq
        cases hturn <;> exact hq
      · intro q₁ q₂ token answer hturn hq
        cases hturn <;> exact hq
      · intro i q' _ hturn
        cases hturn <;> rfl
      · rfl
    exact (ih _).trans hstep

/-- After every sequence of calls, at whatever times, that submit fresh ids. -/
theorem queue_invariant (options : Options) (ops : List (Op P R E))
    (hfresh : (create options : InMemoryJobQueue P R E).FreshIds ops) :
    let start : InMemoryJobQueue P R E := create options
    let q := start.run ops
    q.waitingQueue.Nodup ∧
    (∀ jobId, jobId ∈ q.waitingQueue ↔ q.HasState jobId .queued) ∧
    (∀ jobId, jobId ∈ q.leases.keys ↔ q.HasState jobId .running) ∧
    (∀ earlier later, ops = earlier ++ later → ∀ jobId job,
      (start.run earlier).jobs.get jobId = some job → job.state.Terminal →
        q.jobs.get jobId = some job) ∧
    (∀ jobId job, q.jobs.get jobId = some job →
      (job.attempts : ℤ) ≤ max 1 start.settings.maxRetries) ∧
    q.waitingQueue.length+q.leases.size ≤
      start.settings.maxQueueDepth+start.settings.maxRunningJobs := by
  intro start q
  have h : q.Consistent := run_consistent ops (consistent_create options) hfresh
  have hset : q.settings = start.settings := run_settings start ops
  refine ⟨h.nodup, h.waiting, h.leased, ?_, ?_, ?_⟩
  · rintro earlier later rfl jobId job hget hs
    obtain ⟨hearlier, hlater⟩ := (freshIds_append _ earlier later).mp hfresh
    have hmid := run_consistent earlier (consistent_create options) hearlier
    show (start.run (earlier ++ later)).jobs.get jobId = some job
    rw [run_append]
    exact run_terminal later hmid hlater hget hs
  · intro jobId job hget
    rw [← hset]
    exact (h.retries jobId job hget).2.1
  · rw [← hset]
    exact h.room

/-- A job is leased, and goes back to the front when its worker fails. -/
def retriedJob : List (Op Unit Unit Unit) :=
  [.enqueue ⟨some "job-1", none, none, ()⟩ "" ⟨0, 0⟩, .leaseNextJob "worker" none "token" ⟨1, 1⟩,
    .failJob "job-1" "token" () ⟨2, 2⟩]

def plainOptions : Options := ⟨none, none, none, none⟩

theorem retriedJob_fresh :
    (create plainOptions : InMemoryJobQueue Unit Unit Unit).FreshIds retriedJob := by
  refine ⟨fun _ _ => rfl, ?_, ?_, trivial⟩ <;> nofun

theorem retriedJob_waits :
    let q := (create plainOptions : InMemoryJobQueue Unit Unit Unit).run retriedJob
    q.waitingQueue = ["job-1"] ∧ q.HasState "job-1" .queued ∧
      q.waitingQueue.length+q.leases.size ≤ 110 := by
  obtain ⟨-, hwaiting, -, -, -, hroom⟩ := queue_invariant plainOptions retriedJob retriedJob_fresh
  have hw : ((create plainOptions : InMemoryJobQueue Unit Unit Unit).run retriedJob).waitingQueue =
      ["job-1"] := by decide +kernel
  exact ⟨hw, (hwaiting "job-1").mp (by simp [hw]), hroom⟩

end InMemoryJobQueue
end
end LuaRecovery.Queue
