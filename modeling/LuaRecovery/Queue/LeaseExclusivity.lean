import LuaRecovery.Lib.LeaseHistory
import LuaRecovery.Queue.QueueInvariant

/-!
# Only the current lease of a job can settle it

What the queue tells its listeners is a log of grants and ends of leases. Each
lease that the queue holds is the current one of that log, so a token drawn once
is worth nothing as soon as the log has another entry for its job.
-/

set_option autoImplicit false

namespace LuaRecovery.Queue
open LuaRecovery.Lib

section
variable {P R E : Type}

/-- What an announcement says about the lease of a job. -/
def Event.lease : Event P R E → Option (LeaseEvent String String)
  | .leased jobId _ token _ => some (.granted jobId token)
  | .completed job => some (.ended job.jobId)
  | .retried job => some (.ended job.jobId)
  | .failed job => some (.ended job.jobId)
  | .cancelled job => some (.ended job.jobId)
  | .leaseReclaimed jobId _ => some (.ended jobId)
  | .enqueued _ => none
  | .heartbeat _ _ => none

/-- The announcement concerns the lease of the job: it was granted, or it ended. -/
def Event.Touches (jobId : String) (e : Event P R E) : Prop :=
  ∃ l, e.lease = some l ∧ l.key = jobId

theorem Released.lease_event {jobId : String} {job job' : Job P R E} {e : Event P R E}
    (h : Released jobId job job' e) (hid : job.jobId = jobId) :
    e.lease = some (.ended jobId) := by
  cases h <;> simp_all [Event.lease]

namespace InMemoryJobQueue

def leaseLog (q : InMemoryJobQueue P R E) : List (LeaseEvent String String) :=
  q.emitted.filterMap Event.lease

def Holds (q : InMemoryJobQueue P R E) (jobId token : String) : Prop :=
  ∃ lease, q.leases.get jobId = some lease ∧ lease.token = token

structure Ledger (q : InMemoryJobQueue P R E) : Prop where
  filed : ∀ jobId job, q.jobs.get jobId = some job → job.jobId = jobId
  free : q.EndsLeases
  current : ∀ jobId lease, q.leases.get jobId = some lease →
    LeaseEvent.holder q.leaseLog jobId = some lease.token

theorem ledger_create (options : Options) : (create options : InMemoryJobQueue P R E).Ledger where
  filed := by simp [create]
  free := by simp [create, EndsLeases]
  current := by simp [create]

namespace Ledger
variable {q : InMemoryJobQueue P R E}

/-- Ending the lease of one job and saying so. -/
theorem ended (h : q.Ledger) {q' : InMemoryJobQueue P R E} {jobId : String} {job job' : Job P R E}
    {e : Event P R E} (hjob : q.jobs.get jobId = some job) (hid : job'.jobId = job.jobId)
    (hjobs : q'.jobs = q.jobs.set jobId job') (hleases : q'.leases = q.leases.delete jobId)
    (he : e.lease = some (.ended jobId)) (hlog : q'.emitted = q.emitted ++ [e]) : q'.Ledger where
  filed i old hget := by
    rw [hjobs, InsertionMap.get_set] at hget
    by_cases hi : i = jobId
    · rw [if_pos hi, Option.some.injEq] at hget
      rw [← hget, hid, hi]
      exact h.filed jobId job hjob
    · rw [if_neg hi] at hget
      exact h.filed i old hget
  free i old hget hs := by
    rw [hleases, InsertionMap.get_delete]
    rw [hjobs, InsertionMap.get_set] at hget
    by_cases hi : i = jobId
    · simp [hi]
    · rw [if_neg hi] at hget
      rw [if_neg hi]
      exact h.free i old hget hs
  current i lease hget := by
    rw [hleases, InsertionMap.get_delete] at hget
    by_cases hi : i = jobId
    · simp [hi] at hget
    · rw [if_neg hi] at hget
      have hl : q'.leaseLog = q.leaseLog ++ [.ended jobId] := by simp [leaseLog, hlog, he]
      rw [hl, LeaseEvent.holder_append_of_ne _ _ _ (by simpa [LeaseEvent.key] using Ne.symm hi)]
      exact h.current i lease hget

theorem prolonged (h : q.Ledger) {jobId : String} {lease : Lease} (expiresAt updatedAt : ℤ)
    (hl : q.leases.get jobId = some lease) :
    ({ q with
      jobs := touch q.jobs jobId updatedAt
      leases := q.leases.set jobId { lease with expiresAt := expiresAt } }.emit
        (.heartbeat jobId expiresAt)).Ledger := by
  have htouch : ∀ i job, (touch q.jobs jobId updatedAt).get i = some job →
      ∃ old, q.jobs.get i = some old ∧ old.jobId = job.jobId ∧ old.state = job.state := by
    intro i job hget
    cases hjob : q.jobs.get jobId with
    | none => exact ⟨job, by simpa [touch, hjob] using hget, rfl, rfl⟩
    | some old =>
      rw [touch, hjob] at hget
      simp only [InsertionMap.get_set] at hget
      by_cases hi : i = jobId
      · rw [if_pos hi, Option.some.injEq] at hget
        exact ⟨old, hi ▸ hjob, by rw [← hget], by rw [← hget]⟩
      · rw [if_neg hi] at hget
        exact ⟨job, hget, rfl, rfl⟩
  constructor
  · intro i job hget
    obtain ⟨old, hold, hid, -⟩ := htouch i job hget
    rw [← hid]
    exact h.filed i old hold
  · intro i job hget hs
    obtain ⟨old, hold, -, hstate⟩ := htouch i job hget
    have hnone := h.free i old hold (hstate ▸ hs)
    have hi : i ≠ jobId := by
      rintro rfl
      simp [hl] at hnone
    simpa [emit, InsertionMap.get_set_ne q.leases _ hi] using hnone
  · intro i lease' hget
    have hlog : ({ q with
        jobs := touch q.jobs jobId updatedAt
        leases := q.leases.set jobId { lease with expiresAt := expiresAt } }.emit
          (.heartbeat jobId expiresAt)).leaseLog = q.leaseLog := by
      simp [leaseLog, emit, Event.lease]
    rw [hlog]
    simp only [emit, InsertionMap.get_set] at hget
    by_cases hi : i = jobId
    · rw [if_pos hi, Option.some.injEq] at hget
      rw [hi, h.current jobId lease hl, ← hget]
    · rw [if_neg hi] at hget
      exact h.current i lease' hget

theorem settles {q' : InMemoryJobQueue P R E} (hturn : Settles q q') (h : q.Ledger) :
    q'.Ledger := by
  cases hturn with
  | released jobId job job' e hjob hl hr =>
    exact h.ended hjob hr.same_bounds.1 rfl rfl (hr.lease_event (h.filed jobId job hjob)) rfl
  | lapsed jobId hjob =>
    refine ⟨h.filed, ?_, ?_⟩
    · intro i job hget hs
      simp [InsertionMap.get_delete, h.free i job hget hs]
    · intro i lease hget
      rw [InsertionMap.get_delete] at hget
      by_cases hi : i = jobId
      · simp [hi] at hget
      · rw [if_neg hi] at hget
        exact h.current i lease hget
  | prolonged jobId lease expiresAt updatedAt hl => exact h.prolonged expiresAt updatedAt hl
  | cancelled jobId job job' error updatedAt hjob hs hj =>
    have hid : job'.jobId = job.jobId := by rw [hj]
    exact h.ended hjob hid rfl rfl (by simp [Event.lease, hid, h.filed jobId job hjob]) rfl

theorem leases {q' : InMemoryJobQueue P R E} {token : String}
    {answer : Option (Job P R E × String × ℤ)} (hturn : Leases q token q' answer) (h : q.Ledger) :
    q'.Ledger := by
  cases hturn with
  | idle => exact h
  | dropped jobId rest hw hjob => exact ⟨h.filed, h.free, h.current⟩
  | leased jobId rest job job' lease updatedAt hw hjob hs hfree ht hj =>
    constructor
    · intro i old hget
      simp only [emit, InsertionMap.get_set] at hget
      by_cases hi : i = jobId
      · rw [if_pos hi, Option.some.injEq] at hget
        rw [← hget, hj, hi]
        exact h.filed jobId job hjob
      · rw [if_neg hi] at hget
        exact h.filed i old hget
    · intro i old hget hterm
      simp only [emit, InsertionMap.get_set] at hget ⊢
      by_cases hi : i = jobId
      · rw [if_pos hi, Option.some.injEq] at hget
        have hrun : old.state = .running := by rw [← hget, hj]
        rw [hrun] at hterm
        exact absurd hterm (by decide)
      · rw [if_neg hi] at hget ⊢
        exact h.free i old hget hterm
    · intro i lease' hget
      simp only [emit, InsertionMap.get_set] at hget
      simp only [leaseLog, emit, List.filterMap_append, List.filterMap_cons, Event.lease,
        List.filterMap_nil, LeaseEvent.holder_append_singleton]
      by_cases hi : i = jobId
      · rw [if_pos hi, Option.some.injEq] at hget
        simp [hi, LeaseEvent.key, LeaseEvent.token, ← hget, ht]
      · rw [if_neg hi] at hget
        rw [Function.update_of_ne (by simpa [LeaseEvent.key] using hi)]
        exact h.current i lease' hget

theorem enqueues {q' : InMemoryJobQueue P R E} {jobId : String} (hturn : Enqueues q jobId q')
    (h : q.Ledger) : q'.Ledger := by
  cases hturn with
  | refused => exact h
  | accepted job idempotencyMap hroom hid hs ha hm =>
    constructor
    · intro i old hget
      simp only [emit, InsertionMap.get_set] at hget
      by_cases hi : i = jobId
      · rw [if_pos hi, Option.some.injEq] at hget
        rw [← hget, hid, hi]
      · rw [if_neg hi] at hget
        exact h.filed i old hget
    · intro i old hget hterm
      simp only [emit, InsertionMap.get_set] at hget
      by_cases hi : i = jobId
      · rw [if_pos hi, Option.some.injEq] at hget
        rw [← hget, hs] at hterm
        exact absurd hterm (by decide)
      · rw [if_neg hi] at hget
        exact h.free i old hget hterm
    · intro i lease hget
      have hlog : (q.emitted ++ [Event.enqueued job]).filterMap Event.lease = q.leaseLog := by
        simp [leaseLog, Event.lease]
      show LeaseEvent.holder ((q.emitted ++ [Event.enqueued job]).filterMap Event.lease) i = _
      rw [hlog]
      exact h.current i lease hget

theorem step (h : q.Ledger) (op : Op P R E) : (q.step op).1.Ledger :=
  step_keeps Ledger q op Ledger.settles Ledger.leases (fun _ _ _ hturn => h.enqueues hturn) h

theorem run (h : q.Ledger) (ops : List (Op P R E)) : (q.run ops).Ledger := by
  induction ops generalizing q with
  | nil => exact h
  | cons op ops ih => exact ih (h.step op)

end Ledger
/-! ### The tokens of the log -/

def leaseTokens (q : InMemoryJobQueue P R E) : List String := LeaseEvent.tokens q.leaseLog

theorem settles_tokens {q q' : InMemoryJobQueue P R E} (hturn : Settles q q') :
    q'.leaseTokens = q.leaseTokens := by
  cases hturn with
  | released jobId job job' e hjob hl hr =>
    cases hr <;>
      simp [leaseTokens, leaseLog, emit, LeaseEvent.tokens, Event.lease, LeaseEvent.token]
  | lapsed jobId hjob => rfl
  | prolonged jobId lease expiresAt updatedAt hl =>
    simp [leaseTokens, leaseLog, emit, LeaseEvent.tokens, Event.lease]
  | cancelled jobId job job' error updatedAt hjob hs hj =>
    simp [leaseTokens, leaseLog, emit, LeaseEvent.tokens, Event.lease, LeaseEvent.token]

theorem settled_tokens {q q' : InMemoryJobQueue P R E} (h : Settled q q') :
    q'.leaseTokens = q.leaseTokens := by
  induction h with
  | refl => rfl
  | tail _ hlast ih => exact (settles_tokens hlast).trans ih

theorem step_tokens (q : InMemoryJobQueue P R E) (op : Op P R E) :
    ∃ drawn, (q.step op).1.leaseTokens = q.leaseTokens ++ drawn ∧
      drawn.Sublist op.draws.toList := by
  have hturns := step_turns q op
  generalize (q.step op).1 = q' at hturns
  cases hturns with
  | submits hid h =>
    refine ⟨[], ?_, List.nil_sublist _⟩
    rw [List.append_nil]
    cases h with
    | refused => rfl
    | accepted job idempotencyMap hroom hid' hs ha hm =>
      simp [leaseTokens, leaseLog, emit, LeaseEvent.tokens, Event.lease]
  | leases ht hmid h =>
    rw [← settled_tokens hmid, ht]
    cases h with
    | idle => exact ⟨[], by simp, List.nil_sublist _⟩
    | dropped jobId rest hw hjob => exact ⟨[], by simp [leaseTokens, leaseLog], List.nil_sublist _⟩
    | leased jobId rest job job' lease updatedAt hw hjob hs hfree ht' hj =>
      refine ⟨[_], ?_, List.Sublist.refl _⟩
      simp [leaseTokens, leaseLog, emit, LeaseEvent.tokens, Event.lease, LeaseEvent.token]
  | settles ht h => exact ⟨[], by simp [settled_tokens h], List.nil_sublist _⟩

theorem run_tokens (q : InMemoryJobQueue P R E) (ops : List (Op P R E)) :
    ∃ drawn, (q.run ops).leaseTokens = q.leaseTokens ++ drawn ∧
      drawn.Sublist (ops.filterMap Op.draws) := by
  induction ops generalizing q with
  | nil => exact ⟨[], by simp [run], List.nil_sublist _⟩
  | cons op ops ih =>
    obtain ⟨first, hfirst, hsub⟩ := step_tokens q op
    obtain ⟨rest, hrest, hsub'⟩ := ih (q.step op).1
    refine ⟨first ++ rest, by rw [run, hrest, hfirst, List.append_assoc], ?_⟩
    have happ : (op :: ops).filterMap Op.draws = op.draws.toList ++ ops.filterMap Op.draws := by
      cases hd : op.draws <;> simp [hd]
    rw [happ]
    exact hsub.append hsub'

/-! ### The calls that name a token -/

theorem leaseWith_eq_none {q : InMemoryJobQueue P R E} {jobId token : String} :
    q.leaseWith jobId token = none ↔ ¬ q.Holds jobId token := by
  rw [Option.eq_none_iff_forall_ne_some]
  simp [Holds, leaseWith_eq_some]

/-- Without the token of the current lease a call is refused and changes nothing. -/
theorem step_of_not_holds {q : InMemoryJobQueue P R E} {op : Op P R E} {jobId token : String}
    (hop : op.presents = some (jobId, token)) (h : ¬ q.Holds jobId token) :
    q.step op = (q, .accepted false) := by
  have hnone := leaseWith_eq_none.mpr h
  cases op with
  | heartbeat i t extension clock =>
    simp only [Op.presents, Option.some.injEq, Prod.mk.injEq] at hop
    obtain ⟨rfl, rfl⟩ := hop
    simp [InMemoryJobQueue.step, heartbeat, hnone]
  | completeJob i t result clock =>
    simp only [Op.presents, Option.some.injEq, Prod.mk.injEq] at hop
    obtain ⟨rfl, rfl⟩ := hop
    simp [InMemoryJobQueue.step, completeJob, hnone]
  | failJob i t error clock =>
    simp only [Op.presents, Option.some.injEq, Prod.mk.injEq] at hop
    obtain ⟨rfl, rfl⟩ := hop
    simp [InMemoryJobQueue.step, failJob, hnone]
  | enqueue jobData uuid clock => simp [Op.presents] at hop
  | leaseNextJob workerId duration t clock => simp [Op.presents] at hop
  | cancelJob i reason clock => simp [Op.presents] at hop
  | getStats clock => simp [Op.presents] at hop

/-- A held token was announced for its job, and nothing about that lease since. -/
theorem Ledger.announced {q : InMemoryJobQueue P R E} (h : q.Ledger) {jobId token : String}
    (hold : q.Holds jobId token) :
    ∃ before workerId expiresAt since,
      q.emitted = before ++ .leased jobId workerId token expiresAt :: since ∧
      ∀ e ∈ since, ¬ e.Touches jobId := by
  obtain ⟨lease, hl, rfl⟩ := hold
  obtain ⟨a, b, hlog, hb⟩ := (LeaseEvent.holder_eq_some_iff _ _ _).mp (h.current jobId lease hl)
  obtain ⟨before, tail, hemit, ha, htail⟩ := List.filterMap_eq_append_iff.mp hlog
  obtain ⟨skip, e, since, hskip, hnone, he, hsince⟩ := List.filterMap_eq_cons_iff.mp htail
  cases e with
  | leased i workerId token expiresAt =>
    simp only [Event.lease, Option.some.injEq, LeaseEvent.granted.injEq] at he
    obtain ⟨rfl, rfl⟩ := he
    refine ⟨before ++ skip, workerId, expiresAt, since, by simp [hemit, hskip], ?_⟩
    rintro e he ⟨l, hel, hkey⟩
    exact hb l (hsince ▸ List.mem_filterMap.mpr ⟨e, he, hel⟩) hkey
  | _ => simp [Event.lease] at he

/-- A token whose lease went to another job, or was spoken of again, is not held. -/
theorem Ledger.stale {q : InMemoryJobQueue P R E} (h : q.Ledger) (hn : q.leaseTokens.Nodup)
    {before since : List (Event P R E)} {i jobId workerId token : String} {expiresAt : ℤ}
    (hemit : q.emitted = before ++ .leased i workerId token expiresAt :: since)
    (hstale : i ≠ jobId ∨ ∃ e ∈ since, e.Touches jobId) : ¬ q.Holds jobId token := by
  rintro ⟨lease, hl, rfl⟩
  have hlog : q.leaseLog = before.filterMap Event.lease ++
      .granted i lease.token :: since.filterMap Event.lease := by
    simp [leaseLog, hemit, Event.lease]
  rw [leaseTokens, hlog] at hn
  obtain ⟨hkey, hquiet⟩ := LeaseEvent.holder_of_granted hn (hlog ▸ h.current jobId lease hl)
  rcases hstale with hne | ⟨e, he, l, hel, hlk⟩
  · exact hne hkey.symm
  · exact hquiet l (List.mem_filterMap.mpr ⟨e, he, hel⟩) (hlk.trans hkey)

/-! ### A job is completed once -/

theorem completed_of_accepted {q : InMemoryJobQueue P R E} {jobId token : String} {result : R}
    {clock : Clock}
    (h : (q.step (.completeJob jobId token result clock)).2 = .accepted true) :
    (q.step (.completeJob jobId token result clock)).1.HasState jobId .completed := by
  simp only [InMemoryJobQueue.step, completeJob] at h ⊢
  cases hl : q.leaseWith jobId token with
  | none => simp [hl] at h
  | some lease =>
    cases hjob : q.jobs.get jobId with
    | none => simp [hl, hjob] at h
    | some job =>
      by_cases hv : isValidTransition job.state .completed = true
      · simp [hv, HasState, emit, InsertionMap.get_set_self]
      · simp [hl, hjob, hv] at h

theorem Ledger.run_terminal {q : InMemoryJobQueue P R E} (h : q.Ledger) (ops : List (Op P R E))
    {jobId : String} {job : Job P R E} (hops : ∀ op ∈ ops, op.newId ≠ some jobId)
    (hget : q.jobs.get jobId = some job) (hs : job.state.Terminal) :
    (q.run ops).jobs.get jobId = some job := by
  induction ops generalizing q with
  | nil => exact hget
  | cons op ops ih =>
    have hstep : (q.step op).1.Ledger ∧ (q.step op).1.jobs.get jobId = some job := by
      apply step_keeps (fun q => q.Ledger ∧ q.jobs.get jobId = some job) q op
      · intro q₁ q₂ hturn hq
        exact ⟨hq.1.settles hturn, settles_terminal hturn hq.1.free hq.2 hs⟩
      · intro q₁ q₂ token answer hturn hq
        exact ⟨hq.1.leases hturn, leases_terminal hturn hq.2 hs⟩
      · intro i q' hid hturn
        have hne : jobId ≠ i := by
          rintro rfl
          exact hops op (by simp) hid
        exact ⟨h.enqueues hturn, enqueues_other hturn hne hget⟩
      · exact ⟨h, hget⟩
    exact ih hstep.1 (fun op' h' => hops op' (by simp [h'])) hstep.2

theorem run_keeps_id (q : InMemoryJobQueue P R E) (ops : List (Op P R E)) {jobId : String}
    (h : jobId ∈ q.jobs.keys) : jobId ∈ (q.run ops).jobs.keys := by
  have hset : ∀ {m : InsertionMap String (Job P R E)} (i : String) (job : Job P R E),
      jobId ∈ m.keys → jobId ∈ (m.set i job).keys := by
    intro m i job hm
    by_cases hi : jobId = i <;> simp_all [InsertionMap.mem_keys_iff, InsertionMap.get_set]
  induction ops generalizing q with
  | nil => exact h
  | cons op ops ih =>
    have hstep : jobId ∈ (q.step op).1.jobs.keys := by
      apply step_keeps (fun q => jobId ∈ q.jobs.keys) q op
      · intro q₁ q₂ hturn hq
        cases hturn with
        | released i job job' e hjob hl hr => exact hset i job' hq
        | lapsed i hjob => exact hq
        | prolonged i lease expiresAt updatedAt hl =>
          show jobId ∈ (touch q₁.jobs i updatedAt).keys
          unfold touch
          split
          next => exact hset i _ hq
          next => exact hq
        | cancelled i job job' error updatedAt hjob hs hj => exact hset i job' hq
      · intro q₁ q₂ token answer hturn hq
        cases hturn with
        | idle => exact hq
        | dropped i rest hw hjob => exact hq
        | leased i rest job job' lease updatedAt hw hjob hs hfree ht hj => exact hset i job' hq
      · intro i q' _ hturn
        cases hturn with
        | refused => exact h
        | accepted job idempotencyMap hroom hid hs ha hm => exact hset i job h
      · exact h
    exact ih _ hstep

/-- Between two completions of one id a call submits a job under that id. -/
theorem Ledger.resubmitted {q : InMemoryJobQueue P R E} (h : q.Ledger)
    {jobId token token' : String} {result result' : R} {clock clock' : Clock}
    {ops : List (Op P R E)}
    (hfirst : (q.step (.completeJob jobId token result clock)).2 = .accepted true)
    (hsecond : (((q.step (.completeJob jobId token result clock)).1.run ops).step
      (.completeJob jobId token' result' clock')).2 = .accepted true) :
    ∃ op ∈ ops, op.newId = some jobId := by
  by_contra hnone
  push Not at hnone
  obtain ⟨job, hget, hs⟩ := completed_of_accepted hfirst
  have hstep := h.step (.completeJob jobId token result clock)
  have hterm : job.state.Terminal := by
    rw [hs]
    decide
  have hlater := hstep.run_terminal ops hnone hget hterm
  have hfree := (hstep.run ops).free jobId job hlater hterm
  have hnot : ¬ ((q.step (.completeJob jobId token result clock)).1.run ops).Holds jobId token' := by
    rintro ⟨lease, hl, -⟩
    simp [hfree] at hl
  rw [step_of_not_holds rfl hnot] at hsecond
  simp at hsecond

/-- Whoever holds which tokens: a call settles or prolongs a lease only with the token of that
lease, which was announced for this job and neither ended nor replaced since; every other call
is refused and leaves the queue as it was; and a job is completed once. -/
theorem lease_exclusivity (options : Options) (ops : List (Op P R E))
    (htokens : (ops.filterMap Op.draws).Nodup) :
    let start : InMemoryJobQueue P R E := create options
    (∀ earlier op later, ops = earlier ++ op :: later → ∀ jobId token,
      op.presents = some (jobId, token) →
      let q := start.run earlier
      ((q.step op).2 = .accepted true → q.Holds jobId token) ∧
      (¬ q.Holds jobId token → q.step op = (q, .accepted false)) ∧
      (q.Holds jobId token → ∃ before workerId expiresAt since,
        q.emitted = before ++ .leased jobId workerId token expiresAt :: since ∧
        ∀ e ∈ since, ¬ e.Touches jobId) ∧
      (∀ before i workerId expiresAt since,
        q.emitted = before ++ .leased i workerId token expiresAt :: since →
        (i ≠ jobId ∨ ∃ e ∈ since, e.Touches jobId) → q.step op = (q, .accepted false))) ∧
    (∀ earlier between later jobId token token' result result' clock clock',
      ops = earlier ++ .completeJob jobId token result clock :: between ++
        .completeJob jobId token' result' clock' :: later →
      let q := start.run earlier
      let q' := (q.step (.completeJob jobId token result clock)).1.run between
      (q.step (.completeJob jobId token result clock)).2 = .accepted true →
      (q'.step (.completeJob jobId token' result' clock')).2 = .accepted true →
        (∃ op ∈ between, op.newId = some jobId) ∧ ¬ start.FreshIds ops) := by
  intro start
  have hstart : start.Ledger := ledger_create options
  constructor
  · rintro earlier op later rfl jobId token hop q
    have h : q.Ledger := hstart.run earlier
    obtain ⟨drawn, hdrawn, hsub⟩ := run_tokens start earlier
    have hn : q.leaseTokens.Nodup := by
      rw [List.filterMap_append] at htokens
      rw [hdrawn]
      simpa [leaseTokens, leaseLog, start, create, LeaseEvent.tokens] using
        (List.nodup_append.mp htokens).1.sublist hsub
    refine ⟨?_, step_of_not_holds hop, h.announced, ?_⟩
    · intro haccept
      by_contra hnot
      rw [step_of_not_holds hop hnot] at haccept
      simp at haccept
    · intro before i workerId expiresAt since hemit hstale
      exact step_of_not_holds hop (h.stale hn hemit hstale)
  · rintro earlier between later jobId token token' result result' clock clock' rfl q q' hfirst
      hsecond
    have hagain := (hstart.run earlier).resubmitted hfirst hsecond
    refine ⟨hagain, ?_⟩
    intro hfresh
    obtain ⟨op, hop, hid⟩ := hagain
    obtain ⟨b₁, b₂, rfl⟩ := List.append_of_mem hop
    obtain ⟨job, hget, -⟩ := completed_of_accepted hfirst
    have hmem : jobId ∈ ((q.step (.completeJob jobId token result clock)).1.run b₁).jobs.keys :=
      run_keeps_id _ b₁ ((InsertionMap.mem_keys_iff _ jobId).mpr ⟨job, hget⟩)
    rw [List.append_assoc, List.cons_append, List.append_assoc, freshIds_append] at hfresh
    have hnone := ((freshIds_append _ b₁ _).mp hfresh.2.2).2.1 jobId hid
    exact (InsertionMap.get_eq_none_iff _ jobId).mp hnone hmem

/-- The lease of a slow worker is reclaimed, and the job goes to another one. -/
def lateWorker : List (Op Unit Unit Unit) :=
  [.enqueue ⟨some "job-1", none, none, ()⟩ "" ⟨0, 0⟩, .leaseNextJob "slow" none "first" ⟨0, 0⟩,
    .leaseNextJob "quick" none "second" ⟨40000, 40000⟩]

theorem lateWorker_refused :
    let q := (create plainOptions : InMemoryJobQueue Unit Unit Unit).run lateWorker
    q.step (.completeJob "job-1" "first" () ⟨40001, 40001⟩) = (q, .accepted false) := by
  have hcalls := (lease_exclusivity (R := Unit) (E := Unit) plainOptions
    (lateWorker ++ [.completeJob "job-1" "first" () ⟨40001, 40001⟩]) (by decide)).1
  have hemit : ∃ before since,
      ((create plainOptions : InMemoryJobQueue Unit Unit Unit).run lateWorker).emitted =
        before ++ .leased "job-1" "slow" "first" 30000 :: .leaseReclaimed "job-1" true :: since :=
    ⟨[_], [_], rfl⟩
  obtain ⟨before, since, hemit⟩ := hemit
  obtain ⟨-, -, -, hstale⟩ := hcalls lateWorker _ [] rfl "job-1" "first" rfl
  exact hstale before "job-1" "slow" 30000 _ hemit (.inr ⟨_, List.mem_cons_self, _, rfl, rfl⟩)

end InMemoryJobQueue
end
end LuaRecovery.Queue
