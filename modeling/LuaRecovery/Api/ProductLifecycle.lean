import LuaRecovery.Api.Submission
import LuaRecovery.Queue.RecordEffects

/-!
# The queue as the product's state machine

A listener that moves a job only as `state-machine.js` allows can follow all
that the queue announces: a job begins with its submission, nothing is announced
once it is over, and the listener has it in the state that the API shows.
-/

set_option autoImplicit false

namespace LuaRecovery.Api
open LuaRecovery.Lib LuaRecovery.Queue Relation

def terminalProductStates : List ProductState := [.succeeded, .failed, .timedOut, .cancelled]

def isValidProductTransition (fromState toState : ProductState) : Bool :=
  if fromState = toState then true
  else if fromState ∈ terminalProductStates then false
  else if fromState = .queued then
    decide (toState ∈ [.leased, .running, .cancelled, .timedOut, .failed])
  else if fromState = .leased then
    decide (toState ∈ [.running, .queued, .cancelled, .timedOut, .failed])
  else if fromState = .running then
    decide (toState ∈ [.succeeded, .failed, .timedOut, .cancelled, .queued])
  else false

/-- A move of the state machine; a state that is over has none. -/
def Advances (fromState toState : ProductState) : Prop :=
  fromState ∉ terminalProductStates ∧ isValidProductTransition fromState toState = true

instance (fromState toState : ProductState) : Decidable (Advances fromState toState) :=
  inferInstanceAs (Decidable (_ ∧ _))

theorem advances_cancelled {state : JobState} (h : ¬ state.Terminal) :
    Advances (mapInternalToProductState state) .cancelled := by
  cases state <;> first | decide | exact absurd (by decide) h

section Listening
variable {P R E : Type}

/-- The job that an announcement is about. -/
def announcedId : Event P R E → String
  | .enqueued job => job.jobId
  | .leased jobId _ _ _ => jobId
  | .heartbeat jobId _ => jobId
  | .completed job => job.jobId
  | .retried job => job.jobId
  | .failed job => job.jobId
  | .cancelled job => job.jobId
  | .leaseReclaimed jobId _ => jobId

/-- The state that the job is announced in. -/
def announcedState : Event P R E → ProductState
  | .enqueued job => mapInternalToProductState job.state
  | .leased _ _ _ _ => .running
  | .heartbeat _ _ => .running
  | .completed job => mapInternalToProductState job.state
  | .retried job => mapInternalToProductState job.state
  | .failed job => mapInternalToProductState job.state
  | .cancelled job => mapInternalToProductState job.state
  | .leaseReclaimed _ reEnqueued => if reEnqueued then .queued else .timedOut

def isSubmission : Event P R E → Bool
  | .enqueued _ => true
  | _ => false

/-- What a listener makes of an announcement, when it may be made. -/
def hear (state : Option ProductState) (e : Event P R E) : Option (Option ProductState) :=
  match state with
  | none => if isSubmission e then some (some (announcedState e)) else none
  | some s =>
      if isSubmission e = false ∧ Advances s (announcedState e) then some (some (announcedState e))
      else none

/-- The listener's account of one job. -/
def follow (jobId : String) (state : Option ProductState) (events : List (Event P R E)) :
    Option (Option ProductState) :=
  (events.filter fun e => announcedId e = jobId).foldlM hear state

theorem follow_append (jobId : String) (state : Option ProductState)
    (events rest : List (Event P R E)) :
    follow jobId state (events ++ rest) =
      (follow jobId state events).bind (fun s => follow jobId s rest) := by
  rw [follow, List.filter_append, List.foldlM_append]
  rfl

theorem follow_other {jobId : String} {e : Event P R E} (h : announcedId e ≠ jobId)
    (state : Option ProductState) : follow jobId state [e] = some state := by
  simp [follow, h]

theorem follow_own {jobId : String} {e : Event P R E} (h : announcedId e = jobId)
    (state : Option ProductState) : follow jobId state [e] = hear state e := by
  simp [follow, h]

theorem hear_advances {s : ProductState} {e : Event P R E} {state : Option ProductState}
    (h : hear (some s) e = some state) : ∃ t, state = some t ∧ Advances s t := by
  rw [hear] at h
  split at h
  next hmay => exact ⟨announcedState e, (Option.some.inj h).symm, hmay.2⟩
  next => cases h

/-- What is heard of a job that is known moves it as the state machine allows. -/
theorem reaches_of_follow {jobId : String} {s : ProductState} {state : Option ProductState}
    {events : List (Event P R E)} (h : follow jobId (some s) events = some state) :
    ∃ t, state = some t ∧ ReflTransGen Advances s t := by
  unfold follow at h
  generalize events.filter (fun e => announcedId e = jobId) = heard at h
  induction heard generalizing s with
  | nil => exact ⟨s, (Option.some.inj h).symm, .refl⟩
  | cons e heard ih =>
    rw [List.foldlM_cons] at h
    cases hfirst : hear (some s) e with
    | none =>
      rw [hfirst] at h
      cases h
    | some next =>
      obtain ⟨u, rfl, hstep⟩ := hear_advances hfirst
      rw [hfirst] at h
      obtain ⟨t, rfl, hreaches⟩ := ih h
      exact ⟨t, rfl, .head hstep hreaches⟩

variable {q q' : InMemoryJobQueue P R E}

/-- What the API shows of a job. -/
def shownState (q : InMemoryJobQueue P R E) (jobId : String) : Option ProductState :=
  (q.jobs.get jobId).map fun job => mapInternalToProductState job.state

theorem shownState_set {jobs : InsertionMap String (Job P R E)} {jobId : String} {job : Job P R E}
    (hjobs : q'.jobs = jobs.set jobId job) :
    shownState q' jobId = some (mapInternalToProductState job.state) := by
  rw [shownState, hjobs, InsertionMap.get_set_self]
  rfl

theorem shownState_set_ne {jobId i : String} {job : Job P R E}
    (hjobs : q'.jobs = q.jobs.set jobId job) (h : i ≠ jobId) :
    shownState q' i = shownState q i := by
  rw [shownState, hjobs, InsertionMap.get_set_ne _ _ h]
  rfl

theorem shownState_of_hasState {jobId : String} {state : JobState} (h : q.HasState jobId state) :
    shownState q jobId = some (mapInternalToProductState state) := by
  obtain ⟨job, hjob, rfl⟩ := h
  rw [shownState, hjob]
  rfl

/-- The listener knows every job as the API shows it. -/
structure Followed (q : InMemoryJobQueue P R E) : Prop where
  consistent : q.Consistent
  named : q.Named
  follows : ∀ jobId, follow jobId none q.emitted = some (shownState q jobId)

theorem followed_create (options : Options) :
    Followed (InMemoryJobQueue.create options : InMemoryJobQueue P R E) where
  consistent := InMemoryJobQueue.consistent_create options
  named := InMemoryJobQueue.named_create options
  follows _ := rfl

namespace Followed

/-- An announcement about one job, of its new state. -/
theorem announces (h : Followed q) {jobId : String} {e : Event P R E}
    (hemitted : q'.emitted = q.emitted ++ [e]) (hid : announcedId e = jobId)
    (hothers : ∀ i, i ≠ jobId → shownState q' i = shownState q i)
    (hheard : hear (shownState q jobId) e = some (shownState q' jobId)) (i : String) :
    follow i none q'.emitted = some (shownState q' i) := by
  rw [hemitted, follow_append, h.follows, Option.bind_some]
  by_cases hi : i = jobId
  · subst hi
    rw [follow_own hid, hheard]
  · rw [follow_other (by rw [hid]; exact Ne.symm hi), hothers i hi]

/-- The record of one job is written, and its new state is announced. -/
theorem writes (h : Followed q) {jobId : String} {job : Job P R E} {e : Event P R E}
    (hemitted : q'.emitted = q.emitted ++ [e]) (hid : announcedId e = jobId)
    (hjobs : q'.jobs = q.jobs.set jobId job)
    (hheard : hear (shownState q jobId) e = some (some (mapInternalToProductState job.state)))
    (i : String) : follow i none q'.emitted = some (shownState q' i) := by
  refine h.announces hemitted hid (fun i hi => shownState_set_ne hjobs hi) ?_ i
  rw [hheard, shownState_set hjobs]

theorem settles (h : Followed q) (hturn : InMemoryJobQueue.Settles q q') : Followed q' := by
  refine ⟨h.consistent.settles hturn, h.named.settles hturn, ?_⟩
  cases hturn with
  | released jobId job job' e hjob hl hr =>
    have hs : job.state = .running := hl.elim (h.consistent.state_running hjob) id
    have hid := h.named jobId job hjob
    have hrunning := shownState_of_hasState ⟨job, hjob, hs⟩
    refine h.writes rfl ?_ rfl ?_
    · cases hr <;> simp_all [announcedId]
    · rw [hrunning]
      cases hr <;> subst_vars <;> rfl
  | lapsed jobId hjob => exact h.follows
  | prolonged jobId lease expiresAt updatedAt hl =>
    have hmem : jobId ∈ q.leases.keys := (q.leases.mem_keys_iff jobId).mpr ⟨lease, hl⟩
    obtain ⟨job, hjob, hs⟩ := (h.consistent.leased jobId).mp hmem
    have hrunning := shownState_of_hasState ⟨job, hjob, hs⟩
    have hjobs : InMemoryJobQueue.touch q.jobs jobId updatedAt =
        q.jobs.set jobId { job with updatedAt := updatedAt } := by
      simp [InMemoryJobQueue.touch, hjob]
    have hid : announcedId (Event.heartbeat jobId expiresAt : Event P R E) = jobId := rfl
    refine h.writes rfl hid hjobs ?_
    show _ = some (some (mapInternalToProductState job.state))
    rw [hrunning, hs]
    rfl
  | cancelled jobId job job' error updatedAt hjob hs hj =>
    have hstate := shownState_of_hasState ⟨job, hjob, rfl⟩
    have hid := h.named jobId job hjob
    subst hj
    refine h.writes rfl hid rfl ?_
    rw [hstate]
    exact if_pos ⟨rfl, advances_cancelled hs⟩

theorem leases (h : Followed q) {token : String} {answer : Option (Job P R E × String × ℤ)}
    (hturn : InMemoryJobQueue.Leases q token q' answer) : Followed q' := by
  refine ⟨h.consistent.leases hturn, h.named.leases hturn, ?_⟩
  cases hturn with
  | idle => exact h.follows
  | dropped jobId rest hw hjob => exact h.follows
  | leased jobId rest job job' lease updatedAt hw hjob hs hfree ht hj =>
    have hqueued := shownState_of_hasState ⟨job, hjob, hs⟩
    have hid : announcedId (Event.leased jobId lease.workerId token lease.expiresAt : Event P R E) =
        jobId := rfl
    subst hj
    refine h.writes rfl hid rfl ?_
    rw [hqueued]
    rfl

theorem enqueues (h : Followed q) {jobId : String} (hturn : InMemoryJobQueue.Enqueues q jobId q')
    (hfresh : q.jobs.get jobId = none) : Followed q' := by
  refine ⟨h.consistent.enqueues hturn hfresh, h.named.enqueues hturn, ?_⟩
  cases hturn with
  | refused => exact h.follows
  | accepted job idempotencyMap hroom hid hs ha hm =>
    refine h.writes rfl hid rfl ?_
    rw [shownState, hfresh]
    rfl

theorem step (h : Followed q) {op : Op P R E}
    (hfresh : ∀ jobId, op.newId = some jobId → q.jobs.get jobId = none) :
    Followed (q.step op).1 :=
  InMemoryJobQueue.step_keeps Followed q op (fun hturn hq => hq.settles hturn)
    (fun hturn hq => hq.leases hturn)
    (fun jobId _ hid hturn => h.enqueues hturn (hfresh jobId hid)) h

theorem run (h : Followed q) (ops : List (Op P R E)) (hfresh : q.FreshIds ops) :
    Followed (q.run ops) := by
  induction ops generalizing q with
  | nil => exact h
  | cons op ops ih => exact ih (h.step hfresh.1) hfresh.2

end Followed

theorem emitted_settles (hturn : InMemoryJobQueue.Settles q q') : q.emitted <+: q'.emitted := by
  cases hturn <;> first | exact List.prefix_append _ _ | exact List.prefix_rfl

theorem emitted_step (q : InMemoryJobQueue P R E) (op : Op P R E) :
    q.emitted <+: (q.step op).1.emitted := by
  apply InMemoryJobQueue.step_keeps (fun q' => q.emitted <+: q'.emitted) q op
  · exact fun hturn h => h.trans (emitted_settles hturn)
  · intro q₁ q₂ token answer hturn h
    cases hturn with
    | idle => exact h
    | dropped jobId rest hw hjob => exact h
    | leased => exact h.trans (List.prefix_append _ _)
  · intro jobId q' hid hturn
    cases hturn with
    | refused => exact List.prefix_rfl
    | accepted => exact List.prefix_append _ _
  · exact List.prefix_rfl

theorem emitted_run (q : InMemoryJobQueue P R E) (ops : List (Op P R E)) :
    q.emitted <+: (q.run ops).emitted := by
  induction ops generalizing q with
  | nil => exact List.prefix_rfl
  | cons op ops ih => exact (emitted_step q op).trans (ih _)

/-- A listener can follow what the queue announces over every run, knows every job as the API
shows it in the end, and between two moments the API shows only moves of the state machine. -/
theorem product_lifecycle (options : Options) (ops : List (Op P R E))
    (hfresh : (InMemoryJobQueue.create options : InMemoryJobQueue P R E).FreshIds ops) :
    let start : InMemoryJobQueue P R E := InMemoryJobQueue.create options
    (∀ jobId, follow jobId none (start.run ops).emitted =
      some (shownState (start.run ops) jobId)) ∧
    ∀ earlier later, ops = earlier ++ later → ∀ jobId s,
      shownState (start.run earlier) jobId = some s →
        ∃ t, shownState (start.run ops) jobId = some t ∧ ReflTransGen Advances s t := by
  intro start
  have hstart : Followed start := followed_create options
  refine ⟨(hstart.run ops hfresh).follows, ?_⟩
  rintro earlier later rfl jobId s hs
  obtain ⟨hbefore, hafter⟩ := (InMemoryJobQueue.freshIds_append _ earlier later).mp hfresh
  have hmid : Followed (start.run earlier) := hstart.run earlier hbefore
  obtain ⟨events, hevents⟩ := emitted_run (start.run earlier) later
  have hend := (hmid.run later hafter).follows jobId
  rw [← hevents, follow_append, hmid.follows, hs, Option.bind_some] at hend
  rw [InMemoryJobQueue.run_append]
  exact reaches_of_follow hend

/-- The job that is leased and handed back is followed from its submission on. -/
theorem product_lifecycle_retried :
    let q := (InMemoryJobQueue.create InMemoryJobQueue.plainOptions :
      InMemoryJobQueue Unit Unit Unit).run InMemoryJobQueue.retriedJob
    follow "job-1" none q.emitted = some (shownState q "job-1") :=
  (product_lifecycle InMemoryJobQueue.plainOptions InMemoryJobQueue.retriedJob
    InMemoryJobQueue.retriedJob_fresh).1 "job-1"

end Listening
end LuaRecovery.Api
