import LuaRecovery.Api.Submission
import LuaRecovery.Lib.ListEntries
import LuaRecovery.Queue.QueueInvariant

/-!
# The cancellation handler of the API server

A handler looks the job up, waits, cancels what it saw to be live, waits again
and confirms. Between its steps the workers of the queue lease, complete, fail
and reclaim jobs; what the gateway answered to the cancellation is not read.
-/

set_option autoImplicit false

namespace LuaRecovery.Api
open LuaRecovery.Lib LuaRecovery.Queue LuaRecovery.Gateway

def cancellableProductStates : List ProductState := [.queued, .leased, .running]

def ProductState.name : ProductState → String
  | .queued => "QUEUED"
  | .leased => "LEASED"
  | .running => "RUNNING"
  | .succeeded => "SUCCEEDED"
  | .failed => "FAILED"
  | .timedOut => "TIMED_OUT"
  | .cancelled => "CANCELLED"

inductive CancelResponse where
  | confirmed (jobId : String) (cancelledAt : ℤ)
  | refused (error : ApiError)

inductive CancelPhase where
  | looking
  | cancelling
  | finished (response : CancelResponse)

structure CancelHandler (Report Fault : Type) where
  jobId : String
  principalId : String
  job : Option (GatewayJob Report Fault)
  phase : CancelPhase

structure CancelServer (Report Fault : Type) where
  gateway : RecoveryGateway Report Fault
  handlers : List (CancelHandler Report Fault)

inductive CancelEvent (Report Fault : Type) where
  | request (jobId principalId : String)
  | resume (i : ℕ) (clock : Clock)
  | queue (op : GatewayOp Report Fault)

/-- What is answered when the gateway does not show the job. -/
def lookupRefused (jobId : String) (error : GatewayError) : ApiError :=
  if error.code = some "FORBIDDEN" then
    ⟨"FORBIDDEN", "Access denied: You do not own job " ++ jobId, 403⟩
  else ⟨"JOB_NOT_FOUND", "Job not found: " ++ jobId, 404⟩

def notCancellable (jobId : String) (currentState : ProductState) : ApiError :=
  ⟨"JOB_NOT_CANCELLABLE", "Cannot cancel job '" ++ jobId ++ "' in terminal state '" ++
    currentState.name ++ "'", 409⟩

def cancelRefused (error : GatewayError) : ApiError :=
  if error.code = some "FORBIDDEN" then ⟨"FORBIDDEN", error.message, 403⟩
  else internalError error

section
variable {Report Fault : Type}

def CancelHandler.finish (h : CancelHandler Report Fault) (response : CancelResponse) :
    CancelHandler Report Fault :=
  { h with phase := .finished response }

namespace CancelServer

/-- The handler of a new request, up to its first wait. -/
def look (s : CancelServer Report Fault) (jobId principalId : String) :
    CancelHandler Report Fault :=
  match s.gateway.ownJob jobId principalId with
  | .error error => ⟨jobId, principalId, none, .finished (.refused (lookupRefused jobId error))⟩
  | .ok job => ⟨jobId, principalId, some job, .looking⟩

/-- The handler goes on with the job as it was when it was looked up. -/
def cancel (s : CancelServer Report Fault) (h : CancelHandler Report Fault)
    (job : GatewayJob Report Fault) (clock : Clock) :
    RecoveryGateway Report Fault × CancelHandler Report Fault :=
  let currentState := mapInternalToProductState job.state
  if currentState ∉ cancellableProductStates then
    (s.gateway, h.finish (.refused (notCancellable h.jobId currentState)))
  else
    match s.gateway.cancelJob h.jobId h.principalId (some "User requested cancellation") clock with
    | (gateway, .error error) => (gateway, h.finish (.refused (cancelRefused error)))
    | (gateway, .ok _) => (gateway, { h with phase := .cancelling })

/-- A submission draws an id that no job has yet. -/
def step (s : CancelServer Report Fault) :
    CancelEvent Report Fault → Option (CancelServer Report Fault)
  | .request jobId principalId =>
      some { s with handlers := s.handlers ++ [s.look jobId principalId] }
  | .resume i clock =>
    s.handlers[i]?.bind fun h =>
      match h.phase, h.job with
      | .looking, some job =>
        let (gateway, h') := s.cancel h job clock
        some ⟨gateway, s.handlers.set i h'⟩
      | .cancelling, _ =>
          some ⟨s.gateway, s.handlers.set i (h.finish (.confirmed h.jobId clock.now))⟩
      | _, _ => none
  | .queue op =>
    if (op.newId.bind s.gateway.queue.jobs.get).isNone then
      some { s with gateway := { s.gateway with queue := (s.gateway.queue.step op).1 } }
    else none

def system (start : RecoveryGateway Report Fault) :
    System (CancelServer Report Fault) (CancelEvent Report Fault) where
  start := ⟨start, []⟩
  step := step

/-- A job that is reported as cancelled is; an owner who is refused hears at which end the job
has come. -/
def TellsTruth (q : GatewayQueue Report Fault) (h : CancelHandler Report Fault) : Prop :=
  match h.phase with
  | .finished (.confirmed jobId _) => q.HasState jobId .cancelled
  | .finished (.refused error) => h.job ≠ none → ∃ job, q.jobs.get h.jobId = some job ∧
      job.state.Terminal ∧ error = notCancellable h.jobId (mapInternalToProductState job.state)
  | _ => True

def Truthful (s : CancelServer Report Fault) : Prop :=
  ∀ h ∈ s.handlers, TellsTruth s.gateway.queue h

/-- A job that was live when it was looked up has not come to another end when the handler goes
on to cancel it. -/
def InTime (s : CancelServer Report Fault) : CancelEvent Report Fault → Prop
  | .resume i _ => ∀ h seen job, s.handlers[i]? = some h → h.phase = .looking →
      h.job = some seen → ¬ seen.state.Terminal → s.gateway.queue.jobs.get h.jobId = some job →
        job.state.Terminal → job.state = .cancelled
  | _ => True

/-- Every request has been answered. -/
def Answered (s : CancelServer Report Fault) : Prop :=
  ∀ h ∈ s.handlers, ∃ response, h.phase = .finished response

theorem cancellable_iff (state : JobState) :
    mapInternalToProductState state ∈ cancellableProductStates ↔ ¬ state.Terminal := by
  cases state <;> decide

/-- What a handler may rely on: it looked at a job of its principal's, and a job that was over then
is as it was. -/
structure SoundFor (q : GatewayQueue Report Fault) (h : CancelHandler Report Fault) : Prop where
  owned : ∀ job, h.job = some job → q.OwnedBy h.principalId h.jobId
  settled : ∀ job, h.job = some job → job.state.Terminal → q.jobs.get h.jobId = some job

structure Sound (s : CancelServer Report Fault) : Prop where
  consistent : s.gateway.queue.Consistent
  handlers : ∀ h ∈ s.handlers, SoundFor s.gateway.queue h

/-- The job will be reported as cancelled although it has come to another end. -/
def Misled (q : GatewayQueue Report Fault) (h : CancelHandler Report Fault) : Prop :=
  (h.phase = .cancelling ∨ ∃ at', h.phase = .finished (.confirmed h.jobId at')) ∧
    ∃ job, q.jobs.get h.jobId = some job ∧ job.state.Terminal ∧ job.state ≠ .cancelled

/-- The handler tells the truth, or it will. -/
def Honest (q : GatewayQueue Report Fault) (h : CancelHandler Report Fault) : Prop :=
  TellsTruth q h ∧ (h.phase = .cancelling → q.HasState h.jobId .cancelled)

/-- What a call on the queue leaves as it was. -/
structure Progress (q q' : GatewayQueue Report Fault) : Prop where
  terminal : ∀ jobId job, q.jobs.get jobId = some job → job.state.Terminal →
    q'.jobs.get jobId = some job
  owned : ∀ principalId jobId, q.OwnedBy principalId jobId → q'.OwnedBy principalId jobId

section
variable {s s' : CancelServer Report Fault} {q q' : GatewayQueue Report Fault}
  {h : CancelHandler Report Fault} {job : GatewayJob Report Fault}

theorem Progress.refl (q : GatewayQueue Report Fault) : Progress q q :=
  ⟨fun _ _ h _ => h, fun _ _ h => h⟩

theorem step_progress (hq : q.Consistent) (op : GatewayOp Report Fault)
    (hfresh : ∀ jobId, op.newId = some jobId → q.jobs.get jobId = none) :
    Progress q (q.step op).1 where
  terminal _ _ hget hs := InMemoryJobQueue.run_terminal [op] hq ⟨hfresh, trivial⟩ hget hs
  owned _ _ howned := howned.step op hfresh

theorem HasState.progress (hprog : Progress q q') {jobId : String} {state : JobState}
    (hs : state.Terminal) (h : q.HasState jobId state) : q'.HasState jobId state := by
  obtain ⟨job, hget, rfl⟩ := h
  exact ⟨job, hprog.terminal jobId job hget hs, rfl⟩

theorem SoundFor.progress (h' : SoundFor q h) (hprog : Progress q q') : SoundFor q' h where
  owned job hjob := hprog.owned _ _ (h'.owned job hjob)
  settled job hjob hs := hprog.terminal _ _ (h'.settled job hjob hs) hs

theorem Misled.progress (h' : Misled q h) (hprog : Progress q q') : Misled q' h := by
  obtain ⟨hphase, job, hget, hs, hne⟩ := h'
  exact ⟨hphase, job, hprog.terminal _ _ hget hs, hs, hne⟩

theorem TellsTruth.progress (h' : TellsTruth q h) (hprog : Progress q q') : TellsTruth q' h := by
  unfold TellsTruth at h' ⊢
  split
  next hphase =>
    rw [hphase] at h'
    exact HasState.progress hprog (by decide) h'
  next hphase =>
    rw [hphase] at h'
    intro hjob
    obtain ⟨job, hget, hs, herror⟩ := h' hjob
    exact ⟨job, hprog.terminal _ _ hget hs, hs, herror⟩
  next => trivial

theorem Honest.progress (h' : Honest q h) (hprog : Progress q q') : Honest q' h :=
  ⟨h'.1.progress hprog, fun hphase => HasState.progress hprog (by decide) (h'.2 hphase)⟩

theorem soundFor_of_none (hjob : h.job = none) : SoundFor q h := by
  have hnone : ∀ job, h.job ≠ some job := fun job heq => by
    rw [hjob] at heq
    cases heq
  exact ⟨fun job heq => absurd heq (hnone job), fun job heq => absurd heq (hnone job)⟩

theorem look_sound (s : CancelServer Report Fault) (jobId principalId : String) :
    SoundFor s.gateway.queue (s.look jobId principalId) := by
  unfold look RecoveryGateway.ownJob
  cases hget : s.gateway.queue.jobs.get jobId with
  | none => exact soundFor_of_none rfl
  | some job =>
    by_cases howner : job.principalId = principalId
    · simp only [howner, ne_eq, not_true_eq_false, if_false]
      refine ⟨fun _ _ => ⟨job, hget, howner⟩, fun seen hseen _ => ?_⟩
      obtain rfl : job = seen := Option.some.inj hseen
      exact hget
    · simp only [howner, ne_eq, not_false_eq_true, if_true]
      exact soundFor_of_none rfl

/-- A new handler looks at its job, or it was refused before it saw one. -/
theorem look_phase (s : CancelServer Report Fault) (jobId principalId : String) :
    (s.look jobId principalId).phase = .looking ∨ (s.look jobId principalId).job = none ∧
      ∃ error, (s.look jobId principalId).phase = .finished (.refused error) := by
  unfold look
  split
  · exact .inr ⟨rfl, _, rfl⟩
  · exact .inl rfl

theorem look_honest (s : CancelServer Report Fault) (jobId principalId : String) :
    Honest s.gateway.queue (s.look jobId principalId) := by
  unfold Honest TellsTruth
  rcases look_phase s jobId principalId with hphase | ⟨hjob, error, hphase⟩
  · rw [hphase]
    exact ⟨trivial, fun hne => by cases hne⟩
  · rw [hphase, hjob]
    exact ⟨fun hne => absurd rfl hne, fun hne => by cases hne⟩

/-- What becomes of a job that is cancelled: one that is over is left as it is. -/
theorem cancelJob_get (hget : q.jobs.get h.jobId = some job) (reason : Option String)
    (clock : Clock) : ∃ job', (q.cancelJob h.jobId reason clock).1.jobs.get h.jobId = some job' ∧
      job'.state = if job.state.Terminal then job.state else .cancelled := by
  unfold InMemoryJobQueue.cancelJob
  rw [hget]
  by_cases hs : job.state.Terminal
  · simp only [if_pos hs]
    exact ⟨job, hget, rfl⟩
  · simp only [if_neg hs]
    exact ⟨_, InsertionMap.get_set_self _ _ _, rfl⟩

theorem gateway_cancelJob {g : RecoveryGateway Report Fault}
    (howned : g.queue.OwnedBy h.principalId h.jobId) (reason : Option String) (clock : Clock) :
    ∃ g' accepted, g.cancelJob h.jobId h.principalId reason clock = (g', .ok accepted) ∧
      g'.queue = (g.queue.step (.cancelJob h.jobId reason clock)).1 := by
  obtain ⟨job, hget, hp⟩ := howned
  unfold RecoveryGateway.cancelJob RecoveryGateway.ownJob
  simp only [hget, hp, ne_eq, not_true_eq_false, if_false]
  cases hcancel : g.queue.cancelJob h.jobId reason clock with
  | mk queue accepted =>
    cases accepted with
    | true =>
      refine ⟨_, _, rfl, ?_⟩
      rw [InMemoryJobQueue.step, hcancel]
      rfl
    | false =>
      refine ⟨_, _, rfl, ?_⟩
      rw [InMemoryJobQueue.step, hcancel]
      rfl

/-- What a step does. -/
inductive Moves (s : CancelServer Report Fault) :
    CancelEvent Report Fault → CancelServer Report Fault → Prop where
  | asks (jobId principalId : String) :
      Moves s (.request jobId principalId)
        { s with handlers := s.handlers ++ [s.look jobId principalId] }
  | calls (op : GatewayOp Report Fault)
      (hfresh : ∀ jobId, op.newId = some jobId → s.gateway.queue.jobs.get jobId = none) :
      Moves s (.queue op) { s with gateway := { s.gateway with
        queue := (s.gateway.queue.step op).1 } }
  | refuses (i : ℕ) (clock : Clock) (h : CancelHandler Report Fault)
      (job : GatewayJob Report Fault) (hget : s.handlers[i]? = some h)
      (hphase : h.phase = .looking) (hjob : h.job = some job) (hs : job.state.Terminal) :
      Moves s (.resume i clock) ⟨s.gateway, s.handlers.set i
        (h.finish (.refused (notCancellable h.jobId (mapInternalToProductState job.state))))⟩
  | cancels (i : ℕ) (clock : Clock) (h : CancelHandler Report Fault)
      (job : GatewayJob Report Fault) (g : RecoveryGateway Report Fault) (reason : Option String)
      (hget : s.handlers[i]? = some h) (hphase : h.phase = .looking) (hjob : h.job = some job)
      (hs : ¬ job.state.Terminal)
      (hq : g.queue = (s.gateway.queue.step (.cancelJob h.jobId reason clock)).1) :
      Moves s (.resume i clock) ⟨g, s.handlers.set i { h with phase := .cancelling }⟩
  | confirms (i : ℕ) (clock : Clock) (h : CancelHandler Report Fault)
      (hget : s.handlers[i]? = some h) (hphase : h.phase = .cancelling) :
      Moves s (.resume i clock)
        ⟨s.gateway, s.handlers.set i (h.finish (.confirmed h.jobId clock.now))⟩

theorem moves_of_step {e : CancelEvent Report Fault} (hs : Sound s) (hstep : s.step e = some s') :
    Moves s e s' := by
  cases e with
  | request jobId principalId => exact Option.some.inj hstep ▸ .asks jobId principalId
  | queue op =>
    unfold step at hstep
    dsimp only at hstep
    split at hstep
    next hfresh =>
      obtain rfl := Option.some.inj hstep
      refine .calls op fun jobId hid => ?_
      rw [hid] at hfresh
      exact Option.isNone_iff_eq_none.mp hfresh
    next => cases hstep
  | resume i clock =>
    obtain ⟨h, hget, hrest⟩ := Option.bind_eq_some_iff.mp hstep
    split at hrest
    next job hphase hjob =>
      unfold cancel at hrest
      by_cases hterm : job.state.Terminal
      · simp only [cancellable_iff, hterm, not_true_eq_false, not_false_eq_true, if_true] at hrest
        obtain rfl := Option.some.inj hrest
        exact .refuses i clock h job hget hphase hjob hterm
      · have howned := (hs.handlers h (List.mem_of_getElem? hget)).owned job hjob
        obtain ⟨g, accepted, hcancel, hq⟩ :=
          gateway_cancelJob howned (some "User requested cancellation") clock
        simp only [cancellable_iff, hterm, not_true_eq_false, not_false_eq_true, if_false,
          hcancel] at hrest
        obtain rfl := Option.some.inj hrest
        exact .cancels i clock h job g _ hget hphase hjob hterm hq
    next hphase =>
      obtain rfl := Option.some.inj hrest
      exact .confirms i clock h hget hphase
    next => cases hrest

theorem Moves.progress {e : CancelEvent Report Fault} (hm : Moves s e s') (hs : Sound s) :
    Progress s.gateway.queue s'.gateway.queue ∧ s'.gateway.queue.Consistent := by
  cases hm with
  | calls op hfresh =>
    exact ⟨step_progress hs.consistent op hfresh,
      InMemoryJobQueue.step_consistent hs.consistent hfresh⟩
  | cancels i clock h job g reason hget hphase hjob hterm hq =>
    have hfresh : ∀ jobId,
        (Op.cancelJob h.jobId reason clock : GatewayOp Report Fault).newId = some jobId →
          s.gateway.queue.jobs.get jobId = none := fun jobId hid => by cases hid
    show Progress s.gateway.queue g.queue ∧ g.queue.Consistent
    rw [hq]
    exact ⟨step_progress hs.consistent _ hfresh,
      InMemoryJobQueue.step_consistent hs.consistent hfresh⟩
  | _ => exact ⟨.refl _, hs.consistent⟩

theorem Moves.sound {e : CancelEvent Report Fault} (hm : Moves s e s') (hs : Sound s) :
    Sound s' := by
  obtain ⟨hprog, hconsistent⟩ := hm.progress hs
  have hmoved : ∀ h ∈ s.handlers, SoundFor s'.gateway.queue h :=
    fun h hh => (hs.handlers h hh).progress hprog
  refine ⟨hconsistent, ?_⟩
  cases hm with
  | asks jobId principalId =>
    intro h hh
    rcases List.mem_append.mp hh with hh | hh
    · exact hmoved h hh
    · rw [List.mem_singleton.mp hh]
      exact look_sound s jobId principalId
  | calls op hfresh => exact hmoved
  | refuses i clock h job hget hphase hjob hterm =>
    have hold := hmoved h (List.mem_of_getElem? hget)
    refine forall_set hmoved ?_ i
    exact ⟨hold.owned, hold.settled⟩
  | cancels i clock h job g reason hget hphase hjob hterm hq =>
    have hold := hmoved h (List.mem_of_getElem? hget)
    refine forall_set hmoved ?_ i
    exact ⟨hold.owned, hold.settled⟩
  | confirms i clock h hget hphase =>
    have hold := hmoved h (List.mem_of_getElem? hget)
    refine forall_set hmoved ?_ i
    exact ⟨hold.owned, hold.settled⟩

/-- A cancellation that comes in time leaves its job cancelled. -/
theorem cancelled_of_inTime {i : ℕ} {clock : Clock} {reason : Option String} (hs : Sound s)
    (hget : s.handlers[i]? = some h) (hphase : h.phase = .looking) (hjob : h.job = some job)
    (hterm : ¬ job.state.Terminal) (hin : s.InTime (.resume i clock)) :
    (s.gateway.queue.step (.cancelJob h.jobId reason clock)).1.HasState h.jobId .cancelled := by
  obtain ⟨now, hnow, -⟩ := (hs.handlers h (List.mem_of_getElem? hget)).owned job hjob
  obtain ⟨job', hget', hstate⟩ := cancelJob_get hnow reason clock
  refine ⟨job', hget', hstate.trans ?_⟩
  split
  next hover => exact hin h job now hget hphase hjob hterm hnow hover
  next => rfl

theorem Moves.honest {e : CancelEvent Report Fault} (hm : Moves s e s') (hs : Sound s)
    (hin : s.InTime e) (hh : ∀ h ∈ s.handlers, Honest s.gateway.queue h) :
    ∀ h ∈ s'.handlers, Honest s'.gateway.queue h := by
  obtain ⟨hprog, -⟩ := hm.progress hs
  have hmoved : ∀ h ∈ s.handlers, Honest s'.gateway.queue h :=
    fun h hmem => (hh h hmem).progress hprog
  cases hm with
  | asks jobId principalId =>
    intro h hmem
    rcases List.mem_append.mp hmem with hmem | hmem
    · exact hmoved h hmem
    · rw [List.mem_singleton.mp hmem]
      exact look_honest s jobId principalId
  | calls op hfresh => exact hmoved
  | refuses i clock h job hget hphase hjob hterm =>
    have hseen := (hs.handlers h (List.mem_of_getElem? hget)).settled job hjob hterm
    refine forall_set hmoved ?_ i
    exact ⟨fun _ => ⟨job, hseen, hterm, rfl⟩, fun hne => by cases hne⟩
  | cancels i clock h job g reason hget hphase hjob hterm hq =>
    refine forall_set hmoved ?_ i
    refine ⟨trivial, fun _ => ?_⟩
    show g.queue.HasState h.jobId .cancelled
    rw [hq]
    exact cancelled_of_inTime hs hget hphase hjob hterm hin
  | confirms i clock h hget hphase =>
    have hcancelled := (hmoved h (List.mem_of_getElem? hget)).2 hphase
    refine forall_set hmoved ?_ i
    exact ⟨hcancelled, fun hne => by cases hne⟩

/-- A cancellation that comes too late misleads its handler. -/
theorem Moves.misled {e : CancelEvent Report Fault} (hm : Moves s e s')
    (hin : ¬ s.InTime e) : ∃ h ∈ s'.handlers, Misled s'.gateway.queue h := by
  cases e with
  | request jobId principalId => exact absurd trivial hin
  | queue op => exact absurd trivial hin
  | resume i clock =>
    simp only [InTime, not_forall] at hin
    obtain ⟨h, seen, now, hget, hphase, hseen, hlive, hnow, hover, hne⟩ := hin
    cases hm with
    | refuses _ _ h' job hget' hphase' hjob hterm =>
      obtain rfl : h = h' := Option.some.inj (hget.symm.trans hget')
      obtain rfl : seen = job := Option.some.inj (hseen.symm.trans hjob)
      exact absurd hterm hlive
    | cancels _ _ h' job g reason hget' hphase' hjob hterm hq =>
      obtain rfl : h = h' := Option.some.inj (hget.symm.trans hget')
      obtain ⟨job', hjob', hstate⟩ := cancelJob_get hnow reason clock
      rw [if_pos hover] at hstate
      refine ⟨{ h with phase := .cancelling }, ?_, .inl rfl, job', ?_, ?_, ?_⟩
      · exact List.mem_iff_getElem?.mpr ⟨i, by simp [List.getElem?_set_self', hget]⟩
      · exact (congrArg (fun q => q.jobs.get h.jobId) hq).trans hjob'
      · rwa [hstate]
      · rwa [hstate]
    | confirms _ _ h' hget' hphase' =>
      obtain rfl : h = h' := Option.some.inj (hget.symm.trans hget')
      rw [hphase] at hphase'
      cases hphase'

theorem Misled.moves {e : CancelEvent Report Fault} (hm : Moves s e s') (hs : Sound s)
    (h' : ∃ h ∈ s.handlers, Misled s.gateway.queue h) :
    ∃ h ∈ s'.handlers, Misled s'.gateway.queue h := by
  obtain ⟨hprog, -⟩ := hm.progress hs
  obtain ⟨h, hmem, hmisled⟩ := h'
  have hmoved : Misled s'.gateway.queue h := hmisled.progress hprog
  have hne : ∀ old, old.phase = .looking → h ≠ old := by
    rintro old hphase rfl
    rcases hmisled.1 with hc | ⟨at', hc⟩
    · rw [hphase] at hc
      cases hc
    · rw [hphase] at hc
      cases hc
  cases hm with
  | asks jobId principalId => exact ⟨h, List.mem_append.mpr (.inl hmem), hmoved⟩
  | calls op hfresh => exact ⟨h, hmem, hmoved⟩
  | refuses i clock old job hget hphase hjob hterm =>
    exact ⟨h, mem_set_of_ne hget hmem (hne old hphase), hmoved⟩
  | cancels i clock old job g reason hget hphase hjob hterm hq =>
    exact ⟨h, mem_set_of_ne hget hmem (hne old hphase), hmoved⟩
  | confirms i clock old hget hphase =>
    by_cases hsame : h = old
    · subst hsame
      refine ⟨h.finish (.confirmed h.jobId clock.now), ?_, .inr ⟨clock.now, rfl⟩, hmoved.2⟩
      exact List.mem_iff_getElem?.mpr ⟨i, by simp [List.getElem?_set_self', hget]⟩
    · exact ⟨h, mem_set_of_ne hget hmem hsame, hmoved⟩

theorem not_truthful_of_misled (h' : ∃ h ∈ s.handlers, Misled s.gateway.queue h)
    (hover : Answered s) : ¬ Truthful s := by
  obtain ⟨h, hmem, hphase, job, hget, -, hne⟩ := h'
  intro htrue
  have htells := htrue h hmem
  obtain ⟨response, hresponse⟩ := hover h hmem
  rcases hphase with hphase | ⟨at', hphase⟩
  · rw [hphase] at hresponse
    cases hresponse
  · rw [TellsTruth, hphase] at htells
    obtain ⟨job', hget', hstate⟩ := htells
    obtain rfl : job = job' := Option.some.inj (hget.symm.trans hget')
    exact hne hstate

theorem sound_create (limits : RateLimiterOptions) (options : Options) (retentionMs : ℤ) :
    Sound (⟨.create limits options retentionMs, []⟩ : CancelServer Report Fault) where
  consistent := InMemoryJobQueue.consistent_create options
  handlers := by simp

theorem honest_truthful (hh : ∀ h ∈ s.handlers, Honest s.gateway.queue h) : Truthful s :=
  fun h hmem => (hh h hmem).1

end

/-- Every answer is true, and stays so, where each cancellation comes in time; and where one comes
too late, an answer is false once every request has been answered. -/
theorem cancellation_truthful_iff (limits : RateLimiterOptions) (options : Options)
    (retentionMs : ℤ) (events : List (CancelEvent Report Fault)) :
    let sys := system (.create limits options retentionMs : RecoveryGateway Report Fault)
    (sys.Meets InTime events → sys.Always Truthful events) ∧
      ∀ t, sys.run events = some t → Answered t →
        (sys.Always Truthful events ↔ sys.Meets InTime events) := by
  intro sys
  have hstart : Sound sys.start := sound_create limits options retentionMs
  have hstep : ∀ s e s', Sound s → sys.step s e = some s' → Sound s' :=
    fun s e s' hs hse => (moves_of_step hs hse).sound hs
  have htruth : sys.Meets InTime events → sys.Always Truthful events := by
    have hinv : ∀ s e s', (Sound s ∧ ∀ h ∈ s.handlers, Honest s.gateway.queue h) → InTime s e →
        sys.step s e = some s' → Sound s' ∧ ∀ h ∈ s'.handlers, Honest s'.gateway.queue h := by
      rintro s e s' ⟨hs, hh⟩ hin hse
      have hm := moves_of_step hs hse
      exact ⟨hm.sound hs, hm.honest hs hin hh⟩
    have hnone : ∀ h ∈ sys.start.handlers, Honest sys.start.gateway.queue h :=
      fun h hmem => by cases hmem
    exact System.always_of_invariant (fun s hs => honest_truthful hs.2) hinv ⟨hstart, hnone⟩
  refine ⟨htruth, fun t ht hover => ⟨fun halways => ?_, htruth⟩⟩
  have hdoom : ∀ s e s', Sound s → sys.step s e = some s' → ¬ InTime s e →
      ∃ h ∈ s'.handlers, Misled s'.gateway.queue h :=
    fun s e s' hs hse hin => (moves_of_step hs hse).misled hin
  have hkeep : ∀ s e s', (Sound s ∧ ∃ h ∈ s.handlers, Misled s.gateway.queue h) →
      sys.step s e = some s' → Sound s' ∧ ∃ h ∈ s'.handlers, Misled s'.gateway.queue h :=
    fun s e s' hs hse => ⟨hstep s e s' hs.1 hse, Misled.moves (moves_of_step hs.1 hse) hs.1 hs.2⟩
  have hlies : ∀ s : CancelServer Report Fault, (∃ h ∈ s.handlers, Misled s.gateway.queue h) →
      Answered s → ¬ Truthful s := fun s => not_truthful_of_misled
  exact System.meets_of_always hstep hdoom hkeep hlies hstart ht hover halways

def plainCancel : System (CancelServer Unit Unit) (CancelEvent Unit Unit) :=
  system (.create RecoveryGateway.plainLimits RecoveryGateway.plainQueue 1000)

def aJob : JobData Payload :=
  ⟨some "job-1", none, some "alice",
    (RecoveryGateway.submission "alice" "" "1").request.payload "job-1" [0x78]⟩

/-- A job is leased when its owner asks for its end. -/
def askedFor : List (CancelEvent Unit Unit) :=
  [.queue (.enqueue aJob "" ⟨0, 0⟩), .queue (.leaseNextJob "worker" none "token" ⟨1, 1⟩),
    .request "job-1" "alice"]

def cancelNow : List (CancelEvent Unit Unit) := [.resume 0 ⟨3, 3⟩, .resume 0 ⟨4, 4⟩]

/-- The worker is done when the handler goes on. -/
def workerDone : CancelEvent Unit Unit :=
  .queue (.completeJob "job-1" "token" ⟨.completed, none, none, none⟩ ⟨2, 2⟩)

theorem cancelled_in_time : plainCancel.Always Truthful (askedFor ++ cancelNow) := by
  refine (cancellation_truthful_iff RecoveryGateway.plainLimits RecoveryGateway.plainQueue 1000
    (askedFor ++ cancelNow)).1 ?_
  refine (System.meetsFrom_cons rfl).mpr ⟨trivial, (System.meetsFrom_cons rfl).mpr ⟨trivial,
    (System.meetsFrom_cons rfl).mpr ⟨trivial, (System.meetsFrom_cons rfl).mpr ⟨?_,
      (System.meetsFrom_cons rfl).mpr ⟨?_, trivial⟩⟩⟩⟩⟩
  · intro h seen job hget hphase hseen hlive hjob hover
    obtain rfl := Option.some.inj hget
    obtain rfl := Option.some.inj hjob
    exact absurd hover (by decide)
  · intro h seen job hget hphase
    obtain rfl := Option.some.inj hget
    cases hphase

/-- The worker completes the job while the handler waits, and the job is reported as cancelled. -/
theorem cancelled_too_late : ¬ plainCancel.Always Truthful (askedFor ++ workerDone :: cancelNow) := by
  intro h
  have hrun : plainCancel.run (askedFor ++ workerDone :: cancelNow) =
      some ((plainCancel.run (askedFor ++ workerDone :: cancelNow)).getD plainCancel.start) := rfl
  obtain ⟨job, hget, hstate⟩ := h.last hrun _ (List.mem_singleton.mpr rfl)
  have hdone : some job.state = some .completed :=
    congrArg (Option.map (fun job : GatewayJob Unit Unit => job.state)) hget.symm
  rw [hstate] at hdone
  cases hdone

end CancelServer
end
end LuaRecovery.Api
