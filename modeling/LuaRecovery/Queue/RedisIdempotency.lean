import LuaRecovery.Queue.RedisCommands

/-!
# Submissions under one idempotency key

A call looks its key up first and records it last, several commands later.
Until then another call finds nothing under the key either.
-/

set_option autoImplicit false

namespace LuaRecovery.Queue
open LuaRecovery.Lib

section
variable {P R E : Type}

/-- The call has found nothing under its key and has not been refused. -/
def EnqueuePhase.Files : EnqueuePhase P R E → Prop
  | .depth => True
  | .setJob _ => True
  | .push _ => True
  | .setKey _ _ => True
  | .returned (.ok (_, false)) => True
  | _ => False

/-- The reply to the lookup is that there is nothing. -/
def EnqueuePhase.Misses (s : RedisStore P R E) : EnqueuePhase P R E → Prop
  | .findKey key => s.idemp key = none ∨ s.idemp key = some ""
  | .findJob jobId => s.job jobId = none
  | _ => False

namespace Call

def FilesUnder (key : String) : Call P R E → Prop
  | .enqueue sub phase => sub.key = some key ∧ phase.Files
  | _ => False

def MissesUnder (s : RedisStore P R E) (key : String) : Call P R E → Prop
  | .enqueue sub phase => sub.key = some key ∧ phase.Misses s
  | _ => False

def HasKey (key : String) : Call P R E → Prop
  | .enqueue sub _ => sub.key = some key
  | _ => False

instance (key : String) (c : Call P R E) : Decidable (c.HasKey key) :=
  match c with
  | .enqueue sub _ => inferInstanceAs (Decidable (sub.key = some key))
  | .leaseNextJob _ _ => isFalse id
  | .completeJob _ _ => isFalse id
  | .failJob _ _ => isFalse id
  | .getJob _ _ => isFalse id

/-- A submission under the key that has returned a job, and whether it was there before. -/
def Returns (key : String) (job : Job P R E) (isDuplicate : Bool) : Call P R E → Prop
  | .enqueue sub phase => sub.key = some key ∧ phase = .returned (.ok (job, isDuplicate))
  | _ => False

/-- The record that a worker's call is to write back is that of its job. -/
def Named : Call P R E → Prop
  | .leaseNextJob _ (.setJob jobId job) => job.jobId = jobId
  | .completeJob c (.setJob job) => job.jobId = c.jobId
  | .failJob f (.delLease job) => job.jobId = f.jobId
  | .failJob f (.setQueued job) => job.jobId = f.jobId
  | .failJob f (.setFailed job) => job.jobId = f.jobId
  | _ => True

/-- The new job of the call has been pushed. -/
def Pushed : Call P R E → Prop
  | .enqueue _ (.setKey _ _) => True
  | .enqueue _ (.returned (.ok (_, false))) => True
  | _ => False

end Call

namespace Cluster

/-- What the calls under one key promise. -/
structure Idempotent (key : String) (s : Cluster P R E) : Prop where
  fresh : ∀ i j c d job job', s.callAt i = some c → s.callAt j = some d →
    c.Returns key job false → d.Returns key job' false → i = j
  pushed : (s.pushed.filter (fun i => (s.callAt i).any (·.HasKey key))).length ≤ 1
  same : ∀ i j c d job job' b b', s.callAt i = some c → s.callAt j = some d →
    c.Returns key job b → d.Returns key job' b' → job.jobId = job'.jobId

/-- A lookup of the key that finds nothing is made while no other call of the key that has found
nothing is on its way to record it, or has filed its job. -/
def Undisturbed (key : String) (s : Cluster P R E) : ClusterEvent P R E → Prop
  | .command i => ∀ c, s.callAt i = some c → c.MissesUnder s.store key →
      ∀ j d, j ≠ i → s.callAt j = some d → ¬ d.FilesUnder key
  | _ => True

section Invariant
variable (key : String)

/-- A call of the key has filed a job with this id. -/
def Filed (s : Cluster P R E) (jobId : String) : Prop :=
  ∃ i c job, s.callAt i = some c ∧ c.Returns key job false ∧ job.jobId = jobId

def SoundPhase (s : Cluster P R E) (sub : Submission P) : EnqueuePhase P R E → Prop
  | .findKey k => sub.key = some k
  | .findJob jobId => sub.key = some key → s.Filed key jobId
  | .setKey k job => sub.key = some k ∧ s.store.job job.jobId ≠ none
  | .push job => s.store.job job.jobId ≠ none
  | .returned (.ok (job, true)) => sub.key = some key → s.Filed key job.jobId
  | .returned (.ok (job, false)) => s.store.job job.jobId ≠ none
  | _ => True

/-- What a call in progress relies on. -/
def SoundCall (s : Cluster P R E) : Call P R E → Prop
  | .enqueue sub phase => s.SoundPhase key sub phase
  | call => call.Named

structure Sole (s : Cluster P R E) : Prop where
  sole : ∀ i j c d, s.callAt i = some c → s.callAt j = some d → c.FilesUnder key →
    d.FilesUnder key → i = j
  calls : ∀ i c, s.callAt i = some c → s.SoundCall key c
  named : ∀ jobId job, s.store.job jobId = some job → job.jobId = jobId
  recorded : ∀ jobId, s.store.idemp key = some jobId → s.Filed key jobId
  once : s.pushed.Nodup
  pushes : ∀ i ∈ s.pushed, ∃ c, s.callAt i = some c ∧ c.Pushed

variable {key : String} {s s' : Cluster P R E} {i : ℕ} {call : Call P R E} {cmd : Command P R E}

theorem exec_job_ne_none {store : RedisStore P R E} {jobId : String} (h : store.job jobId ≠ none)
    (cmd : Command P R E) : (store.exec cmd).job jobId ≠ none := by
  cases cmd with
  | setJob i job => by_cases hi : jobId = i <;> simp [RedisStore.exec, RedisStore.setJob, hi, h]
  | setIdemp k i => simpa [RedisStore.exec] using h
  | _ => exact h

theorem exec_idemp {store : RedisStore P R E} {jobId : String}
    (h : (store.exec cmd).idemp key = some jobId) :
    store.idemp key = some jobId ∨ cmd = .setIdemp key jobId := by
  cases cmd with
  | setIdemp k i =>
    by_cases hk : k = ""
    · exact .inl (by simpa [RedisStore.exec, RedisStore.setIdemp, hk] using h)
    · by_cases heq : key = k
      · subst heq
        simp only [RedisStore.exec, RedisStore.setIdemp, if_neg hk, Function.update_self,
          Option.some.injEq] at h
        exact .inr (by rw [h])
      · exact .inl (by simpa [RedisStore.exec, RedisStore.setIdemp, hk, heq] using h)
  | _ => exact .inl h

theorem not_returns_of_command (hcmd : call.command = some cmd) (job : Job P R E) (b : Bool) :
    ¬ call.Returns key job b := by
  intro h
  cases call with
  | enqueue sub phase =>
    obtain ⟨-, rfl⟩ := h
    cases hcmd
  | _ => exact h

/-- No record goes and no job that was filed is forgotten. -/
structure Grows (key : String) (s s' : Cluster P R E) : Prop where
  job : ∀ jobId, s.store.job jobId ≠ none → s'.store.job jobId ≠ none
  filed : ∀ jobId, s.Filed key jobId → s'.Filed key jobId

theorem SoundCall.grows (hs : s.SoundCall key call) (h : Grows key s s') :
    s'.SoundCall key call := by
  cases call with
  | enqueue sub phase =>
    cases phase with
    | findJob jobId => exact fun hkey => h.filed jobId (hs hkey)
    | push job => exact h.job _ hs
    | setKey k job => exact ⟨hs.1, h.job _ hs.2⟩
    | returned answer =>
      rcases answer with error | ⟨job, b⟩
      · trivial
      · cases b
        · exact h.job _ hs
        · exact fun hkey => h.filed _ (hs hkey)
    | _ => exact hs
  | _ => exact hs

theorem callAt_send (hcall : s.callAt i = some call) (j : ℕ) :
    (s.send i call cmd).callAt j =
      if j = i then some (call.next s.store) else s.callAt j :=
  callAt_set (c := ⟨call.next s.store, false⟩) hcall rfl j

theorem grows_send (hcall : s.callAt i = some call) (hcmd : call.command = some cmd) :
    Grows key s (s.send i call cmd) where
  job := fun _ h => exec_job_ne_none h cmd
  filed := by
    rintro jobId ⟨j, c, job, hc, hreturns, hid⟩
    have hj : j ≠ i := by
      rintro rfl
      rw [hcall, Option.some.injEq] at hc
      exact not_returns_of_command hcmd job false (hc ▸ hreturns)
    exact ⟨j, c, job, by rw [callAt_send hcall, if_neg hj, hc], hreturns, hid⟩

theorem setJob_named (hs : s.SoundCall key call) {jobId : String} {job : Job P R E}
    (hcmd : call.command = some (.setJob jobId job)) : job.jobId = jobId := by
  cases call with
  | enqueue sub phase =>
    cases phase with
    | setJob job' =>
      cases hcmd
      rfl
    | _ => cases hcmd
  | leaseNextJob request phase =>
    cases phase with
    | setJob i job' =>
      cases hcmd
      exact hs
    | _ => cases hcmd
  | completeJob c phase =>
    cases phase with
    | setJob job' =>
      cases hcmd
      exact hs
    | _ => cases hcmd
  | failJob f phase =>
    cases phase with
    | setQueued job' =>
      cases hcmd
      exact hs
    | setFailed job' =>
      cases hcmd
      exact hs
    | _ => cases hcmd
  | getJob i phase => cases phase <;> cases hcmd

theorem setIdemp_returns {k jobId : String} (hs : s.SoundCall key call)
    (hcmd : call.command = some (.setIdemp k jobId)) :
    ∃ job, (call.next s.store).Returns k job false ∧ job.jobId = jobId := by
  cases call with
  | enqueue sub phase =>
    cases phase with
    | setKey k' job =>
      cases hcmd
      exact ⟨job, ⟨hs.1, rfl⟩, rfl⟩
    | _ => cases hcmd
  | leaseNextJob request phase => cases phase <;> cases hcmd
  | completeJob c phase => cases phase <;> cases hcmd
  | failJob f phase => cases phase <;> cases hcmd
  | getJob i phase => cases phase <;> cases hcmd

theorem filesUnder_next (h : (call.next s.store).FilesUnder key) :
    call.FilesUnder key ∨ call.MissesUnder s.store key := by
  cases call with
  | enqueue sub phase =>
    obtain ⟨hkey, hfiles⟩ := h
    cases phase with
    | findKey k =>
      cases hid : s.store.idemp k with
      | none => exact .inr ⟨hkey, .inl hid⟩
      | some jobId =>
        by_cases hempty : jobId = ""
        · exact .inr ⟨hkey, .inr (by rw [hid, hempty])⟩
        · simp [Submission.next, hid, hempty, EnqueuePhase.Files] at hfiles
    | findJob jobId =>
      cases hjob : s.store.job jobId with
      | none => exact .inr ⟨hkey, hjob⟩
      | some job => simp [Submission.next, hjob, EnqueuePhase.Files] at hfiles
    | returned answer => exact .inl ⟨hkey, hfiles⟩
    | _ => exact .inl ⟨hkey, True.intro⟩
  | _ => exact h.elim

theorem pushed_next (h : call.Pushed) : (call.next s.store).Pushed := by
  cases call with
  | enqueue sub phase =>
    cases phase with
    | setKey k job => trivial
    | returned answer => exact h
    | _ => exact h.elim
  | _ => exact h.elim

theorem pushesJob_cases (hcmd : call.command = some cmd) (hpush : cmd.pushesJob = true) :
    ¬ call.Pushed ∧ (call.next s.store).Pushed := by
  cases call with
  | enqueue sub phase =>
    cases phase with
    | push job =>
      refine ⟨id, ?_⟩
      cases hkey : sub.key <;> simp [Call.next, Submission.next, hkey, Call.Pushed]
    | _ => cases hcmd <;> cases hpush
  | leaseNextJob request phase => cases phase <;> cases hcmd <;> cases hpush
  | completeJob c phase => cases phase <;> cases hcmd <;> cases hpush
  | failJob f phase => cases phase <;> cases hcmd <;> cases hpush
  | getJob i phase =>
    cases phase <;> cases hcmd
    cases hpush

theorem named_leaseNext (h : Sole key s) {request : LeaseRequest} (phase : LeasePhase P R E) :
    (Call.leaseNextJob request (request.next s.store phase) : Call P R E).Named := by
  cases phase with
  | pop =>
    rw [LeaseRequest.next]
    split
    · split <;> trivial
    · trivial
  | read jobId =>
    rw [LeaseRequest.next]
    split
    next job hjob =>
      split
      · trivial
      · exact h.named jobId job hjob
    next => trivial
  | _ => trivial

theorem named_completeNext (h : Sole key s) {c : Completion R} (phase : CompletePhase P R E) :
    (Call.completeJob c (c.next s.store phase) : Call P R E).Named := by
  cases phase with
  | findLease =>
    rw [Completion.next]
    split
    · split <;> trivial
    · trivial
  | read =>
    rw [Completion.next]
    split
    next job hjob =>
      split
      · exact h.named c.jobId job hjob
      · trivial
    next => trivial
  | _ => trivial

theorem named_failNext (h : Sole key s) {f : Failure E} {phase : FailPhase P R E}
    (hnamed : (Call.failJob f phase : Call P R E).Named) :
    (Call.failJob f (f.next s.store phase) : Call P R E).Named := by
  cases phase with
  | read =>
    rw [Failure.next]
    split
    next job hjob => exact h.named f.jobId job hjob
    next => trivial
  | delLease job =>
    rw [Failure.next]
    split
    · exact hnamed
    · exact hnamed
  | _ => trivial

/-- What the reply makes a submission rely on, holds. -/
theorem soundPhase_next (h : Sole key s) {sub : Submission P} {phase : EnqueuePhase P R E}
    (hphase : s.SoundPhase key sub phase) (hcmd : phase.command = some cmd)
    (hgrows : Grows key s s') (hstore : s'.store = s.store.exec cmd) :
    s'.SoundPhase key sub (sub.next s.store phase) := by
  cases phase with
  | findKey k =>
    rw [Submission.next]
    split
    next jobId hid =>
      split
      · trivial
      · intro hkey
        obtain rfl : k = key := Option.some.inj (hphase.symm.trans hkey)
        exact hgrows.filed jobId (h.recorded jobId hid)
    next => trivial
  | findJob jobId =>
    rw [Submission.next]
    split
    next job hjob =>
      intro hkey
      rw [h.named jobId job hjob]
      exact hgrows.filed jobId (hphase hkey)
    next => trivial
  | depth =>
    rw [Submission.next]
    split <;> trivial
  | setJob job =>
    cases hcmd
    show s'.store.job job.jobId ≠ none
    rw [hstore]
    simp [RedisStore.exec, RedisStore.setJob]
  | push job =>
    rw [Submission.next]
    split
    next k hk => exact ⟨hk, hgrows.job _ hphase⟩
    next => exact hgrows.job _ hphase
  | setKey k job => exact hgrows.job _ hphase.2
  | returned answer => cases hcmd

theorem soundCall_next (h : Sole key s) (hsound : s.SoundCall key call)
    (hcmd : call.command = some cmd) (hgrows : Grows key s s')
    (hstore : s'.store = s.store.exec cmd) : s'.SoundCall key (call.next s.store) := by
  cases call with
  | enqueue sub phase => exact soundPhase_next h hsound hcmd hgrows hstore
  | leaseNextJob request phase => exact named_leaseNext h phase
  | completeJob c phase => exact named_completeNext h phase
  | failJob f phase => exact named_failNext h hsound
  | getJob jobId phase => trivial

theorem Sole.send (h : Sole key s) (hcall : s.callAt i = some call)
    (hcmd : call.command = some cmd) (hcond : Undisturbed key s (.command i)) :
    Sole key (s.send i call cmd) where
  sole := by
    have hmoved : ∀ j c d, j ≠ i → c = call.next s.store → s.callAt j = some d →
        c.FilesUnder key → ¬ d.FilesUnder key := by
      rintro j c d hj rfl hd hc hfiles
      rcases filesUnder_next hc with hcall' | hmiss
      · exact hj (h.sole j i d call hd hcall hfiles hcall')
      · exact hcond call hcall hmiss j d hj hd hfiles
    intro j k c d hc hd hcf hdf
    rw [callAt_send hcall] at hc hd
    by_cases hj : j = i <;> by_cases hk : k = i
    · rw [hj, hk]
    · rw [if_pos hj, Option.some.injEq] at hc
      rw [if_neg hk] at hd
      exact absurd hdf (hmoved k c d hk hc.symm hd hcf)
    · rw [if_neg hj] at hc
      rw [if_pos hk, Option.some.injEq] at hd
      exact absurd hcf (hmoved j d c hj hd.symm hc hdf)
    · rw [if_neg hj] at hc
      rw [if_neg hk] at hd
      exact h.sole j k c d hc hd hcf hdf
  calls := by
    have hgrows : Grows key s (s.send i call cmd) := grows_send hcall hcmd
    intro j c hc
    rw [callAt_send hcall] at hc
    split at hc
    · cases hc
      exact soundCall_next h (h.calls i call hcall) hcmd hgrows rfl
    · exact (h.calls j c hc).grows hgrows
  named := by
    intro jobId job hjob
    cases cmd with
    | setJob i' job' =>
      by_cases hi : jobId = i'
      · subst hi
        have heq : job' = job := by simpa [Cluster.send, RedisStore.exec, RedisStore.setJob] using hjob
        exact heq ▸ setJob_named (h.calls i call hcall) hcmd
      · exact h.named jobId job
          (by simpa [Cluster.send, RedisStore.exec, RedisStore.setJob, hi] using hjob)
    | setIdemp k i' => exact h.named jobId job (by simpa [Cluster.send, RedisStore.exec] using hjob)
    | _ => exact h.named jobId job hjob
  recorded := by
    intro jobId hid
    rcases exec_idemp hid with hold | hset
    · exact (grows_send hcall hcmd).filed jobId (h.recorded jobId hold)
    · rw [hset] at hcmd
      obtain ⟨job, hreturns, hname⟩ := setIdemp_returns (h.calls i call hcall) hcmd
      exact ⟨i, _, job, by rw [callAt_send hcall, if_pos rfl], hreturns, hname⟩
  once := by
    simp only [Cluster.send]
    split
    next hpush =>
      refine List.nodup_append.mpr ⟨h.once, List.nodup_singleton i, ?_⟩
      rintro j hj k hk rfl
      obtain rfl : j = i := by simpa using hk
      obtain ⟨c, hc, hpushed⟩ := h.pushes j hj
      rw [hcall, Option.some.injEq] at hc
      exact (pushesJob_cases (s := s) hcmd hpush).1 (hc ▸ hpushed)
    next => exact h.once
  pushes := by
    have hold : ∀ j ∈ s.pushed, ∃ c, (s.send i call cmd).callAt j = some c ∧ c.Pushed := by
      intro j hj
      obtain ⟨c, hc, hpushed⟩ := h.pushes j hj
      rw [callAt_send hcall]
      split
      next hji =>
        rw [hji, hcall, Option.some.injEq] at hc
        exact ⟨_, rfl, pushed_next (hc ▸ hpushed)⟩
      next => exact ⟨c, hc, hpushed⟩
    intro j hj
    simp only [Cluster.send] at hj
    split at hj
    next hpush =>
      rcases List.mem_append.mp hj with hj | hj
      · exact hold j hj
      · obtain rfl : j = i := by simpa using hj
        exact ⟨_, by rw [callAt_send hcall, if_pos rfl], (pushesJob_cases hcmd hpush).2⟩
    next => exact hold j hj

/-- An event that takes nothing from the calls: none of them moves, and none is forgotten. -/
theorem Sole.idle (h : Sole key s) (hcalls : ∀ j, s'.callAt j = s.callAt j)
    (hpushed : s'.pushed = s.pushed) (hjob : s'.store.job = s.store.job)
    (hidemp : ∀ jobId, s'.store.idemp key = some jobId → s.store.idemp key = some jobId) :
    Sole key s' := by
  have hgrows : Grows key s s' := by
    refine ⟨fun jobId h => by rw [hjob]; exact h, ?_⟩
    rintro jobId ⟨j, c, job, hc, hreturns, hid⟩
    exact ⟨j, c, job, by rw [hcalls, hc], hreturns, hid⟩
  refine ⟨?_, ?_, ?_, ?_, ?_, ?_⟩
  · intro i j c d hc hd
    rw [hcalls] at hc hd
    exact h.sole i j c d hc hd
  · intro i c hc
    rw [hcalls] at hc
    exact (h.calls i c hc).grows hgrows
  · intro jobId job hget
    rw [hjob] at hget
    exact h.named jobId job hget
  · exact fun jobId hid => hgrows.filed jobId (h.recorded jobId (hidemp jobId hid))
  · rw [hpushed]
    exact h.once
  · intro i hi
    rw [hpushed] at hi
    rw [hcalls]
    exact h.pushes i hi

theorem start_sound {op : RedisOp P R E} (hcall : Call.start op = some call) :
    s.SoundCall key call ∧ ¬ call.FilesUnder key := by
  cases op with
  | enqueue adapter jobData uuid clock =>
    cases hcall
    set sub : Submission P := ⟨adapter, jobData, uuid, clock⟩
    rw [Submission.first]
    cases hkey : sub.key with
    | none => exact ⟨True.intro, fun h => by simp [Call.FilesUnder, hkey] at h⟩
    | some k => exact ⟨hkey, fun h => h.2.elim⟩
  | expireLease _ => cases hcall
  | expireIdemp _ => cases hcall
  | _ =>
    cases hcall
    exact ⟨True.intro, id⟩

theorem Sole.start (h : Sole key s) {op : RedisOp P R E} (hcall : Call.start op = some call) :
    Sole key { s with clients := s.clients ++ [⟨call, false⟩] } := by
  set s' : Cluster P R E := { s with clients := s.clients ++ [⟨call, false⟩] } with hs'
  have hat : ∀ j, s'.callAt j = s.callAt j ∨ (s.callAt j = none ∧ s'.callAt j = some call) :=
    callAt_append (c := ⟨call, false⟩) rfl
  have hold : ∀ j c, s.callAt j = some c → s'.callAt j = some c := by
    intro j c hc
    rcases hat j with heq | ⟨hnone, -⟩
    · rw [heq, hc]
    · rw [hnone] at hc
      cases hc
  have hnew : ∀ j c, s'.callAt j = some c → s.callAt j = some c ∨ c = call := by
    intro j c hc
    rcases hat j with heq | ⟨-, hsome⟩
    · exact .inl (heq ▸ hc)
    · rw [hsome, Option.some.injEq] at hc
      exact .inr hc.symm
  have hgrows : Grows key s s' := by
    refine ⟨fun _ h => h, ?_⟩
    rintro jobId ⟨j, c, job, hc, hreturns, hid⟩
    exact ⟨j, c, job, hold j c hc, hreturns, hid⟩
  obtain ⟨hsound, hfiles⟩ : s'.SoundCall key call ∧ ¬ call.FilesUnder key := start_sound hcall
  refine ⟨?_, ?_, h.named, ?_, h.once, ?_⟩
  · intro i j c d hc hd hcf hdf
    rcases hnew i c hc with hc' | rfl
    · rcases hnew j d hd with hd' | rfl
      · exact h.sole i j c d hc' hd' hcf hdf
      · exact absurd hdf hfiles
    · exact absurd hcf hfiles
  · intro i c hc
    rcases hnew i c hc with hc' | rfl
    · exact (h.calls i c hc').grows hgrows
    · exact hsound
  · exact fun jobId hid => hgrows.filed jobId (h.recorded jobId hid)
  · intro i hi
    obtain ⟨c, hc, hpushed⟩ := h.pushes i hi
    exact ⟨c, hold i c hc, hpushed⟩

theorem Sole.step (h : Sole key s) {e : ClusterEvent P R E} (hcond : Undisturbed key s e)
    (hs : s.step e = some s') : Sole key s' := by
  cases moves_of_step hs with
  | calls op call hcall => exact h.start hcall
  | sends i call cmd hclient hcmd => exact h.send (callAt_of_client hclient) hcmd hcond
  | crashes i call hclient =>
    have hcall := callAt_of_client hclient
    refine h.idle (fun j => ?_) rfl rfl (fun _ hid => hid)
    rw [callAt_set (c := ⟨call, true⟩) hcall rfl]
    split
    next hj => rw [hj, hcall]
    next => rfl
  | losesLease jobId => exact h.idle (fun _ => rfl) rfl rfl (fun _ hid => hid)
  | losesKey k =>
    refine h.idle (fun _ => rfl) rfl rfl (fun jobId hid => ?_)
    by_cases hk : key = k
    · subst hk
      simp at hid
    · simpa [hk] using hid

theorem filesUnder_of_returns {job : Job P R E} (h : call.Returns key job false) :
    call.FilesUnder key := by
  cases call with
  | enqueue sub phase =>
    obtain ⟨hkey, rfl⟩ := h
    exact ⟨hkey, True.intro⟩
  | _ => exact h.elim

theorem filesUnder_of_pushed (h : call.Pushed) (hkey : call.HasKey key) :
    call.FilesUnder key := by
  cases call with
  | enqueue sub phase =>
    refine ⟨hkey, ?_⟩
    cases phase with
    | setKey k job => trivial
    | returned answer =>
      rcases answer with error | ⟨job, b⟩
      · exact h.elim
      · cases b
        · trivial
        · exact h.elim
    | _ => exact h.elim
  | _ => exact h.elim

theorem Sole.filed_of_returns (h : Sole key s) {c : Call P R E} (hc : s.callAt i = some c)
    {job : Job P R E} {b : Bool} (hreturns : c.Returns key job b) : s.Filed key job.jobId := by
  cases b with
  | false => exact ⟨i, c, job, hc, hreturns, rfl⟩
  | true =>
    have hsound := h.calls i c hc
    cases c with
    | enqueue sub phase =>
      obtain ⟨hkey, rfl⟩ := hreturns
      exact hsound hkey
    | _ => exact hreturns.elim

theorem Sole.idempotent (h : Sole key s) : Idempotent key s where
  fresh := fun i j c d _ _ hc hd hcr hdr =>
    h.sole i j c d hc hd (filesUnder_of_returns hcr) (filesUnder_of_returns hdr)
  pushed := by
    have hfiles : ∀ i ∈ s.pushed.filter (fun i => (s.callAt i).any (·.HasKey key)),
        ∃ c, s.callAt i = some c ∧ c.FilesUnder key := by
      intro i hi
      obtain ⟨hi, hkey⟩ := List.mem_filter.mp hi
      obtain ⟨c, hc, hpushed⟩ := h.pushes i hi
      rw [hc] at hkey
      exact ⟨c, hc, filesUnder_of_pushed hpushed (by simpa using hkey)⟩
    have hnodup := h.once.filter (fun i => (s.callAt i).any (·.HasKey key))
    generalize s.pushed.filter _ = pushes at hfiles hnodup
    match pushes with
    | [] => exact Nat.zero_le 1
    | [_] => exact le_refl 1
    | i::j::_ =>
      obtain ⟨c, hc, hcf⟩ := hfiles i (by simp)
      obtain ⟨d, hd, hdf⟩ := hfiles j (by simp)
      have hij := h.sole i j c d hc hd hcf hdf
      simp [hij] at hnodup
  same := by
    intro i j c d job job' b b' hc hd hcr hdr
    obtain ⟨i', c', job₁, hc', hcr', hid⟩ := h.filed_of_returns hc hcr
    obtain ⟨j', d', job₂, hd', hdr', hid'⟩ := h.filed_of_returns hd hdr
    obtain rfl : i' = j' := h.sole i' j' c' d' hc' hd' (filesUnder_of_returns hcr')
      (filesUnder_of_returns hdr')
    obtain rfl : c' = d' := Option.some.inj (hc'.symm.trans hd')
    obtain rfl : job₁ = job₂ := by
      cases c' with
      | enqueue sub phase =>
        obtain ⟨-, rfl⟩ := hcr'
        cases hdr'.2
        rfl
      | _ => exact hcr'.elim
    rw [← hid, ← hid']

theorem sole_empty (key : String) : Sole key (empty : Cluster P R E) where
  sole := fun _ _ _ _ hc _ _ _ => by cases hc
  calls := fun _ _ hc => by cases hc
  named := fun _ _ hjob => by cases hjob
  recorded := fun _ hid => by cases hid
  once := List.nodup_nil
  pushes := fun _ hi => by cases hi

end Invariant

/-- Where no lookup of a key that finds nothing overlaps another call that has found nothing, the
calls under the key agree on one job. -/
theorem one_job_of_undisturbed (key : String) (events : List (ClusterEvent P R E))
    (hevents : system.Meets (Undisturbed key) events) :
    system.Always (Idempotent key) events :=
  System.always_of_invariant (fun _ h => h.idempotent)
    (fun _ _ _ h hcond hs => h.step hcond hs) (sole_empty key) hevents

def submits (jobId : String) : RedisOp Unit Unit Unit :=
  .enqueue RedisStore.plainAdapter ⟨some jobId, some "key", none, ()⟩ "" ⟨0, 0⟩

/-- The second call starts when the first has returned. -/
def oneByOne : List (ClusterEvent Unit Unit Unit) :=
  [.call (submits "a"), .command 0, .command 0, .command 0, .command 0, .command 0,
    .call (submits "b"), .command 1, .command 1]

/-- Both calls look the key up before either records it. -/
def sideBySide : List (ClusterEvent Unit Unit Unit) :=
  [.call (submits "a"), .call (submits "b"), .command 0, .command 1, .command 0, .command 1,
    .command 0, .command 1, .command 0, .command 1, .command 0, .command 1]

theorem undisturbed_oneByOne : system.Meets (Undisturbed "key") oneByOne := by
  have halone : ∀ s : Cluster Unit Unit Unit, s.clients.length ≤ 1 →
      Undisturbed "key" s (.command 0) := by
    intro s hs c _ _ j d hj hd
    obtain ⟨c', hc', -⟩ := Option.map_eq_some_iff.mp hd
    have hlt := (List.getElem?_eq_some_iff.mp hc').1
    omega
  refine (System.meetsFrom_cons rfl).mpr ⟨trivial, ?_⟩
  refine (System.meetsFrom_cons rfl).mpr ⟨halone _ (le_refl 1), ?_⟩
  refine (System.meetsFrom_cons rfl).mpr ⟨halone _ (le_refl 1), ?_⟩
  refine (System.meetsFrom_cons rfl).mpr ⟨halone _ (le_refl 1), ?_⟩
  refine (System.meetsFrom_cons rfl).mpr ⟨halone _ (le_refl 1), ?_⟩
  refine (System.meetsFrom_cons rfl).mpr ⟨halone _ (le_refl 1), ?_⟩
  refine (System.meetsFrom_cons rfl).mpr ⟨trivial, ?_⟩
  -- the second call finds the id of the first, and its record
  refine (System.meetsFrom_cons rfl).mpr ⟨?_, ?_⟩
  · intro c hc hmiss
    cases hc
    have hid : (some "a" : Option String) = none ∨ some "a" = some "" := hmiss.2
    simp at hid
  · refine (System.meetsFrom_cons rfl).mpr ⟨?_, trivial⟩
    intro c hc hmiss
    cases hc
    cases hmiss.2

theorem oneByOne_idempotent : system.Always (Idempotent "key") oneByOne :=
  one_job_of_undisturbed "key" oneByOne undisturbed_oneByOne

def freshId : Client Unit Unit Unit → Option String
  | ⟨.enqueue _ (.returned (.ok (job, false))), _⟩ => some job.jobId
  | _ => none

/-- Two calls under one key file two jobs. -/
theorem sideBySide_files_two :
    (system.run sideBySide).map (fun s => s.clients.map freshId) = some [some "a", some "b"] ∧
      ¬ system.Always (Idempotent "key") sideBySide := by
  refine ⟨rfl, fun h => ?_⟩
  have hpushed : ∀ s, system.run sideBySide = some s →
      s.pushed.filter (fun i => (s.callAt i).any (·.HasKey "key")) = [0, 1] := by
    intro s hs
    cases hs
    rfl
  obtain ⟨s, hs, -⟩ := Option.map_eq_some_iff.mp
    (show (system.run sideBySide).map (·.pushed) = some [0, 1] from rfl)
  have hone := (h.last hs).pushed
  rw [hpushed s hs] at hone
  exact absurd hone (by decide)

end Cluster
end
end LuaRecovery.Queue
