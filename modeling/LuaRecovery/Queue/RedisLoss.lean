import LuaRecovery.Queue.RedisCommands

/-!
# Jobs that nobody will take again

Nothing in Redis reclaims a job whose lease has run out. Only a report of its
failure puts it back on the list, as long as it has attempts left.
-/

set_option autoImplicit false

namespace LuaRecovery.Queue
open LuaRecovery.Lib

section
variable {P R E : Type}

def RedisOp.isSubmission : RedisOp P R E → Bool
  | .enqueue _ _ _ _ => true
  | _ => false

/-- The id that a command puts on the list. -/
def Command.listed : Command P R E → Option String
  | .lpush jobId => some jobId
  | .rpush jobId => some jobId
  | _ => none

/-- The job that the call is about to put on the list. -/
def Call.enlists : Call P R E → Option String
  | .enqueue _ (.push job) => some job.jobId
  | .failJob f .push => some f.jobId
  | _ => none

/-- The job that the call will put on the list with the command after the next. -/
def Call.enlistsNext : Call P R E → Option String
  | .enqueue _ (.setJob job) => some job.jobId
  | .failJob f (.setQueued _) => some f.jobId
  | _ => none

/-- The job is not finished and has used up its attempts. -/
def Job.Spent (job : Job P R E) : Prop :=
  ¬ job.state.Terminal ∧ ¬ (job.attempts : ℤ) < job.maxRetries

namespace RedisStore

/-- Later calls of the adapter, submissions apart, can put the id on the list. -/
def Returnable (s : RedisStore P R E) (jobId : String) : Prop :=
  ∃ ops : List (RedisOp P R E), (∀ op ∈ ops, op.isSubmission = false) ∧
    jobId ∈ (s.run ops).waiting

def SpentAt (s : RedisStore P R E) (jobId : String) : Prop :=
  ∃ job, s.job jobId = some job ∧ job.Spent

end RedisStore

namespace Cluster

/-- A client that has not crashed is about to put the id on the list. -/
def Enlisting (s : Cluster P R E) (jobId : String) : Prop :=
  ∃ (i : ℕ) (call : Call P R E),
    s.clients[i]? = some ⟨call, false⟩ ∧ call.enlists = some jobId

def EnlistingBut (s : Cluster P R E) (i : ℕ) (jobId : String) : Prop :=
  ∃ (j : ℕ) (call : Call P R E), j ≠ i ∧ s.clients[j]? = some ⟨call, false⟩ ∧ call.enlists = some jobId

/-- Every job that is not finished is on the list or about to be put there, or it is leased, or a
later call can return it to the list. -/
def NoneLost (s : Cluster P R E) : Prop :=
  ∀ jobId job, s.store.job jobId = some job → ¬ job.state.Terminal →
    jobId ∈ s.store.waiting ∨ s.store.lease jobId ≠ none ∨ s.Enlisting jobId ∨
      s.store.Returnable jobId

/-- The event takes the last hold on a job whose attempts are used up: it is written without
being on the list or leased, or popped, or its lease goes, or the client that was about to put
it on the list crashes. -/
inductive Strands (s : Cluster P R E) : ClusterEvent P R E → Prop where
  | writes (i : ℕ) (call : Call P R E) (jobId : String) (job : Job P R E)
      (hclient : s.clients[i]? = some ⟨call, false⟩)
      (hcmd : call.command = some (.setJob jobId job)) (hspent : job.Spent)
      (hnext : call.enlistsNext ≠ some jobId) (hwaiting : jobId ∉ s.store.waiting)
      (hlease : s.store.lease jobId = none) (henlisting : ¬ s.EnlistingBut i jobId) :
      Strands s (.command i)
  | pops (i : ℕ) (call : Call P R E) (jobId : String)
      (hclient : s.clients[i]? = some ⟨call, false⟩) (hcmd : call.command = some .rpop)
      (hlast : s.store.waiting.getLast? = some jobId) (hspent : s.store.SpentAt jobId)
      (hwaiting : jobId ∉ s.store.waiting.dropLast) (hlease : s.store.lease jobId = none)
      (henlisting : ¬ s.EnlistingBut i jobId) : Strands s (.command i)
  | unleases (i : ℕ) (call : Call P R E) (jobId : String)
      (hclient : s.clients[i]? = some ⟨call, false⟩)
      (hcmd : call.command = some (.delLease jobId)) (hspent : s.store.SpentAt jobId)
      (hwaiting : jobId ∉ s.store.waiting) (henlisting : ¬ s.EnlistingBut i jobId) :
      Strands s (.command i)
  | expires (jobId : String) (hspent : s.store.SpentAt jobId)
      (hwaiting : jobId ∉ s.store.waiting) (henlisting : ¬ s.Enlisting jobId) :
      Strands s (.expireLease jobId)
  | crashes (i : ℕ) (call : Call P R E) (jobId : String)
      (hclient : s.clients[i]? = some ⟨call, false⟩) (hcall : call.enlists = some jobId)
      (hspent : s.store.SpentAt jobId) (hwaiting : jobId ∉ s.store.waiting)
      (hlease : s.store.lease jobId = none) (henlisting : ¬ s.EnlistingBut i jobId) :
      Strands s (.crash i)

end Cluster

namespace RedisStore

/-- The record of the job shows no attempts left and the job is off the list. -/
def Stuck (s : RedisStore P R E) (jobId : String) : Prop :=
  jobId ∉ s.waiting ∧ ∃ job, s.job jobId = some job ∧ ¬ (job.attempts : ℤ) < job.maxRetries

theorem Stuck.setJob {s : RedisStore P R E} {jobId i : String} {job : Job P R E}
    (h : s.Stuck jobId)
    (hjob : i = jobId → ¬ (job.attempts : ℤ) < job.maxRetries) : (s.setJob i job).Stuck jobId := by
  obtain ⟨hwaiting, old, hold, hspent⟩ := h
  refine ⟨hwaiting, ?_⟩
  by_cases hi : jobId = i
  · subst hi
    exact ⟨job, Function.update_self _ _ _, hjob rfl⟩
  · exact ⟨old, (Function.update_of_ne hi _ _).trans hold, hspent⟩

theorem Stuck.spent {s : RedisStore P R E} {jobId : String} {job : Job P R E} (h : s.Stuck jobId)
    (hjob : s.job jobId = some job) : ¬ (job.attempts : ℤ) < job.maxRetries := by
  obtain ⟨-, old, hold, hspent⟩ := h
  rw [hold, Option.some.injEq] at hjob
  exact hjob ▸ hspent

theorem Stuck.leaseNextJob {s : RedisStore P R E} {jobId : String} (h : s.Stuck jobId)
    (adapter : RedisAdapter) (workerId : String) (duration : Option ℤ) (token : String)
    (clock : Clock) : (s.leaseNextJob adapter workerId duration token clock).1.Stuck jobId := by
  have hpop : ({ s with waiting := s.waiting.dropLast } : RedisStore P R E).Stuck jobId :=
    ⟨fun hmem => h.1 (List.dropLast_subset _ hmem), h.2⟩
  rw [RedisStore.leaseNextJob]
  split
  next => exact h
  next i hlast =>
    have hi : i ≠ jobId := by
      rintro rfl
      exact h.1 (List.mem_of_getLast? hlast)
    dsimp only
    split
    · exact hpop
    · split
      next => exact hpop
      next job hjob =>
        split
        · exact hpop
        · exact hpop.setJob (fun heq => absurd heq hi)

theorem Stuck.completeJob {s : RedisStore P R E} {jobId : String} (h : s.Stuck jobId)
    (i token : String) (result : R) (clock : Clock) :
    (s.completeJob i token result clock).1.Stuck jobId := by
  rw [RedisStore.completeJob]
  split
  next => exact h
  next =>
    split
    next => exact h
    next =>
      split
      next => exact h
      next job hjob =>
        split
        · apply h.setJob
          rintro rfl
          have hspent := h.spent hjob
          exact hspent
        · exact h

theorem Stuck.failJob {s : RedisStore P R E} {jobId : String} (h : s.Stuck jobId)
    (i token : String) (error : E) (clock : Clock) :
    (s.failJob i token error clock).1.Stuck jobId := by
  rw [RedisStore.failJob]
  split
  next => exact h
  next job hjob =>
    have hsame : i = jobId → ¬ (job.attempts : ℤ) < job.maxRetries :=
      fun heq => h.spent (heq ▸ hjob)
    have hdel : (s.delLease i).Stuck jobId := h
    dsimp only
    split
    next ha =>
      have hi : i ≠ jobId := fun heq => hsame heq ha
      obtain ⟨hwaiting', hjob'⟩ : ((s.delLease i).setJob i
          { job with state := .queued, updatedAt := clock.now }).Stuck jobId := hdel.setJob hsame
      refine ⟨?_, hjob'⟩
      intro hmem
      rcases List.mem_append.mp hmem with hmem | hmem
      · exact hwaiting' hmem
      · exact hi (List.mem_singleton.mp hmem).symm
    next => exact hdel.setJob hsame

theorem Stuck.step {s : RedisStore P R E} {jobId : String} (h : s.Stuck jobId)
    {op : RedisOp P R E} (hop : op.isSubmission = false) : (s.step op).1.Stuck jobId := by
  cases op with
  | enqueue => cases hop
  | leaseNextJob adapter workerId duration token clock =>
    exact h.leaseNextJob adapter workerId duration token clock
  | completeJob i token result clock => exact h.completeJob i token result clock
  | failJob i token error clock => exact h.failJob i token error clock
  | _ => exact h

theorem Stuck.run {s : RedisStore P R E} {jobId : String} (h : s.Stuck jobId)
    (ops : List (RedisOp P R E)) (hops : ∀ op ∈ ops, op.isSubmission = false) :
    (s.run ops).Stuck jobId := by
  induction ops generalizing s with
  | nil => exact h
  | cons op ops ih =>
    exact ih (h.step (hops op (by simp))) (fun op' hop' => hops op' (by simp [hop']))

theorem returnable_of_attempts [Inhabited E] {s : RedisStore P R E} {jobId : String}
    {job : Job P R E} (hjob : s.job jobId = some job)
    (ha : (job.attempts : ℤ) < job.maxRetries) : s.Returnable jobId := by
  refine ⟨[.failJob jobId "" default ⟨0, 0⟩], by simp [RedisOp.isSubmission], ?_⟩
  simp [RedisStore.run, RedisStore.step, RedisStore.failJob, hjob, ha, rpush]

theorem Stuck.not_returnable {s : RedisStore P R E} {jobId : String} (h : s.Stuck jobId) :
    ¬ s.Returnable jobId := by
  rintro ⟨ops, hops, hmem⟩
  exact (h.run ops hops).1 hmem

end RedisStore

namespace Cluster
variable {s s' : Cluster P R E} {i : ℕ} {call : Call P R E} {cmd : Command P R E}

def Held (s : Cluster P R E) (jobId : String) : Prop :=
  jobId ∈ s.store.waiting ∨ s.store.lease jobId ≠ none ∨ s.Enlisting jobId

theorem noneLost_iff [Inhabited E] (s : Cluster P R E) :
    s.NoneLost ↔ ∀ jobId, s.store.SpentAt jobId → s.Held jobId := by
  constructor
  · rintro h jobId ⟨job, hjob, hlive, hspent⟩
    rcases h jobId job hjob hlive with hwaiting | hlease | henlisting | hreturn
    · exact .inl hwaiting
    · exact .inr (.inl hlease)
    · exact .inr (.inr henlisting)
    · by_cases hwaiting : jobId ∈ s.store.waiting
      · exact .inl hwaiting
      · have hstuck : s.store.Stuck jobId := ⟨hwaiting, job, hjob, hspent⟩
        exact absurd hreturn hstuck.not_returnable
  · intro h jobId job hjob hlive
    by_cases ha : (job.attempts : ℤ) < job.maxRetries
    · exact .inr (.inr (.inr (RedisStore.returnable_of_attempts hjob ha)))
    · rcases h jobId ⟨job, hjob, hlive, ha⟩ with hwaiting | hlease | henlisting
      · exact .inl hwaiting
      · exact .inr (.inl hlease)
      · exact .inr (.inr (.inl henlisting))

section Clients

theorem enlists_eq_listed (hcmd : call.command = some cmd) : call.enlists = cmd.listed := by
  cases call with
  | enqueue sub phase => cases phase <;> cases hcmd <;> rfl
  | leaseNextJob request phase => cases phase <;> cases hcmd <;> rfl
  | completeJob c phase => cases phase <;> cases hcmd <;> rfl
  | failJob f phase => cases phase <;> cases hcmd <;> rfl
  | getJob jobId phase =>
    cases phase <;> cases hcmd
    rfl

theorem enlistsNext_command {jobId : String} (h : call.enlistsNext = some jobId) :
    ∃ job, call.command = some (.setJob jobId job) := by
  cases call with
  | enqueue sub phase =>
    cases phase with
    | setJob job =>
      cases h
      exact ⟨job, rfl⟩
    | _ => cases h
  | failJob f phase =>
    cases phase with
    | setQueued job =>
      cases h
      exact ⟨job, rfl⟩
    | _ => cases h
  | _ => cases h

theorem enlists_next (store : RedisStore P R E) (call : Call P R E) :
    (call.next store).enlists = call.enlistsNext := by
  cases call with
  | enqueue sub phase =>
    cases phase with
    | findKey key =>
      rw [Call.next, Submission.next]
      split
      · split <;> rfl
      · rfl
    | findJob jobId =>
      rw [Call.next, Submission.next]
      split <;> rfl
    | depth =>
      rw [Call.next, Submission.next]
      split <;> rfl
    | push job =>
      rw [Call.next, Submission.next]
      split <;> rfl
    | _ => rfl
  | leaseNextJob request phase => rfl
  | completeJob c phase => rfl
  | failJob f phase =>
    cases phase with
    | read =>
      rw [Call.next, Failure.next]
      split <;> rfl
    | delLease job =>
      rw [Call.next, Failure.next]
      split <;> rfl
    | _ => rfl
  | getJob jobId phase => rfl

theorem enlisting_iff (hclient : s.clients[i]? = some ⟨call, false⟩) (jobId : String) :
    s.Enlisting jobId ↔ s.EnlistingBut i jobId ∨ call.enlists = some jobId := by
  constructor
  · rintro ⟨j, c, hc, henlists⟩
    by_cases hj : j = i
    · subst hj
      rw [hclient, Option.some.injEq] at hc
      cases hc
      exact .inr henlists
    · exact .inl ⟨j, c, hj, hc, henlists⟩
  · rintro (⟨j, c, -, hc, henlists⟩ | henlists)
    · exact ⟨j, c, hc, henlists⟩
    · exact ⟨i, call, hclient, henlists⟩

/-- What is left of the calls about to fill the list when one client moves or crashes. -/
theorem enlisting_set (hclient : s.clients[i]? = some ⟨call, false⟩) {c : Client P R E}
    (hs : s'.clients = s.clients.set i c) (jobId : String) :
    s'.Enlisting jobId ↔
      s.EnlistingBut i jobId ∨ (c.crashed = false ∧ c.call.enlists = some jobId) := by
  have hlt : i < s.clients.length := (List.getElem?_eq_some_iff.mp hclient).1
  have hself : s'.clients[i]? = some c := by rw [hs, List.getElem?_set_self hlt]
  have hother : ∀ j, j ≠ i → s'.clients[j]? = s.clients[j]? :=
    fun j hj => by rw [hs, List.getElem?_set_ne hj.symm]
  constructor
  · rintro ⟨j, call', hc, henlists⟩
    by_cases hj : j = i
    · subst hj
      rw [hself, Option.some.injEq] at hc
      subst hc
      exact .inr ⟨rfl, henlists⟩
    · exact .inl ⟨j, call', hj, hother j hj ▸ hc, henlists⟩
  · rintro (⟨j, call', hj, hc, henlists⟩ | ⟨hcrashed, henlists⟩)
    · exact ⟨j, call', (hother j hj).trans hc, henlists⟩
    · obtain ⟨call', crashed⟩ := c
      obtain rfl : crashed = false := hcrashed
      exact ⟨i, call', hself, henlists⟩

theorem held_of_client (hclient : s.clients[i]? = some ⟨call, false⟩)
    (hcmd : call.command = some cmd) (jobId : String) :
    s.Held jobId ↔ jobId ∈ s.store.waiting ∨ s.store.lease jobId ≠ none ∨
      s.EnlistingBut i jobId ∨ cmd.listed = some jobId := by
  rw [Held, enlisting_iff hclient, enlists_eq_listed hcmd]

theorem held_send (hclient : s.clients[i]? = some ⟨call, false⟩) (jobId : String) :
    (s.send i call cmd).Held jobId ↔ jobId ∈ (s.store.exec cmd).waiting ∨
      (s.store.exec cmd).lease jobId ≠ none ∨ s.EnlistingBut i jobId ∨
        call.enlistsNext = some jobId := by
  rw [Held, enlisting_set (c := ⟨call.next s.store, false⟩) hclient rfl, enlists_next]
  simp [send]

theorem held_crash (hclient : s.clients[i]? = some ⟨call, false⟩) (jobId : String) :
    ({ s with clients := s.clients.set i ⟨call, true⟩ } : Cluster P R E).Held jobId ↔
      jobId ∈ s.store.waiting ∨ s.store.lease jobId ≠ none ∨ s.EnlistingBut i jobId := by
  rw [Held, enlisting_set (c := ⟨call, true⟩) hclient rfl]
  simp

end Clients

section Steps

theorem getLast?_of_mem {α : Type} {x : α} {xs : List α} (h : x ∈ xs) (hd : x ∉ xs.dropLast) :
    xs.getLast? = some x := by
  rcases List.eq_nil_or_concat xs with rfl | ⟨ys, y, rfl⟩
  · cases h
  · rw [List.concat_eq_append, List.dropLast_concat] at hd
    obtain rfl : x = y := by simpa [hd] using h
    rw [List.concat_eq_append, List.getLast?_concat]

@[simp] theorem setIdemp_waiting (store : RedisStore P R E) (key : Option String)
    (jobId : String) : (store.setIdemp key jobId).waiting = store.waiting := by
  unfold RedisStore.setIdemp
  repeat' split
  all_goals rfl

theorem spentAt_setIdemp {store : RedisStore P R E} {key : Option String} {i' jobId : String} :
    (store.setIdemp key i').SpentAt jobId ↔ store.SpentAt jobId := by
  simp [RedisStore.SpentAt]

theorem spentAt_setJob {store : RedisStore P R E} {i' jobId : String} {job : Job P R E} :
    (store.setJob i' job).SpentAt jobId ↔
      if jobId = i' then job.Spent else store.SpentAt jobId := by
  rw [RedisStore.SpentAt, RedisStore.SpentAt, RedisStore.setJob]
  by_cases hi : jobId = i'
  · simp [hi]
  · simp [hi]

/-- A command loses a hold on a job only as an event that strands it. -/
theorem held_or_strands (hclient : s.clients[i]? = some ⟨call, false⟩)
    (hcmd : call.command = some cmd) {jobId : String}
    (hlaw : s.store.SpentAt jobId → s.Held jobId)
    (hspent : (s.store.exec cmd).SpentAt jobId) :
    (s.send i call cmd).Held jobId ∨ s.Strands (.command i) := by
  by_contra hnot
  rw [not_or, held_send hclient] at hnot
  simp only [not_or, not_not] at hnot
  obtain ⟨⟨hwaiting, hlease, hbut, hnext⟩, hstrands⟩ := hnot
  rw [held_of_client hclient hcmd] at hlaw
  cases cmd with
  | setJob i' job =>
    simp only [RedisStore.exec] at hspent hwaiting hlease
    rw [spentAt_setJob] at hspent
    split at hspent
    next hi =>
      subst hi
      exact hstrands (.writes i call jobId job hclient hcmd hspent hnext hwaiting hlease hbut)
    next =>
      rcases hlaw hspent with h | h | h | h
      · exact hwaiting h
      · exact h hlease
      · exact hbut h
      · cases h
  | rpop =>
    simp only [RedisStore.exec] at hspent hwaiting hlease
    rcases hlaw hspent with h | h | h | h
    · have hlast := getLast?_of_mem h hwaiting
      exact hstrands (.pops i call jobId hclient hcmd hlast hspent hwaiting hlease hbut)
    · exact h hlease
    · exact hbut h
    · cases h
  | delLease i' =>
    simp only [RedisStore.exec] at hspent hwaiting hlease
    rcases hlaw hspent with h | h | h | h
    · exact hwaiting h
    · by_cases hi : jobId = i'
      · subst hi
        exact hstrands (.unleases i call jobId hclient hcmd hspent hwaiting hbut)
      · exact h (by simpa [RedisStore.delLease, hi] using hlease)
    · exact hbut h
    · cases h
  | lpush i' =>
    rcases hlaw hspent with h | h | h | h
    · exact hwaiting (List.mem_cons_of_mem _ h)
    · exact h hlease
    · exact hbut h
    · cases h
      exact hwaiting List.mem_cons_self
  | rpush i' =>
    rcases hlaw hspent with h | h | h | h
    · exact hwaiting (List.mem_append_left _ h)
    · exact h hlease
    · exact hbut h
    · cases h
      exact hwaiting (List.mem_append_right _ (List.mem_singleton_self _))
  | setLease i' lease =>
    rcases hlaw hspent with h | h | h | h
    · exact hwaiting h
    · by_cases hi : jobId = i'
      · simp [RedisStore.exec, RedisStore.setLease, hi] at hlease
      · exact h (by simpa [RedisStore.exec, RedisStore.setLease, hi] using hlease)
    · exact hbut h
    · cases h
  | setIdemp key i' =>
    simp only [RedisStore.exec, spentAt_setIdemp, setIdemp_waiting,
      RedisStore.setIdemp_lease] at hspent hwaiting hlease
    rcases hlaw hspent with h | h | h | h
    · exact hwaiting h
    · exact h hlease
    · exact hbut h
    · cases h
  | _ =>
    rcases hlaw hspent with h | h | h | h
    · exact hwaiting h
    · exact h hlease
    · exact hbut h
    · cases h

theorem step_command (hclient : s.clients[i]? = some ⟨call, false⟩)
    (hcmd : call.command = some cmd) : s.step (.command i) = some (s.send i call cmd) := by
  simp [step, hclient, hcmd]

theorem enlistsNext_ne (hcmd : call.command = some cmd) {jobId : String}
    (hset : ∀ job, cmd ≠ .setJob jobId job) : call.enlistsNext ≠ some jobId := by
  intro h
  obtain ⟨job, hjob⟩ := enlistsNext_command h
  rw [hcmd, Option.some.injEq] at hjob
  exact hset job hjob

/-- The job that such an event strands is held by nothing afterwards. -/
theorem not_held_of_strands {e : ClusterEvent P R E} (h : s.Strands e) (hs : s.step e = some s') :
    ∃ jobId, s'.store.SpentAt jobId ∧ ¬ s'.Held jobId := by
  cases h with
  | writes i call jobId job hclient hcmd hspent hnext hwaiting hlease hbut =>
    rw [step_command hclient hcmd, Option.some.injEq] at hs
    subst hs
    refine ⟨jobId, spentAt_setJob.mpr (by rw [if_pos rfl]; exact hspent), ?_⟩
    rw [held_send hclient]
    simp [RedisStore.exec, RedisStore.setJob, hwaiting, hlease, hbut, hnext]
  | pops i call jobId hclient hcmd hlast hspent hwaiting hlease hbut =>
    rw [step_command hclient hcmd, Option.some.injEq] at hs
    subst hs
    have hnext : call.enlistsNext ≠ some jobId := enlistsNext_ne hcmd (fun _ h => by cases h)
    refine ⟨jobId, hspent, ?_⟩
    rw [held_send hclient]
    simp [RedisStore.exec, hwaiting, hlease, hbut, hnext]
  | unleases i call jobId hclient hcmd hspent hwaiting hbut =>
    rw [step_command hclient hcmd, Option.some.injEq] at hs
    subst hs
    have hnext : call.enlistsNext ≠ some jobId := enlistsNext_ne hcmd (fun _ h => by cases h)
    refine ⟨jobId, hspent, ?_⟩
    rw [held_send hclient]
    simp [RedisStore.exec, RedisStore.delLease, hwaiting, hbut, hnext]
  | expires jobId hspent hwaiting henlisting =>
    cases hs
    refine ⟨jobId, hspent, ?_⟩
    rintro (h | h | h)
    · exact hwaiting h
    · simp [RedisStore.delLease] at h
    · exact henlisting h
  | crashes i call jobId hclient hcall hspent hwaiting hlease hbut =>
    have hstep : s.step (.crash i) = some { s with clients := s.clients.set i ⟨call, true⟩ } := by
      simp [step, hclient]
    rw [hstep, Option.some.injEq] at hs
    subst hs
    refine ⟨jobId, hspent, ?_⟩
    rw [held_crash hclient]
    simp [hwaiting, hlease, hbut]

theorem enlisting_append {jobId : String} (h : s.Enlisting jobId) (call : Call P R E) :
    ({ s with clients := s.clients ++ [⟨call, false⟩] } : Cluster P R E).Enlisting jobId := by
  obtain ⟨j, c, hc, henlists⟩ := h
  have hlt : j < s.clients.length := (List.getElem?_eq_some_iff.mp hc).1
  exact ⟨j, c, by rw [List.getElem?_append_left hlt, hc], henlists⟩

theorem held_of_step {e : ClusterEvent P R E} (hlaw : ∀ jobId, s.store.SpentAt jobId → s.Held jobId)
    (hs : s.step e = some s') {jobId : String} (hspent : s'.store.SpentAt jobId) :
    s'.Held jobId ∨ s.Strands e := by
  cases moves_of_step hs with
  | calls op call hcall =>
    rcases hlaw jobId hspent with h | h | h
    · exact .inl (.inl h)
    · exact .inl (.inr (.inl h))
    · exact .inl (.inr (.inr (enlisting_append h call)))
  | sends i call cmd hclient hcmd => exact held_or_strands hclient hcmd (hlaw jobId) hspent
  | crashes i call hclient =>
    rw [held_crash hclient]
    by_contra hnot
    simp only [not_or, not_not] at hnot
    obtain ⟨⟨hwaiting, hlease, hbut⟩, hstrands⟩ := hnot
    rcases hlaw jobId hspent with h | h | h
    · exact hwaiting h
    · exact h hlease
    · have hcall := ((enlisting_iff hclient jobId).mp h).resolve_left hbut
      exact hstrands (.crashes i call jobId hclient hcall hspent hwaiting hlease hbut)
  | losesLease i =>
    rcases hlaw jobId hspent with h | h | h
    · exact .inl (.inl h)
    · by_cases hi : jobId = i
      · subst hi
        by_cases hwaiting : jobId ∈ s.store.waiting
        · exact .inl (.inl hwaiting)
        · by_cases henlisting : s.Enlisting jobId
          · exact .inl (.inr (.inr henlisting))
          · exact .inr (.expires jobId hspent hwaiting henlisting)
      · exact .inl (.inr (.inl (by simpa [RedisStore.delLease, hi] using h)))
    · exact .inl (.inr (.inr h))
  | losesKey key => exact .inl (hlaw jobId hspent)

theorem noneLost_step_iff [Inhabited E] {e : ClusterEvent P R E} (hlaw : s.NoneLost)
    (hs : s.step e = some s') : s'.NoneLost ↔ ¬ s.Strands e := by
  rw [noneLost_iff] at hlaw ⊢
  constructor
  · intro h hstrands
    obtain ⟨jobId, hspent, hnot⟩ := not_held_of_strands hstrands hs
    exact hnot (h jobId hspent)
  · intro hstrands jobId hspent
    exact (held_of_step hlaw hs hspent).resolve_right hstrands

end Steps

theorem noneLost_empty : (empty : Cluster P R E).NoneLost :=
  fun _ _ hjob => by cases hjob

/-- No job is lost in a run exactly when none of its events takes the last hold on a job whose
attempts are used up. -/
theorem none_lost_iff [Inhabited E] (events : List (ClusterEvent P R E)) :
    system.Always NoneLost events ↔ system.Meets (fun s e => ¬ s.Strands e) events :=
  System.always_iff_meets (fun _ _ _ hlaw hs => noneLost_step_iff hlaw hs) noneLost_empty

def leases : RedisOp Unit Unit Unit :=
  .leaseNextJob RedisStore.plainAdapter "worker" none "token" ⟨0, 0⟩

/-- A job fails once and is taken again; the second worker crashes before it writes its lease. -/
def crashedWorker : List (ClusterEvent Unit Unit Unit) :=
  .call (.enqueue RedisStore.plainAdapter ⟨some "a", none, none, ()⟩ "" ⟨0, 0⟩) ::
    List.replicate 5 (.command 0) ++
  .call leases :: List.replicate 4 (.command 1) ++
  .call (.failJob "a" "token" () ⟨0, 0⟩) :: List.replicate 4 (.command 2) ++
  .call leases :: List.replicate 3 (.command 3) ++ [.crash 3]

/-- The job stays as the worker left it: running, with no lease and off the list. -/
theorem crashed_worker_loses_job :
    (∃ s, system.run crashedWorker = some s ∧
      (s.store.job "a").map (fun job => (job.state, job.attempts, job.maxRetries)) =
        some (.running, 2, 2) ∧
      s.store.waiting = [] ∧ s.store.lease "a" = none ∧ ¬ s.store.Returnable "a") ∧
      ¬ system.Always NoneLost crashedWorker := by
  obtain ⟨s, hs, hjob, hwaiting, hlease, hclients⟩ : ∃ s, system.run crashedWorker = some s ∧
      (s.store.job "a").map (fun job => (job.state, job.attempts, job.maxRetries)) =
        some (.running, 2, 2) ∧
      s.store.waiting = [] ∧ s.store.lease "a" = none ∧
      s.clients.map (fun c => (c.crashed, c.call.enlists)) =
        [(false, none), (false, none), (false, none), (true, none)] :=
    ⟨_, rfl, rfl, rfl, rfl, rfl⟩
  obtain ⟨job, hget, hfields⟩ := Option.map_eq_some_iff.mp hjob
  simp only [Prod.mk.injEq] at hfields
  obtain ⟨hstate, hattempts, hmax⟩ := hfields
  have hspent : ¬ (job.attempts : ℤ) < job.maxRetries := by rw [hattempts, hmax]; decide
  have hstuck : s.store.Stuck "a" := ⟨by simp [hwaiting], job, hget, hspent⟩
  refine ⟨⟨s, hs, hjob, hwaiting, hlease, hstuck.not_returnable⟩, fun h => ?_⟩
  rcases h.last hs "a" job hget (by rw [hstate]; decide) with h | h | ⟨i, call, hc, henlists⟩ | h
  · simp [hwaiting] at h
  · exact h hlease
  · have hmem := List.mem_map_of_mem (f := fun c => (c.crashed, c.call.enlists))
      (List.mem_of_getElem? hc)
    rw [hclients] at hmem
    simp [henlists] at hmem
  · exact hstuck.not_returnable h

end Cluster
end
end LuaRecovery.Queue
