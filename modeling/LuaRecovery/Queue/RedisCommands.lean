import LuaRecovery.Lib.Runs
import LuaRecovery.Queue.RedisQueue

/-!
# The calls command by command

A call of an adapter that works over a connection sends one command after the
other and waits for each reply. The commands of all clients interleave, a client
may crash between two of them, and a key with a time to live may expire at any
time.
-/

set_option autoImplicit false

namespace LuaRecovery.Queue
open LuaRecovery.Lib

inductive Command (P R E : Type) where
  | getIdemp (key : String)
  | getJob (jobId : String)
  | getLease (jobId : String)
  | llen
  | setJob (jobId : String) (job : Job P R E)
  | setLease (jobId : String) (lease : Lease)
  | setIdemp (key jobId : String)
  | delLease (jobId : String)
  | lpush (jobId : String)
  | rpush (jobId : String)
  | rpop

structure Submission (P : Type) where
  adapter : RedisAdapter
  jobData : JobData P
  uuid : String
  clock : Clock

/-- What `enqueue` is about to send, or what it has returned. -/
inductive EnqueuePhase (P R E : Type) where
  | findKey (key : String)
  | findJob (jobId : String)
  | depth
  | setJob (job : Job P R E)
  | push (job : Job P R E)
  | setKey (key : String) (job : Job P R E)
  | returned (answer : Except QueueError (Job P R E × Bool))

structure LeaseRequest where
  adapter : RedisAdapter
  workerId : String
  leaseDurationMs : Option ℤ
  token : String
  clock : Clock

inductive LeasePhase (P R E : Type) where
  | pop
  | read (jobId : String)
  | setJob (jobId : String) (job : Job P R E)
  | setLease (jobId : String) (job : Job P R E)
  | returned (answer : Option (Job P R E × String × ℤ))

structure Completion (R : Type) where
  jobId : String
  token : String
  result : R
  clock : Clock

inductive CompletePhase (P R E : Type) where
  | findLease
  | read
  | setJob (job : Job P R E)
  | delLease
  | returned (answer : Bool)

structure Failure (E : Type) where
  jobId : String
  token : String
  error : E
  clock : Clock

inductive FailPhase (P R E : Type) where
  | read
  | delLease (job : Job P R E)
  | setQueued (job : Job P R E)
  | push
  | setFailed (job : Job P R E)
  | returned (answer : Bool)

inductive GetPhase (P R E : Type) where
  | read
  | returned (answer : Option (Job P R E))

inductive Call (P R E : Type) where
  | enqueue (submission : Submission P) (phase : EnqueuePhase P R E)
  | leaseNextJob (request : LeaseRequest) (phase : LeasePhase P R E)
  | completeJob (completion : Completion R) (phase : CompletePhase P R E)
  | failJob (failure : Failure E) (phase : FailPhase P R E)
  | getJob (jobId : String) (phase : GetPhase P R E)

section
variable {P R E : Type}

def RedisStore.exec (s : RedisStore P R E) : Command P R E → RedisStore P R E
  | .setJob jobId job => s.setJob jobId job
  | .setLease jobId lease => s.setLease jobId lease
  | .setIdemp key jobId => s.setIdemp (some key) jobId
  | .delLease jobId => s.delLease jobId
  | .lpush jobId => s.lpush jobId
  | .rpush jobId => s.rpush jobId
  | .rpop => { s with waiting := s.waiting.dropLast }
  | _ => s

section Enqueue

/-- The key under which a submission is looked up, if it has one. -/
def Submission.key (sub : Submission P) : Option String := sub.jobData.key.filter (· ≠ "")

def EnqueuePhase.command : EnqueuePhase P R E → Option (Command P R E)
  | .findKey key => some (.getIdemp key)
  | .findJob jobId => some (.getJob jobId)
  | .depth => some .llen
  | .setJob job => some (.setJob job.jobId job)
  | .push job => some (.lpush job.jobId)
  | .setKey key job => some (.setIdemp key job.jobId)
  | .returned _ => none

def Submission.first (sub : Submission P) : EnqueuePhase P R E :=
  match sub.key with
  | some key => .findKey key
  | none => .depth

def Submission.next (sub : Submission P) (s : RedisStore P R E) :
    EnqueuePhase P R E → EnqueuePhase P R E
  | .findKey key =>
      match s.idemp key with
      | some jobId => if jobId = "" then .depth else .findJob jobId
      | none => .depth
  | .findJob jobId =>
      match s.job jobId with
      | some job => .returned (.ok (job, true))
      | none => .depth
  | .depth =>
      if sub.adapter.maxQueueDepth ≤ s.waiting.length then
        .returned (.error (s.backpressure sub.adapter))
      else .setJob (sub.jobData.toJob sub.uuid sub.adapter.maxRetries sub.clock)
  | .setJob job => .push job
  | .push job =>
      match sub.key with
      | some key => .setKey key job
      | none => .returned (.ok (job, false))
  | .setKey _ job => .returned (.ok (job, false))
  | .returned answer => .returned answer

end Enqueue

section Lease

def LeaseRequest.duration (request : LeaseRequest) : ℤ :=
  numberOr request.leaseDurationMs request.adapter.defaultLeaseDurationMs

def LeaseRequest.lease (request : LeaseRequest) : Lease where
  token := request.token
  workerId := request.workerId
  expiresAt := request.clock.now + request.duration
  leaseDurationMs := request.duration

def LeasePhase.command (request : LeaseRequest) : LeasePhase P R E → Option (Command P R E)
  | .pop => some .rpop
  | .read jobId => some (.getJob jobId)
  | .setJob jobId job => some (.setJob jobId job)
  | .setLease jobId _ => some (.setLease jobId request.lease)
  | .returned _ => none

def LeaseRequest.next (request : LeaseRequest) (s : RedisStore P R E) :
    LeasePhase P R E → LeasePhase P R E
  | .pop =>
      match s.waiting.getLast? with
      | some jobId => if jobId = "" then .returned none else .read jobId
      | none => .returned none
  | .read jobId =>
      match s.job jobId with
      | some job =>
        if job.state ≠ .queued then .returned none
        else .setJob jobId { job with
          state := .running, attempts := job.attempts + 1, updatedAt := request.clock.later }
      | none => .returned none
  | .setJob jobId job => .setLease jobId job
  | .setLease _ job => .returned (some (job, request.token, request.lease.expiresAt))
  | .returned answer => .returned answer

end Lease

section Finish

def CompletePhase.command (c : Completion R) : CompletePhase P R E → Option (Command P R E)
  | .findLease => some (.getLease c.jobId)
  | .read => some (.getJob c.jobId)
  | .setJob job => some (.setJob c.jobId job)
  | .delLease => some (.delLease c.jobId)
  | .returned _ => none

def Completion.next (c : Completion R) (s : RedisStore P R E) :
    CompletePhase P R E → CompletePhase P R E
  | .findLease =>
      match s.lease c.jobId with
      | some lease => if lease.token ≠ c.token then .returned false else .read
      | none => .returned false
  | .read =>
      match s.job c.jobId with
      | some job =>
        if isValidTransition job.state .completed then
          .setJob { job with
            state := .completed, result := some c.result, updatedAt := c.clock.now }
        else .returned false
      | none => .returned false
  | .setJob _ => .delLease
  | .delLease => .returned true
  | .returned answer => .returned answer

def FailPhase.command (f : Failure E) : FailPhase P R E → Option (Command P R E)
  | .read => some (.getJob f.jobId)
  | .delLease _ => some (.delLease f.jobId)
  | .setQueued job => some (.setJob f.jobId job)
  | .push => some (.rpush f.jobId)
  | .setFailed job => some (.setJob f.jobId job)
  | .returned _ => none

def Failure.next (f : Failure E) (s : RedisStore P R E) : FailPhase P R E → FailPhase P R E
  | .read =>
      match s.job f.jobId with
      | some job => .delLease job
      | none => .returned false
  | .delLease job =>
      if (job.attempts : ℤ) < job.maxRetries then
        .setQueued { job with state := .queued, updatedAt := f.clock.now }
      else .setFailed { job with
        state := .failed, error := some (.reported f.error), updatedAt := f.clock.now }
  | .setQueued _ => .push
  | .push => .returned true
  | .setFailed _ => .returned true
  | .returned answer => .returned answer

def GetPhase.command (jobId : String) : GetPhase P R E → Option (Command P R E)
  | .read => some (.getJob jobId)
  | .returned _ => none

def GetPhase.next (jobId : String) (s : RedisStore P R E) : GetPhase P R E → GetPhase P R E
  | .read => .returned (s.job jobId)
  | .returned answer => .returned answer

end Finish

namespace Call

def start : RedisOp P R E → Option (Call P R E)
  | .enqueue adapter jobData uuid clock =>
      let sub : Submission P := ⟨adapter, jobData, uuid, clock⟩
      some (.enqueue sub sub.first)
  | .leaseNextJob adapter workerId duration token clock =>
      some (.leaseNextJob ⟨adapter, workerId, duration, token, clock⟩ .pop)
  | .completeJob jobId token result clock =>
      some (.completeJob ⟨jobId, token, result, clock⟩ .findLease)
  | .failJob jobId token error clock => some (.failJob ⟨jobId, token, error, clock⟩ .read)
  | .getJob jobId => some (.getJob jobId .read)
  | _ => none

/-- The command that the call sends next. -/
def command : Call P R E → Option (Command P R E)
  | .enqueue _ phase => phase.command
  | .leaseNextJob request phase => phase.command request
  | .completeJob completion phase => phase.command completion
  | .failJob failure phase => phase.command failure
  | .getJob jobId phase => phase.command jobId

/-- Where the reply to that command takes the call, read off the store it was sent to. -/
def next (s : RedisStore P R E) : Call P R E → Call P R E
  | .enqueue sub phase => .enqueue sub (sub.next s phase)
  | .leaseNextJob request phase => .leaseNextJob request (request.next s phase)
  | .completeJob completion phase => .completeJob completion (completion.next s phase)
  | .failJob failure phase => .failJob failure (failure.next s phase)
  | .getJob jobId phase => .getJob jobId (phase.next jobId s)

def answer : Call P R E → Option (RedisAnswer P R E)
  | .enqueue _ (.returned a) => some (.enqueued a)
  | .leaseNextJob _ (.returned a) => some (.leased a)
  | .completeJob _ (.returned a) => some (.accepted a)
  | .failJob _ (.returned a) => some (.accepted a)
  | .getJob _ (.returned a) => some (.found a)
  | _ => none

/-- The call alone, for as many commands as given, if it has so many to send. -/
def finish : ℕ → RedisStore P R E → Call P R E → RedisStore P R E × Call P R E
  | 0, s, c => (s, c)
  | n+1, s, c =>
      match c.command with
      | some cmd => finish n (s.exec cmd) (c.next s)
      | none => (s, c)

/-- The call that runs alone does what it was said to do in one step. -/
def RunsAs (s : RedisStore P R E) (op : RedisOp P R E) (c : Call P R E) : Prop :=
  ∃ c', c.finish 6 s = ((s.step op).1, c') ∧ c'.answer = some (s.step op).2

theorem finish_succ {s : RedisStore P R E} {c : Call P R E} {cmd : Command P R E} (n : ℕ)
    (hc : c.command = some cmd) : c.finish (n+1) s = (c.next s).finish n (s.exec cmd) := by
  rw [finish, hc]

theorem finish_returned {s : RedisStore P R E} {c : Call P R E} (n : ℕ) (hc : c.command = none) :
    c.finish n s = (s, c) := by
  cases n with
  | zero => rfl
  | succ n => rw [finish, hc]

theorem key_eq {sub : Submission P} {key : String} (h : sub.jobData.key = some key) :
    sub.key = if key = "" then none else some key := by
  rw [Submission.key, h, Option.filter_some]
  by_cases hk : key = "" <;> simp [hk]

theorem setIdemp_key (s : RedisStore P R E) (sub : Submission P) (jobId : String) :
    s.setIdemp sub.jobData.key jobId =
      match sub.key with
      | some key => s.setIdemp (some key) jobId
      | none => s := by
  cases hkey : sub.jobData.key with
  | none => simp [Submission.key, hkey, RedisStore.setIdemp]
  | some key => by_cases hk : key = "" <;> simp [key_eq hkey, hk, RedisStore.setIdemp]

theorem existingJob_key (s : RedisStore P R E) (sub : Submission P) :
    s.existingJob sub.jobData.key =
      match sub.key with
      | some key => s.existingJob (some key)
      | none => none := by
  cases hkey : sub.jobData.key with
  | none => simp [Submission.key, hkey, RedisStore.existingJob]
  | some key => by_cases hk : key = "" <;> simp [key_eq hkey, hk, RedisStore.existingJob]

theorem enqueue_new {s : RedisStore P R E} {sub : Submission P}
    (hnew : s.existingJob sub.jobData.key = none)
    (hroom : ¬ sub.adapter.maxQueueDepth ≤ s.waiting.length) {job : Job P R E}
    (hjob : job = sub.jobData.toJob sub.uuid sub.adapter.maxRetries sub.clock) :
    s.enqueue sub.adapter sub.jobData sub.uuid sub.clock =
      (((s.setJob job.jobId job).lpush job.jobId).setIdemp sub.jobData.key job.jobId, .ok (job, false)) := by
  rw [RedisStore.enqueue, hnew, hjob]
  simp only [if_neg hroom]
  rfl

/-- Once the lookup has found nothing, the rest of the call is what `enqueue` does then. -/
theorem finish_depth {s : RedisStore P R E} {sub : Submission P}
    (hnew : s.existingJob sub.jobData.key = none) (n : ℕ) :
    ∃ c', finish (n+4) s (.enqueue sub .depth) =
        ((s.enqueue sub.adapter sub.jobData sub.uuid sub.clock).1, c') ∧
      c'.answer = some (.enqueued (s.enqueue sub.adapter sub.jobData sub.uuid sub.clock).2) := by
  by_cases hfull : sub.adapter.maxQueueDepth ≤ s.waiting.length
  · rw [RedisStore.enqueue, hnew]
    simp [finish, command, next, EnqueuePhase.command, Submission.next, RedisStore.exec, hfull,
      answer]
  · rw [enqueue_new hnew hfull rfl, setIdemp_key]
    cases hkey : sub.key with
    | none =>
      simp [finish, command, next, EnqueuePhase.command, Submission.next, RedisStore.exec, hfull,
        answer, hkey]
    | some key =>
      refine ⟨.enqueue sub (.returned (.ok (_, false))), ?_, rfl⟩
      rw [finish_succ (n+3) rfl]
      simp only [next, Submission.next, if_neg hfull]
      rw [finish_succ (n+2) rfl, finish_succ (n+1) rfl]
      simp only [next, Submission.next, hkey]
      rw [finish_succ n rfl, finish_returned n rfl]
      rfl

theorem enqueue_runsAs (s : RedisStore P R E) (sub : Submission P) :
    RunsAs s (.enqueue sub.adapter sub.jobData sub.uuid sub.clock) (.enqueue sub sub.first) := by
  have hstep : s.step (.enqueue sub.adapter sub.jobData sub.uuid sub.clock) =
    (s.enqueue sub.adapter sub.jobData sub.uuid sub.clock).map id .enqueued := rfl
  rw [RunsAs, hstep]
  have hexists := existingJob_key s sub
  rw [Submission.first]
  cases hkey : sub.key with
  | none =>
    rw [hkey] at hexists
    exact finish_depth hexists 2
  | some key =>
    rw [hkey] at hexists
    have hne : key ≠ "" := by
      obtain ⟨-, hne⟩ := Option.filter_eq_some_iff.mp hkey
      simpa using hne
    have hfound : s.existingJob (some key) =
        match s.idemp key with
        | some jobId => if jobId = "" then none else s.job jobId
        | none => none := if_neg hne
    simp only [hfound] at hexists
    rw [finish_succ 5 rfl]
    cases hid : s.idemp key with
    | none =>
      simp only [next, RedisStore.exec, Submission.next, hid] at hexists ⊢
      exact finish_depth hexists 1
    | some jobId =>
      by_cases hempty : jobId = ""
      · simp only [next, RedisStore.exec, Submission.next, hid, if_pos hempty] at hexists ⊢
        exact finish_depth hexists 1
      · simp only [next, RedisStore.exec, Submission.next, hid, if_neg hempty] at hexists ⊢
        rw [finish_succ 4 rfl]
        cases hjob : s.job jobId with
        | none =>
          simp only [next, RedisStore.exec, Submission.next, hjob] at hexists ⊢
          exact finish_depth hexists 0
        | some job =>
          simp only [next, RedisStore.exec, Submission.next, hjob] at hexists ⊢
          rw [finish_returned 4 rfl, RedisStore.enqueue, hexists]
          exact ⟨_, rfl, rfl⟩
theorem leaseNextJob_runsAs (s : RedisStore P R E) (request : LeaseRequest) :
    RunsAs s (.leaseNextJob request.adapter request.workerId request.leaseDurationMs
      request.token request.clock) (.leaseNextJob request .pop) := by
  cases hlast : s.waiting.getLast? with
  | none =>
    have hnil : s.waiting.dropLast = s.waiting := by
      rw [List.getLast?_eq_none_iff.mp hlast]
      rfl
    simp [RunsAs, finish, command, next, LeasePhase.command, LeaseRequest.next, RedisStore.exec,
      RedisStore.step, RedisStore.leaseNextJob, answer, hlast, hnil]
  | some jobId =>
    by_cases hid : jobId = ""
    · simp [RunsAs, finish, command, next, LeasePhase.command, LeaseRequest.next, RedisStore.exec,
        hlast, hid, RedisStore.step, RedisStore.leaseNextJob, answer]
    cases hjob : s.job jobId with
    | none =>
      simp [RunsAs, finish, command, next, LeasePhase.command, LeaseRequest.next, RedisStore.exec,
        hlast, hid, hjob, RedisStore.step, RedisStore.leaseNextJob, answer]
    | some job =>
      by_cases hs : job.state = .queued <;>
        simp [RunsAs, finish, command, next, LeasePhase.command, LeaseRequest.next,
          LeaseRequest.lease, LeaseRequest.duration, RedisStore.exec, hlast, hid, hjob, hs,
          RedisStore.step, RedisStore.leaseNextJob, answer]

theorem completeJob_runsAs (s : RedisStore P R E) (c : Completion R) :
    RunsAs s (.completeJob c.jobId c.token c.result c.clock) (.completeJob c .findLease) := by
  cases hl : s.lease c.jobId with
  | none =>
    simp [RunsAs, finish, command, next, CompletePhase.command, Completion.next, RedisStore.exec,
      hl, RedisStore.step, RedisStore.completeJob, answer]
  | some lease =>
    by_cases ht : lease.token = c.token
    · cases hjob : s.job c.jobId with
      | none =>
        simp [RunsAs, finish, command, next, CompletePhase.command, Completion.next,
          RedisStore.exec, hl, hjob, ht, RedisStore.step, RedisStore.completeJob, answer]
      | some job =>
        by_cases hv : isValidTransition job.state .completed = true <;>
          simp [RunsAs, finish, command, next, CompletePhase.command, Completion.next,
            RedisStore.exec, hl, hjob, hv, ht, RedisStore.step, RedisStore.completeJob, answer]
    · simp [RunsAs, finish, command, next, CompletePhase.command, Completion.next,
        RedisStore.exec, hl, ht, RedisStore.step, RedisStore.completeJob, answer]

theorem failJob_runsAs (s : RedisStore P R E) (f : Failure E) :
    RunsAs s (.failJob f.jobId f.token f.error f.clock) (.failJob f .read) := by
  cases hjob : s.job f.jobId with
  | none =>
    simp [RunsAs, finish, command, next, FailPhase.command, Failure.next, RedisStore.exec, hjob,
      RedisStore.step, RedisStore.failJob, answer]
  | some job =>
    by_cases ha : (job.attempts : ℤ) < job.maxRetries <;>
      simp [RunsAs, finish, command, next, FailPhase.command, Failure.next, RedisStore.exec, hjob,
        RedisStore.step, RedisStore.failJob, answer, ha]

/-- Each call, when nothing comes between its commands, is one step of the store. -/
theorem start_runsAs (s : RedisStore P R E) {op : RedisOp P R E} {c : Call P R E}
    (hc : start op = some c) : RunsAs s op c := by
  cases op with
  | enqueue adapter jobData uuid clock =>
    cases hc
    exact enqueue_runsAs s ⟨adapter, jobData, uuid, clock⟩
  | leaseNextJob adapter workerId duration token clock =>
    cases hc
    exact leaseNextJob_runsAs s ⟨adapter, workerId, duration, token, clock⟩
  | completeJob jobId token result clock =>
    cases hc
    exact completeJob_runsAs s ⟨jobId, token, result, clock⟩
  | failJob jobId token error clock =>
    cases hc
    exact failJob_runsAs s ⟨jobId, token, error, clock⟩
  | getJob jobId =>
    cases hc
    exact ⟨_, rfl, rfl⟩
  | _ => cases hc

end Call

section Cluster

structure Client (P R E : Type) where
  call : Call P R E
  crashed : Bool

/-- One Redis and the clients of it, each with the call it makes. -/
structure Cluster (P R E : Type) where
  store : RedisStore P R E
  clients : List (Client P R E)
  /-- The clients that have pushed a new job so far. -/
  pushed : List ℕ

inductive ClusterEvent (P R E : Type) where
  | call (op : RedisOp P R E)
  | command (i : ℕ)
  | crash (i : ℕ)
  | expireLease (jobId : String)
  | expireIdemp (idempotencyKey : String)

def Command.pushesJob : Command P R E → Bool
  | .lpush _ => true
  | _ => false

namespace Cluster

def empty : Cluster P R E := ⟨.empty, [], []⟩

def callAt (s : Cluster P R E) (i : ℕ) : Option (Call P R E) := (s.clients[i]?).map (·.call)

def send (s : Cluster P R E) (i : ℕ) (call : Call P R E) (cmd : Command P R E) :
    Cluster P R E where
  store := s.store.exec cmd
  clients := s.clients.set i ⟨call.next s.store, false⟩
  pushed := if cmd.pushesJob then s.pushed ++ [i] else s.pushed

def step (s : Cluster P R E) : ClusterEvent P R E → Option (Cluster P R E)
  | .call op => (Call.start op).map (fun call => { s with clients := s.clients ++ [⟨call, false⟩] })
  | .command i => do
      let c ← s.clients[i]?
      if c.crashed then none else return s.send i c.call (← c.call.command)
  | .crash i => do
      let c ← s.clients[i]?
      if c.crashed then none else return { s with clients := s.clients.set i ⟨c.call, true⟩ }
  | .expireLease jobId => some { s with store := s.store.delLease jobId }
  | .expireIdemp key =>
      some { s with store := { s.store with idemp := Function.update s.store.idemp key none } }

def system : System (Cluster P R E) (ClusterEvent P R E) where
  start := empty
  step := step

/-- What one event does to the store and the calls. -/
inductive Moves (s : Cluster P R E) : ClusterEvent P R E → Cluster P R E → Prop where
  | calls (op : RedisOp P R E) (call : Call P R E) (hcall : Call.start op = some call) :
      Moves s (.call op) { s with clients := s.clients ++ [⟨call, false⟩] }
  | sends (i : ℕ) (call : Call P R E) (cmd : Command P R E)
      (hclient : s.clients[i]? = some ⟨call, false⟩) (hcmd : call.command = some cmd) :
      Moves s (.command i) (s.send i call cmd)
  | crashes (i : ℕ) (call : Call P R E) (hclient : s.clients[i]? = some ⟨call, false⟩) :
      Moves s (.crash i) { s with clients := s.clients.set i ⟨call, true⟩ }
  | losesLease (jobId : String) :
      Moves s (.expireLease jobId) { s with store := s.store.delLease jobId }
  | losesKey (key : String) :
      Moves s (.expireIdemp key)
        { s with store := { s.store with idemp := Function.update s.store.idemp key none } }

theorem moves_of_step {s s' : Cluster P R E} {e : ClusterEvent P R E} (h : s.step e = some s') :
    Moves s e s' := by
  cases e with
  | call op =>
    obtain ⟨call, hcall, rfl⟩ := Option.map_eq_some_iff.mp h
    exact .calls op call hcall
  | command i =>
    obtain ⟨⟨call, crashed⟩, hclient, h⟩ := Option.bind_eq_some_iff.mp h
    cases crashed with
    | true => cases h
    | false =>
      obtain ⟨cmd, hcmd, h⟩ := Option.bind_eq_some_iff.mp h
      cases h
      exact .sends i call cmd hclient hcmd
  | crash i =>
    obtain ⟨⟨call, crashed⟩, hclient, h⟩ := Option.bind_eq_some_iff.mp h
    cases crashed with
    | true => cases h
    | false =>
      cases h
      exact .crashes i call hclient
  | expireLease jobId =>
    cases h
    exact .losesLease jobId
  | expireIdemp key =>
    cases h
    exact .losesKey key

theorem callAt_of_client {s : Cluster P R E} {i : ℕ} {c : Client P R E}
    (hi : s.clients[i]? = some c) : s.callAt i = some c.call := by
  rw [callAt, hi]
  rfl

theorem callAt_set {s s' : Cluster P R E} {i : ℕ} {c : Client P R E} {call : Call P R E}
    (hi : s.callAt i = some call) (hs : s'.clients = s.clients.set i c) (j : ℕ) :
    s'.callAt j = if j = i then some c.call else s.callAt j := by
  have hlt : i < s.clients.length := by
    obtain ⟨c', hc', -⟩ := Option.map_eq_some_iff.mp hi
    exact (List.getElem?_eq_some_iff.mp hc').1
  rw [callAt, hs, List.getElem?_set]
  by_cases hj : i = j
  · rw [if_pos hj, if_pos hlt, if_pos hj.symm]
    rfl
  · rw [if_neg hj, if_neg (fun h => hj h.symm)]
    rfl

theorem callAt_append {s s' : Cluster P R E} {c : Client P R E}
    (hs : s'.clients = s.clients ++ [c]) (j : ℕ) :
    s'.callAt j = s.callAt j ∨ (s.callAt j = none ∧ s'.callAt j = some c.call) := by
  rw [callAt, callAt, hs]
  rcases lt_trichotomy j s.clients.length with hlt | rfl | hgt
  · rw [List.getElem?_append_left hlt]
    exact .inl rfl
  · simp
  · rw [List.getElem?_eq_none (by simp; omega), List.getElem?_eq_none (by omega)]
    exact .inl rfl

end Cluster
end Cluster
end
end LuaRecovery.Queue
