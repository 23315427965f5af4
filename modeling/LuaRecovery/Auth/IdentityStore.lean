import LuaRecovery.Auth.SessionStore
import LuaRecovery.Lib.ListEntries
import LuaRecovery.Lib.Runs
import Mathlib.Data.List.Infix

/-!
# The identity store

An external identity gets a principal when it is seen for the first time. The
lock of a process keeps its own calls apart; between processes it is the index
of the collection that lets one insertion win, and the others read again.
-/

set_option autoImplicit false

namespace LuaRecovery.Auth
open LuaRecovery.Lib

/-- An id that was generated, which is never empty. -/
abbrev Uuid := { id : String // id ≠ "" }

structure Identity where
  principalId : Uuid
  provider : String
  providerSubject : String
  roles : Option (List String)

def Identity.subject (d : Identity) : String × String := (d.provider, d.providerSubject)

structure MongoError where
  code : Option ℤ
  message : String

def duplicateKey : MongoError := ⟨some 11000, "E11000 duplicate key error collection"⟩

def MongoError.isDuplicate (err : MongoError) : Bool :=
  err.code = some 11000 ∨ "duplicate key".toList <:+: err.message.toList

/-- The documents of the collection, under its unique index. -/
structure Identities where
  documents : List Identity
  unique : (documents.map Identity.subject).Nodup

namespace Identities

def findOne (c : Identities) (subject : String × String) : Option Identity :=
  c.documents.find? fun d => d.subject = subject

theorem nodup_concat {documents : List Identity} {d : Identity}
    (hunique : (documents.map Identity.subject).Nodup)
    (hnew : d.subject ∉ documents.map Identity.subject) :
    ((documents ++ [d]).map Identity.subject).Nodup := by
  rw [List.map_append, List.nodup_append]
  refine ⟨hunique, by simp, fun subject hsubject other hother => ?_⟩
  rw [List.map_singleton, List.mem_singleton] at hother
  rintro rfl
  exact hnew (hother ▸ hsubject)

def insertOne (c : Identities) (d : Identity) : Except MongoError Identities :=
  if h : d.subject ∈ c.documents.map Identity.subject then .error duplicateKey
  else .ok ⟨c.documents ++ [d], nodup_concat c.unique h⟩

end Identities

def Principal.create (principalId provider providerSubject : String) (roles : List String) :
    Except String Principal :=
  if principalId = "" then .error "principalId is required"
  else if provider = "" then .error "provider is required"
  else if providerSubject = "" then .error "providerSubject is required"
  else .ok ⟨principalId, provider, providerSubject, roles⟩

def Identity.toPrincipal (d : Identity) : Except String Principal :=
  Principal.create d.principalId d.provider d.providerSubject (d.roles.getD ["user"])

/-- What a call of `getOrCreatePrincipal` waits for, or what has come of it. -/
inductive IdentityPhase where
  | locking
  | finding
  | inserting (principalId : Uuid)
  | rereading (err : MongoError)
  | finished (result : Except String Principal)

structure IdentityCall where
  process : ℕ
  provider : String
  providerSubject : String
  phase : IdentityPhase

namespace IdentityCall

def subject (call : IdentityCall) : String × String := (call.provider, call.providerSubject)

def lockKey (call : IdentityCall) : ℕ × String :=
  (call.process, call.provider ++ ":" ++ call.providerSubject)

def start (process : ℕ) (provider providerSubject : String) : IdentityCall where
  process := process
  provider := provider
  providerSubject := providerSubject
  phase :=
    if provider = "" then .finished (.error "INVALID_PROVIDER: provider is required")
    else if providerSubject = "" then
      .finished (.error "INVALID_PROVIDER_SUBJECT: providerSubject is required")
    else .locking

def newDoc (call : IdentityCall) (principalId : Uuid) : Identity :=
  ⟨principalId, call.provider, call.providerSubject, some ["user"]⟩

def afterFind (fresh : Uuid) : Except MongoError (Option Identity) → IdentityPhase
  | .error err => .finished (.error err.message)
  | .ok (some existing) => .finished existing.toPrincipal
  | .ok none => .inserting fresh

def afterInsert (call : IdentityCall) (principalId : Uuid) : Except MongoError Unit → IdentityPhase
  | .ok () =>
      .finished (Principal.create principalId call.provider call.providerSubject ["user"])
  | .error err => if err.isDuplicate then .rereading err else .finished (.error err.message)

def afterReread (err : MongoError) : Except MongoError (Option Identity) → IdentityPhase
  | .error other => .finished (.error other.message)
  | .ok (some raceFound) => .finished raceFound.toPrincipal
  | .ok none => .finished (.error err.message)

def isFinished (call : IdentityCall) : Bool :=
  match call.phase with
  | .finished _ => true
  | _ => false

/-- The steps that the call has before it at most. -/
def stepsLeft (call : IdentityCall) : ℕ :=
  match call.phase with
  | .locking => 4
  | .finding => 3
  | .inserting _ => 2
  | .rereading _ => 1
  | .finished _ => 0

/-- The call has its lock and is not over. -/
def Holds (call : IdentityCall) : Prop := 0 < call.stepsLeft ∧ call.stepsLeft < 4

end IdentityCall

/-- An operation that throws, whether or not it was carried out before. -/
structure Fault where
  err : MongoError
  carriedOut : Bool

inductive IdentityEvent where
  | call (process : ℕ) (provider providerSubject : String)
  | step (i : ℕ) (fresh : Uuid) (fault : Option Fault)

def IdentityEvent.fault : IdentityEvent → Option Fault
  | .step _ _ fault => fault
  | _ => none

/-- Processes that share one collection; each lock is held by one of them. -/
structure IdentityServers where
  collection : Identities
  calls : List IdentityCall
  locks : List (ℕ × String)
  used : List Uuid

namespace IdentityServers

def answered {A : Type} (fault : Option Fault) (answer : A) : Except MongoError A :=
  match fault with
  | none => .ok answer
  | some fault => .error fault.err

/-- The insertion and its answer. -/
def insert (c : Identities) (d : Identity) : Option Fault → Identities × Except MongoError Unit
  | none =>
    match c.insertOne d with
    | .ok c' => (c', .ok ())
    | .error err => (c, .error err)
  | some fault =>
    match c.insertOne d with
    | .ok c' => (if fault.carriedOut then c' else c, .error fault.err)
    | .error _ => (c, .error fault.err)

/-- The call goes on to its next phase; when that is its last, it gives its lock back. -/
def advance (s : IdentityServers) (i : ℕ) (call : IdentityCall) (phase : IdentityPhase) :
    IdentityServers :=
  let call' := { call with phase := phase }
  { s with
    calls := s.calls.set i call'
    locks := if call'.isFinished then s.locks.erase call.lockKey else s.locks }

def step (s : IdentityServers) : IdentityEvent → Option IdentityServers
  | .call process provider providerSubject =>
      some { s with calls := s.calls ++ [.start process provider providerSubject] }
  | .step i fresh fault =>
    s.calls[i]?.bind fun call =>
      match call.phase with
      | .locking =>
        if call.lockKey ∈ s.locks then none
        else some { s with
          calls := s.calls.set i { call with phase := .finding }
          locks := call.lockKey :: s.locks }
      | .finding =>
        if fresh ∈ s.used then none
        else
          some { s.advance i call
            (IdentityCall.afterFind fresh (answered fault (s.collection.findOne call.subject))) with
            used := fresh :: s.used }
      | .inserting principalId =>
        let (collection, answer) := insert s.collection (call.newDoc principalId) fault
        some { s.advance i call (call.afterInsert principalId answer) with
          collection := collection }
      | .rereading err =>
        some (s.advance i call
          (IdentityCall.afterReread err (answered fault (s.collection.findOne call.subject))))
      | .finished _ => none

def system (c : Identities) : System IdentityServers IdentityEvent where
  start := ⟨c, [], [], c.documents.map Identity.principalId⟩
  step := step

def Returned (s : IdentityServers) (subject : String × String) (p : Principal) : Prop :=
  ∃ call ∈ s.calls, call.subject = subject ∧ call.phase = .finished (.ok p)

/-- A call that need not wait for its lock comes to a principal by steps of its own, if no operation
throws. -/
def Answers (c : Identities) (s : IdentityServers) : Prop :=
  ∀ (i : ℕ) (call : IdentityCall) (fresh : Uuid), s.calls[i]? = some call → call.provider ≠ "" →
    call.providerSubject ≠ "" → call.isFinished = false →
    (call.phase = .locking → call.lockKey ∉ s.locks) → fresh ∉ s.used →
    ∃ n ≤ call.stepsLeft, ∃ t p,
      (system c).runFrom s (List.replicate n (.step i fresh none)) = some t ∧
        t.calls[i]? = some { call with phase := .finished (.ok p) }

/-- The collection has ids of its own, and so has each call that is to insert one; a principal that
was returned is in the collection. -/
structure Sound (s : IdentityServers) : Prop where
  distinct : (s.collection.documents.map Identity.principalId).Nodup
  drawn : ∀ d ∈ s.collection.documents, d.principalId ∈ s.used
  pending : ∀ (i : ℕ) (call : IdentityCall) id, s.calls[i]? = some call →
    call.phase = .inserting id → id ∈ s.used ∧
      id ∉ s.collection.documents.map Identity.principalId
  apart : ∀ (i j : ℕ) (call call' : IdentityCall) id, s.calls[i]? = some call →
    s.calls[j]? = some call' → call.phase = .inserting id → call'.phase = .inserting id → i = j
  kept : ∀ call ∈ s.calls, ∀ p, call.phase = .finished (.ok p) →
    ∃ d ∈ s.collection.documents, d.subject = call.subject ∧ d.principalId.val = p.principalId

end IdentityServers

def IdentityCall.Named (call : IdentityCall) : Prop :=
  call.provider ≠ "" ∧ call.providerSubject ≠ ""

/-- Without a fault, the call has an answer or is sure to get one. -/
def IdentityCall.Steady (documents : List Identity) (call : IdentityCall) : Prop :=
  match call.phase with
  | .finished (.ok _) => True
  | .finished (.error _) => ¬ call.Named
  | .rereading _ => call.Named ∧ ∃ d ∈ documents, d.subject = call.subject
  | _ => call.Named

namespace Identities
variable {c c' : Identities} {d : Identity} {subject : String × String}

theorem findOne_eq_some (h : c.findOne subject = some d) :
    d ∈ c.documents ∧ d.subject = subject := by
  refine ⟨List.mem_of_find?_eq_some h, ?_⟩
  simpa using List.find?_some h

theorem findOne_isSome (hd : d ∈ c.documents) (hsubject : d.subject = subject) :
    (c.findOne subject).isSome := by
  rw [findOne, List.find?_isSome]
  exact ⟨d, hd, by simpa using hsubject⟩

theorem insertOne_eq_ok (h : c.insertOne d = .ok c') : c'.documents = c.documents ++ [d] := by
  unfold insertOne at h
  split at h
  · cases h
  · exact (Except.ok.inj h) ▸ rfl

theorem insertOne_eq_error {err : MongoError} (h : c.insertOne d = .error err) :
    err = duplicateKey ∧ ∃ other ∈ c.documents, other.subject = d.subject := by
  unfold insertOne at h
  split at h
  next hmem => exact ⟨(Except.error.inj h).symm, List.mem_map.mp hmem⟩
  next => cases h

end Identities

theorem create_eq_ok {id provider subject : String} {roles : List String} {p : Principal}
    (h : Principal.create id provider subject roles = .ok p) : p.principalId = id := by
  unfold Principal.create at h
  split at h
  · cases h
  · split at h
    · cases h
    · split at h
      · cases h
      · exact (Except.ok.inj h) ▸ rfl

theorem exists_create (id : Uuid) {provider subject : String} (roles : List String)
    (hprovider : provider ≠ "") (hsubject : subject ≠ "") :
    ∃ p, Principal.create id provider subject roles = .ok p :=
  ⟨⟨id, provider, subject, roles⟩, by simp [Principal.create, id.2, hprovider, hsubject]⟩

namespace IdentityCall
variable {documents documents' : List Identity} {fault : Option Fault} {call : IdentityCall}

theorem Steady.named (h : call.Steady documents) (hopen : call.isFinished = false) :
    call.Named := by
  unfold Steady at h
  unfold isFinished at hopen
  split at h
  next hphase => simp [hphase] at hopen
  next hphase => simp [hphase] at hopen
  next => exact h.1
  next => exact h

theorem Steady.mono (h : call.Steady documents) (hsub : ∀ d ∈ documents, d ∈ documents') :
    call.Steady documents' := by
  unfold Steady at h ⊢
  split
  next => trivial
  next hphase => simpa only [hphase] using h
  next hphase =>
    simp only [hphase] at h
    obtain ⟨hnamed, d, hd, hsubject⟩ := h
    exact ⟨hnamed, d, hsub d hd, hsubject⟩
  next => split at h <;> first | exact h | simp_all

/-- A phase that the call can go on to without an insertion of its own before it. -/
structure Settled (documents : List Identity) (fault : Option Fault) (call : IdentityCall)
    (phase : IdentityPhase) : Prop where
  drawn : ∀ id, phase ≠ .inserting id
  returned : ∀ p, phase = .finished (.ok p) →
    ∃ d ∈ documents, d.subject = call.subject ∧ d.principalId.val = p.principalId
  steady : fault = none → call.Steady documents → Steady documents { call with phase := phase }

theorem settled_create {d : Identity} (hd : d ∈ documents) (hsubject : d.subject = call.subject)
    (hopen : call.isFinished = false) (roles : List String) :
    Settled documents fault call
      (.finished (Principal.create d.principalId call.provider call.providerSubject roles)) := by
  refine ⟨fun id h => (by cases h), fun p h => ?_, fun _ hsteady => ?_⟩
  · exact ⟨d, hd, hsubject, (create_eq_ok (IdentityPhase.finished.inj h)).symm⟩
  · obtain ⟨hprovider, hname⟩ := hsteady.named hopen
    obtain ⟨p, hp⟩ := exists_create d.principalId roles hprovider hname
    rw [hp]
    trivial

theorem settled_toPrincipal {d : Identity} (hd : d ∈ documents)
    (hsubject : d.subject = call.subject) (hopen : call.isFinished = false) :
    Settled documents fault call (.finished d.toPrincipal) := by
  have hprovider : d.provider = call.provider := congrArg Prod.fst hsubject
  have hname : d.providerSubject = call.providerSubject := congrArg Prod.snd hsubject
  rw [Identity.toPrincipal, hprovider, hname]
  exact settled_create hd hsubject hopen _

theorem settled_error (msg : String) (hsure : fault = none → ¬ call.Steady documents) :
    Settled documents fault call (.finished (.error msg)) :=
  ⟨fun id h => (by cases h), fun p h => (by cases h), fun hnone h => absurd h (hsure hnone)⟩

theorem settled_reread {d : Identity} (err : MongoError) (hopen : call.isFinished = false)
    (hd : fault = none → d ∈ documents ∧ d.subject = call.subject) :
    Settled documents fault call (.rereading err) :=
  ⟨fun id h => (by cases h), fun p h => (by cases h), fun hnone h =>
    ⟨h.named hopen, d, (hd hnone).1, (hd hnone).2⟩⟩

end IdentityCall

namespace IdentityServers
open IdentityCall
variable {s s' : IdentityServers} {e : IdentityEvent}

/-- What a step does. -/
inductive Moves (s : IdentityServers) : IdentityEvent → IdentityServers → Prop where
  | starts (process : ℕ) (provider providerSubject : String) :
      Moves s (.call process provider providerSubject)
        { s with calls := s.calls ++ [.start process provider providerSubject] }
  | locks (i : ℕ) (fresh : Uuid) (fault : Option Fault) (call : IdentityCall)
      (hget : s.calls[i]? = some call) (hphase : call.phase = .locking) :
      Moves s (.step i fresh fault) { s with
        calls := s.calls.set i { call with phase := .finding }
        locks := call.lockKey :: s.locks }
  | draws (i : ℕ) (fresh : Uuid) (fault : Option Fault) (call : IdentityCall)
      (hget : s.calls[i]? = some call) (hphase : call.phase = .finding) (hnew : fresh ∉ s.used) :
      Moves s (.step i fresh fault) { s with
        calls := s.calls.set i { call with phase := .inserting fresh }
        used := fresh :: s.used }
  | settles (i : ℕ) (fresh : Uuid) (fault : Option Fault) (call : IdentityCall)
      (phase : IdentityPhase) (locks : List (ℕ × String)) (used : List Uuid)
      (hget : s.calls[i]? = some call) (hused : ∀ id ∈ s.used, id ∈ used)
      (hsettled : Settled s.collection.documents fault call phase) :
      Moves s (.step i fresh fault)
        ⟨s.collection, s.calls.set i { call with phase := phase }, locks, used⟩
  | inserts (i : ℕ) (fresh : Uuid) (fault : Option Fault) (call : IdentityCall) (id : Uuid)
      (phase : IdentityPhase) (c : Identities) (locks : List (ℕ × String))
      (hget : s.calls[i]? = some call) (hphase : call.phase = .inserting id)
      (hdocuments : c.documents = s.collection.documents ++ [call.newDoc id])
      (hsettled : Settled c.documents fault call phase) :
      Moves s (.step i fresh fault) ⟨c, s.calls.set i { call with phase := phase }, locks, s.used⟩

/-- The insertion either adds the document or leaves the collection, and its answer settles the
call. -/
theorem settled_insert {c : Identities} {call : IdentityCall} {id : Uuid} (fault : Option Fault)
    (hphase : call.phase = .inserting id) :
    Settled (insert c (call.newDoc id) fault).1.documents fault call
        (call.afterInsert id (insert c (call.newDoc id) fault).2) ∧
      ((insert c (call.newDoc id) fault).1 = c ∨
        (insert c (call.newDoc id) fault).1.documents = c.documents ++ [call.newDoc id]) := by
  have hopen : call.isFinished = false := by simp [isFinished, hphase]
  cases fault with
  | none =>
    unfold insert
    cases hinsert : c.insertOne (call.newDoc id) with
    | ok c' =>
      have hdocuments := Identities.insertOne_eq_ok hinsert
      refine ⟨?_, .inr hdocuments⟩
      have hd : call.newDoc id ∈ c'.documents := by simp [hdocuments]
      exact settled_create hd rfl hopen _
    | error err =>
      obtain ⟨rfl, d, hd, hsubject⟩ := Identities.insertOne_eq_error hinsert
      exact ⟨settled_reread duplicateKey hopen fun _ => ⟨hd, hsubject⟩, .inl rfl⟩
  | some fault =>
    have hsettled : ∀ documents, Settled documents (some fault) call
        (call.afterInsert id (.error fault.err)) := by
      intro documents
      unfold afterInsert
      dsimp only
      split
      · exact settled_reread (d := call.newDoc id) fault.err hopen fun h => by cases h
      · exact settled_error fault.err.message fun h => by cases h
    unfold insert
    cases hinsert : c.insertOne (call.newDoc id) with
    | ok c' =>
      refine ⟨hsettled _, ?_⟩
      dsimp only
      split
      · exact .inr (Identities.insertOne_eq_ok hinsert)
      · exact .inl rfl
    | error err => exact ⟨hsettled _, .inl rfl⟩

theorem moves_of_step (hstep : s.step e = some s') : Moves s e s' := by
  cases e with
  | call process provider providerSubject =>
    obtain rfl := Option.some.inj hstep
    exact .starts process provider providerSubject
  | step i fresh fault =>
    obtain ⟨call, hget, hstep⟩ := Option.bind_eq_some_iff.mp hstep
    cases hphase : call.phase with
    | locking =>
      simp only [hphase] at hstep
      obtain ⟨-, hstep⟩ := Option.ite_none_left_eq_some.mp hstep
      obtain rfl := Option.some.inj hstep
      exact .locks i fresh fault call hget hphase
    | finding =>
      have hopen : call.isFinished = false := by simp [isFinished, hphase]
      simp only [hphase] at hstep
      obtain ⟨hnew, hstep⟩ := Option.ite_none_left_eq_some.mp hstep
      obtain rfl := Option.some.inj hstep
      cases fault with
      | some fault =>
        exact .settles i fresh _ call _ _ _ hget (fun _ => List.mem_cons_of_mem _)
          (settled_error fault.err.message fun h => by cases h)
      | none =>
        cases hfind : s.collection.findOne call.subject with
        | none => exact .draws i fresh none call hget hphase hnew
        | some existing =>
          obtain ⟨hd, hsubject⟩ := Identities.findOne_eq_some hfind
          exact .settles i fresh none call _ _ _ hget (fun _ => List.mem_cons_of_mem _)
            (settled_toPrincipal hd hsubject hopen)
    | inserting id =>
      simp only [hphase] at hstep
      obtain rfl := Option.some.inj hstep
      obtain ⟨hsettled, hkept | hadded⟩ := settled_insert (c := s.collection) fault hphase
      · rw [hkept] at hsettled ⊢
        exact .settles i fresh fault call _ _ _ hget (fun _ h => h) hsettled
      · exact .inserts i fresh fault call id _ _ _ hget hphase hadded hsettled
    | rereading err =>
      have hopen : call.isFinished = false := by simp [isFinished, hphase]
      simp only [hphase] at hstep
      obtain rfl := Option.some.inj hstep
      refine .settles i fresh fault call _ _ _ hget (fun _ => id) ?_
      cases fault with
      | some fault => exact settled_error fault.err.message fun h => by cases h
      | none =>
        cases hfind : s.collection.findOne call.subject with
        | some raceFound =>
          obtain ⟨hd, hsubject⟩ := Identities.findOne_eq_some hfind
          exact settled_toPrincipal hd hsubject hopen
        | none =>
          refine settled_error err.message fun _ hsteady => ?_
          simp only [Steady, hphase] at hsteady
          obtain ⟨-, d, hd, hsubject⟩ := hsteady
          have hsome := Identities.findOne_isSome hd hsubject
          rw [hfind] at hsome
          cases hsome
    | finished result =>
      simp only [hphase] at hstep
      cases hstep

theorem Sound.calls (hs : Sound s) {call : IdentityCall} (hopen : ∀ id, call.phase ≠ .inserting id)
    (hno : ∀ p, call.phase ≠ .finished (.ok p)) : Sound { s with calls := s.calls ++ [call] } := by
  refine ⟨hs.distinct, hs.drawn, fun i other id h hphase => ?_,
    fun i j other other' id h h' hphase hphase' => ?_, fun other hmem p hphase => ?_⟩
  · rcases getElem?_concat_eq_some h with h | rfl
    · exact hs.pending i other id h hphase
    · exact absurd hphase (hopen id)
  · rcases getElem?_concat_eq_some h with h | rfl
    · rcases getElem?_concat_eq_some h' with h' | rfl
      · exact hs.apart i j other other' id h h' hphase hphase'
      · exact absurd hphase' (hopen id)
    · exact absurd hphase (hopen id)
  · rcases List.mem_append.mp hmem with hmem | hmem
    · exact hs.kept other hmem p hphase
    · rw [List.mem_singleton.mp hmem] at hphase
      exact absurd hphase (hno p)

theorem Sound.draws {i : ℕ} {call : IdentityCall} {fresh : Uuid} (hs : Sound s)
    (hnew : fresh ∉ s.used) :
    Sound { s with
      calls := s.calls.set i { call with phase := .inserting fresh }
      used := fresh :: s.used } := by
  have hother : ∀ (j : ℕ) (other : IdentityCall), s.calls[j]? = some other →
      other.phase ≠ .inserting fresh := fun j other h hphase =>
    hnew (hs.pending j other fresh h hphase).1
  refine ⟨hs.distinct, fun d hd => List.mem_cons_of_mem _ (hs.drawn d hd),
    fun j other id h hphase => ?_, fun j k other other' id h h' hphase hphase' => ?_,
    forall_set hs.kept (fun p hphase => by cases hphase) i⟩
  · rcases getElem?_set_eq_some h with ⟨-, rfl⟩ | ⟨-, h⟩
    · obtain rfl := IdentityPhase.inserting.inj hphase
      refine ⟨List.mem_cons_self, fun hmem => hnew ?_⟩
      obtain ⟨d, hd, hid⟩ := List.mem_map.mp hmem
      exact hid ▸ hs.drawn d hd
    · obtain ⟨hused, hfree⟩ := hs.pending j other id h hphase
      exact ⟨List.mem_cons_of_mem _ hused, hfree⟩
  · rcases getElem?_set_eq_some h with ⟨hij, rfl⟩ | ⟨-, h⟩
    · obtain rfl := IdentityPhase.inserting.inj hphase
      rcases getElem?_set_eq_some h' with ⟨hik, -⟩ | ⟨-, h'⟩
      · exact hij.symm.trans hik
      · exact absurd hphase' (hother k other' h')
    · rcases getElem?_set_eq_some h' with ⟨-, rfl⟩ | ⟨-, h'⟩
      · obtain rfl := IdentityPhase.inserting.inj hphase'
        exact absurd hphase (hother j other h)
      · exact hs.apart j k other other' id h h' hphase hphase'

theorem Sound.settles {i : ℕ} {call : IdentityCall} {phase : IdentityPhase} {fault : Option Fault}
    {locks : List (ℕ × String)} {used : List Uuid} (hs : Sound s)
    (hused : ∀ id ∈ s.used, id ∈ used)
    (hsettled : Settled s.collection.documents fault call phase) :
    Sound ⟨s.collection, s.calls.set i { call with phase := phase }, locks, used⟩ := by
  have hold : ∀ (j : ℕ) (other : IdentityCall) id,
      (s.calls.set i { call with phase := phase })[j]? = some other →
        other.phase = .inserting id → s.calls[j]? = some other := by
    intro j other id h hphase
    rcases getElem?_set_eq_some h with ⟨-, rfl⟩ | ⟨-, h⟩
    · exact absurd hphase (hsettled.drawn id)
    · exact h
  refine ⟨hs.distinct, fun d hd => hused _ (hs.drawn d hd), fun j other id h hphase => ?_,
    fun j k other other' id h h' hphase hphase' => ?_, forall_set hs.kept hsettled.returned i⟩
  · obtain ⟨hmem, hfree⟩ := hs.pending j other id (hold j other id h hphase) hphase
    exact ⟨hused id hmem, hfree⟩
  · exact hs.apart j k other other' id (hold j other id h hphase) (hold k other' id h' hphase')
      hphase hphase'

theorem Sound.inserts {i : ℕ} {call : IdentityCall} {id : Uuid} {phase : IdentityPhase}
    {fault : Option Fault} {c : Identities} {locks : List (ℕ × String)} (hs : Sound s)
    (hget : s.calls[i]? = some call) (hphase : call.phase = .inserting id)
    (hdocuments : c.documents = s.collection.documents ++ [call.newDoc id])
    (hsettled : Settled c.documents fault call phase) :
    Sound ⟨c, s.calls.set i { call with phase := phase }, locks, s.used⟩ := by
  obtain ⟨hmem, hfree⟩ := hs.pending i call id hget hphase
  have hids : c.documents.map Identity.principalId =
      s.collection.documents.map Identity.principalId ++ [id] := by
    rw [hdocuments, List.map_append, List.map_singleton]
    rfl
  have hold : ∀ (j : ℕ) (other : IdentityCall) id',
      (s.calls.set i { call with phase := phase })[j]? = some other →
        other.phase = .inserting id' → i ≠ j ∧ s.calls[j]? = some other := by
    intro j other id' h hother
    rcases getElem?_set_eq_some h with ⟨-, rfl⟩ | h
    · exact absurd hother (hsettled.drawn id')
    · exact h
  refine ⟨?_, fun d hd => ?_, fun j other id' h hother => ?_,
    fun j k other other' id' h h' hother hother' => ?_,
    forall_set (fun other hother p hp => ?_) hsettled.returned i⟩
  · show (c.documents.map Identity.principalId).Nodup
    rw [hids, List.nodup_append]
    refine ⟨hs.distinct, by simp, fun id' hid' other hother => ?_⟩
    rw [List.mem_singleton.mp hother]
    rintro rfl
    exact hfree hid'
  · rw [show (⟨c, _, locks, s.used⟩ : IdentityServers).collection.documents = c.documents from rfl,
      hdocuments, List.mem_append, List.mem_singleton] at hd
    rcases hd with hd | rfl
    · exact hs.drawn d hd
    · exact hmem
  · obtain ⟨hij, h⟩ := hold j other id' h hother
    obtain ⟨hmem', hfree'⟩ := hs.pending j other id' h hother
    refine ⟨hmem', ?_⟩
    show id' ∉ c.documents.map Identity.principalId
    rw [hids, List.mem_append, List.mem_singleton]
    rintro (hin | rfl)
    · exact hfree' hin
    · exact hij (hs.apart i j call other id' hget h hphase hother)
  · exact hs.apart j k other other' id' (hold j other id' h hother).2 (hold k other' id' h' hother').2
      hother hother'
  · obtain ⟨d, hd, hsubject⟩ := hs.kept other hother p hp
    refine ⟨d, ?_, hsubject⟩
    show d ∈ c.documents
    rw [hdocuments]
    exact List.mem_append.mpr (.inl hd)

theorem start_phase (process : ℕ) (provider providerSubject : String) :
    (IdentityCall.start process provider providerSubject).phase = .locking ∨
      ∃ msg, (IdentityCall.start process provider providerSubject).phase =
        .finished (.error msg) := by
  unfold IdentityCall.start
  dsimp only
  split
  · exact .inr ⟨_, rfl⟩
  · split
    · exact .inr ⟨_, rfl⟩
    · exact .inl rfl

theorem Moves.sound (hm : Moves s e s') (hs : Sound s) : Sound s' := by
  cases hm with
  | starts process provider providerSubject =>
    rcases start_phase process provider providerSubject with hphase | ⟨msg, hphase⟩
    · exact hs.calls (fun id h => by rw [hphase] at h; cases h)
        fun p h => by rw [hphase] at h; cases h
    · exact hs.calls (fun id h => by rw [hphase] at h; cases h)
        fun p h => by rw [hphase] at h; cases h
  | locks i fresh fault call hget hphase =>
    have hsettled : Settled s.collection.documents fault call .finding :=
      ⟨fun id h => (by cases h), fun p h => (by cases h), fun _ hsteady =>
        hsteady.named (by simp [isFinished, hphase])⟩
    exact hs.settles (fun _ h => h) hsettled
  | draws i fresh fault call hget hphase hnew => exact hs.draws hnew
  | settles i fresh fault call phase locks used hget hused hsettled =>
    exact hs.settles hused hsettled
  | inserts i fresh fault call id phase c locks hget hphase hdocuments hsettled =>
    exact hs.inserts hget hphase hdocuments hsettled

theorem Moves.steady (hm : Moves s e s') (hfault : e.fault = none)
    (hs : ∀ call ∈ s.calls, call.Steady s.collection.documents) :
    ∀ call ∈ s'.calls, call.Steady s'.collection.documents := by
  cases hm with
  | starts process provider providerSubject =>
    intro call hmem
    rcases List.mem_append.mp hmem with hmem | hmem
    · exact hs call hmem
    · rw [List.mem_singleton.mp hmem]
      by_cases hprovider : provider = ""
      · simp [Steady, IdentityCall.start, Named, hprovider]
      · by_cases hsubject : providerSubject = ""
        · simp [Steady, IdentityCall.start, Named, hprovider, hsubject]
        · simp [Steady, IdentityCall.start, Named, hprovider, hsubject]
  | locks i fresh fault call hget hphase =>
    refine forall_set hs ?_ i
    exact (hs call (List.mem_of_getElem? hget)).named (by simp [isFinished, hphase])
  | draws i fresh fault call hget hphase hnew =>
    refine forall_set hs ?_ i
    exact (hs call (List.mem_of_getElem? hget)).named (by simp [isFinished, hphase])
  | settles i fresh fault call phase locks used hget hused hsettled =>
    exact forall_set hs (hsettled.steady hfault (hs call (List.mem_of_getElem? hget))) i
  | inserts i fresh fault call id phase c locks hget hphase hdocuments hsettled =>
    have hgrown : ∀ call ∈ s.calls, call.Steady c.documents := by
      refine fun call hmem => (hs call hmem).mono fun d hd => ?_
      rw [hdocuments]
      exact List.mem_append.mpr (.inl hd)
    exact forall_set hgrown (hsettled.steady hfault (hgrown call (List.mem_of_getElem? hget))) i

/-- A step of a call takes it nearer to its end; the lock is taken by the first step and given back
by the last. -/
structure Advances (s : IdentityServers) (i : ℕ) (call call' : IdentityCall)
    (s' : IdentityServers) : Prop where
  calls : s'.calls = s.calls.set i call'
  phase : ∃ phase, call' = { call with phase := phase }
  nearer : call'.stepsLeft < call.stepsLeft
  takes : call.phase = .locking → call'.phase = .finding ∧ call.lockKey ∉ s.locks ∧
    s'.locks = call.lockKey :: s.locks ∧ s'.used = s.used
  gives : call.phase ≠ .locking →
    s'.locks = if call'.isFinished then s.locks.erase call.lockKey else s.locks

/-- Two processes that ask for the same identity at the same time. -/
def twoAtOnce : List IdentityEvent :=
  [.call 0 "discord" "2", .call 1 "discord" "2", .step 0 ⟨"id-2", by decide⟩ none,
    .step 1 ⟨"id-3", by decide⟩ none, .step 0 ⟨"id-2", by decide⟩ none,
    .step 1 ⟨"id-3", by decide⟩ none, .step 0 ⟨"id-4", by decide⟩ none,
    .step 1 ⟨"id-4", by decide⟩ none, .step 1 ⟨"id-4", by decide⟩ none]

end IdentityServers
end LuaRecovery.Auth
