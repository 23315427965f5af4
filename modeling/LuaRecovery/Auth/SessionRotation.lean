import LuaRecovery.Auth.SessionStore
import LuaRecovery.Lib.ListEntries
import LuaRecovery.Lib.Runs

/-!
# Rotations of one session at the same time

In the database a rotation is three operations: the session is found, deleted
and inserted under a new token. How many documents the deletion has hit is not
looked at, so each call that finds the session goes on to insert one.
-/

set_option autoImplicit false

namespace LuaRecovery.Auth
open LuaRecovery.Lib LuaRecovery.Queue

section
variable {Metadata : Type}

/-- The documents, each filed under its `_id`, the digest of its token. -/
structure MongoSessionStore (Metadata : Type) extends SessionStore where
  collection : InsertionMap String (SessionRecord Metadata)

/-- What a call of `rotateSession` has sent to the database, or what has come of it. -/
inductive RotatePhase (Metadata : Type) where
  | finding
  | discarding
  | deleting (existing : SessionRecord Metadata)
  | inserting (newRawToken : String) (newRecord : SessionRecord Metadata)
  | finished (result : Except String (String × SessionRecord Metadata))

namespace MongoSessionStore

/-- The record of a session under its new token. -/
def rotated (existing : SessionRecord Metadata) (newTokenHash csrfToken : String) (now : ℤ) :
    SessionRecord Metadata where
  sessionIdHash := newTokenHash
  principalId := existing.principalId
  principal := existing.principal
  csrfToken := csrfToken
  createdAt := existing.createdAt
  lastSeenAt := now
  rotationVersion := (if existing.rotationVersion = 0 then 1 else existing.rotationVersion) + 1
  metadata := existing.metadata

/-- The operation that a rotation waits for is carried out, and the call goes on to its next one. -/
def rotateStep (sha256 : String → String) (s : MongoSessionStore Metadata) (tokenHash : String)
    (draws : TokenDraws) (now : ℤ) :
    RotatePhase Metadata → MongoSessionStore Metadata × RotatePhase Metadata
  | .finding =>
    match s.collection.get tokenHash with
    | none => (s, .discarding)
    | some existing => if s.isExpired existing now then (s, .discarding) else (s, .deleting existing)
  | .discarding =>
      ({ s with collection := s.collection.delete tokenHash }, .finished (.error invalidSession))
  | .deleting existing =>
      ({ s with collection := s.collection.delete tokenHash },
        .inserting draws.rawToken
          (rotated existing (sha256 draws.rawToken) draws.csrfToken now))
  | .inserting newRawToken newRecord =>
      ({ s with collection := s.collection.set newRecord.sessionIdHash newRecord },
        .finished (.ok (newRawToken, newRecord)))
  | .finished result => (s, .finished result)

end MongoSessionStore

/-- The calls that rotate one token, and the digests that have been used for tokens. -/
structure Rotations (Metadata : Type) where
  store : MongoSessionStore Metadata
  calls : List (RotatePhase Metadata)
  used : List String

/-- Calls start and go on; other calls delete the session of the token or note that it was seen. -/
inductive RotateEvent where
  | call
  | step (i : ℕ) (draws : TokenDraws) (now : ℤ)
  | remove
  | touch (now : ℤ)

namespace RotatePhase

def isFinished : RotatePhase Metadata → Bool
  | .finished _ => true
  | _ => false

/-- The new record, once it has been made. -/
def newRecord : RotatePhase Metadata → Option (SessionRecord Metadata)
  | .inserting _ newRecord => some newRecord
  | .finished (.ok (_, newRecord)) => some newRecord
  | _ => none

/-- The call has found the session, or has rotated it. -/
def found : RotatePhase Metadata → Bool
  | .deleting _ => true
  | phase => phase.newRecord.isSome

end RotatePhase

namespace Rotations

/-- A call that goes on draws a token whose digest was not used before. -/
def step (sha256 : String → String) (tokenHash : String) (s : Rotations Metadata) :
    RotateEvent → Option (Rotations Metadata)
  | .call => some { s with calls := s.calls ++ [.finding] }
  | .step i draws now =>
    if sha256 draws.rawToken ∈ s.used then none
    else
      s.calls[i]?.bind fun phase =>
        if phase.isFinished then none
        else
          let (store, phase') := s.store.rotateStep sha256 tokenHash draws now phase
          some ⟨store, s.calls.set i phase', sha256 draws.rawToken :: s.used⟩
  | .remove =>
      some { s with store := { s.store with collection := s.store.collection.delete tokenHash } }
  | .touch now =>
    match s.store.collection.get tokenHash with
    | none => some s
    | some session =>
        some { s with store := { s.store with
          collection := s.store.collection.set tokenHash (session.seenAt now) } }

def system (sha256 : String → String) (tokenHash : String) (store : MongoSessionStore Metadata) :
    System (Rotations Metadata) RotateEvent where
  start := ⟨store, [], tokenHash :: store.collection.keys⟩
  step := step sha256 tokenHash

/-- A call has returned a new session, and it is stored. -/
def Returned (s : Rotations Metadata) (i : ℕ) : Prop :=
  ∃ token record, s.calls[i]? = some (.finished (.ok (token, record))) ∧
    s.store.collection.get record.sessionIdHash = some record

/-- At most one new session is there, and once it is returned the old one is gone. -/
structure NotForked (tokenHash : String) (s : Rotations Metadata) : Prop where
  one : ∀ i j, s.Returned i → s.Returned j → i = j
  dead : ∀ i, s.Returned i → s.store.collection.get tokenHash = none

/-- A call that finds the session is the only one to have found it before it is deleted. -/
def FindsAlone (tokenHash : String) (s : Rotations Metadata) : RotateEvent → Prop
  | .step i _ now => s.calls[i]? = some .finding → ∀ existing,
      s.store.collection.get tokenHash = some existing → s.store.isExpired existing now = false →
        ∀ (j : ℕ) (earlier : SessionRecord Metadata), s.calls[j]? ≠ some (.deleting earlier)
  | _ => True

def Answered (s : Rotations Metadata) : Prop :=
  ∀ phase ∈ s.calls, phase.isFinished = true

def Found (s : Rotations Metadata) (i : ℕ) : Prop :=
  ∃ phase : RotatePhase Metadata, s.calls[i]? = some phase ∧ phase.found = true

/-- The call has made its new record. -/
def Makes (s : Rotations Metadata) (i : ℕ) (record : SessionRecord Metadata) : Prop :=
  ∃ phase : RotatePhase Metadata, s.calls[i]? = some phase ∧ phase.newRecord = some record

/-- The new sessions have digests of their own, and are stored once they are returned; from the
deletion on the old session is gone. -/
structure Sound (tokenHash : String) (s : Rotations Metadata) : Prop where
  old : tokenHash ∈ s.used
  fresh : ∀ i record, s.Makes i record → record.sessionIdHash ∈ s.used ∧
    record.sessionIdHash ≠ tokenHash
  apart : ∀ i j record record', s.Makes i record → s.Makes j record' →
    record.sessionIdHash = record'.sessionIdHash → i = j
  stored : ∀ (i : ℕ) token record, s.calls[i]? = some (.finished (.ok (token, record))) →
    s.store.collection.get record.sessionIdHash = some record
  gone : ∀ i record, s.Makes i record → s.store.collection.get tokenHash = none

section
variable {sha256 : String → String} {tokenHash : String} {s s' : Rotations Metadata}
  {e : RotateEvent}

/-- What a step does. -/
inductive Moves (sha256 : String → String) (tokenHash : String) (s : Rotations Metadata) :
    RotateEvent → Rotations Metadata → Prop where
  | calls : Moves sha256 tokenHash s .call { s with calls := s.calls ++ [.finding] }
  | misses (i : ℕ) (draws : TokenDraws) (now : ℤ) (hget : s.calls[i]? = some .finding)
      (hnone : ∀ existing, s.store.collection.get tokenHash = some existing →
        s.store.isExpired existing now = true) :
      Moves sha256 tokenHash s (.step i draws now)
        ⟨s.store, s.calls.set i .discarding, sha256 draws.rawToken :: s.used⟩
  | finds (i : ℕ) (draws : TokenDraws) (now : ℤ) (existing : SessionRecord Metadata)
      (hget : s.calls[i]? = some .finding)
      (hfound : s.store.collection.get tokenHash = some existing)
      (hlive : s.store.isExpired existing now = false) :
      Moves sha256 tokenHash s (.step i draws now)
        ⟨s.store, s.calls.set i (.deleting existing), sha256 draws.rawToken :: s.used⟩
  | discards (i : ℕ) (draws : TokenDraws) (now : ℤ) (hget : s.calls[i]? = some .discarding) :
      Moves sha256 tokenHash s (.step i draws now)
        ⟨{ s.store with collection := s.store.collection.delete tokenHash },
          s.calls.set i (.finished (.error invalidSession)), sha256 draws.rawToken :: s.used⟩
  | deletes (i : ℕ) (draws : TokenDraws) (now : ℤ) (existing : SessionRecord Metadata)
      (hget : s.calls[i]? = some (.deleting existing)) (hnew : sha256 draws.rawToken ∉ s.used) :
      Moves sha256 tokenHash s (.step i draws now)
        ⟨{ s.store with collection := s.store.collection.delete tokenHash },
          s.calls.set i (.inserting draws.rawToken (MongoSessionStore.rotated existing
            (sha256 draws.rawToken) draws.csrfToken now)), sha256 draws.rawToken :: s.used⟩
  | inserts (i : ℕ) (draws : TokenDraws) (now : ℤ) (token : String)
      (record : SessionRecord Metadata) (hget : s.calls[i]? = some (.inserting token record)) :
      Moves sha256 tokenHash s (.step i draws now)
        ⟨{ s.store with collection := s.store.collection.set record.sessionIdHash record },
          s.calls.set i (.finished (.ok (token, record))), sha256 draws.rawToken :: s.used⟩
  | removes : Moves sha256 tokenHash s .remove
      { s with store := { s.store with collection := s.store.collection.delete tokenHash } }
  | fades (now : ℤ) (hnone : s.store.collection.get tokenHash = none) :
      Moves sha256 tokenHash s (.touch now) s
  | touches (now : ℤ) (session : SessionRecord Metadata)
      (hfound : s.store.collection.get tokenHash = some session) :
      Moves sha256 tokenHash s (.touch now) { s with store := { s.store with
        collection := s.store.collection.set tokenHash (session.seenAt now) } }

theorem moves_of_step (hstep : step sha256 tokenHash s e = some s') :
    Moves sha256 tokenHash s e s' := by
  cases e with
  | call =>
    obtain rfl := Option.some.inj hstep
    exact .calls
  | remove =>
    obtain rfl := Option.some.inj hstep
    exact .removes
  | touch now =>
    rw [step] at hstep
    split at hstep
    next hnone =>
      obtain rfl := Option.some.inj hstep
      exact .fades now hnone
    next session hfound =>
      obtain rfl := Option.some.inj hstep
      exact .touches now session hfound
  | step i draws now =>
    obtain ⟨hnew, hstep⟩ := Option.ite_none_left_eq_some.mp hstep
    obtain ⟨phase, hget, hstep⟩ := Option.bind_eq_some_iff.mp hstep
    obtain ⟨hopen, hstep⟩ := Option.ite_none_left_eq_some.mp hstep
    obtain rfl := Option.some.inj hstep
    cases phase with
    | finding =>
      dsimp only
      split
      next hnone => exact .misses i draws now hget fun existing h => by rw [hnone] at h; cases h
      next existing hfound =>
        split
        next hexpired =>
          refine .misses i draws now hget fun other hother => ?_
          rw [hfound] at hother
          exact Option.some.inj hother ▸ hexpired
        next hlive => exact .finds i draws now existing hget hfound (by simpa using hlive)
    | discarding => exact .discards i draws now hget
    | deleting existing => exact .deletes i draws now existing hget hnew
    | inserting token record => exact .inserts i draws now token record hget
    | finished result => exact absurd rfl hopen

/-- A step that makes no record and leaves the other sessions where they are. -/
theorem Sound.quiet (hs : Sound tokenHash s) (hused : ∀ digest ∈ s.used, digest ∈ s'.used)
    (hcalls : ∀ (j : ℕ) (phase : RotatePhase Metadata) (record : SessionRecord Metadata),
      s'.calls[j]? = some phase → phase.newRecord = some record → s.calls[j]? = some phase)
    (hget : ∀ digest, digest ≠ tokenHash →
      s'.store.collection.get digest = s.store.collection.get digest)
    (hgone : s.store.collection.get tokenHash = none →
      s'.store.collection.get tokenHash = none) : Sound tokenHash s' := by
  have hmakes : ∀ j record, s'.Makes j record → s.Makes j record := by
    rintro j record ⟨phase, hphase, hrecord⟩
    exact ⟨phase, hcalls j phase record hphase hrecord, hrecord⟩
  refine ⟨hused _ hs.old, fun j record h => ?_, fun j k record record' h h' => ?_,
    fun j token record h => ?_, fun j record h => hgone (hs.gone j record (hmakes j record h))⟩
  · obtain ⟨hmem, hne⟩ := hs.fresh j record (hmakes j record h)
    exact ⟨hused _ hmem, hne⟩
  · exact hs.apart j k record record' (hmakes j record h) (hmakes k record' h')
  · have hold := hcalls j _ record h rfl
    have hne := (hs.fresh j record ⟨_, hold, rfl⟩).2
    rw [hget record.sessionIdHash hne]
    exact hs.stored j token record hold

/-- A call that has made its record draws a digest of its own. -/
theorem Sound.deletes {i : ℕ} {record : SessionRecord Metadata} {token : String}
    (hs : Sound tokenHash s) (hnew : record.sessionIdHash ∉ s.used) :
    Sound tokenHash ⟨{ s.store with collection := s.store.collection.delete tokenHash },
      s.calls.set i (.inserting token record), record.sessionIdHash :: s.used⟩ := by
  have hmakes : ∀ j record', Makes ⟨{ s.store with
      collection := s.store.collection.delete tokenHash },
      s.calls.set i (.inserting token record), record.sessionIdHash :: s.used⟩ j record' →
      (i = j ∧ record' = record) ∨ s.Makes j record' := by
    rintro j record' ⟨phase, hphase, hrecord⟩
    rcases getElem?_set_eq_some hphase with ⟨rfl, rfl⟩ | ⟨-, hphase⟩
    · exact .inl ⟨rfl, (Option.some.inj hrecord).symm⟩
    · exact .inr ⟨phase, hphase, hrecord⟩
  refine ⟨List.mem_cons_of_mem _ hs.old, fun j record' h => ?_, fun j k r r' h h' heq => ?_,
    fun j token' record' h => ?_, fun _ _ _ => InsertionMap.get_delete_self _ _⟩
  · rcases hmakes j record' h with ⟨rfl, rfl⟩ | h
    · exact ⟨List.mem_cons_self, fun heq => hnew (heq ▸ hs.old)⟩
    · obtain ⟨hmem, hne⟩ := hs.fresh j record' h
      exact ⟨List.mem_cons_of_mem _ hmem, hne⟩
  · rcases hmakes j r h with ⟨rfl, rfl⟩ | h
    · rcases hmakes k r' h' with ⟨hik, -⟩ | h'
      · exact hik
      · exact absurd (heq ▸ (hs.fresh k r' h').1) hnew
    · rcases hmakes k r' h' with ⟨-, hsame⟩ | h'
      · rw [← hsame, ← heq] at hnew
        exact absurd (hs.fresh j r h).1 hnew
      · exact hs.apart j k r r' h h' heq
  · rcases getElem?_set_eq_some h with ⟨-, hphase⟩ | ⟨-, hphase⟩
    · cases hphase
    · have hne := (hs.fresh j record' ⟨_, hphase, rfl⟩).2
      show (s.store.collection.delete tokenHash).get record'.sessionIdHash = some record'
      rw [InsertionMap.get_delete_ne _ hne]
      exact hs.stored j token' record' hphase

/-- The record is stored besides those that were stored before. -/
theorem Sound.inserts {i : ℕ} {record : SessionRecord Metadata} {token digest : String}
    (hs : Sound tokenHash s) (hget : s.calls[i]? = some (.inserting token record)) :
    Sound tokenHash
      ⟨{ s.store with collection := s.store.collection.set record.sessionIdHash record },
        s.calls.set i (.finished (.ok (token, record))), digest :: s.used⟩ := by
  have hmade : s.Makes i record := ⟨_, hget, rfl⟩
  obtain ⟨-, hother⟩ := hs.fresh i record hmade
  have hmakes : ∀ j record', Makes
      ⟨{ s.store with collection := s.store.collection.set record.sessionIdHash record },
        s.calls.set i (.finished (.ok (token, record))), digest :: s.used⟩ j record' →
      s.Makes j record' := by
    rintro j record' ⟨phase, hphase, hrecord⟩
    rcases getElem?_set_eq_some hphase with ⟨rfl, rfl⟩ | ⟨-, hphase⟩
    · exact Option.some.inj hrecord ▸ hmade
    · exact ⟨phase, hphase, hrecord⟩
  refine ⟨List.mem_cons_of_mem _ hs.old, fun j record' h => ?_,
    fun j k r r' h h' => hs.apart j k r r' (hmakes j r h) (hmakes k r' h'),
    fun j token' record' h => ?_, fun j record' h => ?_⟩
  · obtain ⟨hmem, hne⟩ := hs.fresh j record' (hmakes j record' h)
    exact ⟨List.mem_cons_of_mem _ hmem, hne⟩
  · rcases getElem?_set_eq_some h with ⟨rfl, hphase⟩ | ⟨hij, hphase⟩
    · cases hphase
      exact InsertionMap.get_set_self _ _ _
    · have hne : record'.sessionIdHash ≠ record.sessionIdHash := fun heq =>
        hij (hs.apart j i record' record ⟨_, hphase, rfl⟩ hmade heq).symm
      show (s.store.collection.set record.sessionIdHash record).get record'.sessionIdHash = _
      rw [InsertionMap.get_set_ne _ _ hne]
      exact hs.stored j token' record' hphase
  · show (s.store.collection.set record.sessionIdHash record).get tokenHash = none
    rw [InsertionMap.get_set_ne _ _ hother.symm]
    exact hs.gone i record hmade

/-- The calls before a call went on to a phase without a record. -/
theorem getElem?_of_advance {calls : List (RotatePhase Metadata)} {i : ℕ}
    {phase' : RotatePhase Metadata} (hnone : phase'.newRecord = none) (j : ℕ)
    (phase : RotatePhase Metadata) (record : SessionRecord Metadata)
    (h : (calls.set i phase')[j]? = some phase) (hrecord : phase.newRecord = some record) :
    calls[j]? = some phase := by
  rcases getElem?_set_eq_some h with ⟨-, rfl⟩ | ⟨-, hphase⟩
  · rw [hnone] at hrecord
    cases hrecord
  · exact hphase

theorem Moves.sound (hm : Moves sha256 tokenHash s e s') (hs : Sound tokenHash s) :
    Sound tokenHash s' := by
  have hdelete : ∀ digest, digest ≠ tokenHash →
      (s.store.collection.delete tokenHash).get digest = s.store.collection.get digest :=
    fun digest hne => InsertionMap.get_delete_ne _ hne
  have hnext : ∀ digest next, digest ∈ s.used → digest ∈ next :: s.used :=
    fun digest next hmem => List.mem_cons_of_mem _ hmem
  cases hm with
  | calls =>
    refine hs.quiet (fun _ => id) (fun j phase record h hrecord => ?_) (fun _ _ => rfl) id
    rcases getElem?_concat_eq_some h with h | rfl
    · exact h
    · cases hrecord
  | misses i draws now hget hnone =>
    exact hs.quiet (hnext · _) (getElem?_of_advance rfl) (fun _ _ => rfl) id
  | finds i draws now existing hget hfound hlive =>
    exact hs.quiet (hnext · _) (getElem?_of_advance rfl) (fun _ _ => rfl) id
  | discards i draws now hget =>
    exact hs.quiet (hnext · _) (getElem?_of_advance rfl) hdelete
      fun _ => InsertionMap.get_delete_self _ _
  | deletes i draws now existing hget hnew => exact hs.deletes hnew
  | inserts i draws now token record hget => exact hs.inserts hget
  | removes =>
    exact hs.quiet (fun _ => id) (fun _ _ _ h _ => h) hdelete
      fun _ => InsertionMap.get_delete_self _ _
  | fades now hnone => exact hs
  | touches now session hfound =>
    refine hs.quiet (fun _ => id) (fun _ _ _ h _ => h)
      (fun digest hne => InsertionMap.get_set_ne _ _ hne) fun hnone => ?_
    rw [hfound] at hnone
    cases hnone

/-- A call that has found the session has done so before the step, or in it. -/
theorem Moves.found_before {j : ℕ} (hm : Moves sha256 tokenHash s e s') (hj : s'.Found j) :
    s.Found j ∨ ∃ draws now existing, e = .step j draws now ∧ s.calls[j]? = some .finding ∧
      s.store.collection.get tokenHash = some existing ∧
      s.store.isExpired existing now = false := by
  obtain ⟨phase, hphase, hfound⟩ := hj
  cases hm with
  | calls =>
    rcases getElem?_concat_eq_some hphase with hphase | rfl
    · exact .inl ⟨phase, hphase, hfound⟩
    · cases hfound
  | misses i draws now hget hnone =>
    rcases getElem?_set_eq_some hphase with ⟨-, rfl⟩ | ⟨-, hphase⟩
    · cases hfound
    · exact .inl ⟨phase, hphase, hfound⟩
  | finds i draws now existing hget hexists hlive =>
    rcases getElem?_set_eq_some hphase with ⟨rfl, rfl⟩ | ⟨-, hphase⟩
    · exact .inr ⟨draws, now, existing, rfl, hget, hexists, hlive⟩
    · exact .inl ⟨phase, hphase, hfound⟩
  | discards i draws now hget =>
    rcases getElem?_set_eq_some hphase with ⟨-, rfl⟩ | ⟨-, hphase⟩
    · cases hfound
    · exact .inl ⟨phase, hphase, hfound⟩
  | deletes i draws now existing hget hnew =>
    rcases getElem?_set_eq_some hphase with ⟨rfl, -⟩ | ⟨-, hphase⟩
    · exact .inl ⟨_, hget, rfl⟩
    · exact .inl ⟨phase, hphase, hfound⟩
  | inserts i draws now token record hget =>
    rcases getElem?_set_eq_some hphase with ⟨rfl, -⟩ | ⟨-, hphase⟩
    · exact .inl ⟨_, hget, rfl⟩
    · exact .inl ⟨phase, hphase, hfound⟩
  | _ => exact .inl ⟨phase, hphase, hfound⟩

theorem found_advance {store : MongoSessionStore Metadata} {used : List String} {i j : ℕ}
    {old phase' : RotatePhase Metadata} (hget : s.calls[i]? = some old)
    (hkept : old.found = true → phase'.found = true) (hj : s.Found j) :
    Found ⟨store, s.calls.set i phase', used⟩ j := by
  obtain ⟨phase, hphase, hfound⟩ := hj
  by_cases hij : i = j
  · subst hij
    obtain rfl := Option.some.inj (hget.symm.trans hphase)
    exact ⟨phase', by rw [List.getElem?_set_self', hphase]; rfl, hkept hfound⟩
  · exact ⟨phase, by rw [List.getElem?_set_ne hij, hphase], hfound⟩

theorem Moves.found_after {j : ℕ} (hm : Moves sha256 tokenHash s e s') (hj : s.Found j) :
    s'.Found j := by
  cases hm with
  | calls =>
    obtain ⟨phase, hphase, hfound⟩ := hj
    obtain ⟨hlt, -⟩ := List.getElem?_eq_some_iff.mp hphase
    exact ⟨phase, by rw [List.getElem?_append_left hlt, hphase], hfound⟩
  | misses i draws now hget hnone => exact found_advance hget (fun h => by cases h) hj
  | finds i draws now existing hget hexists hlive => exact found_advance hget (fun _ => rfl) hj
  | discards i draws now hget => exact found_advance hget (fun h => by cases h) hj
  | deletes i draws now existing hget hnew => exact found_advance hget (fun _ => rfl) hj
  | inserts i draws now token record hget => exact found_advance hget (fun _ => rfl) hj
  | _ => exact hj

/-- Only one call has found the session. -/
def Single (s : Rotations Metadata) : Prop :=
  ∀ i j, s.Found i → s.Found j → i = j

/-- Two calls have found the same session. -/
def Doubled (s : Rotations Metadata) : Prop :=
  ∃ i j, i ≠ j ∧ s.Found i ∧ s.Found j

/-- As long as the session is there, a call that has found it has not deleted it yet. -/
theorem Sound.deleting {i : ℕ} {existing : SessionRecord Metadata} (hs : Sound tokenHash s)
    (hexists : s.store.collection.get tokenHash = some existing) (hi : s.Found i) :
    ∃ earlier : SessionRecord Metadata, s.calls[i]? = some (.deleting earlier) := by
  obtain ⟨phase, hphase, hfound⟩ := hi
  cases hrecord : phase.newRecord with
  | some record =>
    rw [hs.gone i record ⟨phase, hphase, hrecord⟩] at hexists
    cases hexists
  | none =>
    cases phase with
    | deleting earlier => exact ⟨earlier, hphase⟩
    | _ => simp [RotatePhase.found, hrecord] at hfound

theorem Moves.single (hm : Moves sha256 tokenHash s e s') (hs : Sound tokenHash s)
    (halone : FindsAlone tokenHash s e) (hsingle : s.Single) : s'.Single := by
  intro i j hi hj
  rcases hm.found_before hi with hi | ⟨draws, now, existing, rfl, hget, hexists, hlive⟩
  · rcases hm.found_before hj with hj | ⟨draws, now, existing, rfl, hget, hexists, hlive⟩
    · exact hsingle i j hi hj
    · obtain ⟨earlier, hearlier⟩ := hs.deleting hexists hi
      exact absurd hearlier (halone hget existing hexists hlive i earlier)
  · rcases hm.found_before hj with hj | ⟨_, _, _, hsame, _⟩
    · obtain ⟨earlier, hearlier⟩ := hs.deleting hexists hj
      exact absurd hearlier (halone hget existing hexists hlive j earlier)
    · cases hsame
      rfl

theorem Moves.doubled (hm : Moves sha256 tokenHash s e s') (halone : ¬ FindsAlone tokenHash s e) :
    s'.Doubled := by
  cases e with
  | step i draws now =>
    simp only [FindsAlone] at halone
    push Not at halone
    obtain ⟨hget, existing, hexists, hlive, j, earlier, hearlier⟩ := halone
    have hij : i ≠ j := by
      rintro rfl
      rw [hget] at hearlier
      cases hearlier
    refine ⟨i, j, hij, ?_, hm.found_after ⟨_, hearlier, rfl⟩⟩
    cases hm with
    | misses _ _ _ hget' hnone =>
      rw [hnone existing hexists] at hlive
      cases hlive
    | finds _ _ _ other hget' hfound =>
      exact ⟨.deleting other, by rw [List.getElem?_set_self', hget]; rfl, rfl⟩
    | discards _ _ _ hget' => rw [hget] at hget'; cases hget'
    | deletes _ _ _ _ hget' => rw [hget] at hget'; cases hget'
    | inserts _ _ _ _ _ hget' => rw [hget] at hget'; cases hget'
  | _ => exact absurd trivial halone

theorem Doubled.moves (hm : Moves sha256 tokenHash s e s') (hd : s.Doubled) : s'.Doubled := by
  obtain ⟨i, j, hij, hi, hj⟩ := hd
  exact ⟨i, j, hij, hm.found_after hi, hm.found_after hj⟩

theorem Found.returned {i : ℕ} (hi : s.Found i) (hs : Sound tokenHash s) (hover : s.Answered) :
    s.Returned i := by
  obtain ⟨phase, hphase, hfound⟩ := hi
  have hfinished := hover phase (List.mem_of_getElem? hphase)
  cases phase with
  | finished result =>
    cases result with
    | error thrown => cases hfound
    | ok answer => exact ⟨answer.1, answer.2, hphase, hs.stored i _ _ hphase⟩
  | _ => cases hfinished

theorem Returned.found {i : ℕ} (hi : s.Returned i) : s.Found i := by
  obtain ⟨token, record, hphase, -⟩ := hi
  exact ⟨_, hphase, rfl⟩

theorem Single.notForked (hsingle : s.Single) (hs : Sound tokenHash s) : s.NotForked tokenHash := by
  refine ⟨fun i j hi hj => hsingle i j hi.found hj.found, fun i hi => ?_⟩
  obtain ⟨token, record, hphase, -⟩ := hi
  exact hs.gone i record ⟨_, hphase, rfl⟩

theorem Doubled.forked (hd : s.Doubled) (hs : Sound tokenHash s) (hover : s.Answered) :
    ¬ s.NotForked tokenHash := by
  obtain ⟨i, j, hij, hi, hj⟩ := hd
  exact fun h => hij (h.one i j (hi.returned hs hover) (hj.returned hs hover))

end

/-- The calls never fork the session if each finds it alone; and where all of them have come to an
end, they have not forked it exactly if each did. -/
theorem not_forked_iff (sha256 : String → String) (tokenHash : String)
    (store : MongoSessionStore Metadata) (events : List RotateEvent) :
    let sys := system sha256 tokenHash store
    (sys.Meets (FindsAlone tokenHash) events → sys.Always (NotForked tokenHash) events) ∧
      ∀ t, sys.run events = some t → Answered t →
        (sys.Always (NotForked tokenHash) events ↔ sys.Meets (FindsAlone tokenHash) events) := by
  intro sys
  have hnone : ∀ i, ¬ sys.start.Found i := fun i ⟨phase, hphase, _⟩ => by cases hphase
  have hmakes : ∀ i record, ¬ sys.start.Makes i record :=
    fun i record ⟨phase, hphase, _⟩ => by cases hphase
  have hstart : Sound tokenHash sys.start :=
    ⟨List.mem_cons_self, fun i record h => absurd h (hmakes i record),
      fun i j record record' h => absurd h (hmakes i record), fun i token record h => (by cases h),
      fun i record h => absurd h (hmakes i record)⟩
  have hstep : ∀ s e s', Sound tokenHash s → sys.step s e = some s' → Sound tokenHash s' :=
    fun s e s' hs hse => (moves_of_step hse).sound hs
  have hkept : sys.Meets (FindsAlone tokenHash) events →
      sys.Always (NotForked tokenHash) events := by
    have hinv : ∀ s e s', (Sound tokenHash s ∧ s.Single) → FindsAlone tokenHash s e →
        sys.step s e = some s' → Sound tokenHash s' ∧ s'.Single := by
      rintro s e s' ⟨hs, hsingle⟩ halone hse
      have hm := moves_of_step hse
      exact ⟨hm.sound hs, hm.single hs halone hsingle⟩
    exact System.always_of_invariant (fun s hs => hs.2.notForked hs.1) hinv
      ⟨hstart, fun i j hi => absurd hi (hnone i)⟩
  refine ⟨hkept, fun t ht hover => ⟨fun halways => ?_, hkept⟩⟩
  have hdoom : ∀ s e s', Sound tokenHash s → sys.step s e = some s' → ¬ FindsAlone tokenHash s e →
      Sound tokenHash s' ∧ s'.Doubled :=
    fun s e s' hs hse halone => ⟨hstep s e s' hs hse, (moves_of_step hse).doubled halone⟩
  have hkeep : ∀ s e s', Sound tokenHash s ∧ Sound tokenHash s ∧ s.Doubled →
      sys.step s e = some s' → Sound tokenHash s' ∧ Sound tokenHash s' ∧ s'.Doubled := by
    rintro s e s' ⟨hs, -, hd⟩ hse
    have hsound := hstep s e s' hs hse
    exact ⟨hsound, hsound, hd.moves (moves_of_step hse)⟩
  have hforked : ∀ s : Rotations Metadata, Sound tokenHash s ∧ s.Doubled → Answered s →
      ¬ NotForked tokenHash s := fun s hs hover => hs.2.forked hs.1 hover
  exact System.meets_of_always hstep hdoom hkeep hforked hstart ht hover halways

def aSession : SessionRecord Unit :=
  ⟨"old", "alice", ⟨"alice", "discord", "1", []⟩, "csrf", 0, 0, 1, ()⟩

/-- One session, and tokens that stand for their digests. -/
def plainRotations : System (Rotations Unit) RotateEvent :=
  system id "old" ⟨⟨1800, 86400⟩, InsertionMap.empty.set "old" aSession⟩

theorem singleton_ne (c : Char) : String.singleton c ≠ "" := by
  intro h
  simpa using congrArg String.length h

def stepOf (i : ℕ) (token : Char) (now : ℤ) : RotateEvent :=
  .step i ⟨⟨String.singleton token, singleton_ne token⟩, "csrf"⟩ now

/-- The second call comes when the first one has deleted the session. -/
def oneByOne : List RotateEvent :=
  [.call, stepOf 0 'a' 1, stepOf 0 'b' 2, stepOf 0 'c' 3,
    .call, stepOf 1 'd' 4, stepOf 1 'e' 5]

theorem oneByOne_not_forked : plainRotations.Always (NotForked "old") oneByOne := by
  refine (not_forked_iff id "old" ⟨⟨1800, 86400⟩, InsertionMap.empty.set "old" aSession⟩
    oneByOne).1 ?_
  refine (System.meetsFrom_cons rfl).mpr ⟨trivial, (System.meetsFrom_cons rfl).mpr ⟨?_,
    (System.meetsFrom_cons rfl).mpr ⟨?_, (System.meetsFrom_cons rfl).mpr ⟨?_,
      (System.meetsFrom_cons rfl).mpr ⟨trivial, (System.meetsFrom_cons rfl).mpr ⟨?_,
        (System.meetsFrom_cons rfl).mpr ⟨?_, trivial⟩⟩⟩⟩⟩⟩⟩
  · intro _ _ _ _ j earlier hdeleting
    rcases j with _ | j <;> cases hdeleting
  · exact fun hget => by cases hget
  · exact fun hget => by cases hget
  · exact fun _ existing hexists => by cases hexists
  · exact fun hget => by cases hget

/-- Two calls find the session before either has deleted it. -/
def atOnce : List RotateEvent :=
  [.call, .call, stepOf 0 'a' 1, stepOf 1 'b' 2,
    stepOf 0 'c' 3, stepOf 1 'd' 4, stepOf 0 'e' 5,
    stepOf 1 'f' 6]

/-- Each of the two calls returns a session, and both are stored. -/
theorem two_sessions_at_once : ¬ plainRotations.Always (NotForked "old") atOnce := by
  intro h
  have hrun : plainRotations.run atOnce =
      some ((plainRotations.run atOnce).getD plainRotations.start) := rfl
  have hlast := h.last hrun
  exact absurd (hlast.one 0 1 ⟨_, _, rfl, rfl⟩ ⟨_, _, rfl, rfl⟩) (by decide)

end Rotations
end
end LuaRecovery.Auth
