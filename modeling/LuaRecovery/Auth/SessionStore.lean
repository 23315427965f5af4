import LuaRecovery.Lib.InsertionMap
import LuaRecovery.Queue.InMemoryQueue

/-!
# Session stores

A session is filed under the digest of its token. It ends when it was created
too long ago or was not seen for too long; a rotation gives it a new token and
lets it keep the time of its creation.
-/

set_option autoImplicit false

namespace LuaRecovery.Auth
open LuaRecovery.Lib LuaRecovery.Queue

structure Principal where
  principalId : String
  provider : String
  providerSubject : String
  roles : List String
  deriving DecidableEq

structure SessionRecord (Metadata : Type) where
  sessionIdHash : String
  principalId : String
  principal : Principal
  csrfToken : String
  createdAt : ℤ
  lastSeenAt : ℤ
  rotationVersion : ℕ
  metadata : Metadata

/-- A token that was generated, which is never empty. -/
abbrev RawToken := { token : String // token ≠ "" }

structure TokenDraws where
  rawToken : RawToken
  csrfToken : String

/-- The life spans as the options give them, and as the environment does. -/
structure SessionOptions where
  idleTtlSeconds : Option ℤ
  absoluteTtlSeconds : Option ℤ
  envIdleTtlSeconds : Option ℤ
  envAbsoluteTtlSeconds : Option ℤ

structure SessionStore where
  idleTtlSec : ℤ
  absoluteTtlSec : ℤ

def invalidSession : String := "INVALID_SESSION: Cannot rotate non-existent or expired session"

section
variable {Metadata : Type}

def SessionRecord.seenAt (session : SessionRecord Metadata) (now : ℤ) : SessionRecord Metadata :=
  { session with lastSeenAt := now }

namespace SessionStore

def create (options : SessionOptions) : SessionStore where
  idleTtlSec := numberOr options.idleTtlSeconds (numberOr options.envIdleTtlSeconds 1800)
  absoluteTtlSec :=
    numberOr options.absoluteTtlSeconds (numberOr options.envAbsoluteTtlSeconds 86400)

def hashToken (sha256 : String → String) (token : String) : Option String :=
  if token = "" then none else some (sha256 token)

def isExpired (s : SessionStore) (session : SessionRecord Metadata) (now : ℤ) : Bool :=
  s.absoluteTtlSec * 1000 < now - session.createdAt ∨
    s.idleTtlSec * 1000 < now - session.lastSeenAt

end SessionStore

structure MemorySessionStore (Metadata : Type) extends SessionStore where
  sessions : InsertionMap String (SessionRecord Metadata)

namespace MemorySessionStore

def create (options : SessionOptions) : MemorySessionStore Metadata where
  toSessionStore := .create options
  sessions := .empty

def createSession (sha256 : String → String) (s : MemorySessionStore Metadata)
    (principal : Principal) (metadata : Metadata) (draws : TokenDraws) (now : ℤ) :
    MemorySessionStore Metadata × String × SessionRecord Metadata :=
  let tokenHash := sha256 draws.rawToken
  let record : SessionRecord Metadata :=
    ⟨tokenHash, principal.principalId, principal, draws.csrfToken, now, now, 1, metadata⟩
  ({ s with sessions := s.sessions.set tokenHash record }, draws.rawToken, record)

def getSession (sha256 : String → String) (s : MemorySessionStore Metadata) (rawToken : String)
    (clock : Clock) : MemorySessionStore Metadata × Option (SessionRecord Metadata) :=
  match SessionStore.hashToken sha256 rawToken with
  | none => (s, none)
  | some tokenHash =>
    match s.sessions.get tokenHash with
    | none => (s, none)
    | some session =>
      if s.isExpired session clock.now then
        ({ s with sessions := s.sessions.delete tokenHash }, none)
      else
        let session := session.seenAt clock.later
        ({ s with sessions := s.sessions.set tokenHash session }, some session)

/-- The record of a session under its new token. -/
def rotated (existing : SessionRecord Metadata) (newTokenHash csrfToken : String) (now : ℤ) :
    SessionRecord Metadata :=
  { existing with
    sessionIdHash := newTokenHash
    csrfToken := csrfToken
    lastSeenAt := now
    rotationVersion :=
      (if existing.rotationVersion = 0 then 1 else existing.rotationVersion) + 1 }

def rotateSession (sha256 : String → String) (s : MemorySessionStore Metadata)
    (rawToken : String) (draws : TokenDraws) (clock : Clock) :
    MemorySessionStore Metadata × Except String (String × SessionRecord Metadata) :=
  match SessionStore.hashToken sha256 rawToken with
  | none => (s, .error invalidSession)
  | some tokenHash =>
    match s.sessions.get tokenHash with
    | none => ({ s with sessions := s.sessions.delete tokenHash }, .error invalidSession)
    | some existing =>
      if s.isExpired existing clock.now then
        ({ s with sessions := s.sessions.delete tokenHash }, .error invalidSession)
      else
        let newTokenHash := sha256 draws.rawToken
        let newRecord := rotated existing newTokenHash draws.csrfToken clock.later
        ({ s with sessions := (s.sessions.delete tokenHash).set newTokenHash newRecord },
          .ok (draws.rawToken, newRecord))

def destroySession (sha256 : String → String) (s : MemorySessionStore Metadata)
    (rawToken : String) : MemorySessionStore Metadata :=
  match SessionStore.hashToken sha256 rawToken with
  | none => s
  | some tokenHash => { s with sessions := s.sessions.delete tokenHash }

end MemorySessionStore
end
end LuaRecovery.Auth
