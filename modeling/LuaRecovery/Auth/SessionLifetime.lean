import LuaRecovery.Auth.SessionStore
import LuaRecovery.Lib.Runs
import Mathlib.Data.Set.Function
import Mathlib.Logic.Relation

/-!
# The lifetime of a session

The history of a store says which tokens were issued, used, rotated and
destroyed. The rotations form chains; a token is good as long as it is the last
of its chain, the chain was started and used recently enough, and nobody has
destroyed the token. The store answers for exactly these tokens.
-/

set_option autoImplicit false

namespace LuaRecovery.Auth
open LuaRecovery.Lib LuaRecovery.Queue

/-- What has been done with sessions; a fetch counts if it found one. -/
inductive Done where
  | created (token : String) (principal : Principal) (time : ℤ)
  | fetched (token : String) (time : ℤ)
  | rotated (token newToken : String) (time : ℤ)
  | destroyed (token : String)

abbrev History := List Done

def Done.issues : Done → Option String
  | .created token _ _ => some token
  | .rotated _ newToken _ => some newToken
  | _ => none

/-- The token of the session that is used, and when. -/
def Done.uses : Done → Option (String × ℤ)
  | .created token _ time => some (token, time)
  | .fetched token time => some (token, time)
  | .rotated _ newToken time => some (newToken, time)
  | .destroyed _ => none

def Done.tokens : Done → List String
  | .created token _ _ => [token]
  | .fetched token _ => [token]
  | .rotated token newToken _ => [token, newToken]
  | .destroyed token => [token]

namespace History

def Mentions (h : History) (token : String) : Prop := ∃ d ∈ h, token ∈ d.tokens

def RotatedTo (h : History) (token newToken : String) : Prop :=
  ∃ time, Done.rotated token newToken time ∈ h

abbrev Chain (h : History) : String → String → Prop := Relation.ReflTransGen h.RotatedTo

/-- The token was issued, and has been neither destroyed nor rotated away. -/
structure Standing (h : History) (token : String) : Prop where
  issued : ∃ d ∈ h, d.issues = some token
  kept : Done.destroyed token ∉ h
  current : ∀ newToken, ¬ h.RotatedTo token newToken

/-- The token is standing, and its chain was started and last used recently enough. -/
structure Live (h : History) (s : SessionStore) (token : String) (now : ℤ) : Prop where
  standing : h.Standing token
  young : ∃ root principal time, Done.created root principal time ∈ h ∧ h.Chain root token ∧
    now - time ≤ s.absoluteTtlSec * 1000
  used : ∃ d ∈ h, ∃ user time, d.uses = some (user, time) ∧ h.Chain user token ∧
    now - time ≤ s.idleTtlSec * 1000

section
variable {h : History} {d : Done} {token newToken user : String} {time : ℤ}

theorem mentions_append : Mentions (h ++ [d]) token ↔ h.Mentions token ∨ token ∈ d.tokens := by
  simp [Mentions, or_and_right, exists_or]

theorem rotatedTo_append (hd : ∀ token newToken time, d ≠ .rotated token newToken time) :
    RotatedTo (h ++ [d]) = h.RotatedTo := by
  ext token newToken
  simp [RotatedTo, (hd token newToken _).symm]

theorem rotatedTo_rotated {a b : String} :
    RotatedTo (h ++ [.rotated token newToken time]) a b ↔
      h.RotatedTo a b ∨ a = token ∧ b = newToken := by
  simp [RotatedTo, exists_or]

theorem RotatedTo.mentions (hr : h.RotatedTo token newToken) :
    h.Mentions token ∧ h.Mentions newToken := by
  obtain ⟨time, hmem⟩ := hr
  exact ⟨⟨_, hmem, by simp [Done.tokens]⟩, ⟨_, hmem, by simp [Done.tokens]⟩⟩

theorem mentions_of_uses (hd : d ∈ h) (hu : d.uses = some (user, time)) : h.Mentions user := by
  refine ⟨d, hd, ?_⟩
  cases d <;> simp_all [Done.uses, Done.tokens]

theorem mentions_of_issues (hd : d ∈ h) (hu : d.issues = some token) : h.Mentions token := by
  refine ⟨d, hd, ?_⟩
  cases d <;> simp_all [Done.issues, Done.tokens]

/-- No chain leads to a token that is not mentioned. -/
theorem chain_to_new (hnew : ¬ h.Mentions token) (hc : h.Chain user token) : user = token := by
  rcases Relation.ReflTransGen.cases_tail hc with heq | ⟨b, -, hedge⟩
  · exact heq.symm
  · exact absurd hedge.mentions.2 hnew

theorem chain_of_new (hnew : ¬ h.Mentions user) (hc : h.Chain user token) : user = token := by
  rcases Relation.ReflTransGen.cases_head hc with heq | ⟨b, hedge, -⟩
  · exact heq
  · exact absurd hedge.mentions.1 hnew

theorem Standing.chain (hs : h.Standing user) (hc : h.Chain user token) : user = token := by
  rcases Relation.ReflTransGen.cases_head hc with heq | ⟨b, hedge, -⟩
  · exact heq
  · exact absurd hedge (hs.current b)

theorem chain_append {a b : String} (hc : h.Chain a b) : Chain (h ++ [d]) a b := by
  have hmono : ∀ a b, h.RotatedTo a b → RotatedTo (h ++ [d]) a b := by
    rintro a b ⟨time, hmem⟩
    exact ⟨time, List.mem_append.mpr (.inl hmem)⟩
  exact Relation.ReflTransGen.mono hmono _ _ hc

/-- A rotation to a new token prolongs the chains of the old one. -/
theorem chain_rotated {a b : String} (hnew : ¬ h.Mentions newToken) (hne : token ≠ newToken) :
    Chain (h ++ [.rotated token newToken time]) a b ↔
      h.Chain a b ∨ b = newToken ∧ h.Chain a token := by
  constructor
  · intro hc
    induction hc with
    | refl => exact .inl .refl
    | @tail b c _ hedge ih =>
      rcases rotatedTo_rotated.mp hedge with hold | ⟨rfl, rfl⟩
      · rcases ih with hab | ⟨rfl, -⟩
        · exact .inl (hab.tail hold)
        · exact absurd hold.mentions.1 hnew
      · rcases ih with hab | ⟨heq, -⟩
        · exact .inr ⟨rfl, hab⟩
        · exact absurd heq hne
  · rintro (hab | ⟨rfl, hat⟩)
    · exact chain_append hab
    · exact (chain_append hat).tail (rotatedTo_rotated.mpr (.inr ⟨rfl, rfl⟩))

theorem Standing.of_append (hs : Standing (h ++ [d]) token) (hd : d.issues ≠ some token) :
    h.Standing token := by
  refine ⟨?_, fun hmem => hs.kept (List.mem_append.mpr (.inl hmem)), ?_⟩
  · obtain ⟨d', hmem, hissues⟩ := hs.issued
    rcases List.mem_append.mp hmem with hmem | hmem
    · exact ⟨d', hmem, hissues⟩
    · rw [List.mem_singleton.mp hmem] at hissues
      exact absurd hissues hd
  · rintro new ⟨time, hmem⟩
    exact hs.current new ⟨time, List.mem_append.mpr (.inl hmem)⟩

theorem Standing.append (hs : h.Standing token) (hdestroyed : d ≠ .destroyed token)
    (hrotated : ∀ newToken time, d ≠ .rotated token newToken time) :
    Standing (h ++ [d]) token := by
  refine ⟨?_, ?_, ?_⟩
  · obtain ⟨d', hmem, hissues⟩ := hs.issued
    exact ⟨d', List.mem_append.mpr (.inl hmem), hissues⟩
  · intro hmem
    rcases List.mem_append.mp hmem with hmem | hmem
    · exact hs.kept hmem
    · exact hdestroyed (List.mem_singleton.mp hmem).symm
  · rintro new ⟨time, hmem⟩
    rcases List.mem_append.mp hmem with hmem | hmem
    · exact hs.current new ⟨time, hmem⟩
    · exact hrotated new time (List.mem_singleton.mp hmem).symm

/-- A token that did not occur before stands once it is issued. -/
theorem standing_new (hnew : ¬ h.Mentions token) (hissues : d.issues = some token)
    (hdestroyed : d ≠ .destroyed token)
    (hrotated : ∀ newToken time, d ≠ .rotated token newToken time) :
    Standing (h ++ [d]) token := by
  refine ⟨⟨d, by simp, hissues⟩, ?_, ?_⟩
  · intro hmem
    rcases List.mem_append.mp hmem with hmem | hmem
    · exact hnew ⟨_, hmem, by simp [Done.tokens]⟩
    · exact hdestroyed (List.mem_singleton.mp hmem).symm
  · rintro new ⟨time, hmem⟩
    rcases List.mem_append.mp hmem with hmem | hmem
    · exact hnew ⟨_, hmem, by simp [Done.tokens]⟩
    · exact hrotated new time (List.mem_singleton.mp hmem).symm

end
end History

section
variable {Metadata : Type}

/-- What the history has on the session of a token agrees with its record. -/
structure Facts (h : History) (token : String) (r : SessionRecord Metadata) : Prop where
  origin : ∃ root, Done.created root r.principal r.createdAt ∈ h ∧ h.Chain root token
  only : ∀ root principal time, Done.created root principal time ∈ h → h.Chain root token →
    principal = r.principal ∧ time = r.createdAt
  last : ∃ d ∈ h, ∃ user, d.uses = some (user, r.lastSeenAt) ∧ h.Chain user token
  latest : ∀ d ∈ h, ∀ user time, d.uses = some (user, time) → h.Chain user token →
    time ≤ r.lastSeenAt

/-- An entry that touches no chain of the token. -/
theorem Facts.append {h : History} {token : String} {r : SessionRecord Metadata}
    (hfacts : Facts h token r) {d : Done}
    (hchain : ∀ user, History.Chain (h ++ [d]) user token → h.Chain user token)
    (huses : ∀ user time, d.uses = some (user, time) → ¬ h.Chain user token) :
    Facts (h ++ [d]) token r where
  origin := by
    obtain ⟨root, hroot, hc⟩ := hfacts.origin
    exact ⟨root, List.mem_append.mpr (.inl hroot), History.chain_append hc⟩
  only root principal time hroot hc := by
    rcases List.mem_append.mp hroot with hroot | hroot
    · exact hfacts.only root principal time hroot (hchain root hc)
    · obtain rfl := List.mem_singleton.mp hroot
      exact absurd (hchain root hc) (huses root time rfl)
  last := by
    obtain ⟨d', hd, user, hu, hc⟩ := hfacts.last
    exact ⟨d', List.mem_append.mpr (.inl hd), user, hu, History.chain_append hc⟩
  latest d' hd user time hu hc := by
    rcases List.mem_append.mp hd with hd | hd
    · exact hfacts.latest d' hd user time hu (hchain user hc)
    · rw [List.mem_singleton.mp hd] at hu
      exact absurd (hchain user hc) (huses user time hu)

theorem facts_created {h : History} {r : SessionRecord Metadata} {token : String}
    (hnew : ¬ h.Mentions token) (htime : r.lastSeenAt = r.createdAt) :
    Facts (h ++ [.created token r.principal r.createdAt]) token r := by
  have hedges : History.RotatedTo (h ++ [.created token r.principal r.createdAt]) = h.RotatedTo :=
    History.rotatedTo_append fun _ _ _ => by simp
  have hchain : ∀ user, History.Chain (h ++ [.created token r.principal r.createdAt]) user token →
      user = token := by
    intro user hc
    rw [History.Chain, hedges] at hc
    exact History.chain_to_new hnew hc
  refine ⟨⟨token, by simp, .refl⟩, ?_,
    ⟨_, List.mem_concat_self, token, congrArg (fun time => some (token, time)) htime.symm, .refl⟩, ?_⟩
  · intro root principal time hroot hc
    obtain rfl := hchain root hc
    rcases List.mem_append.mp hroot with hroot | hroot
    · exact absurd ⟨_, hroot, by simp [Done.tokens]⟩ hnew
    · simpa using hroot
  · intro d hd user time hu hc
    obtain rfl := hchain user hc
    rcases List.mem_append.mp hd with hd | hd
    · exact absurd (History.mentions_of_uses hd hu) hnew
    · rw [List.mem_singleton.mp hd] at hu
      have htimes := (Prod.mk.inj (Option.some.inj hu)).2
      rw [← htimes, htime]

theorem Facts.fetched {h : History} {token : String} {r : SessionRecord Metadata} {now later : ℤ}
    (hfacts : Facts h token r) (hle : now ≤ later)
    (hpast : ∀ d ∈ h, ∀ user time, d.uses = some (user, time) → time ≤ now) :
    Facts (h ++ [.fetched token later]) token (r.seenAt later) := by
  have hedges : History.RotatedTo (h ++ [.fetched token later]) = h.RotatedTo :=
    History.rotatedTo_append fun _ _ _ => by simp
  have hchain : ∀ user, History.Chain (h ++ [.fetched token later]) user token →
      h.Chain user token := by
    intro user hc
    rwa [History.Chain, hedges] at hc
  refine ⟨?_, ?_, ⟨_, List.mem_concat_self, token, rfl, .refl⟩, ?_⟩
  · obtain ⟨root, hroot, hc⟩ := hfacts.origin
    exact ⟨root, List.mem_append.mpr (.inl hroot), History.chain_append hc⟩
  · intro root principal time hroot hc
    rcases List.mem_append.mp hroot with hroot | hroot
    · exact hfacts.only root principal time hroot (hchain root hc)
    · cases List.mem_singleton.mp hroot
  · intro d hd user time hu hc
    rcases List.mem_append.mp hd with hd | hd
    · exact (hpast d hd user time hu).trans hle
    · rw [List.mem_singleton.mp hd] at hu
      exact (Prod.mk.inj (Option.some.inj hu)).2.ge

theorem Facts.rotated {h : History} {token newToken : String} {r : SessionRecord Metadata}
    {now later : ℤ} (hfacts : Facts h token r) (hnew : ¬ h.Mentions newToken)
    (hne : token ≠ newToken) (hle : now ≤ later)
    (hpast : ∀ d ∈ h, ∀ user time, d.uses = some (user, time) → time ≤ now)
    (tokenHash csrfToken : String) :
    Facts (h ++ [.rotated token newToken later]) newToken
      (MemorySessionStore.rotated r tokenHash csrfToken later) := by
  refine ⟨?_, ?_, ⟨_, List.mem_concat_self, newToken, rfl, .refl⟩, ?_⟩
  · obtain ⟨root, hroot, hc⟩ := hfacts.origin
    exact ⟨root, List.mem_append.mpr (.inl hroot),
      (History.chain_rotated hnew hne).mpr (.inr ⟨rfl, hc⟩)⟩
  · intro root principal time hroot hc
    rcases List.mem_append.mp hroot with hold | hroot
    · rcases (History.chain_rotated hnew hne).mp hc with hto | ⟨-, hto⟩
      · rw [← History.chain_to_new hnew hto] at hnew
        exact absurd ⟨_, hold, by simp [Done.tokens]⟩ hnew
      · exact hfacts.only root principal time hold hto
    · cases List.mem_singleton.mp hroot
  · intro d hd user time hu hc
    rcases List.mem_append.mp hd with hd | hd
    · exact (hpast d hd user time hu).trans hle
    · rw [List.mem_singleton.mp hd] at hu
      exact (Prod.mk.inj (Option.some.inj hu)).2.ge

/-- A store with its history; its clock does not go back. -/
structure Sessions (Metadata : Type) where
  store : MemorySessionStore Metadata
  history : History
  now : ℤ

inductive SessionEvent (Metadata : Type) where
  | create (principal : Principal) (metadata : Metadata) (draws : TokenDraws) (time : ℤ)
  | get (token : String) (clock : Clock)
  | rotate (token : String) (draws : TokenDraws) (clock : Clock)
  | destroy (token : String)

/-- The tokens that an event draws or names. -/
def SessionEvent.tokens : SessionEvent Metadata → List String
  | .create _ _ draws _ => [draws.rawToken.1]
  | .get token _ => [token]
  | .rotate token draws _ => [token, draws.rawToken.1]
  | .destroy token => [token]

namespace Sessions

def mentions (s : Sessions Metadata) (token : String) : Bool :=
  s.history.any fun d => token ∈ d.tokens

def ticks (s : Sessions Metadata) (clock : Clock) : Bool :=
  s.now ≤ clock.now ∧ clock.now ≤ clock.later

/-- The history takes down what succeeds. A token is drawn that did not occur so far. -/
def step (sha256 : String → String) (s : Sessions Metadata) :
    SessionEvent Metadata → Option (Sessions Metadata)
  | .create principal metadata draws time =>
    if s.now ≤ time ∧ s.mentions draws.rawToken = false then
      let (store, token, record) := s.store.createSession sha256 principal metadata draws time
      some ⟨store, s.history ++ [.created token record.principal time], time⟩
    else none
  | .get token clock =>
    if s.ticks clock then
      match s.store.getSession sha256 token clock with
      | (store, some _) => some ⟨store, s.history ++ [.fetched token clock.later], clock.later⟩
      | (store, none) => some ⟨store, s.history, clock.later⟩
    else none
  | .rotate token draws clock =>
    if s.ticks clock ∧ s.mentions draws.rawToken = false ∧ token ≠ draws.rawToken then
      match s.store.rotateSession sha256 token draws clock with
      | (store, .ok (newToken, _)) =>
          some ⟨store, s.history ++ [.rotated token newToken clock.later], clock.later⟩
      | (store, .error _) => some ⟨store, s.history, clock.later⟩
    else none
  | .destroy token =>
    some ⟨s.store.destroySession sha256 token, s.history ++ [.destroyed token], s.now⟩

def system (sha256 : String → String) (start : Sessions Metadata) :
    System (Sessions Metadata) (SessionEvent Metadata) where
  start := start
  step := step sha256

/-- A session is found exactly for a live token, and it has the principal that its chain was created
for. -/
def FindsLive (sha256 : String → String) (s : Sessions Metadata) : SessionEvent Metadata → Prop
  | .get token clock =>
    let found := (s.store.getSession sha256 token clock).2
    (found ≠ none ↔ s.history.Live s.store.toSessionStore token clock.now) ∧
      ∀ record, found = some record → ∀ root principal time,
        Done.created root principal time ∈ s.history → s.history.Chain root token →
          record.principal = principal
  | _ => True

/-- The store has the session of the token, or has dropped it because it had expired. -/
def Accounted (sha256 : String → String) (store : MemorySessionStore Metadata) (h : History)
    (now : ℤ) (token : String) : Prop :=
  ∃ r, Facts h token r ∧ (store.sessions.get (sha256 token) = some r ∨
    store.sessions.get (sha256 token) = none ∧ store.isExpired r now = true)

/-- The sessions that the store has, or has dropped because they had expired, are those of the
standing tokens. -/
structure Sound (sha256 : String → String) (T : Set String) (s : Sessions Metadata) : Prop where
  known : ∀ token, s.history.Mentions token → token ∈ T
  nonempty : ∀ token, s.history.Standing token → token ≠ ""
  past : ∀ d ∈ s.history, ∀ user time, d.uses = some (user, time) → time ≤ s.now
  account : ∀ token, s.history.Standing token →
    Accounted sha256 s.store s.history s.now token
  filed : ∀ k r, s.store.sessions.get k = some r → ∃ token, s.history.Standing token ∧
    sha256 token = k

section
variable {sha256 : String → String} {T : Set String} {s s' : Sessions Metadata} {token : String}
  {r : SessionRecord Metadata}

theorem isExpired_iff {store : SessionStore} {now : ℤ} : store.isExpired r now = true ↔
    store.absoluteTtlSec * 1000 < now - r.createdAt ∨
      store.idleTtlSec * 1000 < now - r.lastSeenAt := decide_eq_true_iff

theorem isExpired_mono {store : SessionStore} {now now' : ℤ} (hexp : store.isExpired r now = true)
    (hle : now ≤ now') : store.isExpired r now' = true := by
  rw [isExpired_iff] at hexp ⊢
  omega

theorem mentions_iff : s.mentions token = false ↔ ¬ s.history.Mentions token := by
  simp [mentions, History.Mentions]

theorem Accounted.mono {store store' : MemorySessionStore Metadata} {h h' : History} {now now' : ℤ}
    (ha : Accounted sha256 store h now token)
    (hfacts : ∀ r : SessionRecord Metadata, Facts h token r → Facts h' token r)
    (hget : store'.sessions.get (sha256 token) = store.sessions.get (sha256 token))
    (httl : store'.toSessionStore = store.toSessionStore) (hle : now ≤ now') :
    Accounted sha256 store' h' now' token := by
  obtain ⟨r, hr, hfound⟩ := ha
  refine ⟨r, hfacts r hr, ?_⟩
  rw [hget, httl]
  exact hfound.imp_right fun hnone => ⟨hnone.1, isExpired_mono hnone.2 hle⟩

theorem mem_of_standing (hs : s.Sound sha256 T) (ht : s.history.Standing token) : token ∈ T := by
  obtain ⟨d, hd, hissues⟩ := ht.issued
  exact hs.known token (History.mentions_of_issues hd hissues)

/-- A session that is found under the digest of a token is that of the token. -/
theorem found_standing (hs : s.Sound sha256 T) (hinj : Set.InjOn sha256 T) (ht : token ∈ T)
    (hget : s.store.sessions.get (sha256 token) = some r) :
    s.history.Standing token ∧ Facts s.history token r := by
  obtain ⟨other, hstanding, hhash⟩ := hs.filed _ r hget
  obtain rfl : other = token := hinj (mem_of_standing hs hstanding) ht hhash
  obtain ⟨r', hfacts, hget' | ⟨hnone, -⟩⟩ := hs.account other hstanding
  · obtain rfl : r = r' := Option.some.inj (hget.symm.trans hget')
    exact ⟨hstanding, hfacts⟩
  · rw [hget] at hnone
    cases hnone

/-- The facts about a token say whether it is live. -/
theorem live_iff {store : SessionStore} {now : ℤ} {h : History} (hstanding : h.Standing token)
    (hfacts : Facts h token r) : h.Live store token now ↔ store.isExpired r now = false := by
  rw [← Bool.not_eq_true, isExpired_iff]
  constructor
  · rintro ⟨-, ⟨root, principal, time, hroot, hchain, hyoung⟩,
      ⟨d, hd, user, used, huses, hchain', hidle⟩⟩
    obtain ⟨-, rfl⟩ := hfacts.only root principal time hroot hchain
    have hlatest := hfacts.latest d hd user used huses hchain'
    omega
  · intro hfresh
    obtain ⟨root, hroot, hchain⟩ := hfacts.origin
    obtain ⟨d, hd, user, huses, hchain'⟩ := hfacts.last
    exact ⟨hstanding, ⟨root, _, _, hroot, hchain, by omega⟩,
      ⟨d, hd, user, _, huses, hchain', by omega⟩⟩

/-- What a fetch finds, by what is filed under the digest of the token. -/
theorem getSession_cases (sha256 : String → String) (store : MemorySessionStore Metadata)
    (token : String) (clock : Clock) :
    store.getSession sha256 token clock = (store, none) ∧
        (token = "" ∨ store.sessions.get (sha256 token) = none) ∨
      ∃ r, token ≠ "" ∧ store.sessions.get (sha256 token) = some r ∧
        (store.isExpired r clock.now = true ∧ store.getSession sha256 token clock =
            ({ store with sessions := store.sessions.delete (sha256 token) }, none) ∨
          store.isExpired r clock.now = false ∧ store.getSession sha256 token clock =
            ({ store with sessions := store.sessions.set (sha256 token) (r.seenAt clock.later) },
              some (r.seenAt clock.later))) := by
  unfold MemorySessionStore.getSession SessionStore.hashToken
  by_cases hempty : token = ""
  · exact .inl ⟨by simp [hempty], .inl hempty⟩
  cases hget : store.sessions.get (sha256 token) with
  | none => exact .inl ⟨by simp [hempty, hget], .inr rfl⟩
  | some r =>
    refine .inr ⟨r, hempty, rfl, ?_⟩
    cases hexp : store.isExpired r clock.now with
    | true => exact .inl ⟨rfl, by simp [hempty, hget, hexp]⟩
    | false => exact .inr ⟨rfl, by simp [hempty, hget, hexp]⟩

theorem findsLive (hs : s.Sound sha256 T) (hinj : Set.InjOn sha256 T) (clock : Clock)
    (ht : token ∈ T) (hclock : s.ticks clock = true) : FindsLive sha256 s (.get token clock) := by
  obtain ⟨hnow, -⟩ := of_decide_eq_true hclock
  unfold FindsLive
  rcases getSession_cases sha256 s.store token clock with
    ⟨heq, hmissing⟩ | ⟨r, -, hget, ⟨hexp, heq⟩ | ⟨hexp, heq⟩⟩
  · simp only [heq, ne_eq, not_true_eq_false, false_iff]
    refine ⟨fun hlive => ?_, fun record hnone => by cases hnone⟩
    obtain ⟨r, hfacts, hget | ⟨-, hexp⟩⟩ := hs.account token hlive.standing
    · rcases hmissing with hempty | hnone
      · exact hs.nonempty token hlive.standing hempty
      · rw [hget] at hnone
        cases hnone
    · have hlater := isExpired_mono hexp hnow
      rw [(live_iff hlive.standing hfacts).mp hlive] at hlater
      cases hlater
  · obtain ⟨hstanding, hfacts⟩ := found_standing hs hinj ht hget
    simp only [heq, ne_eq, not_true_eq_false, false_iff]
    refine ⟨fun hlive => ?_, fun record hnone => by cases hnone⟩
    rw [(live_iff hstanding hfacts).mp hlive] at hexp
    cases hexp
  · obtain ⟨hstanding, hfacts⟩ := found_standing hs hinj ht hget
    simp only [heq, ne_eq, reduceCtorEq, not_false_eq_true, true_iff]
    refine ⟨(live_iff hstanding hfacts).mpr hexp, ?_⟩
    rintro record ⟨⟩ root principal time hroot hchain
    exact (hfacts.only root principal time hroot hchain).1.symm

theorem hash_ne (hinj : Set.InjOn sha256 T) {other : String} (ht : token ∈ T) (ho : other ∈ T)
    (hne : other ≠ token) : sha256 other ≠ sha256 token :=
  fun heq => hne (hinj ho ht heq)

/-- A session that has expired, or is not there, may be dropped. -/
theorem Sound.drop (hs : s.Sound sha256 T) (hinj : Set.InjOn sha256 T) (ht : token ∈ T) {now : ℤ}
    (hle : s.now ≤ now) (hexp : ∀ r, s.store.sessions.get (sha256 token) = some r →
      s.store.isExpired r now = true) :
    Sound sha256 T ⟨{ s.store with sessions := s.store.sessions.delete (sha256 token) },
      s.history, now⟩ where
  known := hs.known
  nonempty := hs.nonempty
  past d hd user time hu := (hs.past d hd user time hu).trans hle
  account other hstanding := by
    by_cases hother : other = token
    · subst hother
      obtain ⟨r, hfacts, hget | ⟨-, hexpired⟩⟩ := hs.account other hstanding
      · exact ⟨r, hfacts, .inr ⟨InsertionMap.get_delete_self _ _, hexp r hget⟩⟩
      · exact ⟨r, hfacts, .inr ⟨InsertionMap.get_delete_self _ _, isExpired_mono hexpired hle⟩⟩
    · have hne := hash_ne hinj ht (mem_of_standing hs hstanding) hother
      exact (hs.account other hstanding).mono (fun _ hfacts => hfacts)
        (InsertionMap.get_delete_ne _ hne) rfl hle
  filed k r hget := by
    rw [InsertionMap.get_delete] at hget
    exact hs.filed k r (Option.ite_none_left_eq_some.mp hget).2

theorem Sound.wait (hs : s.Sound sha256 T) {now : ℤ} (hle : s.now ≤ now) :
    Sound sha256 T ⟨s.store, s.history, now⟩ where
  known := hs.known
  nonempty := hs.nonempty
  past d hd user time hu := (hs.past d hd user time hu).trans hle
  account token hstanding :=
    (hs.account token hstanding).mono (fun _ hfacts => hfacts) rfl rfl hle
  filed := hs.filed

/-- What the new entry must do to the known tokens and the times. -/
theorem Sound.known_append (hs : s.Sound sha256 T) {d : Done} (hd : ∀ token ∈ d.tokens, token ∈ T)
    (token : String) (hm : History.Mentions (s.history ++ [d]) token) : token ∈ T :=
  (History.mentions_append.mp hm).elim (hs.known token) (hd token)

theorem Sound.past_append (hs : s.Sound sha256 T) {d : Done} {now : ℤ} (hle : s.now ≤ now)
    (hd : ∀ user time, d.uses = some (user, time) → time ≤ now) :
    ∀ d' ∈ s.history ++ [d], ∀ user time, d'.uses = some (user, time) → time ≤ now := by
  intro d' hmem user time hu
  rcases List.mem_append.mp hmem with hmem | hmem
  · exact (hs.past d' hmem user time hu).trans hle
  · rw [List.mem_singleton.mp hmem] at hu
    exact hd user time hu

theorem Sound.create (hs : s.Sound sha256 T) (hinj : Set.InjOn sha256 T) {time : ℤ}
    (hle : s.now ≤ time) (hnew : ¬ s.history.Mentions token) (ht : token ∈ T) (hne : token ≠ "")
    (hr : r.createdAt = time) (hseen : r.lastSeenAt = time) :
    Sound sha256 T ⟨{ s.store with sessions := s.store.sessions.set (sha256 token) r },
      s.history ++ [.created token r.principal time], time⟩ := by
  subst hr
  have hedges : History.RotatedTo (s.history ++ [.created token r.principal r.createdAt]) =
      s.history.RotatedTo := History.rotatedTo_append fun _ _ _ => by simp
  have hold : ∀ other, History.Standing (s.history ++ [.created token r.principal r.createdAt])
      other → other ≠ token → s.history.Standing other := by
    intro other hstanding hother
    refine hstanding.of_append fun hissues => hother ?_
    exact (Option.some.inj hissues).symm
  refine ⟨hs.known_append (by simpa [Done.tokens] using ht), ?_, hs.past_append hle ?_, ?_, ?_⟩
  · intro other hstanding
    by_cases hother : other = token
    · rwa [hother]
    · exact hs.nonempty other (hold other hstanding hother)
  · rintro user time ⟨⟩
    exact le_rfl
  · intro other hstanding
    by_cases hother : other = token
    · subst hother
      exact ⟨r, facts_created hnew hseen, .inl (InsertionMap.get_set_self _ _ _)⟩
    · have hstood := hold other hstanding hother
      have hhash := hash_ne hinj ht (mem_of_standing hs hstood) hother
      refine (hs.account other hstood).mono (fun r' hfacts => hfacts.append ?_ ?_)
        (InsertionMap.get_set_ne _ _ hhash) rfl hle
      · intro user hc
        rwa [History.Chain, hedges] at hc
      · rintro user time ⟨⟩ hc
        exact hother (History.chain_of_new hnew hc).symm
  · intro k r' hget
    rw [InsertionMap.get_set] at hget
    split at hget
    next heq =>
      refine ⟨token, History.standing_new hnew rfl (by simp) (by simp), heq.symm⟩
    next =>
      obtain ⟨other, hstanding, hhash⟩ := hs.filed k r' hget
      exact ⟨other, hstanding.append (by simp) (by simp), hhash⟩

theorem Sound.fetch (hs : s.Sound sha256 T) (hinj : Set.InjOn sha256 T) {clock : Clock}
    (hle : s.now ≤ clock.later) (ht : token ∈ T)
    (hget : s.store.sessions.get (sha256 token) = some r) :
    Sound sha256 T
      ⟨{ s.store with sessions := s.store.sessions.set (sha256 token) (r.seenAt clock.later) },
        s.history ++ [.fetched token clock.later], clock.later⟩ := by
  obtain ⟨hstood, hfacts⟩ := found_standing hs hinj ht hget
  have hedges : History.RotatedTo (s.history ++ [.fetched token clock.later]) =
      s.history.RotatedTo := History.rotatedTo_append fun _ _ _ => by simp
  have hold : ∀ other, History.Standing (s.history ++ [.fetched token clock.later]) other →
      s.history.Standing other :=
    fun other hstanding => hstanding.of_append (by simp [Done.issues])
  refine ⟨hs.known_append (by simpa [Done.tokens] using ht),
    fun other hstanding => hs.nonempty other (hold other hstanding), hs.past_append hle ?_, ?_, ?_⟩
  · rintro user time ⟨⟩
    exact le_rfl
  · intro other hstanding
    by_cases hother : other = token
    · subst hother
      exact ⟨_, hfacts.fetched hle hs.past, .inl (InsertionMap.get_set_self _ _ _)⟩
    · have hhash := hash_ne hinj ht (mem_of_standing hs (hold other hstanding)) hother
      refine (hs.account other (hold other hstanding)).mono (fun r' hfacts => hfacts.append ?_ ?_)
        (InsertionMap.get_set_ne _ _ hhash) rfl hle
      · intro user hc
        rwa [History.Chain, hedges] at hc
      · rintro user time ⟨⟩ hc
        exact hother (hstood.chain hc).symm
  · intro k r' hget'
    rw [InsertionMap.get_set] at hget'
    split at hget'
    next heq => exact ⟨token, hstood.append (by simp) (by simp), heq.symm⟩
    next =>
      obtain ⟨other, hstanding, hhash⟩ := hs.filed k r' hget'
      exact ⟨other, hstanding.append (by simp) (by simp), hhash⟩

theorem Sound.rotate (hs : s.Sound sha256 T) (hinj : Set.InjOn sha256 T) {clock : Clock}
    (hle : s.now ≤ clock.later) (ht : token ∈ T)
    (hget : s.store.sessions.get (sha256 token) = some r) {newToken : String}
    (hnew : ¬ s.history.Mentions newToken) (hn : newToken ∈ T) (hempty : newToken ≠ "")
    (hne : token ≠ newToken) (csrfToken : String) :
    Sound sha256 T
      ⟨{ s.store with
          sessions := (s.store.sessions.delete (sha256 token)).set (sha256 newToken)
            (MemorySessionStore.rotated r (sha256 newToken) csrfToken clock.later) },
        s.history ++ [.rotated token newToken clock.later], clock.later⟩ := by
  obtain ⟨hstood, hfacts⟩ := found_standing hs hinj ht hget
  have hold : ∀ other, History.Standing (s.history ++ [.rotated token newToken clock.later])
      other → other ≠ newToken → s.history.Standing other ∧ other ≠ token := by
    intro other hstanding hother
    refine ⟨hstanding.of_append fun hissues => hother (Option.some.inj hissues).symm, ?_⟩
    rintro rfl
    exact hstanding.current newToken ⟨_, List.mem_concat_self⟩
  refine ⟨hs.known_append (by simp [Done.tokens, ht, hn]), ?_, hs.past_append hle ?_, ?_, ?_⟩
  · intro other hstanding
    by_cases hother : other = newToken
    · rwa [hother]
    · exact hs.nonempty other (hold other hstanding hother).1
  · rintro user time ⟨⟩
    exact le_rfl
  · intro other hstanding
    by_cases hother : other = newToken
    · subst hother
      exact ⟨_, hfacts.rotated hnew hne hle hs.past _ csrfToken,
        .inl (InsertionMap.get_set_self _ _ _)⟩
    · obtain ⟨hwas, hnot⟩ := hold other hstanding hother
      have hmem := mem_of_standing hs hwas
      refine (hs.account other hwas).mono (fun r' hfacts => hfacts.append ?_ ?_) ?_ rfl hle
      · intro user hc
        exact ((History.chain_rotated hnew hne).mp hc).resolve_right fun hto => hother hto.1
      · rintro user time ⟨⟩ hc
        exact hother (History.chain_of_new hnew hc).symm
      · exact (InsertionMap.get_set_ne _ _ (hash_ne hinj hn hmem hother)).trans
          (InsertionMap.get_delete_ne _ (hash_ne hinj ht hmem hnot))
  · intro k r' hget'
    rw [InsertionMap.get_set] at hget'
    split at hget'
    next heq =>
      refine ⟨newToken, History.standing_new hnew rfl (by simp) ?_, heq.symm⟩
      rintro n time ⟨⟩
      exact hne rfl
    next =>
      rw [InsertionMap.get_delete] at hget'
      obtain ⟨hk, hget'⟩ := Option.ite_none_left_eq_some.mp hget'
      obtain ⟨other, hstanding, hhash⟩ := hs.filed k r' hget'
      refine ⟨other, hstanding.append (by simp) ?_, hhash⟩
      rintro n time ⟨⟩
      exact hk hhash.symm

theorem Sound.destroy (hs : s.Sound sha256 T) (hinj : Set.InjOn sha256 T) (ht : token ∈ T) :
    Sound sha256 T ⟨s.store.destroySession sha256 token, s.history ++ [.destroyed token], s.now⟩ := by
  have hedges : History.RotatedTo (s.history ++ [.destroyed token]) = s.history.RotatedTo :=
    History.rotatedTo_append fun _ _ _ => by simp
  have hold : ∀ other, History.Standing (s.history ++ [.destroyed token]) other →
      s.history.Standing other ∧ other ≠ token := by
    intro other hstanding
    refine ⟨hstanding.of_append (by simp [Done.issues]), ?_⟩
    rintro rfl
    exact hstanding.kept List.mem_concat_self
  have hget : ∀ k, (s.store.destroySession sha256 token).sessions.get k =
      if token ≠ "" ∧ k = sha256 token then none else s.store.sessions.get k := by
    intro k
    unfold MemorySessionStore.destroySession SessionStore.hashToken
    by_cases hempty : token = ""
    · simp [hempty]
    · simp [hempty, InsertionMap.get_delete]
  have httl : (s.store.destroySession sha256 token).toSessionStore = s.store.toSessionStore := by
    unfold MemorySessionStore.destroySession
    split <;> rfl
  refine ⟨hs.known_append (by simpa [Done.tokens] using ht),
    fun other hstanding => hs.nonempty other (hold other hstanding).1,
    hs.past_append le_rfl fun user time hu => (by cases hu), ?_, ?_⟩
  · intro other hstanding
    obtain ⟨hwas, hnot⟩ := hold other hstanding
    have hhash := hash_ne hinj ht (mem_of_standing hs hwas) hnot
    refine (hs.account other hwas).mono (fun r' hfacts => hfacts.append ?_ ?_) ?_ httl le_rfl
    · intro user hc
      rwa [History.Chain, hedges] at hc
    · intro user time hu
      cases hu
    · rw [hget, if_neg fun hk => hhash hk.2]
  · intro k r' hget'
    rw [hget] at hget'
    obtain ⟨hk, hget'⟩ := Option.ite_none_left_eq_some.mp hget'
    obtain ⟨other, hstanding, hhash⟩ := hs.filed k r' hget'
    refine ⟨other, hstanding.append ?_ (by simp), hhash⟩
    rintro ⟨⟩
    exact hk ⟨hs.nonempty token hstanding, hhash.symm⟩

/-- A rotation is refused, or the session that is found gets a new token. -/
theorem rotateSession_cases (sha256 : String → String) (store : MemorySessionStore Metadata)
    (token : String) (draws : TokenDraws) (clock : Clock) :
    store.rotateSession sha256 token draws clock = (store, .error invalidSession) ∨
      (∀ r, store.sessions.get (sha256 token) = some r →
          store.isExpired r clock.now = true) ∧
        store.rotateSession sha256 token draws clock =
          ({ store with sessions := store.sessions.delete (sha256 token) },
            .error invalidSession) ∨
      ∃ r record, store.sessions.get (sha256 token) = some r ∧
        store.rotateSession sha256 token draws clock =
          ({ store with
              sessions := (store.sessions.delete (sha256 token)).set (sha256 draws.rawToken)
                (MemorySessionStore.rotated r (sha256 draws.rawToken) draws.csrfToken
                  clock.later) }, .ok (draws.rawToken.1, record)) := by
  unfold MemorySessionStore.rotateSession SessionStore.hashToken
  by_cases hempty : token = ""
  · exact .inl (by simp [hempty])
  right
  cases hget : store.sessions.get (sha256 token) with
  | none => exact .inl ⟨fun r hr => (by cases hr), by simp [hempty, hget]⟩
  | some r =>
    cases hexp : store.isExpired r clock.now with
    | true =>
      refine .inl ⟨fun r' hr' => ?_, by simp [hempty, hget, hexp]⟩
      rw [← Option.some.inj hr', hexp]
    | false =>
      exact .inr ⟨r, MemorySessionStore.rotated r (sha256 draws.rawToken) draws.csrfToken
        clock.later, rfl, by simp [hempty, hget, hexp]⟩

theorem Sound.step (hs : s.Sound sha256 T) (hinj : Set.InjOn sha256 T) {e : SessionEvent Metadata}
    (ht : ∀ token ∈ e.tokens, token ∈ T) (hstep : s.step sha256 e = some s') :
    s'.Sound sha256 T := by
  cases e with
  | create principal metadata draws time =>
    obtain ⟨⟨hle, hnew⟩, hstep⟩ := Option.ite_none_right_eq_some.mp hstep
    obtain rfl := Option.some.inj hstep
    exact hs.create hinj (r := ⟨_, _, principal, _, time, time, 1, metadata⟩) hle
      (mentions_iff.mp hnew) (ht _ (by simp [SessionEvent.tokens])) draws.rawToken.2 rfl rfl
  | get token clock =>
    obtain ⟨hclock, hstep⟩ := Option.ite_none_right_eq_some.mp hstep
    obtain ⟨hnow, hlater⟩ := of_decide_eq_true hclock
    have hmem : token ∈ T := ht token (by simp [SessionEvent.tokens])
    rcases getSession_cases sha256 s.store token clock with
      ⟨heq, -⟩ | ⟨r, -, hget, ⟨hexp, heq⟩ | ⟨-, heq⟩⟩
    · simp only [heq] at hstep
      obtain rfl := Option.some.inj hstep
      exact hs.wait (hnow.trans hlater)
    · simp only [heq] at hstep
      obtain rfl := Option.some.inj hstep
      refine hs.drop hinj hmem (hnow.trans hlater) fun r' hget' => ?_
      rw [← Option.some.inj (hget.symm.trans hget')]
      exact isExpired_mono hexp hlater
    · simp only [heq] at hstep
      obtain rfl := Option.some.inj hstep
      exact hs.fetch hinj (hnow.trans hlater) hmem hget
  | rotate token draws clock =>
    obtain ⟨⟨hclock, hnew, hne⟩, hstep⟩ := Option.ite_none_right_eq_some.mp hstep
    obtain ⟨hnow, hlater⟩ := of_decide_eq_true hclock
    have hmem : token ∈ T := ht token (by simp [SessionEvent.tokens])
    have hn : draws.rawToken.1 ∈ T := ht _ (by simp [SessionEvent.tokens])
    rcases rotateSession_cases sha256 s.store token draws clock with
      heq | ⟨hexp, heq⟩ | ⟨r, record, hget, heq⟩
    · simp only [heq] at hstep
      obtain rfl := Option.some.inj hstep
      exact hs.wait (hnow.trans hlater)
    · simp only [heq] at hstep
      obtain rfl := Option.some.inj hstep
      exact hs.drop hinj hmem (hnow.trans hlater)
        fun r hget => isExpired_mono (hexp r hget) hlater
    · simp only [heq] at hstep
      obtain rfl := Option.some.inj hstep
      exact hs.rotate hinj (hnow.trans hlater) hmem hget (mentions_iff.mp hnew) hn
        draws.rawToken.2 hne draws.csrfToken
  | destroy token =>
    obtain rfl := Option.some.inj hstep
    exact hs.destroy hinj (ht token (by simp [SessionEvent.tokens]))

theorem Sound.findsLive (hs : s.Sound sha256 T) (hinj : Set.InjOn sha256 T)
    {e : SessionEvent Metadata} (ht : ∀ token ∈ e.tokens, token ∈ T)
    (hstep : s.step sha256 e = some s') : FindsLive sha256 s e := by
  cases e with
  | get token clock =>
    obtain ⟨hclock, -⟩ := Option.ite_none_right_eq_some.mp hstep
    exact Sessions.findsLive hs hinj clock (ht token (by simp [SessionEvent.tokens])) hclock
  | _ => trivial

theorem Sound.meets (hs : s.Sound sha256 T) (hinj : Set.InjOn sha256 T)
    (start : Sessions Metadata) (events : List (SessionEvent Metadata))
    (ht : ∀ e ∈ events, ∀ token ∈ e.tokens, token ∈ T) :
    (system sha256 start).MeetsFrom (FindsLive sha256) s events := by
  induction events generalizing s with
  | nil => trivial
  | cons e events ih =>
    intro s' hstep
    have he : ∀ token ∈ e.tokens, token ∈ T := ht e (by simp)
    exact ⟨hs.findsLive hinj he hstep,
      ih (hs.step hinj he hstep) fun e' he' => ht e' (by simp [he'])⟩

end

theorem sound_create (sha256 : String → String) (T : Set String) (options : SessionOptions)
    (now : ℤ) : Sound sha256 T (⟨.create options, [], now⟩ : Sessions Metadata) where
  known _ hm := by simp [History.Mentions] at hm
  nonempty token hstanding := by
    obtain ⟨d, hd, -⟩ := hstanding.issued
    cases hd
  past d hd := by cases hd
  account token hstanding := by
    obtain ⟨d, hd, -⟩ := hstanding.issued
    cases hd
  filed k r hget := by cases hget

/-- In every run a session is found exactly for the live tokens, provided that no two tokens of the
run have the same digest. -/
theorem session_found_iff_live (sha256 : String → String) (options : SessionOptions) (now : ℤ)
    (events : List (SessionEvent Metadata))
    (hdigest : Set.InjOn sha256 {token | ∃ e ∈ events, token ∈ e.tokens}) :
    (system sha256 ⟨.create options, [], now⟩).Meets (FindsLive sha256) events :=
  (sound_create sha256 _ options now).meets hdigest _ events
    fun e he _ htoken => ⟨e, he, htoken⟩

def alice : Principal := ⟨"p-1", "discord", "1", ["user"]⟩

def drawnToken (token : RawToken) : TokenDraws := ⟨token, "csrf"⟩

/-- A session is used, rotated, used again, left alone for too long and asked for once more. -/
def oneSession : List (SessionEvent Unit) :=
  [.create alice () (drawnToken ⟨"a", by decide⟩) 0, .get "a" ⟨1, 1⟩,
    .rotate "a" (drawnToken ⟨"b", by decide⟩) ⟨2, 2⟩, .get "a" ⟨3, 3⟩, .get "b" ⟨4, 4⟩,
    .get "b" ⟨3000000, 3000000⟩]

theorem oneSession_found_iff_live :
    (system id ⟨.create ⟨none, none, none, none⟩, [], 0⟩).Meets (FindsLive id) oneSession :=
  session_found_iff_live id ⟨none, none, none, none⟩ 0 oneSession (Set.injOn_id _)

end Sessions
end
end LuaRecovery.Auth
