import LuaRecovery.Lib.Runs
import LuaRecovery.Gateway.ArtifactBackends
import Mathlib.Logic.Function.Basic

/-!
# What an artifact store may return

The ledger of a history has, for each job, its owner, the time until which it is
kept and what was saved last. A store may return what the ledger has, to the
owner and in time. Each store's records follow the ledger; they differ in what
they do with a record that has expired and with a text that UTF-8 cannot carry.
-/

set_option autoImplicit false

namespace LuaRecovery.Gateway
open LuaRecovery.Lib

inductive SavedType where
  | recoveredCode
  | report

def SavedType.type : SavedType → ArtifactType
  | .recoveredCode => .recoveredCode
  | .report => .report

/-- The operations that the stores have in common. -/
structure ArtifactStore (S Report : Type) where
  retentionMs : S → ℤ
  initJobArtifacts : S → String → String → Option CodeUnits → ℤ → S
  saveRecoveredCode : S → String → CodeUnits → S × Except StoreError ℕ
  saveReport : S → String → Report → S × Except StoreError ℕ
  purgeSourceCode : S → String → S
  cleanupExpired : S → ℤ → S
  getArtifact : S → String → ArtifactType → String → ℤ → S × Except StoreError (Content Report)

inductive StoreEvent (Report : Type) where
  | initJobArtifacts (jobId ownerPrincipalId : String) (sourceCode : Option CodeUnits) (now : ℤ)
  | saveRecoveredCode (jobId : String) (code : CodeUnits)
  | saveReport (jobId : String) (report : Report)
  | purgeSourceCode (jobId : String)
  | cleanupExpired (now : ℤ)
  | getArtifact (jobId : String) (type : SavedType) (principalId : String) (now : ℤ)

/-- What a history says of a job. -/
structure Record (Report : Type) where
  ownerPrincipalId : String
  expiresAt : ℤ
  recoveredCode : Option CodeUnits
  report : Option Report

abbrev Ledger (Report : Type) := String → Option (Record Report)

structure Observed (S Report : Type) where
  store : S
  ledger : Ledger Report

section
variable {S Report : Type}

def StoreEvent.inits : StoreEvent Report → Option String
  | .initJobArtifacts jobId _ _ _ => some jobId
  | _ => none

/-- The job that the event creates or saves something for. -/
def StoreEvent.writes : StoreEvent Report → Option String
  | .initJobArtifacts jobId _ _ _ => some jobId
  | .saveRecoveredCode jobId _ => some jobId
  | .saveReport jobId _ => some jobId
  | _ => none

/-- Each job is initialised once, before anything is saved for it. -/
def InitialisedOnce (events : List (StoreEvent Report)) : Prop :=
  events.Pairwise fun e e' => ∀ jobId, e'.inits = some jobId → e.writes ≠ some jobId

/-- What was saved last for the type. -/
def Record.last (r : Record Report) : SavedType → Option (Content Report)
  | .recoveredCode => r.recoveredCode.map .text
  | .report => r.report.map .report

def Ledger.saved (l : Ledger Report) (jobId : String) (put : Record Report → Record Report) :
    Ledger Report :=
  Function.update l jobId ((l jobId).map put)

/-- The ledger after an event, given whether the store has accepted what was to be saved. -/
def Ledger.after (retentionMs : ℤ) (l : Ledger Report) (accepted : Bool) :
    StoreEvent Report → Ledger Report
  | .initJobArtifacts jobId ownerPrincipalId _ now =>
      Function.update l jobId (some ⟨ownerPrincipalId, now + retentionMs, none, none⟩)
  | .saveRecoveredCode jobId code =>
      if accepted then l.saved jobId fun r => { r with recoveredCode := some code } else l
  | .saveReport jobId report =>
      if accepted then l.saved jobId fun r => { r with report := some report } else l
  | _ => l

namespace ArtifactStore

def perform (store : ArtifactStore S Report) (s : S) : StoreEvent Report → S × Bool
  | .initJobArtifacts jobId ownerPrincipalId sourceCode now =>
      (store.initJobArtifacts s jobId ownerPrincipalId sourceCode now, true)
  | .saveRecoveredCode jobId code => (store.saveRecoveredCode s jobId code).map id Except.toBool
  | .saveReport jobId report => (store.saveReport s jobId report).map id Except.toBool
  | .purgeSourceCode jobId => (store.purgeSourceCode s jobId, true)
  | .cleanupExpired now => (store.cleanupExpired s now, true)
  | .getArtifact jobId type principalId now =>
      ((store.getArtifact s jobId type.type principalId now).1, true)

def observe (store : ArtifactStore S Report) (o : Observed S Report) (e : StoreEvent Report) :
    Observed S Report :=
  ⟨(store.perform o.store e).1,
    o.ledger.after (store.retentionMs o.store) (store.perform o.store e).2 e⟩

def system (store : ArtifactStore S Report) (start : S) :
    System (Observed S Report) (StoreEvent Report) where
  start := ⟨start, fun _ => none⟩
  step o e := some (store.observe o e)

/-- What is returned goes to the owner, in time, and is what was saved last. -/
def Confidential (store : ArtifactStore S Report) (o : Observed S Report) :
    StoreEvent Report → Prop
  | .getArtifact jobId type principalId now => ∀ content,
      (store.getArtifact o.store jobId type.type principalId now).2 = .ok content →
        ∃ record, o.ledger jobId = some record ∧ record.ownerPrincipalId = principalId ∧
          now ≤ record.expiresAt ∧ record.last type = some content
  | _ => True

/-- The records of a store follow the ledger, and its answers keep to the contract exactly under a
condition. -/
structure Follows (store : ArtifactStore S Report) (fresh : S → String → Prop)
    (tracks : S → Ledger Report → Prop)
    (cond : Observed S Report → StoreEvent Report → Prop) : Prop where
  step : ∀ o e, tracks o.store o.ledger → (∀ jobId, e.inits = some jobId → fresh o.store jobId) →
    tracks (store.observe o e).store (store.observe o e).ledger
  keeps : ∀ s e jobId, fresh s jobId → e.writes ≠ some jobId → fresh (store.perform s e).1 jobId
  answers : ∀ o e, tracks o.store o.ledger → (store.Confidential o e ↔ cond o e)

theorem Follows.meets_iff {store : ArtifactStore S Report} {fresh : S → String → Prop}
    {tracks : S → Ledger Report → Prop} {cond : Observed S Report → StoreEvent Report → Prop}
    (h : Follows store fresh tracks cond) (start : S) {o : Observed S Report}
    (events : List (StoreEvent Report)) (honce : InitialisedOnce events)
    (hfresh : ∀ e ∈ events, ∀ jobId, e.inits = some jobId → fresh o.store jobId)
    (ht : tracks o.store o.ledger) :
    (store.system start).MeetsFrom store.Confidential o events ↔
      (store.system start).MeetsFrom cond o events := by
  induction events generalizing o with
  | nil => exact Iff.rfl
  | cons e events ih =>
    obtain ⟨hfirst, honce⟩ := List.pairwise_cons.mp honce
    have hnext : tracks (store.observe o e).store (store.observe o e).ledger :=
      h.step o e ht (hfresh e (by simp))
    have hlater : ∀ e' ∈ events, ∀ jobId, e'.inits = some jobId →
        fresh (store.observe o e).store jobId := by
      intro e' he' jobId hinits
      have hnow := hfresh e' (by simp [he']) jobId hinits
      exact h.keeps o.store e jobId hnow (hfirst e' he' jobId hinits)
    have hs : (store.system start).step o e = some (store.observe o e) := rfl
    rw [System.meetsFrom_cons hs, System.meetsFrom_cons hs, h.answers o e ht,
      ih honce hlater hnext]

end ArtifactStore

section Tracking
variable {V : Type} {fits : V → Option (Record Report) → Prop} {m m' : InsertionMap String V}
  {l : Ledger Report}

/-- Each entry fits what the ledger has for its job. -/
def Tracks (fits : V → Option (Record Report) → Prop) (m : InsertionMap String V)
    (l : Ledger Report) : Prop :=
  ∀ jobId v, m.get jobId = some v → fits v (l jobId)

theorem Tracks.empty : Tracks fits .empty l := by
  intro jobId v hget
  cases hget

theorem Tracks.update (h : Tracks fits m l) {v : V} {r : Option (Record Report)} (jobId : String)
    (hfits : fits v r) : Tracks fits (m.set jobId v) (Function.update l jobId r) := by
  intro i w hget
  by_cases hi : i = jobId
  · subst hi
    rw [InsertionMap.get_set_self] at hget
    rw [Function.update_self, ← Option.some.inj hget]
    exact hfits
  · rw [InsertionMap.get_set_ne _ _ hi] at hget
    rw [Function.update_of_ne hi]
    exact h i w hget

theorem Tracks.put (h : Tracks fits m l) {v : V} (jobId : String) (hfits : fits v (l jobId)) :
    Tracks fits (m.set jobId v) l := by
  have hupdate := h.update jobId hfits
  rwa [Function.update_eq_self] at hupdate

theorem Tracks.remove (h : Tracks fits m l)
    (hget : ∀ jobId v, m'.get jobId = some v → m.get jobId = some v) : Tracks fits m' l :=
  fun jobId v hv => h jobId v (hget jobId v hv)

end Tracking

section Local

def ArtifactEntry.record (entry : ArtifactEntry Report) : Record Report :=
  ⟨entry.ownerPrincipalId, entry.expiresAt, entry.artifacts.recoveredCode, entry.artifacts.report⟩

namespace LocalArtifactStore

def store (json : Json Report) : ArtifactStore (LocalArtifactStore Report) Report where
  retentionMs s := s.retentionMs
  initJobArtifacts := initJobArtifacts
  saveRecoveredCode := saveRecoveredCode
  saveReport := saveReport json.stringify
  purgeSourceCode := purgeSourceCode
  cleanupExpired := cleanupExpired
  getArtifact := getArtifact

def Follows (s : LocalArtifactStore Report) (l : Ledger Report) : Prop :=
  Tracks (fun entry record => record = some entry.record) s.storage l

variable {s : LocalArtifactStore Report} {l : Ledger Report} {jobId : String}

theorem get_cleanupExpired (s : LocalArtifactStore Report) (now : ℤ) (jobId : String) :
    (s.cleanupExpired now).storage.get jobId =
      (s.storage.get jobId).filter (fun entry => !decide (entry.expiresAt < now)) := by
  have hget := s.storage.get_foldl_entries (fun entry => decide (entry.expiresAt < now)) jobId
  simp only [decide_eq_true_eq] at hget
  exact hget

theorem Follows.cleanupExpired (h : s.Follows l) (now : ℤ) : (s.cleanupExpired now).Follows l := by
  apply h.remove
  intro jobId entry hget
  rw [get_cleanupExpired] at hget
  exact (Option.filter_eq_some_iff.mp hget).1

/-- An operation that changes some of the artifacts of a record. -/
theorem Follows.modify (h : s.Follows l) {entry : ArtifactEntry Report}
    (hget : s.storage.get jobId = some entry) (f : Artifacts Report → Artifacts Report)
    (put : Record Report → Record Report)
    (hput : put entry.record = ArtifactEntry.record { entry with artifacts := f entry.artifacts }) :
    (s.modify jobId entry f).Follows (l.saved jobId put) := by
  apply h.update
  rw [h jobId entry hget, Option.map_some, hput]

theorem getArtifact_ok {type : ArtifactType} {principalId : String} {now : ℤ}
    {content : Content Report} (hc : (s.getArtifact jobId type principalId now).2 = .ok content) :
    ∃ entry, s.storage.get jobId = some entry ∧ now ≤ entry.expiresAt ∧
      entry.ownerPrincipalId = principalId ∧ entry.artifacts.get type = some content := by
  unfold getArtifact at hc
  dsimp only at hc
  rw [get_cleanupExpired] at hc
  split at hc
  · cases hc
  next entry hentry =>
    obtain ⟨hget, hkept⟩ := Option.filter_eq_some_iff.mp hentry
    split at hc
    · cases hc
    next howner =>
      split at hc
      · cases hc
      next found hfound =>
        cases hc
        exact ⟨entry, hget, by simpa using hkept, not_not.mp howner, hfound⟩

theorem getArtifact_store (s : LocalArtifactStore Report) (jobId : String) (type : ArtifactType)
    (principalId : String) (now : ℤ) :
    (s.getArtifact jobId type principalId now).1 = s.cleanupExpired now := by
  unfold getArtifact
  dsimp only
  split
  · rfl
  · split
    · rfl
    · split
      · rfl
      · rfl

theorem store_follows (json : Json Report) :
    (store json).Follows (fun _ _ => True) Follows (fun _ _ => True) where
  step := by
    rintro ⟨s, l⟩ e (h : s.Follows l) -
    show Follows _ _
    cases e with
    | initJobArtifacts jobId ownerPrincipalId sourceCode now => exact h.update jobId rfl
    | saveRecoveredCode jobId code =>
      show Follows (s.saveRecoveredCode jobId code).1
        (if (s.saveRecoveredCode jobId code).2.toBool then
          l.saved jobId fun r => { r with recoveredCode := some code } else l)
      unfold saveRecoveredCode
      split
      · exact h
      next entry hget =>
        split
        · exact h
        · exact h.modify hget _ _ rfl
    | saveReport jobId report =>
      show Follows (s.saveReport json.stringify jobId report).1
        (if (s.saveReport json.stringify jobId report).2.toBool then
          l.saved jobId fun r => { r with report := some report } else l)
      unfold saveReport
      split
      · exact h
      next entry hget =>
        split
        · exact h
        · exact h.modify hget _ _ rfl
    | purgeSourceCode jobId =>
      show (s.purgeSourceCode jobId).Follows l
      unfold purgeSourceCode
      split
      · exact h
      next entry hget => exact h.put jobId (h jobId entry hget)
    | cleanupExpired now => exact h.cleanupExpired now
    | getArtifact jobId type principalId now =>
      show (s.getArtifact jobId type.type principalId now).1.Follows l
      rw [getArtifact_store]
      exact h.cleanupExpired now
  keeps _ _ _ _ _ := trivial
  answers := by
    rintro ⟨s, l⟩ e (h : s.Follows l)
    refine iff_of_true ?_ trivial
    cases e with
    | getArtifact jobId type principalId now =>
      intro content hc
      obtain ⟨entry, hget, hkept, howner, hfound⟩ := getArtifact_ok hc
      refine ⟨entry.record, h jobId entry hget, howner, hkept, ?_⟩
      cases type <;> exact hfound
    | _ => exact True.intro

end LocalArtifactStore
end Local

section S3

def S3Meta.record (m : S3Meta Report) : Record Report :=
  ⟨m.ownerPrincipalId, m.expiresAt, m.recoveredCode, m.report⟩

namespace S3CompatibleArtifactStore

def store (json : Json Report) : ArtifactStore (S3CompatibleArtifactStore Report) Report where
  retentionMs s := s.retentionMs
  initJobArtifacts s jobId ownerPrincipalId _ now := s.initJobArtifacts jobId ownerPrincipalId now
  saveRecoveredCode s jobId code :=
    (s.saveRecoveredCode jobId code).map id (Except.map S3Saved.bytes)
  saveReport s jobId report := (s.saveReport json jobId report).map id (Except.map S3Saved.bytes)
  purgeSourceCode := purgeSourceCode
  cleanupExpired := cleanupExpired
  getArtifact s jobId type principalId _ := (s, s.getArtifact jobId type principalId)

def Follows (s : S3CompatibleArtifactStore Report) (l : Ledger Report) : Prop :=
  Tracks (fun m record => record = some m.record) s.jobMetadata l

/-- No content is asked for by its owner whose record has expired and is still there. -/
def InTime (o : Observed (S3CompatibleArtifactStore Report) Report) : StoreEvent Report → Prop
  | .getArtifact jobId type principalId now => ∀ m, o.store.jobMetadata.get jobId = some m →
      m.ownerPrincipalId = principalId → m.get type.type ≠ none → now ≤ m.expiresAt
  | _ => True

variable {s : S3CompatibleArtifactStore Report} {l : Ledger Report} {jobId : String}

theorem Follows.save (h : s.Follows l) (jobId : String) (text : CodeUnits) (limit : ℕ)
    (exceeds file : String) (put : S3Meta Report → S3Meta Report)
    (change : Record Report → Record Report) (hchange : ∀ m, change m.record = (put m).record) :
    (s.save jobId text limit exceeds file put).1.Follows
      (if (Except.map S3Saved.bytes (s.save jobId text limit exceeds file put).2).toBool then
        l.saved jobId change else l) := by
  unfold S3CompatibleArtifactStore.save
  split
  · exact h
  next m hget =>
    split
    · exact h
    · apply h.update
      rw [h jobId m hget, Option.map_some, hchange]

theorem getArtifact_ok_iff {type : ArtifactType} {principalId : String}
    {content : Content Report} : s.getArtifact jobId type principalId = .ok content ↔
      ∃ m, s.jobMetadata.get jobId = some m ∧ m.ownerPrincipalId = principalId ∧
        m.get type = some content := by
  unfold getArtifact
  cases hget : s.jobMetadata.get jobId with
  | none => simp
  | some m =>
    by_cases howner : m.ownerPrincipalId = principalId
    · cases hfound : m.get type with
      | none => simp [howner, hfound]
      | some found => simp [howner, hfound]
    · simp [howner]

theorem store_follows (json : Json Report) :
    (store json).Follows (fun _ _ => True) Follows InTime where
  step := by
    rintro ⟨s, l⟩ e (h : s.Follows l) -
    show Follows _ _
    cases e with
    | initJobArtifacts jobId ownerPrincipalId sourceCode now => exact h.update jobId rfl
    | saveRecoveredCode jobId code => exact h.save jobId code _ _ _ _ _ fun m => rfl
    | saveReport jobId report => exact h.save jobId (json.stringify report) _ _ _ _ _ fun m => rfl
    | purgeSourceCode jobId => exact h
    | cleanupExpired now =>
      apply h.remove
      intro jobId m hget
      have hfold := s.jobMetadata.get_foldl_entries (fun m => decide (m.expiresAt < now)) jobId
      simp only [decide_eq_true_eq] at hfold
      have hkept : (s.jobMetadata.get jobId).filter (fun m => !decide (m.expiresAt < now)) =
          some m := hfold.symm.trans hget
      exact (Option.filter_eq_some_iff.mp hkept).1
    | getArtifact jobId type principalId now => exact h
  keeps _ _ _ _ _ := trivial
  answers := by
    rintro ⟨s, l⟩ e (h : s.Follows l)
    cases e with
    | getArtifact jobId type principalId now =>
      constructor
      · intro hconf m hget howner hsome
        obtain ⟨content, hfound⟩ := Option.ne_none_iff_exists'.mp hsome
        obtain ⟨record, hrecord, -, hkept, -⟩ :=
          hconf content (getArtifact_ok_iff.mpr ⟨m, hget, howner, hfound⟩)
        obtain rfl : m.record = record := Option.some.inj ((h jobId m hget).symm.trans hrecord)
        exact hkept
      · intro htime content hc
        obtain ⟨m, hget, howner, hfound⟩ := getArtifact_ok_iff.mp hc
        refine ⟨m.record, h jobId m hget, howner, htime m hget howner (by simp [hfound]), ?_⟩
        cases type <;> exact hfound
    | _ => exact Iff.rfl

end S3CompatibleArtifactStore
end S3

section Filesystem

namespace FilesystemArtifactStore

def store (json : Json Report) : ArtifactStore FilesystemArtifactStore Report where
  retentionMs s := s.retentionMs
  initJobArtifacts := initJobArtifacts
  saveRecoveredCode := saveRecoveredCode
  saveReport := saveReport json
  purgeSourceCode := purgeSourceCode
  cleanupExpired := cleanupExpired
  getArtifact := getArtifact json

/-- The files of a directory with meta data, against the record of the job. -/
structure Holds (json : Json Report) (dir : JobDir) (file : FileMeta) (r : Record Report) :
    Prop where
  ownerPrincipalId : file.ownerPrincipalId = r.ownerPrincipalId
  expiresAt : file.expiresAt = r.expiresAt
  recoveredCode : dir.recoveredCode = r.recoveredCode.map chars
  report : dir.report = r.report.map fun report => chars (json.pretty report)

def Fits (json : Json Report) (dir : JobDir) (record : Option (Record Report)) : Prop :=
  ∀ file, dir.metaFile = some file → ∃ r, record = some r ∧ Holds json dir file r

def Follows (json : Json Report) (s : FilesystemArtifactStore) (l : Ledger Report) : Prop :=
  Tracks (Fits json) s.dirs l

/-- What was saved last is what the file that was written reads back as. -/
def Readable (json : Json Report) (r : Record Report) : SavedType → Prop
  | .recoveredCode => ∀ code, r.recoveredCode = some code → utf16 (chars code) = code
  | .report => ∀ report, r.report = some report →
      json.parse (utf16 (chars (json.pretty report))) = some report

/-- What the owner asks for in time reads back. -/
def ReadsBack (json : Json Report) (o : Observed FilesystemArtifactStore Report) :
    StoreEvent Report → Prop
  | .getArtifact jobId type principalId now => ∀ file record,
      (o.store.dirs.get jobId).bind JobDir.metaFile = some file → now ≤ file.expiresAt →
        file.ownerPrincipalId = principalId → o.ledger jobId = some record →
          Readable json record type
  | _ => True

variable {json : Json Report} {s : FilesystemArtifactStore} {l : Ledger Report} {jobId : String}

theorem get_cleanupExpired (s : FilesystemArtifactStore) (now : ℤ) (jobId : String) :
    (s.cleanupExpired now).dirs.get jobId = (s.dirs.get jobId).filter (fun dir =>
      !dir.metaFile.any (fun file => file.expiresAt < now)) :=
  s.dirs.get_foldl_entries
    (fun dir : JobDir => dir.metaFile.any fun file : FileMeta => file.expiresAt < now) jobId

/-- The directory that a save starts from fits what the directory of the job fits. -/
theorem Follows.jobDir (h : s.Follows json l) (jobId : String) :
    Fits json (s.jobDir jobId) (l jobId) := by
  unfold FilesystemArtifactStore.jobDir
  cases hget : s.dirs.get jobId with
  | none =>
    intro file hfile
    cases hfile
  | some dir => exact h jobId dir hget

theorem Follows.save (h : s.Follows json l) (jobId : String) (text : CodeUnits) (limit : ℕ)
    (what : String) (put : JobDir → JobDir) (change : Record Report → Record Report)
    (hmeta : ∀ dir, (put dir).metaFile = dir.metaFile)
    (hput : ∀ dir file r, Holds json dir file r → Holds json (put dir) file (change r)) :
    (s.save jobId text limit what put).1.Follows json
      (if (s.save jobId text limit what put).2.toBool then l.saved jobId change else l) := by
  have hdir : Fits json (s.jobDir jobId) (l jobId) := h.jobDir jobId
  unfold FilesystemArtifactStore.save
  dsimp only
  split
  · exact h.put jobId hdir
  · apply h.update
    intro file hfile
    rw [hmeta] at hfile
    obtain ⟨r, hr, hholds⟩ := hdir file hfile
    exact ⟨change r, by rw [hr, Option.map_some], hput _ _ _ hholds⟩

theorem getArtifact_ok_iff {type : ArtifactType} {principalId : String} {now : ℤ}
    {found : Content Report} : (s.getArtifact json jobId type principalId now).2 = .ok found ↔
      ∃ dir file text, s.dirs.get jobId = some dir ∧ dir.metaFile = some file ∧
        now ≤ file.expiresAt ∧ file.ownerPrincipalId = principalId ∧
          dir.file type = some text ∧ content json type (utf16 text) = found := by
  unfold getArtifact FilesystemArtifactStore.jobDir
  cases hget : s.dirs.get jobId with
  | none => simp
  | some dir =>
    cases hfile : dir.metaFile with
    | none => simp [hfile]
    | some file =>
      by_cases hkept : file.expiresAt < now
      · simp [hfile, hkept]
      · by_cases howner : file.ownerPrincipalId = principalId
        · cases hfound : dir.file type with
          | none => simp [hfile, hkept, howner, hfound]
          | some text => simp [hfile, hkept, howner, hfound, not_lt.mp hkept]
        · simp [hfile, hkept, howner]

theorem getArtifact_kept {type : ArtifactType} {principalId : String} {now : ℤ} {dir : JobDir}
    {i : String} (hget : (s.getArtifact json jobId type principalId now).1.dirs.get i = some dir) :
    s.dirs.get i = some dir := by
  unfold getArtifact at hget
  split at hget
  · exact hget
  · split at hget
    · by_cases hi : i = jobId
      · rw [hi, InsertionMap.get_delete_self] at hget
        cases hget
      · rwa [InsertionMap.get_delete_ne _ hi] at hget
    · split at hget
      · exact hget
      · split at hget
        · exact hget
        · exact hget

theorem get_save_ne (s : FilesystemArtifactStore) {i : String} (text : CodeUnits) (limit : ℕ)
    (what : String) (put : JobDir → JobDir) (hi : jobId ≠ i) :
    (s.save i text limit what put).1.dirs.get jobId = s.dirs.get jobId := by
  unfold FilesystemArtifactStore.save
  dsimp only
  split
  · exact InsertionMap.get_set_ne _ _ hi
  · exact InsertionMap.get_set_ne _ _ hi

/-- Where nothing was saved there is nothing to read back. -/
theorem readable_of_none {r : Record Report} {dir : JobDir} {file : FileMeta}
    (h : Holds json dir file r) {type : SavedType} (hnone : dir.file type.type = none) :
    Readable json r type := by
  cases type with
  | recoveredCode =>
    intro code hcode
    have hfile : dir.recoveredCode = some (chars code) := by
      rw [h.recoveredCode, hcode, Option.map_some]
    cases hfile.symm.trans hnone
  | report =>
    intro report hreport
    have hfile : dir.report = some (chars (json.pretty report)) := by
      rw [h.report, hreport, Option.map_some]
    cases hfile.symm.trans hnone

/-- The content of a file is what was saved last exactly if that reads back. -/
theorem content_eq_iff {r : Record Report} {dir : JobDir} {file : FileMeta}
    (h : Holds json dir file r) (type : SavedType) {text : List Char}
    (hfound : dir.file type.type = some text) :
    r.last type = some (content json type.type (utf16 text)) ↔ Readable json r type := by
  cases type with
  | recoveredCode =>
    have hsaved : r.recoveredCode.map chars = some text := h.recoveredCode.symm.trans hfound
    obtain ⟨code, hcode, rfl⟩ := Option.map_eq_some_iff.mp hsaved
    have hcontent : content json .recoveredCode (utf16 (chars code)) =
      .text (utf16 (chars code)) := rfl
    simp [Record.last, Readable, SavedType.type, hcode, hcontent, eq_comm]
  | report =>
    have hsaved : r.report.map (fun report => chars (json.pretty report)) = some text :=
      h.report.symm.trans hfound
    obtain ⟨report, hreport, rfl⟩ := Option.map_eq_some_iff.mp hsaved
    cases hparse : json.parse (utf16 (chars (json.pretty report))) with
    | none => simp [Record.last, Readable, SavedType.type, content, hreport, hparse]
    | some parsed =>
      simp [Record.last, Readable, SavedType.type, content, hreport, hparse, eq_comm]

/-- A job without a directory has none until it is initialised or something is saved for it. -/
theorem perform_fresh (e : StoreEvent Report) (hfresh : s.dirs.get jobId = none)
    (hwrites : e.writes ≠ some jobId) :
    ((store json).perform s e).1.dirs.get jobId = none := by
  cases e with
  | initJobArtifacts i ownerPrincipalId sourceCode now =>
    have hi : jobId ≠ i := fun h => hwrites (congrArg some h.symm)
    exact (InsertionMap.get_set_ne _ _ hi).trans hfresh
  | saveRecoveredCode i code =>
    have hi : jobId ≠ i := fun h => hwrites (congrArg some h.symm)
    show (s.saveRecoveredCode i code).1.dirs.get jobId = none
    exact (get_save_ne s _ _ _ _ hi).trans hfresh
  | saveReport i report =>
    have hi : jobId ≠ i := fun h => hwrites (congrArg some h.symm)
    show (s.saveReport json i report).1.dirs.get jobId = none
    exact (get_save_ne s _ _ _ _ hi).trans hfresh
  | purgeSourceCode i =>
    show (s.purgeSourceCode i).dirs.get jobId = none
    unfold purgeSourceCode
    split
    · exact hfresh
    next dir hget =>
      have hi : jobId ≠ i := by
        rintro rfl
        rw [hfresh] at hget
        cases hget
      exact (InsertionMap.get_set_ne _ _ hi).trans hfresh
  | cleanupExpired now =>
    show (s.cleanupExpired now).dirs.get jobId = none
    rw [get_cleanupExpired, hfresh, Option.filter_none]
  | getArtifact i type principalId now =>
    refine Option.eq_none_iff_forall_ne_some.mpr fun dir hget => ?_
    have hkept : s.dirs.get jobId = some dir := getArtifact_kept hget
    rw [hfresh] at hkept
    cases hkept

theorem store_follows (json : Json Report) :
    (store json).Follows (fun s jobId => s.dirs.get jobId = none) (Follows json)
      (ReadsBack json) where
  step := by
    rintro ⟨s, l⟩ e (h : s.Follows json l) hfresh
    show Follows json _ _
    cases e with
    | initJobArtifacts jobId ownerPrincipalId sourceCode now =>
      have hnew : s.dirs.get jobId = none := hfresh jobId rfl
      have hdir : s.jobDir jobId = ⟨none, none, none, none, none⟩ := by
        rw [FilesystemArtifactStore.jobDir, hnew, Option.getD_none]
      apply h.update
      rw [hdir]
      intro file hfile
      refine ⟨_, rfl, ?_⟩
      split at hfile
      · obtain rfl := Option.some.inj hfile
        exact ⟨rfl, rfl, rfl, rfl⟩
      · obtain rfl := Option.some.inj hfile
        exact ⟨rfl, rfl, rfl, rfl⟩
    | saveRecoveredCode jobId code =>
      show Follows json (s.saveRecoveredCode jobId code).1
        (if (s.saveRecoveredCode jobId code).2.toBool then
          l.saved jobId fun r => { r with recoveredCode := some code } else l)
      apply h.save
      · exact fun _ => rfl
      · exact fun dir file r hholds => { hholds with recoveredCode := rfl }
    | saveReport jobId report =>
      show Follows json (s.saveReport json jobId report).1
        (if (s.saveReport json jobId report).2.toBool then
          l.saved jobId fun r => { r with report := some report } else l)
      apply h.save
      · exact fun _ => rfl
      · exact fun dir file r hholds => { hholds with report := rfl }
    | purgeSourceCode jobId =>
      show (s.purgeSourceCode jobId).Follows json l
      unfold purgeSourceCode
      split
      · exact h
      next dir hget =>
        apply h.put
        intro file hfile
        obtain ⟨r, hr, hholds⟩ := h jobId dir hget file hfile
        exact ⟨r, hr, hholds.1, hholds.2, hholds.3, hholds.4⟩
    | cleanupExpired now =>
      apply h.remove
      intro jobId dir hget
      have hkept := (get_cleanupExpired s now jobId).symm.trans hget
      exact (Option.filter_eq_some_iff.mp hkept).1
    | getArtifact jobId type principalId now =>
      exact h.remove fun i dir hget => getArtifact_kept hget
  keeps s e jobId hfresh hwrites := perform_fresh e hfresh hwrites
  answers := by
    rintro ⟨s, l⟩ e (h : s.Follows json l)
    cases e with
    | getArtifact jobId type principalId now =>
      constructor
      · intro hconf file record hbind hkept howner hrecord
        obtain ⟨dir, hget, hfile⟩ := Option.bind_eq_some_iff.mp hbind
        obtain ⟨r, hr, hholds⟩ := h jobId dir hget file hfile
        obtain rfl : r = record := Option.some.inj (hr.symm.trans hrecord)
        cases hfound : dir.file type.type with
        | none => exact readable_of_none hholds hfound
        | some text =>
          obtain ⟨record, hl, -, -, hlast⟩ := hconf _
            (getArtifact_ok_iff.mpr ⟨dir, file, text, hget, hfile, hkept, howner, hfound, rfl⟩)
          obtain rfl : r = record := Option.some.inj (hr.symm.trans hl)
          exact (content_eq_iff hholds type hfound).mp hlast
      · intro hreads found hc
        obtain ⟨dir, file, text, hget, hfile, hkept, howner, hfound, rfl⟩ :=
          getArtifact_ok_iff.mp hc
        obtain ⟨r, hr, hholds⟩ := h jobId dir hget file hfile
        have hreadable : Readable json r type :=
          hreads file r (Option.bind_eq_some_iff.mpr ⟨dir, hget, hfile⟩) hkept howner hr
        exact ⟨r, hr, hholds.ownerPrincipalId.symm.trans howner,
          hkept.trans_eq hholds.expiresAt, (content_eq_iff hholds type hfound).mpr hreadable⟩
    | _ => exact Iff.rfl

end FilesystemArtifactStore
end Filesystem

/-- The local store keeps to the contract. The store over a bucket does where no content is asked
for too late, the store in files where what is asked for reads back. -/
theorem artifacts_confidential_iff (json : Json Report) (keyPrefix : String) (retentionMs : ℤ)
    (events : List (StoreEvent Report)) (honce : InitialisedOnce events) :
    (((LocalArtifactStore.store json).system ⟨retentionMs, .empty⟩).Meets
        (LocalArtifactStore.store json).Confidential events) ∧
      (((S3CompatibleArtifactStore.store json).system ⟨keyPrefix, retentionMs, .empty⟩).Meets
          (S3CompatibleArtifactStore.store json).Confidential events ↔
        ((S3CompatibleArtifactStore.store json).system ⟨keyPrefix, retentionMs, .empty⟩).Meets
          S3CompatibleArtifactStore.InTime events) ∧
      (((FilesystemArtifactStore.store json).system ⟨retentionMs, .empty⟩).Meets
          (FilesystemArtifactStore.store json).Confidential events ↔
        ((FilesystemArtifactStore.store json).system ⟨retentionMs, .empty⟩).Meets
          (FilesystemArtifactStore.ReadsBack json) events) := by
  refine ⟨?_, ?_, ?_⟩
  · have hiff := (LocalArtifactStore.store_follows json).meets_iff ⟨retentionMs, .empty⟩ events
      honce (fun _ _ _ _ => trivial) (o := ⟨⟨retentionMs, .empty⟩, fun _ => none⟩) Tracks.empty
    exact hiff.mpr (System.meetsFrom_of_forall (fun _ _ _ => trivial) _)
  · exact (S3CompatibleArtifactStore.store_follows json).meets_iff _ events honce
      (fun _ _ _ _ => trivial) Tracks.empty
  · exact (FilesystemArtifactStore.store_follows json).meets_iff _ events honce
      (fun _ _ _ _ => rfl) Tracks.empty

/-- Reports that are all the same. -/
def noReport : Json Unit := ⟨fun _ => [0x7B, 0x7D], fun _ => [0x7B, 0x7D], fun _ => some ()⟩

def readAt (now : ℤ) : List (StoreEvent Unit) :=
  [.initJobArtifacts "job" "alice" (some [0x78]) 0, .saveRecoveredCode "job" [0x79],
    .getArtifact "job" .recoveredCode "alice" now]

theorem readAt_once (now : ℤ) : InitialisedOnce (readAt now) := by
  simp [InitialisedOnce, readAt, StoreEvent.inits]

theorem read_in_time : InitialisedOnce (readAt 1000) ∧
    ((S3CompatibleArtifactStore.store noReport).system ⟨"", 1000, .empty⟩).Meets
      (S3CompatibleArtifactStore.store noReport).Confidential (readAt 1000) ∧
    ((FilesystemArtifactStore.store noReport).system ⟨1000, .empty⟩).Meets
      (FilesystemArtifactStore.store noReport).Confidential (readAt 1000) := by
  have hiff := artifacts_confidential_iff noReport "" 1000 (readAt 1000) (readAt_once 1000)
  refine ⟨readAt_once 1000, hiff.2.1.mpr ?_, hiff.2.2.mpr ?_⟩
  · refine (System.meetsFrom_cons rfl).mpr ⟨trivial, (System.meetsFrom_cons rfl).mpr
      ⟨trivial, (System.meetsFrom_cons rfl).mpr ⟨fun m hget _ _ => ?_, trivial⟩⟩⟩
    obtain rfl := Option.some.inj hget
    exact le_rfl
  · refine (System.meetsFrom_cons rfl).mpr ⟨trivial, (System.meetsFrom_cons rfl).mpr
      ⟨trivial, (System.meetsFrom_cons rfl).mpr ⟨fun file record _ _ _ hrecord => ?_, trivial⟩⟩⟩
    obtain rfl := Option.some.inj hrecord
    intro code hcode
    obtain rfl := Option.some.inj hcode
    rfl

/-- The owner gets the code a second after it has expired. -/
theorem read_too_late : InitialisedOnce (readAt 2000) ∧
    ¬ ((S3CompatibleArtifactStore.store noReport).system ⟨"", 1000, .empty⟩).Meets
      (S3CompatibleArtifactStore.store noReport).Confidential (readAt 2000) := by
  refine ⟨readAt_once 2000, fun h => ?_⟩
  have hread := (((h _ rfl).2 _ rfl).2 _ rfl).1
  obtain ⟨record, hrecord, -, hkept, -⟩ := hread (.text [0x79]) rfl
  obtain rfl := Option.some.inj hrecord
  have hlate : ¬ (2000 : ℤ) ≤ 0 + 1000 := by decide
  exact hlate hkept

end
end LuaRecovery.Gateway
