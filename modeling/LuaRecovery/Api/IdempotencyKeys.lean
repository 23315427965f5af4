import LuaRecovery.Api.DailyQuota

/-!
# Requests under one idempotency key

A key is registered when its job is recorded, some time after the key was looked
up. As long as nobody looks a key up in between, one job is made for it: each
key belongs to at most one handler whose job the gateway has taken, and it is
registered exactly when that handler is done.
-/

set_option autoImplicit false

namespace LuaRecovery.Api
open LuaRecovery.Lib LuaRecovery.Queue LuaRecovery.Gateway

section
variable {Report Fault : Type}

/-- The gateway has taken this job for the handler. -/
def Handler.Created (h : Handler Report Fault) (jobId : String) : Prop :=
  (∃ receipt, h.phase = .submitting (.ok receipt) ∧ receipt.jobId = jobId) ∨
    ∃ job, h.phase = .finished (.created job) ∧ job.jobId = jobId

/-- The handler has answered with this job. -/
def Handler.Succeeds (h : Handler Report Fault) (jobId : String) : Prop :=
  ∃ job, (h.phase = .finished (.created job) ∨ h.phase = .finished (.replayed job)) ∧
    job.jobId = jobId

def Handler.source (h : Handler Report Fault) : Option CodeUnits :=
  h.submission.map fun sub => sub.source

/-- The handler with a body in order. -/
def Handler.withBody (h : Handler Report Fault) (sub : Submission) : Handler Report Fault :=
  { h with submission := some sub }

namespace ApiServer

/-- The handler has a job under the key. -/
def CreatedAt (s : ApiServer Report Fault) (key : String) (i : ℕ) : Prop :=
  ∃ h jobId, s.handlers[i]? = some h ∧ h.registryKey = some key ∧ h.Created jobId

/-- At most one job is made under a key; each success under it carries that job and has its
content. -/
structure OneJob (s : ApiServer Report Fault) : Prop where
  once : ∀ key i j, s.CreatedAt key i → s.CreatedAt key j → i = j
  answers : ∀ (i : ℕ) (h : Handler Report Fault) key jobId, s.handlers[i]? = some h →
    h.registryKey = some key → h.Succeeds jobId → ∃ (j : ℕ) (h' : Handler Report Fault),
      s.handlers[j]? = some h' ∧ h'.registryKey = some key ∧ h'.Created jobId ∧
        h'.source = h.source

/-- A body comes in whose key a job was made under, for another content. -/
def Clashes (host : Host Report) (s : ApiServer Report Fault) (h : Handler Report Fault)
    (outcome : Except ApiError SubmitBody) (sub : Submission) : Prop :=
  s.Submits host h outcome sub ∧ ∃ (j : ℕ) (h' : Handler Report Fault) (key jobId : String),
    s.handlers[j]? = some h' ∧ h'.registryKey = some key ∧ (h.withBody sub).registryKey = some key ∧
      h'.Created jobId ∧ h'.source ≠ some sub.source

/-- A request that clashes is answered with a conflict, and nothing is submitted. -/
def ConflictsAnswered (host : Host Report) (s : ApiServer Report Fault) :
    ApiEvent Report Fault → Prop
  | .body i outcome draws => ∀ h sub, s.handlers[i]? = some h → h.phase = .reading →
      s.Clashes host h outcome sub → s.onBody host h outcome draws =
        (s.gateway, (h.withBody sub).finish (.refused idempotencyConflict none))
  | _ => True

/-- A key that is looked up in vain has no job that is still to be recorded, and the digest tells
the content from that of a job made under the key. -/
def LookupSettled (host : Host Report) (s : ApiServer Report Fault) :
    ApiEvent Report Fault → Prop
  | .body i outcome _ => ∀ h sub key, s.handlers[i]? = some h → h.phase = .reading →
      s.Submits host h outcome sub → (h.withBody sub).registryKey = some key →
      (s.idempotencyRegistry.get key = none → ∀ (j : ℕ) (h' : Handler Report Fault) receipt,
        s.handlers[j]? = some h' → h'.registryKey = some key →
          h'.phase ≠ .submitting (.ok receipt)) ∧
      ∀ (j : ℕ) (h' : Handler Report Fault) sub' jobId, s.handlers[j]? = some h' →
        h'.registryKey = some key → h'.submission = some sub' → h'.Created jobId →
          host.sha256 sub'.source = host.sha256 sub.source → sub'.source = sub.source
  | _ => True

/-- The job that is recorded for a key, and its submission. -/
def Holds (s : ApiServer Report Fault) (key jobId : String) (sub : Submission) : Prop :=
  ∃ (i : ℕ) (h : Handler Report Fault) (job : JobSummary), s.handlers[i]? = some h ∧
    h.registryKey = some key ∧ h.submission = some sub ∧ h.phase = .finished (.created job) ∧
      job.jobId = jobId

/-- The job is recorded for the key, with the handler's content. -/
def Answers (s : ApiServer Report Fault) (h : Handler Report Fault) (key jobId : String) : Prop :=
  ∃ sub, s.Holds key jobId sub ∧ h.source = some sub.source

/-- What holds of a handler whose submission has the key. -/
def SoundPhase (s : ApiServer Report Fault) (h : Handler Report Fault) (key : String) : Prop :=
  match h.phase with
  | .replaying (.ok job) => s.Answers h key job.jobId
  | .submitting (.ok _) => s.idempotencyRegistry.get key = none
  | .finished (.created _) => s.idempotencyRegistry.get key ≠ none
  | .finished (.replayed job) => s.Answers h key job.jobId
  | _ => True

structure Keyed (host : Host Report) (s : ApiServer Report Fault) : Prop where
  digests : ∀ (i : ℕ) (h : Handler Report Fault) sub, s.handlers[i]? = some h →
    h.submission = some sub → sub.contentSha256 = host.sha256 sub.source
  once : ∀ key i j, s.CreatedAt key i → s.CreatedAt key j → i = j
  phases : ∀ (i : ℕ) (h : Handler Report Fault) key, s.handlers[i]? = some h →
    h.registryKey = some key → s.SoundPhase h key
  recorded : ∀ key registered, s.idempotencyRegistry.get key = some registered →
    ∃ sub, s.Holds key registered.jobId sub ∧ registered.contentSha256 = sub.contentSha256
  named : s.gateway.queue.Named

section
variable {host : Host Report} {s s' : ApiServer Report Fault} {i : ℕ}
  {h h' : Handler Report Fault} {key jobId : String} {sub : Submission}

theorem getElem?_set_cases {α : Type} {l : List α} {i j : ℕ} {a b : α}
    (h : (l.set i b)[j]? = some a) : (j = i ∧ a = b) ∨ (j ≠ i ∧ l[j]? = some a) := by
  rw [List.getElem?_set] at h
  split at h
  next heq =>
    split at h
    next => exact .inl ⟨heq.symm, (Option.some.inj h).symm⟩
    next => cases h
  next hne => exact .inr ⟨fun heq => hne heq.symm, h⟩

/-- A recorded job stays recorded while other handlers move on. -/
theorem Holds.set (hh : s.Holds key jobId sub) (hget : s.handlers[i]? = some h)
    (hold : ∀ job, h.phase ≠ .finished (.created job))
    (hhandlers : s'.handlers = s.handlers.set i h') : s'.Holds key jobId sub := by
  obtain ⟨j, k, job, hk, hrest⟩ := hh
  refine ⟨j, k, job, ?_, hrest⟩
  rw [hhandlers, List.getElem?_set_ne]
  · exact hk
  · rintro rfl
    obtain rfl := Option.some.inj (hget.symm.trans hk)
    exact hold job hrest.2.2.1

theorem Holds.append (hh : s.Holds key jobId sub)
    (hhandlers : s'.handlers = s.handlers ++ [h']) : s'.Holds key jobId sub := by
  obtain ⟨j, k, job, hk, hrest⟩ := hh
  refine ⟨j, k, job, ?_, hrest⟩
  rw [hhandlers, List.getElem?_append_left (List.getElem?_eq_some_iff.mp hk).1]
  exact hk

theorem SoundPhase.mono (hsound : s.SoundPhase h key)
    (hregistry : s'.idempotencyRegistry.get key = s.idempotencyRegistry.get key)
    (hholds : ∀ jobId sub, s.Holds key jobId sub → s'.Holds key jobId sub) :
    s'.SoundPhase h key := by
  unfold SoundPhase at hsound ⊢
  rw [hregistry]
  split at hsound
  next =>
    obtain ⟨sub, hh, hsource⟩ := hsound
    exact ⟨sub, hholds _ sub hh, hsource⟩
  next => exact hsound
  next => exact hsound
  next =>
    obtain ⟨sub, hh, hsource⟩ := hsound
    exact ⟨sub, hholds _ sub hh, hsource⟩
  next => trivial

theorem createdAt_set {a : ℕ} (hhandlers : s'.handlers = s.handlers.set i h')
    (ha : s'.CreatedAt key a) :
    (a = i ∧ ∃ jobId, h'.registryKey = some key ∧ h'.Created jobId) ∨ s.CreatedAt key a := by
  obtain ⟨k, jobId, hk, hkey, hcreated⟩ := ha
  rw [hhandlers] at hk
  rcases getElem?_set_cases hk with ⟨rfl, rfl⟩ | ⟨-, hk⟩
  · exact .inl ⟨rfl, jobId, hkey, hcreated⟩
  · exact .inr ⟨k, jobId, hk, hkey, hcreated⟩

/-- Jobs stay alone under their keys when a handler moves on that had its job before, or under
whose key there was none. -/
theorem once_set (honce : ∀ key i j, s.CreatedAt key i → s.CreatedAt key j → i = j)
    (hhandlers : s'.handlers = s.handlers.set i h')
    (hnew : ∀ key jobId, h'.registryKey = some key → h'.Created jobId →
      s.CreatedAt key i ∨ ∀ j, ¬ s.CreatedAt key j) (key : String) (a b : ℕ)
    (ha : s'.CreatedAt key a) (hb : s'.CreatedAt key b) : a = b := by
  rcases createdAt_set hhandlers ha with ⟨rfl, jobId, hkey, hcreated⟩ | ha'
  · rcases createdAt_set hhandlers hb with ⟨rfl, -⟩ | hb'
    · rfl
    · rcases hnew key jobId hkey hcreated with hi | hnone
      · exact honce key a b hi hb'
      · exact absurd hb' (hnone b)
  · rcases createdAt_set hhandlers hb with ⟨rfl, jobId, hkey, hcreated⟩ | hb'
    · rcases hnew key jobId hkey hcreated with hi | hnone
      · exact honce key a b ha' hi
      · exact absurd ha' (hnone a)
    · exact honce key a b ha' hb'

/-- A handler moves on without a record being made. -/
theorem Keyed.move (hk : Keyed host s) (hget : s.handlers[i]? = some h)
    (hold : ∀ job, h.phase ≠ .finished (.created job))
    (hhandlers : s'.handlers = s.handlers.set i h')
    (hregistry : s'.idempotencyRegistry = s.idempotencyRegistry)
    (hnamed : s'.gateway.queue.Named)
    (hdigest : ∀ sub, h'.submission = some sub → sub.contentSha256 = host.sha256 sub.source)
    (hphase : ∀ key, h'.registryKey = some key → s.SoundPhase h' key)
    (hnew : ∀ key jobId, h'.registryKey = some key → h'.Created jobId →
      s.CreatedAt key i ∨ ∀ j, ¬ s.CreatedAt key j) : Keyed host s' := by
  have hholds : ∀ key jobId sub, s.Holds key jobId sub → s'.Holds key jobId sub :=
    fun _ _ _ hh => hh.set hget hold hhandlers
  refine ⟨?_, once_set hk.once hhandlers hnew, ?_, ?_, hnamed⟩
  · intro j k sub hj hsub
    rw [hhandlers] at hj
    rcases getElem?_set_cases hj with ⟨-, rfl⟩ | ⟨-, hj⟩
    · exact hdigest sub hsub
    · exact hk.digests j k sub hj hsub
  · intro j k key hj hkey
    rw [hhandlers] at hj
    rcases getElem?_set_cases hj with ⟨-, rfl⟩ | ⟨-, hj⟩
    · exact (hphase key hkey).mono (by rw [hregistry]) (hholds key)
    · exact (hk.phases j k key hj hkey).mono (by rw [hregistry]) (hholds key)
  · intro key registered hreg
    rw [hregistry] at hreg
    obtain ⟨sub, hh, heq⟩ := hk.recorded key registered hreg
    exact ⟨sub, hholds key _ sub hh, heq⟩

/-- A handler answers without a job of its own. -/
theorem Keyed.finish (hk : Keyed host s) {response : Response} (hget : s.handlers[i]? = some h)
    (hold : ∀ job, h.phase ≠ .finished (.created job)) (hnot : ∀ job, response ≠ .created job)
    (hphase : ∀ job, response = .replayed job → ∀ key, h.registryKey = some key →
      s.Answers h key job.jobId) :
    Keyed host { s with handlers := s.handlers.set i (h.finish response) } := by
  refine hk.move hget hold rfl rfl hk.named (fun sub hsub => hk.digests i h sub hget hsub) ?_ ?_
  · intro key hkey
    cases response with
    | created job => exact absurd rfl (hnot job)
    | replayed job => exact hphase job rfl key hkey
    | refused error retryAfter => exact True.intro
  · rintro key jobId - (⟨receipt, hreceipt, -⟩ | ⟨job, hjob, -⟩)
    · cases hreceipt
    · obtain rfl := Phase.finished.inj hjob
      exact absurd rfl (hnot job)

theorem submits_digest {outcome : Except ApiError SubmitBody}
    (hsub : s.Submits host h outcome sub) : sub.contentSha256 = host.sha256 sub.source := by
  obtain ⟨body, -, hvalid⟩ := hsub
  unfold validate at hvalid
  split at hvalid
  · cases hvalid
  · split at hvalid
    · cases hvalid
    · split at hvalid
      · cases hvalid
      · split at hvalid
        · cases hvalid
        · cases hvalid
          rfl

/-- A job that is registered under a key was made by one handler, which has recorded it. -/
theorem Holds.createdAt (hh : s.Holds key jobId sub) :
    ∃ (j : ℕ) (k : Handler Report Fault), s.handlers[j]? = some k ∧ k.registryKey = some key ∧
      k.submission = some sub ∧ k.Created jobId := by
  obtain ⟨j, k, job, hj, hkey, hsub, hphase, hid⟩ := hh
  exact ⟨j, k, hj, hkey, hsub, .inr ⟨job, hphase, hid⟩⟩

/-- A handler with a job is one that has still to record it, or the key is registered. -/
theorem Keyed.createdAt (hk : Keyed host s) (hj : s.CreatedAt key i) :
    s.idempotencyRegistry.get key ≠ none ∨ ∃ k receipt, s.handlers[i]? = some k ∧
      k.registryKey = some key ∧ k.phase = .submitting (.ok receipt) := by
  obtain ⟨k, jobId, hget, hkey, hcreated⟩ := hj
  have hsound := hk.phases i k key hget hkey
  rcases hcreated with ⟨receipt, hphase, -⟩ | ⟨job, hphase, -⟩
  · exact .inr ⟨k, receipt, hget, hkey, hphase⟩
  · rw [SoundPhase, hphase] at hsound
    exact .inl hsound

theorem ownJob_get {g : RecoveryGateway Report Fault} {principalId : String}
    {job : GatewayJob Report Fault} (hjob : g.ownJob jobId principalId = .ok job) :
    g.queue.jobs.get jobId = some job := by
  unfold RecoveryGateway.ownJob at hjob
  split at hjob
  · cases hjob
  · split at hjob
    · cases hjob
    · cases hjob
      assumption

theorem Keyed.read (hk : Keyed host s) {outcome : Except ApiError SubmitBody}
    {draws : SubmitDraws} {g : RecoveryGateway Report Fault} (hget : s.handlers[i]? = some h)
    (hreading : h.phase = .reading) (hreads : Reads host s h outcome draws g h')
    (hcond : s.LookupSettled host (.body i outcome draws)) :
    Keyed host { s with gateway := g, handlers := s.handlers.set i h' } := by
  have hold : ∀ job, h.phase ≠ .finished (.created job) := by simp [hreading]
  have hdigest : ∀ sub, s.Submits host h outcome sub → ∀ sub', some sub = some sub' →
      sub'.contentSha256 = host.sha256 sub'.source := by
    rintro sub hsub sub' heq
    cases heq
    exact submits_digest hsub
  have hrefused : ∀ (k : Handler Report Fault) error, k.phase = .finished (.refused error none) →
      ∀ jobId, ¬ k.Created jobId := by
    rintro k error hphase jobId (⟨receipt, hreceipt, -⟩ | ⟨job, hjob, -⟩)
    · rw [hphase] at hreceipt
      cases hreceipt
    · rw [hphase] at hjob
      cases hjob
  cases hreads with
  | rejected error hnone =>
    exact hk.finish hget hold (fun job heq => by cases heq) (fun job heq => by cases heq)
  | conflict sub existing hsub hreg hne =>
    exact hk.move hget hold rfl rfl hk.named (hdigest sub hsub) (fun key _ => True.intro)
      (fun key jobId _ hcreated => absurd hcreated (hrefused _ _ rfl jobId))
  | limited sub error hsub hreg =>
    exact hk.move hget hold rfl rfl hk.named (hdigest sub hsub) (fun key _ => True.intro)
      (fun key jobId _ hcreated => absurd hcreated (hrefused _ _ rfl jobId))
  | replaying sub existing hsub hreg heq =>
    refine hk.move hget hold rfl rfl hk.named (hdigest sub hsub) (fun key hkey => ?_) ?_
    · have hregistered : s.idempotencyRegistry.get key = some existing := by
        rw [registered] at hreg
        have hkey' : Handler.registryKey { h with submission := some sub } = some key := hkey
        rwa [hkey'] at hreg
      rw [SoundPhase]
      cases hjob : s.gateway.ownJob existing.jobId h.principalId with
      | error error => exact True.intro
      | ok job =>
        have hid : job.jobId = existing.jobId := hk.named _ job (ownJob_get hjob)
        obtain ⟨sub', hh, hsha⟩ := hk.recorded key existing hregistered
        obtain ⟨j, k, hj, hjkey, hjsub, hcreated⟩ := hh.createdAt
        have hdigests : host.sha256 sub'.source = host.sha256 sub.source := by
          rw [← hk.digests j k sub' hj hjsub, ← hsha, heq, submits_digest hsub]
        have hsource := (hcond h sub key hget hreading hsub hkey).2 j k sub' _ hj hjkey hjsub
          hcreated hdigests
        show s.Answers _ key job.jobId
        refine ⟨sub', ?_, ?_⟩
        · rw [hid]
          exact hh
        · rw [hsource]
          rfl
    · rintro key jobId - (⟨receipt, hreceipt, -⟩ | ⟨job, hjob, -⟩)
      · cases hreceipt
      · cases hjob
  | submitting sub g answer hsub hreg hanswer =>
    have hnone : ∀ key, Handler.registryKey { h with submission := some sub } = some key →
        s.idempotencyRegistry.get key = none := by
      intro key hkey
      rw [registered] at hreg
      rwa [hkey] at hreg
    have hnamed : g.queue.Named := by
      have hreach := RecoveryGateway.submit_reaches s.gateway ⟨jobRequest h.principalId sub, draws⟩
      rw [RecoveryGateway.submit, hanswer] at hreach
      exact hreach.named hk.named
    refine hk.move hget hold rfl rfl hnamed (hdigest sub hsub) (fun key hkey => ?_) ?_
    · cases answer with
      | error error => exact True.intro
      | ok receipt => exact hnone key hkey
    · intro key jobId hkey _
      refine .inr fun j hj => ?_
      rcases hk.createdAt hj with hregistered | ⟨k, receipt, hjget, hjkey, hjphase⟩
      · exact hregistered (hnone key hkey)
      · exact (hcond h sub key hget hreading hsub hkey).1 (hnone key hkey) j k receipt hjget hjkey
          hjphase

theorem get_register (s : ApiServer Report Fault) (h : Handler Report Fault) (sub : Submission)
    (jobId key : String) : (s.register h sub jobId).get key =
      if h.registryKey = some key then some ⟨jobId, sub.contentSha256⟩
      else s.idempotencyRegistry.get key := by
  unfold register
  cases hkey : h.registryKey with
  | none => rfl
  | some own =>
    simp only [InsertionMap.get_set, Option.some.injEq, eq_comm]

theorem Keyed.record (hk : Keyed host s) {receipt : Receipt} (hget : s.handlers[i]? = some h)
    (hphase : h.phase = .submitting (.ok receipt)) (hsub : h.submission = some sub) :
    Keyed host (s.record i h sub receipt) := by
  have hold : ∀ job, h.phase ≠ .finished (.created job) := by simp [hphase]
  have hholds : ∀ key jobId sub', s.Holds key jobId sub' →
      (s.record i h sub receipt).Holds key jobId sub' := fun _ _ _ hh => hh.set hget hold rfl
  have hnone : ∀ key, h.registryKey = some key → s.idempotencyRegistry.get key = none := by
    intro key hkey
    have hsound := hk.phases i h key hget hkey
    rwa [SoundPhase, hphase] at hsound
  have hcreated : ∀ key, h.registryKey = some key → s.CreatedAt key i :=
    fun key hkey => ⟨h, receipt.jobId, hget, hkey, .inl ⟨receipt, hphase, rfl⟩⟩
  have hreg : ∀ key, (s.record i h sub receipt).idempotencyRegistry.get key =
      if h.registryKey = some key then some ⟨receipt.jobId, sub.contentSha256⟩
      else s.idempotencyRegistry.get key := fun key => get_register s h sub receipt.jobId key
  refine ⟨?_, once_set hk.once rfl fun key _ hkey _ => .inl (hcreated key hkey), ?_, ?_, hk.named⟩
  · intro j k sub' hj hsub'
    rcases getElem?_set_cases hj with ⟨-, rfl⟩ | ⟨-, hj⟩
    · exact hk.digests i h sub' hget hsub'
    · exact hk.digests j k sub' hj hsub'
  · intro j k key hj hkey
    rcases getElem?_set_cases hj with ⟨-, rfl⟩ | ⟨hne, hj⟩
    · show (s.record i h sub receipt).idempotencyRegistry.get key ≠ none
      have hown : h.registryKey = some key := hkey
      rw [hreg, if_pos hown]
      simp
    · by_cases hown : h.registryKey = some key
      · -- nobody else has a job under the key that is recorded here
        have hother : ¬ s.CreatedAt key j := fun hj' =>
          hne (hk.once key j i hj' (hcreated key hown))
        have hsound := hk.phases j k key hj hkey
        unfold SoundPhase at hsound ⊢
        split at hsound
        next =>
          obtain ⟨sub', hh, hsource⟩ := hsound
          exact ⟨sub', hholds _ _ sub' hh, hsource⟩
        next hkphase =>
          exact absurd ⟨k, _, hj, hkey, .inl ⟨_, hkphase, rfl⟩⟩ hother
        next => exact absurd (hnone key hown) hsound
        next =>
          obtain ⟨sub', hh, hsource⟩ := hsound
          exact ⟨sub', hholds _ _ sub' hh, hsource⟩
        next => trivial
      · have hsame : (s.record i h sub receipt).idempotencyRegistry.get key =
            s.idempotencyRegistry.get key := by rw [hreg, if_neg hown]
        exact (hk.phases j k key hj hkey).mono hsame (hholds key)
  · intro key registered hregistered
    rw [hreg] at hregistered
    split at hregistered
    next hown =>
      obtain rfl := Option.some.inj hregistered
      have hlt := (List.getElem?_eq_some_iff.mp hget).1
      refine ⟨sub, ⟨i, _, _, List.getElem?_set_self hlt, hown, hsub, rfl, rfl⟩, rfl⟩
    next =>
      obtain ⟨sub', hh, hsha⟩ := hk.recorded key registered hregistered
      exact ⟨sub', hholds key _ sub' hh, hsha⟩

theorem Keyed.append (hk : Keyed host s) {g : RecoveryGateway Report Fault}
    (hqueue : g.queue = s.gateway.queue) (hsub : h.submission = none) :
    Keyed host { s with gateway := g, handlers := s.handlers ++ [h] } := by
  have hkey : h.registryKey = none := by simp [Handler.registryKey, hsub]
  have hcases : ∀ (j : ℕ) (k : Handler Report Fault), (s.handlers ++ [h])[j]? = some k →
      s.handlers[j]? = some k ∨ k = h := by
    intro j k hj
    rw [List.getElem?_append] at hj
    split at hj
    next => exact .inl hj
    next => exact .inr (by simpa using List.mem_of_getElem? hj)
  have hholds : ∀ key jobId sub, s.Holds key jobId sub →
      ({ s with gateway := g, handlers := s.handlers ++ [h] } :
        ApiServer Report Fault).Holds key jobId sub := fun _ _ _ hh => hh.append rfl
  have hcreated : ∀ key j, ({ s with gateway := g, handlers := s.handlers ++ [h] } :
      ApiServer Report Fault).CreatedAt key j → s.CreatedAt key j := by
    rintro key j ⟨k, jobId, hj, hjkey, hjcreated⟩
    rcases hcases j k hj with hj | rfl
    · exact ⟨k, jobId, hj, hjkey, hjcreated⟩
    · rw [hkey] at hjkey
      cases hjkey
  refine ⟨?_, fun key a b ha hb => hk.once key a b (hcreated key a ha) (hcreated key b hb), ?_, ?_,
    ?_⟩
  · intro j k sub hj hjsub
    rcases hcases j k hj with hj | rfl
    · exact hk.digests j k sub hj hjsub
    · rw [hsub] at hjsub
      cases hjsub
  · intro j k key hj hjkey
    rcases hcases j k hj with hj | rfl
    · exact (hk.phases j k key hj hjkey).mono rfl (hholds key)
    · rw [hkey] at hjkey
      cases hjkey
  · intro key registered hreg
    obtain ⟨sub, hh, hsha⟩ := hk.recorded key registered hreg
    exact ⟨sub, hholds key _ sub hh, hsha⟩
  · rw [InMemoryJobQueue.Named, hqueue]
    exact hk.named

theorem Keyed.step {e : ApiEvent Report Fault} (hk : Keyed host s)
    (hcond : s.LookupSettled host e) (hs : s.step host e = some s') : Keyed host s' := by
  cases moves_of_step hs with
  | received principalId header day now h g hqueue hsub hphase => exact hk.append hqueue hsub
  | read i outcome draws h h' g hget hphase hreads => exact hk.read hget hphase hreads hcond
  | replayed i h answer hget hphase =>
    refine hk.finish hget (by simp [hphase]) (fun job heq => ?_) fun job heq key hkey => ?_
    · cases answer <;> cases heq
    · have hsound := hk.phases i h key hget hkey
      rw [SoundPhase, hphase] at hsound
      cases answer with
      | error error => cases heq
      | ok found =>
        cases heq
        exact hsound
  | refused i h error hget hphase =>
    obtain ⟨apiError, retryAfter, heq⟩ := submitError_refused error
    rw [heq]
    exact hk.finish hget (by simp [hphase]) (fun job h => by cases h) (fun job h => by cases h)
  | recorded i h sub receipt hget hphase hsub => exact hk.record hget hphase hsub
  | gateway event =>
    refine ⟨hk.digests, hk.once, hk.phases, hk.recorded, ?_⟩
    exact (RecoveryGateway.handle_reaches host.stringify s.gateway event).named hk.named

theorem Keyed.oneJob (hk : Keyed host s) : OneJob s := by
  refine ⟨hk.once, ?_⟩
  rintro i h key jobId hget hkey ⟨job, hphase | hphase, rfl⟩
  · exact ⟨i, h, hget, hkey, .inr ⟨job, hphase, rfl⟩, rfl⟩
  · have hsound := hk.phases i h key hget hkey
    rw [SoundPhase, hphase] at hsound
    obtain ⟨sub, hh, hsource⟩ := hsound
    obtain ⟨j, k, hj, hjkey, hjsub, hcreated⟩ := hh.createdAt
    refine ⟨j, k, hj, hjkey, hcreated, ?_⟩
    rw [hsource, Handler.source, hjsub]
    rfl

theorem Keyed.conflictsAnswered {e : ApiEvent Report Fault} (hk : Keyed host s)
    (hcond : s.LookupSettled host e) : s.ConflictsAnswered host e := by
  cases e with
  | body i outcome draws =>
    rintro h sub hget hreading ⟨hsub, j, h', key, jobId, hj, hjkey, hkey, hcreated, hsource⟩
    obtain ⟨hvain, htold⟩ := hcond h sub key hget hreading hsub hkey
    cases hreg : s.idempotencyRegistry.get key with
    | none =>
      rcases hk.createdAt ⟨h', jobId, hj, hjkey, hcreated⟩ with hsome | ⟨k, receipt, hj', hk', hp⟩
      · exact absurd hreg hsome
      · exact absurd hp (hvain hreg j k receipt hj' hk')
    | some existing =>
      obtain ⟨sub', hh, hsha⟩ := hk.recorded key existing hreg
      obtain ⟨a, k, ha, hakey, hasub, hacreated⟩ := hh.createdAt
      obtain rfl : a = j := hk.once key a j ⟨k, _, ha, hakey, hacreated⟩
        ⟨h', jobId, hj, hjkey, hcreated⟩
      obtain rfl : k = h' := Option.some.inj (ha.symm.trans hj)
      have hdiffers : existing.contentSha256 ≠ sub.contentSha256 := by
        intro heq
        rw [hsha, hk.digests a k sub' ha hasub, submits_digest hsub] at heq
        apply hsource
        rw [← htold a k sub' _ ha hakey hasub hacreated heq, Handler.source, hasub]
        rfl
      obtain ⟨body, rfl, hvalid⟩ := hsub
      have hfound : s.registered (h.withBody sub) = some existing := by
        rw [registered, hkey]
        exact hreg
      rw [Handler.withBody] at hfound
      simp only [onBody, hvalid, proceed, hfound, if_pos hdiffers]
      rfl
  | request _ _ _ _ => exact True.intro
  | resume _ => exact True.intro
  | gateway _ => exact True.intro

end

theorem keyed_create (host : Host Report) (options : ApiOptions) (limits : RateLimiterOptions)
    (queueOptions : Options) (retentionMs : ℤ) :
    Keyed host (create options (.create limits queueOptions retentionMs) :
      ApiServer Report Fault) := by
  have hnone : ∀ (i : ℕ) (h : Handler Report Fault),
      ([] : List (Handler Report Fault))[i]? ≠ some h := by simp
  refine ⟨fun i h _ hget => absurd hget (hnone i h), ?_, fun i h _ hget => absurd hget (hnone i h),
    fun key registered hreg => (by cases hreg), InMemoryJobQueue.named_create queueOptions⟩
  rintro key i j ⟨h, jobId, hget, -⟩
  exact absurd hget (hnone i h)

/-- In a run in which no key is looked up while a job of the key is still to be recorded, one job
at most is made under each key, every success under it carries that job, and a request with
another content is answered with a conflict. -/
theorem one_job_of_settled_lookups (host : Host Report) (options : ApiOptions)
    (limits : RateLimiterOptions) (queueOptions : Options) (retentionMs : ℤ)
    (events : List (ApiEvent Report Fault))
    (hsettled : (system host (create options (.create limits queueOptions retentionMs))).Meets
      (LookupSettled host) events) :
    (system host (create options (.create limits queueOptions retentionMs))).Always OneJob events ∧
      (system host (create options (.create limits queueOptions retentionMs))).Meets
        (ConflictsAnswered host) events := by
  have hstart : Keyed host (create options (.create limits queueOptions retentionMs) :
      ApiServer Report Fault) := keyed_create host options limits queueOptions retentionMs
  have hstep : ∀ (s : ApiServer Report Fault) e s', Keyed host s → s.LookupSettled host e →
      s.step host e = some s' → Keyed host s' := fun _ _ _ hk hcond hs => hk.step hcond hs
  have hkeyed : (system host (create options (.create limits queueOptions retentionMs))).AlwaysFrom
      (Keyed host) (create options (.create limits queueOptions retentionMs)) events :=
    System.always_of_invariant (fun _ hk => hk) hstep hstart hsettled
  constructor
  · exact System.always_of_invariant (fun _ hk => hk.oneJob) hstep hstart hsettled
  · have himp : ∀ (s : ApiServer Report Fault) e, Keyed host s → s.LookupSettled host e →
        s.ConflictsAnswered host e := fun _ _ hk hcond => hk.conflictsAnswered hcond
    exact hsettled.imp himp hkeyed

def plainServer : ApiServer Unit Unit :=
  create ⟨none, none, none⟩ (.create RecoveryGateway.plainLimits RecoveryGateway.plainQueue 1000)

def askFor (key : String) : ApiEvent Unit Unit := .request "alice" (some key) "2026-01-01" 0

def drawn (hex : String) : SubmitDraws := ⟨hex, 1, ⟨1, 1⟩, 1⟩

/-- The second request comes in when the first is done. -/
def oneAfterTheOther : List (ApiEvent Unit Unit) :=
  [askFor "k", .body 0 (plainBody 112 none) (drawn "1"), .resume 0, askFor "k",
    .body 1 (plainBody 113 none) (drawn "2")]

/-- Both requests look the key up before either job is recorded. -/
def bothAtOnce : List (ApiEvent Unit Unit) :=
  [askFor "k", askFor "k", .body 0 (plainBody 112 none) (drawn "1"),
    .body 1 (plainBody 112 none) (drawn "2"), .resume 0, .resume 1]

def responseOf (h : Handler Unit Unit) : Option String :=
  match h.phase with
  | .finished (.created job) => some job.jobId
  | _ => none

/-- Two jobs are made for one key and content, and both are answered. -/
theorem one_key_makes_two_jobs :
    ((system plainHost plainServer).run bothAtOnce).map (fun s => s.handlers.map responseOf) =
        some [some "job-1", some "job-2"] ∧
      ¬ (system plainHost plainServer).Always OneJob bothAtOnce := by
  refine ⟨rfl, fun h => ?_⟩
  obtain ⟨s, hs, hfirst, hsecond⟩ : ∃ s, (system plainHost plainServer).run bothAtOnce = some s ∧
      s.CreatedAt "alice:k" 0 ∧ s.CreatedAt "alice:k" 1 :=
    ⟨_, rfl, ⟨_, _, rfl, rfl, .inr ⟨_, rfl, rfl⟩⟩, ⟨_, _, rfl, rfl, .inr ⟨_, rfl, rfl⟩⟩⟩
  exact absurd ((h.last hs).once "alice:k" 0 1 hfirst hsecond) (by decide)

theorem lookupSettled_of_new {host : Host Report} {s : ApiServer Report Fault}
    (hnew : ∀ (j : ℕ) (h : Handler Report Fault), s.handlers[j]? = some h → h.submission = none)
    (i : ℕ) (outcome : Except ApiError SubmitBody) (draws : SubmitDraws) :
    s.LookupSettled host (.body i outcome draws) := by
  intro h sub key hget hreading hsub hkey
  constructor
  · intro _ j h' receipt hj hjkey
    simp [Handler.registryKey, hnew j h' hj] at hjkey
  · intro j h' sub' jobId hj _ hjsub
    simp [hnew j h' hj] at hjsub

theorem oneAfterTheOther_settled :
    (system plainHost plainServer).Meets (LookupSettled plainHost) oneAfterTheOther := by
  refine (System.meetsFrom_cons rfl).mpr ⟨trivial, ?_⟩
  refine (System.meetsFrom_cons rfl).mpr ⟨lookupSettled_of_new ?_ 0 _ _, ?_⟩
  · intro j h hj
    match j with
    | 0 =>
      cases hj
      rfl
    | j+1 => cases hj
  refine (System.meetsFrom_cons rfl).mpr ⟨trivial, ?_⟩
  refine (System.meetsFrom_cons rfl).mpr ⟨trivial, ?_⟩
  refine (System.meetsFrom_cons rfl).mpr ⟨?_, trivial⟩
  · intro h sub key hget hreading hsub hkey
    cases hget
    obtain ⟨body, hbody, hvalid⟩ := hsub
    cases hbody
    obtain rfl : (⟨"recovered.lua", [113], "q", some "k", ⟨none, none, false⟩⟩ : Submission) = sub :=
      Except.ok.inj hvalid
    obtain rfl : "alice:k" = key := Option.some.inj hkey
    constructor
    · intro hnone
      have hsome : some (⟨"job-1", "p"⟩ : Registered) = none := hnone
      cases hsome
    · intro j h' sub' jobId hj hjkey hjsub hcreated hdigest
      match j with
      | 0 =>
        cases hj
        cases hjsub
        exact absurd hdigest (by decide)
      | 1 =>
        cases hj
        cases hjsub
      | j+2 => cases hj

theorem oneAfterTheOther_keeps_key :
    (system plainHost plainServer).Always OneJob oneAfterTheOther ∧
      (system plainHost plainServer).Meets (ConflictsAnswered plainHost) oneAfterTheOther :=
  one_job_of_settled_lookups plainHost ⟨none, none, none⟩ RecoveryGateway.plainLimits
    RecoveryGateway.plainQueue 1000 oneAfterTheOther oneAfterTheOther_settled

end ApiServer
end
end LuaRecovery.Api
