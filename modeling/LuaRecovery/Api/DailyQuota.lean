import LuaRecovery.Api.HandlerSteps
import Mathlib.Logic.Function.Basic

/-!
# The daily quota

A handler reads the day's count before it waits for its body and writes one
more than it read when its job is taken. The count is right as long as no other
handler has written it in between, and the day is still the same when the
gateway takes the job.
-/

set_option autoImplicit false

namespace LuaRecovery.Api
open LuaRecovery.Lib LuaRecovery.Queue LuaRecovery.Gateway

section
variable {Report Fault : Type}

def Handler.accepted (h : Handler Report Fault) : Bool :=
  match h.phase with
  | .finished (.created _) => true
  | _ => false

theorem Handler.not_accepted (h : Handler Report Fault)
    (hphase : ∀ response, h.phase ≠ .finished response) : h.accepted = false := by
  unfold accepted
  split
  next heq => exact absurd heq (hphase _)
  next => rfl

/-- A server, with the day on which each handler read its body and handed it on to the gateway. -/
structure DatedServer (Report Fault : Type) where
  server : ApiServer Report Fault
  takenOn : ℕ → String

/-- An event, with the day on which it happens. -/
structure DatedEvent (Report Fault : Type) where
  day : String
  event : ApiEvent Report Fault

/-- A request draws the day on which it comes in. -/
def DatedEvent.drawn (e : DatedEvent Report Fault) : ApiEvent Report Fault :=
  match e.event with
  | .request principalId header _ now => .request principalId header e.day now
  | event => event

namespace ApiServer

def noteDay (takenOn : ℕ → String) (e : DatedEvent Report Fault) : ℕ → String :=
  match e.event with
  | .body i _ _ => Function.update takenOn i e.day
  | _ => takenOn

def datedStep (host : Host Report) (s : DatedServer Report Fault) (e : DatedEvent Report Fault) :
    Option (DatedServer Report Fault) :=
  (s.server.step host e.drawn).map fun server => ⟨server, noteDay s.takenOn e⟩

def dated (host : Host Report) (start : ApiServer Report Fault) :
    System (DatedServer Report Fault) (DatedEvent Report Fault) where
  start := ⟨start, fun _ => ""⟩
  step := datedStep host

/-- The principals and days of the accepted jobs, by the handlers. -/
def acceptedKeys (s : DatedServer Report Fault) : List (Option String) :=
  s.server.handlers.mapIdx fun i h =>
    if h.accepted then some (dayKey h.principalId (s.takenOn i)) else none

/-- The jobs accepted for a principal and day, by the day on which the gateway took them. -/
def accepted (s : DatedServer Report Fault) (todayKey : String) : ℕ :=
  (acceptedKeys s).count (some todayKey)

/-- The stored counts are the numbers of accepted jobs, and these keep within the limit. -/
def QuotaKept (s : DatedServer Report Fault) : Prop :=
  ∀ todayKey, s.server.dailyCount todayKey = accepted s todayKey ∧
    accepted s todayKey ≤ s.server.maxJobsPerDay

/-- Where a job is recorded, the stored count is still the one that its handler read, and the
gateway took the job on the day of that count. -/
def CountCurrent (s : DatedServer Report Fault) (e : DatedEvent Report Fault) : Prop :=
  match e.event with
  | .resume i => ∀ h receipt, s.server.handlers[i]? = some h →
      h.phase = .submitting (.ok receipt) →
        s.server.dailyCount h.todayKey = h.currentDailyCount ∧
          dayKey h.principalId (s.takenOn i) = h.todayKey
  | _ => True

/-- A handler that still waits found its quota open. -/
def Checked (s : ApiServer Report Fault) : Prop :=
  ∀ (i : ℕ) (h : Handler Report Fault), s.handlers[i]? = some h →
    (∀ response, h.phase ≠ .finished response) → h.currentDailyCount < s.maxJobsPerDay

section
variable {s s' : ApiServer Report Fault} {i : ℕ} {h h' : Handler Report Fault}

theorem getElem?_acceptedKeys (s : ApiServer Report Fault) (takenOn : ℕ → String) (j : ℕ) :
    (acceptedKeys ⟨s, takenOn⟩)[j]? = s.handlers[j]?.map fun h =>
      if h.accepted then some (dayKey h.principalId (takenOn j)) else none :=
  List.getElem?_mapIdx

/-- A handler that moves on without a job changes no count, whatever day is noted for it. -/
theorem acceptedKeys_set {takenOn takenOn' : ℕ → String} (hget : s.handlers[i]? = some h)
    (hwaits : h.accepted = false) (hnot : h'.accepted = false)
    (hhandlers : s'.handlers = s.handlers.set i h') (hdays : ∀ j ≠ i, takenOn' j = takenOn j) :
    acceptedKeys ⟨s', takenOn'⟩ = acceptedKeys ⟨s, takenOn⟩ := by
  ext1 j
  rw [getElem?_acceptedKeys, getElem?_acceptedKeys, hhandlers]
  by_cases hij : j = i
  · subst hij
    rw [List.getElem?_set_self (List.getElem?_eq_some_iff.mp hget).1, hget]
    simp [hwaits, hnot]
  · rw [List.getElem?_set_ne fun h => hij h.symm, hdays j hij]

theorem acceptedKeys_append {takenOn : ℕ → String} (hnot : h.accepted = false)
    (hhandlers : s'.handlers = s.handlers ++ [h]) :
    acceptedKeys ⟨s', takenOn⟩ = acceptedKeys ⟨s, takenOn⟩ ++ [none] := by
  simp [acceptedKeys, hhandlers, List.mapIdx_append, hnot]

/-- A job that is recorded counts for the day on which the gateway took it. -/
theorem acceptedKeys_record {takenOn : ℕ → String} {sub : Submission} {receipt : Receipt}
    (hget : s.handlers[i]? = some h) :
    acceptedKeys ⟨s.record i h sub receipt, takenOn⟩ =
      (acceptedKeys ⟨s, takenOn⟩).set i (some (dayKey h.principalId (takenOn i))) := by
  have hlt := (List.getElem?_eq_some_iff.mp hget).1
  ext1 j
  rw [getElem?_acceptedKeys, record, List.getElem?_set, List.getElem?_set,
    getElem?_acceptedKeys, acceptedKeys, List.length_mapIdx]
  by_cases hij : i = j
  · subst hij
    simp [hlt, Handler.finish, Handler.accepted]
  · simp [hij]

theorem accepted_record {takenOn : ℕ → String} {sub : Submission} {receipt : Receipt}
    (hget : s.handlers[i]? = some h) (hwaits : h.accepted = false) (todayKey : String) :
    accepted ⟨s.record i h sub receipt, takenOn⟩ todayKey = accepted ⟨s, takenOn⟩ todayKey +
      if dayKey h.principalId (takenOn i) = todayKey then 1 else 0 := by
  have hkey : (acceptedKeys ⟨s, takenOn⟩)[i]? = some none := by
    rw [getElem?_acceptedKeys, hget, Option.map_some, hwaits]
    rfl
  obtain ⟨hlt, hkey⟩ := List.getElem?_eq_some_iff.mp hkey
  rw [accepted, acceptedKeys_record hget, List.count_set hlt, hkey]
  simp [accepted]

theorem dailyCount_record {sub : Submission} {receipt : Receipt} (todayKey : String) :
    (s.record i h sub receipt).dailyCount todayKey =
      if todayKey = h.todayKey then h.currentDailyCount+1 else s.dailyCount todayKey := by
  simp only [record, dailyCount, InsertionMap.get_set]
  split
  · rfl
  · rfl

/-- States with the same counts and the same accepted jobs keep the quota alike. -/
theorem QuotaKept.of_same {s s' : DatedServer Report Fault} (hkept : QuotaKept s)
    (hcounts : s'.server.dailyJobCounts = s.server.dailyJobCounts)
    (hmax : s'.server.maxJobsPerDay = s.server.maxJobsPerDay)
    (haccepted : ∀ todayKey, accepted s' todayKey = accepted s todayKey) : QuotaKept s' := by
  intro todayKey
  rw [haccepted, dailyCount, hcounts, hmax]
  exact hkept todayKey

theorem quotaKept_record {takenOn : ℕ → String} {sub : Submission} {receipt : Receipt}
    (hkept : QuotaKept ⟨s, takenOn⟩) (hget : s.handlers[i]? = some h)
    (hwaits : h.accepted = false) (hopen : h.currentDailyCount < s.maxJobsPerDay) :
    QuotaKept ⟨s.record i h sub receipt, takenOn⟩ ↔
      s.dailyCount h.todayKey = h.currentDailyCount ∧
        dayKey h.principalId (takenOn i) = h.todayKey := by
  constructor
  · intro hrecorded
    have hday : dayKey h.principalId (takenOn i) = h.todayKey := by
      -- the key of the day on which the job was taken, were it not the one that is written
      by_contra hne
      have hstored := (hrecorded (dayKey h.principalId (takenOn i))).1
      rw [dailyCount_record, accepted_record hget hwaits, if_neg hne, if_pos rfl] at hstored
      have hbefore := (hkept (dayKey h.principalId (takenOn i))).1
      dsimp only at hbefore
      omega
    have hstored := (hrecorded h.todayKey).1
    rw [dailyCount_record, accepted_record hget hwaits, if_pos rfl, if_pos hday] at hstored
    have hbefore := (hkept h.todayKey).1
    dsimp only at hbefore
    exact ⟨by omega, hday⟩
  · rintro ⟨hcurrent, hday⟩ todayKey
    obtain ⟨hstored, hbound⟩ := hkept todayKey
    dsimp only at hstored hbound
    rw [dailyCount_record, accepted_record hget hwaits, hday]
    show _ ∧ _ ≤ s.maxJobsPerDay
    by_cases hkey : todayKey = h.todayKey
    · subst hkey
      rw [if_pos rfl, if_pos rfl]
      omega
    · rw [if_neg hkey, if_neg fun h => hkey h.symm]
      exact ⟨hstored, hbound⟩

theorem Reads.not_accepted {host : Host Report} {outcome : Except ApiError SubmitBody}
    {draws : SubmitDraws} {g : RecoveryGateway Report Fault}
    (hreads : Reads host s h outcome draws g h') : h'.accepted = false := by
  cases hreads <;> rfl

theorem Reads.currentDailyCount {host : Host Report} {outcome : Except ApiError SubmitBody}
    {draws : SubmitDraws} {g : RecoveryGateway Report Fault}
    (hreads : Reads host s h outcome draws g h') :
    h'.currentDailyCount = h.currentDailyCount := by
  cases hreads <;> rfl

theorem submitError_refused (error : GatewayError) :
    ∃ apiError retryAfter, submitError error = .refused apiError retryAfter := by
  unfold submitError
  split
  · exact ⟨_, _, rfl⟩
  · split
    · exact ⟨_, _, rfl⟩
    · split
      · exact ⟨_, _, rfl⟩
      · exact ⟨_, _, rfl⟩

theorem step_quotaKept_iff {host : Host Report} {takenOn : ℕ → String}
    {e : DatedEvent Report Fault} (hchecked : Checked s) (hkept : QuotaKept ⟨s, takenOn⟩)
    (hs : s.step host e.drawn = some s') :
    QuotaKept ⟨s', noteDay takenOn e⟩ ↔ CountCurrent ⟨s, takenOn⟩ e := by
  obtain ⟨day, event⟩ := e
  cases event with
  | request principalId header drawn now =>
    cases moves_of_step hs with
    | received _ _ _ _ h g hqueue hsub hphase =>
      have hnot : h.accepted = false := by
        rcases hphase with ⟨hphase, -⟩ | ⟨error, retryAfter, hphase⟩ <;>
          simp [Handler.accepted, hphase]
      refine iff_of_true (hkept.of_same rfl rfl fun todayKey => ?_) trivial
      show (acceptedKeys ⟨_, takenOn⟩).count _ = _
      rw [acceptedKeys_append hnot rfl]
      simp [accepted]
  | body i outcome draws =>
    cases moves_of_step hs with
    | read _ _ _ h h' g hget hphase hreads =>
      have hwaits := h.not_accepted (by simp [hphase])
      refine iff_of_true (hkept.of_same rfl rfl fun todayKey => ?_) trivial
      have hhandlers : ({ s with gateway := g, handlers := s.handlers.set i h' } :
          ApiServer Report Fault).handlers = s.handlers.set i h' := rfl
      have hsame := acceptedKeys_set hget hwaits hreads.not_accepted hhandlers
        fun j hij => Function.update_of_ne hij day takenOn
      exact congrArg (List.count (some todayKey)) hsame
  | resume i =>
    have hsame : ∀ (h h' : Handler Report Fault), s.handlers[i]? = some h →
        h.accepted = false → h'.accepted = false →
        QuotaKept ⟨{ s with handlers := s.handlers.set i h' }, takenOn⟩ :=
      fun h h' hget hwaits hnot => hkept.of_same rfl rfl fun todayKey =>
        congrArg (List.count (some todayKey))
          (acceptedKeys_set hget hwaits hnot rfl fun _ _ => rfl)
    cases moves_of_step hs with
    | replayed _ h answer hget hphase =>
      have hwaits := h.not_accepted (by simp [hphase])
      have hnot : (h.finish (s.onReplay answer)).accepted = false := by
        cases answer <;> rfl
      refine iff_of_true (hsame h _ hget hwaits hnot) ?_
      intro h' receipt hget' hphase'
      obtain rfl : h = h' := Option.some.inj (hget.symm.trans hget')
      rw [hphase] at hphase'
      cases hphase'
    | refused _ h error hget hphase =>
      have hwaits := h.not_accepted (by simp [hphase])
      have hnot : (h.finish (submitError error)).accepted = false := by
        obtain ⟨apiError, retryAfter, heq⟩ := submitError_refused error
        rw [heq]
        rfl
      refine iff_of_true (hsame h _ hget hwaits hnot) ?_
      intro h' receipt hget' hphase'
      obtain rfl : h = h' := Option.some.inj (hget.symm.trans hget')
      rw [hphase] at hphase'
      cases hphase'
    | recorded _ h sub receipt hget hphase hsub =>
      have hwaits : ∀ response, h.phase ≠ .finished response := by simp [hphase]
      have hiff := @quotaKept_record _ _ _ _ _ _ sub receipt hkept hget
        (h.not_accepted hwaits) (hchecked i h hget hwaits)
      refine hiff.trans ⟨fun hcurrent h' receipt' hget' hphase' => ?_, fun hcurrent => ?_⟩
      · obtain rfl : h = h' := Option.some.inj (hget.symm.trans hget')
        exact hcurrent
      · exact hcurrent h receipt hget hphase
  | gateway event =>
    cases moves_of_step hs with
    | gateway event => exact iff_of_true (hkept.of_same rfl rfl fun _ => rfl) trivial

theorem checked_set {h' : Handler Report Fault} (hchecked : Checked s)
    (hmax : s'.maxJobsPerDay = s.maxJobsPerDay) (hhandlers : s'.handlers = s.handlers.set i h')
    (hself : (∀ response, h'.phase ≠ .finished response) →
      h'.currentDailyCount < s.maxJobsPerDay) : Checked s' := by
  intro j k hget hwaits
  rw [hhandlers, List.getElem?_set] at hget
  rw [hmax]
  split at hget
  next =>
    split at hget
    next =>
      obtain rfl := Option.some.inj hget
      exact hself hwaits
    next => cases hget
  next => exact hchecked j k hget hwaits

theorem step_checked {host : Host Report} {e : ApiEvent Report Fault} (hchecked : Checked s)
    (hs : s.step host e = some s') : Checked s' := by
  cases moves_of_step hs with
  | received principalId header day now h g hqueue hsub hphase =>
    intro j k hget hwaits
    rw [List.getElem?_append] at hget
    split at hget
    next => exact hchecked j k hget hwaits
    next =>
      obtain rfl : k = h := by
        have hmem := List.mem_of_getElem? hget
        simpa using hmem
      rcases hphase with ⟨-, hopen⟩ | ⟨error, retryAfter, hphase⟩
      · exact hopen
      · exact absurd hphase (hwaits _)
  | read i outcome draws h h' g hget hphase hreads =>
    refine checked_set hchecked rfl rfl fun _ => ?_
    rw [hreads.currentDailyCount]
    exact hchecked i h hget (by simp [hphase])
  | replayed i h answer hget hphase =>
    exact checked_set hchecked rfl rfl fun hwaits => absurd rfl (hwaits _)
  | refused i h error hget hphase =>
    exact checked_set hchecked rfl rfl fun hwaits => absurd rfl (hwaits _)
  | recorded i h sub receipt hget hphase hsub =>
    exact checked_set hchecked rfl rfl fun hwaits => absurd rfl (hwaits _)
  | gateway event => exact hchecked

end

/-- In every state of a run the stored counts are those of the accepted jobs and within the limit,
exactly when each job is recorded over the count that its handler read, for the day on which the
gateway took it. -/
theorem daily_quota_iff (host : Host Report) (options : ApiOptions)
    (gateway : RecoveryGateway Report Fault) (events : List (DatedEvent Report Fault)) :
    (dated host (create options gateway)).Always QuotaKept events ↔
      (dated host (create options gateway)).Meets CountCurrent events := by
  have hchecked : (dated host (create options gateway)).AlwaysFrom (fun s => Checked s.server)
      ⟨create options gateway, fun _ => ""⟩ events := by
    refine System.always_of_kept ?_ events ?_
    · intro s e s' hchecked hs
      obtain ⟨server, hserver, rfl⟩ := Option.map_eq_some_iff.mp hs
      exact step_checked hchecked hserver
    · intro i h hget
      simp [create] at hget
  have hstart : QuotaKept (⟨create options gateway, fun _ => ""⟩ : DatedServer Report Fault) :=
    fun todayKey => ⟨rfl, Nat.zero_le _⟩
  refine System.always_iff_meets_of ?_ hchecked hstart
  intro s e s' hchecked hkept hs
  obtain ⟨server, hserver, rfl⟩ := Option.map_eq_some_iff.mp hs
  exact step_quotaKept_iff hchecked hkept hserver

def plainHost : Host Unit where
  sha256 source := asciiText source
  stringify _ := []

def oneJobADay : ApiServer Unit Unit :=
  create ⟨none, none, some 1⟩ (.create RecoveryGateway.plainLimits RecoveryGateway.plainQueue 1000)

def plainBody (source : ℕ) (key : Option String) : Except ApiError SubmitBody :=
  .ok ⟨none, some [source], key, ⟨none, none, false⟩⟩

/-- Both handlers read the count before either of them records its job. -/
def twoAtOnce : List (DatedEvent Unit Unit) :=
  [.request "alice" none "" 0, .request "alice" none "" 0,
    .body 0 (plainBody 112 none) ⟨"1", 1, ⟨1, 1⟩, 1⟩,
    .body 1 (plainBody 113 none) ⟨"2", 1, ⟨1, 1⟩, 1⟩, .resume 0, .resume 1].map
      (DatedEvent.mk "2026-01-01")

/-- The first request comes in just before midnight, its body and the second request after it. -/
def aroundMidnight : List (DatedEvent Unit Unit) :=
  ⟨"2026-01-01", .request "alice" none "" 0⟩ ::
    [.request "alice" none "" 1, .body 0 (plainBody 112 none) ⟨"1", 1, ⟨1, 1⟩, 1⟩,
      .body 1 (plainBody 113 none) ⟨"2", 1, ⟨1, 1⟩, 1⟩, .resume 0, .resume 1].map
        (DatedEvent.mk "2026-01-02")

/-- Two jobs are accepted on a day where one is allowed, and one of them is counted. -/
theorem quota_exceeded :
    ((dated plainHost oneJobADay).run twoAtOnce).map (fun s =>
        (accepted s "alice:2026-01-01", s.server.dailyCount "alice:2026-01-01")) = some (2, 1) ∧
      ((dated plainHost oneJobADay).run aroundMidnight).map (fun s =>
        (accepted s "alice:2026-01-02", s.server.dailyCount "alice:2026-01-02")) = some (2, 1) ∧
      ¬ (dated plainHost oneJobADay).Always QuotaKept twoAtOnce ∧
      ¬ (dated plainHost oneJobADay).Always QuotaKept aroundMidnight := by
  have hexceeded : ∀ events todayKey,
      ((dated plainHost oneJobADay).run events).map (fun s =>
        (accepted s todayKey, s.server.maxJobsPerDay)) = some (2, 1) →
      ¬ (dated plainHost oneJobADay).Always QuotaKept events := by
    intro events todayKey hrun hkept
    obtain ⟨s, hs, hcounts⟩ := Option.map_eq_some_iff.mp hrun
    have hbound := (hkept.last hs todayKey).2
    simp only [Prod.mk.injEq] at hcounts
    omega
  exact ⟨rfl, rfl, hexceeded _ "alice:2026-01-01" rfl, hexceeded _ "alice:2026-01-02" rfl⟩

end ApiServer
end
end LuaRecovery.Api
