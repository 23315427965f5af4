import LuaRecovery.Api.DailyQuota
import LuaRecovery.Gateway.AdmissionLog

/-!
# What a submission costs

The server asks the limiter when a request comes in, and the gateway asks it once
more when the request is handed on. Each request has an account of what it has
taken of its principal's window, and of what the second check made of it.
-/

set_option autoImplicit false

namespace LuaRecovery.Api
open LuaRecovery.Lib LuaRecovery.Queue LuaRecovery.Gateway

section
variable {Report Fault : Type}

/-- Whether a request has passed the check at the boundary, the entries that it has taken, whether
the gateway's check has refused it, and whether the options of its body have decided that. -/
structure Account where
  passed : Bool
  spent : ℕ
  limited : Bool
  swayed : Bool

structure Metered (Report Fault : Type) where
  server : ApiServer Report Fault
  accounts : List Account

/-- The gateway's check has refused the submission. -/
def Phase.limited : Phase Report Fault → Bool
  | .submitting (.error error) => error.code = some "RATE_LIMIT_EXCEEDED"
  | _ => false

def Submission.marked (skip : Bool) (sub : Submission) : Submission :=
  { sub with options := { sub.options with skipRateCheck := skip } }

/-- The same body, with the mark that skips the gateway's check or without it. -/
def marked (skip : Bool) (outcome : Except ApiError SubmitBody) : Except ApiError SubmitBody :=
  outcome.map fun body => { body with options := { body.options with skipRateCheck := skip } }

/-- The entries that are new in the principal's window. -/
def entriesTaken (l l' : RateLimiter) (principalId : String) (now : ℤ) : ℕ :=
  (l'.recent (RateLimiter.limitKey principalId "submit") now).length -
    (l.recent (RateLimiter.limitKey principalId "submit") now).length

/-- One of the two windows of the limiter is full. -/
def LimiterFull (l : RateLimiter) (principalId : String) (now : ℤ) : Prop :=
  l.burstLimit ≤
      (inWindow 1000 now (l.recent (RateLimiter.limitKey principalId "submit") now)).length ∨
    l.maxRequests ≤ (l.recent (RateLimiter.limitKey principalId "submit") now).length

/-- The submission that the handler hands on to the gateway. -/
def handedOn (host : Host Report) (s : ApiServer Report Fault) (h : Handler Report Fault)
    (outcome : Except ApiError SubmitBody) : Option Submission :=
  match outcome with
  | .error _ => none
  | .ok body =>
    match s.validate host h.header body with
    | .error _ => none
    | .ok sub =>
      match s.registered { h with submission := some sub } with
      | some _ => none
      | none => if s.maxConcurrentJobs ≤ s.activeJobsCount then none else some sub

/-- The account of a request whose body is read. -/
def ApiServer.accountRead (host : Host Report) (s server : ApiServer Report Fault)
    (h : Handler Report Fault) (outcome : Except ApiError SubmitBody) (draws : SubmitDraws)
    (a : Account) : Account where
  passed := a.passed
  spent := a.spent + entriesTaken s.gateway.rateLimiter server.gateway.rateLimiter h.principalId
    draws.now
  limited := (s.onBody host h outcome draws).2.phase.limited
  swayed := (s.onBody host h (marked true outcome) draws).2.phase.limited !=
    (s.onBody host h (marked false outcome) draws).2.phase.limited

namespace Metered

def account (host : Host Report) (m : Metered Report Fault) (server : ApiServer Report Fault) :
    ApiEvent Report Fault → List Account
  | .request principalId _ _ now => m.accounts ++
      [⟨(m.server.gateway.rateLimiter.checkLimit principalId "submit" now).2.allowed,
        entriesTaken m.server.gateway.rateLimiter server.gateway.rateLimiter principalId now,
        false, false⟩]
  | .body i outcome draws =>
      match m.server.handlers[i]? with
      | some h => m.accounts.modify i (m.server.accountRead host server h outcome draws)
      | none => m.accounts
  | _ => m.accounts

def step (host : Host Report) (m : Metered Report Fault) (e : ApiEvent Report Fault) :
    Option (Metered Report Fault) :=
  (m.server.step host e).map fun server => ⟨server, m.account host server e⟩

def system (host : Host Report) (start : ApiServer Report Fault) :
    System (Metered Report Fault) (ApiEvent Report Fault) where
  start := ⟨start, []⟩
  step := step host

/-- A request that passes has taken one entry, is not refused by another check, and would have been
let pass with any options; one that does not pass has taken none and is refused, whatever its body
says. -/
structure OneSlot (m : Metered Report Fault) : Prop where
  passed : ∀ (i : ℕ) (a : Account), m.accounts[i]? = some a → a.passed = true →
    a.spent = 1 ∧ a.limited = false ∧ a.swayed = false
  turnedAway : ∀ (i : ℕ) (h : Handler Report Fault) (a : Account), m.server.handlers[i]? = some h →
    m.accounts[i]? = some a → a.passed = false →
      a.spent = 0 ∧ ∃ error retryAfter, h.phase = .finished (.refused error retryAfter)

/-- What is handed on to the gateway carries the mark that skips its check, and finds room in both
windows of the limiter. -/
def HandedOnFree (host : Host Report) (m : Metered Report Fault) : ApiEvent Report Fault → Prop
  | .body i outcome draws => ∀ h sub, m.server.handlers[i]? = some h → h.phase = .reading →
      handedOn host m.server h outcome = some sub →
        h.principalId = "" ∨ sub.options.skipRateCheck = true ∧
          ¬ LimiterFull m.server.gateway.rateLimiter h.principalId draws.now
  | _ => True

/-- Each request has its account, and the windows of the limiter are not empty. -/
structure Aligned (m : Metered Report Fault) : Prop where
  length : m.accounts.length = m.server.handlers.length
  windowMs : 0 < m.server.gateway.rateLimiter.windowMs

end Metered

theorem limiterFull_iff (l : RateLimiter) (principalId : String) (now : ℤ) :
    LimiterFull l principalId now ↔
      (l.checkLimit principalId "submit" now).2.allowed = false := by
  rw [RateLimiter.checkLimit_snd, RateLimiter.verdict, LimiterFull]
  split
  next hburst => simp [hburst]
  next hburst =>
    split
    next hfull => simp [hfull]
    next hroom => simp [hburst, hroom]

/-- A check takes one entry where it lets the call pass. -/
theorem entriesTaken_checkLimit {l : RateLimiter} (hwindow : 0 < l.windowMs)
    (principalId : String) (now : ℤ) :
    entriesTaken l (l.checkLimit principalId "submit" now).1 principalId now =
      if (l.checkLimit principalId "submit" now).2.allowed then 1 else 0 := by
  have hrecent : (l.checkLimit principalId "submit" now).1.recent
      (RateLimiter.limitKey principalId "submit") now =
        l.recent (RateLimiter.limitKey principalId "submit") now ++
          if (l.checkLimit principalId "submit" now).2.allowed then [now] else [] := by
    have hstored := RateLimiter.requestTimestamps_next l ⟨principalId, "submit", now⟩
    have hlimits := RateLimiter.sameLimits_next l ⟨principalId, "submit", now⟩
    rw [RateLimiter.next] at hstored hlimits
    rw [RateLimiter.recent, hstored, InsertionMap.get_set, if_pos rfl, Option.getD_some,
      hlimits.windowMs, List.filter_append]
    congr 1
    · rw [RateLimiter.recent, List.filter_filter]
      simp only [Bool.and_self]
    · rw [RateLimiter.answer]
      split
      · exact List.filter_singleton.trans (by simp [hwindow])
      · rfl
  rw [entriesTaken, hrecent, List.length_append]
  split
  · rw [List.length_singleton]
    omega
  · rw [List.length_nil]
    omega

theorem entriesTaken_self (l : RateLimiter) (principalId : String) (now : ℤ) :
    entriesTaken l l principalId now = 0 := Nat.sub_self _

theorem validate_source {host : Host Report} {s : ApiServer Report Fault} {header : Option String}
    {body : SubmitBody} {sub : Submission} (h : s.validate host header body = .ok sub) :
    sub.source ≠ [] := by
  rw [ApiServer.validate] at h
  split at h
  · cases h
  · split at h
    · cases h
    next source hsource =>
      split at h
      · cases h
      · split at h
        · cases h
        · cases h
          simpa using (Option.filter_eq_some_iff.mp hsource).2

/-- A submission takes an entry where the gateway asks the limiter and is let pass. -/
theorem entriesTaken_admission {l : RateLimiter} (hwindow : 0 < l.windowMs) (principalId : String)
    {sub : Submission} (hsource : sub.source ≠ []) (draws : SubmitDraws) :
    entriesTaken l (RecoveryGateway.admission l ⟨jobRequest principalId sub, draws⟩).1 principalId
        draws.now = 0 ↔
      principalId = "" ∨ sub.options.skipRateCheck = true ∨
        LimiterFull l principalId draws.now := by
  have hkeep : Option.filter (· ≠ []) (some sub.source) = some sub.source :=
    Option.filter_eq_some_iff.mpr ⟨rfl, decide_eq_true hsource⟩
  by_cases hname : principalId = ""
  · have hpass : RecoveryGateway.admission l ⟨jobRequest principalId sub, draws⟩ = (l, none) := by
      simp [RecoveryGateway.admission, jobRequest, hname]
    rw [hpass, entriesTaken_self]
    simp [hname]
  · have hnamed : Option.filter (· ≠ "") (some principalId) = some principalId :=
      Option.filter_eq_some_iff.mpr ⟨rfl, decide_eq_true hname⟩
    by_cases hskip : sub.options.skipRateCheck = true
    · have hpass : RecoveryGateway.admission l ⟨jobRequest principalId sub, draws⟩ =
          (l, some principalId) := by
        simp only [RecoveryGateway.admission, jobRequest, hnamed, hkeep]
        exact if_pos hskip
      rw [hpass, entriesTaken_self]
      simp [hskip]
    · have hpass : (RecoveryGateway.admission l ⟨jobRequest principalId sub, draws⟩).1 =
          (l.checkLimit principalId "submit" draws.now).1 := by
        simp only [RecoveryGateway.admission, jobRequest, hnamed, hkeep]
        exact congrArg Prod.fst (if_neg hskip)
      rw [hpass, entriesTaken_checkLimit hwindow, limiterFull_iff]
      simp [hname, hskip]

theorem onBody_limiter (host : Host Report) (s : ApiServer Report Fault)
    (h : Handler Report Fault) (outcome : Except ApiError SubmitBody) (draws : SubmitDraws) :
    (s.onBody host h outcome draws).1.rateLimiter =
      match handedOn host s h outcome with
      | none => s.gateway.rateLimiter
      | some sub => (RecoveryGateway.admission s.gateway.rateLimiter
          ⟨jobRequest h.principalId sub, draws⟩).1 := by
  cases outcome with
  | error error => rfl
  | ok body =>
    rw [ApiServer.onBody, handedOn]
    cases hvalid : s.validate host h.header body with
    | error error => rfl
    | ok sub =>
      dsimp only [ApiServer.proceed]
      cases s.registered { h with submission := some sub } with
      | some existing =>
        dsimp only
        split <;> rfl
      | none =>
        dsimp only
        split
        · rfl
        · exact (RecoveryGateway.submit_submits s.gateway
            ⟨jobRequest h.principalId sub, draws⟩).2

theorem handedOn_source {host : Host Report} {s : ApiServer Report Fault}
    {h : Handler Report Fault} {outcome : Except ApiError SubmitBody} {sub : Submission}
    (hsub : handedOn host s h outcome = some sub) : sub.source ≠ [] := by
  cases outcome with
  | error error => cases hsub
  | ok body =>
    rw [handedOn] at hsub
    split at hsub
    · cases hsub
    next valid hvalid =>
      split at hsub
      · cases hsub
      · split at hsub
        · cases hsub
        · cases hsub
          exact validate_source hvalid

theorem limited_enqueueJob (g : RecoveryGateway Report Fault) (request : JobRequest)
    (principalId : String) (source : CodeUnits) (draws : SubmitDraws) :
    (Phase.submitting (g.enqueueJob request principalId source draws).2 :
      Phase Report Fault).limited = false := by
  simp only [RecoveryGateway.enqueueJob, InMemoryJobQueue.enqueue]
  split
  next heq =>
    split at heq
    · cases heq
    · split at heq
      · cases heq
        rfl
      · cases heq
  next => rfl
  next => rfl

/-- The gateway's check refuses what carries no mark where a window is full. -/
theorem limited_submit (g : RecoveryGateway Report Fault) (principalId : String) {sub : Submission}
    (hsource : sub.source ≠ []) (draws : SubmitDraws) :
    (Phase.submitting (g.submitJobSync (jobRequest principalId sub) draws).2 :
        Phase Report Fault).limited = true ↔
      principalId ≠ "" ∧ sub.options.skipRateCheck = false ∧
        LimiterFull g.rateLimiter principalId draws.now := by
  have hkeep : Option.filter (· ≠ []) (some sub.source) = some sub.source :=
    Option.filter_eq_some_iff.mpr ⟨rfl, decide_eq_true hsource⟩
  by_cases hname : principalId = ""
  · have hnone : Option.filter (· ≠ "") (some principalId) = none := by simp [hname]
    have hanswer : g.submitJobSync (jobRequest principalId sub) draws =
        (g, .error ⟨none, "principalId is required", none⟩) := by
      simp only [RecoveryGateway.submitJobSync, jobRequest, hnone]
    rw [hanswer]
    simp [Phase.limited, hname]
  · have hnamed : Option.filter (· ≠ "") (some principalId) = some principalId :=
      Option.filter_eq_some_iff.mpr ⟨rfl, decide_eq_true hname⟩
    let check := g.rateLimiter.checkLimit principalId "submit" draws.now
    have hanswer : g.submitJobSync (jobRequest principalId sub) draws =
        if sub.options.skipRateCheck = true then
          g.enqueueJob (jobRequest principalId sub) principalId sub.source draws
        else if check.2.allowed = true then
          { g with rateLimiter := check.1 }.enqueueJob (jobRequest principalId sub) principalId
            sub.source draws
        else ({ g with rateLimiter := check.1 }, .error (rateLimited check.2)) := by
      simp only [RecoveryGateway.submitJobSync, jobRequest, hnamed, hkeep, check]
      rfl
    rw [limiterFull_iff, hanswer]
    by_cases hskip : sub.options.skipRateCheck = true
    · rw [if_pos hskip, limited_enqueueJob]
      simp [hskip]
    · rw [if_neg hskip]
      by_cases hpass : check.2.allowed = true
      · rw [if_pos hpass, limited_enqueueJob]
        simp [show (g.rateLimiter.checkLimit principalId "submit" draws.now).2.allowed = true from
          hpass]
      · rw [if_neg hpass]
        simp [Phase.limited, rateLimited, hname, hskip, Bool.eq_false_iff.mpr hpass, check]

theorem limited_onBody (host : Host Report) (s : ApiServer Report Fault)
    (h : Handler Report Fault) (outcome : Except ApiError SubmitBody) (draws : SubmitDraws) :
    (s.onBody host h outcome draws).2.phase.limited = true ↔
      ∃ sub, handedOn host s h outcome = some sub ∧ h.principalId ≠ "" ∧
        sub.options.skipRateCheck = false ∧
          LimiterFull s.gateway.rateLimiter h.principalId draws.now := by
  cases outcome with
  | error error => simp [ApiServer.onBody, handedOn, Handler.finish, Phase.limited]
  | ok body =>
    rw [ApiServer.onBody, handedOn]
    cases hvalid : s.validate host h.header body with
    | error error => simp [Handler.finish, Phase.limited]
    | ok sub =>
      dsimp only [ApiServer.proceed]
      cases s.registered { h with submission := some sub } with
      | some existing =>
        dsimp only
        split <;> simp [Handler.finish, Phase.limited]
      | none =>
        dsimp only
        split
        · simp [Handler.finish, Phase.limited]
        · simpa using limited_submit s.gateway h.principalId (validate_source hvalid) draws

theorem validate_marked (host : Host Report) (s : ApiServer Report Fault) (header : Option String)
    (body : SubmitBody) (skip : Bool) :
    s.validate host header { body with options := { body.options with skipRateCheck := skip } } =
      (s.validate host header body).map (Submission.marked skip) := by
  simp only [ApiServer.validate]
  cases sanitizeFilename body.filename with
  | error error => rfl
  | ok filename =>
    cases body.source.filter (fun source => source ≠ []) with
    | none => rfl
    | some source =>
      dsimp only
      by_cases hnul : 0 ∈ source
      · rw [if_pos hnul, if_pos hnul]
        rfl
      · rw [if_neg hnul, if_neg hnul]
        by_cases hlarge : s.maxSourceBytes < byteLength source
        · rw [if_pos hlarge, if_pos hlarge]
          rfl
        · rw [if_neg hlarge, if_neg hlarge]
          rfl

/-- The mark of a body changes nothing of what is handed on but the mark. -/
theorem handedOn_marked (host : Host Report) (s : ApiServer Report Fault)
    (h : Handler Report Fault) (outcome : Except ApiError SubmitBody) (skip : Bool) :
    handedOn host s h (marked skip outcome) =
      (handedOn host s h outcome).map (Submission.marked skip) := by
  cases outcome with
  | error error => rfl
  | ok body =>
    simp only [marked, Except.map, handedOn, validate_marked]
    cases s.validate host h.header body with
    | error error => rfl
    | ok sub =>
      have hsame : s.registered { h with submission := some (sub.marked skip) } =
          s.registered { h with submission := some sub } := rfl
      simp only [hsame]
      cases s.registered { h with submission := some sub } with
      | some existing => rfl
      | none =>
        dsimp only
        split <;> rfl

/-- The reading of a body takes nothing exactly where what is handed on takes nothing. -/
theorem entriesTaken_onBody {host : Host Report} {s : ApiServer Report Fault}
    (hwindow : 0 < s.gateway.rateLimiter.windowMs) (h : Handler Report Fault)
    (outcome : Except ApiError SubmitBody) (draws : SubmitDraws) :
    entriesTaken s.gateway.rateLimiter (s.onBody host h outcome draws).1.rateLimiter h.principalId
        draws.now = 0 ↔
      ∀ sub, handedOn host s h outcome = some sub →
        h.principalId = "" ∨ sub.options.skipRateCheck = true ∨
          LimiterFull s.gateway.rateLimiter h.principalId draws.now := by
  rw [onBody_limiter]
  cases hsub : handedOn host s h outcome with
  | none => simp [entriesTaken_self]
  | some sub =>
    dsimp only
    rw [entriesTaken_admission hwindow h.principalId (handedOn_source hsub) draws]
    simp

/-- The reading of a body takes nothing, passes the gateway's check and owes that to no option
exactly where what is handed on is marked and finds room. -/
theorem free_iff {host : Host Report} {s : ApiServer Report Fault}
    (hwindow : 0 < s.gateway.rateLimiter.windowMs) (h : Handler Report Fault)
    (outcome : Except ApiError SubmitBody) (draws : SubmitDraws) :
    (entriesTaken s.gateway.rateLimiter (s.onBody host h outcome draws).1.rateLimiter h.principalId
          draws.now = 0 ∧
        (s.onBody host h outcome draws).2.phase.limited = false ∧
        (s.onBody host h (marked true outcome) draws).2.phase.limited =
          (s.onBody host h (marked false outcome) draws).2.phase.limited) ↔
      ∀ sub, handedOn host s h outcome = some sub →
        h.principalId = "" ∨ sub.options.skipRateCheck = true ∧
          ¬ LimiterFull s.gateway.rateLimiter h.principalId draws.now := by
  have hlimited := limited_onBody host s h outcome draws
  have hon := limited_onBody host s h (marked true outcome) draws
  have hoff := limited_onBody host s h (marked false outcome) draws
  rw [handedOn_marked] at hon hoff
  rw [entriesTaken_onBody hwindow, Bool.eq_false_iff, Ne, hlimited, Bool.eq_iff_iff, hon, hoff]
  cases handedOn host s h outcome with
  | none => simp
  | some sub =>
    by_cases hname : h.principalId = "" <;> cases hskip : sub.options.skipRateCheck <;>
      by_cases hfull : LimiterFull s.gateway.rateLimiter h.principalId draws.now <;>
        simp [hname, hskip, hfull, Submission.marked]

section Limits
open RateLimiter RecoveryGateway

theorem admission_sameLimits (l : RateLimiter) (c : SubmitCall) :
    SameLimits l (admission l c).1 := by
  rw [admission]
  split
  · split
    · exact .refl l
    · exact sameLimits_next l ⟨_, "submit", c.draws.now⟩
  · exact .refl l

theorem acquireConcurrency_sameLimits (l : RateLimiter) (principalId : String) :
    SameLimits l (l.acquireConcurrency principalId).1 := by
  rw [acquireConcurrency]
  split <;> exact ⟨rfl, rfl, rfl⟩

theorem releaseConcurrency_sameLimits (l : RateLimiter) (principalId : String) :
    SameLimits l (l.releaseConcurrency principalId) := by
  rw [releaseConcurrency]
  split <;> exact ⟨rfl, rfl, rfl⟩

theorem poll_sameLimits (stringify : Report → CodeUnits) (g : RecoveryGateway Report Fault)
    (p : Poll Report Fault) : SameLimits g.rateLimiter (g.poll stringify p).rateLimiter := by
  rw [poll, processNextJobSync]
  split
  · exact .refl g.rateLimiter
  next q job token expiresAt hq =>
    have hacquired := acquireConcurrency_sameLimits g.rateLimiter job.principalId
    dsimp only
    split
    · apply SameLimits.trans _ (releaseConcurrency_sameLimits _ job.principalId)
      rw [(runJob_effect stringify _ job token p.draws.clock (p.runner job.payload)).2.1]
      exact hacquired
    · exact hacquired

theorem handle_sameLimits (stringify : Report → CodeUnits) (g : RecoveryGateway Report Fault)
    (e : GatewayEvent Report Fault) :
    SameLimits g.rateLimiter (g.handle stringify e).rateLimiter := by
  cases e with
  | submit call =>
    have hlimiter := (submit_submits g call).2
    rw [handle, hlimiter]
    exact admission_sameLimits g.rateLimiter call
  | turn t =>
    cases t with
    | poll p => exact poll_sameLimits stringify g p
    | acquire principalId => exact acquireConcurrency_sameLimits g.rateLimiter principalId
    | release principalId => exact releaseConcurrency_sameLimits g.rateLimiter principalId
  | cancel jobId principalId reason clock =>
    rw [handle, cancelJob]
    split
    · exact .refl g.rateLimiter
    · split <;> exact .refl g.rateLimiter
  | readiness clock => exact .refl g.rateLimiter
  | lease workerId duration token clock => exact .refl g.rateLimiter
  | heartbeat jobId token extension clock => exact .refl g.rateLimiter

theorem onBody_sameLimits (host : Host Report) (s : ApiServer Report Fault)
    (h : Handler Report Fault) (outcome : Except ApiError SubmitBody) (draws : SubmitDraws) :
    SameLimits s.gateway.rateLimiter (s.onBody host h outcome draws).1.rateLimiter := by
  rw [onBody_limiter]
  split
  · exact .refl s.gateway.rateLimiter
  · exact admission_sameLimits s.gateway.rateLimiter _

end Limits

namespace Metered
variable {host : Host Report} {m m' : Metered Report Fault}

theorem Aligned.step (h : Aligned m) {e : ApiEvent Report Fault}
    (hs : Metered.step host m e = some m') : Aligned m' := by
  obtain ⟨server, hserver, rfl⟩ := Option.map_eq_some_iff.mp hs
  cases e with
  | request principalId header day now =>
    cases hserver
    refine ⟨by simp [account, ApiServer.receive, h.length], ?_⟩
    have hlimits := RateLimiter.sameLimits_next m.server.gateway.rateLimiter
      ⟨principalId, "submit", now⟩
    exact hlimits.windowMs ▸ h.windowMs
  | body i outcome draws =>
    obtain ⟨handler, hget, hserver⟩ := Option.bind_eq_some_iff.mp hserver
    split at hserver
    next hphase =>
      cases hserver
      refine ⟨by simp [account, hget, h.length], ?_⟩
      exact (onBody_sameLimits host m.server handler outcome draws).windowMs ▸ h.windowMs
    next => cases hserver
  | resume i =>
    obtain ⟨handler, hget, hserver⟩ := Option.bind_eq_some_iff.mp hserver
    split at hserver
    · cases hserver
      exact ⟨by simp [account, h.length], h.windowMs⟩
    · cases hserver
      exact ⟨by simp [account, h.length], h.windowMs⟩
    · cases hserver
      exact ⟨by simp [account, ApiServer.record, h.length], h.windowMs⟩
    · cases hserver
  | gateway event =>
    cases hserver
    refine ⟨h.length, ?_⟩
    exact (handle_sameLimits host.stringify m.server.gateway event).windowMs ▸ h.windowMs

/-- A handler that still waits has passed. -/
theorem OneSlot.of_waiting (h : OneSlot m) {i : ℕ} {handler : Handler Report Fault}
    (hget : m.server.handlers[i]? = some handler)
    (hwaits : ∀ response, handler.phase ≠ .finished response) {a : Account}
    (ha : m.accounts[i]? = some a) : a.passed = true := by
  by_contra hpassed
  obtain ⟨-, error, retryAfter, hphase⟩ :=
    h.turnedAway i handler a hget ha (Bool.eq_false_iff.mpr hpassed)
  exact hwaits _ hphase

/-- A handler moves on without a step of the limiter. -/
theorem OneSlot.set (h : OneSlot m) {i : ℕ} {handler handler' : Handler Report Fault}
    (hget : m.server.handlers[i]? = some handler)
    (hwaits : ∀ response, handler.phase ≠ .finished response) {server : ApiServer Report Fault}
    (hhandlers : server.handlers = m.server.handlers.set i handler') :
    OneSlot ⟨server, m.accounts⟩ := by
  refine ⟨h.passed, ?_⟩
  intro j k a hk ha hpassed
  rw [hhandlers] at hk
  rcases getElem?_set_eq_some hk with ⟨rfl, -⟩ | ⟨-, hk⟩
  · have htrue := h.of_waiting hget hwaits ha
    rw [hpassed] at htrue
    cases htrue
  · exact h.turnedAway j k a hk ha hpassed

theorem oneSlot_receive (hm : Aligned m) (h : OneSlot m) (principalId : String)
    (header : Option String) (day : String) (now : ℤ) :
    OneSlot ⟨m.server.receive principalId header day now,
      m.account host (m.server.receive principalId header day now)
        (.request principalId header day now)⟩ := by
  have htaken := entriesTaken_checkLimit hm.windowMs principalId now
  constructor
  · intro i a ha hpassed
    rcases getElem?_concat_eq_some ha with ha | rfl
    · exact h.passed i a ha hpassed
    · exact ⟨htaken.trans (if_pos hpassed), rfl, rfl⟩
  · intro i handler a hget ha hpassed
    rw [account] at ha
    by_cases hi : i < m.accounts.length
    · rw [List.getElem?_append_left hi] at ha
      rw [ApiServer.receive, List.getElem?_append_left (hm.length ▸ hi)] at hget
      exact h.turnedAway i handler a hget ha hpassed
    · obtain rfl : i = m.accounts.length := by
        have hlt := (List.getElem?_eq_some_iff.mp ha).1
        rw [List.length_append, List.length_singleton] at hlt
        omega
      rw [List.getElem?_concat_length, Option.some.injEq] at ha
      rw [hm.length, ApiServer.receive, List.getElem?_concat_length, Option.some.injEq] at hget
      subst ha hget
      refine ⟨htaken.trans (if_neg (Bool.eq_false_iff.mp hpassed)), ?_⟩
      dsimp only at hpassed ⊢
      rw [if_pos (by simp [hpassed])]
      exact ⟨_, _, rfl⟩

/-- A body is read at no further cost exactly where what is handed on costs nothing. -/
theorem oneSlot_onBody_iff (hm : Aligned m) (h : OneSlot m) {i : ℕ}
    {handler : Handler Report Fault} (hget : m.server.handlers[i]? = some handler)
    (hphase : handler.phase = .reading) (outcome : Except ApiError SubmitBody)
    (draws : SubmitDraws) {server : ApiServer Report Fault}
    (hhandlers : server.handlers =
      m.server.handlers.set i (m.server.onBody host handler outcome draws).2)
    (hgateway : server.gateway = (m.server.onBody host handler outcome draws).1) :
    OneSlot ⟨server, m.account host server (.body i outcome draws)⟩ ↔
      HandedOnFree host m (.body i outcome draws) := by
  have hwaits : ∀ response, handler.phase ≠ .finished response := by simp [hphase]
  obtain ⟨a, ha⟩ : ∃ a, m.accounts[i]? = some a := by
    have hlt := (List.getElem?_eq_some_iff.mp hget).1
    exact ⟨_, List.getElem?_eq_getElem (hm.length ▸ hlt)⟩
  have hpassed := h.of_waiting hget hwaits ha
  have hfree : HandedOnFree host m (.body i outcome draws) ↔
      entriesTaken m.server.gateway.rateLimiter server.gateway.rateLimiter handler.principalId
          draws.now = 0 ∧
        (m.server.onBody host handler outcome draws).2.phase.limited = false ∧
        (m.server.onBody host handler (marked true outcome) draws).2.phase.limited =
          (m.server.onBody host handler (marked false outcome) draws).2.phase.limited := by
    rw [hgateway, free_iff hm.windowMs handler outcome draws]
    constructor
    · exact fun hall sub => hall handler sub hget hphase
    · intro hall handler' sub hget' _
      obtain rfl : handler = handler' := Option.some.inj (hget.symm.trans hget')
      exact hall sub
  have haccounts : m.account host server (.body i outcome draws) =
      m.accounts.modify i (m.server.accountRead host server handler outcome draws) := by
    rw [account, hget]
  have hone := (h.passed i a ha hpassed).1
  rw [hfree, haccounts]
  constructor
  · intro hafter
    obtain ⟨hspent, hlimited, hswayed⟩ := hafter.passed i
      (m.server.accountRead host server handler outcome draws a)
      (by rw [List.getElem?_modify_eq, ha]; rfl) hpassed
    refine ⟨?_, hlimited, by simpa [ApiServer.accountRead] using hswayed⟩
    simp only [ApiServer.accountRead] at hspent
    omega
  · rintro ⟨hnothing, hlimited, hsame⟩
    have hread : ∀ (j : ℕ) (b : Account),
        (m.accounts.modify i (m.server.accountRead host server handler outcome draws))[j]? =
          some b → (i = j ∧ b = m.server.accountRead host server handler outcome draws a) ∨
            (i ≠ j ∧ m.accounts[j]? = some b) := by
      intro j b hb
      by_cases hij : i = j
      · subst hij
        rw [List.getElem?_modify_eq, ha] at hb
        exact .inl ⟨rfl, (Option.some.inj hb).symm⟩
      · rw [List.getElem?_modify_ne _ _ hij] at hb
        exact .inr ⟨hij, hb⟩
    constructor
    · intro j b hb hb'
      rcases hread j b hb with ⟨-, rfl⟩ | ⟨-, hb⟩
      · refine ⟨?_, hlimited, by simpa [ApiServer.accountRead] using hsame⟩
        simp only [ApiServer.accountRead]
        omega
      · exact h.passed j b hb hb'
    · intro j k b hk hb hb'
      rcases hread j b hb with ⟨-, rfl⟩ | ⟨hij, hb⟩
      · have htrue : a.passed = false := hb'
        rw [hpassed] at htrue
        cases htrue
      · rw [hhandlers, List.getElem?_set_ne hij] at hk
        exact h.turnedAway j k b hk hb hb'

theorem step_oneSlot_iff (hm : Aligned m) (h : OneSlot m) {e : ApiEvent Report Fault}
    (hs : Metered.step host m e = some m') : OneSlot m' ↔ HandedOnFree host m e := by
  obtain ⟨server, hserver, rfl⟩ := Option.map_eq_some_iff.mp hs
  cases e with
  | request principalId header day now =>
    cases hserver
    exact iff_of_true (oneSlot_receive hm h principalId header day now) trivial
  | body i outcome draws =>
    obtain ⟨handler, hget, hserver⟩ := Option.bind_eq_some_iff.mp hserver
    split at hserver
    next hphase =>
      cases hserver
      exact oneSlot_onBody_iff hm h hget hphase outcome draws rfl rfl
    next => cases hserver
  | resume i =>
    refine iff_of_true ?_ trivial
    obtain ⟨handler, hget, hserver⟩ := Option.bind_eq_some_iff.mp hserver
    split at hserver
    next hphase =>
      cases hserver
      exact h.set hget (by simp [hphase]) rfl
    next hphase =>
      cases hserver
      exact h.set hget (by simp [hphase]) rfl
    next hphase hsub =>
      cases hserver
      exact h.set hget (by simp [hphase]) rfl
    next => cases hserver
  | gateway event =>
    cases hserver
    exact iff_of_true ⟨h.passed, h.turnedAway⟩ trivial

/-- In every state of a run each request that passed has taken one entry and owes its way past the
limiter to no option, exactly when all that is handed on to the gateway is marked and finds room. -/
theorem one_slot_iff (host : Host Report) (options : ApiOptions) (limits : RateLimiterOptions)
    (gateway : RecoveryGateway Report Fault) (events : List (ApiEvent Report Fault)) :
    (system host (.create options { gateway with rateLimiter := .create limits })).Always OneSlot
        events ↔
      (system host (.create options { gateway with rateLimiter := .create limits })).Meets
        (HandedOnFree host) events := by
  have hstart : Aligned (⟨.create options { gateway with rateLimiter := .create limits }, []⟩ :
      Metered Report Fault) := ⟨rfl, RateLimiter.windowMs_create_pos limits⟩
  have halways : (system host
      (.create options { gateway with rateLimiter := .create limits })).AlwaysFrom Aligned
        ⟨.create options { gateway with rateLimiter := .create limits }, []⟩ events :=
    System.always_of_kept (fun _ _ _ hm hs => hm.step hs) events hstart
  refine System.always_iff_meets_of (fun m e m' hm h hs => step_oneSlot_iff hm h hs) halways ?_
  constructor
  · intro i a ha
    cases ha
  · intro i h a hget
    cases hget

/-- Two requests fit into the window, and one is submitted before the other comes in. -/
def twoSubmissions : List (ApiEvent Unit Unit) :=
  [.request "alice" none "2026-01-01" 0,
    .body 0 (ApiServer.plainBody 112 none) ⟨"1", 1, ⟨1, 1⟩, 1⟩, .resume 0,
    .request "alice" none "2026-01-01" 2]

def twoRequestsAMinute : System (Metered Unit Unit) (ApiEvent Unit Unit) :=
  system ApiServer.plainHost (.create ⟨none, none, none⟩
    { (.create RecoveryGateway.plainLimits RecoveryGateway.plainQueue 1000 :
        RecoveryGateway Unit Unit) with rateLimiter := .create ⟨none, some 2, none, none⟩ })

/-- The first submission takes both entries, and the second one is turned away. -/
theorem submission_costs_two :
    (twoRequestsAMinute.run twoSubmissions).map Metered.accounts =
        some [⟨true, 2, false, false⟩, ⟨false, 0, false, false⟩] ∧
      ¬ twoRequestsAMinute.Always OneSlot twoSubmissions := by
  refine ⟨rfl, fun h => ?_⟩
  obtain ⟨m, hm, haccount⟩ : ∃ m, twoRequestsAMinute.run twoSubmissions = some m ∧
      m.accounts[0]? = some ⟨true, 2, false, false⟩ := ⟨_, rfl, rfl⟩
  have hone := ((h.last hm).passed 0 ⟨true, 2, false, false⟩ haccount rfl).1
  cases hone

end Metered

end
end LuaRecovery.Api
