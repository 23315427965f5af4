import LuaRecovery.Lib.Runs
import LuaRecovery.Api.Submission

/-!
# What a step of the API server does

A step appends a handler, moves one handler on to its next wait or to its
response, or leaves the handlers alone.
-/

set_option autoImplicit false

namespace LuaRecovery.Api
open LuaRecovery.Lib LuaRecovery.Queue LuaRecovery.Gateway

section
variable {Report Fault : Type}

namespace ApiServer

def system (host : Host Report) (start : ApiServer Report Fault) :
    System (ApiServer Report Fault) (ApiEvent Report Fault) where
  start := start
  step := step host

/-- The body is in order and gives the submission. -/
def Submits (host : Host Report) (s : ApiServer Report Fault) (h : Handler Report Fault)
    (outcome : Except ApiError SubmitBody) (sub : Submission) : Prop :=
  ∃ body, outcome = .ok body ∧ s.validate host h.header body = .ok sub

/-- Where a handler gets with a body. -/
inductive Reads (host : Host Report) (s : ApiServer Report Fault) (h : Handler Report Fault)
    (outcome : Except ApiError SubmitBody) (draws : SubmitDraws) :
    RecoveryGateway Report Fault → Handler Report Fault → Prop where
  | rejected (error : ApiError) (hnone : ∀ sub, ¬ s.Submits host h outcome sub) :
      Reads host s h outcome draws s.gateway (h.finish (.refused error none))
  | conflict (sub : Submission) (existing : Registered) (hsub : s.Submits host h outcome sub)
      (hreg : s.registered { h with submission := some sub } = some existing)
      (hne : existing.contentSha256 ≠ sub.contentSha256) :
      Reads host s h outcome draws s.gateway
        ({ h with submission := some sub }.finish (.refused idempotencyConflict none))
  | replaying (sub : Submission) (existing : Registered) (hsub : s.Submits host h outcome sub)
      (hreg : s.registered { h with submission := some sub } = some existing)
      (heq : existing.contentSha256 = sub.contentSha256) :
      Reads host s h outcome draws s.gateway { h with
        submission := some sub
        phase := .replaying (s.gateway.ownJob existing.jobId h.principalId) }
  | limited (sub : Submission) (error : ApiError) (hsub : s.Submits host h outcome sub)
      (hreg : s.registered { h with submission := some sub } = none) :
      Reads host s h outcome draws s.gateway
        ({ h with submission := some sub }.finish (.refused error none))
  | submitting (sub : Submission) (g : RecoveryGateway Report Fault)
      (answer : Except GatewayError Receipt) (hsub : s.Submits host h outcome sub)
      (hreg : s.registered { h with submission := some sub } = none)
      (hanswer : s.gateway.submitJobSync (jobRequest h.principalId sub) draws = (g, answer)) :
      Reads host s h outcome draws g { h with submission := some sub, phase := .submitting answer }

theorem onBody_reads (host : Host Report) (s : ApiServer Report Fault) (h : Handler Report Fault)
    (outcome : Except ApiError SubmitBody) (draws : SubmitDraws) :
    Reads host s h outcome draws (s.onBody host h outcome draws).1
      (s.onBody host h outcome draws).2 := by
  unfold onBody
  cases outcome with
  | error error =>
    refine .rejected error ?_
    rintro sub ⟨body, hbody, -⟩
    cases hbody
  | ok body =>
    cases hvalid : s.validate host h.header body with
    | error error =>
      simp only [hvalid]
      refine .rejected error ?_
      rintro sub ⟨body', hbody, hsub⟩
      cases hbody
      rw [hvalid] at hsub
      cases hsub
    | ok sub =>
      have hsub : s.Submits host h (.ok body) sub := ⟨body, rfl, hvalid⟩
      simp only [hvalid, proceed]
      cases hreg : s.registered { h with submission := some sub } with
      | some existing =>
        by_cases heq : existing.contentSha256 = sub.contentSha256
        · simp only [heq, ne_eq, not_true_eq_false, if_false]
          exact .replaying sub existing hsub hreg heq
        · simp only [heq, ne_eq, not_false_eq_true, if_true]
          exact .conflict sub existing hsub hreg heq
      | none =>
        dsimp only
        split
        · exact .limited sub _ hsub hreg
        · exact .submitting sub _ _ hsub hreg rfl

inductive Moves (host : Host Report) (s : ApiServer Report Fault) :
    ApiEvent Report Fault → ApiServer Report Fault → Prop where
  | received (principalId : String) (header : Option String) (day : String) (now : ℤ)
      (h : Handler Report Fault) (g : RecoveryGateway Report Fault)
      (hqueue : g.queue = s.gateway.queue) (hsub : h.submission = none)
      (hphase : (h.phase = .reading ∧ h.currentDailyCount < s.maxJobsPerDay) ∨
        ∃ error retryAfter, h.phase = .finished (.refused error retryAfter)) :
      Moves host s (.request principalId header day now)
        { s with gateway := g, handlers := s.handlers ++ [h] }
  | read (i : ℕ) (outcome : Except ApiError SubmitBody) (draws : SubmitDraws)
      (h h' : Handler Report Fault) (g : RecoveryGateway Report Fault)
      (hget : s.handlers[i]? = some h) (hphase : h.phase = .reading)
      (hreads : Reads host s h outcome draws g h') :
      Moves host s (.body i outcome draws)
        { s with gateway := g, handlers := s.handlers.set i h' }
  | replayed (i : ℕ) (h : Handler Report Fault)
      (answer : Except GatewayError (GatewayJob Report Fault))
      (hget : s.handlers[i]? = some h) (hphase : h.phase = .replaying answer) :
      Moves host s (.resume i) { s with handlers := s.handlers.set i (h.finish (s.onReplay answer)) }
  | refused (i : ℕ) (h : Handler Report Fault) (error : GatewayError)
      (hget : s.handlers[i]? = some h) (hphase : h.phase = .submitting (.error error)) :
      Moves host s (.resume i) { s with handlers := s.handlers.set i (h.finish (submitError error)) }
  | recorded (i : ℕ) (h : Handler Report Fault) (sub : Submission) (receipt : Receipt)
      (hget : s.handlers[i]? = some h) (hphase : h.phase = .submitting (.ok receipt))
      (hsub : h.submission = some sub) :
      Moves host s (.resume i) (s.record i h sub receipt)
  | gateway (event : GatewayEvent Report Fault) :
      Moves host s (.gateway event) { s with gateway := s.gateway.handle host.stringify event }

theorem receive_moves (host : Host Report) (s : ApiServer Report Fault) (principalId : String)
    (header : Option String) (day : String) (now : ℤ) :
    Moves host s (.request principalId header day now) (s.receive principalId header day now) := by
  unfold receive
  dsimp only
  refine .received principalId header day now _ _ rfl rfl ?_
  dsimp only
  split
  · exact .inr ⟨_, _, rfl⟩
  · split
    · exact .inr ⟨_, _, rfl⟩
    · exact .inl ⟨rfl, Nat.lt_of_not_le ‹_›⟩

theorem moves_of_step {host : Host Report} {s s' : ApiServer Report Fault}
    {e : ApiEvent Report Fault} (hs : s.step host e = some s') : Moves host s e s' := by
  cases e with
  | request principalId header day now =>
    cases hs
    exact receive_moves host s principalId header day now
  | body i outcome draws =>
    obtain ⟨h, hget, hs⟩ := Option.bind_eq_some_iff.mp hs
    split at hs
    next hphase =>
      cases hs
      exact .read i outcome draws h _ _ hget hphase (onBody_reads host s h outcome draws)
    next => cases hs
  | resume i =>
    obtain ⟨h, hget, hs⟩ := Option.bind_eq_some_iff.mp hs
    split at hs
    next answer hphase =>
      cases hs
      exact .replayed i h answer hget hphase
    next error hphase =>
      cases hs
      exact .refused i h error hget hphase
    next receipt sub hphase hsub =>
      cases hs
      exact .recorded i h sub receipt hget hphase hsub
    next => cases hs
  | gateway event =>
    cases hs
    exact .gateway event

end ApiServer
end
end LuaRecovery.Api
