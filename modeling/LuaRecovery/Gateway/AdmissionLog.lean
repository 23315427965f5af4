import LuaRecovery.Gateway.RateLimiter
import LuaRecovery.Lib.ListEntries
import LuaRecovery.Lib.SlidingWindow
import Mathlib.Algebra.Order.Group.Int

/-!
# The limiter as a log of admissions

For each principal and action the limiter keeps as much of the log of the
admitted calls as later calls can ask for. Its answers are those of the whole
log, as long as the clock does not go back.
-/

set_option autoImplicit false

namespace LuaRecovery.Gateway
open LuaRecovery.Lib LuaRecovery.Queue

structure LimitCall where
  principalId : String
  action : String
  now : ℤ

namespace RateLimiter

/-- What is answered from the requests of the window. -/
def verdict (l : RateLimiter) (timestamps : List ℤ) (now : ℤ) : RateCheck :=
  if l.burstLimit ≤ (inWindow 1000 now timestamps).length then
    ⟨false, 0, 1000, "BURST_LIMIT_EXCEEDED"⟩
  else if l.maxRequests ≤ timestamps.length then
    ⟨false, 0, max 0 (l.windowMs - (now - timestamps.headD now)), "WINDOW_RATE_LIMIT_EXCEEDED"⟩
  else ⟨true, l.maxRequests - (timestamps.length + 1), l.windowMs, ""⟩

def answer (l : RateLimiter) (c : LimitCall) : RateCheck :=
  (l.checkLimit c.principalId c.action c.now).2

def next (l : RateLimiter) (c : LimitCall) : RateLimiter :=
  (l.checkLimit c.principalId c.action c.now).1

def afterCalls (l : RateLimiter) (calls : List LimitCall) : RateLimiter := calls.foldl next l

/-- The log of one principal's calls of one action, and what it would answer. -/
def logCheck (l : RateLimiter) (log : List ℤ) (now : ℤ) : RateCheck :=
  l.verdict (inWindow l.windowMs now log) now

def joinLog (l : RateLimiter) (log : List ℤ) (now : ℤ) : List ℤ :=
  if (l.logCheck log now).allowed then log ++ [now] else log

def isOf (principalId action : String) (c : LimitCall) : Bool :=
  c.principalId = principalId && c.action = action

def admissionLog (l : RateLimiter) (principalId action : String) (calls : List LimitCall) :
    List ℤ :=
  ((calls.filter (isOf principalId action)).map LimitCall.now).foldl l.joinLog []

/-- The times of the calls that the limiter has let pass. -/
def admitted (l : RateLimiter) (principalId action : String) : List LimitCall → List ℤ
  | [] => []
  | c::cs => (if isOf principalId action c && (l.answer c).allowed then [c.now] else []) ++
      (l.next c).admitted principalId action cs

theorem checkLimit_snd (l : RateLimiter) (principalId action : String) (now : ℤ) :
    (l.checkLimit principalId action now).2 =
      l.verdict (l.recent (limitKey principalId action) now) now := by
  simp only [checkLimit, apply_ite Prod.snd]
  rfl

/-- The requests that are kept for the key of the call. -/
theorem requestTimestamps_next (l : RateLimiter) (c : LimitCall) :
    (l.next c).requestTimestamps = l.requestTimestamps.set (limitKey c.principalId c.action)
      (l.recent (limitKey c.principalId c.action) c.now ++
        if (l.answer c).allowed then [c.now] else []) := by
  rw [next, answer, checkLimit]
  split
  · simp
  · split <;> simp

/-- The limits of the limiter do not change. -/
structure SameLimits (l l' : RateLimiter) : Prop where
  windowMs : l'.windowMs = l.windowMs
  maxRequests : l'.maxRequests = l.maxRequests
  burstLimit : l'.burstLimit = l.burstLimit

theorem SameLimits.refl (l : RateLimiter) : SameLimits l l := ⟨rfl, rfl, rfl⟩

theorem SameLimits.trans {l l' l'' : RateLimiter} (h : SameLimits l l') (h' : SameLimits l' l'') :
    SameLimits l l'' :=
  ⟨h'.windowMs.trans h.windowMs, h'.maxRequests.trans h.maxRequests,
    h'.burstLimit.trans h.burstLimit⟩

theorem sameLimits_next (l : RateLimiter) (c : LimitCall) : SameLimits l (l.next c) := by
  rw [next, checkLimit]
  split
  · exact ⟨rfl, rfl, rfl⟩
  · split <;> exact ⟨rfl, rfl, rfl⟩

theorem verdict_congr {l l' : RateLimiter} (h : SameLimits l l') (timestamps : List ℤ) (now : ℤ) :
    l'.verdict timestamps now = l.verdict timestamps now := by
  simp only [verdict, h.windowMs, h.maxRequests, h.burstLimit]

theorem numberOr_pos (value : Option ℕ) {default : ℕ} (h : 0 < default) :
    0 < numberOr value default := by
  cases value with
  | none => exact h
  | some a =>
    rw [numberOr]
    split
    · exact h
    · omega

theorem windowMs_create_pos (options : RateLimiterOptions) : 0 < (create options).windowMs :=
  numberOr_pos options.windowMs (by decide)

theorem maxRequests_create_pos (options : RateLimiterOptions) : 0 < (create options).maxRequests :=
  numberOr_pos options.maxRequestsPerWindow (by decide)

theorem burstLimit_create_pos (options : RateLimiterOptions) : 0 < (create options).burstLimit :=
  numberOr_pos options.burstLimit (by decide)

/-- Nothing before the last colon of a key is part of its action. -/
theorem limitKey_inj {principalId principalId' action action' : String}
    (haction : ':' ∉ action.toList) (haction' : ':' ∉ action'.toList)
    (h : limitKey principalId action = limitKey principalId' action') :
    principalId = principalId' ∧ action = action' := by
  have hlist : principalId.toList ++ ':' :: action.toList =
      principalId'.toList ++ ':' :: action'.toList := by
    simpa [limitKey] using congrArg String.toList h
  obtain ⟨hprincipal, hsame⟩ := append_cons_inj_right haction haction' hlist
  exact ⟨String.toList_inj.mp hprincipal, String.toList_inj.mp hsame⟩

/-- The limiter keeps of each log what a call from `now` on can ask for. -/
structure Tracks (l₀ l : RateLimiter) (calls : List LimitCall) (now : ℤ) : Prop where
  limits : SameLimits l₀ l
  recent : ∀ principalId action (later : ℤ), ':' ∉ action.toList → now ≤ later →
    l.recent (limitKey principalId action) later =
      inWindow (l₀.windowMs : ℤ) later (l₀.admissionLog principalId action calls)

section
variable {l₀ l : RateLimiter} {calls : List LimitCall} {now : ℤ}

/-- The answer to a call is the one that its log gives. -/
theorem Tracks.answer (h : Tracks l₀ l calls now) (c : LimitCall)
    (haction : ':' ∉ c.action.toList) (hnow : now ≤ c.now) :
    l.answer c = l₀.logCheck (l₀.admissionLog c.principalId c.action calls) c.now := by
  rw [RateLimiter.answer, checkLimit_snd, verdict_congr h.limits, logCheck,
    h.recent _ _ _ haction hnow]

theorem admissionLog_concat_self (l : RateLimiter) (calls : List LimitCall) (c : LimitCall) :
    l.admissionLog c.principalId c.action (calls ++ [c]) =
      l.joinLog (l.admissionLog c.principalId c.action calls) c.now := by
  have hself : isOf c.principalId c.action c = true := by simp [isOf]
  rw [admissionLog, List.filter_append, List.filter_singleton, hself, cond_true,
    List.map_append, List.foldl_append]
  rfl

theorem admissionLog_concat_other (l : RateLimiter) (calls : List LimitCall) {c : LimitCall}
    {principalId action : String} (hother : isOf principalId action c = false) :
    l.admissionLog principalId action (calls ++ [c]) =
      l.admissionLog principalId action calls := by
  rw [admissionLog, List.filter_append, List.filter_singleton, hother]
  simp [admissionLog]

theorem Tracks.next (h : Tracks l₀ l calls now) (c : LimitCall) (haction : ':' ∉ c.action.toList)
    (hnow : now ≤ c.now) : Tracks l₀ (l.next c) (calls ++ [c]) c.now := by
  refine ⟨h.limits.trans (sameLimits_next l c), ?_⟩
  intro principalId action later hother hlater
  rw [RateLimiter.recent, requestTimestamps_next, InsertionMap.get_set,
    (sameLimits_next l c).windowMs, h.limits.windowMs]
  by_cases hself : isOf principalId action c = true
  · obtain ⟨rfl, rfl⟩ : c.principalId = principalId ∧ c.action = action := by
      simpa [isOf] using hself
    rw [if_pos rfl, Option.getD_some, admissionLog_concat_self, joinLog, h.answer c haction hnow,
      h.recent _ _ _ haction hnow]
    change inWindow (l₀.windowMs : ℤ) later (_ ++ _) = _
    rw [inWindow_append, inWindow_inWindow hlater le_rfl]
    split
    · rw [inWindow_append]
    · exact List.append_nil _
  · have hkey : limitKey principalId action ≠ limitKey c.principalId c.action := by
      intro heq
      obtain ⟨rfl, rfl⟩ := limitKey_inj hother haction heq
      exact hself (by simp [isOf])
    rw [if_neg hkey, admissionLog_concat_other l₀ calls (Bool.eq_false_iff.mpr hself),
      ← h.recent _ _ _ hother (hnow.trans hlater), RateLimiter.recent, h.limits.windowMs]

end

end RateLimiter
end LuaRecovery.Gateway
