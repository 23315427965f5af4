import LuaRecovery.Queue.InMemoryQueue

/-!
# The rate limiter

Requests are counted in a sliding window for each principal and kind of action,
running jobs in a counter for each principal.
-/

set_option autoImplicit false

namespace LuaRecovery.Gateway
open LuaRecovery.Lib LuaRecovery.Queue

structure RateLimiter where
  windowMs : ℕ
  maxRequests : ℕ
  burstLimit : ℕ
  maxConcurrent : ℕ
  requestTimestamps : InsertionMap String (List ℤ)
  activeJobs : InsertionMap String ℕ

structure RateLimiterOptions where
  windowMs : Option ℕ
  maxRequestsPerWindow : Option ℕ
  burstLimit : Option ℕ
  maxConcurrentPerPrincipal : Option ℕ

structure RateCheck where
  allowed : Bool
  remaining : ℤ
  resetMs : ℤ
  reason : String

structure Slot where
  acquired : Bool
  activeCount : ℕ
  maxAllowed : ℕ

namespace RateLimiter

def create (options : RateLimiterOptions) : RateLimiter where
  windowMs := numberOr options.windowMs 60000
  maxRequests := numberOr options.maxRequestsPerWindow 60
  burstLimit := numberOr options.burstLimit 10
  maxConcurrent := numberOr options.maxConcurrentPerPrincipal 2
  requestTimestamps := .empty
  activeJobs := .empty

def limitKey (principalId action : String) : String := principalId ++ (":" ++ action)

/-- The requests of the window that ends now. -/
def recent (l : RateLimiter) (key : String) (now : ℤ) : List ℤ :=
  ((l.requestTimestamps.get key).getD []).filter (fun ts => now - ts < l.windowMs)

def checkLimit (l : RateLimiter) (principalId action : String) (now : ℤ) :
    RateLimiter × RateCheck :=
  let key := limitKey principalId action
  let timestamps := l.recent key now
  let l' := { l with requestTimestamps := l.requestTimestamps.set key timestamps }
  if l.burstLimit ≤ (timestamps.filter (fun ts => now - ts < 1000)).length then
    (l', ⟨false, 0, 1000, "BURST_LIMIT_EXCEEDED"⟩)
  else if l.maxRequests ≤ timestamps.length then
    (l', ⟨false, 0, max 0 (l.windowMs - (now - timestamps.headD now)),
      "WINDOW_RATE_LIMIT_EXCEEDED"⟩)
  else
    ({ l with requestTimestamps := l.requestTimestamps.set key (timestamps ++ [now]) },
      ⟨true, l.maxRequests - (timestamps.length + 1), l.windowMs, ""⟩)

def active (l : RateLimiter) (principalId : String) : ℕ := (l.activeJobs.get principalId).getD 0

def acquireConcurrency (l : RateLimiter) (principalId : String) : RateLimiter × Slot :=
  if l.maxConcurrent ≤ l.active principalId then
    (l, ⟨false, l.active principalId, l.maxConcurrent⟩)
  else
    ({ l with activeJobs := l.activeJobs.set principalId (l.active principalId + 1) },
      ⟨true, l.active principalId + 1, l.maxConcurrent⟩)

def releaseConcurrency (l : RateLimiter) (principalId : String) : RateLimiter :=
  if l.active principalId ≤ 1 then
    { l with activeJobs := l.activeJobs.delete principalId }
  else { l with activeJobs := l.activeJobs.set principalId (l.active principalId - 1) }

end RateLimiter
end LuaRecovery.Gateway
