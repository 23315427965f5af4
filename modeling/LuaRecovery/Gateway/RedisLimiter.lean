import LuaRecovery.Gateway.AdmissionLog
import LuaRecovery.Lib.Runs
import Mathlib.Logic.Function.Basic

/-!
# The rate limiter over Redis

A call counts itself with one command and gives the counter its time to live with
another one. The commands of all calls interleave; each of them may fail before
or after it has reached the server, and a process may crash at any time. A call
whose command fails falls back on its process's own limiter.
-/

set_option autoImplicit false

namespace LuaRecovery.Gateway
open LuaRecovery.Lib LuaRecovery.Queue

structure Counter where
  count : ℕ
  expiresAt : Option ℤ
  deriving DecidableEq

/-- What a call waits for, or what has become of it. -/
inductive LimitPhase where
  | incr
  | pexpire (count : ℕ)
  | pttl
  | returned (answer : RateCheck)
  | crashed

structure RedisCall where
  process : ℕ
  principalId : String
  action : String
  phase : LimitPhase

/-- What becomes of a command: it is answered, or its reply is lost, or it does not arrive. -/
inductive Delivery where
  | replied
  | lost
  | refused
  deriving DecidableEq

inductive LimitEvent where
  | start (process : ℕ) (principalId action : String)
  | command (i : ℕ) (delivery : Delivery)
  | crash (i : ℕ) (arrives : Bool)
  | tick (ms : ℕ)

/-- The counters of the server, and the limiters and calls of all processes. -/
structure RedisLimiter where
  keyPrefix : String
  windowMs : ℕ
  maxRequests : ℕ
  now : ℤ
  counters : String → Option Counter
  limiters : ℕ → RateLimiter
  calls : List RedisCall

namespace RedisLimiter

def create (keyPrefix : String) (options : RateLimiterOptions) (now : ℤ) : RedisLimiter where
  keyPrefix := keyPrefix
  windowMs := (RateLimiter.create options).windowMs
  maxRequests := (RateLimiter.create options).maxRequests
  now := now
  counters _ := none
  limiters _ := .create options
  calls := []

def key (s : RedisLimiter) (call : RedisCall) : String :=
  s.keyPrefix ++ RateLimiter.limitKey call.principalId call.action

/-- The counter of a key, as long as its time to live lasts. -/
def live (s : RedisLimiter) (key : String) : Option Counter :=
  (s.counters key).filter fun c => c.expiresAt.all (s.now < ·)

/-- `INCR` keeps the time to live. -/
def incremented (s : RedisLimiter) (key : String) : Counter :=
  match s.live key with
  | some c => { c with count := c.count+1 }
  | none => ⟨1, none⟩

def incr (s : RedisLimiter) (key : String) : RedisLimiter :=
  { s with counters := Function.update s.counters key (some (s.incremented key)) }

def pexpire (s : RedisLimiter) (key : String) : RedisLimiter :=
  match s.live key with
  | some c => { s with
      counters := Function.update s.counters key (some ⟨c.count, some (s.now + s.windowMs)⟩) }
  | none => s

/-- `PTTL` knows a missing key and a key that does not expire by their numbers. -/
def pttl (s : RedisLimiter) (key : String) : ℤ :=
  match s.live key with
  | none => -2
  | some ⟨_, none⟩ => -1
  | some ⟨_, some t⟩ => t - s.now

/-- The command that the call waits for reaches the server. -/
def arrive (s : RedisLimiter) (call : RedisCall) : RedisLimiter :=
  match call.phase with
  | .incr => s.incr (s.key call)
  | .pexpire _ => s.pexpire (s.key call)
  | _ => s

/-- What follows from the count of the call. -/
def counted (s : RedisLimiter) (count : ℕ) : LimitPhase :=
  if s.maxRequests < count then .pttl
  else .returned ⟨true, s.maxRequests - count, s.windowMs, ""⟩

/-- The phase after the reply to the command that the call waits for. -/
def afterReply (s : RedisLimiter) (call : RedisCall) : LimitPhase :=
  match call.phase with
  | .incr =>
      if (s.incremented (s.key call)).count = 1 then .pexpire 1
      else s.counted (s.incremented (s.key call)).count
  | .pexpire count => s.counted count
  | .pttl => .returned ⟨false, 0, max 1000 (numberOr (some (s.pttl (s.key call))) s.windowMs),
      "WINDOW_RATE_LIMIT_EXCEEDED"⟩
  | phase => phase

def setPhase (s : RedisLimiter) (i : ℕ) (call : RedisCall) (phase : LimitPhase) : RedisLimiter :=
  { s with calls := s.calls.set i { call with phase := phase } }

/-- The call is answered by the limiter of its process. -/
def fallback (s : RedisLimiter) (i : ℕ) (call : RedisCall) : RedisLimiter :=
  let (limiter, answer) :=
    (s.limiters call.process).checkLimit call.principalId call.action s.now
  { s with
    limiters := Function.update s.limiters call.process limiter
    calls := s.calls.set i { call with phase := .returned answer } }

end RedisLimiter

def LimitPhase.ended : LimitPhase → Bool
  | .returned _ => true
  | .crashed => true
  | _ => false

namespace RedisLimiter

def deliver (s : RedisLimiter) (i : ℕ) (call : RedisCall) : Delivery → RedisLimiter
  | .replied => (s.arrive call).setPhase i call (s.afterReply call)
  | .lost => (s.arrive call).fallback i call
  | .refused => s.fallback i call

def step (s : RedisLimiter) : LimitEvent → Option RedisLimiter
  | .start process principalId action =>
      some { s with calls := s.calls ++ [⟨process, principalId, action, .incr⟩] }
  | .command i delivery => s.calls[i]?.bind fun call =>
      if call.phase.ended then none else some (s.deliver i call delivery)
  | .crash i arrives => s.calls[i]?.bind fun call =>
      if call.phase.ended then none
      else some ((if arrives then s.arrive call else s).setPhase i call .crashed)
  | .tick ms => some { s with now := s.now + ms }

def system (keyPrefix : String) (options : RateLimiterOptions) (now : ℤ) :
    System RedisLimiter LimitEvent where
  start := create keyPrefix options now
  step := step

end RedisLimiter
end LuaRecovery.Gateway
