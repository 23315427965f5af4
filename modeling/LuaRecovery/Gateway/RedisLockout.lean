import LuaRecovery.Gateway.RedisLimiter
import LuaRecovery.Lib.ListEntries

/-!
# Counters that never expire

Only the call that has made a counter gives it its time to live. Where that call
ends before, the counter stays, and once it is full its principal is locked out.
-/

set_option autoImplicit false

namespace LuaRecovery.Gateway
open LuaRecovery.Lib LuaRecovery.Queue

namespace RedisLimiter

/-- The call that has made the counter is about to give it its time to live. -/
def Owes (s : RedisLimiter) (i : ℕ) (k : String) : Prop :=
  ∃ call count, s.calls[i]? = some call ∧ call.phase = .pexpire count ∧ s.key call = k

/-- The event ends the call that has made a counter before the counter has its time to live. -/
def Abandons (s : RedisLimiter) : LimitEvent → Prop
  | .command i delivery => ∃ call, s.calls[i]? = some call ∧
      ((call.phase = .incr ∧ s.live (s.key call) = none ∧ delivery = .lost) ∨
        ∃ count, call.phase = .pexpire count ∧ delivery = .refused)
  | .crash i arrives => ∃ call, s.calls[i]? = some call ∧
      ((call.phase = .incr ∧ s.live (s.key call) = none ∧ arrives = true) ∨
        ∃ count, call.phase = .pexpire count ∧ arrives = false)
  | _ => False

/-- Whether and when the counters expire. -/
def expiry (s : RedisLimiter) (k : String) : Option (Option ℤ) :=
  (s.counters k).map Counter.expiresAt

/-- A counter does not expire, and nobody is about to change that. -/
def Stuck (s : RedisLimiter) : Prop := ∃ k, s.expiry k = some none ∧ ∀ i, ¬ s.Owes i k

structure Sound (s : RedisLimiter) : Prop where
  owed : ∀ i k, s.Owes i k → s.expiry k = some none
  unique : ∀ i j k, s.Owes i k → s.Owes j k → i = j
  bounded : ∀ k t, s.expiry k = some (some t) → t ≤ s.now + s.windowMs

/-- What a step does to the counters and to the calls that owe them their time to live. -/
inductive Changes (s : RedisLimiter) (e : LimitEvent) (s' : RedisLimiter) : Prop where
  | quiet (hkept : ¬ s.Abandons e) (hexpiry : s'.expiry = s.expiry)
      (howes : ∀ j k, s'.Owes j k ↔ s.Owes j k)
  | opened (i : ℕ) (key : String) (hkept : ¬ s.Abandons e) (hdead : s.live key = none)
      (hexpiry : s'.expiry = Function.update s.expiry key (some none))
      (howes : ∀ j k, s'.Owes j k ↔ s.Owes j k ∨ (j = i ∧ k = key))
  | orphaned (key : String) (hlost : s.Abandons e) (hdead : s.live key = none)
      (hexpiry : s'.expiry = Function.update s.expiry key (some none))
      (howes : ∀ j k, s'.Owes j k ↔ s.Owes j k)
  | closed (i : ℕ) (key : String) (hkept : ¬ s.Abandons e) (howed : s.Owes i key)
      (hexpiry : s'.expiry = Function.update s.expiry key (some (some (s.now + s.windowMs))))
      (howes : ∀ j k, s'.Owes j k ↔ s.Owes j k ∧ j ≠ i)
  | abandoned (i : ℕ) (key : String) (hlost : s.Abandons e) (howed : s.Owes i key)
      (hexpiry : s'.expiry = s.expiry) (howes : ∀ j k, s'.Owes j k ↔ s.Owes j k ∧ j ≠ i)

section
variable {s s' : RedisLimiter} {i : ℕ} {call : RedisCall}

theorem expiry_update (s : RedisLimiter) (k : String) (c : Counter) :
    (fun k' => (Function.update s.counters k (some c) k').map Counter.expiresAt) =
      Function.update s.expiry k (some c.expiresAt) := by
  ext1 k'
  rw [Function.update_apply, Function.update_apply]
  split <;> rfl

/-- A live counter keeps its time to live when it is incremented, a new one has none. -/
theorem expiry_incr (s : RedisLimiter) (k : String) :
    (s.incr k).expiry =
      if s.live k = none then Function.update s.expiry k (some none) else s.expiry := by
  have hupdate := expiry_update s k (s.incremented k)
  refine Eq.trans hupdate ?_
  rw [incremented]
  cases hlive : s.live k with
  | none => rw [if_pos rfl]
  | some c =>
    rw [if_neg (Option.some_ne_none c)]
    have hsame : s.expiry k = some c.expiresAt := by
      rw [expiry, (Option.filter_eq_some_iff.mp hlive).1]
      rfl
    rw [← hsame, Function.update_eq_self]

theorem owes_set (hget : s.calls[i]? = some call) (phase : LimitPhase)
    (hcalls : s'.calls = s.calls.set i { call with phase := phase })
    (hsamePre : s'.keyPrefix = s.keyPrefix) (j : ℕ) (k : String) :
    s'.Owes j k ↔
      if j = i then (∃ count, phase = .pexpire count) ∧ s.key call = k else s.Owes j k := by
  have hkey : ∀ call, s'.key call = s.key call := by
    intro call
    rw [key, key, hsamePre]
  rw [Owes, hcalls]
  by_cases hj : j = i
  · subst hj
    have hself : (s.calls.set j { call with phase := phase })[j]? =
        some { call with phase := phase } :=
      List.getElem?_set_self (List.getElem?_eq_some_iff.mp hget).1
    rw [if_pos rfl, hself]
    constructor
    · rintro ⟨call', count, hcall', hphase, rfl⟩
      obtain rfl := Option.some.inj hcall'
      exact ⟨⟨count, hphase⟩, (hkey _).symm⟩
    · rintro ⟨⟨count, rfl⟩, rfl⟩
      exact ⟨_, count, rfl, rfl, hkey _⟩
  · rw [if_neg hj, List.getElem?_set_ne (Ne.symm hj), Owes]
    simp only [hkey]

/-- Whether a call owes its counter the time to live is seen from its phase. -/
theorem owes_iff (hget : s.calls[i]? = some call) (k : String) :
    s.Owes i k ↔ (∃ count, call.phase = .pexpire count) ∧ s.key call = k := by
  constructor
  · rintro ⟨call', count, hget', hphase, hkey⟩
    obtain rfl := Option.some.inj (hget.symm.trans hget')
    exact ⟨⟨count, hphase⟩, hkey⟩
  · rintro ⟨⟨count, hphase⟩, hkey⟩
    exact ⟨call, count, hget, hphase, hkey⟩

theorem owes_ended (hget : s.calls[i]? = some call) {phase : LimitPhase}
    (hcalls : s'.calls = s.calls.set i { call with phase := phase })
    (hsamePre : s'.keyPrefix = s.keyPrefix) (hphase : ∀ count, phase ≠ .pexpire count) (j : ℕ)
    (k : String) : s'.Owes j k ↔ s.Owes j k ∧ j ≠ i := by
  rw [owes_set hget phase hcalls hsamePre]
  by_cases hj : j = i
  · rw [if_pos hj]
    refine iff_of_false ?_ fun h => h.2 hj
    rintro ⟨⟨count, hcount⟩, -⟩
    exact hphase count hcount
  · rw [if_neg hj]
    exact (and_iff_left hj).symm

/-- The end of a call that owes nothing changes nothing about who does. -/
theorem owes_quiet (hget : s.calls[i]? = some call) {phase : LimitPhase}
    (hcalls : s'.calls = s.calls.set i { call with phase := phase })
    (hsamePre : s'.keyPrefix = s.keyPrefix) (hphase : ∀ count, phase ≠ .pexpire count)
    (hnone : ∀ count, call.phase ≠ .pexpire count) (j : ℕ) (k : String) :
    s'.Owes j k ↔ s.Owes j k := by
  rw [owes_ended hget hcalls hsamePre hphase]
  apply and_iff_left_of_imp
  rintro howes rfl
  obtain ⟨⟨count, hcount⟩, -⟩ := (owes_iff hget k).mp howes
  exact hnone count hcount

theorem Sound.live (h : Sound s) (hget : s.calls[i]? = some call) {count : ℕ}
    (hphase : call.phase = .pexpire count) :
    ∃ c, s.live (s.key call) = some c ∧ c.expiresAt = none := by
  have howed := h.owed i (s.key call) ((owes_iff hget _).mpr ⟨⟨count, hphase⟩, rfl⟩)
  obtain ⟨c, hc, hnever⟩ := Option.map_eq_some_iff.mp howed
  refine ⟨c, ?_, hnever⟩
  rw [RedisLimiter.live, hc]
  simp [hnever]

theorem expiry_pexpire {k : String} {c : Counter} (hlive : s.live k = some c) :
    (s.pexpire k).expiry = Function.update s.expiry k (some (some (s.now + s.windowMs))) := by
  rw [pexpire, hlive]
  exact expiry_update s k ⟨c.count, some (s.now + s.windowMs)⟩

/-- The call ends after its command has arrived. -/
theorem changes_arrived (h : Sound s) {e : LimitEvent} (hget : s.calls[i]? = some call)
    (phase : LimitPhase) (hended : ∀ count, phase ≠ .pexpire count)
    (hexpiry : s'.expiry = (s.arrive call).expiry)
    (hcalls : s'.calls = s.calls.set i { call with phase := phase })
    (hsamePre : s'.keyPrefix = s.keyPrefix)
    (habandons : s.Abandons e ↔ call.phase = .incr ∧ s.live (s.key call) = none) :
    Changes s e s' := by
  have hquiet : s'.expiry = s.expiry → call.phase ≠ .incr →
      (∀ count, call.phase ≠ .pexpire count) → Changes s e s' := by
    intro hsame hincr hpexpire
    exact .quiet (fun habandoned => hincr (habandons.mp habandoned).1) hsame
      (owes_quiet hget hcalls hsamePre hended hpexpire)
  rw [arrive] at hexpiry
  cases hphase : call.phase with
  | incr =>
    have howes := owes_quiet hget hcalls hsamePre hended (by simp [hphase])
    rw [hphase, expiry_incr] at hexpiry
    by_cases hdead : s.live (s.key call) = none
    · rw [if_pos hdead] at hexpiry
      exact .orphaned (s.key call) (habandons.mpr ⟨hphase, hdead⟩) hdead hexpiry howes
    · rw [if_neg hdead] at hexpiry
      exact .quiet (fun habandoned => hdead (habandons.mp habandoned).2) hexpiry howes
  | pexpire count =>
    obtain ⟨c, hlive, -⟩ := h.live hget hphase
    rw [hphase] at hexpiry
    refine .closed i (s.key call) ?_ ((owes_iff hget _).mpr ⟨⟨count, hphase⟩, rfl⟩)
      (hexpiry.trans (expiry_pexpire hlive)) (owes_ended hget hcalls hsamePre hended)
    intro habandoned
    have hincr := (habandons.mp habandoned).1
    rw [hphase] at hincr
    cases hincr
  | pttl =>
    rw [hphase] at hexpiry
    exact hquiet hexpiry (by simp [hphase]) (by simp [hphase])
  | returned answer =>
    rw [hphase] at hexpiry
    exact hquiet hexpiry (by simp [hphase]) (by simp [hphase])
  | crashed =>
    rw [hphase] at hexpiry
    exact hquiet hexpiry (by simp [hphase]) (by simp [hphase])

/-- The call ends and its command does not arrive. -/
theorem changes_gone {e : LimitEvent} (hget : s.calls[i]? = some call)
    (phase : LimitPhase) (hended : ∀ count, phase ≠ .pexpire count) (hexpiry : s'.expiry = s.expiry)
    (hcalls : s'.calls = s.calls.set i { call with phase := phase })
    (hsamePre : s'.keyPrefix = s.keyPrefix)
    (habandons : s.Abandons e ↔ ∃ count, call.phase = .pexpire count) : Changes s e s' := by
  by_cases howes : ∃ count, call.phase = .pexpire count
  · exact .abandoned i (s.key call) (habandons.mpr howes) ((owes_iff hget _).mpr ⟨howes, rfl⟩)
      hexpiry (owes_ended hget hcalls hsamePre hended)
  · apply Changes.quiet (fun habandoned => howes (habandons.mp habandoned)) hexpiry
    exact owes_quiet hget hcalls hsamePre hended (fun count hcount => howes ⟨count, hcount⟩)

/-- Every counter counts at least the call that has made it. -/
def Positive (s : RedisLimiter) : Prop := ∀ k c, s.counters k = some c → 1 ≤ c.count

theorem abandons_command (hget : s.calls[i]? = some call) (delivery : Delivery) :
    s.Abandons (.command i delivery) ↔
      (call.phase = .incr ∧ s.live (s.key call) = none ∧ delivery = .lost) ∨
        ∃ count, call.phase = .pexpire count ∧ delivery = .refused := by
  rw [Abandons, hget]
  simp only [Option.some.injEq, exists_eq_left']

theorem abandons_crash (hget : s.calls[i]? = some call) (arrives : Bool) :
    s.Abandons (.crash i arrives) ↔
      (call.phase = .incr ∧ s.live (s.key call) = none ∧ arrives = true) ∨
        ∃ count, call.phase = .pexpire count ∧ arrives = false := by
  rw [Abandons, hget]
  simp only [Option.some.injEq, exists_eq_left']

theorem counted_ne_pexpire (s : RedisLimiter) (n count : ℕ) : s.counted n ≠ .pexpire count := by
  rw [counted]
  split <;> simp

/-- The first reply tells the call whether it has made the counter. -/
theorem changes_incr_replied (hpositive : Positive s) (hget : s.calls[i]? = some call)
    (hphase : call.phase = .incr) :
    Changes s (.command i .replied) ((s.arrive call).setPhase i call (s.afterReply call)) := by
  have hkept : ¬ s.Abandons (.command i .replied) := by
    rw [abandons_command hget]
    simp
  have harrive : s.arrive call = s.incr (s.key call) := by rw [arrive, hphase]
  have hexpiry : ((s.arrive call).setPhase i call (s.afterReply call)).expiry =
      (s.incr (s.key call)).expiry := by rw [harrive]; rfl
  have hcalls : ((s.arrive call).setPhase i call (s.afterReply call)).calls =
      s.calls.set i { call with phase := s.afterReply call } := by rw [harrive]; rfl
  have hsamePre : ((s.arrive call).setPhase i call (s.afterReply call)).keyPrefix =
      s.keyPrefix := by rw [harrive]; rfl
  have hreply : s.afterReply call = if (s.incremented (s.key call)).count = 1 then .pexpire 1
      else s.counted (s.incremented (s.key call)).count := by rw [afterReply, hphase]
  rw [expiry_incr] at hexpiry
  cases hlive : s.live (s.key call) with
  | none =>
    have hone : s.afterReply call = .pexpire 1 := by
      rw [hreply, incremented, hlive]
      rfl
    rw [if_pos hlive] at hexpiry
    refine .opened i (s.key call) hkept hlive hexpiry fun j k => ?_
    rw [owes_set hget _ hcalls hsamePre]
    by_cases hj : j = i
    · subst hj
      rw [if_pos rfl, owes_iff hget, hone, hphase]
      simp [eq_comm]
    · rw [if_neg hj]
      simp [hj]
  | some c =>
    have hmore : (s.incremented (s.key call)).count ≠ 1 := by
      have hcount := hpositive _ c (Option.filter_eq_some_iff.mp hlive).1
      rw [incremented, hlive]
      dsimp only
      omega
    rw [if_neg (by simp [hlive])] at hexpiry
    refine .quiet hkept hexpiry (owes_quiet hget hcalls hsamePre ?_ (by simp [hphase]))
    rw [hreply, if_neg hmore]
    exact s.counted_ne_pexpire _

/-- A command changes the counters only. -/
theorem arrive_eq (s : RedisLimiter) (call : RedisCall) :
    s.arrive call = { s with counters := (s.arrive call).counters } := by
  rw [arrive]
  split
  · rfl
  · rw [pexpire]
    split <;> rfl
  · rfl

theorem arrive_calls (s : RedisLimiter) (call : RedisCall) :
    (s.arrive call).calls = s.calls := by rw [arrive_eq]

theorem arrive_keyPrefix (s : RedisLimiter) (call : RedisCall) :
    (s.arrive call).keyPrefix = s.keyPrefix := by rw [arrive_eq]

theorem owes_start (s : RedisLimiter) (process : ℕ) (principalId action : String) (j : ℕ)
    (k : String) :
    Owes { s with calls := s.calls ++ [⟨process, principalId, action, .incr⟩] } j k ↔
      s.Owes j k := by
  constructor
  · rintro ⟨call, count, hget, hphase, hkey⟩
    rcases getElem?_concat_eq_some hget with hget | rfl
    · exact ⟨call, count, hget, hphase, hkey⟩
    · cases hphase
  · rintro ⟨call, count, hget, hphase, hkey⟩
    refine ⟨call, count, ?_, hphase, hkey⟩
    exact (List.getElem?_append_left (List.getElem?_eq_some_iff.mp hget).1).trans hget

theorem changes_of_deliver (h : Sound s) (hpositive : Positive s)
    (hget : s.calls[i]? = some call) (delivery : Delivery) :
    Changes s (.command i delivery) (s.deliver i call delivery) := by
  have habandons := abandons_command hget delivery
  cases delivery with
  | replied =>
    rw [deliver]
    by_cases hincr : call.phase = .incr
    · exact changes_incr_replied hpositive hget hincr
    · refine changes_arrived h hget (s.afterReply call) ?_ rfl ?_ (arrive_keyPrefix s call) ?_
      · rw [afterReply]
        split
        next hphase => exact absurd hphase hincr
        next => exact s.counted_ne_pexpire _
        next => exact fun count => LimitPhase.noConfusion
        next hpexpire _ => exact fun count hcount => hpexpire count hcount
      · rw [setPhase, arrive_calls]
      · rw [habandons]
        simp [hincr]
  | lost =>
    refine changes_arrived h hget (.returned (((s.arrive call).limiters call.process).checkLimit
      call.principalId call.action (s.arrive call).now).2) (fun _ => LimitPhase.noConfusion) rfl ?_
      (arrive_keyPrefix s call) ?_
    · rw [deliver, fallback, arrive_calls]
    · rw [habandons]
      simp
  | refused =>
    refine changes_gone hget (.returned ((s.limiters call.process).checkLimit call.principalId
      call.action s.now).2) (fun _ => LimitPhase.noConfusion) rfl rfl rfl ?_
    rw [habandons]
    simp

theorem changes_of_step (h : Sound s) (hpositive : Positive s) {e : LimitEvent}
    (hs : s.step e = some s') : Changes s e s' := by
  cases e with
  | start process principalId action =>
    cases hs
    exact .quiet id rfl (owes_start s process principalId action)
  | command i delivery =>
    obtain ⟨call, hget, hs⟩ := Option.bind_eq_some_iff.mp hs
    split at hs
    · cases hs
    · cases hs
      exact changes_of_deliver h hpositive hget delivery
  | crash i arrives =>
    obtain ⟨call, hget, hs⟩ := Option.bind_eq_some_iff.mp hs
    have habandons := abandons_crash hget arrives
    split at hs
    · cases hs
    · cases hs
      cases arrives with
      | true =>
        refine changes_arrived h hget .crashed (fun _ => LimitPhase.noConfusion) rfl ?_
          (arrive_keyPrefix s call) ?_
        · rw [if_pos rfl, setPhase, arrive_calls]
        · rw [habandons]
          simp
      | false =>
        refine changes_gone hget .crashed (fun _ => LimitPhase.noConfusion) rfl rfl rfl ?_
        rw [habandons]
        simp
  | tick ms =>
    cases hs
    exact .quiet id rfl (fun _ _ => Iff.rfl)

theorem live_ne_none {k : String} (h : s.expiry k = some none) : s.live k ≠ none := by
  obtain ⟨c, hc, hnever⟩ := Option.map_eq_some_iff.mp h
  rw [live, hc]
  simp [hnever]

/-- What no step changes. -/
structure Frame (s s' : RedisLimiter) : Prop where
  windowMs : s'.windowMs = s.windowMs
  maxRequests : s'.maxRequests = s.maxRequests
  now : s.now ≤ s'.now

theorem frame_deliver (s : RedisLimiter) (i : ℕ) (call : RedisCall) (delivery : Delivery) :
    Frame s (s.deliver i call delivery) := by
  cases delivery with
  | replied =>
    rw [deliver, arrive_eq]
    exact ⟨rfl, rfl, le_rfl⟩
  | lost =>
    rw [deliver, arrive_eq]
    exact ⟨rfl, rfl, le_rfl⟩
  | refused => exact ⟨rfl, rfl, le_rfl⟩

theorem frame_of_step {e : LimitEvent} (hs : s.step e = some s') : Frame s s' := by
  cases e with
  | start process principalId action =>
    cases hs
    exact ⟨rfl, rfl, le_rfl⟩
  | command i delivery =>
    obtain ⟨call, -, hs⟩ := Option.bind_eq_some_iff.mp hs
    split at hs
    · cases hs
    · cases hs
      exact frame_deliver s i call delivery
  | crash i arrives =>
    obtain ⟨call, -, hs⟩ := Option.bind_eq_some_iff.mp hs
    split at hs
    · cases hs
    · cases hs
      rw [setPhase]
      split
      · rw [arrive_eq]
        exact ⟨rfl, rfl, le_rfl⟩
      · exact ⟨rfl, rfl, le_rfl⟩
  | tick ms =>
    cases hs
    refine ⟨rfl, rfl, ?_⟩
    dsimp only
    omega

theorem owes_key {k k' : String} (h : s.Owes i k) (h' : s.Owes i k') : k = k' := by
  obtain ⟨call, count, hget, -, rfl⟩ := h
  exact ((owes_iff hget k').mp h').2

theorem Sound.not_owes_dead (h : Sound s) {k : String} (hdead : s.live k = none) (j : ℕ) :
    ¬ s.Owes j k := fun howes => live_ne_none (h.owed j k howes) hdead

theorem Sound.changes (h : Sound s) {e : LimitEvent} (hchanges : Changes s e s')
    (hframe : Frame s s') : Sound s' := by
  have hlater : ∀ t, t ≤ s.now + s.windowMs → t ≤ s'.now + s'.windowMs := by
    intro t ht
    rw [hframe.windowMs]
    exact ht.trans (add_le_add_left hframe.now _)
  cases hchanges with
  | quiet hkept hexpiry howes =>
    refine ⟨fun j k hj => ?_, fun a b k ha hb => ?_, fun k t hk => ?_⟩
    · rw [hexpiry]
      exact h.owed j k ((howes j k).mp hj)
    · exact h.unique a b k ((howes a k).mp ha) ((howes b k).mp hb)
    · exact hlater t (h.bounded k t (hexpiry ▸ hk))
  | opened i key hkept hdead hexpiry howes =>
    refine ⟨fun j k hj => ?_, fun a b k ha hb => ?_, fun k t hk => ?_⟩
    · rw [hexpiry, Function.update_apply]
      split
      · rfl
      next hne =>
        rcases (howes j k).mp hj with hj | ⟨-, rfl⟩
        · exact h.owed j k hj
        · exact absurd rfl hne
    · rcases (howes a k).mp ha with ha | ⟨rfl, rfl⟩
      · rcases (howes b k).mp hb with hb | ⟨rfl, rfl⟩
        · exact h.unique a b k ha hb
        · exact absurd ha (h.not_owes_dead hdead a)
      · rcases (howes b k).mp hb with hb | ⟨rfl, -⟩
        · exact absurd hb (h.not_owes_dead hdead b)
        · rfl
    · rw [hexpiry, Function.update_apply] at hk
      split at hk
      · cases hk
      · exact hlater t (h.bounded k t hk)
  | orphaned key hlost hdead hexpiry howes =>
    refine ⟨fun j k hj => ?_, fun a b k ha hb => ?_, fun k t hk => ?_⟩
    · rw [hexpiry, Function.update_apply]
      split
      · rfl
      · exact h.owed j k ((howes j k).mp hj)
    · exact h.unique a b k ((howes a k).mp ha) ((howes b k).mp hb)
    · rw [hexpiry, Function.update_apply] at hk
      split at hk
      · cases hk
      · exact hlater t (h.bounded k t hk)
  | closed i key hkept howed hexpiry howes =>
    refine ⟨fun j k hj => ?_, fun a b k ha hb => ?_, fun k t hk => ?_⟩
    · obtain ⟨hj, hne⟩ := (howes j k).mp hj
      have hother : k ≠ key := by
        rintro rfl
        exact hne (h.unique j i k hj howed)
      rw [hexpiry, Function.update_of_ne hother]
      exact h.owed j k hj
    · exact h.unique a b k ((howes a k).mp ha).1 ((howes b k).mp hb).1
    · rw [hexpiry, Function.update_apply] at hk
      split at hk
      · obtain rfl := Option.some.inj (Option.some.inj hk)
        exact hlater _ le_rfl
      · exact hlater t (h.bounded k t hk)
  | abandoned i key hlost howed hexpiry howes =>
    refine ⟨fun j k hj => ?_, fun a b k ha hb => ?_, fun k t hk => ?_⟩
    · rw [hexpiry]
      exact h.owed j k ((howes j k).mp hj).1
    · exact h.unique a b k ((howes a k).mp ha).1 ((howes b k).mp hb).1
    · exact hlater t (h.bounded k t (hexpiry ▸ hk))

/-- A counter gets stuck exactly where the call that has made it is abandoned. -/
theorem Sound.stuck_iff (h : Sound s) (hfree : ¬ s.Stuck) {e : LimitEvent}
    (hchanges : Changes s e s') : ¬ s.Abandons e ↔ ¬ s'.Stuck := by
  cases hchanges with
  | quiet hkept hexpiry howes =>
    refine iff_of_true hkept ?_
    rintro ⟨k, hk, hnone⟩
    exact hfree ⟨k, hexpiry ▸ hk, fun j hj => hnone j ((howes j k).mpr hj)⟩
  | opened i key hkept hdead hexpiry howes =>
    refine iff_of_true hkept ?_
    rintro ⟨k, hk, hnone⟩
    have hother : k ≠ key := by
      rintro rfl
      exact hnone i ((howes i k).mpr (.inr ⟨rfl, rfl⟩))
    rw [hexpiry, Function.update_of_ne hother] at hk
    exact hfree ⟨k, hk, fun j hj => hnone j ((howes j k).mpr (.inl hj))⟩
  | orphaned key hlost hdead hexpiry howes =>
    refine iff_of_false (not_not_intro hlost) (not_not_intro ⟨key, ?_, fun j hj => ?_⟩)
    · rw [hexpiry, Function.update_self]
    · exact h.not_owes_dead hdead j ((howes j key).mp hj)
  | closed i key hkept howed hexpiry howes =>
    refine iff_of_true hkept ?_
    rintro ⟨k, hk, hnone⟩
    have hother : k ≠ key := by
      rintro rfl
      rw [hexpiry, Function.update_self] at hk
      cases hk
    rw [hexpiry, Function.update_of_ne hother] at hk
    refine hfree ⟨k, hk, fun j hj => ?_⟩
    by_cases hne : j = i
    · subst hne
      exact hother (owes_key hj howed)
    · exact hnone j ((howes j k).mpr ⟨hj, hne⟩)
  | abandoned i key hlost howed hexpiry howes =>
    refine iff_of_false (not_not_intro hlost) (not_not_intro ⟨key, ?_, fun j hj => ?_⟩)
    · rw [hexpiry]
      exact h.owed i key howed
    · obtain ⟨hj, hne⟩ := (howes j key).mp hj
      exact hne (h.unique j i key hj howed)

/-- Nobody gives a counter its time to live any more. -/
theorem stuck_kept (hstuck : s.Stuck) {e : LimitEvent}
    (hchanges : Changes s e s') : s'.Stuck := by
  obtain ⟨k, hk, hnone⟩ := hstuck
  cases hchanges with
  | quiet hkept hexpiry howes =>
    exact ⟨k, hexpiry ▸ hk, fun j hj => hnone j ((howes j k).mp hj)⟩
  | opened i key hkept hdead hexpiry howes =>
    have hother : k ≠ key := by
      rintro rfl
      exact live_ne_none hk hdead
    refine ⟨k, by rw [hexpiry, Function.update_of_ne hother, hk], fun j hj => ?_⟩
    rcases (howes j k).mp hj with hj | ⟨-, heq⟩
    · exact hnone j hj
    · exact hother heq
  | orphaned key hlost hdead hexpiry howes =>
    have hother : k ≠ key := by
      rintro rfl
      exact live_ne_none hk hdead
    exact ⟨k, by rw [hexpiry, Function.update_of_ne hother, hk],
      fun j hj => hnone j ((howes j k).mp hj)⟩
  | closed i key hkept howed hexpiry howes =>
    have hother : k ≠ key := by
      rintro rfl
      exact hnone i howed
    exact ⟨k, by rw [hexpiry, Function.update_of_ne hother, hk],
      fun j hj => hnone j ((howes j k).mp hj).1⟩
  | abandoned i key hlost howed hexpiry howes =>
    exact ⟨k, hexpiry ▸ hk, fun j hj => hnone j ((howes j k).mp hj).1⟩

theorem Positive.arrive (h : Positive s) (call : RedisCall) : Positive (s.arrive call) := by
  intro k c hc
  rw [RedisLimiter.arrive] at hc
  split at hc
  · rw [incr] at hc
    dsimp only at hc
    rw [Function.update_apply] at hc
    split at hc
    · obtain rfl := Option.some.inj hc
      rw [incremented]
      split
      · exact Nat.le_add_left 1 _
      · exact le_rfl
    · exact h k c hc
  · rw [RedisLimiter.pexpire] at hc
    split at hc
    next old hold =>
      dsimp only at hc
      rw [Function.update_apply] at hc
      split at hc
      · obtain rfl := Option.some.inj hc
        exact h _ old (Option.filter_eq_some_iff.mp hold).1
      · exact h k c hc
    · exact h k c hc
  · exact h k c hc

theorem Positive.step (h : Positive s) {e : LimitEvent} (hs : s.step e = some s') :
    Positive s' := by
  cases e with
  | start process principalId action =>
    cases hs
    exact h
  | command i delivery =>
    obtain ⟨call, -, hs⟩ := Option.bind_eq_some_iff.mp hs
    split at hs
    · cases hs
    · cases hs
      cases delivery with
      | replied => exact h.arrive call
      | lost => exact h.arrive call
      | refused => exact h
  | crash i arrives =>
    obtain ⟨call, -, hs⟩ := Option.bind_eq_some_iff.mp hs
    split at hs
    · cases hs
    · cases hs
      cases arrives with
      | true => exact h.arrive call
      | false => exact h
  | tick ms =>
    cases hs
    exact h

/-- The processes' own limiters have the common limits, and no request from the future. -/
structure Local (options : RateLimiterOptions) (s : RedisLimiter) : Prop where
  limits : ∀ process, (RateLimiter.create options).SameLimits (s.limiters process)
  windowMs : s.windowMs = (RateLimiter.create options).windowMs
  maxRequests : s.maxRequests = (RateLimiter.create options).maxRequests
  past : ∀ process k ts, ts ∈ ((s.limiters process).requestTimestamps.get k).getD [] → ts ≤ s.now

theorem Local.fallback {options : RateLimiterOptions} (h : Local options s) (i : ℕ)
    (call : RedisCall) : Local options (s.fallback i call) := by
  rw [RedisLimiter.fallback]
  refine ⟨fun process => ?_, h.windowMs, h.maxRequests, fun process k ts hts => ?_⟩
  · dsimp only
    rw [Function.update_apply]
    split
    · exact (h.limits call.process).trans (RateLimiter.sameLimits_next _
        ⟨call.principalId, call.action, s.now⟩)
    · exact h.limits process
  · dsimp only at hts
    rw [Function.update_apply] at hts
    split at hts
    next heq =>
      have hstored := RateLimiter.requestTimestamps_next (s.limiters call.process)
        ⟨call.principalId, call.action, s.now⟩
      rw [RateLimiter.next] at hstored
      rw [hstored, InsertionMap.get_set] at hts
      split at hts
      · rw [Option.getD_some] at hts
        rcases List.mem_append.mp hts with hts | hts
        · exact h.past _ _ ts (List.mem_filter.mp hts).1
        · split at hts
          · exact (List.mem_singleton.mp hts).le
          · cases hts
      · exact h.past _ k ts hts
    next => exact h.past process k ts hts

theorem Local.step {options : RateLimiterOptions} (h : Local options s) {e : LimitEvent}
    (hs : s.step e = some s') : Local options s' := by
  have harrive : ∀ call, Local options (s.arrive call) := by
    intro call
    rw [arrive_eq]
    exact ⟨h.limits, h.windowMs, h.maxRequests, h.past⟩
  have hphase : ∀ {s : RedisLimiter} (i : ℕ) (call : RedisCall) (phase : LimitPhase),
      Local options s → Local options (s.setPhase i call phase) :=
    fun i call phase h => ⟨h.limits, h.windowMs, h.maxRequests, h.past⟩
  cases e with
  | start process principalId action =>
    cases hs
    exact ⟨h.limits, h.windowMs, h.maxRequests, h.past⟩
  | command i delivery =>
    obtain ⟨call, -, hs⟩ := Option.bind_eq_some_iff.mp hs
    split at hs
    · cases hs
    · cases hs
      cases delivery with
      | replied => exact hphase i call _ (harrive call)
      | lost => exact (harrive call).fallback i call
      | refused => exact h.fallback i call
  | crash i arrives =>
    obtain ⟨call, -, hs⟩ := Option.bind_eq_some_iff.mp hs
    split at hs
    · cases hs
    · cases hs
      cases arrives with
      | true => exact hphase i call _ (harrive call)
      | false => exact hphase i call _ h
  | tick ms =>
    cases hs
    refine ⟨h.limits, h.windowMs, h.maxRequests, fun process k ts hts => ?_⟩
    exact (h.past process k ts hts).trans (Int.le_add_of_nonneg_right (Int.natCast_nonneg ms))

/-- The call has its answer, and may go on. -/
def LetPass (s : RedisLimiter) (n : ℕ) : Prop :=
  ∃ call answer, s.calls[n]? = some call ∧ call.phase = .returned answer ∧ answer.allowed = true

/-- The call is let pass, or will be after `k` more commands, whatever becomes of them. -/
def Admitting (s : RedisLimiter) (n k : ℕ) : Prop :=
  (k = 0 ∧ s.LetPass n) ∨ ∃ call, s.calls[n]? = some call ∧ 0 < s.maxRequests ∧
    ((s.limiters call.process).checkLimit call.principalId call.action s.now).2.allowed = true ∧
      ((k = 2 ∧ call.phase = .incr ∧ s.live (s.key call) = none) ∨
        (k = 1 ∧ call.phase = .pexpire 1))

theorem Admitting.enabled {n k : ℕ} (h : Admitting s n k) (hk : 0 < k) (delivery : Delivery) :
    ∃ s', s.step (.command n delivery) = some s' := by
  rcases h with ⟨rfl, -⟩ | ⟨call, hget, -, -, hphase⟩
  · omega
  · have hwaits : call.phase.ended = false := by
      rcases hphase with ⟨-, hphase, -⟩ | ⟨-, hphase⟩ <;> rw [hphase] <;> rfl
    refine ⟨s.deliver n call delivery, ?_⟩
    rw [step, hget, Option.bind_some, if_neg (by rw [hwaits]; exact Bool.false_ne_true)]

/-- A command brings the call closer to its answer. -/
theorem Admitting.deliver {n k : ℕ} (h : Admitting s n k) {delivery : Delivery}
    (hs : s.step (.command n delivery) = some s') : ∃ k' < k, Admitting s' n k' := by
  rcases h with ⟨-, call, answer, hget, hphase, -⟩ | ⟨call, hget, hmax, hlocal, hphase⟩
  · rw [step, hget, Option.bind_some, hphase] at hs
    cases hs
  · have hlt := (List.getElem?_eq_some_iff.mp hget).1
    have hwaits : call.phase.ended = false := by
      rcases hphase with ⟨-, hphase, -⟩ | ⟨-, hphase⟩ <;> rw [hphase] <;> rfl
    have hpos : 0 < k := by rcases hphase with ⟨rfl, -⟩ | ⟨rfl, -⟩ <;> omega
    rw [step, hget, Option.bind_some, hwaits] at hs
    cases hs
    cases delivery with
    | replied =>
      rw [RedisLimiter.deliver, setPhase, arrive_eq]
      rcases hphase with ⟨rfl, hphase, hdead⟩ | ⟨rfl, hphase⟩
      · refine ⟨1, by omega, .inr ⟨{ call with phase := s.afterReply call },
          List.getElem?_set_self hlt, hmax, hlocal, .inr ⟨rfl, ?_⟩⟩⟩
        simp [afterReply, hphase, incremented, hdead]
      · refine ⟨0, by omega, .inl ⟨rfl, { call with phase := s.afterReply call },
          ⟨true, s.maxRequests - 1, s.windowMs, ""⟩, List.getElem?_set_self hlt, ?_, rfl⟩⟩
        have hroom : ¬ s.maxRequests < 1 := by omega
        simp [afterReply, hphase, counted, hroom]
    | lost =>
      rw [RedisLimiter.deliver, RedisLimiter.fallback, arrive_eq]
      exact ⟨0, hpos, .inl ⟨rfl, _, _, List.getElem?_set_self hlt, rfl, hlocal⟩⟩
    | refused => exact ⟨0, hpos, .inl ⟨rfl, _, _, List.getElem?_set_self hlt, rfl, hlocal⟩⟩

/-- After a window without calls a limiter lets the next one pass. -/
theorem Local.allowed {options : RateLimiterOptions} (h : Local options s) {now : ℤ}
    (hnow : s.now + s.windowMs ≤ now) (process : ℕ) (principalId action : String) :
    ((s.limiters process).checkLimit principalId action now).2.allowed = true := by
  have hlimits := h.limits process
  have hnone : (s.limiters process).recent (RateLimiter.limitKey principalId action) now = [] := by
    rw [RateLimiter.recent, List.filter_eq_nil_iff]
    intro ts hts
    have hpast := h.past process _ ts hts
    rw [hlimits.windowMs, ← h.windowMs, decide_eq_true_eq]
    omega
  rw [RateLimiter.checkLimit_snd, hnone, RateLimiter.verdict, hlimits.burstLimit,
    hlimits.maxRequests]
  have hburst := RateLimiter.burstLimit_create_pos options
  have hmax := RateLimiter.maxRequests_create_pos options
  rw [if_neg (by simp [inWindow]; omega), if_neg (by simp; omega)]

end

/-- Every counter that there is has a time to live. -/
def AllExpire (s : RedisLimiter) : Prop := ∀ k c, s.live k = some c → c.expiresAt ≠ none

/-- A window without calls, and then a call whose commands meet these fates. -/
def nextCall (s : RedisLimiter) (ms process : ℕ) (principalId action : String)
    (deliveries : List Delivery) : List LimitEvent :=
  .tick ms :: .start process principalId action :: deliveries.map (.command s.calls.length)

/-- After a window without calls the next call is let pass when it is answered, and it is answered
after two commands at most, whatever becomes of them. -/
structure AdmitsAgain (sys : System RedisLimiter LimitEvent) (s : RedisLimiter) : Prop where
  passes : ∀ (ms process : ℕ) (principalId action : String) (deliveries : List Delivery)
    (s' : RedisLimiter) (call : RedisCall) (answer : RateCheck), s.windowMs ≤ ms →
    sys.runFrom s (s.nextCall ms process principalId action deliveries) = some s' →
      s'.calls[s.calls.length]? = some call → call.phase = .returned answer →
        answer.allowed = true
  returns : ∀ (ms process : ℕ) (principalId action : String) (first second : Delivery),
    s.windowMs ≤ ms → ∃ deliveries s', deliveries <+: [first, second] ∧
      sys.runFrom s (s.nextCall ms process principalId action deliveries) = some s' ∧
        s'.LetPass s.calls.length

def Ended (s : RedisLimiter) : Prop := ∀ call ∈ s.calls, call.phase.ended = true

section
variable {s : RedisLimiter} {options : RateLimiterOptions}

theorem Ended.not_owes (h : Ended s) (i : ℕ) (k : String) : ¬ s.Owes i k := by
  rintro ⟨call, count, hget, hphase, -⟩
  have hended := h call (List.mem_of_getElem? hget)
  rw [hphase] at hended
  cases hended

theorem Ended.stuck_iff (h : Ended s) : ¬ s.Stuck ↔ AllExpire s := by
  constructor
  · intro hfree k c hlive hnever
    refine hfree ⟨k, ?_, fun i => h.not_owes i k⟩
    rw [expiry, (Option.filter_eq_some_iff.mp hlive).1, Option.map_some, hnever]
  · rintro hall ⟨k, hk, -⟩
    obtain ⟨c, hc, hnever⟩ := Option.map_eq_some_iff.mp hk
    refine hall k c ?_ hnever
    rw [live, hc]
    simp [hnever]

/-- A window later no counter is left. -/
theorem AllExpire.live_later (h : AllExpire s) (hsound : Sound s) {ms : ℕ} (hms : s.windowMs ≤ ms)
    (calls : List RedisCall) (k : String) :
    live { s with now := s.now + ms, calls := calls } k = none := by
  rw [live, Option.filter_eq_none_iff]
  intro c hc hlive
  cases hexpires : c.expiresAt with
  | none =>
    refine h k c ?_ hexpires
    rw [live]
    exact Option.filter_eq_some_iff.mpr ⟨hc, by simp [hexpires]⟩
  | some t =>
    have hbound := hsound.bounded k t (by rw [expiry, hc, Option.map_some, hexpires])
    rw [hexpires, Option.all_some, decide_eq_true_eq] at hlive
    dsimp only at hlive
    omega

theorem Admitting.run {sys : System RedisLimiter LimitEvent} (hsys : sys.step = step) {n k : ℕ}
    (deliveries : List Delivery) {s s' : RedisLimiter} (h : Admitting s n k)
    (hrun : sys.runFrom s (deliveries.map (.command n)) = some s') : ∃ k', Admitting s' n k' := by
  induction deliveries generalizing s k with
  | nil => exact ⟨k, Option.some.inj hrun ▸ h⟩
  | cons delivery deliveries ih =>
    obtain ⟨next, hnext, hrun⟩ := Option.bind_eq_some_iff.mp hrun
    rw [hsys] at hnext
    obtain ⟨k', -, hnext⟩ := h.deliver hnext
    exact ih hnext hrun

/-- With as many commands as it still waits for, the call ends and is let pass. -/
theorem Admitting.ends {sys : System RedisLimiter LimitEvent} (hsys : sys.step = step) {n k : ℕ}
    (deliveries : List Delivery) {s : RedisLimiter} (h : Admitting s n k)
    (hk : k ≤ deliveries.length) :
    ∃ used s', used <+: deliveries ∧ sys.runFrom s (used.map (.command n)) = some s' ∧
      s'.LetPass n := by
  induction deliveries generalizing s k with
  | nil =>
    rcases h with ⟨-, hpass⟩ | ⟨call, -, -, -, ⟨rfl, -⟩ | ⟨rfl, -⟩⟩
    · exact ⟨[], s, List.prefix_rfl, rfl, hpass⟩
    · cases hk
    · cases hk
  | cons delivery deliveries ih =>
    rcases Nat.eq_zero_or_pos k with hzero | hpos
    · rcases h with ⟨-, hpass⟩ | ⟨call, -, -, -, ⟨rfl, -⟩ | ⟨rfl, -⟩⟩
      · exact ⟨[], s, List.nil_prefix, rfl, hpass⟩
      · cases hzero
      · cases hzero
    · obtain ⟨next, hnext⟩ := h.enabled hpos delivery
      obtain ⟨k', hless, hcloser⟩ := h.deliver hnext
      rw [List.length_cons] at hk
      obtain ⟨used, s', hused, hrun, hpass⟩ := ih hcloser (by omega)
      refine ⟨delivery::used, s', (List.prefix_cons_inj delivery).mpr hused, ?_, hpass⟩
      rw [List.map_cons, System.runFrom, hsys, hnext]
      exact hrun

/-- A window later a call that begins is let pass after two commands. -/
theorem AllExpire.admitting (h : AllExpire s) (hsound : Sound s) (hlocal : Local options s)
    {ms : ℕ} (hms : s.windowMs ≤ ms) (process : ℕ) (principalId action : String) :
    Admitting { s with
      now := s.now + ms
      calls := s.calls ++ [⟨process, principalId, action, .incr⟩] } s.calls.length 2 := by
  refine .inr ⟨_, List.getElem?_concat_length, ?_, ?_, .inl ⟨rfl, rfl, ?_⟩⟩
  · rw [hlocal.maxRequests]
    exact RateLimiter.maxRequests_create_pos options
  · apply hlocal.allowed
    dsimp only
    omega
  · exact h.live_later hsound hms _ _

theorem runFrom_nextCall {sys : System RedisLimiter LimitEvent} (hsys : sys.step = step)
    (s : RedisLimiter) (ms process : ℕ) (principalId action : String)
    (deliveries : List Delivery) :
    sys.runFrom s (s.nextCall ms process principalId action deliveries) =
      sys.runFrom { s with
        now := s.now + ms
        calls := s.calls ++ [⟨process, principalId, action, .incr⟩] }
          (deliveries.map (.command s.calls.length)) := by
  rw [nextCall, System.runFrom, hsys, step, Option.bind_some, System.runFrom, hsys, step,
    Option.bind_some]

theorem AllExpire.admitsAgain (h : AllExpire s) (hsound : Sound s) (hlocal : Local options s)
    {sys : System RedisLimiter LimitEvent} (hsys : sys.step = step) : AdmitsAgain sys s := by
  constructor
  · intro ms process principalId action deliveries s' call answer hms hrun hget hphase
    rw [runFrom_nextCall hsys] at hrun
    obtain ⟨k, hadmits⟩ :=
      (h.admitting hsound hlocal hms process principalId action).run hsys deliveries hrun
    rcases hadmits with
      ⟨-, call', answer', hget', hphase', hallowed⟩ | ⟨call', hget', -, -, hphase'⟩
    · obtain rfl := Option.some.inj (hget.symm.trans hget')
      rw [hphase, LimitPhase.returned.injEq] at hphase'
      exact hphase' ▸ hallowed
    · obtain rfl := Option.some.inj (hget.symm.trans hget')
      rw [hphase] at hphase'
      rcases hphase' with ⟨-, hphase', -⟩ | ⟨-, hphase'⟩
      · cases hphase'
      · cases hphase'
  · intro ms process principalId action first second hms
    obtain ⟨used, s', hused, hrun, hpass⟩ :=
      (h.admitting hsound hlocal hms process principalId action).ends hsys [first, second] le_rfl
    exact ⟨used, s', hused, by rw [runFrom_nextCall hsys, hrun], hpass⟩

/-- What is kept by all steps. -/
structure Kept (options : RateLimiterOptions) (s : RedisLimiter) : Prop where
  sound : Sound s
  positive : Positive s
  processes : Local options s

theorem Kept.step {s' : RedisLimiter} (h : Kept options s) {e : LimitEvent}
    (hs : s.step e = some s') : Kept options s' :=
  ⟨h.sound.changes (changes_of_step h.sound h.positive hs) (frame_of_step hs), h.positive.step hs,
    h.processes.step hs⟩

theorem kept_create (keyPrefix : String) (options : RateLimiterOptions) (now : ℤ) :
    Kept options (create keyPrefix options now) where
  sound := by
    refine ⟨?_, ?_, ?_⟩
    · rintro i k ⟨call, count, hget, -⟩
      cases hget
    · rintro i j k ⟨call, count, hget, -⟩
      cases hget
    · intro k t hk
      cases hk
  positive := fun k c hc => nomatch hc
  processes := ⟨fun _ => .refl _, rfl, rfl, fun process k ts hts => nomatch hts⟩

/-- When all calls of a run have ended, every counter expires and its principal is let pass again
after a window, exactly when no call that made a counter was abandoned before its time to live
was set. -/
theorem lockout_free_iff (keyPrefix : String) (options : RateLimiterOptions) (now : ℤ)
    (events : List LimitEvent) (s : RedisLimiter)
    (hrun : (system keyPrefix options now).run events = some s) (hended : Ended s) :
    (AllExpire s ∧ AdmitsAgain (system keyPrefix options now) s) ↔
      (system keyPrefix options now).Meets (fun s e => ¬ s.Abandons e) events := by
  have hstart := kept_create keyPrefix options now
  have hstep : ∀ s e s', Kept options s → (system keyPrefix options now).step s e = some s' →
      Kept options s' := fun s e s' h hs => h.step hs
  have hkept : Kept options s := System.runFrom_kept hstep hstart hrun
  have hfree : ¬ (create keyPrefix options now).Stuck := by
    rintro ⟨k, hk, -⟩
    cases hk
  have hmeets : (system keyPrefix options now).Meets (fun s e => ¬ s.Abandons e) events ↔
      ¬ s.Stuck := by
    refine System.meets_iff_not_doomed hstep ?_ ?_ hstart hfree hrun
    · intro s e s' h hfree hs
      exact h.sound.stuck_iff hfree (changes_of_step h.sound h.positive hs)
    · rintro s e s' ⟨h, hstuck⟩ hs
      exact ⟨h.step hs, stuck_kept hstuck (changes_of_step h.sound h.positive hs)⟩
  rw [hmeets, hended.stuck_iff]
  exact ⟨And.left, fun hall => ⟨hall, hall.admitsAgain hkept.sound hkept.processes rfl⟩⟩

/-- One request in a window, on a server that is shared by all processes. -/
def oneRequest : System RedisLimiter LimitEvent :=
  system "valax:ratelimit:" ⟨none, some 1, none, none⟩ 0

def quietCall : List LimitEvent :=
  [.start 0 "alice" "submit", .command 0 .replied, .command 0 .replied]

theorem quietCall_recovers :
    ∃ s, oneRequest.run quietCall = some s ∧ s.Ended ∧
      ((AllExpire s ∧ AdmitsAgain oneRequest s) ↔
        oneRequest.Meets (fun s e => ¬ s.Abandons e) quietCall) := by
  obtain ⟨s, hs, hended⟩ : ∃ s, oneRequest.run quietCall = some s ∧ s.Ended := by
    refine ⟨_, rfl, ?_⟩
    intro call hcall
    obtain rfl := List.mem_singleton.mp hcall
    rfl
  exact ⟨s, hs, hended, lockout_free_iff "valax:ratelimit:" ⟨none, some 1, none, none⟩ 0 quietCall s
    hs hended⟩

/-- The process crashes between the two commands. -/
def crashedCall : List LimitEvent :=
  [.start 0 "alice" "submit", .command 0 .replied, .crash 0 false]

/-- A day later the next call is the second one of its window, and it is turned away. -/
theorem crashedCall_locks_out :
    ¬∀ s, oneRequest.run crashedCall = some s → s.Ended →
      AllExpire s ∧ AdmitsAgain oneRequest s := by
  intro h
  obtain ⟨s, hs, hended, hlater⟩ : ∃ s, oneRequest.run crashedCall = some s ∧ s.Ended ∧
      ∃ s' call, oneRequest.runFrom s
        (s.nextCall 86400000 1 "alice" "submit" [.replied, .replied]) = some s' ∧
          s.windowMs ≤ 86400000 ∧ s'.calls[s.calls.length]? = some call ∧
            call.phase = .returned ⟨false, 0, 1000, "WINDOW_RATE_LIMIT_EXCEEDED"⟩ := by
    refine ⟨_, rfl, ?_, _, _, rfl, by decide, rfl, rfl⟩
    intro call hcall
    obtain rfl := List.mem_singleton.mp hcall
    rfl
  obtain ⟨s', call, hrun, hms, hget, hphase⟩ := hlater
  have hallowed :=
    (h s hs hended).2.passes 86400000 1 "alice" "submit" [.replied, .replied] s' call _ hms
    hrun hget hphase
  cases hallowed

end

end RedisLimiter
end LuaRecovery.Gateway
