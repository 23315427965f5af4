import LuaRecovery.Gateway.AdmissionLog

/-!
# What the limiter lets pass

A call passes exactly where neither window of its log is full. So no interval of a
window's length holds more admitted calls than its limit, a rejected call leaves
no trace, and the calls of others do not matter.
-/

set_option autoImplicit false

namespace LuaRecovery.Gateway
open LuaRecovery.Lib LuaRecovery.Queue

namespace RateLimiter

/-- The calls have an action without a colon and a clock that does not go back. -/
structure Orderly (calls : List LimitCall) : Prop where
  action : ∀ c ∈ calls, ':' ∉ c.action.toList
  clock : calls.Pairwise (fun c d => c.now ≤ d.now)

/-- The limits hold in every interval, and nothing but the admitted calls counts. -/
structure Exact (l : RateLimiter) (calls : List LimitCall) : Prop where
  window : ∀ principalId action (t : ℤ),
    (l.admitted principalId action calls).countP
      (fun ts => decide (t ≤ ts ∧ ts < t + l.windowMs)) ≤ l.maxRequests
  window_end : ∀ principalId action (t : ℤ),
    (l.admitted principalId action calls).countP
      (fun ts => decide (t < ts ∧ ts ≤ t + l.windowMs)) ≤ l.maxRequests
  burst : ∀ principalId action (t : ℤ),
    (l.admitted principalId action calls).countP
      (fun ts => decide (t ≤ ts ∧ ts < t + 1000)) ≤ l.burstLimit
  burst_end : ∀ principalId action (t : ℤ),
    (l.admitted principalId action calls).countP
      (fun ts => decide (t < ts ∧ ts ≤ t + 1000)) ≤ l.burstLimit
  rejected_inert : ∀ before c between d after,
    calls = before ++ c :: (between ++ d :: after) →
      ((l.afterCalls before).answer c).allowed = false →
        (l.afterCalls (before ++ c :: between)).answer d =
          (l.afterCalls (before ++ between)).answer d
  rejected_full : ∀ before c after, calls = before ++ c :: after →
    ((l.afterCalls before).answer c).allowed = false →
      l.burstLimit ≤ (inWindow 1000 c.now (l.admitted c.principalId c.action before)).length ∨
        l.maxRequests ≤
          (inWindow (l.windowMs : ℤ) c.now (l.admitted c.principalId c.action before)).length
  independent : ∀ before c after, calls = before ++ c :: after →
    (l.afterCalls before).answer c =
      (l.afterCalls (before.filter (isOf c.principalId c.action))).answer c

theorem Orderly.sublist {calls calls' : List LimitCall} (h : Orderly calls)
    (hsub : calls'.Sublist calls) : Orderly calls' :=
  ⟨fun c hc => h.action c (hsub.subset hc), h.clock.sublist hsub⟩

/-- No call of the history is later than the one after it. -/
theorem Orderly.le_next {before after : List LimitCall} {c : LimitCall}
    (h : Orderly (before ++ c :: after)) : ∀ b ∈ before, b.now ≤ c.now := by
  intro b hb
  exact (List.pairwise_append.mp h.clock).2.2 b hb c List.mem_cons_self

theorem Orderly.before {before after : List LimitCall} {c : LimitCall}
    (h : Orderly (before ++ c :: after)) : Orderly before := h.sublist (List.sublist_append_left _ _)

theorem Orderly.action_next {before after : List LimitCall} {c : LimitCall}
    (h : Orderly (before ++ c :: after)) : ':' ∉ c.action.toList :=
  h.action c (List.mem_append_right before List.mem_cons_self)

section
variable {l : RateLimiter} (hempty : l.requestTimestamps = .empty)
include hempty

theorem tracks_afterCalls {calls : List LimitCall} (h : Orderly calls) {now : ℤ}
    (hnow : ∀ c ∈ calls, c.now ≤ now) : Tracks l (l.afterCalls calls) calls now := by
  induction calls using List.reverseRecOn generalizing now with
  | nil =>
    refine ⟨.refl l, fun principalId action later _ _ => ?_⟩
    rw [afterCalls, List.foldl_nil, RateLimiter.recent, hempty]
    rfl
  | append_singleton calls c ih =>
    have hc : Tracks l (l.afterCalls (calls ++ [c])) (calls ++ [c]) c.now := by
      rw [afterCalls, List.foldl_append]
      exact (ih h.before h.le_next).next c h.action_next le_rfl
    refine ⟨hc.limits, fun principalId action later haction hlater => ?_⟩
    apply hc.recent principalId action later haction
    exact (hnow c (List.mem_append_right calls List.mem_cons_self)).trans hlater

/-- The answer to the next call of an orderly history is the one that its log gives. -/
theorem answer_afterCalls {before after : List LimitCall} {c : LimitCall}
    (h : Orderly (before ++ c :: after)) :
    (l.afterCalls before).answer c =
      l.logCheck (l.admissionLog c.principalId c.action before) c.now :=
  (tracks_afterCalls hempty h.before h.le_next).answer c h.action_next le_rfl

end

theorem admitted_concat (l : RateLimiter) (principalId action : String) (calls : List LimitCall)
    (c : LimitCall) :
    l.admitted principalId action (calls ++ [c]) = l.admitted principalId action calls ++
      if isOf principalId action c && ((l.afterCalls calls).answer c).allowed then [c.now]
      else [] := by
  induction calls generalizing l with
  | nil => exact (List.append_nil _)
  | cons b calls ih =>
    rw [List.cons_append, admitted, ih, admitted, List.append_assoc]
    rfl

/-- What is let pass is what the log takes. -/
theorem admitted_eq_admissionLog {l : RateLimiter} (hempty : l.requestTimestamps = .empty)
    {calls : List LimitCall} (h : Orderly calls) (principalId action : String) :
    l.admitted principalId action calls = l.admissionLog principalId action calls := by
  induction calls using List.reverseRecOn with
  | nil => rfl
  | append_singleton calls c ih =>
    rw [admitted_concat, ih h.before, answer_afterCalls hempty h]
    by_cases hself : isOf principalId action c = true
    · obtain ⟨rfl, rfl⟩ : c.principalId = principalId ∧ c.action = action := by
        simpa [isOf] using hself
      rw [admissionLog_concat_self, joinLog, hself, Bool.true_and]
      split
      · rfl
      · exact List.append_nil _
    · rw [Bool.not_eq_true] at hself
      rw [admissionLog_concat_other l calls hself, hself, Bool.false_and]
      exact List.append_nil _

section
variable {l : RateLimiter} (hwindow : 1000 ≤ l.windowMs)
include hwindow

/-- A log lets a call pass exactly where neither of its windows is full. -/
theorem logCheck_allowed (log : List ℤ) (now : ℤ) :
    (l.logCheck log now).allowed = true ↔
      (inWindow 1000 now log).length < l.burstLimit ∧
        (inWindow (l.windowMs : ℤ) now log).length < l.maxRequests := by
  have hw : (1000 : ℤ) ≤ l.windowMs := by exact_mod_cast hwindow
  rw [logCheck, verdict, inWindow_inWindow le_rfl hw]
  split
  next hburst => simp [hburst]
  next hburst =>
    split
    next hfull => simp [hfull]
    next hroom => simp only [true_iff]; omega

theorem spaced_foldl_joinLog (times : List ℤ) :
    Spaced (l.windowMs : ℤ) l.maxRequests (times.foldl l.joinLog []) ∧
      Spaced 1000 l.burstLimit (times.foldl l.joinLog []) := by
  induction times using List.reverseRecOn with
  | nil => exact ⟨spaced_nil _ _, spaced_nil _ _⟩
  | append_singleton times now ih =>
    rw [List.foldl_append, List.foldl_cons, List.foldl_nil, joinLog]
    split
    next hallowed =>
      obtain ⟨hburst, hroom⟩ := (logCheck_allowed hwindow _ now).mp hallowed
      exact ⟨ih.1.concat hroom, ih.2.concat hburst⟩
    next => exact ih

end

/-- A rejected call is not in any log. -/
theorem admissionLog_of_rejected (l : RateLimiter) (before between : List LimitCall) (c : LimitCall)
    (hrejected :
      (l.logCheck (l.admissionLog c.principalId c.action before) c.now).allowed = false)
    (principalId action : String) :
    l.admissionLog principalId action (before ++ c :: between) =
      l.admissionLog principalId action (before ++ between) := by
  induction between using List.reverseRecOn with
  | nil =>
    rw [List.append_nil]
    by_cases hself : isOf principalId action c = true
    · obtain ⟨rfl, rfl⟩ : c.principalId = principalId ∧ c.action = action := by
        simpa [isOf] using hself
      rw [admissionLog_concat_self, joinLog, hrejected]
      rfl
    · exact admissionLog_concat_other l before (Bool.eq_false_iff.mpr hself)
  | append_singleton between b ih =>
    rw [← List.cons_append, ← List.append_assoc, ← List.append_assoc]
    by_cases hself : isOf principalId action b = true
    · obtain ⟨rfl, rfl⟩ : b.principalId = principalId ∧ b.action = action := by
        simpa [isOf] using hself
      rw [admissionLog_concat_self, admissionLog_concat_self, ih]
    · rw [Bool.not_eq_true] at hself
      rw [admissionLog_concat_other l _ hself, admissionLog_concat_other l _ hself, ih]

theorem admissionLog_filter (l : RateLimiter) (principalId action : String)
    (calls : List LimitCall) :
    l.admissionLog principalId action (calls.filter (isOf principalId action)) =
      l.admissionLog principalId action calls := by
  rw [admissionLog, List.filter_filter, admissionLog]
  simp only [Bool.and_self]

theorem requestTimestamps_create (options : RateLimiterOptions) :
    (create options).requestTimestamps = .empty := rfl

/-- The sliding-window limiter is exact. -/
theorem checkLimit_exact (options : RateLimiterOptions)
    (hwindow : 1000 ≤ (create options).windowMs) (calls : List LimitCall) (h : Orderly calls) :
    (create options).Exact calls := by
  have hempty := requestTimestamps_create options
  have hadmitted := admitted_eq_admissionLog hempty h
  refine ⟨?_, ?_, ?_, ?_, ?_, ?_, ?_⟩
  · intro principalId action t
    rw [hadmitted]
    exact (spaced_foldl_joinLog hwindow _).1.countP_Ico t
  · intro principalId action t
    rw [hadmitted]
    exact (spaced_foldl_joinLog hwindow _).1.countP_Ioc t
  · intro principalId action t
    rw [hadmitted]
    exact (spaced_foldl_joinLog hwindow _).2.countP_Ico t
  · intro principalId action t
    rw [hadmitted]
    exact (spaced_foldl_joinLog hwindow _).2.countP_Ioc t
  · intro before c between d after hsplit hrejected
    rw [hsplit] at h
    rw [answer_afterCalls hempty h] at hrejected
    have hwith : Orderly ((before ++ c :: between) ++ d :: after) := by
      rw [List.append_assoc]
      exact h
    have hwithout : Orderly ((before ++ between) ++ d :: after) := by
      rw [List.append_assoc]
      exact h.sublist ((List.sublist_cons_self c _).append_left before)
    rw [answer_afterCalls hempty hwith, answer_afterCalls hempty hwithout,
      admissionLog_of_rejected _ before between c hrejected]
  · intro before c after hsplit hrejected
    rw [hsplit] at h
    rw [answer_afterCalls hempty h] at hrejected
    rw [admitted_eq_admissionLog hempty h.before]
    have hnot := (logCheck_allowed hwindow _ c.now).not.mp (Bool.eq_false_iff.mp hrejected)
    omega
  · intro before c after hsplit
    rw [hsplit] at h
    have hfiltered : Orderly (before.filter (isOf c.principalId c.action) ++ c :: after) :=
      h.sublist (List.filter_sublist.append_right _)
    rw [answer_afterCalls hempty h, answer_afterCalls hempty hfiltered, admissionLog_filter]

/-- A limiter that lets one call of a key pass in a second. -/
def singleBurst : RateLimiterOptions := ⟨none, none, some 1, none⟩

/-- Two calls of one key at once, a call of a principal whose key differs before the last colon
only, and the first key again a second later. -/
def twoPrincipals : List LimitCall :=
  [⟨"discord:7", "submit", 0⟩, ⟨"discord:7", "submit", 5⟩, ⟨"discord", "submit", 5⟩,
   ⟨"discord:7", "submit", 1000⟩]

theorem twoPrincipals_orderly : Orderly twoPrincipals := by
  refine ⟨?_, ?_⟩
  · intro c hc
    simp only [twoPrincipals, List.mem_cons, List.not_mem_nil, or_false] at hc
    rcases hc with rfl | rfl | rfl | rfl <;> decide
  · simp [twoPrincipals]

theorem twoPrincipals_exact :
    Orderly twoPrincipals ∧ (create singleBurst).Exact twoPrincipals ∧
      (((create singleBurst).afterCalls [⟨"discord:7", "submit", 0⟩]).answer
        ⟨"discord:7", "submit", 5⟩).allowed = false ∧
      (create singleBurst).admitted "discord:7" "submit" twoPrincipals = [0, 1000] ∧
      (create singleBurst).admitted "discord" "submit" twoPrincipals = [5] :=
  ⟨twoPrincipals_orderly,
    checkLimit_exact singleBurst (by decide) twoPrincipals twoPrincipals_orderly,
    by decide, by decide, by decide⟩

end RateLimiter
end LuaRecovery.Gateway
