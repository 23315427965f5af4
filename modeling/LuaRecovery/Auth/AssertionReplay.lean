import LuaRecovery.Auth.DiscordOAuth
import LuaRecovery.Lib.Runs

/-!
# Replayed assertions

A nonce is forgotten as soon as the clock, in milliseconds, has passed the start
of the second in which its assertion expires. The expiry check counts in whole
seconds and takes the assertion until the end of that second.
-/

set_option autoImplicit false

namespace LuaRecovery.Auth
open LuaRecovery.Lib LuaRecovery.Queue LuaRecovery.Lua

/-- An assertion that was accepted, and the time of the clean-up after it. -/
structure Accepted where
  nonce : String
  exp : Double
  cleanedAt : ℤ

/-- The time until which the nonce of an accepted assertion is remembered. -/
def Accepted.expMs (a : Accepted) : Double := a.exp.mul (.ofRat 1000)

/-- The controller with the history of what it accepted; its clock does not go back. -/
structure Verifier where
  controller : DiscordOAuthController
  accepted : List Accepted
  now : ℤ

structure VerifyCall where
  assertionString : Option (List Char)
  clock : Clock

namespace Verifier
variable {Claims : Type}

/-- What a call finds in an assertion that passes all checks but the last. -/
def valid (crypto : Crypto Claims) (c : DiscordOAuthController) (call : VerifyCall) :
    Option (String × Double) :=
  match c.openAssertion crypto call.assertionString with
  | .error _ => none
  | .ok payload => (checkPayload payload (call.clock.now / 1000)).toOption

def system (crypto : Crypto Claims) (start : Verifier) : System Verifier VerifyCall where
  start := start
  step v call :=
    if v.now ≤ call.clock.now ∧ call.clock.now ≤ call.clock.later then
      match v.controller.verifyPrincipalAssertion crypto call.assertionString call.clock,
        valid crypto v.controller call with
      | (c, .ok _), some (nonce, exp) =>
          some ⟨c, v.accepted ++ [⟨nonce, exp, call.clock.later⟩], call.clock.later⟩
      | (c, _), _ => some ⟨c, v.accepted, call.clock.later⟩
    else none

def AtMostOnce (v : Verifier) : Prop := (v.accepted.map Accepted.nonce).Nodup

/-- An assertion that would pass, but for a nonce that was accepted before: since then no assertion
has been accepted after the time until which that nonce is remembered. -/
def StillRemembered (crypto : Crypto Claims) (v : Verifier) (call : VerifyCall) : Prop :=
  ∀ nonce exp, valid crypto v.controller call = some (nonce, exp) →
    ∀ earlier ∈ v.accepted, earlier.nonce = nonce → ∀ other ∈ v.accepted,
      before earlier.expMs other.cleanedAt = false

/-- The nonces that are remembered are those of the assertions that no clean-up came after. -/
structure Sound (v : Verifier) : Prop where
  seen : ∀ nonce expMs, v.controller.seenNonces.get nonce = some expMs ↔
    ∃ a ∈ v.accepted, a.nonce = nonce ∧ a.expMs = expMs ∧
      ∀ other ∈ v.accepted, before a.expMs other.cleanedAt = false
  past : ∀ a ∈ v.accepted, a.cleanedAt ≤ v.now

/-- A call is refused, or it is accepted under a nonce that is not remembered. -/
inductive Calls (crypto : Crypto Claims) (v : Verifier) (call : VerifyCall) : Verifier → Prop where
  | refused (hlate : v.now ≤ call.clock.later)
      (h : ∀ nonce exp, valid crypto v.controller call = some (nonce, exp) →
        v.controller.seenNonces.get nonce ≠ none) :
      Calls crypto v call { v with now := call.clock.later }
  | accepted (nonce : String) (exp : Double) (c : DiscordOAuthController)
      (hlate : v.now ≤ call.clock.later)
      (hvalid : valid crypto v.controller call = some (nonce, exp))
      (hnew : v.controller.seenNonces.get nonce = none)
      (hc : c.seenNonces = DiscordOAuthController.forget
        (v.controller.seenNonces.set nonce (exp.mul (.ofRat 1000))) call.clock.later) :
      Calls crypto v call
        ⟨c, v.accepted ++ [⟨nonce, exp, call.clock.later⟩], call.clock.later⟩

section
variable {crypto : Crypto Claims} {v v' : Verifier} {call : VerifyCall}

theorem calls_of_step {start : Verifier} (hstep : (system crypto start).step v call = some v') :
    Calls crypto v call v' := by
  obtain ⟨⟨hnow, hlater⟩, hstep⟩ := Option.ite_none_right_eq_some.mp hstep
  have hlate : v.now ≤ call.clock.later := hnow.trans hlater
  unfold DiscordOAuthController.verifyPrincipalAssertion at hstep
  cases hopen : v.controller.openAssertion crypto call.assertionString with
  | error thrown =>
    have hvalid : valid crypto v.controller call = none := by rw [valid, hopen]
    simp only [hopen, hvalid] at hstep
    obtain rfl := Option.some.inj hstep
    exact .refused hlate fun nonce exp h => by rw [hvalid] at h; cases h
  | ok payload =>
    cases hcheck : checkPayload payload (call.clock.now / 1000) with
    | error thrown =>
      have hvalid : valid crypto v.controller call = none := by
        simp only [valid, hopen, hcheck, Except.toOption]
      simp only [hopen, hcheck, hvalid] at hstep
      obtain rfl := Option.some.inj hstep
      exact .refused hlate fun nonce exp h => by rw [hvalid] at h; cases h
    | ok found =>
      obtain ⟨nonce, exp⟩ := found
      have hvalid : valid crypto v.controller call = some (nonce, exp) := by
        simp only [valid, hopen, hcheck, Except.toOption]
      cases hseen : v.controller.seenNonces.get nonce with
      | some expMs =>
        simp only [hopen, hcheck, hseen, hvalid, Option.isSome_some, if_true] at hstep
        obtain rfl := Option.some.inj hstep
        refine .refused hlate fun nonce' exp' h => ?_
        obtain ⟨rfl, rfl⟩ := Prod.mk.inj (Option.some.inj (hvalid.symm.trans h))
        simp [hseen]
      | none =>
        simp only [hopen, hcheck, hseen, hvalid, Option.isSome_none, Bool.false_eq_true,
          if_false] at hstep
        obtain rfl := Option.some.inj hstep
        exact .accepted nonce exp _ hlate hvalid hseen rfl

theorem get_forget (seenNonces : InsertionMap String Double) (curMs : ℤ) (nonce : String) :
    (DiscordOAuthController.forget seenNonces curMs).get nonce =
      (seenNonces.get nonce).filter (fun expMs => !before expMs curMs) :=
  seenNonces.get_foldl_entries (fun expMs => before expMs curMs) nonce

/-- An accepted nonce is one that was never accepted before exactly if it was still remembered. -/
theorem Calls.once_iff (hcall : Calls crypto v call v') (hs : Sound v) (honce : AtMostOnce v) :
    AtMostOnce v' ↔ StillRemembered crypto v call := by
  cases hcall with
  | refused hlate h =>
    refine iff_of_true honce ?_
    rintro nonce exp hvalid earlier hmem rfl other hother
    obtain ⟨expMs, hget⟩ := Option.ne_none_iff_exists'.mp (h earlier.nonce exp hvalid)
    obtain ⟨a, ha, hnonce, -, hkept⟩ := (hs.seen earlier.nonce expMs).mp hget
    obtain rfl : a = earlier := List.inj_on_of_nodup_map honce ha hmem hnonce
    exact hkept other hother
  | accepted nonce exp c hlate hvalid hnew hc =>
    have hiff : AtMostOnce ⟨c, v.accepted ++ [⟨nonce, exp, call.clock.later⟩],
        call.clock.later⟩ ↔ ∀ a ∈ v.accepted, a.nonce ≠ nonce := by
      rw [AtMostOnce, List.map_append, List.nodup_append]
      simp [show (v.accepted.map Accepted.nonce).Nodup from honce]
    rw [hiff]
    constructor
    · intro hother nonce' exp' hvalid' earlier hmem hnonce
      obtain ⟨rfl, rfl⟩ := Prod.mk.inj (Option.some.inj (hvalid.symm.trans hvalid'))
      exact absurd hnonce (hother earlier hmem)
    · intro hkept a ha hnonce
      have hget := (hs.seen nonce a.expMs).mpr ⟨a, ha, hnonce, rfl,
        hkept nonce exp hvalid a ha hnonce⟩
      rw [hnew] at hget
      cases hget

/-- The last clean-up decides, as the clock does not go back. -/
theorem kept_iff {accepted : List Accepted} {last : Accepted}
    (hpast : ∀ a ∈ accepted, a.cleanedAt ≤ last.cleanedAt) (x : Double) :
    (∀ other ∈ accepted ++ [last], before x other.cleanedAt = false) ↔
      before x last.cleanedAt = false := by
  constructor
  · exact fun h => h last (by simp)
  · intro h other hother
    rcases List.mem_append.mp hother with hother | hother
    · by_contra hbefore
      have hlast := before_mono (Bool.eq_true_of_not_eq_false hbefore) (hpast other hother)
      rw [h] at hlast
      cases hlast
    · rwa [List.mem_singleton.mp hother]

/-- The entries after an acceptance: the new one and the old ones, less those that are cleaned up. -/
theorem seen_accepted (hs : Sound v) (last : Accepted)
    (hpast : ∀ a ∈ v.accepted, a.cleanedAt ≤ last.cleanedAt)
    (hnew : ∀ a ∈ v.accepted, a.nonce ≠ last.nonce) (nonce : String) (expMs : Double) :
    (DiscordOAuthController.forget (v.controller.seenNonces.set last.nonce last.expMs)
        last.cleanedAt).get nonce = some expMs ↔
      ∃ a ∈ v.accepted ++ [last], a.nonce = nonce ∧ a.expMs = expMs ∧
        ∀ other ∈ v.accepted ++ [last], before a.expMs other.cleanedAt = false := by
  simp only [kept_iff hpast]
  rw [get_forget, InsertionMap.get_set, Option.filter_eq_some_iff, Bool.not_eq_true']
  constructor
  · rintro ⟨hget, hkept⟩
    split at hget
    next heq =>
      obtain rfl := Option.some.inj hget
      exact ⟨last, by simp, heq.symm, rfl, hkept⟩
    next =>
      obtain ⟨a, ha, hnonce, rfl, -⟩ := (hs.seen nonce expMs).mp hget
      exact ⟨a, List.mem_append.mpr (.inl ha), hnonce, rfl, hkept⟩
  · rintro ⟨a, ha, hnonce, rfl, hkept⟩
    refine ⟨?_, hkept⟩
    rcases List.mem_append.mp ha with ha | ha
    · rw [if_neg fun heq => hnew a ha (hnonce.trans heq), hs.seen]
      refine ⟨a, ha, hnonce, rfl, fun other hother => ?_⟩
      exact (kept_iff hpast a.expMs).mpr hkept other (List.mem_append.mpr (.inl hother))
    · obtain rfl := List.mem_singleton.mp ha
      rw [if_pos hnonce.symm]

theorem Calls.sound (hcall : Calls crypto v call v') (hs : Sound v) (honce : AtMostOnce v') :
    Sound v' := by
  cases hcall with
  | refused hlate h => exact ⟨hs.seen, fun a ha => (hs.past a ha).trans hlate⟩
  | accepted nonce exp c hlate hvalid hnew hc =>
    have hpast : ∀ a ∈ v.accepted, a.cleanedAt ≤ call.clock.later :=
      fun a ha => (hs.past a ha).trans hlate
    constructor
    · intro n expMs
      rw [AtMostOnce, List.map_append, List.nodup_append] at honce
      have hfirst : ∀ a ∈ v.accepted, a.nonce ≠ nonce := by simpa using honce.2.2
      show c.seenNonces.get n = some expMs ↔ _
      rw [hc]
      exact seen_accepted hs ⟨nonce, exp, call.clock.later⟩ hpast hfirst n expMs
    · intro a ha
      rcases List.mem_append.mp ha with ha | ha
      · exact hpast a ha
      · rw [List.mem_singleton.mp ha]

/-- The controller at its start, when nothing was accepted. -/
def fresh (c : DiscordOAuthController) (now : ℤ) : Verifier :=
  ⟨{ c with seenNonces := .empty }, [], now⟩

/-- In every run, each nonce is accepted at most once exactly if none comes again, in an assertion
that would pass, after it was cleaned up. -/
theorem assertions_once_iff (crypto : Crypto Claims) (c : DiscordOAuthController) (now : ℤ)
    (calls : List VerifyCall) :
    (system crypto (fresh c now)).Always AtMostOnce calls ↔
      (system crypto (fresh c now)).Meets (StillRemembered crypto) calls := by
  have hsound : Sound (fresh c now) := ⟨fun nonce expMs => by simp [fresh], by simp [fresh]⟩
  have hkeep : ∀ v call v', Sound v → AtMostOnce v →
      (system crypto (fresh c now)).step v call = some v' → AtMostOnce v' → Sound v' :=
    fun v call v' hs _ hstep honce => (calls_of_step hstep).sound hs honce
  have hiff : ∀ v call v', Sound v → AtMostOnce v →
      (system crypto (fresh c now)).step v call = some v' →
        (AtMostOnce v' ↔ StillRemembered crypto v call) :=
    fun v call v' hs honce hstep => (calls_of_step hstep).once_iff hs honce
  exact System.always_iff_meets_while hkeep hiff hsound List.nodup_nil

/-- An assertion that expires in the second 100, under digests that are all empty. -/
def oneAssertion : Crypto Unit where
  hmacBase64url _ _ := []
  hmacHex _ _ := []
  sha256Base64url _ := []
  decode _ := some (some ⟨some "valax-discord-bot", some "valax-product-api",
    some (.ofRat 100), some (.ofRat 1), some "nonce", ()⟩)
  decodeURI text := some text

def plainController : DiscordOAuthController := ⟨"secret", "bot secret", .empty, .empty⟩

def presentedAt (now : ℤ) : VerifyCall := ⟨some "..".toList, ⟨now, now⟩⟩

/-- Half a second into the second of its expiry an assertion is accepted and forgotten at once. -/
theorem replayed_in_last_second :
    ¬ (system oneAssertion (fresh plainController 0)).Always AtMostOnce
      [presentedAt 100500, presentedAt 100600] := by
  intro h
  have hrun : ((system oneAssertion (fresh plainController 0)).run
      [presentedAt 100500, presentedAt 100600]).map
        (fun v => v.accepted.map Accepted.nonce) = some ["nonce", "nonce"] := by
    decide +kernel
  obtain ⟨v, hv, hnonces⟩ := Option.map_eq_some_iff.mp hrun
  have honce : (v.accepted.map Accepted.nonce).Nodup := h.last hv
  rw [hnonces] at honce
  exact absurd honce (by decide)

end
end Verifier
end LuaRecovery.Auth
