import LuaRecovery.Auth.DiscordOAuth
import LuaRecovery.Lib.Runs

/-!
# The state of a login

A state is used up by the first callback that brings it, so it leads to one
session at most, and in time. A callback that brings no cookie is not bound to
the browser that the login was started in.
-/

set_option autoImplicit false

namespace LuaRecovery.Auth
open LuaRecovery.Lib

/-- A login that was started, its state being in the redirect and in the browser's cookie. -/
structure Login where
  state : List Char
  expiresAt : ℤ

/-- A callback that was let in, and when. -/
structure Callback where
  handler : CallbackHandler
  checkedAt : ℤ

structure OAuthServer where
  controller : DiscordOAuthController
  logins : List Login
  callbacks : List Callback

inductive OAuthEvent where
  | login (cookie : Option (List Char)) (draws : LoginDraws)
  | callback (request : CallbackRequest) (now : ℤ)
  | resume (i : ℕ) (answer : Except Thrown String)

def Callback.state (k : Callback) : List Char := k.handler.rawState

/-- The callback has led to a session. -/
def Callback.granted (k : Callback) : Bool :=
  match k.handler.phase with
  | .finished (.ok _) => true
  | _ => false

def Callback.resume (k : Callback) (answer : Except Thrown String) : Callback :=
  { k with handler := k.handler.resume answer }

namespace OAuthServer
variable {Claims : Type}

/-- A login draws a state that was not drawn before. -/
def step (crypto : Crypto Claims) (s : OAuthServer) : OAuthEvent → Option OAuthServer
  | .login cookie draws =>
    if draws.state ∈ s.logins.map Login.state then none
    else
      match s.controller.handleAuthorize crypto cookie draws with
      | (c, .ok _) =>
          some { s with
            controller := c
            logins := s.logins ++ [⟨draws.state, draws.now + 10 * 60 * 1000⟩] }
      | (c, .error _) => some { s with controller := c }
  | .callback request now =>
    match s.controller.beginCallback crypto request now with
    | (c, .ok handler) => some { s with controller := c, callbacks := s.callbacks ++ [⟨handler, now⟩] }
    | (c, .error _) => some { s with controller := c }
  | .resume i answer =>
    s.callbacks[i]?.map fun k => { s with callbacks := s.callbacks.set i (k.resume answer) }

def system (crypto : Crypto Claims) (start : OAuthServer) : System OAuthServer OAuthEvent where
  start := start
  step := step crypto

def sessions (s : OAuthServer) : List Callback := s.callbacks.filter Callback.granted

/-- Each state has led to one session at most, in time, and with the cookie that its login set. -/
structure Bound (s : OAuthServer) : Prop where
  once : (s.sessions.map Callback.state).Nodup
  bound : ∀ k ∈ s.sessions, ∃ login ∈ s.logins, login.state = k.state ∧
    k.checkedAt ≤ login.expiresAt ∧ k.handler.clientStateCookie = some login.state

/-- A callback whose session is about to be created came with a cookie for its state. -/
def BringsCookie (s : OAuthServer) : OAuthEvent → Prop
  | .resume i (.ok _) => ∀ k principalId, s.callbacks[i]? = some k →
      k.handler.phase = .creating principalId →
        ∃ cookie, k.handler.clientStateCookie = some cookie ∧ cookie ≠ []
  | _ => True

/-- What is known of each callback that was let in. -/
structure Admitted (logins : List Login) (k : Callback) : Prop where
  login : ∃ login ∈ logins, login.state = k.state ∧ k.checkedAt ≤ login.expiresAt
  cookie : ∀ cookie, k.handler.clientStateCookie = some cookie → cookie ≠ [] → cookie = k.state
  nonempty : k.state ≠ []

structure Sound (s : OAuthServer) : Prop where
  pending : ∀ state p, s.controller.pendingStates.get state = some p →
    (⟨state, p.expiresAt⟩ : Login) ∈ s.logins ∧ state ∉ s.callbacks.map Callback.state
  distinct : (s.callbacks.map Callback.state).Nodup
  admitted : ∀ k ∈ s.callbacks, Admitted s.logins k

/-- What the first part of a callback does: it is refused, and may use up a state, or it uses up
the state that it brings and is let in. -/
inductive Begins (c : DiscordOAuthController) (now : ℤ) :
    DiscordOAuthController → Except Thrown CallbackHandler → Prop where
  | refused (thrown : Thrown) : Begins c now c (.error thrown)
  | used (state : List Char) (thrown : Thrown) :
      Begins c now { c with pendingStates := c.pendingStates.delete state } (.error thrown)
  | admitted (p : PendingState) (h : CallbackHandler) (code codeVerifier : List Char)
      (hget : c.pendingStates.get h.rawState = some p) (htime : now ≤ p.expiresAt)
      (hcookie : ∀ cookie, h.clientStateCookie = some cookie → cookie ≠ [] → cookie = h.rawState)
      (hne : h.rawState ≠ []) (hphase : h.phase = .exchanging code codeVerifier) :
      Begins c now { c with pendingStates := c.pendingStates.delete h.rawState } (.ok h)

theorem openState_ne {crypto : Crypto Claims} {c : DiscordOAuthController}
    {combinedState rawState : List Char} (h : c.openState crypto combinedState = .ok rawState) :
    rawState ≠ [] := by
  unfold DiscordOAuthController.openState at h
  dsimp only at h
  split at h
  · cases h
  next hparts =>
    split at h
    · cases h
    · cases h
      exact fun hempty => hparts (.inl hempty)

theorem beginCallback_begins (crypto : Crypto Claims) (c : DiscordOAuthController)
    (request : CallbackRequest) (now : ℤ) :
    Begins c now (c.beginCallback crypto request now).1 (c.beginCallback crypto request now).2 := by
  unfold DiscordOAuthController.beginCallback
  split
  · exact .refused _
  split
  · exact .refused _
  · exact .refused _
  split
  · exact .refused _
  next rawState hopen =>
    have hne : rawState ≠ [] := openState_ne hopen
    split
    · exact .refused _
    next pending hget =>
      dsimp only
      split
      · exact .used rawState _
      next htime =>
        split
        · exact .used rawState _
        next cookies _ =>
          split
          next cookie hcookie =>
            split
            · exact .used rawState _
            next hsame =>
              refine .admitted pending ⟨rawState, _, _, _⟩ _ _ hget (not_lt.mp htime) ?_ hne rfl
              intro other hother _
              obtain ⟨hfound, -⟩ := Option.filter_eq_some_iff.mp hcookie
              rw [← Option.some.inj (hfound.symm.trans hother)]
              exact not_not.mp hsame
          next hnone =>
            refine .admitted pending ⟨rawState, _, _, _⟩ _ _ hget (not_lt.mp htime) ?_ hne rfl
            intro cookie hfound hne
            have hkept : (some cookie).filter (fun cookie => decide (cookie ≠ [])) = none := by
              rw [← hfound]
              exact hnone
            simp [hne] at hkept

@[simp] theorem resume_rawState (h : CallbackHandler) (answer : Except Thrown String) :
    (h.resume answer).rawState = h.rawState := by
  unfold CallbackHandler.resume
  split <;> try rfl
  split <;> rfl

@[simp] theorem resume_clientStateCookie (h : CallbackHandler) (answer : Except Thrown String) :
    (h.resume answer).clientStateCookie = h.clientStateCookie := by
  unfold CallbackHandler.resume
  split <;> try rfl
  split <;> rfl

section
variable {crypto : Crypto Claims} {s s' : OAuthServer} {k : Callback} {e : OAuthEvent}

theorem Admitted.mono {logins logins' : List Login} (h : Admitted logins k)
    (hsub : ∀ login ∈ logins, login ∈ logins') : Admitted logins' k := by
  obtain ⟨login, hmem, hlogin⟩ := h.login
  exact ⟨⟨login, hsub login hmem, hlogin⟩, h.cookie, h.nonempty⟩

theorem Admitted.resume {logins : List Login} (h : Admitted logins k)
    (answer : Except Thrown String) : Admitted logins (k.resume answer) := by
  refine ⟨?_, ?_, ?_⟩
  · simpa [Callback.state, Callback.resume] using h.login
  · simpa [Callback.state, Callback.resume] using h.cookie
  · simpa [Callback.state, Callback.resume] using h.nonempty

/-- What a step does. -/
inductive Moves (s : OAuthServer) : OAuthEvent → OAuthServer → Prop where
  | fails (e : OAuthEvent) (hnone : ∀ i answer, e ≠ .resume i answer) : Moves s e s
  | uses (request : CallbackRequest) (now : ℤ) (state : List Char) :
      Moves s (.callback request now) { s with controller := { s.controller with
        pendingStates := s.controller.pendingStates.delete state } }
  | starts (cookie : Option (List Char)) (draws : LoginDraws) (p : PendingState)
      (hnew : draws.state ∉ s.logins.map Login.state) :
      Moves s (.login cookie draws) { s with
        controller := { s.controller with
          pendingStates := s.controller.pendingStates.set draws.state p }
        logins := s.logins ++ [⟨draws.state, p.expiresAt⟩] }
  | admits (request : CallbackRequest) (now : ℤ) (p : PendingState) (h : CallbackHandler)
      (hget : s.controller.pendingStates.get h.rawState = some p) (htime : now ≤ p.expiresAt)
      (hcookie : ∀ cookie, h.clientStateCookie = some cookie → cookie ≠ [] → cookie = h.rawState)
      (hne : h.rawState ≠ []) (hphase : (⟨h, now⟩ : Callback).granted = false) :
      Moves s (.callback request now) { s with
        controller := { s.controller with
          pendingStates := s.controller.pendingStates.delete h.rawState }
        callbacks := s.callbacks ++ [⟨h, now⟩] }
  | resumes (i : ℕ) (answer : Except Thrown String) (k : Callback)
      (hget : s.callbacks[i]? = some k) :
      Moves s (.resume i answer) { s with callbacks := s.callbacks.set i (k.resume answer) }

theorem moves_of_step (hstep : s.step crypto e = some s') : Moves s e s' := by
  cases e with
  | login cookie draws =>
    obtain ⟨hnew, hstep⟩ := Option.ite_none_left_eq_some.mp hstep
    unfold DiscordOAuthController.handleAuthorize at hstep
    cases hparse : parseCookies crypto cookie with
    | none =>
      simp only [hparse] at hstep
      obtain rfl := Option.some.inj hstep
      exact .fails _ fun i answer h => by cases h
    | some cookies =>
      simp only [hparse] at hstep
      obtain rfl := Option.some.inj hstep
      exact .starts cookie draws _ hnew
  | callback request now =>
    have hbegins := beginCallback_begins crypto s.controller request now
    unfold step at hstep
    dsimp only at hstep
    generalize s.controller.beginCallback crypto request now = begun at hbegins hstep
    obtain ⟨c, answer⟩ := begun
    cases hbegins with
    | refused thrown =>
      obtain rfl := Option.some.inj hstep
      exact .fails _ fun i answer h => by cases h
    | used state thrown =>
      obtain rfl := Option.some.inj hstep
      exact .uses request now state
    | admitted p h code codeVerifier hget htime hcookie hne hphase =>
      obtain rfl := Option.some.inj hstep
      refine .admits request now p h hget htime hcookie hne ?_
      simp [Callback.granted, hphase]
  | resume i answer =>
    obtain ⟨k, hget, rfl⟩ := Option.map_eq_some_iff.mp hstep
    exact .resumes i answer k hget

theorem map_state_set {i : ℕ} (hget : s.callbacks[i]? = some k) (answer : Except Thrown String) :
    (s.callbacks.set i (k.resume answer)).map Callback.state = s.callbacks.map Callback.state := by
  rw [List.map_set]
  have hstate : (k.resume answer).state = k.state := resume_rawState k.handler answer
  obtain ⟨hlt, rfl⟩ := List.getElem?_eq_some_iff.mp hget
  rw [hstate, ← List.map_set, List.set_getElem_self]

theorem get_of_delete {V : Type} {m : InsertionMap (List Char) V} {a b : List Char} {v : V}
    (h : (m.delete a).get b = some v) : b ≠ a ∧ m.get b = some v := by
  rw [InsertionMap.get_delete] at h
  exact Option.ite_none_left_eq_some.mp h

theorem Moves.sound (hm : Moves s e s') (hs : Sound s) : Sound s' := by
  cases hm with
  | fails => exact hs
  | uses request now state =>
    refine ⟨fun other p hget => ?_, hs.distinct, hs.admitted⟩
    exact hs.pending other p (get_of_delete hget).2
  | starts cookie draws p hnew =>
    refine ⟨fun state p' hget => ?_, hs.distinct, fun k hk => (hs.admitted k hk).mono ?_⟩
    · rw [InsertionMap.get_set] at hget
      split at hget
      next heq =>
        obtain rfl := Option.some.inj hget
        subst heq
        refine ⟨by simp, fun hused => hnew ?_⟩
        obtain ⟨k, hk, hstate⟩ := List.mem_map.mp hused
        obtain ⟨login, hmem, hlogin, -⟩ := (hs.admitted k hk).login
        exact List.mem_map.mpr ⟨login, hmem, hlogin.trans hstate⟩
      next =>
        obtain ⟨hmem, hunused⟩ := hs.pending state p' hget
        exact ⟨List.mem_append.mpr (.inl hmem), hunused⟩
    · exact fun login hmem => List.mem_append.mpr (.inl hmem)
  | admits request now p h hget htime hcookie hne hphase =>
    obtain ⟨hmem, hunused⟩ := hs.pending h.rawState p hget
    refine ⟨fun state p' hget' => ?_, ?_, fun k hk => ?_⟩
    · obtain ⟨hother, hget'⟩ := get_of_delete hget'
      obtain ⟨hmem', hunused'⟩ := hs.pending state p' hget'
      refine ⟨hmem', ?_⟩
      simpa [Callback.state, hother] using hunused'
    · rw [List.map_append, List.nodup_append]
      refine ⟨hs.distinct, by simp, fun state hstate other hnew => ?_⟩
      rw [List.mem_singleton.mp hnew]
      rintro rfl
      exact hunused hstate
    · rcases List.mem_append.mp hk with hk | hk
      · exact hs.admitted k hk
      · rw [List.mem_singleton.mp hk]
        exact ⟨⟨_, hmem, rfl, htime⟩, hcookie, hne⟩
  | resumes i answer k hget =>
    have hstates := map_state_set hget answer
    refine ⟨fun state p hp => ?_, ?_, fun k' hk' => ?_⟩
    · show _ ∧ state ∉ (s.callbacks.set i (k.resume answer)).map Callback.state
      rw [hstates]
      exact hs.pending state p hp
    · show ((s.callbacks.set i (k.resume answer)).map Callback.state).Nodup
      rw [hstates]
      exact hs.distinct
    · rcases List.mem_or_eq_of_mem_set hk' with hk' | rfl
      · exact hs.admitted k' hk'
      · exact (hs.admitted k (List.mem_of_getElem? hget)).resume answer

theorem Sound.once (hs : Sound s) : (s.sessions.map Callback.state).Nodup :=
  hs.distinct.sublist (List.filter_sublist.map Callback.state)

/-- A callback leads to a session when the last service answers, or it has done so before. -/
theorem granted_of_resume {answer : Except Thrown String}
    (h : (k.resume answer).granted = true) : k.granted = true ∨
      ∃ principalId token, k.handler.phase = .creating principalId ∧ answer = .ok token := by
  cases hphase : k.handler.phase with
  | creating principalId =>
    cases answer with
    | ok token => exact .inr ⟨principalId, token, rfl, rfl⟩
    | error thrown => simp [Callback.granted, Callback.resume, CallbackHandler.resume, hphase] at h
  | finished result =>
    left
    simpa [Callback.granted, Callback.resume, CallbackHandler.resume, hphase] using h
  | rotating principalId =>
    simp [Callback.granted, Callback.resume, CallbackHandler.resume, hphase] at h
  | mapping userId =>
    cases answer with
    | error thrown => simp [Callback.granted, Callback.resume, CallbackHandler.resume, hphase] at h
    | ok principalId =>
      simp only [Callback.granted, Callback.resume, CallbackHandler.resume, hphase] at h
      by_cases hold : k.handler.oldSessionToken.any (fun token => token ≠ []) = true
      · rw [if_pos hold] at h
        cases h
      · rw [if_neg hold] at h
        cases h
  | _ =>
    cases answer <;>
      simp [Callback.granted, Callback.resume, CallbackHandler.resume, hphase] at h

theorem mem_sessions : k ∈ s.sessions ↔ k ∈ s.callbacks ∧ k.granted = true := List.mem_filter

theorem resumes_bound_iff {i : ℕ} {answer : Except Thrown String}
    (hget : s.callbacks[i]? = some k) (hs : Sound s) (hb : Bound s)
    (honce : (({ s with callbacks := s.callbacks.set i (k.resume answer) } :
      OAuthServer).sessions.map Callback.state).Nodup) :
    Bound { s with callbacks := s.callbacks.set i (k.resume answer) } ↔
      BringsCookie s (.resume i answer) := by
  have hk : k ∈ s.callbacks := List.mem_of_getElem? hget
  constructor
  · intro hb'
    cases answer with
    | error thrown => trivial
    | ok token =>
      intro k' principalId hget' hphase
      obtain rfl : k = k' := Option.some.inj (hget.symm.trans hget')
      have hgranted : (k.resume (.ok token)).granted = true := by
        simp [Callback.granted, Callback.resume, CallbackHandler.resume, hphase]
      obtain ⟨login, -, hstate, -, hcookie⟩ := hb'.bound (k.resume (.ok token))
        (mem_sessions.mpr ⟨List.mem_iff_getElem?.mpr
          ⟨i, by simp [List.getElem?_set_self', hget]⟩, hgranted⟩)
      have hkept : (k.resume (.ok token)).handler.clientStateCookie =
        k.handler.clientStateCookie := resume_clientStateCookie k.handler _
      have hsame : (k.resume (.ok token)).state = k.state := resume_rawState k.handler _
      refine ⟨login.state, by rw [← hkept, hcookie], ?_⟩
      rw [hstate, hsame]
      exact (hs.admitted k hk).nonempty
  · intro hbrings
    refine ⟨honce, fun k' hk' => ?_⟩
    obtain ⟨hmem, hgranted⟩ := mem_sessions.mp hk'
    rcases List.mem_or_eq_of_mem_set hmem with hmem | rfl
    · exact hb.bound k' (mem_sessions.mpr ⟨hmem, hgranted⟩)
    · have hkept : (k.resume answer).handler.clientStateCookie = k.handler.clientStateCookie :=
        resume_clientStateCookie k.handler answer
      have hsame : (k.resume answer).state = k.state := resume_rawState k.handler answer
      rw [hkept, hsame]
      rcases granted_of_resume hgranted with hbefore | ⟨principalId, token, hphase, rfl⟩
      · exact hb.bound k (mem_sessions.mpr ⟨hk, hbefore⟩)
      · obtain ⟨cookie, hcookie, hne⟩ := hbrings k principalId hget hphase
        obtain ⟨login, hlogin, hstate, htime⟩ := (hs.admitted k hk).login
        have hequal := (hs.admitted k hk).cookie cookie hcookie hne
        exact ⟨login, hlogin, hstate, htime, by rw [hcookie, hequal, hstate]⟩

theorem Moves.bound_iff (hm : Moves s e s') (hs : Sound s) (hb : Bound s) :
    Bound s' ↔ BringsCookie s e := by
  have honce := (hm.sound hs).once
  cases hm with
  | fails e hnone =>
    refine iff_of_true hb ?_
    cases e with
    | resume i answer => exact absurd rfl (hnone i answer)
    | _ => trivial
  | uses request now state => exact iff_of_true ⟨hb.once, hb.bound⟩ trivial
  | starts cookie draws p hnew =>
    refine iff_of_true ⟨hb.once, fun k hk => ?_⟩ trivial
    obtain ⟨login, hmem, hlogin⟩ := hb.bound k hk
    exact ⟨login, List.mem_append.mpr (.inl hmem), hlogin⟩
  | admits request now p h hget htime hcookie hne hphase =>
    refine iff_of_true ⟨honce, fun k hk => ?_⟩ trivial
    obtain ⟨hmem, hgranted⟩ := mem_sessions.mp hk
    rcases List.mem_append.mp hmem with hmem | hmem
    · exact hb.bound k (mem_sessions.mpr ⟨hmem, hgranted⟩)
    · rw [List.mem_singleton.mp hmem, hphase] at hgranted
      cases hgranted
  | resumes i answer k hget => exact resumes_bound_iff hget hs hb honce

end

/-- In every run, each state leads to one session at most, in time and for the browser that the login
was started in, exactly if each callback that leads to a session came with a cookie. -/
theorem states_bound_iff (crypto : Crypto Claims) (c : DiscordOAuthController)
    (events : List OAuthEvent) :
    let sys := system crypto ⟨{ c with pendingStates := .empty }, [], []⟩
    sys.Always Bound events ↔ sys.Meets BringsCookie events := by
  intro sys
  have hsound : sys.AlwaysFrom Sound sys.start events := by
    apply System.always_of_kept
    · exact fun s e s' hs hstep => (moves_of_step hstep).sound hs
    · exact ⟨fun state p hget => (by cases hget), List.nodup_nil, fun k hk => (by cases hk)⟩
  have hstart : Bound sys.start := ⟨List.nodup_nil, fun k hk => (by cases hk)⟩
  have hiff : ∀ s e s', Sound s → Bound s → sys.step s e = some s' →
      (Bound s' ↔ BringsCookie s e) :=
    fun s e s' hs hb hstep => (moves_of_step hstep).bound_iff hs hb
  exact System.always_iff_meets_of hiff hsound hstart

/-- Texts stand for their digests, and nothing is encoded. -/
def plainCrypto : Crypto Unit where
  hmacBase64url _ text := text
  hmacHex _ _ := ['s']
  sha256Base64url text := text
  decode _ := none
  decodeURI text := some text

def plainOAuth : System OAuthServer OAuthEvent :=
  system plainCrypto ⟨⟨"secret", "bot secret", .empty, .empty⟩, [], []⟩

/-- A login, a callback with its state, and what the services answer to it. -/
def loginWith (cookie : Option (List Char)) : List OAuthEvent :=
  [.login none ⟨['x'], ['v'], 0⟩,
    .callback ⟨none, some ['c'], some ['x', '.', 's'], cookie⟩ 1000,
    .resume 0 (.ok "access"), .resume 0 (.ok "user"), .resume 0 (.ok "principal"),
    .resume 0 (.ok "session")]

/-- Another browser brings the state and the code of the login, and gets a session. -/
theorem session_without_cookie : ¬ plainOAuth.Always Bound (loginWith none) := by
  intro h
  have hrun : (plainOAuth.run (loginWith none)).map (fun s =>
      s.sessions.map (fun k => k.handler.clientStateCookie)) = some [none] := by
    decide +kernel
  obtain ⟨s, hs, hcookies⟩ := Option.map_eq_some_iff.mp hrun
  have hnone : none ∈ s.sessions.map (fun k => k.handler.clientStateCookie) := by
    rw [hcookies]
    exact List.mem_singleton.mpr rfl
  obtain ⟨k, hk, hcookie⟩ := List.mem_map.mp hnone
  obtain ⟨login, -, -, -, hsome⟩ := (h.last hs).bound k hk
  rw [hcookie] at hsome
  cases hsome

end OAuthServer
end LuaRecovery.Auth
