import LuaRecovery.Discord.AttachmentFetcher

/-!
# How far redirects are followed

Each URL that is requested was checked before. The attachment fetcher does not
count its redirects, so it makes as many requests as the servers let it; the
bot makes four at most.
-/

set_option autoImplicit false

namespace LuaRecovery.Discord
open LuaRecovery.Lib LuaRecovery.Lib.Journey LuaRecovery.Api

namespace AttachmentFetcher
variable (platform : Platform) (fetcher : AttachmentFetcher) (network : Network)

/-- The protocol, the host and the addresses of the host are those of an approved server. -/
structure Approved (log : List Url) (url : Url) : Prop where
  protocol : url.protocol = units "https:"
  allowed : url.hostname.map toLowerUnit ∈ fetcher.allowedHosts
  direct : isAddressHost (url.hostname.map toLowerUnit) = true →
    ¬ isPrivateIp (url.hostname.map toLowerUnit) = true
  resolved : ∀ ip ∈ resolveDns network log url.hostname, ¬ isPrivateIp ip = true

/-- The fetch of the URL makes at most so many requests, comes to an end, and requests approved
URLs only. -/
def BoundedAndChecked (bound : ℕ) (rawUrl : CodeUnits) : Prop :=
  ((∀ n, (run (fetchAttachment platform fetcher network) n (start rawUrl)).requests.length ≤
      bound) ∧
    ∃ n, (run (fetchAttachment platform fetcher network) n (start rawUrl)).IsSettled) ∧
  ∀ n, AtEach (Approved fetcher network)
    (run (fetchAttachment platform fetcher network) n (start rawUrl)).requests

/-- URLs that pass the checks, each but the last answered by a redirect to the next. -/
def RedirectRoute : List Url → CodeUnits → List Url → Prop
  | _, _, [] => True
  | log, rawUrl, url::rest =>
      validateUrl platform fetcher rawUrl = .ok url ∧
      (∀ ip ∈ resolveDns network log url.hostname, ¬ isPrivateIp ip = true) ∧
      (rest = [] ∨ ∃ location next, redirectOf (network.reply log url) = some location ∧
        platform.resolveUrl location url = some next ∧
        RedirectRoute (log ++ [url]) next.href rest)

variable {platform fetcher network} {log : List Url} {rawUrl : CodeUnits} {url : Url}

theorem validateUrl_ok (h : validateUrl platform fetcher rawUrl = .ok url) :
    url.protocol = units "https:" ∧ url.hostname.map toLowerUnit ∈ fetcher.allowedHosts ∧
      (isAddressHost (url.hostname.map toLowerUnit) = true →
        ¬ isPrivateIp (url.hostname.map toLowerUnit) = true) := by
  rw [validateUrl] at h
  by_cases hempty : rawUrl = []
  · rw [if_pos hempty] at h
    cases h
  · rw [if_neg hempty] at h
    cases hparse : platform.parseUrl rawUrl with
    | none =>
      rw [hparse] at h
      cases h
    | some parsed =>
      rw [hparse] at h
      dsimp only at h
      split at h
      next => cases h
      next hprotocol =>
        split at h
        next => cases h
        next hallowed =>
          split at h
          next => cases h
          next hdirect =>
            cases h
            rw [Bool.and_eq_true] at hdirect
            exact ⟨not_not.mp hprotocol, not_not.mp hallowed, fun haddress hprivate =>
              hdirect ⟨haddress, hprivate⟩⟩

/-- A reply ends the fetch or, if it is a redirect to a valid URL, leads on to it. -/
theorem onReply_cases (reply : Reply) :
    ((∃ outcome, onReply platform fetcher url reply = .answered url outcome) ∧
      ¬ ∃ location redirectUrl v, redirectOf reply = some location ∧
        platform.resolveUrl location url = some redirectUrl ∧
        validateUrl platform fetcher redirectUrl.href = .ok v) ∨
    ∃ location redirectUrl, redirectOf reply = some location ∧
      platform.resolveUrl location url = some redirectUrl ∧
      onReply platform fetcher url reply = .onward url redirectUrl.href := by
  unfold onReply
  cases hlocation : redirectOf reply with
  | none =>
    left
    constructor
    · cases reply with
      | response status location contentLength chunks ending => exact ⟨_, rfl⟩
      | failed message => exact ⟨_, rfl⟩
      | silent => exact ⟨_, rfl⟩
    · rintro ⟨location, redirectUrl, v, hsome, -⟩
      cases hsome
  | some location =>
    dsimp only
    rw [redirectTarget]
    cases hresolve : platform.resolveUrl location url with
    | none =>
      left
      refine ⟨⟨_, rfl⟩, ?_⟩
      rintro ⟨location', redirectUrl, v, hsome, hnext, -⟩
      cases hsome
      rw [hresolve] at hnext
      cases hnext
    | some redirectUrl =>
      dsimp only
      cases hvalid : validateUrl platform fetcher redirectUrl.href with
      | error message =>
        left
        refine ⟨⟨_, rfl⟩, ?_⟩
        rintro ⟨location', redirectUrl', v, hsome, hnext, hv⟩
        cases hsome
        rw [hresolve] at hnext
        cases hnext
        rw [hvalid] at hv
        cases hv
      | ok v => exact .inr ⟨location, redirectUrl, rfl, hresolve, rfl⟩

variable (platform fetcher network)

/-- A call asks for the URL that it has checked, and for no other. -/
theorem fetchAttachment_cases (log : List Url) (rawUrl : CodeUnits) :
    (∃ message, fetchAttachment platform fetcher network log rawUrl = .settled (.error message) ∧
      ∀ url, validateUrl platform fetcher rawUrl = .ok url →
        ¬ ∀ ip ∈ resolveDns network log url.hostname, ¬ isPrivateIp ip = true) ∨
    ∃ url, validateUrl platform fetcher rawUrl = .ok url ∧
      (∀ ip ∈ resolveDns network log url.hostname, ¬ isPrivateIp ip = true) ∧
      fetchAttachment platform fetcher network log rawUrl =
        onReply platform fetcher url (network.reply log url) := by
  rw [fetchAttachment]
  cases hvalid : validateUrl platform fetcher rawUrl with
  | error message =>
    refine .inl ⟨message, rfl, ?_⟩
    intro url hurl
    cases hurl
  | ok url =>
    dsimp only
    cases hip : (resolveDns network log url.hostname).find? isPrivateIp with
    | some ip =>
      refine .inl ⟨_, rfl, ?_⟩
      intro url' hurl hclean
      cases hurl
      exact hclean ip (List.mem_of_find?_eq_some hip) (List.find?_some hip)
    | none => exact .inr ⟨url, rfl, List.find?_eq_none.mp hip, rfl⟩

variable {platform fetcher network}

theorem approved_of_asks (h : Asks (fetchAttachment platform fetcher network) log rawUrl url) :
    Approved fetcher network log url := by
  rcases fetchAttachment_cases platform fetcher network log rawUrl with
    ⟨message, hturn, -⟩ | ⟨target, hvalid, hclean, hturn⟩
  · rw [Asks, hturn] at h
    rcases h with ⟨outcome, heq⟩ | ⟨next, heq⟩
    · cases heq
    · cases heq
  · have hurl : url = target := by
      rw [Asks, hturn] at h
      rcases onReply_cases (network.reply log target) with
        ⟨⟨outcome, hanswer⟩, -⟩ | ⟨location, redirectUrl, -, -, hanswer⟩
      · rw [hanswer] at h
        rcases h with ⟨outcome', heq⟩ | ⟨next, heq⟩
        · cases heq
          rfl
        · cases heq
      · rw [hanswer] at h
        rcases h with ⟨outcome', heq⟩ | ⟨next, heq⟩
        · cases heq
        · cases heq
          rfl
    rw [hurl]
    obtain ⟨hprotocol, hallowed, hdirect⟩ := validateUrl_ok hvalid
    exact ⟨hprotocol, hallowed, hdirect, hclean⟩

/-- Every URL that a fetch requests was approved when it was requested. -/
theorem requests_approved (n : ℕ) (rawUrl : CodeUnits) : AtEach (Approved fetcher network)
    (run (fetchAttachment platform fetcher network) n (start rawUrl)).requests :=
  run_approved (fun _ _ _ => approved_of_asks) n (.calling rawUrl) atEach_nil

/-- The routes of the fetch are those of the servers' redirects. -/
theorem isRoute_iff {route : List Url} :
    IsRoute (fetchAttachment platform fetcher network) log rawUrl route ↔
      RedirectRoute platform fetcher network log rawUrl route := by
  induction route generalizing log rawUrl with
  | nil => exact Iff.rfl
  | cons url rest ih =>
    rw [IsRoute, RedirectRoute]
    rcases fetchAttachment_cases platform fetcher network log rawUrl with
      ⟨message, hturn, hnot⟩ | ⟨target, hvalid, hclean, hturn⟩
    · rw [hturn]
      constructor
      · rintro (⟨⟨outcome, heq⟩, -⟩ | ⟨next, heq, -⟩)
        · cases heq
        · cases heq
      · intro hroute
        exact absurd hroute.2.1 (hnot url hroute.1)
    · have hurl : validateUrl platform fetcher rawUrl = .ok url ↔ target = url := by
        rw [hvalid, Except.ok.injEq]
      rw [hturn, hurl]
      rcases onReply_cases (network.reply log target) with
        ⟨⟨outcome, hanswer⟩, hends⟩ | ⟨location, redirectUrl, hlocation, hresolve, hanswer⟩
      · rw [hanswer]
        constructor
        · rintro (⟨⟨outcome', heq⟩, hrest⟩ | ⟨next, heq, -⟩)
          · cases heq
            exact ⟨rfl, hclean, .inl hrest⟩
          · cases heq
        · rintro ⟨rfl, -, hrest | ⟨location, next, hlocation, hresolve, hroute⟩⟩
          · exact .inl ⟨⟨outcome, rfl⟩, hrest⟩
          · cases rest with
            | nil => exact .inl ⟨⟨outcome, rfl⟩, rfl⟩
            | cons v rest => exact absurd ⟨location, next, v, hlocation, hresolve, hroute.1⟩ hends
      · rw [hanswer]
        constructor
        · rintro (⟨⟨outcome, heq⟩, -⟩ | ⟨next, heq, hroute⟩)
          · cases heq
          · cases heq
            exact ⟨rfl, hclean, .inr ⟨location, redirectUrl, hlocation, hresolve, ih.mp hroute⟩⟩
        · rintro ⟨rfl, -, hrest⟩
          refine .inr ⟨redirectUrl.href, rfl, ?_⟩
          rcases hrest with rfl | ⟨location', next, hlocation', hresolve', hroute⟩
          · trivial
          · cases hlocation.symm.trans hlocation'
            cases hresolve.symm.trans hresolve'
            exact ih.mpr hroute

/-- The fetch is bounded exactly where the redirects of the servers are. -/
theorem redirects_bounded_iff (bound : ℕ) (rawUrl : CodeUnits) :
    BoundedAndChecked platform fetcher network bound rawUrl ↔
      ∀ route, RedirectRoute platform fetcher network [] rawUrl route → route.length ≤ bound := by
  rw [BoundedAndChecked, and_iff_left (fun n => requests_approved n rawUrl), bounded_iff]
  exact forall_congr' fun route => imp_congr_left isRoute_iff

def attachmentUrl : Url where
  href := units "https://cdn.discordapp.com/attachments/1/script.lua"
  protocol := units "https:"
  username := []
  password := []
  hostname := units "cdn.discordapp.com"
  port := []
  pathname := units "/attachments/1/script.lua"

/-- A platform that knows one URL. -/
def onePlatform : Platform where
  parseUrl text := if text = attachmentUrl.href then some attachmentUrl else none
  resolveUrl text _ := if text = attachmentUrl.href then some attachmentUrl else none
  utf8Text bytes := bytes
  decodeURIComponent text := some text

/-- A server that redirects each request to the same place. -/
def selfRedirect : Network where
  addresses _ _ := .ok [units "162.159.130.233"]
  reply _ _ := .response 302 (some attachmentUrl.href) none [] .complete

theorem selfRedirect_route (log : List Url) (n : ℕ) :
    RedirectRoute onePlatform (create {}) selfRedirect log attachmentUrl.href
      (List.replicate n attachmentUrl) := by
  induction n generalizing log with
  | zero => trivial
  | succ n ih =>
    have hvalid : validateUrl onePlatform (create {}) attachmentUrl.href = .ok attachmentUrl :=
      rfl
    rw [List.replicate_succ, RedirectRoute]
    refine ⟨hvalid, ?_, .inr ⟨attachmentUrl.href, attachmentUrl, rfl, rfl, ih _⟩⟩
    intro ip hip
    rw [List.mem_singleton.mp hip]
    decide

/-- No number bounds the requests. -/
theorem redirects_unbounded : ¬ ∃ bound, ∀ (network : Network) (rawUrl : CodeUnits),
    BoundedAndChecked onePlatform (create {}) network bound rawUrl := by
  rintro ⟨bound, hall⟩
  have hle := bounded_iff.mp (hall selfRedirect attachmentUrl.href).1 _
    (isRoute_iff.mpr (selfRedirect_route [] (bound+1)))
  rw [List.length_replicate] at hle
  omega

end AttachmentFetcher

namespace SafeFetch
variable (platform : Platform) (network : Network)

theorem onReply_onward {url r : Url} {maxBytes redirectCount : ℕ} {reply : Reply}
    {next : CodeUnits × ℕ}
    (h : onReply platform url maxBytes redirectCount reply = .onward r next) :
    next.2 = redirectCount+1 := by
  cases reply with
  | failed message => cases h
  | silent => cases h
  | response status location contentLength chunks ending =>
    rw [onReply] at h
    split at h
    next =>
      split at h
      next => cases h
      next =>
        split at h
        next => cases h
        next =>
          cases h
          rfl
    next =>
      split at h
      next => cases h
      next => cases h

theorem fetchSource_asks {maxBytes : ℕ} {log : List Url} {call : CodeUnits × ℕ} {r : Url}
    (h : Asks (fetchSource platform network maxBytes) log call r) : call.2 ≤ MAX_REDIRECTS := by
  by_contra hover
  have hturn : fetchSource platform network maxBytes log call =
      .settled (.error (units "The link redirected too many times.")) := by
    rw [fetchSource, if_pos (not_le.mp hover)]
  rw [Asks, hturn] at h
  rcases h with ⟨outcome, heq⟩ | ⟨next, heq⟩
  · cases heq
  · cases heq

theorem fetchSource_onward {maxBytes : ℕ} {log : List Url} {call next : CodeUnits × ℕ} {r : Url}
    (h : fetchSource platform network maxBytes log call = .onward r next) :
    next.2 = call.2+1 := by
  rw [fetchSource] at h
  split at h
  next => cases h
  next =>
    split at h
    next => cases h
    next => exact onReply_onward platform h

/-- The bot makes four requests at most. -/
theorem fetchSource_bounded (maxBytes : ℕ) (rawUrl : CodeUnits) :
    (∀ n, (run (fetchSource platform network maxBytes) n (start (rawUrl, 0))).requests.length ≤
        MAX_REDIRECTS+1) ∧
      ∃ n, (run (fetchSource platform network maxBytes) n (start (rawUrl, 0))).IsSettled := by
  rw [bounded_iff]
  intro route hroute
  apply route_le (fun call => MAX_REDIRECTS+1-call.2) _ _ hroute
  · intro log call r hasks
    have hle := fetchSource_asks platform network hasks
    omega
  · intro log call r next hturn
    have hle := fetchSource_asks platform network (.inr ⟨next, hturn⟩)
    have hnext := fetchSource_onward platform network hturn
    omega

end SafeFetch

end LuaRecovery.Discord
