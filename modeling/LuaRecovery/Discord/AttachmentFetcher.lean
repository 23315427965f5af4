import LuaRecovery.Discord.PrivateIp
import LuaRecovery.Lib.Hops

/-!
# Fetching over redirects

An attachment is fetched from a host on a list, and redirects are followed. The
resolver and the servers may answer by all requests made before; the URL
standard and the decoding of texts belong to the platform. The bot fetches a
linked source in the same way, but counts the redirects.
-/

set_option autoImplicit false

namespace LuaRecovery.Discord
open LuaRecovery.Lib LuaRecovery.Api

structure Url where
  href : CodeUnits
  protocol : CodeUnits
  username : CodeUnits
  password : CodeUnits
  hostname : CodeUnits
  port : CodeUnits
  pathname : CodeUnits
  deriving DecidableEq

structure Platform where
  parseUrl : CodeUnits → Option Url
  resolveUrl : CodeUnits → Url → Option Url
  utf8Text : List ℕ → CodeUnits
  decodeURIComponent : CodeUnits → Option CodeUnits

/-- How a body comes to its end, if it does within the time. -/
inductive Ending where
  | complete
  | failed (message : CodeUnits)
  | stalled

inductive Reply where
  | response (status : ℕ) (location contentLength : Option CodeUnits)
      (chunks : List (List ℕ)) (ending : Ending)
  | failed (message : CodeUnits)
  | silent

/-- What the resolver and the servers do, by the requests so far. -/
structure Network where
  addresses : List Url → CodeUnits → Except CodeUnits (List CodeUnits)
  reply : List Url → Url → Reply

/-- The last part of a path. -/
def lastPart (pathname : CodeUnits) : CodeUnits := (pathname.splitOn 47).getLastD []

def contentLengthOf (header : Option CodeUnits) : Option ℤ :=
  Queue.parseInt ((header.filter (fun text => text ≠ [])).getD (units "0"))

/-- The bytes of a body, on top of those received before, unless they exceed the limit. -/
def receive (maxBytes : ℕ) : List ℕ → List (List ℕ) → Option (List ℕ)
  | received, [] => some received
  | received, chunk::chunks =>
      if maxBytes < received.length + chunk.length then none
      else receive maxBytes (received ++ chunk) chunks

/-- Where a response redirects to; an empty location is none. -/
def redirectOf : Reply → Option CodeUnits
  | .response status location _ _ _ =>
      if 300 ≤ status ∧ status < 400 then location.filter (fun text => text ≠ []) else none
  | _ => none

def numeral (n : ℕ) : CodeUnits := units (toString n)

structure AttachmentFetcher where
  allowedHosts : List CodeUnits
  maxBytes : ℕ
  timeoutMs : ℕ

namespace AttachmentFetcher

def defaultAllowedHosts : List CodeUnits := ["cdn.discordapp.com", "media.discordapp.net"].map units
def defaultMaxBytes : ℕ := 5*1024*1024
def defaultTimeoutMs : ℕ := 10000

structure Options where
  allowedHosts : Option (List CodeUnits) := none
  maxBytes : ℕ := 0
  timeoutMs : ℕ := 0

def create (options : Options) : AttachmentFetcher where
  allowedHosts := options.allowedHosts.getD defaultAllowedHosts
  maxBytes := if options.maxBytes = 0 then defaultMaxBytes else options.maxBytes
  timeoutMs := if options.timeoutMs = 0 then defaultTimeoutMs else options.timeoutMs

structure Attachment where
  content : CodeUnits
  bytes : ℕ
  filename : CodeUnits

variable (platform : Platform) (fetcher : AttachmentFetcher)

/-- The host is an address, not a name. -/
def isAddressHost (host : CodeUnits) : Bool :=
  (host ≠ [] && host.all (fun u => isNumeral u || u = 46)) || host.contains 58

def validateUrl (rawUrl : CodeUnits) : Except CodeUnits Url :=
  if rawUrl = [] then .error (units "SSRF_GUARD: Attachment URL is required")
  else match platform.parseUrl rawUrl with
    | none => .error (units "SSRF_GUARD: Malformed attachment URL")
    | some parsed =>
      if parsed.protocol ≠ units "https:" then
        .error (units "SSRF_GUARD: Insecure protocol \"" ++ parsed.protocol ++
          units "\". Only https is permitted.")
      else if parsed.hostname.map toLowerUnit ∉ fetcher.allowedHosts then
        .error (units "SSRF_GUARD: Target host \"" ++ parsed.hostname.map toLowerUnit ++
          units "\" is not in the approved Discord CDN allowlist")
      else if isAddressHost (parsed.hostname.map toLowerUnit) &&
          isPrivateIp (parsed.hostname.map toLowerUnit) then
        .error (units "SSRF_GUARD: Private or loopback IP addresses are strictly forbidden")
      else .ok parsed

def timedOut : CodeUnits :=
  units "SSRF_GUARD: Attachment fetch timed out after " ++ numeral fetcher.timeoutMs ++ units "ms"

def download (targetUrl : Url) (status : ℕ) (contentLength : Option CodeUnits)
    (chunks : List (List ℕ)) (ending : Ending) : Except CodeUnits Attachment :=
  if status < 200 ∨ 300 ≤ status then
    .error (units "Attachment fetch failed with HTTP " ++ numeral status)
  else if (contentLengthOf contentLength).any
      (fun declared => (fetcher.maxBytes : ℤ) < declared) then
    .error (units "ATTACHMENT_TOO_LARGE: Content-Length (" ++
      units (toString ((contentLengthOf contentLength).getD 0)) ++
      units ") exceeds limit of " ++ numeral fetcher.maxBytes ++ units " bytes")
  else match receive fetcher.maxBytes [] chunks, ending with
    | none, _ =>
        .error (units "ATTACHMENT_TOO_LARGE: Download exceeded limit of " ++
          numeral fetcher.maxBytes ++ units " bytes")
    | some received, .complete => .ok
        { content := platform.utf8Text received
          bytes := received.length
          filename :=
            if lastPart targetUrl.pathname = [] then units "script.lua"
            else lastPart targetUrl.pathname }
    | some _, .failed message => .error message
    | some _, .stalled => .error (timedOut fetcher)

/-- The destination is validated before it is followed. -/
def redirectTarget (location : CodeUnits) (targetUrl : Url) : Except CodeUnits Url :=
  match platform.resolveUrl location targetUrl with
  | none => .error (units "Invalid URL")
  | some redirectUrl => (validateUrl platform fetcher redirectUrl.href).map fun _ => redirectUrl

def resolveDns (network : Network) (log : List Url) (hostname : CodeUnits) : List CodeUnits :=
  match network.addresses log hostname with
  | .ok addresses => addresses
  | .error _ => []

def onReply (targetUrl : Url) (reply : Reply) :
    Turn Url CodeUnits (Except CodeUnits Attachment) :=
  match redirectOf reply with
  | some location =>
      match redirectTarget platform fetcher location targetUrl with
      | .ok redirectUrl => .onward targetUrl redirectUrl.href
      | .error message =>
          .answered targetUrl
            (.error (units "SSRF_GUARD: Unsafe redirect rejected: " ++ message))
  | none =>
      match reply with
      | .response status _ contentLength chunks ending =>
          .answered targetUrl
            (download platform fetcher targetUrl status contentLength chunks ending)
      | .failed message => .answered targetUrl (.error message)
      | .silent => .answered targetUrl (.error (timedOut fetcher))

/-- One call, up to the call for the redirect. -/
def fetchAttachment (network : Network) (log : List Url) (rawUrl : CodeUnits) :
    Turn Url CodeUnits (Except CodeUnits Attachment) :=
  match validateUrl platform fetcher rawUrl with
  | .error message => .settled (.error message)
  | .ok targetUrl =>
      match (resolveDns network log targetUrl.hostname).find? isPrivateIp with
      | some ip =>
          .settled (.error
            (units "SSRF_GUARD: Target host resolved to forbidden IP address: " ++ ip))
      | none => onReply platform fetcher targetUrl (network.reply log targetUrl)

end AttachmentFetcher

namespace SafeFetch

def MAX_REDIRECTS : ℕ := 3

structure Source where
  source : CodeUnits
  filename : CodeUnits

variable (platform : Platform) (network : Network)

def validatePublicHttpsUrl (log : List Url) (rawUrl : CodeUnits) : Except CodeUnits Url :=
  match platform.parseUrl rawUrl with
  | none => .error (units "The link is not a valid URL.")
  | some url =>
    if url.protocol ≠ units "https:" then .error (units "Only HTTPS links are accepted.")
    else if url.username ≠ [] ∨ url.password ≠ [] then
      .error (units "Links containing credentials are not accepted.")
    else if url.port ≠ [] ∧ url.port ≠ units "443" then
      .error (units "Only the standard HTTPS port is accepted.")
    else if url.hostname.map toLowerUnit = units "localhost" then
      .error (units "Local links are not accepted.")
    else if (isIPv4 url.hostname || isIPv6 url.hostname) && isPrivateIp url.hostname then
      .error (units "Private or local network links are not accepted.")
    else match network.addresses log url.hostname with
      | .error message => .error message
      | .ok addresses =>
        if addresses = [] ∨ addresses.any isPrivateIp then
          .error (units "The link resolves to a private or unavailable network address.")
        else .ok url

def aborted : CodeUnits := units "The operation was aborted due to timeout"

def tooLarge (maxBytes : ℕ) : CodeUnits :=
  units "The source is larger than " ++ numeral maxBytes ++ units " bytes."

def readBoundedResponse (contentLength : Option CodeUnits) (chunks : List (List ℕ))
    (ending : Ending) (maxBytes : ℕ) : Except CodeUnits (List ℕ) :=
  if (contentLengthOf contentLength).any (fun declared => (maxBytes : ℤ) < declared) then
    .error (tooLarge maxBytes)
  else match receive maxBytes [] chunks, ending with
    | none, _ => .error (tooLarge maxBytes)
    | some received, .complete => .ok received
    | some _, .failed message => .error message
    | some _, .stalled => .error aborted

def toSource (url : Url) (body : List ℕ) : Except CodeUnits Source :=
  match platform.decodeURIComponent
      (if lastPart url.pathname = [] then units "script.lua" else lastPart url.pathname) with
  | none => .error (units "URI malformed")
  | some filename => .ok ⟨platform.utf8Text body, filename.take 100⟩

def onReply (url : Url) (maxBytes redirectCount : ℕ) :
    Reply → Turn Url (CodeUnits × ℕ) (Except CodeUnits Source)
  | .failed message => .answered url (.error message)
  | .silent => .answered url (.error aborted)
  | .response status location contentLength chunks ending =>
    if 300 ≤ status ∧ status < 400 then
      match location.filter (fun text => text ≠ []) with
      | none => .answered url (.error (units "The source link returned an invalid redirect."))
      | some location =>
        match platform.resolveUrl location url with
        | none => .answered url (.error (units "Invalid URL"))
        | some next => .onward url (next.href, redirectCount+1)
    else if status < 200 ∨ 300 ≤ status then
      .answered url (.error (units "The source link returned HTTP " ++ numeral status ++ units "."))
    else .answered url
      ((readBoundedResponse contentLength chunks ending maxBytes).bind (toSource platform url))

/-- One call, with the number of redirects that led to it. -/
def fetchSource (maxBytes : ℕ) (log : List Url) (call : CodeUnits × ℕ) :
    Turn Url (CodeUnits × ℕ) (Except CodeUnits Source) :=
  if MAX_REDIRECTS < call.2 then
    .settled (.error (units "The link redirected too many times."))
  else match validatePublicHttpsUrl platform network log call.1 with
    | .error message => .settled (.error message)
    | .ok url => onReply platform url maxBytes call.2 (network.reply log url)

end SafeFetch

end LuaRecovery.Discord
