import LuaRecovery.Api.Filename
import LuaRecovery.Lib.InsertionMap
import LuaRecovery.Lua.Double
import LuaRecovery.Queue.InMemoryQueue

/-!
# The Discord OAuth controller

The controller verifies the assertions of the bot, starts a login and handles
its callback. It remembers the nonces of the assertions that it accepted, and
the states of the logins that are under way. Digests and the decoding of a
payload come from outside.
-/

set_option autoImplicit false

namespace LuaRecovery.Auth
open LuaRecovery.Lib LuaRecovery.Api LuaRecovery.Queue LuaRecovery.Lua

/-- A number against a reading of the clock, which is exact. -/
def before (x : Double) (t : ℤ) : Bool :=
  match x with
  | .finite q _ => q < t
  | .infinity negative => negative
  | .nan => false

def after (x : Double) (t : ℤ) : Bool :=
  match x with
  | .finite q _ => t < q
  | .infinity negative => !negative
  | .nan => false

theorem before_mono {x : Double} {t u : ℤ} (h : before x t = true) (htu : t ≤ u) :
    before x u = true := by
  cases x with
  | finite q hq =>
    have hlt : q < t := of_decide_eq_true h
    exact decide_eq_true (hlt.trans_le (by exact_mod_cast htu))
  | infinity negative => exact h
  | nan => cases h

/-- The fields of an assertion that are checked: a time is there as a number unless it counts as
false, a text where it is one. The rest of it is handed on. -/
structure Payload (Claims : Type) where
  iss : Option String
  aud : Option String
  exp : Option Double
  iat : Option Double
  nonce : Option String
  claims : Claims

/-- What is thrown: an error of the server's own, reading a field of `null`, or a cookie that
cannot be decoded. -/
inductive Thrown where
  | api (error : ApiError)
  | typeError
  | uriError

/-- The digests, what the body of an assertion decodes to, where `null` is no payload, and what the
value of a cookie decodes to. -/
structure Crypto (Claims : Type) where
  hmacBase64url : String → List Char → List Char
  hmacHex : String → List Char → List Char
  sha256Base64url : List Char → List Char
  decode : List Char → Option (Option (Payload Claims))
  decodeURI : List Char → Option (List Char)

/-- What a callback waits for: the services' answers are an access token, the id of the user, the
id of the principal, nothing, and the token of the new session. -/
inductive CallbackPhase where
  | exchanging (code codeVerifier : List Char)
  | fetching (accessToken : String)
  | mapping (userId : String)
  | rotating (principalId : String)
  | creating (principalId : String)
  | finished (result : Except Thrown String)

structure CallbackHandler where
  rawState : List Char
  clientStateCookie : Option (List Char)
  oldSessionToken : Option (List Char)
  phase : CallbackPhase

/-- The query of a callback, each value if it is there, and the header with the cookies. -/
structure CallbackRequest where
  error : Option (List Char)
  code : Option (List Char)
  state : Option (List Char)
  cookie : Option (List Char)

structure LoginDraws where
  state : List Char
  codeVerifier : List Char
  now : ℤ

structure Redirect where
  combinedState : List Char
  codeChallenge : List Char
  stateCookie : List Char
  maxAge : ℕ

structure PendingState where
  codeVerifier : List Char
  initiatingSessionId : Option (List Char)
  expiresAt : ℤ

structure DiscordOAuthController where
  sessionSecret : String
  botServiceSecret : String
  pendingStates : InsertionMap (List Char) PendingState
  seenNonces : InsertionMap String Double

def unauthorized (message : String) (status : ℕ) : Thrown :=
  .api ⟨"UNAUTHORIZED", message, status⟩

section
variable {Claims : Type}

def isSpace (c : Char) : Bool :=
  c.toNat ∈ [9, 10, 11, 12, 13, 32, 160, 0x1680, 0x2028, 0x2029, 0x202F, 0x205F, 0x3000, 0xFEFF] ∨
    (0x2000 ≤ c.toNat ∧ c.toNat ≤ 0x200A)

def trim (text : List Char) : List Char :=
  ((text.dropWhile isSpace).reverse.dropWhile isSpace).reverse

/-- One cookie of a header is a name and a value, which may hold further signs of equality. -/
def parseCookie (crypto : Crypto Claims) (list : InsertionMap (List Char) (List Char))
    (cookie : List Char) : Option (InsertionMap (List Char) (List Char)) :=
  let parts := cookie.splitOn '='
  (crypto.decodeURI (['='].intercalate (parts.drop 1))).map
    (list.set (trim (parts.headD [])))

def parseCookies (crypto : Crypto Claims) (header : Option (List Char)) :
    Option (InsertionMap (List Char) (List Char)) :=
  match header.filter (fun text => text ≠ []) with
  | none => some .empty
  | some text => (text.splitOn ';').foldlM (parseCookie crypto) .empty

/-- The checks of a payload, up to its nonce. -/
def checkPayload (payload : Payload Claims) (now : ℤ) : Except Thrown (String × Double) :=
  if payload.iss ≠ some "valax-discord-bot" then .error (unauthorized "Invalid assertion issuer" 401)
  else if payload.aud ≠ some "valax-product-api" then
    .error (unauthorized "Invalid assertion audience" 401)
  else
    match payload.exp.filter (fun exp => !before exp now) with
    | none => .error (unauthorized "Principal assertion expired" 401)
    | some exp =>
      match payload.iat.filter (fun iat => !after iat (now+30)) with
      | none => .error (unauthorized "Principal assertion issued in future" 401)
      | some _ =>
        match payload.nonce.filter (fun nonce => nonce ≠ "") with
        | none => .error (unauthorized "Assertion missing nonce" 401)
        | some nonce => .ok (nonce, exp)

namespace DiscordOAuthController

def signState (crypto : Crypto Claims) (c : DiscordOAuthController) (state : List Char) :
    List Char :=
  crypto.hmacHex c.sessionSecret ("valax-oauth-state:".toList ++ state)

/-- The payload of an assertion with the right signature. -/
def openAssertion (crypto : Crypto Claims) (c : DiscordOAuthController)
    (assertionString : Option (List Char)) : Except Thrown (Payload Claims) :=
  match assertionString.filter (fun text => text ≠ []) with
  | none => .error (unauthorized "Missing principal assertion" 401)
  | some text =>
    match text.splitOn '.' with
    | [headerB64, bodyB64, sigB64] =>
      if sigB64 ≠ crypto.hmacBase64url c.botServiceSecret (headerB64 ++ '.' :: bodyB64) then
        .error (unauthorized "Invalid assertion signature" 401)
      else
        match crypto.decode bodyB64 with
        | none => .error (unauthorized "Malformed assertion payload" 401)
        | some none => .error .typeError
        | some (some payload) => .ok payload
    | _ => .error (unauthorized "Invalid principal assertion format" 401)

/-- The clean-up of nonces that have expired. -/
def forget (seenNonces : InsertionMap String Double) (curMs : ℤ) : InsertionMap String Double :=
  seenNonces.entries.foldl (fun m entry => if before entry.2 curMs then m.delete entry.1 else m)
    seenNonces

def verifyPrincipalAssertion (crypto : Crypto Claims) (c : DiscordOAuthController)
    (assertionString : Option (List Char)) (clock : Clock) :
    DiscordOAuthController × Except Thrown (Payload Claims) :=
  match c.openAssertion crypto assertionString with
  | .error thrown => (c, .error thrown)
  | .ok payload =>
    match checkPayload payload (clock.now / 1000) with
    | .error thrown => (c, .error thrown)
    | .ok (nonce, exp) =>
      if (c.seenNonces.get nonce).isSome then
        (c, .error (unauthorized "Replayed assertion nonce" 401))
      else
        ({ c with
            seenNonces := forget (c.seenNonces.set nonce (exp.mul (.ofRat 1000))) clock.later },
          .ok payload)

/-- A login is started: the redirect carries the state with its signature, the cookie the state. -/
def handleAuthorize (crypto : Crypto Claims) (c : DiscordOAuthController)
    (cookie : Option (List Char)) (draws : LoginDraws) :
    DiscordOAuthController × Except Thrown Redirect :=
  match parseCookies crypto cookie with
  | none => (c, .error .uriError)
  | some cookies =>
    let initiatingSessionId := (cookies.get "valax_session".toList).filter (fun id => id ≠ [])
    ({ c with
        pendingStates := c.pendingStates.set draws.state
          ⟨draws.codeVerifier, initiatingSessionId, draws.now + 10 * 60 * 1000⟩ },
      .ok { combinedState := draws.state ++ '.' :: c.signState crypto draws.state
            codeChallenge := crypto.sha256Base64url draws.codeVerifier
            stateCookie := draws.state
            maxAge := 600 })

/-- The state and the signature that a callback brings, when the signature is right. -/
def openState (crypto : Crypto Claims) (c : DiscordOAuthController) (combinedState : List Char) :
    Except Thrown (List Char) :=
  let parts := combinedState.splitOn '.'
  let rawState := parts.headD []
  let sig := (parts.drop 1).headD []
  if rawState = [] ∨ sig = [] then .error (unauthorized "Malformed OAuth state" 400)
  else if sig ≠ c.signState crypto rawState then
    .error (unauthorized "Invalid OAuth state signature" 400)
  else .ok rawState

/-- The callback up to its first wait. The state is used up before its time and the cookie are
looked at, and only a cookie that is there is compared. -/
def beginCallback (crypto : Crypto Claims) (c : DiscordOAuthController) (request : CallbackRequest)
    (now : ℤ) : DiscordOAuthController × Except Thrown CallbackHandler :=
  match request.error.filter (fun text => text ≠ []) with
  | some error =>
      (c, .error (unauthorized ("Discord OAuth error: " ++ String.ofList error) 401))
  | none =>
    match request.code.filter (fun text => text ≠ []),
      request.state.filter (fun text => text ≠ []) with
    | none, _ => (c, .error (unauthorized "Missing authorization code in callback" 400))
    | some _, none => (c, .error (unauthorized "Missing OAuth state" 400))
    | some code, some combinedState =>
      match c.openState crypto combinedState with
      | .error thrown => (c, .error thrown)
      | .ok rawState =>
        match c.pendingStates.get rawState with
        | none => (c, .error (unauthorized "Unknown or replayed OAuth state" 400))
        | some pending =>
          let c := { c with pendingStates := c.pendingStates.delete rawState }
          if pending.expiresAt < now then
            (c, .error (unauthorized "OAuth transaction expired" 400))
          else
            match parseCookies crypto request.cookie with
            | none => (c, .error .uriError)
            | some cookies =>
              let clientStateCookie := cookies.get "valax_oauth_state".toList
              match clientStateCookie.filter (fun cookie => cookie ≠ []) with
              | some cookie =>
                if cookie ≠ rawState then
                  (c, .error (unauthorized "OAuth state does not match client session" 400))
                else (c, .ok ⟨rawState, clientStateCookie, cookies.get "valax_session".toList,
                  .exchanging code pending.codeVerifier⟩)
              | none => (c, .ok ⟨rawState, clientStateCookie, cookies.get "valax_session".toList,
                  .exchanging code pending.codeVerifier⟩)

end DiscordOAuthController

/-- A callback goes on with what the service that it waited for has answered. Whether the old
session could be destroyed does not matter. -/
def CallbackHandler.resume (h : CallbackHandler) (answer : Except Thrown String) :
    CallbackHandler :=
  match h.phase, answer with
  | .rotating principalId, _ => { h with phase := .creating principalId }
  | .finished _, _ => h
  | _, .error thrown => { h with phase := .finished (.error thrown) }
  | .exchanging _ _, .ok accessToken => { h with phase := .fetching accessToken }
  | .fetching _, .ok userId => { h with phase := .mapping userId }
  | .mapping _, .ok principalId =>
      if h.oldSessionToken.any (fun token => token ≠ []) then
        { h with phase := .rotating principalId }
      else { h with phase := .creating principalId }
  | .creating _, .ok token => { h with phase := .finished (.ok token) }

end
end LuaRecovery.Auth
