/-
Who a request is attributed to.

Behind a proxy every request comes from the proxy, and the headers say who it is for.  A
client can send the same headers itself, so they are read only where the peer is a trusted
proxy.  The edge proxy overwrites `X-Real-IP` with whom it talks to and appends the same to
whatever `X-Forwarded-For` it was sent.  Another proxy may append only, and pass on an
`X-Real-IP` that it was sent.

The sign-in endpoints are limited by what is attributed: one limiter for all of them, under
keys that begin with the scope.

How an address is written, and which addresses a network holds, is left open; an empty text is
no address.
-/
import ForexAi.Core.RateLimit
import Mathlib.Data.List.DropRight

namespace ForexAi

/-- What is read of the settings: addresses, and `trusted_proxy_cidrs`, each network by the
addresses that are in it. -/
structure ProxySettings (A : Type*) where
  /-- `_as_ip` -/
  asIp : String → Option A
  trustedProxyCidrs : List (A → Bool)
  asIp_empty : asIp "" = none

/-- The headers by their names in small letters, the first of each name. -/
abbrev Headers := String → Option String

/-- What is read of a request; `_peer_host` is `none` for a peer without an address. -/
structure HttpRequest where
  peer : Option String
  headers : Headers

/-! ### Texts -/

/-- A character that `str.strip` takes off. -/
def isSpace (c : Char) : Bool :=
  let n := c.toNat
  (0x09 ≤ n && n ≤ 0x0d) || (0x1c ≤ n && n ≤ 0x20) || n == 0x85 || n == 0xa0 || n == 0x1680 ||
    (0x2000 ≤ n && n ≤ 0x200a) || n == 0x2028 || n == 0x2029 || n == 0x202f || n == 0x205f ||
    n == 0x3000

/-- `str.strip`, on the characters. -/
def strip (cs : List Char) : List Char := (cs.dropWhile isSpace).rdropWhile isSpace

/-- The entries of an `X-Forwarded-For`, without the empty ones. -/
def forwardedEntries (forwarded : String) : List String :=
  (((forwarded.toList.splitOn ',').map strip).filter (· ≠ [])).map String.ofList

namespace ProxySettings

variable {A : Type*} (settings : ProxySettings A)

/-- `_is_trusted_peer`. -/
def isTrustedPeer (peer : Option String) : Bool :=
  match peer.bind settings.asIp with
  | none => false
  | some addr => settings.trustedProxyCidrs.any fun cidr => cidr addr

/-- What is read of `X-Forwarded-For`: the right-most address, or the peer. -/
def forwardedIp (r : HttpRequest) : Option String :=
  match r.headers "x-forwarded-for" with
  | none => r.peer
  | some forwarded =>
      ((forwardedEntries forwarded).reverse.find? fun p => (settings.asIp p).isSome).or r.peer

/-- `client_ip`. -/
def clientIp (r : HttpRequest) : Option String :=
  if settings.isTrustedPeer r.peer then
    match r.headers "x-real-ip" with
    | none => settings.forwardedIp r
    | some xRealIp =>
        if (settings.asIp xRealIp).isSome then some xRealIp else settings.forwardedIp r
  else r.peer

end ProxySettings

/-! ### The limits -/

/-- `rate_limit_*_per_minute`. -/
structure RateSettings where
  login : ℕ
  register : ℕ
  refresh : ℕ
  login_pos : 0 < login
  register_pos : 0 < register
  refresh_pos : 0 < refresh

namespace RateSettings

variable {A K : Type*} [Field K] [LinearOrder K] [IsStrictOrderedRing K]

variable (fl : K → K)

/-- The rule of `limit` calls a minute. -/
def perMinute (limit : ℕ) (h : 0 < limit) : RateRule K where
  limit := limit
  windowSeconds := 60
  fl := fl
  limit_pos := h
  window_pos := by norm_num

/-- `limit_by_scope`. -/
def limitByScope (rates : RateSettings) (scope : String) : Option (RateRule K) :=
  if scope = "login" then some (perMinute fl rates.login rates.login_pos)
  else if scope = "register" then some (perMinute fl rates.register rates.register_pos)
  else if scope = "refresh" then some (perMinute fl rates.refresh rates.refresh_pos)
  else none

/-- Whom a request counts for: `client_ip(request, settings) or "unknown"`. -/
def orUnknown (ip : Option String) : String :=
  match ip with
  | none => "unknown"
  | some ip => if ip = "" then "unknown" else ip

/-- The limiter's key. -/
def limiterKey (scope ip : String) : String := scope ++ ":" ++ ip

variable [FloorRing K]

/-- `enforce_rate_limit`, at the limiter's clock: nothing for a scope without a limit, otherwise
what the limiter answers; a request that is not allowed is refused with `RateLimitError`. -/
def enforceRateLimit (rates : RateSettings) (settings : ProxySettings A) (hits : RateHits K)
    (scope : String) (request : HttpRequest) (now : K) : Option RateLimitResult × RateHits K :=
  match rates.limitByScope fl scope with
  | none => (none, hits)
  | some rule =>
      let ip := orUnknown (settings.clientIp request)
      let result := rule.check hits ⟨limiterKey scope ip, now⟩
      (some result.1, result.2)

end RateSettings

/-! ### The ways to the endpoint -/

/-- How a request reached the endpoint, with the headers its sender sent. -/
inductive Origin where
  /-- straight from the peer -/
  | direct (peer : Option String) (sent : Headers)
  /-- through the edge proxy, which sets both headers -/
  | edge (proxy remoteAddr : String) (sent : Headers)
  /-- through a proxy that only appends to `X-Forwarded-For` -/
  | appending (proxy remoteAddr : String) (sent : Headers)

namespace Origin

/-- `$proxy_add_x_forwarded_for`. -/
def proxyAddXForwardedFor (sent : Headers) (remoteAddr : String) : String :=
  match sent "x-forwarded-for" with
  | none => remoteAddr
  | some forwarded => forwarded ++ ", " ++ remoteAddr

/-- The request as the endpoint sees it. -/
def request : Origin → HttpRequest
  | .direct peer sent => ⟨peer, sent⟩
  | .edge proxy remoteAddr sent =>
      { peer := some proxy
        headers := Function.update (Function.update sent "x-real-ip" (some remoteAddr))
          "x-forwarded-for" (some (proxyAddXForwardedFor sent remoteAddr)) }
  | .appending proxy remoteAddr sent =>
      { peer := some proxy
        headers := Function.update sent
          "x-forwarded-for" (some (proxyAddXForwardedFor sent remoteAddr)) }

/-- Who sent the request. -/
def sender : Origin → Option String
  | .direct peer _ => peer
  | .edge _ remoteAddr _ => some remoteAddr
  | .appending _ remoteAddr _ => some remoteAddr

/-- The settings trust the proxies and nobody else, and the address a proxy writes is one.  What
a proxy that only appends is sent as `X-Real-IP` is no address. -/
def Genuine {A : Type*} (settings : ProxySettings A) : Origin → Prop
  | .direct peer _ => settings.isTrustedPeer peer = false
  | .edge proxy remoteAddr _ =>
      settings.isTrustedPeer (some proxy) = true ∧ (settings.asIp remoteAddr).isSome = true
  | .appending proxy remoteAddr sent =>
      settings.isTrustedPeer (some proxy) = true ∧ (settings.asIp remoteAddr).isSome = true ∧
        (∀ c ∈ remoteAddr.toList, c ≠ ',' ∧ isSpace c = false) ∧
        ∀ xRealIp, sent "x-real-ip" = some xRealIp → settings.asIp xRealIp = none

end Origin

/-- A request for a rate-limited endpoint, at the limiter's clock. -/
structure AuthRequest (K : Type*) where
  scope : String
  origin : Origin
  now : K

namespace RateSettings

variable {A K : Type*} [Field K] [LinearOrder K] [FloorRing K] [IsStrictOrderedRing K]
  (fl : K → K)

/-- What a request is answered, and the times of `auth_limiter` after it. -/
def serveOne (rates : RateSettings) (settings : ProxySettings A) (hits : RateHits K)
    (a : AuthRequest K) : Option RateLimitResult × RateHits K :=
  rates.enforceRateLimit fl settings hits a.scope a.origin.request a.now

/-- The times of `auth_limiter` after requests, and what each was answered. -/
def serve (rates : RateSettings) (settings : ProxySettings A) (requests : List (AuthRequest K)) :
    RateHits K × List (AuthRequest K × Option RateLimitResult) :=
  requests.foldl (fun s a =>
    ((rates.serveOne fl settings s.1 a).2, s.2 ++ [(a, (rates.serveOne fl settings s.1 a).1)]))
    (fun _ => [], [])

/-- What a request is answered after others. -/
def reply (rates : RateSettings) (settings : ProxySettings A) (before : List (AuthRequest K))
    (a : AuthRequest K) : Option RateLimitResult :=
  (rates.serveOne fl settings (rates.serve fl settings before).1 a).1

end RateSettings

/-- Whom a request comes from, as the limiter names it. -/
def AuthRequest.who {K : Type*} (a : AuthRequest K) : String :=
  RateSettings.orUnknown a.origin.sender

end ForexAi
