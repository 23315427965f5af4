import LuaRecovery.Api.Filename
import LuaRecovery.Queue.Resp
import LuaRecovery.Lib.IpAddress

/-!
# Private addresses

The bot and the attachment fetcher each tell private addresses by the text of
the address.
-/

set_option autoImplicit false

namespace LuaRecovery.Discord
open LuaRecovery.Lib LuaRecovery.Lib.Address LuaRecovery.Api

section Net

def isIPv4 (text : CodeUnits) : Bool := (parseIPv4 text).isSome

def isZoneUnit (u : ℕ) : Bool := isLetter u || isNumeral u || u = 45 || u = 46 || u = 58

/-- An IPv6 address may carry a zone behind a percent sign. -/
def isIPv6 (text : CodeUnits) : Bool :=
  (parseIPv6 text).isSome ||
    (2 ≤ (text.dropWhile (· ≠ 37)).length && (text.dropWhile (· ≠ 37)).tail.all isZoneUnit &&
      (parseIPv6 (text.takeWhile (· ≠ 37))).isSome)

end Net

namespace SafeFetch

def isPrivateOctets : List ℕ → Bool
  | a::b::_ =>
      a = 0 || a = 10 || a = 127 ||
      (a = 100 && 64 ≤ b && b ≤ 127) ||
      (a = 169 && b = 254) ||
      (a = 172 && 16 ≤ b && b ≤ 31) ||
      (a = 192 && b = 168) ||
      (a = 198 && (b = 18 || b = 19)) ||
      224 ≤ a
  | _ => false

def privateStarts : List String := ["fc", "fd", "fe8", "fe9", "fea", "feb"]

def mappedStarts : List String :=
  ["::ffff:127.", "::ffff:10.", "::ffff:192.168.", "::ffff:169.254."]

def startsWithOneOf (starts : List String) (text : CodeUnits) : Bool :=
  starts.any (fun start => (units start).isPrefixOf text)

def isPrivateIp (address : CodeUnits) : Bool :=
  if address = [] then true
  else if isIPv4 address then isPrivateOctets ((address.splitOn 46).map decimal)
  else if isIPv6 address then
    let normalized := address.map toLowerUnit
    normalized = units "::" || normalized = units "::1" ||
      startsWithOneOf privateStarts normalized || startsWithOneOf mappedStarts normalized
  else true

end SafeFetch

namespace AttachmentFetcher

/-- The parts of an address as numbers; a part that is none is not a number. -/
def isPrivateQuad : List (Option ℤ) → Bool
  | [some a, some b, some c, some d] =>
      [a, b, c, d].all (fun p => 0 ≤ p && p ≤ 255) &&
        (a = 127 || a = 0 || a = 10 ||
        (a = 172 && 16 ≤ b && b ≤ 31) ||
        (a = 192 && b = 168) ||
        (a = 169 && b = 254))
  | _ => false

def isPrivateIp (ip : CodeUnits) : Bool :=
  if ip = [] then false
  else if ip = units "::1" || ip = units "::" || (units "fe80:").isPrefixOf ip then true
  else isPrivateQuad ((ip.splitOn 46).map Queue.parseInt)

end AttachmentFetcher

end LuaRecovery.Discord
