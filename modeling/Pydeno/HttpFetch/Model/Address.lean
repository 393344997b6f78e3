import Pydeno.HttpFetch.Model.Url
/-!
# Addresses that are refused

`_ip_refused` and `_address_refused` of `http_fetch.py`: an address is a number,
a network is a number and the bits of it that count, and the IPv4 addresses that
an IPv6 address embeds are read off its bits.
-/

namespace Pydeno.HttpFetch

/-- A network: its address and its prefix length. -/
structure Network where
  address : ℕ
  bits : ℕ

/-- `ip in network`, for addresses of a width. -/
def Network.has (width : ℕ) (network : Network) (n : ℕ) : Bool :=
  n / 2 ^ (width - network.bits) = network.address / 2 ^ (width - network.bits)

/-- An IPv4 address from its octets. -/
def octets (a b c d : ℕ) : ℕ := ((a * 256 + b) * 256 + c) * 256 + d

/-- `_REFUSED_V4` -/
def refusedV4 : List Network :=
  [⟨octets 0 0 0 0, 8⟩, ⟨octets 10 0 0 0, 8⟩, ⟨octets 100 64 0 0, 10⟩, ⟨octets 127 0 0 0, 8⟩,
    ⟨octets 169 254 0 0, 16⟩, ⟨octets 172 16 0 0, 12⟩, ⟨octets 192 0 0 0, 24⟩,
    ⟨octets 192 0 2 0, 24⟩, ⟨octets 192 88 99 0, 24⟩, ⟨octets 192 168 0 0, 16⟩,
    ⟨octets 198 18 0 0, 15⟩, ⟨octets 198 51 100 0, 24⟩, ⟨octets 203 0 113 0, 24⟩,
    ⟨octets 224 0 0 0, 4⟩, ⟨octets 240 0 0 0, 4⟩]

/-- `_REFUSED_V6` -/
def refusedV6 : List Network :=
  [⟨0, 96⟩, ⟨0x0064FF9B0001 * 2 ^ 80, 48⟩, ⟨0x0100 * 2 ^ 112, 64⟩, ⟨0x2001 * 2 ^ 112, 23⟩,
    ⟨0x20010DB8 * 2 ^ 96, 32⟩, ⟨0xFC00 * 2 ^ 112, 7⟩, ⟨0xFE80 * 2 ^ 112, 10⟩,
    ⟨0xFEC0 * 2 ^ 112, 10⟩, ⟨0xFF00 * 2 ^ 112, 8⟩]

/-- `_NAT64` -/
def nat64 : Network := ⟨0x0064FF9B * 2 ^ 96, 96⟩

/-- `ip.ipv4_mapped` -/
def ipv4Mapped (n : ℕ) : Option ℕ := if n / 2 ^ 32 = 0xFFFF then some (n % 2 ^ 32) else none

/-- `ip.sixtofour` -/
def sixtofour (n : ℕ) : Option ℕ :=
  if n / 2 ^ 112 = 0x2002 then some (n / 2 ^ 80 % 2 ^ 32) else none

/-- `ip.teredo`: the server and the client. -/
def teredo (n : ℕ) : Text :=
  if n / 2 ^ 96 = 0x20010000 then [n / 2 ^ 64 % 2 ^ 32, 2 ^ 32 - 1 - n % 2 ^ 32] else []

section

variable (net : Net)

/-- What `_ip_refused` asks of every address. -/
def flagged (ip : Ip) (loopback : Bool) (refused : Bool) : Bool :=
  let flags := net.flags ip
  if loopback && flags.isLoopback then false
  else
    !flags.isGlobal || flags.isMulticast || flags.isUnspecified || flags.isLoopback ||
      flags.isLinkLocal || flags.isPrivate || flags.isReserved || refused

/-- `_ip_refused` of an IPv4 address. -/
def v4Refused (loopback : Bool) (n : ℕ) : Bool :=
  flagged net (.v4 n) loopback (refusedV4.any fun network => network.has 32 n)

/-- **`_ip_refused`.** -/
def ipRefused (loopback : Bool) : Ip → Bool
  | .v4 n => v4Refused net loopback n
  | .v6 n scope =>
    if scope.any (· ≠ []) then true
    else
      match ipv4Mapped n with
      | some mapped => v4Refused net false mapped
      | none =>
        if nat64.has 128 n then v4Refused net false (n % 2 ^ 32)
        else if ((sixtofour n).toList ++ teredo n).any (v4Refused net false) then true
        else flagged net (.v6 n scope) loopback (refusedV6.any fun network => network.has 128 n)

/-- What a resolver may answer with: text, or some other object. -/
inductive Answer where
  | text (t : Text)
  | other
  deriving DecidableEq

/-- `ipaddress.ip_address` -/
def ipAddress (t : Text) : Option Ip := (net.ipv4Address t).or (net.ipv6Address t)

/-- **`_address_refused`.** -/
def addressRefused (loopback : Bool) : Answer → Bool
  | .other => true
  | .text t =>
    match ipAddress net t with
    | none => true
    | some ip => ipRefused net loopback ip

end

end Pydeno.HttpFetch
