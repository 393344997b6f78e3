import Pydeno.Lib.UrlPath
import Pydeno.Wire.Model.Python
/-!
# URLs and the allow-list

The strict parser of `http_fetch.py` and the entries of the allow-list. Text is
code points. A regular expression is a predicate on what follows a position, and
`search` tries it at every position.

`ipaddress`, the `idna` codec and `urljoin` are CPython's: `Net` has what the
code asks them.
-/

namespace Pydeno.HttpFetch

open UrlPath (percent dot slash semicolon backslash hexValue)
open Wire (ascii)

abbrev Text := List ℕ

/-! ## Errors -/

/-- `HttpFetchError` and its subclasses. -/
inductive HttpFetchError where
  | blocked (message : String)
  | timeout (message : String)
  | failed (message : String)
  deriving DecidableEq

/-- Raises `HttpFetchBlocked` on a condition. -/
def refuse (condition : Bool) (message : String) : Except HttpFetchError Unit :=
  if condition then .error (.blocked message) else .ok ()

/-! ## Addresses -/

/-- `IPv4Address` or `IPv6Address`, the latter with its scope. -/
inductive Ip where
  | v4 (n : ℕ)
  | v6 (n : ℕ) (scope : Option Text)
  deriving DecidableEq

/-- The properties of an address, by the tables of `ipaddress`. -/
structure Flags where
  isGlobal : Bool
  isMulticast : Bool
  isUnspecified : Bool
  isLoopback : Bool
  isLinkLocal : Bool
  isPrivate : Bool
  isReserved : Bool

/-- **CPython's part**: the constructors of `ipaddress`, the text and the
properties of an address, `raw.encode("idna").decode("ascii")`, and
`urllib.parse.urljoin`. -/
structure Net where
  ipv4Address : Text → Option Ip
  ipv6Address : Text → Option Ip
  str : Ip → Text
  flags : Ip → Flags
  idna : Text → Option Text
  urljoin : Text → Text → Text

/-! ## Characters -/

def isDigit (c : ℕ) : Bool := 0x30 ≤ c && c ≤ 0x39

def isLower (c : ℕ) : Bool := 0x61 ≤ c && c ≤ 0x7A

def isUpper (c : ℕ) : Bool := 0x41 ≤ c && c ≤ 0x5A

def isAlnum (c : ℕ) : Bool := isDigit c || isLower c || isUpper c

/-- `str.lower()` of ASCII. -/
def lower (t : Text) : Text := t.map fun c => if isUpper c then c + 0x20 else c

def isAscii (t : Text) : Bool := t.all (· < 0x80)

/-- `pattern.search(t)` -/
def search (pattern : Text → Bool) (t : Text) : Bool := t.tails.any pattern

/-- `_BAD_CHARS` -/
def badChar (c : ℕ) : Bool := c ≤ 0x20 || c = 0x7F || (ascii "\\\"<>`\x7b|\x7d^").contains c

/-- `_PATH_CHARS` -/
def pathChar (c : ℕ) : Bool := isAlnum c || (ascii "-._~!$&'()*+,;=:@/%").contains c

/-- `_QUERY_CHARS` -/
def queryChar (c : ℕ) : Bool := pathChar c || c = 0x3F

/-- `_BAD_ESCAPE` -/
def badEscape : Text → Bool
  | c :: a :: b :: _ => c = percent && !((hexValue a).isSome && (hexValue b).isSome)
  | c :: _ => c = percent
  | [] => false

/-- `_ENCODED_SEPARATOR` -/
def encodedSeparator : Text → Bool
  | c :: a :: b :: _ =>
    c = percent && ((a = 0x32 && (b = 0x46 || b = 0x66)) || (a = 0x35 && (b = 0x43 || b = 0x63)))
  | _ => false

/-- `_PATH_PARAMS` -/
def pathParams : Text → Bool
  | c :: a :: b :: _ => c = semicolon || (c = percent && a = 0x33 && (b = 0x42 || b = 0x62))
  | c :: _ => c = semicolon
  | [] => false

/-- `_AMBIGUOUS_ESCAPE` -/
def ambiguousEscape : Text → Bool
  | c :: a :: b :: _ =>
    c = percent && ((a = 0x32 && b = 0x35) || (a = 0x30 && b = 0x30))
  | _ => false

/-- `_DOTS.fullmatch(t)` -/
def dots (t : Text) : Bool := t ≠ [] && t.all (· = dot)

/-- `unquote(t)`, of ASCII text. -/
def unquote (t : Text) : Text := if percent ∈ t then Utf8.decodeReplace (UrlPath.decode t) else t

/-- `_LABEL.fullmatch(t)` -/
def label (t : Text) : Bool :=
  1 ≤ t.length && t.length ≤ 63 && t.all (fun c => isLower c || isDigit c || c = 0x2D) &&
    t.head? ≠ some 0x2D && t.getLast? ≠ some 0x2D

/-- `_NUMERIC_LABEL.fullmatch(t)` -/
def numericLabel (t : Text) : Bool :=
  (t.take 2 = ascii "0x" && (t.drop 2).all fun c => isDigit c || (0x61 ≤ c && c ≤ 0x66)) ||
    (t ≠ [] && t.all isDigit)

/-! ## Targets -/

inductive Scheme where
  | http
  | https
  deriving DecidableEq

/-- The schemes of `_DEFAULT_PORTS`. -/
def Scheme.ofText (t : Text) : Option Scheme :=
  if t = ascii "http" then some .http else if t = ascii "https" then some .https else none

def Scheme.text : Scheme → Text
  | .http => ascii "http"
  | .https => ascii "https"

/-- `_DEFAULT_PORTS` -/
def Scheme.defaultPort : Scheme → ℕ
  | .http => 80
  | .https => 443

/-- `_Target` -/
structure Target where
  scheme : Scheme
  host : Text
  port : ℕ
  explicitPort : Bool
  path : Text
  query : Text
  isIp : Bool
  deriving DecidableEq

def Target.origin (t : Target) : Scheme × Text × ℕ := (t.scheme, t.host, t.port)

def Target.netloc (t : Target) : Text :=
  let host := if 0x3A ∈ t.host then ascii "[" ++ t.host ++ ascii "]" else t.host
  if t.port = t.scheme.defaultPort then host else host ++ ascii ":" ++ ascii (toString t.port)

def Target.requestTarget (t : Target) : Text :=
  if t.query ≠ [] then t.path ++ ascii "?" ++ t.query else t.path

def Target.url (t : Target) : Text :=
  t.scheme.text ++ ascii "://" ++ t.netloc ++ t.requestTarget

/-! ## The parser -/

/-- `_check_path` -/
def checkPath (path : Text) : Except HttpFetchError Unit := do
  refuse (search encodedSeparator path) "the URL path contains an encoded '/' or '\\'"
  refuse (search pathParams path) "the URL path contains ';' (path parameters are not allowed)"
  refuse (search ambiguousEscape path) "the URL path contains '%25' or '%00'"
  refuse ((path.splitOn slash).any fun s => dots (unquote s))
    "the URL path contains '.' or '..' segments"

/-- `_METADATA_NAMES` -/
def metadataNames : List Text :=
  [ascii "metadata", ascii "metadata.google.internal", ascii "metadata.goog",
    ascii "metadata.azure.internal", ascii "instance-data", ascii "instance-data.ec2.internal"]

section

variable (net : Net)

/-- `_hostname` -/
def hostname (raw : Text) : Except HttpFetchError Text := do
  refuse (raw = []) "the URL has no host"
  refuse (percent ∈ raw) "percent-encoded hosts are not allowed"
  let raw ←
    if isAscii raw then Except.ok raw
    else
      match net.idna raw with
      | some raw => Except.ok raw
      | none => Except.error (.blocked "the URL host is not a valid hostname")
  let host := lower raw
  refuse (host.length > 253 || !(host.splitOn dot).all label) "the URL host is not a valid hostname"
  refuse (metadataNames.contains host) "cloud metadata hosts are never allowed"
  return host

/-- The port at the end of an authority. -/
def portOf (host : Text) (isIp : Bool) (after : Text) :
    Except HttpFetchError (Text × Option ℕ × Bool × Bool) := do
  if after = [] then return (host, none, false, isIp)
  let digits := after.drop 1
  let port := digits.foldl (fun n c => 10 * n + (c - 0x30)) 0
  refuse (!(after.head? = some 0x3A && digits.all isDigit && 1 ≤ digits.length &&
    digits.length ≤ 5 && 0 < port && port < 65536)) "the URL port is not valid"
  return (host, some port, true, isIp)

/-- `_authority`: the host, its port if there is one, whether there is one, and
whether the host is an address. -/
def authority (t : Text) : Except HttpFetchError (Text × Option ℕ × Bool × Bool) := do
  refuse (0x40 ∈ t) "credentials in the URL are not allowed"
  if t.head? = some 0x5B then
    refuse (0x5D ∉ t) "malformed IPv6 address in the URL"
    let literal := (t.drop 1).takeWhile (· ≠ 0x5D)
    refuse (percent ∈ literal) "IPv6 zone identifiers are not allowed"
    match net.ipv6Address literal with
    | none => throw (.blocked "malformed IPv6 address in the URL")
    | some ip => portOf (net.str ip) true (((t.drop 1).dropWhile (· ≠ 0x5D)).drop 1)
  else
    let host ← hostname net (t.takeWhile (· ≠ 0x3A))
    let numeric := numericLabel ((host.splitOn dot).getLast?.getD [])
    refuse (numeric && (net.ipv4Address host).map net.str ≠ some host)
      "a numeric host must be a canonical dotted-decimal IPv4 address"
    portOf host numeric (t.dropWhile (· ≠ 0x3A))

/-- `_URL.fullmatch(url)`: the scheme, the authority, and the path and query. -/
def matchUrl (url : Text) : Option (Text × Text × Text) :=
  let schemeChar := fun c => isAlnum c || (ascii "+.-").contains c
  let scheme := url.takeWhile schemeChar
  let after := url.dropWhile schemeChar
  let rest := after.drop 3
  let ends := fun c => (ascii "/?#").contains c
  if scheme.head?.any (fun c => isLower c || isUpper c) && after.take 3 = ascii "://" then
    some (scheme, rest.takeWhile (!ends ·), (rest.dropWhile (!ends ·)).takeWhile (· ≠ 0x23))
  else none

/-- **`_parse`.** -/
def parse (schemes : List Scheme) (maxLength : ℕ) (url : Text) : Except HttpFetchError Target := do
  refuse (url.length > maxLength) "the URL is too long"
  refuse (url.any badChar) "the URL contains whitespace or characters that are not allowed"
  match matchUrl url with
  | none => throw (.blocked "not an absolute URL")
  | some (schemeText, authorityText, rest) =>
    match (Scheme.ofText (lower schemeText)).filter (· ∈ schemes) with
    | none => throw (.blocked "the URL scheme is not allowed")
    | some scheme =>
      let (host, port, explicit, isIp) ← authority net authorityText
      refuse (!isAscii rest) "the URL path must be ASCII (percent-encode it)"
      let path := rest.takeWhile (· ≠ 0x3F)
      let query := (rest.dropWhile (· ≠ 0x3F)).drop 1
      let path := if path = [] then [slash] else path
      refuse (path.head? ≠ some slash || !path.all pathChar)
        "the URL path contains characters that are not allowed"
      refuse (!query.all queryChar) "the URL query contains characters that are not allowed"
      refuse (search badEscape path || search badEscape query)
        "the URL contains a malformed percent escape"
      checkPath path
      return ⟨scheme, host, port.getD scheme.defaultPort, explicit, path, query, isIp⟩

/-! ## The allow-list -/

/-- `_Entry` -/
structure Entry where
  scheme : Option Scheme
  host : Text
  port : Option ℕ
  pathPrefix : Text
  deriving DecidableEq

/-- `_Entry.matches` -/
def Entry.matches (e : Entry) (t : Target) : Bool :=
  let base := e.pathPrefix.rdropWhile (· = slash)
  (e.scheme = none || e.scheme = some t.scheme) && e.host = t.host &&
    t.port = (e.port.filter (· ≠ 0)).getD t.scheme.defaultPort &&
    (e.pathPrefix = [slash] || t.path = base || (base ++ [slash]).isPrefixOf t.path)

/-- What is wrong with an entry. -/
inductive EntryError where
  | empty
  | invalid (spec : Text) (reason : HttpFetchError)
  | query (spec : Text)
  deriving DecidableEq

/-- **`_entry`.** -/
def entry (spec : Text) : Except EntryError Entry :=
  if spec = [] then .error .empty
  else
    let explicitScheme := search (ascii "://").isPrefixOf spec
    let url := if explicitScheme then spec else ascii "https://" ++ spec
    match parse net [.http, .https] 2048 url with
    | .error e => .error (.invalid spec e)
    | .ok t =>
      if t.query ≠ [] then .error (.query spec)
      else
        .ok ⟨if explicitScheme then some t.scheme else none, t.host,
          if t.explicitPort then some t.port else none, t.path⟩

end

end Pydeno.HttpFetch
