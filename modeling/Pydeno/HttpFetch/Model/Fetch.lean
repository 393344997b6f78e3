import Pydeno.HttpFetch.Model.Address
import Pydeno.Lib.Dict
import Pydeno.Lib.Program
/-!
# One fetch

`HttpFetch` of `http_fetch.py`: its constructor, and a call with its redirects,
its lookups, its connections and its reads. A call is a program over its state:
a clock and the events it has caused. What the resolver, the network and the
server do is a function of the moment they are asked (`World`), so that any of
them may change its mind from one hop to the next.
-/

namespace Pydeno.HttpFetch

open UrlPath (percent)
open Wire (ascii)

/-! ## The tool -/

/-- `redirects` -/
inductive Redirects where
  | sameOrigin
  | allowList
  | never
  deriving DecidableEq

abbrev Header := List ℕ × Text

/-- **`HttpFetch`**: what its constructor keeps. -/
structure Tool where
  entries : List Entry
  schemes : List Scheme
  headers : List Header
  maxResponseBytes : ℕ
  maxUrlLength : ℕ
  maxRedirects : ℕ
  redirects : Redirects
  responseHeaders : List Text
  allowLoopback : Bool
  deriving DecidableEq

/-- The arguments of the constructor. -/
structure Options where
  allow : List Text
  schemes : List Text
  headers : List Header
  timeout : ℚ
  maxResponseBytes : ℚ
  maxUrlLength : ℚ
  maxRedirects : ℤ
  redirects : Redirects
  responseHeaders : List Text
  userAgent : Text

/-- What is wrong with the arguments. -/
inductive ConfigError where
  | entry (e : EntryError)
  | noEntry
  | schemes
  | entryScheme (host : Text) (scheme : Scheme)
  | headerName (name : Text)
  | reservedHeader (name : Text)
  | headerValue (name : Text)
  | notPositive (name : String)
  | maxRedirects
  deriving DecidableEq

/-- `_RESERVED_REQUEST_HEADERS` -/
def reservedRequestHeaders : List Text :=
  [ascii "host", ascii "content-length", ascii "transfer-encoding", ascii "connection",
    ascii "accept-encoding", ascii "te", ascii "upgrade", ascii "trailer", ascii "keep-alive",
    ascii "proxy-connection"]

/-- `_TOKEN.fullmatch(t)` -/
def token (t : Text) : Bool :=
  t ≠ [] && t.all fun c => isAlnum c || (ascii "!#$%&'*+-.^_`|~").contains c

/-- `_HEADER_VALUE.fullmatch(t)` -/
def headerValue (t : Text) : Bool := t.all fun c => c = 0x09 || (0x20 ≤ c && c ≤ 0x7E)

/-- One header of `_check_headers`, with those that are fixed so far. -/
def addHeader (fixed : List Header) (header : Header) : Except ConfigError (List Header) :=
  if !token header.1 then .error (.headerName header.1)
  else if reservedRequestHeaders.contains (lower header.1) then .error (.reservedHeader header.1)
  else if !headerValue header.2 then .error (.headerValue header.1)
  else if lower header.1 = ascii "user-agent" then .ok (fixed.set 0 header)
  else .ok (fixed ++ [header])

/-- `_check_headers` -/
def checkHeaders (headers : List Header) (userAgent : Text) : Except ConfigError (List Header) :=
  headers.foldlM addHeader
    [(ascii "User-Agent", userAgent), (ascii "Accept-Encoding", ascii "identity"),
      (ascii "Connection", ascii "close")]

/-- Raises on a condition. -/
def reject (condition : Bool) (e : ConfigError) : Except ConfigError Unit :=
  if condition then .error e else .ok ()

/-- **`HttpFetch.__init__`.** -/
def Tool.new (net : Net) (o : Options) : Except ConfigError Tool := do
  let entries ← o.allow.mapM fun spec => (entry net spec).mapError .entry
  reject (entries = []) .noEntry
  let schemes := o.schemes.filterMap fun s => Scheme.ofText (lower s)
  reject (o.schemes = [] || !o.schemes.all fun s => (Scheme.ofText (lower s)).isSome) .schemes
  match entries.find? fun e => e.scheme.any (· ∉ schemes) with
  | some e => throw (.entryScheme e.host (e.scheme.getD .https))
  | none =>
    let headers ← checkHeaders o.headers o.userAgent
    reject (o.timeout ≤ 0) (.notPositive "timeout")
    reject (o.maxResponseBytes ≤ 0) (.notPositive "max_response_bytes")
    reject (o.maxUrlLength ≤ 0) (.notPositive "max_url_length")
    reject (o.maxRedirects < 0) .maxRedirects
    return {
      entries
      schemes
      headers
      maxResponseBytes := ⌊o.maxResponseBytes⌋.toNat
      maxUrlLength := ⌊o.maxUrlLength⌋.toNat
      maxRedirects := o.maxRedirects.toNat
      redirects := o.redirects
      responseHeaders := o.responseHeaders.map lower
      allowLoopback := false }

/-- The names that `_transport_headers` lets through. -/
def transportNames : List Text :=
  [ascii "user-agent", ascii "accept-encoding", ascii "connection"]

/-- `_transport_headers` -/
def Tool.transportHeaders (tool : Tool) : List Header :=
  tool.headers.filter fun h => lower h.1 ∈ transportNames

/-! ## The world -/

/-- What comes of a lookup that is submitted. -/
inductive Lookup where
  | answers (l : List Answer)
  /-- The pool is at its limit. -/
  | busy
  /-- There is no answer by the deadline. -/
  | late
  | raised (e : HttpFetchError)
  | broken

/-- What the transport may raise. -/
inductive TransportExc where
  | timeout
  | certificate
  | tls
  | invalid
  | connection
  deriving DecidableEq

/-- The head of a response. -/
structure Head where
  status : ℕ
  location : Option Text
  headers : List Header
  charset : Option Text

/-- What a read of the body comes to. -/
inductive Chunk where
  /-- Bytes, or none at the end, where `promised` says whether more was due. -/
  | data (bytes : Text) (promised : Bool)
  /-- `IncompleteRead`, with what arrived. -/
  | incomplete (bytes : Text)
  | raised (e : TransportExc)

/-- **The world**, by the moment it is asked. -/
structure World where
  passed : ℕ → Bool
  lookup : ℕ → Text → ℕ → Lookup
  connect : ℕ → Text → ℕ → Option TransportExc
  respond : ℕ → Except TransportExc Head
  read : ℕ → ℕ → Chunk

/-- A request that is sent: where, to which address, and with which headers. -/
structure Sent where
  target : Target
  ip : Text
  headers : List Header

/-- **What a call causes.** -/
inductive Event where
  | lookup (host : Text) (port : ℕ) (answers : List Answer)
  | connect (target : Target) (ip : Text)
  | request (sent : Sent)

structure Call where
  clock : ℕ
  events : List Event

/-- A program of a call. -/
abbrev Act := Prog Call HttpFetchError

/-- Asks the world. -/
def ask {α : Type} (question : ℕ → α) : Act α := fun s =>
  (.ok (question s.clock), { s with clock := s.clock + 1 })

def note (e : Event) : Act Unit := Prog.change fun s => { s with events := s.events ++ [e] }

/-- `_Response` -/
structure Response where
  status : ℕ
  headers : List Header
  body : Text
  truncated : Bool
  charset : Option Text

/-- What a call returns: the answer of `_result`, the body as bytes. -/
structure Result where
  status : ℕ
  headers : Dict Text Text
  body : Text
  truncated : Bool
  url : Text

section

variable (net : Net) (tool : Tool) (world : World)

/-- `_Deadline.remaining` -/
def remaining : Act Unit := do
  let passed ← ask world.passed
  if passed then Prog.fail (.timeout "the request timed out") else pure ()

/-- Raises `_transport_error(exc, deadline)`. -/
def transportError {α : Type} (exc : TransportExc) : Act α := do
  let passed ← ask world.passed
  Prog.fail <|
    if exc = .timeout || passed then .timeout "the request timed out"
    else
      match exc with
      | .certificate => .failed "the server's TLS certificate could not be verified"
      | .tls => .failed "the TLS handshake failed"
      | .invalid => .failed "the server sent an invalid HTTP response"
      | _ => .failed "the connection failed"

/-! ## Lookups and connections -/

/-- The text of an answer's address. -/
def canonical : Answer → Option Text
  | .text t => (ipAddress net t).map net.str
  | .other => none

/-- The answers about a host. -/
def resolve (t : Target) : Act (List Answer) :=
  if t.isIp then pure [.text t.host]
  else do
    let lookup ← ask fun moment => world.lookup moment t.host t.port
    match lookup with
    | .answers l => do
      note (.lookup t.host t.port l)
      pure l
    | .busy => Prog.fail (.failed "too many host name lookups are in progress; try again later")
    | .late => Prog.fail (.timeout "the request timed out")
    | .raised e => Prog.fail e
    | .broken => Prog.fail (.failed "the host name could not be resolved")

/-- **`_vet`.** -/
def vet (t : Target) : Act (List Text) := do
  let answers ← resolve world t
  if answers = [] then Prog.fail (.failed "the host name could not be resolved")
  else if answers.any (addressRefused net tool.allowLoopback) then
    Prog.fail (.blocked "the host resolves to an address that is not allowed")
  else
    pure ((answers.filterMap (canonical net)).foldl
      (fun seen text => if text ∈ seen then seen else seen ++ [text]) [])

/-- The addresses are tried in turn. -/
def connectFirst (t : Target) : List Text → TransportExc → Act Text
  | [], last => transportError world last
  | ip :: rest, _ => do
    remaining world
    note (.connect t ip)
    let refused ← ask fun moment => world.connect moment ip t.port
    match refused with
    | none => pure ip
    | some exc => connectFirst t rest exc

/-! ## Responses -/

/-- `_read`, with the chunks so far and their length; `rounds` bounds the reads,
each of which that goes on reads a byte. -/
def readBody : ℕ → Text → Act (Text × Bool)
  | 0, body => pure (body, true)
  | rounds + 1, body => do
    let cap := tool.maxResponseBytes
    remaining world
    let size := min 65536 (cap + 1 - body.length)
    let chunk ← ask fun moment => world.read moment size
    match chunk with
    | .raised exc => transportError world exc
    | .incomplete rest => do
      let passed ← ask world.passed
      if passed then Prog.fail (.timeout "the request timed out")
      else pure (body ++ rest.take (cap - body.length), true)
    | .data bytes promised =>
      let data := bytes.take size
      if data = [] then do
        let passed ← ask world.passed
        if passed then Prog.fail (.timeout "the request timed out") else pure (body, promised)
      else if body.length + data.length > cap then pure ((body ++ data).take cap, true)
      else readBody rounds (body ++ data)

/-- `_REDIRECTS` -/
def redirectStatus (status : ℕ) : Bool := status ∈ [301, 302, 303, 307, 308]

/-- What is left of `_request` once it is connected. -/
def exchange (t : Target) (ip : Text) (headers : List Header) (follow : Bool) :
    Act (Response × Option Text) := do
  note (.request ⟨t, ip, (ascii "Host", t.netloc) :: headers⟩)
  let answer ← ask world.respond
  match answer with
  | .error exc => transportError world exc
  | .ok head =>
    let location := if follow then head.location else none
    if redirectStatus head.status && location.isSome then
      pure (⟨head.status, [], [], false, none⟩, location)
    else do
      let (body, truncated) ← readBody tool world (tool.maxResponseBytes + 1) []
      pure (⟨head.status, head.headers, body, truncated, head.charset⟩, none)

/-- **`_request`.** -/
def request (t : Target) (headers : List Header) (follow : Bool) :
    Act (Response × Option Text) := do
  let addresses ← vet net tool world t
  let ip ← connectFirst world t addresses .connection
  exchange tool world t ip headers follow

/-- `_result`, the body as bytes: `_MAX_HEADER_VALUE` printable characters of
each header that is let through. -/
def result (t : Target) (resp : Response) : Result :=
  let add := fun (headers : Dict Text Text) (header : Header) =>
    let key := lower header.1
    if key ∉ tool.responseHeaders then headers
    else
      let clean := (header.2.filter fun c => 0x20 ≤ c && c ≤ 0x7E).take 1024
      headers.set key <|
        match headers.get? key with
        | some value => value ++ ascii ", " ++ clean
        | none => clean
  ⟨resp.status, resp.headers.foldl add Dict.empty, resp.body, resp.truncated, t.url⟩

/-! ## The call -/

/-- `_target` -/
def target (url : Text) : Except HttpFetchError Target := do
  let t ← parse net tool.schemes tool.maxUrlLength url
  refuse (!tool.entries.any (·.matches t)) "the URL is not in the allow-list"
  return t

/-- `_redirect` -/
def redirect (current : Target) (origin : Scheme × Text × ℕ) (location : Text) :
    Except HttpFetchError Target := do
  let joins := !location.any badChar && isAscii location
  if joins && (matchUrl location).isNone && !(ascii "//").isPrefixOf location then
    checkPath (location.takeWhile fun c => !(ascii "?#").contains c)
  let new ← target net tool (if joins then net.urljoin current.url location else location)
  refuse (current.scheme = .https && new.scheme ≠ .https)
    "a redirect from https to http is not allowed"
  refuse (tool.redirects = .sameOrigin && new.origin ≠ origin)
    "a redirect to a different host is not allowed"
  return new

/-- The loop of `__call__`, with the redirects that are left. -/
def hop (origin : Scheme × Text × ℕ) : ℕ → Target → Act Result
  | left, t => do
    let fixed := if t.origin = origin then tool.headers else tool.transportHeaders
    let (resp, location) ← request net tool world t fixed (tool.redirects ≠ .never)
    match location with
    | none => pure (result tool t resp)
    | some location =>
      match left with
      | 0 => Prog.fail (.blocked "too many redirects")
      | left + 1 => do
        let new ← Prog.ofExcept (redirect net tool t origin location)
        hop origin left new

/-- **`HttpFetch.__call__`.** -/
def call (url : Text) : Act Result := do
  let t ← Prog.ofExcept (target net tool url)
  hop net tool world t.origin tool.maxRedirects t

end

end Pydeno.HttpFetch
