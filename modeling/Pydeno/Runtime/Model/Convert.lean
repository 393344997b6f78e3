import Pydeno.Lib.Dict
import Pydeno.Lib.Program
import Pydeno.Lib.Utf16
/-!
# Values that leave the runtime

`Converter::to_js_value` of `convert.rs`, with the limits of `js_value.rs` and
the registries that functions and streams are entered in.

A heap is what V8 answers about references, and a world gives the heap at each
moment: reading an element or a property may run a getter, so that every read
moves the clock on and what is read next may have changed. A read that throws
gives nothing. Text of JavaScript is UTF-16 units, text of Rust code points.
-/

namespace Pydeno.Runtime.Convert

/-! ## What V8 answers -/

/-- A double. -/
inductive Num where
  | finite (q : ℚ)
  | infinite
  | nan
  deriving DecidableEq

/-- A value that is no object. -/
inductive Primitive where
  | undefined
  | null
  | bool (b : Bool)
  | number (n : Num)
  | bigInt (z : ℤ)
  | string (units : List ℕ)
  | symbol
  /-- Anything else, by its text. -/
  | other (units : List ℕ)
  deriving DecidableEq

inductive Value where
  | primitive (p : Primitive)
  | object (r : ℕ)
  deriving DecidableEq

/-- What an object is, by the first test of the converter that it passes. -/
inductive Class where
  | function
  | map
  | weak
  | nativeError
  | bytes (content : List ℕ)
  | array (len : ℕ)
  | set (len : ℕ)
  | date (ms : Num)
  | stream
  /-- Its `indexed_length` and its own property names. -/
  | plain (indexed : ℕ) (names : Option (List (List ℕ)))
  deriving DecidableEq

inductive View where
  /-- The target, if the Proxy is not revoked. -/
  | proxy (target : Option Value) (callable : Bool)
  | own (c : Class)
  deriving DecidableEq

/-- **What V8 answers** at one moment. `stackUsed` are the bytes of stack in use
at a depth. -/
structure Heap where
  view : ℕ → View
  index : ℕ → ℕ → Option Value
  get : ℕ → List ℕ → Option Value
  stackUsed : ℕ → Option ℕ

/-! ## What the converter gives -/

/-- **`JSValue`**. An object's entries are in the order of insertion. -/
inductive JSValue where
  | undefined
  | null
  | bool (b : Bool)
  | int (z : ℤ)
  | bigInt (z : ℤ)
  | float (n : Num)
  | string (t : List ℕ)
  | bytes (content : List ℕ)
  | array (items : List JSValue)
  | object (entries : List (List ℕ × JSValue))
  | date (ms : ℤ)
  | set (items : List JSValue)
  | function (id : ℕ)
  | jsStream (id : ℕ)
  | pyStream (id : ℕ)

/-- An id of one of the two registries. -/
inductive Handle where
  | function (id : ℕ)
  | stream (id : ℕ)
  deriving DecidableEq

mutual

/-- **The handles in a value**, in the order in which `release_handles` meets
them. -/
def JSValue.handles : JSValue → List Handle
  | .function id => [.function id]
  | .jsStream id => [.stream id]
  | .array items => itemHandles items
  | .set items => itemHandles items
  | .object entries => entryHandles entries
  | _ => []

def itemHandles : List JSValue → List Handle
  | [] => []
  | v :: rest => itemHandles rest ++ v.handles

def entryHandles : List (List ℕ × JSValue) → List Handle
  | [] => []
  | (_, v) :: rest => entryHandles rest ++ v.handles

end

/-- `IndexMap::insert`: an entry with the key keeps its place and gets the
value. -/
def insert (entries : List (List ℕ × JSValue)) (key : List ℕ) (v : JSValue) :
    List (List ℕ × JSValue) :=
  match entries with
  | [] => [(key, v)]
  | e :: rest => if e.1 = key then (key, v) :: rest else e :: insert rest key v

/-- The value that an insertion replaces. -/
def replaced (entries : List (List ℕ × JSValue)) (key : List ℕ) : Option JSValue :=
  (entries.find? fun e => e.1 = key).map Prod.snd

/-! ## Limits -/

/-- The limits, the wording of errors, and the texts of the build profile. -/
structure Limits where
  maxDepth : ℕ
  maxBytes : ℕ
  terse : Bool
  profileLabel : String
  profileCeiling : String

def usizeMax : ℕ := 2 ^ 64 - 1

/-- `STACK_HEADROOM_BYTES`. -/
def stackHeadroomBytes : ℕ := 640 * 1024

/-- `depth_limit_message`. -/
def Limits.depthLimitMessage (limits : Limits) : String :=
  let maxDepth := limits.maxDepth
  if limits.terse then "Serialization depth limit exceeded"
  else s!"Serialization depth exceeded the configured limit of {maxDepth} " ++
    "(RuntimeConfig(max_serialization_depth=...))"

/-- `byte_limit_message`. -/
def Limits.byteLimitMessage (limits : Limits) (currentBytes : ℕ) : String :=
  let maxBytes := limits.maxBytes
  if limits.terse then "Serialization size limit exceeded"
  else s!"Serialization size ({currentBytes} bytes) exceeded the configured limit of " ++
    s!"{maxBytes} bytes (RuntimeConfig(max_serialization_bytes=...)); see " ++
    "docs/guides/advanced/arrow-ipc-dataframes.md for transferring large payloads"

/-- The error of `enter` when the stack runs short. -/
def Limits.headroomMessage (limits : Limits) (depth used : ℕ) : String :=
  let label := limits.profileLabel
  let ceiling := limits.profileCeiling
  s!"stack headroom exhausted at depth {depth}: {used} bytes used since " ++
    s!"the runtime thread's stack anchor (limit {stackHeadroomBytes} " ++
    "bytes). This is V8's own native stack limit, not " ++
    "`max_serialization_depth` -- raising that setting cannot lift " ++
    "it. How deep you can go depends on the build profile, because " ++
    "a serializer frame is ~33x larger unoptimized: this pydeno was " ++
    s!"built {label}, where the ceiling is {ceiling}. " ++
    "Released wheels are optimized builds; if you are seeing this " ++
    "well below `max_serialization_depth` on ordinary data, you are " ++
    "running a debug build of pydeno, not hitting a limit its users " ++ "see"

/-! ## The converter's state -/

/-- `StoredFunction`: the function and its receiver. -/
structure StoredFunction where
  function : ℕ
  receiver : Option ℕ
  deriving DecidableEq

/-- **The state of a conversion**: the clock, the bytes counted, the registries
with their counters, and what this conversion has registered. `dropped` are the
handles of values that an insertion replaced. -/
structure Conv where
  clock : ℕ
  bytes : ℕ
  functions : Dict ℕ StoredFunction
  nextFnId : ℕ
  streams : Dict ℕ ℕ
  nextStreamId : ℕ
  registeredFunctions : List ℕ
  registeredStreams : List ℕ
  dropped : List Handle

/-- `allocate_id`, with the rounds that are left. -/
def allocateId {α : Type*} (entries : Dict ℕ α) : ℕ → ℕ → Option ℕ × ℕ
  | 0, next => (none, next)
  | n + 1, next =>
    if (entries.get? next).isNone then (some next, (next + 1) % 2 ^ 32)
    else allocateId entries n ((next + 1) % 2 ^ 32)

section

variable (limits : Limits) (world : ℕ → Heap)

/-- `add_bytes`. -/
def addBytes (n : ℕ) : Prog Conv String Unit := fun s =>
  let total := min (s.bytes + n) usizeMax
  (if total > limits.maxBytes then .error (limits.byteLimitMessage total) else .ok (),
    { s with bytes := total })

/-- The heap at this moment. -/
def look : Prog Conv String Heap := Prog.read fun s => world s.clock

/-- A read that may run a getter. -/
def readValue (f : Heap → Option Value) (error : String) : Prog Conv String Value := fun s =>
  (match f (world s.clock) with
    | some v => .ok v
    | none => .error error,
    { s with clock := s.clock + 1 })

/-! ## Values -/

/-- A value that is no Proxy. -/
inductive Target where
  | primitive (p : Primitive)
  | object (r : ℕ) (c : Class)

/-- `to_rust_string_lossy`: an unpaired surrogate is replaced. -/
def lossy (units : List ℕ) : List ℕ :=
  (Utf16.decode units).map fun c => if Utf8.IsScalar c then c else 0xFFFD

/-- The bytes of a Rust string. -/
def byteLen (t : List ℕ) : ℕ := (Utf8.encodeAll t).length

/-- The range of a `Date`. -/
def minDateEpochMs : ℤ := -62135596800000

def maxDateEpochMs : ℤ := 253402300799999

end

/-- The registry entry of a handle is removed. -/
def Conv.release (s : Conv) : Handle → Conv
  | .function id => { s with functions := s.functions.erase id }
  | .stream id => { s with streams := s.streams.erase id }

end Pydeno.Runtime.Convert
