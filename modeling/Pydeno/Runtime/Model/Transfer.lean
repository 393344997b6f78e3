import Pydeno.Runtime.Model.Convert
/-!
# Values that Python passes to a runtime

`python_to_js_value_internal` of `conversion.rs`, with `function_id_for_transfer` and
`stream_id_for_transfer`, in a process with any number of runtimes. A runtime's registries
hand out ids of their own, so that an id means something in one runtime only.

A Python value is given as a tree: one that contains itself is refused by the converter. The
keys of a dict are distinct, so that every insertion appends.
-/

namespace Pydeno.Runtime.Transfer

open Pydeno.Runtime.Convert (JSValue Limits allocateId byteLen stackHeadroomBytes)

/-! ## The process -/

/-- A runtime: its registries of functions and Python streams, and the releases of functions
that were sent to it. -/
structure Rt where
  functions : Dict ℕ ℕ := .empty
  nextFnId : ℕ := 0
  released : List ℕ := []
  streams : Dict ℕ ℕ := .empty
  nextStreamId : ℕ := 1
  isShutdown : Bool := false

/-- **`JsFunction`**; `home` and `function` say what it was created for. -/
structure JsFunction where
  handle : Option ℕ
  fnId : ℕ
  closed : Bool
  home : ℕ
  function : ℕ

/-- **`PyStreamSource`**; `stream` says what it was created for. -/
structure PyStreamSource where
  handle : Option ℕ
  streamId : ℕ
  closed : Bool
  owner : ℕ
  stream : ℕ

structure Process where
  rt : ℕ → Rt
  functions : ℕ → Option JsFunction
  sources : ℕ → Option PyStreamSource

/-- No runtime has handed out anything. -/
def Process.start : Process := ⟨fun _ => {}, fun _ => none, fun _ => none⟩

section

variable (p : Process)

def Process.setRt (r : ℕ) (x : Rt) : Process := { p with rt := Function.update p.rt r x }

def Process.setFunction (f : ℕ) (o : Option JsFunction) : Process :=
  { p with functions := Function.update p.functions f o }

def Process.setSource (s : ℕ) (o : Option PyStreamSource) : Process :=
  { p with sources := Function.update p.sources s o }

/-- The release of a function is sent to its runtime. -/
def Process.sendRelease (r id : ℕ) : Process :=
  p.setRt r { p.rt r with released := (p.rt r).released ++ [id] }

/-- No wrapper has the id. -/
def Process.Unowned (r id : ℕ) : Prop :=
  ∀ g o, p.functions g = some o → o.home = r → o.fnId ≠ id

/-- **What happens in the process.** -/
inductive Step : Process → Prop
  /-- The converter enters a function in its registry. -/
  | registers (r function : ℕ) {id next : ℕ}
      (h : allocateId (p.rt r).functions ((p.rt r).functions.entries.length + 1) (p.rt r).nextFnId =
        (some id, next)) :
      Step (p.setRt r { p.rt r with
        functions := (p.rt r).functions.set id function, nextFnId := next })
  /-- `JsFunction::new`, once for an id. -/
  | wraps (r : ℕ) {f id function : ℕ} (hnew : p.functions f = none)
      (hid : (p.rt r).functions.get? id = some function) (hkept : id ∉ (p.rt r).released)
      (honce : p.Unowned r id) : Step (p.setFunction f (some ⟨some r, id, false, r, function⟩))
  /-- `JsFunction.close`. -/
  | closes {f : ℕ} {o : JsFunction} (h : p.functions f = some o) :
      Step ((p.setFunction f (some { o with handle := none, closed := true })).sendRelease
        o.home o.fnId)
  /-- The object is collected, and its finalizer runs. -/
  | finalizes {f : ℕ} {o : JsFunction} (h : p.functions f = some o) :
      Step ((p.setFunction f none).sendRelease o.home o.fnId)
  /-- A conversion was given up before a wrapper had the id. -/
  | givesUp (r id : ℕ) (h : p.Unowned r id) (hid : (p.rt r).functions.get? id ≠ none) :
      Step (p.sendRelease r id)
  /-- `release_function`, in the runtime. -/
  | releases (r id : ℕ) (h : id ∈ (p.rt r).released) :
      Step (p.setRt r { p.rt r with functions := (p.rt r).functions.erase id })
  | shutsDown (r : ℕ) : Step (p.setRt r { p.rt r with isShutdown := true })
  /-- `finalize_termination`. -/
  | clears (r : ℕ) (h : (p.rt r).isShutdown = true) :
      Step (p.setRt r { p.rt r with functions := .empty })
  /-- `PyStreamSource::new`. -/
  | opens (r stream : ℕ) {s id next : ℕ} (hnew : p.sources s = none)
      (h : allocateId (p.rt r).streams ((p.rt r).streams.entries.length + 1) (p.rt r).nextStreamId =
        (some id, next)) :
      Step ((p.setSource s (some ⟨some r, id, false, r, stream⟩)).setRt r { p.rt r with
        streams := (p.rt r).streams.set id stream, nextStreamId := next })
  /-- A stream is read to its end, cancelled or released. -/
  | ends (r id : ℕ) : Step (p.setRt r { p.rt r with streams := (p.rt r).streams.erase id })
  /-- `PyStreamSource.close`. -/
  | closesSource {s : ℕ} {o : PyStreamSource} (h : p.sources s = some o) :
      Step (p.setSource s (some { o with handle := none, closed := true }))
  | collects {s : ℕ} : Step (p.setSource s none)

end

/-- No counter is at its end: no registry has handed out as many ids as there are. -/
def Process.Unwrapped (p : Process) : Prop :=
  ∀ r, (p.rt r).nextFnId + 1 < 2 ^ 32 ∧ (p.rt r).nextStreamId + 1 < 2 ^ 32

/-- **The states that are reached** before a counter wraps around. -/
def Reachable : Process → Prop :=
  Relation.ReflTransGen (fun p p' => Step p p' ∧ p.Unwrapped) Process.start

/-! ## Conversion -/

/-- **A Python value**, as far as the converter tells values apart. A datetime is given with
what its `timestamp` comes to, a text with what it is in Rust. -/
inductive Value where
  | none
  | undefined
  | source (s : ℕ)
  | bytes (content : List ℕ)
  | list (items : List Value)
  | dict (entries : List (Option (List ℕ) × Value))
  | set (items : List Value)
  | datetime (ms : Except String ℤ)
  | bool (b : Bool)
  | int (z : ℤ)
  | float (n : Convert.Num)
  | str (t : Option (List ℕ))
  | function (f : ℕ)
  | other

/-- `function_id_for_transfer`. -/
def functionIdForTransfer (p : Process) (f : ℕ) : Except String ℕ :=
  match p.functions f with
  | none => .error "no such object"
  | some o =>
    if o.closed then .error "Function has been closed"
    else match o.handle with
      | some r => if (p.rt r).isShutdown then .error "Runtime has been shut down" else .ok o.fnId
      | none => .error "Runtime has been shut down"

/-- `stream_id_for_transfer`. -/
def streamIdForTransfer (p : Process) (target : Option ℕ) (s : ℕ) : Except String ℕ :=
  match p.sources s with
  | none => .error "no such object"
  | some o =>
    if o.closed then .error "Stream has been closed"
    else match o.handle with
      | none => .error "Runtime has been shut down"
      | some r =>
        if (p.rt r).isShutdown then
          .error "the runtime that created this stream source has been closed or terminated"
        else if target ≠ some o.owner then
          .error ("this stream source belongs to a different runtime; a stream source " ++
            "can only be passed to the runtime that created it")
        else .ok o.streamId

section

variable (p : Process) (limits : Limits) (stackUsed : ℕ → Option ℕ) (owner : Option ℕ)

/-- `add_bytes`. -/
def addBytes (n : ℕ) : Prog ℕ String Unit := fun bytes =>
  let total := min (bytes + n) Convert.usizeMax
  (if total > limits.maxBytes then .error (limits.byteLimitMessage total) else .ok (), total)

/-- `enter`. -/
def enter (depth : ℕ) : Prog ℕ String Unit :=
  if depth > limits.maxDepth then Prog.fail limits.depthLimitMessage
  else match stackUsed depth with
    | some used =>
      if used > stackHeadroomBytes then Prog.fail (limits.headroomMessage depth used) else pure ()
    | none => pure ()

mutual

/-- **`python_to_js_value_internal`**, at a depth. -/
def pythonToJsValueInternal (depth : ℕ) : Value → Prog ℕ String JSValue
  | .none => do enter limits stackUsed depth; addBytes limits 4; pure .null
  | .undefined => do enter limits stackUsed depth; addBytes limits 0; pure .undefined
  | .source s => do
    enter limits stackUsed depth
    addBytes limits 4
    let id ← Prog.ofExcept (streamIdForTransfer p owner s)
    pure (.pyStream id)
  | .bytes content => do
    enter limits stackUsed depth
    addBytes limits content.length
    pure (.bytes content)
  | .list items => do
    enter limits stackUsed depth
    addBytes limits 16
    addBytes limits (min (items.length * 8) Convert.usizeMax)
    let items ← pyItemsToJs (depth + 1) items
    pure (.array items)
  | .dict entries => do
    enter limits stackUsed depth
    addBytes limits 24
    addBytes limits (min (entries.length * 16) Convert.usizeMax)
    let entries ← pyEntriesToJs (depth + 1) entries
    pure (.object entries)
  | .set items => do
    enter limits stackUsed depth
    addBytes limits 24
    addBytes limits (min (items.length * 8) Convert.usizeMax)
    let items ← pyItemsToJs (depth + 1) items
    pure (.set items)
  | .datetime ms => do
    enter limits stackUsed depth
    addBytes limits 16
    let ms ← Prog.ofExcept ms
    pure (.date ms)
  | .bool b => do enter limits stackUsed depth; addBytes limits 1; pure (.bool b)
  | .int z => do
    enter limits stackUsed depth
    if -2 ^ 63 ≤ z ∧ z < 2 ^ 63 then do addBytes limits 8; pure (.int z)
    else do addBytes limits (z.natAbs.log2 / 8 + 1); pure (.bigInt z)
  | .float n => do enter limits stackUsed depth; addBytes limits 8; pure (.float n)
  | .str none => do
    enter limits stackUsed depth
    Prog.fail "Unsupported Python type for JSValue conversion"
  | .str (some t) => do
    enter limits stackUsed depth
    if byteLen t > limits.maxBytes then Prog.fail (limits.byteLimitMessage (byteLen t))
    else do addBytes limits (byteLen t); addBytes limits 16; pure (.string t)
  | .function f => do
    enter limits stackUsed depth
    let id ← Prog.ofExcept (functionIdForTransfer p f)
    addBytes limits 8
    pure (.function id)
  | .other => do
    enter limits stackUsed depth
    Prog.fail "Unsupported Python type for JSValue conversion"

/-- `py_items_to_js`. -/
def pyItemsToJs (depth : ℕ) : List Value → Prog ℕ String (List JSValue)
  | [] => pure []
  | v :: rest => do
    let v ← pythonToJsValueInternal depth v
    let items ← pyItemsToJs depth rest
    pure (v :: items)

def pyEntriesToJs (depth : ℕ) :
    List (Option (List ℕ) × Value) → Prog ℕ String (List (List ℕ × JSValue))
  | [] => pure []
  | (key, v) :: rest => do
    let key ← Prog.ofOption key "TypeError"
    addBytes limits (byteLen key)
    addBytes limits 8
    let v ← pythonToJsValueInternal depth v
    let entries ← pyEntriesToJs depth rest
    pure ((key, v) :: entries)

end

/-- **`python_to_js_value`** for the runtime `owner`. -/
def pythonToJsValue (v : Value) : Except String JSValue :=
  (pythonToJsValueInternal p limits stackUsed owner 1 v 0).1

end

end Pydeno.Runtime.Transfer
