import Pydeno.Runtime.Model.Convert
import Pydeno.Wire.Model.Python
/-!
# Values that reach Python

`js_value_to_python` of `conversion.rs` and `release_unowned_handles` of `handle.rs`. The
state of a conversion are the handles that Python wrappers track. The conversion is the one
without limits: its tracker has the largest depth and size there are.

A set is given by the members added to it: a wrapper equals no other object, so that no
wrapper is lost where two members are equal.
-/

namespace Pydeno.Runtime.ToPython

open Pydeno.Runtime.Convert (JSValue Handle minDateEpochMs maxDateEpochMs)
open Wire (ascii)

/-- **A Python object**; a wrapper is a new one wherever it stands. -/
inductive Obj where
  | undefined
  | none
  | bool (b : Bool)
  | int (z : ℤ)
  | float (n : Convert.Num)
  | str (t : List ℕ)
  | bytes (content : List ℕ)
  | datetime (ms : ℤ)
  | list (items : List Obj)
  | set (members : List Obj)
  | dict (entries : List (List ℕ × Obj))
  | wrapper (h : Handle)

mutual

/-- **The wrappers that are reachable from an object.** -/
def Obj.wrappers : Obj → List Handle
  | .wrapper h => [h]
  | .list items => wrappersOf items
  | .set members => wrappersOf members
  | .dict entries => wrappersIn entries
  | _ => []

def wrappersOf : List Obj → List Handle
  | [] => []
  | o :: rest => o.wrappers ++ wrappersOf rest

def wrappersIn : List (List ℕ × Obj) → List Handle
  | [] => []
  | (_, o) :: rest => o.wrappers ++ wrappersIn rest

end

/-- What the host answers: the integer a text spells, and whether making an object fails
(for want of memory, say), with the handles that are tracked. -/
structure Host where
  parseBytes : List ℕ → Option ℤ
  fails : List Handle → Obj → Bool

/-- How an object is read by its `TYPE_TAG`. -/
inductive Tagged where
  | undefined
  | date (epoch : JSValue)
  | set
  | bigInt (text : List ℕ)
  | plain

/-- `map.get`. -/
def get (entries : List (List ℕ × JSValue)) (key : String) : Option JSValue :=
  (entries.find? fun e => e.1 = ascii key).map Prod.snd

def tagged (entries : List (List ℕ × JSValue)) : Tagged :=
  match get entries "__pydeno_type" with
  | some (.string tag) =>
    if tag = ascii "Undefined" then .undefined
    else if tag = ascii "Date" then
      match get entries "epoch_ms" with
      | some epoch => .date epoch
      | none => .plain
    else if tag = ascii "Set" then
      match get entries "values" with
      | some (.array _) => .set
      | _ => .plain
    else if tag = ascii "BigInt" then
      match get entries "value" with
      | some (.string text) => .bigInt text
      | _ => .plain
    else .plain
  | _ => .plain

section

variable (host : Host)

/-- An object is made. -/
def make (o : Obj) : Prog (List Handle) String Obj := fun tracked =>
  (if host.fails tracked o then .error "MemoryError" else .ok o, tracked)

/-- `JsFunction::new` and `JsStream::new`: the handle is tracked once the wrapper is there. -/
def wrap (h : Handle) : Prog (List Handle) String Obj := do
  let o ← make host (.wrapper h)
  Prog.change (· ++ [h])
  pure o

/-- `epoch_ms_to_datetime`. -/
def epochMsToDatetime (ms : ℤ) : Prog (List Handle) String Obj :=
  if minDateEpochMs ≤ ms ∧ ms ≤ maxDateEpochMs then make host (.datetime ms)
  else Prog.fail "Date value out of range"

/-- The payload of a `Date` object; `as i64` cuts off the fraction and saturates. -/
def epochOf : JSValue → Except String ℤ
  | .int ms => .ok ms
  | .float (.finite q) => .ok (max (-2 ^ 63) (min (2 ^ 63 - 1) (Int.tdiv q.num q.den)))
  | _ => .error "Invalid epoch_ms payload for Date"

/-- `py_set.add`. -/
def addMember : Obj → Prog (List Handle) String Unit
  | .list _ => Prog.fail "unhashable type: 'list'"
  | .set _ => Prog.fail "unhashable type: 'set'"
  | .dict _ => Prog.fail "unhashable type: 'dict'"
  | _ => pure ()

mutual

/-- **`js_value_to_python_inner`.** -/
def jsValueToPythonInner : JSValue → Prog (List Handle) String Obj
  | .undefined => make host .undefined
  | .null => make host .none
  | .bool b => make host (.bool b)
  | .int z => make host (.int z)
  | .bigInt z => make host (.int z)
  | .float n => make host (.float n)
  | .string t => make host (.str t)
  | .bytes content => make host (.bytes content)
  | .array items => do
    let items ← toItems items
    make host (.list items)
  | .set items => do
    let members ← jsItemsToPyset items
    make host (.set members)
  | .object entries =>
    match tagged entries with
    | .undefined => make host .undefined
    | .date epoch => do
      let ms ← Prog.ofExcept (epochOf epoch)
      epochMsToDatetime host ms
    | .set => do
      let members ← taggedMembers entries
      make host (.set members)
    | .bigInt text => do
      let z ← Prog.ofOption (host.parseBytes text) "Invalid BigInt payload from JavaScript"
      make host (.int z)
    | .plain => do
      let entries ← toEntries entries
      make host (.dict entries)
  | .date ms => epochMsToDatetime host ms
  | .function id => wrap host (.function id)
  | .jsStream id => wrap host (.stream id)
  | .pyStream _ => Prog.fail "PyStream placeholders cannot be materialized on the Python side"

def toItems : List JSValue → Prog (List Handle) String (List Obj)
  | [] => pure []
  | v :: rest => do
    let o ← jsValueToPythonInner v
    let items ← toItems rest
    pure (o :: items)

/-- `js_items_to_pyset`. -/
def jsItemsToPyset : List JSValue → Prog (List Handle) String (List Obj)
  | [] => pure []
  | v :: rest => do
    let o ← jsValueToPythonInner v
    addMember o
    let members ← jsItemsToPyset rest
    pure (o :: members)

/-- The members of an object that is tagged as a set: the array under `values`. -/
def taggedMembers : List (List ℕ × JSValue) → Prog (List Handle) String (List Obj)
  | [] => pure []
  | (key, .array items) :: rest =>
    if key = ascii "values" then jsItemsToPyset items else taggedMembers rest
  | _ :: rest => taggedMembers rest

def toEntries : List (List ℕ × JSValue) → Prog (List Handle) String (List (List ℕ × Obj))
  | [] => pure []
  | (key, v) :: rest => do
    let o ← jsValueToPythonInner v
    let entries ← toEntries rest
    pure ((key, o) :: entries)

end

/-- **`js_value_to_python`** for a live runtime: what is given, the handles that are tracked
afterwards, and those whose release is sent to the runtime (`release_unowned_handles`). -/
def jsValueToPython (v : JSValue) (tracked : List Handle) :
    Except String Obj × List Handle × List Handle :=
  match jsValueToPythonInner host v tracked with
  | (.ok o, tracked) => (.ok o, tracked, [])
  | (.error e, tracked) => (.error e, tracked, v.handles.filter (· ∉ tracked))

end

end Pydeno.Runtime.ToPython
