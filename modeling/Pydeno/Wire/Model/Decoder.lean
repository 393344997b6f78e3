import Pydeno.Wire.Model.Parser

/-!
# The value decoder

`Decoder` of `src/runtime/wire.rs` and the decoding half of
`src/runtime/wire_json.rs`: the tree of a frame becomes Python values, with
a budget of values, a limit on the depth and the tags of the wire. An object
with a `"$"` is first turned into Python objects (`toPy`) and goes to
`decode`; everything else is decoded from the tree (`decodeNode`).

A decoded value keeps how it was built: which scalars came in a tag, and the
lists that sets and tagged dictionaries were built from. `Decoded.value` is
the Python value without that history.
-/

namespace Pydeno.Wire

open Binary64 (F64)

/-! ## Limits and errors -/

def MAX_FRAME_BYTES : ℕ := 16 * 1024 * 1024
def MAX_DEPTH : ℕ := 128
def MAX_NODES : ℕ := 2000000
def SAFE_INT : ℤ := 2 ^ 53
def MAX_HASH_REPEATS : ℕ := 16
def PARSE_DEPTH_SLACK : ℕ := 16

/-- What is being built when a member cannot be hashed. -/
inductive Collection where
  | set
  | dict
  deriving DecidableEq

/-- Why a frame is refused. -/
inductive DecodeError where
  | parse (s : Stop)
  | notJson
  | notMessage
  | tooManyNodes
  | tooDeep
  | unsafeInt
  | malformedTag
  | badInt
  | badFloat
  | badBytes
  | badDatetime
  | badSet
  | badDict
  | badEntry
  | unhashable (kind : Collection)
  | hashFlood
  | unknownTag (head : List ℕ)
  deriving DecidableEq

/-- The text of an error; the head of an unknown tag is shown by `repr`. -/
def DecodeError.message (repr : List ℕ → String) : DecodeError → String
  | .parse (.error e) => e.message
  | .parse _ => ""
  | .notJson => ParseError.json.message
  | .notMessage => "frame is not a message"
  | .tooManyNodes => "value has too many nodes"
  | .tooDeep => "value nested too deeply"
  | .unsafeInt => "integer outside the safe range must be tagged"
  | .malformedTag => "malformed tagged value"
  | .badInt => "bad int payload"
  | .badFloat => "bad float payload"
  | .badBytes => "bad bytes payload"
  | .badDatetime => "bad datetime payload"
  | .badSet => "bad set payload"
  | .badDict => "bad dict payload"
  | .badEntry => "bad dict entry"
  | .unhashable .set => "unhashable set member"
  | .unhashable .dict => "unhashable dict key"
  | .hashFlood => "too many values in a collection share a hash"
  | .unknownTag head => "unknown tag " ++ repr head

/-! ## JSON as Python objects -/

/-- What `json.loads` builds. -/
inductive Obj where
  | null
  | bool (b : Bool)
  | int (z : ℤ)
  | float (f : F64)
  | str (text : List ℕ)
  | list (items : List Obj)
  | dict (entries : List (List ℕ × Obj))

/-- `py_str`: a Python string, with surrogate pairs joined. -/
def pyStr : Str → List ℕ
  | .plain text => text
  | .units us => Utf16.decode us

/-- `dict.get_item(key)`. -/
def getItem {V : Type} (key : List ℕ) : List (List ℕ × V) → Option V
  | [] => none
  | (k, v) :: rest => if k = key then some v else getItem key rest

section

variable (py : Python)

mutual

/-- `to_py`. The keys of a parsed object are distinct, so each `set_item`
adds an entry. -/
def toPy : Node → Except DecodeError Obj
  | .null => .ok .null
  | .bool b => .ok (.bool b)
  | .int i => .ok (.int i)
  | .big text =>
      match py.int text with
      | some z => .ok (.int z)
      | none => .error .notJson
  | .float f => .ok (.float f)
  | .str s => .ok (.str (pyStr s))
  | .list items =>
      match toPyItems items with
      | .ok out => .ok (.list out)
      | .error e => .error e
  | .obj entries =>
      match toPyEntries entries with
      | .ok out => .ok (.dict out)
      | .error e => .error e

def toPyItems : List Node → Except DecodeError (List Obj)
  | [] => .ok []
  | item :: rest =>
      match toPy item with
      | .error e => .error e
      | .ok o =>
        match toPyItems rest with
        | .error e => .error e
        | .ok out => .ok (o :: out)

def toPyEntries : List (Str × Node) → Except DecodeError (List (List ℕ × Obj))
  | [] => .ok []
  | (k, v) :: rest =>
      match toPy v with
      | .error e => .error e
      | .ok o =>
        match toPyEntries rest with
        | .error e => .error e
        | .ok out => .ok ((pyStr k, o) :: out)

end

end

/-! ## Decoded values -/

/-- **A decoded value and how it was built.** -/
inductive Decoded (Date : Type) where
  | plain (s : Scalar Date)
  | tagged (s : Scalar Date)
  | list (items : List (Decoded Date))
  | set (members : List (Decoded Date))
  | dict (entries : List (List ℕ × Decoded Date))
  | mapping (entries : List (Decoded Date × Decoded Date))

/-- The scalar a value is; anything else cannot be hashed. -/
def Decoded.scalar? {Date : Type} : Decoded Date → Option (Scalar Date)
  | .plain s => some s
  | .tagged s => some s
  | _ => .none

/-- What a decoding step returns: the value and what is left of the budget. -/
abbrev Spending (α : Type) := Except DecodeError (α × ℤ)

/-- A loop that decodes one after the other. -/
def decodeAll {α β : Type} (f : α → ℤ → Spending β) : List α → ℤ → Spending (List β)
  | [], left => .ok ([], left)
  | x :: rest, left =>
      match f x left with
      | .error e => .error e
      | .ok (y, left) =>
        match decodeAll f rest left with
        | .error e => .error e
        | .ok (ys, left) => .ok (y :: ys, left)

/-- The values of an object, in order. -/
def decodeEntry {α β K : Type} (f : α → ℤ → Spending β) (e : K × α) (left : ℤ) : Spending (K × β) :=
  match f e.2 left with
  | .error err => .error err
  | .ok (v, left) => .ok ((e.1, v), left)

section

variable (py : Python)

/-- The loop of `reject_hash_flood`: how often each hash has been seen. -/
def floodLoop (kind : Collection) : List (Decoded py.Date) → List ℤ → Except DecodeError Unit
  | [], _ => .ok ()
  | value :: rest, seen =>
      match value.scalar? with
      | none => .error (.unhashable kind)
      | some s =>
        let h := py.hash s
        if MAX_HASH_REPEATS < seen.count h + 1 then .error .hashFlood
        else floodLoop kind rest (h :: seen)

/-- `reject_hash_flood`. -/
def rejectHashFlood (values : List (Decoded py.Date)) (kind : Collection) : Except DecodeError Unit :=
  if values.length ≤ MAX_HASH_REPEATS then .ok () else floodLoop py kind values []

/-- Building the collection hashes every member. -/
def hashAll (values : List (Decoded py.Date)) (kind : Collection) : Except DecodeError Unit :=
  if values.all fun v => v.scalar?.isSome then .ok () else .error (.unhashable kind)

/-- `to_string_lossy`: a lone surrogate is three bytes that are no UTF-8. -/
def lossy (text : List ℕ) : List ℕ :=
  text.flatMap fun c => if Utf8.IsScalar c then [c] else [0xFFFD, 0xFFFD, 0xFFFD]

/-- One pair of a tagged dictionary. -/
def decodePair (dec : Obj → ℤ → Spending (Decoded py.Date)) (pair : Obj) (left : ℤ) :
    Spending (Decoded py.Date × Decoded py.Date) :=
  match pair with
  | .list [k, v] =>
    match dec k left with
    | .error e => .error e
    | .ok (key, left) =>
      match dec v left with
      | .error e => .error e
      | .ok (value, left) => .ok ((key, value), left)
  | _ => .error .badEntry

/-- The payload of an `int` tag. -/
def intPayload : Obj → Except DecodeError (Scalar py.Date)
  | .str text =>
      if text.length ≤ 4096 then
        match py.int text with
        | some z => .ok (.int z)
        | none => .error .badInt
      else .error .badInt
  | _ => .error .badInt

/-- The payload of an `f` tag. Every NaN is an object of its own, told from
the others by the budget it was made at. -/
def floatPayload (left : ℤ) : Obj → Except DecodeError (Scalar py.Date)
  | .str text =>
      let text := lossy text
      if text = ascii "nan" then .ok (.nan left.toNat)
      else if text = ascii "inf" then .ok (.float (.inf false))
      else if text = ascii "-inf" then .ok (.float (.inf true))
      else if text = ascii "-0" then .ok (.float (.finite true ⟨0, by decide⟩))
      else .error .badFloat
  | _ => .error .badFloat

/-- The payload of a `b` tag. -/
def bytesPayload : Obj → Except DecodeError (Scalar py.Date)
  | .str text =>
      match py.b64decode text with
      | some bs => .ok (.bytes bs)
      | none => .error .badBytes
  | _ => .error .badBytes

/-- The payload of a `dt` tag. -/
def datetimePayload : Obj → Except DecodeError (Scalar py.Date)
  | .str text =>
      if text.length ≤ 64 then
        match py.fromisoformat text with
        | some d => .ok (.datetime d)
        | none => .error .badDatetime
      else .error .badDatetime
  | _ => .error .badDatetime

/-- Both checks of a collection before it is built. -/
def checkMembers (values : List (Decoded py.Date)) (kind : Collection) : Except DecodeError Unit :=
  match rejectHashFlood py values kind with
  | .error e => .error e
  | .ok () => hashAll py values kind

/-- The payload of a `set` tag; `dec` is `decode` one level further down. -/
def setPayload (dec : Obj → ℤ → Spending (Decoded py.Date)) (left : ℤ) :
    Obj → Spending (Decoded py.Date)
  | .list items =>
      match decodeAll dec items left with
      | .error e => .error e
      | .ok (members, left) =>
        match checkMembers py members .set with
        | .error e => .error e
        | .ok () => .ok (.set members, left)
  | _ => .error .badSet

/-- The payload of a `d` tag. -/
def dictPayload (dec : Obj → ℤ → Spending (Decoded py.Date)) (left : ℤ) :
    Obj → Spending (Decoded py.Date)
  | .list items =>
      match decodeAll (decodePair py dec) items left with
      | .error e => .error e
      | .ok (entries, left) =>
        match checkMembers py (entries.map Prod.fst) .dict with
        | .error e => .error e
        | .ok () => .ok (.mapping entries, left)
  | _ => .error .badDict

/-- A scalar that came in a tag. -/
def taggedScalar (left : ℤ) : Except DecodeError (Scalar py.Date) → Spending (Decoded py.Date)
  | .ok s => .ok (.tagged s, left)
  | .error e => .error e

/-- `decode_tagged`. -/
def decodeTagged (dec : Obj → ℤ → Spending (Decoded py.Date)) (tag : List ℕ) (payload : Obj)
    (left : ℤ) : Spending (Decoded py.Date) :=
  let name := lossy tag
  if name = ascii "int" then taggedScalar py left (intPayload py payload)
  else if name = ascii "f" then taggedScalar py left (floatPayload py left payload)
  else if name = ascii "b" then taggedScalar py left (bytesPayload py payload)
  else if name = ascii "dt" then taggedScalar py left (datetimePayload py payload)
  else if name = ascii "set" then setPayload py dec left payload
  else if name = ascii "d" then dictPayload py dec left payload
  else .error (.unknownTag (tag.take 32))

/-- The dictionaries of `decode`: plain, undefined, or tagged. -/
def decodeDict (dec : Obj → ℤ → Spending (Decoded py.Date)) (entries : List (List ℕ × Obj))
    (left : ℤ) : Spending (Decoded py.Date) :=
  match getItem (ascii "$") entries with
  | none =>
    match decodeAll (decodeEntry dec) entries left with
    | .error e => .error e
    | .ok (out, left) => .ok (.dict out, left)
  | some (.str tag) =>
    if lossy tag = ascii "u" ∧ entries.length = 1 then .ok (.tagged .undefined, left)
    else
      match if entries.length = 2 then getItem (ascii "v") entries else none with
      | none => .error .malformedTag
      | some payload => decodeTagged py dec tag payload left
  | some _ => .error .malformedTag

/-- `decode`, `room` levels above the limit: `room` is
`max_depth + 1 - depth`, so that `depth > max_depth` is `room = 0`. -/
def decode (room : ℕ) (obj : Obj) (left : ℤ) : Spending (Decoded py.Date) :=
  if left - 1 < 0 then .error .tooManyNodes
  else
    let left := left - 1
    match room with
    | 0 => .error .tooDeep
    | room + 1 =>
      match obj with
      | .null => .ok (.plain .none, left)
      | .bool b => .ok (.plain (.bool b), left)
      | .str text => .ok (.plain (.str text), left)
      | .int z =>
          if -SAFE_INT ≤ z ∧ z ≤ SAFE_INT then .ok (.plain (.int z), left) else .error .unsafeInt
      | .float f => .ok (.plain (.float f), left)
      | .list items =>
          match decodeAll (decode room) items left with
          | .error e => .error e
          | .ok (out, left) => .ok (.list out, left)
      | .dict entries => decodeDict py (decode room) entries left

/-- `is_dollar`. -/
def isDollar (key : Str) : Bool := key == .plain (ascii "$")

/-- An object with a `"$"` among its keys. -/
def hasDollar : Node → Bool
  | .obj entries => entries.any (isDollar ·.1)
  | _ => false

/-- `decode_node`. -/
def decodeNode (room : ℕ) (node : Node) (left : ℤ) : Spending (Decoded py.Date) :=
  if hasDollar node then
    match toPy py node with
    | .error e => .error e
    | .ok obj => decode py room obj left
  else if left - 1 < 0 then .error .tooManyNodes
  else
    let left := left - 1
    match room with
    | 0 => .error .tooDeep
    | room + 1 =>
      match node with
      | .null => .ok (.plain .none, left)
      | .bool b => .ok (.plain (.bool b), left)
      | .str s => .ok (.plain (.str (pyStr s)), left)
      | .float f => .ok (.plain (.float f), left)
      | .int i =>
          if -SAFE_INT ≤ i ∧ i ≤ SAFE_INT then .ok (.plain (.int i), left) else .error .unsafeInt
      | .big _ => .error .unsafeInt
      | .list items =>
          match decodeAll (decodeNode room) items left with
          | .error e => .error e
          | .ok (out, left) => .ok (.list out, left)
      | .obj entries =>
          match decodeAll (decodeEntry (decodeNode room)) entries left with
          | .error e => .error e
          | .ok (out, left) => .ok (.dict (out.map fun e => (pyStr e.1, e.2)), left)

end

/-! ## Frames -/

/-- A field of a message: plain JSON, one decoded value, or several. -/
inductive Field (Date : Type) where
  | plain (o : Obj)
  | single (d : Decoded Date)
  | multi (ds : List (Decoded Date))

/-- Which fields of a frame type hold one encoded value, and which a list of
them. -/
abbrev Spec := List ℕ → List (List ℕ) × List (List ℕ)

/-- `DECODE_SPEC`. -/
def DECODE_SPEC : Spec := fun kind =>
  if kind = ascii "result" then ([ascii "v"], [])
  else if kind = ascii "call" then ([], [ascii "args"])
  else ([], [])

/-- The type of a frame: the text under `"t"`. -/
def kindOf (entries : List (Str × Node)) : Option (List ℕ) :=
  match entries.reverse.find? fun e => e.1 == .plain (ascii "t") with
  | some (_, .str (.plain s)) => some s
  | _ => none

section

variable (py : Python)

/-- One entry of the message. -/
def decodeField (single multi : List (List ℕ)) (maxNodes : ℤ) (maxDepth : ℕ) (e : Str × Node) :
    Except DecodeError (List ℕ × Field py.Date) :=
  let name := match e.1 with
    | .plain s => s
    | .units _ => []
  if name ∈ single then
    (decodeNode py (maxDepth + 1) e.2 maxNodes).map fun r => (pyStr e.1, .single r.1)
  else
    match decide (name ∈ multi), e.2 with
    | true, .list items =>
        (decodeAll (decodeNode py (maxDepth + 1)) items maxNodes).map fun r =>
          (pyStr e.1, .multi r.1)
    | _, node => (toPy py node).map fun o => (pyStr e.1, .plain o)

/-- The entries of the message, one after the other. -/
def decodeFields (single multi : List (List ℕ)) (maxNodes : ℤ) (maxDepth : ℕ) :
    List (Str × Node) → Except DecodeError (List (List ℕ × Field py.Date))
  | [] => .ok []
  | e :: rest =>
      match decodeField py single multi maxNodes maxDepth e with
      | .error err => .error err
      | .ok field =>
        match decodeFields single multi maxNodes maxDepth rest with
        | .error err => .error err
        | .ok out => .ok (field :: out)

/-- **`_wire_loads_decoded`.** -/
def wireLoadsDecoded (data : Bytes) (spec : Spec) (maxNodes : ℤ) (maxDepth : ℕ) :
    Except DecodeError (List (List ℕ × Field py.Date)) :=
  match parse data (maxNodes.toNat + 64) (maxDepth + PARSE_DEPTH_SLACK) with
  | .error s => .error (.parse s)
  | .ok (.obj entries) =>
    match kindOf entries with
    | none => .error .notMessage
    | some kind => decodeFields py (spec kind).1 (spec kind).2 maxNodes maxDepth entries
  | .ok _ => .error .notMessage

/-- **`loads_decoded`** of `_wire.py`. -/
def loadsDecoded (data : Bytes) : Except DecodeError (List (List ℕ × Field py.Date)) :=
  wireLoadsDecoded py data DECODE_SPEC MAX_NODES MAX_DEPTH

end

end Pydeno.Wire
