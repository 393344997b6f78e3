import Pydeno.Lib.Json.Reader
import Pydeno.Wire.Model.Python

/-!
# The frame parser

`Parser` and `parse` of `src/runtime/wire_json.rs`: a recursive-descent
parser over the bytes of a frame, with a byte cursor, a budget of values and
a limit on the depth. The frame is checked to be UTF-8 first; the parser
then slices the text at byte offsets, which panics inside a character.

Three things can stop it: an error of its own, a panic of the language, and
the bound this model puts on its loops.
-/

namespace Pydeno.Wire

open Binary64 (F64)
open Json (minus isDigit quote backslash letterU comma)

/-! ## The tree -/

/-- `Str`: a string, as its text or, when it holds an unpaired surrogate,
as its code units. -/
inductive Str where
  | plain (text : List ℕ)
  | units (us : List ℕ)
  deriving DecidableEq

/-- `Node`. -/
inductive Node where
  | null
  | bool (b : Bool)
  | int (i : ℤ)
  | big (text : List ℕ)
  | float (f : F64)
  | str (s : Str)
  | list (items : List Node)
  | obj (entries : List (Str × Node))

/-- `ParseError`. -/
inductive ParseError where
  | json
  | tooMany
  | deep
  | nonFinite
  | duplicateKey
  deriving DecidableEq

def ParseError.message : ParseError → String
  | .json => "frame is not valid JSON"
  | .tooMany => "value has too many nodes"
  | .deep => "value nested too deeply"
  | .nonFinite => "non-finite JSON number must use the tagged form"
  | .duplicateKey => "frame has a duplicate object key"

/-- What stops a parse. -/
inductive Stop where
  | error (e : ParseError)
  | panic
  | rounds
  deriving DecidableEq

/-- The moving part of `Parser`: the cursor and what is left of the budget. -/
structure Cursor where
  pos : ℕ
  left : ℕ

/-- What a parsing step returns. -/
abbrev PResult (α : Type) := Except Stop (α × Cursor)

def jsonError {α : Type} : Except Stop α := .error (.error .json)

/-! ## Primitives of the language -/

/-- The value of a run of decimal digits. -/
def decimal (ds : List ℕ) : ℕ := ds.foldl (fun n d => n * 10 + (d - 0x30)) 0

/-- The ratio a number stands for. -/
def ratio (n : Json.Number) : ℕ × ℕ :=
  let digits := decimal (n.int ++ n.frac.getD [])
  let places := (n.frac.getD []).length
  match n.exp with
  | none => (digits, 10 ^ places)
  | some e =>
      if e.sign = some minus then (digits, 10 ^ places * 10 ^ decimal e.digits)
      else (digits * 10 ^ decimal e.digits, 10 ^ places)

/-- The double nearest to a number. -/
def nearest (n : Json.Number) : F64 := F64.nearest n.neg (ratio n).1 (ratio n).2

/-- `text.parse::<f64>()`, on a number of the JSON grammar. -/
def parseF64 (text : List ℕ) : Option F64 :=
  match Json.readNumber text with
  | some (n, []) => some (nearest n)
  | _ => none

/-- The integer a sign and digits stand for. -/
def signed (neg : Bool) (ds : List ℕ) : ℤ := if neg then -(decimal ds : ℤ) else decimal ds

/-- `text.parse::<i64>()`. -/
def parseI64 (text : List ℕ) : Option ℤ :=
  let s := Json.readMinus text
  if s.2 = [] ∨ ¬ s.2.all isDigit then none
  else
    let z := signed s.1 s.2
    if -2 ^ 63 ≤ z ∧ z < 2 ^ 63 then some z else none

/-! ## Strings -/

section

variable (bytes : Bytes)

def skipWs (p : Cursor) : Cursor := { p with pos := skipWhile Json.isWs bytes p.pos }

/-- `expect`. -/
def expect (byte : ℕ) (p : Cursor) : PResult Unit :=
  if bytes[p.pos]? = some byte then .ok ((), { p with pos := p.pos + 1 }) else jsonError

/-- `literal`. -/
def literal (word : List ℕ) (node : Node) (p : Cursor) : PResult Node :=
  if bytes.length < p.pos then .error .panic
  else if word.isPrefixOf (bytes.drop p.pos) then
    .ok (node, { p with pos := p.pos + word.length })
  else jsonError

/-- `hex4`: four hexadecimal digits, as one code unit. -/
def hex4 (p : Cursor) : PResult ℕ :=
  if p.pos + 4 ≤ bytes.length then
    match (slice bytes p.pos (p.pos + 4)).foldlM
        (fun value d => (Json.hexDigit? d).map fun n => (value * 16 + n) % 65536) 0 with
    | some value => .ok (value, { p with pos := p.pos + 4 })
    | none => jsonError
  else jsonError

/-- A slice of plain text goes where the string is being kept. -/
def pushChunk (out : List ℕ) (us : Option (List ℕ)) (chunk : List ℕ) : List ℕ × Option (List ℕ) :=
  match us with
  | some u => (out, some (u ++ Utf16.units chunk))
  | none => (out ++ chunk, none)

/-- The string that has been read. -/
def built (out : List ℕ) (us : Option (List ℕ)) : Str :=
  match us with
  | some u => .units u
  | none => .plain out

/-- `push_char`. -/
def pushChar (out : List ℕ) (us : Option (List ℕ)) (c : ℕ) : List ℕ × Option (List ℕ) :=
  match us with
  | some u => (out, some (u ++ Utf16.encode c))
  | none => (out ++ [c], none)

/-- `push_unit`: from here on the string is kept as code units. -/
def pushUnit (out : List ℕ) (us : Option (List ℕ)) (unit : ℕ) : List ℕ × Option (List ℕ) :=
  (out, some ((us.getD (Utf16.units out)) ++ [unit]))

/-- `char::from_u32`. -/
def fromU32 (c : ℕ) : Option ℕ := if Utf8.IsScalar c then some c else none

/-- A byte that ends a run of plain text. -/
def endsChunk (b : ℕ) : Bool := b == quote || b == backslash || b < 0x20

/-- The second escape of a surrogate pair, at its backslash. -/
def lowHalf (out : List ℕ) (us : Option (List ℕ)) (first : ℕ) (p : Cursor) :
    PResult (List ℕ × Option (List ℕ)) :=
  match hex4 bytes { p with pos := p.pos + 2 } with
  | .error e => .error e
  | .ok (second, q) =>
    if Utf16.isLow second then
      match fromU32 (Utf16.pair first second) with
      | some c => .ok (pushChar out us c, q)
      | none => jsonError
    -- not a pair: the high half stands alone
    else .ok (pushUnit out us first, p)

/-- A `\u` escape of `string`, after its letter: what has been read with it. -/
def unicodeEscape (out : List ℕ) (us : Option (List ℕ)) (p : Cursor) :
    PResult (List ℕ × Option (List ℕ)) :=
  match hex4 bytes p with
  | .error e => .error e
  | .ok (first, p) =>
    if Utf16.isHigh first then
      if p.pos + 2 ≤ bytes.length ∧
          slice bytes p.pos (p.pos + 2) = [backslash, letterU] then
        lowHalf bytes out us first p
      else .ok (pushUnit out us first, p)
    else if Utf16.isLow first then .ok (pushUnit out us first, p)
    else
      match fromU32 first with
      | some c => .ok (pushChar out us c, p)
      | none => jsonError

/-- The loop of `string`, after the opening quote. -/
def stringLoop : ℕ → List ℕ → Option (List ℕ) → Cursor → PResult Str
  | 0, _, _, _ => .error .rounds
  | fuel + 1, out, us, p =>
      let stop := skipWhile (fun b => !endsChunk b) bytes p.pos
      match Utf8.strSlice bytes p.pos stop with
      | none => .error .panic
      | some chunk =>
        let state := pushChunk out us chunk
        if bytes[stop]? = some quote then
          .ok (built state.1 state.2, { p with pos := stop + 1 })
        else if bytes[stop]? = some backslash then
          match bytes[stop + 1]? with
          | none => jsonError
          | some escaped =>
            let p := { p with pos := stop + 2 }
            if escaped = letterU then
              match unicodeEscape bytes state.1 state.2 p with
              | .error e => .error e
              | .ok (state, p) => stringLoop fuel state.1 state.2 p
            else
              match Json.simpleEscape? escaped with
              | some c =>
                let state := pushChar state.1 state.2 c
                stringLoop fuel state.1 state.2 p
              | none => jsonError
        -- a raw control character, or the end of the input
        else jsonError

/-- `string`. -/
def string (p : Cursor) : PResult Str := stringLoop bytes (bytes.length + 1) [] none p

/-! ## Numbers -/

/-- `digits1`: at least one digit. -/
def digits1 (p : Cursor) : PResult Unit :=
  let stop := skipWhile isDigit bytes p.pos
  if stop = p.pos then jsonError else .ok ((), { p with pos := stop })

/-- The integer part of `number`. -/
def intPart (p : Cursor) : PResult Unit :=
  if bytes[p.pos]? = some 0x30 then .ok ((), { p with pos := p.pos + 1 })
  else if holdsAt (fun b => 0x31 ≤ b && b ≤ 0x39) bytes p.pos then
    .ok ((), { p with pos := skipWhile isDigit bytes p.pos })
  else jsonError

/-- The fraction of `number`: whether there is one. -/
def fracPart (p : Cursor) : PResult Bool :=
  if bytes[p.pos]? = some Json.point then
    (digits1 bytes { p with pos := p.pos + 1 }).map fun r => (true, r.2)
  else .ok (false, p)

/-- The exponent of `number`: whether there is one. -/
def expPart (p : Cursor) : PResult Bool :=
  if holdsAt (fun b => b == 0x65 || b == 0x45) bytes p.pos then
    let q := { p with pos := p.pos + 1 }
    let q := if holdsAt (fun b => b == Json.plus || b == minus) bytes q.pos then
      { q with pos := q.pos + 1 } else q
    (digits1 bytes q).map fun r => (true, r.2)
  else .ok (false, p)

/-- What `number` makes of the text it has read. -/
def numberNode (isFloat : Bool) (intDigits : ℕ) (text : List ℕ) : Except Stop Node :=
  if isFloat then
    match parseF64 text with
    | some f => if f.isFinite then .ok (.float f) else .error (.error .nonFinite)
    | none => jsonError
  else if intDigits ≤ 18 then
    match parseI64 text with
    | some i => .ok (.int i)
    | none => jsonError
  else .ok (.big text)

/-- `number`. -/
def number (p : Cursor) : Except Stop (Node × Cursor) := do
  let start := p.pos
  let p := if bytes[p.pos]? = some minus then { p with pos := p.pos + 1 } else p
  let digitsFrom := p.pos
  let (_, p) ← intPart bytes p
  let intDigits := p.pos - digitsFrom
  let (hasFrac, p) ← fracPart bytes p
  let (hasExp, p) ← expPart bytes p
  match Utf8.strSlice bytes start p.pos with
  | none => .error .panic
  | some text => (numberNode (hasFrac || hasExp) intDigits text).map fun n => (n, p)

/-! ## Values -/

/-- `reject_duplicate_keys`: pairwise for a few entries, with a hash set for
more. -/
def hasDuplicate (entries : List (Str × Node)) : Bool :=
  if entries.length ≤ 8 then
    entries.zipIdx.any fun e => (entries.take e.2).any fun earlier => earlier.1 == e.1.1
  else
    (entries.foldl (fun (s : Bool × List Str) e =>
      if s.1 then s else (decide (e.1 ∈ s.2), e.1 :: s.2)) (false, [])).1

variable (maxDepth : ℕ)

mutual

/-- `value`. -/
def value : ℕ → ℕ → Cursor → PResult Node
  | 0, _, _ => .error .rounds
  | fuel + 1, depth, p =>
      if maxDepth < depth then .error (.error .deep)
      else if p.left = 0 then .error (.error .tooMany)
      else
        let p := skipWs bytes { p with left := p.left - 1 }
        match bytes[p.pos]? with
        | none => jsonError
        | some c =>
          if c = 0x6E then literal bytes Json.nullText .null p
          else if c = 0x74 then literal bytes Json.trueText (.bool true) p
          else if c = 0x66 then literal bytes Json.falseText (.bool false) p
          else if c = quote then
            (string bytes { p with pos := p.pos + 1 }).map fun r => (.str r.1, r.2)
          else if c = Json.openBracket then
            -- `list`
            let p := skipWs bytes { p with pos := p.pos + 1 }
            if bytes[p.pos]? = some Json.closeBracket then
              .ok (.list [], { p with pos := p.pos + 1 })
            else listLoop fuel depth [] p
          else if c = Json.openBrace then
            -- `object`
            let p := skipWs bytes { p with pos := p.pos + 1 }
            if bytes[p.pos]? = some Json.closeBrace then
              .ok (.obj [], { p with pos := p.pos + 1 })
            else objectLoop fuel depth [] p
          else if c = minus ∨ isDigit c = true then number bytes p
          else jsonError

/-- The loop of `list`. -/
def listLoop : ℕ → ℕ → List Node → Cursor → PResult Node
  | 0, _, _, _ => .error .rounds
  | fuel + 1, depth, items, p =>
      match value fuel (depth + 1) p with
      | .error e => .error e
      | .ok (item, p) =>
        let items := items ++ [item]
        let p := skipWs bytes p
        if bytes[p.pos]? = some comma then
          listLoop fuel depth items { p with pos := p.pos + 1 }
        else if bytes[p.pos]? = some Json.closeBracket then
          .ok (.list items, { p with pos := p.pos + 1 })
        else jsonError

/-- The loop of `object`. -/
def objectLoop : ℕ → ℕ → List (Str × Node) → Cursor → PResult Node
  | 0, _, _, _ => .error .rounds
  | fuel + 1, depth, entries, p =>
      match expect bytes quote (skipWs bytes p) with
      | .error e => .error e
      | .ok (_, p) =>
        match string bytes p with
        | .error e => .error e
        | .ok (key, p) =>
          match expect bytes Json.colon (skipWs bytes p) with
          | .error e => .error e
          | .ok (_, p) =>
            match value fuel (depth + 1) p with
            | .error e => .error e
            | .ok (item, p) =>
              let entries := entries ++ [(key, item)]
              let p := skipWs bytes p
              if bytes[p.pos]? = some comma then
                objectLoop fuel depth entries { p with pos := p.pos + 1 }
              else if bytes[p.pos]? = some Json.closeBrace then
                if hasDuplicate entries then .error (.error .duplicateKey)
                else .ok (.obj entries, { p with pos := p.pos + 1 })
              else jsonError

end

end

/-- **`parse`**: one document, and nothing after it. -/
def parse (data : Bytes) (maxNodes maxDepth : ℕ) : Except Stop Node :=
  match Utf8.fromUtf8 data with
  | none => jsonError
  | some _ =>
    match value data maxDepth (2 * data.length + 2) 0 ⟨0, maxNodes⟩ with
    | .error e => .error e
    | .ok (node, p) =>
      if (skipWs data p).pos ≠ data.length then jsonError else .ok node

end Pydeno.Wire
