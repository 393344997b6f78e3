import Pydeno.Wire.Model.Python
/-!
# JSON values and their texts

What a schema is made of, `json.dumps`, and the methods of `str` that
`_schema.py` uses. Text is code points. A float is its `repr`.
-/

namespace Pydeno.Schema

open Wire (ascii)

abbrev Text := List ℕ

/-- The `repr` of a float that is finite, such as `-1.5e-07`. -/
structure FloatRepr where
  negative : Bool
  whole : ℕ
  fraction : List (Fin 10)
  /-- Whether the exponent is negative, and its digits. -/
  exponent : Option (Bool × List (Fin 10))

def digits (ds : List (Fin 10)) : Text := ds.map fun d => 0x30 + d.val

/-- The `repr` without its sign. -/
def FloatRepr.magnitude (r : FloatRepr) : Text :=
  ascii (toString r.whole) ++ (if r.fraction = [] then [] else 0x2E :: digits r.fraction) ++
    match r.exponent with
    | some (negative, ds) => 0x65 :: (if negative then 0x2D else 0x2B) :: digits ds
    | none => []

def FloatRepr.text (r : FloatRepr) : Text := (if r.negative then [0x2D] else []) ++ r.magnitude

/-- **A JSON value**: a dictionary has its entries in order. -/
inductive Json where
  | null
  | bool (b : Bool)
  | int (z : ℤ)
  /-- A float that is finite, by its `repr`. -/
  | float (repr : FloatRepr)
  /-- `NaN` or an infinity, by its text in JSON. -/
  | nonfinite (text : Text)
  | str (t : Text)
  | list (items : List Json)
  | dict (entries : List (Text × Json))

abbrev Fields := List (Text × Json)

/-- `s.get(key)`, and `None` where the value is. -/
def get? (s : Fields) (key : String) : Option Json :=
  (s.find? fun e => e.1 = ascii key).map Prod.snd

/-! ## Texts -/

/-- Texts with a separator between them. -/
def join (separator : Text) (parts : List Text) : Text := separator.intercalate parts

/-- A hexadecimal digit, in lower case. -/
def hexDigit (n : ℕ) : ℕ := if n < 10 then 0x30 + n else 0x61 + (n - 10)

/-- `\uXXXX` -/
def unicodeEscape (c : ℕ) : Text :=
  [0x5C, 0x75, hexDigit (c / 4096 % 16), hexDigit (c / 256 % 16), hexDigit (c / 16 % 16),
    hexDigit (c % 16)]

/-- One character of a string in JSON. -/
def escapeChar (ensureAscii : Bool) (c : ℕ) : Text :=
  if c = 0x22 then ascii "\\\""
  else if c = 0x5C then ascii "\\\\"
  else if c = 0x0A then ascii "\\n"
  else if c = 0x0D then ascii "\\r"
  else if c = 0x09 then ascii "\\t"
  else if c = 0x0C then ascii "\\f"
  else if c = 0x08 then ascii "\\b"
  else if c < 0x20 then unicodeEscape c
  else if ensureAscii && 0x7F ≤ c then
    if c < 0x10000 then unicodeEscape c
    else
      unicodeEscape (0xD800 + (c - 0x10000) / 1024) ++ unicodeEscape (0xDC00 + (c - 0x10000) % 1024)
  else [c]

/-- A string in JSON. -/
def dumpsString (ensureAscii : Bool) (t : Text) : Text :=
  0x22 :: (t.flatMap (escapeChar ensureAscii) ++ [0x22])

/-- Keys in order. -/
def sortKeys (entries : List (Text × Text)) : List (Text × Text) :=
  entries.mergeSort fun a b => a.1 ≤ b.1

section

variable (ensureAscii sorted : Bool)

/-- The entries of a dictionary in JSON. -/
def dumpsEntry (e : Text × Text) : Text := dumpsString ensureAscii e.1 ++ ascii ": " ++ e.2

mutual

/-- **`json.dumps`.** -/
def dumps : Json → Text
  | .null => ascii "null"
  | .bool true => ascii "true"
  | .bool false => ascii "false"
  | .int z => ascii (toString z)
  | .float repr => repr.text
  | .nonfinite text => text
  | .str t => dumpsString ensureAscii t
  | .list items => ascii "[" ++ join (ascii ", ") (dumpsItems items) ++ ascii "]"
  | .dict entries =>
    let texts := dumpsValues entries
    let texts := if sorted then sortKeys texts else texts
    ascii "\x7b" ++ join (ascii ", ") (texts.map (dumpsEntry ensureAscii)) ++ ascii "\x7d"

def dumpsItems : List Json → List Text
  | [] => []
  | v :: rest => dumps v :: dumpsItems rest

def dumpsValues : Fields → List (Text × Text)
  | [] => []
  | (k, v) :: rest => (k, dumps v) :: dumpsValues rest

end

end

/-- `json.dumps(schema, sort_keys=True, default=str)` -/
def canonical (schema : Json) : Text := dumps true true schema

/-! ## Methods of `str` -/

/-- `str.isspace` of a character. -/
def isSpace (c : ℕ) : Bool :=
  (0x09 ≤ c && c ≤ 0x0D) || (0x1C ≤ c && c ≤ 0x20) || c = 0x85 || c = 0xA0 || c = 0x1680 ||
    (0x2000 ≤ c && c ≤ 0x200A) || c = 0x2028 || c = 0x2029 || c = 0x202F || c = 0x205F || c = 0x3000

/-- `str.strip()` -/
def strip (t : Text) : Text := (t.dropWhile isSpace).rdropWhile isSpace

/-- `str.rstrip()` -/
def rstrip (t : Text) : Text := t.rdropWhile isSpace

/-- The characters at which `str.splitlines` splits. -/
def isLineBreak (c : ℕ) : Bool :=
  (0x0A ≤ c && c ≤ 0x0D) || (0x1C ≤ c && c ≤ 0x1E) || c = 0x85 || c = 0x2028 || c = 0x2029

/-- `str.splitlines()`, with the line so far; there is no line after the last
break. -/
def splitlinesFrom : Text → Text → List Text
  | line, [] => if line = [] then [] else [line]
  | line, [c] => if isLineBreak c then [line] else [line ++ [c]]
  | line, c :: d :: rest =>
    if c = 0x0D ∧ d = 0x0A then line :: splitlinesFrom [] rest
    else if isLineBreak c then line :: splitlinesFrom [] (d :: rest)
    else splitlinesFrom (line ++ [c]) (d :: rest)

def splitlines (t : Text) : List Text := splitlinesFrom [] t

/-- `part in t` -/
def contains (t part : Text) : Bool := t.tails.any part.isPrefixOf

/-- `t.replace("*/", "*\\/")` -/
def replaceEnds : Text → Text
  | [] => []
  | [c] => [c]
  | c :: d :: rest =>
    if c = 0x2A ∧ d = 0x2F then 0x2A :: 0x5C :: 0x2F :: replaceEnds rest
    else c :: replaceEnds (d :: rest)

end Pydeno.Schema
