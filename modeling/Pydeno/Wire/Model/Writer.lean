import Pydeno.Wire.Model.Decoder
/-!
# The writer of messages

`Writer` of `wire_json.rs`: a message goes out as one JSON object, straight to
bytes. A buffer over the frame cap is refused after each entry.
-/

namespace Pydeno.Wire

/-! ## Text -/

/-- `{:x}`: a hexadecimal digit. -/
def hexDigit (n : ℕ) : ℕ :=
  if n < 10 then 48 + n else 87 + n

/-- `\u{:04x}` -/
def hexEscape (u : ℕ) : Bytes :=
  [92, 117, hexDigit (u / 4096 % 16), hexDigit (u / 256 % 16), hexDigit (u / 16 % 16),
    hexDigit (u % 16)]

/-- One byte of a string as `text` writes it. -/
def escapeByte (b : ℕ) : Bytes :=
  if b = 34 then [92, 34]
  else if b = 92 then [92, 92]
  else if b = 10 then [92, 110]
  else if b = 13 then [92, 114]
  else if b = 9 then [92, 116]
  else if b = 8 then [92, 98]
  else if b = 12 then [92, 102]
  else if b < 32 then hexEscape b
  else [b]

/-- `text`, without its quotes. -/
def textBody (bytes : Bytes) : Bytes :=
  bytes.flatMap escapeByte

/-- The characters of a string with lone surrogates, from its code units. -/
def unitsBody : List ℕ → Bytes
  | [] => []
  | [u] =>
    if Utf16.isHigh u || Utf16.isLow u then hexEscape u else textBody (Utf8.encode u)
  | u :: v :: rest =>
    if Utf16.isHigh u then
      if Utf16.isLow v then textBody (Utf8.encode (Utf16.pair u v)) ++ unitsBody rest
      else hexEscape u ++ unitsBody (v :: rest)
    else if Utf16.isLow u then hexEscape u ++ unitsBody (v :: rest)
    else textBody (Utf8.encode u) ++ unitsBody (v :: rest)

/-- `py_text`: a Python `str`; one that UTF-8 cannot hold is written from its
code units, lone surrogates as escapes. -/
def pyText (s : List ℕ) : Bytes :=
  34 :: (if s.all (fun c => decide (Utf8.IsScalar c)) then textBody (Utf8.encodeAll s)
    else unitsBody (Utf16.units s)) ++ [34]

/-- `int`: the decimal digits. -/
def intText (z : ℤ) : Bytes :=
  ascii (toString z)

/-! ## Messages -/

/-- A value of a message: plain, or marked by `Enc` to be written in its wire
form. -/
inductive Item (E : Type) where
  | int (z : ℤ)
  | str (s : List ℕ)
  | enc (e : E)

/-- What `check_size` says of a buffer over the cap. -/
def tooLargeText (size : ℕ) : List ℕ :=
  ascii ("message of " ++ toString size ++ " bytes exceeds the " ++ toString MAX_FRAME_BYTES ++
    " byte frame cap")

section

variable {E X : Type} (encoded : E → Bytes → Except X Bytes) (fail : List ℕ → X)

/-- `check_size` -/
def checkSize (buf : Bytes) : Except X Bytes :=
  if MAX_FRAME_BYTES < buf.length then .error (fail (tooLargeText buf.length)) else .ok buf

/-- `plain`, for the values a message holds. -/
def plain (item : Item E) (buf : Bytes) : Except X Bytes :=
  match item with
  | .int z => .ok (buf ++ intText z)
  | .str s => .ok (buf ++ pyText s)
  | .enc e => encoded e buf

/-- The entries of a message, each checked for size. -/
def plainEntries : List (List ℕ × Item E) → Bool → Bytes → Except X Bytes
  | [], _, buf => .ok buf
  | (k, item) :: rest, first, buf =>
    match plain encoded item ((if first then buf else buf ++ [44]) ++ pyText k ++ [58]) with
    | .error x => .error x
    | .ok buf =>
      match checkSize fail buf with
      | .error x => .error x
      | .ok buf => plainEntries rest false buf

/-- **`_wire_dumps`.** -/
def wireDumps (message : List (List ℕ × Item E)) : Except X Bytes :=
  match plainEntries encoded fail message true [123] with
  | .error x => .error x
  | .ok buf => checkSize fail (buf ++ [125])

end

end Pydeno.Wire
