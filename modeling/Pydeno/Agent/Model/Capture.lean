import Pydeno.Wire.Model.Python

/-!
# Console capture

One stream of `OutputCapture` of `python/pydeno/_result.py`, with `_CONTROL` and
`_cut_utf8`. The calls whose level picks the stream are taken in the order in which they
take the lock; the check of `cut` before that only saves work, since `cut` is never taken
back. How an argument is written, a Python string, is left open.
-/

namespace Pydeno.Agent.Capture

open Wire (ascii)

/-- `TRUNCATED_MARKER`. -/
def truncatedMarker : List ℕ := ascii "[truncated]"

/-- `_CONTROL`: the ranges of its character class. -/
def control : List (ℕ × ℕ) :=
  [(0x00, 0x08), (0x0B, 0x1F), (0x7F, 0x9F), (0xAD, 0xAD), (0x034F, 0x034F), (0x0600, 0x0605),
    (0x061C, 0x061C), (0x06DD, 0x06DD), (0x070F, 0x070F), (0x0890, 0x0890), (0x0891, 0x0891),
    (0x08E2, 0x08E2), (0x115F, 0x115F), (0x1160, 0x1160), (0x180B, 0x180F), (0x200B, 0x200F),
    (0x2028, 0x202E), (0x2060, 0x206F), (0x3164, 0x3164), (0xD800, 0xDFFF), (0xFE00, 0xFE0F),
    (0xFEFF, 0xFEFF), (0xFFA0, 0xFFA0), (0xFFF9, 0xFFFB), (0x110BD, 0x110BD),
    (0x110CD, 0x110CD), (0x13430, 0x1343F), (0x1BCA0, 0x1BCA3), (0x1D173, 0x1D17A),
    (0xE0000, 0xE007F), (0xE0100, 0xE01EF)]

/-- A character of `_CONTROL`. -/
def isControl (c : ℕ) : Bool := control.any fun r => r.1 ≤ c && c ≤ r.2

/-- `_CONTROL.sub("?", text)` -/
def sanitised (text : List ℕ) : List ℕ := text.map fun c => if isControl c then 0x3F else c

/-- `_cut_utf8` -/
def cutUtf8 (text : List ℕ) (limit : ℕ) : List ℕ :=
  Utf8.decodeIgnore ((Utf8.encodeAll text).take limit)

/-- `_Stream` -/
structure Stream where
  parts : List (List ℕ)
  size : ℕ
  cut : Bool

/-- A new `_Stream`. -/
def Stream.new : Stream := ⟨[], 0, false⟩

/-- What `__call__` does to its stream for a line. -/
def Stream.add (maxBytes : ℕ) (line : List ℕ) (s : Stream) : Stream :=
  if s.cut then s
  else
    let room := maxBytes - s.size
    let size := (Utf8.encodeAll line).length
    if size ≤ room then { s with parts := s.parts ++ [line], size := s.size + size }
    else
      let head := cutUtf8 line room
      if head = [] then { s with cut := true }
      else ⟨s.parts ++ [head], s.size + (Utf8.encodeAll head).length, true⟩

/-- `_text` -/
def Stream.text (s : Stream) : List ℕ :=
  let text := s.parts.flatten
  if s.cut then
    (if text ≠ [] ∧ text.getLast? ≠ some 0x0A then text ++ [0x0A] else text) ++
      (truncatedMarker ++ [0x0A])
  else text

/-- `mark_cut`, for its stream. -/
def Stream.markCut (s : Stream) : Stream := { s with cut := true }

/-- What reaches a stream: a console call with its arguments as they are written, or the
mark that a line was longer than the worker could send. -/
inductive Call where
  | console (args : List (List (Fin 0x110000)))
  | markCut

/-- The line of a call. -/
def line (args : List (List (Fin 0x110000))) : List ℕ :=
  sanitised (([0x20].intercalate args).map Fin.val) ++ [0x0A]

/-- `__call__` and `mark_cut`. -/
def Stream.step (maxBytes : ℕ) (s : Stream) : Call → Stream
  | .console args => s.add maxBytes (line args)
  | .markCut => s.markCut

/-- A stream after the calls that reach it. -/
def run (maxBytes : ℕ) (calls : List Call) : Stream := calls.foldl (Stream.step maxBytes) .new

end Pydeno.Agent.Capture
