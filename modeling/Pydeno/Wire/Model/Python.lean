import Pydeno.Lib.Binary64
import Pydeno.Lib.Json.Grammar

/-!
# Python values

The values that cross the wire, and what the codec calls Python for: the
conversions `int`, `base64.b64decode` and `datetime.fromisoformat`, the
hash, and equality of keys. A set and a dictionary hold scalars as members
and keys, since nothing else the decoder builds can be hashed.
-/

namespace Pydeno.Wire

open Binary64 (F64)

/-- Bytes, and the text of a string: code points or code units. -/
abbrev Bytes := List ℕ

/-- **A scalar.** Text is a list of code points, lone surrogates included; a
NaN is the object it is, since no NaN equals another. -/
inductive Scalar (Date : Type) where
  | none
  | bool (b : Bool)
  | int (z : ℤ)
  | float (f : F64)
  | nan (obj : ℕ)
  | str (text : List ℕ)
  | bytes (bs : Bytes)
  | undefined
  | datetime (d : Date)

/-- **What the codec calls Python for.** -/
structure Python where
  Date : Type
  /-- `a == b` for two datetimes. -/
  dateEq : Date → Date → Bool
  /-- `int(text)`; `none` is a `ValueError`. -/
  int : List ℕ → Option ℤ
  /-- `base64.b64decode(text, validate=True)`. -/
  b64decode : List ℕ → Option Bytes
  /-- `datetime.fromisoformat(text)`. -/
  fromisoformat : List ℕ → Option Date
  hash : Scalar Date → ℤ

/-! ## Keys -/

/-- What numbers are compared by: their value in units of `2^-1074`, or an
infinity. -/
inductive NumKey where
  | fin (units : ℤ)
  | inf (neg : Bool)
  deriving DecidableEq

/-- The value of a double. -/
def numKeyOfFloat : F64 → NumKey
  | .inf neg => .inf neg
  | .finite neg mag =>
      .fin (if neg then -(Binary64.units mag : ℤ) else (Binary64.units mag : ℤ))

section

variable {Date : Type}

/-- A bool is a number to Python. -/
def Scalar.numKey : Scalar Date → Option NumKey
  | .bool b => some (.fin (if b then (Binary64.scale : ℤ) else 0))
  | .int z => some (.fin (z * Binary64.scale))
  | .float f => some (numKeyOfFloat f)
  | _ => .none

/-- `a == b or a is b`, for two keys. -/
def keyEq (dateEq : Date → Date → Bool) (a b : Scalar Date) : Bool :=
  match a.numKey, b.numKey with
  | some x, some y => decide (x = y)
  | none, none =>
      match a, b with
      | .none, .none => true
      | .nan i, .nan j => decide (i = j)
      | .str s, .str t => decide (s = t)
      | .bytes s, .bytes t => decide (s = t)
      | .undefined, .undefined => true
      | .datetime d, .datetime e => dateEq d e
      | _, _ => false
  | _, _ => false

variable (dateEq : Date → Date → Bool)

/-- `d[key] = value`: a key that is there keeps its place and takes the value. -/
def setItem {V : Type} : List (Scalar Date × V) → Scalar Date → V → List (Scalar Date × V)
  | [], k, v => [(k, v)]
  | (k', v') :: rest, k, v =>
      if keyEq dateEq k' k then (k', v) :: rest else (k', v') :: setItem rest k v

/-- A dictionary filled entry by entry. -/
def pyDict {V : Type} (entries : List (Scalar Date × V)) : List (Scalar Date × V) :=
  entries.foldl (fun d e => setItem dateEq d e.1 e.2) []

end

/-! ## Text -/

/-- The text of an ASCII string. -/
def ascii (s : String) : List ℕ := s.toList.map Char.toNat

end Pydeno.Wire
