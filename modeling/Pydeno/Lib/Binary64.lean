import Mathlib

/-!
# Binary64

The finite magnitudes of a double, in order, are numbered from 0: the
number is the bit pattern without the sign. All of them are multiples of
`2^-1074`, and `units k` is the `k`-th one counted in these. `roundMag a b`
is the number of the magnitude nearest to `a / b`, ties to the even one; a
number past the last finite one stands for infinity.
-/

namespace Pydeno.Binary64

/-- How many finite magnitudes there are. -/
def limit : ℕ := 2047 * 2 ^ 52

/-- The number of units in one. -/
def scale : ℕ := 2 ^ 1074

/-- The `k`-th magnitude, in units of `2^-1074`. -/
def units (k : ℕ) : ℕ :=
  if k < 2 ^ 52 then k else (2 ^ 52 + k % 2 ^ 52) * 2 ^ (k / 2 ^ 52 - 1)

/-- The number of the largest magnitude of at most `n` units. -/
def below (n : ℕ) : ℕ :=
  if n < 2 ^ 53 then n else (Nat.log 2 n - 52) * 2 ^ 52 + n / 2 ^ (Nat.log 2 n - 52)

/-- **The number of the magnitude nearest to `a / b`**, ties to even. -/
def roundMag (a b : ℕ) : ℕ :=
  let n := a * scale
  let k := below (n / b)
  let middle := (units k + units (k + 1)) * b
  if 2 * n < middle then k
  else if middle < 2 * n then k + 1
  else if k % 2 = 0 then k else k + 1

/-- **A double that is a number**: every one but NaN. -/
inductive F64 where
  | inf (neg : Bool)
  | finite (neg : Bool) (mag : Fin limit)
  deriving DecidableEq

/-- The double nearest to `± a / b`. -/
def F64.nearest (neg : Bool) (a b : ℕ) : F64 :=
  if h : roundMag a b < limit then .finite neg ⟨roundMag a b, h⟩ else .inf neg

def F64.isFinite : F64 → Bool
  | .finite _ _ => true
  | _ => false

end Pydeno.Binary64
