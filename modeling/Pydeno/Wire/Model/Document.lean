import Pydeno.Wire.Model.Parser

/-!
# The documents a frame may hold

What the parser asks of a JSON document beyond the grammar, and when a tree
of the parser denotes a document.
-/

namespace Pydeno.Wire

/-! ## Restrictions -/

/-- An integer, or a number that is finite as a double. -/
def FiniteNumber (n : Json.Number) : Prop := n.isInt = true ∨ (nearest n).isFinite = true

instance (n : Json.Number) : Decidable (FiniteNumber n) :=
  inferInstanceAs (Decidable (_ ∨ _))

mutual

/-- Every number with a fraction or an exponent is finite as a double. -/
def FiniteNumbers : Json.Value → Prop
  | .num n => FiniteNumber n
  | .arr items => FiniteItems items
  | .obj entries => FiniteEntries entries
  | _ => True

def FiniteItems : List Json.Value → Prop
  | [] => True
  | v :: rest => FiniteNumbers v ∧ FiniteItems rest

def FiniteEntries : List (List ℕ × Json.Value) → Prop
  | [] => True
  | (_, v) :: rest => FiniteNumbers v ∧ FiniteEntries rest

end

mutual

/-- No object has two equal keys. -/
def DistinctKeys : Json.Value → Prop
  | .arr items => DistinctItems items
  | .obj entries => (entries.map Prod.fst).Nodup ∧ DistinctEntries entries
  | _ => True

def DistinctItems : List Json.Value → Prop
  | [] => True
  | v :: rest => DistinctKeys v ∧ DistinctItems rest

def DistinctEntries : List (List ℕ × Json.Value) → Prop
  | [] => True
  | (_, v) :: rest => DistinctKeys v ∧ DistinctEntries rest

end

/-- **What the parser takes**, with `left` values to spend and from depth
`depth` on. -/
structure Fits (maxDepth depth left : ℕ) (d : Json.Value) : Prop where
  deep : depth + d.depth ≤ maxDepth
  many : d.count ≤ left
  finite : FiniteNumbers d
  distinct : DistinctKeys d

/-! ## Meaning -/

/-- The code units of a string. -/
def Str.toUnits : Str → List ℕ
  | .plain text => Utf16.units text
  | .units us => us

mutual

/-- **The tree denotes the document**: the same values in the same order,
strings as their code units, integers exactly and other numbers as the
nearest double. -/
inductive Denotes : Node → Json.Value → Prop where
  | null : Denotes .null .null
  | bool (b : Bool) : Denotes (.bool b) (.bool b)
  | int {n : Json.Number} : n.isInt = true → Denotes (.int (signed n.neg n.int)) (.num n)
  | big {n : Json.Number} : n.isInt = true → Denotes (.big n.text) (.num n)
  | float {n : Json.Number} : n.isInt = false → Denotes (.float (nearest n)) (.num n)
  | str (s : Str) : Denotes (.str s) (.str s.toUnits)
  | list {items : List Node} {vs : List Json.Value} : DenoteItems items vs →
      Denotes (.list items) (.arr vs)
  | obj {entries : List (Str × Node)} {es : List (List ℕ × Json.Value)} : DenoteEntries entries es →
      Denotes (.obj entries) (.obj es)

inductive DenoteItems : List Node → List Json.Value → Prop where
  | nil : DenoteItems [] []
  | cons {item : Node} {items : List Node} {v : Json.Value} {vs : List Json.Value} :
      Denotes item v → DenoteItems items vs → DenoteItems (item :: items) (v :: vs)

inductive DenoteEntries : List (Str × Node) → List (List ℕ × Json.Value) → Prop where
  | nil : DenoteEntries [] []
  | cons {key : Str} {item : Node} {entries : List (Str × Node)} {v : Json.Value}
      {es : List (List ℕ × Json.Value)} : Denotes item v → DenoteEntries entries es →
      DenoteEntries ((key, item) :: entries) ((key.toUnits, v) :: es)

end

end Pydeno.Wire
