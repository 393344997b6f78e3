import Pydeno.Lib.Utf16

/-!
# The grammar of JSON

RFC 8259, as a relation between a text (a list of code points) and the
document it denotes. A string denotes its UTF-16 code units, since an
escape names one unit and two of them may or may not make a pair; a number
denotes its literal, so that what a reader makes of it is the reader's
business; an object keeps its entries in order, repeated keys included.
-/

namespace Pydeno.Json

open List

abbrev Text := List ℕ

/-! ## Characters -/

def quote : ℕ := 0x22
def backslash : ℕ := 0x5C
def comma : ℕ := 0x2C
def colon : ℕ := 0x3A
def openBracket : ℕ := 0x5B
def closeBracket : ℕ := 0x5D
def openBrace : ℕ := 0x7B
def closeBrace : ℕ := 0x7D

/-- White space between tokens. -/
def isWs (c : ℕ) : Bool := c == 0x20 || c == 0x09 || c == 0x0A || c == 0x0D

def isDigit (c : ℕ) : Bool := 0x30 ≤ c && c ≤ 0x39

/-- The value of a hexadecimal digit. -/
def hexDigit? (c : ℕ) : Option ℕ :=
  if 0x30 ≤ c ∧ c ≤ 0x39 then some (c - 0x30)
  else if 0x61 ≤ c ∧ c ≤ 0x66 then some (c - 0x61 + 10)
  else if 0x41 ≤ c ∧ c ≤ 0x46 then some (c - 0x41 + 10)
  else none

/-- The value of four hexadecimal digits. -/
def hex4? (a b c d : ℕ) : Option ℕ :=
  match hexDigit? a, hexDigit? b, hexDigit? c, hexDigit? d with
  | some a, some b, some c, some d => some (a * 4096 + b * 256 + c * 16 + d)
  | _, _, _, _ => none

/-- What a backslash and one character stand for. -/
def simpleEscape? (c : ℕ) : Option ℕ :=
  if c = 0x22 then some 0x22
  else if c = 0x5C then some 0x5C
  else if c = 0x2F then some 0x2F
  else if c = 0x62 then some 0x08
  else if c = 0x66 then some 0x0C
  else if c = 0x6E then some 0x0A
  else if c = 0x72 then some 0x0D
  else if c = 0x74 then some 0x09
  else none

/-- The letter of a unicode escape. -/
def letterU : ℕ := 0x75

/-- A character a string may hold as it is. -/
def isRaw (c : ℕ) : Bool := 0x20 ≤ c && c < 0x110000 && c != quote && c != backslash

/-! ## Numbers -/

/-- The exponent of a number: the letter, the sign and the digits. -/
structure Exponent where
  letter : ℕ
  sign : Option ℕ
  digits : Text
  deriving DecidableEq

/-- A number, as it is written. -/
structure Number where
  neg : Bool
  int : Text
  frac : Option Text
  exp : Option Exponent
  deriving DecidableEq

def minus : ℕ := 0x2D
def plus : ℕ := 0x2B
def point : ℕ := 0x2E

def Exponent.text (e : Exponent) : Text := e.letter :: (e.sign.toList ++ e.digits)

/-- The text of a number. -/
def Number.text (n : Number) : Text :=
  (if n.neg then [minus] else []) ++ n.int ++ (match n.frac with
    | some ds => point :: ds
    | none => []) ++ (match n.exp with
    | some e => e.text
    | none => [])

/-- `1*DIGIT`. -/
def Digits (ds : Text) : Prop := ds ≠ [] ∧ ∀ c ∈ ds, isDigit c = true

/-- `int = zero / ( digit1-9 *DIGIT )`. -/
def IntPart (ds : Text) : Prop :=
  ds = [0x30] ∨ ∃ d rest, ds = d :: rest ∧ 0x31 ≤ d ∧ d ≤ 0x39 ∧ ∀ c ∈ rest, isDigit c = true

structure Exponent.Valid (e : Exponent) : Prop where
  letter : e.letter = 0x65 ∨ e.letter = 0x45
  sign : ∀ s ∈ e.sign, s = plus ∨ s = minus
  digits : Digits e.digits

/-- `number = [ minus ] int [ frac ] [ exp ]`. -/
structure Number.Valid (n : Number) : Prop where
  int : IntPart n.int
  frac : ∀ ds ∈ n.frac, Digits ds
  exp : ∀ e ∈ n.exp, e.Valid

/-- A number without fraction and exponent. -/
def Number.isInt (n : Number) : Bool := n.frac.isNone && n.exp.isNone

/-! ## Documents -/

/-- **A JSON document.** -/
inductive Value where
  | null
  | bool (b : Bool)
  | num (n : Number)
  | str (units : Text)
  | arr (items : List Value)
  | obj (entries : List (Text × Value))

mutual

/-- How deep a document nests: a scalar and an empty container are at
depth 0, the values in a container one deeper. -/
def Value.depth : Value → ℕ
  | .arr items => depthItems items
  | .obj entries => depthEntries entries
  | _ => 0

def Value.depthItems : List Value → ℕ
  | [] => 0
  | v :: rest => max (v.depth + 1) (Value.depthItems rest)

def Value.depthEntries : List (Text × Value) → ℕ
  | [] => 0
  | (_, v) :: rest => max (v.depth + 1) (Value.depthEntries rest)

end

mutual

/-- How many values a document holds, itself included; keys do not count. -/
def Value.count : Value → ℕ
  | .arr items => 1 + countItems items
  | .obj entries => 1 + countEntries entries
  | _ => 1

def Value.countItems : List Value → ℕ
  | [] => 0
  | v :: rest => v.count + Value.countItems rest

def Value.countEntries : List (Text × Value) → ℕ
  | [] => 0
  | (_, v) :: rest => v.count + Value.countEntries rest

end

/-! ## The grammar -/

/-- `ws`. -/
def Ws (t : Text) : Prop := ∀ c ∈ t, isWs c = true

/-- `*char`, with the code units it denotes. -/
inductive Chars : Text → Text → Prop where
  | nil : Chars [] []
  | raw {c : ℕ} {t us : Text} : isRaw c = true → Chars t us → Chars (c :: t) (Utf16.encode c ++ us)
  | simple {c x : ℕ} {t us : Text} : simpleEscape? c = some x → Chars t us →
      Chars (backslash :: c :: t) (x :: us)
  | unicode {a b c d u : ℕ} {t us : Text} : hex4? a b c d = some u → Chars t us →
      Chars (backslash :: letterU :: a :: b :: c :: d :: t) (u :: us)

def nullText : Text := [0x6E, 0x75, 0x6C, 0x6C]
def trueText : Text := [0x74, 0x72, 0x75, 0x65]
def falseText : Text := [0x66, 0x61, 0x6C, 0x73, 0x65]

mutual

/-- **`value`**, without the white space around it. -/
inductive Derives : Text → Value → Prop where
  | nullWord : Derives nullText .null
  | trueWord : Derives trueText (.bool true)
  | falseWord : Derives falseText (.bool false)
  | num {n : Number} : n.Valid → Derives n.text (.num n)
  | str {t us : Text} : Chars t us → Derives (quote :: (t ++ [quote])) (.str us)
  | emptyArr {w : Text} : Ws w → Derives (openBracket :: (w ++ [closeBracket])) (.arr [])
  | arr {t : Text} {items : List Value} : DerivesItems t items →
      Derives (openBracket :: (t ++ [closeBracket])) (.arr items)
  | emptyObj {w : Text} : Ws w → Derives (openBrace :: (w ++ [closeBrace])) (.obj [])
  | obj {t : Text} {entries : List (Text × Value)} : DerivesEntries t entries →
      Derives (openBrace :: (t ++ [closeBrace])) (.obj entries)

/-- `value *( value-separator value )`, with the white space of its tokens. -/
inductive DerivesItems : Text → List Value → Prop where
  | one {w t w' : Text} {v : Value} : Ws w → Derives t v → Ws w' →
      DerivesItems (w ++ t ++ w') [v]
  | cons {w t w' rest : Text} {v : Value} {items : List Value} : Ws w → Derives t v → Ws w' →
      DerivesItems rest items → DerivesItems (w ++ t ++ w' ++ comma :: rest) (v :: items)

/-- `member *( value-separator member )`. -/
inductive DerivesEntries : Text → List (Text × Value) → Prop where
  | one {w k us w' w'' t w''' : Text} {v : Value} : Ws w → Chars k us → Ws w' → Ws w'' →
      Derives t v → Ws w''' →
      DerivesEntries (w ++ quote :: (k ++ quote :: (w' ++ colon :: (w'' ++ t ++ w''')))) [(us, v)]
  | cons {w k us w' w'' t w''' rest : Text} {v : Value} {entries : List (Text × Value)} :
      Ws w → Chars k us → Ws w' → Ws w'' → Derives t v → Ws w''' → DerivesEntries rest entries →
      DerivesEntries
        (w ++ quote :: (k ++ quote :: (w' ++ colon :: (w'' ++ t ++ w''' ++ comma :: rest))))
        ((us, v) :: entries)

end

/-- **`JSON-text = ws value ws`.** -/
def Document (t : Text) (v : Value) : Prop :=
  ∃ w body w', Ws w ∧ Derives body v ∧ Ws w' ∧ t = w ++ body ++ w'

/-! ## White space in front -/

theorem Ws.append {w w' : Text} (h : Ws w) (h' : Ws w') : Ws (w ++ w') :=
  forall_mem_append.mpr ⟨h, h'⟩

theorem DerivesItems.ws_append {w body : Text} {items : List Value} (hw : Ws w)
    (h : DerivesItems body items) : DerivesItems (w ++ body) items := by
  cases h with
  | one hw1 hv hw2 =>
    rw [← append_assoc, ← append_assoc]
    exact one (hw.append hw1) hv hw2
  | cons hw1 hv hw2 hrest =>
    rw [← append_assoc, ← append_assoc, ← append_assoc]
    exact cons (hw.append hw1) hv hw2 hrest

theorem DerivesEntries.ws_append {w body : Text} {entries : List (Text × Value)} (hw : Ws w)
    (h : DerivesEntries body entries) : DerivesEntries (w ++ body) entries := by
  cases h with
  | one hw1 hk hw2 hw3 hv hw4 =>
    rw [← append_assoc]
    exact one (hw.append hw1) hk hw2 hw3 hv hw4
  | cons hw1 hk hw2 hw3 hv hw4 hrest =>
    rw [← append_assoc]
    exact cons (hw.append hw1) hk hw2 hw3 hv hw4 hrest

end Pydeno.Json
