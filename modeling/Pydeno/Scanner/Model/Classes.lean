import Pydeno.Scanner.Model.Unicode
import Pydeno.Lib.Utf8

/-!
# Character classes

Both scanners ask four questions about a code point, and the answers come
from CPython's Unicode database: `str.isalnum`, `str.isspace`,
`str.isdigit` and `str.isidentifier`. `Classes` is a table of answers that
is CPython's on ASCII and never calls one character both a space and
alphanumeric; above ASCII it is otherwise free. The tables of
`unicode.rs` are such tables in every version they cover
(`Classes.forVersion`).
-/

namespace Pydeno.Scanner

/-- The code points of a piece of text. -/
abbrev Text := List ℕ

/-- The code points of a literal. -/
def pts (s : String) : Text := s.toList.map Char.toNat

/-- The code point of a character literal. -/
abbrev cp (c : Char) : ℕ := c.toNat

/-- **A character-class table.** -/
structure Classes where
  /-- `str.isalnum` of one code point. -/
  isAlnum : ℕ → Bool
  /-- `str.isspace`, which is also `\s`. -/
  isSpace : ℕ → Bool
  /-- `str.isdigit`. -/
  isDigit : ℕ → Bool
  /-- `str.isidentifier` of the one character. -/
  isIdentifier : ℕ → Bool
  /-- On ASCII the answers are CPython's, whatever the Unicode version. -/
  ascii : ∀ c < 128, isAlnum c = (Unicode.ASCII.getD c 0).testBit 0 ∧
    isSpace c = (Unicode.ASCII.getD c 0).testBit 1 ∧
    isDigit c = (Unicode.ASCII.getD c 0).testBit 2 ∧
    isIdentifier c = (Unicode.ASCII.getD c 0).testBit 3
  /-- No character is both a space and alphanumeric. -/
  space_not_alnum : ∀ c, isSpace c = true → isAlnum c = false

namespace Classes

/-! ## The generated tables -/

/-- `Classes::flags` in the column of shift `shift`. -/
def flags (shift c : ℕ) : ℕ :=
  if c < 128 then Unicode.ASCII.getD c 0
  else
    -- `partition_point` on the ascending `STARTS`: how many runs start at or before `c`
    match (Unicode.STARTS.takeWhile (· ≤ c)).length with
    | 0 => 0
    | k + 1 =>
      match Unicode.FLAGS[k]? with
      | some packed => (packed >>> shift) % 16
      | none => 0

theorem ascii_space_not_alnum : ∀ c < 128, (Unicode.ASCII.getD c 0).testBit 1 = true →
      (Unicode.ASCII.getD c 0).testBit 0 = false := by
  decide +kernel

theorem packed_space_not_alnum :
    ∀ f ∈ Unicode.FLAGS, ∀ k < 6, ((f >>> (4 * k)) % 16).testBit 1 = true →
      ((f >>> (4 * k)) % 16).testBit 0 = false := by
  decide +kernel

theorem flags_space_not_alnum {k c : ℕ} (hk : k < 6) (h : (flags (4 * k) c).testBit 1 = true) :
    (flags (4 * k) c).testBit 0 = false := by
  rw [flags] at h ⊢
  split at h
  next hc =>
    rw [if_pos hc]
    exact ascii_space_not_alnum c hc h
  next hc =>
    rw [if_neg hc]
    cases hn : (Unicode.STARTS.takeWhile (· ≤ c)).length with
    | zero => exact Nat.zero_testBit 0
    | succ n =>
      simp only [hn] at h ⊢
      cases hf : Unicode.FLAGS[n]? with
      | none => exact Nat.zero_testBit 0
      | some packed =>
        simp only [hf] at h ⊢
        exact packed_space_not_alnum packed (List.mem_of_getElem? hf) k hk h

/-- **The table of one Unicode version** (`Classes::for_version`): `k` is
the version's column. -/
def forVersion (k : Fin 6) : Classes where
  isAlnum c := (flags (4 * k) c).testBit 0
  isSpace c := (flags (4 * k) c).testBit 1
  isDigit c := (flags (4 * k) c).testBit 2
  isIdentifier c := (flags (4 * k) c).testBit 3
  ascii c hc := by simp only [flags, if_pos hc, and_self]
  space_not_alnum _ h := flags_space_not_alnum k.isLt h

/-! ## What the scanners ask -/

variable (cls : Classes)

/-- `\w`: alphanumeric or an underscore. -/
def isWord (c : ℕ) : Bool := c == cp '_' || cls.isAlnum c

/-- `[\w$]`. -/
def isName (c : ℕ) : Bool := cls.isWord c || c == cp '$'

/-- The reference's `_is_id_char`: a word character, `$`, or a non-ASCII
identifier character. -/
def isIdChar (c : ℕ) : Bool :=
  cls.isAlnum c || c == cp '_' || c == cp '$' || (c > 127 && cls.isIdentifier c)

variable {cls}

theorem isSpace_ascii {c : ℕ} (hc : c < 128) : cls.isSpace c = (Unicode.ASCII.getD c 0).testBit 1 :=
  (cls.ascii c hc).2.1

/-- The punctuation the rules look for is not white space. -/
theorem not_isSpace {c : ℕ} (h : c ∈ pts "([?.$'\"_`") : cls.isSpace c = false := by
  have hall : ∀ c ∈ pts "([?.$'\"_`", c < 128 ∧ (Unicode.ASCII.getD c 0).testBit 1 = false := by
    decide +kernel
  obtain ⟨hc, hb⟩ := hall c h
  rw [isSpace_ascii hc, hb]

/-- **A character of a name is not white space.** -/
theorem not_isSpace_of_isName {c : ℕ} (h : cls.isName c = true) : cls.isSpace c = false := by
  simp only [isName, isWord, Bool.or_eq_true, beq_iff_eq] at h
  rcases h with (h | h) | h
  · exact not_isSpace (by rw [h]; decide)
  · by_contra hs
    rw [cls.space_not_alnum c (by simpa using hs)] at h
    cases h
  · exact not_isSpace (by rw [h]; decide)

end Classes

end Pydeno.Scanner
