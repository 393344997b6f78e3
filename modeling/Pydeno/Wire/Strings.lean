import Pydeno.Wire.Helpers.Strings
import Pydeno.Wire.Model.Writer
/-!
# Strings through the writer and back

What `py_text` writes for a Python string is UTF-8 with no raw control character,
and the parser's `string` reads the string's code units back from it, whatever
stands around it in the frame. Both of the writer's paths are covered: the one for
text UTF-8 can hold, and the one from code units, which keeps unpaired surrogates as
escapes.
-/

namespace Pydeno.Wire

open List Utf8 Json

open Utf8 (IsScalar Scalars Stands)

/-! ## Bytes that spell code units -/

/-- **The bytes spell the units**: they are the UTF-8 of characters of a JSON string
that denote these units, with no control character among them. -/
def Spells (bytes : Bytes) (us : List ℕ) : Prop :=
  ∃ body, bytes = encodeAll body ∧ Scalars body ∧ Chars body us ∧ ∀ c ∈ body, 0x20 ≤ c

theorem spells_nil : Spells [] [] := ⟨[], rfl, Scalars.nil, .nil, by simp⟩

theorem chars_append {body body' us us' : List ℕ} (h : Chars body us)
    (h' : Chars body' us') : Chars (body ++ body') (us ++ us') := by
  induction h with
  | nil => exact h'
  | raw hraw _ ih =>
    rw [append_assoc]
    exact .raw hraw ih
  | simple hsimple _ ih => exact .simple hsimple ih
  | unicode hhex _ ih => exact .unicode hhex ih

theorem Spells.append {bytes bytes' us us' : List ℕ} (h : Spells bytes us)
    (h' : Spells bytes' us') : Spells (bytes ++ bytes') (us ++ us') := by
  obtain ⟨body, rfl, hscalars, hchars, hlow⟩ := h
  obtain ⟨body', rfl, hscalars', hchars', hlow'⟩ := h'
  refine ⟨body ++ body', (encodeAll_append _ _).symm,
    scalars_append.mpr ⟨hscalars, hscalars'⟩, chars_append hchars hchars', ?_⟩
  intro c hc
  rcases mem_append.mp hc with hc | hc
  · exact hlow c hc
  · exact hlow' c hc

/-- ASCII characters that denote a unit spell it. -/
theorem spells_ascii {body us : List ℕ} (hchars : Chars body us)
    (hbody : ∀ c ∈ body, 0x20 ≤ c ∧ c < 0x80) : Spells body us :=
  ⟨body, (encodeAll_ascii fun c hc => (hbody c hc).2).symm,
    fun c hc => isScalar_of_lt (hbody c hc).2, hchars, fun c hc => (hbody c hc).1⟩

theorem hexDigit?_hexDigit {n : ℕ} (h : n < 16) : hexDigit? (hexDigit n) = some n := by
  unfold hexDigit hexDigit?
  grind

theorem hexDigit_bounds {n : ℕ} (h : n < 16) : 0x20 ≤ hexDigit n ∧ hexDigit n < 0x80 := by
  unfold hexDigit
  split <;> omega

/-- **An escape spells its unit.** -/
theorem spells_hexEscape {u : ℕ} (h : u < 0x10000) : Spells (hexEscape u) [u] := by
  have hdigit : ∀ n, n % 16 < 16 := fun n => Nat.mod_lt n (by decide)
  apply spells_ascii
  · refine Json.Chars.unicode ?_ .nil
    rw [hex4?, hexDigit?_hexDigit (hdigit _), hexDigit?_hexDigit (hdigit _),
      hexDigit?_hexDigit (hdigit _), hexDigit?_hexDigit (hdigit _)]
    simp only [Option.some.injEq]
    omega
  · simp only [hexEscape, mem_cons, not_mem_nil, or_false]
    rintro c (rfl | rfl | rfl | rfl | rfl | rfl)
    · decide
    · decide
    all_goals exact hexDigit_bounds (hdigit _)

theorem spells_simple {c x : ℕ} (h : simpleEscape? c = some x) (hc : 0x20 ≤ c ∧ c < 0x80) :
    Spells [0x5C, c] [x] := by
  refine spells_ascii (.simple h .nil) ?_
  simp only [mem_cons, not_mem_nil, or_false]
  rintro d (rfl | rfl)
  · decide
  · exact hc

theorem isRaw_of {c : ℕ} (hlow : 0x20 ≤ c) (hhigh : c < 0x110000) (hquote : c ≠ 34)
    (hbackslash : c ≠ 92) : isRaw c = true := by
  simp only [isRaw, quote, backslash, Bool.and_eq_true, decide_eq_true_eq, bne_iff_ne]
  exact ⟨⟨⟨hlow, hhigh⟩, hquote⟩, hbackslash⟩

/-- The characters of one byte below `0x80` spell it. -/
theorem spells_escapeByte {b : ℕ} (h : b < 0x80) : Spells (escapeByte b) [b] := by
  unfold escapeByte
  split_ifs with hquote hbackslash hn hr ht hb hf hcontrol
  · exact spells_simple (by rw [hquote]; rfl) (by decide)
  · exact spells_simple (by rw [hbackslash]; rfl) (by decide)
  · exact spells_simple (by rw [hn]; rfl) (by decide)
  · exact spells_simple (by rw [hr]; rfl) (by decide)
  · exact spells_simple (by rw [ht]; rfl) (by decide)
  · exact spells_simple (by rw [hb]; rfl) (by decide)
  · exact spells_simple (by rw [hf]; rfl) (by decide)
  · exact spells_hexEscape (by omega)
  · have hraw : isRaw b = true := isRaw_of (by omega) (by omega) hquote hbackslash
    have hchars : Chars [b] (Utf16.encode b ++ []) := .raw hraw .nil
    rw [show Utf16.encode b ++ [] = [b] by simp [Utf16.encode]; omega] at hchars
    refine spells_ascii hchars ?_
    simp only [mem_singleton]
    rintro c rfl
    omega

/-- From `0x80` on, bytes are written as they are. -/
theorem escapeByte_of_le {b : ℕ} (h : 0x80 ≤ b) : escapeByte b = [b] := by
  unfold escapeByte
  grind

theorem textBody_of_le {bytes : Bytes} (h : ∀ b ∈ bytes, 0x80 ≤ b) : textBody bytes = bytes := by
  unfold textBody
  induction bytes with
  | nil => rfl
  | cons b bytes ih =>
    rw [flatMap_cons, escapeByte_of_le (h b mem_cons_self),
      ih fun c hc => h c (mem_cons_of_mem _ hc)]
    rfl

/-- **A character spells its units.** -/
theorem spells_char {c : ℕ} (h : IsScalar c) : Spells (textBody (encode c)) (Utf16.encode c) := by
  by_cases hc : c < 0x80
  · rw [encode_ascii hc, show Utf16.encode c = [c] from if_pos (by omega)]
    have hone : textBody [c] = escapeByte c := by simp [textBody]
    rw [hone]
    exact spells_escapeByte hc
  · have hlt := Utf16.lt_of_isScalar h
    have hraw : isRaw c = true := isRaw_of (by omega) (by omega) (by omega) (by omega)
    rw [textBody_of_le fun b hb => le_of_mem_encode (by omega) hb]
    refine ⟨[c], by simp, scalars_cons.mpr ⟨h, Scalars.nil⟩, ?_, ?_⟩
    · simpa using Json.Chars.raw hraw .nil
    · simp only [mem_singleton]
      rintro d rfl
      omega

/-! ## The two paths of the writer -/

/-- **`text`** spells the units of a text. -/
theorem spells_text {s : List ℕ} (h : Scalars s) :
    Spells (textBody (encodeAll s)) (Utf16.units s) := by
  induction s with
  | nil => exact spells_nil
  | cons c s ih =>
    obtain ⟨hc, hs⟩ := scalars_cons.mp h
    have happend : textBody (encodeAll (c :: s)) =
        textBody (encode c) ++ textBody (encodeAll s) := flatMap_append
    rw [happend]
    exact (spells_char hc).append (ih hs)

theorem isScalar_of_unit {u : ℕ} (h : u < 0x10000) (hhigh : ¬Utf16.isHigh u = true)
    (hlow : ¬Utf16.isLow u = true) : IsScalar u := by
  simp only [Utf16.isHigh, Utf16.isLow, Bool.and_eq_true, decide_eq_true_eq] at hhigh hlow
  unfold IsScalar
  omega

/-- A unit that is no surrogate is written as its character. -/
theorem spells_unit {u : ℕ} (h : u < 0x10000) (hhigh : ¬Utf16.isHigh u = true)
    (hlow : ¬Utf16.isLow u = true) : Spells (textBody (encode u)) [u] := by
  have hchar := spells_char (isScalar_of_unit h hhigh hlow)
  rwa [show Utf16.encode u = [u] from if_pos h] at hchar

/-- **The path from code units** spells them, whatever their arrangement. -/
theorem spells_unitsBody {us : List ℕ} (h : ∀ u ∈ us, u < 0x10000) : Spells (unitsBody us) us := by
  induction us using unitsBody.induct with
  | case1 => exact spells_nil
  | case2 u hsurrogate =>
    rw [unitsBody, if_pos hsurrogate]
    exact spells_hexEscape (h u mem_cons_self)
  | case3 u hsurrogate =>
    rw [unitsBody, if_neg hsurrogate]
    rw [Bool.or_eq_true, not_or] at hsurrogate
    exact spells_unit (h u mem_cons_self) hsurrogate.1 hsurrogate.2
  | case4 u v rest hhigh hlow ih =>
    -- a pair is one character
    rw [unitsBody, if_pos hhigh, if_pos hlow]
    have hpair := spells_char (Utf16.isScalar_pair hhigh hlow)
    rw [Utf16.encode_pair hhigh hlow] at hpair
    exact hpair.append (ih fun w hw => h w (by simp [hw]))
  | case5 u v rest hhigh hlow ih =>
    rw [unitsBody, if_pos hhigh, if_neg hlow]
    exact (spells_hexEscape (h u mem_cons_self)).append (ih fun w hw => h w (mem_cons_of_mem _ hw))
  | case6 u v rest hhigh hlow ih =>
    rw [unitsBody, if_neg hhigh, if_pos hlow]
    exact (spells_hexEscape (h u mem_cons_self)).append (ih fun w hw => h w (mem_cons_of_mem _ hw))
  | case7 u v rest hhigh hlow ih =>
    rw [unitsBody, if_neg hhigh, if_neg hlow]
    exact (spells_unit (h u mem_cons_self) hhigh hlow).append
      (ih fun w hw => h w (mem_cons_of_mem _ hw))

/-- A Python `str`. -/
def IsStr (s : List ℕ) : Prop := ∀ c ∈ s, c < 0x110000

/-- **`py_text`** writes a quote, bytes that spell the string, and a quote. -/
theorem pyText_spec {s : List ℕ} (h : IsStr s) :
    ∃ bytes, pyText s = 34 :: bytes ++ [34] ∧ Spells bytes (Utf16.units s) := by
  unfold pyText
  split
  · next hall =>
    refine ⟨_, rfl, spells_text ?_⟩
    intro c hc
    exact of_decide_eq_true (all_eq_true.mp hall c hc)
  · exact ⟨_, rfl, spells_unitsBody (Utf16.units_lt h)⟩

/-! ## The result -/

theorem le_of_mem_encodeAll {body : List ℕ} (h : ∀ c ∈ body, 0x20 ≤ c) :
    ∀ b ∈ encodeAll body, 0x20 ≤ b := by
  intro b hb
  obtain ⟨c, hc, hb⟩ := mem_flatMap.mp hb
  by_cases hascii : c < 0x80
  · rw [encode_ascii hascii, mem_singleton] at hb
    exact hb ▸ h c hc
  · have := le_of_mem_encode (by omega) hb
    omega

/-- **Strings survive the writer.** Every sequence of code units is that of some Python
string; and whichever string has it, what `py_text` writes for that string has no raw
control character, is the UTF-8 of a text, and from it, in whatever frame it stands,
`string` reads the sequence back and stops behind the closing quote. -/
theorem strings_survive {us : List ℕ} (h : ∀ u ∈ us, u < 0x10000) :
    (∃ s, IsStr s ∧ Utf16.units s = us) ∧
      ∀ s, IsStr s → Utf16.units s = us → (∀ b ∈ pyText s, 0x20 ≤ b) ∧
        (∃ text, Scalars text ∧ pyText s = Utf8.encodeAll text) ∧
        ∀ before after left, Scalars before → Scalars after →
          let frame := Utf8.encodeAll before ++ pyText s ++ Utf8.encodeAll after
          let start := (Utf8.encodeAll before).length
          ∃ str, string frame ⟨start + 1, left⟩ = .ok (str, ⟨start + (pyText s).length, left⟩) ∧
            str.toUnits = us := by
  refine ⟨⟨Utf16.decode us, Utf16.decode_lt h, Utf16.units_decode h⟩, ?_⟩
  intro s hs hunits
  obtain ⟨bytes, htext, body, rfl, hscalars, hchars, hlow⟩ := pyText_spec hs
  rw [hunits] at hchars
  -- the whole of it is the text `"body"`
  have hquote : Utf8.encodeAll [34] = [34] := rfl
  have hwhole : pyText s = Utf8.encodeAll (34 :: body ++ [34]) := by
    rw [htext, Utf8.encodeAll_append, Utf8.encodeAll_cons, hquote]
    rfl
  have hscalar34 : Scalars [34] := by simp [Scalars, IsScalar]
  have hscalarsWhole : Scalars (34 :: body ++ [34]) :=
    Utf8.scalars_append.mpr ⟨Utf8.scalars_append.mpr ⟨hscalar34, hscalars⟩, hscalar34⟩
  refine ⟨?_, ⟨_, hscalarsWhole, hwhole⟩, ?_⟩
  · rw [hwhole]
    apply le_of_mem_encodeAll
    intro c hc
    simp only [cons_append, mem_cons, mem_append, not_mem_nil, or_false] at hc
    rcases hc with rfl | hc | rfl
    · decide
    · exact hlow c hc
    · decide
  · intro before after left hbefore hafter frame start
    have hframe : frame = Utf8.encodeAll (before ++ [34] ++ (body ++ 34 :: after)) := by
      simp [frame, hwhole, append_assoc]
    have hscalarsRest : Scalars (body ++ 34 :: after) :=
      Utf8.scalars_append.mpr ⟨hscalars, Utf8.scalars_append.mpr ⟨hscalar34, hafter⟩⟩
    have hfront : Stands frame 0 (before ++ [34] ++ (body ++ 34 :: after)) :=
      ⟨Nat.zero_le _, hframe, Utf8.scalars_append.mpr
        ⟨Utf8.scalars_append.mpr ⟨hbefore, hscalar34⟩, hscalarsRest⟩⟩
    have hstands : Stands frame (start + 1) (body ++ Json.quote :: after) := by
      have hadvance := hfront.advance
      rwa [Utf8.encodeAll_append, length_append, hquote, Nat.zero_add] at hadvance
    have hread := Json.readChars_complete hchars after
    rcases string_eq (p := ⟨start + 1, left⟩) hstands with ⟨-, hnone⟩ |
      ⟨v, r, q, hstring, hok, hq, hleft⟩
    · rw [hread] at hnone
      cases hnone
    · rw [hread] at hok
      cases hok
      have hbehind : Stands frame (start + 1) (body ++ [34] ++ after) := by
        simpa [Json.quote] using hstands
      have hpos := hbehind.pos_eq hq
      rw [hstring, hwhole]
      refine ⟨canon us, ?_, toUnits_canon h⟩
      have hlength : start + (Utf8.encodeAll (34 :: body ++ [34])).length = q.pos := by
        rw [hpos, cons_append, Utf8.encodeAll_cons, length_append]
        simp only [Utf8.encode_ascii (show 34 < 0x80 by decide), length_singleton]
        omega
      rw [hlength, show left = q.left from hleft.symm]

/-- A lone high half in front of a pair, a backslash, and a lone low half. -/
theorem strings_survive_halves :
    ∃ str, string (pyText [0xD83D, 0x1F600, 0x5C, 0xDE00]) ⟨1, 0⟩ =
        .ok (str, ⟨(pyText [0xD83D, 0x1F600, 0x5C, 0xDE00]).length, 0⟩) ∧
      str.toUnits = [0xD83D, 0xD83D, 0xDE00, 0x5C, 0xDE00] := by
  have hunits : ∀ u ∈ [0xD83D, 0xD83D, 0xDE00, 0x5C, 0xDE00], u < 0x10000 := by decide
  have hstr : IsStr [0xD83D, 0x1F600, 0x5C, 0xDE00] := by
    unfold IsStr
    decide
  obtain ⟨str, hstring, hback⟩ :=
    ((strings_survive hunits).2 _ hstr (by decide)).2.2 [] [] 0 Scalars.nil Scalars.nil
  rw [Utf8.encodeAll_nil, nil_append, append_nil, length_nil, Nat.zero_add, Nat.zero_add] at hstring
  exact ⟨str, hstring, hback⟩

end Pydeno.Wire
