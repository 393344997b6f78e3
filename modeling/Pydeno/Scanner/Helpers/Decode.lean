import Pydeno.Scanner.Helpers.Escape

/-!
# Decoding the text

The native decoder moves one cursor over the source; the reference walks
the matches of `ESCAPE`. Both stop at the same backslashes, so the decoded
text and the anchors that map its offsets back come out the same, in
either reading of a line continuation. The anchors ascend, which is what
makes the reference's binary search the native partition point.
-/

namespace Pydeno.Scanner

open Regex List
open Reference (decodedStep decoded)
open Native (decodeLoop decode)

/-- How a line continuation reads in the reference's terms. -/
def continuationText (newline : Bool) : Text := if newline then pts "\n" else []

/-- The state of the reference's loop that a native state and its cursor
stand for. -/
structure SameDecoding (d : Native.Decoded) (last : ℕ) (s : Reference.Decoding) : Prop where
  text_eq : s.pieces.flatten = d.text
  normAt_eq : s.normAt = d.normAt
  origAt_eq : s.origAt = d.origAt
  last_eq : s.last = last
  size_eq : s.size = d.text.length
  continued_eq : s.continued = d.continued

/-- One escape keeps the two states the same. -/
theorem SameDecoding.push {code : Text} {newline : Bool} {d : Native.Decoded} {last i stop : ℕ}
    {r : Native.Replacement} {m : Match ℕ} {s : Reference.Decoding} (hs : SameDecoding d last s)
    (hi : i ≤ code.length) (hm : SameEscape i stop r m) :
    SameDecoding (d.push code newline last i stop r) stop
      (decodedStep code (continuationText newline) s (i, m)) := by
  have hlen : (d.text ++ slice code last i).length = d.text.length + (i - last) := by
    rw [length_append, length_slice hi]
  have hrep : Reference.replacement m (continuationText newline)
      = r.text (continuationText newline) := hm.replacement_eq _
  have htext : (d.push code newline last i stop r).text
      = d.text ++ slice code last i ++ r.text (continuationText newline) := by
    cases r with
    | one c => rfl
    | continuation => cases newline <;> simp [Native.Decoded.push, Native.Replacement.text,
        continuationText, pts, cp]
  have htotal : (d.push code newline last i stop r).text.length
      = d.text.length + (i - last) + (r.text (continuationText newline)).length := by
    rw [htext, length_append, hlen]
  refine ⟨?_, ?_, ?_, hm.stop_eq, ?_, ?_⟩
  · rw [htext]
    simp only [decodedStep, flatten_append, flatten_cons, flatten_nil,
      append_nil, hs.text_eq, hs.last_eq, PyStr.slice_natCast, hrep, append_assoc]
  · have hn : (d.push code newline last i stop r).normAt
        = d.normAt ++ [(d.text ++ slice code last i).length,
            (d.push code newline last i stop r).text.length] := rfl
    rw [hn, htotal, hlen]
    simp only [decodedStep, hs.normAt_eq, hs.size_eq, hs.last_eq, hrep]
  · simp only [decodedStep, Native.Decoded.push, hs.origAt_eq, hm.stop_eq]
  · rw [htotal]
    simp only [decodedStep, hs.size_eq, hs.last_eq, hrep]
  · simp only [decodedStep, Native.Decoded.push, hs.continued_eq, hm.continuation_eq]

/-- The decoded text, once the loop has ended. -/
theorem SameDecoding.finish {code : Text} {d : Native.Decoded} {last : ℕ}
    {s : Reference.Decoding} (hs : SameDecoding d last s) :
    (s.pieces ++ [PyStr.slice code s.last code.length]).flatten = d.text ++ code.drop last := by
  rw [flatten_append, hs.text_eq, hs.last_eq, PyStr.slice_natCast, slice,
    take_of_length_le (by rw [length_drop])]
  simp

/-- **The two loops**, from any cursor: the native one stops at the escapes
the reference's search finds. -/
theorem decodeLoop_same (code : Text) (newline : Bool) : ∀ (fuel i last : ℕ)
    (d : Native.Decoded) (s : Reference.Decoding), code.length ≤ i + fuel →
    SameDecoding d last s →
    ∃ last', SameDecoding
        { decodeLoop code newline fuel i last d with
          text := ((finditerFrom Reference.ESCAPE code fuel i).foldl
            (decodedStep code (continuationText newline)) s).pieces.flatten }
        last' ((finditerFrom Reference.ESCAPE code fuel i).foldl
          (decodedStep code (continuationText newline)) s) ∧
      (decodeLoop code newline fuel i last d).text
        = ((finditerFrom Reference.ESCAPE code fuel i).foldl
            (decodedStep code (continuationText newline)) s).pieces.flatten
          ++ code.drop last' := by
  intro fuel
  induction fuel with
  | zero =>
    intro i last d s _ hs
    refine ⟨last, ⟨rfl, hs.normAt_eq, hs.origAt_eq, hs.last_eq, ?_, hs.continued_eq⟩, ?_⟩
    · simp only [finditerFrom, foldl_nil, hs.size_eq, hs.text_eq]
    · simp only [finditerFrom, foldl_nil, hs.text_eq, decodeLoop]
  | succ fuel ih =>
    intro i last d s hf hs
    -- the loop has ended: nothing more to decode
    have hdone : ∃ last', SameDecoding { (⟨d.text ++ code.drop last, d.normAt, d.origAt,
          d.continued⟩ : Native.Decoded) with text := s.pieces.flatten } last' s ∧
        d.text ++ code.drop last = s.pieces.flatten ++ code.drop last' :=
      ⟨last, ⟨rfl, hs.normAt_eq, hs.origAt_eq, hs.last_eq, by rw [hs.size_eq, hs.text_eq],
        hs.continued_eq⟩, by rw [hs.text_eq]⟩
    rw [decodeLoop, finditerFrom]
    by_cases hi : i < code.length
    · rw [if_pos hi, if_pos hi]
      by_cases hb : holdsAt (· == cp '\\') code i = true
      · rw [if_pos hb]
        cases he : Native.escapeAt code i with
        | none =>
          obtain ⟨hend, hnone⟩ := escapeAt_none he
          have hlen := List.getElem?_eq_none_iff.mp hend
          have htail : finditerFrom Reference.ESCAPE code fuel (i + 1) = [] := by
            cases fuel with
            | zero => rfl
            | succ n => rw [finditerFrom, if_neg (by omega)]
          simp only [hnone, htail, foldl_nil]
          exact hdone
        | some er =>
          obtain ⟨stop, r⟩ := er
          obtain ⟨m, hm, hsame⟩ := escapeAt_same hb he
          have hstop := hsame.stop_eq
          have htwo := hsame.two_le
          simp only [hm, foldl_cons]
          rw [show i + max 1 m.len = stop by omega]
          exact ih stop stop _ _ (by omega) (hs.push (by omega) hsame)
      · have hb' : holdsAt (· == cp '\\') code i = false := by simpa using hb
        rw [if_neg hb]
        simp only [match?_ESCAPE_none hb']
        exact ih (i + 1) last d s (by omega) hs
    · rw [if_neg hi, if_neg hi]
      exact hdone

/-- A reference decoding in the native type. -/
def Reference.Decoded.toNative (d : Reference.Decoded) : Native.Decoded :=
  ⟨d.text, d.normAt, d.origAt, d.continued⟩

/-- **Both sides decode alike**, in either reading of a line continuation. -/
theorem decoded_eq (code : Text) (newline : Bool) :
    (decoded code (continuationText newline)).toNative = decode code newline := by
  obtain ⟨last', hs, htext⟩ := decodeLoop_same code newline code.length 0 0
    ⟨[], [0], [0], false⟩ ⟨[], [0], [0], 0, 0, false⟩ (by omega)
    ⟨rfl, rfl, rfl, rfl, rfl, rfl⟩
  simp only [Reference.Decoded.toNative, decoded, finditer]
  refine Native.Decoded.ext ?_ hs.normAt_eq hs.origAt_eq hs.continued_eq
  rw [hs.finish]
  exact htext.symm

/-! ## Anchors -/

/-- The anchors in the decoded text ascend, and none lies past its end. -/
def AnchorsAscend (d : Native.Decoded) : Prop :=
  d.normAt.Pairwise (· ≤ ·) ∧ ∀ x ∈ d.normAt, x ≤ d.text.length

theorem AnchorsAscend.push {code : Text} {newline : Bool} {d : Native.Decoded} {last i stop : ℕ}
    {r : Native.Replacement} (h : AnchorsAscend d) :
    AnchorsAscend (d.push code newline last i stop r) := by
  have h1 : d.text.length ≤ (d.text ++ slice code last i).length := by
    rw [length_append]; omega
  have h2 : (d.text ++ slice code last i).length
      ≤ (d.push code newline last i stop r).text.length := by
    cases r with
    | one c => simp only [Native.Decoded.push, length_append]; omega
    | continuation =>
      cases newline <;> simp [Native.Decoded.push]
  constructor
  · change (d.normAt ++ [_, (d.push code newline last i stop r).text.length]).Pairwise (· ≤ ·)
    rw [pairwise_append]
    refine ⟨h.1, by simpa using h2, fun a ha b hb => ?_⟩
    have := h.2 a ha
    simp only [mem_cons, not_mem_nil, or_false] at hb
    rcases hb with rfl | rfl <;> omega
  · intro x hx
    change x ∈ d.normAt ++ [_, (d.push code newline last i stop r).text.length] at hx
    simp only [mem_append, mem_cons, not_mem_nil, or_false] at hx
    rcases hx with hx | rfl | rfl
    · have := h.2 x hx; omega
    · exact h2
    · exact le_refl _

theorem decodeLoop_ascend (code : Text) (newline : Bool) : ∀ (fuel i last : ℕ)
    (d : Native.Decoded), AnchorsAscend d →
    AnchorsAscend (decodeLoop code newline fuel i last d) := by
  intro fuel
  induction fuel with
  | zero =>
    intro i last d h
    exact ⟨h.1, fun x hx => le_trans (h.2 x hx) (by simp [decodeLoop])⟩
  | succ fuel ih =>
    intro i last d h
    have hdone : AnchorsAscend { d with text := d.text ++ code.drop last } :=
      ⟨h.1, fun x hx => le_trans (h.2 x hx) (by simp)⟩
    rw [decodeLoop]
    split
    · split
      · split
        · exact ih _ _ _ h.push
        · exact hdone
      · exact ih _ _ _ h
    · exact hdone

theorem decode_ascend (code : Text) (newline : Bool) : AnchorsAscend (decode code newline) :=
  decodeLoop_ascend code newline _ _ _ _ ⟨by simp, by simp⟩

/-- **Offsets are mapped back alike.** -/
theorem original_eq (code : Text) (newline : Bool) (at_ : ℕ) :
    (decoded code (continuationText newline)).original at_
      = (decode code newline).original at_ := by
  have hn : (decoded code (continuationText newline)).normAt
      = (decode code newline).normAt := congrArg Native.Decoded.normAt (decoded_eq code newline)
  have ho : (decoded code (continuationText newline)).origAt
      = (decode code newline).origAt := congrArg Native.Decoded.origAt (decoded_eq code newline)
  rw [Reference.Decoded.original, Native.Decoded.original, hn, ho,
    bisectRight_eq (decode_ascend code newline).1]

end Pydeno.Scanner
