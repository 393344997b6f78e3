import Pydeno.Scanner.Helpers.Decode
/-!
# A source as the characters written in it

The decoder reads a source piece by piece: a character written raw, an escape, or a
line continuation, each with the place where it begins and ends (`pieces`). The
decoded text is what the pieces stand for (`text_decode`).
-/

namespace Pydeno.Scanner

open List

open Native (Replacement Decoded braceEscape escapeAt decodeLoop decode)

/-! ## Ends of escapes -/

variable {code : Text} {i : ℕ}

theorem braceEscape_bounds {stop : ℕ} {r : Replacement}
    (h : braceEscape code i = some (stop, r)) : i + 2 ≤ stop ∧ stop ≤ code.length := by
  unfold braceEscape at h
  split at h
  · simp only at h
    split at h
    next hclosed =>
      simp only [Bool.and_eq_true, decide_eq_true_eq] at hclosed
      have := lt_length_of_holdsAt hclosed.1.1
      cases h
      omega
    · cases h
  · cases h

/-- An escape ends after the character behind its backslash, and within the text. -/
theorem escapeAt_bounds {stop : ℕ} {r : Replacement} (h : escapeAt code i = some (stop, r)) :
    i + 2 ≤ stop ∧ stop ≤ code.length := by
  rw [escapeAt] at h
  cases hc : code[i + 1]? with
  | none => simp only [hc] at h; cases h
  | some c =>
    have hlt : i + 1 < code.length := (List.getElem?_eq_some_iff.mp hc).1
    have hother : ∀ {x : ℕ}, some (i + 2, Replacement.one x) = some (stop, r) →
        i + 2 ≤ stop ∧ stop ≤ code.length := by
      intro x hx
      cases hx
      omega
    simp only [hc] at h
    split at h
    · split at h
      next found hbrace =>
        cases h
        exact braceEscape_bounds hbrace
      · split at h
        · cases h
          omega
        · exact hother h
    split at h
    · split at h
      · cases h
        omega
      · exact hother h
    split at h
    · cases h
      have hwhile : skipWhile Native.isOctal code (i + 2) ≤ code.length := skipWhile_le (by omega)
      exact ⟨le_skipUpTo, le_trans (min_le_left _ _) hwhile⟩
    split at h
    next hcrlf =>
      have := lt_length_of_holdsAt hcrlf.2
      cases h
      omega
    split at h
    · cases h
      omega
    · exact hother h

/-! ## Pieces -/

/-- A piece of a source: `source[start..stop]` and what it stands for. -/
structure Piece where
  start : ℕ
  stop : ℕ
  value : Replacement
  deriving DecidableEq, Repr

/-- The piece at a place in the source. -/
def pieceAt (code : Text) (i : ℕ) : Piece :=
  if holdsAt (· == cp '\\') code i then
    match escapeAt code i with
    | some (stop, r) => ⟨i, stop, r⟩
    -- a backslash that ends the text is a character
    | none => ⟨i, i + 1, .one (cp '\\')⟩
  else ⟨i, i + 1, .one (code.getD i 0)⟩

/-- The pieces from a place on. -/
def piecesFrom (code : Text) : ℕ → ℕ → List Piece
  | 0, _ => []
  | fuel + 1, i =>
    if i < code.length then pieceAt code i :: piecesFrom code fuel (pieceAt code i).stop else []

/-- **The pieces of a source.** -/
def pieces (code : Text) : List Piece := piecesFrom code code.length 0

/-- What a piece stands for, where a line continuation reads as nothing or as a
newline. -/
def Piece.text (newline : Bool) (p : Piece) : Text :=
  p.value.text (continuationText newline)

/-- What pieces stand for, one after the other. -/
def readText (newline : Bool) (ps : List Piece) : Text := ps.flatMap (Piece.text newline)

@[simp] theorem pieceAt_start (code : Text) (i : ℕ) : (pieceAt code i).start = i := by
  unfold pieceAt
  split
  · split <;> rfl
  · rfl

theorem pieceAt_stop (h : i < code.length) :
    i < (pieceAt code i).stop ∧ (pieceAt code i).stop ≤ code.length := by
  unfold pieceAt
  split
  · split
    next stop r hescape =>
      have := escapeAt_bounds hescape
      exact ⟨by simp only; omega, this.2⟩
    · exact ⟨by simp, h⟩
  · exact ⟨by simp, h⟩

/-- More fuel than characters changes nothing. -/
theorem piecesFrom_fuel {fuel fuel' : ℕ} (h : code.length ≤ i + fuel) (h' : code.length ≤ i + fuel') :
    piecesFrom code fuel i = piecesFrom code fuel' i := by
  induction fuel generalizing fuel' i with
  | zero =>
    cases fuel' with
    | zero => rfl
    | succ fuel' => rw [piecesFrom, piecesFrom, if_neg (by omega)]
  | succ fuel ih =>
    cases fuel' with
    | zero => rw [piecesFrom, piecesFrom, if_neg (by omega)]
    | succ fuel' =>
      rw [piecesFrom, piecesFrom]
      split
      next hi =>
        have := pieceAt_stop hi
        have hnext : piecesFrom code fuel (pieceAt code i).stop =
            piecesFrom code fuel' (pieceAt code i).stop := ih (by omega) (by omega)
        rw [hnext]
      · rfl

/-- The pieces from a place on, with fuel to spare. -/
def rest (code : Text) (i : ℕ) : List Piece := piecesFrom code (code.length - i) i

theorem rest_of_lt (h : i < code.length) :
    rest code i = pieceAt code i :: rest code (pieceAt code i).stop := by
  have hstop := pieceAt_stop h
  obtain ⟨fuel, hfuel⟩ : ∃ fuel, code.length - i = fuel + 1 := ⟨code.length - i - 1, by omega⟩
  rw [rest, hfuel, piecesFrom, if_pos h]
  exact congrArg _ (piecesFrom_fuel (by omega) (by omega))

theorem rest_of_le (h : code.length ≤ i) : rest code i = [] := by
  rw [rest, show code.length - i = 0 by omega, piecesFrom]

/-- **Induction over the pieces** from a place on. -/
theorem rest_induction {motive : ℕ → List Piece → Prop} (hend : ∀ i, code.length ≤ i → motive i [])
    (hpiece : ∀ i, i < code.length → motive (pieceAt code i).stop (rest code (pieceAt code i).stop) →
      motive i (pieceAt code i :: rest code (pieceAt code i).stop)) (i : ℕ) :
    motive i (rest code i) := by
  induction hn : code.length - i using Nat.strong_induction_on generalizing i with
  | _ n ih =>
    by_cases hi : i < code.length
    · have hstop := pieceAt_stop hi
      rw [rest_of_lt hi]
      exact hpiece i hi (ih _ (by omega) _ rfl)
    · rw [rest_of_le (by omega)]
      exact hend i (by omega)

/-! ## The decoded text -/

@[simp] theorem readText_nil (newline : Bool) : readText newline [] = [] := rfl

@[simp] theorem readText_cons (newline : Bool) (p : Piece) (ps : List Piece) :
    readText newline (p :: ps) = p.text newline ++ readText newline ps := rfl

@[simp] theorem readText_append (newline : Bool) (ps qs : List Piece) :
    readText newline (ps ++ qs) = readText newline ps ++ readText newline qs :=
  flatMap_append

theorem text_push (d : Decoded) (code : Text) (newline : Bool) (last i stop : ℕ) (r : Replacement) :
    (d.push code newline last i stop r).text =
      d.text ++ slice code last i ++ r.text (continuationText newline) := by
  cases r with
  | one c => rfl
  | continuation =>
    cases newline with
    | false => simp [Decoded.push, Replacement.text, continuationText]
    | true => rfl

theorem slice_drop {last : ℕ} (hl : last ≤ i) (h : code.length ≤ i) :
    slice code last i = code.drop last := by
  rw [slice, take_of_length_le]
  rw [length_drop]
  omega

/-- A piece that is no escape is one character of the source. -/
theorem pieceAt_raw (h : ¬holdsAt (· == cp '\\') code i = true) :
    pieceAt code i = ⟨i, i + 1, .one (code.getD i 0)⟩ := by
  rw [pieceAt, if_neg h]

theorem pieceAt_escape {stop : ℕ} {r : Replacement}
    (h : holdsAt (· == cp '\\') code i = true) (he : escapeAt code i = some (stop, r)) :
    pieceAt code i = ⟨i, stop, r⟩ := by
  rw [pieceAt, if_pos h, he]

/-- A backslash with no escape ends the text. -/
theorem pieceAt_last (h : holdsAt (· == cp '\\') code i = true) (he : escapeAt code i = none) :
    pieceAt code i = ⟨i, i + 1, .one (cp '\\')⟩ ∧ code.length = i + 1 ∧ code.getD i 0 = cp '\\' := by
  have hlt := lt_length_of_holdsAt h
  have hnone := List.getElem?_eq_none_iff.mp (escapeAt_none he).1
  refine ⟨by rw [pieceAt, if_pos h, he], by omega, ?_⟩
  rw [holdsAt_eq_getD 0 hlt] at h
  simpa using h

/-- **The loop of `decode` writes what the pieces stand for.** -/
theorem decodeLoop_text (code : Text) (newline : Bool) (fuel : ℕ) {last : ℕ} (d : Decoded)
    (hlast : last ≤ i) (hfuel : code.length ≤ i + fuel) :
    (decodeLoop code newline fuel i last d).text =
        d.text ++ slice code last i ++ readText newline (rest code i) ∧
      (decodeLoop code newline fuel i last d).continued =
        (d.continued || (rest code i).any fun p => p.value == .continuation) := by
  induction fuel generalizing i last d with
  | zero =>
    rw [decodeLoop, rest_of_le (by omega), slice_drop hlast (by omega)]
    simp
  | succ fuel ih =>
    rw [decodeLoop]
    by_cases hi : i < code.length
    · rw [if_pos hi, rest_of_lt hi]
      by_cases hback : holdsAt (· == cp '\\') code i = true
      · rw [if_pos hback]
        cases he : escapeAt code i with
        | none =>
          obtain ⟨hpiece, hlen, hchar⟩ := pieceAt_last hback he
          have hdrop : code.drop last = slice code last i ++ [cp '\\'] := by
            rw [← slice_drop (by omega : last ≤ i + 1) (by omega), slice_succ 0 hlast hi, hchar]
          simp only [hpiece]
          rw [rest_of_le (by omega), hdrop]
          simp [Piece.text, Replacement.text]
        | some found =>
          obtain ⟨stop, r⟩ := found
          have hstop := escapeAt_bounds he
          obtain ⟨htext, hcontinued⟩ := ih (d.push code newline last i stop r) (le_refl stop)
            (by omega)
          simp only [pieceAt_escape hback he]
          rw [htext, hcontinued, text_push, slice_self]
          constructor
          · simp [Piece.text]
          · simp [Decoded.push, Bool.or_assoc]
      · rw [if_neg hback]
        obtain ⟨htext, hcontinued⟩ := ih d (by omega : last ≤ i + 1) (by omega)
        simp only [pieceAt_raw hback]
        rw [htext, hcontinued, slice_succ 0 hlast hi]
        have hchar : (Replacement.one (code.getD i 0) == .continuation) = false := rfl
        constructor
        · simp [Piece.text, Replacement.text]
        · rw [any_cons, hchar, Bool.false_or]
    · rw [if_neg hi, rest_of_le (by omega), slice_drop hlast (by omega)]
      simp

/-- **The decoded text** is what the pieces stand for. -/
theorem text_decode (code : Text) (newline : Bool) :
    (decode code newline).text = readText newline (pieces code) := by
  have h := (decodeLoop_text code newline code.length ⟨[], [0], [0], false⟩ (le_refl 0)
    (by omega)).1
  rw [slice_self] at h
  exact h

/-- Whether a continuation was seen. -/
theorem continued_decode (code : Text) (newline : Bool) : (decode code newline).continued =
      (pieces code).any fun p => p.value == .continuation :=
  (decodeLoop_text code newline code.length ⟨[], [0], [0], false⟩ (le_refl 0) (by omega)).2

/-! ## Order -/

/-- The pieces from a place on begin there or later, each behind the one before. -/
theorem rest_sorted (code : Text) (i : ℕ) :
    (∀ p ∈ rest code i, i ≤ p.start ∧ p.start < p.stop ∧ p.stop ≤ code.length) ∧
      (rest code i).Pairwise fun p q => p.stop ≤ q.start := by
  refine rest_induction (motive := fun i ps => (∀ p ∈ ps, i ≤ p.start ∧ p.start < p.stop ∧
    p.stop ≤ code.length) ∧ ps.Pairwise fun p q => p.stop ≤ q.start) ?_ ?_ i
  · intro i _
    exact ⟨by simp, .nil⟩
  · rintro i hi ⟨hbounds, hsorted⟩
    have hstop := pieceAt_stop hi
    have hstart := pieceAt_start code i
    refine ⟨?_, pairwise_cons.mpr ⟨fun q hq => (hbounds q hq).1, hsorted⟩⟩
    intro p hp
    rcases mem_cons.mp hp with rfl | hp
    · omega
    · have := hbounds p hp
      omega

end Pydeno.Scanner
