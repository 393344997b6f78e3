import Pydeno.Scanner.Helpers.TokenRules

/-!
# Reading one token

The loops both tokenizers run over the characters of one token, compared
one by one: comments, strings, templates, regular expressions and
identifiers with escapes. Each also says that its cursor does not move
back, which is what makes every round of the tokenizer advance.
-/

namespace Pydeno.Scanner

open Native (isSpacing isTerminator blockEnd startsWith)

/-! ## Spaces and comments -/

theorem mem_SPACING (c : ℕ) : c ∈ Reference.SPACING ↔ isSpacing c = true := by
  simp [Reference.SPACING, isSpacing, or_assoc]

theorem mem_LINE_ENDS (c : ℕ) : c ∈ Reference.LINE_ENDS ↔ isTerminator c = true := by
  rw [← terminators_contains, List.contains_iff_mem]
  rfl

theorem not_LINE_ENDS : (fun x => decide (x ∉ Reference.LINE_ENDS)) = fun x => !isTerminator x := by
  funext x
  rw [Bool.eq_iff_iff, decide_eq_true_eq, mem_LINE_ENDS]
  simp

/-- The native loop stops at the first `*/`. -/
theorem blockEnd_search (src : Text) : ∀ (fuel j : ℕ), src.length ≤ j + fuel →
    blockEnd src fuel j
      = match (List.range' j (src.length - j)).find? fun k => startsWith src k "*/" with
        | some k => k + 2
        | none => src.length := by
  intro fuel
  induction fuel with
  | zero =>
    intro j hf
    rw [blockEnd, show src.length - j = 0 by omega]
    rfl
  | succ fuel ih =>
    intro j hf
    have hpair := startsWith_pair '*' '/' (s := "*/") rfl src j
    rw [blockEnd]
    by_cases hj : j + 1 < src.length
    · rw [if_pos hj, show src.length - j = (src.length - (j + 1)) + 1 by omega, List.range'_succ,
        List.find?_cons, hpair]
      by_cases hs : (holdsAt (· == cp '*') src j && holdsAt (· == cp '/') src (j + 1)) = true
      · rw [if_pos hs, hs]
      · rw [if_neg hs, ih (j + 1) (by omega), Bool.eq_false_iff.mpr hs]
    · -- one character or none is left
      rw [if_neg hj]
      have hnone : (List.range' j (src.length - j)).find?
          (fun k => startsWith src k "*/") = none := by
        rw [List.find?_eq_none]
        intro k hk hstart
        have hk' := List.mem_range'_1.mp hk
        rw [startsWith_pair '*' '/' rfl, Bool.and_eq_true] at hstart
        have := lt_length_of_holdsAt hstart.2
        omega
      rw [hnone]

/-- **The end of a block comment is found alike.** -/
theorem blockEnd_eq (src : Text) (j : ℕ) :
    (if PyStr.find src (pts "*/") j src.length < 0 then src.length
      else (PyStr.find src (pts "*/") j src.length + 2).toNat) = blockEnd src src.length j := by
  have hcongr : (List.range' j (src.length - j)).find? (fun i =>
        PyStr.startsWith src (pts "*/") i && i + (pts "*/").length ≤ src.length)
      = (List.range' j (src.length - j)).find? fun k => startsWith src k "*/" := by
    rw [← List.head?_filter, ← List.head?_filter]
    refine congrArg List.head? (List.filter_congr fun k _ => ?_)
    rw [startsWith_eq, Bool.eq_iff_iff, Bool.and_eq_true, decide_eq_true_eq,
      startsWith_pair '*' '/' rfl, Bool.and_eq_true]
    have h2 : (pts "*/").length = 2 := rfl
    constructor
    · exact fun h => h.1
    · intro h
      have := lt_length_of_holdsAt h.2
      exact ⟨h, by omega⟩
  rw [PyStr.find_eq src (by decide), min_self, hcongr, blockEnd_search src _ _ (by omega)]
  cases (List.range' j (src.length - j)).find? fun k => startsWith src k "*/" with
  | none => rfl
  | some k =>
    simp only
    rw [if_neg (by omega)]
    omega

theorem le_blockEnd (src : Text) : ∀ (fuel j : ℕ), min j src.length ≤ blockEnd src fuel j := by
  intro fuel
  induction fuel with
  | zero => intro j; exact min_le_right _ _
  | succ fuel ih =>
    intro j
    have := ih (j + 1)
    rw [blockEnd]
    split_ifs <;> omega

/-! ## Strings and templates -/

theorem stringEnd_eq (src : Text) (quote : ℕ) : ∀ (fuel j : ℕ),
    Reference.stringEnd src quote fuel j = Native.stringEnd src quote fuel j := by
  intro fuel
  induction fuel with
  | zero => intro j; rfl
  | succ fuel ih =>
    intro j
    rw [Reference.stringEnd, Native.stringEnd]
    by_cases hj : j < src.length
    · have hnl : ∀ c : ℕ, c ∈ pts "\n\r" ↔ c = cp '\n' ∨ c = cp '\r' := by
        intro c; simp [pts, cp]
      simp only [holdsAt_eq_getD 0 hj, hj, true_and, decide_true, Bool.true_and, hnl, ih,
        beq_iff_eq, Bool.not_eq_true', Bool.or_eq_false_iff, beq_eq_false_iff_ne, not_or, ne_eq,
        and_assoc]
    · simp [hj]

theorem le_stringEnd (src : Text) (quote : ℕ) : ∀ (fuel j : ℕ),
    j ≤ Native.stringEnd src quote fuel j := by
  intro fuel
  induction fuel with
  | zero => intro j; exact le_refl j
  | succ fuel ih =>
    intro j
    rw [Native.stringEnd]
    split
    · exact le_trans (Nat.le_add_right j _) (ih _)
    · exact le_refl j

theorem scanTemplate_eq (src : Text) : ∀ (fuel j : ℕ),
    Reference.scanTemplate src fuel j = Native.scanTemplate src fuel j := by
  intro fuel
  induction fuel with
  | zero => intro j; rfl
  | succ fuel ih =>
    intro j
    rw [Reference.scanTemplate, Native.scanTemplate]
    by_cases hj : j < src.length
    · have hsub : src.getD j 0 = cp '$' ∧ PyStr.startsWith src (pts "$\x7b") j = true ↔
          (src.getD j 0 == cp '$' && holdsAt (· == cp '\x7b') src (j + 1)) = true := by
        rw [startsWith_eq, startsWith_pair '$' '\x7b' rfl, holdsAt_eq_getD 0 hj]
        simp
      simp only [holdsAt_eq_getD 0 hj, hj, if_true, hsub, ih, beq_iff_eq]
    · simp [hj]

theorem le_scanTemplate (src : Text) : ∀ (fuel j : ℕ),
    min j src.length ≤ (Native.scanTemplate src fuel j).1 := by
  intro fuel
  induction fuel with
  | zero => intro j; exact min_le_right _ _
  | succ fuel ih =>
    intro j
    have h1 := ih (j + 1)
    have h2 := ih (j + 2)
    rw [Native.scanTemplate]
    split_ifs <;> omega

/-! ## Regular expressions and identifiers -/

theorem regexEnd_eq (src : Text) : ∀ (fuel j : ℕ) (inClass : Bool),
    Reference.regexEnd src fuel j inClass = Native.regexEnd src fuel j inClass := by
  intro fuel
  induction fuel with
  | zero => intro j inClass; rfl
  | succ fuel ih =>
    intro j inClass
    rw [Reference.regexEnd, Native.regexEnd]
    by_cases hj : j < src.length
    · have hnl : ∀ c : ℕ, c ∈ pts "\n\r" ↔ c = cp '\n' ∨ c = cp '\r' := by
        intro c; simp [pts, cp]
      simp only [holdsAt_eq_getD 0 hj, hj, true_and, decide_true, Bool.true_and, hnl, ih,
        beq_iff_eq, Bool.not_eq_true', Bool.or_eq_false_iff, beq_eq_false_iff_ne, not_or, ne_eq,
        Bool.and_eq_true, Bool.not_eq_true]
    · simp [hj]

theorem le_regexEnd (src : Text) : ∀ (fuel j : ℕ) (inClass : Bool),
    j ≤ Native.regexEnd src fuel j inClass := by
  intro fuel
  induction fuel with
  | zero => intro j inClass; exact le_refl j
  | succ fuel ih =>
    intro j inClass
    have h1 := ih (j + 1)
    have h2 := ih (j + 2) inClass
    rw [Native.regexEnd]
    split_ifs
    · omega
    · exact le_trans (Nat.le_succ j) (h1 true)
    · exact le_trans (Nat.le_succ j) (h1 false)
    · exact le_refl j
    · exact le_trans (Nat.le_succ j) (h1 inClass)
    · exact le_refl j

/-- **An identifier with escapes**: the native loop only keeps a text of its
own once it has met an escape. -/
theorem identifierLoop_eq (cls : Classes) (src : Text) (i : ℕ) : ∀ (fuel j : ℕ) (own : Option Text),
    i ≤ j → j ≤ src.length → Reference.identifierLoop cls src fuel j (own.getD (slice src i j))
        = ((Native.identifierLoop cls src i fuel j own).1,
            (Native.identifierLoop cls src i fuel j own).2.getD
              (slice src i (Native.identifierLoop cls src i fuel j own).1)) ∧
      j ≤ (Native.identifierLoop cls src i fuel j own).1 := by
  intro fuel
  induction fuel with
  | zero => intro j own _ _; exact ⟨rfl, le_refl j⟩
  | succ fuel ih =>
    intro j own hij hjn
    rw [Reference.identifierLoop, Native.identifierLoop]
    by_cases hj : j < src.length
    · simp only [hj, if_true, holdsAt_eq_getD 0 hj]
      by_cases hc : cls.isIdChar (src.getD j 0) = true
      · simp only [hc, if_true]
        obtain ⟨h1, h2⟩ := ih (j + 1) (own.map (· ++ [src.getD j 0])) (by omega) (by omega)
        refine ⟨?_, by omega⟩
        rw [← h1]
        cases own with
        | none => rw [Option.getD_none, Option.map_none, Option.getD_none, slice_succ 0 hij hj]
        | some v => rfl
      · simp only [hc, Bool.false_eq_true, if_false]
        have hesc : (if src.getD j 0 = cp '\\' then Reference.unicodeEscape src j else none)
            = Native.unicodeEscape src j := by
          rw [unicodeEscape_eq]
          split
          · rfl
          next hb =>
            rw [Native.unicodeEscape, holdsAt_eq_getD 0 hj, beq_eq_false_iff_ne.mpr hb]
            rfl
        rw [hesc]
        cases hu : Native.unicodeEscape src j with
        | none => exact ⟨rfl, le_refl j⟩
        | some cs =>
          obtain ⟨c, stop⟩ := cs
          obtain ⟨hlt, hle⟩ := unicodeEscape_lt hu
          obtain ⟨h1, h2⟩ := ih stop (some (own.getD (slice src i j) ++ [c])) (by omega) hle
          exact ⟨h1, le_trans (le_of_lt hlt) h2⟩
    · simp only [hj, if_false]
      exact ⟨trivial, le_refl j⟩

end Pydeno.Scanner
