import Pydeno.Scanner.Helpers.Escape

/-!
# Telling a method definition from a call

The two scanners look around a `constructor` with the same bounds: back
over white space and whole comment lines, forward over one parameter list.
The native scan finds the start of a comment line with a backward loop and
tests it in place; the reference takes the latest of four searches, and
slices and strips the line.
-/

namespace Pydeno.Scanner

open PyStr List
open Native (lastTerminator commentLine isBlank)

/-! ## Backward -/

/-- The latest of the reference's four searches. -/
def latestTerminator (code : Text) (lo hi : ℕ) : ℤ :=
  (Reference.LINE_TERMINATORS.map fun t => rfindChar code t lo hi).foldl max (-1)

/-- A bound that is reached is the maximum. -/
theorem foldl_max_eq : ∀ (l : List ℤ) (a m : ℤ), (∀ x ∈ l, x ≤ m) → a ≤ m → (a = m ∨ m ∈ l) →
    l.foldl max a = m := by
  intro l
  induction l with
  | nil =>
    intro a m _ _ h
    simpa using h
  | cons x l ih =>
    intro a m hle ha h
    have hx := hle x (by simp)
    refine ih (max a x) m (fun y hy => hle y (mem_cons_of_mem x hy)) (max_le ha hx) ?_
    rcases h with rfl | h
    · exact .inl (max_eq_left hx)
    · rcases mem_cons.mp h with rfl | h
      · exact .inl (max_eq_right ha)
      · exact .inr h

/-- One place more: a terminator there is the latest. -/
theorem latestTerminator_succ (code : Text) (lo n : ℕ) : latestTerminator code lo (lo + n + 1)
      = if holdsAt Native.isTerminator code (lo + n) then ((lo + n : ℕ) : ℤ)
        else latestTerminator code lo (lo + n) := by
  have hsucc : ∀ t, rfindChar code t lo (lo + n + 1)
      = if code[lo + n]? = some t then ((lo + n : ℕ) : ℤ) else rfindChar code t lo (lo + n) :=
    fun t => rfindChar_succ code t (Nat.le_add_right lo n)
  split
  next h =>
    obtain ⟨c, hc, hterm⟩ := holdsAt_iff.mp h
    rw [← terminators_contains, contains_iff_mem] at hterm
    refine foldl_max_eq _ _ _ (fun x hx => ?_) (by omega) (.inr ?_)
    · obtain ⟨t, -, rfl⟩ := mem_map.mp hx
      have := rfindChar_lt code t lo (n + 1)
      push_cast at this ⊢
      rw [← Nat.add_assoc] at this
      omega
    · exact mem_map.mpr ⟨c, hterm, by rw [hsucc, if_pos hc]⟩
  next h =>
    refine congrArg (List.foldl max (-1)) (map_congr_left fun t ht => ?_)
    rw [hsucc, if_neg fun hc => h ?_]
    exact holdsAt_iff.mpr ⟨t, hc, by rwa [← terminators_contains, contains_iff_mem]⟩

/-- **The start of the line is found alike.** -/
theorem lastTerminator_eq (code : Text) (window : ℕ) : ∀ n : ℕ,
    lastTerminator code window n = latestTerminator code window (window + n + 1) := by
  intro n
  induction n with
  | zero =>
    have hself : latestTerminator code window (window + 0) = -1 := by
      rw [latestTerminator, Nat.add_zero]
      simp only [rfindChar_self]
      rfl
    have hone := latestTerminator_succ code window 0
    rw [hself] at hone
    exact hone.symm
  | succ n ih =>
    rw [latestTerminator_succ, lastTerminator, ih]
    rfl

/-- Two slashes after the leading white space of a line. -/
theorem commentLine_eq (cls : Classes) (code : Text) {from_ to_ : ℕ} (h : from_ ≤ to_ + 1) :
    startsWith (lstrip cls.isSpace (slice code from_ (to_ + 1))) (pts "//") 0
      = commentLine cls code from_ to_ := by
  rw [lstrip, dropWhile_slice h, commentLine]
  set q := skipUpTo cls.isSpace code (to_ + 1) from_
  have hpre : ∀ l : Text, (pts "//").isPrefixOf l
      = (holdsAt (· == cp '/') l 0 && holdsAt (· == cp '/') l 1) := by
    intro l
    have hs : pts "//" = [cp '/', cp '/'] := rfl
    rcases l with _ | ⟨a, _ | ⟨b, l⟩⟩
    · rfl
    · simp [hs, holdsAt, List.isPrefixOf]
    · simp [hs, holdsAt, List.isPrefixOf, BEq.comm]
  rw [startsWith, drop_zero, hpre, holdsAt, holdsAt, getElem?_slice, getElem?_slice, Nat.add_zero]
  by_cases h1 : q < to_
  · rw [if_pos (by omega), if_pos (by omega)]
    simp [h1, holdsAt]
  · rw [if_neg (show ¬ 1 < to_ + 1 - q by omega)]
    simp [h1]

/-- What the reference returns for a native answer. -/
def Native.Before.text : Native.Before → Text
  | .start => []
  | .unknown => pts "?"
  | .char c => [c]

theorem lastTerminator_lt (code : Text) (window n : ℕ) :
    lastTerminator code window n ≤ (window + n : ℕ) := by
  induction n with
  | zero =>
    rw [lastTerminator]
    split <;> omega
  | succ n ih =>
    rw [lastTerminator]
    split
    · exact le_refl _
    · push_cast at ih ⊢; omega

theorem beforeHop_eq (cls : Classes) (code : Text) : ∀ (hops : ℕ) (i0 : ℤ),
    Reference.beforeHop cls code hops i0 = (Native.beforeHop cls code hops i0).text := by
  intro hops
  induction hops with
  | zero => intro i0; rfl
  | succ hops ih =>
    intro i0
    rw [Reference.beforeHop, Native.beforeHop, show Reference.BACK = Native.BACK from rfl]
    set floor := max (-1) (i0 - Native.BACK)
    set i := skipBack cls.isSpace code floor (i0 - floor).toNat
    simp only
    by_cases h0 : i < 0
    · rw [if_pos h0, if_pos h0]
      rfl
    rw [if_neg h0, if_neg h0]
    by_cases hf : i = floor
    · rw [if_pos hf, if_pos hf]
      rfl
    rw [if_neg hf, if_neg hf]
    set window := (max 0 (i - Native.BACK)).toNat with hw
    have hwin : window ≤ i.toNat := by omega
    have hline : (Reference.LINE_TERMINATORS.map fun t =>
          rfindChar code t window (i.toNat + 1)).foldl max (-1)
        = lastTerminator code window (i.toNat - window) := by
      rw [lastTerminator_eq, show window + (i.toNat - window) + 1 = i.toNat + 1 by omega]
      rfl
    rw [hline]
    have hle := lastTerminator_lt code window (i.toNat - window)
    set lineStart := lastTerminator code window (i.toNat - window)
    by_cases hneg : lineStart < 0
    · rw [if_pos (.inl hneg), if_pos (by simp [hneg])]
      rfl
    have hslice : PyStr.slice code (lineStart + 1) (i + 1)
        = slice code (lineStart + 1).toNat (i.toNat + 1) := by
      rw [← slice_natCast]
      congr 1 <;> omega
    rw [hslice, commentLine_eq cls code (by omega)]
    by_cases hcomment : commentLine cls code (lineStart + 1).toNat i.toNat = true
    · rw [if_neg (by simp [hneg, hcomment]), if_neg (by simp [hneg, hcomment])]
      exact ih lineStart
    · rw [if_pos (by simp [hcomment]), if_pos (by simp [hcomment])]
      rfl

theorem before_eq (cls : Classes) (code : Text) (start : ℕ) :
    Reference.before cls code start = (Native.before cls code start).text :=
  beforeHop_eq cls code 3 _

/-! ## Forward -/

theorem quoteEnd_eq (code : Text) {limit : ℕ} (hl : limit ≤ code.length) (quote : ℕ) :
    ∀ (fuel j : ℕ),
      Reference.quoteEnd code limit quote fuel j = Native.quoteEnd code limit quote fuel j := by
  intro fuel
  induction fuel with
  | zero => intro j; rfl
  | succ fuel ih =>
    intro j
    rw [Reference.quoteEnd, Native.quoteEnd]
    by_cases hj : j < limit
    · have hlen : j < code.length := by omega
      simp only [holdsAt_eq_getD 0 hlen, hj, true_and, decide_true, Bool.true_and,
        Bool.not_eq_true', beq_eq_false_iff_ne, ← terminators_contains, contains_iff_mem,
        beq_iff_eq, ih]
      split_ifs <;> rfl
    · simp [hj]

theorem parametersLoop_eq (code : Text) {limit : ℕ} (hl : limit ≤ code.length) :
    ∀ (fuel : ℕ) (depth : ℤ) (j : ℕ), Reference.parametersLoop code limit fuel depth j
      = Native.parametersLoop code limit fuel depth j := by
  intro fuel
  induction fuel with
  | zero => intro depth j; rfl
  | succ fuel ih =>
    intro depth j
    have hopen : ∀ c : ℕ, c ∈ pts "([\x7b" ↔ c = cp '(' ∨ c = cp '[' ∨ c = cp '\x7b' := by
      intro c; simp [pts, cp]
    have hclose : ∀ c : ℕ, c ∈ pts ")]\x7d" ↔ c = cp ')' ∨ c = cp ']' ∨ c = cp '\x7d' := by
      intro c; simp [pts, cp]
    have hquote : ∀ c : ℕ, c ∈ pts "'\"" ↔ c = cp '\'' ∨ c = cp '"' := by
      intro c; simp [pts, cp]
    have hslash : ∀ c : ℕ, c ∈ pts "/`" ↔ c = cp '/' ∨ c = cp '`' := by
      intro c; simp [pts, cp]
    simp only [Reference.parametersLoop, Native.parametersLoop, hopen, hclose, hquote, hslash, ih,
      quoteEnd_eq code hl]
    rfl

theorem parametersEnd_eq (code : Text) (i : ℕ) :
    Reference.parametersEnd code i = Native.parametersEnd code i :=
  parametersLoop_eq code (min_le_left _ _) _ _ _

theorem blanks_contains (c : ℕ) : Reference.BLANKS.contains c = isBlank c := by
  simp only [Reference.BLANKS, isBlank, List.contains_cons, List.contains_nil,
    Bool.or_false, Bool.or_assoc]

/-- **Both sides call the same places method definitions.** -/
theorem methodDefinition_eq (cls : Classes) (code : Text) (start stop : ℕ) :
    Reference.methodDefinition cls code start stop
      = Native.methodDefinition cls code start stop := by
  have hbody : ∀ c : ℕ, [c] ∈ [pts "\x7b", pts "\x7d", pts ";"] ↔
      c = cp '\x7b' ∨ c = cp '\x7d' ∨ c = cp ';' := by
    intro c; simp [pts, cp]
  have hfun : (Reference.BLANKS.contains ·) = isBlank := funext blanks_contains
  rw [Reference.methodDefinition, Native.methodDefinition, before_eq]
  cases Native.before cls code start with
  | start | unknown => simp [Native.Before.text, pts]
  | char c =>
    simp only [Native.Before.text, hbody]
    by_cases hc : c = cp '\x7b' ∨ c = cp '\x7d' ∨ c = cp ';'
    · rw [if_neg (not_not.mpr hc), if_pos hc, show Reference.BACK = Native.BACK from rfl, hfun]
      set limit := min code.length (stop + Native.BACK) with hlim
      set j := skipUpTo cls.isSpace code limit stop
      by_cases hj : limit ≤ j
      · rw [if_pos (.inl hj), if_pos (by simp [hj])]
      · have hlen : j < code.length := by omega
        rw [holdsAt_eq_getD 0 hlen, parametersEnd_eq]
        generalize code.getD j 0 = c0
        by_cases hp : c0 = cp '('
        · rw [if_neg (by simp [hj, hp]), if_neg (by simp [hj, hp])]
          cases Native.parametersEnd code j with
          | none => rfl
          | some close =>
            simp only
            set k := skipUpTo isBlank code (min code.length (close + Native.BACK)) close
            by_cases hk : k < code.length
            · simp [holdsAt_eq_getD 0 hk, hk]
            · rw [holdsAt, List.getElem?_eq_none (by omega)]
              simp [hk]
        · rw [if_pos (.inr hp), if_pos (by simp [hp])]
    · rw [if_pos hc, if_neg hc]

end Pydeno.Scanner
