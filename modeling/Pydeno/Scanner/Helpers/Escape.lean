import Pydeno.Scanner.Model.NativeText
import Pydeno.Scanner.Model.ReferenceText

/-!
# The two readings of an escape

The native scan reads an escape with cursors (`escapeAt`), the reference
with the pattern `ESCAPE`. Only the braced form gives the pattern a
choice: the zeros before the digits may be read as zeros or as digits. All
of its matches end at the same place and denote the same number, so the
order they are tried in does not matter. Every other form is read in one
way, and the forms are told apart by the character after the backslash.
-/

namespace Pydeno.Scanner

open Regex List
open Native (isHex hexDigit hexValue braceEscape isOctal isTerminator escapeAt)
open Reference (hexClass digitValue octalClass replacement)
open Option (any_some map_some none_or)

/-! ## Digits -/

theorem hexClass_eq (c : ℕ) : hexClass c = isHex c := by
  simp only [hexClass, isHex]
  cases decide (cp '0' ≤ c) <;> cases decide (c ≤ cp '9') <;> cases decide (cp 'A' ≤ c) <;>
    cases decide (c ≤ cp 'F') <;> cases decide (cp 'a' ≤ c) <;> cases decide (c ≤ cp 'f') <;> rfl

theorem hexClass_eq_isHex : hexClass = isHex := funext hexClass_eq

variable {c i k : ℕ} {code : Text}

theorem hexDigit_spec (h : isHex c = true) : hexDigit c = digitValue c ∧ digitValue c < 16 := by
  have h0 : cp '0' = 48 := rfl
  have h9 : cp '9' = 57 := rfl
  have ha : cp 'a' = 97 := rfl
  have hf : cp 'f' = 102 := rfl
  have hA : cp 'A' = 65 := rfl
  have hF : cp 'F' = 70 := rfl
  simp only [isHex, Bool.or_eq_true, Bool.and_eq_true, decide_eq_true_eq] at h
  rw [hexDigit, digitValue]
  split_ifs <;> omega

/-- Saturation does not bite on up to eight digits. -/
theorem hexFold_eq : ∀ (ds : Text) (v k : ℕ), (∀ c ∈ ds, isHex c = true) → v < 16 ^ k →
    k + ds.length ≤ 8 → ds.foldl (fun v c => Native.sat (Native.sat (v * 16) + hexDigit c)) v
      = ds.foldl (fun v c => v * 16 + digitValue c) v := by
  intro ds
  induction ds with
  | nil => intro v k _ _ _; rfl
  | cons c ds ih =>
    intro v k hall hv hk
    have hc := hall c (by simp)
    obtain ⟨heq, hd⟩ := hexDigit_spec hc
    rw [length_cons] at hk
    have hpow : 16 ^ (k + 1) ≤ 16 ^ 8 := Nat.pow_le_pow_right (by omega) (by omega)
    have hnext : v * 16 + digitValue c < 16 ^ (k + 1) := by
      rw [Nat.pow_succ]; omega
    have hsat : Native.sat (Native.sat (v * 16) + hexDigit c)
        = v * 16 + digitValue c := by
      rw [heq]
      simp only [Native.sat]
      omega
    simp only [foldl_cons, hsat]
    exact ih _ (k + 1) (fun d hd => hall d (mem_cons_of_mem c hd)) hnext (by omega)

/-- **Both sides compute the same number** from a short run of digits. -/
theorem hexValue_eq {ds : Text} (hall : ∀ c ∈ ds, isHex c = true) (hlen : ds.length ≤ 8) :
    hexValue ds = Reference.int 16 ds :=
  hexFold_eq ds 0 0 hall Nat.one_pos (by omega)

/-- Leading zeros do not change the number. -/
theorem int_zeros : ∀ (zs ds : Text), (∀ c ∈ zs, c = cp '0') →
    Reference.int 16 (zs ++ ds) = Reference.int 16 ds := by
  intro zs
  induction zs with
  | nil => intro ds _; rfl
  | cons z zs ih =>
    intro ds hall
    have hz : z = cp '0' := hall z (by simp)
    have hstep : Reference.int 16 (z :: zs ++ ds) = Reference.int 16 (zs ++ ds) := by
      rw [hz]; rfl
    rw [hstep, ih ds fun c hc => hall c (mem_cons_of_mem z hc)]

/-! ## The braced form -/

/-- The braced alternative of `ESCAPE`, after the backslash. -/
def braceForm : Regex ℕ :=
  Regex.cat [Reference.lit 'u', Reference.lit '\x7b', .many (· == cp '0') 0 none,
    .group 1 (.many hexClass 1 (some 6)), Reference.lit '\x7d']

/-- A match of the braced form: `a` zeros, then `b` digits, then the brace. -/
theorem mem_braceForm {m : Match ℕ} : m ∈ braceForm.run (code.drop (i + 1)) ↔
      holdsAt (· == cp 'u') code (i + 1) = true ∧ holdsAt (· == cp '\x7b') code (i + 2) = true ∧
      ∃ a b, a ≤ reach (· == cp '0') none (code.drop (i + 3)) ∧ 1 ≤ b ∧
        b ≤ reach isHex (some 6) (code.drop (i + 3 + a)) ∧
        holdsAt (· == cp '\x7d') code (i + 3 + a + b) = true ∧
        m = ⟨2 + a + b + 1, [(1, slice code (i + 3 + a) (i + 3 + a + b))]⟩ := by
  simp only [braceForm, Regex.cat, Reference.lit, mem_run_seq_drop, mem_run_one_drop,
    mem_run_many, mem_run_group, hexClass_eq_isHex]
  constructor
  · rintro ⟨m1, ⟨hu, rfl⟩, m2, ⟨m3, ⟨hb, rfl⟩, m4, ⟨m5, ⟨hg, -, ha⟩, m6,
      ⟨m7, ⟨m8, ⟨hg', h1, h2⟩, rfl⟩, m9, ⟨hc, rfl⟩, rfl⟩, rfl⟩, rfl⟩, rfl⟩
    refine ⟨hu, hb, m5.len, m8.len, ha, h1, h2, hc, ?_⟩
    simp only [hg, hg', slice, nil_append, append_nil, Match.mk.injEq]
    exact ⟨by omega, by rw [show i + 3 + m5.len + m8.len - (i + 3 + m5.len) = m8.len by omega]⟩
  · rintro ⟨hu, hb, a, b, ha, h1, h2, hc, rfl⟩
    refine ⟨_, ⟨hu, rfl⟩, _, ⟨_, ⟨hb, rfl⟩, _, ⟨⟨a, []⟩, ⟨rfl, Nat.zero_le _, ha⟩, _,
      ⟨_, ⟨⟨b, []⟩, ⟨rfl, h1, h2⟩, rfl⟩, _, ⟨hc, rfl⟩, rfl⟩, rfl⟩, rfl⟩, ?_⟩
    simp only [slice, nil_append, append_nil, Match.mk.injEq]
    exact ⟨by omega, by rw [show i + 3 + a + b - (i + 3 + a) = b by omega]⟩

theorem isHex_zero : isHex (cp '0') = true := by decide

/-- A closing brace is neither a digit nor a zero. -/
theorem not_hex_of_brace (h : holdsAt (· == cp '\x7d') code k = true) :
    holdsAt isHex code k = false ∧ holdsAt (· == cp '0') code k = false := by
  obtain ⟨c, hc, hb⟩ := holdsAt_iff.mp h
  obtain rfl : c = cp '\x7d' := by simpa using hb
  simp only [holdsAt, hc, any_some]
  exact ⟨by decide, by decide⟩

theorem holdsAt_hex_of_zero (h : holdsAt (· == cp '0') code k = true) :
    holdsAt isHex code k = true := by
  obtain ⟨c, hc, hb⟩ := holdsAt_iff.mp h
  obtain rfl : c = cp '0' := by simpa using hb
  rw [holdsAt_iff]
  exact ⟨_, hc, isHex_zero⟩

/-- **Where a match of the braced form can end**: at the brace the cursor
stops at, whatever the pattern took as zeros. -/
theorem braceForm_stop {j a b : ℕ} (ha : a ≤ reach (· == cp '0') none (code.drop j))
    (hb : b ≤ reach isHex (some 6) (code.drop (j + a)))
    (hc : holdsAt (· == cp '\x7d') code (j + a + b) = true) :
    j + a ≤ skipWhile (· == cp '0') code j ∧ skipWhile (· == cp '0') code j ≤ j + a + b ∧
      skipWhile isHex code (skipWhile (· == cp '0') code j) = j + a + b := by
  obtain ⟨hhex, hzero⟩ := not_hex_of_brace hc
  have hz := add_reach_drop (p := (· == cp '0')) (s := code) (i := j)
  have hdig : ∀ k, j + a ≤ k → k < j + a + b → holdsAt isHex code k = true := by
    intro k h1 h2
    refine holdsAt_of_lt_skipWhile h1 ?_
    have hr := hb.trans (Regex.reach_le (p := isHex))
    rw [skipWhile]
    omega
  have hle : skipWhile (· == cp '0') code (j) ≤ j + a + b := by
    by_contra hlt
    rw [holdsAt_of_lt_skipWhile (p := (· == cp '0')) (i := j) (by omega) (by omega)] at hzero
    cases hzero
  refine ⟨by omega, hle, skipWhile_eq hle ?_ hhex⟩
  intro k h1 h2
  exact hdig k (by omega) h2

/-- Where the native test accepts, the pattern matches up to the same place,
with digits that denote the same number. -/
theorem match?_braceForm {stop : ℕ} {r : Native.Replacement}
    (hu : holdsAt (· == cp 'u') code (i + 1) = true)
    (h : braceEscape code i = some (stop, r)) :
    ∃ ds, braceForm.match? (code.drop (i + 1)) = some ⟨stop - (i + 1), [(1, ds)]⟩ ∧
      i + 1 < stop ∧
      r = .one (if Reference.int 16 ds ≤ 0x10FFFF then Reference.int 16 ds else cp 'u') := by
  rw [braceEscape] at h
  split at h
  case isFalse => cases h
  rename_i hb
  simp only [Bool.and_eq_true, decide_eq_true_eq] at h
  split at h
  case isFalse => cases h
  rename_i hcond
  obtain ⟨⟨hc, hlt⟩, h6⟩ := hcond
  cases h
  set zeros := skipWhile (· == cp '0') code (i + 3) with hz
  set stop := skipWhile isHex code zeros with hs
  have hz0 : i + 3 ≤ zeros := le_skipWhile
  have hzs : zeros ≤ stop := le_skipWhile
  -- one way to split the digits exists: the zeros, short of the last character
  have hsome : (braceForm.match? (code.drop (i + 1))).isSome := by
    rw [match?_isSome]
    refine ⟨_, mem_braceForm.mpr ⟨hu, hb, min zeros (stop - 1) - (i + 3),
      stop - min zeros (stop - 1), ?_, by omega, ?_, ?_, rfl⟩⟩
    · have := add_reach_drop (p := (· == cp '0')) (s := code) (i := i + 3)
      omega
    · have hrun : stop - min zeros (stop - 1)
          ≤ ((code.drop (i + 3 + (min zeros (stop - 1) - (i + 3)))).takeWhile
              isHex).length := by
        rw [show i + 3 + (min zeros (stop - 1) - (i + 3)) = min zeros (stop - 1) by omega]
        have hskip : skipWhile isHex code (min zeros (stop - 1)) = stop := by
          refine skipWhile_eq (by omega) (fun k h1 h2 => ?_) skipWhile_stop
          rcases Nat.lt_or_ge k zeros with hk | hk
          · exact holdsAt_hex_of_zero (holdsAt_of_lt_skipWhile (by omega) hk)
          · exact holdsAt_of_lt_skipWhile hk h2
        rw [skipWhile] at hskip
        omega
      rw [reach]
      omega
    · rw [show i + 3 + (min zeros (stop - 1) - (i + 3)) + (stop - min zeros (stop - 1))
        = stop by omega]
      exact hc
  obtain ⟨m, hm⟩ := Option.isSome_iff_exists.mp hsome
  obtain ⟨-, -, a, b, ha, h1, hb', hc', rfl⟩ := mem_braceForm.mp (match?_mem hm)
  obtain ⟨ha1, -, ha3⟩ := braceForm_stop ha hb' hc'
  have heq : stop = i + 3 + a + b := ha3
  have hb6 : b ≤ 6 := le_trans hb' (min_le_left _ _)
  refine ⟨slice code (i + 3 + a) stop, ?_, by omega, ?_⟩
  · rw [hm, heq]
    simp only [Option.some.injEq, Match.mk.injEq]
    exact ⟨by omega, trivial⟩
  -- the digits are some zeros followed by the digits the cursor read
  have hzeros : ∀ c ∈ slice code (i + 3 + a) zeros, c = cp '0' := fun c hc => by
    simpa using forall_mem_slice (p := (· == cp '0'))
      (fun k h1 h2 => holdsAt_of_lt_skipWhile (by omega) h2) c hc
  have hdigits : ∀ c ∈ slice code zeros stop, isHex c = true :=
    forall_mem_slice fun k h1 h2 => holdsAt_of_lt_skipWhile h1 h2
  have hlen : (slice code zeros stop).length ≤ 8 := by
    rw [slice, length_take]
    omega
  rw [← slice_append (a := i + 3 + a) (b := zeros) ha1 hzs, int_zeros _ _ hzeros,
    hexValue_eq hdigits hlen]

/-- Where the native test refuses, the pattern does not match. -/
theorem match?_braceForm_none (h : braceEscape code i = none) :
    braceForm.match? (code.drop (i + 1)) = none := by
  rw [match?_eq_none]
  intro m hm
  obtain ⟨-, hb, a, b, ha, h1, hb', hc, rfl⟩ := mem_braceForm.mp hm
  obtain ⟨ha1, ha2, ha3⟩ := braceForm_stop ha hb' hc
  have hb6 : b ≤ 6 := le_trans hb' (min_le_left _ _)
  rw [braceEscape, if_pos hb] at h
  simp only at h
  rw [ha3, if_pos] at h
  · cases h
  · simp only [Bool.and_eq_true, decide_eq_true_eq]
    exact ⟨⟨hc, by omega⟩, by omega⟩

/-! ## The other forms -/

/-- A group of exactly `k` digits, at offset `j`. -/
theorem match?_digits {n j : ℕ} (hk : 0 < k) :
    (group n (many hexClass k (some k))).match? (code.drop j)
      = if j + k ≤ code.length ∧ (slice code j (j + k)).all isHex then
          some ⟨k, [(n, slice code j (j + k))]⟩
        else none := by
  rw [match?_group, match?_many, hexClass_eq_isHex]
  by_cases h : k ≤ ((code.drop j).takeWhile isHex).length
  · rw [if_pos ((le_takeWhile_drop_iff hk).mp h)]
    have hr : reach isHex (some k) (code.drop j) = k := min_eq_left h
    rw [hr, if_pos (le_refl k), map_some, slice, show j + k - j = k by omega]
  · rw [if_neg fun hc => h ((le_takeWhile_drop_iff hk).mpr hc), if_neg, Option.map_none]
    have hr : reach isHex (some k) (code.drop j)
        ≤ ((code.drop j).takeWhile isHex).length := Regex.reach_le
    omega

theorem digits_value {ds : Text} (hall : ds.all isHex = true) (hlen : ds.length ≤ k)
    (hk : k ≤ 4) : hexValue ds = Reference.int 16 ds ∧ Reference.int 16 ds ≤ 0x10FFFF := by
  rw [all_eq_true] at hall
  refine ⟨hexValue_eq hall (by omega), ?_⟩
  have hbound : ∀ (ds : Text) (v j : ℕ), (∀ c ∈ ds, isHex c = true) → v < 16 ^ j →
      ds.foldl (fun v c => v * 16 + digitValue c) v < 16 ^ (j + ds.length) := by
    intro ds
    induction ds with
    | nil => intro v j _ hv; exact hv
    | cons c ds ih =>
      intro v j hall hv
      have hd := (hexDigit_spec (hall c (by simp))).2
      rw [foldl_cons, length_cons, show j + (ds.length + 1) = (j + 1) + ds.length by omega]
      exact ih _ _ (fun d hd => hall d (mem_cons_of_mem c hd)) (by rw [Nat.pow_succ]; omega)
  have h := hbound ds 0 0 hall Nat.one_pos
  have hp : 16 ^ (0 + ds.length) ≤ 16 ^ 4 := Nat.pow_le_pow_right (by omega) (by omega)
  rw [Reference.int]
  omega

/-- An octal digit of the class is worth what the native scan takes it
for. -/
theorem octal_fold_eq : ∀ (ds : Text) (v : ℕ), (∀ c ∈ ds, isOctal c = true) →
    ds.foldl (fun v c => v * 8 + (c - cp '0')) v
      = ds.foldl (fun v c => v * 8 + digitValue c) v := by
  intro ds
  induction ds with
  | nil => intro v _; rfl
  | cons c ds ih =>
    intro v hall
    have hc := hall c (by simp)
    simp only [isOctal, Bool.and_eq_true, decide_eq_true_eq] at hc
    have h7 : cp '7' ≤ cp '9' := by decide
    have hd : digitValue c = c - cp '0' := by
      rw [digitValue, if_pos (by omega)]
    rw [foldl_cons, foldl_cons, hd]
    exact ih _ fun d hd => hall d (mem_cons_of_mem c hd)

/-- The octal alternative of `ESCAPE`. -/
def octalForm : Regex ℕ :=
  .group 4 (.alt (.seq (.one fun c => cp '0' ≤ c && c ≤ cp '3') (.many octalClass 0 (some 2)))
    (.seq (.one fun c => cp '4' ≤ c && c ≤ cp '7') (.many octalClass 0 (some 1))))

/-- One digit and up to `k` more, of which the engine takes all it can. -/
theorem match?_octalRun {p : ℕ → Bool} (h : holdsAt p code (i + 1) = true) :
    (seq (one p) (many octalClass 0 (some k))).match? (code.drop (i + 1))
      = some ⟨skipUpTo isOctal code (i + 2 + k) (i + 2) - (i + 1), []⟩ := by
  rw [match?_seq_one_drop, if_pos h, match?_many, if_pos (Nat.zero_le _), map_some]
  have hoct : octalClass = isOctal := rfl
  simp only [hoct, reach, skipUpTo, skipWhile, Option.some.injEq, Match.mk.injEq, and_true,
    show i + 1 + 1 = i + 2 from rfl]
  omega

theorem holdsAt_of_getElem? {p : ℕ → Bool} (h : code[k]? = some c) : holdsAt p code k = p c := by
  rw [holdsAt, h, any_some]

theorem match?_octalForm (hc : code[i + 1]? = some c) (ho : isOctal c = true) :
    octalForm.match? (code.drop (i + 1))
      = some ⟨skipUpTo isOctal code (i + 1 + if c ≤ cp '3' then 3 else 2) (i + 2) - (i + 1),
          [(4, slice code (i + 1)
            (skipUpTo isOctal code (i + 1 + if c ≤ cp '3' then 3 else 2) (i + 2)))]⟩ := by
  simp only [isOctal, Bool.and_eq_true, decide_eq_true_eq] at ho
  have h34 : cp '4' = cp '3' + 1 := rfl
  rw [octalForm, match?_group, match?_alt]
  by_cases h : c ≤ cp '3'
  · have hlow : holdsAt (fun c => cp '0' ≤ c && c ≤ cp '3') code (i + 1) = true := by
      rw [holdsAt_of_getElem? hc]
      simp [ho.1, h]
    rw [match?_octalRun hlow, Option.some_or, map_some, if_pos h]
    rfl
  · have hlow : (one fun c => cp '0' ≤ c && c ≤ cp '3').match? (code.drop (i + 1)) = none := by
      rw [match?_one_drop, holdsAt_of_getElem? hc, if_neg (by simp [h])]
    have hhigh : holdsAt (fun c => cp '4' ≤ c && c ≤ cp '7') code (i + 1) = true := by
      rw [holdsAt_of_getElem? hc]
      simp only [Bool.and_eq_true, decide_eq_true_eq]
      omega
    rw [match?_seq_none hlow, none_or, match?_octalRun hhigh, map_some, if_neg h]
    rfl

theorem match?_octalForm_none (hc : code[i + 1]? = some c) (ho : isOctal c = false) :
    octalForm.match? (code.drop (i + 1)) = none := by
  have hcp : cp '3' ≤ cp '7' ∧ cp '0' ≤ cp '4' := by decide
  simp only [isOctal, Bool.and_eq_false_iff, decide_eq_false_iff_not] at ho
  have hnone {lo hi : ℕ} (hlo : cp '0' ≤ lo) (hhi : hi ≤ cp '7') :
      (one fun c => lo ≤ c && c ≤ hi).match? (code.drop (i + 1)) = none := by
    rw [match?_one_drop, holdsAt_of_getElem? hc, if_neg]
    simp only [Bool.and_eq_true, decide_eq_true_eq]
    omega
  rw [octalForm, match?_group, match?_alt, match?_seq_none (hnone le_rfl hcp.1),
    match?_seq_none (hnone hcp.2 le_rfl)]
  rfl

/-- The line-continuation alternative of `ESCAPE`. -/
def newlineForm : Regex ℕ :=
  .group 5 (.alt (.seq (Reference.lit '\r') (Reference.lit '\n'))
    (.one (Reference.LINE_TERMINATORS.contains ·)))

theorem terminators_contains (c : ℕ) : Reference.LINE_TERMINATORS.contains c = isTerminator c := by
  simp only [Reference.LINE_TERMINATORS, isTerminator, contains_cons,
    contains_nil, Bool.or_false, Bool.or_assoc]

/-- A line continuation takes a `\n` after a `\r` with it. -/
theorem match?_newlineForm (hc : code[i + 1]? = some c) :
    newlineForm.match? (code.drop (i + 1))
      = if c = cp '\r' ∧ holdsAt (· == cp '\n') code (i + 2) then
          some ⟨2, [(5, slice code (i + 1) (i + 3))]⟩
        else if isTerminator c then some ⟨1, [(5, slice code (i + 1) (i + 2))]⟩
        else none := by
  rw [newlineForm, match?_group, match?_alt, Reference.lit, match?_seq_one_drop, Reference.lit,
    match?_one_drop, match?_one_drop, holdsAt_of_getElem? hc, holdsAt_of_getElem? hc,
    terminators_contains]
  simp only [beq_iff_eq, show i + 1 + 1 = i + 2 from rfl]
  by_cases h1 : c = cp '\r'
  · by_cases h2 : holdsAt (· == cp '\n') code (i + 2) = true
    · simp [h1, h2, slice]
    · by_cases h3 : isTerminator c = true
      · simp [h1, h2, slice, show isTerminator (cp '\r') = true by decide]
      · simp [h1, show isTerminator (cp '\r') = true by decide] at h3
  · by_cases h3 : isTerminator c = true
    · simp [h1, h3, slice]
    · simp [h1, h3]

/-- The last alternative takes whatever character there is. -/
theorem match?_otherForm (hc : code[i + 1]? = some c) :
    (group 6 (one fun _ => true)).match? (code.drop (i + 1)) = some ⟨1, [(6, [c])]⟩ := by
  have htake : (code.drop (i + 1)).take 1 = [c] := by
    rw [take_one, List.head?_drop, hc]
    rfl
  rw [match?_group, match?_one_drop, holdsAt_of_getElem? hc, if_pos rfl, map_some, htake]

/-- `ESCAPE` at a backslash, alternative by alternative. -/
theorem match?_ESCAPE (hb : holdsAt (· == cp '\\') code i = true) :
    Reference.ESCAPE.match? (code.drop i)
      = (((braceForm.match? (code.drop (i + 1))).or
          (((seq (Reference.lit 'u') (group 2 (many hexClass 4 (some 4)))).match?
            (code.drop (i + 1))).or
          (((seq (Reference.lit 'x') (group 3 (many hexClass 2 (some 2)))).match?
            (code.drop (i + 1))).or
          ((octalForm.match? (code.drop (i + 1))).or
          ((newlineForm.match? (code.drop (i + 1))).or
          ((group 6 (one fun _ => true)).match? (code.drop (i + 1)))))))).map
        fun m => ⟨1 + m.len, m.groups⟩) := by
  simp only [Reference.ESCAPE, Regex.choice, Reference.lit]
  rw [match?_seq_one_drop, if_pos hb]
  simp only [match?_alt]
  rfl

/-- A form that starts with another character does not match. -/
theorem match?_form_none {ch : Char} {t : Regex ℕ} (hc : code[i + 1]? = some c) (h : c ≠ cp ch) :
    (seq (Reference.lit ch) t).match? (code.drop (i + 1)) = none := by
  rw [Reference.lit, match?_seq_one_drop, holdsAt_of_getElem? hc, if_neg]
  simpa using h

theorem simpleEscape_eq (c : ℕ) : Reference.simpleEscape c = Native.simpleEscape c := by
  rw [Native.simpleEscape]
  split_ifs with h1 h2 h3 h4 h5 h6 h7
  · rw [h1]; rfl
  · rw [h2]; rfl
  · rw [h3]; rfl
  · rw [h4]; rfl
  · rw [h5]; rfl
  · rw [h6]; rfl
  · rw [h7]; rfl
  · have hnone : Reference.SIMPLE_ESCAPES.lookup c = none := by
      rw [lookup_eq_none_iff]
      simp [Reference.SIMPLE_ESCAPES, h1, h2, h3, h4, h5, h6, h7]
    rw [Reference.simpleEscape, hnone]
    rfl

/-- What a native replacement reads as, when a line continuation reads as
`continuation`. -/
def Native.Replacement.text (continuation : Text) : Native.Replacement → Text
  | .one c => [c]
  | .continuation => continuation

/-- A match of `ESCAPE` says what `escapeAt` says. -/
structure SameEscape (i stop : ℕ) (r : Native.Replacement) (m : Match ℕ) : Prop where
  stop_eq : i + m.len = stop
  two_le : 2 ≤ m.len
  replacement_eq : ∀ continuation, replacement m continuation = r.text continuation
  continuation_eq : Reference.isContinuation m = (r == .continuation)

theorem sameEscape_other : SameEscape i (i + 2) (.one (Native.simpleEscape c))
    ⟨1 + 1, [(6, [c])]⟩ where
  stop_eq := rfl
  two_le := le_refl 2
  replacement_eq continuation := by
    simp [replacement, Match.group, simpleEscape_eq, Native.Replacement.text]
  continuation_eq := rfl

/-- A letter and its digits. -/
theorem sameEscape_digits {n : ℕ} (hn : n = 2 ∨ n = 3) (hk : k ≤ 4)
    (h : i + 2 + k ≤ code.length ∧ (slice code (i + 2) (i + 2 + k)).all isHex) :
    SameEscape i (i + 2 + k) (.one (hexValue (slice code (i + 2) (i + 2 + k))))
      ⟨1 + (1 + k), [(n, slice code (i + 2) (i + 2 + k))]⟩ where
  stop_eq := by simp only; omega
  two_le := by simp only; omega
  replacement_eq continuation := by
    obtain ⟨hv, hle⟩ := digits_value h.2 (by rw [length_slice h.1]; omega) hk
    rcases hn with rfl | rfl <;> simp [replacement, Match.group, Native.Replacement.text, hv, hle]
  continuation_eq := by rcases hn with rfl | rfl <;> rfl

/-- A character that begins no form stands for itself. -/
theorem match?_letter (hc : code[i + 1]? = some c) (hoct : isOctal c = false)
    (hterm : isTerminator c = false) :
    (octalForm.match? (code.drop (i + 1))).or ((newlineForm.match? (code.drop (i + 1))).or
      ((group 6 (one fun _ => true)).match? (code.drop (i + 1)))) = some ⟨1, [(6, [c])]⟩ := by
  have hcr : c ≠ cp '\r' := by
    rintro rfl
    cases hterm
  rw [match?_octalForm_none hc hoct, match?_newlineForm hc, if_neg fun h => hcr h.1, hterm,
    match?_otherForm hc]
  rfl

/-- **The two readings of an escape agree**: where one ends, what it stands
for, and whether it continues a line. -/
theorem escapeAt_same {stop : ℕ} {r : Native.Replacement}
    (hb : holdsAt (· == cp '\\') code i = true) (h : escapeAt code i = some (stop, r)) :
    ∃ m, Reference.ESCAPE.match? (code.drop i) = some m ∧ SameEscape i stop r m := by
  rw [escapeAt] at h
  cases hc : code[i + 1]? with
  | none => simp only [hc] at h; cases h
  | some c =>
  simp only [hc] at h
  rw [match?_ESCAPE hb]
  by_cases hu : c = cp 'u'
  · -- `u`: the braced form, then four digits, then the letter itself
    have huAt : holdsAt (· == cp 'u') code (i + 1) = true := by
      rw [holdsAt_of_getElem? hc, hu]; rfl
    rw [if_pos hu] at h
    cases hbr : braceEscape code i with
    | some er =>
      simp only [hbr, Option.some.injEq] at h
      subst h
      obtain ⟨ds, hm, hlt, rfl⟩ := match?_braceForm huAt hbr
      refine ⟨_, by rw [hm]; rfl, ?_, ?_, fun continuation => ?_, rfl⟩
      · simp only; omega
      · simp only; omega
      · simp only [replacement, Match.group, List.find?_cons, beq_self_eq_true,
          map_some, Native.Replacement.text]
        split_ifs <;> rfl
    | none =>
      simp only [hbr] at h
      rw [match?_braceForm_none hbr, none_or, Reference.lit, match?_seq_one_drop,
        if_pos huAt, match?_digits (by omega)]
      split_ifs at h with h4
      · cases h
        exact ⟨_, by rw [if_pos h4]; rfl, sameEscape_digits (.inl rfl) (le_refl 4) h4⟩
      · cases h
        refine ⟨_, ?_, sameEscape_other⟩
        rw [if_neg h4, match?_form_none hc (by rw [hu]; decide),
          match?_letter hc (by rw [hu]; decide) (by rw [hu]; decide)]
        rfl
  · rw [if_neg hu] at h
    have hbrace : braceForm.match? (code.drop (i + 1)) = none := match?_form_none hc hu
    rw [hbrace, none_or, match?_form_none hc hu, none_or]
    by_cases hx : c = cp 'x'
    · rw [if_pos hx] at h
      rw [Reference.lit, match?_seq_one_drop, if_pos (by rw [holdsAt_of_getElem? hc, hx]; rfl),
        match?_digits (by omega)]
      split_ifs at h with h2
      · cases h
        exact ⟨_, by rw [if_pos h2]; rfl, sameEscape_digits (k := 2) (.inr rfl) (by omega) h2⟩
      · cases h
        refine ⟨_, ?_, sameEscape_other⟩
        rw [if_neg h2, match?_letter hc (by rw [hx]; decide) (by rw [hx]; decide)]
        rfl
    rw [if_neg hx] at h
    rw [match?_form_none hc hx, none_or]
    by_cases ho : isOctal c = true
    · rw [if_pos ho] at h
      cases h
      have hle : i + 2 ≤ skipUpTo isOctal code (i + 1 + if c ≤ cp '3' then 3 else 2) (i + 2) :=
        le_skipUpTo
      refine ⟨_, by rw [match?_octalForm hc ho]; rfl, ?_, ?_, fun continuation => ?_, rfl⟩
      · simp only; omega
      · simp only; omega
      · have hall : ∀ d ∈ slice code (i + 1)
            (skipUpTo isOctal code (i + 1 + if c ≤ cp '3' then 3 else 2) (i + 2)),
            isOctal d = true := by
          refine forall_mem_slice fun k h1 h2 => ?_
          rcases Nat.eq_or_lt_of_le h1 with rfl | h1
          · rw [holdsAt_of_getElem? hc]; exact ho
          · exact holdsAt_of_lt_skipWhile h1 (lt_of_lt_of_le h2 (min_le_left _ _))
        simp [replacement, Match.group, Native.Replacement.text, Reference.int,
          octal_fold_eq _ _ hall]
    rw [if_neg ho] at h
    split_ifs at h with hcr hterm
    · cases h
      rw [match?_octalForm_none hc (by simpa using ho), match?_newlineForm hc, if_pos hcr]
      exact ⟨_, rfl, rfl, by simp only; omega, fun _ => rfl, rfl⟩
    · cases h
      rw [match?_octalForm_none hc (by simpa using ho), match?_newlineForm hc, if_neg hcr,
        if_pos hterm]
      exact ⟨_, rfl, rfl, le_refl 2, fun _ => rfl, rfl⟩
    · cases h
      rw [match?_letter hc (by simpa using ho) (by simpa using hterm)]
      exact ⟨_, rfl, sameEscape_other⟩

/-- A backslash that ends the text is no escape to either side. -/
theorem escapeAt_none (h : escapeAt code i = none) :
    code[i + 1]? = none ∧ Reference.ESCAPE.match? (code.drop i) = none := by
  have hc : code[i + 1]? = none := by
    rw [escapeAt] at h
    cases hc : code[i + 1]? with
    | none => rfl
    | some c =>
      simp only [hc] at h
      split_ifs at h <;> cases hbr : braceEscape code i <;> simp only [hbr] at h <;> cases h
  refine ⟨hc, ?_⟩
  -- every alternative needs a character after the backslash
  have hnil : code.drop (i + 1) = [] := by
    rw [drop_eq_nil_iff]
    exact List.getElem?_eq_none_iff.mp hc
  rw [Reference.ESCAPE, Reference.lit, match?_seq_one_drop, hnil]
  split <;> rfl

/-- Where there is no backslash there is no escape. -/
theorem match?_ESCAPE_none (h : holdsAt (· == cp '\\') code i = false) :
    Reference.ESCAPE.match? (code.drop i) = none := by
  rw [Reference.ESCAPE, Reference.lit, match?_seq_one_drop, h]
  rfl

end Pydeno.Scanner
