import Pydeno.Wire.Helpers.Strings

/-!
# The numbers of a frame

`number` walks over a number and then converts the text it walked over: a
number without fraction and exponent becomes an integer, and any other the
nearest double, which has to be finite (`number_eq`).
-/

namespace Pydeno.Wire

open Json Json.Number List

open Utf8 (Scalars Stands)

variable {bytes : Bytes}

theorem isDigit_lt {c : ℕ} (h : isDigit c = true) : c < 0x80 := by
  simp only [isDigit, Bool.and_eq_true, decide_eq_true_eq] at h
  omega

theorem isDigit_ge {b : ℕ} (h : 0x80 ≤ b) : isDigit b = false := by
  simp only [isDigit, Bool.and_eq_false_iff, decide_eq_false_iff_not]
  omega

/-! ## The parts -/

variable {p : Cursor} {t : List ℕ} {n : Number}

theorem digits1_eq (h : Stands bytes p.pos t) :
    (digits1 bytes p = jsonError ∧ (readDigits t).1 = []) ∨
    ∃ q, digits1 bytes p = .ok ((), q) ∧ (readDigits t).1 ≠ [] ∧
      Stands bytes q.pos (readDigits t).2 ∧ q.left = p.left := by
  have hstop := h.skipWhile_eq (p := isDigit) (v := false) fun b hb => isDigit_ge hb
  have hst := h.skipWhile (p := isDigit) (v := false) fun b hb => isDigit_ge hb
  have hascii : Utf8.encodeAll (t.takeWhile isDigit) = t.takeWhile isDigit :=
    Utf8.encodeAll_ascii fun c hc => isDigit_lt (mem_takeWhile_imp hc)
  rw [hascii] at hstop
  by_cases hnil : t.takeWhile isDigit = []
  · left
    refine ⟨?_, hnil⟩
    rw [digits1, if_pos (by rw [hstop, hnil]; rfl)]
  · right
    have hpos := length_pos_of_ne_nil hnil
    refine ⟨⟨skipWhile isDigit bytes p.pos, p.left⟩, ?_, hnil, hst, rfl⟩
    rw [digits1, if_neg (by omega)]

theorem intPart_eq (h : Stands bytes p.pos t) : (intPart bytes p = jsonError ∧ readInt t = none) ∨
    ∃ ds r q, intPart bytes p = .ok ((), q) ∧ readInt t = some (ds, r) ∧
      Stands bytes q.pos r ∧ q.left = p.left := by
  have hst := h.skipWhile (p := isDigit) (v := false) fun b hb => isDigit_ge hb
  rcases t with _ | ⟨c, t⟩
  · have hnone := h.getElem?_eq_none.mpr rfl
    left
    refine ⟨?_, rfl⟩
    rw [intPart, hnone, holdsAt, hnone]
    rfl
  by_cases h0 : c = 0x30
  · subst h0
    right
    have hget : bytes[p.pos]? = some 0x30 := (h.getElem?_eq (by decide)).mpr rfl
    rw [intPart, if_pos hget]
    exact ⟨[0x30], t, _, rfl, rfl, h.advance_ascii (by decide), rfl⟩
  have hne : bytes[p.pos]? ≠ some 0x30 := fun hget => by
    have hhead := (h.getElem?_eq (b := 0x30) (by decide)).mp hget
    exact h0 (Option.some.inj hhead)
  rw [intPart, if_neg hne, readInt, if_neg h0]
  by_cases hd : isDigit c = true
  · right
    have hget : bytes[p.pos]? = some c := (h.getElem?_eq (isDigit_lt hd)).mpr rfl
    have hholds : holdsAt (fun b => 0x31 ≤ b && b ≤ 0x39) bytes p.pos = true := by
      simp only [isDigit, Bool.and_eq_true, decide_eq_true_eq] at hd
      simp only [holdsAt, hget, Option.any_some, Bool.and_eq_true, decide_eq_true_eq]
      omega
    rw [if_pos hholds, if_pos hd]
    rw [dropWhile_cons_of_pos hd] at hst
    exact ⟨_, _, _, rfl, rfl, hst, rfl⟩
  · left
    have hholds : ¬ holdsAt (fun b => 0x31 ≤ b && b ≤ 0x39) bytes p.pos = true := by
      intro hh
      obtain ⟨b, hget, hb⟩ := holdsAt_iff.mp hh
      simp only [Bool.and_eq_true, decide_eq_true_eq] at hb
      have hhead := (h.getElem?_eq (b := b) (by omega)).mp hget
      have hcb : c = b := Option.some.inj hhead
      simp only [isDigit, Bool.and_eq_true, decide_eq_true_eq] at hd
      omega
    rw [if_neg hholds, if_neg hd]
    exact ⟨rfl, rfl⟩

theorem fracPart_eq (h : Stands bytes p.pos t) :
    (fracPart bytes p = jsonError ∧ readFrac t = none) ∨
    ∃ frac r q, fracPart bytes p = .ok (frac.isSome, q) ∧ readFrac t = some (frac, r) ∧
      Stands bytes q.pos r ∧ q.left = p.left := by
  rcases t with _ | ⟨c, t⟩
  · right
    rw [fracPart, h.getElem?_eq_none.mpr rfl, if_neg (by simp)]
    exact ⟨none, [], p, rfl, rfl, h, rfl⟩
  by_cases hc : c = point
  · subst hc
    have hget : bytes[p.pos]? = some point := (h.getElem?_eq (by decide)).mpr rfl
    have hst := h.advance_ascii (by decide)
    rw [fracPart, if_pos hget, readFrac, if_pos rfl]
    rcases digits1_eq (p := ⟨p.pos + 1, p.left⟩) hst with ⟨herr, hnil⟩ | ⟨q, hok, hne, hq, hleft⟩
    · left
      rw [herr, if_pos hnil]
      exact ⟨rfl, rfl⟩
    · right
      rw [hok, if_neg hne]
      exact ⟨_, _, q, rfl, rfl, hq, hleft⟩
  · right
    have hne : bytes[p.pos]? ≠ some point := fun hget =>
      hc (Option.some.inj ((h.getElem?_eq (b := point) (by decide)).mp hget))
    rw [fracPart, if_neg hne, readFrac, if_neg hc]
    exact ⟨none, c :: t, p, rfl, rfl, h, rfl⟩

/-- A class of ASCII characters, under the cursor. -/
theorem holdsAt_eq {i : ℕ} (h : Stands bytes i t) {f : ℕ → Bool} (hf : ∀ b, 0x80 ≤ b → f b = false) :
    holdsAt f bytes i = t.head?.any f := by
  rcases t with _ | ⟨c, t⟩
  · rw [holdsAt, h.getElem?_eq_none.mpr rfl]
    rfl
  · rw [holdsAt]
    rcases stands_byte h with ⟨-, hget⟩ | ⟨hc, b, hget, hb⟩
    · rw [hget]
      rfl
    · rw [hget]
      simp [hf b hb, hf c hc]

theorem expPart_eq (h : Stands bytes p.pos t) : (expPart bytes p = jsonError ∧ readExp t = none) ∨
    ∃ exp r q, expPart bytes p = .ok (exp.isSome, q) ∧ readExp t = some (exp, r) ∧
      Stands bytes q.pos r ∧ q.left = p.left := by
  have hletter := holdsAt_eq h (f := fun b => b == 0x65 || b == 0x45) fun b hb => by
    simp only [Bool.or_eq_false_iff, beq_eq_false_iff_ne]
    omega
  rcases t with _ | ⟨c, t⟩
  · right
    rw [expPart, if_neg (by rw [hletter]; simp)]
    exact ⟨none, [], p, rfl, rfl, h, rfl⟩
  by_cases hc : c = 0x65 ∨ c = 0x45
  · have hlt : c < 0x80 := by omega
    have hst := h.advance_ascii hlt
    have hsign := holdsAt_eq hst (f := fun b => b == plus || b == minus) fun b hb => by
      simp only [plus, minus, Bool.or_eq_false_iff, beq_eq_false_iff_ne]
      omega
    rw [expPart, if_pos (by rw [hletter]; simpa using hc), readExp, if_pos hc]
    simp only
    -- past the sign
    have hq : ∃ q : Cursor, (if holdsAt (fun b => b == plus || b == minus) bytes (p.pos + 1)
        then { pos := p.pos + 1 + 1, left := p.left } else ⟨p.pos + 1, p.left⟩ : Cursor) = q ∧
        Stands bytes q.pos (readSign t).2 ∧ q.left = p.left := by
      rcases t with _ | ⟨s, t⟩
      · rw [if_neg (by rw [hsign]; simp)]
        exact ⟨_, rfl, hst, rfl⟩
      · by_cases hs : s = plus ∨ s = minus
        · have hslt : s < 0x80 := by rcases hs with rfl | rfl <;> decide
          rw [if_pos (by rw [hsign]; simpa using hs), readSign, if_pos hs]
          exact ⟨_, rfl, hst.advance_ascii hslt, rfl⟩
        · rw [if_neg (by rw [hsign]; simpa using hs), readSign, if_neg hs]
          exact ⟨_, rfl, hst, rfl⟩
    obtain ⟨q, hq, hstq, hleft⟩ := hq
    rw [hq]
    rcases digits1_eq hstq with ⟨herr, hnil⟩ | ⟨q', hok, hne, hq', hleft'⟩
    · left
      rw [herr, if_pos hnil]
      exact ⟨rfl, rfl⟩
    · right
      rw [hok, if_neg hne]
      exact ⟨_, _, q', rfl, rfl, hq', hleft'.trans hleft⟩
  · right
    rw [expPart, if_neg (by rw [hletter]; simpa using hc), readExp, if_neg hc]
    exact ⟨none, c :: t, p, rfl, rfl, h, rfl⟩

/-! ## The conversion -/

/-- The node of a number. -/
def numNode (n : Number) : Node :=
  if n.isInt then
    if n.int.length ≤ 18 then .int (signed n.neg n.int) else .big n.text
  else .float (nearest n)

theorem foldl_decimal (ds : List ℕ) (hd : ∀ c ∈ ds, isDigit c = true) : ∀ a : ℕ,
    ds.foldl (fun n d => n * 10 + (d - 0x30)) a < (a + 1) * 10 ^ ds.length := by
  induction ds with
  | nil => intro a; simp
  | cons d ds ih =>
    intro a
    have hdig := hd d (by simp)
    simp only [isDigit, Bool.and_eq_true, decide_eq_true_eq] at hdig
    have hstep := ih (fun c hc => hd c (by simp [hc])) (a * 10 + (d - 0x30))
    rw [foldl_cons, length_cons, Nat.pow_succ]
    refine lt_of_lt_of_le hstep ?_
    have hle : a * 10 + (d - 0x30) + 1 ≤ (a + 1) * 10 := by omega
    calc (a * 10 + (d - 0x30) + 1) * 10 ^ ds.length ≤ (a + 1) * 10 * 10 ^ ds.length :=
          Nat.mul_le_mul_right _ hle
      _ = (a + 1) * (10 ^ ds.length * 10) := by ring

theorem decimal_lt {ds : List ℕ} (hd : ∀ c ∈ ds, isDigit c = true) :
    decimal ds < 10 ^ ds.length := by
  have h := foldl_decimal ds hd 0
  rw [Nat.zero_add, Nat.one_mul] at h
  exact h

theorem intPart_digits {ds : List ℕ} (h : IntPart ds) : ds ≠ [] ∧ ∀ c ∈ ds, isDigit c = true := by
  rcases h with rfl | ⟨d, rest, rfl, h1, h2, hrest⟩
  · exact ⟨by simp, by decide⟩
  · refine ⟨by simp, fun c hc => ?_⟩
    rcases mem_cons.mp hc with rfl | hc
    · simp only [isDigit, Bool.and_eq_true, decide_eq_true_eq]
      omega
    · exact hrest c hc

theorem text_of_isInt (h : n.isInt = true) : n.text = (if n.neg then [minus] else []) ++ n.int := by
  rw [isInt, Bool.and_eq_true, Option.isNone_iff_eq_none, Option.isNone_iff_eq_none] at h
  rw [text_eq, h.1, h.2]
  simp [fracText, expText]

/-- The sign and the digits of an integer. -/
theorem readMinus_text (hn : n.Valid) (h : n.isInt = true) : readMinus n.text = (n.neg, n.int) := by
  rw [text_of_isInt h]
  cases n.neg with
  | true => rfl
  | false =>
    obtain ⟨hne, hall⟩ := intPart_digits hn.int
    obtain ⟨d, ds, hd⟩ := exists_cons_of_ne_nil hne
    have hdig := hall d (by rw [hd]; simp)
    have hm : d ≠ minus := fun he => by rw [he] at hdig; exact absurd hdig (by decide)
    rw [hd]
    change readMinus (d :: ds) = _
    rw [readMinus, if_neg hm]

theorem parseF64_text (hn : n.Valid) : parseF64 n.text = some (nearest n) := by
  have hread := readNumber_complete (r := []) hn ⟨by rintro c ⟨⟩, by rintro c ⟨⟩, by rintro c ⟨⟩⟩
  rw [append_nil] at hread
  rw [parseF64, hread]

/-- Eighteen digits fit. -/
theorem parseI64_text (hn : n.Valid) (h : n.isInt = true) (hlen : n.int.length ≤ 18) :
    parseI64 n.text = some (signed n.neg n.int) := by
  obtain ⟨hne, hall⟩ := intPart_digits hn.int
  have hlt : decimal n.int < 10 ^ 18 :=
    lt_of_lt_of_le (decimal_lt hall) (Nat.pow_le_pow_right (by omega) hlen)
  have hrange : -2 ^ 63 ≤ signed n.neg n.int ∧ signed n.neg n.int < 2 ^ 63 := by
    unfold signed
    split_ifs <;> constructor <;> omega
  have hdigits : ¬ (n.int = [] ∨ ¬ n.int.all isDigit = true) := by
    rw [not_or, not_not, all_eq_true]
    exact ⟨hne, hall⟩
  rw [parseI64, readMinus_text hn h]
  simp only
  rw [if_neg hdigits, if_pos hrange]

theorem numberNode_eq (hn : n.Valid) : numberNode (!n.isInt) n.int.length n.text =
      if FiniteNumber n then .ok (numNode n) else .error (.error .nonFinite) := by
  unfold numberNode numNode
  by_cases hint : n.isInt = true
  · have hfin : FiniteNumber n := .inl hint
    rw [if_pos hfin, hint]
    simp only [Bool.not_true, Bool.false_eq_true, if_false, if_true]
    split_ifs with hlen
    · rw [parseI64_text hn hint hlen]
    · rfl
  · rw [Bool.not_eq_true] at hint
    have hiff : FiniteNumber n ↔ (nearest n).isFinite = true := by
      rw [FiniteNumber, hint]
      simp
    simp only [hint, hiff, Bool.not_false, if_true, Bool.false_eq_true, if_false, parseF64_text hn]

/-- **`number` reads what the reader reads**, if it is finite. -/
theorem number_eq (h : Stands bytes p.pos t) : (number bytes p = jsonError ∧ readNumber t = none) ∨
    ∃ n r q, readNumber t = some (n, r) ∧ Stands bytes q.pos r ∧ q.left = p.left ∧
      n.Valid ∧ number bytes p = if FiniteNumber n then .ok (numNode n, q)
        else .error (.error .nonFinite) := by
  have hminus : ∃ p' : Cursor, (if bytes[p.pos]? = some minus then
      { p with pos := p.pos + 1 } else p) = p' ∧ Stands bytes p'.pos (readMinus t).2 ∧
      p'.left = p.left := by
    by_cases hm : bytes[p.pos]? = some minus
    · obtain ⟨t', rfl, hst⟩ := stands_head h (by decide) hm
      rw [if_pos hm]
      exact ⟨_, rfl, hst, rfl⟩
    · rw [if_neg hm]
      refine ⟨p, rfl, ?_, rfl⟩
      rcases t with _ | ⟨c, t⟩
      · exact h
      · have hc : c ≠ minus := fun he => hm ((h.getElem?_eq (by decide)).mpr (by rw [he]; rfl))
        rw [readMinus, if_neg hc]
        exact h
  obtain ⟨p', hp', hst', hleft'⟩ := hminus
  unfold number
  simp only [hp']
  rcases intPart_eq hst' with ⟨herr, hnone⟩ | ⟨ds, r1, p1, hok1, hread1, hst1, hleft1⟩
  · left
    rw [herr, readNumber, hnone]
    exact ⟨rfl, rfl⟩
  rcases fracPart_eq hst1 with ⟨herr, hnone⟩ | ⟨frac, r2, p2, hok2, hread2, hst2, hleft2⟩
  · left
    rw [hok1, readNumber, hread1]
    simp only [hnone, herr, bind, Except.bind]
    exact ⟨rfl, trivial⟩
  rcases expPart_eq hst2 with ⟨herr, hnone⟩ | ⟨exp, r3, p3, hok3, hread3, hst3, hleft3⟩
  · left
    rw [hok1, readNumber, hread1]
    simp only [hread2, hok2, hnone, herr, bind, Except.bind]
    exact ⟨rfl, trivial⟩
  right
  have hread : readNumber t = some (⟨(readMinus t).1, ds, frac, exp⟩, r3) := by
    rw [readNumber, hread1]
    simp only [hread2, hread3]
  obtain ⟨htext, hvalid⟩ := readNumber_sound hread
  have hslice : Utf8.strSlice bytes p.pos p3.pos
      = some (text ⟨(readMinus t).1, ds, frac, exp⟩) := by
    rw [Utf8.Stands.pos_eq (htext ▸ h) hst3]
    exact Utf8.strSlice_eq (htext ▸ h)
  have hdigits : p1.pos - p'.pos = ds.length := by
    obtain ⟨hsplit, -⟩ := readInt_sound hread1
    have hpos := Utf8.Stands.pos_eq (hsplit ▸ hst') hst1
    have hascii : Utf8.encodeAll ds = ds :=
      Utf8.encodeAll_ascii fun c hc => isDigit_lt ((intPart_digits hvalid.int).2 c hc)
    rw [hascii] at hpos
    omega
  have hfloat : (frac.isSome || exp.isSome)
      = !(isInt ⟨(readMinus t).1, ds, frac, exp⟩) := by
    cases frac <;> cases exp <;> rfl
  refine ⟨_, r3, p3, hread, hst3, by rw [hleft3, hleft2, hleft1, hleft'], hvalid, ?_⟩
  have hnode := numberNode_eq hvalid
  simp only [hok1, hok2, hok3, bind, Except.bind, hslice, hdigits, hfloat, hnode]
  split_ifs <;> rfl

end Pydeno.Wire
