import Pydeno.Wire.Model.Document

/-!
# The strings of a frame

`string` takes plain text in slices and looks two escapes ahead for a
surrogate pair; the reader of the JSON library takes one character at a
time. Both read the same code units (`string_eq`), and the representation
is canonical: a string is kept as code units exactly when one of them is an
unpaired surrogate, so equal strings are equal as values.
-/

namespace Pydeno.Wire

open List Json Utf16

open Utf8 (Scalars Stands scalars_cons scalars_append encode_ascii)

variable {bytes : Bytes}

/-! ## The canonical form -/

/-- The string of a sequence of code units. -/
def canon (us : List ℕ) : Str :=
  if Scalars (Utf16.decode us) then .plain (Utf16.decode us) else .units us

theorem toUnits_canon {us : List ℕ} (h : ∀ u ∈ us, u < 0x10000) : (canon us).toUnits = us := by
  rw [canon]
  split_ifs
  · exact units_decode h
  · rfl

theorem canon_inj {us vs : List ℕ} (hu : ∀ u ∈ us, u < 0x10000) (hv : ∀ v ∈ vs, v < 0x10000) :
    canon us = canon vs ↔ us = vs := by
  refine ⟨fun h => ?_, fun h => by rw [h]⟩
  rw [← toUnits_canon hu, ← toUnits_canon hv, h]

/-- What the loop of `string` makes of the code units it has still to read. -/
def finish (out : List ℕ) (us : Option (List ℕ)) (v : List ℕ) : Str :=
  match us with
  | some u => .units (u ++ v)
  | none => canon (units out ++ v)

/-- The unit is no half of a pair when `v` comes after it. -/
def LoneBefore (unit : ℕ) (v : List ℕ) : Prop :=
  isLow unit = true ∨ (isHigh unit = true ∧ ∀ x ∈ v.head?, isLow x = false)

variable {v out t : List ℕ} {c b d a : ℕ} {p : Cursor}

theorem not_scalars_of_loneBefore {unit : ℕ} (h : LoneBefore unit v) :
    ¬ Scalars (Utf16.decode (unit :: v)) := by
  have hdec : Utf16.decode (unit :: v) = unit :: Utf16.decode v := by
    rcases h with h | ⟨-, h⟩
    · refine decode_cons_of_not_high ?_
      simp only [isLow, isHigh, Bool.and_eq_true, decide_eq_true_eq,
        Bool.and_eq_false_iff, decide_eq_false_iff_not] at h ⊢
      omega
    · refine decode_cons_of_not_pair ?_
      intro x hx hp
      rw [h x hx] at hp
      cases hp.2
  intro hs
  rw [hdec] at hs
  have hscalar := (scalars_cons.mp hs).1
  rcases h with h | ⟨h, -⟩
  · rw [isLow_scalar hscalar] at h; cases h
  · rw [isHigh_scalar hscalar] at h; cases h

theorem finish_pushChar (out : List ℕ) (us : Option (List ℕ)) (c : ℕ) (v : List ℕ) :
    finish (pushChar out us c).1 (pushChar out us c).2 v = finish out us (encode c ++ v) := by
  cases us with
  | some u => simp only [finish, pushChar, append_assoc]
  | none =>
    simp only [finish, pushChar, units_append, units_cons, units_nil, append_nil, append_assoc]

theorem scalars_pushChar (hout : Scalars out) (hc : Utf8.IsScalar c) (us : Option (List ℕ)) :
    Scalars (pushChar out us c).1 := by
  cases us with
  | some u => exact hout
  | none => exact scalars_append.mpr ⟨hout, scalars_cons.mpr ⟨hc, Scalars.nil⟩⟩

theorem finish_pushUnit (hout : Scalars out) (us : Option (List ℕ)) {unit : ℕ}
    (h : LoneBefore unit v) :
    finish (pushUnit out us unit).1 (pushUnit out us unit).2 v = finish out us (unit :: v) := by
  cases us with
  | some u => simp [finish, pushUnit, append_assoc]
  | none =>
    have hns : ¬ Scalars (Utf16.decode (units out ++ unit :: v)) := by
      rw [decode_units_append hout, scalars_append]
      exact fun hs => not_scalars_of_loneBefore h hs.2
    simp only [finish, pushUnit, Option.getD_none, canon, if_neg hns, append_assoc,
      singleton_append]

theorem finish_pushChunk (out : List ℕ) (us : Option (List ℕ)) (chunk v : List ℕ) :
    finish (pushChunk out us chunk).1 (pushChunk out us chunk).2 v
      = finish out us (units chunk ++ v) := by
  cases us with
  | some u => simp only [finish, pushChunk, append_assoc]
  | none => simp only [finish, pushChunk, units_append, append_assoc]

theorem scalars_pushChunk {chunk : List ℕ} (hout : Scalars out) (hchunk : Scalars chunk)
    (us : Option (List ℕ)) : Scalars (pushChunk out us chunk).1 := by
  cases us with
  | some u => exact hout
  | none => exact scalars_append.mpr ⟨hout, hchunk⟩

theorem built_eq (hout : Scalars out) (us : Option (List ℕ)) : built out us = finish out us [] := by
  cases us with
  | some u => simp only [built, finish, append_nil]
  | none => simp only [built, finish, append_nil, canon, decode_units hout, if_pos hout]

/-! ## Steps of the cursor -/

theorem skipWs_stands (h : Stands bytes p.pos t) :
    Stands bytes (skipWs bytes p).pos (Json.skipWs t) :=
  h.skipWhile (v := false) fun b hb => by
    simp only [isWs, Bool.or_eq_false_iff, beq_eq_false_iff_ne]
    omega

/-- An ASCII byte under the cursor is a character of the text. -/
theorem stands_head {i : ℕ} (h : Stands bytes i t) (hb : b < 0x80) (hget : bytes[i]? = some b) :
    ∃ t', t = b :: t' ∧ Stands bytes (i + 1) t' := by
  have hhead := (h.getElem?_eq hb).mp hget
  obtain ⟨t', rfl⟩ : ∃ t', t = b :: t' := List.head?_eq_some_iff.mp hhead
  exact ⟨t', rfl, h.advance_ascii hb⟩

theorem hexDigit?_lt {n : ℕ} (h : hexDigit? d = some n) : d < 0x80 ∧ n < 16 := by
  rw [hexDigit?] at h
  split_ifs at h <;> cases h <;> constructor <;> omega

/-! ## Escapes -/

theorem hex4?_lt {u : ℕ} (h : hex4? a b c d = some u) : u < 0x10000 := by
  unfold hex4? at h
  split at h
  next w x y z ha hb hc hd =>
    have h1 := hexDigit?_lt ha
    have h2 := hexDigit?_lt hb
    have h3 := hexDigit?_lt hc
    have h4 := hexDigit?_lt hd
    cases h
    omega
  · cases h

theorem slice_four {i : ℕ} (h : bytes.drop i = a :: b :: c :: d :: t) :
    i + 4 ≤ bytes.length ∧ slice bytes i (i + 4) = [a, b, c, d] := by
  have hlen := congrArg List.length h
  simp only [length_drop, length_cons] at hlen
  refine ⟨by omega, ?_⟩
  rw [slice, h, Nat.add_sub_cancel_left]
  rfl

theorem hex_fold {u : ℕ} :
    [a, b, c, d].foldlM (fun value d => (hexDigit? d).map fun n => (value * 16 + n) % 65536) 0
      = some u ↔ hex4? a b c d = some u := by
  unfold hex4?
  simp only [foldlM_cons, foldlM_nil]
  cases ha : hexDigit? a with
  | none => simp
  | some w =>
    cases hb : hexDigit? b with
    | none => simp
    | some x =>
      cases hc : hexDigit? c with
      | none => simp
      | some y =>
        cases hd : hexDigit? d with
        | none => simp
        | some z =>
          have h1 := hexDigit?_lt ha
          have h2 := hexDigit?_lt hb
          have h3 := hexDigit?_lt hc
          have h4 := hexDigit?_lt hd
          simp only [Option.map_some, Option.bind_eq_bind, Option.bind_some, Option.pure_def,
            Option.some.injEq]
          constructor <;> intro h <;> omega

theorem hex4_ok {u : ℕ}
    (h : Stands bytes p.pos (a :: b :: c :: d :: t)) (hu : hex4? a b c d = some u) :
    hex4 bytes p = .ok (u, { p with pos := p.pos + 4 }) ∧ Stands bytes (p.pos + 4) t := by
  have hlt : a < 0x80 ∧ b < 0x80 ∧ c < 0x80 ∧ d < 0x80 := by
    unfold hex4? at hu
    split at hu
    next ha hb hc hd =>
      exact ⟨(hexDigit?_lt ha).1, (hexDigit?_lt hb).1, (hexDigit?_lt hc).1, (hexDigit?_lt hd).1⟩
    · cases hu
  obtain ⟨ha, hb, hc, hd⟩ := hlt
  refine ⟨?_, (((h.advance_ascii ha).advance_ascii hb).advance_ascii hc).advance_ascii hd⟩
  have hdrop := h.drop_eq
  simp only [Utf8.encodeAll_cons, encode_ascii ha, encode_ascii hb, encode_ascii hc,
    encode_ascii hd, singleton_append] at hdrop
  obtain ⟨hle, hslice⟩ := slice_four hdrop
  rw [hex4, if_pos hle, hslice, hex_fold.mpr hu]

/-- Four ASCII bytes are four characters. -/
theorem stands_four {i : ℕ} (h : Stands bytes i t)
    (hs : slice bytes i (i + 4) = [a, b, c, d]) (ha : a < 0x80) (hb : b < 0x80) (hc : c < 0x80)
    (hd : d < 0x80) : ∃ t', t = a :: b :: c :: d :: t' := by
  have hget : ∀ k < 4, bytes[i + k]? = [a, b, c, d][k]? := by
    intro k hk
    rw [← hs, getElem?_slice, if_pos (by omega)]
  obtain ⟨t1, rfl, h1⟩ := stands_head h ha (hget 0 (by omega))
  obtain ⟨t2, rfl, h2⟩ := stands_head h1 hb (hget 1 (by omega))
  obtain ⟨t3, rfl, h3⟩ := stands_head h2 hc (hget 2 (by omega))
  obtain ⟨t4, rfl, -⟩ := stands_head h3 hd (hget 3 (by omega))
  exact ⟨t4, rfl⟩

theorem hex4_bad (h : Stands bytes p.pos t)
    (hbad : ∀ a b c d t' u, t = a :: b :: c :: d :: t' → hex4? a b c d ≠ some u) :
    hex4 bytes p = jsonError := by
  unfold hex4
  split_ifs with hle
  · -- four bytes that fold to a number are four hexadecimal digits
    obtain ⟨a, b, c, d, hs⟩ : ∃ a b c d, slice bytes p.pos (p.pos + 4) = [a, b, c, d] :=
      length_eq_four.mp (by rw [length_slice hle]; omega)
    rw [hs]
    split
    next u hfold =>
      have hu := hex_fold.mp hfold
      have hu' := hu
      unfold hex4? at hu'
      split at hu'
      next ha hb hc hd =>
        obtain ⟨t', rfl⟩ := stands_four h hs (hexDigit?_lt ha).1 (hexDigit?_lt hb).1
          (hexDigit?_lt hc).1 (hexDigit?_lt hd).1
        exact absurd hu (hbad a b c d t' u rfl)
      · cases hu'
    · rfl
  · rfl

/-- Only a unicode escape starts a string with a low surrogate. -/
theorem readChars_head_low {r : List ℕ} {x : ℕ} (ht : Scalars t)
    (h : readChars t = some (v, r)) (hx : v.head? = some x) (hlow : isLow x = true) :
    ∃ a b c d t', t = backslash :: letterU :: a :: b :: c :: d :: t' ∧
      hex4? a b c d = some x := by
  obtain ⟨body, rfl, hchars⟩ := readChars_sound h
  cases hchars with
  | nil => cases hx
  | @raw c t us hc _ =>
    -- the units of a character never start with a low surrogate
    have hscalar : Scalars [c] := by
      intro y hy
      rw [mem_singleton] at hy
      exact ht y (by rw [hy]; simp)
    have hhead : (units [c]).head? = some x := by
      obtain ⟨u, us', hu⟩ := exists_cons_of_ne_nil (encode_ne_nil c)
      rw [hu] at hx
      rw [units_cons, hu]
      exact hx
    rw [isLow_head_units hscalar hhead] at hlow
    cases hlow
  | @simple c y t us hc _ =>
    have hy : y = x := Option.some.inj hx
    have := simpleEscape?_lt hc
    simp only [isLow, Bool.and_eq_true, decide_eq_true_eq] at hlow
    omega
  | @unicode a b c d u t us hu _ =>
    have hux : u = x := Option.some.inj hx
    exact ⟨a, b, c, d, t ++ quote :: r, rfl, by rw [hu, hux]⟩

/-- **One escape read**: what it adds to the units, the text after it, and
what the loop of `string` keeps of it. -/
structure Escape (bytes : Bytes) (t : List ℕ) (out : List ℕ) (us : Option (List ℕ)) (left : ℕ)
    (state : List ℕ × Option (List ℕ)) (q : Cursor) (t' : List ℕ) (read : List ℕ) : Prop where
  stands : Stands bytes q.pos t'
  left_eq : q.left = left
  shorter : t'.length < t.length
  units_eq : readChars (backslash :: letterU :: t) = (readChars t').map fun r => (read ++ r.1, r.2)
  scalars : Scalars out → Scalars state.1
  finish_eq : Scalars out → ∀ v r, readChars t' = some (v, r) →
    finish state.1 state.2 v = finish out us (read ++ v)

theorem escape_pushUnit {t' : List ℕ} {unit : ℕ}
    {us : Option (List ℕ)} (ht : t = a :: b :: c :: d :: t') (hu : hex4? a b c d = some unit)
    (hst : Stands bytes (p.pos + 4) t')
    (hlone : ∀ v r, readChars t' = some (v, r) → LoneBefore unit v) :
    Escape bytes t out us p.left (pushUnit out us unit) { p with pos := p.pos + 4 } t' [unit] := by
  refine ⟨hst, rfl, by rw [ht]; simp only [length_cons]; omega, ?_, fun h => h, ?_⟩
  · rw [ht, readChars_unicode hu]
    rfl
  · intro hout v r hv
    exact finish_pushUnit hout us (hlone v r hv)

/-- A high surrogate stands alone unless the escape of a low one follows. -/
theorem loneBefore_of_high {unit : ℕ} (ht : Scalars t) (hhigh : isHigh unit = true)
    (hnext : ∀ a b c d t' x, t = backslash :: letterU :: a :: b :: c :: d :: t' →
      hex4? a b c d = some x → isLow x = false) :
    ∀ v r, readChars t = some (v, r) → LoneBefore unit v := by
  intro v r hv
  refine .inr ⟨hhigh, fun x hx => ?_⟩
  by_contra hlow
  rw [Bool.not_eq_false] at hlow
  obtain ⟨a, b, c, d, t', rfl, hu⟩ := readChars_head_low ht hv hx hlow
  rw [hnext a b c d t' x rfl hu] at hlow
  cases hlow

theorem paired_iff {i : ℕ} (h : Stands bytes i t) :
    (i + 2 ≤ bytes.length ∧ slice bytes i (i + 2) = [backslash, letterU]) ↔
      ∃ t', t = backslash :: letterU :: t' := by
  have hb : backslash < 0x80 := by decide
  have hu : letterU < 0x80 := by decide
  constructor
  · rintro ⟨-, hs⟩
    have hget : ∀ k < 2, bytes[i + k]? = [backslash, letterU][k]? := by
      intro k hk
      rw [← hs, getElem?_slice, if_pos (by omega)]
    obtain ⟨t1, rfl, h1⟩ := stands_head h hb (hget 0 (by omega))
    obtain ⟨t2, rfl, -⟩ := stands_head h1 hu (hget 1 (by omega))
    exact ⟨t2, rfl⟩
  · rintro ⟨t', rfl⟩
    have hdrop := h.drop_eq
    simp only [Utf8.encodeAll_cons, encode_ascii hb, encode_ascii hu, singleton_append] at hdrop
    refine ⟨((h.advance_ascii hb).advance_ascii hu).le_length, ?_⟩
    rw [slice, hdrop, Nat.add_sub_cancel_left]
    rfl

theorem lowHalf_pair {q : Cursor} {first second : ℕ} (out : List ℕ) (us : Option (List ℕ))
    (h : hex4 bytes ⟨p.pos + 2, p.left⟩ = .ok (second, q)) (hhigh : isHigh first = true)
    (hlow : isLow second = true) :
    lowHalf bytes out us first p = .ok (pushChar out us (pair first second), q) := by
  have hc : fromU32 (pair first second) = some (pair first second) := by
    rw [fromU32, if_pos (isScalar_pair hhigh hlow)]
  rw [lowHalf, h]
  simp only
  rw [if_pos hlow, hc]

theorem lowHalf_alone {q : Cursor} {first second : ℕ} (out : List ℕ) (us : Option (List ℕ))
    (h : hex4 bytes ⟨p.pos + 2, p.left⟩ = .ok (second, q)) (hlow : ¬ isLow second = true) :
    lowHalf bytes out us first p = .ok (pushUnit out us first, p) := by
  rw [lowHalf, h]
  simp only
  rw [if_neg hlow]

/-- After a high surrogate and the `\u` of another escape. -/
theorem lowHalf_spec {t' : List ℕ} {first : ℕ}
    (ht : t = a :: b :: c :: d :: backslash :: letterU :: t')
    (hu : hex4? a b c d = some first) (hhigh : isHigh first = true)
    (hst : Stands bytes (p.pos + 4) (backslash :: letterU :: t')) (out : List ℕ)
    (us : Option (List ℕ)) :
    (lowHalf bytes out us first { p with pos := p.pos + 4 } = jsonError ∧
      readChars (backslash :: letterU :: t) = none) ∨
    ∃ state q t' read, lowHalf bytes out us first { p with pos := p.pos + 4 } = .ok (state, q) ∧
      Escape bytes t out us p.left state q t' read := by
  have hst2 : Stands bytes (p.pos + 4 + 2) t' :=
    (hst.advance_ascii (by decide)).advance_ascii (by decide)
  by_cases hgood : ∃ a b c d t'' u, t' = a :: b :: c :: d :: t'' ∧ hex4? a b c d = some u
  · obtain ⟨a', b', c', d', t'', second, rfl, hu2⟩ := hgood
    obtain ⟨hhex, hst3⟩ := hex4_ok (p := ⟨p.pos + 4 + 2, p.left⟩) hst2 hu2
    right
    by_cases hlow : isLow second = true
    · -- a pair: one character
      have hscalar : Utf8.IsScalar (pair first second) := isScalar_pair hhigh hlow
      refine ⟨_, _, t'', [first, second], lowHalf_pair out us hhex hhigh hlow, hst3, rfl,
        ?_, ?_, ?_, ?_⟩
      · rw [ht]; simp only [length_cons]; omega
      · rw [ht, readChars_unicode hu, readChars_unicode hu2]
        cases readChars t'' <;> rfl
      · exact fun hout => scalars_pushChar hout hscalar us
      · intro _ v r _
        rw [finish_pushChar, encode_pair hhigh hlow]
    · -- the second escape is read again on its own
      refine ⟨_, _, _, [first], lowHalf_alone out us hhex hlow, escape_pushUnit ht hu hst ?_⟩
      refine loneBefore_of_high hst.scalars hhigh fun a b c d t4 x heq hx => ?_
      simp only [List.cons.injEq, true_and] at heq
      obtain ⟨rfl, rfl, rfl, rfl, rfl⟩ := heq
      rw [hu2] at hx
      cases hx
      simpa using hlow
  · have hbad : ∀ a b c d t'' u, t' = a :: b :: c :: d :: t'' → hex4? a b c d ≠ some u :=
      fun a b c d t'' u ht hu => hgood ⟨a, b, c, d, t'', u, ht, hu⟩
    left
    refine ⟨?_, ?_⟩
    · unfold lowHalf
      rw [hex4_bad (p := ⟨p.pos + 4 + 2, p.left⟩) hst2 hbad]
      rfl
    · rw [ht, readChars_unicode hu, readChars_unicode_bad hbad]
      rfl

/-- **A `\u` escape** fails exactly where the reader does. -/
theorem unicodeEscape_spec (h : Stands bytes p.pos t) (out : List ℕ) (us : Option (List ℕ)) :
    (unicodeEscape bytes out us p = jsonError ∧ readChars (backslash :: letterU :: t) = none) ∨
    ∃ state q t' read, unicodeEscape bytes out us p = .ok (state, q) ∧
      Escape bytes t out us p.left state q t' read := by
  by_cases hgood : ∃ a b c d t' u, t = a :: b :: c :: d :: t' ∧ hex4? a b c d = some u
  swap
  · have hbad : ∀ a b c d t' u, t = a :: b :: c :: d :: t' → hex4? a b c d ≠ some u :=
      fun a b c d t' u ht hu => hgood ⟨a, b, c, d, t', u, ht, hu⟩
    left
    refine ⟨?_, readChars_unicode_bad hbad⟩
    rw [unicodeEscape, hex4_bad h hbad]
    rfl
  obtain ⟨a, b, c, d, t', first, ht, hu⟩ := hgood
  obtain ⟨hhex, hst⟩ := hex4_ok (ht ▸ h) hu
  have hlt := hex4?_lt hu
  unfold unicodeEscape
  rw [hhex]
  simp only
  by_cases hhigh : isHigh first = true
  · rw [if_pos hhigh]
    by_cases hpair : ∃ t2, t' = backslash :: letterU :: t2
    · rw [if_pos ((paired_iff hst).mpr hpair)]
      obtain ⟨t2, rfl⟩ := hpair
      exact lowHalf_spec ht hu hhigh hst out us
    · rw [if_neg (fun hp => hpair ((paired_iff hst).mp hp))]
      right
      refine ⟨_, _, _, [first], rfl, escape_pushUnit ht hu hst ?_⟩
      exact loneBefore_of_high hst.scalars hhigh fun a b c d t4 x heq _ => absurd ⟨_, heq⟩ hpair
  · rw [if_neg hhigh]
    by_cases hlow : isLow first = true
    · rw [if_pos hlow]
      right
      exact ⟨_, _, _, [first], rfl, escape_pushUnit ht hu hst fun _ _ _ => .inl hlow⟩
    · rw [if_neg hlow]
      have hscalar : Utf8.IsScalar first := by
        simp only [isHigh, isLow, Bool.and_eq_true, decide_eq_true_eq] at hhigh hlow
        unfold Utf8.IsScalar
        omega
      have hc : fromU32 first = some first := if_pos hscalar
      rw [hc]
      right
      refine ⟨_, _, t', [first], rfl, hst, rfl, ?_, ?_, ?_, ?_⟩
      · rw [ht]; simp only [length_cons]; omega
      · rw [ht, readChars_unicode hu]
        rfl
      · exact fun hout => scalars_pushChar hout hscalar us
      · intro _ v r _
        rw [finish_pushChar, encode, if_pos hlt]

/-- A string of the grammar denotes code units. -/
theorem chars_lt {body : List ℕ} (hchars : Chars body v) (hbody : Scalars body) :
    ∀ u ∈ v, u < 0x10000 := by
  induction hchars with
  | nil => simp
  | @raw c t us _ _ ih =>
    obtain ⟨hc, ht⟩ := scalars_cons.mp hbody
    refine forall_mem_append.mpr ⟨fun u hu => ?_, ih ht⟩
    refine units_lt (t := [c]) (fun x hx => ?_) u (by simpa using hu)
    rw [mem_singleton.mp hx]
    exact lt_of_isScalar hc
  | simple hx _ ih =>
    have hlt := simpleEscape?_lt hx
    refine forall_mem_cons.mpr ⟨by omega, ih ?_⟩
    exact (scalars_cons.mp (scalars_cons.mp hbody).2).2
  | unicode hu _ ih =>
    refine forall_mem_cons.mpr ⟨hex4?_lt hu, ih ?_⟩
    exact fun x hx => hbody x (by simp [hx])

theorem readChars_lt {r : List ℕ} (ht : Scalars t) (h : readChars t = some (v, r)) :
    ∀ u ∈ v, u < 0x10000 := by
  obtain ⟨body, rfl, hchars⟩ := readChars_sound h
  exact chars_lt hchars (scalars_append.mp ht).1

/-! ## The loop -/

theorem not_endsChunk_iff (hc : Utf8.IsScalar c) : (!endsChunk c) = true ↔ isRaw c = true := by
  have hlt := lt_of_isScalar hc
  simp only [endsChunk, isRaw, Bool.not_eq_true', Bool.or_eq_false_iff, beq_eq_false_iff_ne,
    decide_eq_false_iff_not, Bool.and_eq_true, decide_eq_true_eq, bne_iff_ne]
  constructor
  · rintro ⟨⟨h1, h2⟩, h3⟩
    exact ⟨⟨⟨by omega, hlt⟩, h1⟩, h2⟩
  · rintro ⟨⟨⟨h3, -⟩, h1⟩, h2⟩
    exact ⟨⟨h1, h2⟩, by omega⟩

/-- Where a run of plain text stops. -/
theorem chunk_spec (h : Stands bytes p.pos t) :
    ∃ chunk rest, t = chunk ++ rest ∧ (∀ c ∈ chunk, isRaw c = true) ∧ Scalars chunk ∧
      (∀ c ∈ rest.head?, isRaw c = false) ∧
      Stands bytes (skipWhile (fun b => !endsChunk b) bytes p.pos) rest ∧
      Utf8.strSlice bytes p.pos (skipWhile (fun b => !endsChunk b) bytes p.pos) = some chunk := by
  have hp : ∀ b, 0x80 ≤ b → (!endsChunk b) = true := by
    intro b hb
    simp only [endsChunk, quote, backslash, Bool.not_eq_true', Bool.or_eq_false_iff,
      beq_eq_false_iff_ne, decide_eq_false_iff_not]
    omega
  have hsplit : t = t.takeWhile (fun b => !endsChunk b) ++ t.dropWhile (fun b => !endsChunk b) :=
    takeWhile_append_dropWhile.symm
  have hs := h.scalars
  rw [hsplit, scalars_append] at hs
  refine ⟨_, _, hsplit, ?_, hs.1, ?_, h.skipWhile hp, ?_⟩
  · intro c hc
    have hin := mem_takeWhile_imp (p := fun b => !endsChunk b) hc
    exact (not_endsChunk_iff (hs.1 c hc)).mp hin
  · intro c hc
    have hne : t.dropWhile (fun b => !endsChunk b) ≠ [] := fun hnil => by rw [hnil] at hc; cases hc
    have hstop := head_dropWhile_not (fun b => !endsChunk b) hne
    have hhead := List.head?_eq_some_head hne
    rw [Option.mem_def, hhead, Option.some.injEq] at hc
    rw [hc] at hstop
    have hscalar := hs.2 c (by rw [← hc]; exact head_mem hne)
    rw [← Bool.not_eq_true, ← not_endsChunk_iff hscalar, hstop]
    simp
  · rw [h.skipWhile_eq hp]
    exact Utf8.strSlice_eq (by rw [← hsplit]; exact h)

/-- The byte under the cursor tells an ASCII character from the others. -/
theorem stands_byte {i : ℕ} (h : Stands bytes i (c :: t)) :
    (c < 0x80 ∧ bytes[i]? = some c) ∨ (0x80 ≤ c ∧ ∃ b, bytes[i]? = some b ∧ 0x80 ≤ b) := by
  by_cases hc : c < 0x80
  · exact .inl ⟨hc, (h.getElem?_eq hc).mpr rfl⟩
  · refine .inr ⟨by omega, ?_⟩
    cases hb : bytes[i]? with
    | none => exact absurd (h.getElem?_eq_none.mp hb) (by simp)
    | some b =>
      refine ⟨b, rfl, ?_⟩
      by_contra hlt
      have hhead := (h.getElem?_eq (by omega)).mp hb
      cases hhead
      omega

theorem simpleEscape?_ge (h : 0x80 ≤ c) : simpleEscape? c = none := by
  unfold simpleEscape?
  split_ifs <;> first | omega | rfl

/-- **The strings of a frame.** The induction is on the rounds; a round
reads a run of plain text and one escape. -/
theorem stringLoop_spec : ∀ (fuel : ℕ) {p : Cursor} {t : List ℕ} (out : List ℕ)
    (us : Option (List ℕ)), Stands bytes p.pos t → t.length < fuel → Scalars out →
    (stringLoop bytes fuel out us p = jsonError ∧ readChars t = none) ∨
    ∃ v r q, stringLoop bytes fuel out us p = .ok (finish out us v, q) ∧
      readChars t = some (v, r) ∧ Stands bytes q.pos r ∧ q.left = p.left := by
  intro fuel
  induction fuel with
  | zero => intro p t out us _ hlen; omega
  | succ fuel ih =>
    intro p t out us h hlen hout
    obtain ⟨chunk, rest, rfl, hraw, hscalars, hhead, hst, hslice⟩ := chunk_spec h
    rw [length_append] at hlen
    have hout' := scalars_pushChunk hout hscalars us
    rw [stringLoop, hslice, readChars_raw hraw]
    simp only
    generalize skipWhile (fun b => !endsChunk b) bytes p.pos = stop at hst ⊢
    rcases rest with _ | ⟨c, rest⟩
    · -- the end of the input
      have hnone := hst.getElem?_eq_none.mpr rfl
      left
      rw [hnone]
      exact ⟨rfl, rfl⟩
    have hc := hhead c rfl
    have hfinish := fun v => finish_pushChunk out us chunk v
    by_cases hq : c = quote
    · -- the closing quote
      subst hq
      have hget : bytes[stop]? = some quote := (hst.getElem?_eq (by decide)).mpr rfl
      right
      rw [if_pos hget, built_eq hout', hfinish, readChars_quote]
      exact ⟨_, rest, _, rfl, rfl, hst.advance_ascii (by decide), rfl⟩
    by_cases hb : c = backslash
    · subst hb
      have hget : bytes[stop]? = some backslash := (hst.getElem?_eq (by decide)).mpr rfl
      have hst1 := hst.advance_ascii (by decide)
      rw [if_neg (by rw [hget]; decide), if_pos hget]
      rcases rest with _ | ⟨e, rest⟩
      · left
        rw [hst1.getElem?_eq_none.mpr rfl]
        exact ⟨rfl, rfl⟩
      simp only [length_cons] at hlen
      rcases stands_byte hst1 with ⟨he, hbyte⟩ | ⟨he, b, hbyte, hb⟩
      · have hst2 := hst1.advance_ascii he
        rw [hbyte]
        simp only
        by_cases hu : e = letterU
        · subst hu
          rw [if_pos rfl]
          rcases unicodeEscape_spec (p := ⟨stop + 2, p.left⟩) hst2 (pushChunk out us chunk).1
            (pushChunk out us chunk).2 with ⟨herr, hnone⟩ | ⟨state, q, t', read, hok, hesc⟩
          · left
            rw [herr, hnone]
            exact ⟨rfl, rfl⟩
          · have hshort := hesc.shorter
            rw [hok, hesc.units_eq]
            simp only
            rcases ih state.1 state.2 hesc.stands (by omega) (hesc.scalars hout') with
              ⟨herr, hnone⟩ | ⟨v, r, q', hloop, hread, hst', hleft⟩
            · left
              rw [herr, hnone]
              exact ⟨rfl, rfl⟩
            · right
              rw [hloop, hread, hesc.finish_eq hout' v r hread, hfinish]
              exact ⟨_, r, q', rfl, rfl, hst', hleft.trans hesc.left_eq⟩
        · rw [if_neg hu]
          cases hx : simpleEscape? e with
          | none =>
            left
            rw [readChars_simple_bad hu hx]
            exact ⟨rfl, rfl⟩
          | some x =>
            have hlt := simpleEscape?_lt hx
            have hscalar : Utf8.IsScalar x := Utf8.isScalar_of_lt hlt
            have henc : encode x = [x] := by
              rw [encode, if_pos (by omega)]
            rw [readChars_simple hx]
            simp only
            rcases ih (p := ⟨stop + 2, p.left⟩) _ _ hst2 (by omega)
              (scalars_pushChar hout' hscalar (pushChunk out us chunk).2) with
              ⟨herr, hnone⟩ | ⟨v, r, q', hloop, hread, hst', hleft⟩
            · left
              rw [herr, hnone]
              exact ⟨rfl, rfl⟩
            · right
              rw [hloop, hread, finish_pushChar, hfinish, henc]
              exact ⟨_, r, q', rfl, rfl, hst', hleft⟩
      · -- a character outside ASCII is no escape
        left
        have hne : e ≠ letterU := by rw [letterU]; omega
        have hne' : b ≠ letterU := by rw [letterU]; omega
        rw [hbyte]
        simp only
        rw [if_neg hne', simpleEscape?_ge hb, readChars_simple_bad hne (simpleEscape?_ge he)]
        exact ⟨rfl, rfl⟩
    · -- a control character
      have hlt : c < 0x80 := by
        have hscalar := lt_of_isScalar (hst.scalars c (by simp))
        by_contra hge
        have : isRaw c = true := by
          simp only [isRaw, Bool.and_eq_true, decide_eq_true_eq, bne_iff_ne]
          exact ⟨⟨⟨by omega, hscalar⟩, hq⟩, hb⟩
        rw [this] at hc
        cases hc
      have hget : bytes[stop]? = some c := (hst.getElem?_eq hlt).mpr rfl
      left
      rw [hget, if_neg (fun h => hq (Option.some.inj h)), if_neg (fun h => hb (Option.some.inj h)),
        readChars_control hq hb hc]
      exact ⟨rfl, rfl⟩

/-- **`string` reads what the reader reads.** -/
theorem string_eq (h : Stands bytes p.pos t) : (string bytes p = jsonError ∧ readChars t = none) ∨
    ∃ v r q, string bytes p = .ok (canon v, q) ∧ readChars t = some (v, r) ∧
      Stands bytes q.pos r ∧ q.left = p.left := by
  have hlen : t.length ≤ bytes.length := by
    have hdrop := congrArg List.length h.drop_eq
    rw [length_drop] at hdrop
    have := Utf8.length_encodeAll_le t
    omega
  exact stringLoop_spec (bytes.length + 1) [] none h (by omega) Scalars.nil

end Pydeno.Wire
