import Pydeno.Lib.Cursor

/-!
# UTF-8

Text is a list of code points and UTF-8 the concatenation of the encodings
of its characters. `fromUtf8` reads bytes back and accepts exactly the
encodings of lists of scalar values (`fromUtf8_eq_some_iff`). A byte cursor
that stands at the start of a character is described by what follows it:
the bytes from there on are the encoding of the text that is left. Scanners
that step over bytes keep such a cursor on a boundary as long as they stop
at ASCII characters only (`drop_skipWhile_encodeAll`), and a slice between
two boundaries is the text between them (`strSlice_eq`).
-/

namespace Pydeno.Utf8

open List

-- one instance decides membership in every list of texts
instance lawfulBEq : LawfulBEq (List ℕ) := inferInstance

/-- A Unicode scalar value: a code point that is no surrogate. -/
def IsScalar (c : ℕ) : Prop := c < 0xD800 ∨ (0xE000 ≤ c ∧ c < 0x110000)

instance (c : ℕ) : Decidable (IsScalar c) := inferInstanceAs (Decidable (_ ∨ _))

/-- A text of scalar values. -/
def Scalars (t : List ℕ) : Prop := ∀ c ∈ t, IsScalar c

instance (t : List ℕ) : Decidable (Scalars t) := inferInstanceAs (Decidable (∀ c ∈ t, IsScalar c))

theorem Scalars.nil : Scalars [] := by simp [Scalars]

theorem scalars_cons {c : ℕ} {t : List ℕ} : Scalars (c :: t) ↔ IsScalar c ∧ Scalars t :=
  forall_mem_cons

theorem scalars_append {t u : List ℕ} : Scalars (t ++ u) ↔ Scalars t ∧ Scalars u :=
  forall_mem_append

theorem isScalar_of_lt {c : ℕ} (h : c < 0x80) : IsScalar c := .inl (by omega)

/-- The bytes of one code point. -/
def encode (c : ℕ) : List ℕ :=
  if c < 0x80 then [c]
  else if c < 0x800 then [0xC0 + c / 64, 0x80 + c % 64]
  else if c < 0x10000 then [0xE0 + c / 4096, 0x80 + c / 64 % 64, 0x80 + c % 64]
  else [0xF0 + c / 262144, 0x80 + c / 4096 % 64, 0x80 + c / 64 % 64, 0x80 + c % 64]

/-- **The UTF-8 of a text.** -/
def encodeAll (t : List ℕ) : List ℕ := t.flatMap encode

@[simp] theorem encodeAll_nil : encodeAll [] = [] := rfl

@[simp] theorem encodeAll_cons (c : ℕ) (t : List ℕ) : encodeAll (c :: t) = encode c ++ encodeAll t :=
  rfl

@[simp] theorem encodeAll_append (t u : List ℕ) : encodeAll (t ++ u) = encodeAll t ++ encodeAll u :=
  flatMap_append

theorem encode_ascii {c : ℕ} (h : c < 0x80) : encode c = [c] := if_pos h

theorem encodeAll_ascii {t : List ℕ} (h : ∀ c ∈ t, c < 0x80) : encodeAll t = t := by
  induction t with
  | nil => rfl
  | cons c t ih =>
    rw [encodeAll_cons, encode_ascii (h c (by simp)), ih fun x hx => h x (by simp [hx]),
      singleton_append]

theorem encode_ne_nil (c : ℕ) : encode c ≠ [] := by
  rw [encode]
  split_ifs <;> simp

/-- Every byte of a character outside ASCII is one too. -/
theorem le_of_mem_encode {c b : ℕ} (hc : 0x80 ≤ c) (hb : b ∈ encode c) : 0x80 ≤ b := by
  rw [encode, if_neg (by omega)] at hb
  split_ifs at hb <;> simp only [mem_cons, not_mem_nil, or_false] at hb <;> omega

theorem length_encodeAll_le (t : List ℕ) : t.length ≤ (encodeAll t).length := by
  induction t with
  | nil => exact le_refl 0
  | cons c t ih =>
    have hpos : 0 < (encode c).length := length_pos_iff.mpr (encode_ne_nil c)
    rw [encodeAll_cons, length_append, length_cons]
    omega

/-! ## Reading -/

/-- The number of bytes a first byte announces, and the code point they make. -/
def candidate : List ℕ → ℕ × ℕ
  | a :: b :: c :: d :: _ =>
      if a < 0x80 then (1, a)
      else if a < 0xE0 then (2, (a - 0xC0) * 64 + (b - 0x80))
      else if a < 0xF0 then (3, (a - 0xE0) * 4096 + (b - 0x80) * 64 + (c - 0x80))
      else (4, (a - 0xF0) * 262144 + (b - 0x80) * 4096 + (c - 0x80) * 64 + (d - 0x80))
  | [a, b, c] =>
      if a < 0x80 then (1, a)
      else if a < 0xE0 then (2, (a - 0xC0) * 64 + (b - 0x80))
      else (3, (a - 0xE0) * 4096 + (b - 0x80) * 64 + (c - 0x80))
  | [a, b] => if a < 0x80 then (1, a) else (2, (a - 0xC0) * 64 + (b - 0x80))
  | [a] => (1, a)
  | [] => (1, 0)

/-- The first character of a byte string and what follows it. The candidate
must be a scalar value and the bytes its one encoding: this refuses
surrogates, overlong forms, stray and missing continuation bytes. -/
def next (bytes : List ℕ) : Option (ℕ × List ℕ) :=
  let (n, c) := candidate bytes
  if IsScalar c ∧ bytes.take n = encode c then some (c, bytes.drop n) else none

theorem candidate_encode {c : ℕ} (hc : IsScalar c) (rest : List ℕ) :
    candidate (encode c ++ rest) = ((encode c).length, c) := by
  have hlt : c < 0x110000 := by rcases hc with h | h <;> omega
  rw [encode]
  split_ifs with h1 h2 h3
  · rcases rest with _ | ⟨x, _ | ⟨y, _ | ⟨z, rest⟩⟩⟩ <;> simp [candidate, h1]
  · rcases rest with _ | ⟨x, _ | ⟨y, rest⟩⟩ <;>
      simp only [candidate, cons_append, nil_append, length_cons, length_nil] <;>
      rw [if_neg (by omega)] <;> (try rw [if_pos (by omega)]) <;>
      simp only [Prod.mk.injEq, true_and] <;> omega
  · rcases rest with _ | ⟨x, rest⟩ <;>
      simp only [candidate, cons_append, nil_append, length_cons, length_nil] <;>
      rw [if_neg (by omega), if_neg (by omega)] <;> (try rw [if_pos (by omega)]) <;>
      simp only [Prod.mk.injEq, true_and] <;> omega
  · simp only [candidate, cons_append, nil_append, length_cons, length_nil]
    rw [if_neg (by omega), if_neg (by omega), if_neg (by omega)]
    simp only [Prod.mk.injEq, true_and]
    omega

/-- **One character**: what `next` reads is what was encoded. -/
theorem next_eq_some_iff {bytes rest : List ℕ} {c : ℕ} :
    next bytes = some (c, rest) ↔ IsScalar c ∧ bytes = encode c ++ rest := by
  constructor
  · intro h
    rw [next] at h
    simp only at h
    split at h
    next hc =>
      cases h
      refine ⟨hc.1, ?_⟩
      rw [← hc.2, take_append_drop]
    · cases h
  · rintro ⟨hc, rfl⟩
    have hcand := candidate_encode hc rest
    rw [next, hcand]
    simp [hc]

/-- The loop of `fromUtf8`; each round takes at least one byte. -/
def fromUtf8Loop : ℕ → List ℕ → Option (List ℕ)
  | _, [] => some []
  | 0, _ => none
  | fuel + 1, bytes =>
      match next bytes with
      | some (c, rest) => (fromUtf8Loop fuel rest).map (c :: ·)
      | none => none

/-- **The text of a byte string**, when it is valid UTF-8. -/
def fromUtf8 (bytes : List ℕ) : Option (List ℕ) := fromUtf8Loop bytes.length bytes

theorem fromUtf8Loop_sound : ∀ (fuel : ℕ) (bytes t : List ℕ), fromUtf8Loop fuel bytes = some t →
    Scalars t ∧ bytes = encodeAll t := by
  intro fuel
  induction fuel with
  | zero =>
    intro bytes t h
    cases bytes with
    | nil => cases h; exact ⟨Scalars.nil, rfl⟩
    | cons b bytes => cases h
  | succ fuel ih =>
    intro bytes t h
    cases hb : bytes with
    | nil => rw [hb] at h; cases h; exact ⟨Scalars.nil, rfl⟩
    | cons b bytes' =>
      rw [hb, fromUtf8Loop] at h
      · split at h
        next c rest hnext =>
          obtain ⟨u, hu, rfl⟩ := Option.map_eq_some_iff.mp h
          obtain ⟨hc, hbytes⟩ := next_eq_some_iff.mp hnext
          obtain ⟨hs, rfl⟩ := ih rest u hu
          exact ⟨scalars_cons.mpr ⟨hc, hs⟩, hbytes⟩
        · cases h
      · simp

theorem fromUtf8Loop_complete : ∀ (t : List ℕ) (fuel : ℕ), Scalars t → (encodeAll t).length ≤ fuel →
    fromUtf8Loop fuel (encodeAll t) = some t := by
  intro t
  induction t with
  | nil => intro fuel _ _; cases fuel <;> rfl
  | cons c t ih =>
    intro fuel hs hfuel
    obtain ⟨hc, hs⟩ := scalars_cons.mp hs
    have hpos : 0 < (encode c).length := length_pos_iff.mpr (encode_ne_nil c)
    rw [encodeAll_cons, length_append] at hfuel
    obtain ⟨fuel, rfl⟩ : ∃ n, fuel = n + 1 := ⟨fuel - 1, by omega⟩
    have hne : encodeAll (c :: t) ≠ [] := by
      rw [encodeAll_cons]
      exact append_ne_nil_of_left_ne_nil (encode_ne_nil c) _
    rw [fromUtf8Loop, encodeAll_cons, next_eq_some_iff.mpr ⟨hc, rfl⟩]
    · simp only
      rw [ih fuel hs (by omega)]
      rfl
    · exact fun h => hne h

/-- **UTF-8 reads back**: the accepted byte strings are the encodings of
lists of scalar values. -/
theorem fromUtf8_eq_some_iff {bytes t : List ℕ} :
    fromUtf8 bytes = some t ↔ Scalars t ∧ bytes = encodeAll t := by
  constructor
  · exact fromUtf8Loop_sound _ _ _
  · rintro ⟨hs, rfl⟩
    exact fromUtf8Loop_complete t _ hs (le_refl _)

theorem encodeAll_injective {t u : List ℕ} (ht : Scalars t) (hu : Scalars u)
    (h : encodeAll t = encodeAll u) : t = u := by
  have h1 := fromUtf8_eq_some_iff.mpr ⟨ht, rfl⟩
  have h2 := fromUtf8_eq_some_iff.mpr ⟨hu, h⟩
  exact Option.some.inj (h1.symm.trans h2)

/-! ## Decoding with replacements -/

/-- The second bytes that may follow a first one. -/
def secondOk (lead b : ℕ) : Bool :=
  if lead = 0xE0 then 0xA0 ≤ b && b < 0xC0
  else if lead = 0xED then 0x80 ≤ b && b < 0xA0
  else if lead = 0xF0 then 0x90 ≤ b && b < 0xC0
  else if lead = 0xF4 then 0x80 ≤ b && b < 0x90
  else 0x80 ≤ b && b < 0xC0

/-- How many bytes one replacement stands for: the longest beginning that some
character has, and one byte at least. -/
def subpart : List ℕ → ℕ
  | lead :: b :: c :: _ =>
    if 0xE0 ≤ lead && lead < 0xF5 && secondOk lead b then
      if 0xF0 ≤ lead && 0x80 ≤ c && c < 0xC0 then 3 else 2
    else 1
  | [lead, b] => if 0xE0 ≤ lead && lead < 0xF5 && secondOk lead b then 2 else 1
  | _ => 1

/-- Decoding that replaces what is no character. -/
def replaceLoop : ℕ → List ℕ → List ℕ
  | 0, _ => []
  | _ + 1, [] => []
  | fuel + 1, b :: bytes =>
    match next (b :: bytes) with
    | some (c, rest) => c :: replaceLoop fuel rest
    | none => 0xFFFD :: replaceLoop fuel ((b :: bytes).drop (subpart (b :: bytes)))

/-- `bytes.decode("utf-8", "replace")` -/
def decodeReplace (bytes : List ℕ) : List ℕ := replaceLoop bytes.length bytes

/-- ASCII is decoded to itself. -/
theorem decodeReplace_ascii {bytes : List ℕ} (h : ∀ b ∈ bytes, b < 0x80) :
    decodeReplace bytes = bytes := by
  unfold decodeReplace
  induction bytes with
  | nil => rfl
  | cons b bytes ih =>
    rw [forall_mem_cons] at h
    have hnext : next (b :: bytes) = some (b, bytes) :=
      next_eq_some_iff.2 ⟨isScalar_of_lt h.1, by rw [encode_ascii h.1, singleton_append]⟩
    rw [length_cons, replaceLoop, hnext]
    simp only [ih h.2]

/-! ## Cutting at a number of bytes -/

/-- Decoding that leaves out what is no character. -/
def ignoreLoop : ℕ → List ℕ → List ℕ
  | 0, _ => []
  | _ + 1, [] => []
  | fuel + 1, b :: bytes =>
    match next (b :: bytes) with
    | some (c, rest) => c :: ignoreLoop fuel rest
    | none => ignoreLoop fuel ((b :: bytes).drop (subpart (b :: bytes)))

/-- `bytes.decode("utf-8", "ignore")` -/
def decodeIgnore (bytes : List ℕ) : List ℕ := ignoreLoop bytes.length bytes

/-- **The longest beginning** of `t` that takes at most `limit` bytes. -/
structure Cut (limit : ℕ) (t head : List ℕ) : Prop where
  initial : head <+: t
  fits : (encodeAll head).length ≤ limit
  longest : ∀ p, p <+: t → (encodeAll p).length ≤ limit → p <+: head

section

variable {limit c : ℕ} {t u head : List ℕ}

theorem Cut.refl (h : (encodeAll t).length ≤ limit) : Cut limit t t :=
  ⟨prefix_refl t, h, fun _ hp _ => hp⟩

theorem Cut.eq (h : Cut limit t head) (hfits : (encodeAll t).length ≤ limit) : head = t :=
  h.initial.eq_of_length_le (h.longest t (prefix_refl t) hfits).length_le

/-- What follows a text that is too long does not matter. -/
theorem Cut.of_lt (h : Cut limit t head) (hlt : limit < (encodeAll t).length) :
    Cut limit (t ++ u) head := by
  refine ⟨h.initial.trans (prefix_append t u), h.fits, fun p hp hfits => ?_⟩
  rcases prefix_or_prefix_of_prefix hp (prefix_append t u) with hpt | ⟨q, rfl⟩
  · exact h.longest p hpt hfits
  · rw [encodeAll_append, length_append] at hfits
    omega

/-- A text that fits, followed by what is cut at the room that is left. -/
theorem Cut.append (ht : (encodeAll t).length ≤ limit)
    (h : Cut (limit - (encodeAll t).length) u head) : Cut limit (t ++ u) (t ++ head) := by
  refine ⟨(prefix_append_right_inj t).mpr h.initial, ?_, fun p hp hfits => ?_⟩
  · have := h.fits
    rw [encodeAll_append, length_append]
    omega
  · rcases prefix_or_prefix_of_prefix hp (prefix_append t u) with hpt | ⟨q, rfl⟩
    · exact hpt.trans (prefix_append t head)
    · rw [encodeAll_append, length_append] at hfits
      exact (prefix_append_right_inj t).mpr
        (h.longest q ((prefix_append_right_inj t).mp hp) (by omega))

/-- No character begins inside another one's bytes at their start. -/
theorem next_take (hc : IsScalar c) {n : ℕ} (hn : n < (encode c).length) :
    next ((encode c).take n) = none := by
  cases h : next ((encode c).take n) with
  | none => rfl
  | some r =>
    obtain ⟨hr, heq⟩ := next_eq_some_iff.mp h
    have hsame : next (encode c) = some (r.1, r.2 ++ (encode c).drop n) :=
      next_eq_some_iff.mpr ⟨hr, by rw [← append_assoc, ← heq, take_append_drop]⟩
    rw [next_eq_some_iff.mpr ⟨hc, (append_nil _).symm⟩] at hsame
    have hnil := (append_eq_nil_iff.mp (congrArg Prod.snd (Option.some.inj hsame)).symm).2
    exact absurd (drop_eq_nil_iff.mp hnil) (by omega)

/-- A character that is cut off is one thing to leave out. -/
theorem subpart_take (hc : IsScalar c) {n : ℕ} (h0 : 0 < n) (hn : n < (encode c).length) :
    subpart ((encode c).take n) = n := by
  have hlt : c < 0x110000 := by rcases hc with h | h <;> omega
  unfold IsScalar at hc
  unfold encode at hn ⊢
  split_ifs at hn ⊢ with h1 h2 h3 <;> simp only [length_cons, length_nil] at hn
  · omega
  · obtain rfl : n = 1 := by omega
    rfl
  · obtain rfl | rfl : n = 1 ∨ n = 2 := by omega
    · rfl
    · simp only [take_succ_cons, take_zero, subpart, secondOk]
      grind
  · obtain rfl | rfl | rfl : n = 1 ∨ n = 2 ∨ n = 3 := by omega
    · rfl
    · simp only [take_succ_cons, take_zero, subpart, secondOk]
      grind
    · simp only [take_succ_cons, take_zero, subpart, secondOk]
      grind

theorem ignoreLoop_nil (fuel : ℕ) : ignoreLoop fuel [] = [] := by cases fuel <;> rfl

/-- **Cutting bytes and decoding what is left** keeps the characters that are whole. -/
theorem cut_ignoreLoop : ∀ {t : List ℕ} {limit fuel : ℕ}, Scalars t →
    ((encodeAll t).take limit).length ≤ fuel →
    Cut limit t (ignoreLoop fuel ((encodeAll t).take limit)) := by
  intro t
  induction t with
  | nil =>
    intro limit fuel _ _
    rw [encodeAll_nil, take_nil, ignoreLoop_nil]
    exact Cut.refl (Nat.zero_le _)
  | cons c t ih =>
    intro limit fuel hs hfuel
    obtain ⟨hc, hs⟩ := scalars_cons.mp hs
    have hpos : 0 < (encode c).length := length_pos_iff.mpr (encode_ne_nil c)
    rw [encodeAll_cons, take_append] at hfuel ⊢
    by_cases hlimit : (encode c).length ≤ limit
    · rw [take_of_length_le hlimit] at hfuel ⊢
      rw [length_append] at hfuel
      obtain ⟨fuel, rfl⟩ : ∃ n, fuel = n + 1 := ⟨fuel - 1, by omega⟩
      obtain ⟨b, bs, hb⟩ := exists_cons_of_ne_nil (encode_ne_nil c)
      have hnext : next (encode c ++ (encodeAll t).take (limit - (encode c).length)) = _ :=
        next_eq_some_iff.mpr ⟨hc, rfl⟩
      have htail := @ih (limit - (encode c).length) fuel hs (by omega)
      have hone : encodeAll [c] = encode c := append_nil _
      rw [hb, cons_append] at hnext ⊢
      rw [ignoreLoop, hnext]
      exact Cut.append (t := [c]) (by rwa [hone]) (by rwa [hone, ← hb])
    · -- the character does not fit: the bytes left of it make none
      rw [Nat.sub_eq_zero_of_le (by omega), take_zero, append_nil] at hfuel ⊢
      have hnone : ignoreLoop fuel ((encode c).take limit) = [] := by
        rcases Nat.eq_zero_or_pos limit with rfl | h0
        · rw [take_zero, ignoreLoop_nil]
        · have hsub := subpart_take hc h0 (by omega)
          have hnext := next_take hc (n := limit) (by omega)
          rw [length_take] at hfuel
          obtain ⟨fuel, rfl⟩ : ∃ n, fuel = n + 1 := ⟨fuel - 1, by omega⟩
          obtain ⟨b, bs, hb⟩ := exists_cons_of_length_pos (l := (encode c).take limit)
            (by rw [length_take]; omega)
          rw [hb] at hsub hnext ⊢
          rw [ignoreLoop, hnext]
          simp only [hsub]
          rw [← hb, drop_take_self, ignoreLoop_nil]
      rw [hnone]
      refine ⟨ nil_prefix, Nat.zero_le _, fun p hp hfits => ?_⟩
      rcases prefix_cons_iff.mp hp with rfl | ⟨q, rfl, _⟩
      · exact nil_prefix
      · rw [encodeAll_cons, length_append] at hfits
        omega

theorem cut_decodeIgnore (hs : Scalars t) : Cut limit t (decodeIgnore ((encodeAll t).take limit)) :=
  cut_ignoreLoop hs (le_refl _)

end

/-! ## Boundaries -/

/-- A byte that continues a character. -/
def isContinuation (b : ℕ) : Bool := 0x80 ≤ b && b < 0xC0

/-- `text.is_char_boundary(i)`. -/
def isCharBoundary (bytes : List ℕ) (i : ℕ) : Bool :=
  i == 0 || i == bytes.length || holdsAt (fun b => !isContinuation b) bytes i

/-- `&text[i..j]`, which panics (`none`) past the end, when the ends cross,
and inside a character. -/
def strSlice (bytes : List ℕ) (i j : ℕ) : Option (List ℕ) :=
  if i ≤ j ∧ j ≤ bytes.length ∧ isCharBoundary bytes i ∧ isCharBoundary bytes j then
    fromUtf8 (slice bytes i j)
  else none

/-- **A cursor at a boundary**: from `i` on, the bytes are those of `t`. -/
structure Stands (bytes : List ℕ) (i : ℕ) (t : List ℕ) : Prop where
  le_length : i ≤ bytes.length
  drop_eq : bytes.drop i = encodeAll t
  scalars : Scalars t

variable {bytes : List ℕ} {i : ℕ} {t u : List ℕ}

theorem not_isContinuation_head {c b : ℕ} (hb : (encode c).head? = some b) (hc : IsScalar c) :
    isContinuation b = false := by
  have hlt : c < 0x110000 := by rcases hc with h | h <;> omega
  rw [encode] at hb
  rw [isContinuation, Bool.and_eq_false_iff]
  simp only [decide_eq_false_iff_not]
  split_ifs at hb <;> simp only [List.head?_cons, Option.some.injEq] at hb <;> omega

theorem Stands.isCharBoundary (h : Stands bytes i t) : isCharBoundary bytes i = true := by
  rw [Utf8.isCharBoundary, Bool.or_eq_true, Bool.or_eq_true, beq_iff_eq, beq_iff_eq]
  cases t with
  | nil =>
    have hlen := congrArg List.length h.drop_eq
    rw [length_drop, encodeAll_nil, length_nil] at hlen
    have := h.le_length
    exact .inl (.inr (by omega))
  | cons c t =>
    right
    obtain ⟨b, bs, hb⟩ := exists_cons_of_ne_nil (encode_ne_nil c)
    have hget : bytes[i]? = some b := by
      have h0 := congrArg List.head? h.drop_eq
      rw [List.head?_drop, encodeAll_cons, hb] at h0
      exact h0
    have hhead := not_isContinuation_head (b := b) (by rw [hb]; rfl) (scalars_cons.mp h.scalars).1
    rw [holdsAt_iff]
    exact ⟨b, hget, by rw [hhead]; rfl⟩

/-- Past a prefix of the text. -/
theorem Stands.advance (h : Stands bytes i (t ++ u)) :
    Stands bytes (i + (encodeAll t).length) u := by
  have hlen := congrArg List.length h.drop_eq
  rw [length_drop, encodeAll_append, length_append] at hlen
  have := h.le_length
  refine ⟨by omega, ?_, (scalars_append.mp h.scalars).2⟩
  rw [← drop_drop, h.drop_eq, encodeAll_append, drop_left]

/-- Where a cursor has come to, from what is left of the text. -/
theorem Stands.pos_eq {j : ℕ} (h : Stands bytes i (t ++ u)) (h' : Stands bytes j u) :
    j = i + (encodeAll t).length := by
  have hlen := congrArg List.length h.drop_eq
  have hlen' := congrArg List.length h'.drop_eq
  rw [length_drop, encodeAll_append, length_append] at hlen
  rw [length_drop] at hlen'
  have := h.le_length
  have := h'.le_length
  omega

/-- Past an ASCII character. -/
theorem Stands.advance_ascii {c : ℕ} (hc : c < 0x80) (h : Stands bytes i (c :: t)) :
    Stands bytes (i + 1) t := by
  have h' := advance (t := [c]) (u := t) h
  rwa [encodeAll_cons, encode_ascii hc] at h'

/-- The byte under the cursor, when it is ASCII, is the next character; and
otherwise the next character is no ASCII character. -/
theorem Stands.getElem?_eq (h : Stands bytes i t) {b : ℕ} (hb : b < 0x80) :
    bytes[i]? = some b ↔ t.head? = some b := by
  have h0 := congrArg List.head? h.drop_eq
  rw [List.head?_drop] at h0
  rw [h0]
  cases t with
  | nil => simp
  | cons c t =>
    rw [encodeAll_cons, List.head?_append_of_ne_nil _ (encode_ne_nil c), List.head?_cons]
    by_cases hc : c < 0x80
    · rw [encode_ascii hc, List.head?_cons]
    · constructor
      · intro hh
        have := le_of_mem_encode (by omega) (mem_of_mem_head? hh)
        omega
      · intro hh
        have := Option.some.inj hh
        omega

theorem Stands.getElem?_eq_none (h : Stands bytes i t) : bytes[i]? = none ↔ t = [] := by
  have h0 := congrArg List.head? h.drop_eq
  rw [List.head?_drop] at h0
  rw [h0, List.head?_eq_none_iff]
  cases t with
  | nil => simp
  | cons c t => simp [encode_ne_nil]

/-- **A slice between two boundaries** is the text between them. -/
theorem strSlice_eq (h : Stands bytes i (t ++ u)) :
    strSlice bytes i (i + (encodeAll t).length) = some t := by
  have h' := h.advance
  rw [strSlice, if_pos ⟨Nat.le_add_right _ _, h'.le_length, h.isCharBoundary, h'.isCharBoundary⟩,
    fromUtf8_eq_some_iff]
  refine ⟨(scalars_append.mp h.scalars).1, ?_⟩
  rw [slice, h.drop_eq, Nat.add_sub_cancel_left, encodeAll_append, take_left]

/-- A run over bytes is a run over characters, for a class that has all of
the bytes outside ASCII or none of them. -/
theorem takeWhile_encodeAll {p : ℕ → Bool} {v : Bool} (hp : ∀ b, 0x80 ≤ b → p b = v) : ∀ t : List ℕ,
    (encodeAll t).takeWhile p = encodeAll (t.takeWhile p) := by
  intro t
  induction t with
  | nil => rfl
  | cons c t ih =>
    -- all bytes of a character are in the class, or none of them is
    have hsame : ∀ b ∈ encode c, p b = p c := by
      intro b hb
      by_cases hlt : c < 0x80
      · rw [encode_ascii hlt, mem_singleton] at hb
        rw [hb]
      · rw [hp b (le_of_mem_encode (by omega) hb), hp c (by omega)]
    by_cases hc : p c = true
    · rw [encodeAll_cons, takeWhile_append_of_pos fun b hb => (hsame b hb).trans hc, ih,
        takeWhile_cons_of_pos hc, encodeAll_cons]
    · obtain ⟨b, bs, hb⟩ := exists_cons_of_ne_nil (encode_ne_nil c)
      have hpb : ¬ p b = true := by rw [hsame b (by rw [hb]; simp)]; exact hc
      rw [encodeAll_cons, hb, cons_append, takeWhile_cons_of_neg hpb,
        takeWhile_cons_of_neg hc, encodeAll_nil]

theorem Stands.skipWhile_eq {p : ℕ → Bool} {v : Bool} (hp : ∀ b, 0x80 ≤ b → p b = v)
    (h : Stands bytes i t) : skipWhile p bytes i = i + (encodeAll (t.takeWhile p)).length := by
  rw [skipWhile, h.drop_eq, takeWhile_encodeAll hp]

/-- An ASCII word stands in the bytes where it stands in the text. -/
theorem isPrefixOf_encodeAll {word : List ℕ} (hw : ∀ c ∈ word, c < 0x80) : ∀ t : List ℕ,
    word.isPrefixOf (encodeAll t) = word.isPrefixOf t := by
  induction word with
  | nil => intro t; rw [isPrefixOf_nil_left, isPrefixOf_nil_left]
  | cons w word ih =>
    intro t
    have hlt := hw w (by simp)
    cases t with
    | nil => rfl
    | cons c t =>
      by_cases hc : c < 0x80
      · rw [encodeAll_cons, encode_ascii hc, singleton_append, isPrefixOf_cons_cons,
          isPrefixOf_cons_cons, ih fun x hx => hw x (by simp [hx])]
      · -- no byte of the character is the letter
        obtain ⟨b, bs, hb⟩ := exists_cons_of_ne_nil (encode_ne_nil c)
        have hge := le_of_mem_encode (c := c) (b := b) (by omega) (by rw [hb]; simp)
        have h1 : (w == b) = false := beq_eq_false_iff_ne.mpr (by omega)
        have h2 : (w == c) = false := beq_eq_false_iff_ne.mpr (by omega)
        rw [encodeAll_cons, hb, cons_append, isPrefixOf_cons_cons, isPrefixOf_cons_cons, h1,
          h2, Bool.false_and, Bool.false_and]

/-- **Scanning stays on boundaries.** -/
theorem Stands.skipWhile {p : ℕ → Bool} {v : Bool} (hp : ∀ b, 0x80 ≤ b → p b = v)
    (h : Stands bytes i t) : Stands bytes (skipWhile p bytes i) (t.dropWhile p) := by
  rw [h.skipWhile_eq hp]
  exact advance (by rw [takeWhile_append_dropWhile]; exact h)

end Pydeno.Utf8
