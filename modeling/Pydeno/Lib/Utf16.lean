import Pydeno.Lib.Utf8

/-!
# UTF-16

The code units of a text, and the text of a list of code units. Text here
may hold surrogates, as Python's strings may: an unpaired surrogate is one
unit and reads back as itself (`surrogatepass`). Reading is greedy, so it is
a left inverse of writing on text of scalar values only (`decode_units`),
while writing is a left inverse of reading on every list of units
(`units_decode`); two texts have the same units exactly when they are equal
after reading them back.
-/

namespace Pydeno.Utf16

open List

open Utf8 (IsScalar Scalars)

def isHigh (u : ℕ) : Bool := 0xD800 ≤ u && u < 0xDC00

def isLow (u : ℕ) : Bool := 0xDC00 ≤ u && u < 0xE000

/-- The code units of one code point. -/
def encode (c : ℕ) : List ℕ :=
  if c < 0x10000 then [c] else [0xD800 + (c - 0x10000) / 1024, 0xDC00 + (c - 0x10000) % 1024]

/-- **The code units of a text.** -/
def units (t : List ℕ) : List ℕ := t.flatMap encode

@[simp] theorem units_nil : units [] = [] := rfl

@[simp] theorem units_cons (c : ℕ) (t : List ℕ) : units (c :: t) = encode c ++ units t := rfl

@[simp] theorem units_append (t u : List ℕ) : units (t ++ u) = units t ++ units u :=
  flatMap_append

theorem encode_ne_nil (c : ℕ) : encode c ≠ [] := by
  unfold encode
  split_ifs <;> simp

/-- The code point of a surrogate pair. -/
def pair (high low : ℕ) : ℕ := 0x10000 + (high - 0xD800) * 1024 + (low - 0xDC00)

/-- **The text of a list of code units**, with unpaired surrogates kept. -/
def decode : List ℕ → List ℕ
  | [] => []
  | [u] => [u]
  | u :: v :: rest =>
      if isHigh u && isLow v then pair u v :: decode rest else u :: decode (v :: rest)

theorem le_pair (u v : ℕ) : 0x10000 ≤ pair u v := by
  unfold pair
  omega

variable {u : ℕ} {us t : List ℕ}

theorem encode_pair {v : ℕ} (hu : isHigh u = true) (hv : isLow v = true) :
    encode (pair u v) = [u, v] := by
  simp only [isHigh, isLow, Bool.and_eq_true, decide_eq_true_eq] at hu hv
  have hge : ¬ pair u v < 0x10000 := Nat.not_lt.mpr (le_pair u v)
  have hoff : pair u v - 0x10000 = (u - 0xD800) * 1024 + (v - 0xDC00) := by
    unfold pair
    omega
  simp only [encode, if_neg hge, hoff, List.cons.injEq, and_true]
  omega

theorem isScalar_pair {v : ℕ} (hu : isHigh u = true) (hv : isLow v = true) :
    IsScalar (pair u v) := by
  simp only [isHigh, isLow, Bool.and_eq_true, decide_eq_true_eq] at hu hv
  have hge := le_pair u v
  refine .inr ⟨by omega, ?_⟩
  unfold pair
  omega

/-- **Writing what was read** gives the units back. -/
theorem units_decode : ∀ {us : List ℕ}, (∀ u ∈ us, u < 0x10000) → units (decode us) = us
  | [], _ => rfl
  | [u], h => by
      have hu : u < 0x10000 := h u (by simp)
      rw [decode, units_cons, encode, if_pos hu]
      rfl
  | u :: v :: rest, h => by
      have hu : u < 0x10000 := h u (by simp)
      rw [decode]
      split
      next hp =>
        rw [Bool.and_eq_true] at hp
        rw [units_cons, encode_pair hp.1 hp.2, units_decode fun x hx => h x (by simp [hx])]
        rfl
      · rw [units_cons, encode, if_pos hu, units_decode fun x hx => h x (by simp at hx ⊢; tauto)]
        rfl

theorem pair_lt {v : ℕ} (hu : isHigh u = true) (hv : isLow v = true) : pair u v < 0x110000 := by
  simp only [isHigh, isLow, Bool.and_eq_true, decide_eq_true_eq] at hu hv
  unfold pair
  omega

/-- The code points of a text of code units. -/
theorem decode_lt (h : ∀ u ∈ us, u < 0x10000) : ∀ c ∈ decode us, c < 0x110000 := by
  induction us using decode.induct with
  | case1 => simp [decode]
  | case2 u =>
    have hu := h u mem_cons_self
    simp only [decode, mem_singleton, forall_eq]
    omega
  | case3 u v rest hpair ih =>
    obtain ⟨hu, hv⟩ := Bool.and_eq_true_iff.mp hpair
    rw [decode, if_pos hpair, forall_mem_cons]
    exact ⟨pair_lt hu hv, ih fun w hw => h w (mem_cons_of_mem _ (mem_cons_of_mem _ hw))⟩
  | case4 u v rest hpair ih =>
    have hu := h u mem_cons_self
    rw [decode, if_neg hpair, forall_mem_cons]
    exact ⟨by omega, ih fun w hw => h w (mem_cons_of_mem _ hw)⟩

/-- A unit that starts no pair reads as itself. -/
theorem decode_cons_of_not_pair (h : ∀ v, us.head? = some v → ¬ (isHigh u = true ∧ isLow v = true)) :
    decode (u :: us) = u :: decode us := by
  cases us with
  | nil => rfl
  | cons v rest =>
    have hp := h v rfl
    rw [decode, if_neg (by rw [Bool.and_eq_true]; exact hp)]

theorem decode_cons_of_not_high (h : isHigh u = false) : decode (u :: us) = u :: decode us :=
  decode_cons_of_not_pair fun v _ hp => by rw [h] at hp; cases hp.1

theorem isHigh_scalar {c : ℕ} (hc : IsScalar c) : isHigh c = false := by
  rw [isHigh, Bool.and_eq_false_iff]
  simp only [decide_eq_false_iff_not]
  rcases hc with h | h
  · left; omega
  · right; omega

theorem isLow_scalar {c : ℕ} (hc : IsScalar c) : isLow c = false := by
  rw [isLow, Bool.and_eq_false_iff]
  simp only [decide_eq_false_iff_not]
  rcases hc with h | h
  · left; omega
  · right; omega

/-- A scalar value written first reads back first. -/
theorem decode_encode_append {c : ℕ} (hc : IsScalar c) (us : List ℕ) :
    decode (encode c ++ us) = c :: decode us := by
  by_cases hlt : c < 0x10000
  · rw [encode, if_pos hlt, singleton_append]
    exact decode_cons_of_not_high (isHigh_scalar hc)
  · have hc' : c < 0x110000 := by rcases hc with h | h <;> omega
    have hhigh : isHigh (0xD800 + (c - 0x10000) / 1024) = true := by
      simp only [isHigh, Bool.and_eq_true, decide_eq_true_eq]
      omega
    have hlow : isLow (0xDC00 + (c - 0x10000) % 1024) = true := by
      simp only [isLow, Bool.and_eq_true, decide_eq_true_eq]
      omega
    have hpair : pair (0xD800 + (c - 0x10000) / 1024) (0xDC00 + (c - 0x10000) % 1024) = c := by
      unfold pair
      omega
    rw [encode, if_neg hlt, cons_append, singleton_append, decode,
      if_pos (by rw [hhigh, hlow]; rfl), hpair]

/-- **Reading what was written**: scalar values come back, whatever follows. -/
theorem decode_units_append (ht : Scalars t) (us : List ℕ) :
    decode (units t ++ us) = t ++ decode us := by
  induction t with
  | nil => rfl
  | cons c t ih =>
    obtain ⟨hc, ht⟩ := Utf8.scalars_cons.mp ht
    rw [units_cons, append_assoc, decode_encode_append hc, ih ht, cons_append]

theorem decode_units (ht : Scalars t) : decode (units t) = t := by
  have h := decode_units_append ht []
  rwa [append_nil, decode, append_nil] at h

/-- The units of a text are units. -/
theorem units_lt (ht : ∀ c ∈ t, c < 0x110000) : ∀ u ∈ units t, u < 0x10000 := by
  intro u hu
  obtain ⟨c, hc, hu⟩ := mem_flatMap.mp hu
  have := ht c hc
  rw [encode] at hu
  split_ifs at hu <;> simp only [mem_cons, not_mem_nil, or_false] at hu <;> omega

theorem lt_of_isScalar {c : ℕ} (hc : IsScalar c) : c < 0x110000 := by
  rcases hc with h | h <;> omega

/-- The first unit of a text of scalar values is no low surrogate. -/
theorem isLow_head_units (ht : Scalars t) (hu : (units t).head? = some u) : isLow u = false := by
  cases t with
  | nil => cases hu
  | cons c t =>
    have hc := (Utf8.scalars_cons.mp ht).1
    have hlt := lt_of_isScalar hc
    rw [units_cons, encode] at hu
    split_ifs at hu with h
    · rw [singleton_append, List.head?_cons, Option.some.injEq] at hu
      rw [← hu]
      exact isLow_scalar hc
    · rw [cons_append, List.head?_cons, Option.some.injEq] at hu
      rw [isLow, Bool.and_eq_false_iff]
      simp only [decide_eq_false_iff_not]
      omega

end Pydeno.Utf16
