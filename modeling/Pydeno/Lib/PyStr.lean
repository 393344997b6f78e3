import Pydeno.Lib.Cursor

/-!
# Python's sequence operations

The operations of Python's `str` that the reference programs use, over any
element type: slices with negative bounds, prefix tests at an offset, and
the searches that answer `-1`.
-/

namespace Pydeno.PyStr

open List

variable {α : Type*}

/-- A slice bound: negative ones count from the end, and all are clipped to
the sequence. -/
def bound (n : ℕ) (i : ℤ) : ℕ :=
  if i < 0 then (i + n).toNat else min i.toNat n

/-- `s[a:b]`. -/
def slice (s : List α) (a b : ℤ) : List α :=
  (s.drop (bound s.length a)).take (bound s.length b - bound s.length a)

/-- Between two offsets from the start, a slice is a plain one. -/
theorem slice_natCast (s : List α) (a b : ℕ) : slice s a b = Pydeno.slice s a b := by
  have hb : ∀ i : ℕ, bound s.length i = min i s.length := fun i => by
    rw [bound, if_neg (by omega), Int.toNat_natCast]
  rw [slice, Pydeno.slice, hb, hb]
  rcases Nat.le_total a s.length with ha | ha
  · rw [min_eq_left ha]
    rcases Nat.le_total b s.length with hb | hb
    · rw [min_eq_left hb]
    · rw [min_eq_right hb, take_of_length_le (by rw [length_drop]),
        take_of_length_le (by rw [length_drop]; omega)]
  · rw [min_eq_right ha, drop_of_length_le (le_refl _), drop_of_length_le ha, take_nil, take_nil]

variable [DecidableEq α]

/-- `s.startswith(pre, i)`. -/
def startsWith (s pre : List α) (i : ℕ) : Bool := pre.isPrefixOf (s.drop i)

/-- `sub in s`: the text occurs somewhere. -/
def contains (s sub : List α) : Bool := (List.range (s.length + 1)).any fun i => startsWith s sub i

/-- The indices of `s[lo:hi]` at which `p` holds, ascending. -/
def indices (p : ℕ → Bool) (lo hi : ℕ) : List ℕ := (List.range' lo (hi - lo)).filter p

/-- `s.find(pat, lo, hi)`: the first place in `s[lo:hi]` at which `pat` fits,
or `-1`. -/
def find (s pat : List α) (lo hi : ℕ) : ℤ :=
  match (indices (fun i => startsWith s pat i && i + pat.length ≤ min hi s.length)
      lo (min hi s.length + 1)).head? with
  | some i => i
  | none => -1

/-- `s.rfind(c, lo, hi)` for one character: the last place in `s[lo:hi]`
that holds `c`, or `-1`. -/
def rfindChar (s : List α) (c : α) (lo hi : ℕ) : ℤ :=
  match (indices (fun i => s[i]? == some c) lo (min hi s.length)).getLast? with
  | some i => i
  | none => -1

/-- A prefix test reads one place after the other. -/
theorem startsWith_eq_all (s : List α) : ∀ (pre : List α) (i n : ℕ), startsWith s pre (i + n)
      = (pre.zipIdx n).all fun ck => holdsAt (fun x => decide (x = ck.1)) s (i + ck.2) := by
  intro pre
  induction pre with
  | nil => intro i n; rfl
  | cons c pre ih =>
    intro i n
    have hnext := ih i (n + 1)
    rw [startsWith, ← Nat.add_assoc] at hnext
    rw [zipIdx_cons, all_cons, ← hnext, startsWith]
    rcases Nat.lt_or_ge (i + n) s.length with hlt | hge
    · rw [drop_eq_getElem_cons hlt, isPrefixOf_cons_cons, holdsAt,
        List.getElem?_eq_getElem hlt, Option.any_some]
      simp only [eq_comm, Bool.beq_eq_decide_eq]
    · rw [drop_of_length_le hge, holdsAt, List.getElem?_eq_none hge]
      rfl

/-- The first place at which a text fits, as a search for one. -/
theorem find_eq (s : List α) {pat : List α} (hp : pat ≠ []) (lo hi : ℕ) :
    find s pat lo hi
      = match (List.range' lo (min hi s.length - lo)).find? fun i =>
          startsWith s pat i && i + pat.length ≤ min hi s.length with
        | some i => (i : ℤ)
        | none => -1 := by
  have hpos : 0 < pat.length := length_pos_iff.mpr hp
  rw [find, indices, List.head?_filter]
  rcases Nat.lt_or_ge (min hi s.length) lo with hlt | hge
  · rw [show min hi s.length + 1 - lo = 0 by omega, show min hi s.length - lo = 0 by omega]
  · rw [show min hi s.length + 1 - lo = (min hi s.length - lo) + 1 by omega, List.range'_concat,
      List.find?_append, List.find?_singleton, if_neg, Option.or_none]
    simp only [Bool.and_eq_true, decide_eq_true_eq]
    omega

/-- The search looks at the last place first. -/
theorem rfindChar_succ (s : List α) (c : α) {lo hi : ℕ} (h : lo ≤ hi) :
    rfindChar s c lo (hi + 1) = if s[hi]? = some c then (hi : ℤ) else rfindChar s c lo hi := by
  rcases Nat.lt_or_ge hi s.length with hlt | hge
  · have hidx : indices (fun i => s[i]? == some c) lo (hi + 1)
        = indices (fun i => s[i]? == some c) lo hi ++ [hi].filter fun i => s[i]? == some c := by
      rw [indices, indices, show hi + 1 - lo = (hi - lo) + 1 by omega, List.range'_concat,
        filter_append, show lo + 1 * (hi - lo) = hi by omega]
    rw [rfindChar, rfindChar, min_eq_left (by omega), min_eq_left (by omega), hidx]
    by_cases hc : s[hi]? = some c
    · simp [hc]
    · simp [hc]
  · rw [rfindChar, rfindChar, min_eq_right (by omega), min_eq_right hge,
      if_neg (by rw [List.getElem?_eq_none hge]; simp)]

theorem rfindChar_self (s : List α) (c : α) (lo : ℕ) : rfindChar s c lo lo = -1 := by
  rw [rfindChar, indices, show min lo s.length - lo = 0 by omega]
  rfl

/-- What is found lies below the end of the search. -/
theorem rfindChar_lt (s : List α) (c : α) (lo : ℕ) : ∀ n : ℕ,
    rfindChar s c lo (lo + n) < (lo + n : ℕ) := by
  intro n
  induction n with
  | zero => rw [Nat.add_zero, rfindChar_self]; omega
  | succ n ih =>
    rw [← Nat.add_assoc, rfindChar_succ s c (by omega)]
    split
    · push_cast; omega
    · push_cast at ih ⊢; omega

/-- `s.lstrip()` for the class of space characters. -/
def lstrip (isSpace : α → Bool) (s : List α) : List α := s.dropWhile isSpace

end Pydeno.PyStr
