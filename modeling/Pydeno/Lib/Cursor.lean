import Mathlib

/-!
# Cursors over a list

Hand-written scanners move an index over a sequence. `holdsAt` is the
bounds-checked test `i < n && p(s[i])`, `skipWhile` the forward cursor that
stops at the first element failing a test, `skipBack` the backward one,
and `bisectRight` the binary search that maps an offset back through a
list of anchors. Each comes with what pins it down: where it stops, and
that it passed nothing on the way.
-/

namespace Pydeno

open List

variable {α : Type*}

/-- `i < s.len() && p(s[i])`. -/
def holdsAt (p : α → Bool) (s : List α) (i : ℕ) : Bool := (s[i]?).any p

variable {i a b : ℕ} {p : α → Bool} {s : List α}

theorem holdsAt_iff : holdsAt p s i = true ↔ ∃ a, s[i]? = some a ∧ p a = true := by
  rw [holdsAt, Option.any_eq_true]

theorem lt_length_of_holdsAt (h : holdsAt p s i = true) : i < s.length := by
  obtain ⟨a, ha, -⟩ := holdsAt_iff.mp h
  exact (List.getElem?_eq_some_iff.mp ha).1

theorem holdsAt_drop {j : ℕ} : holdsAt p (s.drop i) j = holdsAt p s (i + j) := by
  rw [holdsAt, holdsAt, List.getElem?_drop]

theorem holdsAt_zero : holdsAt p s 0 = (s.head?).any p := by
  rw [holdsAt, List.head?_eq_getElem?]

/-- Within the sequence the test reads the element. -/
theorem holdsAt_eq_getD (d : α) (h : i < s.length) : holdsAt p s i = p (s.getD i d) := by
  rw [holdsAt, getD_eq_getElem?_getD, List.getElem?_eq_getElem h, Option.any_some, Option.getD_some]

theorem holdsAt_iff_getD (d : α) : holdsAt p s i = true ↔ i < s.length ∧ p (s.getD i d) = true := by
  constructor
  · intro h
    have hi := lt_length_of_holdsAt h
    exact ⟨hi, (holdsAt_eq_getD d hi).symm.trans h⟩
  · rintro ⟨hi, h⟩
    rw [holdsAt_eq_getD d hi]
    exact h

/-- `s[a..b]`, for `a ≤ b`. -/
def slice (s : List α) (a b : ℕ) : List α := (s.drop a).take (b - a)

theorem length_slice (hb : b ≤ s.length) : (slice s a b).length = b - a := by
  rw [slice, length_take, length_drop]
  omega

/-- What holds at every place of a slice holds of its elements. -/
theorem forall_mem_slice (h : ∀ k, a ≤ k → k < b → holdsAt p s k = true) :
    ∀ c ∈ slice s a b, p c = true := by
  intro c hc
  obtain ⟨n, hn, rfl⟩ := getElem_of_mem hc
  rw [slice, length_take, length_drop] at hn
  obtain ⟨d, hd, hpd⟩ := holdsAt_iff.mp (h (a + n) (by omega) (by omega))
  simp only [slice, getElem_take, getElem_drop]
  rw [List.getElem?_eq_some_iff] at hd
  obtain ⟨_, rfl⟩ := hd
  exact hpd

theorem getElem?_slice {k : ℕ} : (slice s a b)[k]? = if k < b - a then s[a + k]? else none := by
  rw [slice, List.getElem?_take, List.getElem?_drop]

theorem slice_append {c : ℕ} (hab : a ≤ b) (hbc : b ≤ c) :
    slice s a b ++ slice s b c = slice s a c := by
  rw [slice, slice, slice, show c - a = (b - a) + (c - b) by omega, take_add, drop_drop,
    show a + (b - a) = b by omega]

/-- A slice that ends past the end stops there. -/
theorem slice_min : slice s a (min b s.length) = slice s a b := by
  rw [slice, slice]
  rcases Nat.le_total b s.length with h | h
  · rw [min_eq_left h]
  · rw [min_eq_right h, take_of_length_le (by rw [length_drop]),
      take_of_length_le (by rw [length_drop]; omega)]

/-- One element more. -/
theorem slice_succ (d : α) (hab : a ≤ b) (hb : b < s.length) :
    slice s a (b + 1) = slice s a b ++ [s.getD b d] := by
  have hone : slice s b (b + 1) = [s.getD b d] := by
    rw [slice, Nat.add_sub_cancel_left, drop_eq_getElem_cons hb, take_succ_cons,
      take_zero, getD_eq_getElem?_getD, List.getElem?_eq_getElem hb, Option.getD_some]
  rw [← slice_append hab (Nat.le_succ b), hone]

theorem slice_self : slice s a a = [] := by
  rw [slice, Nat.sub_self, take_zero]

/-! ## Forward -/

/-- `while i < s.len() && p(s[i]) { i += 1 }`. -/
def skipWhile (p : α → Bool) (s : List α) (i : ℕ) : ℕ := i + ((s.drop i).takeWhile p).length

theorem le_skipWhile : i ≤ skipWhile p s i :=
  Nat.le_add_right _ _

theorem skipWhile_le (h : i ≤ s.length) : skipWhile p s i ≤ s.length := by
  have := (takeWhile_sublist p (l := s.drop i)).length_le
  rw [length_drop] at this
  rw [skipWhile]
  omega

theorem takeWhile_holdsAt : ∀ {s : List α} {k : ℕ},
    k < (s.takeWhile p).length → holdsAt p s k = true := by
  intro s
  induction s with
  | nil => intro k h; simp at h
  | cons a s ih =>
    intro k h
    by_cases ha : p a = true
    · rw [takeWhile_cons_of_pos ha, length_cons] at h
      cases k with
      | zero => simp [holdsAt, ha]
      | succ k =>
        have := ih (k := k) (by omega)
        simpa [holdsAt] using this
    · rw [takeWhile_cons_of_neg ha] at h
      simp at h

theorem takeWhile_stop : ∀ {s : List α}, holdsAt p s (s.takeWhile p).length = false := by
  intro s
  induction s with
  | nil => rfl
  | cons a s ih =>
    by_cases ha : p a = true
    · rw [takeWhile_cons_of_pos ha, length_cons]
      simpa [holdsAt] using ih
    · rw [takeWhile_cons_of_neg ha]
      simpa [holdsAt] using ha

/-- A run of at least `k` elements is `k` elements that all satisfy the
test. -/
theorem le_takeWhile_drop_iff {k : ℕ} (hk : 0 < k) : k ≤ ((s.drop i).takeWhile p).length ↔
      i + k ≤ s.length ∧ (slice s i (i + k)).all p = true := by
  rw [slice, show i + k - i = k by omega, all_eq_true]
  constructor
  · intro h
    have hlen := (takeWhile_sublist p (l := s.drop i)).length_le
    rw [length_drop] at hlen
    refine ⟨by omega, fun a ha => ?_⟩
    obtain ⟨n, hn, rfl⟩ := getElem_of_mem ha
    rw [length_take] at hn
    obtain ⟨b, hb, hpb⟩ :=
      holdsAt_iff.mp (takeWhile_holdsAt (p := p) (s := s.drop i) (k := n) (by omega))
    rw [getElem_take]
    rw [List.getElem?_eq_some_iff] at hb
    obtain ⟨_, rfl⟩ := hb
    exact hpb
  · rintro ⟨hlen, hall⟩
    by_contra hlt
    have hstop := takeWhile_stop (p := p) (s := s.drop i)
    have hin : ((s.drop i).takeWhile p).length < (s.drop i).length := by
      rw [length_drop]; omega
    rw [holdsAt, List.getElem?_eq_getElem hin, Option.any_some,
      hall _ (mem_take_iff_getElem.mpr ⟨_, by omega, rfl⟩)] at hstop
    cases hstop

/-- Everything the cursor passed satisfies the test. -/
theorem holdsAt_of_lt_skipWhile {j : ℕ} (hij : i ≤ j) (hj : j < skipWhile p s i) :
    holdsAt p s j = true := by
  have := takeWhile_holdsAt (p := p) (s := s.drop i) (k := j - i) (by rw [skipWhile] at hj; omega)
  rwa [holdsAt_drop, show i + (j - i) = j by omega] at this

/-- The cursor stops where the test fails, or at the end. -/
theorem skipWhile_stop : holdsAt p s (skipWhile p s i) = false := by
  have := takeWhile_stop (p := p) (s := s.drop i)
  rwa [holdsAt_drop] at this

/-- **The two facts determine the cursor.** -/
theorem skipWhile_eq {k : ℕ} (hik : i ≤ k)
    (hpass : ∀ j, i ≤ j → j < k → holdsAt p s j = true) (hstop : holdsAt p s k = false) :
    skipWhile p s i = k := by
  rcases Nat.lt_trichotomy (skipWhile p s i) k with h | h | h
  · have := hpass _ le_skipWhile h
    rw [skipWhile_stop] at this
    cases this
  · exact h
  · rw [holdsAt_of_lt_skipWhile hik h] at hstop
    cases hstop

theorem skipWhile_of_not (h : holdsAt p s i = false) : skipWhile p s i = i :=
  skipWhile_eq (le_refl i) (fun j h1 h2 => by omega) h

theorem skipWhile_succ (h : holdsAt p s i = true) : skipWhile p s i = skipWhile p s (i + 1) := by
  refine skipWhile_eq (by have := le_skipWhile (p := p) (s := s) (i := i + 1); omega) ?_
    skipWhile_stop
  intro j h1 h2
  rcases Nat.eq_or_lt_of_le h1 with rfl | h1
  · exact h
  · exact holdsAt_of_lt_skipWhile (by omega) h2

theorem lt_skipWhile (h : holdsAt p s i = true) : i < skipWhile p s i := by
  rw [skipWhile_succ h]
  have := le_skipWhile (p := p) (s := s) (i := i + 1)
  omega

/-- `while i < limit && p(s[i]) { i += 1 }`, for a `limit` within `s`. -/
def skipUpTo (p : α → Bool) (s : List α) (limit i : ℕ) : ℕ := min (skipWhile p s i) (max i limit)

theorem le_skipUpTo {limit : ℕ} : i ≤ skipUpTo p s limit i := by
  have := le_skipWhile (p := p) (s := s) (i := i)
  rw [skipUpTo]
  omega

/-- Dropping the leading run of a slice moves its start. -/
theorem dropWhile_slice (hab : a ≤ b) :
    (slice s a b).dropWhile p = slice s (skipUpTo p s b a) b := by
  have key : ∀ (l : List α) (n : ℕ), (l.take n).dropWhile p
      = (l.drop (min (l.takeWhile p).length n)).take (n - min (l.takeWhile p).length n) := by
    intro l
    induction l with
    | nil => intro n; simp
    | cons x l ih =>
      intro n
      cases n with
      | zero => simp
      | succ n =>
        by_cases hx : p x = true
        · simp only [take_succ_cons, dropWhile_cons_of_pos hx,
            takeWhile_cons_of_pos hx, length_cons, Nat.add_min_add_right,
            drop_succ_cons, Nat.add_sub_add_right]
          exact ih n
        · simp [takeWhile_cons_of_neg hx, dropWhile_cons_of_neg hx]
  rw [slice, key, slice, drop_drop]
  have hs : skipUpTo p s b a = a + min ((s.drop a).takeWhile p).length (b - a) := by
    rw [skipUpTo, skipWhile]
    omega
  rw [hs, show b - (a + min ((s.drop a).takeWhile p).length (b - a))
    = b - a - min ((s.drop a).takeWhile p).length (b - a) by omega]

/-! ## Backward -/

/-- `while i > floor && p(s[i]) { i -= 1 }`, for `i = floor + d`. -/
def skipBack (p : α → Bool) (s : List α) (floor : ℤ) : ℕ → ℤ
  | 0 => floor
  | d + 1 =>
      let i := floor + (d + 1)
      if holdsAt p s i.toNat then skipBack p s floor d else i

/-! ## Binary search -/

/-- CPython's `bisect_right(a, x)`: the loop of the binary search, with the
interval `[lo, hi)` still to be halved. -/
def bisectLoop (a : List ℕ) (x : ℕ) : ℕ → ℕ → ℕ → ℕ
  | 0, lo, _ => lo
  | fuel + 1, lo, hi =>
      if lo < hi then
        let mid := (lo + hi) / 2
        if x < a.getD mid 0 then bisectLoop a x fuel lo mid
        else bisectLoop a x fuel (mid + 1) hi
      else lo

/-- `bisect_right(a, x)`. -/
def bisectRight (a : List ℕ) (x : ℕ) : ℕ := bisectLoop a x a.length 0 a.length

/-- `a.partition_point(|y| y <= x)`: how many leading elements are at most
`x`. -/
def partitionPoint (a : List ℕ) (x : ℕ) : ℕ := (a.takeWhile (· ≤ x)).length

theorem partitionPoint_le {a : List ℕ} {x : ℕ} : partitionPoint a x ≤ a.length :=
  (takeWhile_sublist _).length_le

theorem le_of_lt_partitionPoint {a : List ℕ} {x j : ℕ} (h : j < partitionPoint a x) :
    a.getD j 0 ≤ x := by
  have hj := takeWhile_holdsAt (p := (· ≤ x)) h
  obtain ⟨b, hb, hbx⟩ := holdsAt_iff.mp hj
  rw [getD_eq_getElem?_getD, hb]
  simpa using hbx

theorem lt_of_partitionPoint_le {a : List ℕ} (ha : a.Pairwise (· ≤ ·)) {x j : ℕ}
    (h : partitionPoint a x ≤ j) (hj : j < a.length) : x < a.getD j 0 := by
  have hstop := takeWhile_stop (p := (· ≤ x)) (s := a)
  have hlen : partitionPoint a x < a.length := by omega
  have hx : x < a.getD (partitionPoint a x) 0 := by
    rw [getD_eq_getElem?_getD, List.getElem?_eq_getElem hlen, Option.getD_some]
    have : holdsAt (· ≤ x) a (partitionPoint a x) = false := hstop
    rw [holdsAt, List.getElem?_eq_getElem hlen] at this
    simpa using this
  rcases Nat.eq_or_lt_of_le h with heq | hlt
  · rwa [← heq]
  · have hmono : a.getD (partitionPoint a x) 0 ≤ a.getD j 0 := by
      rw [getD_eq_getElem?_getD, getD_eq_getElem?_getD, List.getElem?_eq_getElem hlen,
        List.getElem?_eq_getElem hj, Option.getD_some, Option.getD_some]
      exact pairwise_iff_getElem.mp ha _ _ hlen hj hlt
    omega

theorem bisectLoop_eq {a : List ℕ} (ha : a.Pairwise (· ≤ ·)) {x : ℕ} : ∀ (fuel lo hi : ℕ),
    hi - lo ≤ fuel → lo ≤ partitionPoint a x → partitionPoint a x ≤ hi → hi ≤ a.length →
    bisectLoop a x fuel lo hi = partitionPoint a x := by
  intro fuel
  induction fuel with
  | zero =>
    intro lo hi hf h1 h2 _
    rw [bisectLoop]
    omega
  | succ fuel ih =>
    intro lo hi hf h1 h2 h3
    rw [bisectLoop]
    split
    next hlt =>
      simp only
      split
      next hx =>
        refine ih _ _ (by omega) h1 ?_ (by omega)
        by_contra hc
        have := le_of_lt_partitionPoint (a := a) (x := x) (j := (lo + hi) / 2) (by omega)
        omega
      next hx =>
        refine ih _ _ (by omega) ?_ h2 h3
        by_contra hc
        have := lt_of_partitionPoint_le ha (x := x) (j := (lo + hi) / 2) (by omega) (by omega)
        omega
    · omega

/-- **The binary search finds the partition point of a sorted list.** -/
theorem bisectRight_eq {a : List ℕ} (ha : a.Pairwise (· ≤ ·)) (x : ℕ) :
    bisectRight a x = partitionPoint a x :=
  bisectLoop_eq ha _ _ _ (by omega) (by omega) partitionPoint_le (le_refl _)

end Pydeno
