import Pydeno.Lib.Cursor

/-!
# Backtracking regular expressions

The fragment of a backtracking regular-expression engine that a scanner's
patterns use: character classes, greedy repetition of a class, sequence,
ordered choice and numbered groups. `run` lists every way to match at the
start of the input in the order a backtracking engine tries them, so the
engine's answer is the head of the list (`match?`) and an engine that has
no choice to make is one whose list has at most one shape. Two kinds of
fact are read off: which matches there are (`mem_run_*`), and which comes
first (`match?_*`).
-/

namespace Pydeno

open List

/-- A pattern over the alphabet `α`. -/
inductive Regex (α : Type*) where
  /-- One character of a class. -/
  | one (p : α → Bool)
  /-- A greedy repetition of a class, `p{lo,hi}`; `hi = none` has no upper bound. -/
  | many (p : α → Bool) (lo : ℕ) (hi : Option ℕ)
  /-- One pattern after another. -/
  | seq (r s : Regex α)
  /-- Ordered choice: every match of the first comes before any of the second. -/
  | alt (r s : Regex α)
  /-- A numbered group. -/
  | group (k : ℕ) (r : Regex α)

namespace Regex

variable {α : Type*}

/-- A match at the start of the input: how much it consumed, and what each
group it entered captured. -/
@[ext] structure Match (α : Type*) where
  len : ℕ
  groups : List (ℕ × List α)

/-- What group `k` captured, if the match went through it. -/
def Match.group (m : Match α) (k : ℕ) : Option (List α) :=
  (m.groups.find? fun g => g.1 == k).map Prod.snd

/-- The longest run of `p` at the start of `s` that `p{..,hi}` may take. -/
def reach (p : α → Bool) (hi : Option ℕ) (s : List α) : ℕ :=
  match hi with
  | none => (s.takeWhile p).length
  | some n => min n (s.takeWhile p).length

/-- **Every match at the start of the input**, in the order a backtracking
engine tries them: a greedy repetition tries its longest run first, and a
sequence retries its tail for each way to match its head. -/
def run : Regex α → List α → List (Match α)
  | one _, [] => []
  | one p, a :: _ => if p a then [⟨1, []⟩] else []
  | many p lo hi, s =>
      (List.range' lo (reach p hi s + 1 - lo)).reverse.map fun k => ⟨k, []⟩
  | seq r t, s =>
      (r.run s).flatMap fun m =>
        (t.run (s.drop m.len)).map fun m' => ⟨m.len + m'.len, m.groups ++ m'.groups⟩
  | alt r t, s => r.run s ++ t.run s
  | group k r, s => (r.run s).map fun m => ⟨m.len, (k, s.take m.len) :: m.groups⟩

section

variable (p : α → Bool) (r t : Regex α) (s : List α)

theorem run_one_nil : (one p).run [] = [] := rfl

theorem run_one_cons (a : α) : (one p).run (a :: s) = if p a then [⟨1, []⟩] else [] := rfl

theorem run_many (lo : ℕ) (hi : Option ℕ) : (many p lo hi).run s =
    (List.range' lo (reach p hi s + 1 - lo)).reverse.map fun k => ⟨k, []⟩ := rfl

theorem run_seq : (seq r t).run s = (r.run s).flatMap fun m =>
    (t.run (s.drop m.len)).map fun m' => ⟨m.len + m'.len, m.groups ++ m'.groups⟩ := rfl

theorem run_alt : (alt r t).run s = r.run s ++ t.run s := rfl

theorem run_group (k : ℕ) : (group k r).run s =
    (r.run s).map fun m => ⟨m.len, (k, s.take m.len) :: m.groups⟩ := rfl

end

/-- The engine's answer: the first match it finds. -/
def match? (r : Regex α) (s : List α) : Option (Match α) := (r.run s).head?

/-- A sequence of patterns. -/
def cat : List (Regex α) → Regex α
  | [] => many (fun _ => false) 0 none
  | [r] => r
  | r :: rs => seq r (cat rs)

/-- An ordered choice between patterns. -/
def choice : Regex α → List (Regex α) → Regex α
  | r, [] => r
  | r, r' :: rs => alt r (choice r' rs)

/-! ## Which matches there are -/

variable {p : α → Bool} {s : List α} {m : Match α} {r t : Regex α} {i : ℕ}

theorem reach_le {hi : Option ℕ} : reach p hi s ≤ (s.takeWhile p).length := by
  cases hi with
  | none => exact le_refl _
  | some n => exact min_le_right _ _

theorem mem_run_one : m ∈ (one p).run s ↔ ∃ a, s.head? = some a ∧ p a = true ∧ m = ⟨1, []⟩ := by
  cases s with
  | nil => simp [run_one_nil]
  | cons a s =>
    by_cases h : p a = true
    · simp [run_one_cons, h]
    · simp [run_one_cons, h]

theorem mem_run_many {lo : ℕ} {hi : Option ℕ} :
    m ∈ (many p lo hi).run s ↔ m.groups = [] ∧ lo ≤ m.len ∧ m.len ≤ reach p hi s := by
  simp only [run_many, mem_map, mem_reverse, mem_range'_1]
  constructor
  · rintro ⟨k, ⟨h1, h2⟩, rfl⟩
    exact ⟨rfl, h1, by simp only; omega⟩
  · rintro ⟨hg, h1, h2⟩
    exact ⟨m.len, ⟨h1, by omega⟩, Match.ext rfl hg.symm⟩

theorem mem_run_seq : m ∈ (seq r t).run s ↔ ∃ a ∈ r.run s, ∃ b ∈ t.run (s.drop a.len),
      m = ⟨a.len + b.len, a.groups ++ b.groups⟩ := by
  simp only [run_seq, mem_flatMap, mem_map]
  constructor
  · rintro ⟨a, ha, b, hb, rfl⟩
    exact ⟨a, ha, b, hb, rfl⟩
  · rintro ⟨a, ha, b, hb, rfl⟩
    exact ⟨a, ha, b, hb, rfl⟩

theorem mem_run_group {k : ℕ} : m ∈ (group k r).run s ↔
      ∃ a ∈ r.run s, m = ⟨a.len, (k, s.take a.len) :: a.groups⟩ := by
  simp only [run_group, mem_map, eq_comm]

/-- No match comes out exactly when none is listed. -/
theorem match?_eq_none :
    r.match? s = none ↔ ∀ m, m ∉ r.run s := by
  rw [match?, List.head?_eq_none_iff, eq_nil_iff_forall_not_mem]

theorem match?_isSome :
    (r.match? s).isSome ↔ ∃ m, m ∈ r.run s := by
  rw [Option.isSome_iff_ne_none, ne_eq, match?_eq_none]
  push Not
  rfl

/-- **What all matches share, the engine's answer has.** -/
theorem match?_mem (h : r.match? s = some m) :
    m ∈ r.run s :=
  mem_of_mem_head? h

/-! ## Which match comes first -/

theorem match?_alt :
    (alt r t).match? s = (r.match? s).or (t.match? s) := by
  simp only [match?, run_alt, List.head?_append]

/-- A greedy repetition takes all it can. -/
theorem match?_many {lo : ℕ} {hi : Option ℕ} :
    (many p lo hi).match? s = if lo ≤ reach p hi s then some ⟨reach p hi s, []⟩ else none := by
  simp only [match?, run_many, List.head?_map, List.head?_reverse]
  split
  next h =>
    rw [show reach p hi s + 1 - lo = (reach p hi s - lo) + 1 by omega, List.range'_concat]
    simp only [List.getLast?_append, List.getLast?_singleton, Option.some_or, Option.map_some]
    rw [show lo + 1 * (reach p hi s - lo) = reach p hi s by omega]
  next h =>
    rw [show reach p hi s + 1 - lo = 0 by omega]
    rfl

theorem match?_one :
    (one p).match? s = if (s.head?).any p then some ⟨1, []⟩ else none := by
  cases s with
  | nil => rfl
  | cons a s =>
    by_cases h : p a = true
    · simp [match?, run_one_cons, h]
    · simp [match?, run_one_cons, h]

/-- A sequence whose head's first match lets the tail match needs no
backtracking. -/
theorem match?_seq {a b : Match α} (ha : r.match? s = some a)
    (hb : t.match? (s.drop a.len) = some b) :
    (seq r t).match? s = some ⟨a.len + b.len, a.groups ++ b.groups⟩ := by
  obtain ⟨as, has⟩ := List.head?_eq_some_iff.mp ha
  obtain ⟨bs, hbs⟩ := List.head?_eq_some_iff.mp hb
  simp only [match?, run_seq, has, flatMap_cons, hbs, map_cons, cons_append,
    List.head?_cons]

/-- A sequence whose head does not match does not match. -/
theorem match?_seq_none (h : r.match? s = none) :
    (seq r t).match? s = none := by
  rw [match?_eq_none] at h ⊢
  intro m hm
  obtain ⟨a, ha, -⟩ := mem_run_seq.mp hm
  exact h a ha

theorem match?_group {k : ℕ} :
    (group k r).match? s
      = (r.match? s).map fun m => ⟨m.len, (k, s.take m.len) :: m.groups⟩ := by
  simp only [match?, run_group, List.head?_map]

/-! ## Matching at an offset

What the parts of a pattern say at an offset of a longer input, in the
terms of a cursor over that input. -/

theorem add_reach_drop :
    i + reach p none (s.drop i) = skipWhile p s i := rfl

theorem match?_one_drop :
    (one p).match? (s.drop i) = if holdsAt p s i then some ⟨1, []⟩ else none := by
  rw [match?_one, ← holdsAt_zero, holdsAt_drop, Nat.add_zero]

theorem mem_run_one_drop : m ∈ (one p).run (s.drop i) ↔ holdsAt p s i = true ∧ m = ⟨1, []⟩ := by
  rw [mem_run_one, ← Nat.add_zero i, ← holdsAt_drop, Nat.add_zero, holdsAt_zero, Option.any_eq_true]
  constructor
  · rintro ⟨a, h1, h2, h3⟩
    exact ⟨⟨a, h1, h2⟩, h3⟩
  · rintro ⟨⟨a, h1, h2⟩, h3⟩
    exact ⟨a, h1, h2, h3⟩

theorem mem_run_seq_drop :
    m ∈ (seq r t).run (s.drop i) ↔ ∃ a ∈ r.run (s.drop i), ∃ b ∈ t.run (s.drop (i + a.len)),
      m = ⟨a.len + b.len, a.groups ++ b.groups⟩ := by
  simp only [mem_run_seq, drop_drop]

/-- **One character, then the rest**: the first step leaves no choice. -/
theorem match?_seq_one_drop :
    (seq (one p) t).match? (s.drop i)
      = if holdsAt p s i then
          (t.match? (s.drop (i + 1))).map fun m => ⟨1 + m.len, m.groups⟩
        else none := by
  split
  next h =>
    have h1 : (one p).match? (s.drop i) = some ⟨1, []⟩ := by rw [match?_one_drop, if_pos h]
    cases ht : t.match? (s.drop (i + 1)) with
    | none =>
      rw [match?_eq_none] at ht
      rw [Option.map_none, match?_eq_none]
      intro m hm
      obtain ⟨a, ha, b, hb, -⟩ := mem_run_seq_drop.mp hm
      obtain ⟨-, rfl⟩ := mem_run_one_drop.mp ha
      exact ht b hb
    | some m =>
      rw [Option.map_some, match?_seq h1 (by rw [drop_drop]; exact ht)]
      rfl
  next h =>
    exact match?_seq_none (by rw [match?_one_drop, if_neg h])

/-- **A run and what must not continue it**: when the tail only matches
where the class fails, the run can only be the longest. -/
theorem isSome_many_seq_reach (hi : Option ℕ)
    (h : ∀ j m, m ∈ t.run (s.drop j) → holdsAt p s j = false) :
    ((seq (many p 0 hi) t).match? (s.drop i)).isSome
      = (t.match? (s.drop (i + reach p hi (s.drop i)))).isSome := by
  rw [Bool.eq_iff_iff, match?_isSome, match?_isSome]
  constructor
  · rintro ⟨m, hm⟩
    obtain ⟨a, ha, b, hb, -⟩ := mem_run_seq_drop.mp hm
    obtain ⟨-, -, hle⟩ := mem_run_many.mp ha
    rcases Nat.lt_or_eq_of_le hle with hlt | heq
    · have hholds := takeWhile_holdsAt (lt_of_lt_of_le hlt reach_le)
      rw [holdsAt_drop, h _ b hb] at hholds
      cases hholds
    · rw [← heq]
      exact ⟨b, hb⟩
  · rintro ⟨b, hb⟩
    exact ⟨_, mem_run_seq_drop.mpr ⟨⟨reach p hi (s.drop i), []⟩,
      mem_run_many.mpr ⟨rfl, Nat.zero_le _, le_refl _⟩, b, hb, rfl⟩⟩

theorem isSome_many_seq_drop (h : ∀ j m, m ∈ t.run (s.drop j) → holdsAt p s j = false) :
    ((seq (many p 0 none) t).match? (s.drop i)).isSome
      = (t.match? (s.drop (skipWhile p s i))).isSome :=
  isSome_many_seq_reach none h

/-- An optional character that the tail cannot start with is taken when it
is there. -/
theorem isSome_opt_seq_drop (h : ∀ j m, m ∈ t.run (s.drop j) → holdsAt p s j = false) :
    ((seq (many p 0 (some 1)) t).match? (s.drop i)).isSome
      = (t.match? (s.drop (if holdsAt p s i then i + 1 else i))).isSome := by
  have hreach : i + reach p (some 1) (s.drop i) = if holdsAt p s i then i + 1 else i := by
    rw [reach]
    split
    next hi =>
      have := lt_skipWhile hi
      rw [skipWhile] at this
      omega
    next hi =>
      have := skipWhile_of_not (Bool.eq_false_of_not_eq_true hi)
      rw [skipWhile] at this
      omega
  rw [isSome_many_seq_reach (some 1) h, hreach]

/-- One character and a tail match where the character is and the tail
matches after it. -/
theorem isSome_one_seq_drop :
    ((seq (one p) t).match? (s.drop i)).isSome
      = (holdsAt p s i && (t.match? (s.drop (i + 1))).isSome) := by
  rw [match?_seq_one_drop]
  cases holdsAt p s i with
  | false => rfl
  | true => simp

theorem isSome_one_drop :
    ((one p).match? (s.drop i)).isSome = holdsAt p s i := by
  rw [match?_one_drop]
  cases holdsAt p s i <;> rfl

/-- A match of a sequence starts where its head matches. -/
theorem holdsAt_of_mem_one_seq (h : m ∈ (seq (one p) t).run (s.drop i)) : holdsAt p s i = true := by
  obtain ⟨a, ha, -⟩ := mem_run_seq_drop.mp h
  exact (mem_run_one_drop.mp ha).1

/-! ## Searching -/

/-- One match of a search: where it starts, and the match. -/
abbrev Hit (α : Type*) := ℕ × Match α

/-- **The non-overlapping matches, left to right**, from offset `at`. At
most `fuel` positions are tried; `finditer` supplies one per character,
which is all there are, since every step moves forward. -/
def finditerFrom (r : Regex α) (s : List α) : ℕ → ℕ → List (Hit α)
  | 0, _ => []
  | fuel + 1, at_ =>
      if at_ < s.length then
        match r.match? (s.drop at_) with
        | some m => (at_, m) :: finditerFrom r s fuel (at_ + max 1 m.len)
        | none => finditerFrom r s fuel (at_ + 1)
      else []

/-- The search over the whole input, for a pattern that never matches the
empty string. -/
def finditer (r : Regex α) (s : List α) : List (Hit α) := finditerFrom r s s.length 0

end Regex

end Pydeno
