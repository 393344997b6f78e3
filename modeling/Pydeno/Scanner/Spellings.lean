import Pydeno.Scanner.Equivalence
import Pydeno.Scanner.Helpers.Reading
/-!
# The default scan finds a forbidden name however it is spelled

A name may be written with escapes for any of its characters and with line
continuations between them. Its spelling is a run of pieces of the source that stand
for the name (`rest_of_spells`), so that the name is a word of one of the two readings,
and a word that the policy forbids is reported. The scan stops listing at a cap, but
only when it has something to list (`scanViewLoop_eq_nil`).
-/

namespace Pydeno.Scanner

open List Classes

open Native (Replacement Decoded isHex escapeAt braceEscape isTerminator identifier global decode
  textScan)

/-! ## Spellings -/

/-- **The ways to write a character**: raw, with four digits, in braces with any number
of zeros in front, and with two digits. -/
inductive SpellsChar (c : ℕ) : Text → Prop
  | raw : SpellsChar c [c]
  | four {ds : Text} (hlen : ds.length = 4) (hhex : ∀ d ∈ ds, isHex d = true)
      (hvalue : Reference.int 16 ds = c) : SpellsChar c ([cp '\\', cp 'u'] ++ ds)
  | braced {zeros ds : Text} (hzeros : ∀ z ∈ zeros, z = cp '0')
      (hlen : 1 ≤ ds.length ∧ ds.length ≤ 6) (hhead : ds.head? ≠ some (cp '0'))
      (hhex : ∀ d ∈ ds, isHex d = true) (hvalue : Reference.int 16 ds = c)
      (hpoint : c ≤ 0x10FFFF) :
      SpellsChar c ([cp '\\', cp 'u', cp '\x7b'] ++ (zeros ++ (ds ++ [cp '\x7d'])))
  | two {ds : Text} (hlen : ds.length = 2) (hhex : ∀ d ∈ ds, isHex d = true)
      (hvalue : Reference.int 16 ds = c) : SpellsChar c ([cp '\\', cp 'x'] ++ ds)

/-- The line continuations. -/
def continuations : List Text :=
  [[cp '\\', cp '\n'], [cp '\\', cp '\r'], [cp '\\', cp '\r', cp '\n'], [cp '\\', 0x2028],
    [cp '\\', 0x2029]]

/-- **The spellings of a name**: of its characters, one after the other, with line
continuations between them; `broken` says whether there are any. -/
inductive Spells : Text → Bool → Text → Prop
  | last {c : ℕ} {s : Text} (h : SpellsChar c s) : Spells [c] false s
  | cons {c : ℕ} {s : Text} (h : SpellsChar c s) {name t : Text} {broken : Bool}
      (ht : Spells name broken t) : Spells (c :: name) broken (s ++ t)
  | broken {c : ℕ} {s : Text} (h : SpellsChar c s) {ks : List Text}
      (hks : ∀ k ∈ ks, k ∈ continuations) {name t : Text} {broken : Bool}
      (ht : Spells name broken t) : Spells (c :: name) true (s ++ (ks.flatten ++ t))

/-! ## Reading a spelling -/

section

variable {code : Text} {i : ℕ}
variable {s t ds : Text} {c : ℕ} {cls : Classes}

section

variable (h : code.drop i = s ++ t)
include h

theorem getElem?_of_drop {k : ℕ} (hk : k < s.length) : code[i + k]? = s[k]? := by
  rw [← List.getElem?_drop, h, List.getElem?_append_left hk]

theorem holdsAt_of_drop (p : ℕ → Bool) {k : ℕ} (hk : s[k]? = some c) :
    holdsAt p code (i + k) = p c := by
  have hlt := (List.getElem?_eq_some_iff.mp hk).1
  rw [holdsAt, getElem?_of_drop h hlt, hk, Option.any_some]

theorem length_of_drop (hs : s ≠ []) : i + s.length ≤ code.length := by
  have hlen := congrArg List.length h
  rw [length_drop, length_append] at hlen
  have : 0 < s.length := length_pos_iff.mpr hs
  omega

theorem drop_of_drop : code.drop (i + s.length) = t := by
  rw [← drop_drop, h, drop_left]

end

theorem slice_of_drop (h : code.drop i = s ++ (ds ++ t)) :
    slice code (i + s.length) (i + s.length + ds.length) = ds := by
  rw [slice, drop_of_drop h, Nat.add_sub_cancel_left, take_left]

theorem not_isHex_brace {d : ℕ} (h : isHex d = true) : d ≠ cp '\x7b' ∧ d ≠ cp '\x7d' := by
  refine ⟨?_, ?_⟩
  · rintro rfl
    revert h
    decide
  · rintro rfl
    revert h
    decide

/-- The digits after a letter. -/
theorem digits_of_drop {m : ℕ} (h : code.drop i = [cp '\\', c] ++ (ds ++ t))
    (hm : m = i + 2 + ds.length) :
    code[i + 1]? = some c ∧ slice code (i + 2) m = ds ∧ m ≤ code.length := by
  refine ⟨getElem?_of_drop h (by simp), hm ▸ slice_of_drop h, ?_⟩
  have hlength := congrArg List.length h
  simp only [length_drop, length_append, length_cons, length_nil] at hlength
  omega

/-- An escape of four digits. -/
theorem escapeAt_four (h : code.drop i = [cp '\\', cp 'u'] ++ (ds ++ t))
    (hlen : ds.length = 4) (hhex : ∀ d ∈ ds, isHex d = true) :
    escapeAt code i = some (i + 6, .one (Reference.int 16 ds)) := by
  obtain ⟨hu, hslice, hbound⟩ := digits_of_drop (m := i + 6) h (by omega)
  have hbrace : braceEscape code i = none := by
    obtain ⟨d, rest, rfl⟩ : ∃ d rest, ds = d :: rest := exists_cons_of_length_pos (by omega)
    have hd := hhex d mem_cons_self
    have h' : code.drop i = [cp '\\', cp 'u', d] ++ (rest ++ t) := h
    have hne : holdsAt (· == cp '\x7b') code (i + 2) = false := by
      rw [holdsAt_of_drop h' _ (k := 2) (c := d) rfl]
      exact beq_eq_false_iff_ne.mpr (not_isHex_brace hd).1
    rw [braceEscape, hne]
    rfl
  rw [escapeAt, hu]
  simp only [hbrace, if_true]
  rw [if_pos ⟨hbound, by rw [hslice]; simpa using hhex⟩, hslice, hexValue_eq hhex (by omega)]

/-- An escape of two digits. -/
theorem escapeAt_two (h : code.drop i = [cp '\\', cp 'x'] ++ (ds ++ t))
    (hlen : ds.length = 2) (hhex : ∀ d ∈ ds, isHex d = true) :
    escapeAt code i = some (i + 4, .one (Reference.int 16 ds)) := by
  obtain ⟨hx, hslice, hbound⟩ := digits_of_drop (m := i + 4) h (by omega)
  rw [escapeAt, hx]
  simp only [show cp 'x' ≠ cp 'u' by decide, if_false, if_true]
  rw [if_pos ⟨hbound, by rw [hslice]; simpa using hhex⟩, hslice, hexValue_eq hhex (by omega)]

/-- Where a run of characters ends that a test holds of. -/
theorem skipWhile_of_drop {p : ℕ → Bool} (h : code.drop i = s ++ t)
    (hs : ∀ c ∈ s, p c = true) (ht : ∀ c ∈ t.head?, p c = false) :
    skipWhile p code i = i + s.length := by
  rw [skipWhile, h, takeWhile_append_of_pos hs]
  cases t with
  | nil => simp
  | cons c t =>
    rw [takeWhile_cons_of_neg (by rw [ht c rfl]; exact Bool.false_ne_true), append_nil]

/-- An escape in braces. -/
theorem escapeAt_braced {zeros : Text}
    (h : code.drop i = [cp '\\', cp 'u', cp '\x7b'] ++ (zeros ++ (ds ++ cp '\x7d' :: t)))
    (hzeros : ∀ z ∈ zeros, z = cp '0') (hlen : 1 ≤ ds.length ∧ ds.length ≤ 6)
    (hhead : ds.head? ≠ some (cp '0')) (hhex : ∀ d ∈ ds, isHex d = true)
    (hpoint : Reference.int 16 ds ≤ 0x10FFFF) : escapeAt code i =
      some (i + 3 + zeros.length + ds.length + 1, .one (Reference.int 16 ds)) := by
  have hu : code[i + 1]? = some (cp 'u') := getElem?_of_drop h (by simp)
  have hopen : holdsAt (· == cp '\x7b') code (i + 2) = true :=
    holdsAt_of_drop h _ (k := 2) (c := cp '\x7b') rfl
  have hdigits : code.drop (i + 3) = zeros ++ (ds ++ cp '\x7d' :: t) := drop_of_drop h
  have hsignificant : code.drop (i + 3 + zeros.length) = ds ++ cp '\x7d' :: t :=
    drop_of_drop hdigits
  have hrest : code.drop (i + 3 + zeros.length + ds.length) = [cp '\x7d'] ++ t :=
    drop_of_drop hsignificant
  have hzero : skipWhile (· == cp '0') code (i + 3) = i + 3 + zeros.length := by
    refine skipWhile_of_drop hdigits (fun z hz => by rw [hzeros z hz]; rfl) ?_
    intro c hc
    rw [List.head?_append_of_ne_nil _ (by rintro rfl; simp at hlen)] at hc
    rw [beq_eq_false_iff_ne]
    rintro rfl
    exact hhead hc
  have hstop : skipWhile isHex code (i + 3 + zeros.length) =
      i + 3 + zeros.length + ds.length := by
    refine skipWhile_of_drop hsignificant hhex ?_
    intro c hc
    cases hc
    decide
  have hclose : holdsAt (· == cp '\x7d') code (i + 3 + zeros.length + ds.length) = true :=
    holdsAt_of_drop hrest _ (k := 0) (c := cp '\x7d') rfl
  have hslice : slice code (i + 3 + zeros.length) (i + 3 + zeros.length + ds.length) = ds := by
    rw [slice, hsignificant, Nat.add_sub_cancel_left, take_left]
  have hbrace : braceEscape code i =
      some (i + 3 + zeros.length + ds.length + 1, .one (Reference.int 16 ds)) := by
    simp only [braceEscape, hopen, if_true, hzero, hstop, hclose, hslice,
      hexValue_eq hhex (by omega : ds.length ≤ 8), hpoint, Bool.true_and]
    rw [if_pos]
    simp only [Bool.and_eq_true, decide_eq_true_eq]
    omega
  rw [escapeAt, hu]
  simp only [hbrace, if_true]

theorem not_isName_backslash (cls : Classes) : cls.isName (cp '\\') = false := by
  have hascii := (cls.ascii (cp '\\') (by decide)).1
  rw [isName, isWord, hascii]
  decide

theorem not_isName_newline (cls : Classes) : cls.isName (cp '\n') = false := by
  have hascii := (cls.ascii (cp '\n') (by decide)).1
  rw [isName, isWord, hascii]
  decide

/-- **A spelled character is one piece.** -/
theorem pieceAt_spells (hs : SpellsChar c s)
    (hname : cls.isName c = true) (h : code.drop i = s ++ t) :
    pieceAt code i = ⟨i, i + s.length, .one c⟩ := by
  cases hs with
  | raw =>
    have hc : code[i]? = some c := getElem?_of_drop h (k := 0) (by simp)
    have hback : ¬holdsAt (· == cp '\\') code i = true := by
      rw [holdsAt_of_getElem? hc, beq_iff_eq]
      rintro rfl
      rw [not_isName_backslash] at hname
      cases hname
    rw [pieceAt_raw hback, getD_eq_getElem?_getD, hc]
    rfl
  | @four ds hlen hhex hvalue =>
    rw [append_assoc] at h
    have hback : holdsAt (· == cp '\\') code i = true :=
      holdsAt_of_drop h _ (k := 0) (c := cp '\\') rfl
    rw [pieceAt_escape hback (escapeAt_four h hlen hhex), hvalue]
    simp [hlen]
  | @braced zeros ds hzeros hlen hhead hhex hvalue hpoint =>
    have h' : code.drop i =
        [cp '\\', cp 'u', cp '\x7b'] ++ (zeros ++ (ds ++ cp '\x7d' :: t)) := by
      rw [h]
      simp
    have hback : holdsAt (· == cp '\\') code i = true :=
      holdsAt_of_drop h' _ (k := 0) (c := cp '\\') rfl
    rw [pieceAt_escape hback (escapeAt_braced h' hzeros hlen hhead hhex (hvalue ▸ hpoint)), hvalue]
    simp only [length_append, length_cons, length_nil, Piece.mk.injEq, true_and, and_true]
    omega
  | @two ds hlen hhex hvalue =>
    rw [append_assoc] at h
    have hback : holdsAt (· == cp '\\') code i = true :=
      holdsAt_of_drop h _ (k := 0) (c := cp '\\') rfl
    rw [pieceAt_escape hback (escapeAt_two h hlen hhex), hvalue]
    simp [hlen]

/-- A backslash before a line terminator. -/
theorem escapeAt_terminator (hc : code[i + 1]? = some c) (hterm : isTerminator c = true) :
    escapeAt code i =
      some (if c = cp '\r' ∧ holdsAt (· == cp '\n') code (i + 2) then i + 3 else i + 2,
        .continuation) := by
  have hother : c ≠ cp 'u' ∧ c ≠ cp 'x' ∧ Native.isOctal c = false := by
    simp only [isTerminator, Bool.or_eq_true, beq_iff_eq] at hterm
    rcases hterm with ((rfl | rfl) | rfl) | rfl <;> decide
  rw [escapeAt, hc]
  simp only [if_neg hother.1, if_neg hother.2.1, hother.2.2, hterm, if_true, Bool.false_eq_true,
    if_false]
  split <;> rfl

/-- **A line continuation is one piece**, unless a newline comes behind a carriage
return. -/
theorem pieceAt_continuation {k : Text} (hk : k ∈ continuations) (h : code.drop i = k ++ t)
    (ht : t.head? ≠ some (cp '\n')) : pieceAt code i = ⟨i, i + k.length, .continuation⟩ := by
  have hescape : ∀ {c : ℕ} {u : Text}, k = cp '\\' :: c :: u → isTerminator c = true →
      pieceAt code i =
        ⟨i, if c = cp '\r' ∧ holdsAt (· == cp '\n') code (i + 2) then i + 3 else i + 2,
          .continuation⟩ := by
    rintro c u rfl hterm
    have hback : holdsAt (· == cp '\\') code i = true :=
      holdsAt_of_drop h _ (k := 0) (c := cp '\\') rfl
    have hc : code[i + 1]? = some c := getElem?_of_drop h (k := 1) (by simp)
    exact pieceAt_escape hback (escapeAt_terminator hc hterm)
  simp only [continuations, mem_cons, not_mem_nil, or_false] at hk
  rcases hk with rfl | rfl | rfl | rfl | rfl
  · rw [hescape rfl rfl]
    rfl
  · have hnext : holdsAt (· == cp '\n') code (i + 2) = false := by
      rw [holdsAt, ← List.getElem?_drop, h]
      cases t with
      | nil => rfl
      | cons c t => simpa [Option.any] using ht
    rw [hescape rfl rfl, hnext]
    rfl
  · have hnext : holdsAt (· == cp '\n') code (i + 2) = true :=
      holdsAt_of_drop h _ (k := 2) (c := cp '\n') rfl
    rw [hescape rfl rfl, hnext]
    rfl
  · rw [hescape rfl rfl]
    rfl
  · rw [hescape rfl rfl]
    rfl

/-- A spelling does not begin with a newline. -/
theorem SpellsChar.head_ne (hs : SpellsChar c s) (hname : cls.isName c = true) (t : Text) :
    (s ++ t).head? ≠ some (cp '\n') := by
  cases hs with
  | raw =>
    rintro h
    cases h
    rw [not_isName_newline] at hname
    cases hname
  | four | braced | two => simp [cp]

theorem Spells.head_ne {name : Text} {broken : Bool} (hs : Spells name broken s)
    (hname : ∀ c ∈ name, cls.isName c = true) (t : Text) : (s ++ t).head? ≠ some (cp '\n') := by
  cases hs with
  | last h => exact h.head_ne (hname _ mem_cons_self) t
  | cons h ht | broken h hks ht =>
    rw [append_assoc]
    exact h.head_ne (hname _ mem_cons_self) _

/-- **Line continuations** are pieces that stand for nothing. -/
theorem rest_of_continuations {ks : List Text} (hks : ∀ k ∈ ks, k ∈ continuations)
    (h : code.drop i = ks.flatten ++ t) (ht : t.head? ≠ some (cp '\n')) :
    ∃ ps, rest code i = ps ++ rest code (i + ks.flatten.length) ∧ readText false ps = [] := by
  induction ks generalizing i with
  | nil => exact ⟨[], by simp, rfl⟩
  | cons k ks ih =>
    rw [flatten_cons, append_assoc] at h
    have hk := hks k mem_cons_self
    have hks' : ∀ k ∈ ks, k ∈ continuations := fun k hk => hks k (mem_cons_of_mem _ hk)
    have hne : k ≠ [] := by
      rintro rfl
      revert hk
      decide
    have hback : (ks.flatten ++ t).head? ≠ some (cp '\n') := by
      cases ks with
      | nil => exact ht
      | cons k' ks =>
        have hk' := hks' k' mem_cons_self
        simp only [continuations, mem_cons, not_mem_nil, or_false] at hk'
        rcases hk' with rfl | rfl | rfl | rfl | rfl <;> simp [cp]
    have hpiece := pieceAt_continuation hk h hback
    obtain ⟨ps, hps, htext⟩ := ih hks' (drop_of_drop h)
    have hlt : i < code.length := by
      have := length_of_drop h hne
      have : 0 < k.length := length_pos_iff.mpr hne
      omega
    refine ⟨pieceAt code i :: ps, ?_, ?_⟩
    · rw [rest_of_lt hlt, hpiece, hps, flatten_cons, length_append, Nat.add_assoc]
      rfl
    · rw [readText_cons, htext, hpiece]
      rfl

theorem SpellsChar.ne_nil (hs : SpellsChar c s) : s ≠ [] := by
  cases hs <;> simp

theorem rest_of_char (hs : SpellsChar c s) (hname : cls.isName c = true) (h : code.drop i = s ++ t) :
    rest code i = ⟨i, i + s.length, .one c⟩ :: rest code (i + s.length) := by
  have hlt : i < code.length := by
    have := length_of_drop h hs.ne_nil
    have : 0 < s.length := length_pos_iff.mpr hs.ne_nil
    omega
  rw [rest_of_lt hlt, pieceAt_spells hs hname h]

/-- **A spelled name is a run of pieces** that stand for it; without line continuations,
in both readings. -/
theorem rest_of_spells {name : Text} {broken : Bool}
    (hs : Spells name broken s) (hname : ∀ c ∈ name, cls.isName c = true) (h : code.drop i = s ++ t) :
    ∃ ps, rest code i = ps ++ rest code (i + s.length) ∧ readText false ps = name ∧
      (broken = false → readText true ps = name) := by
  induction hs generalizing i with
  | @last c s hc =>
    exact ⟨[⟨i, i + s.length, .one c⟩], rest_of_char hc (hname c mem_cons_self) h, rfl,
      fun _ => rfl⟩
  | @cons c s hc name u broken hu ih =>
    rw [append_assoc] at h
    have hname' : ∀ d ∈ name, cls.isName d = true := fun d hd => hname d (mem_cons_of_mem _ hd)
    obtain ⟨ps, hps, hfalse, htrue⟩ := ih hname' (drop_of_drop h)
    refine ⟨⟨i, i + s.length, .one c⟩ :: ps, ?_, ?_, ?_⟩
    · rw [rest_of_char hc (hname c mem_cons_self) h, hps, length_append, Nat.add_assoc]
      rfl
    · rw [readText_cons, hfalse]
      rfl
    · intro hbroken
      rw [readText_cons, htrue hbroken]
      rfl
  | @broken c s hc ks hks name u broken hu ih =>
    rw [append_assoc, append_assoc] at h
    have hname' : ∀ d ∈ name, cls.isName d = true := fun d hd => hname d (mem_cons_of_mem _ hd)
    have hbehind := drop_of_drop h
    obtain ⟨qs, hqs, hempty⟩ := rest_of_continuations hks hbehind (hu.head_ne hname' t)
    obtain ⟨ps, hps, hfalse, -⟩ := ih hname' (drop_of_drop hbehind)
    refine ⟨⟨i, i + s.length, .one c⟩ :: (qs ++ ps), ?_, ?_, Bool.noConfusion⟩
    · rw [rest_of_char hc (hname c mem_cons_self) h, hqs, hps, length_append, length_append]
      simp [Nat.add_assoc]
    · rw [readText_cons, readText_append, hempty, hfalse]
      rfl

end

/-! ## Where a name stands -/

/-- The character read before a place of the source. -/
def charBefore (newline : Bool) (code : Text) (n : ℕ) : Option ℕ :=
  (readText newline ((pieces code).filter fun p => p.start < n)).getLast?

/-- The character read from a place of the source on. -/
def charFrom (newline : Bool) (code : Text) (n : ℕ) : Option ℕ :=
  (readText newline ((pieces code).filter fun p => n ≤ p.start)).head?

/-- **`source[a..b]` stands between non-word characters** in a reading. -/
def Between (cls : Classes) (newline : Bool) (code : Text) (a b : ℕ) : Prop :=
  (∀ c ∈ charBefore newline code a, cls.isName c = false) ∧
    ∀ c ∈ charFrom newline code b, cls.isName c = false

/-- No escape that begins before a place of the source reaches beyond it. -/
def Whole (code : Text) (n : ℕ) : Prop := ∀ p ∈ pieces code, p.start < n → p.stop ≤ n

variable {code name : Text} {policy : Policy}

/-- The pieces up to a place, where none reaches beyond it. -/
theorem rest_split {n : ℕ} (hn : n ≤ code.length) (i : ℕ) (hi : i ≤ n)
    (h : ∀ p ∈ rest code i, p.start < n → p.stop ≤ n) :
    rest code i = (rest code i).filter (fun p => p.start < n) ++ rest code n := by
  revert hi h
  refine rest_induction (motive := fun i ps => i ≤ n → (∀ p ∈ ps, p.start < n → p.stop ≤ n) →
    ps = ps.filter (fun p => p.start < n) ++ rest code n) ?_ ?_ i
  · intro i hend hi _
    rw [rest_of_le (by omega)]
    rfl
  · intro i hlt ih hi h
    have hstart := pieceAt_start code i
    rcases Nat.lt_or_ge i n with hin | hin
    · have hstop := h _ mem_cons_self (by omega)
      have hrest := ih hstop fun p hp => h p (mem_cons_of_mem _ hp)
      rw [filter_cons_of_pos (by simpa using hin), cons_append, ← hrest]
    · obtain rfl : i = n := by omega
      have hnone : (pieceAt code i :: rest code (pieceAt code i).stop).filter
          (fun p => p.start < i) = [] := by
        rw [filter_eq_nil_iff, ← rest_of_lt hlt]
        intro p hp
        have := (rest_sorted code i).1 p hp
        simp only [decide_eq_true_eq]
        omega
      rw [hnone, nil_append, rest_of_lt hlt]

/-- From a place on the pieces are those that begin there or later. -/
theorem filter_rest {n : ℕ} {pre : List Piece} (hpre : ∀ p ∈ pre, p.start < n)
    (h : pieces code = pre ++ rest code n) :
    (pieces code).filter (fun p => n ≤ p.start) = rest code n := by
  rw [h, filter_append, filter_eq_nil_iff.mpr, nil_append, filter_eq_self]
  · intro p hp
    exact decide_eq_true ((rest_sorted code n).1 p hp).1
  · intro p hp
    have := hpre p hp
    simp only [decide_eq_true_eq]
    omega

/-- Pieces in front of those from a place on begin before it. -/
theorem start_lt_of_append {i n : ℕ} {ps : List Piece} (h : rest code i = ps ++ rest code n) :
    ∀ p ∈ ps, p.start < n := by
  intro p hp
  obtain ⟨hbounds, hpairwise⟩ := rest_sorted code i
  rw [h] at hbounds hpairwise
  have hp' := hbounds p (mem_append_left _ hp)
  rcases Nat.lt_or_ge n code.length with hn | hn
  · have hnext : pieceAt code n ∈ rest code n := by
      rw [rest_of_lt hn]
      exact mem_cons_self
    have := (pairwise_append.mp hpairwise).2.2 p hp _ hnext
    rw [pieceAt_start] at this
    omega
  · omega

/-! ## A forbidden word is reported -/

/-- **The names a policy forbids** wherever they stand: those it lists, and those its
rules name without an exception. -/
def Forbidden (policy : Policy) (name : Text) : Prop :=
  name ∈ policy.forbiddenIdentifiers ∨ name ∈ policy.forbiddenGlobals ∨
    (policy.forbidEval = true ∧ name = pts "eval") ∨
    (policy.forbidFunction = true ∧ name = pts "Function") ∨
    (policy.forbidWebassembly = true ∧ name = pts "WebAssembly") ∨
    (policy.forbidComputedGlobalAccess = true ∧ name = pts "Reflect")

theorem Forbidden.contains (h : Forbidden policy name) :
    (Native.Interest.new policy).contains name = true := by
  rw [interest_contains, ← interest_words]
  simp only [Native.Interest.new, mem_append]
  rcases h with h | h | ⟨h, rfl⟩ | ⟨h, rfl⟩ | ⟨h, rfl⟩ | ⟨h, rfl⟩
  · simp [h]
  · simp [h]
  · simp [h]
  · simp [h]
  · simp [h]
  · simp [h]

theorem Forbidden.reports (h : Forbidden policy name)
    (cls : Classes) (code : Text) {d : Decoded} {start stop : ℕ}
    (hword : slice d.text start stop = name) :
    Native.wordReports cls policy code d start stop ≠ [] := by
  unfold Native.wordReports
  simp only [hword, ne_eq, append_eq_nil_iff, not_and_or]
  rcases h with h | h | ⟨h, rfl⟩ | ⟨h, rfl⟩ | ⟨h, rfl⟩ | ⟨h, rfl⟩
  · have hsome : (identifier policy name).isSome := by
      simpa [identifier] using h
    obtain ⟨k, hk⟩ := Option.isSome_iff_exists.mp hsome
    simp [hk]
  · have hsome : (global policy name).isSome := by
      simpa [global] using h
    obtain ⟨k, hk⟩ := Option.isSome_iff_exists.mp hsome
    simp [hk]
  · simp [h, (eq_iff _ _).mpr rfl]
  · simp [h, (eq_iff _ _).mpr rfl]
  · simp [h, (eq_iff _ _).mpr rfl]
  · simp [h, (eq_iff _ _).mpr rfl]

/-- The reports of a reading with no cap on them, from a place on. -/
def everyReport (cls : Classes) (policy : Policy) (interest : Native.Interest) (code : Text)
    (d : Decoded) : ℕ → ℕ → List Hit
  | 0, _ => []
  | fuel + 1, i =>
      if i < d.text.length then
        if holdsAt cls.isName d.text i then
          let stop := skipWhile cls.isName d.text i
          (if interest.contains (slice d.text i stop) then
            (Native.wordReports cls policy code d i stop).map fun r => ⟨r.1, r.2, d.original i⟩
           else []) ++ everyReport cls policy interest code d fuel stop
        else everyReport cls policy interest code d fuel (i + 1)
      else []

/-- The default scan with no cap on what it lists. -/
def uncapped (cls : Classes) (policy : Policy) (code : Text) : List Hit :=
  let reading (d : Decoded) := everyReport cls policy (.new policy) code d d.text.length 0
  reading (decode code false) ++
    if (decode code false).continued then reading (decode code true) else []

section

variable {cls : Classes} {policy : Policy} {interest : Native.Interest} {code : Text}
variable {d : Decoded}

/-- One round of the loop, at a word. -/
theorem scanViewLoop_word (fuel i reported : ℕ) (hi : i < d.text.length)
    (hat : holdsAt cls.isName d.text i = true) :
    Native.scanViewLoop cls policy interest code d (fuel + 1) i reported =
      if interest.contains (slice d.text i (skipWhile cls.isName d.text i)) then
        if reported ≥ MAX_POLICY_FINDINGS then [] else
          (Native.wordReports cls policy code d i (skipWhile cls.isName d.text i)).map
              (fun r => ⟨r.1, r.2, d.original i⟩) ++
            Native.scanViewLoop cls policy interest code d fuel (skipWhile cls.isName d.text i)
              (reported +
                (Native.wordReports cls policy code d i (skipWhile cls.isName d.text i)).length)
      else Native.scanViewLoop cls policy interest code d fuel (skipWhile cls.isName d.text i)
        reported := by
  have hname : holdsAt (fun c => cls.isWord c || c == cp '$') d.text i = true := hat
  rw [Native.scanViewLoop, if_pos hi, if_pos hname]
  rfl

theorem scanViewLoop_other (fuel i reported : ℕ) (hi : i < d.text.length)
    (hat : ¬holdsAt cls.isName d.text i = true) :
    Native.scanViewLoop cls policy interest code d (fuel + 1) i reported =
      Native.scanViewLoop cls policy interest code d fuel (i + 1) reported := by
  have hname : ¬holdsAt (fun c => cls.isWord c || c == cp '$') d.text i = true := hat
  rw [Native.scanViewLoop, if_pos hi, if_neg hname]

/-- **The cap never empties a reading**: it is met only where something is reported. -/
theorem scanViewLoop_eq_nil (fuel i reported : ℕ) (hcap : reported < MAX_POLICY_FINDINGS) :
    Native.scanViewLoop cls policy interest code d fuel i reported = [] ↔
      everyReport cls policy interest code d fuel i = [] := by
  induction fuel generalizing i with
  | zero => rfl
  | succ fuel ih =>
    by_cases hi : i < d.text.length
    · by_cases hat : holdsAt cls.isName d.text i = true
      · rw [scanViewLoop_word fuel i reported hi hat, everyReport, if_pos hi, if_pos hat,
          if_neg (Nat.not_le.mpr hcap)]
        dsimp only
        split
        · rw [append_eq_nil_iff, append_eq_nil_iff, map_eq_nil_iff]
          -- while nothing is reported the count stands still
          refine and_congr_right fun hnone => ?_
          rw [hnone]
          exact ih _
        · exact ih _
      · rw [scanViewLoop_other fuel i reported hi hat, everyReport, if_pos hi, if_neg hat]
        exact ih _
    · rw [Native.scanViewLoop, everyReport, if_neg hi, if_neg hi]

theorem scanView_eq_nil : Native.scanView cls policy interest code d = [] ↔
      everyReport cls policy interest code d d.text.length 0 = [] :=
  scanViewLoop_eq_nil _ _ _ (by decide)

/-- **The loop comes to every word.** -/
theorem everyReport_ne_nil (start stop : ℕ) (hlt : start < stop)
    (hword : ∀ j, start ≤ j → j < stop → holdsAt cls.isName d.text j = true)
    (hstop : holdsAt cls.isName d.text stop = false)
    (hbefore : start = 0 ∨ holdsAt cls.isName d.text (start - 1) = false)
    (hinterest : interest.contains (slice d.text start stop) = true)
    (hreports : Native.wordReports cls policy code d start stop ≠ []) (fuel i : ℕ)
    (hi : i ≤ start) (hfuel : d.text.length ≤ i + fuel) :
    everyReport cls policy interest code d fuel i ≠ [] := by
  have hin := lt_length_of_holdsAt (hword start (le_refl _) hlt)
  induction fuel generalizing i with
  | zero => omega
  | succ fuel ih =>
    rw [everyReport, if_pos (by omega)]
    by_cases hat : holdsAt cls.isName d.text i = true
    · rw [if_pos hat, ne_eq, append_eq_nil_iff, not_and_or]
      have hnext : i < skipWhile cls.isName d.text i := lt_skipWhile hat
      rcases Nat.lt_or_ge i start with hlt' | hge
      · -- a word before this one ends before it
        have hend : skipWhile cls.isName d.text i ≤ start := by
          rcases hbefore with h | h
          · omega
          · by_contra hbeyond
            rw [holdsAt_of_lt_skipWhile (i := i) (by omega) (by omega)] at h
            cases h
        exact .inr (ih _ hend (by omega))
      · obtain rfl : i = start := by omega
        rw [skipWhile_eq (by omega) hword hstop, if_pos hinterest, map_eq_nil_iff]
        exact .inl hreports
    · rw [if_neg hat]
      have hne : i ≠ start := by
        rintro rfl
        exact hat (hword i (le_refl _) hlt)
      exact ih (i + 1) (by omega) (by omega)

/-- **A text with a forbidden word in it is reported.** -/
theorem scanView_ne_nil {front name back : Text} (htext : d.text = front ++ (name ++ back))
    (hne : name ≠ []) (hname : ∀ c ∈ name, cls.isName c = true)
    (hfront : ∀ c ∈ front.getLast?, cls.isName c = false)
    (hback : ∀ c ∈ back.head?, cls.isName c = false) (hforbidden : Forbidden policy name) :
    Native.scanView cls policy (.new policy) code d ≠ [] := by
  have hlen : 0 < name.length := length_pos_iff.mpr hne
  have hslice : slice d.text front.length (front.length + name.length) = name := by
    rw [slice, htext, drop_left, Nat.add_sub_cancel_left, take_left]
  have hat : ∀ j, d.text[front.length + j]? = (name ++ back)[j]? := by
    intro j
    rw [htext, List.getElem?_append_right (by omega), Nat.add_sub_cancel_left]
  rw [ne_eq, scanView_eq_nil]
  refine everyReport_ne_nil front.length (front.length + name.length) (by omega) ?_ ?_ ?_ ?_
    (hforbidden.reports cls code hslice) _ 0 (Nat.zero_le _) (by omega)
  · intro j hj hj'
    obtain ⟨k, rfl⟩ := Nat.exists_eq_add_of_le hj
    rw [holdsAt, hat, List.getElem?_append_left (by omega),
      List.getElem?_eq_getElem (by omega), Option.any_some]
    exact hname _ (getElem_mem _)
  · rw [holdsAt, hat, List.getElem?_append_right (le_refl _), Nat.sub_self,
      ← List.head?_eq_getElem?, Option.any_eq_false]
    intro c hc
    rw [hback c hc]
  · rcases Nat.eq_zero_or_pos front.length with h | h
    · exact .inl h
    · right
      rw [holdsAt, htext, List.getElem?_append_left (by omega), ← List.getLast?_eq_getElem?,
        Option.any_eq_false]
      intro c hc
      rw [hfront c hc]
  · rw [hslice]
    exact hforbidden.contains

end

/-! ## Fail closed -/

/-- The list of findings is empty only where nothing was found. -/
theorem findings_ne_nil (policy : Option Policy) (code : Text) {hits : List Hit} (h : hits ≠ []) :
    Native.findings policy code hits ≠ [] := by
  obtain ⟨hit, rest, rfl⟩ := exists_cons_of_ne_nil h
  rw [native_findings_eq, ne_eq, map_eq_nil_iff]
  intro hnil
  have hkept : keepFirst Hit.key (hit :: rest) = [] := by
    have hperm := sortBy_perm Hit.offset (keepFirst Hit.key (hit :: rest))
    rw [hnil] at hperm
    exact hperm.nil_eq.symm
  rw [keepFirst, keepFirstFrom, if_neg not_mem_nil] at hkept
  cases hkept

/-- A finding of the default scan is one of the whole scan. -/
theorem checkSource_ne_nil (cls : Classes) (options : Options)
    (hdefault : policy.ignoreStringsAndComments = false) (h : textScan cls policy code ≠ []) :
    Native.checkSource cls options (some policy) code ≠ [] := by
  have hprecise : Native.precise (some policy) = false := hdefault
  refine findings_ne_nil _ _ ?_
  unfold Native.scan
  rw [hprecise]
  intro hnil
  exact h (append_eq_nil_iff.mp hnil).2

/-- **A reading around an occurrence of a name.** -/
theorem readText_around {cls : Classes} {s before after : Text} {broken : Bool}
    (hcode : code = before ++ (s ++ after)) (hs : Spells name broken s)
    (hname : ∀ c ∈ name, cls.isName c = true) (hwhole : Whole code before.length)
    (newline : Bool) (hnewline : newline = false ∨ broken = false) :
    ∃ front back, readText newline (pieces code) = front ++ (name ++ back) ∧
      front.getLast? = charBefore newline code before.length ∧
      back.head? = charFrom newline code (before.length + s.length) := by
  have hlen : before.length ≤ code.length := by
    rw [hcode, length_append]
    omega
  have hsplit := rest_split hlen 0 (Nat.zero_le _) hwhole
  have hdrop : code.drop before.length = s ++ after := by rw [hcode, drop_left]
  obtain ⟨ps, hps, hfalse, htrue⟩ := rest_of_spells hs hname hdrop
  have hread : readText newline ps = name := by
    rcases newline with _ | _
    · exact hfalse
    · exact htrue (hnewline.resolve_left Bool.noConfusion)
  -- everything in front of the occurrence, the occurrence, and what follows
  have hall : pieces code = ((pieces code).filter fun p => p.start < before.length) ++
      (ps ++ rest code (before.length + s.length)) := by
    rw [← hps]
    exact hsplit
  refine ⟨readText newline ((pieces code).filter fun p => p.start < before.length),
    readText newline (rest code (before.length + s.length)), ?_, rfl, ?_⟩
  · rw [← hread, ← readText_append, ← readText_append, ← hall]
  · rw [← append_assoc] at hall
    rw [charFrom, filter_rest (start_lt_of_append (i := 0) hall) hall]

/-- A spelling spells a name. -/
theorem Spells.name_ne_nil {s : Text} {broken : Bool} (hs : Spells name broken s) : name ≠ [] := by
  cases hs <;> exact cons_ne_nil _ _

/-- Where there is no line continuation the readings are one. -/
theorem readText_of_not_continued (h : (decode code false).continued = false) :
    readText true (pieces code) = readText false (pieces code) := by
  rw [continued_decode, any_eq_false] at h
  refine flatMap_congr fun p hp => ?_
  have hvalue := h p hp
  rcases hp' : p.value with c | _ | _
  all_goals simp_all [Piece.text, Replacement.text]

/-- **A spelled name is reported by the default scan.** -/
theorem textScan_ne_nil {cls : Classes} {s before after : Text}
    {broken : Bool} (hforbidden : Forbidden policy name)
    (hname : ∀ c ∈ name, cls.isName c = true) (hs : Spells name broken s)
    (hcode : code = before ++ (s ++ after)) (hwhole : Whole code before.length)
    (hbetween : Between cls false code before.length (before.length + s.length) ∨
      broken = false ∧ Between cls true code before.length (before.length + s.length)) :
    textScan cls policy code ≠ [] := by
  unfold textScan
  rw [ne_eq, append_eq_nil_iff, not_and_or]
  rcases hbetween with ⟨hfront, hback⟩ | ⟨hbroken, hfront, hback⟩
  · left
    obtain ⟨front, back, htext, hf, hb⟩ := readText_around hcode hs hname hwhole false (.inl rfl)
    rw [← hf] at hfront
    rw [← hb] at hback
    exact scanView_ne_nil (by rw [text_decode, htext]) hs.name_ne_nil hname hfront hback hforbidden
  · obtain ⟨front, back, htext, hf, hb⟩ :=
      readText_around hcode hs hname hwhole true (.inr hbroken)
    rw [← hf] at hfront
    rw [← hb] at hback
    by_cases hcontinued : (decode code false).continued = true
    · right
      rw [if_pos hcontinued]
      exact scanView_ne_nil (by rw [text_decode, htext]) hs.name_ne_nil hname hfront hback
        hforbidden
    · left
      rw [Bool.not_eq_true] at hcontinued
      rw [readText_of_not_continued hcontinued] at htext
      exact scanView_ne_nil (by rw [text_decode, htext]) hs.name_ne_nil hname hfront hback
        hforbidden

/-- The cap never turns a source with a finding into one without. -/
theorem textScan_eq_nil (cls : Classes) (policy : Policy) (code : Text) :
    textScan cls policy code = [] ↔ uncapped cls policy code = [] := by
  unfold textScan uncapped
  rw [append_eq_nil_iff, append_eq_nil_iff, scanView_eq_nil]
  refine and_congr_right fun _ => ?_
  split
  · exact scanView_eq_nil
  · exact Iff.rfl

/-- **The default scan fails closed on every spelling.** A source in which a forbidden
name stands between non-word characters, with each character raw or an escape and with
line continuations anywhere between them, has a finding; so has a source whose line
continuations are line breaks of code around an unbroken spelling. A source has a finding
where the scan without its cap has one, and the removal of duplicates leaves one of any. -/
theorem spelling_is_found (cls : Classes) (options : Options) (policy : Policy)
    (hdefault : policy.ignoreStringsAndComments = false) :
    (∀ (name s before after : Text) (broken : Bool), Forbidden policy name →
      (∀ c ∈ name, cls.isName c = true) → Spells name broken s →
      ∀ code, code = before ++ (s ++ after) → Whole code before.length →
      (Between cls false code before.length (before.length + s.length) ∨
        broken = false ∧ Between cls true code before.length (before.length + s.length)) →
      Native.checkSource cls options (some policy) code ≠ []) ∧
    (∀ code, uncapped cls policy code ≠ [] →
      Native.checkSource cls options (some policy) code ≠ []) ∧
    ∀ code hits, hits ≠ [] → Native.findings (some policy) code hits ≠ [] := by
  refine ⟨?_, ?_, ?_⟩
  · intro name s before after broken hforbidden hname hs code hcode hwhole hbetween
    exact checkSource_ne_nil cls options hdefault
      (textScan_ne_nil hforbidden hname hs hcode hwhole hbetween)
  · intro code hsome
    refine checkSource_ne_nil cls options hdefault ?_
    rwa [ne_eq, textScan_eq_nil]
  · intro code hits hsome
    exact findings_ne_nil _ code hsome

/-- The letter e in braces with zeros in front, a line continuation after the v, and the
letter a with two digits. -/
theorem spells_eval : Spells [cp 'e', cp 'v', cp 'a', cp 'l'] true
      ([cp '\\', cp 'u', cp '\x7b'] ++ (pts "00" ++ (pts "65" ++ [cp '\x7d'])) ++
        ([cp 'v'] ++ ([pts "\\\n"].flatten ++ ([cp '\\', cp 'x'] ++ pts "61" ++ [cp 'l'])))) := by
  have he : SpellsChar (cp 'e')
      ([cp '\\', cp 'u', cp '\x7b'] ++ (pts "00" ++ (pts "65" ++ [cp '\x7d']))) :=
    .braced (by decide) (by decide) (by decide) (by decide) (by decide) (by decide)
  have ha : SpellsChar (cp 'a') ([cp '\\', cp 'x'] ++ pts "61") :=
    .two rfl (by decide) (by decide)
  exact .cons he (.broken .raw (by decide) (.cons ha (.last .raw)))

/-- The spelled `eval` between parentheses. -/
theorem spelling_is_found_eval :
    Native.checkSource (Classes.forVersion 0) ⟨false, false, true⟩
      (some (strictPolicy false false)) (pts "(\\u\x7b0065\x7dv\\\n\\x61l)") ≠ [] := by
  refine (spelling_is_found (Classes.forVersion 0) ⟨false, false, true⟩
    (strictPolicy false false) rfl).1 _ _ (pts "(") (pts ")") true ?_ ?_ spells_eval _ ?_ ?_
    (.inl ?_)
  · exact .inr (.inr (.inl ⟨rfl, by decide⟩))
  · decide +kernel
  · decide +kernel
  · unfold Whole
    decide +kernel
  · unfold Between
    decide +kernel

/-- **A backslash in front of a name is read with it**: in `(\fetch)` the scan reads a form
feed and `etch`, so it finds nothing, although the name stands there between characters that
are in no word. -/
theorem spelling_missed : Forbidden (strictPolicy false false) (pts "fetch") ∧
    (∀ c ∈ pts "fetch", (Classes.forVersion 0).isName c = true) ∧
    Spells (pts "fetch") false (pts "fetch") ∧
    (Classes.forVersion 0).isName (cp '\\') = false ∧
    (Classes.forVersion 0).isName (cp ')') = false ∧
    Native.checkSource (Classes.forVersion 0) ⟨false, false, true⟩
      (some (strictPolicy false false)) (pts "(\\" ++ (pts "fetch" ++ pts ")")) = [] := by
  refine ⟨.inr (.inl (by decide)), by decide +kernel, ?_, by decide +kernel, by decide +kernel,
    by decide +kernel⟩
  exact .cons .raw (.cons .raw (.cons .raw (.cons .raw (.last .raw))))

end Pydeno.Scanner
