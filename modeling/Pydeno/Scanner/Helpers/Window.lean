import Pydeno.Scanner.Helpers.Lexing

/-!
# The window over the tokens

The native scanner keeps only a few tokens and has already run the rules
of most of them. `Tracks` says what it stands for: the window is a suffix
of the tokens pushed so far, long enough for the next rules, and the hits
found are those the rules give on the whole list. Pushing a token, running
rules and dropping tokens keep it so.
-/

namespace Pydeno.Scanner

open List

open Native (Tok TokText Window Scan Lexer)

/-- What a rule sees at an index of the whole list of tokens. -/
def fullAt (src : Text) (all : List Tok) (k : ℤ) : Option Token :=
  Reference.tokAt (all.map (Tok.seen src)) k

/-- **A window and its rules, against the whole list of tokens.** -/
structure Tracks (c : Scan) (w : Window) (nextRule : ℕ) (found : List Hit) (all : List Tok) :
    Prop where
  toks_eq : w.toks = all.drop w.base
  base_le : w.base ≤ all.length
  /-- The three tokens before the next rule are still there. -/
  keeps : w.base ≤ nextRule - 3
  found_eq : found = (List.range nextRule).flatMap fun k : ℕ =>
    Native.rules (fullAt c.src all) c.usability c.policy k

variable {c : Scan} {w : Window} {nextRule : ℕ} {found : List Hit} {all : List Tok}

section

variable (h : Tracks c w nextRule found all)
include h

theorem Tracks.len_eq : w.len = all.length := by
  have := h.base_le
  rw [Window.len, h.toks_eq, length_drop]
  omega

/-- From three tokens before the next rule on, the window answers like the
whole list. -/
theorem Tracks.tokAt_eq {k : ℤ} (hk : (nextRule : ℤ) - 3 ≤ k) :
    w.tokAt k = if 0 ≤ k then all[k.toNat]? else none := by
  have hkeep := h.keeps
  rw [Window.tokAt]
  by_cases hneg : k < w.base
  · rw [if_pos hneg, if_neg (by omega)]
  · rw [if_neg hneg, if_pos (by omega), h.toks_eq, List.getElem?_drop]
    congr 1
    omega

theorem Tracks.seen_eq {k : ℤ}
    (hk : (nextRule : ℤ) - 3 ≤ k) : w.seen c.src k = fullAt c.src all k := by
  rw [Window.seen, h.tokAt_eq hk, fullAt, Reference.tokAt]
  split
  · rw [List.getElem?_map]
  · rfl

end

/-! ## Running rules and dropping tokens -/

/-- Only the rules and the window change. -/
structure SameCursor (s s' : Lexer) : Prop where
  i_eq : s'.i = s.i
  stack_eq : s'.stack = s.stack
  parens_eq : s'.parens = s.parens
  noRegex_eq : s'.noRegexBefore = s.noRegexBefore

/-- Running rules leaves the cursor alone. -/
theorem loopRules_cursor (s : Lexer) (cond : Lexer → Bool) (fuel : ℕ) :
    SameCursor s (loop cond (Lexer.runRules c) fuel s) := by
  refine loop_invariant (P := fun s' : Lexer => SameCursor s s') ?_ fuel s ⟨rfl, rfl, rfl, rfl⟩
  rintro s' hcur _
  exact ⟨hcur.i_eq, hcur.stack_eq, hcur.parens_eq, hcur.noRegex_eq⟩

theorem flush_cursor (s : Lexer) : SameCursor s (s.flush c) := by
  have hcur := loopRules_cursor (c := c) s (fun s : Lexer => s.nextRule + 2 < s.window.len)
    s.window.len
  exact ⟨hcur.i_eq, hcur.stack_eq, hcur.parens_eq, hcur.noRegex_eq⟩

theorem push_cursor (s : Lexer) (kind : Kind) (off : ℕ) (text : TokText) :
    SameCursor s (s.push c kind off text) := by
  have hcur := flush_cursor (c := c) { s with
    window := { s.window with toks := s.window.toks ++ [⟨kind, off, text, false, false⟩] } }
  exact ⟨hcur.i_eq, hcur.stack_eq, hcur.parens_eq, hcur.noRegex_eq⟩

theorem setBack_cursor (s : Lexer) (f : Tok → Tok) : SameCursor s (s.setBack f) := by
  rw [Lexer.setBack]
  split
  · exact ⟨rfl, rfl, rfl, rfl⟩
  · exact ⟨rfl, rfl, rfl, rfl⟩

/-- Running the next rules on the window finds what they find on the whole
list. -/
theorem Tracks.runRules {s : Lexer} (h : Tracks c s.window s.nextRule s.found all) :
    Tracks c (s.runRules c).window (s.runRules c).nextRule (s.runRules c).found all where
  toks_eq := h.toks_eq
  base_le := h.base_le
  keeps := by
    have := h.keeps
    simp only [Lexer.runRules]
    omega
  found_eq := by
    have hrules := rules_congr (k := s.nextRule) (fun j hj => h.seen_eq (k := j) hj.1) c.usability
      c.policy
    simp only [Lexer.runRules, range_succ, flatMap_append, flatMap_singleton, ← h.found_eq, hrules]

/-- Any run of rules: how far it goes depends on the condition. -/
theorem Tracks.loopRules {s : Lexer} (h : Tracks c s.window s.nextRule s.found all)
    (cond : Lexer → Bool) (fuel : ℕ) :
    let s' := loop cond (Lexer.runRules c) fuel s
    Tracks c s'.window s'.nextRule s'.found all :=
  loop_invariant (P := fun s' : Lexer => Tracks c s'.window s'.nextRule s'.found all)
    (fun _ htr _ => htr.runRules) fuel s h

/-- A run of rules up to a bound ends at the bound. -/
theorem loopRules_nextRule {s : Lexer} (slack : ℕ) :
    let s' := loop (fun s : Lexer => s.nextRule + slack < s.window.len) (Lexer.runRules c)
      s.window.len s
    s.window.len - slack ≤ s'.nextRule ∧ s'.nextRule ≤ max s.nextRule (s.window.len - slack) := by
  intro s'
  have hwin : s'.window = s.window ∧ s'.nextRule ≤ max s.nextRule (s.window.len - slack) := by
    refine loop_invariant (P := fun t : Lexer => t.window = s.window ∧
      t.nextRule ≤ max s.nextRule (s.window.len - slack)) ?_ _ s ⟨rfl, le_max_left _ _⟩
    rintro t ⟨hw, hle⟩ hc
    rw [decide_eq_true_eq, hw] at hc
    refine ⟨hw, ?_⟩
    simp only [Lexer.runRules]
    omega
  have hdone := loop_done (fun s : Lexer => s.nextRule + slack < s.window.len)
    (Lexer.runRules c) (fun s => s.window.len - s.nextRule)
    (fun t ht => by
      rw [decide_eq_true_eq] at ht
      simp only [Lexer.runRules]
      omega) s.window.len s (by omega)
  rw [decide_eq_false_iff_not] at hdone
  have hlen : s'.window.len = s.window.len := by rw [hwin.1]
  exact ⟨by change ¬ s'.nextRule + slack < s'.window.len at hdone; omega, hwin.2⟩

/-- Dropping what is older than the kept tokens. -/
theorem Tracks.dropOld (h : Tracks c w nextRule found all) (fuel : ℕ) :
    Tracks c (loop (fun w : Window => w.base < nextRule - 3 && w.toks.length > 2) Window.popFront
      fuel w) nextRule found all := by
  refine loop_invariant (P := fun w : Window => Tracks c w nextRule found all) ?_ fuel w h
  intro w' hw hc
  simp only [Bool.and_eq_true, decide_eq_true_eq] at hc
  have hlen : w'.toks.length = all.length - w'.base := by rw [hw.toks_eq, length_drop]
  refine ⟨?_, ?_, ?_, hw.found_eq⟩
  · rw [Window.popFront, hw.toks_eq, tail_drop]
  · simp only [Window.popFront]
    omega
  · simp only [Window.popFront]
    omega

/-- **`flush`** runs every rule whose tokens are known. -/
theorem Tracks.flush {s : Lexer} (h : Tracks c s.window s.nextRule s.found all)
    (hnext : s.nextRule ≤ all.length - 2) :
    Tracks c (s.flush c).window (s.flush c).nextRule (s.flush c).found all ∧
      (s.flush c).nextRule = all.length - 2 := by
  have htr := h.loopRules (fun s : Lexer => s.nextRule + 2 < s.window.len) s.window.len
  obtain ⟨hge, hle⟩ := loopRules_nextRule (c := c) (s := s) 2
  refine ⟨htr.dropOld _, ?_⟩
  rw [h.len_eq] at hge hle
  simp only [Lexer.flush, h.len_eq]
  omega

/-! ## Pushing a token -/

/-- What was found on a list is found on a longer one. -/
theorem Tracks.extend (h : Tracks c w nextRule found all) (hnext : nextRule ≤ all.length - 2)
    (t : Tok) : Tracks c { w with toks := w.toks ++ [t] } nextRule found (all ++ [t]) where
  toks_eq := by rw [h.toks_eq, drop_append_of_le_length h.base_le]
  base_le := by
    have := h.base_le
    rw [length_append]
    exact le_trans this (Nat.le_add_right _ _)
  keeps := h.keeps
  found_eq := by
    rw [h.found_eq]
    refine flatMap_congr fun k hk => rules_congr (fun j hj => ?_) _ _
    have hlt := mem_range.mp hk
    rw [fullAt, fullAt, Reference.tokAt, Reference.tokAt, map_append]
    split
    · rw [List.getElem?_append_left (by rw [length_map]; omega)]
    · rfl

/-- **`push`**, against the whole list. -/
theorem Tracks.push {s : Lexer} (h : Tracks c s.window s.nextRule s.found all)
    (hnext : s.nextRule = all.length - 2) (kind : Kind) (off : ℕ) (text : TokText) :
    Tracks c (s.push c kind off text).window (s.push c kind off text).nextRule
        (s.push c kind off text).found (all ++ [⟨kind, off, text, false, false⟩]) ∧
      (s.push c kind off text).nextRule = all.length + 1 - 2 := by
  have hext := h.extend (le_of_eq hnext) ⟨kind, off, text, false, false⟩
  have hflush := flush (s := { s with
    window := { s.window with toks := s.window.toks ++ [⟨kind, off, text, false, false⟩] } })
    hext (by simp only [length_append, length_singleton]; omega)
  rw [length_append, length_singleton] at hflush
  exact hflush

/-- **Changing the last token** in a way no rule sees. -/
theorem Tracks.setBack {s : Lexer} {t : Tok} {f : Tok → Tok}
    (h : Tracks c s.window s.nextRule s.found (all ++ [t]))
    (hnext : s.nextRule = all.length + 1 - 2) (hf : (f t).seen c.src = t.seen c.src) :
    Tracks c (s.setBack f).window (s.setBack f).nextRule (s.setBack f).found (all ++ [f t]) ∧
      (s.setBack f).nextRule = all.length + 1 - 2 := by
  have hbase : s.window.base ≤ all.length := by
    have := h.keeps
    omega
  have htoks : s.window.toks = all.drop s.window.base ++ [t] := by
    rw [h.toks_eq, drop_append_of_le_length hbase]
  have hback : s.setBack f
      = { s with window := { s.window with toks := all.drop s.window.base ++ [f t] } } := by
    simp only [Lexer.setBack, htoks, List.getLast?_append, List.getLast?_singleton, Option.some_or,
      dropLast_concat]
  have hfull : fullAt c.src (all ++ [f t]) = fullAt c.src (all ++ [t]) := by
    funext k
    simp only [fullAt, map_append, map_singleton, hf]
  rw [hback]
  refine ⟨⟨?_, ?_, h.keeps, ?_⟩, hnext⟩
  · rw [drop_append_of_le_length hbase]
  · rw [length_append]
    exact le_trans hbase (Nat.le_add_right _ _)
  · rw [hfull]
    exact h.found_eq

end Pydeno.Scanner
