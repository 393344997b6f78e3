import Pydeno.Scanner.Helpers.Window

/-!
# The two tokenizers

`Sim` relates a native state to the reference's: the cursors and stacks are
equal, the reference's tokens are those the native scanner has pushed, and
its two sets of offsets are the flags of the native tokens. One round keeps
it (`tokenizeStep_sim`), so the tokenizers produce the same tokens.
-/

namespace Pydeno.Scanner

open List hiding beq_eq_decide

open Native (Tok TokText Window Scan Lexer)

/-- A punctuation token is one character, or `?.`. -/
def PunctText (text : Text) : Prop := (∃ ch, text = [ch]) ∨ text = pts "?."

/-- **The simulation**, with the list of all tokens pushed so far. -/
structure Sim (c : Scan) (n : Lexer) (r : Reference.State) (all : List Tok) : Prop where
  tracks : Tracks c n.window n.nextRule n.found all
  next_eq : n.nextRule = all.length - 2
  i_eq : n.i = r.i
  stack_eq : n.stack = r.stack
  parens_eq : n.parens = r.parens
  noRegex_eq : n.noRegexBefore = r.noRegexBefore
  toks_eq : r.toks = all.map (Tok.seen c.src)
  expression_eq : ∀ t ∈ all, t.closesExpression = decide (t.off ∈ r.closesExpression)
  control_eq : ∀ t ∈ all, t.closesControl = decide (t.off ∈ r.closesControl)
  below : ∀ t ∈ all, t.off < n.i
  expression_below : ∀ o ∈ r.closesExpression, o < n.i
  control_below : ∀ o ∈ r.closesControl, o < n.i
  ascending : all.Pairwise fun a b => a.off < b.off
  punct : ∀ t ∈ all, t.kind = .punct → PunctText (t.textIn c.src)

variable {c : Scan} {n : Lexer} {r : Reference.State} {all : List Tok}

/-! ## Extending the simulation -/

variable {r' : Reference.State}

/-- A round that pushes no token. -/
theorem Sim.skip (h : Sim c n r all) {n' : Lexer} (hlt : n.i < n'.i) (hi : n'.i = r'.i := by rfl)
    (hwin : n'.window = n.window ∧ n'.nextRule = n.nextRule ∧ n'.found = n.found := by
      exact ⟨rfl, rfl, rfl⟩)
    (hstack : n'.stack = r'.stack := by rfl) (hparens : n'.parens = r'.parens := by rfl)
    (hno : n'.noRegexBefore = r'.noRegexBefore := by rfl) (htoks : r'.toks = r.toks := by rfl)
    (hexp : r'.closesExpression = r.closesExpression := by rfl)
    (hctl : r'.closesControl = r.closesControl := by rfl) : Sim c n' r' all where
  tracks := by rw [hwin.1, hwin.2.1, hwin.2.2]; exact h.tracks
  next_eq := by rw [hwin.2.1]; exact h.next_eq
  i_eq := hi
  stack_eq := hstack
  parens_eq := hparens
  noRegex_eq := hno
  toks_eq := by rw [htoks]; exact h.toks_eq
  expression_eq := by rw [hexp]; exact h.expression_eq
  control_eq := by rw [hctl]; exact h.control_eq
  below t ht := lt_trans (h.below t ht) hlt
  expression_below o ho := by rw [hexp] at ho; exact lt_trans (h.expression_below o ho) hlt
  control_below o ho := by rw [hctl] at ho; exact lt_trans (h.control_below o ho) hlt
  ascending := h.ascending
  punct := h.punct

/-- A flag set at the cursor reads back on the new token and leaves the old
ones alone. -/
theorem flags_extend (flag : Tok → Bool) {old new : List ℕ} {t : Tok} {i : ℕ}
    (hold : ∀ a ∈ all, flag a = decide (a.off ∈ old)) (hbelow : ∀ a ∈ all, a.off < i)
    (hset : ∀ o ∈ old, o < i) (hoff : t.off = i) (hnew : new = if flag t then i :: old else old) :
    ∀ a ∈ all ++ [t], flag a = decide (a.off ∈ new) := by
  intro a ha
  rcases mem_append.mp ha with ha | ha
  · have hne : a.off ≠ i := Nat.ne_of_lt (hbelow a ha)
    rw [hold a ha, hnew]
    split
    · simp [hne]
    · rfl
  · obtain rfl := mem_singleton.mp ha
    have hnot : a.off ∉ old := fun hm => absurd (hset _ hm) (by omega)
    rw [hnew]
    cases hfl : flag a with
    | true => simp [hoff]
    | false => simp [hnot]

/-- **A round that pushes a token.** -/
theorem Sim.pushed (h : Sim c n r all) {n' : Lexer} {t : Tok}
    (htr : Tracks c n'.window n'.nextRule n'.found (all ++ [t]))
    (hnext : n'.nextRule = all.length + 1 - 2) (hoff : t.off = n.i) (hlt : n.i < n'.i)
    (hi : n'.i = r'.i) (hstack : n'.stack = r'.stack) (hparens : n'.parens = r'.parens)
    (hno : n'.noRegexBefore = r'.noRegexBefore) (htoks : r'.toks = r.toks ++ [t.seen c.src])
    (hexp : r'.closesExpression
      = if t.closesExpression then n.i :: r.closesExpression else r.closesExpression)
    (hctl : r'.closesControl = if t.closesControl then n.i :: r.closesControl else r.closesControl)
    (hpunct : t.kind = .punct → PunctText (t.textIn c.src)) : Sim c n' r' (all ++ [t]) where
  tracks := htr
  next_eq := by rw [length_append, length_singleton]; exact hnext
  i_eq := hi
  stack_eq := hstack
  parens_eq := hparens
  noRegex_eq := hno
  toks_eq := by rw [htoks, h.toks_eq, map_append, map_singleton]
  expression_eq := flags_extend Tok.closesExpression h.expression_eq h.below
    h.expression_below hoff hexp
  control_eq := flags_extend Tok.closesControl h.control_eq h.below h.control_below hoff hctl
  below a ha := by
    rcases mem_append.mp ha with ha | ha
    · exact lt_trans (h.below a ha) hlt
    · rw [mem_singleton.mp ha, hoff]
      exact hlt
  expression_below o ho := by
    rw [hexp] at ho
    split at ho
    · rcases mem_cons.mp ho with rfl | ho
      · exact hlt
      · exact lt_trans (h.expression_below o ho) hlt
    · exact lt_trans (h.expression_below o ho) hlt
  control_below o ho := by
    rw [hctl] at ho
    split at ho
    · rcases mem_cons.mp ho with rfl | ho
      · exact hlt
      · exact lt_trans (h.control_below o ho) hlt
    · exact lt_trans (h.control_below o ho) hlt
  ascending := by
    rw [pairwise_append]
    refine ⟨h.ascending, pairwise_singleton _ _, fun a ha b hb => ?_⟩
    rw [mem_singleton.mp hb, hoff]
    exact h.below a ha
  punct a ha := by
    rcases mem_append.mp ha with ha | ha
    · exact h.punct a ha
    · rw [mem_singleton.mp ha]
      exact hpunct

/-! ## Looking at the last tokens -/

section

variable (h : Sim c n r all)
include h

theorem Sim.len_eq : n.window.len = r.toks.length := by
  rw [h.tracks.len_eq, h.toks_eq, length_map]

/-- The last two tokens are the reference's. -/
theorem Sim.last_eq {back : ℕ} (hb : back ≤ 1) :
    n.window.last back = if back < all.length then all[all.length - 1 - back]? else none := by
  have hn := h.next_eq
  rw [Window.last, h.tracks.len_eq, h.tracks.tokAt_eq (by omega)]
  by_cases hlt : back < all.length
  · rw [if_pos (by omega), if_pos hlt]
    congr 1
    omega
  · rw [if_neg (by omega), if_neg hlt]

theorem Sim.fromEnd_eq {back : ℕ} (hb : back ≤ 1) :
    Reference.fromEnd r.toks back = (n.window.last back).map (Tok.seen c.src) := by
  rw [h.last_eq hb, Reference.fromEnd, h.toks_eq, length_map, List.getElem?_map]
  split
  · rfl
  · rfl

theorem Sim.mem_of_last {back : ℕ} (hb : back ≤ 1) {t : Tok}
    (ht : n.window.last back = some t) : t ∈ all := by
  rw [h.last_eq hb] at ht
  split at ht
  · exact mem_of_getElem? ht
  · cases ht

theorem Sim.afterAccess_eq : Reference.afterAccess r.toks ((r.toks.length : ℤ) - 1)
      = Native.afterAccess c.src n.window ((n.window.len : ℤ) - 1) := by
  have hn := h.next_eq
  have hlen : r.toks.length = all.length := by rw [h.toks_eq, length_map]
  rw [Reference.afterAccess, Native.afterAccess, h.tracks.len_eq, hlen]
  by_cases hpos : (0 : ℤ) < (all.length : ℤ) - 1
  · rw [h.tracks.tokAt_eq (by omega), if_pos (by omega), h.toks_eq, List.getElem?_map]
    simp only [hpos, decide_true, Bool.true_and]
    cases all[((all.length : ℤ) - 1 - 1).toNat]? with
    | none => rfl
    | some t =>
      simp only [Option.map_some, Option.any_some, Tok.seen, eq_decide]
      rw [Bool.eq_iff_iff]
      simp [Reference.ACCESS]
  · simp only [hpos, decide_false, Bool.false_and]

end

theorem oneOf_eq (t : Text) (words : List String) :
    Native.oneOf t words = decide (t ∈ words.map pts) := by
  rw [Native.oneOf, Bool.eq_iff_iff, any_eq_true, decide_eq_true_eq, mem_map]
  simp only [eq_iff]
  exact exists_congr fun w => and_congr_right fun _ => eq_comm

/-- A substring of one character, or of `?.`. -/
theorem contains_punct {s text : Text} (hp : PunctText text)
    (hq : PyStr.contains s (pts "?.") = false) :
    PyStr.contains s text = (text.length == 1 && s.any fun ch => text.getD 0 0 == ch) := by
  rcases hp with ⟨ch, rfl⟩ | rfl
  · rw [Bool.eq_iff_iff, PyStr.contains, any_eq_true]
    simp only [length_singleton, beq_self_eq_true, Bool.true_and, getD_cons_zero,
      any_eq_true, mem_range]
    constructor
    · rintro ⟨i, hi, hs⟩
      have h := PyStr.startsWith_eq_all s [ch] i 0
      rw [Nat.add_zero, hs] at h
      obtain ⟨x, hx, hxc⟩ := holdsAt_iff.mp (by simpa using h.symm)
      exact ⟨x, mem_of_getElem? hx, beq_iff_eq.mpr (of_decide_eq_true hxc).symm⟩
    · rintro ⟨x, hx, hxc⟩
      obtain ⟨i, hi, rfl⟩ := getElem_of_mem hx
      refine ⟨i, by omega, ?_⟩
      have h := PyStr.startsWith_eq_all s [ch] i 0
      rw [Nat.add_zero] at h
      rw [h]
      simp [holdsAt, List.getElem?_eq_getElem hi, (beq_iff_eq.mp hxc)]
  · rw [hq]
    rfl

theorem contains_sign {text : Text} (hp : PunctText text) :
    PyStr.contains (pts "+-") text = true ↔ text = pts "+" ∨ text = pts "-" := by
  rw [contains_punct hp (by decide)]
  rcases hp with ⟨ch, rfl⟩ | rfl
  · simp [pts]
  · decide

/-- Both look alike for a text right before a token. -/
theorem Sim.beside_eq (h : Sim c n r all) (t : Tok) (w : Text) :
    (Reference.fromEnd r.toks 1).any (fun p => decide (p.text = w ∧
        (p.off : ℤ) = ((t.seen c.src).off : ℤ) - 1))
      = (n.window.last 1).any fun p => p.textIn c.src == w && p.off + 1 == t.off := by
  rw [h.fromEnd_eq (le_refl 1), Option.any_map]
  refine congrArg (fun f => Option.any f _) (funext fun p => ?_)
  rw [Bool.eq_iff_iff]
  simp only [Tok.seen, Bool.and_eq_true, beq_iff_eq]
  refine decide_eq_true_iff.trans (and_congr_right fun _ => ?_)
  omega

/-- **A `/` is read alike**: as a division, or as the start of a regular
expression. -/
theorem Sim.regexAllowed_eq (h : Sim c n r all) :
    Reference.regexAllowed c.policyTokens r = Native.regexAllowed c n.window := by
  rw [Reference.regexAllowed, Native.regexAllowed, h.fromEnd_eq (Nat.zero_le 1)]
  cases hlast : n.window.last 0 with
  | none => rfl
  | some t =>
    have hmem := h.mem_of_last (Nat.zero_le 1) hlast
    simp only [Option.map_some, h.beside_eq t, h.afterAccess_eq]
    rw [← h.len_eq]
    cases hk : t.kind with
    | num | str | tpl | re => simp [Tok.seen, hk]
    | id =>
      simp only [Tok.seen, hk, oneOf_eq]
      cases c.policyTokens <;> rfl
    | punct =>
      have hsign := contains_sign (h.punct t hmem hk)
      simp only [Tok.seen, hk, h.expression_eq t hmem, h.control_eq t hmem, eq_decide, hsign,
        mem_cons, not_mem_nil, or_false, reduceCtorEq, if_false, or_self,
        Bool.and_eq_true, Bool.or_eq_true, decide_eq_true_eq, and_assoc]
      cases c.policyTokens with
      | false => simp
      | true => simp

/-- **A brace is read alike**: as an object literal's, or as a block's. -/
theorem Sim.expressionExpected_eq (h : Sim c n r all) :
    Reference.expressionExpected r = Native.expressionExpected c n.window := by
  rw [Reference.expressionExpected, Native.expressionExpected, h.fromEnd_eq (Nat.zero_le 1)]
  cases hlast : n.window.last 0 with
  | none => rfl
  | some t =>
    have hmem := h.mem_of_last (Nat.zero_le 1) hlast
    simp only [Option.map_some, h.beside_eq t, h.afterAccess_eq]
    rw [← h.len_eq]
    cases hk : t.kind with
    | num | str | tpl | re => simp [Tok.seen, hk]
    | id =>
      simp only [Tok.seen, hk, oneOf_eq]
      rfl
    | punct =>
      have hcont := contains_punct (s := pts "([,=:?!~+-*%&|^<>/") (h.punct t hmem hk) (by decide)
      simp only [Tok.seen, hk, reduceCtorEq, if_false, ne_eq, not_true_eq_false, hcont, eq_decide,
        beq_eq_decide, Bool.and_eq_true, decide_eq_true_eq, and_assoc]

/-! ## One round -/

/-- The text of a punctuation mark of one character. -/
theorem punct_text {src : Text} {i : ℕ} (hi : i < src.length) :
    slice src i (i + 1) = [src.getD i 0] := by
  rw [slice_succ 0 (le_refl i) hi, slice_self, nil_append]

/-- The text of `?.`. -/
theorem optionalDot_text {src : Text} {i : ℕ} (h : Native.startsWith src i "?." = true) :
    slice src i (i + 2) = pts "?." := by
  rw [startsWith_pair '?' '.' rfl, Bool.and_eq_true, holdsAt_iff_getD 0, holdsAt_iff_getD 0] at h
  obtain ⟨⟨hi, h1⟩, hi', h2⟩ := h
  rw [slice_succ 0 (Nat.le_succ i) hi', punct_text hi, beq_iff_eq.mp h1, beq_iff_eq.mp h2]
  rfl

/-- A token whose flags stay clear, pushed at the cursor. -/
theorem Sim.push (h : Sim c n r all) {s : Lexer} {kind : Kind} {tt : TokText} {j : ℕ} (hlt : n.i < j)
    (htoks : r'.toks = r.toks ++ [(⟨kind, n.i, tt, false, false⟩ : Tok).seen c.src])
    (hpunct : kind = .punct → PunctText ((⟨kind, n.i, tt, false, false⟩ : Tok).textIn c.src) := by
      simp)
    (hwin : s.window = n.window ∧ s.nextRule = n.nextRule ∧ s.found = n.found := by
      exact ⟨rfl, rfl, rfl⟩)
    (hj : r'.i = j := by rfl) (hstack : r'.stack = s.stack := by rfl)
    (hparens : r'.parens = s.parens := by rfl) (hno : r'.noRegexBefore = s.noRegexBefore := by rfl)
    (hexp : r'.closesExpression = r.closesExpression := by rfl)
    (hctl : r'.closesControl = r.closesControl := by rfl) :
    n.i < j ∧ ∃ all', Sim c { s.push c kind n.i tt with i := j } r' all' := by
  have htr : Tracks c s.window s.nextRule s.found all := by
    rw [hwin.1, hwin.2.1, hwin.2.2]; exact h.tracks
  obtain ⟨htr', hnext⟩ := htr.push (by rw [hwin.2.1]; exact h.next_eq) kind n.i tt
  have hcur := push_cursor (c := c) s kind n.i tt
  exact ⟨hlt, _, h.pushed htr' hnext rfl hlt hj.symm (by rw [hstack]; exact hcur.stack_eq)
    (by rw [hparens]; exact hcur.parens_eq) (by rw [hno]; exact hcur.noRegex_eq) htoks hexp hctl
    hpunct⟩

/-- A closing mark, pushed at the cursor and then flagged. -/
theorem Sim.pushFlag (h : Sim c n r all) {s : Lexer} {f : Tok → Tok}
    (hwin : s.window = n.window ∧ s.nextRule = n.nextRule ∧ s.found = n.found)
    (hi : n.i < c.src.length) (hj : r'.i = n.i + 1) (hstack : r'.stack = s.stack)
    (hparens : r'.parens = s.parens) (hno : r'.noRegexBefore = s.noRegexBefore)
    (htoks : r'.toks = r.toks ++ [⟨.punct, [c.src.getD n.i 0], n.i⟩])
    (hf : ∀ t : Tok, (f t).kind = t.kind ∧ (f t).off = t.off ∧ (f t).text = t.text)
    (hexp : r'.closesExpression
      = if (f ⟨.punct, n.i, .src n.i (n.i + 1), false, false⟩).closesExpression then
          n.i :: r.closesExpression else r.closesExpression) (hctl : r'.closesControl
      = if (f ⟨.punct, n.i, .src n.i (n.i + 1), false, false⟩).closesControl then
          n.i :: r.closesControl else r.closesControl) :
    n.i < n.i + 1 ∧ ∃ all', Sim c { (s.punct c n.i 1).setBack f with i := n.i + 1 } r' all' := by
  have htr : Tracks c s.window s.nextRule s.found all := by
    rw [hwin.1, hwin.2.1, hwin.2.2]; exact h.tracks
  obtain ⟨htr', hnext⟩ := htr.push (by rw [hwin.2.1]; exact h.next_eq) .punct n.i
    (.src n.i (n.i + 1))
  have hcur := push_cursor (c := c) s .punct n.i (.src n.i (n.i + 1))
  set t : Tok := ⟨.punct, n.i, .src n.i (n.i + 1), false, false⟩ with ht
  obtain ⟨hk, ho, htx⟩ := hf t
  have hseen : (f t).seen c.src = ⟨.punct, [c.src.getD n.i 0], n.i⟩ := by
    rw [Tok.seen, Tok.textIn, htx, hk, ho, ht]
    simp only [punct_text hi]
  have hseen' : t.seen c.src = ⟨.punct, [c.src.getD n.i 0], n.i⟩ := by
    rw [Tok.seen, Tok.textIn, ht]
    simp only [punct_text hi]
  obtain ⟨htr'', hnext'⟩ := htr'.setBack (f := f) hnext (hseen.trans hseen'.symm)
  have hcur' := setBack_cursor (s.punct c n.i 1) f
  refine ⟨Nat.lt_succ_self _, _, h.pushed htr'' hnext' ho (Nat.lt_succ_self _) hj.symm ?_ ?_ ?_
    (by rw [htoks, hseen]) hexp hctl fun _ => .inl ⟨c.src.getD n.i 0, ?_⟩⟩
  · rw [hstack]; exact hcur'.stack_eq.trans hcur.stack_eq
  · rw [hparens]; exact hcur'.parens_eq.trans hcur.parens_eq
  · rw [hno]; exact hcur'.noRegex_eq.trans hcur.noRegex_eq
  · rw [Tok.textIn, htx, ht]
    exact punct_text hi

/-- A punctuation mark of one character, pushed at the cursor. -/
theorem Sim.punctOne (h : Sim c n r all) {s : Lexer} {ch : Text} (hi : n.i < c.src.length)
    (htoks : r'.toks = r.toks ++ [⟨.punct, ch, n.i⟩]) (hch : ch = [c.src.getD n.i 0])
    (hwin : s.window = n.window ∧ s.nextRule = n.nextRule ∧ s.found = n.found := by
      exact ⟨rfl, rfl, rfl⟩)
    (hj : r'.i = n.i + 1 := by rfl) (hstack : r'.stack = s.stack := by rfl)
    (hparens : r'.parens = s.parens := by rfl) (hno : r'.noRegexBefore = s.noRegexBefore := by rfl)
    (hexp : r'.closesExpression = r.closesExpression := by rfl)
    (hctl : r'.closesControl = r.closesControl := by rfl) :
    n.i < n.i + 1 ∧ ∃ all', Sim c { s.punct c n.i 1 with i := n.i + 1 } r' all' := by
  have htext : (⟨.punct, n.i, .src n.i (n.i + 1), false, false⟩ : Tok).textIn c.src = ch := by
    rw [hch]
    exact punct_text hi
  exact h.push (Nat.lt_succ_self _) (by rw [htoks, Tok.seen, htext])
    (fun _ => .inl ⟨c.src.getD n.i 0, htext.trans hch⟩) hwin hj hstack hparens hno hexp hctl

/-- Both ask alike, and go on alike. -/
theorem sim_ite {p q : Prop} [Decidable p] [Decidable q] {m m' : Lexer} {t t' : Reference.State}
    (hqp : q ↔ p) (hpos : p → n.i < m.i ∧ ∃ all', Sim c m t all')
    (hneg : ¬p → n.i < m'.i ∧ ∃ all', Sim c m' t' all') : n.i < (if p then m else m').i ∧
      ∃ all', Sim c (if p then m else m') (if q then t else t') all' := by
  by_cases hp : p
  · rw [if_pos hp, if_pos (hqp.mpr hp)]
    exact hpos hp
  · rw [if_neg hp, if_neg fun hq => hp (hqp.mp hq)]
    exact hneg hp

/-- **One round of the two tokenizers.** -/
theorem tokenizeStep_sim (h : Sim c n r all) (hi : n.i < c.src.length) :
    n.i < (Native.tokenizeStep c n).i ∧ ∃ all', Sim c (Native.tokenizeStep c n)
      (Reference.tokenizeStep c.cls c.policyTokens c.src r) all' := by
  have hri : r.i = n.i := h.i_eq.symm
  rw [Native.tokenizeStep, Reference.tokenizeStep]
  simp only [hri, startsWith_eq, Reference.State.append, ← h.stack_eq, ← h.parens_eq,
    ← h.noRegex_eq]
  set ch := c.src.getD n.i 0 with hch
  -- white space
  refine sim_ite (by rw [mem_SPACING]; simp) (fun _ => ?_) fun _ => ?_
  · exact ⟨Nat.lt_succ_self _, all, h.skip (Nat.lt_succ_self _)⟩
  -- comments
  refine sim_ite Iff.rfl (fun h2 => ?_) fun _ => ?_
  · rw [not_LINE_ENDS]
    have hlt : n.i < skipWhile (fun x => !Native.isTerminator x) c.src n.i := by
      rw [startsWith_pair '/' '/' rfl, Bool.and_eq_true, holdsAt_iff_getD 0, beq_iff_eq] at h2
      exact lt_skipWhile ((holdsAt_iff_getD 0).mpr ⟨hi, by rw [h2.1.2]; rfl⟩)
    exact ⟨hlt, all, h.skip hlt⟩
  refine sim_ite Iff.rfl (fun _ => ?_) fun _ => ?_
  · rw [blockEnd_eq]
    have hle := le_blockEnd c.src c.src.length (n.i + 2)
    have hlt : n.i < Native.blockEnd c.src c.src.length (n.i + 2) := by omega
    exact ⟨hlt, all, h.skip hlt⟩
  -- strings
  refine sim_ite (by simp [pts, cp]) (fun _ => ?_) fun _ => ?_
  · rw [stringEnd_eq, PyStr.slice_natCast]
    have hle := le_stringEnd c.src ch c.src.length (n.i + 1)
    refine h.push (by dsimp only; omega) ?_
    simp only [Tok.seen, Tok.textIn, slice_min]
  -- templates
  refine sim_ite beq_iff_eq.symm (fun _ => ?_) fun _ => ?_
  · rw [scanTemplate_eq]
    have hle := le_scanTemplate c.src c.src.length (n.i + 1)
    generalize Native.scanTemplate c.src c.src.length (n.i + 1) = scanned at hle ⊢
    obtain ⟨j, closed⟩ := scanned
    simp only at hle ⊢
    set tt := if (c.policyTokens && closed) = true then TokText.src (n.i + 1) (max (j - 1) (n.i + 1))
      else TokText.src n.i n.i with htt
    obtain ⟨htr, hnext⟩ := h.tracks.push h.next_eq .tpl n.i tt
    have hcur := push_cursor (c := c) n .tpl n.i tt
    -- the text between the backticks, or nothing
    have htext : (⟨.tpl, n.i, tt, false, false⟩ : Tok).textIn c.src
        = if c.policyTokens = true ∧ closed = true then
            PyStr.slice c.src ((n.i + 1 : ℕ) : ℤ) ((j : ℤ) - 1) else [] := by
      rw [Tok.textIn, htt]
      by_cases hc : c.policyTokens = true ∧ closed = true
      · rw [if_pos hc, if_pos (by simp [hc.1, hc.2]), show (j : ℤ) - 1 = ((j - 1 : ℕ) : ℤ) by omega,
          PyStr.slice_natCast]
        change slice c.src (n.i + 1) (max (j - 1) (n.i + 1)) = _
        rw [slice, slice]
        congr 1
        omega
      · rw [if_neg hc, if_neg (by simpa using hc)]
        exact slice_self
    have hlt : n.i < j := by omega
    refine ⟨hlt, _, h.pushed htr hnext rfl hlt rfl ?_ hcur.parens_eq hcur.noRegex_eq
      ?_ rfl rfl (by simp)⟩
    · simp only [hcur.stack_eq]
    · rw [Tok.seen, htext]
  -- an opening brace
  refine sim_ite beq_iff_eq.symm (fun _ => ?_) fun _ => ?_
  · rw [h.expressionExpected_eq]
    simp only [Bool.and_eq_true]
    exact h.punctOne hi rfl (congrArg (fun x => [x]) hch)
  -- a closing brace
  refine sim_ite beq_iff_eq.symm (fun _ => ?_) fun _ => ?_
  · refine sim_ite beq_iff_eq.symm (fun _ => ?_) fun _ => ?_
    · rw [scanTemplate_eq]
      have hle := le_scanTemplate c.src c.src.length (n.i + 1)
      generalize Native.scanTemplate c.src c.src.length (n.i + 1) = scanned at hle ⊢
      obtain ⟨j, closed⟩ := scanned
      simp only at hle ⊢
      have hlt : n.i < j := by omega
      exact ⟨hlt, all, h.skip hlt⟩
    · refine h.pushFlag ⟨rfl, rfl, rfl⟩ hi rfl rfl rfl rfl rfl (fun t => ⟨rfl, rfl, rfl⟩) ?_ rfl
      simp only [beq_iff_eq]
  -- parentheses, under a policy
  refine sim_ite (by simp [pts, cp]) (fun _ => ?_) fun _ => ?_
  · have hcontrol : (Reference.fromEnd r.toks 0).any (fun t =>
          decide (t.kind = .id ∧ t.text ∈ Reference.CONTROL_HEADS))
        = (n.window.tokAt ((n.window.len : ℤ) - 1)).any fun t =>
            t.kind == .id && Native.oneOf (t.textIn c.src) Native.CONTROL_HEADS := by
      rw [h.fromEnd_eq (Nat.zero_le 1), Option.any_map, Window.last]
      rw [show ((n.window.len : ℤ) - 1 - ((0 : ℕ) : ℤ)) = (n.window.len : ℤ) - 1 by omega]
      refine congrArg (fun f => Option.any f _) (funext fun t => ?_)
      rw [Bool.eq_iff_iff, oneOf_eq]
      simp only [Tok.seen, Bool.and_eq_true, beq_iff_eq, decide_eq_true_eq]
      exact decide_eq_true_iff
    rw [hcontrol, h.afterAccess_eq]
    refine h.pushFlag (s := { n with parens := _ }) ⟨rfl, rfl, rfl⟩ hi rfl rfl ?_ rfl rfl
      (fun t => ⟨rfl, rfl, rfl⟩) rfl ?_
    · simp only [beq_iff_eq]
    · simp only [Bool.and_eq_true, bne_iff_ne, beq_iff_eq]
  -- a regular expression, or a `/` that starts none
  refine sim_ite (by rw [h.regexAllowed_eq]; simp [and_assoc]) (fun h9 => ?_) fun _ => ?_
  · rw [regexEnd_eq]
    have hle := le_regexEnd c.src c.src.length (n.i + 1) false
    generalize Native.regexEnd c.src c.src.length (n.i + 1) false = j at hle ⊢
    refine sim_ite (by rw [holdsAt_iff_getD 0, beq_iff_eq]) (fun _ => ?_) fun _ => ?_
    · have hskip : j + 1 ≤ skipWhile c.cls.isIdChar c.src (j + 1) := le_skipWhile
      refine h.push (by dsimp only; omega) ?_
      simp only [Tok.seen, Tok.textIn, slice_self]
    · refine h.punctOne hi rfl ?_
      simp only [Bool.and_eq_true, beq_iff_eq] at h9
      rw [← hch, h9.1.1]
      rfl
  -- identifiers, without a policy and then under one
  refine sim_ite (by simp [and_assoc, and_comm, and_left_comm]) (fun _ => ?_) fun _ => ?_
  · rw [PyStr.slice_natCast]
    have hskip : n.i + 1 ≤ skipWhile c.cls.isIdChar c.src (n.i + 1) := le_skipWhile
    exact h.push (by dsimp only; omega) rfl
  refine sim_ite (by simp) (fun _ => ?_) fun _ => ?_
  · obtain ⟨hloop, hle⟩ := identifierLoop_eq c.cls c.src n.i c.src.length n.i none (le_refl _)
      (le_of_lt hi)
    rw [Option.getD_none, slice_self] at hloop
    rw [hloop]
    generalize Native.identifierLoop c.cls c.src n.i c.src.length n.i none = looped at hle ⊢
    obtain ⟨j, own⟩ := looped
    simp only at hle ⊢
    refine sim_ite beq_iff_eq.symm (fun _ => ?_) fun hj => ?_
    · exact h.punctOne hi rfl (congrArg (fun x => [x]) hch)
    · rw [beq_iff_eq] at hj
      refine h.push (by dsimp only; omega) ?_
      cases own with
      | none | some v => rfl
  -- numbers
  have hdigit : ∀ j : ℕ, (j < c.src.length ∧ c.cls.isDigit (c.src.getD j 0) = true) ↔
      holdsAt c.cls.isDigit c.src j = true := fun j => (holdsAt_iff_getD 0).symm
  refine sim_ite (by rw [hdigit]; simp) (fun _ => ?_) fun _ => ?_
  · rw [PyStr.slice_natCast]
    have hskip : n.i + 1 ≤ skipWhile (fun x => c.cls.isIdChar x || x == cp '.') c.src (n.i + 1) :=
      le_skipWhile
    exact h.push (by dsimp only; omega) rfl
  -- `?.`, and any other mark
  refine sim_ite (by rw [hdigit]; simp) (fun h13 => ?_) fun _ => ?_
  · have htext := optionalDot_text (Bool.and_eq_true_iff.mp h13).1
    refine h.push (by dsimp only; omega) ?_ fun _ => .inr htext
    simp only [Tok.seen, Tok.textIn, htext]
  exact h.punctOne hi rfl (congrArg (fun x => [x]) hch)

/-! ## The whole run -/

/-- The reference's state before the first round. -/
def Reference.State.start : Reference.State := ⟨0, [], [], 0, [], [], []⟩

theorem Sim.start : Sim c Lexer.start Reference.State.start [] where
  tracks := ⟨rfl, le_refl 0, le_refl 0, rfl⟩
  next_eq := rfl
  i_eq := rfl
  stack_eq := rfl
  parens_eq := rfl
  noRegex_eq := rfl
  toks_eq := rfl
  expression_eq := by simp
  control_eq := by simp
  below := by simp
  expression_below := by simp [Reference.State.start]
  control_below := by simp [Reference.State.start]
  ascending := List.Pairwise.nil
  punct := by simp

/-- **Both tokenizers end in related states.** -/
theorem tokenize_sim (c : Scan) :
    ∃ all, Sim c (Native.tokenize c) (loop (fun s : Reference.State => s.i < c.src.length)
      (Reference.tokenizeStep c.cls c.policyTokens c.src) c.src.length Reference.State.start) all :=
  loop_simulation (R := fun n r => ∃ all, Sim c n r all) (fun n r ⟨_, h⟩ => by rw [h.i_eq])
    (fun n r ⟨_, h⟩ hi => (tokenizeStep_sim h (by simpa using hi)).2) c.src.length _ _ ⟨[], Sim.start⟩

/-- **The native scan runs the rules of the reference's tokens**, in the
order of the tokens. -/
theorem tokensScan_eq (c : Scan) :
    let toks := Reference.tokenize c.cls c.policyTokens c.src
    toks.Pairwise (fun a b => a.off < b.off) ∧
      Native.tokensScan c = toks.zipIdx.flatMap fun tk =>
        Native.rules (Reference.tokAt toks) c.usability c.policy tk.2 := by
  obtain ⟨all, h⟩ := tokenize_sim c
  have htoks : Reference.tokenize c.cls c.policyTokens c.src = all.map (Tok.seen c.src) := h.toks_eq
  have htr := h.tracks.loopRules (fun s : Lexer => s.nextRule < s.window.len)
    (Native.tokenize c).window.len
  have hnext := h.next_eq
  have hlen := h.tracks.len_eq
  obtain ⟨hge, hle⟩ := loopRules_nextRule (c := c) (s := Native.tokenize c) 0
  simp only [Nat.add_zero, Nat.sub_zero] at hge hle
  have hall : (loop (fun s : Lexer => s.nextRule < s.window.len) (Lexer.runRules c)
      (Native.tokenize c).window.len (Native.tokenize c)).nextRule = all.length := by omega
  refine ⟨?_, ?_⟩
  · rw [htoks, pairwise_map]
    exact h.ascending
  · have hidx : ∀ (l : List Token) (f : ℕ → List Hit),
        (l.zipIdx.flatMap fun tk => f tk.2) = (List.range l.length).flatMap f := by
      intro l f
      rw [range_eq_range', ← zipIdx_map_snd, flatMap_map]
    rw [htoks, hidx _ fun k : ℕ =>
      Native.rules (Reference.tokAt (all.map (Tok.seen c.src))) c.usability c.policy k,
      length_map, ← hall]
    exact htr.found_eq

end Pydeno.Scanner
