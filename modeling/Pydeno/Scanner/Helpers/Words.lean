import Pydeno.Scanner.Helpers.Method
import Pydeno.Scanner.Helpers.Decode

/-!
# The rules of one word

A word of interest makes the same reports on both sides. What follows a
word is found with cursors here and with patterns there; the patterns have
a choice only in how much white space they take, and what must come next
is never white space.
-/

namespace Pydeno.Scanner

open Regex List
open Reference (interest spaces following)

/-! ## Tests on words -/

/-- The element-wise comparison is equality. -/
theorem eq_iff (t : Text) (s : String) : Native.eq t s = true ↔ t = pts s := by
  have key : ∀ (a b : Text), (a.length == b.length && (a.zip b).all fun ab => ab.1 == ab.2) = true ↔
      a = b := by
    intro a
    induction a with
    | nil => intro b; cases b <;> simp
    | cons x a ih =>
      intro b
      cases b with
      | nil => simp
      | cons y b =>
        have := ih b
        simp only [Bool.and_eq_true, beq_iff_eq] at this
        simp only [length_cons, zip_cons_cons, all_cons, Bool.and_eq_true, beq_iff_eq,
          List.cons.injEq, ← this, Nat.add_right_cancel_iff]
        tauto
  exact key t (pts s)

theorem eq_decide (t : Text) (s : String) : Native.eq t s = decide (t = pts s) := by
  rw [Bool.eq_iff_iff, eq_iff, decide_eq_true_eq]

/-- The words of interest are the same. -/
theorem interest_words (policy : Policy) :
    (Native.Interest.new policy).words = interest policy := rfl

theorem le_foldl_max : ∀ (l : List ℕ) (a : ℕ), a ≤ l.foldl max a ∧ ∀ x ∈ l, x ≤ l.foldl max a := by
  intro l
  induction l with
  | nil => intro a; simp
  | cons y l ih =>
    intro a
    obtain ⟨h1, h2⟩ := ih (max a y)
    rw [foldl_cons]
    refine ⟨le_trans (le_max_left a y) h1, fun x hx => ?_⟩
    rcases mem_cons.mp hx with rfl | hx
    · exact le_trans (le_max_right a x) h1
    · exact h2 x hx

/-- The filter on the length loses nothing. -/
theorem interest_contains (policy : Policy) (word : Text) :
    (Native.Interest.new policy).contains word = true ↔ word ∈ interest policy := by
  rw [Native.Interest.contains, Bool.and_eq_true, decide_eq_true_eq, contains_iff_mem,
    interest_words]
  refine ⟨fun h => h.2, fun h => ⟨?_, h⟩⟩
  exact (le_foldl_max _ 0).2 _ (mem_map_of_mem h)

/-! ## Looking around a word -/

theorem holdsAt_not_isSpace {cls : Classes} {p : ℕ → Bool} {text : Text} {j : ℕ}
    (hp : ∀ c, p c = true → cls.isSpace c = false) (h : holdsAt p text j = true) :
    holdsAt cls.isSpace text j = false := by
  obtain ⟨c, hc, hpc⟩ := holdsAt_iff.mp h
  rw [holdsAt, hc, Option.any_some]
  exact hp c hpc

theorem lit_not_isSpace {cls : Classes} {ch : Char} (h : cp ch ∈ pts "([?.$'\"_`") :
    ∀ c, (c == cp ch) = true → cls.isSpace c = false := by
  intro c hc
  rw [beq_iff_eq] at hc
  exact Classes.not_isSpace (by rw [hc]; exact h)

/-- The tail of a pattern starts with something that is not white space, so
the spaces before it are all the spaces there are. -/
theorem isSome_spaces {cls : Classes} {p : ℕ → Bool} {t : Regex ℕ} {text : Text} {i : ℕ}
    (hp : ∀ c, p c = true → cls.isSpace c = false) :
    ((seq (spaces cls) (seq (one p) t)).match? (text.drop i)).isSome
      = (holdsAt p text (skipWhile cls.isSpace text i) &&
          (t.match? (text.drop (skipWhile cls.isSpace text i + 1))).isSome) := by
  rw [spaces, isSome_many_seq_drop, isSome_one_seq_drop]
  intro j m hm
  exact holdsAt_not_isSpace hp (holdsAt_of_mem_one_seq hm)

/-- The same, when that character ends the pattern. -/
theorem isSome_spaces_one {cls : Classes} {p : ℕ → Bool} {text : Text} {i : ℕ}
    (hp : ∀ c, p c = true → cls.isSpace c = false) :
    ((seq (spaces cls) (one p)).match? (text.drop i)).isSome
      = holdsAt p text (skipWhile cls.isSpace text i) := by
  rw [spaces, isSome_many_seq_drop, isSome_one_drop]
  intro j m hm
  exact holdsAt_not_isSpace hp (mem_run_one_drop.mp hm).1

theorem bracket_eq (cls : Classes) (text : Text) (i : ℕ) :
    ((Reference.BRACKET cls).match? (text.drop i)).isSome = Native.bracket cls text i :=
  isSome_spaces_one (lit_not_isSpace (by decide))

theorem stringArgument_eq (cls : Classes) (text : Text) (i : ℕ) :
    ((Reference.STRING_ARGUMENT cls).match? (text.drop i)).isSome
      = Native.stringArgument cls text i := by
  have hq : ((pts "'\"`").contains · : ℕ → Bool)
      = fun c => c == cp '\'' || c == cp '"' || c == cp '`' := by
    funext c
    rw [Bool.eq_iff_iff]
    simp [pts, cp, or_assoc]
  have hquote : ∀ c, (pts "'\"`").contains c = true → cls.isSpace c = false := by
    intro c hc
    rw [contains_iff_mem] at hc
    exact Classes.not_isSpace ((by decide : pts "'\"`" ⊆ pts "([?.$'\"_`") hc)
  rw [Native.stringArgument, ← hq]
  exact (isSome_spaces (lit_not_isSpace (by decide))).trans (congrArg _ (isSome_spaces_one hquote))

theorem dotted_eq (cls : Classes) (text : Text) (i : ℕ) :
    ((Reference.DOTTED cls).match? (text.drop i)).isSome = Native.dotted cls text i := by
  have hdot : ∀ j m, m ∈ (seq (one (· == cp '.')) (seq (spaces cls)
      (one cls.isName))).run (text.drop j) → holdsAt (· == cp '?') text j = false := by
    intro j m hm
    obtain ⟨c, hc, hpc⟩ := holdsAt_iff.mp (holdsAt_of_mem_one_seq hm)
    rw [beq_iff_eq] at hpc
    rw [holdsAt, hc, Option.any_some, hpc]
    decide
  -- the optional mark and the dot are both not white space
  have hstart : ∀ j m, m ∈ (seq (many (· == cp '?') 0 (some 1)) (seq (one (· == cp '.'))
      (seq (spaces cls) (one cls.isName)))).run (text.drop j) →
      holdsAt cls.isSpace text j = false := by
    intro j m hm
    have hsome := match?_isSome.mpr ⟨m, hm⟩
    rw [isSome_opt_seq_drop hdot] at hsome
    by_cases hq : holdsAt (· == cp '?') text j = true
    · exact holdsAt_not_isSpace (lit_not_isSpace (by decide)) hq
    · rw [if_neg hq, isSome_one_seq_drop, Bool.and_eq_true] at hsome
      exact holdsAt_not_isSpace (lit_not_isSpace (by decide)) hsome.1
  rw [Native.dotted]
  refine (isSome_many_seq_drop hstart).trans ((isSome_opt_seq_drop hdot).trans ?_)
  rw [isSome_one_seq_drop, isSome_spaces_one fun c hc => Classes.not_isSpace_of_isName hc]
  rfl

/-- The character after the white space, if any. -/
theorem following_eq (cls : Classes) (text : Text) (i : ℕ) : following cls text i
      = (text[skipWhile cls.isSpace text i]?).toList := by
  have h1 : (spaces cls).match? (text.drop i)
      = some ⟨reach cls.isSpace none (text.drop i), []⟩ := by
    rw [spaces, match?_many, if_pos (Nat.zero_le _)]
  have h2 : (group 1 (many (fun _ => true) 0 (some 1))).match?
        ((text.drop i).drop (reach cls.isSpace none (text.drop i)))
      = some ⟨(text[skipWhile cls.isSpace text i]?).toList.length,
          [(1, (text[skipWhile cls.isSpace text i]?).toList)]⟩ := by
    rw [drop_drop, add_reach_drop, match?_group, match?_many, if_pos (Nat.zero_le _),
      Option.map_some, reach]
    generalize skipWhile cls.isSpace text i = k
    rw [← List.head?_drop]
    cases text.drop k with
    | nil => rfl
    | cons a l => simp
  rw [following, Reference.NEXT]
  simp only [Regex.cat]
  rw [match?_seq h1 h2]
  rfl

theorem staticImportFollows_eq (cls : Classes) (text : Text) (i : ℕ) :
    (following cls text i ≠ [] ∧
        ((Reference.STATIC_IMPORT_STARTS cls).match? (following cls text i)).isNone) ↔
      Native.staticImportFollows cls text i = some false := by
  have hcls : ∀ c, (cls.isWord c || (pts "$\x7b*\"'.").contains c)
      = (cls.isWord c || c == cp '$' || c == cp '\x7b' || c == cp '*' || c == cp '"' ||
        c == cp '\'' || c == cp '.') := by
    intro c
    rw [Bool.eq_iff_iff]
    simp [pts, cp, or_assoc]
  rw [following_eq, Native.staticImportFollows, Reference.STATIC_IMPORT_STARTS]
  cases text[skipWhile cls.isSpace text i]? with
  | none => simp
  | some c =>
    simp only [Option.toList_some, match?_one, List.head?_cons, Option.any_some, hcls,
      Option.map_some, Option.some.injEq]
    split_ifs with h
    · simp [h]
    · simp [h]

theorem afterDot_eq {text : Text} {start : ℕ} (h : start ≤ text.length) :
    Reference.afterDot text start = Native.afterDot text start := by
  rw [Reference.afterDot, Native.afterDot]
  rcases Nat.eq_zero_or_pos start with rfl | hpos
  · rfl
  rw [holdsAt_eq_getD 0 (by omega)]
  congr 1
  -- fewer than three characters before the word cannot be three dots
  by_cases h3 : 3 ≤ start
  · have hs : PyStr.slice text ((start : ℤ) - 3) start = slice text (start - 3) start := by
      rw [← PyStr.slice_natCast]
      congr 1
      omega
    have hlen : (slice text (start - 3) start).length = 3 := by
      rw [length_slice h]
      omega
    have hdots : pts "..." = [cp '.', cp '.', cp '.'] := rfl
    rw [hs, hdots]
    generalize slice text (start - 3) start = l at hlen ⊢
    match l, hlen with
    | [a, b, c], _ =>
      rw [Bool.eq_iff_iff]
      simp [h3]
      tauto
  · have hlen : (PyStr.slice text ((start : ℤ) - 3) start).length ≤ start := by
      rw [PyStr.slice, List.length_take]
      have hb : PyStr.bound text.length (start : ℤ) ≤ start := by
        rw [PyStr.bound, if_neg (by omega)]
        omega
      omega
    have hne : PyStr.slice text ((start : ℤ) - 3) start ≠ pts "..." := by
      intro heq
      rw [heq] at hlen
      have : (pts "...").length = 3 := rfl
      omega
    simp [h3, hne]

/-! ## The reports -/

/-- What the reference is told about a native report. -/
def report (policy : Policy) (r : Code × ℕ) : Rule × Text × Severity :=
  Native.describe (some policy) r.1 r.2

/-- What the reference's `add` is given for a rule and a name. -/
def ruleReport (r : Rule × Text) : Rule × Text × Severity := (r.1, policyMessage r.1 r.2, .error)

theorem identifier_report (policy : Policy) (word : Text) :
    (match Native.identifier policy word with
      | some k => [(Code.forbiddenIdentifier, k)]
      | none => []).map (report policy)
      = (if word ∈ policy.forbiddenIdentifiers then [(Rule.forbiddenIdentifier, word)]
          else []).map ruleReport := by
  rw [Native.identifier]
  cases h : policy.forbiddenIdentifiers.idxOf? word with
  | none => rw [if_neg (List.idxOf?_eq_none_iff.mp h)]; rfl
  | some k =>
    obtain ⟨hk, rfl, -⟩ := List.idxOf?_eq_some_iff.mp h
    rw [if_pos (List.getElem_mem hk)]
    simp [report, ruleReport, Native.describe, List.getElem?_eq_getElem hk]

theorem global_report (policy : Policy) (word : Text) :
    (match Native.global policy word with
      | some k => [(Code.forbiddenGlobal, k)]
      | none => []).map (report policy)
      = (if word ∈ policy.forbiddenGlobals then [(Rule.forbiddenGlobal, word)]
          else []).map ruleReport := by
  rw [Native.global]
  cases h : policy.forbiddenGlobals.idxOf? word with
  | none => rw [if_neg (List.idxOf?_eq_none_iff.mp h)]; rfl
  | some k =>
    obtain ⟨hk, rfl, -⟩ := List.idxOf?_eq_some_iff.mp h
    rw [if_pos (List.getElem_mem hk)]
    simp [report, ruleReport, Native.describe, List.getElem?_eq_getElem hk]

theorem eval_report (cls : Classes) (policy : Policy) (text word : Text) (stop : ℕ) :
    (if policy.forbidEval then
      if Native.eq word "eval" then [(Code.forbiddenEval, 0)]
      else if (Native.eq word "setTimeout" || Native.eq word "setInterval") &&
          Native.stringArgument cls text stop then
        [(Code.forbiddenStringTimer, if Native.eq word "setTimeout" then 0 else 1)]
      else []
     else []).map (report policy)
      = (if policy.forbidEval then
          if word = pts "eval" then [(Rule.forbiddenEval, [])]
          else if word ∈ TIMERS ∧
              ((Reference.STRING_ARGUMENT cls).match? (text.drop stop)).isSome then
            [(Rule.forbiddenStringTimer, word)]
          else []
         else []).map ruleReport := by
  simp only [eq_decide, stringArgument_eq, TIMERS, mem_cons, not_mem_nil, or_false,
    decide_eq_true_eq, Bool.and_eq_true, Bool.or_eq_true]
  split_ifs with h1 h2 h3 h4
  · rfl
  · rw [h4]; rfl
  · rw [h3.1.resolve_left h4]; rfl
  · rfl
  · rfl

/-- A rule without a name, under the same condition on both sides. -/
theorem flag_report {policy : Policy} {code : Code} {rule : Rule} {a : Bool} {b : Prop}
    [Decidable b] (hr : ruleReport (rule, []) = report policy (code, 0)) (h : b ↔ a = true) :
    (if b then [(rule, ([] : Text))] else []).map ruleReport
      = (if a = true then [(code, 0)] else []).map (report policy) := by
  by_cases hb : b
  · rw [if_pos hb, if_pos (h.mp hb), map_singleton, map_singleton, hr]
  · rw [if_neg hb, if_neg fun ha => hb (h.mpr ha)]
    rfl

/-- The two decoded texts agree. -/
structure SameText (rd : Reference.Decoded) (nd : Native.Decoded) : Prop where
  text_eq : rd.text = nd.text
  original_eq : ∀ k, rd.original k = nd.original k

/-- **One word of interest makes the same reports on both sides.** -/
theorem wordReports_eq (cls : Classes) (policy : Policy) (code : Text) {rd : Reference.Decoded}
    {nd : Native.Decoded} (hd : SameText rd nd) {start : ℕ} (hs : start ≤ nd.text.length) (stop : ℕ) :
    (Reference.wordReports cls policy code rd start stop (slice nd.text start stop)).map ruleReport
      = (Native.wordReports cls policy code nd start stop).map (report policy) := by
  have hglobal : ∀ w : Text, (Native.GLOBAL_VALUES.any (Native.eq w ·)) = true ↔
      w ∈ Reference.GLOBAL_VALUES := by
    intro w
    simp [Native.GLOBAL_VALUES, Reference.GLOBAL_VALUES, eq_iff]
  simp only [Reference.wordReports, Native.wordReports, map_append, hd.text_eq,
    hd.original_eq, afterDot_eq hs, methodDefinition_eq, staticImportFollows_eq]
  generalize slice nd.text start stop = word
  refine congr_arg₂ _ (congr_arg₂ _ (congr_arg₂ _ (congr_arg₂ _ (congr_arg₂ _ (congr_arg₂ _ ?_ ?_)
    ?_) ?_) ?_) ?_) ?_
  · exact (identifier_report policy word).symm
  · exact (global_report policy word).symm
  · exact (eval_report cls policy nd.text word stop).symm
  · exact flag_report rfl (by simp [eq_iff])
  · exact flag_report rfl (by simp [eq_iff])
  · rw [← ite_and]
    exact flag_report rfl (by simp [eq_iff, and_assoc])
  · refine flag_report rfl ?_
    simp only [Bool.and_eq_true, Bool.or_eq_true, hglobal, eq_iff, ← dotted_eq, ← bracket_eq,
      Bool.not_eq_true', mem_cons, not_mem_nil, or_false, and_assoc, or_assoc,
      Bool.not_eq_true, Option.isNone_iff_eq_none, Option.isSome_eq_false_iff]

end Pydeno.Scanner
