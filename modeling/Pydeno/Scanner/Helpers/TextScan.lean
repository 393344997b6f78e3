import Pydeno.Scanner.Helpers.Words

/-!
# One reading of the text

The native loop moves a cursor from word to word and the reference walks
the matches of its word pattern. Both see the same words, look at the same
ones, and stop at the same cap, so the calls of `add` the reference makes
are the native hits, described.
-/

namespace Pydeno.Scanner

open Regex List

/-- The call of `add` a native hit stands for. -/
def Hit.added (policy : Option Policy) (hit : Hit) : Reference.Added :=
  let d := Native.describe policy hit.code hit.arg
  ⟨d.1, d.2.1, hit.offset, d.2.2⟩

/-- The reports of one word, as calls of `add` at an offset. -/
theorem reports_added (cls : Classes) (policy : Policy) (code : Text) {rd : Reference.Decoded}
    {nd : Native.Decoded} (hd : SameText rd nd) {start stop : ℕ} (hs : start ≤ nd.text.length)
    (offset : ℕ) :
    (Reference.wordReports cls policy code rd start stop (slice nd.text start stop)).map
        (fun r => (⟨r.1, policyMessage r.1 r.2, offset, .error⟩ : Reference.Added))
      = ((Native.wordReports cls policy code nd start stop).map
          (fun r => (⟨r.1, r.2, offset⟩ : Hit))).map (Hit.added (some policy)) := by
  have h := congrArg (List.map fun r : Rule × Text × Severity =>
    (⟨r.1, r.2.1, offset, r.2.2⟩ : Reference.Added)) (wordReports_eq cls policy code hd hs stop)
  rw [map_map, map_map] at h
  rw [map_map]
  exact h

/-- A word starts where the cursor is on a character of a name, and runs to
where the cursor stops. -/
theorem match?_WORDS (cls : Classes) (text : Text) (i : ℕ) :
    (Reference.WORDS cls).match? (text.drop i)
      = if holdsAt cls.isName text i then some ⟨skipWhile cls.isName text i - i, []⟩ else none := by
  rw [Reference.WORDS, match?_many, ← add_reach_drop, Nat.add_sub_cancel_left]
  by_cases h : holdsAt cls.isName text i = true
  · have hlt := lt_skipWhile h
    rw [← add_reach_drop] at hlt
    rw [if_pos h, if_pos (by omega)]
  · have hstay := skipWhile_of_not (p := cls.isName) (s := text) (i := i) (by simpa using h)
    rw [← add_reach_drop] at hstay
    rw [if_neg h, if_neg (by omega)]

/-- **The two loops over the words.** -/
theorem scanViewLoop_eq (cls : Classes) (policy : Policy) (code : Text) {rd : Reference.Decoded}
    {nd : Native.Decoded} (hd : SameText rd nd) : ∀ (fuel i reported : ℕ),
    Reference.scanViewLoop cls policy code rd (finditerFrom (Reference.WORDS cls) nd.text fuel i)
        reported
      = (Native.scanViewLoop cls policy (Native.Interest.new policy) code nd fuel i reported).map
          (Hit.added (some policy)) := by
  intro fuel
  induction fuel with
  | zero => intro i reported; rfl
  | succ fuel ih =>
    intro i reported
    rw [finditerFrom, Native.scanViewLoop,
      show (fun c => cls.isWord c || c == cp '$') = cls.isName from rfl]
    by_cases hi : i < nd.text.length
    · rw [if_pos hi, if_pos hi, match?_WORDS]
      by_cases hn : holdsAt cls.isName nd.text i = true
      · simp only [if_pos hn]
        have hlt := lt_skipWhile hn
        set stop := skipWhile cls.isName nd.text i
        rw [show i + max 1 (stop - i) = stop by omega, Reference.scanViewLoop,
          show i + (stop - i) = stop by omega, hd.text_eq, PyStr.slice_natCast]
        by_cases hw : slice nd.text i stop ∈ Reference.interest policy
        · rw [if_neg (not_not.mpr hw), if_pos ((interest_contains policy _).mpr hw)]
          by_cases hcap : reported ≥ MAX_POLICY_FINDINGS
          · rw [if_pos hcap, if_pos hcap]
            rfl
          · rw [if_neg hcap, if_neg hcap]
            have hlen := congrArg List.length
              (wordReports_eq cls policy code hd (show i ≤ nd.text.length by omega) stop)
            rw [length_map, length_map] at hlen
            simp only [map_append, hd.original_eq,
              reports_added cls policy code hd (show i ≤ nd.text.length by omega), hlen, ih]
        · rw [if_pos hw, if_neg fun h => hw ((interest_contains policy _).mp h)]
          exact ih stop reported
      · simp only [if_neg hn]
        exact ih (i + 1) reported
    · rw [if_neg hi, if_neg hi]
      rfl

theorem sameText_decoded (code : Text) (newline : Bool) :
    SameText (Reference.decoded code (continuationText newline)) (Native.decode code newline) :=
  ⟨congrArg Native.Decoded.text (decoded_eq code newline), original_eq code newline⟩

theorem scanView_eq (cls : Classes) (policy : Policy) (code : Text) (newline : Bool) :
    Reference.scanView cls policy code (Reference.decoded code (continuationText newline))
      = (Native.scanView cls policy (Native.Interest.new policy) code
          (Native.decode code newline)).map (Hit.added (some policy)) := by
  have hd := sameText_decoded code newline
  rw [Reference.scanView, Native.scanView, finditer, hd.text_eq]
  exact scanViewLoop_eq cls policy code hd _ _ _

/-- **The text scans agree**: the reference adds what the native scan hits,
in the same order. -/
theorem scanText_eq (cls : Classes) (policy : Policy) (code : Text) :
    Reference.scanText cls policy code
      = (Native.textScan cls policy code).map (Hit.added (some policy)) := by
  have hcont : (Reference.decoded code []).continued = (Native.decode code false).continued :=
    congrArg Native.Decoded.continued (decoded_eq code false)
  have h1 := scanView_eq cls policy code false
  have h2 := scanView_eq cls policy code true
  simp only [continuationText, if_true, Bool.false_eq_true, if_false] at h1 h2
  rw [Reference.scanText, Native.textScan, map_append, h1, hcont]
  by_cases hc : (Native.decode code false).continued = true
  · simp only [if_pos hc, h2]
  · simp only [if_neg hc, map_nil]

end Pydeno.Scanner
