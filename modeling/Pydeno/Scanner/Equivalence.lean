import Pydeno.Scanner.Helpers.Tokenizer

/-!
# The two scanners agree

The native scan of `src/scanner/` and the reference of
`_preflight_reference.py` return the same findings, in the same order, for
every source text, every option and every policy. The text scan reads
alike (`scanText_eq`), the tokenizers produce the same tokens
(`tokensScan_eq`), and both sides end by sorting and dropping repeats.
What is left is the order of the rules: the native scan runs the usability
rules and the policy's token by token, the reference one after the other
over all tokens. Tokens have different offsets, so the stable sort brings
both to the same list (`filter_flatMap_append`).
-/

namespace Pydeno.Scanner

open List Hit

open Native (Scan textScan rules usable precise)

/-! ## The text scan only uses policy codes -/

theorem wordReports_not_named (cls : Classes) (policy : Policy) (code : Text) (d : Native.Decoded)
    (start stop : ℕ) : ∀ h ∈ Native.wordReports cls policy code d start stop, h.1 ≠ .named := by
  intro h hh hcode
  simp only [Native.wordReports, mem_append] at hh
  rcases hh with (((((hh | hh) | hh) | hh) | hh) | hh) | hh
  · exact not_named_of_mem_option (by decide) hh hcode
  · exact not_named_of_mem_option (by decide) hh hcode
  · split at hh
    · split at hh
      · rw [mem_singleton.mp hh] at hcode
        cases hcode
      · exact not_named_of_mem_ite (by decide) hh hcode
    · cases hh
  · exact not_named_of_mem_ite (by decide) hh hcode
  · exact not_named_of_mem_ite (by decide) hh hcode
  · exact not_named_of_mem_ite (by decide) hh hcode
  · exact not_named_of_mem_ite (by decide) hh hcode

theorem textScan_valid (cls : Classes) (policy : Policy) (code : Text) :
    ∀ hit ∈ textScan cls policy code, hit.Valid := by
  have hloop : ∀ (d : Native.Decoded) (interest : Native.Interest) (fuel i reported : ℕ),
      ∀ hit ∈ Native.scanViewLoop cls policy interest code d fuel i reported, hit.Valid := by
    intro d interest fuel
    induction fuel with
    | zero => intro i reported hit hh; cases hh
    | succ fuel ih =>
      intro i reported hit hh
      rw [Native.scanViewLoop] at hh
      split at hh
      · split at hh
        · simp only at hh
          split at hh
          · split at hh
            · cases hh
            · rcases mem_append.mp hh with hh | hh
              · obtain ⟨r, hr, rfl⟩ := mem_map.mp hh
                exact fun hcode => absurd hcode (wordReports_not_named cls policy code d i _ r hr)
              · exact ih _ _ hit hh
          · exact ih _ _ hit hh
        · exact ih _ _ hit hh
      · cases hh
  intro hit hh
  simp only [textScan, mem_append] at hh
  rcases hh with hh | hh
  · exact hloop _ _ _ _ _ hit hh
  · split at hh
    · exact hloop _ _ _ _ _ hit hh
    · cases hh

/-! ## The order of the rules -/

theorem usabilityRules_offset {tokAt : ℤ → Option Token} {k : ℤ} {tok : Token}
    (htok : tokAt k = some tok) (options : Options) :
    ∀ hit ∈ Native.usabilityRules tokAt k options, hit.offset = tok.off := by
  intro hit hh
  rw [Native.usabilityRules, htok] at hh
  obtain ⟨r, -, rfl⟩ := mem_map.mp hh
  rfl

theorem policyRules_offset {tokAt : ℤ → Option Token} {k : ℤ} {tok : Token}
    (htok : tokAt k = some tok) (policy : Policy) :
    ∀ hit ∈ Native.policyRules tokAt k policy, hit.offset = tok.off := by
  intro hit hh
  rw [Native.policyRules, htok] at hh
  simp only at hh
  split at hh
  · split at hh
    · rw [mem_singleton.mp hh]
    · cases hh
  · split at hh
    · cases hh
    · obtain ⟨r, -, rfl⟩ := mem_map.mp hh
      rfl

/-- The usability rules of one token, where they run. -/
def usabilityAt (usability : Option Options) (toks : List Token) (tk : Token × ℕ) : List Hit :=
  match usability with
  | some options => Native.usabilityRules (Reference.tokAt toks) tk.2 options
  | none => []

/-- The policy rules of one token, where they run. -/
def policyAt (policy : Option Policy) (toks : List Token) (tk : Token × ℕ) : List Hit :=
  match policy with
  | some policy => Native.policyRules (Reference.tokAt toks) tk.2 policy
  | none => []

theorem tokAt_of_mem {toks : List Token} {tk : Token × ℕ} (h : tk ∈ toks.zipIdx) :
    Reference.tokAt toks tk.2 = some tk.1 := by
  rw [Reference.tokAt, if_pos (Int.natCast_nonneg _), Int.toNat_natCast]
  exact mem_zipIdx_iff_getElem?.mp h

/-- **Token by token, or one kind of rule after the other.** -/
theorem sorted_rules_eq (usability : Option Options) (policy : Option Policy) {toks : List Token}
    (hasc : toks.Pairwise fun a b => a.off < b.off) (rest : List Hit) :
    sortBy offset (keepFirst key ((toks.zipIdx.flatMap fun tk =>
        rules (Reference.tokAt toks) usability policy tk.2) ++ rest))
      = sortBy offset (keepFirst key (toks.zipIdx.flatMap (usabilityAt usability toks) ++
          toks.zipIdx.flatMap (policyAt policy toks) ++ rest)) := by
  have hkey : ∀ a b : Hit, a.key = b.key → a.offset = b.offset := fun a b h => congrArg Prod.fst h
  refine sortBy_eq_of_filter offset fun off => ?_
  rw [keepFirst, keepFirst, filter_keepFirstFrom key offset hkey,
    filter_keepFirstFrom key offset hkey, filter_append, filter_append _ rest]
  congr 2
  refine filter_flatMap_append offset (fun tk : Token × ℕ => tk.1.off) (usabilityAt usability toks)
    (policyAt policy toks) off ?_ ?_
  · intro tk htk hit hh
    have htok := tokAt_of_mem htk
    rcases mem_append.mp hh with hh | hh
    · cases usability with
      | none => cases hh
      | some options => exact usabilityRules_offset htok options hit hh
    · cases policy with
      | none => cases hh
      | some policy => exact policyRules_offset htok policy hit hh
  · have hmap : (toks.zipIdx.map Prod.fst).Pairwise fun a b => a.off < b.off := by
      rw [zipIdx_map_fst]
      exact hasc
    exact (pairwise_map.mp hmap).imp fun h => Nat.ne_of_lt h

/-! ## The whole scan -/

/-- The tokens the reference builds: none where no rule reads them. -/
def scannedTokens (cls : Classes) (policy : Option Policy) (code : Text) : List Token :=
  if usable policy || precise policy then
    Reference.tokenize cls policy.isSome code else []

/-- The options of the usability rules, where they run. -/
def usabilityOptions (options : Options) (policy : Option Policy) : Option Options :=
  if usable policy then some options else none

/-- The policy, where it reads tokens. -/
def tokenPolicy (policy : Option Policy) : Option Policy :=
  policy.filter fun _ => precise policy

/-- The hits of the text scan, where the policy reads the text. -/
def textHits (cls : Classes) (policy : Option Policy) (code : Text) : List Hit :=
  match policy.filter fun _ => !precise policy with
  | some policy => textScan cls policy code
  | none => []

/-- The native hits, over the reference's tokens. -/
theorem scan_eq (cls : Classes) (options : Options) (policy : Option Policy) (code : Text) :
    let toks := scannedTokens cls policy code
    toks.Pairwise (fun a b => a.off < b.off) ∧
      Native.scan cls options policy code = (toks.zipIdx.flatMap fun tk =>
        rules (Reference.tokAt toks) (usabilityOptions options policy) (tokenPolicy policy)
          tk.2) ++ textHits cls policy code := by
  have hrun := tokensScan_eq ⟨code, cls, policy.isSome, usabilityOptions options policy,
    tokenPolicy policy⟩
  by_cases hread : (usable policy || precise policy) = true
  · have htoks : scannedTokens cls policy code = Reference.tokenize cls policy.isSome code :=
      if_pos hread
    rw [htoks, Native.scan, if_pos hread]
    exact ⟨hrun.1, congrArg (· ++ textHits cls policy code) hrun.2⟩
  · have htoks : scannedTokens cls policy code = [] := if_neg hread
    rw [htoks, Native.scan, if_neg hread]
    exact ⟨List.Pairwise.nil, rfl⟩

/-- What the reference adds, as hits. -/
theorem added_eq (cls : Classes) (options : Options) (policy : Option Policy) (code : Text) :
    Reference.checkSource cls options policy code
      = Reference.findings code
          (((scannedTokens cls policy code).zipIdx.flatMap
              (usabilityAt (usabilityOptions options policy) (scannedTokens cls policy code)) ++
            (scannedTokens cls policy code).zipIdx.flatMap
              (policyAt (tokenPolicy policy) (scannedTokens cls policy code)) ++
            textHits cls policy code).map (added policy)) := by
  set toks := scannedTokens cls policy code with htoks
  have husable : (if usable policy then toks.zipIdx.flatMap fun tk =>
        Reference.usabilityRules (Reference.tokAt toks) options tk.2 tk.1 else [])
      = (toks.zipIdx.flatMap (usabilityAt (usabilityOptions options policy) toks)).map
          (added policy) := by
    rw [map_flatMap]
    by_cases hu : usable policy = true
    · rw [if_pos hu]
      refine flatMap_congr fun tk htk => ?_
      rw [usabilityOptions, if_pos hu]
      exact (usabilityRules_eq _ policy options (tokAt_of_mem htk)).symm
    · rw [if_neg hu, usabilityOptions, if_neg hu]
      simp [usabilityAt]
  have hpoliced : (policy.elim [] fun policy' => if precise policy then
        Reference.applyPolicy policy' toks else Reference.scanText cls policy' code)
      = (toks.zipIdx.flatMap (policyAt (tokenPolicy policy) toks) ++ textHits cls policy code).map
          (added policy) := by
    cases policy with
    | none => simp [policyAt, tokenPolicy, textHits]
    | some policy =>
      by_cases hp : precise (some policy) = true
      · have hsome : tokenPolicy (some policy) = some policy := by
          rw [tokenPolicy, hp]; rfl
        have hnone : textHits cls (some policy) code = [] := by
          rw [textHits, hp]; rfl
        rw [hsome, hnone, append_nil, map_flatMap]
        simp only [hp, if_true]
        exact flatMap_congr fun tk htk => (policyRules_eq _ policy (tokAt_of_mem htk)).symm
      · rw [Bool.not_eq_true] at hp
        have hnone : tokenPolicy (some policy) = none := by
          rw [tokenPolicy, hp]; rfl
        have hsome : textHits cls (some policy) code = textScan cls policy code := by
          rw [textHits, hp]; rfl
        rw [hnone, hsome]
        simp [policyAt, hp, scanText_eq]
  rw [append_assoc, map_append, ← husable, ← hpoliced]
  cases policy <;> rfl

/-- **The native scan and the reference agree**, on every source, with any
options and any policy. -/
theorem checkSource_eq (cls : Classes) (options : Options) (policy : Option Policy) (code : Text) :
    Native.checkSource cls options policy code = Reference.checkSource cls options policy code := by
  obtain ⟨hasc, hscan⟩ := scan_eq cls options policy code
  have hvalid : ∀ hit ∈ (scannedTokens cls policy code).zipIdx.flatMap
        (usabilityAt (usabilityOptions options policy) (scannedTokens cls policy code)) ++
      (scannedTokens cls policy code).zipIdx.flatMap
        (policyAt (tokenPolicy policy) (scannedTokens cls policy code)) ++
      textHits cls policy code, hit.Valid := by
    intro hit hh
    rw [mem_append, mem_append] at hh
    rcases hh with (hh | hh) | hh
    · obtain ⟨tk, -, hh⟩ := mem_flatMap.mp hh
      exact rules_valid _ (usabilityOptions options policy) (tokenPolicy policy) tk.2 hit
        (mem_append_left _ hh)
    · obtain ⟨tk, -, hh⟩ := mem_flatMap.mp hh
      exact rules_valid _ (usabilityOptions options policy) (tokenPolicy policy) tk.2 hit
        (mem_append_right _ hh)
    · rw [textHits] at hh
      split at hh
      · exact textScan_valid cls _ code hit hh
      · cases hh
  rw [added_eq, reference_findings_eq policy code hvalid, Native.checkSource, native_findings_eq,
    hscan, sorted_rules_eq _ _ hasc]

/-- **The text scans agree**: under a policy that reads the raw text and
runs no usability rule, the findings are those of the native text scan,
and they are the reference's. -/
theorem text_checkSource_eq (cls : Classes) (options : Options) (policy : Policy)
    (hpreflight : policy.includePreflightRules = false)
    (hignore : policy.ignoreStringsAndComments = false) (code : Text) :
    Native.checkSource cls options (some policy) code
        = Native.findings (some policy) code (Native.textScan cls policy code) ∧
      Native.checkSource cls options (some policy) code
        = Reference.checkSource cls options (some policy) code := by
  refine ⟨?_, checkSource_eq cls options (some policy) code⟩
  have husable : Native.usable (some policy) = false := hpreflight
  have hprecise : Native.precise (some policy) = false := hignore
  rw [Native.checkSource, Native.scan, husable, hprecise]
  rfl

/-- A policy that forbids an identifier, a global and every way to compile
a string. -/
def strictPolicy (preflight tokens : Bool) : Policy :=
  ⟨[pts "secret"], [pts "fetch"], true, true, true, true, preflight, true, tokens⟩

/-- `eval` behind an escape, called on a forbidden name. -/
theorem text_checkSource_eq_escaped_eval :
    let policy := strictPolicy false false
    let code := pts "\\u0065val(secret)"
    (Native.textScan (Classes.forVersion 0) policy code).length = 2 ∧
      Native.checkSource (Classes.forVersion 0) ⟨false, false, true⟩ (some policy) code
        = Reference.checkSource (Classes.forVersion 0) ⟨false, false, true⟩ (some policy) code :=
  ⟨by decide +kernel, (text_checkSource_eq (Classes.forVersion 0) ⟨false, false, true⟩
    (strictPolicy false false) rfl rfl (pts "\\u0065val(secret)")).2⟩

/-- **The token scans agree**: without a policy, under one that runs the
usability rules, and under one that reads tokens, the findings are those
of the streaming scan (and of the text scan for a policy that reads no
tokens), and they are those of the reference, which builds all tokens
first. -/
theorem token_checkSource_eq (cls : Classes) (options : Options) (policy : Option Policy)
    (hreads : ∀ p ∈ policy, p.includePreflightRules = true ∨ p.ignoreStringsAndComments = true)
    (code : Text) :
    Native.checkSource cls options policy code
        = Native.findings policy code (Native.tokensScan ⟨code, cls, policy.isSome,
            usabilityOptions options policy, tokenPolicy policy⟩ ++ textHits cls policy code) ∧
      Native.checkSource cls options policy code
        = Reference.checkSource cls options policy code := by
  refine ⟨?_, checkSource_eq cls options policy code⟩
  have hrun : (Native.usable policy || Native.precise policy) = true := by
    cases policy with
    | none => rfl
    | some p => simpa [Native.usable, Native.precise] using hreads p rfl
  rw [Native.checkSource, Native.scan, if_pos hrun]
  rfl

/-- A division after a parenthesis, then a forbidden global. -/
theorem token_checkSource_eq_division :
    let policy := strictPolicy true true
    let code := pts "(a) / fetch(b) / eval"
    (Native.scan (Classes.forVersion 0) ⟨false, false, true⟩ (some policy) code).length = 3 ∧
      Native.checkSource (Classes.forVersion 0) ⟨false, false, true⟩ (some policy) code
        = Reference.checkSource (Classes.forVersion 0) ⟨false, false, true⟩ (some policy) code :=
  ⟨by decide +kernel, (token_checkSource_eq (Classes.forVersion 0) ⟨false, false, true⟩
    (some (strictPolicy true true)) (by rintro p ⟨⟩; exact .inl rfl)
    (pts "(a) / fetch(b) / eval")).2⟩

end Pydeno.Scanner
