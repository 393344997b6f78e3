import Pydeno.Scanner.Helpers.Findings
import Pydeno.Scanner.Model.ReferenceTokens

/-!
# The rules of one token

Given the same tokens around it, a token makes the same reports on both
sides, whatever way the tokens are reached. The native rules read at most
three tokens back and two ahead (`rules_congr`), which is what lets them
run on a window.
-/

namespace Pydeno.Scanner

open List PyStr
open Reference (textAt isGlobalAt)
open Native (isHex textIs isAccess globalAt nameIndex describe usabilityHits pending policyHits
  rules)

/-! ## Escapes -/

/-- `PyStr.startsWith` is the native prefix test. -/
theorem startsWith_eq (src : Text) (i : ℕ) (s : String) :
    startsWith src (pts s) i = Native.startsWith src i s := by
  have h := startsWith_eq_all src (pts s) i 0
  rw [Nat.add_zero] at h
  rw [h, Native.startsWith]
  rfl

/-- A test for two characters, and for three. -/
theorem startsWith_pair {s : String} (a b : Char) (hs : pts s = [cp a, cp b]) (src : Text)
    (i : ℕ) : Native.startsWith src i s
      = (holdsAt (· == cp a) src i && holdsAt (· == cp b) src (i + 1)) := by
  rw [Native.startsWith, hs]
  simp

theorem startsWith_triple {s : String} (a b c : Char) (hs : pts s = [cp a, cp b, cp c])
    (src : Text) (i : ℕ) : Native.startsWith src i s
      = (holdsAt (· == cp a) src i && holdsAt (· == cp b) src (i + 1) &&
          holdsAt (· == cp c) src (i + 2)) := by
  rw [Native.startsWith, hs]
  simp [Bool.and_assoc]

theorem mem_HEX (c : ℕ) : c ∈ Reference.HEX ↔ isHex c = true := by
  have hsmall : ∀ c < 128, (c ∈ Reference.HEX ↔ isHex c = true) := by decide +kernel
  rcases Nat.lt_or_ge c 128 with h | h
  · exact hsmall c h
  · have hlt : ∀ c ∈ Reference.HEX, c < 128 := by decide
    have h9 : cp '9' = 57 := rfl
    have hf : cp 'f' = 102 := rfl
    have hF : cp 'F' = 70 := rfl
    constructor
    · intro hc
      have := hlt c hc
      omega
    · intro hc
      simp only [isHex, Bool.or_eq_true, Bool.and_eq_true, decide_eq_true_eq] at hc
      omega

theorem all_HEX (ds : Text) : (∀ c ∈ ds, c ∈ Reference.HEX) ↔ ds.all isHex = true := by
  simp only [mem_HEX, all_eq_true]

/-- The brace that ends an escape is found alike. -/
theorem find_brace (src : Text) (lo hi : ℕ) :
    find src (pts "\x7d") lo hi
      = match (List.range' lo (min src.length hi - lo)).find? fun k =>
          holdsAt (· == cp '\x7d') src k with
        | some k => (k : ℤ)
        | none => -1 := by
  rw [find_eq src (by decide), Nat.min_comm hi]
  have hcongr : (List.range' lo (min src.length hi - lo)).find? (fun i =>
        startsWith src (pts "\x7d") i && i + (pts "\x7d").length ≤ min src.length hi)
      = (List.range' lo (min src.length hi - lo)).find? fun k =>
          holdsAt (· == cp '\x7d') src k := by
    rw [← List.head?_filter, ← List.head?_filter]
    refine congrArg List.head? (filter_congr fun k hk => ?_)
    have hlt := mem_range'_1.mp hk
    have hle : k + (pts "\x7d").length ≤ min src.length hi := by
      have : (pts "\x7d").length = 1 := rfl
      omega
    rw [startsWith_eq, decide_eq_true hle, Bool.and_true, Native.startsWith,
      show pts "\x7d" = [cp '\x7d'] from rfl]
    simp
  rewrite [hcongr]
  rfl

/-- **Both sides read a backslash-u escape alike.** -/
theorem unicodeEscape_eq (src : Text) (j : ℕ) :
    Reference.unicodeEscape src j = Native.unicodeEscape src j := by
  have hu : startsWith src (pts "\\u") j
      = (holdsAt (· == cp '\\') src j && holdsAt (· == cp 'u') src (j + 1)) := by
    rw [startsWith_eq, startsWith_pair '\\' 'u' rfl]
  have hub : startsWith src (pts "\\u\x7b") j
      = (holdsAt (· == cp '\\') src j && holdsAt (· == cp 'u') src (j + 1) &&
          holdsAt (· == cp '\x7b') src (j + 2)) := by
    rw [startsWith_eq, startsWith_triple '\\' 'u' '\x7b' rfl]
  rw [Reference.unicodeEscape, Native.unicodeEscape, hub, hu]
  by_cases hesc : (holdsAt (· == cp '\\') src j && holdsAt (· == cp 'u') src (j + 1)) = true
  · simp only [hesc, Bool.true_and, Bool.not_true, Bool.false_eq_true, if_false, true_and,
      slice_natCast]
    by_cases hb : holdsAt (· == cp '\x7b') src (j + 2) = true
    · rw [if_pos hb, if_pos hb, find_brace,
        show Reference.MAX_BRACE_DIGITS = Native.MAX_BRACE_DIGITS from rfl]
      cases hfind : (List.range' (j + 3)
          (min src.length (j + 3 + Native.MAX_BRACE_DIGITS + 1) - (j + 3))).find? fun k =>
            holdsAt (· == cp '\x7d') src k with
      | none => simp
      | some stop =>
        have hmem := mem_range'_1.mp (mem_of_find?_eq_some hfind)
        have hpos : (0 : ℤ) < stop := by omega
        have h8 : Native.MAX_BRACE_DIGITS = 8 := rfl
        have hlen : (slice src (j + 3) stop).length ≤ 8 := by
          rw [length_slice (by omega)]
          omega
        simp only [hpos, if_true, slice_natCast, all_HEX, Bool.and_eq_true,
          Bool.not_eq_true', isEmpty_eq_false_iff, decide_eq_true_eq, hlen, true_and, and_true]
        by_cases hdig : slice src (j + 3) stop ≠ [] ∧ (slice src (j + 3) stop).all isHex = true
        · rw [if_pos hdig, if_pos hdig, hexValue_eq (all_eq_true.mp hdig.2) hlen]
          rfl
        · rw [if_neg hdig, if_neg hdig]
    · rw [if_neg hb, if_neg hb]
      have hlen : (slice src (j + 2) (j + 6)).length = 4 ↔ j + 6 ≤ src.length := by
        rw [slice, length_take, length_drop]
        omega
      simp only [hlen, all_HEX, Bool.and_eq_true, decide_eq_true_eq]
      by_cases hdig : j + 6 ≤ src.length ∧ (slice src (j + 2) (j + 6)).all isHex = true
      · rw [if_pos hdig, if_pos hdig, hexValue_eq (all_eq_true.mp hdig.2)
          (by rw [length_slice hdig.1]; omega)]
      · rw [if_neg hdig, if_neg hdig]
  · simp [hesc]

/-- An escape ends after its backslash. -/
theorem unicodeEscape_lt {src : Text} {j c stop : ℕ}
    (h : Native.unicodeEscape src j = some (c, stop)) : j < stop ∧ stop ≤ src.length := by
  rw [Native.unicodeEscape] at h
  simp only at h
  split at h
  · cases h
  split at h
  · split at h
    · cases h
    next k hfind =>
      have hmem := mem_range'_1.mp (mem_of_find?_eq_some hfind)
      split at h
      · split at h
        · simp only [Option.some.injEq, Prod.mk.injEq] at h
          omega
        · cases h
      · cases h
  · split at h
    next hlen =>
      simp only [Bool.and_eq_true, decide_eq_true_eq] at hlen
      simp only [Option.some.injEq, Prod.mk.injEq] at h
      omega
    · cases h

theorem cookedLoop_eq (raw : Text) : ∀ (fuel i : ℕ) (out : Text),
    Reference.cookedLoop raw fuel i out = Native.cookedLoop raw fuel i out := by
  intro fuel
  induction fuel with
  | zero => intro i out; rfl
  | succ fuel ih =>
    intro i out
    have hx : (slice raw (i + 2) (i + 4)).length = 2 ↔ i + 4 ≤ raw.length := by
      rw [slice, length_take, length_drop]
      omega
    have hends : ∀ c : ℕ, c ∈ Reference.LINE_ENDS ↔ Native.isTerminator c = true := by
      intro c
      rw [← terminators_contains, contains_iff_mem]
      rfl
    rw [Reference.cookedLoop, Native.cookedLoop]
    by_cases hi : i < raw.length
    · rw [if_pos hi, if_pos hi]
      simp only [slice_natCast, hx, all_HEX, hends, ih, unicodeEscape_eq, simpleEscape_eq,
        bne_iff_ne, Bool.or_eq_true, Bool.and_eq_true, beq_iff_eq, decide_eq_true_eq, ge_iff_le]
      by_cases hplain : raw.getD i 0 ≠ cp '\\' ∨ raw.length ≤ i + 1
      · rw [if_pos hplain, if_pos hplain]
      · rw [if_neg hplain, if_neg hplain]
        rw [not_or, not_not] at hplain
        -- after a backslash, `\r\n` is what the prefix test asks for
        have hcr : startsWith raw (pts "\\\r\n") i = true ↔
            raw.getD (i + 1) 0 = cp '\r' ∧ holdsAt (· == cp '\n') raw (i + 2) = true := by
          rw [startsWith_eq, startsWith_triple '\\' '\r' '\n' rfl, holdsAt_eq_getD 0 hi,
            holdsAt_eq_getD 0 (show i + 1 < raw.length by omega), hplain.1]
          simp only [beq_self_eq_true, Bool.true_and, Bool.and_eq_true, beq_iff_eq]
        simp only [hcr, and_assoc]
        by_cases hhex : raw.getD (i + 1) 0 = cp 'x' ∧ i + 4 ≤ raw.length ∧
            (slice raw (i + 2) (i + 4)).all isHex = true
        · rewrite [if_pos hhex, if_pos hhex, hexValue_eq (all_eq_true.mp hhex.2.2)
            (show (slice raw (i + 2) (i + 4)).length ≤ 8 by rw [length_slice hhex.2.1]; omega)]
          rfl
        · rewrite [if_neg hhex, if_neg hhex]
          rfl
    · rw [if_neg hi, if_neg hi]

/-- A literal without a backslash is read as it is written. -/
theorem cookedLoop_plain {raw : Text} (hraw : cp '\\' ∉ raw) : ∀ (fuel i : ℕ) (out : Text),
    raw.length ≤ i + fuel → Native.cookedLoop raw fuel i out = out ++ raw.drop i := by
  intro fuel
  induction fuel with
  | zero =>
    intro i out hf
    rw [Native.cookedLoop, drop_of_length_le (by omega), append_nil]
  | succ fuel ih =>
    intro i out hf
    rw [Native.cookedLoop]
    by_cases hi : i < raw.length
    · have hget : raw.getD i 0 = raw[i] := by
        rw [getD_eq_getElem?_getD, List.getElem?_eq_getElem hi, Option.getD_some]
      have hne : raw.getD i 0 ≠ cp '\\' := by
        rw [hget]
        exact fun h => hraw (h ▸ getElem_mem hi)
      simp only [if_pos hi, bne_iff_ne.mpr hne, Bool.true_or, if_true, ih (i + 1) _ (by omega)]
      rw [hget, append_assoc, singleton_append, ← drop_eq_getElem_cons hi]
    · rw [if_neg hi, drop_of_length_le (by omega), append_nil]

/-- **Both sides read a literal alike.** -/
theorem cooked_eq (raw : Text) : Reference.cooked raw = Native.cooked raw := by
  rw [Reference.cooked, Native.cooked, cookedLoop_eq]
  split
  next h =>
    rw [cookedLoop_plain h _ _ _ (by omega)]
    rfl
  · rfl

/-! ## Reading neighbours -/

section

variable (tokAt : ℤ → Option Token)

theorem any_congr_eq {p q : Token → Bool} (h : ∀ t, p t = q t) (o : Option Token) :
    o.any p = o.any q := by
  rw [funext h]

theorem textIs_eq (k : ℤ) (s : String) : textIs tokAt k s = textAt tokAt k s :=
  any_congr_eq (fun t => eq_decide t.text s) _

theorem isAccess_eq (t : Token) : isAccess t = decide (t.text ∈ Reference.ACCESS) := by
  rw [isAccess, eq_decide, eq_decide, Bool.eq_iff_iff]
  simp [Reference.ACCESS]

theorem afterDotAt_eq (k : ℤ) : Native.afterDotAt tokAt k = Reference.afterDotAt tokAt k := by
  refine any_congr_eq (fun t => ?_) _
  rw [isAccess_eq, Bool.eq_iff_iff]
  simp

/-- The index of a name in a table of names is where the name stands. -/
theorem findIdx?_name {β : Type*} (l : List β) (name : β → Text) (text : Text) :
    match l.findIdx? fun w => text == name w with
    | some k => ∃ w, l[k]? = some w ∧ name w = text ∧ l.find? (fun w => name w = text) = some w
    | none => ∀ w ∈ l, name w ≠ text := by
  cases h : l.findIdx? fun w => text == name w with
  | none =>
    intro w hw heq
    have := List.findIdx?_eq_none_iff.mp h w hw
    simp [heq] at this
  | some k =>
    obtain ⟨hk, hp, hmin⟩ := List.findIdx?_eq_some_iff_getElem.mp h
    refine ⟨l[k], List.getElem?_eq_getElem hk, (beq_iff_eq.mp hp).symm, ?_⟩
    rw [List.find?_eq_some_iff_getElem]
    refine ⟨by simpa using (beq_iff_eq.mp hp).symm, k, hk, rfl, fun j hj => ?_⟩
    have hne : name l[j] ≠ text := fun h => hmin j hj (beq_iff_eq.mpr h.symm)
    simpa using hne

theorem globalAt_isSome (k : ℤ) : (globalAt tokAt k).isSome = isGlobalAt tokAt k := by
  rw [globalAt, isGlobalAt]
  cases tokAt k with
  | none => rfl
  | some t =>
    by_cases hk : t.kind = .id
    · have h := findIdx?_name GLOBALS id t.text
      simp only [id_eq] at h
      simp only [hk, bne_self_eq_false, Bool.false_eq_true, if_false, Option.any_some, true_and]
      cases hf : GLOBALS.findIdx? fun g => t.text == g with
      | none =>
        simp only [hf] at h
        have : t.text ∉ GLOBALS := fun hm => h _ hm rfl
        simp [this]
      | some g =>
        simp only [hf] at h
        obtain ⟨w, hw, rfl, -⟩ := h
        simp [mem_of_getElem? hw]
    · simp [hk]

/-- A native description of a list of codes. -/
def describeAll (policy : Option Policy) (off : ℕ) (hits : List (Code × ℕ)) :
    List Reference.Added :=
  hits.map fun h => Hit.added policy ⟨h.1, h.2, off⟩

theorem aliasKey_report (policy : Option Policy) (k : ℤ) (text : Text) (off : ℕ) :
    describeAll policy off (match globalAt tokAt k, nameIndex text with
      | some g, some name => [(Code.globalAliasKey, 16 * g + name)]
      | _, _ => [])
      = if isGlobalAt tokAt k ∧ text ∈ NAMES.map NameRule.name then
          [⟨.globalAlias, aliasMessage (((tokAt k).map Token.text).getD []) text, off, .error⟩]
        else [] := by
  have hname := findIdx?_name NAMES NameRule.name text
  have hsome := globalAt_isSome tokAt k
  cases hg : globalAt tokAt k with
  | none =>
    rw [hg] at hsome
    rw [if_neg (by rw [← hsome]; simp)]
    rfl
  | some g =>
    rw [hg] at hsome
    rw [nameIndex]
    cases hn : NAMES.findIdx? fun w => text == w.name with
    | none =>
      simp only [hn] at hname
      rw [if_neg]
      · rfl
      · rintro ⟨-, hm⟩
        obtain ⟨w, hw, rfl⟩ := mem_map.mp hm
        exact hname w hw rfl
    | some n =>
      simp only [hn] at hname
      obtain ⟨w, hw, rfl, -⟩ := hname
      -- the table has fewer than sixteen names, so the argument splits back
      have hlt : n < 7 := (List.getElem?_eq_some_iff.mp hw).1
      rw [globalAt] at hg
      cases ht : tokAt k with
      | none => simp [ht] at hg
      | some t =>
        simp only [ht] at hg
        split at hg
        · cases hg
        have hglob := findIdx?_name GLOBALS id t.text
        simp only [id_eq, hg] at hglob
        obtain ⟨v, hv, rfl, -⟩ := hglob
        rw [if_pos ⟨by rw [← hsome]; rfl, mem_map_of_mem (mem_of_getElem? hw)⟩]
        simp only [describeAll, Hit.added, describe, map_singleton,
          show (16 * g + n) / 16 = g by omega, show (16 * g + n) % 16 = n by omega, hw,
          getD_eq_getElem?_getD, hv, Option.map_some, Option.getD_some]

theorem usabilityHits_length (options : Options) (k : ℤ) (tok : Token) :
    (usabilityHits tokAt k options tok).length ≤ 8 := by
  rw [usabilityHits]
  simp only
  split
  · rw [length_append]
    have h1 : ∀ (c : Prop) [Decidable c], (if c then [(Code.protoString, 0)] else []).length ≤ 1 := by
      intro c _; split <;> simp
    have h2 := h1 (Native.eq tok.text "__proto__" = true)
    split
    · split <;> simp only [length_cons, length_nil] <;> omega
    · simp only [length_nil]; omega
  · split
    · split_ifs <;> (try simp) <;> (split <;> (try split_ifs) <;> simp)
    · simp

/-- **The usability rules of a token** report what the reference adds. -/
theorem usabilityHits_eq (policy : Option Policy) (options : Options) (k : ℤ) (tok : Token) :
    describeAll policy tok.off (usabilityHits tokAt k options tok)
      = Reference.usabilityRules tokAt options k tok := by
  have hctor : (tokAt (k - 2)).any (fun p => p.kind == .id && Native.eq p.text "constructor")
      = (tokAt (k - 2)).any fun p => p.kind = .id ∧ p.text = pts "constructor" :=
    any_congr_eq (fun p => by rw [eq_decide, Bool.eq_iff_iff]; simp) _
  have hnew : (tokAt (k - 1)).any (fun p => p.kind == .id && Native.eq p.text "new")
      = (tokAt (k - 1)).any fun p => p.kind = .id ∧ p.text = pts "new" :=
    any_congr_eq (fun p => by rw [eq_decide, Bool.eq_iff_iff]; simp) _
  rw [usabilityHits, Reference.usabilityRules]
  simp only [textIs_eq, afterDotAt_eq, globalAt_isSome, hctor, hnew]
  generalize hdot : Reference.afterDotAt tokAt k = dot
  generalize hglob : (dot && isGlobalAt tokAt (k - 2)) = via
  by_cases hstr : tok.kind = .str
  · simp only [hstr, beq_self_eq_true, if_true]
    rw [describeAll, map_append]
    congr 1
    · by_cases hb : textAt tokAt (k - 1) "[" = true
      · simp only [hb, if_true, true_and]
        exact aliasKey_report tokAt policy (k - 2) tok.text tok.off
      · simp [hb]
    · simp only [eq_decide, decide_eq_true_eq]
      split <;> rfl
  by_cases hid : tok.kind = .id
  swap
  · simp [hstr, hid, describeAll]
  simp only [hid, beq_self_eq_true, if_true, ne_eq, not_true_eq_false, if_false, reduceCtorEq,
    eq_decide, decide_eq_true_eq, Bool.and_eq_true, Bool.not_eq_true', Bool.not_eq_true,
    show (Kind.id == Kind.str) = false from rfl, Bool.false_eq_true]
  by_cases hacc : dot = true ∧ via = false
  · simp only [hacc, and_self, if_true]
    rw [describeAll, map_append]
    congr 1
    · by_cases hc : tok.text = pts "constructor"
      · simp only [hc, true_and, if_true]
        split <;> rfl
      · simp [hc]
    · split <;> rfl
  rw [if_neg hacc, if_neg hacc]
  by_cases hproto : tok.text = pts "__proto__"
  · rw [if_pos hproto, if_pos hproto]
    rfl
  rw [if_neg hproto, if_neg hproto]
  by_cases hexp : tok.text = pts "export"
  · rw [if_pos hexp, if_pos (show tok.text ∈ [pts "import", pts "export"] by simp [hexp]),
      if_pos hexp]
    split <;> rfl
  rw [if_neg hexp]
  by_cases himp : tok.text = pts "import"
  · rw [if_pos himp, if_pos (show tok.text ∈ [pts "import", pts "export"] by simp [himp]),
      if_neg hexp]
    split_ifs <;> rfl
  rw [if_neg himp, if_neg (show tok.text ∉ [pts "import", pts "export"] by simp [himp, hexp])]
  have hname := findIdx?_name NAMES NameRule.name tok.text
  rw [nameIndex]
  cases hn : NAMES.findIdx? fun w => tok.text == w.name with
  | some n =>
    simp only [hn] at hname
    obtain ⟨w, hw, hwt, hfind⟩ := hname
    simp only [hfind, hw, Option.bind_some]
    by_cases hvia : via = true
    · simp [hvia, describeAll, Hit.added, describe, hw]
    · simp only [hvia, Bool.false_eq_true, if_false, false_or]
      cases hneeds : w.needs with
      | none =>
        simp only [describeAll, Hit.added, describe, hw, true_or, if_true,
          map_singleton, Option.map_some, Option.getD_some]
      | some c =>
        have hq : ∀ t : Token, (t.text == [c] || decide (t.text = pts "?."))
            = decide (t.text ∈ [(some c).toList, pts "?."]) := by
          intro t
          rw [Bool.eq_iff_iff]
          simp
        simp only [any_congr_eq hq, reduceCtorEq, false_or]
        split
        · simp [describeAll, Hit.added, describe, hw]
        · rfl
  | none =>
    simp only [hn] at hname
    have hfind : NAMES.find? (fun w => decide (w.name = tok.text)) = none := by
      rw [List.find?_eq_none]
      intro w hw
      simpa using hname w hw
    simp only [hfind]
    split_ifs <;> simp only [describeAll, Hit.added, describe, map_cons, map_nil]

theorem usabilityRules_eq (policy : Option Policy) (options : Options) {k : ℤ} {tok : Token}
    (htok : tokAt k = some tok) : (Native.usabilityRules tokAt k options).map (Hit.added policy)
      = Reference.usabilityRules tokAt options k tok := by
  rw [← usabilityHits_eq tokAt policy, Native.usabilityRules, htok]
  simp only [pending, take_of_length_le (usabilityHits_length tokAt options k tok), map_map]
  rfl

theorem computedGlobal_eq (k : ℤ) :
    Native.computedGlobal tokAt k = Reference.computedGlobal tokAt k := by
  have hopt : (tokAt (k - 1)).any (fun b => b.kind == .punct && Native.eq b.text "?.")
      = (tokAt (k - 1)).any fun b => b.kind = .punct ∧ b.text = pts "?." :=
    any_congr_eq (fun b => by rw [eq_decide, Bool.eq_iff_iff]; simp) _
  have hkey : (tokAt (k + 1)).any (fun key => key.kind == .str || key.kind == .tpl || key.kind == .num)
      = (tokAt (k + 1)).any fun key => key.kind ∈ [Kind.str, .tpl, .num] :=
    any_congr_eq (fun b => by rw [Bool.eq_iff_iff]; simp [or_assoc]) _
  have hclose : (tokAt (k + 2)).any (fun c => c.kind == .punct && Native.eq c.text "]")
      = (tokAt (k + 2)).any fun c => c.kind = .punct ∧ c.text = pts "]" :=
    any_congr_eq (fun b => by rw [eq_decide, Bool.eq_iff_iff]; simp) _
  have hbases : ∀ t : Text, (GLOBALS.any (fun g => t == g) || Native.eq t "this") = true ↔
      t ∈ Reference.GLOBAL_BASES := by
    intro t
    rw [eq_decide]
    simp [Reference.GLOBAL_BASES]
  rw [Native.computedGlobal, Reference.computedGlobal]
  simp only [hopt, hkey, hclose, afterDotAt_eq]
  cases tokAt (if (tokAt (k - 1)).any (fun b => b.kind = .punct ∧ b.text = pts "?.") = true
      then k - 1 - 1 else k - 1) with
  | none => rfl
  | some base =>
    simp only [hbases, bne_iff_ne]
    by_cases hid : base.kind = .id
    · simp only [hid, ne_eq, not_true_eq_false, if_false]
      by_cases hglob : base.text ∈ Reference.GLOBAL_BASES
      · rw [if_pos hglob, if_pos hglob]
      · rw [if_neg hglob, if_neg hglob]
        simp [eq_decide, Reference.CONSTRUCTOR_BASES]
    · simp [hid]

theorem policyName_eq (k : ℤ) (tok : Token) :
    Native.policyName tokAt k tok = Reference.policyName tokAt k tok := by
  rw [Native.policyName, Reference.policyName]
  simp only [textIs_eq, afterDotAt_eq, globalAt_isSome, cooked_eq]
  cases tok.kind <;> cases textAt tokAt (k - 1) "[" <;>
    cases textAt tokAt (k + 1) "]" <;> simp

theorem policyHits_length (policy : Policy) (k : ℤ) (tok : Token) (name : Text)
    (onGlobal called : Bool) : (policyHits tokAt k policy tok name onGlobal called).length ≤ 8 := by
  have hone : ∀ (c : Prop) [Decidable c] (h : Code × ℕ), (if c then [h] else []).length ≤ 1 := by
    intro c _ h
    split <;> simp
  have hopt : ∀ (o : Option ℕ) (code : Code),
      (match o with | some k => [(code, k)] | none => []).length ≤ 1 := by
    intro o code
    cases o <;> simp
  rw [policyHits]
  simp only [length_append]
  refine le_trans (Nat.add_le_add (Nat.add_le_add (Nat.add_le_add (Nat.add_le_add
    (Nat.add_le_add (hopt _ _) ?_) ?_) (hone _ _)) (hone _ _)) (hone _ _))
    (show 1 + 1 + 1 + 1 + 1 + 1 ≤ 8 by omega)
  · split
    · exact hopt _ _
    · simp
  · split_ifs <;> simp

/-- The reports of one name, before they are placed. -/
theorem policyHits_report (policy : Policy) (k : ℤ) (tok : Token) (name : Text)
    (onGlobal called : Bool) (hp : ¬ (tok.kind = .punct ∧ tok.text = pts "["))
    (hname : Reference.policyName tokAt k tok = some (name, onGlobal, called)) :
    (policyHits tokAt k policy tok name onGlobal called).map (report policy)
      = (Reference.policyRules tokAt policy k tok).map ruleReport := by
  have htext : (tokAt (k + 2)).any (fun f => f.kind == .str || f.kind == .tpl)
      = (tokAt (k + 2)).any fun f => f.kind ∈ [Kind.str, .tpl] :=
    any_congr_eq (fun b => by rw [Bool.eq_iff_iff]; simp) _
  rw [policyHits, Reference.policyRules]
  simp only [if_neg hp, hname, map_append, afterDotAt_eq, htext]
  refine congr_arg₂ _ (congr_arg₂ _ (congr_arg₂ _ (congr_arg₂ _ (congr_arg₂ _ ?_ ?_) ?_) ?_) ?_) ?_
  · exact identifier_report policy name
  · cases onGlobal with
    | false => simp
    | true =>
      simp only [if_true, true_and]
      exact global_report policy name
  · simp only [eq_decide, TIMERS, mem_cons, not_mem_nil, or_false, decide_eq_true_eq,
      Bool.and_eq_true, Bool.or_eq_true, beq_iff_eq, and_assoc]
    split_ifs with h1 h2 h3 h4 h5
    · rfl
    · rw [h5]; rfl
    · rw [h3.1.resolve_left h5]; rfl
    · rfl
    · rfl
    · rfl
  · exact (flag_report rfl (by simp [eq_iff, and_assoc])).symm
  · exact (flag_report rfl (by simp [eq_iff])).symm
  · exact (flag_report rfl (by simp [eq_iff, and_assoc])).symm

/-- **The policy rules of a token** report what the reference adds. -/
theorem policyRules_eq (policy : Policy) {k : ℤ} {tok : Token} (htok : tokAt k = some tok) :
    (Native.policyRules tokAt k policy).map (Hit.added (some policy))
      = (Reference.policyRules tokAt policy k tok).map fun r =>
          ⟨r.1, policyMessage r.1 r.2, tok.off, .error⟩ := by
  rw [Native.policyRules, htok]
  simp only
  by_cases hp : tok.kind = .punct ∧ tok.text = pts "["
  · have hp' : (tok.kind == .punct && Native.eq tok.text "[") = true := by
      simp [hp.1, hp.2, eq_decide]
    rw [if_pos hp', Reference.policyRules]
    simp only [if_pos hp, computedGlobal_eq, Bool.and_eq_true]
    split <;> rfl
  · have hp' : ¬ (tok.kind == .punct && Native.eq tok.text "[") = true := by
      simpa [eq_decide] using hp
    rw [if_neg hp', policyName_eq]
    cases hname : Reference.policyName tokAt k tok with
    | none =>
      rw [Reference.policyRules]
      simp only [if_neg hp, hname]
      rfl
    | some nm =>
      obtain ⟨name, onGlobal, called⟩ := nm
      have hrep := congrArg (List.map fun r : Rule × Text × Severity =>
        (⟨r.1, r.2.1, tok.off, r.2.2⟩ : Reference.Added))
        (policyHits_report tokAt policy k tok name onGlobal called hp hname)
      rw [map_map, map_map] at hrep
      simp only [pending, take_of_length_le
        (policyHits_length tokAt policy k tok name onGlobal called), map_map]
      exact hrep

/-! ## The window is wide enough -/

/-- **The rules of a token read at most three tokens back and two ahead.** -/
theorem rules_congr {tokAt tokAt' : ℤ → Option Token} {k : ℤ}
    (h : ∀ j, k - 3 ≤ j ∧ j ≤ k + 2 → tokAt j = tokAt' j) (usability : Option Options)
    (policy : Option Policy) :
    rules tokAt usability policy k = rules tokAt' usability policy k := by
  have h0 := h k (by omega)
  have h1 := h (k - 1) (by omega)
  have h2 := h (k - 2) (by omega)
  have h3 := h (k - 1 - 1) (by omega)
  have h4 := h (k - 1 - 1 - 1) (by omega)
  have h5 := h (k + 1) (by omega)
  have h6 := h (k + 2) (by omega)
  have hdot : ∀ j, k - 2 ≤ j ∧ j ≤ k → Native.afterDotAt tokAt j = Native.afterDotAt tokAt' j := by
    intro j hj
    rw [Native.afterDotAt, Native.afterDotAt, h (j - 1) (by omega)]
  have hglob : globalAt tokAt (k - 2) = globalAt tokAt' (k - 2) := by
    rw [globalAt, globalAt, h2]
  have htext : ∀ j s, k - 3 ≤ j ∧ j ≤ k + 2 → textIs tokAt j s = textIs tokAt' j s := by
    intro j s hj
    rw [textIs, textIs, h j hj]
  have hcomp : Native.computedGlobal tokAt k = Native.computedGlobal tokAt' k := by
    rw [Native.computedGlobal, Native.computedGlobal, h1, h5, h6]
    by_cases hopt : (tokAt' (k - 1)).any (fun b => b.kind == .punct && Native.eq b.text "?.") = true
    · simp only [hopt, if_true, h3, hdot (k - 1 - 1) (by omega)]
    · simp only [hopt, if_false, h1, hdot (k - 1) (by omega), Bool.false_eq_true]
  have husable : ∀ options tok, usabilityHits tokAt k options tok
      = usabilityHits tokAt' k options tok := by
    intro options tok
    simp only [usabilityHits, hdot k (by omega), hglob, h1, h2, h5,
      htext (k - 1) _ (by omega), htext (k + 1) _ (by omega)]
  have hname : ∀ tok, Native.policyName tokAt k tok = Native.policyName tokAt' k tok := by
    intro tok
    simp only [Native.policyName, hdot k (by omega), hglob,
      htext (k - 1) _ (by omega), htext (k + 1) _ (by omega),
      htext (k + 2) _ (by omega)]
  have hpolicy : ∀ policy tok name onGlobal called,
      policyHits tokAt k policy tok name onGlobal called
        = policyHits tokAt' k policy tok name onGlobal called := by
    intro policy tok name onGlobal called
    simp only [policyHits, hdot k (by omega), h6]
  simp only [rules, Native.usabilityRules, Native.policyRules, h0, husable, hname, hcomp, hpolicy]

/-! ## Names of the table -/

theorem nameIndex_lt {text : Text} {n : ℕ} (h : nameIndex text = some n) : n < NAMES.length :=
  (List.findIdx?_eq_some_iff_getElem.mp h).1

theorem not_named_of_mem_ite {c : Prop} [Decidable c] {code : Code} {a : ℕ} {h : Code × ℕ}
    (hne : code ≠ .named) (hmem : h ∈ if c then [(code, a)] else []) : h.1 ≠ .named := by
  rw [mem_singleton.mp (mem_ite_nil_right.mp hmem).2]
  exact hne

/-- The rules only use the names of the table. -/
theorem usabilityHits_valid (options : Options) (k : ℤ) (tok : Token) :
    ∀ h ∈ usabilityHits tokAt k options tok, h.1 = .named → h.2 < NAMES.length := by
  intro h hh hcode
  rw [usabilityHits] at hh
  simp only at hh
  split at hh
  · -- a string: neither code is a name's
    rw [mem_append] at hh
    rcases hh with hh | hh
    · split at hh
      · split at hh
        · rw [mem_singleton.mp hh] at hcode
          cases hcode
        · cases hh
      · cases hh
    · exact absurd hcode (not_named_of_mem_ite (by decide) hh)
  split at hh
  swap
  · cases hh
  split at hh
  · rw [mem_append] at hh
    rcases hh with hh | hh
    · exact absurd hcode (not_named_of_mem_ite (by decide) hh)
    · exact absurd hcode (not_named_of_mem_ite (by decide) hh)
  split at hh
  · rw [mem_singleton.mp hh] at hcode
    cases hcode
  split at hh
  · exact absurd hcode (not_named_of_mem_ite (by decide) hh)
  split at hh
  · split at hh
    · exact absurd hcode (not_named_of_mem_ite (by decide) hh)
    · split at hh
      · exact absurd hcode (not_named_of_mem_ite (by decide) hh)
      · exact absurd hcode (not_named_of_mem_ite (by decide) hh)
  split at hh
  next name hname =>
    split at hh
    · rw [mem_singleton.mp hh] at hcode
      cases hcode
    · rw [mem_singleton.mp (mem_ite_nil_right.mp hh).2]
      exact nameIndex_lt hname
  · split at hh
    · exact absurd hcode (not_named_of_mem_ite (by decide) hh)
    · split at hh
      · exact absurd hcode (not_named_of_mem_ite (by decide) hh)
      · cases hh

theorem not_named_of_mem_option {o : Option ℕ} {code : Code} {h : Code × ℕ} (hne : code ≠ .named)
    (hmem : h ∈ match o with | some k => [(code, k)] | none => []) : h.1 ≠ .named := by
  cases o with
  | none => cases hmem
  | some k =>
    rw [mem_singleton.mp hmem]
    exact hne

theorem policyHits_not_named (policy : Policy) (k : ℤ) (tok : Token) (name : Text)
    (onGlobal called : Bool) :
    ∀ h ∈ policyHits tokAt k policy tok name onGlobal called, h.1 ≠ .named := by
  intro h hh hcode
  simp only [policyHits, mem_append] at hh
  rcases hh with ((((hh | hh) | hh) | hh) | hh) | hh
  · exact not_named_of_mem_option (by decide) hh hcode
  · split at hh
    · exact not_named_of_mem_option (by decide) hh hcode
    · cases hh
  · split at hh
    · split at hh
      · rw [mem_singleton.mp hh] at hcode
        cases hcode
      · split at hh
        · exact not_named_of_mem_ite (by decide) hh hcode
        · cases hh
    · cases hh
  · exact not_named_of_mem_ite (by decide) hh hcode
  · exact not_named_of_mem_ite (by decide) hh hcode
  · exact not_named_of_mem_ite (by decide) hh hcode

theorem rules_valid (usability : Option Options) (policy : Option Policy) (k : ℤ) :
    ∀ hit ∈ rules tokAt usability policy k, hit.Valid := by
  intro hit hh hcode
  simp only [rules, mem_append] at hh
  rcases hh with hh | hh
  · cases usability with
    | none => cases hh
    | some options =>
      simp only [Native.usabilityRules] at hh
      split at hh
      · cases hh
      obtain ⟨h, hmem, rfl⟩ := mem_map.mp hh
      exact usabilityHits_valid tokAt options k _ h (mem_of_mem_take hmem) hcode
  · cases policy with
    | none => cases hh
    | some policy =>
      simp only [Native.policyRules] at hh
      split at hh
      · cases hh
      split at hh
      · split at hh
        · rw [mem_singleton.mp hh] at hcode
          cases hcode
        · cases hh
      · split at hh
        · cases hh
        · obtain ⟨h, hmem, rfl⟩ := mem_map.mp hh
          exact absurd hcode (policyHits_not_named tokAt policy k _ _ _ _ h (mem_of_mem_take hmem))

end

end Pydeno.Scanner
