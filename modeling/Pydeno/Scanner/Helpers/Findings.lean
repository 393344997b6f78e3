import Pydeno.Scanner.Helpers.TextScan

/-!
# Sorting, deduplicating and placing findings

The native scan sorts its hits by offset, drops repeats group by group and
then counts lines in one pass; the reference drops repeats as it adds,
finds each position with a binary search and sorts by position at the
end. An offset and its position order findings alike, so both lists are
the hits of each offset in the order they were made.
-/

namespace Pydeno.Scanner

open List Hit
open Native (ruleKey describe dedupeLoop advance)
open Reference (lineStarts place)

/-! ## Rules as keys -/

/-- A native code is only given a name of the table. -/
def Hit.Valid (hit : Hit) : Prop := hit.code = .named → hit.arg < NAMES.length

/-- The key a rule is deduplicated by. -/
def ruleNumber : Rule → ℕ
  | .forbiddenIdentifier => 1
  | .forbiddenGlobal => 2
  | .forbiddenDynamicImport => 3
  | .forbiddenEval => 4
  | .forbiddenStringTimer => 5
  | .forbiddenFunctionConstructor => 6
  | .forbiddenWebassembly => 7
  | .forbiddenComputedGlobalAccess => 8
  | .globalAlias => 21
  | .proto => 23
  | .constructorConstructor => 24
  | .staticExport => 25
  | .dynamicImport => 26
  | .staticImport => 28
  | .require => 256
  | .fetch => 257
  | .xhr => 258
  | .websocket => 259
  | .process => 260
  | .deno => 261
  | .childProcess => 262
  | .eval => 30

theorem ruleNumber_injective : Function.Injective ruleNumber := by
  intro a b h
  cases a <;> cases b <;> first | rfl | (exact absurd h (by decide))

/-- **A code's key is its rule's.** -/
theorem ruleKey_eq (policy : Option Policy) {hit : Hit} (h : hit.Valid) : ruleKey hit.code hit.arg
      = ruleNumber (describe policy hit.code hit.arg).1 := by
  obtain ⟨code, arg, offset⟩ := hit
  cases code with
  | named =>
    have hlt : arg < NAMES.length := h rfl
    have hall : ∀ k < NAMES.length,
        256 + k = ruleNumber ((NAMES[k]?.map NameRule.rule).getD .require) := by decide
    exact hall arg hlt
  | _ => rfl

/-! ## Dropping repeats -/

/-- What a native hit is deduplicated by. -/
def Hit.key (hit : Hit) : ℕ × ℕ := (hit.offset, ruleKey hit.code hit.arg)

/-- The group is what was kept at the last offset. -/
structure GroupAt (out : List Hit) (group : ℕ) : Prop where
  le_length : group ≤ out.length
  below : ∀ x ∈ out.take group, ∀ y ∈ out.getLast?, x.offset < y.offset
  within : ∀ x ∈ out.drop group, ∀ y ∈ out.getLast?, x.offset = y.offset

/-- The group of the next hit. -/
def nextGroup (out : List Hit) (group : ℕ) (hit : Hit) : ℕ :=
  match out.getLast? with
  | some last => if last.offset ≠ hit.offset then out.length else group
  | none => out.length

variable {group : ℕ} {out : List Hit}

theorem nextGroup_le (hg : GroupAt out group) (hit : Hit) :
    nextGroup out group hit ≤ out.length := by
  rw [nextGroup]
  split
  · split
    · exact le_refl _
    · exact hg.le_length
  · exact le_refl _

/-- A group that is not empty is the current one. -/
theorem nextGroup_eq_of_mem {hit z : Hit} (hz : z ∈ out.drop (nextGroup out group hit)) :
    nextGroup out group hit = group := by
  rw [nextGroup] at hz ⊢
  split
  next last hl =>
    simp only [hl] at hz
    split
    next hne =>
      rw [if_pos hne] at hz
      simp at hz
    · rfl
  next hl =>
    simp only [hl] at hz
    simp at hz

/-- The next group holds exactly what was kept at the hit's offset. -/
theorem nextGroup_spec {hit : Hit} (hg : GroupAt out group) (hle : ∀ x ∈ out, x.offset ≤ hit.offset) :
    (∀ x ∈ out.take (nextGroup out group hit), x.offset < hit.offset) ∧
      ∀ x ∈ out.drop (nextGroup out group hit), x.offset = hit.offset := by
  rw [nextGroup]
  cases hl : out.getLast? with
  | none =>
    rw [List.getLast?_eq_none_iff] at hl
    subst hl
    simp
  | some last =>
    have hmem : last ∈ out := mem_of_getLast? hl
    simp only
    split
    next hne =>
      -- a new offset: everything kept lies below it
      have hlast := hle last hmem
      refine ⟨fun x hx => ?_, fun x hx => by simp at hx⟩
      rw [take_length] at hx
      rw [← take_append_drop group out, mem_append] at hx
      rcases hx with hx | hx
      · have := hg.below x hx last hl
        omega
      · have := hg.within x hx last hl
        omega
    next heq =>
      rw [not_not] at heq
      exact ⟨fun x hx => by have := hg.below x hx last hl; omega,
        fun x hx => by have := hg.within x hx last hl; omega⟩

theorem GroupAt.push {hit : Hit} (hg : GroupAt out group) (hle : ∀ x ∈ out, x.offset ≤ hit.offset) :
    GroupAt (out ++ [hit]) (nextGroup out group hit) := by
  obtain ⟨h1, h2⟩ := nextGroup_spec hg hle
  have hn := nextGroup_le hg hit
  refine ⟨by rw [length_append]; omega, ?_, ?_⟩
  · intro x hx y hy
    obtain rfl : hit = y := by simpa using hy
    rw [take_append_of_le_length hn] at hx
    exact h1 x hx
  · intro x hx y hy
    obtain rfl : hit = y := by simpa using hy
    rw [drop_append_of_le_length hn, mem_append] at hx
    rcases hx with hx | hx
    · exact h2 x hx
    · obtain rfl : x = hit := by simpa using hx
      rfl

/-- **Dropping repeats group by group** drops the repeats of the whole list,
when the list is sorted by offset. -/
theorem dedupeLoop_eq : ∀ (hits out : List Hit) (group : ℕ) (seen : List (ℕ × ℕ)),
    GroupAt out group → SortedBy offset (out ++ hits) → (∀ k, k ∈ seen ↔ k ∈ out.map key) →
    dedupeLoop out group hits = out ++ keepFirstFrom key seen hits := by
  intro hits
  induction hits with
  | nil => intro out group seen _ _ _; simp [dedupeLoop, keepFirstFrom]
  | cons hit hits ih =>
    intro out group seen hg hsorted hseen
    obtain ⟨-, hrest, hcross⟩ := pairwise_append.mp hsorted
    have hle : ∀ x ∈ out, x.offset ≤ hit.offset := fun x hx => hcross x hx hit (by simp)
    obtain ⟨h1, h2⟩ := nextGroup_spec hg hle
    have hunfold : dedupeLoop out group (hit :: hits)
        = if (out.drop (nextGroup out group hit)).any fun seen =>
              ruleKey seen.code seen.arg == ruleKey hit.code hit.arg then
            dedupeLoop out (nextGroup out group hit) hits
          else dedupeLoop (out ++ [hit]) (nextGroup out group hit) hits := rfl
    -- a repeat within the group is a repeat of the offset and the rule
    have hany : (out.drop (nextGroup out group hit)).any (fun seen =>
          ruleKey seen.code seen.arg == ruleKey hit.code hit.arg) = true ↔
        hit.key ∈ seen := by
      rw [any_eq_true, hseen, mem_map]
      constructor
      · rintro ⟨x, hx, hk⟩
        exact ⟨x, mem_of_mem_drop hx, Prod.ext (h2 x hx) (beq_iff_eq.mp hk)⟩
      · rintro ⟨x, hx, hk⟩
        have hoff : x.offset = hit.offset := congrArg Prod.fst hk
        rw [← take_append_drop (nextGroup out group hit) out, mem_append] at hx
        rcases hx with hx | hx
        · have := h1 x hx
          omega
        · exact ⟨x, hx, beq_iff_eq.mpr (congrArg Prod.snd hk)⟩
    rw [hunfold, keepFirstFrom]
    by_cases hdup : hit.key ∈ seen
    · rw [if_pos (hany.mpr hdup), if_pos hdup]
      obtain ⟨z, hz, -⟩ := any_eq_true.mp (hany.mpr hdup)
      rw [nextGroup_eq_of_mem hz]
      exact ih out group seen hg (hsorted.sublist (List.Sublist.append_left
        (sublist_cons_self hit hits) out)) hseen
    · rw [if_neg fun h => hdup (hany.mp h), if_neg hdup,
        ih (out ++ [hit]) _ (hit.key :: seen) (hg.push hle) (by rw [append_assoc]; exact hsorted)
          (fun k => by simp only [mem_cons, hseen, map_append, map_cons,
            map_nil, mem_append, not_mem_nil, or_false]; tauto),
        append_assoc]
      rfl

/-- **The native end of the scan**: the first hit of each rule at each
offset, sorted by offset. -/
theorem sortAndDedupe_eq (hits : List Hit) :
    Native.sortAndDedupe hits = sortBy offset (keepFirst key hits) := by
  rw [Native.sortAndDedupe, ← keepFirst_sortBy key offset fun a b h => congrArg Prod.fst h]
  exact dedupeLoop_eq _ [] 0 [] ⟨le_refl 0, by simp, by simp⟩ (sortBy_sorted _ _) (by simp)

/-! ## Positions -/

/-- The line breaks before an offset. -/
def newlines (code : Text) (n : ℕ) : List ℕ :=
  (List.range n).filter fun k => holdsAt (· == cp '\n') code k

theorem newlines_succ (code : Text) (n : ℕ) : newlines code (n + 1)
      = if holdsAt (· == cp '\n') code n then newlines code n ++ [n] else newlines code n := by
  rw [newlines, range_succ, filter_append]
  split
  next h =>
    rw [filter_cons_of_pos (by simpa using h)]
    rfl
  next h =>
    rw [filter_cons_of_neg (by simpa using h), filter_nil, append_nil]
    rfl

/-- The line an offset is on, counted from 1. -/
def lineAt (code : Text) (n : ℕ) : ℕ := (newlines code n).length + 1

/-- Where that line starts. -/
def lineStartAt (code : Text) (n : ℕ) : ℕ := ((newlines code n).map (· + 1)).getLastD 0

theorem advance_eq (code : Text) : ∀ (n at_ : ℕ),
    advance code n at_ (lineAt code at_) (lineStartAt code at_)
      = (lineAt code (at_ + n), lineStartAt code (at_ + n)) := by
  intro n
  induction n with
  | zero => intro at_; rfl
  | succ n ih =>
    intro at_
    have hnext := ih (at_ + 1)
    rw [show at_ + 1 + n = at_ + (n + 1) by omega] at hnext
    rw [advance, ← hnext, lineAt, lineStartAt, lineAt, lineStartAt, newlines_succ]
    split
    · rw [length_append, map_append, map_singleton, getLastD_concat]
      rfl
    · rfl

/-- The position of an offset. -/
def positionOf (code : Text) (offset : ℕ) : ℕ × ℕ :=
  (lineAt code (min offset code.length), offset - lineStartAt code (min offset code.length) + 1)

/-- **One pass places every hit**, when they come in ascending order. -/
theorem positionsLoop_eq (code : Text) : ∀ (hits : List Hit) (at_ : ℕ),
    (∀ hit ∈ hits, at_ ≤ min hit.offset code.length) → SortedBy offset hits →
    Native.positionsLoop code (lineAt code at_) (lineStartAt code at_) at_ hits
      = hits.map fun hit => positionOf code hit.offset := by
  intro hits
  induction hits with
  | nil => intro at_ _ _; rfl
  | cons hit hits ih =>
    intro at_ hat hsorted
    obtain ⟨hhead, htail⟩ := pairwise_cons.mp hsorted
    have hle := hat hit (by simp)
    rw [Native.positionsLoop]
    simp only [advance_eq, map_cons, positionOf,
      show at_ + (min hit.offset code.length - at_) = min hit.offset code.length by omega,
      show max at_ (min hit.offset code.length) = min hit.offset code.length by omega]
    congr 1
    refine ih _ (fun x hx => ?_) htail
    have := hhead x hx
    omega

theorem positions_eq (code : Text) {hits : List Hit} (h : SortedBy offset hits) :
    Native.positions code hits = hits.map fun hit => positionOf code hit.offset :=
  positionsLoop_eq code hits 0 (fun _ _ => Nat.zero_le _) h

/-- The reference's table of line starts. -/
theorem lineStarts_eq (code : Text) :
    lineStarts code = 0 :: (newlines code code.length).map (· + 1) := by
  have go : ∀ (fuel i : ℕ), i + fuel = code.length →
      (Regex.finditerFrom (Regex.one (· == cp '\n')) code fuel i).map (fun hit => hit.1 + hit.2.len)
        = ((List.range' i fuel).filter fun k => holdsAt (· == cp '\n') code k).map (· + 1) := by
    intro fuel
    induction fuel with
    | zero => intro i _; rfl
    | succ fuel ih =>
      intro i hi
      rw [Regex.finditerFrom, if_pos (by omega), Regex.match?_one_drop, List.range'_succ]
      by_cases h : holdsAt (· == cp '\n') code i = true
      · rw [if_pos h, filter_cons_of_pos (by simpa using h)]
        simp only [map_cons, max_self, ih (i + 1) (by omega)]
      · rw [if_neg h, filter_cons_of_neg (by simpa using h)]
        exact ih (i + 1) (by omega)
  rw [lineStarts, Regex.finditer, go code.length 0 (Nat.zero_add _), ← range_eq_range', newlines]

theorem newlines_lt {code : Text} {n k : ℕ} (h : k ∈ newlines code n) : k < n :=
  mem_range.mp (mem_filter.mp h).1

/-- The line breaks before an offset come first. -/
theorem newlines_append (code : Text) {m n : ℕ} (h : m ≤ n) :
    ∃ rest, newlines code n = newlines code m ++ rest ∧ ∀ k ∈ rest, m ≤ k := by
  refine ⟨(List.range' m (n - m)).filter fun k => holdsAt (· == cp '\n') code k, ?_, ?_⟩
  · have hsplit : List.range n = List.range m ++ List.range' m (n - m) := by
      rw [range_eq_range', range_eq_range', show n = m + (n - m) by omega,
        ← List.range'_append_1, Nat.zero_add, show m + (n - m) - m = n - m by omega]
    rw [newlines, newlines, ← filter_append, hsplit]
  · intro k hk
    exact (mem_range'_1.mp (mem_filter.mp hk).1).1

theorem newlines_sorted (code : Text) (n : ℕ) : (newlines code n).Pairwise (· < ·) :=
  pairwise_lt_range.filter _

/-- The starts at or before an offset are the breaks before it. -/
theorem takeWhile_lineStarts (code : Text) (offset : ℕ) : (lineStarts code).takeWhile (· ≤ offset)
      = 0 :: (newlines code (min offset code.length)).map (· + 1) := by
  obtain ⟨rest, hrest, hge⟩ := newlines_append code (min_le_right offset code.length)
  rw [lineStarts_eq, takeWhile_cons_of_pos (by simp), hrest, map_append, takeWhile_append_of_pos]
  · cases hr : rest with
    | nil => simp
    | cons k rest' =>
      have hk := hge k (by rw [hr]; simp)
      have hlt : k < code.length := newlines_lt (by rw [hrest, hr]; simp)
      rw [map_cons, takeWhile_cons_of_neg (by simp; omega), append_nil]
  · intro a ha
    obtain ⟨k, hk, rfl⟩ := mem_map.mp ha
    have := newlines_lt hk
    simp
    omega

/-- **Both sides place an offset alike.** -/
theorem place_eq (code : Text) (offset : ℕ) : place code offset = positionOf code offset := by
  have hsorted : (lineStarts code).Pairwise (· ≤ ·) := by
    rw [lineStarts_eq, pairwise_cons, pairwise_map]
    exact ⟨fun _ _ => Nat.zero_le _, (newlines_sorted code _).imp fun h => by omega⟩
  set m := min offset code.length
  have hpoint : partitionPoint (lineStarts code) offset = lineAt code m := by
    rw [partitionPoint, takeWhile_lineStarts, length_cons, length_map, lineAt]
  have hget : (lineStarts code).getD (lineAt code m - 1) 0 = lineStartAt code m := by
    obtain ⟨rest, hrest, -⟩ := newlines_append code (min_le_right offset code.length)
    rw [lineStarts_eq, lineAt, lineStartAt, Nat.add_sub_cancel]
    change (0 :: List.map (· + 1) (newlines code code.length)).getD _ 0 = _
    rw [hrest, map_append, ← cons_append, getD_eq_getElem?_getD,
      List.getElem?_append_left (by simp [m]), ← getD_eq_getElem?_getD]
    change (0 :: (newlines code m).map (· + 1)).getD (newlines code m).length 0 = _
    generalize newlines code m = l
    rcases eq_nil_or_concat l with rfl | ⟨l', x, rfl⟩
    · rfl
    · simp
  rw [place, bisectRight_eq hsorted, hpoint, hget]
  rfl

/-- **Offsets and positions order findings alike.** -/
theorem positionOf_le_iff (code : Text) (a b : ℕ) :
    a ≤ b ↔ toLex (positionOf code a) ≤ toLex (positionOf code b) := by
  have hstart : ∀ n, lineStartAt code n ≤ n := by
    intro n
    rw [lineStartAt]
    rcases eq_nil_or_concat (newlines code n) with h | ⟨l, x, h⟩
    · rw [h]; exact Nat.zero_le _
    · rw [h, concat_eq_append, map_append, map_singleton, getLastD_concat]
      have : x ∈ newlines code n := by rw [h]; simp
      exact newlines_lt this
  have hmono : ∀ a b, a < b → toLex (positionOf code a) < toLex (positionOf code b) := by
    intro a b hab
    obtain ⟨rest, hrest, -⟩ := newlines_append code
      (show min a code.length ≤ min b code.length by omega)
    rw [Prod.Lex.toLex_lt_toLex]
    cases hr : rest with
    | nil =>
      rw [hr, append_nil] at hrest
      have h1 := hstart (min a code.length)
      refine .inr ⟨by simp only [positionOf, lineAt, hrest], ?_⟩
      simp only [positionOf, lineStartAt, hrest] at h1 ⊢
      omega
    | cons k rest' =>
      refine .inl ?_
      simp only [positionOf, lineAt, hrest, hr, length_append, length_cons]
      omega
  constructor
  · intro h
    rcases Nat.eq_or_lt_of_le h with rfl | h
    · exact le_refl _
    · exact (hmono a b h).le
  · intro h
    by_contra hlt
    exact absurd (hmono b a (by omega)) (not_lt.mpr h)

/-! ## The findings -/

/-- A placed finding. -/
def Hit.finding (policy : Option Policy) (code : Text) (hit : Hit) : Finding :=
  let d := describe policy hit.code hit.arg
  let p := positionOf code hit.offset
  ⟨d.1, d.2.1, p.1, p.2, d.2.2⟩

/-- **The native list of findings.** -/
theorem native_findings_eq (policy : Option Policy) (code : Text) (hits : List Hit) :
    Native.findings policy code hits
      = (sortBy offset (keepFirst key hits)).map (finding policy code) := by
  rw [Native.findings, sortAndDedupe_eq]
  simp only [positions_eq code (sortBy_sorted offset _)]
  generalize sortBy offset (keepFirst key hits) = l
  induction l with
  | nil => rfl
  | cons hit l ih =>
    rw [map_cons, zip_cons_cons, map_cons, map_cons, ih]
    rfl

/-- **The reference's list of findings**, from the hits that stand for what
it adds. -/
theorem reference_findings_eq (policy : Option Policy) (code : Text) {hits : List Hit}
    (hv : ∀ hit ∈ hits, hit.Valid) : Reference.findings code (hits.map (added policy))
      = (sortBy offset (keepFirst key hits)).map (finding policy code) := by
  have hkeep : keepFirst (fun hit : Hit => ((hit.added policy).rule, (hit.added policy).offset)) hits
      = keepFirst key hits := by
    refine keepFirst_congr hits fun a ha b hb => ?_
    simp only [key, Prod.mk.injEq, ruleKey_eq policy (hv a ha), ruleKey_eq policy (hv b hb),
      ruleNumber_injective.eq_iff]
    exact And.comm
  rw [Reference.findings]
  simp only [keepFirst_map, hkeep, map_map, place_eq]
  exact sortBy_map (finding policy code) _ offset
    (fun a b => positionOf_le_iff code a.offset b.offset) _

end Pydeno.Scanner
