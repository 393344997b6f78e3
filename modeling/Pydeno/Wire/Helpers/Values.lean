import Pydeno.Wire.Helpers.Numbers

/-!
# The values of a frame

The parser and the reader of the JSON library take the same number of
rounds, so one induction compares them (`values_agree`): where the reader
finds a value that fits, the parser returns its tree and has spent one unit
of the budget for each value; everywhere else it returns an error of its
own, and with enough rounds it never runs out of them.
-/

namespace Pydeno.Wire

open List Json

open Utf8 (Scalars Stands)
open Json.Value (depthItems countItems depthEntries countEntries)

variable {bytes : Bytes} {maxDepth : ℕ}

/-! ## Trees of documents -/

mutual

/-- The tree the parser returns for a document. -/
def toNode : Json.Value → Node
  | .null => .null
  | .bool b => .bool b
  | .num n => numNode n
  | .str us => .str (canon us)
  | .arr items => .list (toNodes items)
  | .obj entries => .obj (toEntries entries)

def toNodes : List Json.Value → List Node
  | [] => []
  | v :: rest => toNode v :: toNodes rest

def toEntries : List (List ℕ × Json.Value) → List (Str × Node)
  | [] => []
  | (key, v) :: rest => (canon key, toNode v) :: toEntries rest

end

theorem toEntries_append (es fs : List (List ℕ × Json.Value)) :
    toEntries (es ++ fs) = toEntries es ++ toEntries fs := by
  induction es with
  | nil => rfl
  | cons e es ih =>
    obtain ⟨key, v⟩ := e
    rw [cons_append, toEntries, toEntries, ih, cons_append]

theorem map_fst_toEntries (es : List (List ℕ × Json.Value)) :
    (toEntries es).map Prod.fst = (es.map Prod.fst).map canon := by
  induction es with
  | nil => rfl
  | cons e es ih =>
    obtain ⟨key, v⟩ := e
    simp only [toEntries, map_cons, ih]

/-! ## Budgets -/

theorem count_pos (d : Json.Value) : 0 < d.count := by
  cases d <;> simp only [Json.Value.count] <;> omega

/-- What the rest of an array has to meet. -/
structure FitsItems (maxDepth depth left : ℕ) (items : List Json.Value) : Prop where
  deep : depth + depthItems items ≤ maxDepth
  many : countItems items ≤ left
  finite : FiniteItems items
  distinct : DistinctItems items

/-- What the rest of an object has to meet, after the entries `done`. -/
structure FitsEntries (maxDepth depth left : ℕ) (done entries : List (List ℕ × Json.Value)) :
    Prop where
  deep : depth + depthEntries entries ≤ maxDepth
  many : countEntries entries ≤ left
  finite : FiniteEntries entries
  distinct : DistinctEntries entries
  keys : ((done ++ entries).map Prod.fst).Nodup

variable {depth left fuel : ℕ} {items : List Json.Value} {v : Json.Value} {key t r : List ℕ}
    {enough : Prop} {p : Cursor}

/-- A value without parts fits where there is room for one. -/
theorem fits_scalar (hdepth : depth ≤ maxDepth) (h1 : v.depth = 0 := by rfl)
    (h2 : v.count = 1 := by rfl) (h3 : FiniteNumbers v := by simp only [FiniteNumbers])
    (h4 : DistinctKeys v := by simp only [DistinctKeys]) : Fits maxDepth depth (left + 1) v :=
  ⟨by omega, by omega, h3, h4⟩

theorem fits_arr : Fits maxDepth depth left (.arr items) ↔
      1 ≤ left ∧ FitsItems maxDepth depth (left - 1) items := by
  constructor
  · rintro ⟨h1, h2, h3, h4⟩
    rw [Json.Value.depth] at h1
    rw [Json.Value.count] at h2
    exact ⟨by omega, h1, by omega, h3, h4⟩
  · rintro ⟨hl, h1, h2, h3, h4⟩
    refine ⟨?_, ?_, h3, h4⟩
    · rw [Json.Value.depth]; exact h1
    · rw [Json.Value.count]; omega

theorem fits_obj {entries : List (List ℕ × Json.Value)} : Fits maxDepth depth left (.obj entries) ↔
      1 ≤ left ∧ FitsEntries maxDepth depth (left - 1) [] entries := by
  constructor
  · rintro ⟨h1, h2, h3, h4⟩
    rw [Json.Value.depth] at h1
    rw [Json.Value.count] at h2
    rw [DistinctKeys] at h4
    exact ⟨by omega, h1, by omega, h3, h4.2, h4.1⟩
  · rintro ⟨hl, h1, h2, h3, h4, h5⟩
    refine ⟨?_, ?_, h3, ?_⟩
    · rw [Json.Value.depth]; exact h1
    · rw [Json.Value.count]; omega
    · rw [DistinctKeys]; exact ⟨h5, h4⟩

theorem fitsItems_cons : FitsItems maxDepth depth left (v :: items) ↔
      Fits maxDepth (depth + 1) left v ∧ FitsItems maxDepth depth (left - v.count) items := by
  constructor
  · rintro ⟨h1, h2, h3, h4⟩
    rw [depthItems] at h1
    rw [countItems] at h2
    rw [FiniteItems] at h3
    rw [DistinctItems] at h4
    exact ⟨⟨by omega, by omega, h3.1, h4.1⟩, ⟨by omega, by omega, h3.2, h4.2⟩⟩
  · rintro ⟨⟨h1, h2, h3, h4⟩, ⟨h1', h2', h3', h4'⟩⟩
    refine ⟨?_, ?_, ?_, ?_⟩
    · rw [depthItems]; omega
    · rw [countItems]; omega
    · rw [FiniteItems]; exact ⟨h3, h3'⟩
    · rw [DistinctItems]; exact ⟨h4, h4'⟩

theorem fitsItems_singleton :
    FitsItems maxDepth depth left [v] ↔ Fits maxDepth (depth + 1) left v := by
  rw [fitsItems_cons]
  refine ⟨fun h => h.1, fun h => ⟨h, ?_, ?_, ?_, ?_⟩⟩
  · have := h.deep
    rw [depthItems]; omega
  · rw [countItems]; omega
  · rw [FiniteItems]; trivial
  · rw [DistinctItems]; trivial

theorem fitsEntries_cons {done : List (List ℕ × Json.Value)} {entries : List (List ℕ × Json.Value)} :
    FitsEntries maxDepth depth left done ((key, v) :: entries) ↔
      Fits maxDepth (depth + 1) left v ∧
        FitsEntries maxDepth depth (left - v.count) (done ++ [(key, v)]) entries := by
  constructor
  · rintro ⟨h1, h2, h3, h4, h5⟩
    rw [depthEntries] at h1
    rw [countEntries] at h2
    rw [FiniteEntries] at h3
    rw [DistinctEntries] at h4
    refine ⟨⟨by omega, by omega, h3.1, h4.1⟩, ⟨by omega, by omega, h3.2, h4.2, ?_⟩⟩
    rw [append_assoc]
    exact h5
  · rintro ⟨⟨h1, h2, h3, h4⟩, ⟨h1', h2', h3', h4', h5⟩⟩
    refine ⟨?_, ?_, ?_, ?_, ?_⟩
    · rw [depthEntries]; omega
    · rw [countEntries]; omega
    · rw [FiniteEntries]; exact ⟨h3, h3'⟩
    · rw [DistinctEntries]; exact ⟨h4, h4'⟩
    · rw [append_assoc] at h5
      exact h5

theorem fitsEntries_singleton {done : List (List ℕ × Json.Value)} :
    FitsEntries maxDepth depth left done [(key, v)] ↔
      Fits maxDepth (depth + 1) left v ∧ ((done ++ [(key, v)]).map Prod.fst).Nodup := by
  rw [fitsEntries_cons]
  refine ⟨fun h => ⟨h.1, ?_⟩, fun h => ⟨h.1, ?_, ?_, ?_, ?_, ?_⟩⟩
  · have hkeys := h.2.keys
    rw [append_nil] at hkeys
    exact hkeys
  · have := h.1.deep
    rw [depthEntries]; omega
  · rw [countEntries]; omega
  · rw [FiniteEntries]; trivial
  · rw [DistinctEntries]; trivial
  · rw [append_nil]; exact h.2

/-! ## Repeated keys -/

theorem foldl_seen (entries : List (Str × Node)) : ∀ seen : List Str,
    (entries.foldl (fun (s : Bool × List Str) e =>
      if s.1 then s else (decide (e.1 ∈ s.2), e.1 :: s.2)) (false, seen)).1 = false ↔
      (entries.map Prod.fst).Nodup ∧ ∀ k ∈ entries.map Prod.fst, k ∉ seen := by
  induction entries with
  | nil => intro seen; simp
  | cons e entries ih =>
    intro seen
    rw [foldl_cons]
    simp only [Bool.false_eq_true, if_false]
    by_cases hmem : e.1 ∈ seen
    · -- once found, a repeated key stays found
      have hstuck : ∀ (l : List (Str × Node)) (s : List Str), (l.foldl (fun (s : Bool × List Str) e =>
          if s.1 then s else (decide (e.1 ∈ s.2), e.1 :: s.2)) (true, s)).1 = true := by
        intro l s
        induction l with
        | nil => rfl
        | cons x l ih => rw [foldl_cons]; exact ih
      rw [decide_eq_true hmem, hstuck]
      simp only [Bool.true_eq_false, false_iff, not_and, not_forall]
      exact fun _ => ⟨e.1, by simp, fun hne => hne hmem⟩
    · rw [decide_eq_false hmem, ih]
      simp only [map_cons, nodup_cons, mem_cons, not_or]
      constructor
      · rintro ⟨hnd, hall⟩
        refine ⟨⟨fun hin => (hall _ hin).1 rfl, hnd⟩, ?_⟩
        rintro k (rfl | hk)
        · exact hmem
        · exact (hall k hk).2
      · rintro ⟨⟨hnot, hnd⟩, hall⟩
        exact ⟨hnd, fun k hk => ⟨fun he => hnot (he ▸ hk), hall k (.inr hk)⟩⟩

theorem hasDuplicate_eq_false (entries : List (Str × Node)) :
    hasDuplicate entries = false ↔ (entries.map Prod.fst).Nodup := by
  unfold hasDuplicate
  split_ifs with hlen
  · rw [nodup_iff_getElem?_ne_getElem?, any_eq_false]
    constructor
    · intro h i j hij hj he
      rw [length_map] at hj
      rw [List.getElem?_map, List.getElem?_map, List.getElem?_eq_getElem hj,
        List.getElem?_eq_getElem (show i < entries.length by omega)] at he
      have hmem : (entries[j], j) ∈ entries.zipIdx := by
        rw [mem_zipIdx_iff_getElem?]
        exact List.getElem?_eq_getElem hj
      refine h _ hmem (any_eq_true.mpr ⟨entries[i], ?_, ?_⟩)
      · rw [mem_take_iff_getElem]
        exact ⟨i, by omega, rfl⟩
      · simpa using he
    · intro h e he hany
      rw [mem_zipIdx_iff_getElem?] at he
      obtain ⟨earlier, hin, hkey⟩ := any_eq_true.mp hany
      rw [mem_take_iff_getElem] at hin
      obtain ⟨i, hi, rfl⟩ := hin
      have hj : e.2 < entries.length := (List.getElem?_eq_some_iff.mp he).1
      refine h i e.2 (by omega) (by rw [length_map]; exact hj) ?_
      rw [List.getElem?_map, List.getElem?_map, he,
        List.getElem?_eq_getElem (show i < entries.length by omega)]
      simpa using hkey
  · rw [foldl_seen]
    simp

/-- Keys are compared as their code units. -/
theorem hasDuplicate_toEntries {es : List (List ℕ × Json.Value)}
    (h : ∀ e ∈ es, ∀ u ∈ e.1, u < 0x10000) :
    hasDuplicate (toEntries es) = false ↔ (es.map Prod.fst).Nodup := by
  rw [hasDuplicate_eq_false, map_fst_toEntries]
  refine ⟨fun hnd => hnd.of_map canon, fun hnd => hnd.map_on fun x hx y hy hxy => ?_⟩
  obtain ⟨e, he, rfl⟩ := mem_map.mp hx
  obtain ⟨e', he', rfl⟩ := mem_map.mp hy
  exact (canon_inj (h e he) (h e' he')).mp hxy

/-! ## Agreement -/

/-- **The parser agrees with the reader**: it returns the tree of what the
reader found and has paid for it, if that fits, and otherwise stops with an
error of its own. -/
def Agrees (bytes : Bytes) {β : Type} (left : ℕ) (enough : Prop) (fits : β → Prop) (cost : β → ℕ)
    (node : β → Node) (read : Option (β × List ℕ)) (run : PResult Node) : Prop :=
  (∃ d r q, read = some (d, r) ∧ fits d ∧ run = .ok (node d, q) ∧ Stands bytes q.pos r ∧
    q.left + cost d = left) ∨
  ((∀ d r, read = some (d, r) → ¬ fits d) ∧
    ∃ s, run = .error s ∧ s ≠ .panic ∧ (enough → s ≠ .rounds))

section

variable {β : Type} {left : ℕ} {enough : Prop} {fits : β → Prop} {cost : β → ℕ} {node : β → Node}
  {read : Option (β × List ℕ)} {run : PResult Node}

/-- An error of the parser's own. -/
theorem Agrees.error (h : ∀ d r, read = some (d, r) → ¬ fits d) (e : ParseError)
    (hrun : run = .error (.error e)) : Agrees bytes left enough fits cost node read run :=
  .inr ⟨h, _, hrun, by simp, by simp⟩

theorem Agrees.json (hread : read = none) (hrun : run = jsonError) :
    Agrees bytes left enough fits cost node read run :=
  error (fun d r h => by rw [hread] at h; cases h) .json hrun

/-- Both ask the same. -/
theorem Agrees.ite {c : Prop} [Decidable c] {read' : Option (β × List ℕ)} {run' : PResult Node}
    (hpos : c → Agrees bytes left enough fits cost node read run)
    (hneg : ¬c → Agrees bytes left enough fits cost node read' run') :
    Agrees bytes left enough fits cost node (if c then read else read')
      (if c then run else run') := by
  split
  · exact hpos ‹_›
  · exact hneg ‹_›

/-- What is read is a part of something that costs `k` more. -/
theorem Agrees.map {γ : Type} {k left' : ℕ} {enough' : Prop} {fits' : γ → Prop} {cost' : γ → ℕ}
    {node' : γ → Node} {f : β → γ} (h : Agrees bytes left enough fits cost node read run)
    (henough : enough' → enough) (hfits : ∀ b, fits' (f b) ↔ fits b)
    (hcost : ∀ b, cost' (f b) = k + cost b) (hleft : left' = k + left)
    (hnode : ∀ b, node' (f b) = node b) :
    Agrees bytes left' enough' fits' cost' node' (read.map fun s => (f s.1, s.2)) run := by
  rcases h with ⟨b, r, q, hread, hfit, hrun, hst, hq⟩ | ⟨hno, s, hrun, hpanic, hrounds⟩
  · left
    refine ⟨f b, r, q, by rw [hread]; rfl, (hfits b).mpr hfit, by rw [hrun, hnode], hst, ?_⟩
    rw [hcost]
    omega
  · right
    refine ⟨fun d r heq hfit => ?_, s, hrun, hpanic, fun he => hrounds (henough he)⟩
    obtain ⟨⟨b, r'⟩, hb, hpair⟩ := Option.map_eq_some_iff.mp heq
    cases hpair
    exact hno b r' hb ((hfits b).mp hfit)

end

theorem literal_agrees (h : Stands bytes p.pos t) {word : List ℕ}
    (hw : ∀ c ∈ word, c < 0x80) {d : Json.Value} (hfits : Fits maxDepth depth (p.left + 1) d)
    (hcost : d.count = 1) :
    Agrees bytes (p.left + 1) enough (Fits maxDepth depth (p.left + 1)) Json.Value.count toNode
      (readWord word d t) (literal bytes word (toNode d) p) := by
  have hle := h.le_length
  rw [literal, if_neg (by omega), h.drop_eq, Utf8.isPrefixOf_encodeAll hw]
  by_cases hpre : word.isPrefixOf t = true
  · left
    obtain ⟨rest, rfl⟩ := isPrefixOf_iff_prefix.mp hpre
    have hst := h.advance
    rw [Utf8.encodeAll_ascii hw] at hst
    refine ⟨d, rest, ⟨p.pos + word.length, p.left⟩, readWord_complete word rest d, hfits, ?_,
      hst, by rw [hcost]⟩
    rw [if_pos hpre]
  · refine Agrees.json ?_ ?_
    · rw [readWord, if_neg hpre]
    · rw [if_neg hpre]

theorem string_agrees (h : Stands bytes p.pos t) (hdepth : depth ≤ maxDepth) :
    Agrees bytes (p.left + 1) enough (Fits maxDepth depth (p.left + 1)) Json.Value.count toNode
      ((readChars t).map fun s => (Json.Value.str s.1, s.2))
      ((string bytes p).map fun r => (Node.str r.1, r.2)) := by
  rcases string_eq h with ⟨herr, hnone⟩ | ⟨v, r, q, hok, hread, hst, hleft⟩
  · rw [herr, hnone]
    exact Agrees.json rfl rfl
  · left
    rw [hok, hread]
    refine ⟨.str v, r, q, rfl, fits_scalar hdepth, ?_, hst, ?_⟩
    · rw [toNode]; rfl
    · simp only [Json.Value.count]; omega

theorem number_agrees (h : Stands bytes p.pos t) (hdepth : depth ≤ maxDepth) :
    Agrees bytes (p.left + 1) enough (Fits maxDepth depth (p.left + 1)) Json.Value.count toNode
      ((readNumber t).map fun s => (Json.Value.num s.1, s.2)) (number bytes p) := by
  rcases number_eq h with ⟨herr, hnone⟩ | ⟨n, r, q, hread, hst, hleft, -, hrun⟩
  · rw [herr, hnone]
    exact Agrees.json rfl rfl
  · rw [hread, hrun]
    by_cases hfin : FiniteNumber n
    · left
      rw [if_pos hfin]
      refine ⟨.num n, r, q, rfl, fits_scalar hdepth rfl rfl (by rwa [FiniteNumbers]), ?_, hst, ?_⟩
      · rw [toNode]
      · simp only [Json.Value.count]; omega
    · rw [if_neg hfin]
      refine Agrees.error ?_ .nonFinite rfl
      intro d r' heq hfits
      cases heq
      have hf := hfits.finite
      rw [FiniteNumbers] at hf
      exact hfin hf

/-! ## Containers -/

/-- The parser agrees on values, with `fuel` rounds. -/
def ValueAgrees (bytes : Bytes) (maxDepth fuel : ℕ) : Prop :=
  ∀ (depth : ℕ) (p : Cursor) (t : List ℕ), Stands bytes p.pos t →
    Agrees bytes p.left (2 * t.length + 1 ≤ fuel) (Fits maxDepth depth p.left) Json.Value.count
      toNode (readValue fuel t) (value bytes maxDepth fuel depth p)

def ItemsAgree (bytes : Bytes) (maxDepth fuel : ℕ) : Prop :=
  ∀ (depth : ℕ) (done : List Node) (p : Cursor) (t : List ℕ), Stands bytes p.pos t →
    Agrees bytes p.left (2 * t.length + 2 ≤ fuel) (FitsItems maxDepth depth p.left)
      countItems (fun items => .list (done ++ toNodes items)) (readItems fuel t)
      (listLoop bytes maxDepth fuel depth done p)

def EntriesAgree (bytes : Bytes) (maxDepth fuel : ℕ) : Prop :=
  ∀ (depth : ℕ) (done : List (List ℕ × Json.Value)) (p : Cursor) (t : List ℕ),
    Stands bytes p.pos t → (∀ e ∈ done, ∀ u ∈ e.1, u < 0x10000) →
    Agrees bytes p.left (2 * t.length + 2 ≤ fuel) (FitsEntries maxDepth depth p.left done)
      countEntries (fun entries => .obj (toEntries (done ++ entries)))
      (readEntries fuel t) (objectLoop bytes maxDepth fuel depth (toEntries done) p)

theorem length_skipWs_le (t : List ℕ) : (Json.skipWs t).length ≤ t.length :=
  (dropWhile_sublist _).length_le

theorem readItems_nil (fuel : ℕ) : readItems fuel [] = none := by
  cases h : readItems fuel [] with
  | none => rfl
  | some s =>
    obtain ⟨body, -, heq⟩ := (reads_sound fuel).2.1 [] s.1 s.2 h
    cases body <;> cases heq

theorem readEntries_nil (fuel : ℕ) : readEntries fuel [] = none := by
  cases h : readEntries fuel [] with
  | none => rfl
  | some s =>
    obtain ⟨body, -, heq⟩ := (reads_sound fuel).2.2 [] s.1 s.2 h
    cases body <;> cases heq

/-- A byte under the cursor that is not the given ASCII character. -/
theorem byte_ne {i b c : ℕ} (h : Stands bytes i (c :: t)) (hb : b < 0x80) (hne : c ≠ b) :
    bytes[i]? ≠ some b := fun hget =>
  hne (Option.some.inj ((h.getElem?_eq hb).mp hget))

theorem byte_ne_of_nil {i b : ℕ} (h : Stands bytes i []) : bytes[i]? ≠ some b := by
  rw [h.getElem?_eq_none.mpr rfl]
  simp

/-- **A container, after its opening mark**: empty, or what its loop reads. -/
theorem container_agrees {β : Type} {close : ℕ} (hclose : close < 0x80) {fits : β → Prop}
    {cost : β → ℕ} (node : β → Node) (con : β → Json.Value) (none' : β)
    (h : Stands bytes p.pos t) {enough' : Prop} (henough : enough → enough')
    (hfits : ∀ b, Fits maxDepth depth (p.left + 1) (con b) ↔ fits b)
    (hcost : ∀ b, (con b).count = 1 + cost b) (hnode : ∀ b, toNode (con b) = node b)
    (hnone : fits none' ∧ cost none' = 0) {read : List ℕ → Option (β × List ℕ)}
    (hnil : read [] = none) {loop : Cursor → PResult Node}
    (ih : Agrees bytes p.left enough' fits cost node (read (Json.skipWs t)) (loop (skipWs bytes p))) :
    Agrees bytes (p.left + 1) enough (Fits maxDepth depth (p.left + 1)) Json.Value.count toNode
      (match Json.skipWs t with
        | [] => none
        | d :: r =>
            if d = close then some (con none', r) else (read (d :: r)).map fun s => (con s.1, s.2))
      (if bytes[(skipWs bytes p).pos]? = some close then
        .ok (node none', { skipWs bytes p with pos := (skipWs bytes p).pos + 1 })
      else loop (skipWs bytes p)) := by
  have hst := skipWs_stands h
  by_cases hhead : ∃ r, Json.skipWs t = close :: r
  · obtain ⟨r, hr⟩ := hhead
    rw [hr] at hst ⊢
    left
    rw [if_pos ((hst.getElem?_eq hclose).mpr rfl)]
    refine ⟨con none', r, _, by simp only [if_true], (hfits none').mpr hnone.1, by rw [hnode],
      hst.advance_ascii hclose, ?_⟩
    rw [hcost, hnone.2]
    rfl
  · have hbyte : bytes[(skipWs bytes p).pos]? ≠ some close := fun hget => by
      obtain ⟨r, hr, -⟩ := stands_head hst hclose hget
      exact hhead ⟨r, hr⟩
    have hread : (match Json.skipWs t with
        | [] => none
        | d :: r =>
            if d = close then some (con none', r) else (read (d :: r)).map fun s => (con s.1, s.2))
        = (read (Json.skipWs t)).map fun s => (con s.1, s.2) := by
      cases hr : Json.skipWs t with
      | nil => rw [hnil]; rfl
      | cons d r =>
        simp only
        rw [if_neg (fun he => hhead ⟨r, by rw [hr, he]⟩)]
    rw [hread, if_neg hbyte]
    exact ih.map henough hfits hcost (Nat.add_comm _ _) hnode

/-- **What follows a part of a container**: a comma and the rest, or the closing mark. -/
theorem mark_agrees {β : Type} {close left : ℕ} {fits : β → Prop} {cost : β → ℕ} {node : β → Node}
    {more last : List ℕ → Option (β × List ℕ)} {runMore runLast : PResult Node}
    (hclose : close < 0x80) (h : Stands bytes p.pos t)
    (hmore : ∀ r, r.length < t.length → Stands bytes ((skipWs bytes p).pos + 1) r →
      Agrees bytes left enough fits cost node (more r) runMore)
    (hlast : ∀ r, Stands bytes ((skipWs bytes p).pos + 1) r →
      Agrees bytes left enough fits cost node (last r) runLast) :
    Agrees bytes left enough fits cost node
      (match Json.skipWs t with
        | [] => none
        | c :: r => if c = comma then more r else if c = close then last r else none)
      (if bytes[(skipWs bytes p).pos]? = some comma then runMore
        else if bytes[(skipWs bytes p).pos]? = some close then runLast else jsonError) := by
  have hst := skipWs_stands h
  have hlen := length_skipWs_le t
  rcases hr : Json.skipWs t with _ | ⟨c, r⟩
  · rw [hr] at hst
    rw [if_neg (byte_ne_of_nil hst), if_neg (byte_ne_of_nil hst)]
    exact Agrees.json rfl rfl
  rw [hr] at hst hlen
  rw [length_cons] at hlen
  simp only
  by_cases hcomma : c = comma
  · subst hcomma
    rw [if_pos ((hst.getElem?_eq (by decide)).mpr rfl), if_pos rfl]
    exact hmore r (by omega) (hst.advance_ascii (by decide))
  rw [if_neg (byte_ne hst (by decide) hcomma), if_neg hcomma]
  by_cases hc : c = close
  · subst hc
    rw [if_pos ((hst.getElem?_eq hclose).mpr rfl), if_pos rfl]
    exact hlast r (hst.advance_ascii hclose)
  · rw [if_neg (byte_ne hst hclose hc), if_neg hc]
    exact Agrees.json rfl rfl

/-! ## The induction -/

theorem value_step (ihItems : ItemsAgree bytes maxDepth fuel)
    (ihEntries : EntriesAgree bytes maxDepth fuel) : ValueAgrees bytes maxDepth (fuel + 1) := by
  intro depth p t h
  rw [value]
  by_cases hdeep : maxDepth < depth
  · rw [if_pos hdeep]
    refine Agrees.error (fun d r _ hfits => ?_) .deep rfl
    have := hfits.deep
    omega
  rw [if_neg hdeep]
  by_cases hleft : p.left = 0
  · rw [if_pos hleft]
    refine Agrees.error (fun d r _ hfits => ?_) .tooMany rfl
    have := hfits.many
    have := count_pos d
    omega
  rw [if_neg hleft]
  obtain ⟨pos, left⟩ := p
  obtain ⟨left, rfl⟩ : ∃ n, left = n + 1 := ⟨left - 1, by simp only at hleft; omega⟩
  have hst := skipWs_stands (p := ⟨pos, left⟩) h
  have hlen := length_skipWs_le t
  simp only [Nat.add_sub_cancel]
  obtain ⟨q, hq⟩ : ∃ q, skipWs bytes ⟨pos, left⟩ = q := ⟨_, rfl⟩
  obtain rfl : q.left = left := by rw [← hq]; rfl
  rw [hq] at hst ⊢
  have hdepth : depth ≤ maxDepth := by omega
  rw [readValue]
  rcases hskip : Json.skipWs t with _ | ⟨c, r⟩
  · rw [hskip] at hst
    rw [hst.getElem?_eq_none.mpr rfl]
    exact Agrees.json rfl rfl
  rw [hskip] at hst hlen
  rw [length_cons] at hlen
  rcases stands_byte hst with ⟨hc, hbyte⟩ | ⟨hc, b, hbyte, hb⟩
  · rw [hbyte]
    simp only
    have hnext : Stands bytes (q.pos + 1) r := hst.advance_ascii hc
    refine Agrees.ite (fun _ => ?_) fun _ => ?_
    · exact literal_agrees (d := .null) hst (by decide) (fits_scalar hdepth) rfl
    refine Agrees.ite (fun _ => ?_) fun _ => ?_
    · exact literal_agrees (d := .bool true) hst (by decide) (fits_scalar hdepth) rfl
    refine Agrees.ite (fun _ => ?_) fun _ => ?_
    · exact literal_agrees (d := .bool false) hst (by decide) (fits_scalar hdepth) rfl
    refine Agrees.ite (fun _ => ?_) fun _ => ?_
    · exact string_agrees (p := ⟨q.pos + 1, q.left⟩) hnext hdepth
    refine Agrees.ite (fun _ => ?_) fun _ => ?_
    · have hclose : closeBracket < 0x80 := by decide
      refine container_agrees (p := ⟨q.pos + 1, q.left⟩) hclose
        (fun items => .list ([] ++ toNodes items)) Json.Value.arr [] hnext ?_ (fun items => ?_)
        (fun items => ?_) (fun items => ?_) ⟨?_, ?_⟩ (readItems_nil fuel)
        (ihItems depth [] _ _ (skipWs_stands (p := ⟨q.pos + 1, q.left⟩) hnext))
      · have := length_skipWs_le r
        omega
      · rw [fits_arr]
        exact ⟨fun h => h.2, fun h => ⟨by omega, h⟩⟩
      · rw [Json.Value.count]
      · rw [toNode, nil_append]
      · exact ⟨by rw [depthItems]; omega, by rw [countItems]; omega,
          by rw [FiniteItems]; trivial, by rw [DistinctItems]; trivial⟩
      · rw [countItems]
    refine Agrees.ite (fun _ => ?_) fun _ => ?_
    · have hclose : closeBrace < 0x80 := by decide
      refine container_agrees (p := ⟨q.pos + 1, q.left⟩) hclose
        (fun entries => .obj (toEntries ([] ++ entries))) Json.Value.obj [] hnext ?_
        (fun entries => ?_) (fun entries => ?_) (fun entries => ?_) ⟨?_, ?_⟩ (readEntries_nil fuel)
        (ihEntries depth [] _ _ (skipWs_stands (p := ⟨q.pos + 1, q.left⟩) hnext) (by simp))
      · have := length_skipWs_le r
        omega
      · rw [fits_obj]
        exact ⟨fun h => h.2, fun h => ⟨by omega, h⟩⟩
      · rw [Json.Value.count]
      · rw [toNode, nil_append]
      · exact ⟨by rw [depthEntries]; omega, by rw [countEntries]; omega,
          by rw [FiniteEntries]; trivial, by rw [DistinctEntries]; trivial, by simp⟩
      · rw [countEntries]
    refine Agrees.ite (fun _ => ?_) fun _ => ?_
    · exact number_agrees hst hdepth
    · exact Agrees.json rfl rfl
  · -- no value starts with a character outside ASCII
    have hother : ∀ x, 0x80 ≤ x → x ≠ 0x6E ∧ x ≠ 0x74 ∧ x ≠ 0x66 ∧ x ≠ quote ∧
        x ≠ openBracket ∧ x ≠ openBrace ∧ ¬ (x = minus ∨ isDigit x = true) := by
      intro x hx
      rw [isDigit_ge hx]
      simp only [quote, openBracket, openBrace, minus, Bool.false_eq_true, or_false]
      omega
    obtain ⟨h1, h2, h3, h4, h5, h6, h7⟩ := hother b hb
    obtain ⟨g1, g2, g3, g4, g5, g6, g7⟩ := hother c hc
    rw [hbyte]
    simp only [if_neg h1, if_neg h2, if_neg h3, if_neg h4, if_neg h5, if_neg h6, if_neg h7, if_neg g1,
      if_neg g2, if_neg g3, if_neg g4, if_neg g5, if_neg g6, if_neg g7]
    exact Agrees.json rfl rfl

theorem readValue_length (h : readValue fuel t = some (v, r)) : r.length < t.length := by
  obtain ⟨w, body, -, hd, rfl⟩ := (reads_sound fuel).1 t v r h
  obtain ⟨c, rest, rfl, -⟩ := hd.head
  simp only [length_append, length_cons]
  omega

/-- The first value of an array is read on its own. -/
theorem readItems_head (h : readItems (fuel + 1) t = some (items, r)) :
    ∃ v rest r', readValue fuel t = some (v, r') ∧ items = v :: rest := by
  rw [readItems] at h
  split at h
  · cases h
  rename_i v r' hv
  refine ⟨v, ?_⟩
  split at h
  · cases h
  split_ifs at h
  · obtain ⟨s, -, hs⟩ := Option.map_eq_some_iff.mp h
    cases hs
    exact ⟨_, _, hv, rfl⟩
  · cases h
    exact ⟨_, _, hv, rfl⟩

theorem items_step (ihValue : ValueAgrees bytes maxDepth fuel)
    (ihItems : ItemsAgree bytes maxDepth fuel) : ItemsAgree bytes maxDepth (fuel + 1) := by
  intro depth done p t h
  rcases ihValue (depth + 1) p t h with
    ⟨v, r, q, hread, hfits, hok, hst, hcost⟩ | ⟨hno, s, hrun, hpanic, hrounds⟩
  swap
  · right
    rw [listLoop, hrun]
    refine ⟨?_, s, rfl, hpanic, fun he => hrounds (by omega)⟩
    intro items r hitems hfits
    obtain ⟨v, rest, r', hv, rfl⟩ := readItems_head hitems
    exact hno v r' hv (fitsItems_cons.mp hfits).1
  have hshort := readValue_length hread
  have hmany := hfits.many
  have hleft : (skipWs bytes q).left = q.left := rfl
  rw [listLoop, hok, readItems, hread]
  refine mark_agrees (by decide) hst (fun r' hr' hst' => ?_) fun r' hst' => ?_
  · refine (ihItems depth (done ++ [toNode v]) _ r' hst').map (k := v.count) (by omega)
      (fun items => ?_) (fun items => ?_) (by simp only; omega) fun items => ?_
    · rw [fitsItems_cons, show p.left - v.count = q.left by omega]
      exact and_iff_right hfits
    · rw [countItems]
    · simp only [toNodes, append_assoc, singleton_append]
  · left
    refine ⟨[v], r', ⟨_, (skipWs bytes q).left⟩, rfl, fitsItems_singleton.mpr hfits, ?_, hst', ?_⟩
    · simp only [toNodes]
    · simp only [countItems]
      omega

/-- `expect`, on a text. -/
theorem expect_eq (h : Stands bytes p.pos t) {b : ℕ} (hb : b < 0x80) :
    (expect bytes b p = jsonError ∧ ∀ t', t ≠ b :: t') ∨
    ∃ t', expect bytes b p = .ok ((), { p with pos := p.pos + 1 }) ∧ t = b :: t' ∧
      Stands bytes (p.pos + 1) t' := by
  rw [expect]
  by_cases hget : bytes[p.pos]? = some b
  · right
    obtain ⟨t', rfl, hst⟩ := stands_head h hb hget
    exact ⟨t', if_pos hget, rfl, hst⟩
  · left
    rw [if_neg hget]
    exact ⟨rfl, fun t' he => hget ((h.getElem?_eq hb).mpr (by rw [he]; rfl))⟩

/-- An entry of the reader, after its key and the colon. -/
theorem readEntries_entry {r1 r2 : List ℕ} (hquote : Json.skipWs t = quote :: r)
    (hkey : readChars r = some (key, r1)) (hcolon : Json.skipWs r1 = colon :: r2) :
    readEntries (fuel + 1) t = match readValue fuel r2 with
      | none => none
      | some (v, r) =>
          match Json.skipWs r with
          | [] => none
          | c :: r =>
              if c = comma then (readEntries fuel r).map fun s => ((key, v) :: s.1, s.2)
              else if c = closeBrace then some ([(key, v)], r)
              else none := by
  rewrite [readEntries, hquote]
  dsimp only
  rewrite [if_pos rfl, hkey]
  dsimp only
  rewrite [hcolon]
  rfl

theorem readEntries_no_quote (h : ∀ r, Json.skipWs t ≠ quote :: r) :
    readEntries (fuel + 1) t = none := by
  rw [readEntries]
  split
  · rfl
  next c r hskip =>
    rw [if_neg (fun he => h r (by rw [hskip, he]))]

theorem readEntries_no_colon {r1 : List ℕ}
    (hquote : Json.skipWs t = quote :: r) (hkey : readChars r = some (key, r1))
    (h : ∀ r, Json.skipWs r1 ≠ colon :: r) : readEntries (fuel + 1) t = none := by
  rw [readEntries, hquote]
  simp only [if_true, hkey]
  split
  · rfl
  next c r hskip =>
    rw [if_neg (fun he => h r (by rw [hskip, he]))]

theorem readChars_length {v : List ℕ} (h : readChars t = some (v, r)) : r.length < t.length := by
  obtain ⟨body, rfl, -⟩ := readChars_sound h
  simp only [length_append, length_cons]
  omega

theorem entries_step (ihValue : ValueAgrees bytes maxDepth fuel)
    (ihEntries : EntriesAgree bytes maxDepth fuel) : EntriesAgree bytes maxDepth (fuel + 1) := by
  intro depth done p t h hdone
  have hlen := length_skipWs_le t
  rw [objectLoop]
  -- the opening quote of the key
  rcases expect_eq (skipWs_stands h) (show quote < 0x80 by decide) with
    ⟨herr, hno⟩ | ⟨r, hok, hquote, hst⟩
  · rw [herr]
    exact Agrees.json (readEntries_no_quote hno) rfl
  rw [hok]
  simp only
  -- the key
  rcases string_eq (p := ⟨(skipWs bytes p).pos + 1, (skipWs bytes p).left⟩) hst with
    ⟨herr, hnone⟩ | ⟨key, r1, p1, hok1, hkey, hst1, hleft1⟩
  · rw [herr]
    refine Agrees.json ?_ rfl
    rw [readEntries, hquote]
    simp only [if_true, hnone]
  have hkeys : ∀ u ∈ key, u < 0x10000 := readChars_lt hst.scalars hkey
  have hshort1 := readChars_length hkey
  have hlen1 := length_skipWs_le r1
  rw [hok1]
  simp only
  -- the colon
  rcases expect_eq (skipWs_stands hst1) (show colon < 0x80 by decide) with
    ⟨herr, hno⟩ | ⟨r2, hok2, hcolon, hst2⟩
  · rw [herr]
    exact Agrees.json (readEntries_no_colon hquote hkey hno) rfl
  rw [hok2]
  simp only
  rw [readEntries_entry hquote hkey hcolon]
  rw [hquote, length_cons] at hlen
  rw [hcolon, length_cons] at hlen1
  -- the value
  have hbudget : (skipWs bytes p1).left = p.left := hleft1
  rcases ihValue (depth + 1) ⟨(skipWs bytes p1).pos + 1, (skipWs bytes p1).left⟩ r2 hst2 with
    ⟨v, r3, q, hread, hfits, hokv, hst3, hcost⟩ | ⟨hno, s, hrun, hpanic, hrounds⟩
  swap
  · right
    rw [hrun]
    refine ⟨?_, s, rfl, hpanic, fun he => hrounds (by omega)⟩
    intro entries r3 hentries hfits
    split at hentries
    · cases hentries
    rename_i v r4 hv
    refine hno v r4 hv ?_
    simp only [hbudget]
    split at hentries
    · cases hentries
    split_ifs at hentries
    · obtain ⟨s, -, hs⟩ := Option.map_eq_some_iff.mp hentries
      cases hs
      exact (fitsEntries_cons.mp hfits).1
    · cases hentries
      exact (fitsEntries_cons.mp hfits).1
  simp only [hbudget] at hfits hcost
  have hshort3 := readValue_length hread
  have hmany := hfits.many
  have hleft : (skipWs bytes q).left = q.left := rfl
  have hdone' : ∀ e ∈ done ++ [(key, v)], ∀ u ∈ e.1, u < 0x10000 := by
    intro e he
    rcases mem_append.mp he with he | he
    · exact hdone e he
    · rw [mem_singleton.mp he]
      exact hkeys
  have hentry : toEntries done ++ [(canon key, toNode v)] = toEntries (done ++ [(key, v)]) := by
    rw [toEntries_append, toEntries, toEntries]
  rw [hokv, hread]
  simp only [hentry]
  refine mark_agrees (by decide) hst3 (fun r' hr' hst' => ?_) fun r' hst' => ?_
  · refine (ihEntries depth (done ++ [(key, v)]) _ r' hst' hdone').map (k := v.count) (by omega)
      (fun entries => ?_) (fun entries => ?_) (by simp only; omega) fun entries => ?_
    · rw [fitsEntries_cons, show p.left - v.count = q.left by omega]
      exact and_iff_right hfits
    · rw [countEntries]
    · simp only [append_assoc, singleton_append]
  -- the object is complete: are its keys distinct?
  by_cases hdup : hasDuplicate (toEntries (done ++ [(key, v)])) = true
  · rw [if_pos hdup]
    refine Agrees.error ?_ .duplicateKey rfl
    intro entries r4 heq hfits4
    cases heq
    have hnd := (fitsEntries_singleton.mp hfits4).2
    rw [(hasDuplicate_toEntries hdone').mpr hnd] at hdup
    cases hdup
  · rw [if_neg hdup]
    rw [Bool.not_eq_true] at hdup
    left
    refine ⟨[(key, v)], r', _, rfl,
      fitsEntries_singleton.mpr ⟨hfits, (hasDuplicate_toEntries hdone').mp hdup⟩, rfl, hst', ?_⟩
    simp only [countEntries]
    omega

/-- **The parser agrees with the reader**, on values, arrays and objects.
The induction is on the rounds. -/
theorem values_agree (bytes : Bytes) (maxDepth : ℕ) : ∀ fuel : ℕ, ValueAgrees bytes maxDepth fuel ∧
    ItemsAgree bytes maxDepth fuel ∧ EntriesAgree bytes maxDepth fuel := by
  intro fuel
  induction fuel with
  | zero =>
    refine ⟨?_, ?_, ?_⟩
    · intro depth p t _
      right
      rw [value, readValue]
      exact ⟨by simp, _, rfl, by simp, fun he => by omega⟩
    · intro depth done p t _
      right
      rw [listLoop, readItems]
      exact ⟨by simp, _, rfl, by simp, fun he => by omega⟩
    · intro depth done p t _ _
      right
      rw [objectLoop, readEntries]
      exact ⟨by simp, _, rfl, by simp, fun he => by omega⟩
  | succ fuel ih =>
    obtain ⟨ihValue, ihItems, ihEntries⟩ := ih
    exact ⟨value_step ihItems ihEntries, items_step ihValue ihItems, entries_step ihValue ihEntries⟩

end Pydeno.Wire
