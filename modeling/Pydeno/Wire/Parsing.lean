import Pydeno.Wire.Helpers.Values

/-!
# The frame parser is a JSON parser

For every byte string and all limits, `parse` returns: it never panics and
needs no more rounds than it has. It succeeds exactly on the UTF-8 text of
one document of the grammar that is within the limits, has distinct keys
and only finite numbers, and the tree it returns denotes that document.
-/

namespace Pydeno.Wire

open Json Denotes

open Utf8 (Scalars Stands)

/-! ## Meaning of the tree -/

theorem denotes_numNode (n : Number) : Denotes (numNode n) (.num n) := by
  rw [numNode]
  split_ifs with hint hlen
  · exact int hint
  · exact big hint
  · exact float (by rwa [Bool.not_eq_true] at hint)

/-- Strings are sequences of code units. -/
def UnitsOk (us : List ℕ) : Prop := ∀ u ∈ us, u < 0x10000

mutual

/-- Every string and every key is a sequence of code units. -/
def InRange : Json.Value → Prop
  | .str us => UnitsOk us
  | .arr items => InRangeItems items
  | .obj entries => InRangeEntries entries
  | _ => True

def InRangeItems : List Json.Value → Prop
  | [] => True
  | v :: rest => InRange v ∧ InRangeItems rest

def InRangeEntries : List (List ℕ × Json.Value) → Prop
  | [] => True
  | (key, v) :: rest => UnitsOk key ∧ InRange v ∧ InRangeEntries rest

end

theorem keys_inRange {entries : List (List ℕ × Json.Value)} (h : InRangeEntries entries) :
    ∀ e ∈ entries, ∀ u ∈ e.1, u < 0x10000 := by
  induction entries with
  | nil => simp
  | cons e entries ih =>
    obtain ⟨key, v⟩ := e
    rw [InRangeEntries] at h
    exact List.forall_mem_cons.mpr ⟨h.1, ih h.2.2⟩

mutual

/-- The tree of a document denotes it. -/
theorem denotes_toNode : ∀ d : Json.Value, InRange d → Denotes (toNode d) d
  | .null, _ => by rw [toNode]; exact null
  | .bool b, _ => by rw [toNode]; exact bool b
  | .num n, _ => by rw [toNode]; exact denotes_numNode n
  | .str us, h => by
      rw [InRange] at h
      have hd := str (canon us)
      rw [toUnits_canon h] at hd
      rw [toNode]
      exact hd
  | .arr items, h => by
      rw [InRange] at h
      rw [toNode]
      exact list (denotes_toNodes items h)
  | .obj entries, h => by
      rw [InRange] at h
      rw [toNode]
      exact obj (denotes_toEntries entries h)

theorem denotes_toNodes : ∀ items : List Json.Value, InRangeItems items →
    DenoteItems (toNodes items) items
  | [], _ => by rw [toNodes]; exact DenoteItems.nil
  | v :: rest, h => by
      rw [InRangeItems] at h
      rw [toNodes]
      exact DenoteItems.cons (denotes_toNode v h.1) (denotes_toNodes rest h.2)

theorem denotes_toEntries : ∀ entries : List (List ℕ × Json.Value), InRangeEntries entries →
    DenoteEntries (toEntries entries) entries
  | [], _ => by rw [toEntries]; exact DenoteEntries.nil
  | (key, v) :: rest, h => by
      rw [InRangeEntries] at h
      have hd : DenoteEntries ((canon key, toNode v) :: toEntries rest)
          (((canon key).toUnits, v) :: rest) :=
        DenoteEntries.cons (denotes_toNode v h.2.1) (denotes_toEntries rest h.2.2)
      rw [toUnits_canon h.1] at hd
      rw [toEntries]
      exact hd

end

mutual

/-- A text of scalar values denotes strings of code units. -/
theorem inRange_of_derives : ∀ {t : List ℕ} {d : Json.Value}, Derives t d → Scalars t → InRange d
  | _, _, .nullWord, _ | _, _, .trueWord, _ | _, _, .falseWord, _ | _, _, .num _, _ =>
    by simp only [InRange]
  | _, _, .str hc, h => by
      rw [InRange]
      exact chars_lt hc fun c hin => h c (by simp [hin])
  | _, _, .emptyArr _, _ => by rw [InRange, InRangeItems]; trivial
  | _, _, .arr hi, h => by
      rw [InRange]
      exact inRange_of_derivesItems hi fun c hin => h c (by simp [hin])
  | _, _, .emptyObj _, _ => by rw [InRange, InRangeEntries]; trivial
  | _, _, .obj he, h => by
      rw [InRange]
      exact inRange_of_derivesEntries he fun c hin => h c (by simp [hin])

theorem inRange_of_derivesItems : ∀ {t : List ℕ} {items : List Json.Value},
    DerivesItems t items → Scalars t → InRangeItems items
  | _, _, .one _ hv _, h => by
      rw [InRangeItems, InRangeItems]
      exact ⟨inRange_of_derives hv fun c hin => h c (by simp [hin]), trivial⟩
  | _, _, .cons _ hv _ hrest, h => by
      rw [InRangeItems]
      exact ⟨inRange_of_derives hv fun c hin => h c (by simp [hin]),
        inRange_of_derivesItems hrest fun c hin => h c (by simp [hin])⟩

theorem inRange_of_derivesEntries : ∀ {t : List ℕ} {entries : List (List ℕ × Json.Value)},
    DerivesEntries t entries → Scalars t → InRangeEntries entries
  | _, _, .one _ hk _ _ hv _, h => by
      rw [InRangeEntries, InRangeEntries]
      exact ⟨chars_lt hk fun c hin => h c (by simp [hin]),
        inRange_of_derives hv fun c hin => h c (by simp [hin]), trivial⟩
  | _, _, .cons _ hk _ _ hv _ hrest, h => by
      rw [InRangeEntries]
      exact ⟨chars_lt hk fun c hin => h c (by simp [hin]),
        inRange_of_derives hv fun c hin => h c (by simp [hin]),
        inRange_of_derivesEntries hrest fun c hin => h c (by simp [hin])⟩

end

/-! ## The parser -/

/-- Bytes that are not UTF-8 are no frame. -/
theorem parse_of_not_utf8 {data : Bytes} (h : Utf8.fromUtf8 data = none) (maxNodes maxDepth : ℕ) :
    parse data maxNodes maxDepth = jsonError := by
  rw [parse, h]

/-- **`parse`, on the text of a frame**: the tree of its document, or an
error of the parser's own. -/
theorem parse_spec {data : Bytes} {t : List ℕ} (h : Utf8.fromUtf8 data = some t)
    (maxNodes maxDepth : ℕ) : (∃ d, Document t d ∧ Fits maxDepth 0 maxNodes d ∧
      parse data maxNodes maxDepth = .ok (toNode d)) ∨
    ((∀ d, Document t d → ¬ Fits maxDepth 0 maxNodes d) ∧
      ∃ e, parse data maxNodes maxDepth = .error (.error e)) := by
  obtain ⟨hscalars, hdata⟩ := Utf8.fromUtf8_eq_some_iff.mp h
  have hst : Stands data 0 t := ⟨Nat.zero_le _, hdata, hscalars⟩
  have hlen : t.length ≤ data.length := by
    rw [hdata]
    exact Utf8.length_encodeAll_le t
  have hdoc : ∀ d, Document t d ↔ ∃ r, readValue (2 * data.length + 2) t = some (d, r) ∧
      Json.skipWs r = [] := fun d => document_iff_readValue (by omega)
  rw [parse, h]
  simp only
  rcases (values_agree data maxDepth (2 * data.length + 2)).1 0 ⟨0, maxNodes⟩ t hst with
    ⟨d, r, q, hread, hfits, hok, hstq, -⟩ | ⟨hno, s, hrun, hpanic, hrounds⟩
  · rw [hok]
    simp only
    have hend := skipWs_stands hstq
    by_cases hskip : Json.skipWs r = []
    · left
      refine ⟨d, (hdoc d).mpr ⟨r, hread, hskip⟩, hfits, ?_⟩
      rw [hskip] at hend
      have hpos := hend.getElem?_eq_none.mpr rfl
      have hle := hend.le_length
      rw [List.getElem?_eq_none_iff] at hpos
      rw [if_neg (by omega)]
    · right
      refine ⟨?_, .json, ?_⟩
      · intro d' hd' _
        obtain ⟨r', hread', hskip'⟩ := (hdoc d').mp hd'
        rw [hread] at hread'
        obtain ⟨rfl, rfl⟩ := Prod.mk.inj (Option.some.inj hread')
        exact hskip hskip'
      · have hpos : (skipWs data q).pos ≠ data.length := by
          intro heq
          have hnone : data[(skipWs data q).pos]? = none := by
            rw [List.getElem?_eq_none_iff]
            omega
          exact hskip (hend.getElem?_eq_none.mp hnone)
        rw [if_pos hpos]
        rfl
  · right
    refine ⟨?_, ?_⟩
    · intro d hd hfits
      obtain ⟨r, hread, -⟩ := (hdoc d).mp hd
      exact hno d r hread hfits
    · rw [hrun]
      cases s with
      | error e => exact ⟨e, rfl⟩
      | panic => exact absurd rfl hpanic
      | rounds => exact absurd rfl (hrounds (by omega))

/-- **The frame parser is exactly a JSON parser.** For every byte string and
all limits it returns a tree or an error of its own; it returns a tree
exactly on the UTF-8 text of a document within the limits whose keys are
distinct and whose numbers are finite; and the tree denotes the document. -/
theorem parse_exact (data : Bytes) (maxNodes maxDepth : ℕ) :
    ((∃ node, parse data maxNodes maxDepth = .ok node) ∨
      ∃ e, parse data maxNodes maxDepth = .error (.error e)) ∧
    ((∃ node, parse data maxNodes maxDepth = .ok node) ↔
      ∃ t d, Scalars t ∧ data = Utf8.encodeAll t ∧ Json.Document t d ∧ FiniteNumbers d ∧
        DistinctKeys d ∧ d.depth ≤ maxDepth ∧ d.count ≤ maxNodes) ∧
    (∀ node t d, parse data maxNodes maxDepth = .ok node → Scalars t → data = Utf8.encodeAll t →
      Json.Document t d → Denotes node d) := by
  cases hutf : Utf8.fromUtf8 data with
  | none =>
    have hparse := parse_of_not_utf8 hutf maxNodes maxDepth
    have hnot : ∀ t, Scalars t → data = Utf8.encodeAll t → False := by
      intro t ht hdata
      rw [Utf8.fromUtf8_eq_some_iff.mpr ⟨ht, hdata⟩] at hutf
      cases hutf
    refine ⟨.inr ⟨.json, hparse⟩, ⟨?_, ?_⟩, ?_⟩
    · rintro ⟨node, hok⟩
      rw [hparse] at hok
      cases hok
    · rintro ⟨t, d, ht, hdata, -⟩
      exact absurd hdata (hnot t ht)
    · intro node t d _ ht hdata
      exact absurd hdata (hnot t ht)
  | some t =>
    obtain ⟨ht, hdata⟩ := Utf8.fromUtf8_eq_some_iff.mp hutf
    have huniq : ∀ t', Scalars t' → data = Utf8.encodeAll t' → t' = t := fun t' ht' hdata' =>
      Utf8.encodeAll_injective ht' ht (hdata'.symm.trans hdata)
    rcases parse_spec hutf maxNodes maxDepth with ⟨d, hd, hfits, hok⟩ | ⟨hno, e, herr⟩
    · have hdeep := hfits.deep
      refine ⟨.inl ⟨_, hok⟩, ⟨fun _ => ?_, fun _ => ⟨_, hok⟩⟩, ?_⟩
      · exact ⟨t, d, ht, hdata, hd, hfits.finite, hfits.distinct, by omega, hfits.many⟩
      · intro node t' d' hnode ht' hdata' hd'
        rw [huniq t' ht' hdata'] at hd'
        rw [Json.document_unique hd' hd]
        rw [hok] at hnode
        cases hnode
        obtain ⟨w, body, w', -, hder, -, hsplit⟩ := hd
        refine denotes_toNode d (inRange_of_derives hder fun c hc => ht c ?_)
        rw [hsplit]
        simp [hc]
    · refine ⟨.inr ⟨e, herr⟩, ⟨?_, ?_⟩, ?_⟩
      · rintro ⟨node, hok⟩
        rw [herr] at hok
        cases hok
      · rintro ⟨t', d, ht', hdata', hd, hfin, hkeys, hdeep, hmany⟩
        rw [huniq t' ht' hdata'] at hd
        exact absurd ⟨by omega, hmany, hfin, hkeys⟩ (hno d hd)
      · intro node t' d hok
        rw [herr] at hok
        cases hok

end Pydeno.Wire
