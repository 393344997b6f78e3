import Pydeno.Schema.Model.Writer
/-!
# What `register` does

A definition is declared under the first candidate for its name that no other
text has (`Holds`), and stays there: declarations are only added. So the name is
determined by the name in the schema and the text (`Holds.unique`), whichever
schema was registered first; and its declaration is that of the first definition
with this type name and this text (`Tracks`).
-/

namespace Pydeno.Schema

open List Dict

open Wire (ascii)

/-! ## Candidates -/

theorem ascii_injective : Function.Injective ascii := by
  intro a b h
  have hlist : a.toList = b.toList := (map_injective_iff.2 fun _ _ h => Char.toNat_inj.1 h) h
  exact String.toList_inj.1 hlist

theorem candidate_injective (base : Text) : Function.Injective (candidate base) := by
  intro m n h
  unfold candidate at h
  have hlen : 1 ≤ (ascii "_").length := by decide
  split at h <;> split at h
  · omega
  · have := congrArg List.length h
    simp only [length_append] at this
    omega
  · have := congrArg List.length h
    simp only [length_append] at this
    omega
  · have hdigits := ascii_injective (append_cancel_left h)
    rw [Nat.toString_eq_ofList_toDigits, Nat.toString_eq_ofList_toDigits] at hdigits
    have := congrArg (fun s => Nat.ofDigitChars 10 s.toList 0) hdigits
    simp only [String.toList_ofList, Nat.ofDigitChars_ten_toDigits] at this
    omega

/-! ## Slots -/

/-- The declaration under a name has another text. -/
def Taken (decls : Dict Text Decl) (text name : Text) : Prop :=
  ∃ d, decls.get? name = some d ∧ d.canonical ≠ text

/-- **A name holds a text**: it is the first candidate that no other text has,
and its declaration has the text. -/
def Holds (decls : Dict Text Decl) (base text name : Text) : Prop :=
  ∃ k, name = candidate base k ∧ (∀ j < k, Taken decls text (candidate base j)) ∧
    ∃ d, decls.get? name = some d ∧ d.canonical = text

/-- Declarations are only added. -/
def Grows (decls decls' : Dict Text Decl) : Prop :=
  ∀ name d, decls.get? name = some d → decls'.get? name = some d

variable {decls decls' : Dict Text Decl} {base text name : Text}

theorem Grows.refl : Grows decls decls := fun _ _ h => h

theorem Grows.trans {decls'' : Dict Text Decl} (h : Grows decls decls')
    (h' : Grows decls' decls'') : Grows decls decls'' :=
  fun name d hd => h' name d (h name d hd)

theorem Taken.grow (h : Grows decls decls') (ht : Taken decls text name) :
    Taken decls' text name := by
  obtain ⟨d, hd, hne⟩ := ht
  exact ⟨d, h _ _ hd, hne⟩

theorem Holds.grow (h : Grows decls decls') (hh : Holds decls base text name) :
    Holds decls' base text name := by
  obtain ⟨k, hname, hbefore, d, hd, htext⟩ := hh
  exact ⟨k, hname, fun j hj => (hbefore j hj).grow h, d, h _ _ hd, htext⟩

theorem Holds.canonical (hh : Holds decls base text name) {d : Decl}
    (hd : decls.get? name = some d) : d.canonical = text := by
  obtain ⟨k, -, -, d', hd', htext⟩ := hh
  obtain rfl : d = d' := Option.some.inj (hd.symm.trans hd')
  exact htext

/-- What the loop of `register` ends with: it stops early, or all its rounds
found a name that is taken. -/
theorem slotFrom_spec (decls : Dict Text Decl) (base text : Text) (rounds : ℕ) :
    ∀ n, (∀ j < n, Taken decls text (candidate base j)) →
    ∃ k, slotFrom decls base text rounds n = candidate base k ∧
      (∀ j < k, Taken decls text (candidate base j)) ∧
      (¬ Taken decls text (candidate base k) ∨ k = n + rounds) := by
  induction rounds with
  | zero =>
    intro n h
    exact ⟨n, rfl, h, .inr rfl⟩
  | succ rounds ih =>
    intro n h
    unfold slotFrom
    split
    next d hd =>
      split
      next hne =>
        obtain ⟨k, hk, hbefore, hend⟩ := ih (n + 1) fun j hj => by
          rcases Nat.lt_succ_iff_lt_or_eq.1 hj with hj | rfl
          · exact h j hj
          · exact ⟨d, hd, hne⟩
        exact ⟨k, hk, hbefore, hend.imp_right (by omega)⟩
      next heq =>
        refine ⟨n, rfl, h, .inl ?_⟩
        rintro ⟨d', hd', hne⟩
        obtain rfl : d = d' := Option.some.inj (hd.symm.trans hd')
        exact heq hne
    next hd =>
      refine ⟨n, rfl, h, .inl ?_⟩
      rintro ⟨d', hd', -⟩
      rw [hd] at hd'
      cases hd'

/-- Not more candidates are taken than there are declarations. -/
theorem le_of_taken {n : ℕ} (h : ∀ j < n, Taken decls text (candidate base j)) :
    n ≤ decls.entries.length := by
  have hnodup : ((List.range n).map (candidate base)).Nodup :=
    nodup_range.map (candidate_injective base)
  have hsub : (List.range n).map (candidate base) ⊆ decls.entries.map Prod.fst := by
    intro c hc
    obtain ⟨j, hj, rfl⟩ := mem_map.1 hc
    obtain ⟨d, hd, -⟩ := h j (mem_range.1 hj)
    exact mem_map.2 ⟨_, mem_of_get? hd, rfl⟩
  simpa using (hnodup.subperm hsub).length_le

/-- **The slot is the first candidate that no other text has.** -/
theorem slot_spec (decls : Dict Text Decl) (base text : Text) :
    ∃ k, slot decls base text = candidate base k ∧
      (∀ j < k, Taken decls text (candidate base j)) ∧ ¬ Taken decls text (candidate base k) := by
  obtain ⟨k, hk, hbefore, hend⟩ :=
    slotFrom_spec decls base text decls.entries.length 0 (by simp)
  refine ⟨k, hk, hbefore, hend.elim id fun hk htaken => ?_⟩
  -- one more candidate than declarations would be taken
  have := le_of_taken (n := k + 1) fun j hj => by
    rcases Nat.lt_succ_iff_lt_or_eq.1 hj with hj | rfl
    · exact hbefore j hj
    · exact htaken
  omega

/-- A text that has a name gets this name again. -/
theorem Holds.slot (hh : Holds decls base text name) : slot decls base text = name := by
  obtain ⟨k, hk, hbefore, hfree⟩ := slot_spec decls base text
  obtain ⟨k', rfl, hbefore', d, hd, htext⟩ := hh
  rw [hk]
  -- the earlier of the two would be taken by another text
  rcases Nat.lt_trichotomy k k' with hlt | rfl | hlt
  · exact absurd (hbefore' k hlt) hfree
  · rfl
  · obtain ⟨e, he, hne⟩ := hbefore k' hlt
    rw [hd] at he
    exact absurd htext (Option.some.inj he ▸ hne)

/-- **The name is determined by the base and the text.** -/
theorem Holds.unique {name' : Text} (hh : Holds decls base text name)
    (hh' : Holds decls base text name') : name = name' :=
  hh.slot.symm.trans hh'.slot

/-! ## Definitions and their names -/

/-- **The definitions of a schema**, by their references. -/
def definitions (root : Json) : Dict Text Json :=
  (found root).foldl (fun d e => d.set e.1 e.2.2) empty

/-- The name that a reference ends with. -/
def defName (ref : Text) : Text :=
  if (ascii "#/$defs/").isPrefixOf ref then ref.drop 8 else ref.drop 14

theorem defName_found {root : Json} {e : Text × Text × Json} (h : e ∈ found root) :
    defName e.1 = e.2.1 := by
  unfold found at h
  split at h
  · rcases mem_append.1 h with h | h
    · unfold definitionsAt at h
      split at h
      · obtain ⟨d, -, rfl⟩ := mem_map.1 h
        simp [defName, ascii]
      · cases h
    · unfold definitionsAt at h
      split at h
      · obtain ⟨d, -, rfl⟩ := mem_map.1 h
        simp [defName, ascii]
      · cases h
  · cases h

/-- **Names match definitions**: what is defined has a name that holds its text,
and nothing else has one. -/
def Matches (decls : Dict Text Decl) (defs : Dict Text Json) (refmap : Dict Text Text) : Prop :=
  ∀ ref, (defs.get? ref = none ∧ refmap.get? ref = none) ∨
    ∃ schema name, defs.get? ref = some schema ∧ refmap.get? ref = some name ∧
      Holds decls (typeName (defName ref)) (canonical schema) name

theorem Matches.grow {defs : Dict Text Json} {refmap : Dict Text Text}
    (h : Grows decls decls') (hm : Matches decls defs refmap) : Matches decls' defs refmap := by
  intro ref
  refine (hm ref).imp_right ?_
  rintro ⟨schema, name, hdef, hname, hholds⟩
  exact ⟨schema, name, hdef, hname, hholds.grow h⟩

/-- **One round** adds at most a declaration, and its name holds the text. -/
theorem registerOne_spec (root : ℕ) (state : Dict Text Decl × Dict Text Text)
    (e : Text × Text × Json) : Grows state.1 (registerOne root state e).1 ∧
      ∃ name, (registerOne root state e).2 = state.2.set e.1 name ∧
        Holds (registerOne root state e).1 (typeName e.2.1) (canonical e.2.2) name := by
  obtain ⟨ref, defined, schema⟩ := e
  obtain ⟨k, hk, hbefore, hfree⟩ := slot_spec state.1 (typeName defined) (canonical schema)
  simp only [registerOne]
  split
  next hsome =>
    obtain ⟨d, hd⟩ := Option.isSome_iff_exists.1 hsome
    refine ⟨Grows.refl, _, rfl, k, hk, hbefore, d, hd, ?_⟩
    by_contra hne
    exact hfree ⟨d, hk ▸ hd, hne⟩
  next hnone =>
    have hgrows : Grows state.1 (state.1.set (slot state.1 (typeName defined) (canonical schema))
        ⟨canonical schema, schema, root⟩) := by
      intro name d hd
      rw [get?_set_ne]
      · exact hd
      · rintro rfl
        exact hnone (Option.isSome_iff_exists.2 ⟨d, hd⟩)
    exact ⟨hgrows, _, rfl, k, hk, fun j hj => (hbefore j hj).grow hgrows, _, get?_set_self, rfl⟩

theorem registerOne_matches (root : ℕ) {state : Dict Text Decl × Dict Text Text}
    {defs : Dict Text Json} {e : Text × Text × Json} (he : defName e.1 = e.2.1)
    (h : Matches state.1 defs state.2) :
    Matches (registerOne root state e).1 (defs.set e.1 e.2.2) (registerOne root state e).2 := by
  obtain ⟨hgrows, name, hname, hholds⟩ := registerOne_spec root state e
  intro ref
  rw [hname]
  by_cases href : ref = e.1
  · subst href
    exact .inr ⟨e.2.2, name, get?_set_self, get?_set_self, he ▸ hholds⟩
  · rw [get?_set_ne href, get?_set_ne href]
    exact h.grow hgrows ref

theorem registerRun_spec (root : ℕ) (es : List (Text × Text × Json))
    (hes : ∀ e ∈ es, defName e.1 = e.2.1) :
    ∀ (state : Dict Text Decl × Dict Text Text) (defs : Dict Text Json),
      Matches state.1 defs state.2 →
        Grows state.1 (es.foldl (registerOne root) state).1 ∧
          Matches (es.foldl (registerOne root) state).1
            (es.foldl (fun d e => d.set e.1 e.2.2) defs) (es.foldl (registerOne root) state).2 := by
  induction es with
  | nil =>
    intro state defs h
    exact ⟨Grows.refl, h⟩
  | cons e es ih =>
    intro state defs h
    simp only [foldl_cons]
    obtain ⟨hgrows, hmatches⟩ := ih (fun e he => hes e (mem_cons_of_mem _ he)) _ _
      (registerOne_matches root (hes e mem_cons_self) h)
    exact ⟨(registerOne_spec root state e).1.trans hgrows, hmatches⟩

/-! ## First come -/

/-- A definition of some schemas: the number of its schema, its name and itself. -/
structure Defined where
  root : ℕ
  name : Text
  schema : Json

/-- The definitions of the `i`-th schema. -/
def definedAt (i : ℕ) (root : Json) : List Defined :=
  (found root).map fun e => ⟨i, e.2.1, e.2.2⟩

/-- **The definitions of some schemas**, in the order of their schemas. -/
def allDefined (roots : List Json) : List Defined :=
  roots.zipIdx.flatMap fun e => definedAt e.2 e.1

/-- **First come**: the first definition with a type name and a text. -/
def firstCome (seen : List Defined) (base text : Text) : Option Defined :=
  seen.find? fun d => typeName d.name = base && canonical d.schema = text

theorem firstCome_is {seen : List Defined} {d : Defined} (h : firstCome seen base text = some d) :
    d ∈ seen ∧ typeName d.name = base ∧ Schema.canonical d.schema = text := by
  have := find?_some h
  simp only [Bool.and_eq_true, decide_eq_true_eq] at this
  exact ⟨mem_of_find?_eq_some h, this⟩

/-- **Declarations are of the definitions that came first**: each is the first of
its type name and text, and each definition that was seen has one. -/
structure Tracks (seen : List Defined) (decls : Dict Text Decl) : Prop where
  held : ∀ d ∈ seen, ∃ name, Holds decls (typeName d.name) (canonical d.schema) name
  first : ∀ name decl, decls.get? name = some decl → ∃ d k,
    name = candidate (typeName d.name) k ∧
      firstCome seen (typeName d.name) (canonical d.schema) = some d ∧
      decl = ⟨canonical d.schema, d.schema, d.root⟩

/-- Where the slot is free, nothing with this type name and text has come. -/
theorem Tracks.fresh {seen : List Defined} (h : Tracks seen decls)
    (hfree : ¬ (decls.get? (slot decls base text)).isSome) : firstCome seen base text = none := by
  rcases hseen : firstCome seen base text with _ | d
  · rfl
  obtain ⟨hd, hbase, htext⟩ := firstCome_is hseen
  obtain ⟨name, hname⟩ := h.held d hd
  rw [hbase, htext] at hname
  rw [hname.slot] at hfree
  obtain ⟨-, -, -, d', hd', -⟩ := hname
  exact absurd (Option.isSome_iff_exists.2 ⟨d', hd'⟩) hfree

theorem registerOne_tracks {root : ℕ} {state : Dict Text Decl × Dict Text Text}
    {seen : List Defined} (h : Tracks seen state.1) (e : Text × Text × Json) :
    Tracks (seen ++ [⟨root, e.2.1, e.2.2⟩]) (registerOne root state e).1 := by
  obtain ⟨hgrows, name', -, hholds⟩ := registerOne_spec root state e
  refine ⟨fun d hd => ?_, fun name decl hdecl => ?_⟩
  · rcases mem_append.1 hd with hd | hd
    · obtain ⟨name, hname⟩ := h.held d hd
      exact ⟨name, hname.grow hgrows⟩
    · cases mem_singleton.1 hd
      exact ⟨name', hholds⟩
  have hold : state.1.get? name = some decl → ∃ d k, name = candidate (typeName d.name) k ∧
      firstCome (seen ++ [⟨root, e.2.1, e.2.2⟩]) (typeName d.name) (canonical d.schema) = some d ∧
      decl = ⟨canonical d.schema, d.schema, d.root⟩ := fun hget => by
    obtain ⟨d, k, hk, hfirst, rfl⟩ := h.first name decl hget
    refine ⟨d, k, hk, ?_, rfl⟩
    unfold firstCome at hfirst ⊢
    rw [find?_append, hfirst, Option.some_or]
  obtain ⟨ref, defined, schema⟩ := e
  obtain ⟨k, hk, -, -⟩ := slot_spec state.1 (typeName defined) (canonical schema)
  simp only [registerOne] at hdecl
  split at hdecl
  · exact hold hdecl
  next hnone =>
    by_cases hname : name = slot state.1 (typeName defined) (canonical schema)
    · subst hname
      rw [get?_set_self] at hdecl
      cases hdecl
      refine ⟨⟨root, defined, schema⟩, k, hk, ?_, rfl⟩
      have hfresh := h.fresh hnone
      unfold firstCome at hfresh ⊢
      rw [find?_append, hfresh]
      simp
    · rw [get?_set_ne hname] at hdecl
      exact hold hdecl

theorem registerRun_tracks {root : ℕ} (es : List (Text × Text × Json)) :
    ∀ (state : Dict Text Decl × Dict Text Text) (seen : List Defined), Tracks seen state.1 →
      Tracks (seen ++ es.map fun e => ⟨root, e.2.1, e.2.2⟩) (es.foldl (registerOne root) state).1 := by
  induction es with
  | nil =>
    intro state seen h
    rw [map_nil, append_nil]
    exact h
  | cons e es ih =>
    intro state seen h
    rw [map_cons, ← singleton_append, ← append_assoc]
    exact ih _ _ (registerOne_tracks h e)

/-! ## All registers -/

/-- **The names of every schema match its definitions.** -/
structure Registered (roots : List Json) (w : Writer) : Prop where
  length : w.refmaps.length = roots.length
  names : ∀ (i : ℕ) (root : Json) refmap, roots[i]? = some root → w.refmaps[i]? = some refmap →
    Matches w.decls (definitions root) refmap
  tracks : Tracks (allDefined roots) w.decls

theorem matches_empty : Matches decls empty empty := fun _ => .inl ⟨rfl, rfl⟩

theorem Registered.register {roots : List Json} {w : Writer} (h : Registered roots w)
    (root : Json) : Registered (roots ++ [root]) (w.register root) := by
  obtain ⟨hgrows, hmatches⟩ := registerRun_spec w.refmaps.length (found root)
    (fun e he => defName_found he) (w.decls, empty) empty matches_empty
  have hall : allDefined (roots ++ [root]) = allDefined roots ++ definedAt w.refmaps.length root := by
    simp [allDefined, zipIdx_append, h.length]
  refine ⟨by simp [Writer.register, h.length], fun i root' refmap hroot hrefmap => ?_,
    hall ▸ registerRun_tracks (found root) (w.decls, empty) _ h.tracks⟩
  simp only [Writer.register] at hrefmap ⊢
  rcases Nat.lt_or_ge i roots.length with hi | hi
  · -- an earlier schema: its declarations are still there
    rw [List.getElem?_append_left hi] at hroot
    rw [List.getElem?_append_left (h.length ▸ hi)] at hrefmap
    exact (h.names i root' refmap hroot hrefmap).grow hgrows
  · rw [List.getElem?_append_right hi, List.getElem?_singleton] at hroot
    rw [List.getElem?_append_right (h.length ▸ hi), List.getElem?_singleton] at hrefmap
    split at hroot
    next hlast =>
      rw [if_pos (h.length ▸ hlast)] at hrefmap
      cases hroot
      cases hrefmap
      exact hmatches
    · cases hroot

end Pydeno.Schema
