import Pydeno.Isolated.Model.Session
/-!
# The tokens of a bind

What the checks of `bind_object` guarantee of the tokens the worker returned
(`Registers`), and what `_register_token` leaves in the table.
-/

namespace Pydeno.Isolated

open List Wire

open Wire (Decoded Scalar)

/-! ## Keys of a dict -/

section

variable {Date V : Type} (dateEq : Date → Date → Bool)

theorem mem_setItem {d : List (Scalar Date × V)} {k k' : Scalar Date} {v : V}
    (h : k' ∈ (setItem dateEq d k v).map Prod.fst) : k' ∈ d.map Prod.fst ∨ k' = k := by
  induction d with
  | nil =>
    right
    simpa [setItem] using h
  | cons e rest ih =>
    obtain ⟨k0, v0⟩ := e
    unfold setItem at h
    split at h
    · left
      simpa using h
    · simp only [map_cons, mem_cons] at h ⊢
      rcases h with h | h
      · exact .inl (.inl h)
      · exact (ih h).imp_left .inr

/-- The keys of a dict differ. -/
theorem pairwise_setItem {d : List (Scalar Date × V)} (k : Scalar Date) (v : V)
    (h : (d.map Prod.fst).Pairwise fun a b => keyEq dateEq a b = false) :
    ((setItem dateEq d k v).map Prod.fst).Pairwise fun a b => keyEq dateEq a b = false := by
  induction d with
  | nil => simp [setItem]
  | cons e rest ih =>
    obtain ⟨k0, v0⟩ := e
    rw [map_cons, pairwise_cons] at h
    unfold setItem
    split
    · rw [map_cons, pairwise_cons]
      exact h
    next hne =>
      rw [map_cons, pairwise_cons]
      refine ⟨fun k' hk' => ?_, ih h.2⟩
      rcases mem_setItem dateEq hk' with hk' | rfl
      · exact h.1 k' hk'
      · simpa using hne

theorem pairwise_pyDict (entries : List (Scalar Date × V)) :
    ((pyDict dateEq entries).map Prod.fst).Pairwise fun a b => keyEq dateEq a b = false := by
  suffices h : ∀ d : List (Scalar Date × V),
      (d.map Prod.fst).Pairwise (fun a b => keyEq dateEq a b = false) →
      ((entries.foldl (fun d e => setItem dateEq d e.1 e.2) d).map Prod.fst).Pairwise
        fun a b => keyEq dateEq a b = false from h [] List.Pairwise.nil
  induction entries with
  | nil => exact fun d hd => hd
  | cons e rest ih => exact fun d hd => ih _ (pairwise_setItem dateEq e.1 e.2 hd)

end

/-! ## What was checked -/

variable {tokens : List (List ℕ × ℤ)} {hids : List (List ℕ × ℕ)} {pairs : List (ℤ × ℕ)}

/-- An entry of the tokens dict, where its key is a string and its value a
token. -/
theorem keys_of_mapM {py : Python} {entries : List (Scalar py.Date × Decoded py.Date)}
    (h : (entries.mapM fun e =>
      match e with
      | (.str key, v) => (token? v).map (key, ·)
      | _ => none) = some tokens) :
    entries.map Prod.fst = tokens.map fun t => .str t.1 := by
  induction entries generalizing tokens with
  | nil =>
    obtain rfl : [] = tokens := by simpa using h
    rfl
  | cons e rest ih =>
    simp only [mapM_cons, Option.bind_eq_bind, Option.bind_eq_some_iff, Option.pure_def,
      Option.some.injEq] at h
    obtain ⟨t, ht, ts, hts, rfl⟩ := h
    rw [map_cons, map_cons, ih hts]
    split at ht
    · obtain ⟨z, -, rfl⟩ := Option.map_eq_some_iff.1 ht
      rfl
    · cases ht

/-- The names of the tokens differ. -/
theorem tokensOf_nodup {py : Python} {d : Decoded py.Date} (h : tokensOf py d = some tokens) :
    (tokens.map Prod.fst).Nodup := by
  obtain ⟨entries, hd, hm⟩ := Option.bind_eq_some_iff.1 h
  have hpair : (entries.map Prod.fst).Pairwise fun a b => keyEq py.dateEq a b = false := by
    unfold dictOf at hd
    split at hd
    · cases hd
      exact pairwise_pyDict _ _
    · obtain ⟨es, -, rfl⟩ := Option.map_eq_some_iff.1 hd
      exact pairwise_pyDict _ _
    · cases hd
  rw [keys_of_mapM hm, pairwise_map] at hpair
  rw [List.Nodup, pairwise_map]
  refine hpair.imp fun {a b} hab heq => ?_
  simp [keyEq, Scalar.numKey, heq] at hab

/-- **The tokens a bind may register**: one for each of its ids. -/
structure Registers (hids : List ℕ) (tokens : List (ℤ × ℕ)) : Prop where
  mem : ∀ e ∈ tokens, e.2 ∈ hids
  nodup : (tokens.map Prod.snd).Nodup
  all : ∀ h ∈ hids, ∃ token, (token, h) ∈ tokens

theorem registers_single (token : ℤ) (hid : ℕ) : Registers [hid] [(token, hid)] where
  mem := by simp
  nodup := by simp
  all := by simp

/-- Where the names differ, an entry is found under its name. -/
theorem lookup_of_mem (hkeys : (hids.map Prod.fst).Nodup)
    {key : List ℕ} {h : ℕ} (hmem : (key, h) ∈ hids) : hids.lookup key = some h := by
  induction hids with
  | nil => cases hmem
  | cons e rest ih =>
    obtain ⟨k, h'⟩ := e
    rw [map_cons, nodup_cons] at hkeys
    rcases mem_cons.1 hmem with heq | hrest
    · cases heq
      simp
    · have hne : key ≠ k := by
        rintro rfl
        exact hkeys.1 (mem_map.2 ⟨_, hrest, rfl⟩)
      simp [lookup_cons, beq_false_of_ne hne, ih hkeys.2 hrest]

theorem mem_of_lookup {key : List ℕ} {h : ℕ} (hl : hids.lookup key = some h) : (key, h) ∈ hids := by
  obtain ⟨before, after, rfl, -⟩ := lookup_eq_some_iff.1 hl
  simp

/-- The tokens by id are those by name. -/
theorem mem_mapM_lookup (h : (tokens.mapM fun e => (hids.lookup e.1).map (e.2, ·)) = some pairs) :
    List.Forall₂ (fun e p => p.1 = e.2 ∧ (e.1, p.2) ∈ hids) tokens pairs := by
  induction tokens generalizing pairs with
  | nil =>
    obtain rfl : [] = pairs := by simpa using h
    exact List.Forall₂.nil
  | cons e rest ih =>
    simp only [mapM_cons, Option.bind_eq_bind, Option.bind_eq_some_iff, Option.pure_def,
      Option.some.injEq] at h
    obtain ⟨p, hp, ps, hps, rfl⟩ := h
    obtain ⟨hid, hl, rfl⟩ := Option.map_eq_some_iff.1 hp
    exact List.Forall₂.cons ⟨rfl, mem_of_lookup hl⟩ (ih hps)

theorem exists_left_of_forall₂ {α β : Type} {R : α → β → Prop} {l : List α} {l' : List β}
    (h : List.Forall₂ R l l') {b : β} (hb : b ∈ l') : ∃ a ∈ l, R a b := by
  induction h with
  | nil => cases hb
  | @cons x y xs ys hxy _ ih =>
    rcases mem_cons.1 hb with rfl | hb
    · exact ⟨x, mem_cons_self, hxy⟩
    · obtain ⟨a, ha, hr⟩ := ih hb
      exact ⟨a, mem_cons_of_mem _ ha, hr⟩

/-- Different names stand for different ids. -/
theorem nodup_hids_of_forall₂ (hids_nodup : (hids.map Prod.snd).Nodup)
    (hf : List.Forall₂ (fun e p => p.1 = e.2 ∧ (e.1, p.2) ∈ hids) tokens pairs)
    (hnames : (tokens.map Prod.fst).Nodup) : (pairs.map Prod.snd).Nodup := by
  induction hf with
  | nil => exact nodup_nil
  | @cons e p es ps hep hrest ih =>
    rw [map_cons, nodup_cons] at hnames ⊢
    refine ⟨fun hmem => hnames.1 ?_, ih hnames.2⟩
    obtain ⟨p', hp', heq⟩ := mem_map.1 hmem
    obtain ⟨e', he', -, hin⟩ := exists_left_of_forall₂ hrest hp'
    have hsame := inj_on_of_nodup_map hids_nodup hin hep.2 heq
    exact mem_map.2 ⟨e', he', (Prod.mk.inj hsame).1⟩

/-- **What `bind_object` accepts** is a token for each of its ids. -/
theorem objectTokens_registers {py : Python} {d : Decoded py.Date}
    (hkeys : (hids.map Prod.fst).Nodup) (hnodup : (hids.map Prod.snd).Nodup)
    (h : objectTokens py hids d = some pairs) : Registers (hids.map Prod.snd) pairs := by
  obtain ⟨tokens, ht, h⟩ := Option.bind_eq_some_iff.1 h
  split at h
  next hall =>
    have hf := mem_mapM_lookup h
    refine ⟨fun p hp => ?_, nodup_hids_of_forall₂ hnodup hf (tokensOf_nodup ht), fun hid hh => ?_⟩
    · obtain ⟨e, -, -, hin⟩ := exists_left_of_forall₂ hf hp
      exact mem_map.2 ⟨_, hin, rfl⟩
    · obtain ⟨⟨key, k⟩, hmem, rfl⟩ := mem_map.1 hh
      have hname : key ∈ tokens.map Prod.fst := by
        simpa using all_eq_true.1 hall _ hmem
      obtain ⟨e, he, rfl⟩ := mem_map.1 hname
      obtain ⟨p, hp, hpe, hin⟩ := exists_left_of_forall₂ hf.flip he
      refine ⟨p.1, ?_⟩
      have hk : p.2 = k := by
        have h1 := lookup_of_mem hkeys hin
        rw [lookup_of_mem hkeys hmem] at h1
        exact (Option.some.inj h1).symm
      rwa [← hk]
  · cases h

/-! ## The table -/

/-- **What `_register_token` leaves behind**: some of the tokens are in the
table, no token twice. All are if none was taken, and else the worker is
killed. -/
structure Registered (tokens : List (ℤ × ℕ)) (w : World) (r : Bool × World) : Prop where
  done : ∃ done, done <+: tokens ∧ r.2.rt.tokenToHid = w.rt.tokenToHid ++ done
  nodup : (w.rt.tokenToHid.map Prod.fst).Nodup → (r.2.rt.tokenToHid.map Prod.fst).Nodup
  handlers : r.2.rt.handlers.Sublist w.rt.handlers
  same : r.2.rt.nextHid = w.rt.nextHid ∧ r.2.rt.hostCalls = w.rt.hostCalls ∧
    r.2.rt.asyncInflight = w.rt.asyncInflight ∧ r.2.rt.accepted = w.rt.accepted
  killed : w.rt.killed = true → r.2.rt.killed = true
  taken : r.1 = false → r.2.rt.killed = true
  all : r.1 = true → r.2.rt.tokenToHid = w.rt.tokenToHid ++ tokens

theorem registerTokens_registered (tokens : List (ℤ × ℕ)) (w : World) :
    Registered tokens w (registerTokens tokens w) := by
  induction tokens generalizing w with
  | nil =>
    exact ⟨⟨[], prefix_rfl, by simp [registerTokens]⟩, id, List.Sublist.refl _,
      ⟨rfl, rfl, rfl, rfl⟩, id, by simp [registerTokens], by simp [registerTokens]⟩
  | cons e rest ih =>
    obtain ⟨token, hid⟩ := e
    unfold registerTokens
    split
    · exact ⟨⟨[], nil_prefix, by simp [World.kill, Runtime.popAll]⟩, id, filter_sublist,
        ⟨rfl, rfl, rfl, rfl⟩, fun _ => rfl, fun _ => rfl, by simp⟩
    next hfree =>
      have h := ih { w with rt := { w.rt with tokenToHid := w.rt.tokenToHid ++ [(token, hid)] } }
      obtain ⟨done, hpre, hdone⟩ := h.done
      refine ⟨⟨(token, hid) :: done, ?_, ?_⟩, fun hn => h.nodup ?_, h.handlers, h.same, h.killed,
        h.taken, fun hr => ?_⟩
      · exact (prefix_cons_inj _).2 hpre
      · rw [hdone, append_assoc, singleton_append]
      · rw [map_append, nodup_append]
        refine ⟨hn, by simp, ?_⟩
        intro a ha b hb heq
        subst heq
        obtain ⟨e, he, rfl⟩ := mem_map.1 ha
        obtain rfl : e.1 = token := by simpa using hb
        exact hfree (any_eq_true.2 ⟨e, he, by simp⟩)
      · rw [h.all hr, append_assoc, singleton_append]

end Pydeno.Isolated
