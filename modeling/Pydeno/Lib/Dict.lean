import Mathlib
/-!
# Dictionaries in order of insertion

A Python dictionary: distinct keys, entries in the order their keys were first
set. Setting a key that is there replaces its value in place. The keys'
distinctness is part of the structure, so an entry found under a key splits the
entries around it (`split_of_get?`), which is what counting arguments over the
values use.
-/

namespace Pydeno

open List

/-- **A dictionary.** -/
structure Dict (K V : Type*) where
  entries : List (K × V)
  nodup : (entries.map Prod.fst).Nodup

namespace Dict

variable {K V : Type*} [DecidableEq K]

def empty : Dict K V := ⟨[], nodup_nil⟩

/-- `d.get(k)` -/
def get? (d : Dict K V) (k : K) : Option V := (d.entries.find? fun e => e.1 = k).map Prod.snd

/-- `{k: v for k, v in d.items() if keep(k, v)}` -/
def filter (d : Dict K V) (keep : K × V → Bool) : Dict K V :=
  ⟨d.entries.filter keep, d.nodup.sublist (filter_sublist.map _)⟩

/-- `d.pop(k, None)` -/
def erase (d : Dict K V) (k : K) : Dict K V := d.filter fun e => e.1 ≠ k

theorem map_fst_replace (l : List (K × V)) (k : K) (v : V) :
    (l.map fun e => if e.1 = k then (k, v) else e).map Prod.fst = l.map Prod.fst := by
  rw [map_map]
  refine map_congr_left fun e _ => ?_
  simp only [Function.comp_apply]
  split
  next h =>
    exact h.symm
  · rfl

theorem nodup_set (d : Dict K V) (k : K) (v : V) :
    ((if d.entries.any (fun e => e.1 = k) then d.entries.map fun e => if e.1 = k then (k, v) else e
      else d.entries ++ [(k, v)]).map Prod.fst).Nodup := by
  split
  · rw [map_fst_replace]
    exact d.nodup
  next h =>
    rw [map_append, nodup_append]
    refine ⟨d.nodup, by simp, fun a ha b hb heq => h ?_⟩
    obtain ⟨e, he, rfl⟩ := mem_map.1 ha
    obtain rfl : b = k := by simpa using hb
    exact any_eq_true.2 ⟨e, he, by simpa using heq⟩

/-- `d[k] = v` -/
def set (d : Dict K V) (k : K) (v : V) : Dict K V :=
  ⟨if d.entries.any (fun e => e.1 = k) then d.entries.map fun e => if e.1 = k then (k, v) else e
    else d.entries ++ [(k, v)], nodup_set d k v⟩

variable {d : Dict K V} {k : K} {v : V}

theorem mem_of_get? (h : d.get? k = some v) : (k, v) ∈ d.entries := by
  obtain ⟨e, he, rfl⟩ := Option.map_eq_some_iff.1 h
  have hk : e.1 = k := by simpa using List.find?_some he
  rw [← hk]
  exact mem_of_find?_eq_some he

theorem get?_of_mem (h : (k, v) ∈ d.entries) : d.get? k = some v := by
  unfold get?
  cases hf : d.entries.find? fun e => e.1 = k with
  | none => exact absurd (List.find?_eq_none.1 hf _ h) (by simp)
  | some e =>
    have hk : e.1 = k := by simpa using List.find?_some hf
    have he := inj_on_of_nodup_map d.nodup (mem_of_find?_eq_some hf) h hk
    simp [he]

theorem get?_eq_some_iff : d.get? k = some v ↔ (k, v) ∈ d.entries := ⟨mem_of_get?, get?_of_mem⟩

theorem get?_eq_none_iff : d.get? k = none ↔ ∀ v, (k, v) ∉ d.entries := by
  constructor
  · intro h v hv
    rw [get?_of_mem hv] at h
    cases h
  · intro h
    cases hg : d.get? k with
    | none => rfl
    | some v => exact absurd (mem_of_get? hg) (h v)

/-- **The entries around a key.** -/
theorem split_of_get? (h : d.get? k = some v) :
    ∃ before after, d.entries = before ++ (k, v) :: after ∧
      (∀ v', (d.set k v').entries = before ++ (k, v') :: after) ∧
      (d.erase k).entries = before ++ after := by
  have hmem := mem_of_get? h
  obtain ⟨before, after, hsplit⟩ := append_of_mem hmem
  have hnodup := d.nodup
  rw [hsplit, map_append, map_cons, nodup_append, nodup_cons] at hnodup
  obtain ⟨-, ⟨hafter, -⟩, hapart⟩ := hnodup
  -- no other entry has this key
  have hb : ∀ e ∈ before, e.1 ≠ k := fun e he heq =>
    hapart e.1 (mem_map.2 ⟨e, he, rfl⟩) k mem_cons_self heq
  have ha : ∀ e ∈ after, e.1 ≠ k := fun e he heq => hafter (mem_map.2 ⟨e, he, heq⟩)
  refine ⟨before, after, hsplit, fun v' => ?_, ?_⟩
  · have hany : d.entries.any (fun e => e.1 = k) = true := any_eq_true.2 ⟨_, hmem, by simp⟩
    have hsame : ∀ l : List (K × V), (∀ e ∈ l, e.1 ≠ k) →
        (l.map fun e => if e.1 = k then (k, v') else e) = l := by
      intro l hl
      calc (l.map fun e => if e.1 = k then (k, v') else e) = l.map id :=
            map_congr_left fun e he => if_neg (hl e he)
        _ = l := map_id l
    simp only [set, if_pos hany]
    simp only [hsplit, map_append, map_cons, hsame before hb, hsame after ha, if_true]
  · have hkeep : ∀ l : List (K × V), (∀ e ∈ l, e.1 ≠ k) → l.filter (fun e => e.1 ≠ k) = l := by
      intro l hl
      rw [filter_eq_self]
      exact fun e he => by simpa using hl e he
    simp only [erase, filter, hsplit, filter_append, filter_cons, hkeep before hb, hkeep after ha]
    simp

theorem entries_set_of_get?_none (h : d.get? k = none) (v : V) :
    (d.set k v).entries = d.entries ++ [(k, v)] := by
  have hany : ¬ d.entries.any (fun e => e.1 = k) = true := by
    intro hany
    obtain ⟨e, he, hk⟩ := any_eq_true.1 hany
    obtain rfl : e.1 = k := by simpa using hk
    exact get?_eq_none_iff.1 h e.2 he
  simp only [set, if_neg hany]

theorem mem_set {k' : K} {v v' : V} :
    (k', v') ∈ (d.set k v).entries ↔ (k' = k ∧ v' = v) ∨ (k' ≠ k ∧ (k', v') ∈ d.entries) := by
  cases hg : d.get? k with
  | none =>
    rw [entries_set_of_get?_none hg]
    have hne : (k', v') ∈ d.entries → k' ≠ k := by
      rintro hmem rfl
      exact get?_eq_none_iff.1 hg v' hmem
    simp only [mem_append, mem_singleton, Prod.mk.injEq]
    tauto
  | some old =>
    obtain ⟨before, after, hsplit, hset, herase⟩ := split_of_get? hg
    have hrest : (k', v') ∈ before ++ after ↔ k' ≠ k ∧ (k', v') ∈ d.entries := by
      rw [← herase]
      simp only [erase, filter, mem_filter, decide_eq_true_eq, and_comm]
    rw [hset v, ← hrest]
    simp only [mem_append, mem_cons, Prod.mk.injEq]
    tauto

@[simp] theorem get?_set_self : (d.set k v).get? k = some v :=
  get?_eq_some_iff.2 (mem_set.2 (.inl ⟨rfl, rfl⟩))

theorem get?_set_ne {k' : K} (h : k' ≠ k) : (d.set k v).get? k' = d.get? k' := by
  ext v'
  simp only [get?_eq_some_iff, mem_set, h, false_and, false_or, ne_eq, not_false_eq_true, true_and]

@[simp] theorem get?_erase_self : (d.erase k).get? k = none := by
  rw [get?_eq_none_iff]
  intro v hmem
  simp [erase, filter] at hmem

theorem get?_erase_ne {k' : K} (h : k' ≠ k) : (d.erase k).get? k' = d.get? k' := by
  ext v'
  simp [get?_eq_some_iff, erase, filter, h]

theorem get?_set (d : Dict K V) (k k' : K) (v : V) :
    (d.set k v).get? k' = if k' = k then some v else d.get? k' := by
  split
  next h =>
    rw [h, get?_set_self]
  next h =>
    exact get?_set_ne h

theorem get?_erase (d : Dict K V) (k k' : K) :
    (d.erase k).get? k' = if k' = k then none else d.get? k' := by
  split
  next h =>
    rw [h, get?_erase_self]
  next h =>
    exact get?_erase_ne h

theorem get?_empty (k : K) : (empty : Dict K V).get? k = none := rfl

theorem get?_filter {keep : K × V → Bool} (h : d.get? k = some v) (hkeep : keep (k, v) = true) :
    (d.filter keep).get? k = some v :=
  get?_eq_some_iff.2 (mem_filter.2 ⟨mem_of_get? h, hkeep⟩)

/-! ### Weights -/

/-- **The weight of the entries once a key is gone.** -/
theorem sum_erase (h : d.get? k = some v) (weight : K × V → ℕ) :
    ((d.erase k).entries.map weight).sum + weight (k, v) = (d.entries.map weight).sum := by
  obtain ⟨before, after, hsplit, -, herase⟩ := split_of_get? h
  rw [hsplit, herase]
  simp only [map_append, map_cons, sum_append, sum_cons]
  omega

/-- **The weight of the entries once a key has another value.** -/
theorem sum_set (h : d.get? k = some v) (weight : K × V → ℕ) (v' : V) :
    ((d.set k v').entries.map weight).sum + weight (k, v) =
      (d.entries.map weight).sum + weight (k, v') := by
  obtain ⟨before, after, hsplit, hset, -⟩ := split_of_get? h
  rw [hsplit, hset]
  simp only [map_append, map_cons, sum_append, sum_cons]
  omega

omit [DecidableEq K] in
/-- **The weight of the entries that are kept and of those that are not.** -/
theorem sum_filter (d : Dict K V) (keep : K × V → Bool) (weight : K × V → ℕ) :
    ((d.filter keep).entries.map weight).sum +
        ((d.entries.filter fun e => !keep e).map weight).sum =
      (d.entries.map weight).sum := by
  have h := ((filter_append_perm keep d.entries).map weight).sum_eq
  rwa [map_append, sum_append] at h

/-! ### Removals -/

section

variable {d' : Dict K V} {added : List (K × V)}

end

end Dict

end Pydeno
