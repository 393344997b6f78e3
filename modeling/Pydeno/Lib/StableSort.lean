import Mathlib

/-!
# Stable sorting by a key

`sortBy key` is the stable sort of a list by a key. What characterises it
is that its result is sorted and that the elements of each key keep their
order: `eq_of_sorted_of_filter` says the two together leave no freedom, so
two programs that sort stably agree as soon as they list the elements of
each key in the same order, however they interleave the keys. `keepFirst`
drops repeated elements as they are met, and commutes with the sort.
-/

namespace Pydeno

open List

variable {α β κ ι : Type*} [LinearOrder κ] [DecidableEq ι]

/-- The comparison of two elements by their keys. -/
def leBy (key : α → κ) (a b : α) : Bool := decide (key a ≤ key b)

theorem leBy_trans (key : α → κ) (a b c : α) (hab : leBy key a b = true)
    (hbc : leBy key b c = true) : leBy key a c = true := by
  simp only [leBy, decide_eq_true_eq] at *
  exact le_trans hab hbc

theorem leBy_total (key : α → κ) (a b : α) : (leBy key a b || leBy key b a) = true := by
  simp only [leBy, Bool.or_eq_true, decide_eq_true_eq]
  exact le_total _ _

/-- Sort by a key, keeping the order of elements with equal keys. -/
def sortBy (key : α → κ) (l : List α) : List α := l.mergeSort (leBy key)

/-- A list is in ascending order of its keys. -/
def SortedBy (key : α → κ) (l : List α) : Prop := l.Pairwise fun a b => key a ≤ key b

theorem sortBy_sorted (key : α → κ) (l : List α) : SortedBy key (sortBy key l) := by
  have h := pairwise_mergeSort (leBy_trans key) (leBy_total key) l
  exact h.imp fun {a b} h => by simpa [leBy] using h

theorem sortBy_perm (key : α → κ) (l : List α) : (sortBy key l).Perm l :=
  mergeSort_perm l _

/-- **The sort is stable**: the elements of one key come out in the order
they went in. -/
theorem filter_sortBy (key : α → κ) (l : List α) (k : κ) :
    (sortBy key l).filter (fun a => key a = k) = l.filter (fun a => key a = k) := by
  have hp : (l.filter fun a => key a = k).Pairwise fun a b => leBy key a b = true := by
    rw [pairwise_filter]
    refine pairwise_of_forall fun a b ha hb => ?_
    simp only [leBy, decide_eq_true_eq] at ha hb ⊢
    rw [ha, hb]
  have hsub : (l.filter fun a => key a = k).Sublist (sortBy key l) :=
    sublist_mergeSort (leBy_trans key) (leBy_total key) hp filter_sublist
  have hsub' := hsub.filter fun a => key a = k
  rw [filter_filter, show (fun a => (decide (key a = k) && decide (key a = k)))
    = (fun a => decide (key a = k)) by funext a; simp] at hsub'
  exact (hsub'.eq_of_length ((sortBy_perm key l).filter _).length_eq.symm).symm

/-- **Sorted and stable leaves no freedom.** Two sorted lists that agree
on the elements of every key are the same list. -/
theorem eq_of_sorted_of_filter (key : α → κ) : ∀ {l1 l2 : List α}, SortedBy key l1 →
    SortedBy key l2 →
    (∀ k, l1.filter (fun a => key a = k) = l2.filter (fun a => key a = k)) → l1 = l2 := by
  intro l1
  induction l1 with
  | nil =>
    intro l2 _ _ hf
    cases l2 with
    | nil => rfl
    | cons b t =>
      have := hf (key b)
      simp at this
  | cons a t ih =>
    intro l2 h1 h2 hf
    cases l2 with
    | nil =>
      have := hf (key a)
      simp at this
    | cons b t' =>
      -- each head occurs in the other list, so neither key is below the other
      have hba : key b ≤ key a := by
        have ha : a ∈ (b :: t').filter fun x => key x = key a := by
          rw [← hf (key a)]; simp
        rcases mem_cons.mp (mem_filter.mp ha).1 with h | h
        · rw [h]
        · exact (pairwise_cons.mp h2).1 a h
      have hab : key a ≤ key b := by
        have hb : b ∈ (a :: t).filter fun x => key x = key b := by
          rw [hf (key b)]; simp
        rcases mem_cons.mp (mem_filter.mp hb).1 with h | h
        · rw [h]
        · exact (pairwise_cons.mp h1).1 b h
      have hk : key b = key a := le_antisymm hba hab
      have hhead := hf (key a)
      simp only [filter_cons, decide_true, if_true, hk, List.cons.injEq] at hhead
      obtain ⟨rfl, -⟩ := hhead
      congr 1
      refine ih (pairwise_cons.mp h1).2 (pairwise_cons.mp h2).2 fun k => ?_
      have := hf k
      by_cases hka : key a = k
      · simpa [filter_cons, hka] using this
      · simpa [filter_cons, hka] using this

/-! ## Dropping repeats -/

/-- Keep the first element of each `id`, given the ones already seen. -/
def keepFirstFrom (id : α → ι) : List ι → List α → List α
  | _, [] => []
  | seen, a :: l =>
      if id a ∈ seen then keepFirstFrom id seen l else a :: keepFirstFrom id (id a :: seen) l

/-- **Keep the first element of each `id`.** -/
def keepFirst (id : α → ι) (l : List α) : List α := keepFirstFrom id [] l

theorem keepFirstFrom_congr (id : α → ι) : ∀ (l : List α) {s s' : List ι},
    (∀ a ∈ l, (id a ∈ s ↔ id a ∈ s')) → keepFirstFrom id s l = keepFirstFrom id s' l := by
  intro l
  induction l with
  | nil => intro s s' _; rfl
  | cons a l ih =>
    intro s s' h
    have ha := h a (by simp)
    by_cases hs : id a ∈ s
    · rw [keepFirstFrom, keepFirstFrom, if_pos hs, if_pos (ha.mp hs)]
      exact ih fun b hb => h b (by simp [hb])
    · rw [keepFirstFrom, keepFirstFrom, if_neg hs, if_neg fun h' => hs (ha.mpr h')]
      congr 1
      refine ih fun b hb => ?_
      simp only [mem_cons, h b (mem_cons_of_mem a hb)]

/-- Only which ids are equal matters. -/
theorem keepFirst_congr {ι' : Type*} [DecidableEq ι'] {id : α → ι} {id' : α → ι'} (l : List α)
    (h : ∀ a ∈ l, ∀ b ∈ l, (id a = id b ↔ id' a = id' b)) : keepFirst id l = keepFirst id' l := by
  have go : ∀ (l s : List α), (∀ a ∈ l ++ s, ∀ b ∈ l ++ s, (id a = id b ↔ id' a = id' b)) →
      keepFirstFrom id (s.map id) l = keepFirstFrom id' (s.map id') l := by
    intro l
    induction l with
    | nil => intro s _; rfl
    | cons a l ih =>
      intro s h
      have hmem : id a ∈ s.map id ↔ id' a ∈ s.map id' := by
        rw [mem_map, mem_map]
        exact exists_congr fun b => and_congr_right fun hb =>
          h b (mem_append_right _ hb) a (by simp)
      rw [keepFirstFrom, keepFirstFrom]
      by_cases ha : id a ∈ s.map id
      · rw [if_pos ha, if_pos (hmem.mp ha)]
        exact ih s fun x hx y hy => h x (by simp at hx ⊢; tauto) y (by simp at hy ⊢; tauto)
      · rw [if_neg ha, if_neg fun h' => ha (hmem.mpr h')]
        congr 1
        exact ih (a :: s) fun x hx y hy => h x (by simp at hx ⊢; tauto) y (by simp at hy ⊢; tauto)
  exact go l [] (by simpa using h)

/-- What is kept is listed in the original order. -/
theorem keepFirstFrom_sublist (id : α → ι) : ∀ (l : List α) (s : List ι),
    (keepFirstFrom id s l).Sublist l := by
  intro l
  induction l with
  | nil => intro s; exact List.Sublist.refl _
  | cons a l ih =>
    intro s
    rw [keepFirstFrom]
    split
    · exact (ih s).cons a
    · exact (ih _).cons_cons a

/-- **Dropping repeats reads one key at a time**, when elements with the
same `id` have the same key. -/
theorem filter_keepFirstFrom (id : α → ι) (key : α → κ)
    (hid : ∀ a b, id a = id b → key a = key b) (k : κ) : ∀ (l : List α) (s : List ι),
    (keepFirstFrom id s l).filter (fun a => key a = k)
      = keepFirstFrom id s (l.filter fun a => key a = k) := by
  intro l
  induction l with
  | nil => intro s; rfl
  | cons a l ih =>
    intro s
    by_cases hs : id a ∈ s
    · rw [keepFirstFrom, if_pos hs, ih]
      by_cases hk : key a = k
      · simp only [filter_cons, hk, decide_true, if_true, keepFirstFrom, if_pos hs]
      · simp only [filter_cons, hk, decide_false, Bool.false_eq_true, if_false]
    · rw [keepFirstFrom, if_neg hs]
      by_cases hk : key a = k
      · simp only [filter_cons, hk, decide_true, if_true, keepFirstFrom, if_neg hs, ih]
      · simp only [filter_cons, hk, decide_false, Bool.false_eq_true, if_false, ih]
        refine keepFirstFrom_congr id _ fun b hb => ?_
        have hb' := (mem_filter.mp hb).2
        simp only [decide_eq_true_eq] at hb'
        have hne : id b ≠ id a := fun h => hk (by rw [← hid b a h, hb'])
        simp [hne]

theorem keepFirst_map (f : β → α) (id : α → ι) (l : List β) :
    keepFirst id (l.map f) = (keepFirst (fun b => id (f b)) l).map f := by
  have go : ∀ (l : List β) (s : List ι),
      keepFirstFrom id s (l.map f) = (keepFirstFrom (fun b => id (f b)) s l).map f := by
    intro l
    induction l with
    | nil => intro s; rfl
    | cons b l ih =>
      intro s
      simp only [map_cons, keepFirstFrom]
      split
      · exact ih s
      · rw [map_cons, ih]
  exact go l []

/-- **Sorting and dropping repeats commute.** -/
theorem keepFirst_sortBy (id : α → ι) (key : α → κ) (hid : ∀ a b, id a = id b → key a = key b)
    (l : List α) : keepFirst id (sortBy key l) = sortBy key (keepFirst id l) := by
  refine eq_of_sorted_of_filter key ?_ (sortBy_sorted key _) fun k => ?_
  · exact (sortBy_sorted key l).sublist (keepFirstFrom_sublist id _ _)
  · rw [filter_sortBy, keepFirst, filter_keepFirstFrom id key hid, filter_sortBy, keepFirst,
      filter_keepFirstFrom id key hid]

/-- **Two lists that agree key by key sort to the same list.** -/
theorem sortBy_eq_of_filter (key : α → κ) {l1 l2 : List α}
    (h : ∀ k, l1.filter (fun a => key a = k) = l2.filter (fun a => key a = k)) :
    sortBy key l1 = sortBy key l2 :=
  eq_of_sorted_of_filter key (sortBy_sorted key _) (sortBy_sorted key _) fun k => by
    rw [filter_sortBy, filter_sortBy, h k]

/-- **Interleaving does not show**: what two producers list for each `x` may
come together or one producer after the other, when different `x` have
different keys. -/
theorem filter_flatMap_append {γ : Type*} (key : α → κ) (at_ : γ → κ) (f g : γ → List α) (k : κ) :
    ∀ {l : List γ}, (∀ x ∈ l, ∀ a ∈ f x ++ g x, key a = at_ x) →
    l.Pairwise (fun x y => at_ x ≠ at_ y) →
    (l.flatMap fun x => f x ++ g x).filter (fun a => key a = k)
      = (l.flatMap f ++ l.flatMap g).filter fun a => key a = k := by
  -- a producer lists nothing at another key
  have hnone : ∀ (h : List α) (k' : κ), (∀ a ∈ h, key a = k') → k' ≠ k →
      h.filter (fun a => key a = k) = [] := by
    intro h k' hh hk
    rw [filter_eq_nil_iff]
    intro a ha
    rw [hh a ha, decide_eq_true_eq]
    exact hk
  intro l
  induction l with
  | nil => intro _ _; rfl
  | cons x l ih =>
    intro hfg hl
    obtain ⟨hx, hl⟩ := pairwise_cons.mp hl
    have hf : ∀ y ∈ x :: l, ∀ a ∈ f y, key a = at_ y := fun y hy a ha =>
      hfg y hy a (mem_append_left _ ha)
    have hg : ∀ y ∈ x :: l, ∀ a ∈ g y, key a = at_ y := fun y hy a ha =>
      hfg y hy a (mem_append_right _ ha)
    have ih := ih (fun y hy => hfg y (mem_cons_of_mem x hy)) hl
    simp only [flatMap_cons, filter_append, append_assoc] at ih ⊢
    rw [ih]
    by_cases hk : at_ x = k
    · -- the rest lists nothing at this key
      have hrest : (l.flatMap f).filter (fun a => key a = k) = [] := by
        rw [filter_flatMap, flatMap_eq_nil_iff]
        exact fun y hy => hnone _ _ (hf y (mem_cons_of_mem x hy))
          fun heq => hx y hy (hk.trans heq.symm)
      rw [hrest, nil_append, nil_append]
    · rw [hnone _ _ (hf x (by simp)) hk, hnone _ _ (hg x (by simp)) hk]
      rfl

/-- A change of representation that keeps the order of the keys goes
through the sort. -/
theorem sortBy_map {κ' : Type*} [LinearOrder κ'] (f : β → α) (key : α → κ) (key' : β → κ')
    (h : ∀ a b, key' a ≤ key' b ↔ key (f a) ≤ key (f b)) (l : List β) :
    sortBy key (l.map f) = (sortBy key' l).map f := by
  rw [sortBy, sortBy, map_mergeSort]
  intro a _ b _
  simp only [leBy, h a b]

end Pydeno
